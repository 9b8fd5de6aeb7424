import Mathlib.Algebra.BigOperators.Group.List.Basic
import Mathlib.Algebra.Order.BigOperators.Group.List
import Mathlib.Algebra.Order.Ring.Abs
import Mathlib.Algebra.Order.Ring.Int
import Mathlib.Tactic.Linarith
import Mathlib.Tactic.LinearCombination
import Mathlib.Tactic.Ring

/-!
# Means of integers

The mean is the sum divided by the length, where the division truncates towards zero.
It lies between bounds of the values. Where the values are close to one number, the
truncation costs it less than one.
-/

namespace Framework

/-- The quotient of a sum and a length, truncated. -/
def mean (xs : List Int) : Int := xs.sum.tdiv xs.length

variable {xs : List Int} {a b t d : Int}

theorem length_pos_int (hne : xs ≠ []) : (0 : Int) < xs.length := by
  exact_mod_cast List.length_pos_iff.mpr hne

theorem le_mean (hne : xs ≠ []) (h : ∀ x ∈ xs, a ≤ x) : a ≤ mean xs := by
  apply Int.le_tdiv_of_mul_le (length_pos_int hne)
  have hsum := List.card_nsmul_le_sum xs a h
  rwa [nsmul_eq_mul, mul_comm] at hsum

theorem mean_le (hne : xs ≠ []) (h : ∀ x ∈ xs, x ≤ b) : mean xs ≤ b := by
  have hsum := List.sum_le_card_nsmul xs b h
  rw [nsmul_eq_mul] at hsum
  have hquot := Int.tdiv_le_tdiv (length_pos_int hne) hsum
  rwa [Int.mul_tdiv_cancel_left _ (length_pos_int hne).ne'] at hquot

/-- What a sum is off is at most what its terms are. -/
theorem two_mul_abs_sum_sub_le (h : ∀ x ∈ xs, 2 * |x - t| ≤ d) :
    2 * |xs.sum - xs.length * t| ≤ xs.length * d := by
  induction xs with
  | nil => simp
  | cons x xs ih =>
      have hx := h x List.mem_cons_self
      have hxs := ih fun y hy => h y (List.mem_cons_of_mem x hy)
      have hsplit : (x :: xs).sum - ((x :: xs).length : Int) * t =
          (x - t) + (xs.sum - xs.length * t) := by
        rw [List.sum_cons, List.length_cons]
        push_cast
        ring
      have htri := abs_add_le (x - t) (xs.sum - xs.length * t)
      rw [hsplit, List.length_cons]
      push_cast
      linarith

/-- A truncated quotient is less than one off. -/
theorem two_mul_abs_tdiv_sub_le {s c : Int} (hc : 0 < c) (h : 2 * |s - c * t| ≤ c * d) :
    2 * |s.tdiv c - t| ≤ d + 1 := by
  have hquot : c * s.tdiv c + s.tmod c = s := Int.mul_tdiv_add_tmod s c
  have hrem : |s.tmod c| < c := abs_lt.mpr ⟨Int.lt_tmod_of_pos s hc, Int.tmod_lt_of_pos s hc⟩
  have hoff : c * |s.tdiv c - t| ≤ |s - c * t| + |s.tmod c| := by
    calc c * |s.tdiv c - t| = |c * (s.tdiv c - t)| := by rw [abs_mul, abs_of_pos hc]
      _ = |(s - c * t) - s.tmod c| := by
          congr 1
          linear_combination hquot
      _ ≤ |s - c * t| + |s.tmod c| := abs_sub _ _
  have hlt : c * (2 * |s.tdiv c - t|) < c * (d + 2) := by linarith
  have := lt_of_mul_lt_mul_left hlt hc.le
  omega

theorem two_mul_abs_mean_sub_le (hne : xs ≠ []) (h : ∀ x ∈ xs, 2 * |x - t| ≤ d) :
    2 * |mean xs - t| ≤ d + 1 :=
  two_mul_abs_tdiv_sub_le (length_pos_int hne) (two_mul_abs_sum_sub_le h)

end Framework
