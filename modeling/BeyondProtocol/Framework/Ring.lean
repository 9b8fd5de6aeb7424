import Mathlib.Data.Fintype.EquivFin
import Mathlib.Data.List.FinRange
import Mathlib.Data.List.Induction
import Mathlib.Data.Multiset.Basic
import Mathlib.Data.Multiset.MapFold
import Mathlib.Data.Nat.ModEq

/-!
# Fixed arrays addressed by growing positions

A position is a counter that is never reset; the slot it names is the position modulo
the capacity. Two positions less than a capacity apart name different slots, so that
what a range of positions holds is not disturbed by a write in front of it as long as
the range and the write fit in one turn of the ring. When at least a capacity of values
was written one after the other, the array holds the last ones.
-/

namespace Framework

/-- An array of `n` slots. -/
abbrev Ring (n : ℕ) (α : Type*) : Type _ := Fin n → α

namespace Ring

variable {n : ℕ} [NeZero n] {α : Type*} {i j : ℕ} {a : α}

/-- The slot of a position. -/
def slot (n : ℕ) [NeZero n] (i : ℕ) : Fin n := Fin.ofNat n i

/-- What the slot of a position holds. -/
def get (r : Ring n α) (i : ℕ) : α := r (slot n i)

def put (r : Ring n α) (i : ℕ) (a : α) : Ring n α := Function.update r (slot n i) a

/-- The positions from `start` up to `stop`. -/
def span (start stop : ℕ) : Multiset ℕ := List.range' start (stop - start)

/-- What the slots of some positions hold. -/
def read (r : Ring n α) (is : Multiset ℕ) : Multiset α := is.map r.get

/-! ## Slots -/

theorem slot_ne_of_lt (hlt : i < j) (hturn : j < i + n) : slot n i ≠ slot n j := by
  intro h
  have hmod : i % n = j % n := congrArg Fin.val h
  have hdvd : n ∣ j - i := (Nat.modEq_iff_dvd' hlt.le).mp hmod
  have := Nat.le_of_dvd (by omega) hdvd
  omega

theorem slot_ne {w : ℕ} (hi : i < w ∧ w ≤ i + n) (hj : j < w ∧ w ≤ j + n) (hne : i ≠ j) :
    slot n i ≠ slot n j := by
  rcases Nat.lt_or_gt_of_ne hne with h | h
  · exact slot_ne_of_lt h (by omega)
  · exact (slot_ne_of_lt h (by omega)).symm

/-! ## Spans -/

@[simp] theorem mem_span {start stop : ℕ} : i ∈ span start stop ↔ start ≤ i ∧ i < stop := by
  rw [span, Multiset.mem_coe, List.mem_range'_1]
  omega

@[simp] theorem card_span (start stop : ℕ) : (span start stop).card = stop - start := by
  simp [span]

theorem span_eq_zero {start stop : ℕ} (h : stop ≤ start) : span start stop = 0 := by
  simp [span, Nat.sub_eq_zero_of_le h]

theorem span_cons {start stop : ℕ} (h : start < stop) :
    span start stop = start ::ₘ span (start + 1) stop := by
  obtain ⟨k, rfl⟩ : ∃ k, stop = start + 1 + k := ⟨stop - (start + 1), by omega⟩
  have hlen : start + 1 + k - start = k + 1 := by omega
  rw [span, span, hlen, List.range'_succ, Nat.add_sub_cancel_left]
  rfl

theorem span_snoc {start stop : ℕ} (h : start ≤ stop) :
    span start (stop + 1) = stop ::ₘ span start stop := by
  obtain ⟨k, rfl⟩ : ∃ k, stop = start + k := ⟨stop - start, by omega⟩
  have hlen : start + k + 1 - start = k + 1 := by omega
  rw [span, span, hlen, List.range'_concat, Nat.add_sub_cancel_left, Nat.one_mul]
  exact Multiset.coe_eq_coe.mpr (List.perm_append_singleton _ _)

/-! ## Reading -/

@[simp] theorem get_put_self (r : Ring n α) (i : ℕ) (a : α) : (r.put i a).get i = a := by
  simp [get, put]

theorem get_congr (r : Ring n α) (h : slot n j = slot n i) : r.get j = r.get i :=
  congrArg r h

theorem get_put_of_eq (r : Ring n α) (h : slot n j = slot n i) : (r.put i a).get j = a := by
  rw [get_congr _ h, get_put_self]

theorem get_put_of_ne (r : Ring n α) (h : slot n j ≠ slot n i) :
    (r.put i a).get j = r.get j := by
  simp [get, put, h]

@[simp] theorem read_zero (r : Ring n α) : r.read 0 = 0 := rfl

@[simp] theorem read_cons (r : Ring n α) (i : ℕ) (is : Multiset ℕ) :
    r.read (i ::ₘ is) = r.get i ::ₘ r.read is :=
  Multiset.map_cons _ _ _

@[simp] theorem read_add (r : Ring n α) (is js : Multiset ℕ) :
    r.read (is + js) = r.read is + r.read js :=
  Multiset.map_add _ _ _

@[simp] theorem card_read (r : Ring n α) (is : Multiset ℕ) : (r.read is).card = is.card :=
  Multiset.card_map _ _

/-- A write leaves alone what the other slots hold. -/
theorem read_put (r : Ring n α) {is : Multiset ℕ} (h : ∀ j ∈ is, slot n j ≠ slot n i) :
    (r.put i a).read is = r.read is :=
  Multiset.map_congr rfl fun j hj => r.get_put_of_ne (h j hj)

/-! ## Writing one after the other -/

/-- The values are put at the positions from `i` on. -/
def write (r : Ring n α) (i : ℕ) : List α → Ring n α
  | [] => r
  | a :: xs => write (r.put i a) (i + 1) xs

theorem write_concat (r : Ring n α) (i : ℕ) (xs : List α) (a : α) :
    r.write i (xs ++ [a]) = (r.write i xs).put (i + xs.length) a := by
  induction xs generalizing r i with
  | nil => rfl
  | cons b xs ih =>
      rw [List.cons_append, write, write, ih, List.length_cons, Nat.add_assoc, Nat.add_comm 1]

/-- The last `k` positions hold the last `k` values. -/
theorem map_get_write (r : Ring n α) (i : ℕ) {xs : List α} {k : ℕ} (hturn : k ≤ n)
    (hk : k ≤ xs.length) :
    (List.range' (i + xs.length - k) k).map (r.write i xs).get = xs.drop (xs.length - k) := by
  induction xs using List.reverseRecOn generalizing k with
  | nil =>
      obtain rfl : k = 0 := Nat.le_zero.mp hk
      rfl
  | append_singleton xs a ih =>
      rcases k with - | k
      · simp
      rw [List.length_append, List.length_singleton] at hk ⊢
      have hstart : i + (xs.length + 1) - (k + 1) = i + xs.length - k := by omega
      have hlast : i + xs.length - k + 1 * k = i + xs.length := by omega
      have hdrop : xs.length + 1 - (k + 1) = xs.length - k := by omega
      rw [hstart, hdrop, List.range'_concat, hlast, List.map_append, write_concat,
        List.drop_append_of_le_length (Nat.sub_le _ _), ← ih (by omega) (by omega)]
      congr 1
      · apply List.map_congr_left
        intro j hj
        have hj' := List.mem_range'_1.mp hj
        exact get_put_of_ne _ (slot_ne_of_lt (by omega) (by omega))
      · rw [List.map_singleton, get_put_self]

/-- The positions of one turn name every slot once. -/
theorem ofFn_perm (r : Ring n α) (i : ℕ) :
    (List.ofFn r).Perm ((List.range' i n).map r.get) := by
  have hinj : Function.Injective fun j : Fin n => slot n (i + j) := by
    intro j k h
    by_contra hne
    rcases Nat.lt_or_gt_of_ne (Fin.val_ne_of_ne hne) with hlt | hlt
    · exact slot_ne_of_lt (by omega) (by omega) h
    · exact slot_ne_of_lt (by omega) (by omega) h.symm
  have hturn : (List.range' i n).map r.get = List.ofFn fun j : Fin n => r (slot n (i + j)) := by
    apply List.ext_getElem
    · simp
    · intro j _ _
      simp [get]
  rw [hturn]
  exact (Equiv.Perm.ofFn_comp_perm
    (Equiv.ofBijective _ (Finite.injective_iff_bijective.mp hinj)) r).symm

theorem ofFn_write_perm (r : Ring n α) (i : ℕ) {xs : List α} (h : n ≤ xs.length) :
    (List.ofFn (r.write i xs)).Perm (xs.drop (xs.length - n)) :=
  map_get_write r i le_rfl h ▸ ofFn_perm _ _

theorem slot_succ {i : ℕ} {a : Fin n} (h : a = slot n i) :
    slot n (i + 1) = if h : a + 1 < n then ⟨a + 1, h⟩ else 0 := by
  have hslot : (slot n (i + 1)).val = (a + 1) % n := by
    rw [h]
    exact (Nat.mod_add_mod i n 1).symm
  split
  · rename_i hlt
    exact Fin.ext (hslot.trans (Nat.mod_eq_of_lt hlt))
  · rename_i hlast
    have hfull : a + 1 = n := by omega
    exact Fin.ext (by rw [hslot, hfull, Nat.mod_self, Fin.val_zero])

end Ring

end Framework
