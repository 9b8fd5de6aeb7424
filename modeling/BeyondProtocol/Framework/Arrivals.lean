import Mathlib.Data.List.Basic
import Mathlib.Data.List.Induction
import Mathlib.Data.List.Nodup
import Mathlib.Data.Finset.Prod

/-!
# Numbers by order of arrival

A program that numbers the things it sees, from 0, when it sees them for the
first time: the number of a thing is its position among the distinct things
seen. Later arrivals do not change it.
-/

namespace Framework

variable {α : Type*} [DecidableEq α]

theorem eraseDups_snoc (l : List α) (a : α) :
    (l ++ [a]).eraseDups = if a ∈ l then l.eraseDups else l.eraseDups ++ [a] := by
  rw [List.eraseDups_append, List.removeAll]
  by_cases h : a ∈ l
  · simp [h]
  · simp [h, List.eraseDups_cons]

theorem nodup_eraseDups (l : List α) : l.eraseDups.Nodup := by
  induction l using List.reverseRecOn with
  | nil => exact List.nodup_nil
  | append_singleton l a ih =>
      rw [eraseDups_snoc]
      split_ifs with h
      · exact ih
      · refine List.nodup_append.mpr ⟨ih, List.nodup_singleton a, ?_⟩
        rintro b hb c hc rfl
        rw [List.mem_singleton] at hc
        exact h (hc ▸ List.mem_eraseDups.mp hb)

/-- How many distinct things have arrived. -/
def arrived (l : List α) : Nat := l.eraseDups.length

/-- The number a thing got when it arrived. -/
def numberOf (a : α) (l : List α) : Nat := l.eraseDups.idxOf a

theorem arrived_snoc (l : List α) (a : α) :
    arrived (l ++ [a]) = if a ∈ l then arrived l else arrived l + 1 := by
  unfold arrived
  rw [eraseDups_snoc]
  split_ifs <;> simp

theorem numberOf_append {l : List α} {a : α} (h : a ∈ l) (l' : List α) :
    numberOf a (l ++ l') = numberOf a l := by
  unfold numberOf
  rw [List.eraseDups_append, List.idxOf_append_of_mem (List.mem_eraseDups.mpr h)]

/-- A new thing gets the next number. -/
theorem numberOf_new {l : List α} {a : α} (h : a ∉ l) : numberOf a (l ++ [a]) = arrived l := by
  unfold numberOf arrived
  rw [eraseDups_snoc, if_neg h, List.idxOf_append_of_notMem (mt List.mem_eraseDups.mp h)]
  simp

@[simp] theorem numberOf_cons_self (a : α) (l : List α) : numberOf a (a :: l) = 0 := by
  unfold numberOf
  rw [List.eraseDups_cons, List.idxOf_cons_self]

theorem arrived_of_nodup {l : List α} (h : l.Nodup) : arrived l = l.length := by
  induction l using List.reverseRecOn with
  | nil => rfl
  | append_singleton l a ih =>
      obtain ⟨hl, -, hdisjoint⟩ := List.nodup_append.mp h
      have hnew : a ∉ l := fun ha => hdisjoint a ha a (List.mem_singleton_self a) rfl
      rw [arrived_snoc, if_neg hnew, ih hl, List.length_append, List.length_singleton]

theorem numberOf_inj {l : List α} {a b : α} (h : a ∈ l) :
    numberOf a l = numberOf b l ↔ a = b :=
  List.idxOf_inj (List.mem_eraseDups.mpr h)

theorem numberOf_lt {l : List α} {a : α} (h : a ∈ l) : numberOf a l < arrived l :=
  List.idxOf_lt_length_of_mem (List.mem_eraseDups.mpr h)

/-- All numbers below the count are given out. -/
theorem exists_numberOf {l : List α} {n : Nat} (h : n < arrived l) :
    ∃ a ∈ l, numberOf a l = n := by
  refine ⟨l.eraseDups.get ⟨n, h⟩, List.mem_eraseDups.mp (List.get_mem _ _), ?_⟩
  exact List.Nodup.idxOf_getElem (nodup_eraseDups l) n h

theorem arrived_le_card {l : List α} {s : Finset α} (h : ∀ a ∈ l, a ∈ s) :
    arrived l ≤ s.card := by
  unfold arrived
  rw [← List.toFinset_card_of_nodup (nodup_eraseDups l)]
  apply Finset.card_le_card
  intro a ha
  exact h a (List.mem_eraseDups.mp (List.mem_toFinset.mp ha))

/-- Only so many distinct pairs fit below two bounds. -/
theorem arrived_le_mul {l : List (Nat × Nat)} {a b : Nat} (h : ∀ p ∈ l, p.1 < a ∧ p.2 < b) :
    arrived l ≤ a * b := by
  have hsub : ∀ p ∈ l, p ∈ Finset.range a ×ˢ Finset.range b := by
    intro p hp
    rw [Finset.mem_product, Finset.mem_range, Finset.mem_range]
    exact h p hp
  have hcard := arrived_le_card hsub
  rwa [Finset.card_product, Finset.card_range, Finset.card_range] at hcard

end Framework
