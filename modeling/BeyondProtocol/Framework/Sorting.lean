import Mathlib.Data.List.Pairwise
import Mathlib.Data.List.Sort
import Mathlib.Order.MinMax

/-!
# Insertion sort by a relation that is not an order

A comparison function may fail to be a strict weak order, so that the relation the
sort tests is neither total nor reflexive. What holds of the result is any transitive
relation that follows from the test in one direction and from its failure in the
other.

The smallest value of a list, found by comparing one after the other, is given by its
lower bounds and is one of the values. In a sorted list it stands in front.
-/

namespace Framework

variable {α : Type*} {r w : α → α → Prop} [DecidableRel r]

theorem pairwise_orderedInsert (htrans : ∀ a b c, w a b → w b c → w a c)
    (hyes : ∀ a b, r a b → w a b) (hno : ∀ a b, ¬ r a b → w b a) (a : α) {l : List α}
    (hl : l.Pairwise w) : (l.orderedInsert r a).Pairwise w := by
  induction l with
  | nil => simp
  | cons b l ih =>
      obtain ⟨hb, hl'⟩ := List.pairwise_cons.mp hl
      rw [List.orderedInsert_cons]
      split_ifs with hab
      · refine List.pairwise_cons.mpr ⟨?_, hl⟩
        intro c hc
        rcases List.mem_cons.mp hc with rfl | hc
        · exact hyes a c hab
        · exact htrans a b c (hyes a b hab) (hb c hc)
      · refine List.pairwise_cons.mpr ⟨?_, ih hl'⟩
        intro c hc
        rcases (List.mem_orderedInsert r).mp hc with rfl | hc
        · exact hno c b hab
        · exact hb c hc

theorem pairwise_insertionSort (htrans : ∀ a b c, w a b → w b c → w a c)
    (hyes : ∀ a b, r a b → w a b) (hno : ∀ a b, ¬ r a b → w b a) (l : List α) :
    (l.insertionSort r).Pairwise w := by
  induction l with
  | nil => simp
  | cons a l ih => exact pairwise_orderedInsert htrans hyes hno a ih

/-- What a sort asks of its comparison, for elements at different places of a list. -/
structure StrictWeakOn (lt : α → α → Prop) (l : List α) : Prop where
  asymm : ∀ i j : Fin l.length, i ≠ j → lt (l.get i) (l.get j) → ¬ lt (l.get j) (l.get i)
  trans : ∀ i j k : Fin l.length, i ≠ j → j ≠ k → i ≠ k →
    lt (l.get i) (l.get j) → lt (l.get j) (l.get k) → lt (l.get i) (l.get k)
  /-- Elements that are not told apart from a third are not told apart from each other. -/
  incomp_trans : ∀ i j k : Fin l.length, i ≠ j → j ≠ k → i ≠ k →
    ¬ lt (l.get i) (l.get j) → ¬ lt (l.get j) (l.get i) →
    ¬ lt (l.get j) (l.get k) → ¬ lt (l.get k) (l.get j) →
    ¬ lt (l.get i) (l.get k) ∧ ¬ lt (l.get k) (l.get i)

/-- A comparison with the other two laws lacks asymmetry only. -/
theorem strictWeakOn_iff {lt : α → α → Prop} (htrans : ∀ a b c, lt a b → lt b c → lt a c)
    (hincomp : ∀ a b c, ¬ lt a b → ¬ lt b a → ¬ lt b c → ¬ lt c b → ¬ lt a c ∧ ¬ lt c a)
    (l : List α) : StrictWeakOn lt l ↔ l.Pairwise fun a b => ¬ (lt a b ∧ lt b a) := by
  rw [List.pairwise_iff_get]
  constructor
  · intro h i j hij hboth
    exact h.asymm i j hij.ne hboth.1 hboth.2
  · intro h
    refine ⟨fun i j hij hlt hgt => ?_, fun i j k _ _ _ => htrans _ _ _,
      fun i j k _ _ _ => hincomp _ _ _⟩
    rcases lt_or_gt_of_ne hij with hij | hij
    · exact h i j hij ⟨hlt, hgt⟩
    · exact h j i hij ⟨hgt, hlt⟩

/-- A lower bound of a running minimum. -/
theorem le_foldl_min {α β : Type*} [LinearOrder α] {f : β → α} {l : List β} {a t : α} :
    t ≤ l.foldl (fun a b => min a (f b)) a ↔ t ≤ a ∧ ∀ b ∈ l, t ≤ f b := by
  induction l generalizing a with
  | nil => simp
  | cons b l ih =>
      rw [List.foldl_cons, ih, le_min_iff, List.forall_mem_cons, and_assoc]

/-- The running minimum is one of the values compared. -/
theorem foldl_min_eq {α β : Type*} [LinearOrder α] (f : β → α) (l : List β) (a : α) :
    l.foldl (fun a b => min a (f b)) a = a ∨
      ∃ b ∈ l, l.foldl (fun a b => min a (f b)) a = f b := by
  induction l generalizing a with
  | nil => exact .inl rfl
  | cons b l ih =>
      rw [List.foldl_cons]
      rcases ih (min a (f b)) with h | ⟨c, hc, h⟩
      · rcases min_choice a (f b) with hmin | hmin
        · exact .inl (h.trans hmin)
        · exact .inr ⟨b, List.mem_cons_self, h.trans hmin⟩
      · exact .inr ⟨c, List.mem_cons_of_mem b hc, h⟩

/-- The first element of a sorted list. -/
theorem headD_le {α β : Type*} [Preorder β] {f : α → β} {l : List α}
    (h : l.Pairwise fun a b => f a ≤ f b) {a : α} (ha : a ∈ l) (z : α) : f (l.headD z) ≤ f a := by
  have : Std.Refl fun a b : α => f a ≤ f b := ⟨fun _ => le_rfl⟩
  rw [List.headD_eq_head?_getD, List.head?_eq_some_head (List.ne_nil_of_mem ha)]
  exact h.rel_head ha

/-- The last element of a sorted list. -/
theorem le_getLastD {α β : Type*} [Preorder β] {f : α → β} {l : List α}
    (h : l.Pairwise fun a b => f a ≤ f b) {a : α} (ha : a ∈ l) (z : α) :
    f a ≤ f (l.getLastD z) := by
  have : Std.Refl fun a b : α => f a ≤ f b := ⟨fun _ => le_rfl⟩
  rw [List.getLastD_eq_getLast?, List.getLast?_eq_some_getLast (List.ne_nil_of_mem ha)]
  exact h.rel_getLast ha

end Framework
