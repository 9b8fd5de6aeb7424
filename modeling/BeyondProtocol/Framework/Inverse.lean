import Mathlib.Data.PEquiv
import Mathlib.Data.Option.Basic

/-!
# Two tables that are inverse to each other

A partial bijection that a program keeps as two tables, one for each direction.
It survives the two changes such programs make: a new pair of a key and a value
that are both unused, and dropping all pairs whose key fails a test.
-/

namespace Framework

variable {α β : Type} {f : α → Option β} {g : β → Option α}

/-- `f` and `g` hold the same pairs. -/
def Inverse (f : α → Option β) (g : β → Option α) : Prop := ∀ a b, f a = some b ↔ g b = some a

namespace Inverse

/-- The partial bijection itself. -/
def toPEquiv (h : Inverse f g) : PEquiv α β where
  toFun := f
  invFun := g
  inv a b := (h a b).symm

theorem injective (h : Inverse f g) {a a' : α} {b : β} (ha : f a = some b)
    (ha' : f a' = some b) : a = a' :=
  h.toPEquiv.inj ha ha'

theorem empty : Inverse (fun _ : α => (none : Option β)) (fun _ => none) :=
  fun _ _ => by simp

theorem update [DecidableEq α] [DecidableEq β] (h : Inverse f g) {a : α} {b : β}
    (ha : f a = none) (hb : g b = none) :
    Inverse (Function.update f a (some b)) (Function.update g b (some a)) := by
  intro a' b'
  by_cases haa : a' = a <;> by_cases hbb : b' = b
  · simp [haa, hbb]
  · have hold : g b' ≠ some a := fun hg => by simp [(h a b').mpr hg] at ha
    simp [haa, hbb, hold, Ne.symm hbb]
  · have hold : f a' ≠ some b := fun hf => by simp [(h a' b).mp hf] at hb
    simp [haa, hbb, hold, Ne.symm haa]
  · simp [haa, hbb, h a' b']

theorem restrict (h : Inverse f g) (p : α → Bool) :
    Inverse (fun a => if p a then f a else none) (fun b => (g b).filter p) := by
  intro a b
  rw [Option.filter_eq_some_iff, ← h a b]
  by_cases hp : p a = true <;> simp [hp]

end Inverse

end Framework
