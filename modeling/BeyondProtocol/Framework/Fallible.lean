import Mathlib.Logic.Basic

/-!
# Sequencing of fallible computations

The bind equations of `Except` in rewriting form, and the inversion of a
successful bind: what a caller needs to peel a sequence of calls apart without
unfolding the monad.
-/

namespace Framework

variable {ε α β : Type}

@[simp] theorem ok_bind (a : α) (f : α → Except ε β) :
    (Except.ok a >>= f) = f a := rfl

@[simp] theorem error_bind (e : ε) (f : α → Except ε β) :
    (Except.error e >>= f) = Except.error e := rfl

theorem bind_eq_ok {x : Except ε α} {f : α → Except ε β} {b : β} :
    (x >>= f) = .ok b ↔ ∃ a, x = .ok a ∧ f a = .ok b := by
  cases x with
  | error e => simp
  | ok a => simp

theorem map_eq_ok {x : Except ε α} {f : α → β} {b : β} :
    x.map f = .ok b ↔ ∃ a, x = .ok a ∧ f a = b := by
  cases x with
  | error e => simp [Except.map]
  | ok a => simp [Except.map]

/-- The invariant rule for a fallible fold that came back. -/
theorem foldlM_invariant {P : β → Prop} {f : β → α → Except ε β} {l : List α} {b b' : β}
    (h : l.foldlM f b = .ok b') (h₀ : P b)
    (hstep : ∀ b a b', a ∈ l → P b → f b a = .ok b' → P b') : P b' := by
  induction l generalizing b with
  | nil =>
      cases h
      exact h₀
  | cons a l ih =>
      rw [List.foldlM_cons, bind_eq_ok] at h
      obtain ⟨b₁, hb₁, hrest⟩ := h
      exact ih hrest (hstep b a b₁ (by simp) h₀ hb₁)
        (fun b a b' ha => hstep b a b' (List.mem_cons_of_mem _ ha))

/-- In a fallible fold that came back the step of every element came back, from a
value that kept the invariant. -/
theorem foldlM_step_ok {P : β → Prop} {f : β → α → Except ε β} {l : List α} {b b' : β}
    (h : l.foldlM f b = .ok b') (h₀ : P b)
    (hstep : ∀ b a b', a ∈ l → P b → f b a = .ok b' → P b') {a : α} (ha : a ∈ l) :
    ∃ b₁ b₂, P b₁ ∧ f b₁ a = .ok b₂ := by
  induction l generalizing b with
  | nil => cases ha
  | cons x l ih =>
      rw [List.foldlM_cons, bind_eq_ok] at h
      obtain ⟨b₁, hb₁, hrest⟩ := h
      rcases List.mem_cons.mp ha with rfl | ha
      · exact ⟨b, b₁, h₀, hb₁⟩
      · exact ih hrest (hstep b x b₁ (by simp) h₀ hb₁)
          (fun b a b' ha => hstep b a b' (List.mem_cons_of_mem _ ha)) ha

/-- A fallible map that came back pairs every argument with a result of it. -/
theorem mapM_eq_ok {f : α → Except ε β} {l : List α} {bs : List β} (h : l.mapM f = .ok bs) :
    (∀ a ∈ l, ∃ b ∈ bs, f a = .ok b) ∧ ∀ b ∈ bs, ∃ a ∈ l, f a = .ok b := by
  induction l generalizing bs with
  | nil =>
      cases h
      simp
  | cons a l ih =>
      simp only [List.mapM_cons, bind_eq_ok] at h
      obtain ⟨b, hb, bs', hbs', hret⟩ := h
      cases hret
      obtain ⟨hall, hfrom⟩ := ih hbs'
      constructor
      · intro x hx
        rcases List.mem_cons.mp hx with rfl | hx
        · exact ⟨b, by simp, hb⟩
        · obtain ⟨y, hy, hxy⟩ := hall x hx
          exact ⟨y, by simp [hy], hxy⟩
      · intro y hy
        rcases List.mem_cons.mp hy with rfl | hy
        · exact ⟨a, by simp, hb⟩
        · obtain ⟨x, hx, hxy⟩ := hfrom y hy
          exact ⟨x, by simp [hx], hxy⟩

theorem mapM_ok {f : α → Except ε β} {g : α → β} {l : List α} (h : ∀ a ∈ l, f a = .ok (g a)) :
    l.mapM f = .ok (l.map g) := by
  induction l with
  | nil => rfl
  | cons a l ih =>
      rw [List.mapM_cons, h a (by simp), ih fun b hb => h b (by simp [hb])]
      rfl

/-- A computation that comes back with a result as promised, or with none of the `bad` errors. -/
def Ensures (bad : ε → Prop) (x : Except ε α) (P : α → Prop) : Prop :=
  (∀ a, x = .ok a → P a) ∧ ∀ e, x = .error e → ¬ bad e

namespace Ensures

variable {bad : ε → Prop} {x : Except ε α} {P : α → Prop} {Q : β → Prop}

theorem ok {a : α} (h : P a) : Ensures bad (.ok a) P := by
  constructor
  · rintro _ ⟨⟩
    exact h
  · rintro _ ⟨⟩

theorem error {e : ε} (h : ¬ bad e) : Ensures bad (.error e) P := by
  constructor
  · rintro _ ⟨⟩
  · rintro _ ⟨⟩
    exact h

/-- The result is what the computation came back with. -/
theorem returned (h : Ensures bad x P) : Ensures bad x fun a => x = .ok a ∧ P a :=
  ⟨fun a ha => ⟨ha, h.1 a ha⟩, h.2⟩

theorem bind {f : α → Except ε β} (hx : Ensures bad x P) (hf : ∀ a, P a → Ensures bad (f a) Q) :
    Ensures bad (x >>= f) Q := by
  cases x with
  | error e =>
      rw [error_bind]
      exact error (hx.2 e rfl)
  | ok a =>
      rw [ok_bind]
      exact hf a (hx.1 a rfl)

end Ensures

end Framework
