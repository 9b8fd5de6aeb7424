import Mathlib.Order.Basic

/-!
# Exceptions that leave the state as it is

A program with a state and exceptions, where a handler finds the state that the exception
left. A resource counted in the state is watched through a measure: the parts of a program
that only take it climb, and a part is quiet from a state if it returns with the measure it
started with. Where both ways through a handled part end alike, the end can be moved out.
-/

namespace Framework

variable {ε σ α β : Type}

/-! ## §1  One program after another, and a handler -/

theorem run_tryCatch (x : EStateM ε σ α) (h : ε → EStateM ε σ α) (s : σ) :
    (tryCatch x h).run s = match x.run s with
      | .ok a t => .ok a t
      | .error e t => (h e).run t := by
  show EStateM.tryCatch x h s = _
  unfold EStateM.tryCatch EStateM.run
  cases x s <;> rfl

theorem bind_pure_eq_error {x : EStateM ε σ α} {g : α → β} {s t : σ} {e : ε} :
    (x >>= fun a => pure (g a)).run s = .error e t ↔ x.run s = .error e t := by
  rw [EStateM.run_bind]
  cases x.run s with
  | ok a u =>
      constructor
      · rintro ⟨⟩
      · rintro ⟨⟩
  | error e' u =>
      constructor
      · rintro ⟨⟩
        rfl
      · rintro ⟨⟩
        rfl

/-- `x` without exceptions. -/
def Returns (x : EStateM ε σ α) : Prop := ∀ s, ∃ a t, x.run s = .ok a t

/-- An end that both ways share, and that does not throw, comes after the handled part. -/
theorem tryCatch_bind_end {x : EStateM ε σ α} {h : ε → EStateM ε σ α}
    {last : α → EStateM ε σ β} (hlast : ∀ a, Returns (last a)) :
    tryCatch (x >>= last) (fun e => h e >>= last) = tryCatch x h >>= last := by
  funext s
  show EStateM.run (tryCatch _ _) s = (tryCatch x h >>= last).run s
  rw [run_tryCatch, EStateM.run_bind, EStateM.run_bind, run_tryCatch]
  cases x.run s with
  | ok a t =>
      obtain ⟨b, u, hb⟩ := hlast a t
      simp only [hb]
  | error e t => rfl

/-! ## §2  Measures -/

section

variable {γ : Type} {d : σ → γ} {x : EStateM ε σ α} {f : α → EStateM ε σ β}
  {h : ε → EStateM ε σ α}

/-- From `s` it returns, with the measure it started with. -/
def Quiet (d : σ → γ) (x : EStateM ε σ α) (s : σ) : Prop := ∃ a t, x.run s = .ok a t ∧ d t = d s

theorem quiet_bind_pure (g : α → β) (s : σ) :
    Quiet d (x >>= fun a => pure (g a)) s ↔ Quiet d x s := by
  rw [Quiet, EStateM.run_bind]
  cases hs : x.run s with
  | ok a t =>
      constructor
      · rintro ⟨b, u, ⟨⟩, hsame⟩
        exact ⟨a, t, hs, hsame⟩
      · rintro ⟨a', t', hrun, hsame⟩
        rw [hs] at hrun
        cases hrun
        exact ⟨g a, t, rfl, hsame⟩
  | error e t =>
      constructor
      · rintro ⟨b, u, ⟨⟩, -⟩
      · rintro ⟨a, u, hrun, -⟩
        rw [hs] at hrun
        cases hrun

theorem Quiet.bind {s : σ} (hx : Quiet d x s)
    (hf : ∀ a t, d t = d s → Quiet d (f a) t) : Quiet d (x >>= f) s := by
  obtain ⟨a, t, hrun, hsame⟩ := hx
  obtain ⟨b, u, hrun', hsame'⟩ := hf a t hsame
  refine ⟨b, u, ?_, hsame'.trans hsame⟩
  rw [EStateM.run_bind, hrun]
  exact hrun'

variable [PartialOrder γ]

/-- Whether it returns or throws, the measure is not lower afterwards. -/
structure Climbs (d : σ → γ) (x : EStateM ε σ α) : Prop where
  ok : ∀ {s a t}, x.run s = .ok a t → d s ≤ d t
  error : ∀ {s e t}, x.run s = .error e t → d s ≤ d t

theorem Climbs.pure (a : α) : Climbs d (pure a : EStateM ε σ α) where
  ok hx := by
    cases hx
    exact le_rfl
  error hx := by cases hx

theorem Climbs.throw (e : ε) : Climbs d (throw e : EStateM ε σ α) where
  ok hx := by cases hx
  error hx := by
    cases hx
    exact le_rfl

theorem Climbs.modify {g : σ → σ} (hg : ∀ s, d s ≤ d (g s)) :
    Climbs d (modify g : EStateM ε σ Unit) where
  ok hx := by
    cases hx
    exact hg _
  error hx := by cases hx

theorem Climbs.get : Climbs d (MonadState.get : EStateM ε σ σ) where
  ok hx := by
    cases hx
    exact le_rfl
  error hx := by cases hx

theorem Climbs.bind (hx : Climbs d x) (hf : ∀ a, Climbs d (f a)) : Climbs d (x >>= f) := by
  constructor
  · intro s b u hrun
    rw [EStateM.run_bind] at hrun
    cases hs : x.run s with
    | ok a t =>
        rw [hs] at hrun
        exact (hx.ok hs).trans ((hf a).ok hrun)
    | error e t =>
        rw [hs] at hrun
        cases hrun
  · intro s e u hrun
    rw [EStateM.run_bind] at hrun
    cases hs : x.run s with
    | ok a t =>
        rw [hs] at hrun
        exact (hx.ok hs).trans ((hf a).error hrun)
    | error e t =>
        rw [hs] at hrun
        cases hrun
        exact hx.error hs

theorem Climbs.tryCatch (hx : Climbs d x) (hh : ∀ e, Climbs d (h e)) :
    Climbs d (tryCatch x h) := by
  constructor
  · intro s b u hrun
    rw [run_tryCatch] at hrun
    cases hs : x.run s with
    | ok a t =>
        rw [hs] at hrun
        cases hrun
        exact hx.ok hs
    | error e t =>
        rw [hs] at hrun
        exact (hx.error hs).trans ((hh e).ok hrun)
  · intro s e u hrun
    rw [run_tryCatch] at hrun
    cases hs : x.run s with
    | ok a t =>
        rw [hs] at hrun
        cases hrun
    | error e t =>
        rw [hs] at hrun
        exact (hx.error hs).trans ((hh e).error hrun)

/-- **A handled part** is quiet if it is quiet itself, or what it throws is handled quietly. -/
theorem quiet_tryCatch (hx : Climbs d x) (hh : ∀ e, Climbs d (h e)) (s : σ) :
    Quiet d (tryCatch x h) s ↔
      Quiet d x s ∨ ∃ e t, x.run s = .error e t ∧ d t = d s ∧ Quiet d (h e) t := by
  rw [Quiet, run_tryCatch]
  cases hs : x.run s with
  | ok a t => simp [Quiet, hs]
  | error e t =>
      constructor
      · rintro ⟨a, u, hrun, hsame⟩
        -- the measure climbs on both ways, so that neither may have raised it
        have hlevel : d t = d s := le_antisymm (hsame ▸ (hh e).ok hrun) (hx.error hs)
        exact .inr ⟨e, t, rfl, hlevel, a, u, hrun, hsame.trans hlevel.symm⟩
      · rintro (⟨a, u, hrun, -⟩ | ⟨e, t, ⟨⟩, hlevel, a, u, hrun, hsame⟩)
        · rw [hs] at hrun
          cases hrun
        · exact ⟨a, u, hrun, hsame.trans hlevel⟩

end

end Framework
