import Mathlib.Data.List.Induction
import BeyondProtocol.Framework.Fallible

/-!
# Labelled runs of a step relation

A run is recorded with the list of labels taken, newest last, so that an
invariant may speak about the history as well as about the state reached.
Deterministic systems instantiate `step` with the graph of a partial function.
-/

namespace Framework

/-- `Runs step s₀ es s`: the labels `es`, taken in order from `s₀`, lead to `s`. -/
inductive Runs {S E : Type*} (step : S → E → S → Prop) (s₀ : S) : List E → S → Prop where
  | init : Runs step s₀ [] s₀
  | snoc {es : List E} {s t : S} {e : E} :
      Runs step s₀ es s → step s e t → Runs step s₀ (es ++ [e]) t

namespace Runs

variable {S E : Type*} {step : S → E → S → Prop} {s₀ s t : S} {es fs : List E}

/-- The invariant rule over history and state. -/
theorem invariant_hist {I : List E → S → Prop} (h₀ : I [] s₀)
    (hstep : ∀ es s e t, I es s → step s e t → I (es ++ [e]) t)
    (run : Runs step s₀ es s) : I es s := by
  induction run with
  | init => exact h₀
  | snoc _ h ih => exact hstep _ _ _ _ ih h

/-- The invariant rule with the run so far at hand. -/
theorem invariant_run {I : List E → S → Prop} (h₀ : I [] s₀)
    (hstep : ∀ es s e t, Runs step s₀ es s → I es s → step s e t → I (es ++ [e]) t)
    (run : Runs step s₀ es s) : I es s := by
  induction run with
  | init => exact h₀
  | snoc run h ih => exact hstep _ _ _ _ run ih h

/-- The invariant rule over the state alone. -/
theorem invariant {I : S → Prop} (h₀ : I s₀)
    (hstep : ∀ s e t, I s → step s e t → I t) (run : Runs step s₀ es s) : I s :=
  run.invariant_hist (I := fun _ s => I s) h₀ (fun _ s e t => hstep s e t)

theorem mono {step' : S → E → S → Prop} (hsub : ∀ s e t, step s e t → step' s e t)
    (run : Runs step s₀ es s) : Runs step' s₀ es s := by
  induction run with
  | init => exact .init
  | snoc _ h ih => exact ih.snoc (hsub _ _ _ h)

theorem trans (run : Runs step s₀ es s) (run' : Runs step s fs t) :
    Runs step s₀ (es ++ fs) t := by
  induction run' with
  | init => simpa using run
  | snoc _ h ih => rw [← List.append_assoc]; exact ih.snoc h

/-- The simulation rule: if every step is a run of another system, so is every run. -/
theorem simulate {T F : Type*} {step' : T → F → T → Prop} (π : S → T) (ρ : E → List F)
    (h : ∀ s e t, step s e t → Runs step' (π s) (ρ e) (π t)) (run : Runs step s₀ es s) :
    Runs step' (π s₀) (es.flatMap ρ) (π s) := by
  induction run with
  | init => exact .init
  | snoc _ hstep ih =>
      rw [List.flatMap_append, List.flatMap_singleton]
      exact ih.trans (h _ _ _ hstep)

/-- An executable step, folded over the labels, makes a run. -/
theorem of_foldlM {S E ε : Type} {step : S → E → S → Prop} {f : S → E → Except ε S}
    {s₀ s : S} {es : List E} (hf : ∀ s, ∀ e ∈ es, ∀ t, f s e = .ok t → step s e t)
    (h : es.foldlM f s₀ = .ok s) : Runs step s₀ es s := by
  induction es generalizing s₀ with
  | nil =>
      cases h
      exact .init
  | cons e es ih =>
      rw [List.foldlM_cons, bind_eq_ok] at h
      obtain ⟨t, ht, hrest⟩ := h
      have hlater : ∀ s, ∀ e ∈ es, ∀ t, f s e = .ok t → step s e t :=
        fun s e he => hf s e (List.mem_cons_of_mem _ he)
      exact (Runs.init.snoc (hf s₀ e List.mem_cons_self t ht)).trans (ih hlater hrest)

/-- A partial step, folded over the labels, makes a run. -/
theorem of_foldlM_option {S E : Type} {f : S → E → Option S} {s₀ s : S} {es : List E}
    (h : es.foldlM f s₀ = some s) : Runs (fun s e t => f s e = some t) s₀ es s := by
  induction es generalizing s₀ with
  | nil =>
      cases h
      exact .init
  | cons e es ih =>
      rw [List.foldlM_cons] at h
      obtain ⟨t, ht, hrest⟩ := Option.bind_eq_some_iff.mp h
      exact (Runs.init.snoc ht).trans (ih hrest)

/-- A total step, folded over the labels, makes a run. -/
theorem of_foldl {S E : Type} {step : S → E → S → Prop} {f : S → E → S}
    (hf : ∀ s e, step s e (f s e)) (s₀ : S) (es : List E) :
    Runs step s₀ es (es.foldl f s₀) := by
  induction es using List.reverseRecOn with
  | nil => exact .init
  | append_singleton es e ih =>
      rw [List.foldl_append]
      exact ih.snoc (hf _ e)

end Runs

/-- What holds of some label of a longer history and of its place there. -/
theorem exists_split_snoc {E : Type*} {P : List E → E → List E → Prop} {es : List E} {e : E} :
    (∃ pre a post, es ++ [e] = pre ++ a :: post ∧ P pre a post) ↔
      P es e [] ∨ ∃ pre a post, es = pre ++ a :: post ∧ P pre a (post ++ [e]) := by
  constructor
  · rintro ⟨pre, a, post, heq, h⟩
    rcases List.eq_nil_or_concat post with rfl | ⟨post, b, rfl⟩
    · obtain ⟨rfl, hlast⟩ := List.append_inj' heq rfl
      cases hlast
      exact .inl h
    · rw [List.concat_eq_append, ← List.cons_append, ← List.append_assoc] at heq
      obtain ⟨rfl, hlast⟩ := List.append_inj' heq rfl
      cases hlast
      exact .inr ⟨pre, a, post, rfl, by simpa using h⟩
  · rintro (h | ⟨pre, a, post, rfl, h⟩)
    · exact ⟨es, e, [], rfl, h⟩
    · exact ⟨pre, a, post ++ [e], by simp, h⟩

/-- What holds of every label of a longer history and of what came before it. -/
theorem forall_split_snoc {E : Type*} {P : List E → E → Prop} {es : List E} {e : E} :
    (∀ pre a post, es ++ [e] = pre ++ a :: post → P pre a) ↔
      P es e ∧ ∀ pre a post, es = pre ++ a :: post → P pre a := by
  have h : (∃ pre a post, es ++ [e] = pre ++ a :: post ∧ ¬ P pre a) ↔ _ :=
    exists_split_snoc (P := fun pre a _ => ¬ P pre a)
  rw [← not_iff_not]
  push Not
  simpa [imp_iff_not_or] using h

/-- Where a step keeps an invariant exactly if it is safe, the invariant holds all along exactly
if every step is. -/
theorem invariant_iff_safe {S E : Type*} {f : S → E → S} {I : S → Prop} {safe : S → E → Prop}
    {s₀ : S} (h₀ : I s₀) (h : ∀ s e, I s → (I (f s e) ↔ safe s e)) (es : List E) :
    (∀ pre post, es = pre ++ post → I (pre.foldl f s₀)) ↔
      ∀ pre e post, es = pre ++ e :: post → safe (pre.foldl f s₀) e := by
  constructor
  · rintro hall pre e post rfl
    have hnext := hall (pre ++ [e]) post (by simp)
    rw [List.foldl_append] at hnext
    exact (h _ e (hall pre (e :: post) rfl)).mp hnext
  · intro hsafe pre
    induction pre using List.reverseRecOn with
    | nil => exact fun _ _ => h₀
    | append_singleton pre e ih =>
        rintro post rfl
        rw [List.foldl_append]
        exact (h _ e (ih (e :: post) (by simp))).mpr (hsafe pre e post (by simp))

end Framework
