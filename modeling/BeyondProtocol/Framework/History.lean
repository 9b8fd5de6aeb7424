import BeyondProtocol.Framework.Runs

/-!
# What happened and was kept since

The past-time operator "since" over a history, newest event last: some event marked a
start, and every event after it kept what was started. The mark may depend on the history
before it, so that starts can be nested. Adding one event decides the operator anew, which
is what an induction along a run needs.
-/

namespace Framework

variable {E : Type*} {keep : E → Prop} {start : List E → E → Prop} {es : List E} {e : E}

/-- Some event of `es` is a start, and `keep` holds of every event after it. -/
def Since (keep : E → Prop) (start : List E → E → Prop) (es : List E) : Prop :=
  ∃ pre a post, es = pre ++ a :: post ∧ start pre a ∧ ∀ e ∈ post, keep e

@[simp] theorem since_nil : ¬ Since keep start [] := by
  rintro ⟨pre, a, post, h, -⟩
  cases pre <;> cases h

theorem since_snoc : Since keep start (es ++ [e]) ↔ start es e ∨ keep e ∧ Since keep start es := by
  have hsplit : (∃ pre a post, es ++ [e] = pre ++ a :: post ∧ start pre a ∧ ∀ x ∈ post, keep x) ↔
      _ := exists_split_snoc (P := fun pre a post => start pre a ∧ ∀ x ∈ post, keep x)
  refine hsplit.trans (or_congr ?_ ?_)
  · simp
  · constructor
    · rintro ⟨pre, a, post, h, hstart, hkeep⟩
      exact ⟨hkeep e (by simp), pre, a, post, h, hstart, fun x hx => hkeep x (by simp [hx])⟩
    · rintro ⟨hlast, pre, a, post, h, hstart, hkeep⟩
      refine ⟨pre, a, post, h, hstart, fun x hx => ?_⟩
      rcases List.mem_append.mp hx with hx | hx
      · exact hkeep x hx
      · rwa [List.mem_singleton.mp hx]

/-- Where a step that comes back keeps an invariant exactly if it is safe, the invariant holds
all along exactly if every step that comes back is. -/
theorem invariant_iff_safe_hist {S E ε : Type} {f : S → E → Except ε S} {I : List E → S → Prop}
    {safe : S → E → Prop} {s₀ : S} (h₀ : I [] s₀)
    (h : ∀ es s e t, I es s → f s e = .ok t → (I (es ++ [e]) t ↔ safe s e)) (es : List E) :
    (∀ pre post s, es = pre ++ post → pre.foldlM f s₀ = .ok s → I pre s) ↔
      ∀ pre e post s t, es = pre ++ e :: post → pre.foldlM f s₀ = .ok s → f s e = .ok t →
        safe s e := by
  have hsnoc : ∀ (pre : List E) (e : E) (t : S), (pre ++ [e]).foldlM f s₀ = .ok t ↔
      ∃ s, pre.foldlM f s₀ = .ok s ∧ f s e = .ok t := by
    intro pre e t
    rw [List.foldlM_append]
    refine bind_eq_ok.trans (exists_congr fun s => and_congr_right fun _ => ?_)
    simp
  constructor
  · rintro hall pre e post s t rfl hs ht
    refine (h pre s e t (hall pre (e :: post) s rfl hs) ht).mp ?_
    exact hall (pre ++ [e]) post t (by simp) ((hsnoc pre e t).mpr ⟨s, hs, ht⟩)
  · intro hsafe pre
    induction pre using List.reverseRecOn with
    | nil =>
        rintro post s - hs
        cases hs
        exact h₀
    | append_singleton pre e ih =>
        rintro post t rfl ht
        obtain ⟨s, hs, hstep⟩ := (hsnoc pre e t).mp ht
        refine (h pre s e t (ih (e :: post) s (by simp) hs) hstep).mpr ?_
        exact hsafe pre e post s t (by simp) hs hstep

end Framework
