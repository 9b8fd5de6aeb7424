import Mathlib.Data.Prod.Lex
import BeyondProtocol.Framework.Runs

/-!
# Runs that come to an end

A system that cannot stop before it is done is done after finitely many steps when each
of them lowers a rank. The ranks used here are three numbers, of which the first counts
most.
-/

namespace Framework

/-- The rule of the decreasing rank. The invariant holds again at the end. -/
theorem Runs.exists_of_rank {S E α : Type*} [Preorder α] [WellFoundedLT α]
    {step : S → E → S → Prop} {I done : S → Prop} {rank : S → α} {e : E}
    (h : ∀ s, I s → ¬ done s → ∃ t, step s e t ∧ I t ∧ rank t < rank s) {s : S} (hs : I s) :
    ∃ k t, Runs step s (List.replicate k e) t ∧ I t ∧ done t := by
  induction s using (InvImage.wf rank wellFounded_lt).induction with
  | h s ih =>
      by_cases hdone : done s
      · exact ⟨0, s, .init, hs, hdone⟩
      · obtain ⟨t, hstep, ht, hlt⟩ := h s hs hdone
        obtain ⟨k, u, run, hu, hend⟩ := ih t hlt ht
        refine ⟨k + 1, u, ?_, hu, hend⟩
        exact (Runs.init.snoc hstep).trans run

/-- Three numbers, in lexicographic order. -/
abbrev Rank : Type := ℕ ×ₗ ℕ ×ₗ ℕ

namespace Rank

variable {a b c a' b' c' : ℕ}

def of (a b c : ℕ) : Rank := toLex (a, toLex (b, c))

theorem of_lt_of : of a b c < of a' b' c' ↔ a < a' ∨ a = a' ∧ (b < b' ∨ b = b' ∧ c < c') := by
  simp only [of, Prod.Lex.toLex_lt_toLex]

theorem lt_of_first (ha : a < a') : of a b c < of a' b' c' :=
  of_lt_of.mpr (.inl ha)

theorem lt_of_second (ha : a ≤ a') (hb : b < b') : of a b c < of a' b' c' := by
  rw [of_lt_of]
  omega

theorem lt_of_third (ha : a ≤ a') (hb : b ≤ b') (hc : c < c') : of a b c < of a' b' c' := by
  rw [of_lt_of]
  omega

end Rank

end Framework
