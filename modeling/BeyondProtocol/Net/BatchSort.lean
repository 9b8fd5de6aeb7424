import BeyondProtocol.Net.EndFrames

/-!
# The comparison of the batch sort

`std::stable_sort` asks for a strict weak order. The comparison of
`process_buffered_packets_` puts every packet before an EndFrame of its timestamp, and so
it puts two such EndFrames before each other. A batch takes packets from the queues of all
frames, and frames of one frameset share their timestamps.
-/

namespace BeyondProtocol

open Framework

/-- A packet compares smaller than an EndFrame of its timestamp, and than anything later. -/
theorem comesBefore_iff {a b : Packet} : comesBefore a b = true ↔
    a.1.timestamp < b.1.timestamp ∨ a.1.timestamp = b.1.timestamp ∧ b.1.isEndFrame = true := by
  unfold comesBefore
  split_ifs with h
  · simp [h]
  · simp [h]

theorem comesBefore_trans {a b c : Packet} (hab : comesBefore a b = true)
    (hbc : comesBefore b c = true) : comesBefore a c = true := by
  rw [comesBefore_iff] at *
  rcases hab with hab | ⟨hab, -⟩
  · rcases hbc with hbc | ⟨hbc, -⟩
    · exact .inl (hab.trans hbc)
    · exact .inl (hbc ▸ hab)
  · rw [hab]
    exact hbc

/-- Packets that are not told apart have one timestamp, and none is an EndFrame. -/
theorem incomparable_iff {a b : Packet} :
    ¬ comesBefore a b = true ∧ ¬ comesBefore b a = true ↔
      a.1.timestamp = b.1.timestamp ∧ ¬ a.1.isEndFrame = true ∧ ¬ b.1.isEndFrame = true := by
  rw [comesBefore_iff, comesBefore_iff]
  constructor
  · rintro ⟨hab, hba⟩
    have ht : a.1.timestamp = b.1.timestamp :=
      le_antisymm (not_lt.mp fun h => hba (.inl h)) (not_lt.mp fun h => hab (.inl h))
    exact ⟨ht, fun h => hba (.inr ⟨ht.symm, h⟩), fun h => hab (.inr ⟨ht, h⟩)⟩
  · rintro ⟨ht, ha, hb⟩
    constructor
    · rintro (h | ⟨-, h⟩)
      · exact h.ne ht
      · exact hb h
    · rintro (h | ⟨-, h⟩)
      · exact h.ne ht.symm
      · exact ha h

theorem incomparable_trans {a b c : Packet}
    (hab : ¬ comesBefore a b = true ∧ ¬ comesBefore b a = true)
    (hbc : ¬ comesBefore b c = true ∧ ¬ comesBefore c b = true) :
    ¬ comesBefore a c = true ∧ ¬ comesBefore c a = true := by
  rw [incomparable_iff] at *
  exact ⟨hab.1.trans hbc.1, hab.2.1, hbc.2.2⟩

/-- Only EndFrames of one timestamp compare smaller both ways. -/
theorem bothEnd_iff {a b : Packet} :
    comesBefore a b = true ∧ comesBefore b a = true ↔ bothEnd a b := by
  rw [comesBefore_iff, comesBefore_iff]
  constructor
  · rintro ⟨hab | ⟨ht, hb⟩, hba | ⟨ht', ha⟩⟩
    · exact absurd hab hba.asymm
    · exact absurd ht' hab.ne'
    · exact absurd ht hba.ne'
    · exact ⟨ht, ha, hb⟩
  · rintro ⟨ht, ha, hb⟩
    exact ⟨.inr ⟨ht, hb⟩, .inr ⟨ht.symm, ha⟩⟩

/-- **The comparison is a strict weak order on a batch exactly if no two EndFrames in it have
the same timestamp.** -/
theorem comesBefore_strictWeakOn_iff (batch : List Packet) :
    StrictWeakOn (fun a b => comesBefore a b = true) batch ↔
      batch.Pairwise fun a b => ¬ bothEnd a b := by
  refine (strictWeakOn_iff ?_ ?_ batch).trans ?_
  · intro a b c
    exact comesBefore_trans
  · intro a b c hab hba hbc hcb
    exact incomparable_trans ⟨hab, hba⟩ ⟨hbc, hcb⟩
  · simp only [bothEnd_iff]

/-- EndFrames of frames (0, 0) and (0, 1), alone in their frames. -/
def endOfFirst : Packet := (⟨40, 0, 0, Channel.kEndFrame, 0, 0, 0⟩, { dataFlags := 1 })
def endOfSecond : Packet := (⟨40, 0, 1, Channel.kEndFrame, 0, 0, 0⟩, { dataFlags := 1 })

/-- The worker collects both in one batch, where each compares smaller than the other. -/
theorem endFrames_compare_both_ways : ∃ es r it,
    Runs ReceiverStep {} es r ∧ r.worker = .collecting it [] [endOfSecond, endOfFirst] ∧
      comesBefore endOfFirst endOfSecond = true ∧ comesBefore endOfSecond endOfFirst = true ∧
      ¬ StrictWeakOn (fun a b => comesBefore a b = true) [endOfSecond, endOfFirst] := by
  have run : Runs ReceiverStep {} _ _ :=
    ((((((Runs.init.snoc (@ReceiverStep.emplace _ endOfFirst.1 0 0)).snoc
      (@ReceiverStep.insert _ endOfFirst.1 endOfFirst.2 (by decide))).snoc
      (@ReceiverStep.emplace _ endOfSecond.1 0 0)).snoc
      (@ReceiverStep.insert _ endOfSecond.1 endOfSecond.2 (by decide))).snoc
      (@ReceiverStep.wake _ 1 rfl (by decide))).snoc (.visit rfl)).snoc (.visit rfl)
  refine ⟨_, _, _, run, rfl, by decide, by decide, fun h => ?_⟩
  exact h.asymm 0 1 (by decide) (by decide) (by decide)

end BeyondProtocol
