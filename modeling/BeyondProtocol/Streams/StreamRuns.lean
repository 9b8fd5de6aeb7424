import BeyondProtocol.Framework.History
import BeyondProtocol.Streams.Stream

/-!
# Histories of a stream

All changes of a stream are changes of single frames, `reset` apart, which forgets every
frame. So the state of one frame follows from the changes alone (`Change.onFrame`), and
what a stream answers about a frame from the state of the frame. A frame without a state
answers like a new one; only `available(FrameID)` and `frames` tell the two apart.
-/

namespace BeyondProtocol

open Framework

/-! ## §1  Masks -/

theorem getLsbD_bit {c : Channel} (hc : c.isPersistent = false) (i : Nat) :
    c.bit.getLsbD i = decide (c.toNat = i) := by
  have hlt : c.toNat < 64 := by
    have hc' : (c : Int) < 64 := by simpa [Channel.isPersistent] using hc
    exact (Int.toNat_lt_of_ne_zero (by decide)).mpr hc'
  rw [Channel.bit, ← BitVec.twoPow_eq, BitVec.getLsbD_twoPow]
  simp [hlt]

theorem and_bit_ne_zero {c : Channel} (hc : c.isPersistent = false) (x : BitVec 64) :
    (x &&& c.bit != 0) = x.getLsbD c.toNat := by
  have hbit : c.bit ≠ 0 := by
    intro hzero
    have := getLsbD_bit hc c.toNat
    rw [hzero] at this
    simp at this
  have hand : x &&& c.bit = if x.getLsbD c.toNat then c.bit else 0 := by
    rw [Channel.bit, ← BitVec.twoPow_eq]
    exact BitVec.and_twoPow x c.toNat
  rw [hand]
  cases x.getLsbD c.toNat
  · rfl
  · simpa using hbit

/-- Channels are taken off a frame, and the frame with the last of them. -/
def FSState.deselect (st : FSState) (cs : ChannelSet) : FSState :=
  { st with
    selected := st.selected \ cs
    enabled := if st.selected \ cs = ∅ then false else st.enabled }

namespace Stream

/-! ## §2  Answers about a frame -/

/-- What a stream answers about a frame depends on the state of the frame, and a frame
without one answers like a new one. -/
theorem available_eq (s : Stream) (id : FrameID) (c : Channel) :
    s.available id c = if c.isPersistent then decide (c ∈ (s.getOrCreate id).availablePersistent)
      else (s.getOrCreate id).availableLast &&& c.bit != 0 := by
  cases h : s.getState id <;> simp [available, getOrCreate, h]

theorem channels_eq (s : Stream) (id : FrameID) :
    s.channels id = (s.getOrCreate id).availablePersistent ∪
      ((Finset.range 64).filter fun i =>
        1#64 <<< i &&& (s.getOrCreate id).availableLast ≠ 0).image Int.ofNat := by
  cases h : s.getState id <;> simp [channels, getOrCreate, h]

theorem enabledChannel_eq (s : Stream) (id : FrameID) (c : Channel) :
    s.enabledChannel id c = decide (c ∈ s.enabledChannels id) := by
  cases h : s.getState id <;> simp [enabledChannel, enabledChannels, getOrCreate, h]

/-- The set overload asks for each of its channels. -/
theorem availableAll_iff {s : Stream} {id : FrameID} (cs : ChannelSet) :
    s.availableAll id cs = true ↔
      s.availableFrame id = true ∧ ∀ c ∈ cs, s.available id c = true := by
  cases h : s.getState id with
  | none => simp [availableAll, availableFrame, h]
  | some st =>
      simp only [availableAll, availableFrame, available, h, decide_eq_true_eq,
        Option.isSome_some, true_and]
      refine forall₂_congr fun c _ => ?_
      cases c.isPersistent <;> simp

theorem getOrCreate_seen {s s' : Stream} {id : FrameID} {c : Channel} {fired : Bool}
    (h : s.seen id c = .ok (s', fired)) :
    (s.getOrCreate id).seen c = .ok (s'.getOrCreate id, fired) ∧
      ∀ id', id' ≠ id → s'.getOrCreate id' = s.getOrCreate id' := by
  obtain ⟨st, hst, rfl⟩ := seen_eq h
  exact ⟨by simpa using hst, fun id' hid' => getOrCreate_update_ne hid' s _⟩

/-! ## §3  Changes -/

/-- A call that changes a stream. -/
inductive Change : Type where
  | seen (id : FrameID) (c : Channel)
  | enable (id : FrameID)
  | enableChannel (id : FrameID) (c : Channel)
  | enableChannels (id : FrameID) (cs : ChannelSet)
  | disable (id : FrameID)
  | disableChannel (id : FrameID) (c : Channel)
  | disableChannels (id : FrameID) (cs : ChannelSet)
  | reset

def change (s : Stream) : Change → Except Fault Stream
  | .seen id c => do
      let r ← s.seen id c
      return r.1
  | .enable id => .ok (s.enable id)
  | .enableChannel id c => .ok (s.enableChannel id c)
  | .enableChannels id cs => .ok (s.enableChannels id cs)
  | .disable id => .ok (s.disable id)
  | .disableChannel id c => .ok (s.disableChannel id c)
  | .disableChannels id cs => .ok (s.disableChannels id cs)
  | .reset => .ok s.reset

/-- The stream after a history of changes. -/
def run (h : List Change) : Except Fault Stream := h.foldlM change {}

theorem run_snoc {h : List Change} {e : Change} {s' : Stream} :
    run (h ++ [e]) = .ok s' ↔ ∃ s, run h = .ok s ∧ s.change e = .ok s' := by
  rw [run, List.foldlM_append]
  refine bind_eq_ok.trans (exists_congr fun s => and_congr_right fun _ => ?_)
  simp

/-- What a change does to one frame. -/
def Change.onFrame (id : FrameID) (st : FSState) : Change → Except Fault FSState
  | .seen id' c =>
      if id' = id then do
        let r ← st.seen c
        return r.1
      else .ok st
  | .enable id' => .ok (if id' = id then { st with enabled := true } else st)
  | .enableChannel id' c =>
      .ok (if id' = id then { st with enabled := true, selected := insert c st.selected } else st)
  | .enableChannels id' cs =>
      .ok (if id' = id then { st with enabled := true, selected := st.selected ∪ cs } else st)
  | .disable id' => .ok (if id' = id then { st with enabled := false } else st)
  | .disableChannel id' c => .ok (if id' = id then st.deselect {c} else st)
  | .disableChannels id' cs => .ok (if id' = id then st.deselect cs else st)
  | .reset => .ok {}

theorem getOrCreate_update (s : Stream) (id id' : FrameID) (f : FSState → FSState) :
    (s.update id' f).getOrCreate id =
      if id' = id then f (s.getOrCreate id) else s.getOrCreate id := by
  by_cases h : id' = id
  · rw [if_pos h, h, getOrCreate_update_self]
  · rw [if_neg h, getOrCreate_update_ne (Ne.symm h)]

/-- A change of a stream is a change of each of its frames. -/
theorem change_onFrame {s s' : Stream} {e : Change} (h : s.change e = .ok s') (id : FrameID) :
    e.onFrame id (s.getOrCreate id) = .ok (s'.getOrCreate id) := by
  cases e with
  | seen id' c =>
      obtain ⟨⟨t, fired⟩, ht, hret⟩ := bind_eq_ok.mp h
      cases hret
      obtain ⟨hseen, hothers⟩ := getOrCreate_seen ht
      by_cases hid : id' = id
      · subst hid
        rw [Change.onFrame, if_pos rfl, hseen]
        rfl
      · rw [Change.onFrame, if_neg hid, hothers id (Ne.symm hid)]
  | reset =>
      cases h
      rfl
  | enable id' | enableChannel id' c | enableChannels id' cs
  | disable id' | disableChannel id' c | disableChannels id' cs =>
      cases h
      refine congrArg Except.ok (Eq.symm ?_)
      apply getOrCreate_update

/-- Only `seen` may fail, on a channel below zero. -/
theorem change_returns {s : Stream} {e : Change} (h : ∀ id c, e = .seen id c → 0 ≤ c) :
    ∃ s', s.change e = .ok s' := by
  cases e with
  | seen id c =>
      obtain ⟨st, hst⟩ : ∃ st, (s.getOrCreate id).seen c = .ok st := by
        have hc : ¬ c < 0 := not_lt.mpr (h id c rfl)
        unfold FSState.seen
        split_ifs <;> exact ⟨_, rfl⟩
      refine ⟨⟨s.state.insert id st.1⟩, ?_⟩
      rw [change, seen, hst]
      rfl
  | reset => exact ⟨_, rfl⟩
  | enable | enableChannel | enableChannels
  | disable | disableChannel | disableChannels =>
      exact ⟨_, rfl⟩

theorem run_returns {h : List Change} (hc : ∀ id c, Change.seen id c ∈ h → 0 ≤ c) :
    ∃ s, run h = .ok s := by
  induction h using List.reverseRecOn with
  | nil => exact ⟨_, rfl⟩
  | append_singleton h e ih =>
      obtain ⟨s, hs⟩ := ih fun id c hmem => hc id c (List.mem_append_left _ hmem)
      obtain ⟨s', hs'⟩ := change_returns (s := s) (e := e) fun id c he =>
        hc id c (List.mem_append_right _ (by simp [he]))
      exact ⟨s', run_snoc.mpr ⟨s, hs, hs'⟩⟩

end Stream

end BeyondProtocol
