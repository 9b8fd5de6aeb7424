import Mathlib.Data.List.AList
import BeyondProtocol.Protocol.Packet
import BeyondProtocol.Framework.Fallible

/-!
# Streams: what is enabled and what is available (`streams.cpp`)

Every stream keeps one `FSState` per frame. Channels below 64 are available
when they were seen in the last completed frame: `seen` collects them in
`availableNext`, and the EndFrame makes that mask the new `availableLast`.
Data channels, from 64 on, stay available once they were seen.

The frame table is an `std::unordered_map` in the source. Its iteration order
is unspecified there; the model lists the frames in the order of the table.
-/

namespace BeyondProtocol

/-- `Stream::FSState` -/
structure FSState where
  enabled : Bool := false
  selected : ChannelSet := ∅
  availablePersistent : ChannelSet := ∅
  availableLast : BitVec 64 := 0
  availableNext : BitVec 64 := 0
deriving DecidableEq

/-- `1ull << static_cast<int>(channel)`, for a channel below 64. -/
def Channel.bit (c : Channel) : BitVec 64 := 1#64 <<< c.toNat

/-- The new state of a frame after `seen`, and whether `avail_cb_` is triggered.
A channel below zero is shifted out of range. -/
def FSState.seen (st : FSState) (c : Channel) : Except Fault (FSState × Bool) :=
  if c = Channel.kEndFrame then
    .ok ({ st with availableLast := st.availableNext, availableNext := 0 }, true)
  else if c.isPersistent then
    if c ∈ st.availablePersistent then .ok (st, false)
    else .ok ({ st with availablePersistent := insert c st.availablePersistent }, true)
  else if c < 0 then .error .undefined
  else
    .ok ({ st with availableNext := st.availableNext ||| c.bit },
      st.availableLast &&& c.bit == 0)

/-- `seen` leaves the selection of a frame alone. -/
theorem FSState.seen_selected {st st' : FSState} {c : Channel} {fired : Bool}
    (h : st.seen c = .ok (st', fired)) :
    st'.enabled = st.enabled ∧ st'.selected = st.selected := by
  unfold FSState.seen at h
  split_ifs at h <;> cases h <;> exact ⟨rfl, rfl⟩

structure Stream where
  state : AList (fun _ : FrameID => FSState) := ∅

namespace Stream

/-! ## §1  Queries -/

/-- `_getState(id)` on a constant stream. -/
def getState (s : Stream) (id : FrameID) : Option FSState := s.state.lookup id

/-- The state `_getState(id)` hands out for writing: a new one if there is none. -/
def getOrCreate (s : Stream) (id : FrameID) : FSState := (s.getState id).getD {}

/-- `available(FrameID)` -/
def availableFrame (s : Stream) (id : FrameID) : Bool := (s.getState id).isSome

/-- The shift of the source is defined for `0 ≤ c` only. -/
def available (s : Stream) (id : FrameID) (c : Channel) : Bool :=
  match s.getState id with
  | none => false
  | some st =>
      if c.isPersistent then decide (c ∈ st.availablePersistent)
      else st.availableLast &&& c.bit != 0

/-- `available(FrameID, const ChannelSet &)` -/
def availableAll (s : Stream) (id : FrameID) (cs : ChannelSet) : Bool :=
  match s.getState id with
  | none => false
  | some st => decide (∀ c ∈ cs,
      if c.isPersistent then c ∈ st.availablePersistent else st.availableLast &&& c.bit ≠ 0)

def channels (s : Stream) (id : FrameID) : ChannelSet :=
  match s.getState id with
  | none => ∅
  | some st => st.availablePersistent ∪
      ((Finset.range 64).filter fun i => 1#64 <<< i &&& st.availableLast ≠ 0).image Int.ofNat

def frames (s : Stream) : List FrameID := s.state.keys

/-- `enabled(FrameID)` -/
def enabled (s : Stream) (id : FrameID) : Bool := (s.getOrCreate id).enabled

/-- `enabled()` -/
def enabledFrames (s : Stream) : List FrameID := s.frames.filter s.enabled

/-- `enabled(fs)` -/
def enabledIn (s : Stream) (fs : Nat) : List FrameID :=
  s.enabledFrames.filter fun f => f.frameset = fs

/-- `enabled(FrameID, Channel)` -/
def enabledChannel (s : Stream) (id : FrameID) (c : Channel) : Bool :=
  match s.getState id with
  | none => false
  | some st => decide (c ∈ st.selected)

def enabledChannels (s : Stream) (id : FrameID) : ChannelSet := (s.getOrCreate id).selected

def size (s : Stream) : Nat := s.frames.length

/-! ## §2  Changes -/

def update (s : Stream) (id : FrameID) (f : FSState → FSState) : Stream :=
  ⟨s.state.insert id (f (s.getOrCreate id))⟩

/-- `enable(FrameID)` -/
def enable (s : Stream) (id : FrameID) : Stream :=
  s.update id fun p => { p with enabled := true }

/-- `enable(FrameID, Channel)` -/
def enableChannel (s : Stream) (id : FrameID) (c : Channel) : Stream :=
  s.update id fun p => { p with enabled := true, selected := insert c p.selected }

/-- `enable(FrameID, const ChannelSet &)` -/
def enableChannels (s : Stream) (id : FrameID) (cs : ChannelSet) : Stream :=
  s.update id fun p => { p with enabled := true, selected := p.selected ∪ cs }

/-- `disable(FrameID)` -/
def disable (s : Stream) (id : FrameID) : Stream :=
  s.update id fun p => { p with enabled := false }

/-- `disable(FrameID, const ChannelSet &)`; the frame goes with its last channel. -/
def disableChannels (s : Stream) (id : FrameID) (cs : ChannelSet) : Stream :=
  s.update id fun p =>
    { p with
      selected := p.selected \ cs
      enabled := if p.selected \ cs = ∅ then false else p.enabled }

/-- `disable(FrameID, Channel)` -/
def disableChannel (s : Stream) (id : FrameID) (c : Channel) : Stream :=
  s.disableChannels id {c}

/-- `reset` forgets all frames. -/
def reset (_ : Stream) : Stream := {}

def seen (s : Stream) (id : FrameID) (c : Channel) : Except Fault (Stream × Bool) := do
  let (st, fired) ← (s.getOrCreate id).seen c
  return (⟨s.state.insert id st⟩, fired)

/-! ## §3  Lookups after changes -/

@[simp] theorem getState_update_self (s : Stream) (id : FrameID) (f : FSState → FSState) :
    (s.update id f).getState id = some (f (s.getOrCreate id)) :=
  AList.lookup_insert s.state

@[simp] theorem getState_update_ne {id id' : FrameID} (h : id' ≠ id) (s : Stream)
    (f : FSState → FSState) : (s.update id f).getState id' = s.getState id' :=
  AList.lookup_insert_ne h

@[simp] theorem getOrCreate_update_self (s : Stream) (id : FrameID) (f : FSState → FSState) :
    (s.update id f).getOrCreate id = f (s.getOrCreate id) := by
  simp [getOrCreate]

@[simp] theorem getOrCreate_update_ne {id id' : FrameID} (h : id' ≠ id) (s : Stream)
    (f : FSState → FSState) : (s.update id f).getOrCreate id' = s.getOrCreate id' := by
  simp [getOrCreate, h]

@[simp] theorem getState_empty (id : FrameID) : (⟨∅⟩ : Stream).getState id = none :=
  AList.lookup_empty id

theorem mem_frames {s : Stream} {id : FrameID} : id ∈ s.frames ↔ (s.getState id).isSome :=
  AList.mem_keys.symm.trans AList.lookup_isSome.symm

theorem mem_enabledFrames {s : Stream} {id : FrameID} :
    id ∈ s.enabledFrames ↔ s.enabled id = true := by
  rw [enabledFrames, List.mem_filter, mem_frames, and_iff_right_iff_imp]
  intro h
  by_contra hnone
  simp [enabled, getOrCreate, Option.not_isSome_iff_eq_none.mp hnone] at h

theorem mem_enabledIn {s : Stream} {fs : Nat} {id : FrameID} :
    id ∈ s.enabledIn fs ↔ s.enabled id = true ∧ id.frameset = fs := by
  rw [enabledIn, List.mem_filter, mem_enabledFrames, decide_eq_true_iff]

/-- `seen` is the step of the one frame it names. -/
theorem seen_eq {s s' : Stream} {id : FrameID} {c : Channel} {fired : Bool}
    (h : s.seen id c = .ok (s', fired)) :
    ∃ st, (s.getOrCreate id).seen c = .ok (st, fired) ∧ s' = s.update id fun _ => st := by
  unfold seen at h
  obtain ⟨⟨st, b⟩, hst, hret⟩ := Framework.bind_eq_ok.mp h
  cases hret
  exact ⟨st, hst, rfl⟩

theorem seen_enabled {s s' : Stream} {id : FrameID} {c : Channel} {fired : Bool}
    (h : s.seen id c = .ok (s', fired)) (f : FrameID) :
    s'.enabled f = s.enabled f ∧ s'.enabledChannels f = s.enabledChannels f := by
  obtain ⟨st, hst, rfl⟩ := seen_eq h
  by_cases hf : f = id
  · subst hf
    have := FSState.seen_selected hst
    simpa [enabled, enabledChannels] using this
  · simp [enabled, enabledChannels, hf]

end Stream

end BeyondProtocol
