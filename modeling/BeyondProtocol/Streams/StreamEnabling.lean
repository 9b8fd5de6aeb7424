import BeyondProtocol.Streams.StreamRuns

/-!
# Enabling and disabling on a stream

`enabled` and `selected` are separate fields of a frame's state. Enabling a channel sets
both, and taking the last channel off a frame clears both; but disabling a frame leaves
its channels selected, and taking channels off a frame that never had one disables it.
Every call makes a state for a frame that has none.
-/

namespace BeyondProtocol

open Framework

namespace Stream

/-! ## §1  What a caller can see -/

/-- All queries have the same answers. Sets of frames are compared as sets. -/
structure SameAnswers (s s' : Stream) : Prop where
  availableFrame : ∀ id, s'.availableFrame id = s.availableFrame id
  available : ∀ id c, s'.available id c = s.available id c
  availableAll : ∀ id cs, s'.availableAll id cs = s.availableAll id cs
  channels : ∀ id, s'.channels id = s.channels id
  frames : ∀ id, id ∈ s'.frames ↔ id ∈ s.frames
  size : s'.size = s.size
  enabledFrames : ∀ id, id ∈ s'.enabledFrames ↔ id ∈ s.enabledFrames
  enabled : ∀ id, s'.enabled id = s.enabled id
  enabledChannel : ∀ id c, s'.enabledChannel id c = s.enabledChannel id c
  enabledChannels : ∀ id, s'.enabledChannels id = s.enabledChannels id

/-- All queries look frames up. -/
theorem SameAnswers.of_getState {s s' : Stream} (h : ∀ id, s'.getState id = s.getState id) :
    SameAnswers s s' := by
  have hget : ∀ id, s'.getOrCreate id = s.getOrCreate id := by
    intro id
    rw [getOrCreate, h, getOrCreate]
  have hframes : ∀ id, id ∈ s'.frames ↔ id ∈ s.frames := by
    intro id
    rw [mem_frames, h, mem_frames]
  have henabled : ∀ id, s'.enabled id = s.enabled id := by
    intro id
    rw [Stream.enabled, hget, Stream.enabled]
  refine ⟨fun id => ?_, fun id c => ?_, fun id cs => ?_, fun id => ?_, hframes, ?_, fun id => ?_,
    henabled, fun id c => ?_, fun id => ?_⟩
  · rw [Stream.availableFrame, h, Stream.availableFrame]
  · rw [available_eq, hget, available_eq]
  · rw [Stream.availableAll, h, Stream.availableAll]
  · rw [channels_eq, hget, channels_eq]
  · exact ((List.perm_ext_iff_of_nodup s'.state.keys_nodup s.state.keys_nodup).mpr
      hframes).length_eq
  · rw [mem_enabledFrames, henabled, mem_enabledFrames]
  · rw [Stream.enabledChannel, h, Stream.enabledChannel]
  · rw [Stream.enabledChannels, hget, Stream.enabledChannels]

/-! ## §2  Disabling what is not enabled -/

variable {s : Stream} {id : FrameID}

theorem getOrCreate_of_available {st : FSState} (h : s.getState id = some st) :
    s.getOrCreate id = st := by
  rw [getOrCreate, h, Option.getD_some]

theorem getOrCreate_of_unavailable (h : s.availableFrame id = false) : s.getOrCreate id = {} := by
  have hnone : s.getState id = none := by simpa [availableFrame] using h
  rw [getOrCreate, hnone, Option.getD_none]

/-- A change of one frame that is none of its state goes unnoticed exactly if there is one. -/
theorem update_same_iff {f : FSState → FSState} (hf : f (s.getOrCreate id) = s.getOrCreate id) :
    SameAnswers s (s.update id f) ↔ s.availableFrame id = true := by
  constructor
  · intro hsame
    rw [← hsame.availableFrame, availableFrame, getState_update_self]
    rfl
  · intro havailable
    obtain ⟨st, hst⟩ := Option.isSome_iff_exists.mp havailable
    refine .of_getState fun id' => ?_
    by_cases hid : id' = id
    · rw [hid, getState_update_self, hf, hst, getOrCreate_of_available hst]
    · exact getState_update_ne hid s f

/-- The frame is enabled, but no channel of it. -/
def FrameOnly (s : Stream) (id : FrameID) : Prop :=
  s.enabled id = true ∧ s.enabledChannels id = ∅

theorem disable_same_iff (h : s.availableFrame id = false ∨ s.enabled id = false) :
    SameAnswers s (s.disable id) ↔ s.availableFrame id = true := by
  have hdisabled : (s.getOrCreate id).enabled = false := by
    rcases h with h | h
    · rw [getOrCreate_of_unavailable h]
    · exact h
  apply update_same_iff
  rw [← hdisabled]

theorem disableChannels_same_iff {cs : ChannelSet}
    (h : s.availableFrame id = false ∨ ∀ c ∈ cs, s.enabledChannel id c = false) :
    SameAnswers s (s.disableChannels id cs) ↔
      s.availableFrame id = true ∧ ¬ s.FrameOnly id := by
  have hkept : (s.getOrCreate id).selected \ cs = (s.getOrCreate id).selected := by
    rcases h with h | h
    · rw [getOrCreate_of_unavailable h, Finset.empty_sdiff]
    · rw [Finset.sdiff_eq_self_iff_disjoint, Finset.disjoint_right]
      intro c hc
      have := h c hc
      rwa [enabledChannel_eq, decide_eq_false_iff_not] at this
  by_cases honly : s.FrameOnly id
  · -- the frame loses a channel it does not have, and is disabled for it
    refine iff_of_false (fun hsame => ?_) fun hno => hno.2 honly
    have hafter : (s.disableChannels id cs).enabled id = false := by
      rw [enabled, disableChannels, getOrCreate_update_self]
      show (if _ then _ else _) = false
      rw [hkept]
      exact if_pos honly.2
    have := hsame.enabled id
    rw [hafter, honly.1] at this
    cases this
  · rw [and_iff_left honly]
    apply update_same_iff
    rw [hkept]
    have henabled : (if (s.getOrCreate id).selected = ∅ then false
        else (s.getOrCreate id).enabled) = (s.getOrCreate id).enabled := by
      split_ifs with hempty
      · exact (Bool.eq_false_iff.mpr fun hon => honly ⟨hon, hempty⟩).symm
      · rfl
    rw [henabled]

/-- **Disabling what is not enabled has no effect on a frame with a state**, unless the frame
was enabled without channels and a channel overload is called. Otherwise it has one. -/
theorem disable_same_answers_iff (s : Stream) (id : FrameID) :
    ((s.availableFrame id = false ∨ s.enabled id = false) →
      (SameAnswers s (s.disable id) ↔ s.availableFrame id = true)) ∧
    (∀ c, (s.availableFrame id = false ∨ s.enabledChannel id c = false) →
      (SameAnswers s (s.disableChannel id c) ↔
        s.availableFrame id = true ∧ ¬ s.FrameOnly id)) ∧
    ∀ cs : ChannelSet, (s.availableFrame id = false ∨ ∀ c ∈ cs, s.enabledChannel id c = false) →
      (SameAnswers s (s.disableChannels id cs) ↔
        s.availableFrame id = true ∧ ¬ s.FrameOnly id) := by
  refine ⟨disable_same_iff, fun c h => ?_, fun cs => disableChannels_same_iff⟩
  apply disableChannels_same_iff
  simpa using h

/-- A frame a stream has heard of, with nothing enabled. -/
theorem disable_same_answers_seen : ∃ s, run [.seen ⟨0⟩ Channel.kColour] = .ok s ∧
    SameAnswers s (s.disable ⟨0⟩) ∧ SameAnswers s (s.disableChannel ⟨0⟩ Channel.kColour) := by
  refine ⟨_, rfl, ?_, ?_⟩
  · exact ((disable_same_answers_iff _ ⟨0⟩).1 (.inr (by decide))).mpr (by decide)
  · refine ((disable_same_answers_iff _ ⟨0⟩).2.1 _ (.inr (by decide))).mpr ⟨by decide, ?_⟩
    rintro ⟨hon, -⟩
    revert hon
    decide

/-- Disabling a frame nobody heard of makes it available; disabling a channel of a frame
enabled without channels disables the frame. -/
theorem disable_has_effect :
    (∃ s, run [] = .ok s ∧ s.availableFrame ⟨0⟩ = false ∧
      (s.disable ⟨0⟩).availableFrame ⟨0⟩ = true ∧ (s.disable ⟨0⟩).size = 1 ∧
      ¬ SameAnswers s (s.disable ⟨0⟩) ∧
      ¬ SameAnswers s (s.disableChannel ⟨0⟩ Channel.kColour) ∧
      ¬ SameAnswers s (s.disableChannels ⟨0⟩ {Channel.kColour})) ∧
    ∃ s, run [.enable ⟨0⟩] = .ok s ∧ s.enabledChannel ⟨0⟩ Channel.kColour = false ∧
      s.enabled ⟨0⟩ = true ∧ (s.disableChannel ⟨0⟩ Channel.kColour).enabled ⟨0⟩ = false ∧
      ¬ SameAnswers s (s.disableChannel ⟨0⟩ Channel.kColour) ∧
      ¬ SameAnswers s (s.disableChannels ⟨0⟩ {Channel.kColour}) := by
  refine ⟨⟨_, rfl, by decide, by decide, by decide, fun h => ?_, fun h => ?_, fun h => ?_⟩,
    _, rfl, by decide, by decide, by decide, fun h => ?_, fun h => ?_⟩
  · exact absurd h.size (by decide)
  · exact absurd h.size (by decide)
  · exact absurd h.size (by decide)
  · exact absurd (h.enabled ⟨0⟩) (by decide)
  · exact absurd (h.enabled ⟨0⟩) (by decide)

/-! ## §3  Channels and frames -/

/-- The change enables channel `c` of `id`. -/
def Change.Enables (id : FrameID) (c : Channel) : Change → Prop
  | .enableChannel id' c' => id' = id ∧ c' = c
  | .enableChannels id' cs => id' = id ∧ c ∈ cs
  | _ => False

/-- The frame was disabled, and the channel not enabled since. -/
def Withdrawn (id : FrameID) (c : Channel) (h : List Change) : Prop :=
  Since (fun e => ¬ e.Enables id c) (fun _ e => e = .disable id) h

/-- What is enabled after a history is coherent: channels are enabled of enabled frames only,
the enabled frames are those listed, and a frame that was disabled has no channel enabled
that was not enabled again. -/
structure Coherent (h : List Change) (s : Stream) : Prop where
  frame : ∀ id c, s.enabledChannel id c = true → s.enabled id = true
  listed : ∀ id, id ∈ s.enabledFrames ↔ s.enabled id = true
  withdrawn : ∀ id c, Withdrawn id c h → s.enabledChannel id c = false

theorem withdrawn_snoc {id : FrameID} {c : Channel} {h : List Change} {e : Change} :
    Withdrawn id c (h ++ [e]) ↔ e = .disable id ∨ ¬ e.Enables id c ∧ Withdrawn id c h := since_snoc

theorem Coherent.nil : Coherent [] {} where
  frame id c h := by simp [enabledChannel] at h
  listed _ := mem_enabledFrames
  withdrawn id c h := by simp [Withdrawn] at h

/-- Channels come to a frame with a change that enables them. -/
theorem onFrame_selected {id : FrameID} {e : Change} {st st' : FSState}
    (h : e.onFrame id st = .ok st') {c : Channel} (hc : c ∈ st'.selected)
    (he : ¬ e.Enables id c) : c ∈ st.selected := by
  cases e with
  | seen id' c' =>
      by_cases hid : id' = id
      · rw [Change.onFrame, if_pos hid] at h
        obtain ⟨⟨t, fired⟩, ht, hret⟩ := bind_eq_ok.mp h
        cases hret
        exact (FSState.seen_selected ht).2 ▸ hc
      · rw [Change.onFrame, if_neg hid] at h
        cases h
        exact hc
  | reset =>
      cases h
      simp at hc
  | enable id' | disable id' =>
      cases h
      split at hc <;> exact hc
  | enableChannel id' c' =>
      cases h
      split at hc
      · rename_i hid
        exact Finset.mem_of_mem_insert_of_ne hc fun heq => he ⟨hid, heq.symm⟩
      · exact hc
  | enableChannels id' cs =>
      cases h
      split at hc
      · rename_i hid
        exact (Finset.mem_union.mp hc).resolve_right fun hmem => he ⟨hid, hmem⟩
      · exact hc
  | disableChannel id' c' | disableChannels id' cs =>
      cases h
      split at hc
      · exact (Finset.mem_sdiff.mp hc).1
      · exact hc

/-- A frame with a channel stays enabled, unless it is disabled as a whole. -/
theorem onFrame_enabled {id : FrameID} {e : Change} {st st' : FSState}
    (h : e.onFrame id st = .ok st') (hst : st.selected.Nonempty → st.enabled = true)
    (hsafe : e = .disable id → st.selected = ∅) :
    st'.selected.Nonempty → st'.enabled = true := by
  cases e with
  | seen id' c' =>
      by_cases hid : id' = id
      · rw [Change.onFrame, if_pos hid] at h
        obtain ⟨⟨t, fired⟩, ht, hret⟩ := bind_eq_ok.mp h
        cases hret
        obtain ⟨henabled, hselected⟩ := FSState.seen_selected ht
        rwa [henabled, hselected]
      · rw [Change.onFrame, if_neg hid] at h
        cases h
        exact hst
  | reset =>
      cases h
      intro hne
      simp at hne
  | disable id' =>
      cases h
      split
      · rename_i hid
        intro hne
        rw [show st.selected = ∅ from hsafe (by rw [hid])] at hne
        simp at hne
      · exact hst
  | enable id' | enableChannel id' c' | enableChannels id' cs =>
      cases h
      split
      · exact fun _ => rfl
      · exact hst
  | disableChannel id' c' | disableChannels id' cs =>
      cases h
      split
      · intro hne
        exact (if_neg hne.ne_empty).trans (hst (hne.mono Finset.sdiff_subset))
      · exact hst

/-- Every change but the disabling of a frame with channels keeps what is enabled coherent. -/
theorem Coherent.step {h : List Change} {s s' : Stream} {e : Change} (hc : Coherent h s)
    (hstep : s.change e = .ok s') (hsafe : ∀ id, e = .disable id → s.enabledChannels id = ∅) :
    Coherent (h ++ [e]) s' where
  frame id c hchannel := by
    rw [enabledChannel_eq, decide_eq_true_iff] at hchannel
    refine onFrame_enabled (change_onFrame hstep id) ?_ (hsafe id) ⟨c, hchannel⟩
    rintro ⟨c', hc'⟩
    exact hc.frame id c' (by rw [enabledChannel_eq]; exact decide_eq_true hc')
  listed _ := mem_enabledFrames
  withdrawn id c hwithdrawn := by
    rw [enabledChannel_eq, decide_eq_false_iff_not]
    intro hmem
    rcases withdrawn_snoc.mp hwithdrawn with rfl | ⟨he, hbefore⟩
    · have hold := onFrame_selected (change_onFrame hstep id) hmem (by simp [Change.Enables])
      rw [show (s.getOrCreate id).selected = ∅ from hsafe id rfl] at hold
      simp at hold
    · have hold := onFrame_selected (change_onFrame hstep id) hmem he
      have hnone := hc.withdrawn id c hbefore
      rw [enabledChannel_eq, decide_eq_false_iff_not] at hnone
      exact hnone hold

/-- Disabling a frame leaves its channels selected. -/
theorem Coherent.of_disable {h : List Change} {s : Stream} {id : FrameID}
    (hc : Coherent h (s.disable id)) : s.enabledChannels id = ∅ := by
  refine Finset.eq_empty_of_forall_notMem fun c hmem => ?_
  have hframe := hc.frame id c
  rw [enabledChannel_eq, enabled, enabledChannels, disable, getOrCreate_update_self,
    decide_eq_true_iff] at hframe
  cases hframe hmem

/-- **What is enabled stays coherent as long as no frame is disabled that has a channel
enabled**, and no longer: all states along a history are coherent exactly if every frame
that it disables has no channel enabled then. -/
theorem coherent_iff_disabled_empty (h : List Change) :
    (∀ pre post s, h = pre ++ post → run pre = .ok s → Coherent pre s) ↔
      ∀ pre id post s, h = pre ++ .disable id :: post → run pre = .ok s →
        s.enabledChannels id = ∅ := by
  have hstep : ∀ pre s e t, Coherent pre s → s.change e = .ok t →
      (Coherent (pre ++ [e]) t ↔ ∀ id, e = .disable id → s.enabledChannels id = ∅) := by
    intro pre s e t hc hchange
    constructor
    · rintro hnext id rfl
      cases hchange
      exact hnext.of_disable
    · exact hc.step hchange
  refine (invariant_iff_safe_hist Coherent.nil hstep h).trans ⟨?_, ?_⟩
  · intro hsafe pre id post s heq hs
    exact hsafe pre _ post s _ heq hs rfl id rfl
  · rintro hempty pre e post s t heq hs - id rfl
    exact hempty pre id post s heq hs

/-- A frame disabled with its channel still enabled. -/
theorem disabled_frame_keeps_channel :
    ∃ s, run [.enableChannel ⟨0⟩ Channel.kColour, .disable ⟨0⟩] = .ok s ∧
      s.enabled ⟨0⟩ = false ∧ s.enabledChannel ⟨0⟩ Channel.kColour = true ∧
      ¬ Coherent [.enableChannel ⟨0⟩ Channel.kColour, .disable ⟨0⟩] s := by
  refine ⟨_, rfl, by decide, by decide, fun h => ?_⟩
  exact absurd (h.frame ⟨0⟩ Channel.kColour (by decide)) (by decide)

end Stream

end BeyondProtocol
