import BeyondProtocol.Streams.StreamRuns

/-!
# Which channels are available

A channel below 64 is available if the last complete frame had it: it was seen between the
last two EndFrames, or before the first one. A data channel is available once it was seen.
A reset starts anew for both. The masks and the set that `seen` keeps of a frame say so
exactly, whatever happens to other frames and whatever is enabled in between.
-/

namespace BeyondProtocol

open Framework

namespace Stream

/-! ## §1  What a history says -/

/-- What ends the frame of `id` in progress: its EndFrame, or a reset. -/
def Change.Cuts (id : FrameID) (e : Change) : Prop :=
  e = .seen id Channel.kEndFrame ∨ e = .reset

/-- `c` was seen for `id`, and neither an EndFrame of `id` nor a reset came since. -/
def SeenInFrame (id : FrameID) (c : Channel) (h : List Change) : Prop :=
  Since (fun e => ¬ e.Cuts id) (fun _ e => e = .seen id c) h

/-- `c` was seen between the last two EndFrames of `id`; with only one of them since the
start or the last reset, before that one. -/
def SeenInLastFrame (id : FrameID) (c : Channel) (h : List Change) : Prop :=
  Since (fun e => ¬ e.Cuts id)
    (fun pre e => e = .seen id Channel.kEndFrame ∧ SeenInFrame id c pre) h

def SeenSinceReset (id : FrameID) (c : Channel) (h : List Change) : Prop :=
  Since (· ≠ .reset) (fun _ e => e = .seen id c) h

section
variable {id : FrameID} {c : Channel} {h : List Change} {e : Change}

theorem seenInFrame_snoc : SeenInFrame id c (h ++ [e]) ↔
    e = .seen id c ∨ ¬ e.Cuts id ∧ SeenInFrame id c h := since_snoc

theorem seenInLastFrame_snoc : SeenInLastFrame id c (h ++ [e]) ↔
    (e = .seen id Channel.kEndFrame ∧ SeenInFrame id c h) ∨
      ¬ e.Cuts id ∧ SeenInLastFrame id c h := since_snoc

theorem seenSinceReset_snoc : SeenSinceReset id c (h ++ [e]) ↔
    e = .seen id c ∨ e ≠ .reset ∧ SeenSinceReset id c h := since_snoc

end

/-! ## §2  What the state of a frame records -/

structure Records (id : FrameID) (h : List Change) (st : FSState) : Prop where
  next : ∀ c : Channel, 0 ≤ c → c < 64 →
    (st.availableNext.getLsbD c.toNat = true ↔ SeenInFrame id c h)
  last : ∀ c : Channel, 0 ≤ c → c < 64 →
    (st.availableLast.getLsbD c.toNat = true ↔ SeenInLastFrame id c h)
  persistent : ∀ c : Channel,
    c ∈ st.availablePersistent ↔ 64 ≤ c ∧ c ≠ Channel.kEndFrame ∧ SeenSinceReset id c h

variable {id : FrameID} {h : List Change} {st st' : FSState}

theorem Records.nil : Records id [] {} where
  next c _ _ := by simp [SeenInFrame]
  last c _ _ := by simp [SeenInLastFrame]
  persistent c := by simp [SeenSinceReset]

theorem Records.reset : Records id (h ++ [.reset]) {} where
  next c _ _ := by simp [seenInFrame_snoc, Change.Cuts]
  last c _ _ := by simp [seenInLastFrame_snoc, Change.Cuts]
  persistent c := by simp [seenSinceReset_snoc]

/-- A change that shows nothing of the frame. -/
theorem Records.quiet (hr : Records id h st) {e : Change} (hseen : ∀ c, e ≠ .seen id c)
    (hreset : e ≠ .reset) (hnext : st'.availableNext = st.availableNext)
    (hlast : st'.availableLast = st.availableLast)
    (hpersistent : st'.availablePersistent = st.availablePersistent) :
    Records id (h ++ [e]) st' where
  next c h₀ h₁ := by
    rw [hnext, hr.next c h₀ h₁, seenInFrame_snoc]
    simp [Change.Cuts, hseen, hreset]
  last c h₀ h₁ := by
    rw [hlast, hr.last c h₀ h₁, seenInLastFrame_snoc]
    simp [Change.Cuts, hseen, hreset]
  persistent c := by
    rw [hpersistent, hr.persistent, seenSinceReset_snoc]
    simp [hseen, hreset]

/-- The EndFrame completes the frame in progress. -/
theorem Records.endFrame (hr : Records id h st) :
    Records id (h ++ [.seen id Channel.kEndFrame])
      { st with availableLast := st.availableNext, availableNext := 0 } where
  next c _ h₁ := by
    have hne : Channel.kEndFrame ≠ c := by
      rintro rfl
      exact absurd h₁ (by decide)
    simp [seenInFrame_snoc, Change.Cuts, hne]
  last c h₀ h₁ := by
    rw [seenInLastFrame_snoc]
    simpa [Change.Cuts] using hr.next c h₀ h₁
  persistent c := by
    show c ∈ st.availablePersistent ↔ _
    rw [hr.persistent, seenSinceReset_snoc]
    by_cases hc : c = Channel.kEndFrame
    · simp [hc]
    · simp [Ne.symm hc]

/-- Any other channel belongs to the frame in progress, and to the data channels if it is one
of them. -/
theorem Records.channel (hr : Records id h st) {c : Channel} (hend : c ≠ Channel.kEndFrame)
    (hnext : ∀ c' : Channel, 0 ≤ c' → c' < 64 →
      (st'.availableNext.getLsbD c'.toNat = true ↔
        c = c' ∨ st.availableNext.getLsbD c'.toNat = true))
    (hlast : st'.availableLast = st.availableLast)
    (hpersistent : ∀ c', c' ∈ st'.availablePersistent ↔
      (c = c' ∧ 64 ≤ c) ∨ c' ∈ st.availablePersistent) :
    Records id (h ++ [.seen id c]) st' := by
  have hcuts : ¬ (Change.seen id c).Cuts id := by simp [Change.Cuts, hend]
  constructor
  · intro c' h₀ h₁
    rw [hnext c' h₀ h₁, hr.next c' h₀ h₁, seenInFrame_snoc]
    simp [hcuts]
  · intro c' h₀ h₁
    rw [hlast, hr.last c' h₀ h₁, seenInLastFrame_snoc]
    simp [hcuts, hend]
  · intro c'
    rw [hpersistent, hr.persistent, seenSinceReset_snoc]
    constructor
    · rintro (⟨rfl, hc⟩ | ⟨hc, hne, hsince⟩)
      · exact ⟨hc, hend, .inl rfl⟩
      · exact ⟨hc, hne, .inr ⟨by simp, hsince⟩⟩
    · rintro ⟨hc, hne, heq | ⟨-, hsince⟩⟩
      · cases heq
        exact .inl ⟨rfl, hc⟩
      · exact .inr ⟨hc, hne, hsince⟩

theorem Records.seen (hr : Records id h st) {c : Channel} {fired : Bool}
    (hseen : st.seen c = .ok (st', fired)) : Records id (h ++ [.seen id c]) st' := by
  unfold FSState.seen at hseen
  split_ifs at hseen with hend hc hmem hneg
  · cases hseen
    subst hend
    exact hr.endFrame
  · cases hseen
    have hge : (64 : Int) ≤ c := by simpa [Channel.isPersistent] using hc
    refine hr.channel hend (fun c' _ h₁ => ?_) rfl (fun c' => ?_)
    · rw [or_iff_right (hge.trans_lt' h₁).ne']
    · rw [or_iff_right_of_imp]
      rintro ⟨rfl, -⟩
      exact hmem
  · cases hseen
    have hge : (64 : Int) ≤ c := by simpa [Channel.isPersistent] using hc
    refine hr.channel hend (fun c' _ h₁ => ?_) rfl (fun c' => ?_)
    · rw [or_iff_right (hge.trans_lt' h₁).ne']
    · simp [hge, eq_comm]
  · cases hseen
    have hpers : c.isPersistent = false := Bool.eq_false_iff.mpr hc
    have hlt : (c : Int) < 64 := by simpa [Channel.isPersistent] using hpers
    refine hr.channel hend (fun c' h₀ h₁ => ?_) rfl (fun c' => ?_)
    · rw [BitVec.getLsbD_or, getLsbD_bit hpers, Bool.or_eq_true, decide_eq_true_eq, or_comm]
      refine or_congr_left ⟨fun heq => ?_, congrArg Int.toNat⟩
      rw [← Int.toNat_of_nonneg (not_lt.mp hneg), heq, Int.toNat_of_nonneg h₀]
    · simp [hlt]

theorem Records.step (hr : Records id h st) {e : Change} (hstep : e.onFrame id st = .ok st') :
    Records id (h ++ [e]) st' := by
  cases e with
  | reset =>
      cases hstep
      exact .reset
  | seen id' c =>
      by_cases hid : id' = id
      · subst hid
        rw [Change.onFrame, if_pos rfl] at hstep
        obtain ⟨⟨t, fired⟩, ht, hret⟩ := bind_eq_ok.mp hstep
        cases hret
        exact hr.seen ht
      · rw [Change.onFrame, if_neg hid] at hstep
        cases hstep
        exact hr.quiet (by simp [hid]) (by simp) rfl rfl rfl
  | enable id' | enableChannel id' c | enableChannels id' cs
  | disable id' | disableChannel id' c | disableChannels id' cs =>
      cases hstep
      refine hr.quiet (by simp) (by simp) ?_ ?_ ?_ <;> split <;> rfl

theorem records_of_run {s : Stream} (hrun : run h = .ok s) (id : FrameID) :
    Records id h (s.getOrCreate id) := by
  induction h using List.reverseRecOn generalizing s with
  | nil =>
      cases hrun
      exact .nil
  | append_singleton h e ih =>
      obtain ⟨t, ht, hstep⟩ := run_snoc.mp hrun
      exact (ih ht).step (change_onFrame hstep id)

/-! ## §3  The observers -/

/-- The mask of the last frame, as `channels` reads it. -/
theorem mem_last_channels {last : BitVec 64} {c : Channel} (hc : c.isPersistent = false) :
    c ∈ ((Finset.range 64).filter fun i => 1#64 <<< i &&& last ≠ 0).image Int.ofNat ↔
      0 ≤ c ∧ (last &&& c.bit != 0) = true := by
  have hlt : (c : Int) < 64 := by simpa [Channel.isPersistent] using hc
  rw [Finset.mem_image]
  constructor
  · rintro ⟨i, hi, rfl⟩
    refine ⟨Int.natCast_nonneg i, ?_⟩
    have hmask := (Finset.mem_filter.mp hi).2
    rw [BitVec.and_comm] at hmask
    exact bne_iff_ne.mpr hmask
  · rintro ⟨hnonneg, hmask⟩
    refine ⟨c.toNat, Finset.mem_filter.mpr ⟨?_, ?_⟩, Int.toNat_of_nonneg hnonneg⟩
    · exact Finset.mem_range.mpr ((Int.toNat_lt hnonneg).mpr hlt)
    · rw [BitVec.and_comm]
      exact bne_iff_ne.mp hmask

/-- `channels` lists what `available` answers, as long as only data channels are kept as
such. -/
theorem mem_channels {s : Stream} (hdata : ∀ c ∈ (s.getOrCreate id).availablePersistent,
    c.isPersistent = true) (c : Channel) :
    c ∈ s.channels id ↔ 0 ≤ c ∧ s.available id c = true := by
  rw [channels_eq, available_eq, Finset.mem_union]
  cases hc : c.isPersistent with
  | true =>
      have hge : (64 : Int) ≤ c := by simpa [Channel.isPersistent] using hc
      rw [if_pos rfl, decide_eq_true_iff, and_iff_right (le_trans (by decide) hge)]
      refine or_iff_left fun hmem => ?_
      obtain ⟨i, hi, rfl⟩ := Finset.mem_image.mp hmem
      have hi' := Finset.mem_range.mp (Finset.mem_filter.mp hi).1
      exact absurd (Int.ofNat_lt.mpr hi') (not_lt.mpr hge)
  | false =>
      rw [mem_last_channels hc, or_iff_right]
      · simp
      · intro hmem
        exact absurd (hdata c hmem) (by simp [hc])

/-- **What is available is what was seen.** After any history whose channels are not
negative, a channel below 64 is available for a frame if the last complete frame had it,
and a data channel if it was seen since the last reset; the set overload asks for all of
its channels, and `channels` lists those that are available. -/
theorem available_iff_seen (h : List Change) (hc : ∀ id c, Change.seen id c ∈ h → 0 ≤ c) :
    ∃ s, run h = .ok s ∧ ∀ id,
      (∀ c, 0 ≤ c → c < 64 → (s.available id c = true ↔ SeenInLastFrame id c h)) ∧
      (∀ c, 64 ≤ c → c ≠ Channel.kEndFrame →
        (s.available id c = true ↔ SeenSinceReset id c h)) ∧
      (s.availableFrame id = true → ∀ cs : ChannelSet,
        (s.availableAll id cs = true ↔ ∀ c ∈ cs, s.available id c = true)) ∧
      ∀ c, c ∈ s.channels id ↔ 0 ≤ c ∧ s.available id c = true := by
  obtain ⟨s, hrun⟩ := run_returns hc
  refine ⟨s, hrun, fun id => ?_⟩
  have hr := records_of_run hrun id
  refine ⟨fun c h₀ h₁ => ?_, fun c hge hend => ?_, fun hframe cs => ?_, mem_channels ?_⟩
  · have hpers : Channel.isPersistent c = false := by simpa [Channel.isPersistent] using h₁
    rw [available_eq, hpers, if_neg (by simp), and_bit_ne_zero hpers]
    exact hr.last c h₀ h₁
  · have hpers : Channel.isPersistent c = true := by simpa [Channel.isPersistent] using hge
    rw [available_eq, hpers, if_pos rfl, decide_eq_true_iff, hr.persistent]
    simp [hge, hend]
  · rw [availableAll_iff, and_iff_right hframe]
  · intro c hmem
    simpa [Channel.isPersistent] using ((hr.persistent c).mp hmem).1

/-- One frame with colour. -/
def colourFrame : List Change :=
  [.seen ⟨0⟩ Channel.kColour, .seen ⟨0⟩ Channel.kEndFrame]

theorem colourFrame_available : ∃ s, run colourFrame = .ok s ∧
    s.available ⟨0⟩ Channel.kColour = true ∧ Channel.kColour ∈ s.channels ⟨0⟩ := by
  have hc : ∀ id c, Change.seen id c ∈ colourFrame → 0 ≤ c := by
    intro id c hmem
    simp only [colourFrame, List.mem_cons, List.not_mem_nil, or_false, Change.seen.injEq] at hmem
    rcases hmem with ⟨-, rfl⟩ | ⟨-, rfl⟩ <;> decide
  obtain ⟨s, hrun, hs⟩ := available_iff_seen colourFrame hc
  obtain ⟨hlast, -, -, hchannels⟩ := hs ⟨0⟩
  have hseen : SeenInLastFrame ⟨0⟩ Channel.kColour colourFrame :=
    ⟨[.seen ⟨0⟩ Channel.kColour], _, [], rfl, ⟨rfl, [], _, [], rfl, rfl, by simp⟩, by simp⟩
  have havailable := (hlast Channel.kColour (by decide) (by decide)).mpr hseen
  exact ⟨s, hrun, havailable, (hchannels _).mpr ⟨by decide, havailable⟩⟩

end Stream

end BeyondProtocol
