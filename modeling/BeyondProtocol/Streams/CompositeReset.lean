import BeyondProtocol.Framework.History
import BeyondProtocol.Streams.Composite
import BeyondProtocol.Streams.MuxerMaps

/-!
# Resetting a stream of streams

`reset` of a muxer or a broadcast resets the children and nothing else. What the composite
has in its own frame table, from the reports of its children and from the calls that went
through it, stays there.
-/

namespace BeyondProtocol

open Framework

/-! ## §1  Nothing to report -/

/-- No frame and no channel is available or enabled. -/
structure Stream.Blank (s : Stream) : Prop where
  frames : s.frames = []
  enabledFrames : s.enabledFrames = []
  channels : ∀ id, s.channels id = ∅
  enabledChannels : ∀ id, s.enabledChannels id = ∅

theorem Stream.blank_iff {s : Stream} : s.Blank ↔ s.frames = [] := by
  constructor
  · exact Blank.frames
  · intro h
    have hnone : ∀ id, s.getState id = none := by
      intro id
      rw [← Option.not_isSome_iff_eq_none, ← mem_frames, h]
      exact List.not_mem_nil
    refine ⟨h, ?_, fun id => ?_, fun id => ?_⟩
    · rw [enabledFrames, h, List.filter_nil]
    · rw [Stream.channels, hnone]
    · rw [Stream.enabledChannels, getOrCreate, hnone]
      rfl

theorem Stream.not_blank_update (s : Stream) (id : FrameID) (f : FSState → FSState) :
    ¬ (s.update id f).Blank := by
  intro h
  have hframes : (s.update id f).frames = _ := AList.keys_insert s.state
  rw [h.frames] at hframes
  cases hframes

theorem Stream.not_blank_enable (s : Stream) (id : FrameID) (sel : Selection) :
    ¬ (s.enableSelection id sel).Blank := by
  cases sel <;> simp [enableSelection, enable, enableChannel, enableChannels, not_blank_update]

theorem Stream.not_blank_disable (s : Stream) (id : FrameID) (sel : Selection) :
    ¬ (s.disableSelection id sel).Blank := by
  cases sel <;> simp [disableSelection, disable, disableChannel, disableChannels, not_blank_update]

theorem Stream.not_blank_seen {s s' : Stream} {id : FrameID} {c : Channel} {fired : Bool}
    (h : s.seen id c = .ok (s', fired)) : ¬ s'.Blank := by
  obtain ⟨st, -, rfl⟩ := seen_eq h
  exact not_blank_update s id _

variable {σ κ : Type} [DecidableEq σ]

/-- The reset of a child leaves nothing to report, as `Stream::reset` says. -/
def StreamClass.ResetClears (S : StreamClass κ) : Prop := ∀ k, (S.base (S.reset k)).Blank

/-- What was called of every child has been called of each. -/
theorem Broadcast.eachChild_of_mem (f : κ → κ) {streams : List σ} (child : σ → κ) {s : σ}
    (hs : s ∈ streams) : ∃ k, eachChild f streams child s = f k := by
  induction streams using List.reverseRecOn with
  | nil => cases hs
  | append_singleton streams a ih =>
      rw [eachChild, List.foldl_append]
      by_cases hsa : s = a
      · subst hsa
        exact ⟨_, Function.update_self s _ _⟩
      · obtain ⟨k, hk⟩ := ih ((List.mem_append.mp hs).resolve_right (by simp [hsa]))
        exact ⟨k, (Function.update_of_ne hsa _ _).trans hk⟩

/-! ## §2  Broadcast -/

/-- What happens to a broadcast. Its children may change on their own. -/
inductive BroadcastEvent (σ κ : Type) : Type where
  | add (s : σ)
  | remove (s : σ)
  | clear
  | child (s : σ) (k : κ)
  | available (s : σ) (id : FrameID) (c : Channel)
  | enable (id : FrameID) (sel : Selection)
  | disable (id : FrameID) (sel : Selection)
  | reset

namespace Broadcast

variable (S : StreamClass κ)

/-- A child that was removed has its callbacks cancelled. -/
def step (b : Broadcast σ κ) : BroadcastEvent σ κ → Except Fault (Broadcast σ κ)
  | .add s => .ok (b.add s)
  | .remove s => .ok (b.remove s)
  | .clear => .ok b.clear
  | .child s k => .ok { b with child := Function.update b.child s k }
  | .available s id c =>
      if s ∈ b.streams then do
        let r ← b.onAvailable id c
        return r.1
      else .ok b
  | .enable id sel => .ok (b.enable S id sel).1
  | .disable id sel => .ok (b.disable S id sel)
  | .reset => .ok (b.reset S)

/-- The step gives the broadcast a frame of its own. -/
def Touches (b : Broadcast σ κ) : BroadcastEvent σ κ → Prop
  | .available s _ _ => s ∈ b.streams
  | .enable id sel => (b.enable S id sel).2 = true
  | .disable _ _ => True
  | _ => False

theorem step_blank_iff {b b' : Broadcast σ κ} {e : BroadcastEvent σ κ} (hb : b.base.Blank)
    (hstep : b.step S e = .ok b') : b'.base.Blank ↔ ¬ b.Touches S e := by
  cases e with
  | available s id c =>
      by_cases hs : s ∈ b.streams
      · rw [step, if_pos hs] at hstep
        obtain ⟨⟨b₁, fired⟩, hb₁, hret⟩ := bind_eq_ok.mp hstep
        obtain ⟨⟨base, f⟩, hseen, hret'⟩ := bind_eq_ok.mp hb₁
        cases hret
        cases hret'
        exact iff_of_false (Stream.not_blank_seen hseen) (not_not_intro hs)
      · rw [step, if_neg hs] at hstep
        cases hstep
        exact iff_of_true hb hs
  | enable id sel =>
      cases hstep
      show (if (enableEach S id sel b.streams b.child false).2 then _ else _ : Stream).Blank ↔
        ¬ (enableEach S id sel b.streams b.child false).2 = true
      split_ifs with hr
      · exact iff_of_false (Stream.not_blank_enable b.base id sel) (not_not_intro hr)
      · exact iff_of_true hb hr
  | disable id sel =>
      cases hstep
      exact iff_of_false (Stream.not_blank_disable b.base id sel) (not_not_intro trivial)
  | add s | remove s | clear | child s k | reset =>
      cases hstep
      exact iff_of_true hb id

/-- After a reset the broadcast has nothing to report, and neither have its children, if their
own reset clears them. -/
structure ClearedByReset (b : Broadcast σ κ) : Prop where
  composite : (b.reset S).base.Blank
  children : S.ResetClears → ∀ s ∈ b.streams, (S.base ((b.reset S).child s)).Blank

theorem clearedByReset_iff {b : Broadcast σ κ} : b.ClearedByReset S ↔ b.base.Blank := by
  constructor
  · exact ClearedByReset.composite
  · intro h
    refine ⟨h, fun hS s hs => ?_⟩
    obtain ⟨k, hk⟩ := eachChild_of_mem S.reset b.child hs
    rw [show (b.reset S).child s = S.reset k from hk]
    exact hS k

end Broadcast

/-! ## §3  Muxer -/

/-- What happens to a muxer. Its children may change on their own; a callback belongs to
the entry of a child. -/
inductive MuxerEvent (σ κ : Type) : Type where
  | add (s : σ) (fsid : Int)
  | remove (s : σ)
  | child (s : σ) (k : κ)
  | packet (e : StreamEntry σ) (spkt : StreamPacket) (pkt : DataPacket)
  | available (e : StreamEntry σ) (id : FrameID) (c : Channel)
  | request (e : StreamEntry σ) (req : Request)
  | findOrCreateLocal (s : σ) (remote : FrameID)
  | enable (id : FrameID) (sel : Selection)
  | disable (id : FrameID) (sel : Selection)
  | reset

namespace MuxerTree

variable (S : StreamClass κ)

/-- A callback of a child changes the muxer; the callbacks of an entry go with it. -/
def callback (t : MuxerTree σ κ) (e : StreamEntry σ) (mux : Except Fault (Muxer σ)) :
    Except Fault (MuxerTree σ κ) :=
  if e ∈ t.mux.streams then do
    let mux ← mux
    return { t with mux := mux }
  else .ok t

def step (t : MuxerTree σ κ) : MuxerEvent σ κ → Except Fault (MuxerTree σ κ)
  | .add s fsid => .ok { t with mux := t.mux.add s fsid }
  | .remove s => .ok { t with mux := t.mux.remove s }
  | .child s k => .ok { t with child := Function.update t.child s k }
  | .packet e spkt pkt => t.callback e (.ok (t.mux.onPacket e spkt pkt).1)
  | .available e id c => t.callback e ((t.mux.onAvailable e id c).map Prod.fst)
  | .request e req =>
      t.callback e (.ok (t.mux.onRequest e (S.base (t.child e.stream)).frames req).1)
  | .findOrCreateLocal s remote => do
      let r ← t.mux.findOrCreateLocal s remote
      return { t with mux := r.1 }
  | .enable id sel => (t.enable S id sel).map Prod.fst
  | .disable id sel => t.disable S id sel
  | .reset => .ok (t.reset S)

/-- The step gives the muxer a frame of its own. A wildcard only stands for frames that it
has already. -/
def Touches (t : MuxerTree σ κ) : MuxerEvent σ κ → Prop
  | .available e _ _ => e ∈ t.mux.streams
  | .enable id sel => id.frameset ≠ kAll ∧ id.source ≠ kAll ∧
      (t.enable S id sel).map Prod.snd = .ok true
  | .disable id _ => (t.mux.mapToOutput id).2 ≠ none
  | _ => False

theorem callback_base {t t' : MuxerTree σ κ} {e : StreamEntry σ} {m : Muxer σ}
    (h : t.callback e (.ok m) = .ok t') (hm : m.base = t.mux.base) :
    t'.mux.base = t.mux.base := by
  unfold callback at h
  split_ifs at h
  · cases h
    exact hm
  · cases h
    rfl

/-- `enable` for one frame gives it a state if its child is enabled. -/
theorem enableOne_blank_iff {t t' : MuxerTree σ κ} {id : FrameID} {sel : Selection}
    {r : Option Bool} (ht : t.mux.base.Blank) (h : t.enableOne S id sel = .ok (t', r)) :
    t'.mux.base.Blank ↔ ¬ r.getD false = true := by
  unfold enableOne at h
  split at h
  · cases h
    exact iff_of_true ht (by simp)
  · rename_i remote p _
    obtain ⟨e, he, hret⟩ := bind_eq_ok.mp h
    cases hret
    show (if (S.enable (t.child e.stream) remote sel).2 then _ else _ : Stream).Blank ↔
      ¬ (S.enable (t.child e.stream) remote sel).2 = true
    split_ifs with hr
    · exact iff_of_false (Stream.not_blank_enable t.mux.base id sel) (not_not_intro hr)
    · exact iff_of_true ht hr

theorem step_enable_blank_iff {t t' : MuxerTree σ κ} {id : FrameID} {sel : Selection} {r : Bool}
    (ht : t.mux.base.Blank) (h : t.enable S id sel = .ok (t', r)) :
    t'.mux.base.Blank ↔ ¬ (id.frameset ≠ kAll ∧ id.source ≠ kAll ∧ r = true) := by
  unfold enable at h
  split_ifs at h with hwild
  · -- there is no frame for the wildcard to stand for
    rw [ht.frames, List.filter_nil, enableEach] at h
    cases h
    refine iff_of_true ht fun hno => ?_
    rcases hwild with hw | hw
    · exact hno.1 hw
    · exact hno.2.1 hw
  · obtain ⟨⟨t₁, one⟩, hone, hret⟩ := bind_eq_ok.mp h
    cases hret
    obtain ⟨hfs, hsrc⟩ := not_or.mp hwild
    rw [and_iff_right hfs, and_iff_right hsrc]
    exact enableOne_blank_iff S ht hone

theorem step_blank_iff {t t' : MuxerTree σ κ} {e : MuxerEvent σ κ} (ht : t.mux.base.Blank)
    (hstep : t.step S e = .ok t') : t'.mux.base.Blank ↔ ¬ t.Touches S e := by
  cases e with
  | available e id c =>
      by_cases he : e ∈ t.mux.streams
      · rw [step, callback, if_pos he] at hstep
        obtain ⟨m, hm, hret⟩ := bind_eq_ok.mp hstep
        obtain ⟨⟨m', fired⟩, hseen, rfl⟩ := map_eq_ok.mp hm
        obtain ⟨base, hbase, rfl⟩ := Muxer.onAvailable_eq hseen
        cases hret
        exact iff_of_false (Stream.not_blank_seen hbase) (not_not_intro he)
      · rw [step, callback, if_neg he] at hstep
        cases hstep
        exact iff_of_true ht he
  | packet e spkt pkt =>
      rw [callback_base hstep (t.mux.mapFromInput_extends e spkt.frame).base]
      exact iff_of_true ht id
  | request e req =>
      rw [callback_base hstep (t.mux.mapAll_extends e _).base]
      exact iff_of_true ht id
  | findOrCreateLocal s remote =>
      obtain ⟨⟨m, l⟩, hm, hret⟩ := bind_eq_ok.mp hstep
      cases hret
      unfold Muxer.findOrCreateLocal at hm
      split at hm
      · rename_i e _
        have hbase := (t.mux.mapFromInput_extends e remote).base
        rw [Except.ok.inj hm] at hbase
        show m.base.Blank ↔ _
        rw [hbase]
        exact iff_of_true ht id
      · cases hm
  | enable id sel =>
      obtain ⟨⟨t₁, r⟩, henable, rfl⟩ := map_eq_ok.mp hstep
      refine (step_enable_blank_iff S ht henable).trans (not_congr ?_)
      rw [Touches, henable]
      refine and_congr_right fun _ => and_congr_right fun _ => ?_
      exact ⟨congrArg Except.ok, Except.ok.inj⟩
  | disable id sel =>
      replace hstep : t.disable S id sel = .ok t' := hstep
      unfold disable at hstep
      split at hstep
      · rename_i remote hmap
        cases hstep
        refine iff_of_true ht (not_not_intro ?_)
        rw [hmap]
      · rename_i remote p hmap
        obtain ⟨e, he, hret⟩ := bind_eq_ok.mp hstep
        cases hret
        refine iff_of_false (Stream.not_blank_disable t.mux.base id sel) (not_not_intro ?_)
        show (t.mux.mapToOutput id).2 ≠ none
        rw [hmap]
        exact Option.some_ne_none p
  | remove s =>
      cases hstep
      refine iff_of_true ?_ id
      show (t.mux.remove s).base.Blank
      unfold Muxer.remove
      split <;> exact ht
  | add s fsid | child s k | reset =>
      cases hstep
      exact iff_of_true ht id

/-- After a reset the muxer has nothing to report, and neither have its children, if their own
reset clears them. -/
structure ClearedByReset (t : MuxerTree σ κ) : Prop where
  composite : (t.reset S).mux.base.Blank
  children : S.ResetClears → ∀ e ∈ t.mux.streams, (S.base ((t.reset S).child e.stream)).Blank

theorem clearedByReset_iff {t : MuxerTree σ κ} : t.ClearedByReset S ↔ t.mux.base.Blank := by
  constructor
  · exact ClearedByReset.composite
  · intro h
    refine ⟨h, fun hS e he => ?_⟩
    obtain ⟨k, hk⟩ := Broadcast.eachChild_of_mem S.reset t.child
      (List.mem_map_of_mem (f := fun e : StreamEntry σ => e.stream) he)
    rw [show (t.reset S).child e.stream = S.reset k from hk]
    exact hS k

end MuxerTree

/-! ## §4  Whole histories -/

/-- **A muxer or a broadcast is cleared by a reset only if it never had a frame of its own.**
For children of any class and any history of events and calls: a reset would clear the
composite in every state along the history exactly if no step gave it a frame: no child
reported a channel, and no call of `enable` or `disable` came to a child. -/
theorem composite_reset_clears_iff (S : StreamClass κ) (child : σ → κ) :
    (∀ es : List (BroadcastEvent σ κ),
      (∀ (pre post : List (BroadcastEvent σ κ)) (b : Broadcast σ κ), es = pre ++ post →
        pre.foldlM (Broadcast.step S) { child := child } = .ok b → b.ClearedByReset S) ↔
      ∀ (pre : List (BroadcastEvent σ κ)) (e : BroadcastEvent σ κ)
        (post : List (BroadcastEvent σ κ)) (b b' : Broadcast σ κ), es = pre ++ e :: post →
        pre.foldlM (Broadcast.step S) { child := child } = .ok b → b.step S e = .ok b' →
        ¬ b.Touches S e) ∧
    ∀ es : List (MuxerEvent σ κ),
      (∀ (pre post : List (MuxerEvent σ κ)) (t : MuxerTree σ κ), es = pre ++ post →
        pre.foldlM (MuxerTree.step S) { child := child } = .ok t → t.ClearedByReset S) ↔
      ∀ (pre : List (MuxerEvent σ κ)) (e : MuxerEvent σ κ) (post : List (MuxerEvent σ κ))
        (t t' : MuxerTree σ κ), es = pre ++ e :: post →
        pre.foldlM (MuxerTree.step S) { child := child } = .ok t → t.step S e = .ok t' →
        ¬ t.Touches S e := by
  have hempty : ({} : Stream).Blank := Stream.blank_iff.mpr rfl
  constructor
  · intro es
    simp only [Broadcast.clearedByReset_iff]
    exact invariant_iff_safe_hist (I := fun _ (b : Broadcast σ κ) => b.base.Blank) hempty
      (fun _ b e b' => Broadcast.step_blank_iff S) es
  · intro es
    simp only [MuxerTree.clearedByReset_iff]
    exact invariant_iff_safe_hist (I := fun _ (t : MuxerTree σ κ) => t.mux.base.Blank) hempty
      (fun _ t e t' => MuxerTree.step_blank_iff S) es

/-- One plain child that sees colour; the frame is then enabled through the composite. -/
theorem composite_reset_keeps_frames :
    (∃ b : Broadcast Nat Stream,
      List.foldlM (Broadcast.step .plain) { child := fun _ => {} }
        [.add 0, .available 0 ⟨0⟩ Channel.kColour, .enable ⟨0⟩ .frame, .reset] = .ok b ∧
      b.base.frames = [⟨0⟩] ∧ b.base.enabledFrames = [⟨0⟩] ∧ (b.child 0).frames = [] ∧
      ¬ b.base.Blank) ∧
    ∃ t : MuxerTree Nat Stream,
      List.foldlM (MuxerTree.step .plain) { child := fun _ => {} }
        [.add 0 (-1), .available { id := 0, stream := 0 } ⟨0⟩ Channel.kColour,
          .enable ⟨0⟩ .frame, .reset] = .ok t ∧
      t.mux.base.frames = [⟨0⟩] ∧ t.mux.base.enabledFrames = [⟨0⟩] ∧ (t.child 0).frames = [] ∧
      ¬ t.mux.base.Blank := by
  refine ⟨⟨_, rfl, by decide, by decide, by decide, fun h => ?_⟩,
    _, rfl, by decide, by decide, by decide, fun h => ?_⟩
  · exact absurd h.frames (by decide)
  · exact absurd h.frames (by decide)

end BeyondProtocol
