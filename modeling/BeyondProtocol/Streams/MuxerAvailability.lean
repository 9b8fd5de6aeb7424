import BeyondProtocol.Streams.MuxerMaps
import BeyondProtocol.Streams.StreamRuns

/-!
# What a muxer knows of its children

A muxer hears of the channels of its children through their availability callback.
`seen` makes that callback for an EndFrame, but not for a channel that was available
in the last frame already. So the muxer collects, for the frame in progress, the
channels of the child that are new; at the EndFrame it takes them for all there are.
-/

namespace BeyondProtocol

open Framework

/-! ## §1  One frame -/

/-- Nothing was seen of a frame. -/
structure FSState.Unseen (st : FSState) : Prop where
  persistent : st.availablePersistent = ∅
  last : st.availableLast = 0
  next : st.availableNext = 0

/-- The state the muxer has of a frame of a child in a state. -/
structure Follows (mux child : FSState) : Prop where
  persistent : mux.availablePersistent = child.availablePersistent
  last : mux.availableLast = child.availableLast
  next : mux.availableNext = child.availableNext &&& ~~~child.availableLast

theorem FSState.Unseen.follows {mux child : FSState} (hmux : mux.Unseen)
    (hchild : child.Unseen) : Follows mux child where
  persistent := hmux.persistent.trans hchild.persistent.symm
  last := hmux.last.trans hchild.last.symm
  next := by simp [hmux.next, hchild.next]

/-- The first thing seen of a frame is reported. -/
theorem FSState.Unseen.fires {st st' : FSState} {c : Channel} {fired : Bool} (h : st.Unseen)
    (hseen : st.seen c = .ok (st', fired)) : fired = true := by
  unfold FSState.seen at hseen
  rw [h.persistent, h.last] at hseen
  split_ifs at hseen with _ _ hmem
  · cases hseen
    rfl
  · simp at hmem
  · cases hseen
    rfl
  · cases hseen
    simp

theorem FSState.seen_endFrame {st st' : FSState} {fired : Bool}
    (h : st.seen Channel.kEndFrame = .ok (st', fired)) :
    fired = true ∧ st'.availableLast = st.availableNext := by
  rw [FSState.seen, if_pos rfl] at h
  obtain ⟨rfl, rfl⟩ := Prod.mk.inj (Except.ok.inj h)
  exact ⟨rfl, rfl⟩

/-- A channel of the last frame changes nothing for the muxer. -/
theorem or_bit_of_last {last next : BitVec 64} {c : Channel} (hc : c.isPersistent = false)
    (hlast : last &&& c.bit ≠ 0) : (next ||| c.bit) &&& ~~~last = next &&& ~~~last := by
  have hset : last.getLsbD c.toNat = true := by
    rw [← and_bit_ne_zero hc]
    simpa using hlast
  refine BitVec.eq_of_getLsbD_eq fun i hi => ?_
  simp only [BitVec.getLsbD_and, BitVec.getLsbD_or, BitVec.getLsbD_not, getLsbD_bit hc]
  by_cases hic : c.toNat = i
  · simp [← hic, hset]
  · simp [hic]

/-- A new channel is added on both sides. -/
theorem or_bit_of_new {last next : BitVec 64} {c : Channel} (hc : c.isPersistent = false)
    (hlast : last &&& c.bit = 0) :
    (next ||| c.bit) &&& ~~~last = (next &&& ~~~last) ||| c.bit := by
  have hnew : last.getLsbD c.toNat = false := by
    rw [← and_bit_ne_zero hc]
    simpa using hlast
  refine BitVec.eq_of_getLsbD_eq fun i hi => ?_
  simp only [BitVec.getLsbD_and, BitVec.getLsbD_or, BitVec.getLsbD_not, getLsbD_bit hc]
  by_cases hic : c.toNat = i
  · rw [← hic, hnew]
    simp [hic ▸ hi]
  · simp [hic]

theorem and_not_of_disjoint {last next : BitVec 64} (h : next &&& last = 0) :
    next &&& ~~~last = next := by
  refine BitVec.eq_of_getLsbD_eq fun i hi => ?_
  have hbit : (next &&& last).getLsbD i = false := by rw [h]; exact BitVec.getLsbD_zero
  rw [BitVec.getLsbD_and] at hbit
  rw [BitVec.getLsbD_and, BitVec.getLsbD_not]
  cases hnext : next.getLsbD i
  · rfl
  · rw [hnext, Bool.true_and] at hbit
    rw [hbit]
    simp [hi]

theorem disjoint_of_and_not {last next : BitVec 64} (h : next &&& ~~~last = next) :
    next &&& last = 0 := by
  rw [← h, BitVec.and_assoc, BitVec.and_comm (~~~last)]
  simp

/-- What the child does not report, the muxer need not know. -/
theorem Follows.silent {mux child child' : FSState} {c : Channel} (h : Follows mux child)
    (hseen : child.seen c = .ok (child', false)) : Follows mux child' := by
  unfold FSState.seen at hseen
  split_ifs at hseen with _ hc
  · cases hseen
  · cases hseen
    exact h
  · cases hseen
  · obtain ⟨rfl, hlast⟩ := Prod.mk.inj (Except.ok.inj hseen)
    refine ⟨h.persistent, h.last, ?_⟩
    rw [h.next, or_bit_of_last (Bool.eq_false_iff.mpr hc) (by simpa using hlast)]

/-- No channel of the frame that ends was available before. -/
def EndsFresh (child : FSState) (c : Channel) : Prop :=
  c = Channel.kEndFrame → child.availableNext &&& child.availableLast = 0

/-- What the child reports, both see. -/
theorem Follows.fires {mux mux' child child' : FSState} {c : Channel} {fired : Bool}
    (h : Follows mux child) (hfresh : EndsFresh child c)
    (hchild : child.seen c = .ok (child', true)) (hmux : mux.seen c = .ok (mux', fired)) :
    Follows mux' child' := by
  unfold FSState.seen at hchild hmux
  rw [h.persistent, h.last] at hmux
  split_ifs at hchild hmux with hend hc
  · cases hchild
    cases hmux
    exact ⟨rfl, h.next.trans (and_not_of_disjoint (hfresh hend)), by simp⟩
  · cases hchild
  · cases hchild
    cases hmux
    exact ⟨rfl, rfl, h.next⟩
  · obtain ⟨rfl, hlast⟩ := Prod.mk.inj (Except.ok.inj hchild)
    obtain ⟨rfl, -⟩ := Prod.mk.inj (Except.ok.inj hmux)
    refine ⟨rfl, rfl, ?_⟩
    simp only [h.next]
    rw [or_bit_of_new (Bool.eq_false_iff.mpr hc) (by simpa using hlast)]

theorem Follows.same_answers {mux child : Stream} {l id : FrameID}
    (h : Follows (mux.getOrCreate l) (child.getOrCreate id)) :
    (∀ c, mux.available l c = child.available id c) ∧ mux.channels l = child.channels id := by
  constructor
  · intro c
    rw [Stream.available_eq, Stream.available_eq, h.persistent, h.last]
  · rw [Stream.channels_eq, Stream.channels_eq, h.persistent, h.last]

/-! ## §2  A muxer and its children -/

structure MuxWorld (σ : Type) where
  mux : Muxer σ := {}
  child : σ → Stream

inductive SeenEvent (σ : Type) : Type where
  | add (s : σ)
  /-- A child has seen a channel, and made the callback or not. -/
  | seen (e : StreamEntry σ) (id : FrameID) (c : Channel) (fired : Bool)

/-- What the muxer notices of an event. -/
def SeenEvent.noticed {σ : Type} : SeenEvent σ → List (MuxEvent σ)
  | .add s => [.add s]
  | .seen e id c fired => if fired then [.available e id c] else []

variable {σ : Type}

inductive SeenStep [DecidableEq σ] : MuxWorld σ → SeenEvent σ → MuxWorld σ → Prop where
  | add {w : MuxWorld σ} {s : σ} (h : ∀ e ∈ w.mux.streams, e.stream ≠ s) :
      SeenStep w (.add s) { w with mux := w.mux.add s (-1) }
  | fires {w : MuxWorld σ} {e : StreamEntry σ} {id : FrameID} {c : Channel} {child : Stream}
      {mux : Muxer σ} {fired : Bool} (he : e ∈ w.mux.streams)
      (hchild : (w.child e.stream).seen id c = .ok (child, true))
      (hmux : w.mux.onAvailable e id c = .ok (mux, fired)) :
      SeenStep w (.seen e id c true)
        { mux := mux, child := Function.update w.child e.stream child }
  | silent {w : MuxWorld σ} {e : StreamEntry σ} {id : FrameID} {c : Channel} {child : Stream}
      (he : e ∈ w.mux.streams) (hchild : (w.child e.stream).seen id c = .ok (child, false)) :
      SeenStep w (.seen e id c false)
        { w with child := Function.update w.child e.stream child }

/-- An EndFrame comes when no channel of its frame was available before. -/
def MuxWorld.Fresh (w : MuxWorld σ) : SeenEvent σ → Prop
  | .add _ => True
  | .seen e id c _ => EndsFresh ((w.child e.stream).getOrCreate id) c

/-- The muxer answers for a mapped frame as its child does. -/
def MuxWorld.Mirrors (w : MuxWorld σ) : Prop :=
  ∀ e ∈ w.mux.streams, ∀ id l, w.mux.imap (Muxer.iid e.id id) = some l →
    (∀ c, 0 ≤ c → w.mux.base.available l c = (w.child e.stream).available id c) ∧
      w.mux.base.channels l = (w.child e.stream).channels id

/-- The muxer takes part with the steps of its own it notices. -/
theorem SeenStep.noticed [DecidableEq σ] {w w' : MuxWorld σ} {ev : SeenEvent σ}
    (h : SeenStep w ev w') : Runs MuxStep w.mux ev.noticed w'.mux := by
  cases h with
  | add h => exact Runs.init.snoc (.add h)
  | fires he _ hmux => exact Runs.init.snoc (.available he hmux)
  | silent => exact .init

structure Mirroring (w : MuxWorld σ) : Prop where
  follows : ∀ e ∈ w.mux.streams, ∀ id l, w.mux.toLocal (e.id, id) = some l →
    Follows (w.mux.base.getOrCreate l) ((w.child e.stream).getOrCreate id)
  unmapped : ∀ e ∈ w.mux.streams, ∀ id, w.mux.toLocal (e.id, id) = none →
    ((w.child e.stream).getOrCreate id).Unseen
  outside : ∀ s, (∀ e ∈ w.mux.streams, e.stream ≠ s) → ∀ id, ((w.child s).getOrCreate id).Unseen
  /-- The muxer saw nothing of local ids that are not in use. -/
  unused : ∀ l, w.mux.toRemote l = none → (w.mux.base.getOrCreate l).Unseen

theorem Mirroring.mirrors {w : MuxWorld σ} (h : Mirroring w) : w.Mirrors := by
  intro e he id l hl
  obtain ⟨havailable, hchannels⟩ := (h.follows e he id l hl).same_answers
  exact ⟨fun c _ => havailable c, hchannels⟩

theorem Mirroring.add {w : MuxWorld σ} (h : Mirroring w) {heard : Finset (Nat × Nat)}
    (hmapped : w.mux.Mapped heard) {s : σ} (hnew : ∀ e ∈ w.mux.streams, e.stream ≠ s) :
    Mirroring { w with mux := w.mux.add s (-1) } := by
  -- no frame is mapped under the id of the new entry
  have hnone : ∀ id, w.mux.toLocal (w.mux.streamIds, id) = none := by
    intro id
    by_contra hused
    obtain ⟨l, hl⟩ := Option.ne_none_iff_exists'.mp hused
    obtain ⟨e, he, f, hkey⟩ := hmapped.keys _ l hl
    have hlt := hmapped.entries.lt e he
    rw [← (Muxer.iid_inj.mp hkey).1] at hlt
    exact lt_irrefl _ hlt
  refine ⟨fun e he id l hl => ?_, fun e he id hl => ?_, fun s' hs' => ?_, h.unused⟩
  · rcases List.mem_append.mp he with he | he
    · exact h.follows e he id l hl
    · rw [List.mem_singleton.mp he] at hl
      exact absurd ((hnone id).symm.trans hl) (by simp)
  · rcases List.mem_append.mp he with he | he
    · exact h.unmapped e he id hl
    · rw [List.mem_singleton.mp he]
      exact h.outside s hnew id
  · exact h.outside s' fun e he => hs' e (List.mem_append_left _ he)

/-- Mapping a frame for the first time relates two states in which nothing was seen. -/
theorem Mirroring.mapFromInput {w : MuxWorld σ} (h : Mirroring w) {e : StreamEntry σ}
    (he : e ∈ w.mux.streams) {id : FrameID} (hdistinct : w.mux.EntriesDistinct)
    (hfresh : w.mux.imap (Muxer.iid e.id id) = none →
      w.mux.toRemote (w.mux.mapFromInput e id).2 = none) :
    Mirroring { w with mux := (w.mux.mapFromInput e id).1 } := by
  cases hmap : w.mux.imap (Muxer.iid e.id id) with
  | some l =>
      rw [Muxer.mapFromInput_old hmap]
      exact h
  | none =>
      have hext := w.mux.mapFromInput_extends e id
      have hlocal := Muxer.toLocal_new hmap
      have hremote := Muxer.toRemote_new hmap
      have hmem : ∀ e' ∈ (w.mux.mapFromInput e id).1.streams, e' ∈ w.mux.streams :=
        fun e' he' => hext.streams ▸ he'
      refine ⟨fun e' he' id' l' hl' => ?_, fun e' he' id' hl' => ?_, fun s hs => ?_,
        fun l' hl' => ?_⟩
      · simp only [hext.base]
        simp only [hlocal, Function.update_apply] at hl'
        split_ifs at hl' with heq
        · obtain ⟨hid, rfl⟩ := Prod.mk.inj heq
          obtain rfl := hdistinct.eq_of_id (hmem e' he') he hid
          cases hl'
          exact (h.unused _ (hfresh hmap)).follows (h.unmapped e' he id' hmap)
        · exact h.follows e' (hmem e' he') id' l' hl'
      · simp only [hlocal, Function.update_apply] at hl'
        split_ifs at hl'
        exact h.unmapped e' (hmem e' he') id' hl'
      · exact h.outside s fun e' he' => hs e' (hext.streams.symm ▸ he')
      · simp only [hext.base]
        simp only [hremote, Function.update_apply] at hl'
        split_ifs at hl'
        exact h.unused l' hl'

/-- The part of a report that comes before the muxer sees it: the frame is mapped. -/
theorem Mirroring.report {w : MuxWorld σ} (h : Mirroring w) {es : List (MuxEvent σ)}
    (hmapped : w.mux.Mapped (heardFramesets es)) (hids : w.mux.streamIds = adds es)
    {e : StreamEntry σ} (he : e ∈ w.mux.streams) {id : FrameID} {c : Channel}
    (hrange : WithinRange (es ++ [.available e id c])) :
    Mirroring { w with mux := (w.mux.mapFromInput e id).1 } ∧
      (w.mux.mapFromInput e id).1.EntriesDistinct ∧
      Inverse (w.mux.mapFromInput e id).1.toLocal (w.mux.mapFromInput e id).1.toRemote ∧
      e ∈ (w.mux.mapFromInput e id).1.streams ∧
      (w.mux.mapFromInput e id).1.toLocal (e.id, id) = some (w.mux.mapFromInput e id).2 := by
  have hheard : (e.id, id.frameset) ∈ heardFramesets (es ++ [.available e id c]) := by
    rw [heardFramesets_append]
    exact Finset.mem_union_right _ (by simp [heardFramesets, MuxEvent.heard])
  have hmono := hmapped.mono (by
    rw [heardFramesets_append]
    exact Finset.subset_union_left : heardFramesets es ⊆ heardFramesets (es ++ [.available e id c]))
  have hsmall : w.mux.streamIds ≤ 2 ^ 15 := hids.trans_le hrange.of_append.added.le
  have hfs := hrange.remote _ hheard
  have hnew := hmono.mapFromInput hsmall hrange.framesets he hheard hfs
  exact ⟨h.mapFromInput he hmapped.entries
      (hmono.fresh hsmall hrange.framesets he hheard hfs), hnew.entries, hnew.inverse,
    (w.mux.mapFromInput_extends e id).streams.symm ▸ he, Muxer.toLocal_mapFromInput⟩

variable [DecidableEq σ]

/-- A child that reports nothing. -/
theorem Mirroring.silent {w : MuxWorld σ} (h : Mirroring w) (hdistinct : w.mux.EntriesDistinct)
    {e : StreamEntry σ} (he : e ∈ w.mux.streams) {id : FrameID} {c : Channel} {child : Stream}
    (hchild : (w.child e.stream).seen id c = .ok (child, false)) :
    Mirroring { w with child := Function.update w.child e.stream child } := by
  obtain ⟨hseen, hothers⟩ := Stream.getOrCreate_seen hchild
  refine ⟨fun e' he' id' l hl => ?_, fun e' he' id' hl => ?_, fun s hs => ?_, h.unused⟩
  · have hold := h.follows e' he' id' l hl
    by_cases hs : e'.stream = e.stream
    · obtain rfl := hdistinct.eq_of_stream he' he hs
      simp only [Function.update_self]
      by_cases hid : id' = id
      · subst hid
        exact hold.silent hseen
      · rw [hothers id' hid]
        exact hold
    · simp only [Function.update_of_ne hs]
      exact hold
  · have hold := h.unmapped e' he' id' hl
    by_cases hs : e'.stream = e.stream
    · obtain rfl := hdistinct.eq_of_stream he' he hs
      simp only [Function.update_self]
      by_cases hid : id' = id
      · -- a frame of which nothing was seen would have been reported
        subst hid
        cases hold.fires hseen
      · rw [hothers id' hid]
        exact hold
    · simp only [Function.update_of_ne hs]
      exact hold
  · have hne : s ≠ e.stream := fun heq => hs e he heq.symm
    simp only [Function.update_of_ne hne]
    exact h.outside s hs

/-- A child and the muxer both see a channel of a mapped frame. -/
theorem Mirroring.fires {w : MuxWorld σ} (h : Mirroring w) (hdistinct : w.mux.EntriesDistinct)
    (hinverse : Inverse w.mux.toLocal w.mux.toRemote) {e : StreamEntry σ}
    (he : e ∈ w.mux.streams) {id l : FrameID} (hl : w.mux.toLocal (e.id, id) = some l)
    {c : Channel} (hfresh : EndsFresh ((w.child e.stream).getOrCreate id) c)
    {child base : Stream} {fired : Bool}
    (hchild : (w.child e.stream).seen id c = .ok (child, true))
    (hmux : w.mux.base.seen l c = .ok (base, fired)) :
    Mirroring { mux := { w.mux with base := base },
                child := Function.update w.child e.stream child } := by
  obtain ⟨hseen, hothers⟩ := Stream.getOrCreate_seen hchild
  obtain ⟨hmseen, hmothers⟩ := Stream.getOrCreate_seen hmux
  refine ⟨fun e' he' id' l' hl' => ?_, fun e' he' id' hl' => ?_, fun s hs => ?_, fun l' hl' => ?_⟩
  · have hold := h.follows e' he' id' l' hl'
    by_cases hll : l' = l
    · subst hll
      have heq := hinverse.injective hl' hl
      obtain ⟨hid, rfl⟩ := Prod.mk.inj heq
      obtain rfl := hdistinct.eq_of_id he' he hid
      simp only [Function.update_self]
      exact hold.fires hfresh hseen hmseen
    · -- other local ids belong to other frames, whose states nobody touched
      simp only [hmothers l' hll]
      by_cases hs : e'.stream = e.stream
      · obtain rfl := hdistinct.eq_of_stream he' he hs
        have hid : id' ≠ id := by
          rintro rfl
          exact hll (Option.some.inj (hl'.symm.trans hl))
        simp only [Function.update_self, hothers id' hid]
        exact hold
      · simp only [Function.update_of_ne hs]
        exact hold
  · have hold := h.unmapped e' he' id' hl'
    by_cases hs : e'.stream = e.stream
    · obtain rfl := hdistinct.eq_of_stream he' he hs
      have hid : id' ≠ id := by
        rintro rfl
        exact absurd (hl'.symm.trans hl) (by simp)
      simp only [Function.update_self, hothers id' hid]
      exact hold
    · simp only [Function.update_of_ne hs]
      exact hold
  · have hne : s ≠ e.stream := fun heq => hs e he heq.symm
    simp only [Function.update_of_ne hne]
    exact h.outside s hs
  · have hll : l' ≠ l := by
      rintro rfl
      exact absurd (hl'.symm.trans ((hinverse _ _).mp hl)) (by simp)
    simp only [hmothers l' hll]
    exact h.unused l' hl'

/-! ## §3  Whole runs -/

theorem Mirroring.step {w w' : MuxWorld σ} {ev : SeenEvent σ} {es : List (MuxEvent σ)}
    (h : Mirroring w) (hmapped : w.mux.Mapped (heardFramesets es))
    (hids : w.mux.streamIds = adds es) (hrange : WithinRange (es ++ ev.noticed))
    (hstep : SeenStep w ev w') (hfresh : w.Fresh ev) : Mirroring w' := by
  cases hstep with
  | add hnew => exact h.add hmapped hnew
  | silent he hchild => exact h.silent hmapped.entries he hchild
  | @fires e id c child mux fired he hchild hmux =>
      obtain ⟨hnew, hdistinct, hinverse, he', hl⟩ := h.report hmapped hids he hrange
      obtain ⟨base, hbase, rfl⟩ := Muxer.onAvailable_eq hmux
      exact hnew.fires hdistinct hinverse he' hl hfresh hchild hbase

theorem availableLast_eq {mux child : Stream} {l id : FrameID}
    (h : ∀ c, 0 ≤ c → mux.available l c = child.available id c) :
    (mux.getOrCreate l).availableLast = (child.getOrCreate id).availableLast := by
  refine BitVec.eq_of_getLsbD_eq fun i hi => ?_
  have hc : Channel.isPersistent (i : Int) = false := by
    rw [Channel.isPersistent, decide_eq_false_iff_not]
    show ¬ (i : Int) ≥ 64
    omega
  have hi' := h i (Int.natCast_nonneg i)
  rw [Stream.available_eq, Stream.available_eq, hc, and_bit_ne_zero hc, and_bit_ne_zero hc] at hi'
  simpa using hi'

/-- An EndFrame that is not fresh leaves the muxer with fewer channels than the child. -/
theorem Mirroring.fresh_of_mirrors {w w' : MuxWorld σ} {ev : SeenEvent σ}
    {es : List (MuxEvent σ)} (h : Mirroring w) (hmapped : w.mux.Mapped (heardFramesets es))
    (hids : w.mux.streamIds = adds es) (hrange : WithinRange (es ++ ev.noticed))
    (hstep : SeenStep w ev w') (hmirrors : w'.Mirrors) : w.Fresh ev := by
  cases hstep with
  | add => exact trivial
  | @silent e id c child he hchild =>
      rintro rfl
      cases (FSState.seen_endFrame (Stream.getOrCreate_seen hchild).1).1
  | @fires e id c child mux fired he hchild hmux =>
      rintro rfl
      obtain ⟨hnew, -, -, he', hl⟩ := h.report hmapped hids he hrange
      obtain ⟨base, hbase, rfl⟩ := Muxer.onAvailable_eq hmux
      have hsame := availableLast_eq (hmirrors e he' id _ hl).1
      simp only [Function.update_self] at hsame
      rw [(FSState.seen_endFrame (Stream.getOrCreate_seen hbase).1).2,
        (FSState.seen_endFrame (Stream.getOrCreate_seen hchild).1).2,
        (hnew.follows e he' id _ hl).next] at hsame
      exact disjoint_of_and_not hsame

/-- The steps in question. -/
def FreshStep (w : MuxWorld σ) (ev : SeenEvent σ) (w' : MuxWorld σ) : Prop :=
  SeenStep w ev w' ∧ w.Fresh ev

theorem mapped_of_freshRun {child : σ → Stream} {es : List (SeenEvent σ)} {w : MuxWorld σ}
    (run : Runs FreshStep { child := child } es w)
    (hrange : WithinRange (es.flatMap SeenEvent.noticed)) :
    w.mux.Mapped (heardFramesets (es.flatMap SeenEvent.noticed)) ∧
      w.mux.streamIds = adds (es.flatMap SeenEvent.noticed) :=
  mapped_of_run (run.simulate MuxWorld.mux SeenEvent.noticed fun _ _ _ h => h.1.noticed) hrange

theorem mirroring_of_run {child : σ → Stream}
    (hchild : ∀ s id, ((child s).getOrCreate id).Unseen) {es : List (SeenEvent σ)}
    {w : MuxWorld σ} (run : Runs FreshStep { child := child } es w)
    (hrange : WithinRange (es.flatMap SeenEvent.noticed)) : Mirroring w := by
  refine run.invariant_run (I := fun es w => WithinRange (es.flatMap SeenEvent.noticed) →
    Mirroring w) (fun _ => ?_) ?_ hrange
  · exact ⟨fun _ he => (by cases he), fun _ he => (by cases he), fun s _ => hchild s,
      fun _ _ => ⟨rfl, rfl, rfl⟩⟩
  · intro es w ev w' run ih hstep hrange
    rw [List.flatMap_append, List.flatMap_singleton] at hrange
    obtain ⟨hmapped, hids⟩ := mapped_of_freshRun run hrange.of_append
    exact (ih hrange.of_append).step hmapped hids hrange hstep.1 hstep.2

/-- **A muxer mirrors its children as long as every EndFrame is fresh**, and no longer. In
every run from children of which nothing was seen in which no frame ends with a channel
that was available before, the muxer answers for every mapped frame as the child does;
and the next step keeps it so exactly if it is fresh, too. -/
theorem muxer_mirrors_children {child : σ → Stream}
    (hchild : ∀ s id, ((child s).getOrCreate id).Unseen) {es : List (SeenEvent σ)}
    {w : MuxWorld σ} (run : Runs FreshStep { child := child } es w)
    (hrange : WithinRange (es.flatMap SeenEvent.noticed)) :
    w.Mirrors ∧ ∀ ev w', SeenStep w ev w' →
      WithinRange (es.flatMap SeenEvent.noticed ++ ev.noticed) → (w'.Mirrors ↔ w.Fresh ev) := by
  obtain ⟨hmapped, hids⟩ := mapped_of_freshRun run hrange
  have hmirror := mirroring_of_run hchild run hrange
  refine ⟨hmirror.mirrors, fun ev w' hstep hrange' => ⟨?_, fun hfresh => ?_⟩⟩
  · exact hmirror.fresh_of_mirrors hmapped hids hrange' hstep
  · exact (hmirror.step hmapped hids hrange' hstep hfresh).mirrors

/-- The only stream of a muxer, reference 0. -/
def onlyEntry : StreamEntry Nat := { id := 0, stream := 0 }

theorem unseen_empty (id : FrameID) : ((⟨∅⟩ : Stream).getOrCreate id).Unseen := ⟨rfl, rfl, rfl⟩

theorem muxer_mirrors_children_colour : ∃ w : MuxWorld Nat,
    w.Mirrors ∧ w.mux.base.available ⟨0⟩ Channel.kColour = true := by
  have run : Runs FreshStep ({ child := fun _ => {} } : MuxWorld Nat) _ _ :=
    ((Runs.init.snoc ⟨@SeenStep.add Nat _ _ 0 (by decide), trivial⟩).snoc
      ⟨@SeenStep.fires Nat _ _ onlyEntry ⟨0⟩ Channel.kColour _ _ _ (by decide) rfl rfl,
        fun h => by cases h⟩).snoc
      ⟨@SeenStep.fires Nat _ _ onlyEntry ⟨0⟩ Channel.kEndFrame _ _ _ (by decide) rfl rfl,
        fun _ => by decide⟩
  exact ⟨_, (muxer_mirrors_children (fun _ => unseen_empty) run
    ⟨by decide, by decide, by decide⟩).1, by decide⟩

/-- Colour in two frames in a row: the child has it, the muxer lost it. -/
theorem second_frame_diverges : ∃ (es : List (SeenEvent Nat)) (w : MuxWorld Nat),
    Runs SeenStep { child := fun _ => {} } es w ∧
    WithinRange (es.flatMap SeenEvent.noticed) ∧ onlyEntry ∈ w.mux.streams ∧
    w.mux.imap (Muxer.iid 0 ⟨0⟩) = some ⟨0⟩ ∧
    (w.child 0).available ⟨0⟩ Channel.kColour = true ∧
    w.mux.base.available ⟨0⟩ Channel.kColour = false ∧ ¬ w.Mirrors := by
  have run : Runs SeenStep ({ child := fun _ => {} } : MuxWorld Nat) _ _ :=
    ((((Runs.init.snoc (@SeenStep.add Nat _ _ 0 (by decide))).snoc
      (@SeenStep.fires Nat _ _ onlyEntry ⟨0⟩ Channel.kColour _ _ _ (by decide) rfl rfl)).snoc
      (@SeenStep.fires Nat _ _ onlyEntry ⟨0⟩ Channel.kEndFrame _ _ _ (by decide) rfl rfl)).snoc
      (@SeenStep.silent Nat _ _ onlyEntry ⟨0⟩ Channel.kColour _ (by decide) rfl)).snoc
      (@SeenStep.fires Nat _ _ onlyEntry ⟨0⟩ Channel.kEndFrame _ _ _ (by decide) rfl rfl)
  refine ⟨_, _, run, ⟨by decide, by decide, by decide⟩, by decide, by decide, by decide,
    by decide, fun hmirrors => ?_⟩
  have h := (hmirrors onlyEntry (by decide) ⟨0⟩ ⟨0⟩ (by decide)).1 Channel.kColour (by decide)
  revert h
  decide

end BeyondProtocol
