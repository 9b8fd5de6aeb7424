import BeyondProtocol.Streams.CompositeReset

/-!
# Enabling through a muxer with wildcards

The frameset or the source of the frame given to `enable` may be 255, for all there are. The
muxer then goes through the frames of its own table and calls the child behind each. Frames of
removed streams stay in that table without a mapping, and the loop ends at the first of them.

The table is an `std::unordered_map`, whose order is not known, so it is a parameter here.
-/

namespace BeyondProtocol

open Framework

variable {σ κ : Type}

/-! ## §1  The maps of a muxer, with any streams -/

namespace Muxer

/-- What holds of the maps however streams are added: what `omap` holds belongs to an added
stream, and `imap` has it. -/
structure Consistent (m : Muxer σ) : Prop where
  lt : ∀ e ∈ m.streams, e.id < m.streamIds
  ids : (m.streams.map (·.id)).Nodup
  entry : ∀ l p, m.toRemote l = some p → ∃ e ∈ m.streams, e.id = p.1
  mapped : ∀ l p, m.toRemote l = some p → m.toLocal p = some l

namespace Consistent

variable {m : Muxer σ}

theorem start : ({} : Muxer σ).Consistent where
  lt := by simp
  ids := by simp
  entry := fun _ _ h => by cases h
  mapped := fun _ _ h => by cases h

theorem eq_of_id (h : m.Consistent) {e e' : StreamEntry σ} (he : e ∈ m.streams)
    (he' : e' ∈ m.streams) (hid : e.id = e'.id) : e = e' :=
  List.inj_on_of_nodup_map h.ids he he' hid

theorem entryAt (h : m.Consistent) {e : StreamEntry σ} (he : e ∈ m.streams) :
    m.entryAt e.id = .ok e := by
  rw [Muxer.entryAt, find?_of_nodup h.ids he]

theorem withBase (h : m.Consistent) (base : Stream) : { m with base := base }.Consistent :=
  ⟨h.lt, h.ids, h.entry, h.mapped⟩

theorem add (h : m.Consistent) (s : σ) (fsid : Int) : (m.add s fsid).Consistent := by
  refine ⟨fun e he => ?_, ?_, fun l p hl => ?_, h.mapped⟩
  · rcases List.mem_append.mp he with he | he
    · exact (h.lt e he).trans (Nat.lt_succ_self _)
    · rw [List.mem_singleton.mp he]
      exact Nat.lt_succ_self _
  · have hfresh : m.streamIds ∉ m.streams.map (·.id) := by
      intro hmem
      obtain ⟨e, he, heq⟩ := List.mem_map.mp hmem
      exact absurd (h.lt e he) (by omega)
    simpa [Muxer.add, List.nodup_append, h.ids] using hfresh
  · obtain ⟨e, he, hid⟩ := h.entry l p hl
    exact ⟨e, List.mem_append_left _ he, hid⟩

theorem mapFromInput (h : m.Consistent) {e : StreamEntry σ} (he : e ∈ m.streams) (id : FrameID) :
    (m.mapFromInput e id).1.Consistent := by
  have hext := m.mapFromInput_extends e id
  cases hmap : m.imap (iid e.id id) with
  | some l =>
      rw [mapFromInput_old hmap]
      exact h
  | none =>
      refine ⟨fun e' he' => ?_, ?_, fun l p hl => ?_, fun l p hl => ?_⟩
      · rw [hext.streamIds]
        exact h.lt e' (hext.streams ▸ he')
      · rw [hext.streams]
        exact h.ids
      · rw [toRemote_new hmap, Function.update_apply] at hl
        rw [hext.streams]
        split_ifs at hl
        · cases hl
          exact ⟨e, he, rfl⟩
        · exact h.entry l p hl
      · rw [toRemote_new hmap, Function.update_apply] at hl
        rw [toLocal_new hmap]
        split_ifs at hl with hnew
        · cases hl
          rw [hnew, Function.update_self]
        · have hp := h.mapped l p hl
          rw [Function.update_of_ne, hp]
          rintro rfl
          rw [show m.toLocal (e.id, id) = none from hmap] at hp
          cases hp

theorem mapAll (h : m.Consistent) {e : StreamEntry σ} (he : e ∈ m.streams) (ids : List FrameID) :
    (m.mapAll e ids).1.Consistent := by
  induction ids generalizing m with
  | nil => exact h
  | cons id ids ih =>
      exact ih (h.mapFromInput he id) ((m.mapFromInput_extends e id).streams.symm ▸ he)

theorem remove [DecidableEq σ] (h : m.Consistent) (s : σ) : (m.remove s).Consistent := by
  cases hfind : m.findEntry s with
  | none => rwa [remove_none hfind]
  | some e =>
      obtain ⟨-, rfl⟩ := findEntry_some hfind
      obtain ⟨hlocal, hremote⟩ := remove_maps hfind
      have hstreams := remove_streams hfind
      have hsub : (m.remove e.stream).streams.Sublist m.streams := hstreams ▸ List.eraseP_sublist
      have hids : (m.remove e.stream).streamIds = m.streamIds := by simp [Muxer.remove, hfind]
      -- an entry with another id is not the one that goes
      have hkeep : ∀ e' ∈ m.streams, e'.id ≠ e.id → e' ∈ (m.remove e.stream).streams := by
        intro e' he' hne
        obtain ⟨hs, l₁, l₂, hsplit, hfirst⟩ := List.find?_eq_some_iff_append.mp hfind
        have hnot : ∀ x ∈ l₁, ¬ decide (x.stream = e.stream) = true := by simpa using hfirst
        rw [hsplit] at he'
        have hhead : (e :: l₂).eraseP (fun x => x.stream = e.stream) = l₂ :=
          List.eraseP_cons_of_pos hs
        rw [hstreams, hsplit, List.eraseP_append_right _ hnot, hhead]
        rcases List.mem_append.mp he' with he' | he'
        · exact List.mem_append_left _ he'
        · rcases List.mem_cons.mp he' with rfl | he'
          · exact absurd rfl hne
          · exact List.mem_append_right _ he'
      refine ⟨fun e' he' => hids ▸ h.lt e' (hsub.subset he'), h.ids.sublist (hsub.map _),
        fun l p hl => ?_, fun l p hl => ?_⟩
      · rw [hremote, Option.filter_eq_some_iff, decide_eq_true_iff] at hl
        obtain ⟨e', he', hid⟩ := h.entry l p hl.1
        exact ⟨e', hkeep e' he' (hid.trans_ne hl.2), hid⟩
      · rw [hremote, Option.filter_eq_some_iff] at hl
        rw [hlocal]
        exact (if_pos hl.2).trans (h.mapped l p hl.1)

end Consistent

end Muxer

/-! ## §2  Frames of the table -/

/-- The new state of a frame that is enabled. -/
def Selection.onFrame : Selection → FSState → FSState
  | .frame, p => { p with enabled := true }
  | .channel c, p => { p with enabled := true, selected := insert c p.selected }
  | .channels cs, p => { p with enabled := true, selected := p.selected ∪ cs }

theorem Stream.enableSelection_eq (s : Stream) (id : FrameID) (sel : Selection) :
    s.enableSelection id sel = s.update id sel.onFrame := by
  cases sel <;> rfl

theorem Stream.getState_enableSelection_ne {id l : FrameID} (h : l ≠ id) (s : Stream)
    (sel : Selection) : (s.enableSelection id sel).getState l = s.getState l := by
  rw [enableSelection_eq, getState_update_ne h]

namespace MuxerTree

/-- A call of `enable` of a child: `frame` is the local id of its frame `remote`. -/
@[ext] structure EnableCall (σ : Type) where
  frame : FrameID
  entry : StreamEntry σ
  remote : FrameID

/-- The base class after calls with these results. -/
def enableBase (sel : Selection) : List (EnableCall σ × Bool) → Stream → Stream
  | [], base => base
  | x :: calls, base =>
      enableBase sel calls (if x.2 then base.enableSelection x.1.frame sel else base)

theorem getState_enableBase_of_not (sel : Selection) {calls : List (EnableCall σ × Bool)}
    {l : FrameID} (h : ∀ c r, (c, r) ∈ calls → c.frame = l → r = false) (base : Stream) :
    (enableBase sel calls base).getState l = base.getState l := by
  induction calls generalizing base with
  | nil => rfl
  | cons x calls ih =>
      rw [enableBase, ih fun c r hx => h c r (List.mem_cons_of_mem x hx)]
      split_ifs with hr
      · have hne : l ≠ x.1.frame := by
          rintro rfl
          rw [h x.1 x.2 List.mem_cons_self rfl] at hr
          cases hr
        exact Stream.getState_enableSelection_ne hne base sel
      · rfl

theorem getState_enableBase_of_mem (sel : Selection) {calls : List (EnableCall σ × Bool)}
    (hnodup : (calls.map fun x => x.1.frame).Nodup) {c : EnableCall σ} (hc : (c, true) ∈ calls)
    (base : Stream) : (enableBase sel calls base).getState c.frame =
      some (sel.onFrame (base.getOrCreate c.frame)) := by
  induction calls generalizing base with
  | nil => cases hc
  | cons x calls ih =>
      obtain ⟨hx, hnodup⟩ := List.nodup_cons.mp hnodup
      rcases List.mem_cons.mp hc with rfl | hc
      · have hlater : ∀ c' r, (c', r) ∈ calls → c'.frame = c.frame → r = false :=
          fun c' r hc' hframe => absurd (List.mem_map.mpr ⟨(c', r), hc', hframe⟩) hx
        rw [enableBase, getState_enableBase_of_not sel hlater, if_pos rfl,
          Stream.enableSelection_eq, Stream.getState_update_self]
      · have hne : c.frame ≠ x.1.frame := by
          intro heq
          exact hx (List.mem_map.mpr ⟨(c, true), hc, heq⟩)
        have hkept : (if x.2 then base.enableSelection x.1.frame sel else base).getState c.frame =
            base.getState c.frame := by
          split_ifs
          · exact Stream.getState_enableSelection_ne hne base sel
          · rfl
        rw [enableBase, ih hnodup hc, Stream.getOrCreate, hkept, Stream.getOrCreate]

/-- The frames a wildcard stands for: those of added streams that are available. -/
structure EnableCall.Meant (m : Muxer σ) (id : FrameID) (c : EnableCall σ) : Prop where
  entry : c.entry ∈ m.streams
  mapped : m.imap (Muxer.iid c.entry.id c.remote) = some c.frame
  available : c.frame ∈ m.base.frames
  selected : selects id c.frame = true

/-- Every available frame that the wildcard stands for has a mapping, and it is the only frame of
an added stream that has its local id. -/
def AllMapped (m : Muxer σ) (id : FrameID) : Prop :=
  ∀ i ∈ m.base.frames, selects id i = true →
    m.omap i ≠ none ∧
    ∀ e ∈ m.streams, ∀ f, m.imap (Muxer.iid e.id f) = some i → m.omap i = some (f, e.id)

/-- The calls of the loop when all frames are mapped. -/
theorem exists_calls {m : Muxer σ} (h : m.Consistent) {is : List FrameID}
    (hmapped : ∀ i ∈ is, m.omap i ≠ none) :
    ∃ calls : List (EnableCall σ), calls.map (·.frame) = is ∧
      ∀ c ∈ calls, c.entry ∈ m.streams ∧ m.omap c.frame = some (c.remote, c.entry.id) := by
  induction is with
  | nil => exact ⟨[], rfl, by simp⟩
  | cons i is ih =>
      obtain ⟨calls, hframes, hcalls⟩ := ih fun j hj => hmapped j (List.mem_cons_of_mem i hj)
      obtain ⟨⟨remote, k⟩, hi⟩ := Option.ne_none_iff_exists'.mp (hmapped i List.mem_cons_self)
      obtain ⟨e, he, rfl⟩ := h.entry i (k, remote) (Muxer.toRemote_eq.mpr hi)
      refine ⟨⟨i, e, remote⟩ :: calls, by rw [List.map_cons, hframes], fun c hc => ?_⟩
      rcases List.mem_cons.mp hc with rfl | hc
      · exact ⟨he, hi⟩
      · exact hcalls c hc

/-- What `omap` has of an available frame that is selected is meant. -/
theorem meant_of_omap {m : Muxer σ} (h : m.Consistent) {id : FrameID} {c : EnableCall σ}
    (hentry : c.entry ∈ m.streams) (hc : m.omap c.frame = some (c.remote, c.entry.id))
    (hframe : c.frame ∈ m.base.frames) (hsel : selects id c.frame = true) : c.Meant m id where
  entry := hentry
  mapped := h.mapped c.frame (c.entry.id, c.remote) (Muxer.toRemote_eq.mpr hc)
  available := hframe
  selected := hsel

end MuxerTree

/-! ## §3  Histories -/

variable [DecidableEq σ]

namespace MuxerTree

variable (S : StreamClass κ)

theorem enableOne_mux {t t' : MuxerTree σ κ} {id : FrameID} {sel : Selection} {r : Option Bool}
    (h : t.enableOne S id sel = .ok (t', r)) : ∃ base, t'.mux = { t.mux with base := base } := by
  unfold enableOne at h
  split at h
  · cases h
    exact ⟨_, rfl⟩
  · obtain ⟨e, -, hret⟩ := bind_eq_ok.mp h
    cases hret
    exact ⟨_, rfl⟩

theorem enableEach_mux {sel : Selection} {is : List FrameID} {t t' : MuxerTree σ κ} {r r' : Bool}
    (h : enableEach S sel is t r = .ok (t', r')) :
    ∃ base, t'.mux = { t.mux with base := base } := by
  induction is generalizing t r with
  | nil =>
      cases h
      exact ⟨_, rfl⟩
  | cons i is ih =>
      obtain ⟨⟨t₁, one⟩, hone, hrest⟩ := bind_eq_ok.mp h
      obtain ⟨base, hbase⟩ := enableOne_mux S hone
      cases one with
      | none =>
          cases hrest
          exact ⟨base, hbase⟩
      | some rr =>
          obtain ⟨base', hbase'⟩ := ih hrest
          exact ⟨base', by rw [hbase', hbase]⟩

/-- What a step does to the maps of the muxer: a stream comes or goes, or frames of an added
stream are mapped. -/
theorem step_mux {t t' : MuxerTree σ κ} {ev : MuxerEvent σ κ} (h : t.step S ev = .ok t') :
    (∃ s fsid, t'.mux = t.mux.add s fsid) ∨ (∃ s, t'.mux = t.mux.remove s) ∨
    (∃ base, t'.mux = { t.mux with base := base }) ∨
    ∃ e ∈ t.mux.streams, ∃ ids base, t'.mux = { (t.mux.mapAll e ids).1 with base := base } := by
  have hcallback : ∀ {e mux}, t.callback e mux = .ok t' →
      (∀ m, mux = .ok m → ∃ ids base, m = { (t.mux.mapAll e ids).1 with base := base }) →
      (∃ base, t'.mux = { t.mux with base := base }) ∨
        ∃ e ∈ t.mux.streams, ∃ ids base,
          t'.mux = { (t.mux.mapAll e ids).1 with base := base } := by
    intro e mux hc hmux
    unfold callback at hc
    split_ifs at hc with he
    · obtain ⟨m, hm, hret⟩ := bind_eq_ok.mp hc
      cases hret
      exact .inr ⟨e, he, hmux m hm⟩
    · cases hc
      exact .inl ⟨t.mux.base, rfl⟩
  cases ev with
  | add s fsid =>
      cases h
      exact .inl ⟨s, fsid, rfl⟩
  | remove s =>
      cases h
      exact .inr (.inl ⟨s, rfl⟩)
  | child s k | reset =>
      cases h
      exact .inr (.inr (.inl ⟨t.mux.base, rfl⟩))
  | packet e spkt pkt =>
      refine .inr (.inr (hcallback h ?_))
      rintro m ⟨⟩
      exact ⟨[spkt.frame], (t.mux.mapAll e [spkt.frame]).1.base, rfl⟩
  | available e id c =>
      refine .inr (.inr (hcallback h ?_))
      intro m hm
      obtain ⟨⟨m', fired⟩, hseen, rfl⟩ := map_eq_ok.mp hm
      obtain ⟨base, -, rfl⟩ := Muxer.onAvailable_eq hseen
      exact ⟨[id], base, rfl⟩
  | request e req =>
      refine .inr (.inr (hcallback h ?_))
      rintro m ⟨⟩
      exact ⟨Muxer.requestedFrames (S.base (t.child e.stream)).frames req, _, rfl⟩
  | findOrCreateLocal s remote =>
      obtain ⟨⟨m, l⟩, hm, hret⟩ := bind_eq_ok.mp h
      cases hret
      unfold Muxer.findOrCreateLocal at hm
      split at hm
      · rename_i e hfind
        have he : e ∈ t.mux.streams := List.mem_of_find?_eq_some hfind
        obtain rfl : (t.mux.mapFromInput e remote).1 = m := congrArg Prod.fst (Except.ok.inj hm)
        exact .inr (.inr (.inr ⟨e, he, [remote], _, rfl⟩))
      · cases hm
  | enable id sel =>
      obtain ⟨⟨t₁, r⟩, henable, rfl⟩ := map_eq_ok.mp h
      unfold enable at henable
      split_ifs at henable
      · exact .inr (.inr (.inl (enableEach_mux S henable)))
      · obtain ⟨⟨t₂, one⟩, hone, hret⟩ := bind_eq_ok.mp henable
        cases hret
        exact .inr (.inr (.inl (enableOne_mux S hone)))
  | disable id sel =>
      replace h : t.disable S id sel = .ok t' := h
      unfold disable at h
      split at h
      · cases h
        exact .inr (.inr (.inl ⟨t.mux.base, rfl⟩))
      · obtain ⟨e, -, hret⟩ := bind_eq_ok.mp h
        cases hret
        exact .inr (.inr (.inl ⟨_, rfl⟩))

/-- In every state of every history the maps are consistent. -/
theorem consistent_of_history {child : σ → κ} {es : List (MuxerEvent σ κ)} {t : MuxerTree σ κ}
    (h : es.foldlM (step S) { child := child } = .ok t) : t.mux.Consistent := by
  refine foldlM_invariant (P := fun t : MuxerTree σ κ => t.mux.Consistent) h Muxer.Consistent.start
    fun t ev t' _ ht hstep => ?_
  rcases step_mux S hstep with ⟨s, fsid, heq⟩ | ⟨s, heq⟩ | ⟨base, heq⟩ | ⟨e, he, ids, base, heq⟩
  · exact heq ▸ ht.add s fsid
  · exact heq ▸ ht.remove s
  · exact heq ▸ ht.withBase base
  · exact heq ▸ (ht.mapAll he ids).withBase base

/-! ## §4  The calls of the loop -/

/-- Calls of children one after the other, with what each returned. -/
def callEach (sel : Selection) : List (EnableCall σ) → (σ → κ) → (σ → κ) × List Bool
  | [], child => (child, [])
  | c :: cs, child =>
      let r := S.enable (child c.entry.stream) c.remote sel
      let rest := callEach sel cs (Function.update child c.entry.stream r.1)
      (rest.1, r.2 :: rest.2)

/-- `enable` for a wildcard when the frames come in some order. -/
def enableIn (order : List FrameID) (t : MuxerTree σ κ) (id : FrameID) (sel : Selection) :
    Except Fault (MuxerTree σ κ × Bool) :=
  enableEach S sel (order.filter (selects id)) t true

theorem enable_eq_enableIn {t : MuxerTree σ κ} {id : FrameID} {sel : Selection}
    (h : id.frameset = kAll ∨ id.source = kAll) :
    t.enable S id sel = t.enableIn S t.mux.base.frames id sel := if_pos h

/-- The muxer and its children after these calls; a frame is enabled if its call succeeded. -/
def performed (sel : Selection) (calls : List (EnableCall σ)) (t : MuxerTree σ κ) :
    MuxerTree σ κ :=
  let out := callEach S sel calls t.child
  { mux := { t.mux with base := enableBase sel (calls.zip out.2) t.mux.base }
    child := out.1 }

/-- `enable` makes these calls and no others, returns whether all succeeded, and enables the
frames whose call did. -/
structure Enables (order : List FrameID) (t : MuxerTree σ κ) (id : FrameID) (sel : Selection)
    (calls : List (EnableCall σ)) (t' : MuxerTree σ κ) : Prop where
  result : t.enableIn S order id sel = .ok (t', (callEach S sel calls t.child).2.all fun r => r)
  child : t'.child = (callEach S sel calls t.child).1
  enabled : ∀ c r, (c, r) ∈ calls.zip (callEach S sel calls t.child).2 → r = true →
    t'.mux.base.getState c.frame = (t.mux.base.enableSelection c.frame sel).getState c.frame
  others : ∀ l, (∀ c r, (c, r) ∈ calls.zip (callEach S sel calls t.child).2 → c.frame = l →
    r = false) → t'.mux.base.getState l = t.mux.base.getState l
  rest : t'.mux = { t.mux with base := t'.mux.base }

/-- Every frame that is meant is enabled with one call, whatever the children are and in whatever
order the frames come. -/
def ReachesAll (m : Muxer σ) (id : FrameID) (sel : Selection) : Prop :=
  ∀ order : List FrameID, order.Perm m.base.frames →
    ∃ calls : List (EnableCall σ), calls.Nodup ∧ (∀ c, c ∈ calls ↔ c.Meant m id) ∧
      ∀ (κ : Type) (S : StreamClass κ) (child : σ → κ),
        ∃ t', Enables S order ⟨m, child⟩ id sel calls t'

/-! ## §5  What the loop does -/

/-- What `omap` has for the frame of a call. -/
def Known (m : Muxer σ) (c : EnableCall σ) : Prop :=
  m.omap c.frame = some (c.remote, c.entry.id) ∧ m.entryAt c.entry.id = .ok c.entry

theorem enableOne_known {t : MuxerTree σ κ} {c : EnableCall σ} (h : Known t.mux c)
    (sel : Selection) : t.enableOne S c.frame sel =
      .ok (performed S sel [c] t, some (S.enable (t.child c.entry.stream) c.remote sel).2) := by
  have hout : t.mux.mapToOutput c.frame = (c.remote, some c.entry.id) := by
    rw [Muxer.mapToOutput, h.1]
  rw [enableOne, hout]
  show (t.mux.entryAt c.entry.id >>= _) = _
  rw [h.2, ok_bind]
  rfl

theorem enableEach_cons_known {t : MuxerTree σ κ} {c : EnableCall σ} (h : Known t.mux c)
    (sel : Selection) (is : List FrameID) (r : Bool) :
    enableEach S sel (c.frame :: is) t r = enableEach S sel is (performed S sel [c] t)
      (r && (S.enable (t.child c.entry.stream) c.remote sel).2) := by
  rw [enableEach, enableOne_known S h, ok_bind]

/-- Over frames that are mapped the loop makes the calls in turn. -/
theorem enableEach_known (sel : Selection) {calls : List (EnableCall σ)} {t : MuxerTree σ κ}
    (h : ∀ c ∈ calls, Known t.mux c) (r : Bool) :
    enableEach S sel (calls.map (·.frame)) t r =
      .ok (performed S sel calls t, r && (callEach S sel calls t.child).2.all fun r => r) := by
  induction calls generalizing t r with
  | nil => simp [enableEach, performed, callEach, enableBase]
  | cons c calls ih =>
      have hrest : ∀ c' ∈ calls, Known (performed S sel [c] t).mux c' :=
        fun c' hc' => h c' (List.mem_cons_of_mem c hc')
      rw [List.map_cons, enableEach_cons_known S (h c List.mem_cons_self), ih hrest]
      simp only [callEach, List.all_cons, Bool.and_assoc]
      rfl

/-- At a frame that is not mapped the loop ends with `false`. -/
theorem enableEach_unmapped (sel : Selection) {is : List FrameID} {t : MuxerTree σ κ}
    (hconsistent : t.mux.Consistent) (h : ∃ i ∈ is, t.mux.omap i = none) (r : Bool) :
    ∃ t', enableEach S sel is t r = .ok (t', false) := by
  induction is generalizing t r with
  | nil => simp at h
  | cons i is ih =>
      cases hi : t.mux.omap i with
      | none =>
          refine ⟨t, ?_⟩
          rw [enableEach, enableOne, Muxer.mapToOutput, hi]
          rfl
      | some p =>
          obtain ⟨remote, k⟩ := p
          obtain ⟨e, he, rfl⟩ := hconsistent.entry i (k, remote) (Muxer.toRemote_eq.mpr hi)
          have hknown : Known t.mux ⟨i, e, remote⟩ := ⟨hi, hconsistent.entryAt he⟩
          have hrest : ∃ j ∈ is, t.mux.omap j = none := by
            obtain ⟨j, hj, hnone⟩ := h
            rcases List.mem_cons.mp hj with rfl | hj
            · rw [hi] at hnone
              cases hnone
            · exact ⟨j, hj, hnone⟩
          have hnext : (performed S sel [⟨i, e, remote⟩] t).mux.Consistent :=
            hconsistent.withBase _
          obtain ⟨t', ht'⟩ := ih hnext hrest (r && (S.enable (t.child e.stream) remote sel).2)
          exact ⟨t', (enableEach_cons_known S hknown sel is r).trans ht'⟩

/-! ## §6  All that is meant -/

@[simp] theorem length_callEach (sel : Selection) (calls : List (EnableCall σ)) (child : σ → κ) :
    (callEach S sel calls child).2.length = calls.length := by
  induction calls generalizing child with
  | nil => rfl
  | cons c calls ih => exact congrArg Nat.succ (ih _)

/-- A class of children that count their calls, which all succeed. -/
def counting : StreamClass Nat where
  base _ := {}
  enable n _ _ := (n + 1, true)
  disable n _ _ := n
  reset n := n

theorem callEach_counting (sel : Selection) (calls : List (EnableCall σ)) (child : σ → Nat)
    (s : σ) : (callEach counting sel calls child).1 s =
      child s + calls.countP fun c => c.entry.stream = s := by
  induction calls generalizing child with
  | nil => rfl
  | cons c calls ih =>
      show (callEach counting sel calls _).1 s = _
      rw [ih, List.countP_cons]
      by_cases hs : c.entry.stream = s
      · subst hs
        simp [counting]
        omega
      · simp [hs, Ne.symm hs]

theorem all_counting (sel : Selection) (calls : List (EnableCall σ)) (child : σ → Nat) :
    ((callEach counting sel calls child).2.all fun r => r) = true := by
  induction calls generalizing child with
  | nil => rfl
  | cons c calls ih => exact ih _

theorem ReachesAll.mapped {m : Muxer σ} (h : m.Consistent) {id : FrameID} {sel : Selection}
    (hreach : ReachesAll m id sel) {i : FrameID} (hi : i ∈ m.base.frames.filter (selects id)) :
    m.omap i ≠ none := by
  intro hnone
  obtain ⟨calls, -, -, henables⟩ := hreach m.base.frames (List.Perm.refl _)
  obtain ⟨t', ht'⟩ := henables Nat counting fun _ => 0
  have hresult := ht'.result
  obtain ⟨t'', ht''⟩ :=
    enableEach_unmapped counting sel (t := ⟨m, fun _ => 0⟩) h ⟨i, hi, hnone⟩ true
  rw [all_counting, enableIn, ht''] at hresult
  cases hresult

theorem ReachesAll.allMapped {m : Muxer σ} (h : m.Consistent) {id : FrameID} {sel : Selection}
    (hreach : ReachesAll m id sel) : AllMapped m id := by
  intro i hi hsel
  have hmapped : ∀ j ∈ m.base.frames.filter (selects id), m.omap j ≠ none :=
    fun j hj => hreach.mapped h hj
  refine ⟨hmapped i (List.mem_filter.mpr ⟨hi, hsel⟩), fun e he f hmap => ?_⟩
  obtain ⟨acts, hframes, hacts⟩ := exists_calls h hmapped
  obtain ⟨calls, -, hmeant, henables⟩ := hreach m.base.frames (List.Perm.refl _)
  obtain ⟨t', ht'⟩ := henables Nat counting fun _ => 0
  have hknown : ∀ c ∈ acts, Known m c := fun c hc => ⟨(hacts c hc).2, h.entryAt (hacts c hc).1⟩
  have hresult := ht'.result
  rw [enableIn, ← hframes, enableEach_known counting sel (t := ⟨m, fun _ => 0⟩) hknown] at hresult
  obtain rfl : performed counting sel acts ⟨m, fun _ => 0⟩ = t' :=
    congrArg Prod.fst (Except.ok.inj hresult)
  -- the stream of the entry got as many calls as there are frames of it that are meant
  have hcount : acts.countP (fun c => c.entry.stream = e.stream) =
      calls.countP fun c => c.entry.stream = e.stream := by
    have hchild := congrFun ht'.child e.stream
    rw [callEach_counting] at hchild
    simpa [performed, callEach_counting] using hchild
  have hnodup : acts.Nodup :=
    List.Nodup.of_map (·.frame) (hframes ▸ m.base.state.keys_nodup.filter (selects id))
  have hsub : acts.filter (fun c => c.entry.stream = e.stream) ⊆
      calls.filter fun c => c.entry.stream = e.stream := by
    intro c hc
    obtain ⟨hc, hstream⟩ := List.mem_filter.mp hc
    have hframe : c.frame ∈ m.base.frames.filter (selects id) :=
      hframes ▸ List.mem_map_of_mem hc
    obtain ⟨havail, hselects⟩ := List.mem_filter.mp hframe
    refine List.mem_filter.mpr ⟨(hmeant c).mpr ?_, hstream⟩
    exact meant_of_omap h (hacts c hc).1 (hacts c hc).2 havail hselects
  have hperm := (List.subperm_of_subset (hnodup.filter _) hsub).perm_of_length_le
    (by rw [← List.countP_eq_length_filter, ← List.countP_eq_length_filter, hcount])
  have hmem : (⟨i, e, f⟩ : EnableCall σ) ∈ calls := (hmeant ⟨i, e, f⟩).mpr ⟨he, hmap, hi, hsel⟩
  have hact := hperm.mem_iff.mpr (List.mem_filter.mpr ⟨hmem, decide_eq_true rfl⟩)
  exact (hacts ⟨i, e, f⟩ (List.mem_of_mem_filter hact)).2

/-- Known calls for different frames are what `Enables` says. -/
theorem enables_performed {m : Muxer σ} {calls : List (EnableCall σ)} {order : List FrameID}
    {id : FrameID} (hframes : calls.map (·.frame) = order.filter (selects id))
    (hknown : ∀ c ∈ calls, Known m c) (hnodup : (calls.map (·.frame)).Nodup) (child : σ → κ)
    (sel : Selection) :
    Enables S order ⟨m, child⟩ id sel calls (performed S sel calls ⟨m, child⟩) := by
  have hlength : calls.length ≤ (callEach S sel calls child).2.length :=
    (length_callEach S sel calls child).ge
  have hzip : ((calls.zip (callEach S sel calls child).2).map fun x => x.1.frame).Nodup := by
    rw [← List.map_fst_zip hlength, List.map_map] at hnodup
    exact hnodup
  refine ⟨?_, rfl, fun c r hc hr => ?_, fun l hl => ?_, rfl⟩
  · rw [enableIn, ← hframes]
    exact (enableEach_known S sel (t := ⟨m, child⟩) hknown true).trans (by rw [Bool.true_and])
  · subst hr
    rw [Stream.enableSelection_eq, Stream.getState_update_self]
    exact getState_enableBase_of_mem sel hzip hc m.base
  · exact getState_enableBase_of_not sel hl m.base

theorem AllMapped.reachesAll {m : Muxer σ} (h : m.Consistent) {id : FrameID}
    (hall : AllMapped m id) (sel : Selection) : ReachesAll m id sel := by
  intro order hperm
  have hmapped : ∀ j ∈ order.filter (selects id), m.omap j ≠ none := by
    intro j hj
    obtain ⟨hj, hsel⟩ := List.mem_filter.mp hj
    exact (hall j (hperm.mem_iff.mp hj) hsel).1
  obtain ⟨calls, hframes, hcalls⟩ := exists_calls h hmapped
  have hnodup : (calls.map (·.frame)).Nodup :=
    hframes ▸ (hperm.nodup_iff.mpr m.base.state.keys_nodup).filter (selects id)
  refine ⟨calls, List.Nodup.of_map _ hnodup, fun c => ⟨fun hc => ?_, fun hc => ?_⟩,
    fun κ S child => ⟨_, enables_performed S hframes (fun c hc => ?_) hnodup child sel⟩⟩
  · have hframe : c.frame ∈ order.filter (selects id) := hframes ▸ List.mem_map_of_mem hc
    obtain ⟨havail, hsel⟩ := List.mem_filter.mp hframe
    exact meant_of_omap h (hcalls c hc).1 (hcalls c hc).2 (hperm.mem_iff.mp havail) hsel
  · have hframe : c.frame ∈ calls.map (·.frame) := by
      rw [hframes]
      exact List.mem_filter.mpr ⟨hperm.mem_iff.mpr hc.available, hc.selected⟩
    obtain ⟨c', hc', hsame⟩ := List.mem_map.mp hframe
    obtain ⟨he, hout⟩ := hcalls c' hc'
    rw [hsame, (hall c.frame hc.available hc.selected).2 c.entry hc.entry c.remote hc.mapped]
      at hout
    obtain ⟨hremote, hid⟩ := Prod.mk.inj (Option.some.inj hout)
    have heq : c = c' := EnableCall.ext hsame.symm (h.eq_of_id hc.entry he hid) hremote
    exact heq ▸ hc'
  · exact ⟨(hcalls c hc).2, h.entryAt (hcalls c hc).1⟩

/-- **A wildcard is enabled everywhere only while every frame it selects is mapped.** After every
history of a muxer, a call of `enable` with a wildcard reaches every available frame of the added
streams that it stands for with one call, in whatever order the frames come and whatever the
children answer, returns whether all calls succeeded, and enables those frames of the muxer whose
call did, exactly if no frame that it selects lost its mapping with a removed stream or to
another frame. -/
theorem wildcard_enable_reaches_iff (S : StreamClass κ) (child : σ → κ)
    (es : List (MuxerEvent σ κ)) (t : MuxerTree σ κ)
    (h : es.foldlM (step S) { child := child } = .ok t) (id : FrameID)
    (hid : id.frameset = kAll ∨ id.source = kAll) (sel : Selection) :
    t.enable S id sel = t.enableIn S t.mux.base.frames id sel ∧
      (ReachesAll t.mux id sel ↔ AllMapped t.mux id) := by
  have hconsistent := consistent_of_history S h
  exact ⟨enable_eq_enableIn S hid, fun hreach => hreach.allMapped hconsistent,
    fun hall => hall.reachesAll hconsistent sel⟩

/-- One stream that reports a frame. -/
theorem wildcard_enable_reaches_one : ∃ t : MuxerTree Nat Stream,
    List.foldlM (step .plain) { child := fun _ => {} } [MuxerEvent.add 0 (-1),
      MuxerEvent.available { id := 0, stream := 0 } ⟨0⟩ Channel.kColour] = .ok t ∧
    ReachesAll t.mux (FrameID.ofPair 255 255) .frame := by
  refine ⟨_, rfl, ((wildcard_enable_reaches_iff .plain (fun _ => {}) [MuxerEvent.add 0 (-1),
    MuxerEvent.available { id := 0, stream := 0 } ⟨0⟩ Channel.kColour] _ rfl
    (FrameID.ofPair 255 255) (by decide) .frame).2).mpr ?_⟩
  intro i hi _
  obtain rfl : i = ⟨0⟩ := List.mem_singleton.mp hi
  refine ⟨by decide, fun e he f hmap => ?_⟩
  obtain rfl : e = { id := 0, stream := 0 } := List.mem_singleton.mp he
  have hkey : Muxer.iid 0 f = Muxer.iid 0 ⟨0⟩ := by
    by_contra hne
    have hnone : (none : Option FrameID) = some ⟨0⟩ :=
      (Function.update_of_ne hne _ _).symm.trans hmap
    cases hnone
  rw [(Muxer.iid_inj.mp hkey).2]
  decide

/-- Two streams that report a frame each, of which the second is removed. -/
def secondRemoved : List (MuxerEvent Nat Stream) :=
  [.add 0 (-1), .add 1 (-1), .available { id := 0, stream := 0 } ⟨0⟩ Channel.kColour,
    .available { id := 1, stream := 1 } ⟨0⟩ Channel.kColour, .remove 1]

/-- The frame of the removed stream comes first: nothing is enabled, and `enable` says `false`,
with one frame of an added stream meant. -/
theorem removed_frame_stops_enable : ∃ t t' : MuxerTree Nat Stream,
    secondRemoved.foldlM (step .plain) { child := fun _ => {} } = .ok t ∧
      t.enable .plain (FrameID.ofPair 255 255) .frame = .ok (t', false) ∧
      t'.mux.base.enabledFrames = [] ∧ (t'.child 0).enabledFrames = [] ∧
      (⟨⟨0⟩, { id := 0, stream := 0 }, ⟨0⟩⟩ : EnableCall Nat).Meant t.mux
        (FrameID.ofPair 255 255) ∧
      ¬ ReachesAll t.mux (FrameID.ofPair 255 255) .frame := by
  have hfold : secondRemoved.foldlM (step .plain) { child := fun _ => {} } = .ok _ := rfl
  refine ⟨_, _, hfold, rfl, by decide, by decide,
    ⟨by decide, by decide, by decide, by decide⟩, fun hreach => ?_⟩
  have hframe : FrameID.ofPair 1 0 ∈ [FrameID.ofPair 1 0, ⟨0⟩].filter
      (selects (FrameID.ofPair 255 255)) := by decide
  exact hreach.mapped (consistent_of_history .plain hfold) hframe (by decide)

end MuxerTree

end BeyondProtocol
