import BeyondProtocol.Framework.Inverse
import BeyondProtocol.Framework.Runs
import BeyondProtocol.Streams.Muxer

/-!
# The id maps of a muxer are a bijection

`imap` and `omap` are written on four paths and cleaned by `remove`. They stay
the two directions of one partial bijection between the frames of the added
streams and local ids as long as the packed keys have room: stream ids below
2^15, remote framesets below 2^16, local framesets below 2^24.
-/

namespace BeyondProtocol

open Framework

/-! ## §1  Runs of a muxer -/

/-- What happens to a muxer whose streams have no fixed frameset. The callbacks carry
the entry of the child they were registered for. -/
inductive MuxEvent (σ : Type) : Type where
  | add (s : σ)
  | remove (s : σ)
  | packet (e : StreamEntry σ) (spkt : StreamPacket) (pkt : DataPacket)
  | available (e : StreamEntry σ) (id : FrameID) (c : Channel)
  | request (e : StreamEntry σ) (frames : List FrameID) (req : Request)
  | findOrCreateLocal (e : StreamEntry σ) (remote : FrameID)

/-- The frames an event makes the muxer map, with the id of their stream. -/
def MuxEvent.heard {σ : Type} : MuxEvent σ → List (Nat × FrameID)
  | .add _ => []
  | .remove _ => []
  | .packet e spkt _ => [(e.id, spkt.frame)]
  | .available e id _ => [(e.id, id)]
  | .request e frames req => (Muxer.requestedFrames frames req).map fun id => (e.id, id)
  | .findOrCreateLocal e remote => [(e.id, remote)]

def MuxEvent.isAdd {σ : Type} : MuxEvent σ → Bool
  | .add _ => true
  | _ => false

variable {σ : Type}

section Steps

variable [DecidableEq σ]

/-- A stream is added at most once at a time. -/
inductive MuxStep : Muxer σ → MuxEvent σ → Muxer σ → Prop where
  | add {m : Muxer σ} {s : σ} (h : ∀ e ∈ m.streams, e.stream ≠ s) :
      MuxStep m (.add s) (m.add s (-1))
  | remove {m : Muxer σ} {s : σ} : MuxStep m (.remove s) (m.remove s)
  | packet {m : Muxer σ} {e : StreamEntry σ} {spkt : StreamPacket} {pkt : DataPacket}
      (h : e ∈ m.streams) : MuxStep m (.packet e spkt pkt) (m.onPacket e spkt pkt).1
  | available {m m' : Muxer σ} {e : StreamEntry σ} {id : FrameID} {c : Channel} {fired : Bool}
      (h : e ∈ m.streams) (hseen : m.onAvailable e id c = .ok (m', fired)) :
      MuxStep m (.available e id c) m'
  | request {m : Muxer σ} {e : StreamEntry σ} {frames : List FrameID} {req : Request}
      (h : e ∈ m.streams) : MuxStep m (.request e frames req) (m.onRequest e frames req).1
  | findOrCreateLocal {m m' : Muxer σ} {e : StreamEntry σ} {remote l : FrameID}
      (h : m.findEntry e.stream = some e)
      (hfind : m.findOrCreateLocal e.stream remote = .ok (m', l)) :
      MuxStep m (.findOrCreateLocal e remote) m'

/-- Every event but `add` and `remove` maps some frames of one stream, and may have
something seen. -/
theorem MuxStep.cases {m m' : Muxer σ} {ev : MuxEvent σ} (h : MuxStep m ev m') :
    (∃ s, ev = .add s ∧ (∀ e ∈ m.streams, e.stream ≠ s) ∧ m' = m.add s (-1)) ∨
    (∃ s, ev = .remove s ∧ m' = m.remove s) ∨
    ∃ e ∈ m.streams, ∃ ids base, ev.isAdd = false ∧ ev.heard = ids.map (fun id => (e.id, id)) ∧
      m' = { (m.mapAll e ids).1 with base := base } := by
  cases h with
  | @add s h => exact .inl ⟨s, rfl, h, rfl⟩
  | @remove s => exact .inr (.inl ⟨s, rfl, rfl⟩)
  | @packet e spkt pkt h => exact .inr (.inr ⟨e, h, [spkt.frame], _, rfl, rfl, rfl⟩)
  | @available _ e id c fired h hseen =>
      obtain ⟨base, -, rfl⟩ := Muxer.onAvailable_eq hseen
      exact .inr (.inr ⟨e, h, [id], base, rfl, rfl, rfl⟩)
  | @request e frames req h =>
      exact .inr (.inr ⟨e, h, Muxer.requestedFrames frames req, _, rfl, rfl, rfl⟩)
  | @findOrCreateLocal _ e remote l h hfind =>
      rw [Muxer.findOrCreateLocal, h] at hfind
      refine .inr (.inr ⟨e, List.mem_of_find?_eq_some h, [remote], (m.mapAll e [remote]).1.base,
        rfl, rfl, ?_⟩)
      exact (congrArg Prod.fst (Except.ok.inj hfind)).symm

end Steps

/-- How many streams were added. -/
def adds (es : List (MuxEvent σ)) : Nat := es.countP MuxEvent.isAdd

/-- The framesets heard of. A stream that is removed and added again counts as a new
stream: it gets a new id. -/
def heardFramesets (es : List (MuxEvent σ)) : Finset (Nat × Nat) :=
  ((es.flatMap MuxEvent.heard).map fun p => (p.1, p.2.frameset)).toFinset

/-- The packed keys have room for everything that happened. -/
structure WithinRange (es : List (MuxEvent σ)) : Prop where
  added : adds es < 2 ^ 15
  remote : ∀ p ∈ heardFramesets es, p.2 < 2 ^ 16
  framesets : (heardFramesets es).card < 2 ^ 24

/-! ## §2  Packed keys -/

namespace Muxer

theorem iid_eq (i : Nat) (f : FrameID) : iid i f = i * 2 ^ 32 + f.id.toNat := by
  have hlt : f.id.toNat < 2 ^ 32 := f.id.toNat_lt
  rw [iid, ← Nat.shiftLeft_add_eq_or_of_lt hlt, Nat.shiftLeft_eq]

theorem iid_shiftRight (i : Nat) (f : FrameID) : iid i f >>> 32 = i := by
  have hlt : f.id.toNat < 2 ^ 32 := f.id.toNat_lt
  rw [iid_eq, Nat.shiftRight_eq_div_pow]
  omega

theorem iid_inj {i j : Nat} {f g : FrameID} : iid i f = iid j g ↔ i = j ∧ f = g := by
  constructor
  · intro h
    have hij : i = j := by rw [← iid_shiftRight i f, h, iid_shiftRight]
    subst hij
    rw [iid_eq, iid_eq] at h
    have hid : f.id.toNat = g.id.toNat := by omega
    cases f
    cases g
    exact ⟨rfl, congrArg FrameID.mk (UInt32.toNat.inj hid)⟩
  · rintro ⟨rfl, rfl⟩
    rfl

theorem fsiid_eq {i fs : Nat} (hi : i < 2 ^ 16) (hfs : fs < 2 ^ 16) :
    fsiid i fs = i * 2 ^ 16 + fs := by
  rw [fsiid, ← Nat.shiftLeft_add_eq_or_of_lt hfs, Nat.shiftLeft_eq]
  omega

theorem fsiid_inj {i j fs gs : Nat} (hi : i < 2 ^ 16) (hj : j < 2 ^ 16) (hfs : fs < 2 ^ 16)
    (hgs : gs < 2 ^ 16) (h : fsiid i fs = fsiid j gs) : i = j ∧ fs = gs := by
  rw [fsiid_eq hi hfs, fsiid_eq hj hgs] at h
  omega

/-! ## §3  The invariant -/

/-- `imap` by stream id and remote frame. -/
def toLocal (m : Muxer σ) (p : Nat × FrameID) : Option FrameID := m.imap (iid p.1 p.2)

/-- `omap`, the other way round. -/
def toRemote (m : Muxer σ) (l : FrameID) : Option (Nat × FrameID) := (m.omap l).map Prod.swap

theorem toRemote_eq {m : Muxer σ} {l f : FrameID} {i : Nat} :
    m.toRemote l = some (i, f) ↔ m.omap l = some (f, i) := by
  simp only [toRemote, Option.map_eq_some_iff]
  constructor
  · rintro ⟨⟨f', i'⟩, h, heq⟩
    cases heq
    exact h
  · intro h
    exact ⟨_, h, rfl⟩

/-- Local framesets are given out once each. -/
structure FramesetsMapped (heard : Finset (Nat × Nat)) (m : Muxer σ) : Prop where
  used : ∀ v < m.framesets, ∃ p ∈ heard, m.fsmap (fsiid p.1 p.2) = some v
  range : ∀ k v, m.fsmap k = some v → v < m.framesets
  inj : ∀ k k' v, m.fsmap k = some v → m.fsmap k' = some v → k = k'

structure EntriesDistinct (m : Muxer σ) : Prop where
  lt : ∀ e ∈ m.streams, e.id < m.streamIds
  ids : (m.streams.map (·.id)).Nodup
  streams : (m.streams.map (·.stream)).Nodup
  dynamic : ∀ e ∈ m.streams, e.fixedFs = -1

structure Mapped (heard : Finset (Nat × Nat)) (m : Muxer σ) : Prop where
  entries : EntriesDistinct m
  framesets : FramesetsMapped heard m
  inverse : Inverse m.toLocal m.toRemote
  /-- Only frames of added streams are mapped. -/
  keys : ∀ k l, m.imap k = some l → ∃ e ∈ m.streams, ∃ f, k = iid e.id f
  /-- Which local id a frame has. -/
  shape : ∀ i f l, m.toLocal (i, f) = some l → f.frameset < 2 ^ 16 ∧
    ∃ v, m.fsmap (fsiid i f.frameset) = some v ∧ l = FrameID.ofPair v f.source

theorem FramesetsMapped.mono {heard heard' : Finset (Nat × Nat)} {m : Muxer σ}
    (h : FramesetsMapped heard m) (hsub : heard ⊆ heard') : FramesetsMapped heard' m where
  used v hv := by
    obtain ⟨p, hp, hmap⟩ := h.used v hv
    exact ⟨p, hsub hp, hmap⟩
  range := h.range
  inj := h.inj

/-- There are no more local framesets than framesets were heard of. -/
theorem FramesetsMapped.card_le {heard : Finset (Nat × Nat)} {m : Muxer σ}
    (h : FramesetsMapped heard m) : m.framesets ≤ heard.card := by
  have hsub : Finset.range m.framesets ⊆
      heard.image fun p => (m.fsmap (fsiid p.1 p.2)).getD 0 := by
    intro v hv
    obtain ⟨p, hp, hmap⟩ := h.used v (Finset.mem_range.mp hv)
    exact Finset.mem_image.mpr ⟨p, hp, by rw [hmap]; rfl⟩
  calc
    m.framesets = (Finset.range m.framesets).card := (Finset.card_range _).symm
    _ ≤ _ := Finset.card_le_card hsub
    _ ≤ heard.card := Finset.card_image_le

theorem mapFrameset_spec {heard : Finset (Nat × Nat)} {m : Muxer σ} (h : FramesetsMapped heard m)
    {i fs : Nat} (hheard : (i, fs) ∈ heard) :
    FramesetsMapped heard (m.mapFrameset i fs).1 ∧
      (m.mapFrameset i fs).1.fsmap (fsiid i fs) = some (m.mapFrameset i fs).2 ∧
      ∀ k v, m.fsmap k = some v → (m.mapFrameset i fs).1.fsmap k = some v := by
  cases hmap : m.fsmap (fsiid i fs) with
  | some v =>
      have hold : m.mapFrameset i fs = (m, v) := by simp [mapFrameset, hmap]
      rw [hold]
      exact ⟨h, hmap, fun _ _ hk => hk⟩
  | none =>
      have hnew : m.mapFrameset i fs = ({ m with
          fsmap := Function.update m.fsmap (fsiid i fs) (some m.framesets)
          framesets := m.framesets + 1 }, m.framesets) := by
        simp [mapFrameset, hmap]
      rw [hnew]
      have hkeep : ∀ k v, m.fsmap k = some v →
          Function.update m.fsmap (fsiid i fs) (some m.framesets) k = some v := by
        intro k v hk
        rw [Function.update_of_ne (fun heq => by rw [heq, hmap] at hk; cases hk)]
        exact hk
      -- the new number is the least that is not given out
      refine ⟨⟨fun v hv => ?_, fun k v hk => ?_, fun k k' v hk hk' => ?_⟩,
        Function.update_self _ _ _, hkeep⟩
      · rcases Nat.lt_succ_iff_lt_or_eq.mp hv with hv | rfl
        · obtain ⟨p, hp, hp'⟩ := h.used v hv
          exact ⟨p, hp, hkeep (fsiid p.1 p.2) v hp'⟩
        · exact ⟨(i, fs), hheard, Function.update_self _ _ _⟩
      · simp only [Function.update_apply] at hk
        split_ifs at hk
        · cases hk
          exact Nat.lt_succ_self _
        · exact (h.range k v hk).trans (Nat.lt_succ_self _)
      · simp only [Function.update_apply] at hk hk'
        split_ifs at hk hk' with heq heq' heq'
        · rw [heq, heq']
        · cases hk
          exact absurd (h.range k' _ hk') (lt_irrefl _)
        · cases hk'
          exact absurd (h.range k _ hk) (lt_irrefl _)
        · exact h.inj k k' v hk hk'

/-- What mapping a new frame does. -/
theorem mapFromInput_new {m : Muxer σ} {e : StreamEntry σ} {id : FrameID}
    (hdyn : e.fixedFs = -1) (hnone : m.imap (iid e.id id) = none) :
    m.mapFromInput e id = ({ m with
      fsmap := (m.mapFrameset e.id id.frameset).1.fsmap
      framesets := (m.mapFrameset e.id id.frameset).1.framesets
      imap := Function.update m.imap (iid e.id id)
        (some (FrameID.ofPair (m.mapFrameset e.id id.frameset).2 id.source))
      omap := Function.update m.omap (FrameID.ofPair (m.mapFrameset e.id id.frameset).2 id.source)
        (some (id, e.id)) }, FrameID.ofPair (m.mapFrameset e.id id.frameset).2 id.source) := by
  simp only [mapFromInput, hnone, allocate, hdyn, mapFrameset]
  cases m.fsmap (fsiid e.id id.frameset) <;> rfl

theorem allocate_maps (m : Muxer σ) (e : StreamEntry σ) (id : FrameID) :
    (m.allocate e id).1.imap = m.imap ∧ (m.allocate e id).1.omap = m.omap := by
  unfold allocate mapFrameset
  split
  · exact ⟨rfl, rfl⟩
  · cases m.fsmap (fsiid e.id id.frameset) <;> exact ⟨rfl, rfl⟩

theorem toLocal_new {m : Muxer σ} {e : StreamEntry σ} {id : FrameID}
    (hnone : m.imap (iid e.id id) = none) :
    (m.mapFromInput e id).1.toLocal =
      Function.update m.toLocal (e.id, id) (some (m.mapFromInput e id).2) := by
  funext ⟨j, g⟩
  simp only [mapFromInput, hnone, toLocal, (allocate_maps m e id).1, Function.update_apply,
    iid_inj, Prod.mk.injEq]

theorem toRemote_new {m : Muxer σ} {e : StreamEntry σ} {id : FrameID}
    (hnone : m.imap (iid e.id id) = none) :
    (m.mapFromInput e id).1.toRemote =
      Function.update m.toRemote (m.mapFromInput e id).2 (some (e.id, id)) := by
  funext l
  simp only [mapFromInput, hnone, toRemote, (allocate_maps m e id).2, Function.update_apply]
  split_ifs <;> rfl

theorem mapFromInput_old {m : Muxer σ} {e : StreamEntry σ} {id l : FrameID}
    (hsome : m.imap (iid e.id id) = some l) : m.mapFromInput e id = (m, l) := by
  simp [mapFromInput, hsome]

theorem toLocal_mapFromInput {m : Muxer σ} {e : StreamEntry σ} {id : FrameID} :
    (m.mapFromInput e id).1.toLocal (e.id, id) = some (m.mapFromInput e id).2 := by
  cases hmap : m.imap (iid e.id id) with
  | some l =>
      rw [mapFromInput_old hmap]
      exact hmap
  | none =>
      rw [toLocal_new hmap]
      exact Function.update_self _ _ _

/-- The local id that a new frame gets is not in use. -/
theorem Mapped.fresh {heard : Finset (Nat × Nat)} {m : Muxer σ} (h : Mapped heard m)
    (hids : m.streamIds ≤ 2 ^ 15) (hcard : heard.card < 2 ^ 24) {e : StreamEntry σ}
    (he : e ∈ m.streams) {id : FrameID} (hheard : (e.id, id.frameset) ∈ heard)
    (hfs : id.frameset < 2 ^ 16) (hnone : m.imap (iid e.id id) = none) :
    m.toRemote (m.mapFromInput e id).2 = none := by
  rw [mapFromInput_new (h.entries.dynamic e he) hnone]
  by_contra hused
  obtain ⟨⟨j, g⟩, hj⟩ := Option.ne_none_iff_exists'.mp hused
  have hlocal := (h.inverse (j, g) _).mpr hj
  obtain ⟨hgs, w, hw, hl⟩ := h.shape j g _ hlocal
  obtain ⟨e', he', f, hkey⟩ := h.keys _ _ hlocal
  obtain ⟨rfl, rfl⟩ := iid_inj.mp hkey
  obtain ⟨hmapped, hv, hkeep⟩ := mapFrameset_spec h.framesets hheard
  set v := (m.mapFrameset e.id id.frameset).2
  have hwv := hkeep _ _ hw
  have hbound : ∀ k u, (m.mapFrameset e.id id.frameset).1.fsmap k = some u → u < 2 ^ 24 :=
    fun k u hu => (hmapped.range k u hu).trans_le (hmapped.card_le.trans hcard.le)
  -- equal local ids have equal framesets and sources
  have hsame : v = w := by
    have := congrArg FrameID.frameset hl
    rwa [FrameID.frameset_ofPair (hbound _ _ hv), FrameID.frameset_ofPair (hbound _ _ hwv)] at this
  have hsource : id.source = g.source := by
    have := congrArg FrameID.source hl
    simpa [Nat.mod_eq_of_lt (FrameID.source_lt _)] using this
  have hids16 : m.streamIds ≤ 2 ^ 16 := hids.trans (by norm_num)
  obtain ⟨hid, hframeset⟩ := fsiid_inj ((h.entries.lt e he).trans_le hids16)
    ((h.entries.lt e' he').trans_le hids16) hfs hgs (hmapped.inj _ _ _ hv (hsame ▸ hwv))
  obtain rfl : id = g := FrameID.ext_parts hframeset hsource
  rw [toLocal, ← hid, hnone] at hlocal
  cases hlocal

theorem Mapped.mapFromInput {heard : Finset (Nat × Nat)} {m : Muxer σ} (h : Mapped heard m)
    (hids : m.streamIds ≤ 2 ^ 15) (hcard : heard.card < 2 ^ 24) {e : StreamEntry σ}
    (he : e ∈ m.streams) {id : FrameID} (hheard : (e.id, id.frameset) ∈ heard)
    (hfs : id.frameset < 2 ^ 16) : Mapped heard (m.mapFromInput e id).1 := by
  cases hmap : m.imap (iid e.id id) with
  | some l =>
      rw [mapFromInput_old hmap]
      exact h
  | none =>
      have hdyn := h.entries.dynamic e he
      have hfresh := h.fresh hids hcard he hheard hfs hmap
      have hlocal := toLocal_new hmap
      have hremote := toRemote_new hmap
      obtain ⟨hmapped, hv, hkeep⟩ := mapFrameset_spec h.framesets hheard
      rw [mapFromInput_new hdyn hmap] at hlocal hremote hfresh ⊢
      refine ⟨⟨h.entries.lt, h.entries.ids, h.entries.streams, h.entries.dynamic⟩,
        ⟨hmapped.used, hmapped.range, hmapped.inj⟩, ?_, fun k l' hk => ?_, fun j g l' hj => ?_⟩
      · rw [hlocal, hremote]
        exact h.inverse.update hmap hfresh
      · simp only [Function.update_apply] at hk
        split_ifs at hk with hkey
        · exact ⟨e, he, id, hkey⟩
        · exact h.keys k l' hk
      · rw [hlocal, Function.update_apply] at hj
        split_ifs at hj with heq
        · cases heq
          cases hj
          exact ⟨hfs, _, hv, rfl⟩
        · obtain ⟨hgs, w, hw, hl'⟩ := h.shape j g l' hj
          exact ⟨hgs, w, hkeep _ _ hw, hl'⟩

/-- Mapping frames only adds to the maps. -/
structure Extends (m m' : Muxer σ) : Prop where
  streams : m'.streams = m.streams
  streamIds : m'.streamIds = m.streamIds
  base : m'.base = m.base
  imap : ∀ k l, m.imap k = some l → m'.imap k = some l

theorem mapFromInput_extends (m : Muxer σ) (e : StreamEntry σ) (id : FrameID) :
    Extends m (m.mapFromInput e id).1 := by
  cases hmap : m.imap (iid e.id id) with
  | some l =>
      rw [mapFromInput_old hmap]
      exact ⟨rfl, rfl, rfl, fun _ _ hk => hk⟩
  | none =>
      have halloc : (m.allocate e id).1.streams = m.streams ∧
          (m.allocate e id).1.streamIds = m.streamIds ∧
          (m.allocate e id).1.base = m.base ∧ (m.allocate e id).1.imap = m.imap := by
        unfold allocate mapFrameset
        split_ifs
        · exact ⟨rfl, rfl, rfl, rfl⟩
        · cases m.fsmap (fsiid e.id id.frameset) <;> exact ⟨rfl, rfl, rfl, rfl⟩
      simp only [Muxer.mapFromInput, hmap]
      refine ⟨halloc.1, halloc.2.1, halloc.2.2.1, fun k l hk => ?_⟩
      have hne : k ≠ iid e.id id := by
        rintro rfl
        rw [hmap] at hk
        cases hk
      simpa only [halloc.2.2.2, Function.update_of_ne hne] using hk

theorem mapAll_extends (m : Muxer σ) (e : StreamEntry σ) (ids : List FrameID) :
    Extends m (m.mapAll e ids).1 := by
  induction ids generalizing m with
  | nil => exact ⟨rfl, rfl, rfl, fun _ _ hk => hk⟩
  | cons id ids ih =>
      have hfirst := m.mapFromInput_extends e id
      have hrest := ih (m.mapFromInput e id).1
      exact ⟨hrest.streams.trans hfirst.streams, hrest.streamIds.trans hfirst.streamIds,
        hrest.base.trans hfirst.base, fun k l hk => hrest.imap k l (hfirst.imap k l hk)⟩

theorem Mapped.mapAll {heard : Finset (Nat × Nat)} {m : Muxer σ} (h : Mapped heard m)
    (hids : m.streamIds ≤ 2 ^ 15) (hcard : heard.card < 2 ^ 24) {e : StreamEntry σ}
    (he : e ∈ m.streams) {ids : List FrameID}
    (hheard : ∀ id ∈ ids, (e.id, id.frameset) ∈ heard ∧ id.frameset < 2 ^ 16) :
    Mapped heard (m.mapAll e ids).1 := by
  induction ids generalizing m with
  | nil => exact h
  | cons id ids ih =>
      obtain ⟨hid, hfs⟩ := hheard id (by simp)
      have hext := m.mapFromInput_extends e id
      have hmapped := h.mapFromInput hids hcard he hid hfs
      exact ih hmapped (hext.streamIds.trans_le hids) (hext.streams ▸ he)
        fun id' hid' => hheard id' (by simp [hid'])

/-- The state of the base class is not part of the maps. -/
theorem Mapped.withBase {heard : Finset (Nat × Nat)} {m : Muxer σ} (h : Mapped heard m)
    (base : Stream) : Mapped heard { m with base := base } :=
  ⟨⟨h.entries.lt, h.entries.ids, h.entries.streams, h.entries.dynamic⟩,
    ⟨h.framesets.used, h.framesets.range, h.framesets.inj⟩, h.inverse, h.keys, h.shape⟩

theorem Mapped.mono {heard heard' : Finset (Nat × Nat)} {m : Muxer σ} (h : Mapped heard m)
    (hsub : heard ⊆ heard') : Mapped heard' m :=
  { h with framesets := h.framesets.mono hsub }

theorem Mapped.add {heard : Finset (Nat × Nat)} {m : Muxer σ} (h : Mapped heard m) {s : σ}
    (hnew : ∀ e ∈ m.streams, e.stream ≠ s) : Mapped heard (m.add s (-1)) := by
  refine ⟨⟨fun e he => ?_, ?_, ?_, fun e he => ?_⟩,
    ⟨h.framesets.used, h.framesets.range, h.framesets.inj⟩, h.inverse, fun k l hk => ?_, h.shape⟩
  · rcases List.mem_append.mp he with he | he
    · exact (h.entries.lt e he).trans (Nat.lt_succ_self _)
    · rw [List.mem_singleton.mp he]
      exact Nat.lt_succ_self _
  · have hfresh : m.streamIds ∉ m.streams.map (·.id) := by
      intro hmem
      obtain ⟨e, he, heq⟩ := List.mem_map.mp hmem
      exact absurd (h.entries.lt e he) (by omega)
    simpa [Muxer.add, List.nodup_append, h.entries.ids] using hfresh
  · simpa [Muxer.add, List.nodup_append, h.entries.streams] using hnew
  · rcases List.mem_append.mp he with he | he
    · exact h.entries.dynamic e he
    · rw [List.mem_singleton.mp he]
  · obtain ⟨e, he, f, hkey⟩ := h.keys k l hk
    exact ⟨e, List.mem_append_left _ he, f, hkey⟩

/-- A list is searched by a key that occurs once. -/
theorem find?_of_nodup {α β : Type} [DecidableEq β] {l : List α} {key : α → β}
    (h : (l.map key).Nodup) {a : α} (ha : a ∈ l) : l.find? (fun x => key x = key a) = some a := by
  induction l with
  | nil => cases ha
  | cons b l ih =>
      obtain ⟨hb, hl⟩ := List.nodup_cons.mp h
      rcases List.mem_cons.mp ha with rfl | ha
      · simp
      · have hne : key b ≠ key a := fun heq => hb (heq ▸ List.mem_map_of_mem ha)
        simp [hne, ih hl ha]

theorem notMem_eraseP_of_nodup {α β : Type} [DecidableEq β] {l : List α} {key : α → β}
    (h : (l.map key).Nodup) (a : α) : a ∉ l.eraseP fun x => key x = key a := by
  induction l with
  | nil => simp
  | cons b l ih =>
      obtain ⟨hb, hl⟩ := List.nodup_cons.mp h
      by_cases hba : key b = key a
      · have hnot : a ∉ l := fun ha => hb (hba ▸ List.mem_map_of_mem ha)
        simpa [List.eraseP_cons, hba] using hnot
      · have hne : a ≠ b := fun hab => hba (by rw [hab])
        simpa [List.eraseP_cons, hba, hne] using ih hl

theorem EntriesDistinct.entryAt {m : Muxer σ} (h : EntriesDistinct m) {e : StreamEntry σ}
    (he : e ∈ m.streams) : m.entryAt e.id = .ok e := by
  rw [Muxer.entryAt, find?_of_nodup h.ids he]

theorem EntriesDistinct.eq_of_id {m : Muxer σ} (h : EntriesDistinct m) {e e' : StreamEntry σ}
    (he : e ∈ m.streams) (he' : e' ∈ m.streams) (hid : e.id = e'.id) : e = e' :=
  List.inj_on_of_nodup_map h.ids he he' hid

theorem EntriesDistinct.eq_of_stream {m : Muxer σ} (h : EntriesDistinct m)
    {e e' : StreamEntry σ} (he : e ∈ m.streams) (he' : e' ∈ m.streams)
    (hs : e.stream = e'.stream) : e = e' :=
  List.inj_on_of_nodup_map h.streams he he' hs

variable [DecidableEq σ]

theorem EntriesDistinct.findEntry {m : Muxer σ} (h : EntriesDistinct m) {e : StreamEntry σ}
    (he : e ∈ m.streams) : m.findEntry e.stream = some e :=
  find?_of_nodup h.streams he

theorem findEntry_some {m : Muxer σ} {s : σ} {e : StreamEntry σ}
    (h : m.findEntry s = some e) : e ∈ m.streams ∧ e.stream = s :=
  ⟨List.mem_of_find?_eq_some h, by simpa using List.find?_some h⟩

/-- What `remove` does to the maps, for a stream that is there. -/
theorem remove_maps {m : Muxer σ} {e : StreamEntry σ} (h : m.findEntry e.stream = some e) :
    (m.remove e.stream).toLocal = (fun p => if decide (p.1 ≠ e.id) then m.toLocal p else none) ∧
      (m.remove e.stream).toRemote =
        fun l => (m.toRemote l).filter fun p => decide (p.1 ≠ e.id) := by
  constructor
  · funext ⟨i, f⟩
    by_cases hi : i = e.id <;> simp [toLocal, remove, h, iid_shiftRight, hi]
  · funext l
    simp only [toRemote, remove, h]
    cases m.omap l with
    | none => rfl
    | some p => by_cases hp : p.2 = e.id <;> simp [Option.filter, hp]

theorem remove_streams {m : Muxer σ} {s : σ} {e : StreamEntry σ} (h : m.findEntry s = some e) :
    (m.remove s).streams = m.streams.eraseP (·.stream = s) := by
  simp [remove, h]

theorem remove_none {m : Muxer σ} {s : σ} (h : m.findEntry s = none) : m.remove s = m := by
  simp [remove, h]

theorem EntriesDistinct.remove {m : Muxer σ} (h : EntriesDistinct m) (s : σ) :
    EntriesDistinct (m.remove s) := by
  cases hfind : m.findEntry s with
  | none => rwa [remove_none hfind]
  | some e =>
      have hsub : (m.remove s).streams.Sublist m.streams := by
        rw [remove_streams hfind]
        exact List.eraseP_sublist
      have hids : (m.remove s).streamIds = m.streamIds := by simp [Muxer.remove, hfind]
      exact ⟨fun e' he' => hids ▸ h.lt e' (hsub.subset he'), h.ids.sublist (hsub.map _),
        h.streams.sublist (hsub.map _), fun e' he' => h.dynamic e' (hsub.subset he')⟩

theorem FramesetsMapped.remove {heard : Finset (Nat × Nat)} {m : Muxer σ}
    (h : FramesetsMapped heard m) (s : σ) : FramesetsMapped heard (m.remove s) := by
  unfold Muxer.remove
  cases m.findEntry s with
  | none => exact h
  | some e => exact ⟨h.used, h.range, h.inj⟩

/-- An entry of another stream stays. -/
theorem mem_remove {m : Muxer σ} {s : σ} {e : StreamEntry σ} (he : e ∈ m.streams)
    (hs : e.stream ≠ s) : e ∈ (m.remove s).streams := by
  cases hfind : m.findEntry s with
  | none => rwa [remove_none hfind]
  | some e' =>
      rw [remove_streams hfind, List.mem_eraseP_of_neg (by simpa using hs)]
      exact he

theorem Mapped.remove {heard : Finset (Nat × Nat)} {m : Muxer σ} (h : Mapped heard m) (s : σ) :
    Mapped heard (m.remove s) := by
  cases hfind : m.findEntry s with
  | none => rwa [remove_none hfind]
  | some e =>
      obtain ⟨he, rfl⟩ := findEntry_some hfind
      obtain ⟨hlocal, hremote⟩ := remove_maps hfind
      refine ⟨h.entries.remove _, h.framesets.remove _, ?_, fun k l hk => ?_, fun i f l hl => ?_⟩
      · rw [hlocal, hremote]
        exact h.inverse.restrict _
      · have hk' : k >>> 32 ≠ e.id ∧ m.imap k = some l := by
          simpa [Muxer.remove, hfind] using hk
        obtain ⟨e', he', f, rfl⟩ := h.keys k l hk'.2
        have hne : e'.stream ≠ e.stream := by
          intro hs
          rw [h.entries.eq_of_stream he' he hs, iid_shiftRight] at hk'
          exact hk'.1 rfl
        exact ⟨e', mem_remove he' hne, f, rfl⟩
      · have hfs : (m.remove e.stream).fsmap = m.fsmap := by simp [Muxer.remove, hfind]
        rw [hlocal] at hl
        simp only at hl
        split_ifs at hl
        rw [hfs]
        exact h.shape i f l hl

end Muxer

/-! ## §4  Whole runs -/

theorem heardFramesets_append (es fs : List (MuxEvent σ)) :
    heardFramesets (es ++ fs) = heardFramesets es ∪ heardFramesets fs := by
  simp [heardFramesets]

theorem WithinRange.of_append {es fs : List (MuxEvent σ)} (h : WithinRange (es ++ fs)) :
    WithinRange es := by
  have hsub : heardFramesets es ⊆ heardFramesets (es ++ fs) := by
    rw [heardFramesets_append]
    exact Finset.subset_union_left
  refine ⟨?_, fun p hp => h.remote p (hsub hp), (Finset.card_le_card hsub).trans_lt h.framesets⟩
  have hadds := h.added
  rw [adds, List.countP_append] at hadds
  rw [adds]
  omega

theorem mapped_start : ({} : Muxer σ).Mapped ∅ where
  entries := ⟨by simp, by simp, by simp, by simp⟩
  framesets := ⟨fun _ hv => absurd hv (Nat.not_lt_zero _), fun _ _ hk => (by cases hk),
    fun _ _ _ hk => (by cases hk)⟩
  inverse := Inverse.empty
  keys := fun _ _ hk => by cases hk
  shape := fun _ _ _ hk => by cases hk

section Runs

variable [DecidableEq σ]

theorem MuxStep.mapped {es : List (MuxEvent σ)} {m m' : Muxer σ} {ev : MuxEvent σ}
    (hstep : MuxStep m ev m') (hrange : WithinRange (es ++ [ev]))
    (h : m.Mapped (heardFramesets es)) (hids : m.streamIds = adds es) :
    m'.Mapped (heardFramesets (es ++ [ev])) ∧ m'.streamIds = adds (es ++ [ev]) := by
  have hsub : heardFramesets es ⊆ heardFramesets (es ++ [ev]) := by
    rw [heardFramesets_append]
    exact Finset.subset_union_left
  have hmono := h.mono hsub
  have hadds : adds (es ++ [ev]) = m.streamIds + if ev.isAdd then 1 else 0 := by
    rw [hids, adds, List.countP_append, adds, List.countP_singleton]
  rcases hstep.cases with ⟨s, rfl, hnew, rfl⟩ | ⟨s, rfl, rfl⟩ |
    ⟨e, he, ids, base, hadd, hheard, rfl⟩
  · exact ⟨hmono.add hnew, hadds.symm⟩
  · refine ⟨hmono.remove s, ?_⟩
    rw [hadds]
    unfold Muxer.remove
    cases m.findEntry s <;> rfl
  · have hext := m.mapAll_extends e ids
    have hmem : ∀ id ∈ ids, (e.id, id.frameset) ∈ heardFramesets (es ++ [ev]) := by
      intro id hid
      rw [heardFramesets_append]
      refine Finset.mem_union_right _ ?_
      simp only [heardFramesets, List.flatMap_singleton, hheard, List.map_map, List.mem_toFinset]
      exact List.mem_map.mpr ⟨id, hid, rfl⟩
    have hsmall : m.streamIds ≤ 2 ^ 15 := by
      have := hrange.added
      omega
    refine ⟨(hmono.mapAll hsmall hrange.framesets he fun id hid =>
      ⟨hmem id hid, hrange.remote _ (hmem id hid)⟩).withBase base, ?_⟩
    rw [hadds, hadd]
    exact hext.streamIds

theorem mapped_of_run {es : List (MuxEvent σ)} {m : Muxer σ} (run : Runs MuxStep {} es m)
    (hrange : WithinRange es) : m.Mapped (heardFramesets es) ∧ m.streamIds = adds es := by
  refine run.invariant_hist (I := fun es m => WithinRange es →
    m.Mapped (heardFramesets es) ∧ m.streamIds = adds es)
    (fun _ => ⟨mapped_start, rfl⟩) ?_ hrange
  intro es m ev m' ih hstep hrange
  obtain ⟨h, hids⟩ := ih hrange.of_append
  exact hstep.mapped hrange h hids

/-- A mapped frame of a stream that is not removed keeps its local id. -/
theorem MuxStep.keeps {heard : Finset (Nat × Nat)} {m m' : Muxer σ} {ev : MuxEvent σ}
    (hstep : MuxStep m ev m') (h : m.Mapped heard) {e : StreamEntry σ} (he : e ∈ m.streams)
    (hev : ev ≠ .remove e.stream) :
    e ∈ m'.streams ∧ ∀ f l, m.toLocal (e.id, f) = some l → m'.toLocal (e.id, f) = some l := by
  rcases hstep.cases with ⟨s, rfl, hnew, rfl⟩ | ⟨s, rfl, rfl⟩ |
    ⟨e', he', ids, base, hadd, hheard, rfl⟩
  · exact ⟨List.mem_append_left _ he, fun _ _ hl => hl⟩
  · cases hfind : m.findEntry s with
    | none =>
        rw [Muxer.remove_none hfind]
        exact ⟨he, fun _ _ hl => hl⟩
    | some e' =>
        obtain ⟨he', rfl⟩ := Muxer.findEntry_some hfind
        have hs : e.stream ≠ e'.stream := fun heq => hev (by rw [heq])
        have hid : e.id ≠ e'.id := fun heq => hs (by rw [h.entries.eq_of_id he he' heq])
        refine ⟨Muxer.mem_remove he hs, fun f l hl => ?_⟩
        rw [(Muxer.remove_maps hfind).1]
        simpa [hid] using hl
  · have hext := m.mapAll_extends e' ids
    exact ⟨hext.streams.symm ▸ he, fun f l hl => hext.imap _ l hl⟩

theorem keeps_of_run {es fs : List (MuxEvent σ)} {m m' : Muxer σ} (run : Runs MuxStep {} es m)
    (run' : Runs MuxStep m fs m') (hrange : WithinRange (es ++ fs)) {e : StreamEntry σ}
    (he : e ∈ m.streams) (hfs : ∀ ev ∈ fs, ev ≠ .remove e.stream) :
    e ∈ m'.streams ∧ ∀ f l, m.toLocal (e.id, f) = some l → m'.toLocal (e.id, f) = some l := by
  refine run'.invariant_run (I := fun fs m' => WithinRange (es ++ fs) →
    (∀ ev ∈ fs, ev ≠ .remove e.stream) → e ∈ m'.streams ∧
      ∀ f l, m.toLocal (e.id, f) = some l → m'.toLocal (e.id, f) = some l)
    (fun _ _ => ⟨he, fun _ _ hl => hl⟩) ?_ hrange hfs
  intro fs m₁ ev m₂ run₁ ih hstep hrange hfs
  rw [← List.append_assoc] at hrange
  have hbefore := hrange.of_append
  obtain ⟨he₁, hkept⟩ := ih hbefore fun ev hev => hfs ev (by simp [hev])
  obtain ⟨he₂, hkept'⟩ :=
    hstep.keeps (mapped_of_run (run.trans run₁) hbefore).1 he₁ (hfs ev (by simp))
  exact ⟨he₂, fun f l hl => hkept' f l (hkept f l hl)⟩

/-- The id maps of a muxer as its users see them. -/
structure Muxer.Bijective (m : Muxer σ) : Prop where
  imap_omap : ∀ k l, m.imap k = some l →
    ∃ e ∈ m.streams, ∃ f, k = iid e.id f ∧ m.omap l = some (f, e.id)
  omap_imap : ∀ l f i, m.omap l = some (f, i) → m.imap (iid i f) = some l
  /-- Distinct frames have distinct local ids. -/
  distinct : ∀ e ∈ m.streams, ∀ e' ∈ m.streams, ∀ f f' l, m.imap (iid e.id f) = some l →
    m.imap (iid e'.id f') = some l → e = e' ∧ f = f'
  source : ∀ e ∈ m.streams, ∀ f l, m.imap (iid e.id f) = some l → l.source = f.source
  frameset : ∀ e ∈ m.streams, ∀ e' ∈ m.streams, ∀ f f' l l', m.imap (iid e.id f) = some l →
    m.imap (iid e'.id f') = some l' →
      (l.frameset = l'.frameset ↔ e = e' ∧ f.frameset = f'.frameset)
  lookup : ∀ l f i, m.omap l = some (f, i) → ∃ s, m.originStream l = .ok (some s) ∧
    m.findRemote l = .ok f ∧ m.findLocal s f = .ok l

/-- `remove` takes the stream out of both maps and nothing else. -/
structure Muxer.RemovesOnly (m : Muxer σ) (s : σ) : Prop where
  gone : ∀ e ∈ m.streams, e.stream = s → e ∉ (m.remove s).streams ∧
    (∀ f, (m.remove s).imap (iid e.id f) = none) ∧ ∀ l f, (m.remove s).omap l ≠ some (f, e.id)
  imap_kept : ∀ e ∈ m.streams, e.stream ≠ s →
    ∀ f, (m.remove s).imap (iid e.id f) = m.imap (iid e.id f)
  omap_kept : ∀ l f i, (∀ e ∈ m.streams, e.stream = s → e.id ≠ i) →
    ((m.remove s).omap l = some (f, i) ↔ m.omap l = some (f, i))

theorem Muxer.Mapped.bijective {heard : Finset (Nat × Nat)} {m : Muxer σ} (h : m.Mapped heard)
    (hids : m.streamIds ≤ 2 ^ 15) (hcard : heard.card < 2 ^ 24) : m.Bijective := by
  have hrange : ∀ k v, m.fsmap k = some v → v < 2 ^ 24 := fun k v hv =>
    (h.framesets.range k v hv).trans_le (h.framesets.card_le.trans hcard.le)
  refine ⟨fun k l hk => ?_, fun l f i hl => ?_, fun e he e' he' f f' l hl hl' => ?_,
    fun e he f l hl => ?_, fun e he e' he' f f' l l' hl hl' => ?_, fun l f i hl => ?_⟩
  · obtain ⟨e, he, f, rfl⟩ := h.keys k l hk
    exact ⟨e, he, f, rfl, toRemote_eq.mp ((h.inverse (e.id, f) l).mp hk)⟩
  · exact (h.inverse (i, f) l).mpr (toRemote_eq.mpr hl)
  · have heq := h.inverse.injective (show m.toLocal (e.id, f) = some l from hl)
      (show m.toLocal (e'.id, f') = some l from hl')
    exact ⟨h.entries.eq_of_id he he' (congrArg Prod.fst heq), congrArg Prod.snd heq⟩
  · obtain ⟨-, v, -, rfl⟩ := h.shape e.id f l hl
    rw [FrameID.source_ofPair, Nat.mod_eq_of_lt f.source_lt]
  · obtain ⟨hfs, v, hv, rfl⟩ := h.shape e.id f l hl
    obtain ⟨hfs', v', hv', rfl⟩ := h.shape e'.id f' l' hl'
    rw [FrameID.frameset_ofPair (hrange _ _ hv), FrameID.frameset_ofPair (hrange _ _ hv')]
    constructor
    · -- one local frameset has one key, and the key one stream and frameset
      rintro rfl
      have hids16 : m.streamIds ≤ 2 ^ 16 := hids.trans (by norm_num)
      obtain ⟨hid, hframeset⟩ := fsiid_inj ((h.entries.lt e he).trans_le hids16)
        ((h.entries.lt e' he').trans_le hids16) hfs hfs' (h.framesets.inj _ _ _ hv hv')
      exact ⟨h.entries.eq_of_id he he' hid, hframeset⟩
    · rintro ⟨rfl, hframeset⟩
      rw [hframeset, hv'] at hv
      exact (Option.some.inj hv).symm
  · have hlocal := (h.inverse (i, f) l).mpr (toRemote_eq.mpr hl)
    obtain ⟨e, he, f', hkey⟩ := h.keys _ l hlocal
    obtain ⟨rfl, rfl⟩ := iid_inj.mp hkey
    have hout : m.mapToOutput l = (f, some e.id) := by simp [mapToOutput, hl]
    refine ⟨e.stream, ?_, ?_, ?_⟩
    · simp only [originStream, hout, h.entries.entryAt he]
      rfl
    · simp [findRemote, hout]
    · have himap : m.imap (iid e.id f) = some l := hlocal
      simp [findLocal, h.entries.findEntry he, findInput, himap]

theorem Muxer.Mapped.removesOnly {heard : Finset (Nat × Nat)} {m : Muxer σ}
    (h : m.Mapped heard) (s : σ) : m.RemovesOnly s := by
  cases hfind : m.findEntry s with
  | none =>
      have hsame := remove_none hfind
      refine ⟨fun e he hs => ?_, fun _ _ _ _ => by rw [hsame], fun _ _ _ _ => by rw [hsame]⟩
      rw [← hs, h.entries.findEntry he] at hfind
      cases hfind
  | some e =>
      obtain ⟨he, rfl⟩ := findEntry_some hfind
      obtain ⟨hlocal, hremote⟩ := remove_maps hfind
      have hlookup : ∀ i f, (m.remove e.stream).imap (iid i f) =
          if decide (i ≠ e.id) then m.imap (iid i f) else none :=
        fun i f => congrFun hlocal (i, f)
      have hback : ∀ l f i, (m.remove e.stream).omap l = some (f, i) ↔
          m.omap l = some (f, i) ∧ i ≠ e.id := by
        intro l f i
        rw [← toRemote_eq, hremote, Option.filter_eq_some_iff, toRemote_eq, decide_eq_true_iff]
      refine ⟨fun e' he' hs => ?_, fun e' he' hs f => ?_, fun l f i hi => ?_⟩
      · obtain rfl := h.entries.eq_of_stream he' he hs
        refine ⟨fun hmem => ?_, fun f => by simp [hlookup], fun l f hl => ?_⟩
        · rw [remove_streams hfind] at hmem
          exact notMem_eraseP_of_nodup h.entries.streams e' hmem
        · exact ((hback l f _).mp hl).2 rfl
      · have hid : e'.id ≠ e.id := fun heq => hs (by rw [h.entries.eq_of_id he' he heq])
        simp [hlookup, hid]
      · rw [hback]
        exact and_iff_left fun heq => hi e he rfl heq.symm

/-- **The id maps stay a bijection.** In every state of every run within the range of
the packed keys the two maps are inverse to each other, distinct frames have distinct
local ids with the same source, local framesets stand for one remote frameset of one
stream, and lookups agree; a frame keeps its local id while its stream stays added, and
`remove` takes out exactly the entries of its stream. -/
theorem id_maps_stay_bijective {es fs : List (MuxEvent σ)} {m m' : Muxer σ}
    (run : Runs MuxStep {} es m) (run' : Runs MuxStep m fs m') (hrange : WithinRange (es ++ fs)) :
    m'.Bijective ∧ (∀ s, m'.RemovesOnly s) ∧
      ∀ e ∈ m.streams, (∀ ev ∈ fs, ev ≠ .remove e.stream) →
        ∀ f l, m.imap (Muxer.iid e.id f) = some l → m'.imap (Muxer.iid e.id f) = some l := by
  obtain ⟨h, hids⟩ := mapped_of_run (run.trans run') hrange
  have hsmall : m'.streamIds ≤ 2 ^ 15 := by
    rw [hids]
    exact hrange.added.le
  exact ⟨h.bijective hsmall hrange.framesets, h.removesOnly,
    fun e he hfs => (keeps_of_run run run' hrange he hfs).2⟩

/-- Two streams, references 0 and 1, and frame (3, 7) of the second. -/
def secondEntry : StreamEntry Nat := { id := 1, stream := 1 }

theorem id_maps_stay_bijective_second : ∃ m' : Muxer Nat, m'.Bijective ∧
    m'.imap (Muxer.iid 1 (FrameID.ofPair 3 7)) = some (FrameID.ofPair 0 7) := by
  have run : Runs MuxStep ({} : Muxer Nat) _ _ :=
    ((Runs.init.snoc (@MuxStep.add Nat _ _ 0 (by decide))).snoc
      (@MuxStep.add Nat _ _ 1 (by decide))).snoc
      (@MuxStep.packet Nat _ _ secondEntry ⟨40, 3, 7, Channel.kColour, 0, 0, 0⟩ {} (by decide))
  have run' : Runs MuxStep _ _ _ := Runs.init.snoc
    (@MuxStep.remove Nat _ (((({} : Muxer Nat).add 0 (-1)).add 1 (-1)).onPacket secondEntry
      ⟨40, 3, 7, Channel.kColour, 0, 0, 0⟩ {}).1 0)
  exact ⟨_, (id_maps_stay_bijective run run' ⟨by decide, by decide, by decide⟩).1, by decide⟩

end Runs

end BeyondProtocol
