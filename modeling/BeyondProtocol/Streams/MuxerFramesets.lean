import BeyondProtocol.Framework.Arrivals
import BeyondProtocol.Streams.MuxerMaps

/-!
# Fixed and dynamic framesets

A stream is added to a muxer with a frameset number of the caller's choice, or
without. The frames of a stream with a fixed frameset become the sources of that
frameset, numbered as they arrive; for the others each pair of stream and
frameset gets the next frameset number. Both kinds of numbers are kept in the
same `FrameID`, 24 bits for the frameset and 8 for the source, and in a packet 8
bits for each.

`Numbered` says in closed form what local id every delivered frame has: it is a
function of the order in which the packets arrived. What can go wrong is read
off that form.
-/

namespace BeyondProtocol

open Framework

/-! ## §1  Runs -/

inductive MixEvent (σ : Type) : Type where
  | add (s : σ) (fsid : Int)
  | packet (e : StreamEntry σ) (spkt : StreamPacket) (pkt : DataPacket)

variable {σ : Type}

/-- `add` makes no check. The callback of a packet belongs to an entry. -/
inductive MixStep : Muxer σ → MixEvent σ → Muxer σ → Prop where
  | add {m : Muxer σ} {s : σ} {fsid : Int} : MixStep m (.add s fsid) (m.add s fsid)
  | packet {m : Muxer σ} {e : StreamEntry σ} {spkt : StreamPacket} {pkt : DataPacket}
      (h : e ∈ m.streams) : MixStep m (.packet e spkt pkt) (m.onPacket e spkt pkt).1

namespace MixEvent

def isAdd : MixEvent σ → Bool
  | .add _ _ => true
  | .packet _ _ _ => false

/-- The frame a packet is for, with the entry that delivered it. -/
def delivery? : MixEvent σ → Option (StreamEntry σ × FrameID)
  | .add _ _ => none
  | .packet e spkt _ => some (e, spkt.frame)

end MixEvent

def mixAdds (es : List (MixEvent σ)) : Nat := es.countP MixEvent.isAdd

def deliveries (es : List (MixEvent σ)) : List (StreamEntry σ × FrameID) :=
  es.filterMap MixEvent.delivery?

/-- The framesets of streams without a fixed one, as they arrived. -/
def dynamicPairs (es : List (MixEvent σ)) : List (Nat × Nat) :=
  ((deliveries es).filter fun p => p.1.fixedFs < 0).map fun p => (p.1.id, p.2.frameset)

/-- The frames of streams with the fixed frameset `fsid`, as they arrived. -/
def fixedPairs (es : List (MixEvent σ)) (fsid : Int) : List (Nat × FrameID) :=
  ((deliveries es).filter fun p => p.1.fixedFs = fsid).map fun p => (p.1.id, p.2)

/-- The local id of a frame. -/
def localOf (es : List (MixEvent σ)) (e : StreamEntry σ) (f : FrameID) : FrameID :=
  if 0 ≤ e.fixedFs then
    FrameID.ofPair e.fixedFs.toNat (numberOf (e.id, f) (fixedPairs es e.fixedFs))
  else FrameID.ofPair (numberOf (e.id, f.frameset) (dynamicPairs es)) f.source

theorem deliveries_append (es es' : List (MixEvent σ)) :
    deliveries (es ++ es') = deliveries es ++ deliveries es' :=
  List.filterMap_append

theorem dynamicPairs_append (es es' : List (MixEvent σ)) :
    dynamicPairs (es ++ es') = dynamicPairs es ++ dynamicPairs es' := by
  simp [dynamicPairs, deliveries_append]

theorem fixedPairs_append (es es' : List (MixEvent σ)) (fsid : Int) :
    fixedPairs (es ++ es') fsid = fixedPairs es fsid ++ fixedPairs es' fsid := by
  simp [fixedPairs, deliveries_append]

theorem mem_dynamicPairs {es : List (MixEvent σ)} {e : StreamEntry σ} {f : FrameID}
    (h : (e, f) ∈ deliveries es) (hdyn : e.fixedFs < 0) : (e.id, f.frameset) ∈ dynamicPairs es :=
  List.mem_map.mpr ⟨(e, f), List.mem_filter.mpr ⟨h, by simpa using hdyn⟩, rfl⟩

theorem mem_fixedPairs {es : List (MixEvent σ)} {e : StreamEntry σ} {f : FrameID}
    (h : (e, f) ∈ deliveries es) : (e.id, f) ∈ fixedPairs es e.fixedFs :=
  List.mem_map.mpr ⟨(e, f), List.mem_filter.mpr ⟨h, by simp⟩, rfl⟩

/-- Later packets do not change a local id. -/
theorem localOf_append {es : List (MixEvent σ)} {e : StreamEntry σ} {f : FrameID}
    (h : (e, f) ∈ deliveries es) (es' : List (MixEvent σ)) :
    localOf (es ++ es') e f = localOf es e f := by
  unfold localOf
  rw [fixedPairs_append, dynamicPairs_append, numberOf_append (mem_fixedPairs h)]
  split_ifs with hfixed
  · rfl
  · rw [numberOf_append (mem_dynamicPairs h (by omega))]

/-! ## §2  The invariant -/

/-- There is room for the stream ids in the keys of `fsmap`, or it is not used. -/
def Room (es : List (MixEvent σ)) : Prop :=
  mixAdds es ≤ 2 ^ 16 ∨ ∀ s fsid, .add s fsid ∈ es → 0 ≤ fsid

structure Numbered (es : List (MixEvent σ)) (m : Muxer σ) : Prop where
  streamIds : m.streamIds = mixAdds es
  lt : ∀ e ∈ m.streams, e.id < m.streamIds
  nodup : (m.streams.map (·.id)).Nodup
  added : ∀ e ∈ m.streams, .add e.stream e.fixedFs ∈ es
  delivered : ∀ p ∈ deliveries es, p.1 ∈ m.streams ∧ p.2.frameset < 256
  sources : ∀ fsid, m.sourcecount fsid =
    if 0 ≤ fsid then arrived (fixedPairs es fsid) else 0
  framesets : m.framesets = arrived (dynamicPairs es)
  fsmap : ∀ i < 2 ^ 16, ∀ fs < 2 ^ 16, m.fsmap (Muxer.fsiid i fs) =
    if (i, fs) ∈ dynamicPairs es then some (numberOf (i, fs) (dynamicPairs es)) else none
  /-- A frame has a local id from its first packet on. -/
  mapped : ∀ e f, (e, f) ∈ deliveries es → m.toLocal (e.id, f) = some (localOf es e f)
  unmapped : ∀ i f, (∀ e, e.id = i → (e, f) ∉ deliveries es) → m.toLocal (i, f) = none
  /-- `omap` holds the last frame that got a local id. -/
  sound : ∀ l p, m.toRemote l = some p → m.toLocal p = some l
  total : ∀ l p, m.toLocal p = some l → m.toRemote l ≠ none

theorem numbered_start : Numbered [] ({} : Muxer σ) where
  streamIds := rfl
  lt e he := by cases he
  nodup := List.nodup_nil
  added e he := by cases he
  delivered p hp := by cases hp
  sources fsid := by simp [fixedPairs, deliveries, arrived]
  framesets := rfl
  fsmap i _ fs _ := by simp [dynamicPairs, deliveries]
  mapped e f h := by cases h
  unmapped i f _ := rfl
  sound l p h := by cases h
  total l p h := by cases h

namespace Numbered

variable {es : List (MixEvent σ)} {m : Muxer σ}

theorem eq_of_id (h : Numbered es m) {e e' : StreamEntry σ} (he : e ∈ m.streams)
    (he' : e' ∈ m.streams) (hid : e.id = e'.id) : e = e' :=
  List.inj_on_of_nodup_map h.nodup he he' hid

theorem entryAt (h : Numbered es m) {e : StreamEntry σ} (he : e ∈ m.streams) :
    m.entryAt e.id = .ok e := by
  rw [Muxer.entryAt, Muxer.find?_of_nodup h.nodup he]

/-- What has a local id was delivered. -/
theorem delivered_of_toLocal (h : Numbered es m) {i : Nat} {f l : FrameID}
    (hl : m.toLocal (i, f) = some l) : ∃ e, e.id = i ∧ (e, f) ∈ deliveries es := by
  by_contra hnone
  push Not at hnone
  rw [h.unmapped i f hnone] at hl
  cases hl

theorem delivered_iff (h : Numbered es m) {e : StreamEntry σ} (he : e ∈ m.streams)
    {f : FrameID} : (e, f) ∈ deliveries es ↔ m.toLocal (e.id, f) ≠ none := by
  constructor
  · intro hmem
    rw [h.mapped e f hmem]
    nofun
  · intro hsome
    obtain ⟨l, hl⟩ := Option.ne_none_iff_exists'.mp hsome
    obtain ⟨e', hid, hmem⟩ := h.delivered_of_toLocal hl
    obtain rfl := h.eq_of_id (h.delivered _ hmem).1 he hid
    exact hmem

theorem add (h : Numbered es m) (s : σ) (fsid : Int) :
    Numbered (es ++ [MixEvent.add s fsid]) (m.add s fsid) := by
  have hdel : deliveries (es ++ [MixEvent.add s fsid]) = deliveries es := by
    simp [deliveries, MixEvent.delivery?]
  have hdyn : dynamicPairs (es ++ [MixEvent.add s fsid]) = dynamicPairs es := by
    rw [dynamicPairs, hdel, dynamicPairs]
  have hfixed : ∀ k, fixedPairs (es ++ [MixEvent.add s fsid]) k = fixedPairs es k := by
    intro k
    rw [fixedPairs, hdel, fixedPairs]
  refine
    { streamIds := ?_
      lt := ?_
      nodup := ?_
      added := ?_
      delivered := ?_
      sources := fun k => by rw [hfixed]; exact h.sources k
      framesets := by rw [hdyn]; exact h.framesets
      fsmap := fun i hi fs hfs => by rw [hdyn]; exact h.fsmap i hi fs hfs
      mapped := ?_
      unmapped := fun i f hi => h.unmapped i f fun e he => hdel ▸ hi e he
      sound := h.sound
      total := h.total }
  · simp [Muxer.add, mixAdds, MixEvent.isAdd, h.streamIds]
  · intro e he
    simp only [Muxer.add, List.mem_append, List.mem_singleton] at he ⊢
    rcases he with he | rfl
    · exact (h.lt e he).trans (Nat.lt_succ_self _)
    · exact Nat.lt_succ_self _
  · simp only [Muxer.add, List.map_append, List.map_cons, List.map_nil]
    refine List.nodup_append.mpr ⟨h.nodup, List.nodup_singleton _, ?_⟩
    rintro i hi j hj rfl
    obtain ⟨e, he, rfl⟩ := List.mem_map.mp hi
    rw [List.mem_singleton] at hj
    exact absurd hj (h.lt e he).ne
  · intro e he
    simp only [Muxer.add, List.mem_append, List.mem_singleton] at he ⊢
    rcases he with he | rfl
    · exact .inl (h.added e he)
    · exact .inr rfl
  · intro p hp
    obtain ⟨hmem, hlt⟩ := h.delivered p (hdel ▸ hp)
    exact ⟨List.mem_append_left _ hmem, hlt⟩
  · intro e f hmem
    rw [localOf_append (hdel ▸ hmem)]
    exact h.mapped e f (hdel ▸ hmem)

section Packet

variable {e : StreamEntry σ} {spkt : StreamPacket} {pkt : DataPacket}

theorem deliveries_packet :
    deliveries (es ++ [MixEvent.packet e spkt pkt]) = deliveries es ++ [(e, spkt.frame)] := by
  rw [deliveries_append]
  rfl

theorem fixedPairs_packet (k : Int) :
    fixedPairs (es ++ [MixEvent.packet e spkt pkt]) k =
      fixedPairs es k ++ if e.fixedFs = k then [(e.id, spkt.frame)] else [] := by
  rw [fixedPairs_append]
  congr 1
  by_cases hk : e.fixedFs = k <;> simp [fixedPairs, deliveries, MixEvent.delivery?, hk]

theorem dynamicPairs_packet :
    dynamicPairs (es ++ [MixEvent.packet e spkt pkt]) =
      dynamicPairs es ++ if e.fixedFs < 0 then [(e.id, spkt.frame.frameset)] else [] := by
  rw [dynamicPairs_append]
  congr 1
  by_cases hk : e.fixedFs < 0 <;> simp [dynamicPairs, deliveries, MixEvent.delivery?, hk]

/-- What is left to show about a packet: the counters, and the entries of the maps
for its frame. -/
theorem packet_of (h : Numbered es m) (he : e ∈ m.streams) {m' : Muxer σ}
    (hstreams : m'.streams = m.streams) (hids : m'.streamIds = m.streamIds)
    (hsources : ∀ k, m'.sourcecount k =
      if 0 ≤ k then arrived (fixedPairs (es ++ [MixEvent.packet e spkt pkt]) k) else 0)
    (hframesets : m'.framesets = arrived (dynamicPairs (es ++ [MixEvent.packet e spkt pkt])))
    (hfsmap : ∀ i < 2 ^ 16, ∀ fs < 2 ^ 16, m'.fsmap (Muxer.fsiid i fs) =
      if (i, fs) ∈ dynamicPairs (es ++ [MixEvent.packet e spkt pkt]) then
        some (numberOf (i, fs) (dynamicPairs (es ++ [MixEvent.packet e spkt pkt]))) else none)
    (hlocal : m'.toLocal (e.id, spkt.frame) =
      some (localOf (es ++ [MixEvent.packet e spkt pkt]) e spkt.frame))
    (hother : ∀ p, p ≠ (e.id, spkt.frame) → m'.toLocal p = m.toLocal p)
    (hsound : ∀ l p, m'.toRemote l = some p → m'.toLocal p = some l)
    (htotal : ∀ l p, m'.toLocal p = some l → m'.toRemote l ≠ none) :
    Numbered (es ++ [MixEvent.packet e spkt pkt]) m' := by
  refine
    { streamIds := by rw [hids, h.streamIds]; simp [mixAdds, MixEvent.isAdd]
      lt := fun e' he' => by rw [hids]; exact h.lt e' (hstreams ▸ he')
      nodup := by rw [hstreams]; exact h.nodup
      added := fun e' he' => List.mem_append_left _ (h.added e' (hstreams ▸ he'))
      delivered := ?_
      sources := hsources
      framesets := hframesets
      fsmap := hfsmap
      mapped := ?_
      unmapped := ?_
      sound := hsound
      total := htotal }
  · intro p hp
    rw [deliveries_packet, List.mem_append, List.mem_singleton] at hp
    rw [hstreams]
    rcases hp with hp | rfl
    · exact h.delivered p hp
    · refine ⟨he, ?_⟩
      rw [StreamPacket.frame_frameset]
      exact spkt.streamID.toNat_lt
  · intro e' f hmem
    rw [deliveries_packet, List.mem_append, List.mem_singleton] at hmem
    by_cases hsame : (e'.id, f) = (e.id, spkt.frame)
    · obtain ⟨hid, rfl⟩ := Prod.mk.inj hsame
      have he' : e' ∈ m.streams := by
        rcases hmem with hmem | hmem
        · exact (h.delivered _ hmem).1
        · rw [(Prod.mk.inj hmem).1]
          exact he
      obtain rfl := h.eq_of_id he' he hid
      exact hlocal
    · have hold : (e', f) ∈ deliveries es := by
        refine hmem.resolve_right fun heq => hsame ?_
        obtain ⟨rfl, rfl⟩ := Prod.mk.inj heq
        rfl
      rw [hother _ hsame, localOf_append hold]
      exact h.mapped e' f hold
  · intro i f hnone
    rw [deliveries_packet] at hnone
    rw [hother]
    · exact h.unmapped i f fun e' he' hmem => hnone e' he' (List.mem_append_left _ hmem)
    · intro heq
      obtain ⟨hid, rfl⟩ := Prod.mk.inj heq
      exact hnone e hid.symm (by simp)

theorem mem_fixedPairs_iff (h : Numbered es m) (he : e ∈ m.streams) {f : FrameID} :
    (e.id, f) ∈ fixedPairs es e.fixedFs ↔ (e, f) ∈ deliveries es := by
  refine ⟨fun hmem => ?_, mem_fixedPairs⟩
  obtain ⟨⟨e', f'⟩, hp, heq⟩ := List.mem_map.mp hmem
  obtain ⟨hid, rfl⟩ := Prod.mk.inj heq
  have hmem' := (List.mem_filter.mp hp).1
  obtain rfl := h.eq_of_id (h.delivered _ hmem').1 he hid
  exact hmem'

/-- The maps after a frame has got its local id. -/
theorem maps_new (h : Numbered es m) (hnone : m.imap (Muxer.iid e.id spkt.frame) = none) :
    (∀ p, p ≠ (e.id, spkt.frame) →
        (m.mapFromInput e spkt.frame).1.toLocal p = m.toLocal p) ∧
      (∀ l p, (m.mapFromInput e spkt.frame).1.toRemote l = some p →
        (m.mapFromInput e spkt.frame).1.toLocal p = some l) ∧
      ∀ l p, (m.mapFromInput e spkt.frame).1.toLocal p = some l →
        (m.mapFromInput e spkt.frame).1.toRemote l ≠ none := by
  rw [Muxer.toLocal_new hnone, Muxer.toRemote_new hnone]
  refine ⟨fun p hp => Function.update_of_ne hp _ _, fun l p hl => ?_, fun l p hl => ?_⟩
  · simp only [Function.update_apply] at hl ⊢
    split_ifs at hl with heq
    · cases hl
      rw [if_pos rfl, heq]
    · have hold := h.sound l p hl
      rw [if_neg]
      · exact hold
      · rintro rfl
        rw [Muxer.toLocal, hnone] at hold
        cases hold
  · simp only [Function.update_apply] at hl ⊢
    by_cases hnew : l = (m.mapFromInput e spkt.frame).2
    · rw [if_pos hnew]
      exact Option.some_ne_none _
    · rw [if_neg hnew]
      split_ifs at hl
      · exact absurd (Option.some.inj hl).symm hnew
      · exact h.total l p hl

/-- A packet of a frame that has a local id changes nothing. -/
theorem packet_old (h : Numbered es m) (he : e ∈ m.streams)
    (hmem : (e, spkt.frame) ∈ deliveries es) : Numbered (es ++ [MixEvent.packet e spkt pkt]) m := by
  have hfixed : ∀ k, arrived (fixedPairs (es ++ [MixEvent.packet e spkt pkt]) k) =
      arrived (fixedPairs es k) := by
    intro k
    rw [fixedPairs_packet]
    split_ifs with hk
    · rw [arrived_snoc, if_pos (hk ▸ mem_fixedPairs hmem)]
    · rw [List.append_nil]
  have hdyn : dynamicPairs (es ++ [MixEvent.packet e spkt pkt]) = dynamicPairs es ∨
      (e.id, spkt.frame.frameset) ∈ dynamicPairs es ∧
        dynamicPairs (es ++ [MixEvent.packet e spkt pkt]) =
          dynamicPairs es ++ [(e.id, spkt.frame.frameset)] := by
    rw [dynamicPairs_packet]
    split_ifs with hk
    · exact .inr ⟨mem_dynamicPairs hmem hk, rfl⟩
    · exact .inl (List.append_nil _)
  refine h.packet_of he rfl rfl (fun k => by rw [hfixed]; exact h.sources k) ?_ ?_ ?_
    (fun _ _ => rfl) h.sound h.total
  · rcases hdyn with hdyn | ⟨hin, hdyn⟩ <;> rw [hdyn]
    · exact h.framesets
    · rw [arrived_snoc, if_pos hin]
      exact h.framesets
  · intro i hi fs hfs
    rw [h.fsmap i hi fs hfs]
    rcases hdyn with hdyn | ⟨hin, hdyn⟩ <;> rw [hdyn]
    by_cases hp : (i, fs) ∈ dynamicPairs es
    · rw [if_pos hp, if_pos (List.mem_append_left _ hp), numberOf_append hp]
    · rw [if_neg hp, if_neg]
      rw [List.mem_append, List.mem_singleton, not_or]
      exact ⟨hp, fun heq => hp (heq ▸ hin)⟩
  · rw [localOf_append hmem]
    exact h.mapped e _ hmem

/-- A new frame of a stream with a fixed frameset is its next source. -/
theorem packet_fixed (h : Numbered es m) (he : e ∈ m.streams) (hfixed : 0 ≤ e.fixedFs)
    (hnone : m.imap (Muxer.iid e.id spkt.frame) = none) :
    Numbered (es ++ [MixEvent.packet e spkt pkt]) (m.mapFromInput e spkt.frame).1 := by
  have hnew : (e.id, spkt.frame) ∉ fixedPairs es e.fixedFs := by
    rw [h.mem_fixedPairs_iff he, h.delivered_iff he, not_not]
    exact hnone
  have hdyn : dynamicPairs (es ++ [MixEvent.packet e spkt pkt]) = dynamicPairs es := by
    rw [dynamicPairs_packet, if_neg (by omega), List.append_nil]
  have hmap : m.mapFromInput e spkt.frame = ({ m with
      sourcecount := Function.update m.sourcecount e.fixedFs (m.sourcecount e.fixedFs + 1)
      imap := Function.update m.imap (Muxer.iid e.id spkt.frame)
        (some (FrameID.ofPair e.fixedFs.toNat (m.sourcecount e.fixedFs)))
      omap := Function.update m.omap (FrameID.ofPair e.fixedFs.toNat (m.sourcecount e.fixedFs))
        (some (spkt.frame, e.id)) },
      FrameID.ofPair e.fixedFs.toNat (m.sourcecount e.fixedFs)) := by
    simp only [Muxer.mapFromInput, hnone, Muxer.allocate, if_pos hfixed]
  obtain ⟨hother, hsound, htotal⟩ := h.maps_new hnone
  refine h.packet_of he (by rw [hmap]) (by rw [hmap]) ?_ ?_ ?_ ?_ hother hsound htotal
  · intro k
    rw [hmap, fixedPairs_packet]
    simp only [Function.update_apply, h.sources]
    by_cases hk : k = e.fixedFs
    · subst hk
      rw [if_pos rfl, if_pos hfixed, if_pos rfl, if_pos hfixed, arrived_snoc, if_neg hnew]
    · rw [if_neg hk, if_neg (Ne.symm hk), List.append_nil]
  · rw [hmap, hdyn]
    exact h.framesets
  · rw [hmap, hdyn]
    exact h.fsmap
  · rw [Muxer.toLocal_mapFromInput, hmap, localOf, if_pos hfixed, fixedPairs_packet, if_pos rfl,
      numberOf_new hnew, h.sources, if_pos hfixed]

/-- A new frame of another stream goes to the frameset of its pair, the next one if
the pair is new. -/
theorem packet_dynamic (h : Numbered es m) (hroom : m.streamIds ≤ 2 ^ 16) (he : e ∈ m.streams)
    (hdyn : e.fixedFs < 0) (hnone : m.imap (Muxer.iid e.id spkt.frame) = none) :
    Numbered (es ++ [MixEvent.packet e spkt pkt]) (m.mapFromInput e spkt.frame).1 := by
  have hid : e.id < 2 ^ 16 := (h.lt e he).trans_le hroom
  have hfs : spkt.frame.frameset < 2 ^ 16 := by
    have := spkt.streamID.toNat_lt
    rw [StreamPacket.frame_frameset]
    omega
  have hpairs : dynamicPairs (es ++ [MixEvent.packet e spkt pkt]) =
      dynamicPairs es ++ [(e.id, spkt.frame.frameset)] := by
    rw [dynamicPairs_packet, if_pos hdyn]
  have hmap : m.mapFromInput e spkt.frame = ({ m with
      fsmap := (m.mapFrameset e.id spkt.frame.frameset).1.fsmap
      framesets := (m.mapFrameset e.id spkt.frame.frameset).1.framesets
      imap := Function.update m.imap (Muxer.iid e.id spkt.frame) (some (FrameID.ofPair
        (m.mapFrameset e.id spkt.frame.frameset).2 spkt.frame.source))
      omap := Function.update m.omap (FrameID.ofPair
        (m.mapFrameset e.id spkt.frame.frameset).2 spkt.frame.source)
          (some (spkt.frame, e.id)) },
      FrameID.ofPair (m.mapFrameset e.id spkt.frame.frameset).2 spkt.frame.source) := by
    simp only [Muxer.mapFromInput, hnone, Muxer.allocate, if_neg (Int.not_le.mpr hdyn),
      Muxer.mapFrameset]
    cases m.fsmap (Muxer.fsiid e.id spkt.frame.frameset) <;> rfl
  have hkey := h.fsmap e.id hid spkt.frame.frameset hfs
  obtain ⟨hother, hsound, htotal⟩ := h.maps_new hnone
  have hsources : ∀ k, m.sourcecount k =
      if 0 ≤ k then arrived (fixedPairs (es ++ [MixEvent.packet e spkt pkt]) k) else 0 := by
    intro k
    rw [h.sources, fixedPairs_packet]
    split_ifs with hk hek
    · omega
    · rw [List.append_nil]
    · rfl
  by_cases hin : (e.id, spkt.frame.frameset) ∈ dynamicPairs es
  · -- the pair has its number
    rw [if_pos hin] at hkey
    have hold : m.mapFrameset e.id spkt.frame.frameset =
        (m, numberOf (e.id, spkt.frame.frameset) (dynamicPairs es)) := by
      simp only [Muxer.mapFrameset, hkey]
    rw [hold] at hmap
    refine h.packet_of he (by rw [hmap]) (by rw [hmap]) (by rw [hmap]; exact hsources) ?_ ?_ ?_
      hother hsound htotal
    · rw [hmap, hpairs, arrived_snoc, if_pos hin]
      exact h.framesets
    · intro i hi fs hfs
      rw [hmap, hpairs]
      simp only [h.fsmap i hi fs hfs]
      by_cases hp : (i, fs) ∈ dynamicPairs es
      · rw [if_pos hp, if_pos (List.mem_append_left _ hp), numberOf_append hp]
      · rw [if_neg hp, if_neg]
        rw [List.mem_append, List.mem_singleton, not_or]
        exact ⟨hp, fun heq => hp (heq ▸ hin)⟩
    · rw [Muxer.toLocal_mapFromInput, hmap, localOf, if_neg (Int.not_le.mpr hdyn), hpairs,
        numberOf_append hin]
  · -- the pair gets the next number
    rw [if_neg hin] at hkey
    have hnew : m.mapFrameset e.id spkt.frame.frameset = ({ m with
        fsmap := Function.update m.fsmap (Muxer.fsiid e.id spkt.frame.frameset)
          (some m.framesets)
        framesets := m.framesets + 1 }, m.framesets) := by
      simp only [Muxer.mapFrameset, hkey]
    rw [hnew] at hmap
    refine h.packet_of he (by rw [hmap]) (by rw [hmap]) (by rw [hmap]; exact hsources) ?_ ?_ ?_
      hother hsound htotal
    · rw [hmap, hpairs, arrived_snoc, if_neg hin]
      exact congrArg (· + 1) h.framesets
    · intro i hi fs hfs'
      rw [hmap, hpairs]
      simp only [Function.update_apply]
      by_cases hp : (i, fs) = (e.id, spkt.frame.frameset)
      · obtain ⟨rfl, rfl⟩ := Prod.mk.inj hp
        rw [if_pos rfl, if_pos (by simp), numberOf_new hin, h.framesets]
      · have hne : Muxer.fsiid i fs ≠ Muxer.fsiid e.id spkt.frame.frameset := by
          intro heq
          obtain ⟨rfl, rfl⟩ := Muxer.fsiid_inj hi hid hfs' hfs heq
          exact hp rfl
        rw [if_neg hne, h.fsmap i hi fs hfs']
        by_cases hold : (i, fs) ∈ dynamicPairs es
        · rw [if_pos hold, if_pos (List.mem_append_left _ hold), numberOf_append hold]
        · rw [if_neg hold, if_neg]
          rw [List.mem_append, List.mem_singleton, not_or]
          exact ⟨hold, hp⟩
    · rw [Muxer.toLocal_mapFromInput, hmap, localOf, if_neg (Int.not_le.mpr hdyn), hpairs,
        numberOf_new hin, h.framesets]

end Packet

end Numbered

theorem Room.of_append {es es' : List (MixEvent σ)} (h : Room (es ++ es')) : Room es := by
  rcases h with h | h
  · left
    unfold mixAdds at h ⊢
    rw [List.countP_append] at h
    omega
  · exact .inr fun s fsid hmem => h s fsid (List.mem_append_left _ hmem)

/-- **Local ids by order of arrival**, in every state of every run. -/
theorem numbered_of_run {es : List (MixEvent σ)} {m : Muxer σ} (run : Runs MixStep {} es m)
    (hroom : Room es) : Numbered es m := by
  refine run.invariant_hist (I := fun es m => Room es → Numbered es m)
    (fun _ => numbered_start) ?_ hroom
  intro es m ev m' ih hstep hroom
  have h := ih hroom.of_append
  cases hstep with
  | @add s fsid => exact h.add s fsid
  | @packet e spkt pkt he =>
      show Numbered _ (m.mapFromInput e spkt.frame).1
      cases hmap : m.imap (Muxer.iid e.id spkt.frame) with
      | some l =>
          rw [Muxer.mapFromInput_old hmap]
          refine h.packet_old he ((h.delivered_iff he).mpr ?_)
          rw [Muxer.toLocal, hmap]
          exact Option.some_ne_none l
      | none =>
          by_cases hfixed : 0 ≤ e.fixedFs
          · exact h.packet_fixed he hfixed hmap
          · have hadds : mixAdds es ≤ 2 ^ 16 := by
              rcases hroom.of_append with hadds | hnone
              · exact hadds
              · exact absurd (hnone _ _ (h.added e he)) hfixed
            exact h.packet_dynamic (h.streamIds ▸ hadds) he (by omega) hmap

/-! ## §3  One id space for two allocators -/

namespace Numbered

variable {es : List (MixEvent σ)} {m : Muxer σ}

/-- The packed keys have room for all pairs of stream and frameset. -/
theorem arrived_le (h : Numbered es m) (hadds : mixAdds es ≤ 2 ^ 16) :
    arrived (dynamicPairs es) ≤ 2 ^ 24 := by
  have hsub : ∀ p ∈ dynamicPairs es, p.1 < 2 ^ 16 ∧ p.2 < 2 ^ 8 := by
    intro p hp
    obtain ⟨q, hq, rfl⟩ := List.mem_map.mp hp
    obtain ⟨hmem, hlt⟩ := h.delivered q (List.mem_filter.mp hq).1
    have hid := h.lt _ hmem
    rw [h.streamIds] at hid
    exact ⟨hid.trans_le hadds, hlt⟩
  calc
    arrived (dynamicPairs es) ≤ 2 ^ 16 * 2 ^ 8 := arrived_le_mul hsub
    _ = 2 ^ 24 := by norm_num

theorem frameset_dynamic (h : Numbered es m) (hadds : mixAdds es ≤ 2 ^ 16) {e : StreamEntry σ}
    {f : FrameID} (hmem : (e, f) ∈ deliveries es) (hdyn : e.fixedFs < 0) :
    (localOf es e f).frameset = numberOf (e.id, f.frameset) (dynamicPairs es) ∧
      (localOf es e f).source = f.source := by
  have hlt := numberOf_lt (mem_dynamicPairs hmem hdyn)
  rw [localOf, if_neg (by omega)]
  constructor
  · exact FrameID.frameset_ofPair (hlt.trans_le (h.arrived_le hadds)) _
  · rw [FrameID.source_ofPair, Nat.mod_eq_of_lt f.source_lt]

theorem frameset_fixed {e : StreamEntry σ} (f : FrameID) (hfixed : 0 ≤ e.fixedFs) :
    (localOf es e f).frameset = e.fixedFs.toNat % 2 ^ 24 := by
  rw [localOf, if_pos hfixed, FrameID.frameset_ofPair_mod]

/-- What `originStream` and `post` find under a local id. -/
theorem reached (h : Numbered es m) {p : Nat × FrameID} {l : FrameID}
    (hl : m.toLocal p = some l) :
    ∃ e f, (e, f) ∈ deliveries es ∧ m.toLocal (e.id, f) = some l ∧
      m.originStream l = .ok (some e.stream) ∧ m.findRemote l = .ok f ∧
      ∀ spkt pkt, spkt.frame = l → m.post spkt pkt = .ok (some (e.stream, { spkt with
        streamID := UInt8.ofNat f.frameset
        frameNumber := UInt8.ofNat f.source }, pkt)) := by
  obtain ⟨⟨i, f⟩, hrem⟩ := Option.ne_none_iff_exists'.mp (h.total l p hl)
  have hloc := h.sound l _ hrem
  obtain ⟨e, rfl, hmem⟩ := h.delivered_of_toLocal hloc
  have hentry := h.entryAt (h.delivered _ hmem).1
  have homap := Muxer.toRemote_eq.mp hrem
  refine ⟨e, f, hmem, hloc, ?_, ?_, ?_⟩
  · simp only [Muxer.originStream, Muxer.mapToOutput, homap, hentry, ok_bind]
    rfl
  · simp only [Muxer.findRemote, Muxer.mapToOutput, homap]
  · rintro spkt pkt rfl
    simp only [Muxer.post, Muxer.mapToOutput, homap, hentry, ok_bind]
    rfl

end Numbered

/-- Two streams of which one has no fixed frameset have no local id in common, and
framesets that are given out are not fixed ones; what is posted under a local id goes
to a stream that has it. -/
structure Muxer.NoCollision (m : Muxer σ) : Prop where
  owners : ∀ e ∈ m.streams, ∀ e' ∈ m.streams, e ≠ e' → (e.fixedFs < 0 ∨ e'.fixedFs < 0) →
    ∀ f f' l, m.toLocal (e.id, f) = some l → m.toLocal (e'.id, f') ≠ some l
  framesets : ∀ e ∈ m.streams, ∀ e' ∈ m.streams, e.fixedFs < 0 → 0 ≤ e'.fixedFs →
    ∀ f f' l l', m.toLocal (e.id, f) = some l → m.toLocal (e'.id, f') = some l' →
      l.frameset ≠ l'.frameset
  /-- Only two streams with fixed framesets can have the same local id. -/
  origin : ∀ e ∈ m.streams, ∀ f l, m.toLocal (e.id, f) = some l →
    ∃ e' ∈ m.streams, (e' = e ∨ 0 ≤ e.fixedFs ∧ 0 ≤ e'.fixedFs) ∧
      (∃ f', m.toLocal (e'.id, f') = some l) ∧ m.originStream l = .ok (some e'.stream) ∧
      ∀ spkt pkt, spkt.frame = l → ∃ out, m.post spkt pkt = .ok (some (e'.stream, out))

/-- **When the two allocators keep apart**: in every run, exactly when every fixed
frameset in use lies above the framesets given out. -/
theorem framesets_never_collide_iff {es : List (MixEvent σ)} {m : Muxer σ}
    (run : Runs MixStep {} es m) (hadds : mixAdds es ≤ 2 ^ 16) :
    m.NoCollision ↔ ∀ p ∈ deliveries es, 0 ≤ p.1.fixedFs →
      arrived (dynamicPairs es) ≤ p.1.fixedFs.toNat % 2 ^ 24 := by
  have h := numbered_of_run run (.inl hadds)
  constructor
  · rintro hno ⟨e', f'⟩ hmem' hfixed
    by_contra hlt
    simp only at hfixed hlt
    -- the pair that was given the number of the fixed frameset
    obtain ⟨⟨i, fs⟩, hpair, hnum⟩ := exists_numberOf (Nat.not_le.mp hlt)
    obtain ⟨⟨e, f⟩, hq, heq⟩ := List.mem_map.mp hpair
    obtain ⟨hmem, hdyn⟩ := List.mem_filter.mp hq
    have hdyn : e.fixedFs < 0 := by simpa using hdyn
    obtain ⟨rfl, rfl⟩ := Prod.mk.inj heq
    refine hno.framesets e (h.delivered _ hmem).1 e' (h.delivered _ hmem').1 hdyn hfixed f f' _ _
      (h.mapped e f hmem) (h.mapped e' f' hmem') ?_
    rw [(h.frameset_dynamic hadds hmem hdyn).1, Numbered.frameset_fixed f' hfixed]
    exact hnum
  · intro hapart
    have hframesets : ∀ e ∈ m.streams, ∀ e' ∈ m.streams, e.fixedFs < 0 → 0 ≤ e'.fixedFs →
        ∀ f f' l l', m.toLocal (e.id, f) = some l → m.toLocal (e'.id, f') = some l' →
          l.frameset ≠ l'.frameset := by
      intro e he e' he' hdyn hfixed f f' l l' hl hl' heq
      have hmem := (h.delivered_iff he).mpr (by rw [hl]; nofun)
      have hmem' := (h.delivered_iff he').mpr (by rw [hl']; nofun)
      have hlt := numberOf_lt (mem_dynamicPairs hmem hdyn)
      have hle := hapart _ hmem' hfixed
      rw [h.mapped e f hmem] at hl
      rw [h.mapped e' f' hmem'] at hl'
      cases hl
      cases hl'
      rw [(h.frameset_dynamic hadds hmem hdyn).1, Numbered.frameset_fixed f' hfixed] at heq
      simp only at hle
      omega
    have howners : ∀ e ∈ m.streams, ∀ e' ∈ m.streams, e ≠ e' →
        (e.fixedFs < 0 ∨ e'.fixedFs < 0) → ∀ f f' l, m.toLocal (e.id, f) = some l →
          m.toLocal (e'.id, f') ≠ some l := by
      intro e he e' he' hne hdyn f f' l hl hl'
      by_cases hfixed : 0 ≤ e.fixedFs
      · exact hframesets e' he' e he (by omega) hfixed f' f l l hl' hl rfl
      by_cases hfixed' : 0 ≤ e'.fixedFs
      · exact hframesets e he e' he' (by omega) hfixed' f f' l l hl hl' rfl
      -- two pairs with one number are one pair
      have hmem := (h.delivered_iff he).mpr (by rw [hl]; nofun)
      have hmem' := (h.delivered_iff he').mpr (by rw [hl']; nofun)
      rw [h.mapped e f hmem] at hl
      rw [h.mapped e' f' hmem'] at hl'
      have heq := congrArg FrameID.frameset (Option.some.inj (hl.trans hl'.symm))
      rw [(h.frameset_dynamic hadds hmem (by omega)).1,
        (h.frameset_dynamic hadds hmem' (by omega)).1,
        numberOf_inj (mem_dynamicPairs hmem (by omega))] at heq
      exact hne (h.eq_of_id he he' (Prod.mk.inj heq).1)
    refine ⟨howners, hframesets, fun e he f l hl => ?_⟩
    obtain ⟨e', f', hmem', hl', horigin, -, hpost⟩ := h.reached hl
    have he' := (h.delivered _ hmem').1
    refine ⟨e', he', ?_, ⟨f', hl'⟩, horigin, fun spkt pkt hspkt => ⟨_, hpost spkt pkt hspkt⟩⟩
    by_cases hsame : e' = e
    · exact .inl hsame
    · by_contra hnot
      exact howners e he e' he' (Ne.symm hsame) (by omega) f f' l hl hl'

/-- A packet of frame (`fs`, `n`). -/
def framePacket (fs n : UInt8) : StreamPacket := ⟨40, fs, n, Channel.kColour, 0, 0, 0⟩

/-- The first stream, without a fixed frameset. -/
def dynamicEntry : StreamEntry Nat := { id := 0, stream := 0 }

/-- The second stream, fixed to frameset `k`. -/
def fixedEntry (k : Nat) : StreamEntry Nat := { id := 1, stream := 1, fixedFs := k }

/-- Both streams deliver a packet of their frame (0, 0). -/
def mixedEvents (k : Nat) : List (MixEvent Nat) :=
  [.add 0 (-1), .add 1 k, .packet dynamicEntry (framePacket 0 0) {},
    .packet (fixedEntry k) (framePacket 0 0) {}]

def mixedMuxer (k : Nat) : Muxer Nat :=
  ((((({} : Muxer Nat).add 0 (-1)).add 1 k).onPacket dynamicEntry (framePacket 0 0) {}).1.onPacket
    (fixedEntry k) (framePacket 0 0) {}).1

theorem mixedEvents_run (k : Nat) : Runs MixStep {} (mixedEvents k) (mixedMuxer k) := by
  have run₂ := (Runs.init.snoc (@MixStep.add Nat {} 0 (-1))).snoc (@MixStep.add Nat _ 1 k)
  have run₃ := run₂.snoc (@MixStep.packet Nat _ dynamicEntry (framePacket 0 0) {}
    (by simp [Muxer.add, dynamicEntry]))
  refine run₃.snoc (@MixStep.packet Nat _ (fixedEntry k) (framePacket 0 0) {} ?_)
  simp [Muxer.onPacket, Muxer.mapFromInput, Muxer.allocate, Muxer.mapFrameset, Muxer.add,
    fixedEntry, dynamicEntry]

theorem framesets_never_collide_seven : (mixedMuxer 7).NoCollision :=
  (framesets_never_collide_iff (mixedEvents_run 7) (by decide)).mpr (by decide)

/-- Fixed to frameset 0, the second stream takes over the local id of the first. -/
theorem fixed_frameset_takes_dynamic_id :
    (mixedMuxer 0).toLocal (0, FrameID.ofPair 0 0) = some (FrameID.ofPair 0 0) ∧
      (mixedMuxer 0).toLocal (1, FrameID.ofPair 0 0) = some (FrameID.ofPair 0 0) ∧
      (mixedMuxer 0).originStream (FrameID.ofPair 0 0) = .ok (some 1) ∧
      ¬ (mixedMuxer 0).NoCollision := by
  have h₀ : (mixedMuxer 0).toLocal (0, FrameID.ofPair 0 0) = some (FrameID.ofPair 0 0) := by
    decide
  have h₁ : (mixedMuxer 0).toLocal (1, FrameID.ofPair 0 0) = some (FrameID.ofPair 0 0) := by
    decide
  refine ⟨h₀, h₁, by decide, fun hno => ?_⟩
  exact hno.owners dynamicEntry (by decide) (fixedEntry 0) (by decide) (by decide)
    (.inl (by decide)) _ _ _ h₀ h₁

/-! ## §4  Through eight bits and back -/

theorem Numbered.dynamic_of_adds {es : List (MixEvent σ)} {m : Muxer σ} (h : Numbered es m)
    (hdyn : ∀ s fsid, .add s fsid ∈ es → fsid < 0) {e : StreamEntry σ} (he : e ∈ m.streams) :
    e.fixedFs < 0 :=
  hdyn _ _ (h.added e he)

/-- Frames of streams without fixed framesets have distinct local ids. -/
theorem Numbered.dynamic_inj {es : List (MixEvent σ)} {m : Muxer σ} (h : Numbered es m)
    (hadds : mixAdds es ≤ 2 ^ 16) {e e' : StreamEntry σ} {f f' : FrameID}
    (hmem : (e, f) ∈ deliveries es) (hmem' : (e', f') ∈ deliveries es) (hdyn : e.fixedFs < 0)
    (hdyn' : e'.fixedFs < 0) (heq : localOf es e f = localOf es e' f') : e = e' ∧ f = f' := by
  obtain ⟨hfs, hsrc⟩ := h.frameset_dynamic hadds hmem hdyn
  obtain ⟨hfs', hsrc'⟩ := h.frameset_dynamic hadds hmem' hdyn'
  have hnum := congrArg FrameID.frameset heq
  rw [hfs, hfs', numberOf_inj (mem_dynamicPairs hmem hdyn)] at hnum
  obtain ⟨hid, hframeset⟩ := Prod.mk.inj hnum
  have hsource := congrArg FrameID.source heq
  rw [hsrc, hsrc'] at hsource
  exact ⟨h.eq_of_id (h.delivered _ hmem).1 (h.delivered _ hmem').1 hid,
    FrameID.ext_parts hframeset hsource⟩

/-- A packet as the muxer reports it carries the number of its pair, cut to eight bits. -/
theorem Numbered.report {es : List (MixEvent σ)} {m : Muxer σ} {e : StreamEntry σ}
    {spkt : StreamPacket} {pkt : DataPacket}
    (h : Numbered (es ++ [MixEvent.packet e spkt pkt]) (m.onPacket e spkt pkt).1)
    (hadds : mixAdds (es ++ [MixEvent.packet e spkt pkt]) ≤ 2 ^ 16) (hdyn : e.fixedFs < 0) :
    (m.onPacket e spkt pkt).2.1.streamID = UInt8.ofNat
        (numberOf (e.id, spkt.streamID.toNat) (dynamicPairs (es ++ [MixEvent.packet e spkt pkt]))) ∧
      (m.onPacket e spkt pkt).2.1.frameNumber = spkt.frameNumber := by
  have hmem : (e, spkt.frame) ∈ deliveries (es ++ [MixEvent.packet e spkt pkt]) := by
    simp [Numbered.deliveries_packet]
  have hlocal : (m.mapFromInput e spkt.frame).2 =
      localOf (es ++ [MixEvent.packet e spkt pkt]) e spkt.frame :=
    Option.some.inj (Muxer.toLocal_mapFromInput.symm.trans (h.mapped e _ hmem))
  obtain ⟨hfs, hsrc⟩ := h.frameset_dynamic hadds hmem hdyn
  rw [StreamPacket.frame_frameset] at hfs
  rw [StreamPacket.frame_source] at hsrc
  constructor
  · show UInt8.ofNat (m.mapFromInput e spkt.frame).2.frameset = _
    rw [hlocal, hfs]
  · show UInt8.ofNat (m.mapFromInput e spkt.frame).2.source = _
    rw [hlocal, hsrc, UInt8.ofNat_toNat]

/-- The reply to the pair with number `v` is looked up under `v` cut to eight bits. -/
theorem reply_frame {reply : StreamPacket} {v : Nat} {f : FrameID}
    (hid : reply.streamID = UInt8.ofNat v) (hnum : reply.frameNumber = UInt8.ofNat f.source) :
    reply.frame = FrameID.ofPair (v % 256) f.source := by
  have hlt := f.source_lt
  rw [StreamPacket.frame, hid, hnum, UInt8.toNat_ofNat', UInt8.toNat_ofNat', Nat.mod_eq_of_lt hlt]

/-- A reply to one of the first 256 pairs goes back to its sender. -/
theorem Numbered.post_back {es : List (MixEvent σ)} {m : Muxer σ} (h : Numbered es m)
    (hadds : mixAdds es ≤ 2 ^ 16) (hdyn : ∀ s fsid, .add s fsid ∈ es → fsid < 0)
    {e : StreamEntry σ} {f : FrameID} (hmem : (e, f) ∈ deliveries es)
    (hlt : numberOf (e.id, f.frameset) (dynamicPairs es) < 256) {reply : StreamPacket}
    (hid : reply.streamID = UInt8.ofNat (numberOf (e.id, f.frameset) (dynamicPairs es)))
    (hnum : reply.frameNumber = UInt8.ofNat f.source) (pkt : DataPacket) :
    m.post reply pkt = .ok (some (e.stream, { reply with
      streamID := UInt8.ofNat f.frameset
      frameNumber := UInt8.ofNat f.source }, pkt)) := by
  have he : e.fixedFs < 0 := h.dynamic_of_adds hdyn (h.delivered _ hmem).1
  have hframe : reply.frame = localOf es e f := by
    rw [reply_frame hid hnum, Nat.mod_eq_of_lt hlt, localOf, if_neg (by omega)]
  obtain ⟨e', f', hmem', hl', -, -, hpost⟩ := h.reached (h.mapped e f hmem)
  have he' := h.dynamic_of_adds hdyn (h.delivered _ hmem').1
  rw [h.mapped e' f' hmem'] at hl'
  obtain ⟨rfl, rfl⟩ := h.dynamic_inj hadds hmem' hmem he' he (Option.some.inj hl')
  exact hpost reply pkt hframe

/-- A reply that goes back to its sender was found under the number of its pair. -/
theorem Numbered.number_of_post {es : List (MixEvent σ)} {m : Muxer σ} (h : Numbered es m)
    (hadds : mixAdds es ≤ 2 ^ 16) (hdyn : ∀ s fsid, .add s fsid ∈ es → fsid < 0)
    (hset : (m.streams.map (·.stream)).Nodup) {e : StreamEntry σ} (he : e ∈ m.streams)
    {spkt reply out : StreamPacket} {v : Nat} (hid : reply.streamID = UInt8.ofNat v)
    (hnum : reply.frameNumber = spkt.frameNumber) {pkt pkt' : DataPacket}
    (hpost : m.post reply pkt = .ok (some (e.stream, out, pkt')))
    (hout : out.streamID = spkt.streamID) :
    numberOf (e.id, spkt.streamID.toNat) (dynamicPairs es) < 256 := by
  have hframe := reply_frame (f := spkt.frame) hid
    (by rw [hnum, StreamPacket.frame_source, UInt8.ofNat_toNat])
  cases homap : m.omap reply.frame with
  | none =>
      simp only [Muxer.post, Muxer.mapToOutput, homap] at hpost
      cases hpost
  | some q =>
      obtain ⟨g, j⟩ := q
      have hl := h.sound _ _ (Muxer.toRemote_eq.mpr homap)
      obtain ⟨e', rfl, hmem'⟩ := h.delivered_of_toLocal hl
      obtain ⟨he', hlt'⟩ := h.delivered _ hmem'
      simp only [Muxer.post, Muxer.mapToOutput, homap, h.entryAt he', ok_bind] at hpost
      obtain ⟨hstream, hout', -⟩ : e'.stream = e.stream ∧ _ ∧ _ := by
        simpa only [pure, Except.pure, Except.ok.injEq, Option.some.injEq, Prod.mk.injEq]
          using hpost
      obtain rfl := List.inj_on_of_nodup_map hset he' he hstream
      have hframeset : g.frameset = spkt.streamID.toNat := by
        rw [← hout, ← hout', UInt8.toNat_ofNat', Nat.mod_eq_of_lt hlt']
      rw [h.mapped _ _ hmem', Option.some.injEq] at hl
      rw [← hframeset, ← (h.frameset_dynamic hadds hmem' (h.dynamic_of_adds hdyn he')).1, hl,
        hframe, FrameID.frameset_ofPair (by omega)]
      omega

/-- **The round trip of a packet**: what is posted under the ids the muxer reported for
a packet, then or later, is posted to the child that delivered it under the ids it had
there, exactly when its pair of stream and frameset was among the first 256. -/
theorem packet_round_trip_iff {es₁ es₂ : List (MixEvent σ)} {m₁ m : Muxer σ}
    {e : StreamEntry σ} {spkt : StreamPacket} {pkt : DataPacket}
    (run₁ : Runs MixStep {} es₁ m₁) (he : e ∈ m₁.streams)
    (run₂ : Runs MixStep (m₁.onPacket e spkt pkt).1 es₂ m)
    (hdyn : ∀ s fsid, .add s fsid ∈ es₁ ++ es₂ → fsid < 0)
    (hadds : mixAdds (es₁ ++ es₂) ≤ 2 ^ 16) (hset : (m.streams.map (·.stream)).Nodup) :
    (∀ reply pkt', reply.streamID = (m₁.onPacket e spkt pkt).2.1.streamID →
        reply.frameNumber = (m₁.onPacket e spkt pkt).2.1.frameNumber →
        m.post reply pkt' = .ok (some (e.stream, { reply with
          streamID := spkt.streamID
          frameNumber := spkt.frameNumber }, pkt'))) ↔
      numberOf (e.id, spkt.streamID.toNat)
        (dynamicPairs (es₁ ++ [MixEvent.packet e spkt pkt])) < 256 := by
  have run := run₁.snoc (@MixStep.packet σ m₁ e spkt pkt he)
  have hsum : mixAdds (es₁ ++ [MixEvent.packet e spkt pkt] ++ es₂) = mixAdds (es₁ ++ es₂) := by
    simp [mixAdds, MixEvent.isAdd]
  have hadds' : mixAdds (es₁ ++ [MixEvent.packet e spkt pkt] ++ es₂) ≤ 2 ^ 16 := hsum ▸ hadds
  have hadds₁ : mixAdds (es₁ ++ [MixEvent.packet e spkt pkt]) ≤ 2 ^ 16 := by
    unfold mixAdds at hadds' ⊢
    rw [List.countP_append] at hadds'
    omega
  have hdyn' : ∀ s fsid, .add s fsid ∈ es₁ ++ [MixEvent.packet e spkt pkt] ++ es₂ → fsid < 0 := by
    intro s fsid hmem
    apply hdyn s fsid
    simpa using hmem
  have h₁ := numbered_of_run run (.inl hadds₁)
  have h := numbered_of_run (run.trans run₂) (.inl hadds')
  have hmem₁ : (e, spkt.frame) ∈ deliveries (es₁ ++ [MixEvent.packet e spkt pkt]) := by
    simp [Numbered.deliveries_packet]
  have hmem : (e, spkt.frame) ∈ deliveries (es₁ ++ [MixEvent.packet e spkt pkt] ++ es₂) := by
    rw [deliveries_append]
    exact List.mem_append_left _ hmem₁
  have hneg : e.fixedFs < 0 := h.dynamic_of_adds hdyn' (h.delivered _ hmem).1
  obtain ⟨hid, hnum⟩ := h₁.report hadds₁ hneg
  -- later packets do not change the number
  have hstable : numberOf (e.id, spkt.streamID.toNat)
      (dynamicPairs (es₁ ++ [MixEvent.packet e spkt pkt] ++ es₂)) =
      numberOf (e.id, spkt.streamID.toNat)
        (dynamicPairs (es₁ ++ [MixEvent.packet e spkt pkt])) := by
    rw [dynamicPairs_append, numberOf_append]
    simpa using mem_dynamicPairs hmem₁ hneg
  rw [← hstable] at hid ⊢
  constructor
  · intro hback
    exact h.number_of_post hadds' hdyn' hset (h.delivered _ hmem).1 hid hnum
      (hback (m₁.onPacket e spkt pkt).2.1 pkt rfl rfl) rfl
  · intro hlt reply pkt' hid' hnum'
    rw [hid] at hid'
    rw [hnum] at hnum'
    rw [← StreamPacket.frame_frameset spkt] at hlt hid'
    rw [← UInt8.ofNat_toNat (x := spkt.frameNumber), ← StreamPacket.frame_source] at hnum'
    simpa using h.post_back hadds' hdyn' hmem hlt hid' hnum' pkt'

/-- Packets of one stream, one after the other. -/
def packetsOf (e : StreamEntry σ) (spkts : List StreamPacket) : List (MixEvent σ) :=
  spkts.map fun spkt => .packet e spkt {}

theorem packetsOf_run {m : Muxer σ} {e : StreamEntry σ} (he : e ∈ m.streams)
    (spkts : List StreamPacket) :
    ∃ m', Runs MixStep m (packetsOf e spkts) m' ∧ m'.streams = m.streams := by
  induction spkts using List.reverseRecOn with
  | nil => exact ⟨m, .init, rfl⟩
  | append_singleton spkts spkt ih =>
      obtain ⟨m', run, hstreams⟩ := ih
      rw [packetsOf, List.map_append]
      refine ⟨_, run.snoc (@MixStep.packet σ m' e spkt {} (hstreams ▸ he)), ?_⟩
      exact (Muxer.mapFromInput_extends m' e spkt.frame).streams.trans hstreams

theorem deliveries_packetsOf (e : StreamEntry σ) (spkts : List StreamPacket) :
    deliveries (packetsOf e spkts) = spkts.map fun spkt => (e, spkt.frame) := by
  induction spkts with
  | nil => rfl
  | cons spkt spkts ih => exact congrArg ((e, spkt.frame) :: ·) ih

theorem dynamicPairs_packetsOf {e : StreamEntry σ} (hdyn : e.fixedFs < 0)
    (spkts : List StreamPacket) :
    dynamicPairs (packetsOf e spkts) = spkts.map fun spkt => (e.id, spkt.streamID.toNat) := by
  rw [dynamicPairs, deliveries_packetsOf, List.filter_eq_self.mpr, List.map_map]
  · exact List.map_congr_left fun spkt _ => by simp
  · intro p hp
    obtain ⟨spkt, -, rfl⟩ := List.mem_map.mp hp
    simpa using hdyn

/-- The second stream, without a fixed frameset. -/
def laterEntry : StreamEntry Nat := { id := 1, stream := 1 }

/-- Two streams without fixed framesets. -/
def twoStreams : Muxer Nat := (({} : Muxer Nat).add 0 (-1)).add 1 (-1)

theorem twoStreams_run : Runs MixStep {} [.add 0 (-1), .add 1 (-1)] twoStreams :=
  (Runs.init.snoc (@MixStep.add Nat {} 0 (-1))).snoc (@MixStep.add Nat _ 1 (-1))

/-- The packet comes back as frame (3, 7) of the second stream. -/
theorem packet_round_trip_first :
    (twoStreams.onPacket laterEntry (framePacket 3 7) {}).1.post (framePacket 0 7) {} =
      .ok (some (1, framePacket 3 7, {})) := by
  have hadded : ∀ s fsid, MixEvent.add s fsid ∈ [.add 0 (-1), .add 1 (-1)] ++ [] → fsid < 0 := by
    intro s fsid hmem
    simp only [List.append_nil, List.mem_cons, List.not_mem_nil, or_false, MixEvent.add.injEq]
      at hmem
    omega
  have hiff := @packet_round_trip_iff Nat _ _ _ _ laterEntry (framePacket 3 7) {} twoStreams_run
    (by decide) .init hadded (by decide) (by decide)
  exact hiff.mpr (by decide) (framePacket 0 7) {} (by decide) (by decide)

/-- The first stream delivers packets of 256 framesets. -/
def widePackets : List StreamPacket :=
  (List.range 256).map fun fs => framePacket (UInt8.ofNat fs) 0

theorem dynamicPairs_wide :
    dynamicPairs (packetsOf dynamicEntry widePackets) = (List.range 256).map fun fs => (0, fs) := by
  rw [dynamicPairs_packetsOf (by decide), widePackets, List.map_map]
  apply List.map_congr_left
  intro fs hfs
  rw [List.mem_range] at hfs
  simp [framePacket, dynamicEntry, Nat.mod_eq_of_lt hfs]

theorem numberOf_wide (l : List (Nat × Nat)) :
    numberOf (0, 0) (((List.range 256).map fun fs => (0, fs)) ++ l) = 0 := by
  rw [List.range_succ_eq_map, List.map_cons, List.cons_append, numberOf_cons_self]

theorem arrived_wide : arrived ((List.range 256).map fun fs => (0, fs)) = 256 := by
  rw [arrived_of_nodup, List.length_map, List.length_range]
  exact List.nodup_range.map fun a b h => (Prod.mk.inj h).2

/-- The 257th pair of stream and frameset is reported under the number of the first, and
what is posted back goes to the stream of the first. -/
theorem late_pair_posted_elsewhere :
    ∃ es m, Runs MixStep {} es m ∧ laterEntry ∈ m.streams ∧
      (m.onPacket laterEntry (framePacket 0 0) {}).2.1.streamID = 0 ∧
      (m.onPacket laterEntry (framePacket 0 0) {}).2.1.frameNumber = 0 ∧
      (m.onPacket laterEntry (framePacket 0 0) {}).1.post (framePacket 0 0) {} =
        .ok (some (0, framePacket 0 0, {})) := by
  obtain ⟨m, run', hstreams⟩ := packetsOf_run (m := twoStreams) (e := dynamicEntry) (by decide)
    widePackets
  have hlater : laterEntry ∈ m.streams := by
    rw [hstreams]
    decide
  have run := twoStreams_run.trans run'
  have hnext := run.snoc (@MixStep.packet Nat m laterEntry (framePacket 0 0) {} hlater)
  refine ⟨_, m, run, hlater, ?_⟩
  set es : List (MixEvent Nat) :=
    [.add 0 (-1), .add 1 (-1)] ++ packetsOf dynamicEntry widePackets with hes
  have hadds : mixAdds (es ++ [MixEvent.packet laterEntry (framePacket 0 0) {}]) ≤ 2 ^ 16 := by
    decide +kernel
  have hadded : ∀ s fsid,
      MixEvent.add s fsid ∈ es ++ [MixEvent.packet laterEntry (framePacket 0 0) {}] →
        fsid < 0 := by
    intro s fsid hmem
    simp only [hes, packetsOf, List.mem_append, List.mem_cons, List.not_mem_nil, or_false,
      List.mem_map, MixEvent.add.injEq, reduceCtorEq, and_false, exists_false] at hmem
    omega
  have h := numbered_of_run hnext (.inl hadds)
  obtain ⟨hid, hnum⟩ := h.report hadds (by decide)
  have hpairs : dynamicPairs (es ++ [MixEvent.packet laterEntry (framePacket 0 0) {}]) =
      ((List.range 256).map fun fs => (0, fs)) ++ [(1, 0)] := by
    rw [Numbered.dynamicPairs_packet, hes, dynamicPairs_append, dynamicPairs_wide]
    rfl
  have hnew : ((1, 0) : Nat × Nat) ∉ (List.range 256).map fun fs => (0, fs) := by
    simp
  have hfirst : (dynamicEntry, (framePacket 0 0).frame) ∈
      deliveries (es ++ [MixEvent.packet laterEntry (framePacket 0 0) {}]) := by
    rw [Numbered.deliveries_packet, hes, deliveries_append, deliveries_packetsOf, widePackets,
      List.range_succ_eq_map]
    simp [framePacket]
  refine ⟨?_, hnum, ?_⟩
  · have hlast : numberOf (laterEntry.id, (framePacket 0 0).streamID.toNat)
        (dynamicPairs (es ++ [MixEvent.packet laterEntry (framePacket 0 0) {}])) = 256 := by
      rw [hpairs]
      exact (numberOf_new hnew).trans arrived_wide
    rw [hid, hlast]
    rfl
  · have hzero : numberOf (dynamicEntry.id, (framePacket 0 0).frame.frameset)
        (dynamicPairs (es ++ [MixEvent.packet laterEntry (framePacket 0 0) {}])) = 0 := by
      rw [hpairs, StreamPacket.frame_frameset]
      exact numberOf_wide _
    have hback := @Numbered.post_back Nat _ _ h hadds hadded dynamicEntry (framePacket 0 0).frame
      hfirst (by rw [hzero]; decide) (framePacket 0 0) (by rw [hzero]; rfl) (by decide) {}
    simpa [dynamicEntry, framePacket] using hback

/-! ## §5  Sources of a fixed frameset -/

/-- All frames of streams fixed to frameset `k` have local ids of their own in it, and
are found under them. -/
structure FixedMapping (k : Nat) (es : List (MixEvent σ)) (m : Muxer σ) : Prop where
  distinct : ∀ p ∈ deliveries es, ∀ q ∈ deliveries es,
    m.toLocal (p.1.id, p.2) = m.toLocal (q.1.id, q.2) → p = q
  found : ∀ p ∈ deliveries es, ∃ l, m.toLocal (p.1.id, p.2) = some l ∧ l.frameset = k ∧
    m.findRemote l = .ok p.2 ∧ m.originStream l = .ok (some p.1.stream)

theorem fixedPairs_packetsOf (e : StreamEntry σ) (spkts : List StreamPacket) :
    fixedPairs (packetsOf e spkts) e.fixedFs = spkts.map fun spkt => (e.id, spkt.frame) := by
  rw [fixedPairs, deliveries_packetsOf, List.filter_eq_self.mpr, List.map_map]
  · rfl
  · intro p hp
    obtain ⟨spkt, -, rfl⟩ := List.mem_map.mp hp
    simp

theorem Numbered.localOf_fixed {es : List (MixEvent σ)} {m : Muxer σ} (h : Numbered es m) {k : Nat}
    (hfixed : ∀ s fsid, .add s fsid ∈ es → fsid = (k : Int)) {p : StreamEntry σ × FrameID}
    (hp : p ∈ deliveries es) : p.1.fixedFs = k ∧ (p.1.id, p.2) ∈ fixedPairs es k ∧
      localOf es p.1 p.2 = FrameID.ofPair k (numberOf (p.1.id, p.2) (fixedPairs es k)) := by
  have hk : p.1.fixedFs = k := hfixed _ _ (h.added _ (h.delivered p hp).1)
  refine ⟨hk, hk ▸ mem_fixedPairs hp, ?_⟩
  rw [localOf, hk, if_pos (Int.natCast_nonneg k), Int.toNat_natCast]

/-- The frames numbered 0 and 256 have the same source. -/
theorem Numbered.sources_wrap {es : List (MixEvent σ)} {m : Muxer σ} (h : Numbered es m) {k : Nat}
    (hfixed : ∀ s fsid, .add s fsid ∈ es → fsid = (k : Int))
    (hmany : 256 < arrived (fixedPairs es k)) :
    ∃ p ∈ deliveries es, ∃ q ∈ deliveries es, p ≠ q ∧
      m.toLocal (p.1.id, p.2) = m.toLocal (q.1.id, q.2) := by
  obtain ⟨a, ha, ha0⟩ := exists_numberOf (show 0 < arrived (fixedPairs es k) by omega)
  obtain ⟨b, hb, hb256⟩ := exists_numberOf hmany
  obtain ⟨p, hp, rfl⟩ := List.mem_map.mp ha
  obtain ⟨q, hq, rfl⟩ := List.mem_map.mp hb
  have hp := (List.mem_filter.mp hp).1
  have hq := (List.mem_filter.mp hq).1
  refine ⟨p, hp, q, hq, ?_, ?_⟩
  · rintro rfl
    omega
  · rw [h.mapped _ _ hp, h.mapped _ _ hq, (h.localOf_fixed hfixed hp).2.2,
      (h.localOf_fixed hfixed hq).2.2, ha0, hb256]
    rfl

/-- **When a fixed frameset has room**: in every run of streams that are all fixed to one
frameset, exactly when at most 256 distinct frames have arrived, and the frameset number
fits a `FrameID`. -/
theorem fixed_mapping_injective_iff {es : List (MixEvent σ)} {m : Muxer σ} {k : Nat}
    (run : Runs MixStep {} es m) (hfixed : ∀ s fsid, .add s fsid ∈ es → fsid = (k : Int)) :
    FixedMapping k es m ↔
      arrived (fixedPairs es k) ≤ 256 ∧ (deliveries es ≠ [] → k < 2 ^ 24) := by
  have h := numbered_of_run run (.inr fun s fsid hmem => by rw [hfixed s fsid hmem]; omega)
  constructor
  · intro hmap
    refine ⟨?_, fun hne => ?_⟩
    · by_contra hmany
      obtain ⟨p, hp, q, hq, hne, heq⟩ := h.sources_wrap hfixed (Nat.not_le.mp hmany)
      exact hne (hmap.distinct p hp q hq heq)
    · obtain ⟨p, hp⟩ := List.exists_mem_of_ne_nil _ hne
      obtain ⟨l, hl, hfs, -⟩ := hmap.found p hp
      rw [h.mapped _ _ hp, (h.localOf_fixed hfixed hp).2.2, Option.some.injEq] at hl
      rw [← hl, FrameID.frameset_ofPair_mod] at hfs
      omega
  · rintro ⟨hroom, hsmall⟩
    have hinj : ∀ p ∈ deliveries es, ∀ q ∈ deliveries es,
        localOf es p.1 p.2 = localOf es q.1 q.2 → p = q := by
      intro p hp q hq heq
      obtain ⟨-, hpair, hlocal⟩ := h.localOf_fixed hfixed hp
      obtain ⟨-, hpair', hlocal'⟩ := h.localOf_fixed hfixed hq
      rw [hlocal, hlocal'] at heq
      have hp' := numberOf_lt hpair
      have hq' := numberOf_lt hpair'
      have hnum := congrArg FrameID.source heq
      rw [FrameID.source_ofPair, FrameID.source_ofPair, Nat.mod_eq_of_lt (by omega),
        Nat.mod_eq_of_lt (by omega), numberOf_inj hpair] at hnum
      obtain ⟨hid, hframe⟩ := Prod.mk.inj hnum
      exact Prod.ext (h.eq_of_id (h.delivered p hp).1 (h.delivered q hq).1 hid) hframe
    refine ⟨fun p hp q hq heq => ?_, fun p hp => ?_⟩
    · rw [h.mapped _ _ hp, h.mapped _ _ hq, Option.some.injEq] at heq
      exact hinj p hp q hq heq
    · have hl := h.mapped _ _ hp
      obtain ⟨e, f, hmem, hl', horigin, hremote, -⟩ := h.reached hl
      rw [h.mapped _ _ hmem, Option.some.injEq] at hl'
      obtain rfl := hinj (e, f) hmem p hp hl'
      refine ⟨_, hl, ?_, hremote, horigin⟩
      rw [(h.localOf_fixed hfixed hp).2.2]
      exact FrameID.frameset_ofPair (hsmall (List.ne_nil_of_mem hp)) _

/-- One stream fixed to frameset 5. -/
def mergedEntry : StreamEntry Nat := { id := 0, stream := 0, fixedFs := 5 }

theorem mergedEvents_run (spkts : List StreamPacket) :
    ∃ m, Runs MixStep {} (.add 0 5 :: packetsOf mergedEntry spkts) m := by
  obtain ⟨m, run, -⟩ := packetsOf_run (m := ({} : Muxer Nat).add 0 5) (e := mergedEntry)
    (by decide) spkts
  exact ⟨m, (Runs.init.snoc (@MixStep.add Nat {} 0 5)).trans run⟩

theorem mergedEvents_fixed (spkts : List StreamPacket) (s : Nat) (fsid : Int)
    (h : .add s fsid ∈ .add 0 5 :: packetsOf mergedEntry spkts) : fsid = ((5 : Nat) : Int) := by
  simp only [packetsOf, List.mem_cons, List.mem_map, MixEvent.add.injEq, reduceCtorEq, and_false,
    exists_false, or_false] at h
  exact h.2

/-- Frames (0, 0) and (1, 0) of the stream. -/
theorem fixed_mapping_injective_two :
    ∃ m, FixedMapping 5
      (.add 0 5 :: packetsOf mergedEntry [framePacket 0 0, framePacket 1 0]) m := by
  obtain ⟨m, run⟩ := mergedEvents_run [framePacket 0 0, framePacket 1 0]
  exact ⟨m, (fixed_mapping_injective_iff run (mergedEvents_fixed _)).mpr (by decide)⟩

/-- All 256 frames of the first frameset and one of the second. -/
def manyPackets : List StreamPacket :=
  ((List.range 256).map fun n => framePacket 0 (UInt8.ofNat n)) ++ [framePacket 1 0]

theorem arrived_many :
    256 < arrived (fixedPairs (.add 0 5 :: packetsOf mergedEntry manyPackets) (5 : Nat)) := by
  have hpairs : fixedPairs (.add 0 5 :: packetsOf mergedEntry manyPackets) (5 : Nat) =
      manyPackets.map fun spkt => (mergedEntry.id, spkt.frame) :=
    fixedPairs_packetsOf mergedEntry manyPackets
  have hnodup : (manyPackets.map fun spkt => (mergedEntry.id, spkt.frame)).Nodup := by
    rw [manyPackets, List.map_append, List.map_map]
    refine List.nodup_append.mpr ⟨?_, List.nodup_singleton _, ?_⟩
    · refine List.Nodup.map_on ?_ List.nodup_range
      intro a ha b hb heq
      have hsource := congrArg FrameID.source (Prod.mk.inj heq).2
      rw [List.mem_range] at ha hb
      simpa [framePacket, Nat.mod_eq_of_lt ha, Nat.mod_eq_of_lt hb] using hsource
    · -- the last frame lies in another frameset
      rintro p hp q hq rfl
      obtain ⟨n, -, rfl⟩ := List.mem_map.mp hp
      rw [List.map_singleton, List.mem_singleton] at hq
      have hframeset := congrArg FrameID.frameset (Prod.mk.inj hq).2
      simp [framePacket] at hframeset
  rw [hpairs, arrived_of_nodup hnodup]
  simp [manyPackets]

/-- The 257th frame gets the local id of the first. -/
theorem late_frame_shares_id :
    ∃ es m, Runs MixStep ({} : Muxer Nat) es m ∧ (∀ s fsid, .add s fsid ∈ es → fsid = 5) ∧
      ∃ p ∈ deliveries es, ∃ q ∈ deliveries es, p ≠ q ∧
        m.toLocal (p.1.id, p.2) = m.toLocal (q.1.id, q.2) := by
  obtain ⟨m, run⟩ := mergedEvents_run manyPackets
  have h := numbered_of_run run (.inr fun s fsid hmem => by
    rw [mergedEvents_fixed manyPackets s fsid hmem]
    omega)
  exact ⟨_, m, run, mergedEvents_fixed manyPackets,
    h.sources_wrap (mergedEvents_fixed manyPackets) arrived_many⟩

end BeyondProtocol
