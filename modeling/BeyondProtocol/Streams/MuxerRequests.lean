import BeyondProtocol.Streams.MuxerMaps

/-!
# Requests that come through a muxer

A request of a child is raised again by the muxer, for the local ids of the frames it is for. A
wildcard is taken apart on the way: one request for each frame the child knows. Frames that were
not heard of before get their local ids here.
-/

namespace BeyondProtocol

open Framework

variable {σ : Type}

namespace Muxer

/-! ## §1  What a request is for -/

/-- The frameset or the source of a request stands for all there are. -/
def IsWildcard (id : FrameID) : Prop := id.frameset = kAll ∨ id.source = kAll

/-- The pattern of a request has this frame. -/
def Wants (id i : FrameID) : Prop :=
  (id.frameset = kAll ∨ id.frameset = i.frameset) ∧ (id.source = kAll ∨ id.source = i.source)

instance (id i : FrameID) : Decidable (Wants id i) := inferInstanceAs (Decidable (_ ∧ _))

theorem requestedFrames_wildcard {req : Request} (h : IsWildcard req.id) (frames : List FrameID) :
    requestedFrames frames req = frames.filter fun i => Wants req.id i := by
  have hfilter : requestedFrames frames req = frames.filter _ := if_pos h
  rw [hfilter]
  refine List.filter_congr fun i _ => ?_
  rw [Bool.eq_iff_iff]
  simp only [Bool.and_eq_true, Bool.or_eq_true, decide_eq_true_iff]
  exact Iff.rfl

theorem requestedFrames_single {req : Request} (h : ¬ IsWildcard req.id) (frames : List FrameID) :
    requestedFrames frames req = [req.id] := if_neg h

theorem requestedFrames_nodup {frames : List FrameID} (h : frames.Nodup) (req : Request) :
    (requestedFrames frames req).Nodup := by
  by_cases hwild : IsWildcard req.id
  · rw [requestedFrames_wildcard hwild]
    exact h.filter _
  · rw [requestedFrames_single hwild]
    exact List.nodup_singleton _

/-! ## §2  The local ids of a request -/

/-- Each frame is raised under the local id it has then. -/
theorem mapAll_toLocal (m : Muxer σ) (e : StreamEntry σ) (ids : List FrameID) :
    ∃ localID : FrameID → FrameID, (m.mapAll e ids).2 = ids.map localID ∧
      ∀ f ∈ ids, (m.mapAll e ids).1.toLocal (e.id, f) = some (localID f) := by
  refine ⟨fun f => ((m.mapAll e ids).1.toLocal (e.id, f)).getD f, ?_⟩
  induction ids generalizing m with
  | nil => exact ⟨rfl, by simp⟩
  | cons id ids ih =>
      obtain ⟨hrest, hmapped⟩ := ih (m.mapFromInput e id).1
      have hext := (m.mapFromInput e id).1.mapAll_extends e ids
      have hfirst : (m.mapAll e (id :: ids)).1.toLocal (e.id, id) =
          some (m.mapFromInput e id).2 := hext.imap _ _ toLocal_mapFromInput
      refine ⟨?_, fun f hf => ?_⟩
      · rw [List.map_cons, hfirst]
        exact congrArg _ hrest
      · rcases List.mem_cons.mp hf with rfl | hf
        · show _ = some (((m.mapAll e (f :: ids)).1.toLocal (e.id, f)).getD f)
          rw [hfirst]
          rfl
        · exact hmapped f hf

/-- A local id of a mapped frame leads back to the frame and its stream. -/
theorem Mapped.lookup {heard : Finset (Nat × Nat)} {m : Muxer σ} (h : m.Mapped heard)
    {e : StreamEntry σ} (he : e ∈ m.streams) {f l : FrameID}
    (hl : m.toLocal (e.id, f) = some l) :
    m.findRemote l = .ok f ∧ m.originStream l = .ok (some e.stream) := by
  have homap : m.omap l = some (f, e.id) := toRemote_eq.mp ((h.inverse (e.id, f) l).mp hl)
  have hout : m.mapToOutput l = (f, some e.id) := by rw [mapToOutput, homap]
  constructor
  · rw [findRemote, hout]
  · simp only [originStream, hout, h.entries.entryAt he]
    rfl

variable [DecidableEq σ]

/-- A request of a stream comes to the callback of each of its entries. -/
def requestFrom (m : Muxer σ) (s : σ) (frames : List FrameID) (req : Request) :
    Muxer σ × List Request :=
  (m.streams.filter fun e => e.stream = s).foldl (fun out e =>
    let (m, reqs) := out.1.onRequest e frames req
    (m, out.2 ++ reqs)) (m, [])

/-- A stream that was added once has one callback. -/
theorem EntriesDistinct.requestFrom {m : Muxer σ} (h : m.EntriesDistinct) {e : StreamEntry σ}
    (he : e ∈ m.streams) (frames : List FrameID) (req : Request) :
    m.requestFrom e.stream frames req = m.onRequest e frames req := by
  have hentry : m.streams.filter (fun e' => e'.stream = e.stream) = [e] := by
    have hnodup : m.streams.Nodup := List.Nodup.of_map _ h.streams
    refine List.perm_singleton.mp ((List.perm_ext_iff_of_nodup (hnodup.filter _)
      (List.nodup_singleton e)).mpr fun e' => ?_)
    rw [List.mem_filter, decide_eq_true_iff, List.mem_singleton]
    constructor
    · rintro ⟨he', hs⟩
      exact h.eq_of_stream he' he hs
    · rintro rfl
      exact ⟨he, rfl⟩
  rw [Muxer.requestFrom, hentry]
  rfl

/-- The requests `reqs` are those that a request of `s` stands for, in the muxer that raised
them. -/
structure Expanded (m : Muxer σ) (s : σ) (frames : List FrameID) (req : Request)
    (reqs : List Request) : Prop where
  fields : ∀ r ∈ reqs, r = { req with id := r.id }
  distinct : (reqs.map (·.id)).Nodup
  origin : ∀ r ∈ reqs, m.originStream r.id = .ok (some s)
  /-- One request for each frame of the stream that the pattern has. -/
  wildcard : IsWildcard req.id → (reqs.map fun r => m.findRemote r.id) =
    (frames.filter fun i => Wants req.id i).map .ok
  single : ¬ IsWildcard req.id → (reqs.map fun r => m.findRemote r.id) = [.ok req.id]

end Muxer

/-! ## §3  Whole runs -/

variable [DecidableEq σ]

/-- **Requests are expanded exactly.** In every run of a muxer with dynamic streams, each added at
most once at a time and with ids within the packed keys, a request of an added stream is raised
once for each frame of the stream that it has, or for its own frame if it has no wildcard, under
distinct local ids that lead back to that frame and stream, and with all other fields kept. -/
theorem requests_expanded {es : List (MuxEvent σ)} {m : Muxer σ} (run : Runs MuxStep {} es m)
    {e : StreamEntry σ} (he : e ∈ m.streams) {frames : List FrameID} (hframes : frames.Nodup)
    (req : Request) (hrange : WithinRange (es ++ [.request e frames req])) :
    (m.requestFrom e.stream frames req).1.Expanded e.stream frames req
      (m.requestFrom e.stream frames req).2 := by
  obtain ⟨h, hids⟩ := mapped_of_run run hrange.of_append
  have hstep : MuxStep m (.request e frames req) (m.onRequest e frames req).1 := .request he
  have hmapped := (hstep.mapped hrange h hids).1
  rw [h.entries.requestFrom he]
  obtain ⟨localID, hls, hlocal⟩ := m.mapAll_toLocal e (Muxer.requestedFrames frames req)
  have hreqs : (m.onRequest e frames req).2 =
      (Muxer.requestedFrames frames req).map fun f => { req with id := localID f } := by
    show (m.mapAll e (Muxer.requestedFrames frames req)).2.map _ = _
    rw [hls, List.map_map]
    rfl
  have hlookup : ∀ f ∈ Muxer.requestedFrames frames req,
      (m.onRequest e frames req).1.findRemote (localID f) = .ok f ∧
      (m.onRequest e frames req).1.originStream (localID f) = .ok (some e.stream) := by
    intro f hf
    have hentry : e ∈ (m.onRequest e frames req).1.streams :=
      (m.mapAll_extends e (Muxer.requestedFrames frames req)).streams.symm ▸ he
    exact hmapped.lookup hentry (hlocal f hf)
  have hremote : ((m.onRequest e frames req).2.map fun r =>
      (m.onRequest e frames req).1.findRemote r.id) =
      (Muxer.requestedFrames frames req).map .ok := by
    rw [hreqs, List.map_map]
    exact List.map_congr_left fun f hf => (hlookup f hf).1
  refine ⟨fun r hr => ?_, ?_, fun r hr => ?_, fun hwild => ?_, fun hsingle => ?_⟩
  · obtain ⟨f, -, rfl⟩ := List.mem_map.mp (hreqs ▸ hr)
    rfl
  · rw [hreqs, List.map_map]
    refine (Muxer.requestedFrames_nodup hframes req).map_on fun f hf g hg hfg => ?_
    have hfound := (hlookup f hf).1
    rw [show localID f = localID g from hfg, (hlookup g hg).1] at hfound
    exact (Except.ok.inj hfound).symm
  · obtain ⟨f, hf, rfl⟩ := List.mem_map.mp (hreqs ▸ hr)
    exact (hlookup f hf).2
  · rw [hremote, Muxer.requestedFrames_wildcard hwild]
  · rw [hremote, Muxer.requestedFrames_single hsingle]
    rfl

/-- Two dynamic streams, references 0 and 1. -/
def twoDynamic : Muxer Nat := (({} : Muxer Nat).add 0 (-1)).add 1 (-1)

/-- A request for everything, for colour. -/
def requestAll : Request := ⟨FrameID.ofPair 255 255, Channel.kColour, 255, 1, 0⟩

/-- The second of two streams asks for its frames (3, 7) and (4, 7). -/
theorem requests_expanded_second :
    (twoDynamic.requestFrom 1 [FrameID.ofPair 3 7, FrameID.ofPair 4 7] requestAll).1.Expanded 1
      [FrameID.ofPair 3 7, FrameID.ofPair 4 7] requestAll
      (twoDynamic.requestFrom 1 [FrameID.ofPair 3 7, FrameID.ofPair 4 7] requestAll).2 := by
  have run : Runs MuxStep ({} : Muxer Nat) _ twoDynamic :=
    (Runs.init.snoc (@MuxStep.add Nat _ _ 0 (by decide))).snoc
      (@MuxStep.add Nat _ _ 1 (by decide))
  have he : secondEntry ∈ twoDynamic.streams := by decide
  exact requests_expanded run he (by decide) requestAll ⟨by decide, by decide, by decide⟩

/-- Outside these bounds it fails: with framesets 0 and 2^16 the second stream has two frames with
one packed key, and they are requested under the same id; and a stream that was added twice has
its one frame requested twice. -/
theorem requests_share_packed_key :
    (∃ frames : List FrameID, frames.Nodup ∧
      ¬ (twoDynamic.requestFrom 1 frames requestAll).1.Expanded 1 frames requestAll
        (twoDynamic.requestFrom 1 frames requestAll).2) ∧
    ¬ (((({} : Muxer Nat).add 0 (-1)).add 0 (-1)).requestFrom 0 [⟨0⟩] requestAll).1.Expanded 0 [⟨0⟩]
      requestAll (((({} : Muxer Nat).add 0 (-1)).add 0 (-1)).requestFrom 0 [⟨0⟩] requestAll).2 := by
  constructor
  · refine ⟨[⟨0⟩, FrameID.ofPair (2 ^ 16) 0], by decide, fun h => ?_⟩
    exact absurd h.distinct (by decide)
  · intro h
    have hcount := congrArg List.length (h.wildcard (.inl (by decide)))
    exact absurd hcount (by decide)

end BeyondProtocol
