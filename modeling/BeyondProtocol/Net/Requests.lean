import BeyondProtocol.Framework.Runs
import BeyondProtocol.Net.Clients

/-!
# Wildcard requests at a host

`_processRequest` expands a wildcard over the frames the stream knows and calls
itself for each of them. A frame gets known by any packet that names it, so one
whose number is the wildcard value itself can be among them. The call for such a
frame is the same wildcard again, and does not come back.
-/

namespace BeyondProtocol.Net

open Framework (Runs bind_eq_ok)

/-! ## §1  What a request stands for -/

/-- The frames a run of `_processRequest` raised the request callback for, in order. -/
def requestedFrames (effects : List Effect) : List FrameID :=
  effects.filterMap fun
    | .request req => some req.id
    | _ => none

theorem requestedFrames_append (es es' : List Effect) :
    requestedFrames (es ++ es') = requestedFrames es ++ requestedFrames es' :=
  List.filterMap_append

/-- The frames a request is for: one, or those a wildcard matches among the known ones. -/
def Matches (net : Net) (spkt : StreamPacket) (i : FrameID) : Prop :=
  if isWildcard spkt then i ∈ net.stream.frames ∧ covers spkt i = true else i = spkt.frame

/-- The request is processed to its end, and handles what it matches once each. -/
def HandlesOnce (net : Net) (p : Option Int) (spkt : StreamPacket) (pkt : DataPacket) : Prop :=
  ∃ fuel net' spkt' pkt' effects,
    processRequest fuel net p spkt pkt = .ok (net', spkt', pkt', effects) ∧
      (requestedFrames effects).Nodup ∧
      ∀ i, i ∈ requestedFrames effects ↔ net.Matches spkt i

/-- A frame with the wildcard value in one of its fields. -/
def IsWildcardFrame (i : FrameID) : Prop := i.frameset = kAll ∨ i.source = kAll

/-- Every frame of the table is named by some packet. -/
def FramesNamed (net : Net) : Prop :=
  ∀ i ∈ net.stream.frames, ∃ spkt : StreamPacket, spkt.frame = i

/-- The packet the loop over the frames puts together for one of them. -/
def expanded (spkt : StreamPacket) (i : FrameID) : StreamPacket :=
  { spkt with
    streamID := UInt8.ofNat i.frameset
    frameNumber := UInt8.ofNat i.source }

theorem frame_expanded {i : FrameID} (h : ∃ spkt : StreamPacket, spkt.frame = i)
    (spkt : StreamPacket) : (expanded spkt i).frame = i := by
  obtain ⟨s, rfl⟩ := h
  refine frame_ofNat ?_ rfl rfl
  rw [StreamPacket.frame_frameset]
  exact s.streamID.toNat_lt

theorem isWildcard_iff (spkt : StreamPacket) :
    isWildcard spkt = true ↔ IsWildcardFrame spkt.frame := by
  simp [isWildcard, IsWildcardFrame]

/-- A frame that is no wildcard is requested on its own. -/
theorem isWildcard_expanded {i : FrameID} (hnamed : ∃ spkt : StreamPacket, spkt.frame = i)
    (hplain : ¬ IsWildcardFrame i) (spkt : StreamPacket) :
    isWildcard (expanded spkt i) = false := by
  rw [Bool.eq_false_iff]
  intro hw
  rw [isWildcard_iff, frame_expanded hnamed spkt] at hw
  exact hplain hw

theorem covers_frame_self (spkt : StreamPacket) : covers spkt spkt.frame = true := by
  simp [covers]

theorem frames_nodup (s : Stream) : s.frames.Nodup := s.state.keys_nodup

/-! ## §2  Requests that come back -/

theorem stream_registerAll (net : Net) (p : Option Int) (l : List Packet) :
    (net.registerAll p l).stream = net.stream := by
  cases p with
  | none => rfl
  | some peerid =>
      show (l.foldl (fun n x => n.registerClient x.1 x.2 peerid) net).stream = _
      induction l generalizing net with
      | nil => rfl
      | cons x l ih => exact ih (net.registerClient x.1 x.2 peerid)

theorem processRequest_stream {fuel : Nat} {net net' : Net} {p : Option Int}
    {spkt spkt' : StreamPacket} {pkt pkt' : DataPacket} {effects : List Effect}
    (h : processRequest fuel net p spkt pkt = .ok (net', spkt', pkt', effects)) :
    net'.stream = net.stream := by
  obtain ⟨-, -, -, l, -, rfl⟩ := processRequest_spec fuel h
  exact stream_registerAll net p l

theorem processFrameRequest_ok {p : Option Int} {spkt : StreamPacket}
    (h : p = none ∨ 0 ≤ spkt.channel) (net : Net) (pkt : DataPacket) :
    ∃ net' spkt' pkt' effects,
      net.processFrameRequest p spkt pkt = .ok (net', spkt', pkt', effects) ∧
      spkt'.channel = spkt.channel ∧ requestedFrames effects = [spkt.frame] := by
  have hdef : ¬ ((decide (spkt.channel < 0) && p.isSome) = true) := by
    rcases h with rfl | h
    · simp
    · simp [h]
  unfold processFrameRequest
  rw [if_neg hdef]
  cases p with
  | none => exact ⟨_, _, _, _, rfl, rfl, rfl⟩
  | some peerid =>
      simp only
      split
      · exact ⟨_, _, _, _, rfl, rfl, rfl⟩
      · exact ⟨_, _, _, _, rfl, rfl, rfl⟩

/-- One turn of the loop over the frames, with `fuel` for the call in it. -/
def expandStep (fuel : Nat) (p : Option Int) (b : Net × StreamPacket × DataPacket × List Effect)
    (i : FrameID) : Except Fault (Net × StreamPacket × DataPacket × List Effect) := do
  let (net, spkt2, pkt, more) ← processRequest fuel b.1 p (expanded b.2.1 i) b.2.2.1
  return (net, spkt2, pkt, b.2.2.2 ++ more)

theorem processRequest_expand {spkt : StreamPacket} (h : isWildcard spkt = true) (fuel : Nat)
    (net : Net) (p : Option Int) (pkt : DataPacket) :
    processRequest (fuel + 1) net p spkt pkt =
      ((net.stream.frames.filter (covers spkt)).foldlM (expandStep fuel p) (net, spkt, pkt, [])
        >>= fun b => .ok (b.1, spkt, b.2.2.1, b.2.2.2)) := by
  rw [processRequest, if_pos h]
  rfl

/-- The loop over frames none of which is a wildcard handles them one by one. -/
theorem expand_ok {p : Option Int} {c : Channel} (hc : p = none ∨ 0 ≤ c) {l : List FrameID}
    (hnamed : ∀ i ∈ l, ∃ spkt : StreamPacket, spkt.frame = i)
    (hplain : ∀ i ∈ l, ¬ IsWildcardFrame i) (net : Net) {spkt : StreamPacket}
    (hs : spkt.channel = c) (pkt : DataPacket) (es : List Effect) :
    ∃ b, l.foldlM (expandStep 1 p) (net, spkt, pkt, es) = .ok b ∧
      requestedFrames b.2.2.2 = requestedFrames es ++ l := by
  induction l generalizing net spkt pkt es with
  | nil => exact ⟨_, rfl, by simp⟩
  | cons i l ih =>
      have hframe := frame_expanded (hnamed i (by simp)) spkt
      have hsingle : isWildcard (expanded spkt i) = false :=
        isWildcard_expanded (hnamed i (by simp)) (hplain i (by simp)) spkt
      have hchan : (expanded spkt i).channel = c := hs
      obtain ⟨net', spkt', pkt', more, hcall, hchan', hmore⟩ :=
        processFrameRequest_ok (hchan ▸ hc) net pkt
      obtain ⟨b, hb, hreq⟩ := ih (fun j hj => hnamed j (by simp [hj]))
        (fun j hj => hplain j (by simp [hj])) net' (hchan'.trans hchan) pkt' (es ++ more)
      have hstep : expandStep 1 p (net, spkt, pkt, es) i =
          .ok (net', spkt', pkt', es ++ more) := by
        show (processRequest 1 net p (expanded spkt i) pkt >>= _) = _
        rw [processRequest_plain hsingle, hcall]
        rfl
      refine ⟨b, ?_, ?_⟩
      · rw [List.foldlM_cons, hstep]
        exact hb
      · rw [hreq, requestedFrames_append, hmore, hframe]
        simp

/-! ## §3  Requests that do not -/

/-- Every turn of the loop of a request that came back came back itself, on the
same stream and the same channel. -/
theorem expand_turn {fuel : Nat} {net : Net} {p : Option Int} {spkt : StreamPacket}
    {pkt : DataPacket} {r : Net × StreamPacket × DataPacket × List Effect}
    (hw : isWildcard spkt = true) (h : processRequest (fuel + 1) net p spkt pkt = .ok r)
    {i : FrameID} (hi : i ∈ net.stream.frames) (hcov : covers spkt i = true) :
    ∃ net₁ spkt₁ pkt₁ r₁, net₁.stream = net.stream ∧ spkt₁.channel = spkt.channel ∧
      processRequest fuel net₁ p (expanded spkt₁ i) pkt₁ = .ok r₁ := by
  rw [processRequest_expand hw, bind_eq_ok] at h
  obtain ⟨b, hfold, -⟩ := h
  obtain ⟨⟨net₁, spkt₁, pkt₁, es₁⟩, b₂, ⟨hstream, hchan⟩, hstep⟩ := Framework.foldlM_step_ok
    (P := fun b => b.1.stream = net.stream ∧ b.2.1.channel = spkt.channel) hfold ⟨rfl, rfl⟩
    (by
      rintro ⟨n, s, d, es⟩ j b' - ⟨hn, hs⟩ hbody
      obtain ⟨⟨n', s', d', more⟩, hcall, hret⟩ := bind_eq_ok.mp hbody
      cases hret
      obtain ⟨-, hs', -⟩ := processRequest_spec fuel hcall
      exact ⟨(processRequest_stream hcall).trans hn, hs'.trans hs⟩)
    (List.mem_filter.mpr ⟨hi, hcov⟩)
  obtain ⟨r₁, hcall, -⟩ := bind_eq_ok.mp hstep
  exact ⟨net₁, spkt₁, pkt₁, r₁, hstream, hchan, hcall⟩

/-- **A known wildcard frame is never done with.** Its turn of the loop is a
request that matches it again, at every depth. -/
theorem wildcard_frame_diverges {i : FrameID} (hnamed : ∃ spkt : StreamPacket, spkt.frame = i)
    (hi : IsWildcardFrame i) (fuel : Nat) {net : Net} {p : Option Int} {spkt : StreamPacket}
    {pkt : DataPacket} {r : Net × StreamPacket × DataPacket × List Effect}
    (hw : isWildcard spkt = true) (hmem : i ∈ net.stream.frames) (hcov : covers spkt i = true) :
    processRequest fuel net p spkt pkt ≠ .ok r := by
  induction fuel generalizing net spkt pkt r with
  | zero =>
      intro h
      cases h
  | succ fuel ih =>
      intro h
      obtain ⟨net₁, spkt₁, pkt₁, r₁, hstream, -, hcall⟩ := expand_turn hw h hmem hcov
      have hframe := frame_expanded hnamed spkt₁
      refine ih ?_ (hstream ▸ hmem) ?_ hcall
      · rw [isWildcard_iff, hframe]
        exact hi
      · have hself := covers_frame_self (expanded spkt₁ i)
        rwa [hframe] at hself

/-! ## §4  The frames a host gets to know -/

/-- The host received a packet of a peer, a request or not. -/
def HearsStep (net : Net) (e : Int × Packet) (net' : Net) : Prop :=
  ∃ fuel now ttimeoff effects,
    net.receiveHost fuel e.1 now ttimeoff e.2.1 e.2.2 = .ok (net', effects)

theorem noteSeen_frames {net net' : Net} {spkt : StreamPacket} {pkt : DataPacket}
    {effects : List Effect} (h : net.noteSeen spkt pkt = .ok (net', effects)) {i : FrameID}
    (hi : i ∈ net'.stream.frames) : i ∈ net.stream.frames ∨ i = spkt.frame := by
  unfold noteSeen at h
  split at h
  · cases h
    exact .inl hi
  · obtain ⟨⟨stream, fired⟩, hseen, hret⟩ := bind_eq_ok.mp h
    cases hret
    obtain ⟨st, -, rfl⟩ := Stream.seen_eq hseen
    by_cases hif : i = spkt.frame
    · exact .inr hif
    · rw [Stream.mem_frames, Stream.getState_update_ne hif, ← Stream.mem_frames] at hi
      exact .inl hi

theorem earlyProcessPacket_frames {net net' : Net} {now : Int} {spkt : StreamPacket}
    {pkt : DataPacket} {effects : List Effect}
    (h : net.earlyProcessPacket now spkt pkt = .ok (net', effects)) {i : FrameID}
    (hi : i ∈ net'.stream.frames) : i ∈ net.stream.frames ∨ i = spkt.frame := by
  unfold earlyProcessPacket at h
  split_ifs at h
  · cases h
    exact .inl hi
  · obtain ⟨⟨net₁, seen⟩, hseen, h⟩ := bind_eq_ok.mp h
    obtain ⟨⟨net₂, requests⟩, hmanage, h⟩ := bind_eq_ok.mp h
    cases h
    obtain ⟨tally, rfl⟩ := manageRequests_changes hmanage
    exact noteSeen_frames hseen hi

theorem processPacket_stream {fuel : Nat} {net net' : Net} {p : Option Int} {now ttimeoff : Int}
    {spkt : StreamPacket} {pkt : DataPacket} {effects : List Effect}
    (h : processPacket fuel net p now ttimeoff spkt pkt = .ok (net', effects)) :
    net'.stream = net.stream := by
  unfold processPacket at h
  extract_lets spkt' at h
  split_ifs at h
  · cases h
    rfl
  · obtain ⟨⟨net₁, spkt₁, pkt₁, es⟩, hreq, hret⟩ := bind_eq_ok.mp h
    cases hret
    exact processRequest_stream hreq
  · cases h
    rfl

theorem HearsStep.framesNamed {net net' : Net} {e : Int × Packet} (h : HearsStep net e net')
    (hnamed : net.FramesNamed) : net'.FramesNamed := by
  obtain ⟨fuel, now, ttimeoff, effects, hrecv⟩ := h
  obtain ⟨⟨net₁, early⟩, hearly, hrest⟩ := bind_eq_ok.mp hrecv
  obtain ⟨⟨net₂, more⟩, hproc, hret⟩ := bind_eq_ok.mp hrest
  cases hret
  intro i hi
  rw [processPacket_stream hproc] at hi
  rcases earlyProcessPacket_frames hearly hi with hold | rfl
  · exact hnamed i hold
  · exact ⟨_, rfl⟩

/-- A host knows only frames that packets of its peers named. -/
theorem framesNamed_of_run {net₀ net : Net} (h₀ : net₀.stream.frames = [])
    {es : List (Int × Packet)} (run : Runs HearsStep net₀ es net) : net.FramesNamed := by
  refine run.invariant ?_ fun _ _ _ hnamed hstep => hstep.framesNamed hnamed
  intro i hi
  rw [h₀] at hi
  cases hi

/-! ## §5  Exactly when a request is handled -/

/-- No matching frame is a wildcard itself, and the channel can be shifted into the
mask of a client if there is anything to do for one. -/
structure Expandable (net : Net) (p : Option Int) (spkt : StreamPacket) : Prop where
  plain : isWildcard spkt = true → ∀ i, net.Matches spkt i → ¬ IsWildcardFrame i
  shift : p.isSome → spkt.channel < 0 → ∀ i, ¬ net.Matches spkt i

theorem matches_single {spkt : StreamPacket} (h : isWildcard spkt = false) (net : Net)
    (i : FrameID) : net.Matches spkt i ↔ i = spkt.frame := by
  simp [Matches, h]

theorem matches_wildcard {spkt : StreamPacket} (h : isWildcard spkt = true) (net : Net)
    (i : FrameID) : net.Matches spkt i ↔ i ∈ net.stream.frames.filter (covers spkt) := by
  simp [Matches, h]

theorem processFrameRequest_undefined {p : Option Int} {spkt : StreamPacket} (hp : p.isSome)
    (hc : spkt.channel < 0) (net : Net) (pkt : DataPacket) :
    net.processFrameRequest p spkt pkt = .error .undefined := by
  rw [processFrameRequest, if_pos (by simp [hp, hc])]

/-- An entry is written only for a channel that can be shifted. -/
theorem processFrameRequest_shift {net net' : Net} {peerid : Int} {spkt spkt' : StreamPacket}
    {pkt pkt' : DataPacket} {effects : List Effect}
    (h : net.processFrameRequest (some peerid) spkt pkt = .ok (net', spkt', pkt', effects)) :
    0 ≤ spkt.channel := by
  rw [← not_lt]
  intro hneg
  rw [processFrameRequest_undefined rfl hneg] at h
  cases h

/-- What is granted of a request asks for its channel and its number of frames. -/
structure Grants (spkt : StreamPacket) (pkt : DataPacket) (x : Packet) : Prop where
  channel : x.1.channel = spkt.channel
  shift : 0 ≤ x.1.channel
  count : x.2.frameCount = pkt.frameCount

/-- The loop over frames none of which is a wildcard grants one request for each. -/
theorem expand_registers {fuel : Nat} {peerid : Int} {l : List FrameID}
    (hnamed : ∀ i ∈ l, ∃ spkt : StreamPacket, spkt.frame = i)
    (hplain : ∀ i ∈ l, ¬ IsWildcardFrame i) {net : Net} {spkt : StreamPacket} {pkt : DataPacket}
    {es : List Effect} {b : Net × StreamPacket × DataPacket × List Effect}
    (h : l.foldlM (expandStep fuel (some peerid)) (net, spkt, pkt, es) = .ok b) :
    ∃ m : List Packet, m.map (fun x => x.1.frame) = l ∧
      (∀ x ∈ m, Grants spkt pkt x) ∧ b.1 = net.registerAll (some peerid) m := by
  induction l generalizing net spkt pkt es with
  | nil =>
      cases h
      exact ⟨[], rfl, by simp, rfl⟩
  | cons i l ih =>
      rw [List.foldlM_cons, bind_eq_ok] at h
      obtain ⟨b₁, hturn, hrest⟩ := h
      obtain ⟨⟨net₁, spkt₁, pkt₁, more⟩, hcall, hret⟩ := bind_eq_ok.mp hturn
      cases hret
      have hframe := frame_expanded (hnamed i (by simp)) spkt
      have hsingle : isWildcard (expanded spkt i) = false :=
        isWildcard_expanded (hnamed i (by simp)) (hplain i (by simp)) spkt
      cases fuel with
      | zero => cases hcall
      | succ fuel =>
          rw [processRequest_plain hsingle] at hcall
          obtain ⟨hcount, hchan, -, hnet⟩ := processFrameRequest_spec hcall
          have hshift : 0 ≤ (expanded spkt i).channel := processFrameRequest_shift hcall
          obtain ⟨m, hm, hall, hb⟩ := ih (fun j hj => hnamed j (by simp [hj]))
            (fun j hj => hplain j (by simp [hj])) hrest
          refine ⟨(expanded spkt i, pkt) :: m, by simp [hframe, hm], ?_, ?_⟩
          · intro x hx
            rcases List.mem_cons.mp hx with rfl | hx
            · exact ⟨rfl, hshift, rfl⟩
            · have hx := hall x hx
              exact ⟨hx.channel.trans hchan, hx.shift, hx.count.trans hcount⟩
          · rw [hb]
            exact congrArg (fun n => registerAll n (some peerid) m) hnet

/-- **What one request grants**: one entry in each frame it matches, for its channel. -/
theorem processRequest_matches {fuel : Nat} {net net' : Net} {peerid : Int}
    {spkt spkt' : StreamPacket} {pkt pkt' : DataPacket} {effects : List Effect}
    (hnamed : net.FramesNamed)
    (h : processRequest fuel net (some peerid) spkt pkt = .ok (net', spkt', pkt', effects)) :
    ∃ m : List Packet, (∀ f, (∃ x ∈ m, x.1.frame = f) ↔ net.Matches spkt f) ∧
      (∀ x ∈ m, Grants spkt pkt x) ∧ net' = net.registerAll (some peerid) m := by
  cases fuel with
  | zero => cases h
  | succ fuel =>
      cases hw : isWildcard spkt with
      | false =>
          rw [processRequest_plain hw] at h
          obtain ⟨-, -, -, hnet⟩ := processFrameRequest_spec h
          refine ⟨[(spkt, pkt)], fun f => ?_, ?_, hnet⟩
          · rw [matches_single hw]
            simp [eq_comm]
          · intro x hx
            rw [List.mem_singleton.mp hx]
            exact ⟨rfl, processFrameRequest_shift h, rfl⟩
      | true =>
          have hback := h
          rw [processRequest_expand hw, bind_eq_ok] at h
          obtain ⟨b, hloop, hret⟩ := h
          cases hret
          have hmem : ∀ i ∈ net.stream.frames.filter (covers spkt),
              i ∈ net.stream.frames ∧ covers spkt i = true := fun i hi => List.mem_filter.mp hi
          obtain ⟨m, hm, hall, hnet⟩ := expand_registers
            (fun i hi => hnamed i (hmem i hi).1)
            (fun i hi hwild => wildcard_frame_diverges (hnamed i (hmem i hi).1) hwild _ hw
              (hmem i hi).1 (hmem i hi).2 hback) hloop
          refine ⟨m, fun f => ?_, hall, hnet⟩
          rw [matches_wildcard hw, ← hm]
          simp

theorem expandable_of_handlesOnce {net : Net} {p : Option Int} {spkt : StreamPacket}
    {pkt : DataPacket} (hseen : net.FramesNamed) (h : net.HandlesOnce p spkt pkt) :
    net.Expandable p spkt := by
  obtain ⟨fuel, net', spkt', pkt', effects, hok, -, -⟩ := h
  have hplain : isWildcard spkt = true → ∀ i, net.Matches spkt i → ¬ IsWildcardFrame i := by
    intro hw i hi hwi
    rw [matches_wildcard hw, List.mem_filter] at hi
    exact wildcard_frame_diverges (hseen i hi.1) hwi fuel hw hi.1 hi.2 hok
  refine ⟨hplain, ?_⟩
  intro hp hc i hi
  cases fuel with
  | zero => cases hok
  | succ fuel =>
      cases hw : isWildcard spkt with
      | false =>
          rw [processRequest_plain hw, processFrameRequest_undefined hp hc] at hok
          cases hok
      | true =>
          have hnot := hplain hw i hi
          rw [matches_wildcard hw, List.mem_filter] at hi
          obtain ⟨net₁, spkt₁, pkt₁, r₁, -, hchan, hcall⟩ := expand_turn hw hok hi.1 hi.2
          have hsingle : isWildcard (expanded spkt₁ i) = false :=
            isWildcard_expanded (hseen i hi.1) hnot spkt₁
          cases fuel with
          | zero => cases hcall
          | succ fuel =>
              have hc₁ : (expanded spkt₁ i).channel < 0 := by
                show spkt₁.channel < 0
                rwa [hchan]
              rw [processRequest_plain hsingle, processFrameRequest_undefined hp hc₁] at hcall
              cases hcall

theorem handlesOnce_of_expandable {net : Net} {p : Option Int} {spkt : StreamPacket}
    (hseen : net.FramesNamed) (h : net.Expandable p spkt) (pkt : DataPacket) :
    net.HandlesOnce p spkt pkt := by
  have hdef (hex : ∃ i, net.Matches spkt i) : p = none ∨ 0 ≤ spkt.channel := by
    obtain ⟨i, hi⟩ := hex
    cases p with
    | none => exact .inl rfl
    | some peerid =>
        refine .inr (not_lt.mp ?_)
        intro hc
        exact h.shift rfl hc i hi
  cases hw : isWildcard spkt with
  | false =>
      have hm := matches_single hw net
      obtain ⟨net', spkt', pkt', effects, hcall, -, hreq⟩ :=
        processFrameRequest_ok (hdef ⟨_, (hm _).mpr rfl⟩) net pkt
      refine ⟨1, net', spkt', pkt', effects, ?_, ?_, ?_⟩
      · rw [processRequest_plain hw, hcall]
      · rw [hreq]
        exact List.nodup_singleton _
      · intro i
        rw [hreq, hm, List.mem_singleton]
  | true =>
      have hm := matches_wildcard hw net
      set l := net.stream.frames.filter (covers spkt) with hl
      have hloop : ∃ b, l.foldlM (expandStep 1 p) (net, spkt, pkt, []) = .ok b ∧
          requestedFrames b.2.2.2 = l := by
        cases hcase : l with
        | nil => exact ⟨_, rfl, rfl⟩
        | cons i rest =>
            rw [← hcase]
            have hi : i ∈ l := by
              rw [hcase]
              exact List.mem_cons_self
            exact expand_ok (hdef ⟨i, (hm i).mpr hi⟩)
              (fun j hj => hseen j (List.mem_of_mem_filter hj))
              (fun j hj => h.plain hw j ((hm j).mpr hj)) net rfl pkt []
      obtain ⟨b, hb, hreq⟩ := hloop
      refine ⟨2, b.1, spkt, b.2.2.1, b.2.2.2, ?_, ?_, ?_⟩
      · rw [processRequest_expand hw, ← hl, hb]
        rfl
      · rw [hreq, hl]
        exact (frames_nodup _).filter _
      · intro i
        rw [hreq, hm]

/-- **Exactly when a request is handled.** Over whatever frames packets have made
known, a request is processed to its end with every matching frame handled once if
and only if no matching frame of a wildcard is a wildcard itself, and the channel is
not negative where an entry of a client is to be written. -/
theorem request_handled_once_iff {net : Net} (hseen : net.FramesNamed) (p : Option Int)
    (spkt : StreamPacket) (pkt : DataPacket) :
    net.HandlesOnce p spkt pkt ↔ net.Expandable p spkt :=
  ⟨expandable_of_handlesOnce hseen, fun h => handlesOnce_of_expandable hseen h pkt⟩

/-- A host that was sent one packet of a frame, by the peer with local id 7. -/
def HostSent (frameNumber : UInt8) (net : Net) : Prop :=
  Runs HearsStep { host := true, active := true }
    [(7, { timestamp := 1, streamID := 0, frameNumber := frameNumber, channel := Channel.kColour },
      { data := [1] })] net

theorem hostSent_known (frameNumber : UInt8) :
    ∃ net, HostSent frameNumber net ∧
      net.stream.frames = [FrameID.ofPair 0 frameNumber.toNat] :=
  ⟨_, Runs.init.snoc ⟨1, 0, 0, _, rfl⟩, rfl⟩

def requestAll (frameset : UInt8) : StreamPacket :=
  { timestamp := 2, streamID := frameset, frameNumber := 255, channel := Channel.kColour,
    flags := kFlagRequest }

theorem request_handled_once_known : ∃ net, HostSent 3 net ∧
    net.stream.frames = [FrameID.ofPair 0 3] ∧ net.HandlesOnce (some 7) (requestAll 255) {} := by
  obtain ⟨net, run, hframes⟩ := hostSent_known 3
  refine ⟨net, run, hframes, ?_⟩
  refine (request_handled_once_iff (framesNamed_of_run rfl run) _ _ _).mpr ⟨?_, ?_⟩
  · intro hw i hi
    rw [matches_wildcard hw, hframes] at hi
    obtain rfl := List.mem_singleton.mp (List.mem_of_mem_filter hi)
    unfold IsWildcardFrame
    decide
  · intro _ hc
    exact absurd hc (by decide)

/-- Once a packet has named source 255, a request for all sources is never done. -/
theorem request_for_all_never_done : ∃ net, HostSent 255 net ∧
    ¬ net.HandlesOnce (some 7) (requestAll 0) {} := by
  obtain ⟨net, run, hframes⟩ := hostSent_known 255
  refine ⟨net, run, ?_⟩
  intro h
  refine (expandable_of_handlesOnce (framesNamed_of_run rfl run) h).plain rfl
    (FrameID.ofPair 0 255) ?_ ?_
  · rw [matches_wildcard rfl, hframes]
    decide
  · unfold IsWildcardFrame
    decide

end BeyondProtocol.Net
