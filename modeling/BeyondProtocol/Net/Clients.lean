import BeyondProtocol.Net.Net

/-!
# The client entries of a host

What a request and a post do to the list of clients of every frame: these are
the only two calls that change it.
-/

namespace BeyondProtocol.Net

/-! ## §1  The clients of a frame -/

def clients (net : Net) (f : FrameID) : List StreamClientLocal := (net.clientsLocal f).getD []

/-- The entries one peer has for a frame. -/
def entries (net : Net) (f : FrameID) (peerid : Int) : List StreamClientLocal :=
  (net.clients f).filter fun c => c.peerid = peerid

theorem clients_cleanUp (net : Net) (f : FrameID) :
    net.cleanUp.clients f = (net.clients f).filter fun c => !isStale c := by
  show (cleanClients (net.clientsLocal f)).getD [] = _
  rw [clients]
  cases net.clientsLocal f with
  | none => rfl
  | some cs =>
      rw [cleanClients, Option.getD_some]
      split_ifs with h
      · rw [h, Option.getD_none]
      · rfl

theorem clients_setClients_self (net : Net) (f : FrameID) (cs : List StreamClientLocal) :
    (net.setClients f cs).clients f = cs := by
  simp [clients, setClients]

theorem clients_setClients_ne {f g : FrameID} (h : g ≠ f) (net : Net)
    (cs : List StreamClientLocal) : (net.setClients f cs).clients g = net.clients g := by
  simp [clients, setClients, h]

theorem clients_registerClient_self (net : Net) (spkt : StreamPacket) (pkt : DataPacket)
    (peerid : Int) : (net.registerClient spkt pkt peerid).clients spkt.frame =
      grantClient spkt pkt peerid (net.clients spkt.frame) :=
  clients_setClients_self _ _ _

theorem clients_registerClient_ne {f : FrameID} {spkt : StreamPacket} (h : f ≠ spkt.frame)
    (net : Net) (pkt : DataPacket) (peerid : Int) :
    (net.registerClient spkt pkt peerid).clients f = net.clients f :=
  clients_setClients_ne h _ _

/-! ## §2  Posting -/

/-- A stream that is hosting, started and not paused. -/
structure Serving (net : Net) : Prop where
  active : net.active = true
  host : net.host = true
  unpaused : net.paused = false

/-- What one post leaves in the list of a client, sends succeeding as `deliver` says. -/
def afterPost (deliver : Destination → SendOutcome) (spkt : StreamPacket)
    (cs : List StreamClientLocal) : List StreamClientLocal :=
  (cs.map fun c => sendTo (deliver (.client c.peerid)) spkt c).filter fun c => !isStale c

/-- **One post.** It goes to the clients of its frame, whose list is left without
stale entries; the clean-up may also drop stale entries of other frames. -/
theorem send_spec {net net' : Net} {deliver : Destination → SendOutcome} {spkt : StreamPacket}
    {pkt : DataPacket} {effects : List Effect} {ok : Bool} (hserving : net.Serving)
    (h : net.send deliver spkt pkt = .ok (net', effects, ok)) :
    net'.Serving ∧ net'.stream = net.stream ∧
      effects = (net.clients spkt.frame).flatMap
        (fun c => sendEffects (deliver (.client c.peerid)) spkt pkt c) ∧
      net'.clients spkt.frame = afterPost deliver spkt (net.clients spkt.frame) ∧
      ∀ f, f ≠ spkt.frame → net'.clients f = net.clients f ∨
        net'.clients f = (net.clients f).filter fun c => !isStale c := by
  obtain ⟨hactive, hhost, hpaused⟩ := hserving
  unfold send at h
  simp only [hactive, hhost, hpaused, Bool.not_true, Bool.false_eq_true, if_false, if_true] at h
  cases hcs : net.clientsLocal spkt.frame with
  | none =>
      simp only [hcs, Except.ok.injEq, Prod.mk.injEq] at h
      obtain ⟨rfl, rfl, -⟩ := h
      have hnil : net.clients spkt.frame = [] := by simp [clients, hcs]
      refine ⟨⟨hactive, hhost, hpaused⟩, rfl, by simp [hnil], by simp [hnil, afterPost], ?_⟩
      exact fun f _ => .inl rfl
  | some cs =>
      simp only [hcs] at h
      split at h
      · cases h
      · have hclients : net.clients spkt.frame = cs := by simp [clients, hcs]
        set cs' := cs.map fun c => sendTo (deliver (.client c.peerid)) spkt c with hcs'
        simp only [Except.ok.injEq, Prod.mk.injEq] at h
        obtain ⟨rfl, heffects, -⟩ := h
        rw [hclients]
        -- without a stale entry the clean-up is left out, and would change nothing
        by_cases hstale : cs'.any isStale
        · rw [if_pos hstale]
          refine ⟨⟨hactive, hhost, hpaused⟩, rfl, heffects.symm, ?_, fun f hf => .inr ?_⟩
          · rw [clients_cleanUp, clients_setClients_self]
            rfl
          · rw [clients_cleanUp, clients_setClients_ne hf]
        · rw [if_neg hstale]
          refine ⟨⟨hactive, hhost, hpaused⟩, rfl, heffects.symm, ?_,
            fun f hf => .inl (clients_setClients_ne hf _ _)⟩
          rw [clients_setClients_self]
          refine (List.filter_eq_self.mpr fun c hc => ?_).symm
          simp only [List.any_eq_true, not_exists, not_and, Bool.not_eq_true] at hstale
          simp [hstale c hc]

/-! ## §3  Requests -/

theorem covers_frame_iff {spkt : StreamPacket} (h : isWildcard spkt = false) (f : FrameID) :
    covers spkt f = true ↔ f = spkt.frame := by
  simp only [isWildcard, Bool.or_eq_false_iff, decide_eq_false_iff_not] at h
  simp only [covers, h.1, h.2, decide_false, Bool.false_or, Bool.and_eq_true, decide_eq_true_iff]
  constructor
  · rintro ⟨hfs, hs⟩
    exact FrameID.ext_parts (by simpa using hfs) (by simpa using hs)
  · rintro rfl
    simp

theorem frame_ofNat {f : FrameID} (hfs : f.frameset < 256) {spkt : StreamPacket}
    (hs : spkt.streamID = UInt8.ofNat f.frameset) (hn : spkt.frameNumber = UInt8.ofNat f.source) :
    spkt.frame = f := by
  have hsrc := f.source_lt
  refine FrameID.ext_parts ?_ ?_
  · rw [StreamPacket.frame_frameset, hs, UInt8.toNat_ofNat']
    exact Nat.mod_eq_of_lt hfs
  · rw [StreamPacket.frame_source, hn, UInt8.toNat_ofNat']
    exact Nat.mod_eq_of_lt hsrc

/-- What a request for one frame of a wildcard covers, the wildcard covers too. -/
theorem covers_of_expanded {spkt spkt2 : StreamPacket} {i f : FrameID} (hi : covers spkt i = true)
    (hs : spkt2.streamID = UInt8.ofNat i.frameset) (hn : spkt2.frameNumber = UInt8.ofNat i.source)
    (h : covers spkt2 f = true) : covers spkt f = true := by
  have hid := spkt.streamID.toNat_lt
  have hnum := spkt.frameNumber.toNat_lt
  have hfs : spkt2.streamID.toNat = i.frameset % 256 := by simp [hs]
  have hsrc : spkt2.frameNumber.toNat = i.source % 256 := by simp [hn]
  simp only [covers, Bool.and_eq_true, Bool.or_eq_true, decide_eq_true_iff] at hi h ⊢
  rw [hfs, hsrc] at h
  simp only [kAll] at hi h ⊢
  omega

theorem transmissions_append (dest : Destination) (es es' : List Effect) :
    transmissions dest (es ++ es') = transmissions dest es ++ transmissions dest es' :=
  List.filterMap_append

/-- The entries a list of granted requests of one peer leaves. -/
def registerAll (net : Net) (p : Option Int) (l : List Packet) : Net :=
  match p with
  | none => net
  | some peerid => l.foldl (fun n x => n.registerClient x.1 x.2 peerid) net

theorem registerAll_nil (net : Net) (p : Option Int) : net.registerAll p [] = net := by
  cases p <;> rfl

theorem registerAll_append (net : Net) (p : Option Int) (l m : List Packet) :
    net.registerAll p (l ++ m) = (net.registerAll p l).registerAll p m := by
  cases p with
  | none => rfl
  | some peerid => exact List.foldl_append

theorem processFrameRequest_spec {net net' : Net} {p : Option Int} {spkt spkt' : StreamPacket}
    {pkt pkt' : DataPacket} {effects : List Effect}
    (h : net.processFrameRequest p spkt pkt = .ok (net', spkt', pkt', effects)) :
    pkt'.frameCount = pkt.frameCount ∧ spkt'.channel = spkt.channel ∧
      (∀ dest, transmissions dest effects = []) ∧ net' = net.registerAll p [(spkt, pkt)] := by
  unfold processFrameRequest at h
  split at h
  · cases h
  · have hcount : (if spkt.channel.isVideo = true then
        { pkt with bitrate := min pkt.bitrate net.bitrate } else pkt).frameCount =
        pkt.frameCount := by
      split <;> rfl
    cases p with
    | none =>
        cases h
        exact ⟨hcount, rfl, fun _ => rfl, rfl⟩
    | some peerid =>
        simp only at h
        split at h <;> cases h <;> exact ⟨hcount, rfl, fun _ => rfl, rfl⟩

theorem processRequest_plain {spkt : StreamPacket} (h : isWildcard spkt = false) (fuel : Nat)
    (net : Net) (p : Option Int) (pkt : DataPacket) :
    processRequest (fuel + 1) net p spkt pkt = net.processFrameRequest p spkt pkt := by
  rw [processRequest, if_neg (by simp [h])]

/-- The packets a request was expanded to: their frames are covered, and each
asks for the same channel and as many frames. -/
def Expands (spkt : StreamPacket) (pkt : DataPacket) (l : List Packet) : Prop :=
  ∀ x ∈ l, covers spkt x.1.frame = true ∧ x.1.channel = spkt.channel ∧
    x.2.frameCount = pkt.frameCount

/-- **One request** renews or adds entries of its peer in frames it covers, and
does nothing else to the stream. -/
theorem processRequest_spec (fuel : Nat) {net net' : Net} {p : Option Int}
    {spkt spkt' : StreamPacket} {pkt pkt' : DataPacket} {effects : List Effect}
    (h : processRequest fuel net p spkt pkt = .ok (net', spkt', pkt', effects)) :
    pkt'.frameCount = pkt.frameCount ∧ spkt'.channel = spkt.channel ∧
      (∀ dest, transmissions dest effects = []) ∧
      ∃ l, Expands spkt pkt l ∧ net' = net.registerAll p l := by
  induction fuel generalizing net net' spkt spkt' pkt pkt' effects with
  | zero => cases h
  | succ fuel ih =>
      unfold processRequest at h
      split at h
      case isTrue hwild =>
        rw [Framework.bind_eq_ok] at h
        obtain ⟨⟨net₁, spkt₁, pkt₁, effects₁⟩, hfold, hret⟩ := h
        cases hret
        -- invariant of the loop: what was granted so far was covered
        obtain ⟨hcount, -, htx, l, hl, hnet⟩ := Framework.foldlM_invariant
          (P := fun b => b.2.2.1.frameCount = pkt.frameCount ∧ b.2.1.channel = spkt.channel ∧
            (∀ dest, transmissions dest b.2.2.2 = []) ∧
            ∃ l, Expands spkt pkt l ∧ b.1 = net.registerAll p l) hfold
          ⟨rfl, rfl, fun _ => rfl, [], by simp [Expands], (registerAll_nil net p).symm⟩
          (by
            rintro ⟨n, s, d, es⟩ i ⟨n', s', d', es'⟩ hi ⟨hd, hs, htx, l, hl, hn⟩ hbody
            simp only [Framework.bind_eq_ok] at hbody
            obtain ⟨⟨n₂, s₂, d₂, more⟩, hcall, hret⟩ := hbody
            cases hret
            obtain ⟨hd₂, hs₂, htx₂, m, hm, hn₂⟩ := ih hcall
            simp only at hd hs hn hd₂ hs₂ hn₂
            refine ⟨hd₂.trans hd, hs₂.trans hs, fun dest => ?_, l ++ m, ?_, ?_⟩
            · rw [transmissions_append, htx dest, htx₂ dest, List.append_nil]
            · intro x hx
              rcases List.mem_append.mp hx with hx | hx
              · exact hl x hx
              · obtain ⟨hcov, hchan, hcnt⟩ := hm x hx
                exact ⟨covers_of_expanded (List.of_mem_filter hi) rfl rfl hcov,
                  hchan.trans hs, hcnt.trans hd⟩
            · simp only
              rw [hn₂, hn, registerAll_append])
        exact ⟨hcount, rfl, htx, l, hl, hnet⟩
      case isFalse hsingle =>
        obtain ⟨hcount, hchan, htx, hnet⟩ := processFrameRequest_spec h
        refine ⟨hcount, hchan, htx, [(spkt, pkt)], ?_, hnet⟩
        intro x hx
        obtain rfl := List.mem_singleton.mp hx
        exact ⟨(covers_frame_iff (by simpa using hsingle) _).mpr rfl, rfl, rfl⟩

theorem noteSeen_changes {net net' : Net} {spkt : StreamPacket} {pkt : DataPacket}
    {effects : List Effect} (h : net.noteSeen spkt pkt = .ok (net', effects)) :
    ∃ stream, net' = { net with stream := stream } := by
  unfold noteSeen at h
  split_ifs at h
  · cases h
    exact ⟨net.stream, rfl⟩
  · obtain ⟨⟨stream, fired⟩, -, h⟩ := Framework.bind_eq_ok.mp h
    cases h
    exact ⟨stream, rfl⟩

theorem manageRequests_changes {net net' : Net} {now : Int} {spkt : StreamPacket}
    {effects : List Effect} (h : net.manageRequests now spkt = .ok (net', effects)) :
    ∃ tally, net' = { net with tally := tally } := by
  unfold manageRequests countEndFrame at h
  split_ifs at h
  · cases h
    exact ⟨_, rfl⟩
  · obtain ⟨_, -, h⟩ := Framework.bind_eq_ok.mp h
    cases h
    exact ⟨_, rfl⟩
  all_goals
    cases h
    exact ⟨_, rfl⟩

/-- `_earlyProcessPacket` touches the availability of the stream and the tally only. -/
theorem earlyProcessPacket_changes {net net' : Net} {now : Int} {spkt : StreamPacket}
    {pkt : DataPacket} {effects : List Effect}
    (h : net.earlyProcessPacket now spkt pkt = .ok (net', effects)) :
    ∃ stream tally, net' = { net with stream := stream, tally := tally } := by
  unfold earlyProcessPacket at h
  split_ifs at h
  · cases h
    exact ⟨net.stream, net.tally, rfl⟩
  · obtain ⟨⟨net₁, seen⟩, hseen, h⟩ := Framework.bind_eq_ok.mp h
    obtain ⟨⟨net₂, requests⟩, hmanage, h⟩ := Framework.bind_eq_ok.mp h
    cases h
    obtain ⟨stream, rfl⟩ := noteSeen_changes hseen
    obtain ⟨tally, rfl⟩ := manageRequests_changes hmanage
    exact ⟨stream, tally, rfl⟩

/-- A packet that a client processes is handed on, if the stream is active. -/
theorem processPacket_client {net : Net} (hrecv : net.host = false) (fuel : Nat) (p : Option Int)
    (now ttimeoff : Int) (spkt : StreamPacket) (pkt : DataPacket) :
    processPacket fuel net p now ttimeoff spkt pkt =
      .ok (net, if net.active then [.trigger { spkt with
        localTimestamp := if spkt.localTimestamp = 0 then now - ttimeoff else spkt.localTimestamp
        hintCapability := 0 } pkt] else []) := by
  unfold processPacket
  cases hactive : net.active with
  | false => simp
  | true => simp [hrecv]

theorem manageRequests_host {net : Net} (hhost : net.host = true) (now : Int)
    (spkt : StreamPacket) : net.manageRequests now spkt = .ok (net, []) := by
  simp [manageRequests, hhost]

theorem noteSeen_quiet {net net' : Net} {spkt : StreamPacket} {pkt : DataPacket}
    {effects : List Effect} (h : net.noteSeen spkt pkt = .ok (net', effects))
    (dest : Destination) : transmissions dest effects = [] := by
  unfold noteSeen at h
  split_ifs at h
  · cases h
    rfl
  · obtain ⟨⟨stream, fired⟩, -, h⟩ := Framework.bind_eq_ok.mp h
    cases h
    cases fired <;> rfl

/-- A request is not noted as seen, and a host manages no requests of its own. -/
theorem earlyProcessPacket_request {net net' : Net} {now : Int} {spkt : StreamPacket}
    {pkt : DataPacket} {effects : List Effect} (hactive : net.active = true)
    (hhost : net.host = true) (hreq : isRequest spkt pkt = true)
    (h : net.earlyProcessPacket now spkt pkt = .ok (net', effects)) :
    net' = net ∧ effects = [] := by
  have hseen : net.noteSeen spkt pkt = .ok (net, []) := by simp [noteSeen, hhost, hreq]
  have hmanage := manageRequests_host hhost now spkt
  unfold earlyProcessPacket at h
  split at h
  · cases h
  · rw [if_neg (by simp [hactive])] at h
    simp only [hseen, hmanage, Framework.ok_bind] at h
    cases h
    exact ⟨rfl, rfl⟩

end BeyondProtocol.Net
