import BeyondProtocol.Net.Credit

/-!
# Requests against credit: streaming never stalls

One host and one client, joined by two reliable first-in first-out channels. The
client counts EndFrames per frameset (`tally_`) and asks again at half the
request size; the host counts them per frame (`txcount`). The two counters drift
apart by what is in flight. `Covered` relates them: a selected frame either has a
request on the way to the host, or its credit and the EndFrames on the way to the
client outlast the countdown.

A frame whose source number is 255 stands for all sources in a request
(`kAllFrames`), so no credit of its own is ever granted to it.
-/

namespace BeyondProtocol.Net

open Framework

/-! ## §1  The session -/

structure Session where
  host : Net
  client : Net
  toHost : List Packet := []
  toClient : List Packet := []

/-- The calls of the application on the client. -/
inductive ClientCall : Type where
  | enable (id : FrameID)
  | enableChannel (id : FrameID) (c : Channel)
  | enableChannels (id : FrameID) (cs : ChannelSet)
  | disable (id : FrameID)
  | disableChannel (id : FrameID) (c : Channel)
  | disableChannels (id : FrameID) (cs : ChannelSet)
  | refresh

namespace ClientCall

/-- Framesets are below five and a channel set is not empty. -/
def Legal : ClientCall → Prop
  | .enable id => id.frameset < 5
  | .enableChannel id _ => id.frameset < 5
  | .enableChannels id cs => id.frameset < 5 ∧ cs ≠ ∅
  | _ => True

def run (net : Net) (now : Int) (found : Option UUID) :
    ClientCall → Except Fault (Net × List Effect)
  | .enable id => do
      let (net, effects, _) ← net.enable now found id
      return (net, effects)
  | .enableChannel id c => do
      let (net, effects, _) ← net.enableChannel now found id c
      return (net, effects)
  | .enableChannels id cs => do
      let (net, effects, _) ← net.enableChannels now found id cs
      return (net, effects)
  | .disable id => .ok ({ net with stream := net.stream.disable id }, [])
  | .disableChannel id c => .ok ({ net with stream := net.stream.disableChannel id c }, [])
  | .disableChannels id cs => .ok ({ net with stream := net.stream.disableChannels id cs }, [])
  | .refresh => net.refresh now

end ClientCall

inductive FlowEvent : Type where
  | post (spkt : StreamPacket) (pkt : DataPacket)
  | call (call : ClientCall)
  | deliverToHost
  | deliverToClient

/-- The client is peer `peerid` of the host, the host has the UUID `hostId`. -/
inductive FlowStep (peerid : Int) (hostId : UUID) : Session → FlowEvent → Session → Prop where
  | post {s : Session} {host : Net} {spkt : StreamPacket} {pkt : DataPacket}
      {effects : List Effect}
      (h : s.host.post (fun _ => .sent) spkt pkt = .ok (host, effects)) :
      FlowStep peerid hostId s (.post spkt pkt)
        { s with host := host, toClient := s.toClient ++ transmissions (.client peerid) effects }
  | call {s : Session} {client : Net} {call : ClientCall} {now : Int} {effects : List Effect}
      (hlegal : call.Legal) (h : call.run s.client now (some hostId) = .ok (client, effects)) :
      FlowStep peerid hostId s (.call call)
        { s with client := client, toHost := s.toHost ++ transmissions (.host hostId) effects }
  | deliverToHost {s : Session} {host : Net} {x : Packet} {rest : List Packet} {fuel : Nat}
      {now ttimeoff buffering : Int} {effects : List Effect} (hnext : s.toHost = x :: rest)
      (h : receive fuel s.host peerid now ttimeoff buffering x.1.onWire x.2 = .ok (host, effects)) :
      FlowStep peerid hostId s .deliverToHost
        { s with
          host := host
          toHost := rest
          toClient := s.toClient ++ transmissions (.client peerid) effects }
  | deliverToClient {s : Session} {client : Net} {x : Packet} {rest : List Packet} {fuel : Nat}
      {p now ttimeoff buffering : Int} {effects : List Effect} (hnext : s.toClient = x :: rest)
      (h : receive fuel s.client p now ttimeoff buffering x.1.onWire x.2 = .ok (client, effects)) :
      FlowStep peerid hostId s .deliverToClient
        { s with
          client := client
          toClient := rest
          toHost := s.toHost ++ transmissions (.host hostId) effects }

/-- Both streams started, nothing enabled, nothing in flight; `n` is the request size. -/
def startSession (n : Nat) : Session where
  host := begin { host := true }
  client := begin { host := false, framesToRequest := n }

/-- The host's credit for a frame, zero without an entry. -/
def credit (net : Net) (f : FrameID) (peerid : Int) : Int :=
  match net.entries f peerid with
  | [] => 0
  | c :: _ => c.txcount

/-- The EndFrames of a frame among the packets in flight. -/
def endFramesOf (f : FrameID) (xs : List Packet) : Nat :=
  xs.countP fun x => x.1.isEndFrame && x.1.frame = f

/-- A frame that is enabled with at least one channel. -/
def isSelected (net : Net) (f : FrameID) : Prop :=
  net.stream.enabled f = true ∧ net.stream.enabledChannels f ≠ ∅

@[simp] theorem endFramesOf_append (f : FrameID) (xs ys : List Packet) :
    endFramesOf f (xs ++ ys) = endFramesOf f xs + endFramesOf f ys :=
  List.countP_append

/-! ## §2  The host side -/

/-- A host whose only client is the one of the session. -/
structure HostSide (peerid : Int) (net : Net) : Prop where
  serving : net.Serving
  noFrames : net.stream.frames = []
  oneEntry : OneEntryEach net
  clients : ∀ f, ∀ c ∈ net.clients f, c.peerid = peerid ∧ 0 < c.txcount

theorem HostSide.entries_eq {peerid : Int} {net : Net} (h : HostSide peerid net) (f : FrameID) :
    net.entries f peerid = net.clients f := by
  refine List.filter_eq_self.mpr fun c hc => ?_
  simp [(h.clients f c hc).1]

/-- There is no entry, or one with positive credit. -/
theorem HostSide.entries_cases {peerid : Int} {net : Net} (h : HostSide peerid net)
    (f : FrameID) : net.entries f peerid = [] ∨
      ∃ c, net.entries f peerid = [c] ∧ c.peerid = peerid ∧ 0 < c.txcount := by
  rw [h.entries_eq]
  cases hcs : net.clients f with
  | nil => exact .inl rfl
  | cons c cs =>
      have hc := h.clients f c (by rw [hcs]; simp)
      have hone := filter_peerid_eq_singleton (h.oneEntry f) (c := c) (by rw [hcs]; simp)
      rw [hc.1] at hone
      exact .inr ⟨c, by rw [← hcs, ← hone]; exact (h.entries_eq f).symm, hc⟩

theorem credit_of_entries {net : Net} {f : FrameID} {peerid : Int} {cs : List StreamClientLocal}
    (h : net.entries f peerid = cs) : credit net f peerid = (cs.head?.map (·.txcount)).getD 0 := by
  rw [credit, h]
  cases cs <;> rfl

theorem HostSide.post {peerid : Int} {net net' : Net} {spkt : StreamPacket} {pkt : DataPacket}
    {effects : List Effect} (h : HostSide peerid net)
    (hpost : net.post (fun _ => .sent) spkt pkt = .ok (net', effects)) : HostSide peerid net' := by
  have hstep := HostStep.post hpost
  obtain ⟨ok, hsend⟩ := post_eq_send hpost
  obtain ⟨hserving, hstream, -, hself, hother⟩ := send_spec h.serving hsend
  refine ⟨hserving, by rw [hstream, h.noFrames], hstep.oneEntryEach h.serving h.oneEntry, ?_⟩
  intro f c hc
  by_cases hf : f = spkt.frame
  · subst hf
    rw [hself, afterPost, List.mem_filter, List.mem_map] at hc
    obtain ⟨⟨d, hd, rfl⟩, hfresh⟩ := hc
    refine ⟨(sendTo_peerid _ _ _).trans (h.clients _ d hd).1, by simpa [isStale] using hfresh⟩
  · rcases hother f hf with hsame | hclean
    · exact h.clients f c (hsame ▸ hc)
    · rw [hclean] at hc
      exact h.clients f c (List.mem_of_mem_filter hc)

/-- **Posts conserve**: an EndFrame moves one frame of credit into flight. -/
theorem post_credit {peerid : Int} {net net' : Net} {spkt : StreamPacket} {pkt : DataPacket}
    {effects : List Effect} (h : HostSide peerid net)
    (hpost : net.post (fun _ => .sent) spkt pkt = .ok (net', effects)) (f : FrameID) :
    credit net' f peerid + endFramesOf f (transmissions (.client peerid) effects) =
      credit net f peerid := by
  obtain ⟨ok, hsend⟩ := post_eq_send hpost
  obtain ⟨-, -, rfl, hself, hother⟩ := send_spec h.serving hsend
  rw [transmissions_flatMap_sendEffects]
  by_cases hf : f = spkt.frame
  · subst hf
    have hentry : net'.entries spkt.frame peerid =
        afterPost (fun _ => .sent) spkt (net.entries spkt.frame peerid) := by
      rw [entries, hself, filter_afterPost, entries]
    change _ + ((endFramesOf spkt.frame ((net.entries spkt.frame peerid).map _) : Nat) : Int) = _
    rcases h.entries_cases spkt.frame with hnone | ⟨c, hc, -, hpos⟩
    · rw [hnone] at hentry ⊢
      rw [credit_of_entries hentry, credit_of_entries hnone]
      rfl
    · rw [hc, afterPost_singleton] at hentry
      rw [credit_of_entries hentry, credit_of_entries hc, hc]
      by_cases hend : spkt.isEndFrame = true
      · by_cases hlast : c.txcount ≤ 1
        · simp [hend, hlast, endFramesOf, forClient]
          omega
        · simp [hend, hlast, endFramesOf, forClient]
      · have hpos' : ¬ c.txcount ≤ 0 := by omega
        simp [hend, hpos', endFramesOf, forClient]
  · have hentry : net'.entries f peerid = net.entries f peerid := by
      rcases hother f hf with hsame | hclean
      · rw [entries, hsame, entries]
      · rw [entries, hclean, List.filter_comm]
        refine List.filter_eq_self.mpr fun c hc => ?_
        have hpos := (h.clients f c (List.mem_of_mem_filter hc)).2
        simp [isStale, hpos]
    have hnone : endFramesOf f (((net.clients spkt.frame).filter fun c => c.peerid = peerid).map
        fun c => forClient c (spkt, pkt)) = 0 := by
      refine List.countP_eq_zero.mpr fun x hx => ?_
      obtain ⟨d, -, rfl⟩ := List.mem_map.mp hx
      simp [forClient, Ne.symm hf]
    rw [hnone, credit_of_entries rfl, credit_of_entries rfl, hentry]
    simp

/-- A request in flight: no data, the request flag, and the request size as count. -/
structure IsRequest (n : Nat) (x : Packet) : Prop where
  noData : x.2.data = []
  flag : x.1.hasFlag kFlagRequest = true
  count : x.2.frameCount.toNat = n

theorem HostSide.registerClient {peerid : Int} {net : Net} {n : Nat} {x : Packet}
    (h : HostSide peerid net) (hx : IsRequest n x) (hn : 0 < n) :
    HostSide peerid (net.registerClient x.1 x.2 peerid) := by
  refine ⟨⟨h.serving.1, h.serving.2, h.serving.3⟩, h.noFrames,
    registerClient_oneEntryEach h.oneEntry _ _ _, ?_⟩
  have hgrant : ∀ c : StreamClientLocal, 0 < (grant x.1 x.2 c).txcount := by
    intro c
    have : (0 : Int) < x.2.frameCount.toNat := by rw [hx.count]; exact_mod_cast hn
    exact lt_max_of_lt_right this
  intro f c hc
  by_cases hf : f = x.1.frame
  · subst hf
    rw [clients_registerClient_self, grantClient] at hc
    split_ifs at hc
    · obtain ⟨d, hd, rfl⟩ := List.mem_map.mp hc
      obtain ⟨hpeer, -⟩ := h.clients _ d hd
      rw [if_pos hpeer]
      exact ⟨hpeer, hgrant d⟩
    · rcases List.mem_append.mp hc with hc | hc
      · exact h.clients _ c hc
      · obtain rfl := List.mem_singleton.mp hc
        exact ⟨rfl, hgrant _⟩
  · rw [clients_registerClient_ne hf] at hc
    exact h.clients f c hc

/-- Granting a request raises the credit of its frame to what it asks for. -/
theorem credit_registerClient_self {peerid : Int} {net : Net} (x : Packet) :
    credit (net.registerClient x.1 x.2 peerid) x.1.frame peerid =
      max (credit net x.1.frame peerid) x.2.frameCount.toNat := by
  rw [credit_of_entries (entries_registerClient_self x), credit_of_entries rfl]
  cases net.entries x.1.frame peerid with
  | nil => simp [grant]
  | cons c cs => simp [grant]

theorem credit_registerClient {peerid : Int} {net : Net} {n : Nat} {x : Packet}
    (hx : IsRequest n x) (f : FrameID) :
    credit (net.registerClient x.1 x.2 peerid) f peerid =
      if f = x.1.frame then max (credit net f peerid) n else credit net f peerid := by
  split_ifs with hf
  · subst hf
    rw [credit_registerClient_self, hx.count]
  · rw [credit_of_entries (entries_registerClient (.inr fun heq => hf heq.symm) x.2),
      credit_of_entries rfl]

/-- A wildcard stands for the frames the host has seen: none in a session. -/
theorem processRequest_wildcard {fuel : Nat} {net net' : Net} {p : Option Int}
    {spkt spkt' : StreamPacket} {pkt pkt' : DataPacket} {effects : List Effect}
    (hframes : net.stream.frames = []) (hwild : isWildcard spkt = true)
    (h : processRequest fuel net p spkt pkt = .ok (net', spkt', pkt', effects)) : net' = net := by
  cases fuel with
  | zero => cases h
  | succ fuel =>
      unfold processRequest at h
      rw [if_pos hwild, hframes] at h
      cases h
      rfl

/-- A request that is no wildcard is granted to the one frame it names. -/
theorem processRequest_single {fuel : Nat} {net net' : Net} {p : Int}
    {spkt spkt' : StreamPacket} {pkt pkt' : DataPacket} {effects : List Effect}
    (hsingle : ¬ isWildcard spkt = true)
    (h : processRequest fuel net (some p) spkt pkt = .ok (net', spkt', pkt', effects)) :
    net' = net.registerClient spkt pkt p := by
  cases fuel with
  | zero => cases h
  | succ fuel =>
      rw [processRequest_plain (by simpa using hsingle)] at h
      exact (processFrameRequest_spec h).2.2.2

/-- The packet of a request as `_processRequest` gets it: the host sets its time. -/
def timed (x : Packet) (now ttimeoff : Int) : Packet :=
  ({ x.1.onWire with
    localTimestamp := if x.1.onWire.localTimestamp = 0 then now - ttimeoff
      else x.1.onWire.localTimestamp
    hintCapability := 0 }, x.2)

/-- A request that arrives at a host is processed, and nothing else is done with it. -/
theorem receive_isRequest {peerid : Int} {net net' : Net} {n fuel : Nat} {x : Packet}
    {now ttimeoff buffering : Int} {effects : List Effect} (hactive : net.active = true)
    (hhost : net.host = true) (hx : IsRequest n x)
    (hrecv : receive fuel net peerid now ttimeoff buffering x.1.onWire x.2 = .ok (net', effects)) :
    ∃ spkt pkt called,
      processRequest fuel net (some peerid) (timed x now ttimeoff).1 x.2 =
        .ok (net', spkt, pkt, called) ∧ effects = called ++ [.trigger spkt pkt] := by
  have hreq : isRequest x.1.onWire x.2 = true := by
    simpa [isRequest, hx.noData, StreamPacket.hasFlag, StreamPacket.onWire] using hx.flag
  rw [receive, if_pos hhost, receiveHost, bind_eq_ok] at hrecv
  obtain ⟨⟨net₁, early⟩, hearly, hrecv⟩ := hrecv
  obtain ⟨rfl, rfl⟩ := earlyProcessPacket_request hactive hhost hreq hearly
  simp only [bind_eq_ok] at hrecv
  obtain ⟨⟨net₂, effects₂⟩, hproc, hret⟩ := hrecv
  cases hret
  unfold processPacket at hproc
  rw [if_neg (by simp [hactive]), if_pos (by simp [hhost]; exact hreq), bind_eq_ok] at hproc
  obtain ⟨⟨net₃, spkt₃, pkt₃, effects₃⟩, hcall, hret⟩ := hproc
  cases hret
  exact ⟨spkt₃, pkt₃, effects₃, hcall, rfl⟩

/-- **A request arrives**: its frame gets the full request size as credit, unless
it is a wildcard. -/
theorem receive_request {peerid : Int} {net net' : Net} {n fuel : Nat} {x : Packet}
    {now ttimeoff buffering : Int} {effects : List Effect} (h : HostSide peerid net)
    (hx : IsRequest n x) (hn : 0 < n)
    (hrecv : receive fuel net peerid now ttimeoff buffering x.1.onWire x.2 = .ok (net', effects)) :
    HostSide peerid net' ∧ transmissions (.client peerid) effects = [] ∧
      ∀ f, credit net' f peerid =
        if f = x.1.frame ∧ isWildcard x.1 = false then max (credit net f peerid) n
        else credit net f peerid := by
  obtain ⟨spkt₃, pkt₃, effects₃, hcall, rfl⟩ :=
    receive_isRequest h.serving.active h.serving.host hx hrecv
  have htx := (processRequest_spec _ hcall).2.2.1
  rw [transmissions_append, htx]
  by_cases hwild : isWildcard x.1 = true
  · obtain rfl := processRequest_wildcard h.noFrames (by exact hwild) hcall
    refine ⟨h, rfl, fun f => ?_⟩
    rw [if_neg (by simp [hwild])]
  · obtain rfl := processRequest_single (by exact hwild) hcall
    have hyreq : IsRequest n (timed x now ttimeoff) := ⟨hx.noData, hx.flag, hx.count⟩
    refine ⟨h.registerClient (x := timed x now ttimeoff) hyreq hn, rfl, fun f => ?_⟩
    have hframe : (timed x now ttimeoff).1.frame = x.1.frame := rfl
    refine (credit_registerClient hyreq f).trans ?_
    rw [hframe]
    simp [hwild]

/-! ## §3  The client side -/

/-- A started receiving stream with request size `n` whose host, once found, is
`hostId`. -/
structure Requesting (n : Nat) (hostId : UUID) (net : Net) : Prop where
  active : net.active = true
  receiving : net.host = false
  size : net.framesToRequest = n
  peer : net.peer = none ∨ net.peer = some hostId

/-- Availability, countdown and queues do not matter for it. -/
theorem Requesting.update {n : Nat} {hostId : UUID} {net : Net} (h : Requesting n hostId net)
    (stream : Stream) (tally : Fin 5 → Int) (recv : RecvBuffer) :
    Requesting n hostId { net with stream := stream, tally := tally, recv := recv } :=
  ⟨h.active, h.receiving, h.size, h.peer⟩

/-- A frame is among the requested ones. -/
def Requested (hostId : UUID) (effects : List Effect) (f : FrameID) : Prop :=
  ∃ x ∈ transmissions (.host hostId) effects, x.1.frame = f

/-- The request size travels in eight bits. -/
theorem isRequest_requestPacket (net : Net) (now : Int) (c : Channel) (frameset frames : UInt8)
    (doreset : Bool) : IsRequest (net.framesToRequest % 256).toNat
      (net.requestPacket now c frameset frames (UInt8.ofInt net.framesToRequest) doreset) where
  noData := rfl
  flag := by
    have hflags : ∀ b : Bool, ((if b = true then kFlagRequest ||| kFlagReset
        else kFlagRequest) &&& kFlagRequest != 0) = true := by decide
    exact hflags doreset
  count := by
    show (UInt8.ofInt net.framesToRequest).toNat = _
    rw [UInt8.ofInt, UInt8.toNat_ofNat']
    omega

/-- One request that was sent. -/
theorem sendRequest_spec {n : Nat} {hostId : UUID} {net : Net} (h : Requesting n hostId net)
    (hn : n < 256) {now : Int} {c : Channel} {f : FrameID} {doreset : Bool} {effects : List Effect}
    (hsend : net.sendRequest now c f.frameset f.source doreset = .ok effects) :
    ∃ x, transmissions (.host hostId) effects = [x] ∧ IsRequest n x ∧
      (f.frameset < 256 → x.1.frame = f) := by
  unfold sendRequest at hsend
  rw [if_neg (by simp [h.active, h.receiving])] at hsend
  rcases h.peer with hpeer | hpeer
  · rw [hpeer] at hsend
    cases hsend
  · rw [hpeer] at hsend
    cases hsend
    have hcount : (net.framesToRequest % 256).toNat = n := by
      rw [h.size]
      omega
    refine ⟨_, by simp [transmissions]; rfl, ?_, fun hfs => frame_ofNat hfs rfl rfl⟩
    exact hcount ▸ net.isRequest_requestPacket now c _ _ doreset

/-- The requests of a loop: one for each turn. -/
theorem mapM_sendRequest {α : Type} {n : Nat} {hostId : UUID} {net : Net}
    (h : Requesting n hostId net) (hn : n < 256) {now : Int} {c : α → Channel} {g : α → FrameID}
    {doreset : Bool} {l : List α} {effects : List (List Effect)}
    (hsend : l.mapM (fun a => net.sendRequest now (c a) (g a).frameset (g a).source doreset) =
      .ok effects) :
    (∀ x ∈ transmissions (.host hostId) effects.flatten, IsRequest n x) ∧
      ∀ a ∈ l, (g a).frameset < 256 → Requested hostId effects.flatten (g a) := by
  obtain ⟨hall, hfrom⟩ := mapM_eq_ok hsend
  have hmem : ∀ x, x ∈ transmissions (.host hostId) effects.flatten ↔
      ∃ es ∈ effects, x ∈ transmissions (.host hostId) es := by
    intro x
    simp only [transmissions, List.mem_filterMap, List.mem_flatten]
    grind
  constructor
  · intro x hx
    obtain ⟨es, hes, hx⟩ := (hmem x).mp hx
    obtain ⟨a, -, ha⟩ := hfrom es hes
    obtain ⟨y, hy, hreq, -⟩ := sendRequest_spec h hn ha
    rw [hy, List.mem_singleton] at hx
    exact hx ▸ hreq
  · intro a ha hfs
    obtain ⟨es, hes, hcall⟩ := hall a ha
    obtain ⟨y, hy, -, hframe⟩ := sendRequest_spec h hn hcall
    exact ⟨y, (hmem y).mpr ⟨es, hes, by simp [hy]⟩, hframe hfs⟩

/-- The client between two events: the countdown of every frameset stays between
half the request size and the request size. -/
structure ClientSide (n : Nat) (hostId : UUID) (net : Net) : Prop where
  requesting : Requesting n hostId net
  unpaused : net.paused = false
  framesets : ∀ f, net.stream.enabled f = true → f.frameset < 5
  tally : ∀ i, ((n / 2 : Nat) : Int) ≤ net.tally i ∧ net.tally i ≤ n

/-- What an event of the client that takes `consumed` from the channel does:
every selected frame is requested anew or was selected before, and the countdown
of its frameset moved down at least by the EndFrames of the frame it took. -/
structure Answers (n : Nat) (hostId : UUID) (consumed : List Packet) (net net' : Net)
    (effects : List Effect) : Prop where
  side : ClientSide n hostId net'
  requests : ∀ x ∈ transmissions (.host hostId) effects, IsRequest n x
  selected : ∀ f (hf : f.frameset < 5), isSelected net' f → Requested hostId effects f ∨
    (isSelected net f ∧
      net'.tally ⟨f.frameset, hf⟩ + endFramesOf f consumed ≤ net.tally ⟨f.frameset, hf⟩)

theorem sendRequests_spec {n : Nat} {hostId : UUID} {net : Net} (h : Requesting n hostId net)
    (hn : n < 256) {now : Int} {fs : List FrameID} {doreset : Bool} {effects : List Effect}
    (hsend : net.sendRequests now fs doreset = .ok effects) :
    (∀ x ∈ transmissions (.host hostId) effects, IsRequest n x) ∧
      ∀ f ∈ fs, f.frameset < 5 → net.stream.enabledChannels f ≠ ∅ →
        Requested hostId effects f := by
  unfold sendRequests at hsend
  rw [bind_eq_ok] at hsend
  obtain ⟨es, hmap, hret⟩ := hsend
  cases hret
  obtain ⟨hreq, hall⟩ := mapM_sendRequest h hn (c := fun a : FrameID × Channel => a.2)
    (g := fun a => a.1) hmap
  refine ⟨hreq, fun f hf hfs hne => ?_⟩
  obtain ⟨c, hc⟩ := Finset.nonempty_iff_ne_empty.mpr hne
  refine hall (f, c) ?_ (by omega : f.frameset < 256)
  exact List.mem_flatMap.mpr ⟨f, hf, List.mem_map.mpr ⟨c, (Finset.mem_sort _).mpr hc, rfl⟩⟩

theorem isSelected_update_ne (net net' : Net) {id f : FrameID} {u : FSState → FSState}
    (hstream : net'.stream = net.stream.update id u) (hf : f ≠ id) :
    net'.stream.enabled f = net.stream.enabled f ∧ (isSelected net' f ↔ isSelected net f) := by
  simp [isSelected, Stream.enabled, Stream.enabledChannels, hstream, hf]

/-- `_enable` finds the host of the session. -/
theorem findPeer_spec {n : Nat} {hostId : UUID} {net : Net} (h : Requesting n hostId net)
    (id : FrameID) : ∃ net₁ es, net.findPeer (some hostId) id = (net₁, es, true) ∧
      Requesting n hostId net₁ ∧ net₁.stream = net.stream ∧ net₁.tally = net.tally ∧
      net₁.paused = net.paused ∧ ∀ dest, transmissions dest es = [] := by
  unfold findPeer
  rw [if_neg (by simp [h.receiving])]
  split_ifs
  · exact ⟨_, _, rfl, h, rfl, rfl, rfl, fun _ => rfl⟩
  · exact ⟨_, _, rfl, h, rfl, rfl, rfl, fun _ => rfl⟩
  · exact ⟨_, _, rfl, ⟨h.active, h.receiving, h.size, .inr rfl⟩, rfl, rfl, rfl, fun _ => rfl⟩

/-- An `enable` call with a channel: its frame is requested, the others keep what
they had. -/
theorem enableWith_spec {n : Nat} {hostId : UUID} {net net' : Net} (h : ClientSide n hostId net)
    (hn : n < 256) {now : Int} {id : FrameID} (hid : id.frameset < 5) {u : FSState → FSState}
    {cs : List Channel} (hcs : cs ≠ []) {effects : List Effect} {ok : Bool}
    (hcall : net.enableWith now (some hostId) id (·.update id u) cs = .ok (net', effects, ok)) :
    Answers n hostId [] net net' effects := by
  obtain ⟨net₁, es, hfind, hreq₁, hstream₁, htally₁, hpaused₁, hes⟩ :=
    findPeer_spec h.requesting id
  unfold enableWith at hcall
  rw [if_neg (by simp [h.requesting.receiving]), hfind] at hcall
  simp only [bind_eq_ok] at hcall
  obtain ⟨requests, hmap, hret⟩ := hcall
  cases hret
  obtain ⟨hreqs, hall⟩ := mapM_sendRequest (c := fun c => c) (g := fun _ => id)
    ⟨hreq₁.active, hreq₁.receiving, hreq₁.size, hreq₁.peer⟩ hn hmap
  have htx : transmissions (.host hostId) (es ++ requests.flatten) =
      transmissions (.host hostId) requests.flatten := by
    rw [transmissions_append, hes, List.nil_append]
  obtain ⟨c, hc⟩ := List.exists_mem_of_ne_nil cs hcs
  have hid' : Requested hostId (es ++ requests.flatten) id := by
    rw [Requested, htx]
    exact hall c hc (by omega)
  have hother : ∀ f, f ≠ id → _ := fun f hf => isSelected_update_ne net
    { net₁ with stream := net₁.stream.update id u } (u := u) (by rw [hstream₁]) hf
  refine ⟨⟨⟨hreq₁.active, hreq₁.receiving, hreq₁.size, hreq₁.peer⟩, hpaused₁.trans h.unpaused,
    fun f hf => ?_, fun i => htally₁ ▸ h.tally i⟩, by rw [htx]; exact hreqs, fun f hfs hsel => ?_⟩
  · by_cases hfid : f = id
    · exact hfid ▸ hid
    · exact h.framesets f ((hother f hfid).1 ▸ hf)
  · by_cases hfid : f = id
    · exact .inl (hfid ▸ hid')
    · refine .inr ⟨(hother f hfid).2.mp hsel, ?_⟩
      simp [htally₁, endFramesOf]

/-- Disabling takes frames and channels away. -/
theorem disable_spec {n : Nat} {hostId : UUID} {net : Net} (h : ClientSide n hostId net)
    {id : FrameID} {u : FSState → FSState}
    (hu : ∀ p, ((u p).enabled = true → p.enabled = true) ∧
      ((u p).enabled = true → (u p).selected ≠ ∅ → p.selected ≠ ∅)) :
    Answers n hostId [] net { net with stream := net.stream.update id u } [] := by
  have hle : ∀ f, ((net.stream.update id u).enabled f = true → net.stream.enabled f = true) ∧
      (isSelected { net with stream := net.stream.update id u } f → isSelected net f) := by
    intro f
    by_cases hf : f = id
    · subst hf
      simp only [isSelected, Stream.enabled, Stream.enabledChannels,
        Stream.getOrCreate_update_self]
      exact ⟨(hu _).1, fun hsel => ⟨(hu _).1 hsel.1, (hu _).2 hsel.1 hsel.2⟩⟩
    · obtain ⟨henabled, hsel⟩ := isSelected_update_ne net
        { net with stream := net.stream.update id u } rfl hf
      exact ⟨fun hf' => henabled ▸ hf', hsel.mp⟩
  refine ⟨⟨h.requesting.update _ _ _, h.unpaused,
    fun f hf => h.framesets f ((hle f).1 hf), h.tally⟩, ?_, fun f hfs hsel => ?_⟩
  · intro x hx
    cases hx
  · exact .inr ⟨(hle f).2 hsel, by simp [endFramesOf]⟩

theorem disableChannels_spec {n : Nat} {hostId : UUID} {net : Net} (h : ClientSide n hostId net)
    (id : FrameID) (cs : ChannelSet) :
    Answers n hostId [] net { net with stream := net.stream.disableChannels id cs } [] := by
  refine disable_spec h fun p => ⟨fun henabled => ?_, fun _ hne hempty => hne ?_⟩
  · simp only at henabled
    split_ifs at henabled
    exact henabled
  · rw [hempty, Finset.empty_sdiff]

theorem run_spec {n : Nat} {hostId : UUID} {net net' : Net} (h : ClientSide n hostId net)
    (hn : n < 256) {now : Int} {call : ClientCall} (hlegal : call.Legal) {effects : List Effect}
    (hcall : call.run net now (some hostId) = .ok (net', effects)) :
    Answers n hostId [] net net' effects := by
  cases call with
  | enable id =>
      simp only [ClientCall.run, bind_eq_ok] at hcall
      obtain ⟨⟨_, _, ok⟩, hcall, hret⟩ := hcall
      cases hret
      exact enableWith_spec h hn hlegal (by simp) hcall
  | enableChannel id c =>
      simp only [ClientCall.run, bind_eq_ok] at hcall
      obtain ⟨⟨_, _, ok⟩, hcall, hret⟩ := hcall
      cases hret
      exact enableWith_spec h hn hlegal (by simp) hcall
  | enableChannels id cs =>
      simp only [ClientCall.run, bind_eq_ok] at hcall
      obtain ⟨⟨_, _, ok⟩, hcall, hret⟩ := hcall
      cases hret
      have hne : cs.sort ≠ [] := by
        intro hnil
        refine hlegal.2 (Finset.eq_empty_of_forall_notMem fun c hc => ?_)
        have := (Finset.mem_sort (· ≤ ·)).mpr hc
        rw [hnil] at this
        cases this
      exact enableWith_spec h hn hlegal.1 hne hcall
  | disable id =>
      cases hcall
      exact disable_spec h fun p => ⟨fun hf => absurd hf (by simp), fun hf => absurd hf (by simp)⟩
  | disableChannel id c =>
      cases hcall
      exact disableChannels_spec h id {c}
  | disableChannels id cs =>
      cases hcall
      exact disableChannels_spec h id cs
  | refresh =>
      simp only [ClientCall.run, refresh, bind_eq_ok] at hcall
      obtain ⟨es, hsend, hret⟩ := hcall
      cases hret
      obtain ⟨hreq, hall⟩ := sendRequests_spec h.requesting hn hsend
      refine ⟨⟨h.requesting.update _ _ _, h.unpaused, h.framesets, fun i => ?_⟩, hreq,
        fun f hfs hsel => ?_⟩
      · show ((n / 2 : Nat) : Int) ≤ net.framesToRequest ∧ net.framesToRequest ≤ n
        rw [h.requesting.size]
        omega
      · exact .inl (hall f (Stream.mem_enabledFrames.mpr hsel.1) hfs hsel.2)

/-- A packet that arrives counts as seen, which selects nothing. -/
theorem noteSeen_spec {n : Nat} {hostId : UUID} {net net' : Net} (h : ClientSide n hostId net)
    {spkt : StreamPacket} {pkt : DataPacket} {effects : List Effect}
    (hseen : net.noteSeen spkt pkt = .ok (net', effects)) :
    ClientSide n hostId net' ∧ net'.tally = net.tally ∧
      (∀ f, isSelected net' f ↔ isSelected net f) ∧ ∀ dest, transmissions dest effects = [] := by
  unfold noteSeen at hseen
  rw [if_neg (by simp [h.requesting.receiving]), bind_eq_ok] at hseen
  obtain ⟨⟨stream, fired⟩, hstream, hret⟩ := hseen
  cases hret
  have hsame := Stream.seen_enabled hstream
  refine ⟨⟨h.requesting.update _ _ _, h.unpaused,
    fun f hf => h.framesets f ((hsame f).1 ▸ hf), h.tally⟩, rfl, fun f => ?_,
    fun dest => ?_⟩
  · simp only [isSelected, (hsame f).1, (hsame f).2]
  · split_ifs <;> rfl

/-- The countdown: at half the request size everything selected in the frameset
is requested again, above it the frameset is one EndFrame further. -/
theorem countEndFrame_spec {n : Nat} {hostId : UUID} {net net' : Net}
    (h : ClientSide n hostId net) (hn : n < 256) {now : Int} {i : Fin 5} {x : Packet}
    (hx : x.1.frame.frameset = i.val) {effects : List Effect}
    (hcount : net.countEndFrame now i = .ok (net', effects)) :
    Answers n hostId [x] net net' effects := by
  have hhalf : net.framesToRequest.tdiv 2 = ((n / 2 : Nat) : Int) := by
    rw [h.requesting.size]
    rfl
  have hone : ∀ f : FrameID, f.frameset ≠ i.val → endFramesOf f [x] = 0 := by
    intro f hf
    refine List.countP_eq_zero.mpr fun y hy => ?_
    obtain rfl := List.mem_singleton.mp hy
    simp only [Bool.and_eq_true, decide_eq_true_iff, not_and]
    exact fun _ heq => hf (heq ▸ hx)
  have hle : ∀ f, endFramesOf f [x] ≤ 1 := fun f => List.countP_le_length
  have htally := h.tally i
  unfold countEndFrame at hcount
  rw [hhalf] at hcount
  split at hcount
  case isTrue hlow =>
    -- a new request for the frameset: other framesets keep their countdown
    rw [bind_eq_ok] at hcount
    obtain ⟨es, hsend, hret⟩ := hcount
    cases hret
    obtain ⟨hreq, hall⟩ := sendRequests_spec h.requesting hn hsend
    refine ⟨⟨h.requesting.update _ _ _, h.unpaused, h.framesets, fun j => ?_⟩, hreq,
      fun f hfs hsel => ?_⟩
    · show _ ≤ Function.update net.tally i _ j ∧ Function.update net.tally i _ j ≤ _
      rw [Function.update_apply, h.requesting.size]
      split_ifs
      · omega
      · exact h.tally j
    · by_cases hfi : f.frameset = i.val
      · exact .inl (hall f (Stream.mem_enabledIn.mpr ⟨hsel.1, hfi⟩) hfs hsel.2)
      · refine .inr ⟨hsel, ?_⟩
        have hne : (⟨f.frameset, hfs⟩ : Fin 5) ≠ i := fun heq => hfi (heq ▸ rfl)
        simp [hone f hfi, Function.update_of_ne hne]
  case isFalse hhigh =>
    -- one EndFrame less in flight, and one less to count
    cases hcount
    refine ⟨⟨h.requesting.update _ _ _, h.unpaused, h.framesets, fun j => ?_⟩,
      by simp [transmissions], fun f hfs hsel => .inr ⟨hsel, ?_⟩⟩
    · show _ ≤ Function.update net.tally i _ j ∧ Function.update net.tally i _ j ≤ _
      rw [Function.update_apply]
      split_ifs
      · omega
      · exact h.tally j
    · show Function.update net.tally i _ _ + _ ≤ _
      by_cases hfi : f.frameset = i.val
      · have heq : (⟨f.frameset, hfs⟩ : Fin 5) = i := Fin.ext hfi
        have := hle f
        rw [heq, Function.update_self]
        omega
      · have hne : (⟨f.frameset, hfs⟩ : Fin 5) ≠ i := fun heq => hfi (heq ▸ rfl)
        rw [hone f hfi, Function.update_of_ne hne]
        simp

theorem manageRequests_spec {n : Nat} {hostId : UUID} {net net' : Net}
    (h : ClientSide n hostId net) (hn : n < 256) {now : Int} {x : Packet} {effects : List Effect}
    (hmanage : net.manageRequests now x.1 = .ok (net', effects)) :
    Answers n hostId [x] net net' effects := by
  -- a packet that is not counted changes nothing, and no frame selected here is its frame
  have hquiet : (x.1.isEndFrame = true → ¬ x.1.frame.frameset < 5) →
      Answers n hostId [x] net net [] := by
    intro hx
    refine ⟨h, by simp [transmissions], fun f hfs hsel => .inr ⟨hsel, ?_⟩⟩
    have hzero : endFramesOf f [x] = 0 := by
      refine List.countP_eq_zero.mpr fun y hy => ?_
      obtain rfl := List.mem_singleton.mp hy
      simp only [Bool.and_eq_true, decide_eq_true_iff, not_and]
      exact fun hend heq => hx hend (heq ▸ hfs)
    simp [hzero]
  unfold manageRequests at hmanage
  rw [if_neg (by simp [h.unpaused])] at hmanage
  split_ifs at hmanage with hend hfs
  · exact countEndFrame_spec h hn rfl hmanage
  · cases hmanage
    exact hquiet fun _ => hfs
  · cases hmanage
    refine hquiet fun hx => absurd ?_ hend
    simp [h.requesting.receiving, hx]

/-- Queueing a packet, or processing it at once, sends nothing. -/
theorem bufferOrProcess_spec {n : Nat} {hostId : UUID} {net net' : Net}
    (h : ClientSide n hostId net) {fuel : Nat} {p now ttimeoff buffering : Int}
    {spkt : StreamPacket} {pkt : DataPacket} {effects : List Effect}
    (hcall : bufferOrProcess fuel net p now ttimeoff buffering spkt pkt = .ok (net', effects)) :
    ClientSide n hostId net' ∧ net'.tally = net.tally ∧ net'.stream = net.stream ∧
      ∀ dest, transmissions dest effects = [] := by
  unfold bufferOrProcess at hcall
  split at hcall
  · unfold processPacket at hcall
    rw [if_neg (by simp [h.requesting.active]),
      if_neg (by simp [h.requesting.receiving])] at hcall
    cases hcall
    exact ⟨h, rfl, rfl, fun _ => rfl⟩
  · cases hcall
    exact ⟨⟨h.requesting.update _ _ _, h.unpaused, h.framesets, h.tally⟩, rfl, rfl, fun _ => rfl⟩

/-- **A packet arrives at the client.** -/
theorem receive_packet {n : Nat} {hostId : UUID} {net net' : Net} (h : ClientSide n hostId net)
    (hn : n < 256) {fuel : Nat} {p now ttimeoff buffering : Int} {x : Packet}
    {effects : List Effect}
    (hrecv : receive fuel net p now ttimeoff buffering x.1.onWire x.2 = .ok (net', effects)) :
    Answers n hostId [x] net net' effects := by
  rw [receive, if_neg (by simp [h.requesting.receiving])] at hrecv
  simp only [receiveClient, bind_eq_ok] at hrecv
  obtain ⟨⟨net₁, early⟩, hearly, ⟨net₂, late⟩, hlate, hret⟩ := hrecv
  cases hret
  unfold earlyProcessPacket at hearly
  split at hearly
  · cases hearly
  · rw [if_neg (by simp [h.requesting.active])] at hearly
    simp only [bind_eq_ok] at hearly
    obtain ⟨⟨net₃, seen⟩, hseen, ⟨net₄, requests⟩, hmanage, hret⟩ := hearly
    cases hret
    obtain ⟨hside₃, htally₃, hsel₃, htx₃⟩ := noteSeen_spec h hseen
    have hanswer := manageRequests_spec (x := ({ x.1.onWire with
      localTimestamp := now - ttimeoff }, x.2)) hside₃ hn hmanage
    obtain ⟨hside, htally, hstream, htx⟩ := bufferOrProcess_spec hanswer.side hlate
    have hall : transmissions (.host hostId) (seen ++ requests ++ late) =
        transmissions (.host hostId) requests := by
      rw [transmissions_append, transmissions_append, htx₃, htx, List.nil_append, List.append_nil]
    refine ⟨hside, by rw [hall]; exact hanswer.requests, fun f hfs hsel => ?_⟩
    rw [isSelected, hstream] at hsel
    rcases hanswer.selected f hfs hsel with hreq | ⟨hold, hle⟩
    · left
      rw [Requested, hall]
      exact hreq
    · right
      rw [htally, ← htally₃]
      exact ⟨(hsel₃ f).mp hold, hle⟩

/-! ## §4  Streaming never stalls -/

/-- Either a request of the frame is on its way, or the credit and the EndFrames
in flight outlast the countdown. -/
def Covered (peerid : Int) (n : Nat) (s : Session) (f : FrameID) (hf : f.frameset < 5) : Prop :=
  (∃ x ∈ s.toHost, x.1.frame = f) ∨
    s.client.tally ⟨f.frameset, hf⟩ - (n / 2 : Nat) + 1 ≤
      credit s.host f peerid + endFramesOf f s.toClient

/-- Either a request of the frame is on its way, or the credit and the EndFrames in flight fall
short of the countdown by no more than the slack. -/
def KeepsUp (peerid : Int) (slack : Option Nat) (s : Session) (f : FrameID)
    (hf : f.frameset < 5) : Prop :=
  (∃ x ∈ s.toHost, x.1.frame = f) ∨
    ∃ k ∈ slack, s.client.tally ⟨f.frameset, hf⟩ ≤
      credit s.host f peerid + endFramesOf f s.toClient + (k : Nat)

/-- The client asks again at half the request size, so a frame may fall that much short. -/
theorem KeepsUp.covered {peerid : Int} {n : Nat} {slack : Option Nat} {s : Session} {f : FrameID}
    {hf : f.frameset < 5} (h : KeepsUp peerid slack s f hf) (hslack : ∀ k ∈ slack, k < n / 2) :
    Covered peerid n s f hf := by
  refine h.imp_right ?_
  rintro ⟨k, hk, hle⟩
  have := hslack k hk
  omega

structure Flowing (peerid : Int) (hostId : UUID) (n : Nat) (slack : FrameID → Option Nat)
    (s : Session) : Prop where
  host : HostSide peerid s.host
  client : ClientSide n hostId s.client
  requests : ∀ x ∈ s.toHost, IsRequest n x
  keepsUp : ∀ f (hf : f.frameset < 5), f.source ≠ kAll → isSelected s.client f →
    KeepsUp peerid (slack f) s f hf

/-- The request that the host gets next makes up for what its frame was short of. -/
def granted (slack : FrameID → Option Nat) (s : Session) : FlowEvent → FrameID → Option Nat
  | .deliverToHost =>
      match s.toHost with
      | [] => slack
      | x :: _ => Function.update slack x.1.frame (some 0)
  | _ => slack

theorem startSession_flowing (peerid : Int) (hostId : UUID) (n : Nat)
    (slack : FrameID → Option Nat) : Flowing peerid hostId n slack (startSession n) := by
  refine ⟨⟨⟨rfl, rfl, rfl⟩, rfl, fun f => .nil, fun f c hc => ?_⟩,
    ⟨⟨rfl, rfl, rfl, .inl rfl⟩, rfl, fun f hf => ?_, fun i => ?_⟩, fun x hx => ?_,
    fun f hf _ hsel => ?_⟩
  · cases hc
  · cases hf
  · show ((n / 2 : Nat) : Int) ≤ n ∧ (n : Int) ≤ n
    omega
  · cases hx
  · cases hsel.1

/-- What the client does takes no more from the frames than it counts. -/
theorem Flowing.answer {peerid : Int} {hostId : UUID} {n : Nat} {slack : FrameID → Option Nat}
    {s : Session} (h : Flowing peerid hostId n slack s) (consumed : List Packet)
    {rest : List Packet} {client : Net} {effects : List Effect}
    (hnext : s.toClient = consumed ++ rest)
    (hanswer : Answers n hostId consumed s.client client effects) :
    Flowing peerid hostId n slack { s with
      client := client
      toClient := rest
      toHost := s.toHost ++ transmissions (.host hostId) effects } := by
  refine ⟨h.host, hanswer.side, fun x hx => ?_, fun f hf hsrc hsel => ?_⟩
  · rcases List.mem_append.mp hx with hx | hx
    · exact h.requests x hx
    · exact hanswer.requests x hx
  · rcases hanswer.selected f hf hsel with ⟨x, hx, hframe⟩ | ⟨hold, hle⟩
    · exact .inl ⟨x, List.mem_append_right _ hx, hframe⟩
    · rcases h.keepsUp f hf hsrc hold with ⟨x, hx, hframe⟩ | ⟨k, hk, hkeeps⟩
      · exact .inl ⟨x, List.mem_append_left _ hx, hframe⟩
      · refine .inr ⟨k, hk, ?_⟩
        rw [hnext, endFramesOf_append] at hkeeps
        push_cast at hkeeps ⊢
        omega

theorem Flowing.step {peerid : Int} {hostId : UUID} {n : Nat} {slack : FrameID → Option Nat}
    (hn : n < 256) (hn2 : 2 ≤ n) {s s' : Session} {e : FlowEvent}
    (h : Flowing peerid hostId n slack s) (hstep : FlowStep peerid hostId s e s') :
    Flowing peerid hostId n (granted slack s e) s' := by
  cases hstep with
  | @post host spkt pkt effects hpost =>
      refine ⟨h.host.post hpost, h.client, h.requests, fun f hf hsrc hsel => ?_⟩
      have hcredit := post_credit h.host hpost f
      refine (h.keepsUp f hf hsrc hsel).imp_right ?_
      rintro ⟨k, hk, hkeeps⟩
      refine ⟨k, hk, ?_⟩
      simp only [endFramesOf_append]
      push_cast
      omega
  | call hlegal hcall =>
      exact h.answer [] rfl (run_spec h.client hn hlegal hcall)
  | @deliverToHost host x rest fuel now ttimeoff buffering effects hnext hrecv =>
      have hx : IsRequest n x := h.requests x (by simp [hnext])
      obtain ⟨hside, htx, hcredit⟩ := receive_request h.host hx (by omega) hrecv
      rw [htx, List.append_nil]
      refine ⟨hside, h.client, fun y hy => h.requests y (by simp [hnext, hy]),
        fun f hf hsrc hsel => ?_⟩
      have htally := h.client.tally ⟨f.frameset, hf⟩
      have hc := hcredit f
      have hgranted : granted slack s .deliverToHost =
          Function.update slack x.1.frame (some 0) := by
        rw [granted, hnext]
      rw [hgranted]
      by_cases hframe : f = x.1.frame
      · -- the request is granted: a full request size outlasts the countdown
        refine .inr ⟨0, by rw [hframe, Function.update_self]; rfl, ?_⟩
        have hsingle : isWildcard x.1 = false := by
          have hnum : x.1.frameNumber.toNat ≠ kAll := by
            rw [← StreamPacket.frame_source, ← hframe]
            exact hsrc
          have hid : x.1.streamID.toNat ≠ kAll := by
            rw [← StreamPacket.frame_frameset, ← hframe]
            simp only [kAll]
            omega
          simp [isWildcard, hnum, hid]
        rw [if_pos ⟨hframe, hsingle⟩] at hc
        show s.client.tally ⟨f.frameset, hf⟩ ≤
          credit host f peerid + endFramesOf f s.toClient + (0 : Nat)
        omega
      · -- a request of another frame gives no credit to `f` and takes none
        rw [if_neg (fun hand => hframe hand.1)] at hc
        rw [Function.update_of_ne hframe]
        rcases h.keepsUp f hf hsrc hsel with ⟨y, hy, hyf⟩ | ⟨k, hk, hkeeps⟩
        · left
          rw [hnext] at hy
          rcases List.mem_cons.mp hy with rfl | hy
          · exact absurd hyf.symm hframe
          · exact ⟨y, hy, hyf⟩
        · refine .inr ⟨k, hk, ?_⟩
          show s.client.tally ⟨f.frameset, hf⟩ ≤
            credit host f peerid + endFramesOf f s.toClient + (k : Nat)
          omega
  | @deliverToClient client x rest fuel p now ttimeoff buffering effects hnext hrecv =>
      exact h.answer [x] hnext (receive_packet h.client hn hrecv)

/-- Without a pause no frame ever falls short. -/
theorem granted_none (s : Session) (e : FlowEvent) :
    granted (fun _ => some 0) s e = fun _ => some 0 := by
  cases e with
  | deliverToHost =>
      rw [granted]
      split
      · rfl
      · exact Function.update_eq_self _ _
  | _ => rfl

/-- **Streaming never stalls.** In every reachable state, for every frame that is
enabled with a channel selected, whose source is not the wildcard and whose
requests have all arrived, the credit of the host and the EndFrames in flight
outlast the countdown of the client to its next request. -/
theorem streaming_never_stalls (peerid : Int) (hostId : UUID) {n : Nat} (hn2 : 2 ≤ n)
    (hn : n ≤ 255) {es : List FlowEvent} {s : Session}
    (run : Runs (FlowStep peerid hostId) (startSession n) es s) (f : FrameID)
    (hf : f.frameset < 5) (hsrc : f.source ≠ kAll) (hsel : isSelected s.client f)
    (harrived : ∀ x ∈ s.toHost, x.1.frame ≠ f) :
    1 ≤ s.client.tally ⟨f.frameset, hf⟩ - (n / 2 : Nat) + 1 ∧
      s.client.tally ⟨f.frameset, hf⟩ - (n / 2 : Nat) + 1 ≤
        credit s.host f peerid + endFramesOf f s.toClient := by
  have h : Flowing peerid hostId n (fun _ => some 0) s := by
    refine run.invariant (startSession_flowing peerid hostId n _) fun s e s' h hstep => ?_
    rw [← granted_none s e]
    exact h.step (by omega) hn2 hstep
  have htally := h.client.tally ⟨f.frameset, hf⟩
  have hslack : ∀ k ∈ some 0, k < n / 2 := by
    rintro k ⟨⟩
    omega
  rcases (h.keepsUp f hf hsrc hsel).covered hslack with ⟨x, hx, hframe⟩ | hcov
  · exact absurd hframe (harrived x hx)
  · exact ⟨by omega, hcov⟩

/-- A channel of a frame is enabled, and the request arrives at the host. -/
theorem run_enable {id : FrameID} (hid : id.frameset < 5) {host client : Net}
    {effects effects' : List Effect} {x : Packet}
    (hcall : ClientCall.run (startSession 80).client 0 (some (.fill 7)) (.enableChannel id 0) =
      .ok (client, effects))
    (hx : transmissions (.host (.fill 7)) effects = [x])
    (hrecv : receive 1 (startSession 80).host 3 0 0 0 x.1.onWire x.2 = .ok (host, effects')) :
    Runs (FlowStep 3 (.fill 7)) (startSession 80) [.call (.enableChannel id 0), .deliverToHost]
      { host := host, client := client, toClient := transmissions (.client 3) effects' } := by
  have hlegal : (ClientCall.enableChannel id 0).Legal := hid
  have hfirst := Runs.init.snoc (FlowStep.call hlegal hcall : FlowStep 3 (.fill 7) _ _ _)
  rw [hx] at hfirst
  exact hfirst.snoc (.deliverToHost rfl hrecv)

theorem streaming_never_stalls_enabled : ∃ s : Session,
    Runs (FlowStep 3 (.fill 7)) (startSession 80) [.call (.enableChannel ⟨1⟩ 0), .deliverToHost] s ∧
      s.client.tally 0 - (80 / 2 : Nat) + 1 ≤
        credit s.host ⟨1⟩ 3 + endFramesOf ⟨1⟩ s.toClient := by
  have run := run_enable (show (⟨1⟩ : FrameID).frameset < 5 by decide) rfl rfl rfl
  exact ⟨_, run, (streaming_never_stalls 3 (.fill 7) (by decide) (by decide) run ⟨1⟩ (by decide)
    (by decide) ⟨by decide, by decide⟩ (by simp)).2⟩

/-- A channel of frame (0, 255) is enabled: the request is a wildcard and the
host, which has seen no frame, grants nothing for it. -/
theorem wildcard_frame_stalls : ∃ s : Session,
    Runs (FlowStep 3 (.fill 7)) (startSession 80)
        [.call (.enableChannel ⟨255⟩ 0), .deliverToHost] s ∧
      isSelected s.client ⟨255⟩ ∧ s.toHost = [] ∧
      credit s.host ⟨255⟩ 3 + endFramesOf ⟨255⟩ s.toClient <
        s.client.tally 0 - (80 / 2 : Nat) + 1 :=
  ⟨_, run_enable (show (⟨255⟩ : FrameID).frameset < 5 by decide) rfl rfl rfl,
    ⟨by decide, by decide⟩, rfl, by decide⟩

end BeyondProtocol.Net
