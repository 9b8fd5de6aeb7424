import BeyondProtocol.Framework.Runs
import BeyondProtocol.Net.Clients

/-!
# When a client knows its peer (`netstream.cpp`)

`peer_` is set by the first `enable` that finds the stream, and nothing unsets it. The
requests that renew or refresh a subscription go out for enabled frames only, so the
peer is known by then. `send` has no such guard: a packet posted to a client that has
begun and enabled nothing goes to `*peer_` all the same.
-/

namespace BeyondProtocol.Net

open Framework

/-! ## §1  Calls on a client -/

/-- `found` is what the network answers when it is asked for the stream. -/
inductive PeerCall : Type where
  | begin (bound : Bool)
  | endStream
  | enable (found : Option UUID) (id : FrameID)
  | enableChannel (found : Option UUID) (id : FrameID) (c : Channel)
  | enableChannels (found : Option UUID) (id : FrameID) (cs : ChannelSet)
  | disable (id : FrameID)
  | disableChannel (id : FrameID) (c : Channel)
  | disableChannels (id : FrameID) (cs : ChannelSet)
  | refresh
  | reset
  | setPaused (value : Bool)
  | post (deliver : Destination → SendOutcome) (spkt : StreamPacket) (pkt : DataPacket)
  | receive (p ttimeoff buffering : Int) (spkt : StreamPacket) (pkt : DataPacket)

def perform (fuel : Nat) (now : Int) (net : Net) : PeerCall → Except Fault Net
  | .begin bound => .ok (net.beginAt bound)
  | .endStream => .ok net.endStream
  | .enable found id => do return (← net.enable now found id).1
  | .enableChannel found id c => do return (← net.enableChannel now found id c).1
  | .enableChannels found id cs => do return (← net.enableChannels now found id cs).1
  | .disable id => .ok { net with stream := net.stream.disable id }
  | .disableChannel id c => .ok { net with stream := net.stream.disableChannel id c }
  | .disableChannels id cs => .ok { net with stream := net.stream.disableChannels id cs }
  | .refresh => do return (← net.refresh now).1
  | .reset => .ok net.reset
  | .setPaused value => .ok (net.setPaused value)
  | .post deliver spkt pkt => do return (← net.post deliver spkt pkt).1
  | .receive p ttimeoff buffering spkt pkt => do
      return (← net.receive fuel p now ttimeoff buffering spkt pkt).1

def PeerStep (net : Net) (e : PeerCall) (net' : Net) : Prop :=
  ∃ fuel now, net.perform fuel now e = .ok net'

/-- A client stream as it is made. -/
structure FreshClient (net : Net) : Prop where
  client : net.host = false
  idle : net.active = false
  unknown : net.peer = none
  nothing : ∀ id, net.stream.enabled id = false

namespace PeerCall

/-- A received packet with a channel that `seen` shifts out of range. The behaviour is undefined
there already, before the peer could be needed. -/
def shiftsOut : PeerCall → Prop
  | .receive _ _ _ spkt _ => spkt.channel < 0
  | _ => False

/-- The call looks for the stream and finds it. -/
def finds : PeerCall → Bool
  | .enable found _ => found.isSome
  | .enableChannel found _ _ => found.isSome
  | .enableChannels found _ _ => found.isSome
  | _ => false

def isPost : PeerCall → Bool
  | .post _ _ _ => true
  | _ => false

end PeerCall

/-- No dereference of `peer_` is undefined in this call. -/
def KnowsPeer (net : Net) (e : PeerCall) : Prop :=
  ∀ fuel now, net.perform fuel now e = .error .undefined → e.shiftsOut

/-- Some `enable` call has found the stream. -/
def Discovered (es : List PeerCall) : Prop := ∃ e ∈ es, e.finds = true

/-! ## §2  The requests go out after the peer is known -/

/-- A frame is enabled only once the peer is known. -/
structure PeerFirst (net : Net) : Prop where
  client : net.host = false
  known : ∀ id, net.stream.enabled id = true → net.peer.isSome

theorem sendRequest_ok {net : Net} (hpeer : net.peer.isSome) (now : Int) (c : Channel)
    (frameset frames : Nat) (doreset : Bool) :
    ∃ effects, net.sendRequest now c frameset frames doreset = .ok effects := by
  obtain ⟨host, hhost⟩ := Option.isSome_iff_exists.mp hpeer
  unfold sendRequest
  rw [hhost]
  split_ifs
  · exact ⟨_, rfl⟩
  · exact ⟨_, rfl⟩

theorem sendRequests_ok {net : Net} (h : net.PeerFirst) (now : Int) {fs : List FrameID}
    (hfs : ∀ f ∈ fs, net.stream.enabled f = true) (doreset : Bool) :
    ∃ effects, net.sendRequests now fs doreset = .ok effects := by
  unfold sendRequests
  by_cases hpeer : net.peer.isSome
  · have hsend : ∀ x : FrameID × Channel, ∃ effects,
        net.sendRequest now x.2 x.1.frameset x.1.source doreset = .ok effects :=
      fun x => sendRequest_ok hpeer now x.2 _ _ doreset
    choose effects heffects using hsend
    exact ⟨_, by rw [mapM_ok fun x _ => heffects x]; rfl⟩
  · -- nothing is enabled yet
    cases fs with
    | nil => exact ⟨[], rfl⟩
    | cons f fs => exact absurd (h.known f (hfs f (by simp))) hpeer

/-! ## §3  What a call does -/

/-- After a call that may have found the peer. -/
structure Keeps (net : Net) (found : Bool) (net' : Net) : Prop where
  first : net'.PeerFirst
  peer : net'.peer.isSome ↔ net.peer.isSome ∨ found = true

theorem Keeps.refl {net : Net} (h : net.PeerFirst) : net.Keeps false net := ⟨h, by simp⟩

/-- A change of the stream that enables nothing. -/
theorem PeerFirst.stream {net : Net} (h : net.PeerFirst) {stream : Stream}
    (hstream : ∀ id, stream.enabled id = true → net.stream.enabled id = true) :
    PeerFirst { net with stream := stream } :=
  ⟨h.client, fun id hid => h.known id (hstream id hid)⟩

theorem enabled_update {s : Stream} {id : FrameID} {f : FSState → FSState}
    (hf : ∀ st, (f st).enabled = true → st.enabled = true) (id' : FrameID)
    (h : (s.update id f).enabled id' = true) : s.enabled id' = true := by
  by_cases hid : id' = id
  · subst hid
    exact hf _ (by simpa [Stream.enabled] using h)
  · simpa [Stream.enabled, hid] using h

/-- Where a client that enables a frame finds its peer. -/
theorem findPeer_cases {net : Net} (h : net.PeerFirst) (found : Option UUID) (id : FrameID) :
    (∃ net₁ effects, net.findPeer found id = (net₁, effects, true) ∧ net₁.host = false ∧
      net₁.peer.isSome ∧ (net.peer.isSome ∨ found.isSome)) ∨
    ∃ effects, net.findPeer found id = (net, effects, false) ∧ net.peer = none ∧ found = none := by
  unfold findPeer
  rw [if_neg (by simp [h.client])]
  by_cases hpeer : net.peer.isSome
  · rw [if_pos hpeer]
    exact .inl ⟨net, [], rfl, h.client, hpeer, .inl hpeer⟩
  · have hoff : ¬ net.stream.enabled id = true := fun hid => hpeer (h.known id hid)
    rw [if_neg hpeer, if_neg hoff]
    cases found with
    | none => exact .inr ⟨_, rfl, by simpa using hpeer, rfl⟩
    | some u => exact .inl ⟨_, _, rfl, h.client, rfl, .inr rfl⟩

theorem enableWith_known {net : Net} (h : net.PeerFirst) (now : Int) (found : Option UUID)
    (id : FrameID) (f : Stream → Stream) (cs : List Channel) :
    ∃ r, net.enableWith now found id f cs = .ok r ∧ net.Keeps found.isSome r.1 := by
  unfold enableWith
  rw [if_neg (by simp [h.client])]
  rcases findPeer_cases h found id with ⟨net₁, effects, hfind, hclient, hpeer, hor⟩ |
    ⟨effects, hfind, hpeer, hfound⟩
  · have hsend : ∀ c, ∃ r, sendRequest { net₁ with stream := f net₁.stream } now c id.frameset
        id.source true = .ok r := fun c => sendRequest_ok hpeer now c _ _ true
    choose r hr using hsend
    rw [hfind]
    refine ⟨({ net₁ with stream := f net₁.stream }, effects ++ (cs.map r).flatten, true), ?_,
      ⟨hclient, fun _ _ => hpeer⟩, iff_of_true hpeer hor⟩
    show (cs.mapM (fun c => sendRequest { net₁ with stream := f net₁.stream } now c id.frameset
      id.source true) >>= _) = _
    rw [mapM_ok fun c _ => hr c]
    rfl
  · rw [hfind]
    exact ⟨(net, effects, false), rfl, h, by simp [hpeer, hfound]⟩

/-- Calls that do not look for the stream. -/
theorem Keeps.seen {net : Net} (h : net.PeerFirst) {stream : Stream}
    (hstream : ∀ id, stream.enabled id = net.stream.enabled id) :
    net.Keeps false { net with stream := stream } :=
  ⟨h.stream fun id hid => (hstream id).symm.trans hid, by simp⟩

theorem Keeps.tally {net : Net} (h : net.PeerFirst) (tally : Fin 5 → Int) :
    net.Keeps false { net with tally := tally } := ⟨⟨h.client, h.known⟩, by simp⟩

theorem Keeps.trans {net net₁ net₂ : Net} (h : net.Keeps false net₁) (h' : net₁.Keeps false net₂) :
    net.Keeps false net₂ := ⟨h'.first, by simpa [h.peer] using h'.peer⟩

/-- The undefined behaviour that is left once the peer is known: a channel below zero. -/
def Unknown (c : Channel) (fault : Fault) : Prop := fault = .undefined ∧ ¬ c < 0

theorem noteSeen_known {net : Net} (h : net.PeerFirst) (spkt : StreamPacket) (pkt : DataPacket) :
    Ensures (Unknown spkt.channel) (net.noteSeen spkt pkt) fun r => net.Keeps false r.1 := by
  unfold noteSeen
  rw [if_neg (by simp [h.client])]
  refine Ensures.bind (P := fun r => ∀ id, r.1.enabled id = net.stream.enabled id) ⟨?_, ?_⟩ ?_
  · rintro ⟨stream, fired⟩ hseen id
    exact (Stream.seen_enabled hseen id).1
  · intro fault hseen
    rintro ⟨rfl, hc⟩
    -- the shift is the one step of `seen` that is undefined
    unfold Stream.seen FSState.seen at hseen
    split_ifs at hseen <;> simp_all
  · rintro ⟨stream, fired⟩ hstream
    exact .ok (.seen h hstream)

theorem countEndFrame_known {net : Net} (h : net.PeerFirst) (now : Int) (i : Fin 5) :
    ∃ r, net.countEndFrame now i = .ok r ∧ net.Keeps false r.1 := by
  unfold countEndFrame
  obtain ⟨effects, heffects⟩ := sendRequests_ok h now
    (fun f hf => (Stream.mem_enabledIn.mp hf).1 : ∀ f ∈ net.stream.enabledIn i, _) false
  split_ifs
  · rw [heffects]
    exact ⟨_, rfl, .tally h _⟩
  · exact ⟨_, rfl, .tally h _⟩

theorem manageRequests_known {net : Net} (h : net.PeerFirst) (now : Int) (spkt : StreamPacket) :
    ∃ r, net.manageRequests now spkt = .ok r ∧ net.Keeps false r.1 := by
  unfold manageRequests
  split_ifs
  · exact ⟨_, rfl, .refl h⟩
  · exact countEndFrame_known h now _
  · exact ⟨_, rfl, .refl h⟩
  · exact ⟨_, rfl, .refl h⟩

theorem refresh_known {net : Net} (h : net.PeerFirst) (now : Int) :
    ∃ r, net.refresh now = .ok r ∧ net.Keeps false r.1 := by
  obtain ⟨effects, heffects⟩ := sendRequests_ok h now
    (fun f hf => Stream.mem_enabledFrames.mp hf : ∀ f ∈ net.stream.enabledFrames, _) true
  unfold refresh
  rw [heffects]
  exact ⟨_, rfl, .tally h _⟩

theorem earlyProcessPacket_known {net : Net} (h : net.PeerFirst) (now : Int) (spkt : StreamPacket)
    (pkt : DataPacket) : Ensures (Unknown spkt.channel) (net.earlyProcessPacket now spkt pkt)
      fun r => net.Keeps false r.1 := by
  unfold earlyProcessPacket
  split_ifs
  · exact .ok (.refl h)
  · refine (noteSeen_known h spkt pkt).bind ?_
    rintro ⟨net₁, seen⟩ hseen
    obtain ⟨⟨net₂, requests⟩, hmanage, hkeeps⟩ := manageRequests_known hseen.first now spkt
    simp only [hmanage, ok_bind]
    exact .ok (hseen.trans hkeeps)
  · exact .error (by simp [Unknown])

theorem receive_known {net : Net} (h : net.PeerFirst) (fuel : Nat) (p now ttimeoff buffering : Int)
    (spkt : StreamPacket) (pkt : DataPacket) :
    Ensures (Unknown spkt.channel) (net.receive fuel p now ttimeoff buffering spkt pkt)
      fun r => net.Keeps false r.1 := by
  unfold receive receiveClient
  rw [if_neg (by simp [h.client])]
  refine (earlyProcessPacket_known h now { spkt with localTimestamp := now - ttimeoff } pkt).bind ?_
  rintro ⟨net₁, early⟩ hearly
  refine Ensures.bind (P := fun r => net.Keeps false r.1) ?_ fun r hr => .ok hr
  unfold bufferOrProcess
  split_ifs
  · rw [processPacket_client hearly.first.client]
    exact .ok hearly
  · exact .ok (hearly.trans ⟨⟨hearly.first.client, hearly.first.known⟩, by simp⟩)

/-- A packet posted to a client needs the peer once the client is active. -/
theorem post_known {net : Net} (h : net.host = false) (deliver : Destination → SendOutcome)
    (spkt : StreamPacket) (pkt : DataPacket) :
    (net.post deliver spkt pkt = .error .undefined ↔
      net.active = true ∧ net.paused = false ∧ net.peer = none) ∧
      ∀ r, net.post deliver spkt pkt = .ok r → r.1 = net := by
  unfold post send
  cases net.active with
  | false => simp [pure, Except.pure]
  | true =>
      cases net.paused with
      | true => simp [pure, Except.pure]
      | false =>
          cases net.peer with
          | none => simp [h]
          | some host =>
              cases hdeliver : deliver (.host host) <;> simp [h, hdeliver, pure, Except.pure]

/-- What a call does to a client in which the peer comes first. -/
theorem perform_known {net : Net} (h : net.PeerFirst) (fuel : Nat) (now : Int) (e : PeerCall)
    (hpost : e.isPost = false) :
    (net.perform fuel now e = .error .undefined → e.shiftsOut) ∧
      ∀ net', net.perform fuel now e = .ok net' → net.Keeps e.finds net' := by
  have hreturns : ∀ {net' : Net} {P : Prop},
      (Except.ok net' : Except Fault Net) = .error .undefined → P := by
    rintro _ _ ⟨⟩
  -- a change of the base class that enables nothing
  have hstream : ∀ {stream : Stream} {net' : Net},
      (∀ id, stream.enabled id = true → net.stream.enabled id = true) →
      Except.ok { net with stream := stream } = (.ok net' : Except Fault Net) →
      net.Keeps false net' := by
    rintro stream _ hs ⟨⟩
    exact ⟨h.stream hs, by simp⟩
  have henable : ∀ (found : Option UUID) (id : FrameID) (f : Stream → Stream) (cs : List Channel)
      {x : Except Fault Net}, x = (do return (← net.enableWith now found id f cs).1) →
      x ≠ .error .undefined ∧ ∀ net', x = .ok net' → net.Keeps found.isSome net' := by
    rintro found id f cs _ rfl
    obtain ⟨r, hr, hkeeps⟩ := enableWith_known h now found id f cs
    rw [hr]
    refine ⟨hreturns, ?_⟩
    rintro _ ⟨⟩
    exact hkeeps
  cases e with
  | begin bound =>
      refine ⟨hreturns, ?_⟩
      rintro _ ⟨⟩
      unfold beginAt begin
      split_ifs
      · exact .refl h
      · exact .refl h
      · exact ⟨⟨h.client, h.known⟩, by simp [PeerCall.finds]⟩
      · exact ⟨⟨h.client, h.known⟩, by simp [PeerCall.finds]⟩
  | endStream =>
      refine ⟨hreturns, ?_⟩
      rintro _ ⟨⟩
      exact ⟨⟨h.client, h.known⟩, by simp [endStream, PeerCall.finds]⟩
  | enable found id =>
      obtain ⟨hdef, hkeeps⟩ := henable found id (·.enable id) [Channel.kColour] rfl
      exact ⟨fun hu => absurd hu hdef, hkeeps⟩
  | enableChannel found id c =>
      obtain ⟨hdef, hkeeps⟩ := henable found id (·.enableChannel id c) [c] rfl
      exact ⟨fun hu => absurd hu hdef, hkeeps⟩
  | enableChannels found id cs =>
      obtain ⟨hdef, hkeeps⟩ := henable found id (·.enableChannels id cs) cs.sort rfl
      exact ⟨fun hu => absurd hu hdef, hkeeps⟩
  | disable id =>
      refine ⟨hreturns, fun net' => hstream (enabled_update ?_)⟩
      simp
  | disableChannel id c =>
      refine ⟨hreturns, fun net' => hstream (enabled_update ?_)⟩
      simp
  | disableChannels id cs =>
      refine ⟨hreturns, fun net' => hstream (enabled_update ?_)⟩
      simp
  | refresh =>
      obtain ⟨r, hr, hkeeps⟩ := refresh_known h now
      unfold perform
      rw [hr]
      refine ⟨hreturns, ?_⟩
      rintro _ ⟨⟩
      exact hkeeps
  | reset =>
      refine ⟨hreturns, fun net' => hstream ?_⟩
      simp [Stream.reset, Stream.enabled, Stream.getOrCreate]
  | setPaused value =>
      refine ⟨hreturns, ?_⟩
      rintro _ ⟨⟩
      exact ⟨⟨h.client, h.known⟩, by simp [setPaused, PeerCall.finds]⟩
  | post deliver spkt pkt => cases hpost
  | receive p ttimeoff buffering spkt pkt =>
      have hreceive : Ensures (Unknown spkt.channel)
          (net.perform fuel now (.receive p ttimeoff buffering spkt pkt)) (net.Keeps false) :=
        (receive_known h fuel p now ttimeoff buffering spkt pkt).bind fun r hr => .ok hr
      refine ⟨fun hu => ?_, fun net' hok => hreceive.1 net' hok⟩
      by_contra hc
      exact hreceive.2 _ hu ⟨rfl, hc⟩

/-! ## §4  Runs of a client -/

/-- The peer of a client is known once a call has found the stream. -/
theorem runs_known {net₀ net : Net} {es : List PeerCall} (hfresh : net₀.FreshClient)
    (run : Runs PeerStep net₀ es net) :
    net.PeerFirst ∧ (net.peer.isSome ↔ Discovered es) := by
  refine run.invariant_hist (I := fun es net => net.PeerFirst ∧ (net.peer.isSome ↔ Discovered es))
    ?_ ?_
  · have hnothing : ∀ id, net₀.stream.enabled id = true → net₀.peer.isSome :=
      fun id hid => absurd hid (by simp [hfresh.nothing id])
    exact ⟨⟨hfresh.client, hnothing⟩, by simp [hfresh.unknown, Discovered]⟩
  · rintro es net e net' ⟨hfirst, hpeer⟩ ⟨fuel, now, hok⟩
    have hkeeps : net.Keeps e.finds net' := by
      cases hpost : e.isPost with
      | false => exact (perform_known hfirst fuel now e hpost).2 net' hok
      | true =>
          cases e with
          | post deliver spkt pkt =>
              obtain ⟨r, hr, hret⟩ := bind_eq_ok.mp hok
              cases hret
              rw [(post_known hfirst.client deliver spkt pkt).2 r hr]
              exact .refl hfirst
          | _ => cases hpost
    refine ⟨hkeeps.first, ?_⟩
    rw [hkeeps.peer, hpeer]
    simp [Discovered, or_and_right, exists_or]

/-- A client whose peer is unknown must not post while it is active and not paused: every other
call, in any order and whatever the discovery answers, needs the peer only where it is known. -/
theorem peer_known_iff {net₀ net : Net} {es : List PeerCall} (hfresh : net₀.FreshClient)
    (run : Runs PeerStep net₀ es net) (e : PeerCall) :
    net.KnowsPeer e ↔
      (e.isPost = true → net.active = true → net.paused = false → Discovered es) := by
  obtain ⟨hfirst, hpeer⟩ := runs_known hfresh run
  cases hpost : e.isPost with
  | false =>
      simp only [Bool.false_eq_true, false_implies, iff_true]
      exact fun fuel now hu => (perform_known hfirst fuel now e hpost).1 hu
  | true =>
      cases e with
      | post deliver spkt pkt =>
          have hundefined : ∀ fuel now,
              net.perform fuel now (.post deliver spkt pkt) = .error .undefined ↔
                net.post deliver spkt pkt = .error .undefined := by
            intro fuel now
            show (net.post deliver spkt pkt >>= _) = _ ↔ _
            cases net.post deliver spkt pkt with
            | error fault => simp
            | ok r => simp [pure, Except.pure]
          simp only [KnowsPeer, hundefined, (post_known hfirst.client deliver spkt pkt).1, ← hpeer,
            PeerCall.shiftsOut]
          cases net.peer <;> simp
      | _ => cases hpost

def firstPost : PeerCall :=
  .post (fun _ => .sent)
    { timestamp := 0, streamID := 0, frameNumber := 0, channel := Channel.kColour } {}

/-- The calls of a client that looks for its host before it posts. -/
def discoveryCalls : List PeerCall :=
  [.begin false, .enable (some (UUID.fill 7)) ⟨0⟩]

def discoveredClient : Net :=
  { host := false, active := true, peer := some (UUID.fill 7), tally := fun _ => 80,
    stream := ({} : Stream).enable ⟨0⟩ }

/-- A client that has found its host may post. -/
theorem peer_known_discovered :
    discoveredClient.KnowsPeer firstPost := by
  have hrun : Runs PeerStep { host := false } discoveryCalls discoveredClient :=
    ((Runs.init.snoc ⟨0, 0, rfl⟩).snoc ⟨0, 0, rfl⟩)
  refine (peer_known_iff ⟨rfl, rfl, rfl, fun _ => rfl⟩ hrun _).mpr fun _ _ _ => ?_
  exact ⟨.enable (some (UUID.fill 7)) ⟨0⟩, by simp [discoveryCalls], rfl⟩

/-- A client that has begun and enabled nothing dereferences an empty `peer_` when it posts. -/
theorem post_before_discovery :
    ∃ net, FreshClient { host := false } ∧
      Runs PeerStep { host := false } [.begin false] net ∧
      ¬ net.KnowsPeer firstPost := by
  refine ⟨begin { host := false }, ⟨rfl, rfl, rfl, fun _ => rfl⟩, Runs.init.snoc ⟨0, 0, rfl⟩, ?_⟩
  intro h
  exact h 0 0 rfl

end BeyondProtocol.Net
