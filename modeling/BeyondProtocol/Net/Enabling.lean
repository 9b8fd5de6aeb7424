import BeyondProtocol.Framework.Runs
import BeyondProtocol.Net.Clients

/-!
# Enabling before and after `begin`

`enable` selects a channel and then asks the host for it. `_sendRequest` does
nothing while the stream is not active, its result is ignored and `begin` asks for
nothing, so a channel that was enabled too early is selected and never requested.
The calls are followed here with what they returned and what they sent.
-/

namespace BeyondProtocol.Net

open Framework

/-! ## §1  Calls on a receiving stream -/

inductive StreamCall : Type where
  | begin (bound : Bool)
  | endStream
  | enable (id : FrameID)
  | enableChannel (id : FrameID) (c : Channel)
  | enableChannels (id : FrameID) (cs : ChannelSet)
  | disable (id : FrameID)
  | disableChannel (id : FrameID) (c : Channel)
  | disableChannels (id : FrameID) (cs : ChannelSet)
  | reset

/-- The stream, what it did so far, and the frames and channels whose `enable` returned
true and that were not disabled or reset since. -/
structure Caller where
  net : Net
  log : List Effect := []
  accepted : Finset (FrameID × Channel) := ∅

namespace Caller

/-- The outcome of an `enable` call for the channels `cs`. -/
def afterEnable (s : Caller) (id : FrameID) (cs : ChannelSet) (r : Net × List Effect × Bool) :
    Caller where
  net := r.1
  log := s.log ++ r.2.1
  accepted := if r.2.2 then s.accepted ∪ cs.image fun c => (id, c) else s.accepted

/-- `hostId` is the peer that offers the stream. -/
def call (hostId : UUID) (now : Int) (s : Caller) : StreamCall → Except Fault Caller
  | .begin bound => .ok { s with net := s.net.beginAt bound }
  | .endStream => .ok { s with net := s.net.endStream }
  | .enable id => do return s.afterEnable id ∅ (← s.net.enable now (some hostId) id)
  | .enableChannel id c => do
      return s.afterEnable id {c} (← s.net.enableChannel now (some hostId) id c)
  | .enableChannels id cs => do
      return s.afterEnable id cs (← s.net.enableChannels now (some hostId) id cs)
  | .disable id => .ok { s with
      net := { s.net with stream := s.net.stream.disable id }
      accepted := s.accepted.filter fun x => x.1 ≠ id }
  | .disableChannel id c => .ok { s with
      net := { s.net with stream := s.net.stream.disableChannel id c }
      accepted := s.accepted.erase (id, c) }
  | .disableChannels id cs => .ok { s with
      net := { s.net with stream := s.net.stream.disableChannels id cs }
      accepted := s.accepted.filter fun x => ¬ (x.1 = id ∧ x.2 ∈ cs) }
  | .reset => .ok { s with net := s.net.reset, accepted := ∅ }

end Caller

def CallStep (hostId : UUID) (s : Caller) (e : StreamCall) (s' : Caller) : Prop :=
  ∃ now, s.call hostId now e = .ok s'

/-- A request for the frame and channel is among what went to the host. -/
def RequestSent (hostId : UUID) (log : List Effect) (f : FrameID) (c : Channel) : Prop :=
  ∃ x ∈ transmissions (.host hostId) log,
    isRequest x.1 x.2 = true ∧ x.1.frame = f ∧ x.1.channel = c

/-- Everything accepted was requested, if the stream is active. -/
def Caller.AllRequested (hostId : UUID) (s : Caller) : Prop :=
  s.net.active = true → ∀ x ∈ s.accepted, RequestSent hostId s.log x.1 x.2

/-- A receiving stream nobody has called yet. -/
structure Fresh (net : Net) : Prop where
  receiving : net.host = false
  inactive : net.active = false
  noPeer : net.peer = none
  noFrames : net.stream.state = ∅

/-! ## §2  The calls as a history -/

namespace StreamCall

/-- The call enables the channel. -/
def names : StreamCall → FrameID → Channel → Prop
  | .enableChannel id d, f, c => f = id ∧ c = d
  | .enableChannels id cs, f, c => f = id ∧ c ∈ cs
  | _, _, _ => False

/-- `enable(FrameID)` asks for the colour channel. -/
def requests (e : StreamCall) (f : FrameID) (c : Channel) : Prop :=
  e.names f c ∨ e = .enable f ∧ c = Channel.kColour

def withdraws : StreamCall → FrameID → Channel → Prop
  | .disable id, f, _ => f = id
  | .disableChannel id d, f, c => f = id ∧ c = d
  | .disableChannels id cs, f, c => f = id ∧ c ∈ cs
  | .reset, _, _ => True
  | _, _, _ => False

/-- Whether the stream is active after the call, `a` saying whether it was before. -/
def activity (a : Bool) : StreamCall → Bool
  | .begin bound => a || !bound
  | .endStream => false
  | _ => a

end StreamCall

def activeAfter (es : List StreamCall) : Bool := es.foldl StreamCall.activity false

/-- The channel was enabled and not disabled since. -/
def InForce (es : List StreamCall) (f : FrameID) (c : Channel) : Prop :=
  ∃ pre e post, es = pre ++ e :: post ∧ e.names f c ∧ ∀ e' ∈ post, ¬ e'.withdraws f c

/-- The frame a request names: of the frameset number it carries eight bits. -/
def wireFrame (f : FrameID) : FrameID := FrameID.ofPair (f.frameset % 256) f.source

/-- The channel was asked for by an `enable` call while the stream was active. No call fails. -/
def AskedActive (es : List StreamCall) (f : FrameID) (c : Channel) : Prop :=
  ∃ pre e post, es = pre ++ e :: post ∧ activeAfter pre = true ∧
    ∃ g, e.requests g c ∧ wireFrame g = f

theorem activeAfter_snoc (es : List StreamCall) (e : StreamCall) :
    activeAfter (es ++ [e]) = e.activity (activeAfter es) := by
  simp [activeAfter]

theorem inForce_snoc {es : List StreamCall} {e : StreamCall} {f : FrameID} {c : Channel} :
    InForce (es ++ [e]) f c ↔ e.names f c ∨ (InForce es f c ∧ ¬ e.withdraws f c) := by
  refine (exists_split_snoc (P := fun _ (a : StreamCall) (post : List StreamCall) =>
    a.names f c ∧ ∀ e' ∈ post, ¬ e'.withdraws f c)).trans ?_
  constructor
  · rintro (⟨hnames, -⟩ | ⟨pre, a, post, rfl, hnames, hpost⟩)
    · exact .inl hnames
    · refine .inr ⟨⟨pre, a, post, rfl, hnames, fun e' he' => hpost e' (by simp [he'])⟩, ?_⟩
      exact hpost e (by simp)
  · rintro (hnames | ⟨⟨pre, a, post, rfl, hnames, hpost⟩, hkeep⟩)
    · exact .inl ⟨hnames, by simp⟩
    · refine .inr ⟨pre, a, post, rfl, hnames, ?_⟩
      intro e' he'
      rcases List.mem_append.mp he' with he' | he'
      · exact hpost e' he'
      · obtain rfl := List.mem_singleton.mp he'
        exact hkeep

theorem askedActive_snoc {es : List StreamCall} {e : StreamCall} {f : FrameID} {c : Channel} :
    AskedActive (es ++ [e]) f c ↔ AskedActive es f c ∨
      activeAfter es = true ∧ ∃ g, e.requests g c ∧ wireFrame g = f := by
  refine (exists_split_snoc (P := fun (pre : List StreamCall) (a : StreamCall) _ =>
    activeAfter pre = true ∧ ∃ g, a.requests g c ∧ wireFrame g = f)).trans ?_
  exact or_comm

/-! ## §3  What a call sends -/

theorem requestSent_append {hostId : UUID} {es es' : List Effect} {f : FrameID} {c : Channel} :
    RequestSent hostId (es ++ es') f c ↔
      RequestSent hostId es f c ∨ RequestSent hostId es' f c := by
  simp only [RequestSent, transmissions_append, List.mem_append]
  constructor
  · rintro ⟨x, hx | hx, h⟩
    · exact .inl ⟨x, hx, h⟩
    · exact .inr ⟨x, hx, h⟩
  · rintro (⟨x, hx, h⟩ | ⟨x, hx, h⟩)
    · exact ⟨x, .inl hx, h⟩
    · exact ⟨x, .inr hx, h⟩

theorem requestSent_flatMap {α : Type} {hostId : UUID} {l : List α} {g : α → List Effect}
    {f : FrameID} {c : Channel} :
    RequestSent hostId (l.flatMap g) f c ↔ ∃ a ∈ l, RequestSent hostId (g a) f c := by
  induction l with
  | nil => simp [RequestSent, transmissions]
  | cons a l ih => rw [List.flatMap_cons, requestSent_append, ih, List.exists_mem_cons_iff]

/-- A stream that knows its host, or has nothing enabled yet. -/
structure Receiving (hostId : UUID) (net : Net) : Prop where
  receiving : net.host = false
  peer : net.peer = some hostId ∨ net.peer = none ∧ ∀ id, net.stream.enabled id = false

theorem sendRequest_sent {hostId : UUID} {net : Net} (hrecv : net.host = false)
    (hpeer : net.peer = some hostId) (now : Int) (d : Channel) (g : FrameID) (doreset : Bool) :
    ∃ effects, net.sendRequest now d g.frameset g.source doreset = .ok effects ∧
      ∀ f c, RequestSent hostId effects f c ↔ net.active = true ∧ c = d ∧ wireFrame g = f := by
  unfold sendRequest
  cases hactive : net.active with
  | false =>
      refine ⟨[], by simp, ?_⟩
      intro f c
      simp [RequestSent, transmissions]
  | true =>
      simp only [hrecv, hpeer, Bool.not_true, Bool.or_self, Bool.false_eq_true, if_false]
      refine ⟨_, rfl, ?_⟩
      intro f c
      have hflags : ∀ b : Bool, ((if b = true then kFlagRequest ||| kFlagReset
          else kFlagRequest) &&& kFlagRequest != 0) = true := by decide
      have hframe : ∀ spkt : StreamPacket, spkt.streamID = UInt8.ofNat g.frameset →
          spkt.frameNumber = UInt8.ofNat g.source → spkt.frame = wireFrame g := by
        intro spkt hs hn
        have hsrc := g.source_lt
        refine FrameID.ext_parts ?_ ?_
        · rw [StreamPacket.frame_frameset, hs, UInt8.toNat_ofNat', wireFrame,
            FrameID.frameset_ofPair (by omega)]
        · rw [StreamPacket.frame_source, hn, UInt8.toNat_ofNat', wireFrame, FrameID.source_ofPair]
      simp only [RequestSent, transmissions, List.filterMap_cons, if_true, List.filterMap_nil,
        List.mem_singleton, exists_eq_left, true_and]
      rw [hframe _ rfl rfl]
      constructor
      · rintro ⟨-, hf, hc⟩
        exact ⟨hc.symm, hf⟩
      · rintro ⟨rfl, hf⟩
        exact ⟨hflags doreset, hf, rfl⟩

theorem findPeer_found {hostId : UUID} {net : Net} (h : Receiving hostId net) (id : FrameID) :
    ∃ effects, net.findPeer (some hostId) id = ({ net with peer := some hostId }, effects, true) ∧
      ∀ dest, transmissions dest effects = [] := by
  unfold findPeer
  rw [if_neg (by simp [h.receiving])]
  rcases h.peer with hpeer | ⟨hpeer, hnone⟩
  · refine ⟨[], ?_, fun _ => rfl⟩
    rw [if_pos (by simp [hpeer]), ← hpeer]
  · refine ⟨[.enableStream hostId id], ?_, fun _ => rfl⟩
    rw [if_neg (by simp [hpeer]), if_neg (by simp [hnone])]

/-- **An `enable` call** is accepted, and sends one request for each of its channels if the
stream is active. -/
theorem enableWith_sent {hostId : UUID} {net : Net} (h : Receiving hostId net) (now : Int)
    (id : FrameID) (u : Stream → Stream) (cs : List Channel) :
    ∃ net' effects, net.enableWith now (some hostId) id u cs = .ok (net', effects, true) ∧
      Receiving hostId net' ∧ net'.active = net.active ∧
      ∀ f c, RequestSent hostId effects f c ↔ net.active = true ∧ c ∈ cs ∧ wireFrame id = f := by
  obtain ⟨found, hfind, hquiet⟩ := findPeer_found h id
  set net' : Net := { net with peer := some hostId, stream := u net.stream } with hnet'
  have hsend : ∀ d, ∃ effects, net'.sendRequest now d id.frameset id.source true = .ok effects ∧
      ∀ f c, RequestSent hostId effects f c ↔ net.active = true ∧ c = d ∧ wireFrame id = f :=
    fun d => @sendRequest_sent hostId net' h.receiving rfl now d id true
  choose requests hok hsent using hsend
  have hmap : cs.mapM (fun c => net'.sendRequest now c id.frameset id.source true) =
      .ok (cs.map requests) := mapM_ok fun c _ => hok c
  refine ⟨net', found ++ (cs.map requests).flatten, ?_, ⟨h.receiving, .inl rfl⟩, rfl, ?_⟩
  · unfold enableWith
    rw [if_neg (by simp [h.receiving]), hfind]
    show (cs.mapM (fun c => net'.sendRequest now c id.frameset id.source true) >>= _) = _
    rw [hmap]
    rfl
  · intro f c
    have hfound : ¬ RequestSent hostId found f c := by
      rintro ⟨x, hx, -⟩
      rw [hquiet] at hx
      cases hx
    rw [requestSent_append, or_iff_right hfound, ← List.flatMap_def, requestSent_flatMap]
    simp only [hsent]
    constructor
    · rintro ⟨d, hd, hactive, rfl, hf⟩
      exact ⟨hactive, hd, hf⟩
    · rintro ⟨hactive, hc, hf⟩
      exact ⟨c, hc, hactive, rfl, hf⟩

/-! ## §4  Over whole runs -/

/-- What a history of calls leaves. -/
structure Tracks (hostId : UUID) (es : List StreamCall) (s : Caller) : Prop where
  stream : Receiving hostId s.net
  active : s.net.active = activeAfter es
  accepted : ∀ f c, (f, c) ∈ s.accepted ↔ InForce es f c
  sent : ∀ f c, RequestSent hostId s.log f c ↔ AskedActive es f c

/-- A call that neither enables nor asks for anything. -/
theorem Tracks.quiet {hostId : UUID} {es : List StreamCall} {s s' : Caller} {e : StreamCall}
    (h : Tracks hostId es s) (hstream : Receiving hostId s'.net)
    (hactive : s'.net.active = e.activity s.net.active) (hlog : s'.log = s.log)
    (hasks : ∀ f c, ¬ e.requests f c)
    (haccepted : ∀ f c, (f, c) ∈ s'.accepted ↔ (f, c) ∈ s.accepted ∧ ¬ e.withdraws f c) :
    Tracks hostId (es ++ [e]) s' where
  stream := hstream
  active := by rw [hactive, h.active, activeAfter_snoc]
  accepted := by
    intro f c
    have hnames : ¬ e.names f c := fun hn => hasks f c (.inl hn)
    rw [haccepted, h.accepted, inForce_snoc, or_iff_right hnames]
  sent := by
    intro f c
    have hnone : ¬ (activeAfter es = true ∧ ∃ g, e.requests g c ∧ wireFrame g = f) := by
      rintro ⟨-, g, hg, -⟩
      exact hasks g c hg
    rw [hlog, h.sent, askedActive_snoc, or_iff_left hnone]

/-- An `enable` call for the channels `cs`, which asks for the channels `ds`. -/
theorem Tracks.enable {hostId : UUID} {es : List StreamCall} {s s' : Caller} {e : StreamCall}
    (h : Tracks hostId es s) {now : Int} {id : FrameID} {u : Stream → Stream} {cs : ChannelSet}
    {ds : List Channel} (hactivity : ∀ a, e.activity a = a)
    (hnames : ∀ f c, e.names f c ↔ f = id ∧ c ∈ cs) (hkeep : ∀ f c, ¬ e.withdraws f c)
    (hasks : ∀ f c, e.requests f c ↔ f = id ∧ c ∈ ds)
    (hcall : (do return s.afterEnable id cs (← s.net.enableWith now (some hostId) id u ds)) =
      Except.ok (ε := Fault) s') : Tracks hostId (es ++ [e]) s' := by
  obtain ⟨net', effects, hok, hstream, hactive, hsent⟩ := enableWith_sent h.stream now id u ds
  rw [hok] at hcall
  cases hcall
  refine ⟨hstream, ?_, ?_, ?_⟩
  · rw [activeAfter_snoc, hactivity, ← h.active]
    exact hactive
  · intro f c
    rw [inForce_snoc, hnames, and_iff_left (hkeep f c), ← h.accepted]
    show (f, c) ∈ s.accepted ∪ cs.image (fun c => (id, c)) ↔ _
    simp only [Finset.mem_union, Finset.mem_image, Prod.mk.injEq]
    constructor
    · rintro (hold | ⟨d, hd, rfl, rfl⟩)
      · exact .inr hold
      · exact .inl ⟨rfl, hd⟩
    · rintro (⟨rfl, hc⟩ | hold)
      · exact .inr ⟨c, hc, rfl, rfl⟩
      · exact .inl hold
  · intro f c
    show RequestSent hostId (s.log ++ effects) f c ↔ _
    rw [requestSent_append, h.sent, hsent, askedActive_snoc, ← h.active]
    refine or_congr Iff.rfl (and_congr Iff.rfl ?_)
    constructor
    · rintro ⟨hc, hf⟩
      exact ⟨id, (hasks id c).mpr ⟨rfl, hc⟩, hf⟩
    · rintro ⟨g, hg, hf⟩
      obtain ⟨rfl, hc⟩ := (hasks g c).mp hg
      exact ⟨hc, hf⟩

theorem receiving_update {hostId : UUID} {net : Net} (h : Receiving hostId net) {id : FrameID}
    {u : FSState → FSState} (hu : ∀ p, p.enabled = false → (u p).enabled = false) :
    Receiving hostId { net with stream := net.stream.update id u } := by
  refine ⟨h.receiving, h.peer.imp_right ?_⟩
  rintro ⟨hpeer, hnone⟩
  refine ⟨hpeer, ?_⟩
  intro f
  have hf := hnone f
  by_cases hfid : f = id
  · subst hfid
    simp only [Stream.enabled, Stream.getOrCreate_update_self] at hf ⊢
    exact hu _ hf
  · simpa [Stream.enabled, hfid] using hf

theorem receiving_disableChannels {hostId : UUID} {net : Net} (h : Receiving hostId net)
    (id : FrameID) (cs : ChannelSet) :
    Receiving hostId { net with stream := net.stream.disableChannels id cs } := by
  refine receiving_update h ?_
  intro p hp
  show (if p.selected \ cs = ∅ then false else p.enabled) = false
  rw [hp, ite_self]

theorem active_beginAt (net : Net) (bound : Bool) :
    (net.beginAt bound).active = (net.active || !bound) := by
  unfold beginAt Net.begin
  cases hactive : net.active with
  | true => simp [hactive]
  | false =>
      cases bound with
      | true => simp [hactive]
      | false => cases net.host <;> rfl

theorem Tracks.step {hostId : UUID} {es : List StreamCall} {s s' : Caller} {e : StreamCall}
    (h : Tracks hostId es s) (hstep : CallStep hostId s e s') : Tracks hostId (es ++ [e]) s' := by
  obtain ⟨now, hcall⟩ := hstep
  cases e with
  | begin bound =>
      cases hcall
      have hsame : Receiving hostId (s.net.beginAt bound) := by
        unfold beginAt Net.begin
        split_ifs <;> exact ⟨h.stream.receiving, h.stream.peer⟩
      refine h.quiet hsame ?_ rfl ?_ ?_
      · exact active_beginAt s.net bound
      · simp [StreamCall.requests, StreamCall.names]
      · simp [StreamCall.withdraws]
  | endStream =>
      cases hcall
      refine h.quiet ⟨h.stream.receiving, h.stream.peer⟩ rfl rfl ?_ ?_
      · simp [StreamCall.requests, StreamCall.names]
      · simp [StreamCall.withdraws]
  | enable id =>
      refine h.enable (fun _ => rfl) ?_ (fun _ _ => not_false) ?_ hcall
      · simp [StreamCall.names]
      · simp [StreamCall.requests, StreamCall.names, eq_comm]
  | enableChannel id c =>
      refine h.enable (fun _ => rfl) ?_ (fun _ _ => not_false) ?_ hcall
      · simp [StreamCall.names]
      · simp [StreamCall.requests, StreamCall.names]
  | enableChannels id cs =>
      refine h.enable (fun _ => rfl) (fun _ _ => Iff.rfl) (fun _ _ => not_false) ?_ hcall
      simp [StreamCall.requests, StreamCall.names]
  | disable id =>
      cases hcall
      refine h.quiet (receiving_update h.stream fun _ _ => rfl) rfl rfl ?_ ?_
      · simp [StreamCall.requests, StreamCall.names]
      · simp [StreamCall.withdraws]
  | disableChannel id c =>
      cases hcall
      refine h.quiet (receiving_disableChannels h.stream id {c}) rfl rfl ?_ ?_
      · simp [StreamCall.requests, StreamCall.names]
      · intro f d
        simp [StreamCall.withdraws, and_comm]
  | disableChannels id cs =>
      cases hcall
      refine h.quiet (receiving_disableChannels h.stream id cs) rfl rfl ?_ ?_
      · simp [StreamCall.requests, StreamCall.names]
      · intro f d
        simp [StreamCall.withdraws]
  | reset =>
      cases hcall
      refine h.quiet ⟨h.stream.receiving, h.stream.peer.imp_right ?_⟩ rfl rfl ?_ ?_
      · rintro ⟨hpeer, -⟩
        exact ⟨hpeer, fun _ => rfl⟩
      · simp [StreamCall.requests, StreamCall.names]
      · simp [StreamCall.withdraws]

theorem tracks_of_run {hostId : UUID} {net : Net} (h₀ : Fresh net) {es : List StreamCall}
    {s : Caller} (run : Runs (CallStep hostId) { net := net } es s) : Tracks hostId es s := by
  apply run.invariant_hist (I := Tracks hostId)
  · refine ⟨⟨h₀.receiving, .inr ⟨h₀.noPeer, ?_⟩⟩, h₀.inactive, ?_, ?_⟩
    · intro id
      simp [Stream.enabled, Stream.getOrCreate, Stream.getState, h₀.noFrames]
    · simp [InForce]
    · simp [RequestSent, transmissions, AskedActive]
  · intro es s e s' h hstep
    exact h.step hstep

/-- No call fails: the host is known by the time something is to be sent to it. -/
theorem Tracks.call_returns {hostId : UUID} {es : List StreamCall} {s : Caller}
    (h : Tracks hostId es s) (now : Int) (e : StreamCall) :
    ∃ s', s.call hostId now e = .ok s' := by
  have henable (id : FrameID) (u : Stream → Stream) (cs : ChannelSet) (ds : List Channel) :
      ∃ s', (do return s.afterEnable id cs (← s.net.enableWith now (some hostId) id u ds)) =
        Except.ok (ε := Fault) s' := by
    obtain ⟨net', effects, hok, -⟩ := enableWith_sent h.stream now id u ds
    rw [hok]
    exact ⟨_, rfl⟩
  cases e with
  | enable id => exact henable id _ _ _
  | enableChannel id c => exact henable id _ _ _
  | enableChannels id cs => exact henable id _ _ _
  | _ => exact ⟨_, rfl⟩

/-- **Exactly when every accepted `enable` was requested.** In every state of every run: the
stream is inactive, or each frame and channel whose `enable` is in force was, at some time,
asked for by an `enable` call while the stream was active. No call fails. -/
theorem enables_requested_iff {hostId : UUID} {net : Net} (h₀ : Fresh net)
    {es : List StreamCall} {s : Caller} (run : Runs (CallStep hostId) { net := net } es s) :
    (s.AllRequested hostId ↔
      (activeAfter es = true → ∀ f c, InForce es f c → AskedActive es f c)) ∧
      ∀ now e, ∃ s', s.call hostId now e = .ok s' := by
  have h := tracks_of_run h₀ run
  refine ⟨?_, h.call_returns⟩
  unfold Caller.AllRequested
  rw [h.active]
  constructor
  · intro hall hactive f c hf
    exact (h.sent f c).mp (hall hactive (f, c) ((h.accepted f c).mpr hf))
  · rintro hall hactive ⟨f, c⟩ hf
    exact (h.sent f c).mpr (hall hactive f c ((h.accepted f c).mp hf))

/-- `begin`, then a channel is enabled. -/
theorem enables_requested_after_begin : ∃ s : Caller,
    Runs (CallStep (.fill 7)) { net := { host := false } }
      [.begin false, .enableChannel ⟨1⟩ 0] s ∧ s.net.active = true ∧ s.accepted = {(⟨1⟩, 0)} ∧
      s.AllRequested (.fill 7) := by
  have run : ∃ s : Caller, Runs (CallStep (.fill 7)) { net := { host := false } }
      [.begin false, .enableChannel ⟨1⟩ 0] s ∧ s.net.active = true ∧ s.accepted = {(⟨1⟩, 0)} :=
    ⟨_, (Runs.init.snoc ⟨0, rfl⟩).snoc ⟨0, rfl⟩, rfl, rfl⟩
  obtain ⟨s, run, hactive, haccepted⟩ := run
  refine ⟨s, run, hactive, haccepted, ?_⟩
  refine (enables_requested_iff ⟨rfl, rfl, rfl, rfl⟩ run).1.mpr ?_
  intro _ f c hf
  rw [← (tracks_of_run ⟨rfl, rfl, rfl, rfl⟩ run).accepted, haccepted, Finset.mem_singleton] at hf
  cases hf
  exact ⟨[.begin false], _, [], rfl, rfl, ⟨1⟩, .inl ⟨rfl, rfl⟩, rfl⟩

/-- A channel is enabled, then `begin`: the channel is selected, nothing was asked for. -/
theorem enable_before_begin_not_requested : ∃ s : Caller,
    Runs (CallStep (.fill 7)) { net := { host := false } }
      [.enableChannel ⟨1⟩ 0, .begin false] s ∧ s.net.active = true ∧ (⟨1⟩, 0) ∈ s.accepted ∧
      ¬ s.AllRequested (.fill 7) := by
  have run : ∃ s : Caller, Runs (CallStep (.fill 7)) { net := { host := false } }
      [.enableChannel ⟨1⟩ 0, .begin false] s ∧ s.net.active = true ∧ s.accepted = {(⟨1⟩, 0)} ∧
      transmissions (.host (.fill 7)) s.log = [] :=
    ⟨_, (Runs.init.snoc ⟨0, rfl⟩).snoc ⟨0, rfl⟩, rfl, rfl, rfl⟩
  obtain ⟨s, run, hactive, haccepted, hlog⟩ := run
  have hmem : (⟨1⟩, 0) ∈ s.accepted := by
    rw [haccepted]
    exact Finset.mem_singleton_self _
  refine ⟨s, run, hactive, hmem, ?_⟩
  intro h
  obtain ⟨x, hx, -⟩ := h hactive _ hmem
  rw [hlog] at hx
  cases hx

end BeyondProtocol.Net
