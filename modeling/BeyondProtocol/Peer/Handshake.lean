import BeyondProtocol.Framework.Runs
import BeyondProtocol.Net.Universe

/-!
# The handshake of two peers (`peer.cpp`, `peer_tcp.cpp`)

The listening side makes a fresh peer object for every connection it accepts and
sends its handshake at once; the connecting side answers with its own unless it
has sent one already. The object of the connecting side lives on across losses of
its connection, and with it `handshake_sent_`.

A job of the thread pool takes a message out of the buffer under `recv_mtx_` and
handles it after that, step by step, while the network thread may find the
connection lost and close the peer. A closed peer is moved to `reconnects_` by
`_cleanupPeers`; `_periodic` calls `reconnect()` on it, which waits for the job and
clears the buffer before it opens the next connection.
-/

namespace BeyondProtocol

namespace Handshake

open Framework

/-- `ftl::net::kMagic` -/
def kMagic : UInt64 := 0x0009340053640912

/-- What goes over a connection; calls and streams do not touch the state of the handshake. -/
inductive Message : Type where
  | handshake (magic : UInt64) (version : UInt32) (pid : UUID)
  | other
deriving DecidableEq, Repr

/-- A universe: its id, and the `kVersion` it was built with. -/
structure Node where
  id : UUID
  version : UInt32
deriving DecidableEq, Repr

def Node.handshake (net : Node) : Message := .handshake kMagic net.version net.id

/-- Where the job of a peer is: it has no message, it has taken one, or it is in
`process_handshake_`, before the `CHECK` of `send_handshake`, before the handshake is sent or
before the status is set. -/
inductive Job : Type where
  | idle
  | handling (m : Message)
  | greeting
  | sending
  | finishing
deriving DecidableEq, Repr

/-- `PeerTcp`, as far as the handshake goes. -/
structure PeerTcp where
  peerid : UUID
  version : UInt32
  status : NodeStatus
  handshakeSent : Bool
  outgoing : Bool
  canReconnect : Bool
  job : Job
deriving DecidableEq, Repr

namespace PeerTcp

/-- The peer of an accepted connection, with the id allocated for it. -/
def accepted (peerid : UUID) : PeerTcp where
  peerid := peerid
  version := 0
  status := .kConnecting
  handshakeSent := false
  outgoing := false
  canReconnect := false
  job := .idle

/-- The peer of a connection that was opened here. -/
def connected (peerid : UUID) : PeerTcp where
  peerid := peerid
  version := 0
  status := .kConnecting
  handshakeSent := false
  outgoing := true
  canReconnect := true
  job := .idle

/-- `send_handshake`, up to its call of `send`. -/
def sendHandshake (p : PeerTcp) : Except Fault PeerTcp :=
  if p.status = .kConnecting then .ok { p with handshakeSent := true }
  else .error .checkFailed

def start (net : Node) (p : PeerTcp) : Except Fault (PeerTcp × List Message) :=
  if p.outgoing then .ok (p, [])
  else do
    let p ← p.sendHandshake
    return (p, [net.handshake])

/-- The first part of `process_handshake_`; a different version is only logged. -/
def processHandshake (p : PeerTcp) (magic : UInt64) (version : UInt32) (pid : UUID) : PeerTcp :=
  if magic ≠ kMagic then { p with job := .idle }
  else { p with
    version := version
    peerid := pid
    job := if p.handshakeSent then .finishing else .greeting }

/-- The next step of the job, with what it sends. Nothing goes out over a socket that is not
valid, and the job goes on. -/
def jobStep (net : Node) (valid : Bool) (p : PeerTcp) : Except Fault (PeerTcp × List Message) :=
  match p.job with
  | .idle => .ok (p, [])
  | .handling .other => .ok ({ p with job := .idle }, [])
  | .handling (.handshake magic version pid) => .ok (p.processHandshake magic version pid, [])
  | .greeting => do
      let p ← p.sendHandshake
      return ({ p with job := .sending }, [])
  | .sending => .ok ({ p with job := .finishing }, if valid then [net.handshake] else [])
  | .finishing => .ok ({ p with status := .kConnected, job := .idle }, [])

/-- `_close` -/
def close (p : PeerTcp) (retry : Bool) : PeerTcp :=
  if p.status ≠ .kConnected ∧ p.status ≠ .kConnecting then p
  else { p with status := if retry && p.canReconnect then .kReconnecting else .kDisconnected }

/-- `reconnect` after its wait; the result tells whether there is a connection now. -/
def connect (p : PeerTcp) (succeeds : Bool) : PeerTcp × Bool :=
  if succeeds then ({ p with status := .kConnecting }, true) else (p.close true, false)

end PeerTcp

/-- One TCP connection: what is under way in each direction, what the connecting side has
written on it, and the listening side's peer once it has accepted. -/
structure Connection where
  toListener : List Message := []
  toOutgoing : List Message := []
  written : List Message := []
  listener : Option PeerTcp := none
deriving DecidableEq, Repr

namespace Connection

/-- The connecting side writes. -/
def write (c : Connection) (out : List Message) : Connection :=
  { c with toListener := c.toListener ++ out, written := c.written ++ out }

def accept (listening : Node) (c : Connection) (provisional : UUID) : Except Fault Connection :=
  if c.listener.isSome then .ok c
  else do
    let (l, out) ← (PeerTcp.accepted provisional).start listening
    return { c with listener := some l, toOutgoing := c.toOutgoing ++ out }

def takeListener (c : Connection) : Connection :=
  match c.listener, c.toListener with
  | some l, m :: rest =>
      if l.job = .idle then
        { c with listener := some { l with job := .handling m }, toListener := rest }
      else c
  | _, _ => c

def jobListener (listening : Node) (c : Connection) : Except Fault Connection :=
  match c.listener with
  | none => .ok c
  | some l => do
      let (l, out) ← l.jobStep listening true
      return { c with listener := some l, toOutgoing := c.toOutgoing ++ out }

def listenerSends (c : Connection) : Connection :=
  if c.listener.isSome then { c with toOutgoing := c.toOutgoing ++ [.other] } else c

end Connection

/-- Where the universe has the outgoing peer: in `peers_`, in `reconnects_`, in `peers_` while
`reconnect()` waits for its job, or given up. -/
inductive Place : Type where
  | peers
  | reconnects
  | reconnecting
  | garbage
deriving DecidableEq, Repr

structure Session where
  outgoing : PeerTcp
  place : Place
  connection : Option Connection
deriving DecidableEq, Repr

inductive Event : Type where
  /-- The listening universe accepts; the new peer gets a provisional id. -/
  | accept (provisional : UUID)
  /-- A job takes the next message out of the buffer. -/
  | take
  | takeListener
  | job
  | jobListener
  | outgoingSends
  | listenerSends
  /-- The connection is lost and the peer closed. -/
  | loss
  | cleanupPeers
  /-- `_periodic` calls `reconnect()`. -/
  | periodic
  /-- The job is done and `reconnect()` goes on. -/
  | reconnect (succeeds : Bool)
deriving DecidableEq, Repr

section

variable (connecting listening : Node)

/-- A peer right after `connect`. -/
def Session.init (provisional : UUID) : Session where
  outgoing := .connected provisional
  place := .peers
  connection := some {}

def Session.take (s : Session) (c : Connection) : Session :=
  match s.outgoing.job, c.toOutgoing with
  | .idle, m :: rest => { s with
      outgoing := { s.outgoing with job := .handling m }
      connection := some { c with toOutgoing := rest } }
  | _, _ => s

def Session.job (s : Session) : Except Fault Session := do
  let (o, out) ← s.outgoing.jobStep connecting s.connection.isSome
  return { s with outgoing := o, connection := s.connection.map (·.write out) }

/-- `_cleanupPeers`, with `removePeer_` -/
def Session.cleanupPeers (s : Session) : Session :=
  if s.place = .peers ∧ (s.connection = none ∨ s.outgoing.status = .kReconnecting ∨
      s.outgoing.status = .kDisconnected) then
    { s with place := if s.outgoing.status = .kReconnecting then .reconnects else .garbage }
  else s

def Session.periodic (s : Session) : Session :=
  if s.place = .reconnects then
    { s with
      outgoing := { s.outgoing with status := .kConnecting }
      place := if s.outgoing.canReconnect then .reconnecting else .peers }
  else s

def Session.reconnect (s : Session) (succeeds : Bool) : Session :=
  if s.place = .reconnecting ∧ s.outgoing.job = .idle then
    let (o, up) := s.outgoing.connect succeeds
    { outgoing := o, place := .peers, connection := if up then some {} else none }
  else s

/-- A step; what needs a connection does nothing without one. -/
def Session.handle (s : Session) (e : Event) : Except Fault Session :=
  match e, s.connection with
  | .accept provisional, some c => do
      let c ← c.accept listening provisional
      return { s with connection := some c }
  | .take, some c => .ok (s.take c)
  | .takeListener, some c => .ok { s with connection := some c.takeListener }
  | .job, _ => s.job connecting
  | .jobListener, some c => do
      let c ← c.jobListener listening
      return { s with connection := some c }
  | .outgoingSends, some c => .ok { s with connection := some (c.write [.other]) }
  | .listenerSends, some c => .ok { s with connection := some c.listenerSends }
  | .loss, some _ => .ok { s with outgoing := s.outgoing.close true, connection := none }
  | .cleanupPeers, _ => .ok s.cleanupPeers
  | .periodic, _ => .ok s.periodic
  | .reconnect succeeds, _ => .ok (s.reconnect succeeds)
  | _, none => .ok s

def Step (s : Session) (e : Event) (t : Session) : Prop :=
  s.handle connecting listening e = .ok t

/-! ## §1  What the two sides may expect of each other -/

structure Agreement (s : Session) : Prop where
  /-- A connected peer has sent its own handshake on the connection it has. -/
  sent : s.outgoing.status = .kConnected →
    ∃ c, s.connection = some c ∧ connecting.handshake ∈ c.written
  /-- With nothing left under way both sides are connected and know each other. -/
  settled : ∀ c l, s.connection = some c → c.listener = some l →
    c.toListener = [] → c.toOutgoing = [] → s.outgoing.job = .idle → l.job = .idle →
    (s.outgoing.status = .kConnected ∧ s.outgoing.peerid = listening.id) ∧
      l.status = .kConnected ∧ l.peerid = connecting.id

/-- No handshake is being processed. -/
def Job.Quiet (j : Job) : Prop := j = .idle ∨ j = .handling .other

/-- A connection is lost while the job does not process a handshake, and opened again only by a
peer that has never sent one. -/
def Fresh (s : Session) : Event → Prop
  | .loss => s.connection ≠ none → s.outgoing.job.Quiet
  | .reconnect true => s.place = .reconnecting → s.outgoing.job = .idle →
      s.outgoing.handshakeSent = false
  | _ => True

def FreshStep (s : Session) (e : Event) (t : Session) : Prop :=
  Fresh s e ∧ Step connecting listening s e t

/-! ## §2  The phases of a session -/

/-- The listening side has sent its handshake and not heard of an answer. -/
structure Unanswered (c : Connection) (l : PeerTcp) : Prop where
  listener : c.listener = some l
  greeting : l.handshakeSent = true
  job : l.job.Quiet
  plain : ∀ m ∈ c.toListener, m = .other

/-- The answer is under way to the listening side, in its job, or was handled. -/
structure Hearing (c : Connection) (l : PeerTcp) : Prop where
  listener : c.listener = some l
  greeting : l.handshakeSent = true
  under : ∀ m ∈ c.toListener, m = .other ∨ m = connecting.handshake
  job : l.job.Quiet ∨ l.job = .handling connecting.handshake ∨
    l.job = .finishing ∧ l.peerid = connecting.id
  answer : connecting.handshake ∈ c.toListener ∨ l.job = .handling connecting.handshake ∨
    l.job = .finishing ∨ l.status = .kConnected ∧ l.peerid = connecting.id

/-- Where a session can stand after fresh steps. -/
inductive Phase : Session → Prop
  | down {o : PeerTcp} {place : Place} (retry : o.canReconnect = true) (job : o.job.Quiet)
      (status : o.status = .kReconnecting ∧ (place = .peers ∨ place = .reconnects) ∨
        o.status = .kConnecting ∧ place = .reconnecting) : Phase ⟨o, place, none⟩
  /-- The other side has not accepted yet. -/
  | dialled {o : PeerTcp} {c : Connection} (retry : o.canReconnect = true)
      (status : o.status = .kConnecting) (unsent : o.handshakeSent = false)
      (job : o.job = .idle) (listener : c.listener = none) (incoming : c.toOutgoing = [])
      (plain : ∀ m ∈ c.toListener, m = .other) : Phase ⟨o, .peers, some c⟩
  /-- Its handshake is the first message under way. -/
  | greeted {o : PeerTcp} {c : Connection} {l : PeerTcp} {rest : List Message}
      (retry : o.canReconnect = true) (status : o.status = .kConnecting)
      (unsent : o.handshakeSent = false) (job : o.job = .idle) (unanswered : Unanswered c l)
      (incoming : c.toOutgoing = listening.handshake :: rest)
      (rest_plain : ∀ m ∈ rest, m = .other) : Phase ⟨o, .peers, some c⟩
  /-- The job has it, and has not passed the `CHECK`. -/
  | replying {o : PeerTcp} {c : Connection} {l : PeerTcp} (retry : o.canReconnect = true)
      (status : o.status = .kConnecting) (unsent : o.handshakeSent = false)
      (job : o.job = .handling listening.handshake ∨
        o.job = .greeting ∧ o.peerid = listening.id) (unanswered : Unanswered c l)
      (incoming : ∀ m ∈ c.toOutgoing, m = .other) : Phase ⟨o, .peers, some c⟩
  | sending {o : PeerTcp} {c : Connection} {l : PeerTcp} (retry : o.canReconnect = true)
      (status : o.status = .kConnecting) (job : o.job = .sending)
      (known : o.peerid = listening.id) (unanswered : Unanswered c l)
      (incoming : ∀ m ∈ c.toOutgoing, m = .other) : Phase ⟨o, .peers, some c⟩
  /-- The answer was sent. -/
  | answered {o : PeerTcp} {c : Connection} {l : PeerTcp} (retry : o.canReconnect = true)
      (status : o.job = .finishing ∧ o.status = .kConnecting ∨
        o.job.Quiet ∧ o.status = .kConnected) (known : o.peerid = listening.id)
      (written : connecting.handshake ∈ c.written) (hearing : Hearing connecting c l)
      (incoming : ∀ m ∈ c.toOutgoing, m = .other) : Phase ⟨o, .peers, some c⟩

variable {connecting listening}

theorem Job.not_quiet_handshake (net : Node) : ¬ (Job.handling net.handshake).Quiet := by
  rintro (h | h) <;> cases h

theorem phase_init (provisional : UUID) :
    Phase connecting listening (Session.init provisional) :=
  .dialled rfl rfl rfl rfl rfl rfl (by simp)

theorem Phase.agreement {s : Session} (h : Phase connecting listening s) :
    Agreement connecting listening s := by
  have hconnecting : ∀ {o : PeerTcp}, o.status = .kConnecting → o.status ≠ .kConnected := by
    intro o ho
    simp [ho]
  cases h with
  | @down o _ retry job status =>
      refine ⟨fun hconn => ?_, fun c l hc => ?_⟩
      · rcases status with ⟨hs, -⟩ | ⟨hs, -⟩
        · exact absurd (hs.symm.trans hconn) (by decide)
        · exact absurd hconn (hconnecting hs)
      · cases hc
  | dialled retry status unsent job listener incoming plain =>
      refine ⟨fun hconn => absurd hconn (hconnecting status), fun c l hc hl => ?_⟩
      cases hc
      simp [listener] at hl
  | greeted retry status unsent job unanswered incoming rest_plain =>
      refine ⟨fun hconn => absurd hconn (hconnecting status), fun c l hc _ _ hempty => ?_⟩
      cases hc
      simp [incoming] at hempty
  | replying retry status unsent job unanswered incoming =>
      refine ⟨fun hconn => absurd hconn (hconnecting status), fun c l _ _ _ _ hidle => ?_⟩
      rcases job with hjob | ⟨hjob, -⟩ <;> exact absurd (hjob.symm.trans hidle) nofun
  | sending retry status job known unanswered incoming =>
      refine ⟨fun hconn => absurd hconn (hconnecting status), fun c l _ _ _ _ hidle => ?_⟩
      exact absurd (job.symm.trans hidle) nofun
  | answered retry status known written hearing incoming =>
      refine ⟨fun _ => ⟨_, rfl, written⟩, ?_⟩
      intro c l hc hl hempty _ hidle hlidle
      cases hc
      rw [hearing.listener] at hl
      cases hl
      have hconn : _ = NodeStatus.kConnected :=
        (status.resolve_left fun hs => absurd (hs.1.symm.trans hidle) nofun).2
      refine ⟨⟨hconn, known⟩, ?_⟩
      rcases hearing.answer with hmem | hjob | hjob | hdone
      · simp [hempty] at hmem
      · exact absurd (hjob.symm.trans hlidle) nofun
      · exact absurd (hjob.symm.trans hlidle) nofun
      · exact hdone

theorem close_retry {p : PeerTcp} (hretry : p.canReconnect = true)
    (hstatus : p.status = .kConnected ∨ p.status = .kConnecting) :
    p.close true = { p with status := .kReconnecting } := by
  rcases hstatus with h | h <;> simp [PeerTcp.close, h, hretry]

/-- A job that processes no handshake only comes to its end. -/
theorem jobStep_quiet {p : PeerTcp} (h : p.job.Quiet) (net : Node) (valid : Bool) :
    p.jobStep net valid = .ok ({ p with job := .idle }, []) := by
  obtain ⟨peerid, version, status, sent, outgoing, retry, job⟩ := p
  rcases h with rfl | rfl <;> rfl

/-! ## §3  A fresh step goes from phase to phase -/

theorem forall_mem_concat {q : List Message} {P : Message → Prop} (h : ∀ m ∈ q, P m)
    {x : Message} (hx : P x) : ∀ m ∈ q ++ [x], P m := by
  intro m hm
  rcases List.mem_append.mp hm with hm | hm
  · exact h m hm
  · rw [List.mem_singleton.mp hm]
    exact hx

/-! What the listening side's job does before and after the answer. -/

theorem Unanswered.takeListener {c : Connection} {l : PeerTcp} (h : Unanswered c l) :
    ∃ l', Unanswered c.takeListener l' ∧ c.takeListener.toOutgoing = c.toOutgoing ∧
      c.takeListener.written = c.written := by
  cases hq : c.toListener with
  | nil => exact ⟨l, by simpa [Connection.takeListener, h.listener, hq] using h⟩
  | cons m rest =>
      by_cases hidle : l.job = .idle
      · have hm : m = .other := h.plain m (by simp [hq])
        have hrest : ∀ m ∈ rest, m = .other := fun m hm => h.plain m (by simp [hq, hm])
        simp only [Connection.takeListener, h.listener, hq, if_pos hidle, hm]
        exact ⟨_, ⟨rfl, h.greeting, .inr rfl, hrest⟩, trivial, trivial⟩
      · exact ⟨l, by simpa [Connection.takeListener, h.listener, hq, hidle] using h⟩

theorem Unanswered.jobListener {c : Connection} {l : PeerTcp} (h : Unanswered c l)
    (listening : Node) :
    ∃ c' l', c.jobListener listening = .ok c' ∧ Unanswered c' l' ∧
      c'.toOutgoing = c.toOutgoing ∧ c'.written = c.written := by
  refine ⟨{ c with listener := some { l with job := .idle } }, { l with job := .idle }, ?_,
    ⟨rfl, h.greeting, .inl rfl, h.plain⟩, rfl, rfl⟩
  simp only [Connection.jobListener, h.listener, jobStep_quiet h.job, ok_bind, List.append_nil]
  rfl

theorem Hearing.takeListener {c : Connection} {l : PeerTcp} (h : Hearing connecting c l) :
    ∃ l', Hearing connecting c.takeListener l' ∧ c.takeListener.toOutgoing = c.toOutgoing ∧
      c.takeListener.written = c.written := by
  cases hq : c.toListener with
  | nil => exact ⟨l, by simpa [Connection.takeListener, h.listener, hq] using h⟩
  | cons m rest =>
      by_cases hidle : l.job = .idle
      · have hrest : ∀ m ∈ rest, m = .other ∨ m = connecting.handshake :=
          fun m hm => h.under m (by simp [hq, hm])
        simp only [Connection.takeListener, h.listener, hq, if_pos hidle]
        rcases h.under m (by simp [hq]) with rfl | rfl
        · refine ⟨_, ⟨rfl, h.greeting, hrest, .inl (.inr rfl), ?_⟩, trivial, trivial⟩
          rcases h.answer with hmem | hjob | hjob | hdone
          · exact .inl (by simpa [hq, Node.handshake] using hmem)
          · exact absurd (hjob.symm.trans hidle) nofun
          · exact absurd (hjob.symm.trans hidle) nofun
          · exact .inr (.inr (.inr hdone))
        · exact ⟨_, ⟨rfl, h.greeting, hrest, .inr (.inl rfl), .inr (.inl rfl)⟩, trivial, trivial⟩
      · exact ⟨l, by simpa [Connection.takeListener, h.listener, hq, hidle] using h⟩

theorem Hearing.jobListener {c : Connection} {l : PeerTcp} (h : Hearing connecting c l)
    (listening : Node) :
    ∃ c' l', c.jobListener listening = .ok c' ∧ Hearing connecting c' l' ∧
      c'.toOutgoing = c.toOutgoing ∧ c'.written = c.written := by
  rcases h.job with hjob | hjob | ⟨hjob, hknown⟩
  · refine ⟨{ c with listener := some { l with job := .idle } }, { l with job := .idle }, ?_,
      ⟨rfl, h.greeting, h.under, .inl (.inl rfl), ?_⟩, rfl, rfl⟩
    · simp only [Connection.jobListener, h.listener, jobStep_quiet hjob, ok_bind, List.append_nil]
      rfl
    · rcases h.answer with hmem | hhandling | hfinishing | hdone
      · exact .inl hmem
      · exact absurd (hhandling ▸ hjob) (Job.not_quiet_handshake _)
      · rcases hjob with hjob | hjob <;> exact absurd (hjob.symm.trans hfinishing) nofun
      · exact .inr (.inr (.inr hdone))
  · -- the answer is noted; the listening side has sent its own handshake already
    refine ⟨{ c with listener := some { l with
        version := connecting.version, peerid := connecting.id, job := .finishing } }, _, ?_,
      ⟨rfl, h.greeting, h.under, .inr (.inr ⟨rfl, rfl⟩), .inr (.inr (.inl rfl))⟩, rfl, rfl⟩
    simp [Connection.jobListener, h.listener, PeerTcp.jobStep, hjob, Node.handshake,
      PeerTcp.processHandshake, h.greeting, pure, Except.pure]
  · refine ⟨{ c with listener := some { l with status := .kConnected, job := .idle } }, _, ?_,
      ⟨rfl, h.greeting, h.under, .inl (.inl rfl), .inr (.inr (.inr ⟨rfl, hknown⟩))⟩, rfl, rfl⟩
    simp [Connection.jobListener, h.listener, PeerTcp.jobStep, hjob, pure, Except.pure]

/-! The steps of a session with a connection. -/

section

variable {o : PeerTcp} {place : Place} {c : Connection}

theorem Phase.accept (h : Phase connecting listening ⟨o, place, some c⟩) (provisional : UUID) :
    ∃ c', c.accept listening provisional = .ok c' ∧
      Phase connecting listening ⟨o, place, some c'⟩ := by
  have hsame : ∀ l, c.listener = some l → c.accept listening provisional = .ok c := by
    intro l hl
    simp [Connection.accept, hl]
  cases h with
  | dialled retry status unsent job listener incoming plain =>
      refine ⟨{ c with
        listener := some { PeerTcp.accepted provisional with handshakeSent := true }
        toOutgoing := [listening.handshake] }, ?_,
        .greeted retry status unsent job ⟨rfl, rfl, .inl rfl, plain⟩ rfl (by simp)⟩
      simp [Connection.accept, listener, PeerTcp.start, PeerTcp.accepted, PeerTcp.sendHandshake,
        incoming, pure, Except.pure]
  | greeted retry status unsent job unanswered incoming rest_plain =>
      exact ⟨c, hsame _ unanswered.listener,
        .greeted retry status unsent job unanswered incoming rest_plain⟩
  | replying retry status unsent job unanswered incoming =>
      exact ⟨c, hsame _ unanswered.listener,
        .replying retry status unsent job unanswered incoming⟩
  | sending retry status job known unanswered incoming =>
      exact ⟨c, hsame _ unanswered.listener,
        .sending retry status job known unanswered incoming⟩
  | answered retry status known written hearing incoming =>
      exact ⟨c, hsame _ hearing.listener,
        .answered retry status known written hearing incoming⟩

/-- What the listening side's job does leaves the session where it is. -/
theorem Phase.listener_moves {c' : Connection}
    (h : Phase connecting listening ⟨o, place, some c⟩) (hnone : c.listener = none → c' = c)
    (hunanswered : ∀ l, Unanswered c l → ∃ l', Unanswered c' l' ∧
      c'.toOutgoing = c.toOutgoing ∧ c'.written = c.written)
    (hhearing : ∀ l, Hearing connecting c l → ∃ l', Hearing connecting c' l' ∧
      c'.toOutgoing = c.toOutgoing ∧ c'.written = c.written) :
    Phase connecting listening ⟨o, place, some c'⟩ := by
  cases h with
  | dialled retry status unsent job listener incoming plain =>
      rw [hnone listener]
      exact .dialled retry status unsent job listener incoming plain
  | greeted retry status unsent job unanswered incoming rest_plain =>
      obtain ⟨l', hl', hout, -⟩ := hunanswered _ unanswered
      exact .greeted retry status unsent job hl' (hout.trans incoming) rest_plain
  | replying retry status unsent job unanswered incoming =>
      obtain ⟨l', hl', hout, -⟩ := hunanswered _ unanswered
      exact .replying retry status unsent job hl' (by rwa [hout])
  | sending retry status job known unanswered incoming =>
      obtain ⟨l', hl', hout, -⟩ := hunanswered _ unanswered
      exact .sending retry status job known hl' (by rwa [hout])
  | answered retry status known written hearing incoming =>
      obtain ⟨l', hl', hout, hwritten⟩ := hhearing _ hearing
      exact .answered retry status known (by rwa [hwritten]) hl' (by rwa [hout])

theorem Phase.takeListener (h : Phase connecting listening ⟨o, place, some c⟩) :
    Phase connecting listening ⟨o, place, some c.takeListener⟩ :=
  h.listener_moves (fun hnone => by simp [Connection.takeListener, hnone])
    (fun _ hl => hl.takeListener) fun _ hl => hl.takeListener

theorem Phase.listener_side (h : Phase connecting listening ⟨o, place, some c⟩) :
    c.listener = none ∨ (∃ l, Unanswered c l) ∨ ∃ l, Hearing connecting c l := by
  cases h with
  | dialled _ _ _ _ listener => exact .inl listener
  | greeted _ _ _ _ unanswered => exact .inr (.inl ⟨_, unanswered⟩)
  | replying _ _ _ _ unanswered => exact .inr (.inl ⟨_, unanswered⟩)
  | sending _ _ _ _ unanswered => exact .inr (.inl ⟨_, unanswered⟩)
  | answered _ _ _ _ hearing => exact .inr (.inr ⟨_, hearing⟩)

theorem Phase.jobListener (h : Phase connecting listening ⟨o, place, some c⟩) :
    ∃ c', c.jobListener listening = .ok c' ∧
      Phase connecting listening ⟨o, place, some c'⟩ := by
  have hdone : ∃ c', c.jobListener listening = .ok c' := by
    rcases h.listener_side with hnone | ⟨l, hl⟩ | ⟨l, hl⟩
    · exact ⟨c, by simp [Connection.jobListener, hnone]⟩
    · obtain ⟨c', -, hc', -⟩ := hl.jobListener listening
      exact ⟨c', hc'⟩
    · obtain ⟨c', -, hc', -⟩ := hl.jobListener listening
      exact ⟨c', hc'⟩
  obtain ⟨c', hc'⟩ := hdone
  refine ⟨c', hc', h.listener_moves (fun hnone => ?_) (fun l hl => ?_) fun l hl => ?_⟩
  · rw [Connection.jobListener, hnone] at hc'
    cases hc'
    rfl
  · obtain ⟨c'', l', hc'', hl', hsame⟩ := hl.jobListener listening
    cases hc'.symm.trans hc''
    exact ⟨l', hl', hsame⟩
  · obtain ⟨c'', l', hc'', hl', hsame⟩ := hl.jobListener listening
    cases hc'.symm.trans hc''
    exact ⟨l', hl', hsame⟩

theorem Unanswered.write {l : PeerTcp} (h : Unanswered c l) : Unanswered (c.write [.other]) l :=
  ⟨h.listener, h.greeting, h.job, forall_mem_concat h.plain rfl⟩

theorem Phase.outgoingSends (h : Phase connecting listening ⟨o, place, some c⟩) :
    Phase connecting listening ⟨o, place, some (c.write [.other])⟩ := by
  cases h with
  | dialled retry status unsent job listener incoming plain =>
      exact .dialled retry status unsent job listener incoming (forall_mem_concat plain rfl)
  | greeted retry status unsent job unanswered incoming rest_plain =>
      exact .greeted retry status unsent job unanswered.write incoming rest_plain
  | replying retry status unsent job unanswered incoming =>
      exact .replying retry status unsent job unanswered.write incoming
  | sending retry status job known unanswered incoming =>
      exact .sending retry status job known unanswered.write incoming
  | answered retry status known written hearing incoming =>
      exact .answered retry status known (List.mem_append_left _ written)
        ⟨hearing.listener, hearing.greeting, forall_mem_concat hearing.under (.inl rfl),
          hearing.job, hearing.answer.imp_left (List.mem_append_left _)⟩ incoming

theorem Unanswered.congr {c' : Connection} {l : PeerTcp} (h : Unanswered c l)
    (hlistener : c'.listener = c.listener) (hto : c'.toListener = c.toListener) :
    Unanswered c' l :=
  ⟨hlistener.trans h.listener, h.greeting, h.job, by rw [hto]; exact h.plain⟩

theorem Hearing.congr {c' : Connection} {l : PeerTcp} (h : Hearing connecting c l)
    (hlistener : c'.listener = c.listener) (hto : c'.toListener = c.toListener) :
    Hearing connecting c' l :=
  ⟨hlistener.trans h.listener, h.greeting, by rw [hto]; exact h.under, h.job,
    by rw [hto]; exact h.answer⟩

theorem Phase.listenerSends (h : Phase connecting listening ⟨o, place, some c⟩) :
    Phase connecting listening ⟨o, place, some c.listenerSends⟩ := by
  have hsome : ∀ {l}, c.listener = some l →
      c.listenerSends = { c with toOutgoing := c.toOutgoing ++ [.other] } := by
    intro l hl
    simp [Connection.listenerSends, hl]
  cases h with
  | dialled retry status unsent job listener incoming plain =>
      rw [show c.listenerSends = c by simp [Connection.listenerSends, listener]]
      exact .dialled retry status unsent job listener incoming plain
  | greeted retry status unsent job unanswered incoming rest_plain =>
      rw [hsome unanswered.listener]
      exact .greeted retry status unsent job (unanswered.congr rfl rfl)
        (congrArg (· ++ [Message.other]) incoming) (forall_mem_concat rest_plain rfl)
  | replying retry status unsent job unanswered incoming =>
      rw [hsome unanswered.listener]
      exact .replying retry status unsent job (unanswered.congr rfl rfl)
        (forall_mem_concat incoming rfl)
  | sending retry status job known unanswered incoming =>
      rw [hsome unanswered.listener]
      exact .sending retry status job known (unanswered.congr rfl rfl)
        (forall_mem_concat incoming rfl)
  | answered retry status known written hearing incoming =>
      rw [hsome hearing.listener]
      exact .answered retry status known written (hearing.congr rfl rfl)
        (forall_mem_concat incoming rfl)

theorem Phase.take (h : Phase connecting listening ⟨o, place, some c⟩) :
    Phase connecting listening (Session.take ⟨o, place, some c⟩ c) := by
  by_cases hidle : o.job = .idle
  · cases hq : c.toOutgoing with
    | nil => simpa [Session.take, hidle, hq] using h
    | cons m rest =>
        simp only [Session.take, hidle, hq]
        cases h with
        | dialled _ _ _ _ _ incoming => simp [hq] at incoming
        | greeted retry status unsent _ unanswered incoming rest_plain =>
            rw [hq] at incoming
            cases incoming
            exact .replying retry status unsent (.inl rfl) (unanswered.congr rfl rfl) rest_plain
        | replying _ _ _ job =>
            rcases job with hjob | ⟨hjob, -⟩ <;> exact absurd (hjob.symm.trans hidle) nofun
        | sending _ _ job => exact absurd (job.symm.trans hidle) nofun
        | answered retry status known written hearing incoming =>
            have hm : m = .other := incoming m (by simp [hq])
            have hconn := status.resolve_left fun hs => absurd (hs.1.symm.trans hidle) nofun
            exact .answered retry (.inr ⟨.inr (by rw [hm]), hconn.2⟩) known written
              (hearing.congr rfl rfl) fun m hm => incoming m (by simp [hq, hm])
  · have hsame : Session.take ⟨o, place, some c⟩ c = ⟨o, place, some c⟩ := by
      unfold Session.take
      split
      · contradiction
      · rfl
    rwa [hsame]

end

/-- The job of the outgoing peer; it may go on without a connection. -/
theorem Phase.job {s : Session} (h : Phase connecting listening s) :
    ∃ t, s.job connecting = .ok t ∧ Phase connecting listening t := by
  have hwrite : ∀ c : Connection, c.write [] = c := by
    rintro ⟨⟩
    simp [Connection.write]
  cases h with
  | @down o place retry job status =>
      refine ⟨⟨{ o with job := .idle }, place, none⟩, ?_, .down retry (.inl rfl) status⟩
      simp only [Session.job, jobStep_quiet job, ok_bind]
      rfl
  | @dialled o c retry status unsent job listener incoming plain =>
      refine ⟨⟨{ o with job := .idle }, .peers, some c⟩, ?_,
        .dialled retry status unsent rfl listener incoming plain⟩
      simp only [Session.job, jobStep_quiet (.inl job), ok_bind, Option.map_some, hwrite]
      rfl
  | @greeted o c l rest retry status unsent job unanswered incoming rest_plain =>
      refine ⟨⟨{ o with job := .idle }, .peers, some c⟩, ?_,
        .greeted retry status unsent rfl unanswered incoming rest_plain⟩
      simp only [Session.job, jobStep_quiet (.inl job), ok_bind, Option.map_some, hwrite]
      rfl
  | @replying o c l retry status unsent job unanswered incoming =>
      rcases job with hjob | ⟨hjob, hknown⟩
      · refine ⟨⟨{ o with
          version := listening.version, peerid := listening.id, job := .greeting }, .peers,
          some c⟩, ?_, .replying retry status unsent (.inr ⟨rfl, rfl⟩) unanswered incoming⟩
        simp [Session.job, PeerTcp.jobStep, hjob, Node.handshake, PeerTcp.processHandshake, unsent,
          hwrite, pure, Except.pure]
      · refine ⟨⟨{ o with handshakeSent := true, job := .sending }, .peers, some c⟩, ?_,
          .sending retry status rfl hknown unanswered incoming⟩
        simp [Session.job, PeerTcp.jobStep, hjob, PeerTcp.sendHandshake, status, hwrite, pure,
          Except.pure]
  | @sending o c l retry status job known unanswered incoming =>
      refine ⟨⟨{ o with job := .finishing }, .peers, some (c.write [connecting.handshake])⟩, ?_,
        .answered retry (.inl ⟨rfl, status⟩) known (by simp [Connection.write])
          ⟨unanswered.listener, unanswered.greeting, ?_, .inl unanswered.job,
            .inl (by simp [Connection.write])⟩ incoming⟩
      · simp [Session.job, PeerTcp.jobStep, job, pure, Except.pure]
      · exact forall_mem_concat (fun m hm => .inl (unanswered.plain m hm)) (.inr rfl)
  | @answered o c l retry status known written hearing incoming =>
      rcases status with ⟨hjob, -⟩ | ⟨hjob, hconn⟩
      · refine ⟨⟨{ o with status := .kConnected, job := .idle }, .peers, some c⟩, ?_,
          .answered retry (.inr ⟨.inl rfl, rfl⟩) known written hearing incoming⟩
        simp [Session.job, PeerTcp.jobStep, hjob, hwrite, pure, Except.pure]
      · refine ⟨⟨{ o with job := .idle }, .peers, some c⟩, ?_,
          .answered retry (.inr ⟨.inl rfl, hconn⟩) known written hearing incoming⟩
        simp only [Session.job, jobStep_quiet hjob, ok_bind, Option.map_some, hwrite]
        rfl

/-- With a connection a peer tries to keep it or to get it back. -/
theorem Phase.retry {o : PeerTcp} {place : Place} {c : Connection}
    (h : Phase connecting listening ⟨o, place, some c⟩) :
    place = .peers ∧ o.canReconnect = true ∧
      (o.status = .kConnected ∨ o.status = .kConnecting) := by
  cases h with
  | dialled retry status => exact ⟨rfl, retry, .inr status⟩
  | greeted retry status => exact ⟨rfl, retry, .inr status⟩
  | replying retry status => exact ⟨rfl, retry, .inr status⟩
  | sending retry status => exact ⟨rfl, retry, .inr status⟩
  | answered retry status => exact ⟨rfl, retry, status.symm.imp And.right And.right⟩

theorem Phase.cleanupPeers {s : Session} (h : Phase connecting listening s) :
    Phase connecting listening s.cleanupPeers := by
  obtain ⟨o, place, con⟩ := s
  by_cases hclean : place = .peers ∧
      (con = none ∨ o.status = .kReconnecting ∨ o.status = .kDisconnected)
  · rw [Session.cleanupPeers, if_pos hclean]
    obtain ⟨hplace, hinvalid⟩ := hclean
    cases con with
    | none =>
        cases h with
        | down retry job status =>
            have hdown := status.resolve_right fun hs => absurd (hplace.symm.trans hs.2) nofun
            rw [if_pos hdown.1]
            exact .down retry job (.inl ⟨hdown.1, .inr rfl⟩)
    | some c =>
        obtain ⟨-, -, hstatus⟩ := h.retry
        exfalso
        rcases hstatus with hs | hs <;> simp [hs] at hinvalid
  · rw [Session.cleanupPeers, if_neg hclean]
    exact h

theorem Phase.periodic {s : Session} (h : Phase connecting listening s) :
    Phase connecting listening s.periodic := by
  obtain ⟨o, place, con⟩ := s
  by_cases hplace : place = .reconnects
  · subst hplace
    cases h with
    | down retry job status =>
        rw [Session.periodic, if_pos rfl, if_pos retry]
        exact .down retry job (.inr ⟨rfl, rfl⟩)
  · rw [Session.periodic, if_neg hplace]
    exact h

theorem Phase.reconnect {s : Session} (h : Phase connecting listening s) {succeeds : Bool}
    (hfresh : Fresh s (.reconnect succeeds)) :
    Phase connecting listening (s.reconnect succeeds) := by
  obtain ⟨o, place, con⟩ := s
  unfold Session.reconnect
  split_ifs with hready
  · obtain ⟨rfl, hidle⟩ : place = .reconnecting ∧ o.job = .idle := hready
    cases h with
    | down retry job status =>
        cases succeeds with
        | false =>
            have hconn := status.resolve_left fun hs => by rcases hs.2 with hs | hs <;> cases hs
            simp only [PeerTcp.connect, Bool.false_eq_true, if_false,
              close_retry retry (.inr hconn.1)]
            exact .down retry job (.inl ⟨rfl, .inl rfl⟩)
        | true => exact .dialled retry rfl (hfresh rfl hidle) hidle rfl rfl (by simp)
  · exact h

/-- No `CHECK` fails, and the session stays in one of the phases. -/
theorem Phase.handle {s : Session} (h : Phase connecting listening s) {e : Event}
    (hfresh : Fresh s e) :
    ∃ t, s.handle connecting listening e = .ok t ∧ Phase connecting listening t := by
  obtain ⟨o, place, con⟩ := s
  cases con with
  | none =>
      cases e with
      | job => exact h.job
      | cleanupPeers => exact ⟨_, rfl, h.cleanupPeers⟩
      | periodic => exact ⟨_, rfl, h.periodic⟩
      | reconnect succeeds => exact ⟨_, rfl, h.reconnect hfresh⟩
      | _ => exact ⟨_, rfl, h⟩
  | some c =>
      cases e with
      | accept provisional =>
          obtain ⟨c', hc', hphase⟩ := h.accept provisional
          exact ⟨_, by simp only [Session.handle, hc', ok_bind]; rfl, hphase⟩
      | take => exact ⟨_, rfl, h.take⟩
      | takeListener => exact ⟨_, rfl, h.takeListener⟩
      | job => exact h.job
      | jobListener =>
          obtain ⟨c', hc', hphase⟩ := h.jobListener
          exact ⟨_, by simp only [Session.handle, hc', ok_bind]; rfl, hphase⟩
      | outgoingSends => exact ⟨_, rfl, h.outgoingSends⟩
      | listenerSends => exact ⟨_, rfl, h.listenerSends⟩
      | loss =>
          obtain ⟨rfl, retry, status⟩ := h.retry
          refine ⟨_, rfl, ?_⟩
          rw [close_retry retry status]
          exact .down retry (hfresh nofun) (.inl ⟨rfl, .inl rfl⟩)
      | cleanupPeers => exact ⟨_, rfl, h.cleanupPeers⟩
      | periodic => exact ⟨_, rfl, h.periodic⟩
      | reconnect succeeds => exact ⟨_, rfl, h.reconnect hfresh⟩

/-! ## §4  Over whole runs -/

/-- A peer that has sent a handshake on an earlier connection gives no answer. -/
theorem runs_unanswered {o : PeerTcp} (hidle : o.job = .idle) (hsent : o.handshakeSent = true) :
    ∃ t, Runs (Step connecting listening) ⟨o, .reconnecting, none⟩
      [.reconnect true, .accept (.fill 0), .take, .job, .job] t ∧
        t.outgoing.status = .kConnected ∧ ∀ c, t.connection = some c → c.written = [] := by
  obtain ⟨peerid, version, status, sent, outgoing, retry, job⟩ := o
  obtain rfl : job = .idle := hidle
  obtain rfl : sent = true := hsent
  refine ⟨_, Runs.of_foldlM (fun _ _ _ _ h => h) rfl, rfl, ?_⟩
  rintro c ⟨⟩
  rfl

/-- A job that goes on after its connection was lost makes a peer connected that has none. -/
theorem Phase.lost_in_handshake {o : PeerTcp} {place : Place} {c : Connection}
    (h : Phase connecting listening ⟨o, place, some c⟩) (hbusy : ¬ o.job.Quiet) :
    ∃ es t, Runs (Step connecting listening) ⟨o, place, some c⟩ (.loss :: es) t ∧
      t.outgoing.status = .kConnected ∧ t.connection = none := by
  obtain ⟨rfl, hretry, hstatus⟩ := h.retry
  obtain ⟨peerid, version, status, sent, outgoing, retry, job⟩ := o
  obtain rfl : retry = true := hretry
  cases h with
  | dialled _ _ _ hjob => exact absurd (.inl hjob) hbusy
  | greeted _ _ _ hjob => exact absurd (.inl hjob) hbusy
  | replying _ hconn hunsent hjob =>
      obtain rfl : status = .kConnecting := hconn
      obtain rfl : sent = false := hunsent
      -- the universe sets the status for the next connection, and the `CHECK` passes
      rcases hjob with hjob | ⟨hjob, -⟩
      · obtain rfl : job = .handling listening.handshake := hjob
        exact ⟨[.cleanupPeers, .periodic, .job, .job, .job, .job], _,
          Runs.of_foldlM (fun _ _ _ _ h => h) rfl, rfl, rfl⟩
      · obtain rfl : job = .greeting := hjob
        exact ⟨[.cleanupPeers, .periodic, .job, .job, .job], _,
          Runs.of_foldlM (fun _ _ _ _ h => h) rfl, rfl, rfl⟩
  | sending _ hconn hjob =>
      obtain rfl : status = .kConnecting := hconn
      obtain rfl : job = .sending := hjob
      exact ⟨[.job, .job], _, Runs.of_foldlM (fun _ _ _ _ h => h) rfl, rfl, rfl⟩
  | answered _ hcase =>
      rcases hcase with ⟨hjob, hconn⟩ | ⟨hjob, -⟩
      · obtain rfl : status = .kConnecting := hconn
        obtain rfl : job = .finishing := hjob
        exact ⟨[.job], _, Runs.of_foldlM (fun _ _ _ _ h => h) rfl, rfl, rfl⟩
      · exact absurd hjob hbusy

theorem Phase.disagreement {s : Session} (h : Phase connecting listening s) {e : Event}
    (hfresh : ¬ Fresh s e) :
    ∃ es t, Runs (Step connecting listening) s (e :: es) t ∧
      ¬ Agreement connecting listening t := by
  obtain ⟨o, place, con⟩ := s
  cases e with
  | loss =>
      simp only [Fresh, ne_eq, Classical.not_imp] at hfresh
      obtain ⟨hcon, hbusy⟩ := hfresh
      obtain ⟨c, rfl⟩ := Option.ne_none_iff_exists'.mp hcon
      obtain ⟨es, t, run, hconn, hnone⟩ := h.lost_in_handshake hbusy
      refine ⟨es, t, run, fun hagree => ?_⟩
      obtain ⟨c', hc', -⟩ := hagree.sent hconn
      rw [hnone] at hc'
      cases hc'
  | reconnect succeeds =>
      cases succeeds with
      | false => exact absurd trivial hfresh
      | true =>
          simp only [Fresh, Classical.not_imp, Bool.not_eq_false] at hfresh
          obtain ⟨rfl, hidle, hsent⟩ := hfresh
          cases h with
          | down =>
              obtain ⟨t, run, hconn, hwritten⟩ := runs_unanswered hidle hsent
              refine ⟨_, t, run, fun hagree => ?_⟩
              obtain ⟨c, hc, hmem⟩ := hagree.sent hconn
              rw [hwritten c hc] at hmem
              cases hmem
  | _ => exact absurd trivial hfresh

/-- **Agreement over whole runs.** As long as no connection is lost while the outgoing peer
processes a handshake, and none is opened again by a peer that has sent one before, both sides
agree, and no `CHECK` fails. Where one is, the run can go on to a peer that calls itself connected
and is not. -/
theorem handshake_agreement {provisional : UUID} {es : List Event} {s : Session}
    (run : Runs (FreshStep connecting listening) (Session.init provisional) es s) :
    Agreement connecting listening s ∧
      (∀ e, Fresh s e → ∃ t, Step connecting listening s e t) ∧
      ∀ e, ¬ Fresh s e → ∃ fs t, Runs (Step connecting listening) s (e :: fs) t ∧
        ¬ Agreement connecting listening t := by
  have hphase : Phase connecting listening s := by
    apply run.invariant (I := Phase connecting listening)
    · exact phase_init provisional
    · rintro s e t h ⟨hfresh, hstep⟩
      obtain ⟨t', ht', hphase⟩ := h.handle hfresh
      rw [Step, ht'] at hstep
      cases hstep
      exact hphase
  refine ⟨hphase.agreement, ?_, ?_⟩
  · intro e hfresh
    obtain ⟨t, ht, -⟩ := hphase.handle hfresh
    exact ⟨t, ht⟩
  · intro e hfresh
    exact hphase.disagreement hfresh

end

/-- Two universes that find each other. -/
def connectingNode : Node := ⟨.fill 1, 2⟩

def listeningNode : Node := ⟨.fill 2, 2⟩

/-- A connection up to the end of both jobs. -/
def handshakes : List Event :=
  [.accept (.fill 8), .take, .job, .job, .job, .job, .takeListener, .jobListener, .jobListener]

/-- The first connection is lost before the handshake arrives, and the second one is agreed on. -/
theorem handshake_agreement_second : ∃ s c l,
    Runs (FreshStep connectingNode listeningNode) (Session.init (.fill 7))
      ([.accept (.fill 9), .loss, .cleanupPeers, .periodic, .reconnect true] ++ handshakes) s ∧
      s.connection = some c ∧ c.listener = some l ∧
      (s.outgoing.status = .kConnected ∧ s.outgoing.peerid = listeningNode.id) ∧
        l.status = .kConnected ∧ l.peerid = connectingNode.id := by
  have hfresh : ∀ s, ∀ e ∈ handshakes, Fresh s e := by
    intro s e he
    revert e
    simp only [handshakes, List.forall_mem_cons]
    exact ⟨trivial, trivial, trivial, trivial, trivial, trivial, trivial, trivial, trivial, nofun⟩
  have hfirst : Runs (FreshStep connectingNode listeningNode) (Session.init (.fill 7))
      [.accept (.fill 9), .loss, .cleanupPeers, .periodic, .reconnect true] _ :=
    ((((Runs.init.snoc ⟨trivial, rfl⟩).snoc ⟨fun _ => .inl rfl, rfl⟩).snoc ⟨trivial, rfl⟩).snoc
      ⟨trivial, rfl⟩).snoc ⟨fun _ _ => rfl, rfl⟩
  have run : Runs (FreshStep connectingNode listeningNode) (Session.init (.fill 7)) _ _ :=
    hfirst.trans (Runs.of_foldlM (fun s e he t h => ⟨hfresh s e he, h⟩) rfl)
  exact ⟨_, _, _, run, rfl, rfl, (handshake_agreement run).1.settled _ _ rfl rfl rfl rfl rfl rfl⟩

/-- A peer that loses its connection after the handshake gets a one-sided one: it calls itself
connected, and with nothing left under way the listening side still waits. -/
theorem reconnected_peer_is_one_sided : ∃ s c l,
    Runs (Step connectingNode listeningNode) (Session.init (.fill 7))
      (handshakes ++ [.loss, .cleanupPeers, .periodic, .reconnect true, .accept (.fill 9),
        .take, .job, .job]) s ∧
      s.connection = some c ∧ c.listener = some l ∧ s.outgoing.status = .kConnected ∧
      connectingNode.handshake ∉ c.written ∧ c.toListener = [] ∧ c.toOutgoing = [] ∧
      s.outgoing.job = .idle ∧ l.job = .idle ∧ l.status = .kConnecting ∧
      ¬ Agreement connectingNode listeningNode s := by
  refine ⟨_, _, _, Runs.of_foldlM (fun _ _ _ _ h => h) rfl, rfl, rfl, rfl,
    List.not_mem_nil, rfl, rfl, rfl, rfl, rfl, ?_⟩
  intro hagree
  obtain ⟨c, hc, hmem⟩ := hagree.sent rfl
  cases hc
  cases hmem

end Handshake

end BeyondProtocol
