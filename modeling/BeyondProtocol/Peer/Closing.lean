import BeyondProtocol.Net.Registry

/-!
# How a connection ends (`peer_tcp.cpp`, `universe.cpp`)

A `PeerTcp` stops being connected in many ways: `close` is called here or a
`__disconnect__` comes from there, a read or a write fails, the stream ends, `poll`
reports an error. Whatever happened, the next `_cleanupPeers` takes the peer out of
its slot and triggers `on_disconnect_`. `_close` triggers the same event through
`notifyDisconnect_` when it still finds the socket open.

Each way is one step here, as are the turns of the loops of `_cleanupPeers` and
`_periodic`.
-/

namespace BeyondProtocol

namespace Closing

open Framework

/-- What happens to a peer: `insertPeer_` gives it a slot, `on_disconnect_` is triggered for
it, `removePeer_` takes it out of its slot. -/
inductive Notice : Type where
  | registered (p : PeerRef)
  | disconnected (p : PeerRef)
  | removed (p : PeerRef)
deriving DecidableEq, Repr

structure Network where
  net : Universe
  /-- `sock_->is_valid()` -/
  sock : PeerRef → Bool
  canReconnect : PeerRef → Bool
  log : List Notice := []

/-- `reconnect_on_socket_error_` -/
def reconnectOnSocketError : Bool := true

/-- `reconnect_on_protocol_error_` -/
def reconnectOnProtocolError : Bool := false

/-- How `send_buffer_` ended, when it got to write. -/
inductive WriteOutcome : Type where
  | complete
  /-- `writev` returned nothing or an error: it is reported, and that is all. -/
  | failed
  /-- Only a part was written, or `writev` threw. -/
  | broken
deriving DecidableEq, Repr

inductive ReadOutcome : Type where
  | data
  | thrown
  /-- The result is 0, which is right only if the connection closed itself meanwhile. -/
  | nothing (closed : Bool)
  /-- The result is negative. -/
  | error
deriving DecidableEq, Repr

inductive ConnectOutcome : Type where
  | selfConnect
  | connected
  /-- `_connect` threw, and may have left an open socket. -/
  | failed (sockOpen : Bool)
deriving DecidableEq, Repr

namespace Network

/-- A universe with `n` slots and no connection. -/
def start (n : Nat) (store : PeerRef → Peer) (canReconnect : PeerRef → Bool) : Network where
  net := .empty n store
  sock := fun _ => false
  canReconnect := canReconnect

def peer (s : Network) (p : PeerRef) : Peer := s.net.store p

/-- `status_` is one that `_close` acts on. -/
def isUp (status : NodeStatus) : Bool := status = .kConnected || status = .kConnecting

/-- The status and the socket of a peer, and with them `isValid()`. -/
def setLink (s : Network) (p : PeerRef) (status : NodeStatus) (sock : Bool) : Network :=
  { s with
    net := s.net.setStatus p status (sock && isUp status)
    sock := Function.update s.sock p sock }

/-- `notifyDisconnect_` -/
def notifyDisconnect (s : Network) (p : PeerRef) : Network :=
  if s.net.isRegistered p then { s with log := s.log ++ [.disconnected p] } else s

/-- `_close` -/
def closeSocket (s : Network) (p : PeerRef) (retry : Bool) : Network :=
  if isUp (s.peer p).status then
    let status : NodeStatus :=
      if retry && s.canReconnect p then .kReconnecting else .kDisconnected
    let t := s.setLink p status (s.sock p)
    if s.sock p then (t.notifyDisconnect p).setLink p status false else t
  else s

/-- `send_buffer_` -/
def sendBuffer (s : Network) (p : PeerRef) (outcome : WriteOutcome) : Network :=
  if s.sock p then
    match outcome with
    | .broken => s.closeSocket p reconnectOnSocketError
    | _ => s
  else s

/-- `close`, with the outcome of the farewell. -/
def close (s : Network) (p : PeerRef) (retry : Bool) (outcome : WriteOutcome) : Network :=
  let s :=
    if s.sock p && (s.peer p).status = .kConnected then s.sendBuffer p outcome else s
  s.closeSocket p retry

/-- The handler of `__disconnect__`. The status keeps `_close` from doing anything. -/
def onDisconnect (s : Network) (p : PeerRef) : Network :=
  (s.setLink p .kDisconnected (s.sock p)).close p false .complete

/-- `process_handshake_` -/
def handshake (s : Network) (p : PeerRef) (pid : UUID) : Network :=
  { s with net := s.net.completeHandshake p pid }.setLink p .kConnected (s.sock p)

def recv (s : Network) (p : PeerRef) (outcome : ReadOutcome) (farewell : WriteOutcome) :
    Except Fault Network :=
  if s.sock p = false ∨ (s.peer p).status = .kDisconnected then .ok s
  else
    match outcome with
    | .data => .ok s
    | .thrown => .ok (s.close p reconnectOnSocketError farewell)
    | .nothing closed =>
        if closed then .ok (s.setLink p (s.peer p).status false) else .error .checkFailed
    | .error =>
        .ok ((s.setLink p (s.peer p).status false).close p reconnectOnSocketError farewell)

/-- `socketError`, for an error code that is or is not fatal. -/
def socketError (s : Network) (p : PeerRef) (fatal : Bool) : Network :=
  if fatal then s.closeSocket p reconnectOnSocketError else s

/-- `_data`, when what was received is not a message. -/
def badData (s : Network) (p : PeerRef) : Network := s.closeSocket p reconnectOnProtocolError

/-- `insertPeer_` -/
def insertPeer (s : Network) (p : PeerRef) : Except Fault Network := do
  let net ← s.net.insertPeer p
  return { s with
    net := net
    log := if s.net.isRegistered p then s.log else s.log ++ [.registered p] }

/-- A new peer, made by `connect` or for an accepted connection. -/
def connect (s : Network) (p : PeerRef) : Except Fault Network :=
  (s.setLink p .kConnecting true).insertPeer p

/-- `removePeer_`, for the peer in slot `i`. -/
def removePeer (s : Network) (i : Nat) : Network :=
  { s with
    net := s.net.removePeer i
    log :=
      match s.net.peers[i]? with
      | some (some p) =>
          if Universe.isGone (s.peer p) then s.log ++ [.disconnected p, .removed p] else s.log
      | _ => s.log }

/-- `reconnect` -/
def reconnect (s : Network) (p : PeerRef) (outcome : ConnectOutcome) : Network :=
  if (s.peer p).status ≠ .kConnecting ∨ s.canReconnect p = false then s
  else
    match outcome with
    | .failed sockOpen => (s.setLink p .kConnecting sockOpen).close p true .complete
    | _ => s.setLink p .kConnecting true

/-- The peer has its slot again and leaves the list of those that wait. -/
def readmit (s : Network) (p : PeerRef) (rest : List PeerRef) : Network :=
  { s with net := { s.net with reconnects := rest } }.setLink p .kConnecting (s.sock p)

/-- A turn of the loop of `_periodic` over the peers that wait for a reconnect. -/
def retryNext (s : Network) (outcome : ConnectOutcome) : Except Fault Network :=
  match s.net.reconnects with
  | [] => .ok s
  | p :: rest =>
      if outcome = .selfConnect then
        .ok { s with net := { s.net with reconnects := rest, garbage := s.net.garbage ++ [p] } }
      else do
        let s ← s.insertPeer p
        return (s.readmit p rest).reconnect p outcome

end Network

inductive Event : Type where
  | connect (p : PeerRef)
  | handshake (p : PeerRef) (pid : UUID)
  | send (p : PeerRef) (outcome : WriteOutcome)
  | close (p : PeerRef) (retry : Bool) (farewell : WriteOutcome)
  | onDisconnect (p : PeerRef)
  | recv (p : PeerRef) (outcome : ReadOutcome) (farewell : WriteOutcome)
  | socketError (p : PeerRef) (fatal : Bool)
  | badData (p : PeerRef)
  | noReconnect (p : PeerRef)
  | remove (i : Nat)
  | retry (outcome : ConnectOutcome)
deriving DecidableEq, Repr

namespace Network

/-- A step. A message is handled only while the socket it came from is open, and a new peer
that finds no slot is given up. -/
def handle (s : Network) : Event → Except Fault Network
  | .connect p => .ok (if s.net.isRegistered p then s else (s.connect p).toOption.getD s)
  | .handshake p pid => .ok (if s.sock p then s.handshake p pid else s)
  | .send p outcome => .ok (s.sendBuffer p outcome)
  | .close p retry farewell => .ok (s.close p retry farewell)
  | .onDisconnect p => .ok (if s.sock p then s.onDisconnect p else s)
  | .recv p outcome farewell => s.recv p outcome farewell
  | .socketError p fatal => .ok (s.socketError p fatal)
  | .badData p => .ok (s.badData p)
  | .noReconnect p => .ok { s with canReconnect := Function.update s.canReconnect p false }
  | .remove i => .ok (s.removePeer i)
  | .retry outcome => s.retryNext outcome

def Step (s : Network) (e : Event) (t : Network) : Prop := s.handle e = .ok t

/-! ## §1  One event for one disconnect -/

/-- `_close` is about to trigger the event: the peer is registered, up, and its socket open. -/
def isLoud (s : Network) (p : PeerRef) : Bool :=
  s.net.isRegistered p && isUp (s.peer p).status && s.sock p

/-- The step does not close an open socket. -/
def Safe (s : Network) : Event → Prop
  | .send p .broken => s.isLoud p = false
  | .close p _ _ => s.isLoud p = false
  | .recv p .thrown _ => s.isLoud p = false
  | .socketError p true => s.isLoud p = false
  | .badData p => s.isLoud p = false
  | .retry (.failed true) => ∀ p ∈ s.net.reconnects.head?, s.canReconnect p = false
  | _ => True

def SafeStep (s : Network) (e : Event) (t : Network) : Prop := s.Step e t ∧ s.Safe e

end Network

/-- How often `on_disconnect_` was triggered for a peer since it got its slot. -/
def disconnects (p : PeerRef) (log : List Notice) : Nat :=
  log.foldl (fun n x =>
    if x = .registered p then 0 else if x = .disconnected p then n + 1 else n) 0

/-- Every peer that lost its slot was announced once since it had got it. -/
def ExactlyOnce (log : List Notice) : Prop :=
  ∀ pre p post, log = pre ++ .removed p :: post → disconnects p pre = 1

theorem disconnects_snoc (p : PeerRef) (log : List Notice) (x : Notice) :
    disconnects p (log ++ [x]) = if x = .registered p then 0
      else if x = .disconnected p then disconnects p log + 1 else disconnects p log := by
  rw [disconnects, List.foldl_append]
  rfl

/-- Only the end of a registration is looked at. -/
theorem exactlyOnce_snoc {log : List Notice} {x : Notice} :
    ExactlyOnce (log ++ [x]) ↔
      (∀ p, x = .removed p → disconnects p log = 1) ∧ ExactlyOnce log := by
  have hsplit : ∀ log, ExactlyOnce log ↔ ∀ pre x post, log = pre ++ x :: post →
      ∀ p, x = .removed p → disconnects p pre = 1 := by
    intro log
    constructor
    · rintro h pre _ post hlog p rfl
      exact h pre p post hlog
    · intro h pre p post hlog
      exact h pre _ post hlog p rfl
  rw [hsplit, hsplit, forall_split_snoc]

namespace Network

/-- What holds while no event was triggered early. -/
structure Settled (s : Network) : Prop where
  slots : s.net.SlotIds
  unannounced : ∀ p, s.net.isRegistered p = true → disconnects p s.log = 0
  once : ExactlyOnce s.log

/-! ### What the parts of a step do -/

@[simp] theorem setLink_sock (s : Network) (p : PeerRef) (status : NodeStatus) (sock : Bool) :
    (s.setLink p status sock).sock p = sock := Function.update_self ..

@[simp] theorem setLink_status (s : Network) (p : PeerRef) (status : NodeStatus) (sock : Bool) :
    ((s.setLink p status sock).peer p).status = status := by
  simp [setLink, peer, Universe.setStatus]

@[simp] theorem setLink_log (s : Network) (p : PeerRef) (status : NodeStatus) (sock : Bool) :
    (s.setLink p status sock).log = s.log := rfl

@[simp] theorem setLink_peers (s : Network) (p : PeerRef) (status : NodeStatus) (sock : Bool) :
    (s.setLink p status sock).net.peers = s.net.peers := rfl

@[simp] theorem setLink_isRegistered (s : Network) (p : PeerRef) (status : NodeStatus)
    (sock : Bool) (q : PeerRef) :
    (s.setLink p status sock).net.isRegistered q = s.net.isRegistered q := rfl

@[simp] theorem setLink_canReconnect (s : Network) (p : PeerRef) (status : NodeStatus)
    (sock : Bool) : (s.setLink p status sock).canReconnect = s.canReconnect := rfl

theorem Settled.setLink {s : Network} (hs : s.Settled) (p : PeerRef) (status : NodeStatus)
    (sock : Bool) : (s.setLink p status sock).Settled :=
  ⟨hs.slots.setStatus p status _, hs.unannounced, hs.once⟩

theorem closeSocket_of_down {s : Network} {p : PeerRef} {retry : Bool}
    (h : isUp (s.peer p).status = false) : s.closeSocket p retry = s := by
  simp [closeSocket, h]

/-- Where `_close` leaves a peer. -/
theorem closeSocket_status (s : Network) (p : PeerRef) (retry : Bool) :
    isUp ((s.closeSocket p retry).peer p).status = false := by
  by_cases hup : isUp (s.peer p).status
  · simp only [closeSocket, hup, if_true]
    by_cases hretry : retry && s.canReconnect p
    · by_cases hsock : s.sock p <;> simp [hretry, hsock, isUp]
    · by_cases hsock : s.sock p <;> simp [hretry, hsock, isUp]
  · rw [closeSocket_of_down (by simpa using hup)]
    simpa using hup

theorem closeSocket_peers (s : Network) (p : PeerRef) (retry : Bool) :
    (s.closeSocket p retry).net.peers = s.net.peers := by
  by_cases hup : isUp (s.peer p).status
  · by_cases hsock : s.sock p
    · simp only [closeSocket, hup, hsock, if_true, setLink_peers]
      rw [notifyDisconnect]
      split_ifs <;> rfl
    · simp [closeSocket, hup, hsock]
  · simp [closeSocket, hup]

theorem closeSocket_log (s : Network) (p : PeerRef) (retry : Bool) :
    (s.closeSocket p retry).log =
      if s.isLoud p then s.log ++ [.disconnected p] else s.log := by
  by_cases hup : isUp (s.peer p).status
  · by_cases hsock : s.sock p
    · by_cases hreg : s.net.isRegistered p
      · simp [closeSocket, isLoud, notifyDisconnect, hup, hsock, hreg]
      · simp [closeSocket, isLoud, notifyDisconnect, hup, hsock, hreg]
    · simp [closeSocket, isLoud, hup, hsock]
  · simp [closeSocket, isLoud, hup]

theorem closeSocket_slotIds {s : Network} (hs : s.net.SlotIds) (p : PeerRef) (retry : Bool) :
    (s.closeSocket p retry).net.SlotIds := by
  by_cases hup : isUp (s.peer p).status
  · by_cases hsock : s.sock p
    · simp only [closeSocket, hup, hsock, if_true]
      apply Universe.SlotIds.setStatus
      rw [notifyDisconnect]
      split_ifs <;> exact hs.setStatus p _ _
    · simp only [closeSocket, hup, hsock, if_true]
      exact hs.setStatus p _ _
  · simpa [closeSocket, hup] using hs

theorem isRegistered_congr {s t : Network} (h : t.net.peers = s.net.peers) (p : PeerRef) :
    t.net.isRegistered p = s.net.isRegistered p := by
  simp [Universe.isRegistered, h]

theorem Settled.closeSocket {s : Network} (hs : s.Settled) {p : PeerRef} {retry : Bool}
    (h : s.isLoud p = false) : (s.closeSocket p retry).Settled where
  slots := closeSocket_slotIds hs.slots p retry
  unannounced := by
    intro q hq
    rw [isRegistered_congr (s.closeSocket_peers p retry)] at hq
    simpa [closeSocket_log, h] using hs.unannounced q hq
  once := by simpa [closeSocket_log, h] using hs.once

/-- `close` is one `_close`, here or already in the farewell. -/
theorem close_eq (s : Network) (p : PeerRef) (retry : Bool) (farewell : WriteOutcome) :
    ∃ r, s.close p retry farewell = s.closeSocket p r := by
  by_cases hbroken : s.sock p = true ∧ (s.peer p).status = .kConnected ∧ farewell = .broken
  · obtain ⟨hsock, hstatus, rfl⟩ := hbroken
    refine ⟨reconnectOnSocketError, ?_⟩
    simp only [close, sendBuffer, hsock, hstatus, decide_true, Bool.and_true, if_true]
    exact closeSocket_of_down (s.closeSocket_status p _)
  · refine ⟨retry, ?_⟩
    have hsend : (if s.sock p && (s.peer p).status = .kConnected then s.sendBuffer p farewell
        else s) = s := by
      split_ifs with h
      · simp only [Bool.and_eq_true, decide_eq_true_eq] at h
        simp only [sendBuffer, h.1, if_true]
        cases farewell with
        | complete => rfl
        | failed => rfl
        | broken => exact absurd ⟨h.1, h.2, rfl⟩ hbroken
      · rfl
    simp only [close, hsend]

theorem Settled.close {s : Network} (hs : s.Settled) {p : PeerRef} {retry : Bool}
    {farewell : WriteOutcome} (h : s.isLoud p = false) : (s.close p retry farewell).Settled := by
  obtain ⟨r, hr⟩ := s.close_eq p retry farewell
  rw [hr]
  exact hs.closeSocket h

theorem Settled.handshake {s : Network} (hs : s.Settled) (p : PeerRef) (pid : UUID) :
    (s.handshake p pid).Settled := by
  apply Settled.setLink
  refine ⟨hs.slots.completeHandshake p pid, ?_, hs.once⟩
  intro q hq
  rw [Universe.isRegistered, (s.net.completeHandshake_peers p pid).1] at hq
  exact hs.unannounced q hq

theorem Settled.insertPeer {s t : Network} (hs : s.Settled) {p : PeerRef}
    (h : s.insertPeer p = .ok t) :
    t.Settled ∧ t.net.isRegistered p = true ∧ t.canReconnect = s.canReconnect := by
  obtain ⟨net, hnet, hret⟩ := bind_eq_ok.mp h
  cases hret
  rcases Universe.insertPeer_cases hnet with ⟨hreg, rfl⟩ | ⟨i, -, hreg, hfree, hnet'⟩
  · rw [if_pos hreg]
    exact ⟨hs, hreg, rfl⟩
  · have hpeers : net.peers = s.net.peers.set i (some p) := by rw [hnet']
    have hin : net.isRegistered p = true := by
      obtain ⟨hi, -⟩ := List.getElem?_eq_some_iff.mp hfree
      refine Universe.isRegistered_iff.mpr ⟨i, ?_⟩
      rw [hpeers, List.getElem?_set_self hi]
    refine ⟨⟨hs.slots.insertPeer hnet, ?_, ?_⟩, hin, rfl⟩
    · intro q hq
      simp only [hreg, Bool.false_eq_true, if_false, disconnects_snoc]
      by_cases hqp : q = p
      · rw [if_pos (by rw [hqp])]
      · rw [if_neg (by simpa using fun h => hqp h.symm), if_neg (by simp)]
        rw [Universe.insertPeer_isRegistered hnet hqp] at hq
        exact hs.unannounced q hq
    · simp only [hreg, Bool.false_eq_true, if_false]
      exact exactlyOnce_snoc.mpr ⟨by simp, hs.once⟩

theorem disconnects_removed (p : PeerRef) (log : List Notice) (q : PeerRef) :
    disconnects p (log ++ [.disconnected q, .removed q]) =
      if q = p then disconnects p log + 1 else disconnects p log := by
  rw [List.append_cons, disconnects_snoc, disconnects_snoc]
  simp

theorem exactlyOnce_removed {log : List Notice} {p : PeerRef} :
    ExactlyOnce (log ++ [.disconnected p, .removed p]) ↔
      disconnects p log = 0 ∧ ExactlyOnce log := by
  rw [List.append_cons, exactlyOnce_snoc, exactlyOnce_snoc]
  simp [disconnects_snoc]

theorem Settled.removePeer {s : Network} (hs : s.Settled) (i : Nat) :
    (s.removePeer i).Settled := by
  by_cases hgone : ∃ p, s.net.peers[i]? = some (some p) ∧ Universe.isGone (s.peer p) = true
  · obtain ⟨p, hp, hgone⟩ := hgone
    have hlog : (s.removePeer i).log = s.log ++ [.disconnected p, .removed p] := by
      simp [Network.removePeer, hp, hgone]
    have hpeers : (s.removePeer i).net.peers = s.net.peers.set i none := by
      have hgone' : Universe.isGone (s.net.store p) = true := hgone
      simp [Network.removePeer, Universe.removePeer, hp, hgone']
    refine ⟨hs.slots.removePeer i, ?_, ?_⟩
    · intro q hq
      obtain ⟨j, hj⟩ := Universe.isRegistered_iff.mp hq
      rw [hpeers, List.getElem?_set] at hj
      split_ifs at hj with hij
      · cases hj
      · have hqp : p ≠ q := by
          rintro rfl
          exact hij (hs.slots.unique hp hj)
        rw [hlog, disconnects_removed, if_neg hqp]
        exact hs.unannounced q (Universe.isRegistered_iff.mpr ⟨j, hj⟩)
    · rw [hlog, exactlyOnce_removed]
      exact ⟨hs.unannounced p (Universe.isRegistered_iff.mpr ⟨i, hp⟩), hs.once⟩
  · have hsame : s.removePeer i = s := by
      unfold Network.removePeer Universe.removePeer
      match hi : s.net.peers[i]? with
      | none => rfl
      | some none => rfl
      | some (some p) =>
          have hstay : Universe.isGone (s.net.store p) = false :=
            Bool.eq_false_iff.mpr fun h => hgone ⟨p, hi, h⟩
          simp [peer, hstay]
    rw [hsame]
    exact hs

/-- An early event is followed by a second one. -/
theorem closeSocket_loud {s : Network} {p : PeerRef} (retry : Bool)
    (h : s.isLoud p = true) : ∃ i, ¬ ExactlyOnce ((s.closeSocket p retry).removePeer i).log := by
  have hreg : s.net.isRegistered p = true := by
    simp only [isLoud, Bool.and_eq_true] at h
    exact h.1.1
  obtain ⟨i, hi⟩ := Universe.isRegistered_iff.mp hreg
  have hgone : Universe.isGone ((s.closeSocket p retry).peer p) = true := by
    simp only [isLoud, Bool.and_eq_true] at h
    unfold Universe.isGone
    simp only [Network.closeSocket, h.1.2, h.2, if_true]
    by_cases hr : retry && s.canReconnect p
    · simp [hr]
    · simp [hr]
  refine ⟨i, ?_⟩
  have hlog : ((s.closeSocket p retry).removePeer i).log =
      (s.log ++ [.disconnected p]) ++ [.disconnected p, .removed p] := by
    simp [Network.removePeer, closeSocket_peers, hi, hgone, closeSocket_log, h]
  rw [hlog, exactlyOnce_removed]
  rintro ⟨hzero, -⟩
  rw [disconnects_snoc] at hzero
  simp at hzero

/-- The step closes a socket that is open. -/
def ClosesLoudly (t : Network) : Prop :=
  ∃ (s : Network) (p : PeerRef) (retry : Bool), s.isLoud p = true ∧ t = s.closeSocket p retry

theorem Settled.recv {s t : Network} (hs : s.Settled) {p : PeerRef} {outcome : ReadOutcome}
    {farewell : WriteOutcome} (h : s.recv p outcome farewell = .ok t) :
    (s.Safe (.recv p outcome farewell) → t.Settled) ∧
      (¬ s.Safe (.recv p outcome farewell) → t.ClosesLoudly) := by
  unfold Network.recv at h
  split_ifs at h with hidle
  · -- nothing is read, and nothing would be closed
    cases h
    refine ⟨fun _ => hs, fun hsafe => ?_⟩
    cases outcome with
    | thrown =>
        refine absurd ?_ hsafe
        rcases hidle with hsock | hstatus
        · simp [Safe, isLoud, hsock]
        · simp [Safe, isLoud, hstatus, isUp]
    | data => exact absurd trivial hsafe
    | nothing closed => exact absurd trivial hsafe
    | error => exact absurd trivial hsafe
  · cases outcome with
    | data =>
        cases h
        exact ⟨fun _ => hs, fun hsafe => absurd trivial hsafe⟩
    | thrown =>
        cases h
        refine ⟨fun hsafe => hs.close hsafe, fun hsafe => ?_⟩
        obtain ⟨r, hr⟩ := s.close_eq p reconnectOnSocketError farewell
        exact ⟨s, p, r, by simpa [Safe] using hsafe, hr⟩
    | nothing closed =>
        cases closed with
        | false => cases h
        | true =>
            cases h
            exact ⟨fun _ => hs.setLink p _ _, fun hsafe => absurd trivial hsafe⟩
    | error =>
        cases h
        refine ⟨fun _ => ?_, fun hsafe => absurd trivial hsafe⟩
        exact (hs.setLink p _ _).close (by simp [isLoud])

theorem Settled.reconnect {s : Network} (hs : s.Settled) {p : PeerRef} (outcome : ConnectOutcome)
    (hreg : s.net.isRegistered p = true) (hstatus : (s.peer p).status = .kConnecting) :
    ((outcome = .failed true → s.canReconnect p = false) → (s.reconnect p outcome).Settled) ∧
      (outcome = .failed true → s.canReconnect p = true →
        (s.reconnect p outcome).ClosesLoudly) := by
  unfold Network.reconnect
  by_cases hcan : s.canReconnect p = true
  · rw [if_neg (by simp [hstatus, hcan])]
    cases outcome with
    | selfConnect => exact ⟨fun _ => hs.setLink p _ _, fun h => by cases h⟩
    | connected => exact ⟨fun _ => hs.setLink p _ _, fun h => by cases h⟩
    | failed sockOpen =>
        cases sockOpen with
        | false =>
            exact ⟨fun _ => (hs.setLink p _ _).close (by simp [isLoud]), fun h => by cases h⟩
        | true =>
            refine ⟨fun h => absurd (h rfl) (by simp [hcan]), fun _ _ => ?_⟩
            obtain ⟨r, hr⟩ := (s.setLink p .kConnecting true).close_eq p true .complete
            exact ⟨_, p, r, by simp [isLoud, hreg, isUp], hr⟩
  · rw [if_pos (.inr (by simpa using hcan))]
    exact ⟨fun _ => hs, fun _ h => absurd h hcan⟩

theorem Settled.retryNext {s t : Network} (hs : s.Settled) {outcome : ConnectOutcome}
    (h : s.retryNext outcome = .ok t) :
    (s.Safe (.retry outcome) → t.Settled) ∧ (¬ s.Safe (.retry outcome) → t.ClosesLoudly) := by
  have hsafe : s.Safe (.retry outcome) ↔
      ∀ p ∈ s.net.reconnects.head?, outcome = .failed true → s.canReconnect p = false := by
    rcases outcome with _ | _ | ⟨_ | _⟩ <;> simp [Safe]
  rw [hsafe]
  unfold Network.retryNext at h
  cases hrec : s.net.reconnects with
  | nil =>
      rw [hrec] at h
      cases h
      exact ⟨fun _ => hs, fun hno => absurd (by simp) hno⟩
  | cons p rest =>
      rw [hrec] at h
      simp only [List.head?_cons, Option.mem_some_iff, forall_eq'] at h ⊢
      split_ifs at h with hself
      · cases h
        refine ⟨fun _ => ⟨hs.slots, hs.unannounced, hs.once⟩, fun hno => absurd ?_ hno⟩
        rw [hself]
        rintro ⟨⟩
      · obtain ⟨u, hu, hret⟩ := bind_eq_ok.mp h
        cases hret
        obtain ⟨hsettled, hreg, hcan⟩ := hs.insertPeer hu
        have hrest : Settled { u with net := { u.net with reconnects := rest } } :=
          ⟨hsettled.slots, hsettled.unannounced, hsettled.once⟩
        have hready : (u.readmit p rest).Settled := hrest.setLink p _ _
        obtain ⟨hquiet, hloud⟩ := hready.reconnect outcome hreg (setLink_status ..)
        have hcan' : (u.readmit p rest).canReconnect p = s.canReconnect p := by
          rw [← hcan]
          rfl
        rw [hcan'] at hquiet hloud
        refine ⟨hquiet, fun hno => ?_⟩
        obtain ⟨hfailed, hcan⟩ := Classical.not_imp.mp hno
        exact hloud hfailed (by simpa using hcan)

/-- A safe step keeps everything in order, and any other closes a socket that is open. -/
theorem Settled.step {s t : Network} (hs : s.Settled) {e : Event} (h : s.Step e t) :
    (s.Safe e → t.Settled) ∧ (¬ s.Safe e → t.ClosesLoudly) := by
  unfold Step handle at h
  cases e with
  | connect p =>
      cases h
      refine ⟨fun _ => ?_, fun hsafe => absurd trivial hsafe⟩
      split_ifs
      · exact hs
      · cases hnew : s.connect p with
        | error f => exact hs
        | ok t => exact ((hs.setLink p _ _).insertPeer hnew).1
  | handshake p pid =>
      cases h
      refine ⟨fun _ => ?_, fun hsafe => absurd trivial hsafe⟩
      split_ifs
      · exact hs.handshake p pid
      · exact hs
  | send p outcome =>
      cases h
      unfold sendBuffer
      cases outcome with
      | complete => simpa using ⟨fun _ => hs, fun hsafe => absurd trivial hsafe⟩
      | failed => simpa using ⟨fun _ => hs, fun hsafe => absurd trivial hsafe⟩
      | broken =>
          split_ifs with hsock
          · refine ⟨fun hsafe => hs.closeSocket hsafe, fun hsafe => ?_⟩
            exact ⟨s, p, _, by simpa [Safe] using hsafe, rfl⟩
          · exact ⟨fun _ => hs, fun hsafe => absurd (by simp [Safe, isLoud, hsock]) hsafe⟩
  | close p retry farewell =>
      cases h
      obtain ⟨r, hr⟩ := s.close_eq p retry farewell
      exact ⟨fun hsafe => hs.close hsafe,
        fun hsafe => ⟨s, p, r, by simpa [Safe] using hsafe, hr⟩⟩
  | onDisconnect p =>
      cases h
      refine ⟨fun _ => ?_, fun hsafe => absurd trivial hsafe⟩
      split_ifs
      · exact (hs.setLink p _ _).close (by simp [isLoud, isUp])
      · exact hs
  | recv p outcome farewell => exact hs.recv h
  | socketError p fatal =>
      cases h
      cases fatal with
      | false => exact ⟨fun _ => hs, fun hsafe => absurd trivial hsafe⟩
      | true =>
          exact ⟨fun hsafe => hs.closeSocket hsafe,
            fun hsafe => ⟨s, p, _, by simpa [Safe] using hsafe, rfl⟩⟩
  | badData p =>
      cases h
      exact ⟨fun hsafe => hs.closeSocket hsafe,
        fun hsafe => ⟨s, p, _, by simpa [Safe] using hsafe, rfl⟩⟩
  | noReconnect p =>
      cases h
      exact ⟨fun _ => ⟨hs.slots, hs.unannounced, hs.once⟩, fun hsafe => absurd trivial hsafe⟩
  | remove i =>
      cases h
      exact ⟨fun _ => hs.removePeer i, fun hsafe => absurd trivial hsafe⟩
  | retry outcome => exact hs.retryNext h

theorem settled_start (n : Nat) (store : PeerRef → Peer) (canReconnect : PeerRef → Bool) :
    (start n store canReconnect).Settled where
  slots := Universe.slotIds_empty n store
  unannounced := fun _ _ => rfl
  once := by
    intro pre p post h
    simp [start] at h

/-- **In a run that closes no open socket, a peer that lost its slot was announced exactly
once**, and from every state such a run reaches any other step leads to a second
announcement. -/
theorem disconnect_announced_once {n : Nat} {store : PeerRef → Peer}
    {canReconnect : PeerRef → Bool} {es : List Event} {s : Network}
    (run : Runs SafeStep (start n store canReconnect) es s) :
    ExactlyOnce s.log ∧ ∀ e t, s.Step e t →
      ((∀ i, ExactlyOnce (t.removePeer i).log) ↔ s.Safe e) := by
  have hs : s.Settled := by
    refine run.invariant (settled_start n store canReconnect) ?_
    rintro s e t hs ⟨hstep, hsafe⟩
    exact (hs.step hstep).1 hsafe
  refine ⟨hs.once, ?_⟩
  intro e t hstep
  constructor
  · intro hall
    by_contra hsafe
    obtain ⟨u, p, retry, hloud, rfl⟩ := (hs.step hstep).2 hsafe
    obtain ⟨i, hi⟩ := closeSocket_loud retry hloud
    exact hi (hall i)
  · intro hsafe i
    exact (((hs.step hstep).1 hsafe).removePeer i).once

theorem disconnect_announced_once_remote :
    ∃ s, Runs SafeStep (start 1 Universe.newPeers fun _ => false)
      [.connect 0, .handshake 0 (.fill 9), .onDisconnect 0, .remove 0] s ∧
      s.log = [.registered 0, .disconnected 0, .removed 0] ∧ ExactlyOnce s.log := by
  have hlog : ∃ s, [Event.connect 0, .handshake 0 (.fill 9), .onDisconnect 0,
      .remove 0].foldlM handle (start 1 Universe.newPeers fun _ => false) = .ok s ∧
      s.log = [.registered 0, .disconnected 0, .removed 0] :=
    ⟨_, rfl, by decide⟩
  obtain ⟨s, hs, hlog⟩ := hlog
  have run : Runs SafeStep (start 1 Universe.newPeers fun _ => false)
      [.connect 0, .handshake 0 (.fill 9), .onDisconnect 0, .remove 0] s := by
    refine Runs.of_foldlM ?_ hs
    intro s e he t ht
    fin_cases he <;> exact ⟨ht, trivial⟩
  exact ⟨s, run, hlog, (disconnect_announced_once run).1⟩

/-- `close` on a connection that is up announces its end, and the removal does so again. -/
theorem close_announced_twice :
    ∃ s, Runs Step (start 1 Universe.newPeers fun _ => false)
      [.connect 0, .handshake 0 (.fill 9), .close 0 false .complete, .remove 0] s ∧
      s.log = [.registered 0, .disconnected 0, .disconnected 0, .removed 0] ∧
      ¬ ExactlyOnce s.log := by
  have hlog : ∃ s, [Event.connect 0, .handshake 0 (.fill 9), .close 0 false .complete,
      .remove 0].foldlM handle (start 1 Universe.newPeers fun _ => false) = .ok s ∧
      s.log = [.registered 0, .disconnected 0, .disconnected 0, .removed 0] :=
    ⟨_, rfl, by decide⟩
  obtain ⟨s, hs, hlog⟩ := hlog
  refine ⟨s, Runs.of_foldlM (fun _ _ _ _ h => h) hs, hlog, ?_⟩
  rw [hlog]
  intro h
  exact absurd (h [.registered 0, .disconnected 0, .disconnected 0] 0 [] rfl) (by decide)

end Network

end Closing

end BeyondProtocol
