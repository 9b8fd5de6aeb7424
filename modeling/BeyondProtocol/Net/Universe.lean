import Mathlib.Data.List.AList
import BeyondProtocol.Protocol.Packet

/-!
# The registry of peers (`universe.cpp`)

Connected peers sit in the slots of a vector of fixed size. A peer object gets a
local id when it is made; registering it overwrites this id with the number of
its slot. Removing a peer empties its slot for the next one.

Peer objects are shared pointers in the source: `PeerRef` is the identity of an
object and `store` what it holds.
-/

namespace BeyondProtocol

/-- `ftl::UUID`: 16 bytes. -/
structure UUID where
  bytes : Vector UInt8 16
deriving DecidableEq, Repr

/-- `UUID(int u)` fills the bytes with one value. -/
def UUID.fill (u : UInt8) : UUID := ⟨Vector.replicate 16 u⟩

/-- What `operator<` compares: `strncmp` stops at the first zero byte, so two ids are one
key of a `std::map` as soon as they agree up to there. -/
def UUID.key (id : UUID) : List UInt8 := id.bytes.toList.takeWhile (· ≠ 0)

inductive NodeStatus : Type where
  | kInvalid
  | kConnecting
  | kConnected
  | kDisconnected
  | kReconnecting
deriving DecidableEq, Repr

abbrev PeerRef : Type := Nat

/-- `PeerBase`, as far as the registry looks at it. -/
structure Peer where
  id : UUID
  uri : String
  status : NodeStatus
  isValid : Bool
  isTcp : Bool
  localId : Int
deriving DecidableEq, Repr

structure Universe where
  peers : List (Option PeerRef)
  store : PeerRef → Peer
  peerByUri : AList (fun _ : String => Nat) := ∅
  /-- By key, with the id the entry was made for. -/
  peerIds : List UInt8 → Option (UUID × Nat) := fun _ => none
  reconnects : List PeerRef := []
  garbage : List PeerRef := []
  connectionCount : Int := 0

namespace Universe

/-- A universe with `n` slots (`kDefaultMaxConnections`) and no connection. -/
def empty (n : Nat) (store : PeerRef → Peer) : Universe where
  peers := List.replicate n none
  store := store

/-- `_findPeer` -/
def isRegistered (u : Universe) (p : PeerRef) : Bool := some p ∈ u.peers

def freeSlot (u : Universe) : Option Nat := u.peers.findIdx? Option.isNone

/-- `peer_ids_[id] = i`: an entry that has the key already keeps the id it holds. -/
def setPeerId (u : Universe) (id : UUID) (i : Nat) : List UInt8 → Option (UUID × Nat) :=
  Function.update u.peerIds id.key (some (((u.peerIds id.key).map Prod.fst).getD id, i))

/-- `insertPeer_` -/
def insertPeer (u : Universe) (p : PeerRef) : Except Fault Universe :=
  if u.isRegistered p then .ok u
  else
    match u.freeSlot with
    | none => .error .thrown
    | some i => .ok { u with
        peers := u.peers.set i (some p)
        store := Function.update u.store p { u.store p with localId := i }
        peerByUri := u.peerByUri.insert (u.store p).uri i
        peerIds := u.setPeerId (u.store p).id i
        connectionCount := u.connectionCount + 1 }

/-- A peer that `_cleanupPeers` removes. -/
def isGone (peer : Peer) : Bool :=
  !peer.isValid || peer.status = .kReconnecting || peer.status = .kDisconnected

/-- One entry of `peer_by_uri_` that leads to the peer is erased. -/
def eraseUri (u : Universe) (p : PeerRef) : AList (fun _ : String => Nat) :=
  match u.peerByUri.keys.find? fun k =>
      (u.peerByUri.lookup k).any fun i => u.peers[i]? = some (some p) with
  | none => u.peerByUri
  | some k => u.peerByUri.erase k

/-- `removePeer_`, for the peer in slot `i`. -/
def removePeer (u : Universe) (i : Nat) : Universe :=
  match u.peers[i]? with
  | some (some p) =>
      if isGone (u.store p) then
        let reconnecting : Bool := (u.store p).status = .kReconnecting
        { u with
          peers := u.peers.set i none
          peerIds := Function.update u.peerIds (u.store p).id.key none
          peerByUri := u.eraseUri p
          reconnects :=
            if reconnecting && (u.store p).isTcp then u.reconnects ++ [p] else u.reconnects
          garbage := if reconnecting then u.garbage else u.garbage ++ [p]
          connectionCount := u.connectionCount - 1 }
      else u
  | _ => u

/-- `_cleanupPeers` -/
def cleanupPeers (u : Universe) : Universe :=
  (List.range u.peers.length).foldl removePeer u

/-- `getPeer(int)` -/
def getPeer (u : Universe) (localId : Int) : Option PeerRef :=
  u.peers.findSome? fun o => o.filter fun p => (u.store p).localId = localId

/-- `getPeer(const UUID &)`. The slots are indexed without a check. -/
def getPeerById (u : Universe) (id : UUID) : Except Fault (Option PeerRef) :=
  match u.peerIds id.key with
  | none => .ok none
  | some (_, i) =>
      match u.peers[i]? with
      | none => .error .undefined
      | some o => .ok o

/-- The connection of a peer changes its state. -/
def setStatus (u : Universe) (p : PeerRef) (status : NodeStatus) (isValid : Bool) : Universe :=
  let peer := { u.store p with status := status, isValid := isValid }
  { u with store := Function.update u.store p peer }

/-- `notifyConnect_` -/
def notifyConnect (u : Universe) (p : PeerRef) : Universe :=
  if u.isRegistered p then
    { u with peerIds := u.setPeerId (u.store p).id (u.store p).localId.toNat }
  else u

/-- The end of `process_handshake_`: the id received replaces the one the peer had. -/
def completeHandshake (u : Universe) (p : PeerRef) (pid : UUID) : Universe :=
  let peer := { u.store p with id := pid, status := .kConnected }
  notifyConnect { u with store := Function.update u.store p peer } p

inductive ReconnectOutcome : Type where
  | selfConnect
  | connected
  | failed
deriving DecidableEq, Repr

/-- One pass of the loop of `_periodic` over the peers that wait for a reconnect. A failed
`reconnect()` closes the peer with a retry. -/
def reconnectNext (u : Universe) (outcome : ReconnectOutcome) : Except Fault Universe :=
  match u.reconnects with
  | [] => .ok u
  | p :: rest =>
      match outcome with
      | .selfConnect => .ok { u with reconnects := rest, garbage := u.garbage ++ [p] }
      | .connected => do
          let u ← u.insertPeer p
          return { u.setStatus p .kConnecting true with reconnects := rest }
      | .failed => do
          let u ← u.insertPeer p
          return { u.setStatus p .kReconnecting false with reconnects := rest }

/-- `setMaxConnections` -/
def setMaxConnections (u : Universe) (m : Nat) : Universe :=
  { u with peers := u.peers.take m ++ List.replicate (m - u.peers.length) none }

/-! ## §1  Local ids of registered peers are their slots -/

/-- Every registered peer carries the number of its slot. -/
def SlotIds (u : Universe) : Prop :=
  ∀ (i : Nat) (p : PeerRef), u.peers[i]? = some (some p) → (u.store p).localId = i

theorem slotIds_empty (n : Nat) (store : PeerRef → Peer) : (empty n store).SlotIds := by
  intro i p h
  simp only [empty, List.getElem?_replicate] at h
  split_ifs at h
  cases h

/-- What a successful registration did. -/
theorem insertPeer_cases {u u' : Universe} {p : PeerRef} (h : u.insertPeer p = .ok u') :
    (u.isRegistered p = true ∧ u' = u) ∨
      ∃ i, u.freeSlot = some i ∧ u.isRegistered p = false ∧ u.peers[i]? = some none ∧
      u' = { u with
        peers := u.peers.set i (some p)
        store := Function.update u.store p { u.store p with localId := i }
        peerByUri := u.peerByUri.insert (u.store p).uri i
        peerIds := u.setPeerId (u.store p).id i
        connectionCount := u.connectionCount + 1 } := by
  unfold insertPeer at h
  split_ifs at h with hreg
  · cases h
    exact .inl ⟨hreg, rfl⟩
  · cases hfree : u.freeSlot with
    | none =>
        rw [hfree] at h
        cases h
    | some i =>
        rw [hfree] at h
        cases h
        obtain ⟨hlt, hnone, -⟩ := List.findIdx?_eq_some_iff_getElem.mp hfree
        refine .inr ⟨i, rfl, by simpa using hreg, ?_, rfl⟩
        rw [List.getElem?_eq_getElem hlt, Option.isNone_iff_eq_none.mp hnone]

theorem SlotIds.insertPeer {u u' : Universe} {p : PeerRef} (hu : u.SlotIds)
    (h : u.insertPeer p = .ok u') : u'.SlotIds := by
  rcases insertPeer_cases h with ⟨-, rfl⟩ | ⟨i, -, hreg, -, rfl⟩
  · exact hu
  · intro j q hq
    simp only at hq ⊢
    rw [List.getElem?_set] at hq
    split_ifs at hq with hij
    · simp only [Option.some.injEq] at hq
      rw [← hq, Function.update_self, ← hij]
    · have hne : q ≠ p := by
        rintro rfl
        have := List.mem_of_getElem? hq
        simp [isRegistered, this] at hreg
      rw [Function.update_of_ne hne]
      exact hu j q hq

/-- What a removal did. -/
theorem removePeer_cases (u : Universe) (i : Nat) : u.removePeer i = u ∨
    ∃ p reconnects garbage, u.peers[i]? = some (some p) ∧ u.removePeer i = { u with
      peers := u.peers.set i none
      peerIds := Function.update u.peerIds (u.store p).id.key none
      peerByUri := u.eraseUri p
      reconnects := reconnects
      garbage := garbage
      connectionCount := u.connectionCount - 1 } := by
  unfold removePeer
  split
  · rename_i p hp
    split_ifs
    · exact .inr ⟨p, _, _, hp, rfl⟩
    · exact .inl rfl
  · exact .inl rfl

theorem removePeer_peers {u : Universe} {i j : Nat} {p : PeerRef}
    (h : (u.removePeer i).peers[j]? = some (some p)) : u.peers[j]? = some (some p) := by
  rcases u.removePeer_cases i with heq | ⟨q, reconnects, garbage, -, heq⟩
  · rwa [heq] at h
  · rw [heq] at h
    simp only [List.getElem?_set] at h
    split_ifs at h
    · cases h
    · exact h

theorem removePeer_store (u : Universe) (i : Nat) : (u.removePeer i).store = u.store := by
  rcases u.removePeer_cases i with heq | ⟨q, reconnects, garbage, -, heq⟩ <;> rw [heq]

theorem SlotIds.removePeer {u : Universe} (hu : u.SlotIds) (i : Nat) :
    (u.removePeer i).SlotIds := by
  intro j p hp
  rw [removePeer_store]
  exact hu j p (removePeer_peers hp)

theorem SlotIds.setStatus {u : Universe} (hu : u.SlotIds) (p : PeerRef) (status : NodeStatus)
    (isValid : Bool) : (u.setStatus p status isValid).SlotIds := by
  intro j q hq
  have hlocal := hu j q hq
  by_cases hqp : q = p
  · subst hqp
    simpa [Universe.setStatus] using hlocal
  · simpa [Universe.setStatus, hqp] using hlocal

/-- `getPeer` looks into the slot of that number. -/
theorem SlotIds.getPeer {u : Universe} (hu : u.SlotIds) {localId : Int} {p : PeerRef}
    (h : u.getPeer localId = some p) :
    ∃ i : Nat, localId = i ∧ u.peers[i]? = some (some p) := by
  obtain ⟨o, ho, hp⟩ := List.exists_of_findSome?_eq_some h
  obtain ⟨rfl, hid⟩ := Option.filter_eq_some_iff.mp hp
  obtain ⟨i, hi⟩ := List.mem_iff_getElem?.mp ho
  exact ⟨i, by rw [← hu i p hi]; exact (of_decide_eq_true hid).symm, hi⟩

end Universe

end BeyondProtocol
