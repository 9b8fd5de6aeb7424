import Mathlib.Data.List.Count
import BeyondProtocol.Framework.Runs
import BeyondProtocol.Net.Universe

/-!
# The maps of the registry (`universe.cpp`)

Beside the slots the universe keeps two maps into them, by id and by base URI, and a
counter. `getPeer(const UUID &)` and `connect` index the slots through the maps
without a check, so every entry has to lead to an occupied slot, and to the right
peer.

The key by which a peer is found changes while it is registered: a completed
handshake replaces its id and `notifyConnect_` adds an entry for the new one, but
nobody takes the entry of the old id out. This file says which steps keep the
maps right, and that all others break them.
-/

namespace BeyondProtocol

namespace Universe

open Framework

/-- What the unchecked lookups rely on. -/
structure Consistent (u : Universe) : Prop where
  ids : ∀ k id i, u.peerIds k = some (id, i) →
    ∃ p, u.peers[i]? = some (some p) ∧ (u.store p).id = id
  uris : ∀ uri i, u.peerByUri.lookup uri = some i →
    ∃ p, u.peers[i]? = some (some p) ∧ (u.store p).uri = uri
  count : u.connectionCount = u.peers.countP Option.isSome

/-- Everything that touches the registry. -/
inductive RegistryEvent : Type where
  | insert (p : PeerRef)
  | handshake (p : PeerRef) (pid : UUID)
  | status (p : PeerRef) (status : NodeStatus) (isValid : Bool)
  | remove (i : Nat)
  | cleanup
  | reconnect (outcome : ReconnectOutcome)
  | setMax (m : Nat)
deriving DecidableEq, Repr

/-- The registry after an operation: one that throws has changed nothing. -/
def orUnchanged (u : Universe) : Except Fault Universe → Universe
  | .ok u' => u'
  | .error _ => u

def handle (u : Universe) : RegistryEvent → Universe
  | .insert p => u.orUnchanged (u.insertPeer p)
  | .handshake p pid => u.completeHandshake p pid
  | .status p status isValid => u.setStatus p status isValid
  | .remove i => u.removePeer i
  | .cleanup => u.cleanupPeers
  | .reconnect outcome => u.orUnchanged (u.reconnectNext outcome)
  | .setMax m => u.setMaxConnections m

/-! ## §1  The steps that keep the maps right -/

/-- An entry under the key of `id` was made for `id` itself. -/
def Owned (u : Universe) (id : UUID) : Prop :=
  ∀ id' i, u.peerIds id.key = some (id', i) → id' = id

/-- A new peer needs a key of its own, unless it is turned away. -/
def SafeInsert (u : Universe) (p : PeerRef) : Prop :=
  u.isRegistered p = false → u.freeSlot ≠ none → u.Owned (u.store p).id

/-- The entries of a registered peer are under the id it announces. -/
def SafeHandshake (u : Universe) (p : PeerRef) (pid : UUID) : Prop :=
  ∀ i, u.peers[i]? = some (some p) →
    (∀ k id, u.peerIds k = some (id, i) → id = pid) ∧ u.Owned pid

/-- No slot in use is cut off. -/
def SafeResize (u : Universe) (m : Nat) : Prop :=
  ∀ i p, u.peers[i]? = some (some p) → i < m

def Safe (u : Universe) : RegistryEvent → Prop
  | .insert p => u.SafeInsert p
  | .handshake p pid => u.SafeHandshake p pid
  | .status _ _ _ => True
  | .remove _ => True
  | .cleanup => True
  | .reconnect outcome =>
      outcome = .selfConnect ∨ ∀ p, u.reconnects.head? = some p → u.SafeInsert p
  | .setMax m => u.SafeResize m

/-! ## §2  Facts of every run -/

/-- An entry sits under the key of the id it was made for. -/
def Keyed (u : Universe) : Prop :=
  ∀ k id i, u.peerIds k = some (id, i) → id.key = k

theorem setPeerId_self (u : Universe) (id : UUID) (i : Nat) :
    ∃ id', u.setPeerId id i id.key = some (id', i) ∧ (u.Owned id → id' = id) ∧
      (u.Keyed → id'.key = id.key) ∧ (id' = id → u.Owned id) := by
  unfold setPeerId Owned Keyed
  rw [Function.update_self]
  cases hold : u.peerIds id.key with
  | none => exact ⟨id, rfl, fun _ => rfl, fun _ => rfl, fun _ id' i h => by cases h⟩
  | some e =>
      obtain ⟨id₀, j⟩ := e
      refine ⟨id₀, rfl, ?_, ?_, ?_⟩
      · intro howned
        exact howned id₀ j rfl
      · intro hkeyed
        exact hkeyed _ _ _ hold
      · rintro rfl id' i h
        simp only [Option.some.injEq, Prod.mk.injEq] at h
        exact h.1.symm

theorem setPeerId_ne (u : Universe) (id : UUID) (i : Nat) {k : List UInt8} (hk : k ≠ id.key) :
    u.setPeerId id i k = u.peerIds k :=
  Function.update_of_ne hk _ _

theorem Keyed.setPeerId {u : Universe} (hu : u.Keyed) (id : UUID) (i : Nat) {k : List UInt8}
    {id' : UUID} {j : Nat} (h : u.setPeerId id i k = some (id', j)) : id'.key = k := by
  by_cases hk : k = id.key
  · subst hk
    obtain ⟨id₀, hid₀, -, hkey, -⟩ := u.setPeerId_self id i
    rw [hid₀] at h
    cases h
    exact hkey hu
  · rw [u.setPeerId_ne id i hk] at h
    exact hu _ _ _ h

theorem Keyed.insertPeer {u u' : Universe} {p : PeerRef} (hu : u.Keyed)
    (h : u.insertPeer p = .ok u') : u'.Keyed := by
  rcases insertPeer_cases h with ⟨-, rfl⟩ | ⟨i, -, -, -, rfl⟩
  · exact hu
  · intro k id j hk
    exact hu.setPeerId _ _ hk

theorem Keyed.removePeer {u : Universe} (hu : u.Keyed) (i : Nat) : (u.removePeer i).Keyed := by
  rcases u.removePeer_cases i with heq | ⟨p, reconnects, garbage, -, heq⟩
  · rwa [heq]
  · rw [heq]
    intro k id j hk
    simp only [Function.update_apply] at hk
    split_ifs at hk
    exact hu _ _ _ hk

/-- What a pass over the waiting peers does: nothing, or the first one is dropped, or it is
registered and its status set. -/
theorem reconnectNext_cases (u : Universe) (outcome : ReconnectOutcome) :
    (u.reconnects = [] ∧ u.reconnectNext outcome = .ok u) ∨
      (outcome = .selfConnect ∧ ∃ p rest, u.reconnects = p :: rest ∧ u.reconnectNext outcome =
        .ok { u with reconnects := rest, garbage := u.garbage ++ [p] }) ∨
      ∃ p rest status isValid, u.reconnects = p :: rest ∧ outcome ≠ .selfConnect ∧
        u.reconnectNext outcome = (u.insertPeer p).map fun u =>
          { u.setStatus p status isValid with reconnects := rest } := by
  unfold reconnectNext
  cases hq : u.reconnects with
  | nil => exact .inl ⟨rfl, rfl⟩
  | cons p rest =>
      right
      cases outcome with
      | selfConnect => exact .inl ⟨rfl, p, rest, rfl, rfl⟩
      | connected =>
          right
          refine ⟨p, rest, .kConnecting, true, rfl, by simp, ?_⟩
          simp only
          cases u.insertPeer p <;> rfl
      | failed =>
          right
          refine ⟨p, rest, .kReconnecting, false, rfl, by simp, ?_⟩
          simp only
          cases u.insertPeer p <;> rfl

/-- A property of operations that came back is one of events. -/
theorem orUnchanged_of {P : Universe → Prop} {u : Universe} {r : Except Fault Universe}
    (hu : P u) (h : ∀ u', r = .ok u' → P u') : P (u.orUnchanged r) := by
  cases r with
  | error e => exact hu
  | ok u' => exact h u' rfl

theorem cleanupPeers_of {P : Universe → Prop} {u : Universe} (hu : P u)
    (h : ∀ u i, P u → P (u.removePeer i)) : P u.cleanupPeers := by
  unfold cleanupPeers
  generalize List.range u.peers.length = slots
  induction slots generalizing u with
  | nil => exact hu
  | cons i slots ih => exact ih (h u i hu)

theorem getElem?_setMaxConnections {u : Universe} {m i : Nat} {p : PeerRef} :
    (u.setMaxConnections m).peers[i]? = some (some p) ↔
      u.peers[i]? = some (some p) ∧ i < m := by
  simp only [setMaxConnections, List.getElem?_append, List.getElem?_take, List.length_take,
    List.getElem?_replicate]
  split_ifs with h₁ h₂ h₃
  · simp [h₂]
  · omega
  · rw [List.getElem?_eq_none (by omega)]
    simp
  · simp only [false_iff, not_and, not_lt]
    intro hi
    have := (List.getElem?_eq_some_iff.mp hi).1
    omega

/-- Slots and keys are right in every run. -/
structure Numbered (u : Universe) : Prop where
  slots : u.SlotIds
  keys : u.Keyed

theorem numbered_empty (n : Nat) (store : PeerRef → Peer) : (empty n store).Numbered where
  slots := slotIds_empty n store
  keys := by
    intro k id i h
    cases h

/-- A handshake renames the peer, and adds an entry for the new id if it is registered. -/
theorem completeHandshake_cases (u : Universe) (p : PeerRef) (pid : UUID) :
    ∃ store, (∀ q, q ≠ p → store q = u.store q) ∧ (store p).id = pid ∧
      (store p).uri = (u.store p).uri ∧ (store p).localId = (u.store p).localId ∧
      ((u.isRegistered p = false ∧ u.completeHandshake p pid = { u with store := store }) ∨
        u.isRegistered p = true ∧ u.completeHandshake p pid = { u with
          store := store
          peerIds := u.setPeerId pid (u.store p).localId.toNat }) := by
  refine ⟨Function.update u.store p { u.store p with id := pid, status := .kConnected },
    fun q hq => Function.update_of_ne hq _ _, by simp, by simp, by simp, ?_⟩
  cases hreg : u.isRegistered p with
  | false =>
      left
      exact ⟨rfl, if_neg (Bool.not_eq_true _ ▸ hreg)⟩
  | true =>
      right
      refine ⟨rfl, (if_pos hreg).trans ?_⟩
      simp [setPeerId]

/-- A handshake moves nobody. -/
theorem completeHandshake_peers (u : Universe) (p : PeerRef) (pid : UUID) :
    (u.completeHandshake p pid).peers = u.peers ∧
      (u.completeHandshake p pid).reconnects = u.reconnects := by
  obtain ⟨store, -, -, -, -, ⟨-, heq⟩ | ⟨-, heq⟩⟩ := u.completeHandshake_cases p pid
  · rw [heq]
    exact ⟨rfl, rfl⟩
  · rw [heq]
    exact ⟨rfl, rfl⟩

theorem SlotIds.completeHandshake {u : Universe} (hu : u.SlotIds) (p : PeerRef) (pid : UUID) :
    (u.completeHandshake p pid).SlotIds := by
  obtain ⟨store, hother, -, -, hlocal, h⟩ := u.completeHandshake_cases p pid
  have hslots : SlotIds { u with store := store } := by
    intro i q hq
    by_cases hqp : q = p
    · subst hqp
      exact hlocal.trans (hu i q hq)
    · simpa [hother q hqp] using hu i q hq
  rcases h with ⟨-, heq⟩ | ⟨-, heq⟩
  · rw [heq]
    exact hslots
  · rw [heq]
    exact hslots

theorem Numbered.completeHandshake {u : Universe} (hu : u.Numbered) (p : PeerRef) (pid : UUID) :
    (u.completeHandshake p pid).Numbered := by
  refine ⟨hu.slots.completeHandshake p pid, ?_⟩
  obtain ⟨store, -, -, -, -, ⟨-, heq⟩ | ⟨-, heq⟩⟩ := u.completeHandshake_cases p pid
  · rw [heq]
    exact hu.keys
  · rw [heq]
    intro k id i hk
    exact hu.keys.setPeerId _ _ hk

theorem Numbered.insertPeer {u u' : Universe} {p : PeerRef} (hu : u.Numbered)
    (h : u.insertPeer p = .ok u') : u'.Numbered :=
  ⟨hu.slots.insertPeer h, hu.keys.insertPeer h⟩

theorem Numbered.handle {u : Universe} (hu : u.Numbered) (e : RegistryEvent) :
    (u.handle e).Numbered := by
  cases e with
  | insert p => exact orUnchanged_of hu fun u' h => hu.insertPeer h
  | handshake p pid => exact hu.completeHandshake p pid
  | status p status isValid => exact ⟨hu.slots.setStatus p status isValid, hu.keys⟩
  | remove i => exact ⟨hu.slots.removePeer i, hu.keys.removePeer i⟩
  | cleanup =>
      exact cleanupPeers_of hu fun u i hu => ⟨hu.slots.removePeer i, hu.keys.removePeer i⟩
  | reconnect outcome =>
      rw [Universe.handle]
      rcases u.reconnectNext_cases outcome with ⟨-, heq⟩ | ⟨-, p, rest, -, heq⟩ |
        ⟨p, rest, status, isValid, -, -, heq⟩
      · rwa [heq]
      · rw [heq]
        exact ⟨hu.slots, hu.keys⟩
      · rw [heq]
        cases h : u.insertPeer p with
        | error f => exact hu
        | ok u' =>
            have hu' := hu.insertPeer h
            exact ⟨hu'.slots.setStatus p status isValid, hu'.keys⟩
  | setMax m =>
      refine ⟨?_, hu.keys⟩
      intro i p hp
      exact hu.slots i p (getElem?_setMaxConnections.mp hp).1

/-! ## §3  Which steps keep the maps right -/

theorem consistent_empty (n : Nat) (store : PeerRef → Peer) : (empty n store).Consistent where
  ids := by
    intro k id i h
    cases h
  uris := by
    intro uri i h
    cases h
  count := by simp [empty, List.countP_replicate]

theorem isRegistered_iff {u : Universe} {p : PeerRef} :
    u.isRegistered p = true ↔ ∃ i : Nat, u.peers[i]? = some (some p) := by
  simp only [isRegistered, decide_eq_true_eq, List.mem_iff_getElem?]

theorem isRegistered_set_some {l : List (Option PeerRef)} {i : Nat} {p q : PeerRef}
    (h : l[i]? = some none) (hqp : q ≠ p) :
    (some q ∈ l.set i (some p)) ↔ some q ∈ l := by
  simp only [List.mem_iff_getElem?]
  constructor
  · rintro ⟨j, hj⟩
    rw [List.getElem?_set] at hj
    split_ifs at hj with hij
    · simp only [Option.some.injEq] at hj
      exact absurd hj.symm hqp
    · exact ⟨j, hj⟩
  · rintro ⟨j, hj⟩
    have hij : i ≠ j := by
      rintro rfl
      rw [h] at hj
      cases hj
    exact ⟨j, by rw [List.getElem?_set_ne hij, hj]⟩

/-- A registration concerns one peer. -/
theorem insertPeer_isRegistered {u u' : Universe} {p q : PeerRef} (h : u.insertPeer p = .ok u')
    (hqp : q ≠ p) : u'.isRegistered q = u.isRegistered q := by
  rcases insertPeer_cases h with ⟨-, rfl⟩ | ⟨i, -, -, hfree, rfl⟩
  · rfl
  · exact decide_eq_decide.mpr (isRegistered_set_some hfree hqp)

/-- The maps look only at the id and the URI of registered peers. -/
theorem Consistent.withStore {u : Universe} (hu : u.Consistent) {store : PeerRef → Peer}
    (hstore : ∀ (i : Nat) (q : PeerRef), u.peers[i]? = some (some q) →
      (store q).id = (u.store q).id ∧ (store q).uri = (u.store q).uri) :
    Consistent { u with store := store } where
  ids := by
    intro k id i hk
    obtain ⟨q, hq, hid⟩ := hu.ids k id i hk
    exact ⟨q, hq, (hstore i q hq).1.trans hid⟩
  uris := by
    intro uri i hk
    obtain ⟨q, hq, huri⟩ := hu.uris uri i hk
    exact ⟨q, hq, (hstore i q hq).2.trans huri⟩
  count := hu.count

theorem consistent_setStatus {u : Universe} {p : PeerRef} {status : NodeStatus} {isValid : Bool} :
    (u.setStatus p status isValid).Consistent ↔ u.Consistent := by
  have hsame : ∀ q, ((u.setStatus p status isValid).store q).id = (u.store q).id ∧
      ((u.setStatus p status isValid).store q).uri = (u.store q).uri := by
    intro q
    by_cases hq : q = p
    · subst hq
      simp [setStatus]
    · simp [setStatus, hq]
  constructor
  · intro h
    exact Consistent.withStore h fun _ q _ => ⟨(hsame q).1.symm, (hsame q).2.symm⟩
  · intro h
    exact h.withStore fun _ q _ => hsame q

theorem countP_set_some {l : List (Option PeerRef)} {i : Nat} {p : PeerRef}
    (h : l[i]? = some none) :
    (l.set i (some p)).countP Option.isSome = l.countP Option.isSome + 1 := by
  obtain ⟨hi, hget⟩ := List.getElem?_eq_some_iff.mp h
  rw [List.countP_set hi]
  simp [hget]

theorem countP_set_none {l : List (Option PeerRef)} {i : Nat} {p : PeerRef}
    (h : l[i]? = some (some p)) :
    (l.set i none).countP Option.isSome + 1 = l.countP Option.isSome := by
  obtain ⟨hi, hget⟩ := List.getElem?_eq_some_iff.mp h
  have hpos : 0 < l.countP Option.isSome :=
    List.countP_pos_iff.mpr ⟨some p, List.mem_of_getElem? h, rfl⟩
  rw [List.countP_set hi]
  simp only [hget, Option.isSome_some, Option.isSome_none, if_true]
  simp
  omega

/-- An entry of the changed slot's peer is right by the hypothesis, the others stay so. -/
theorem consistent_insertPeer {u u' : Universe} {p : PeerRef} (hu : u.Consistent)
    (h : u.insertPeer p = .ok u') : u'.Consistent ↔ u.SafeInsert p := by
  rcases insertPeer_cases h with ⟨hreg, rfl⟩ | ⟨i, hfree, hreg, hnone, rfl⟩
  · refine ⟨fun _ hnot => ?_, fun _ => hu⟩
    rw [hreg] at hnot
    cases hnot
  · have hi : i < u.peers.length := (List.getElem?_eq_some_iff.mp hnone).1
    obtain ⟨id', hself, howned, -, hback⟩ := u.setPeerId_self (u.store p).id i
    -- what led to another slot still does
    have hkeep : ∀ j q, u.peers[j]? = some (some q) → i ≠ j ∧ q ≠ p := by
      intro j q hq
      constructor
      · rintro rfl
        rw [hnone] at hq
        cases hq
      · rintro rfl
        rw [isRegistered_iff.mpr ⟨j, hq⟩] at hreg
        cases hreg
    constructor
    · intro hc _ _
      obtain ⟨q, hq, hid⟩ := hc.ids _ _ _ hself
      simp only [List.getElem?_set_self hi, Option.some.injEq] at hq
      subst hq
      apply hback
      simpa using hid.symm
    · intro hsafe
      have hid' := howned (hsafe hreg (by simp [hfree]))
      refine ⟨?_, ?_, ?_⟩
      · intro k id j hk
        by_cases hkey : k = (u.store p).id.key
        · subst hkey
          simp only at hk
          rw [hself] at hk
          cases hk
          exact ⟨p, by simp [List.getElem?_set_self hi], by simp [hid']⟩
        · simp only [u.setPeerId_ne _ _ hkey] at hk
          obtain ⟨q, hq, hqid⟩ := hu.ids k id j hk
          obtain ⟨hij, hqp⟩ := hkeep j q hq
          exact ⟨q, by simp [List.getElem?_set_ne hij, hq], by simp [hqp, hqid]⟩
      · intro uri j hk
        by_cases huri : uri = (u.store p).uri
        · subst huri
          simp only [AList.lookup_insert, Option.some.injEq] at hk
          subst hk
          exact ⟨p, by simp [List.getElem?_set_self hi], by simp⟩
        · simp only [AList.lookup_insert_ne huri] at hk
          obtain ⟨q, hq, hquri⟩ := hu.uris uri j hk
          obtain ⟨hij, hqp⟩ := hkeep j q hq
          exact ⟨q, by simp [List.getElem?_set_ne hij, hq], by simp [hqp, hquri]⟩
      · simp only [countP_set_some hnone, hu.count]
        push_cast
        rfl

/-- A peer sits in one slot. -/
theorem SlotIds.unique {u : Universe} (hu : u.SlotIds) {i j : Nat} {p : PeerRef}
    (hi : u.peers[i]? = some (some p)) (hj : u.peers[j]? = some (some p)) : i = j := by
  have h := (hu i p hi).symm.trans (hu j p hj)
  exact_mod_cast h

/-- Right maps after the handshake of the peer in slot `i` say what was in them before. -/
theorem Consistent.of_setPeerId {u : Universe} {store : PeerRef → Peer} {p : PeerRef} {pid : UUID}
    {i : Nat} (hc : ({ u with store := store, peerIds := u.setPeerId pid i }).Consistent)
    (hi : u.peers[i]? = some (some p)) (hpid : (store p).id = pid) :
    (∀ k id, u.peerIds k = some (id, i) → id = pid) ∧ u.Owned pid := by
  obtain ⟨id', hself, -, -, hback⟩ := u.setPeerId_self pid i
  -- an entry for the slot is one for the id announced
  have hentry : ∀ k id, u.setPeerId pid i k = some (id, i) → id = pid := by
    intro k id hk
    obtain ⟨q, hq, hid⟩ := hc.ids k id i hk
    simp only at hq hid
    rw [hi] at hq
    cases hq
    exact hid.symm.trans hpid
  have hown : u.Owned pid := hback (hentry _ _ hself)
  refine ⟨?_, hown⟩
  intro k id hk
  by_cases hkey : k = pid.key
  · subst hkey
    exact hown id i hk
  · apply hentry k id
    rwa [u.setPeerId_ne _ _ hkey]

theorem Consistent.setPeerId {u : Universe} (hu : u.Consistent) (hnum : u.Numbered)
    {store : PeerRef → Peer} {p : PeerRef} {pid : UUID} {i : Nat}
    (hother : ∀ q, q ≠ p → store q = u.store q) (hpid : (store p).id = pid)
    (huri : (store p).uri = (u.store p).uri) (hi : u.peers[i]? = some (some p))
    (hentries : ∀ k id, u.peerIds k = some (id, i) → id = pid) (hown : u.Owned pid) :
    ({ u with store := store, peerIds := u.setPeerId pid i }).Consistent := by
  obtain ⟨id', hself, howned, -⟩ := u.setPeerId_self pid i
  refine ⟨?_, ?_, hu.count⟩
  · intro k id j hk
    by_cases hkey : k = pid.key
    · subst hkey
      simp only at hk
      rw [hself] at hk
      cases hk
      exact ⟨p, hi, hpid.trans (howned hown).symm⟩
    · simp only [u.setPeerId_ne _ _ hkey] at hk
      obtain ⟨q, hq, hid⟩ := hu.ids k id j hk
      refine ⟨q, hq, ?_⟩
      by_cases hqp : q = p
      · subst hqp
        obtain rfl := hnum.slots.unique hi hq
        exact hpid.trans (hentries k id hk).symm
      · simpa only [hother q hqp] using hid
  · intro uri j hk
    obtain ⟨q, hq, hquri⟩ := hu.uris uri j hk
    refine ⟨q, hq, ?_⟩
    by_cases hqp : q = p
    · subst hqp
      exact huri.trans hquri
    · simpa only [hother q hqp] using hquri

theorem consistent_completeHandshake {u : Universe} (hu : u.Consistent) (hnum : u.Numbered)
    (p : PeerRef) (pid : UUID) :
    (u.completeHandshake p pid).Consistent ↔ u.SafeHandshake p pid := by
  obtain ⟨store, hother, hpid, huri, -, h⟩ := u.completeHandshake_cases p pid
  rcases h with ⟨hreg, heq⟩ | ⟨hreg, heq⟩
  · rw [heq]
    have hnot : ∀ i : Nat, u.peers[i]? ≠ some (some p) := by
      intro i hi
      rw [isRegistered_iff.mpr ⟨i, hi⟩] at hreg
      cases hreg
    refine ⟨fun _ i hi => absurd hi (hnot i), fun _ => ?_⟩
    apply hu.withStore
    intro i q hq
    have hqp : q ≠ p := by
      rintro rfl
      exact hnot i hq
    rw [hother q hqp]
    exact ⟨rfl, rfl⟩
  · obtain ⟨i, hi⟩ := isRegistered_iff.mp hreg
    have hlocal : (u.store p).localId.toNat = i := by rw [hnum.slots i p hi]; rfl
    rw [hlocal] at heq
    rw [heq]
    constructor
    · intro hc j hj
      obtain rfl := hnum.slots.unique hi hj
      exact hc.of_setPeerId hi hpid
    · intro hsafe
      obtain ⟨hentries, hown⟩ := hsafe i hi
      exact hu.setPeerId hnum hother hpid huri hi hentries hown

/-- With the maps right, the one entry by URI that leads to a peer is erased. -/
theorem Consistent.lookup_eraseUri {u : Universe} (hu : u.Consistent) {p : PeerRef} {uri : String}
    {i : Nat} (h : (u.eraseUri p).lookup uri = some i) :
    u.peerByUri.lookup uri = some i ∧ u.peers[i]? ≠ some (some p) := by
  -- every key that leads to `p` is the URI of `p`
  have hkey : ∀ k j, u.peerByUri.lookup k = some j → u.peers[j]? = some (some p) →
      k = (u.store p).uri := by
    intro k j hk hj
    obtain ⟨q, hq, huri⟩ := hu.uris k j hk
    rw [hj] at hq
    cases hq
    exact huri.symm
  unfold eraseUri at h
  split at h
  · rename_i hnone
    refine ⟨h, ?_⟩
    intro hi
    have hmem : uri ∈ u.peerByUri.keys :=
      AList.mem_keys.mp (AList.lookup_isSome.mp (by rw [h]; rfl))
    have := List.find?_eq_none.mp hnone uri hmem
    simp [h, hi] at this
  · rename_i k hsome
    have hk := List.find?_some hsome
    simp only [Option.any_eq_true, decide_eq_true_eq] at hk
    obtain ⟨j, hj, hp⟩ := hk
    by_cases huk : uri = k
    · subst huk
      rw [AList.lookup_erase] at h
      cases h
    · rw [AList.lookup_erase_ne huk] at h
      refine ⟨h, ?_⟩
      intro hi
      exact huk ((hkey uri i h hi).trans (hkey k j hj hp).symm)

theorem Consistent.removePeer {u : Universe} (hu : u.Consistent) (hkeys : u.Keyed) (i : Nat) :
    (u.removePeer i).Consistent := by
  rcases u.removePeer_cases i with heq | ⟨p, reconnects, garbage, hp, heq⟩
  · rwa [heq]
  · rw [heq]
    -- a slot that some other peer sits in is not the one emptied
    have hkeep : ∀ (j : Nat) (q : PeerRef), u.peers[j]? = some (some q) → q ≠ p →
        (u.peers.set i none)[j]? = some (some q) := by
      intro j q hq hqp
      have hij : i ≠ j := by
        rintro rfl
        rw [hp] at hq
        cases hq
        exact hqp rfl
      rw [List.getElem?_set_ne hij, hq]
    refine ⟨?_, ?_, ?_⟩
    · intro k id j hk
      simp only [Function.update_apply] at hk
      split_ifs at hk with hkey
      obtain ⟨q, hq, hid⟩ := hu.ids k id j hk
      refine ⟨q, hkeep j q hq ?_, hid⟩
      rintro rfl
      apply hkey
      rw [hid]
      exact (hkeys k id j hk).symm
    · intro uri j hk
      obtain ⟨hlookup, hne⟩ := hu.lookup_eraseUri hk
      obtain ⟨q, hq, huri⟩ := hu.uris uri j hlookup
      refine ⟨q, hkeep j q hq ?_, huri⟩
      rintro rfl
      exact hne hq
    · have := countP_set_none hp
      simp only [hu.count]
      omega

/-- Slots that are cut off stay counted. -/
theorem consistent_setMaxConnections {u : Universe} (hu : u.Consistent) (m : Nat) :
    (u.setMaxConnections m).Consistent ↔ u.SafeResize m := by
  have hcount : (u.setMaxConnections m).peers.countP Option.isSome +
      (u.peers.drop m).countP Option.isSome = u.peers.countP Option.isSome := by
    simp only [setMaxConnections, List.countP_append, List.countP_replicate]
    rw [if_neg (by simp), Nat.add_zero, ← List.countP_append, List.take_append_drop]
  constructor
  · intro hc i p hp
    by_contra hge
    have hmem : some p ∈ u.peers.drop m := by
      apply List.mem_of_getElem? (i := i - m)
      rw [List.getElem?_drop, Nat.add_sub_cancel' (by omega), hp]
    have hpos : 0 < (u.peers.drop m).countP Option.isSome :=
      List.countP_pos_iff.mpr ⟨some p, hmem, rfl⟩
    have hnew := hc.count
    have hold := hu.count
    simp only [setMaxConnections] at hnew hcount
    omega
  · intro hsafe
    have hdrop : (u.peers.drop m).countP Option.isSome = 0 := by
      rw [List.countP_eq_zero]
      intro o ho hsome
      obtain ⟨p, rfl⟩ := Option.isSome_iff_exists.mp hsome
      obtain ⟨j, hj⟩ := List.mem_iff_getElem?.mp ho
      rw [List.getElem?_drop] at hj
      have := hsafe _ p hj
      omega
    refine ⟨?_, ?_, ?_⟩
    · intro k id i hk
      obtain ⟨p, hp, hid⟩ := hu.ids k id i hk
      exact ⟨p, getElem?_setMaxConnections.mpr ⟨hp, hsafe i p hp⟩, hid⟩
    · intro uri i hk
      obtain ⟨p, hp, huri⟩ := hu.uris uri i hk
      exact ⟨p, getElem?_setMaxConnections.mpr ⟨hp, hsafe i p hp⟩, huri⟩
    · rw [hdrop, Nat.add_zero] at hcount
      rw [hcount]
      exact hu.count

theorem consistent_handle {u : Universe} (hu : u.Consistent) (hnum : u.Numbered)
    (e : RegistryEvent) : (u.handle e).Consistent ↔ u.Safe e := by
  -- an insertion that throws is safe, since there was no free slot
  have hinsert : ∀ p, (∀ u', u.insertPeer p ≠ .ok u') → u.SafeInsert p := by
    intro p hthrown hreg hfree
    obtain ⟨i, hi⟩ := Option.ne_none_iff_exists'.mp hfree
    simp [insertPeer, hreg, hi] at hthrown
  cases e with
  | insert p =>
      simp only [handle, Safe]
      cases h : u.insertPeer p with
      | ok u' => exact consistent_insertPeer hu h
      | error f => exact ⟨fun _ => hinsert p (by simp [h]), fun _ => hu⟩
  | handshake p pid => exact consistent_completeHandshake hu hnum p pid
  | status p status isValid =>
      exact ⟨fun _ => trivial, fun _ => consistent_setStatus.mpr hu⟩
  | remove i => exact ⟨fun _ => trivial, fun _ => hu.removePeer hnum.keys i⟩
  | cleanup =>
      refine ⟨fun _ => trivial, fun _ => ?_⟩
      have hboth : Consistent u.cleanupPeers ∧ Keyed u.cleanupPeers :=
        cleanupPeers_of (P := fun u => u.Consistent ∧ u.Keyed) ⟨hu, hnum.keys⟩
          fun u i h => ⟨h.1.removePeer h.2 i, h.2.removePeer i⟩
      exact hboth.1
  | reconnect outcome =>
      simp only [handle, Safe]
      rcases u.reconnectNext_cases outcome with ⟨hq, heq⟩ | ⟨hself, p, rest, -, heq⟩ |
        ⟨p, rest, status, isValid, hq, hne, heq⟩
      · rw [heq, hq]
        exact ⟨fun _ => by simp, fun _ => hu⟩
      · rw [heq]
        exact ⟨fun _ => .inl hself, fun _ => ⟨hu.ids, hu.uris, hu.count⟩⟩
      · have hsafe : (outcome = .selfConnect ∨ ∀ q, u.reconnects.head? = some q → u.SafeInsert q) ↔
            u.SafeInsert p := by
          simp [hne, hq]
        rw [heq, hsafe]
        cases h : u.insertPeer p with
        | error f => exact ⟨fun _ => hinsert p (by simp [h]), fun _ => hu⟩
        | ok u' =>
            rw [← consistent_insertPeer hu h, ← consistent_setStatus (u := u') (p := p)]
            exact ⟨fun hc => ⟨hc.ids, hc.uris, hc.count⟩, fun hc => ⟨hc.ids, hc.uris, hc.count⟩⟩
  | setMax m => exact consistent_setMaxConnections hu m

/-! ## §4  Over whole runs -/

/-- A step that keeps the maps right. -/
def SafeStep (u : Universe) (e : RegistryEvent) (u' : Universe) : Prop :=
  u.Safe e ∧ u' = u.handle e

/-- **A run of safe steps keeps the maps right**, and from every state it reaches exactly the
safe steps do so. -/
theorem registry_consistent {n : Nat} {store : PeerRef → Peer} {es : List RegistryEvent}
    {u : Universe} (run : Runs SafeStep (empty n store) es u) :
    u.Consistent ∧ ∀ e, (u.handle e).Consistent ↔ u.Safe e := by
  have hinv : u.Consistent ∧ u.Numbered := by
    apply run.invariant (I := fun u => u.Consistent ∧ u.Numbered)
    · exact ⟨consistent_empty n store, numbered_empty n store⟩
    · rintro u e _ ⟨hu, hnum⟩ ⟨hsafe, rfl⟩
      exact ⟨(consistent_handle hu hnum e).mpr hsafe, hnum.handle e⟩
  exact ⟨hinv.1, consistent_handle hinv.1 hinv.2⟩

/-- Two slots, and peers that have not met anyone yet. -/
def newPeers : PeerRef → Peer := fun p =>
  { id := .fill (p + 1).toUInt8, uri := "tcp://10.0.0.1:9000", status := .kConnecting
    isValid := true, isTcp := true, localId := p }

/-- Two peers are registered, the first of them after its handshake, which comes once more; the
second one is lost and comes back. -/
theorem registry_consistent_first : ∃ es u,
    es = [.handshake 0 (.fill 9), .insert 0, .handshake 0 (.fill 9), .insert 1,
      .status 1 .kReconnecting false, .cleanup, .reconnect .connected] ∧
      Runs SafeStep (empty 2 newPeers) es u ∧ u.peers = [some 0, some 1] ∧ u.Consistent := by
  have hsafe : ∀ {u : Universe} {e : RegistryEvent}, u.Safe e → SafeStep u e (u.handle e) :=
    fun h => ⟨h, rfl⟩
  have hearly : (empty 2 newPeers).Safe (.handshake 0 (.fill 9)) := by
    intro i hi
    match i with
    | 0 => cases hi
    | 1 => cases hi
    | i + 2 => cases hi
  have hfirst : ((empty 2 newPeers).handle (.handshake 0 (.fill 9))).Safe (.insert 0) :=
    fun _ _ id i h => by cases h
  have run₂ := ((Runs.init : Runs SafeStep (empty 2 newPeers) [] _).snoc (hsafe hearly)).snoc
    (hsafe hfirst)
  set u₂ := ((empty 2 newPeers).handle (.handshake 0 (.fill 9))).handle (.insert 0) with hu₂
  have hids : u₂.peerIds = Function.update (fun _ => none) (UUID.fill 9).key (some (.fill 9, 0)) :=
    rfl
  have hagain : u₂.Safe (.handshake 0 (.fill 9)) := by
    refine fun i _ => ⟨fun k id hk => ?_, fun id j hj => ?_⟩
    · rw [hids, Function.update_apply] at hk
      split_ifs at hk
      cases hk
      rfl
    · rw [hids, Function.update_self] at hj
      cases hj
      rfl
  -- no entry is in the way of the second peer, and none when it comes back
  have hsecond : (u₂.handle (.handshake 0 (.fill 9))).Safe (.insert 1) :=
    fun _ _ id i h => by cases h
  have hback : ((((u₂.handle (.handshake 0 (.fill 9))).handle (.insert 1)).handle
      (.status 1 .kReconnecting false)).handle .cleanup).Safe (.reconnect .connected) := by
    refine .inr fun p hp => ?_
    cases hp
    exact fun _ _ id i h => by cases h
  have run := ((((run₂.snoc (hsafe hagain)).snoc (hsafe hsecond)).snoc
    (hsafe (e := .status 1 .kReconnecting false) trivial)).snoc
    (hsafe (e := .cleanup) trivial)).snoc (hsafe hback)
  exact ⟨_, _, rfl, run, by decide, (registry_consistent run).1⟩

/-- The handshake of a peer that was registered under its provisional id leaves an entry for
this id behind, and removing the peer leaves it too: it leads to an empty slot then. -/
theorem handshake_leaves_old_id :
    ¬ ([.insert 0, .handshake 0 (.fill 9)].foldl handle (empty 2 newPeers)).Consistent ∧
      ¬ ([.insert 0, .handshake 0 (.fill 9), .status 0 .kDisconnected false, .cleanup].foldl
        handle (empty 2 newPeers)).Consistent := by
  constructor
  · intro h
    obtain ⟨p, hp, hid⟩ := h.ids (UUID.fill 1).key (.fill 1) 0 (by decide)
    have hslot : ([.insert 0, .handshake 0 (.fill 9)].foldl handle (empty 2 newPeers)).peers[0]? =
        some (some 0) := by decide
    rw [hslot] at hp
    cases hp
    revert hid
    decide
  · intro h
    obtain ⟨p, hp, -⟩ := h.ids (UUID.fill 1).key (.fill 1) 0 (by decide)
    have hslot : ([.insert 0, .handshake 0 (.fill 9), .status 0 .kDisconnected false,
        .cleanup].foldl handle (empty 2 newPeers)).peers[0]? = some none := by decide
    rw [hslot] at hp
    cases hp

end Universe

end BeyondProtocol
