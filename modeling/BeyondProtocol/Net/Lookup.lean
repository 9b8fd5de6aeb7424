import BeyondProtocol.Net.Registry

/-!
# Looking up a peer by its id (`universe.cpp`)

A node may hold several connections to another one, and all of them announce the
same id. `peer_ids_` has one entry for the id: the last of the connections to be
registered or notified owns it, and the first to be removed erases it. This file
says which steps leave `getPeer(const UUID &)` with an answer as long as a
connection is up, and that all others do not.

A handshake takes two steps, since other threads may run between the change of
the peer and the call of `notifyConnect_`.
-/

namespace BeyondProtocol

namespace Universe

open Framework

/-! ## §1  Connections coming and going -/

/-- `process_handshake_` up to the call of `notifyConnect_`. -/
def announce (u : Universe) (p : PeerRef) (pid : UUID) : Universe :=
  { u with store :=
      Function.update u.store p { u.store p with id := pid, status := .kConnected } }

/-- The entry under a key leads to the peer. -/
def Leads (u : Universe) (k : List UInt8) (p : PeerRef) : Prop :=
  ∃ id i, u.peerIds k = some (id, i) ∧ u.peers[i]? = some (some p)

theorem getPeerById_eq_some {u : Universe} {id : UUID} {p : PeerRef} :
    u.getPeerById id = .ok (some p) ↔ u.Leads id.key p := by
  unfold getPeerById Leads
  cases hk : u.peerIds id.key with
  | none => simp
  | some e =>
      obtain ⟨id', i⟩ := e
      simp only [Option.some.injEq, Prod.mk.injEq]
      constructor
      · intro h
        refine ⟨id', i, ⟨rfl, rfl⟩, ?_⟩
        cases hi : u.peers[i]? with
        | none =>
            rw [hi] at h
            cases h
        | some o =>
            rw [hi] at h
            cases h
            rfl
      · rintro ⟨_, _, ⟨rfl, rfl⟩, hi⟩
        rw [hi]

theorem Leads.unique {u : Universe} {k : List UInt8} {p q : PeerRef} (hp : u.Leads k p)
    (hq : u.Leads k q) : p = q := by
  obtain ⟨id, i, hk, hi⟩ := hp
  obtain ⟨id', j, hk', hj⟩ := hq
  rw [hk] at hk'
  cases hk'
  rw [hi] at hj
  cases hj
  rfl

/-- The registry, and the peers `notifyConnect_` has run for since they were announced. -/
structure Links where
  net : Universe
  notified : PeerRef → Bool

inductive LinkEvent : Type where
  /-- `insertPeer_`, of a new peer or of one that waits for a reconnect. -/
  | connect (p : PeerRef)
  | announce (p : PeerRef) (pid : UUID)
  | notify (p : PeerRef)
  | status (p : PeerRef) (status : NodeStatus) (isValid : Bool)
  /-- `removePeer_`, a turn of the loop of `_cleanupPeers`. -/
  | remove (i : Nat)
deriving DecidableEq, Repr

namespace Links

def start (n : Nat) (store : PeerRef → Peer) : Links where
  net := empty n store
  notified := fun _ => false

def peer (s : Links) (p : PeerRef) : Peer := s.net.store p

def handle (s : Links) : LinkEvent → Links
  | .connect p => { s with net := s.net.orUnchanged (s.net.insertPeer p) }
  | .announce p pid =>
      { net := s.net.announce p pid
        notified := Function.update s.notified p false }
  | .notify p =>
      { net := s.net.notifyConnect p
        notified := if s.net.isRegistered p then Function.update s.notified p true
          else s.notified }
  | .status p status isValid =>
      { s with net := s.net.setStatus p status isValid }
  | .remove i => { s with net := s.net.removePeer i }

/-- Only a handshake makes a peer connected. -/
def Possible (s : Links) : LinkEvent → Prop
  | .status p status _ => status = .kConnected → (s.peer p).status = .kConnected
  | _ => True

/-- A peer that is up, and whose handshake was notified. -/
structure Live (s : Links) (p : PeerRef) : Prop where
  registered : s.net.isRegistered p = true
  connected : (s.peer p).status = .kConnected
  notified : s.notified p = true

/-- The id of every peer that is up leads to a peer that is up and has this id. -/
def FindsLive (s : Links) : Prop :=
  ∀ id p, s.Live p → (s.peer p).id = id →
    ∃ q, s.net.getPeerById id = .ok (some q) ∧ (s.peer q).status = .kConnected ∧
      (s.peer q).id = id

theorem findsLive_iff {s : Links} : s.FindsLive ↔ ∀ p, s.Live p →
    ∃ q, s.net.Leads (s.peer p).id.key q ∧ (s.peer q).status = .kConnected ∧
      (s.peer q).id = (s.peer p).id := by
  constructor
  · intro h p hp
    obtain ⟨q, hq, hup, hid⟩ := h _ p hp rfl
    exact ⟨q, getPeerById_eq_some.mp hq, hup, hid⟩
  · rintro h _ p hp rfl
    obtain ⟨q, hq, hup, hid⟩ := h p hp
    exact ⟨q, getPeerById_eq_some.mpr hq, hup, hid⟩

/-! ## §2  The steps that keep live peers findable -/

/-- Whoever else is up under the key of the peer has its id, and the peer is up too. -/
def MayEnter (s : Links) (p : PeerRef) : Prop :=
  ∀ q, s.Live q → q ≠ p → (s.peer q).id.key = (s.peer p).id.key →
    (s.peer p).status = .kConnected ∧ (s.peer p).id = (s.peer q).id

/-- The peer stands for another one that is up: the entry for the id leads to it. -/
def StandsFor (s : Links) (p q : PeerRef) : Prop :=
  s.Live q ∧ q ≠ p ∧ s.net.Leads (s.peer q).id.key p

def Safe (s : Links) : LinkEvent → Prop
  | .connect p =>
      s.net.isRegistered p = false → s.net.freeSlot ≠ none → s.MayEnter p
  | .announce p pid => ∀ q, s.StandsFor p q → pid = (s.peer q).id
  | .notify p => s.net.isRegistered p = true → s.MayEnter p
  | .status p status _ => status ≠ .kConnected → ∀ q, ¬ s.StandsFor p q
  | .remove i =>
      ∀ p, s.net.peers[i]? = some (some p) → isGone (s.peer p) = true →
        ∀ q, s.Live q → q ≠ p → (s.peer q).id.key ≠ (s.peer p).id.key

/-- What an entry for a peer does: it takes over the key of its id. -/
structure Enters (s : Links) (p : PeerRef) (s' : Links) : Prop where
  own : s'.net.Leads (s.peer p).id.key p
  keep : ∀ k q, k ≠ (s.peer p).id.key → s.net.Leads k q → s'.net.Leads k q
  same : ∀ q, (s'.peer q).id = (s.peer q).id ∧ (s'.peer q).status = (s.peer q).status
  others : ∀ q, q ≠ p → (s'.Live q ↔ s.Live q)

theorem Enters.findsLive_iff {s s' : Links} {p : PeerRef} (h : s.Enters p s')
    (hs : s.FindsLive) : s'.FindsLive ↔ s.MayEnter p := by
  rw [Links.findsLive_iff] at hs ⊢
  constructor
  · intro hs' q hq hqp hkey
    obtain ⟨r, hr, hup, hid⟩ := hs' q ((h.others q hqp).mpr hq)
    rw [(h.same q).1, hkey] at hr
    obtain rfl := hr.unique h.own
    rw [(h.same r).2] at hup
    rw [(h.same r).1, (h.same q).1] at hid
    exact ⟨hup, hid⟩
  · intro hmay q hq
    rw [(h.same q).1]
    by_cases hqp : q = p
    · subst hqp
      exact ⟨q, h.own, hq.connected, (h.same q).1⟩
    · have hlive := (h.others q hqp).mp hq
      by_cases hkey : (s.peer q).id.key = (s.peer p).id.key
      · obtain ⟨hup, hid⟩ := hmay q hlive hqp hkey
        refine ⟨p, hkey ▸ h.own, (h.same p).2.trans hup, (h.same p).1.trans hid⟩
      · obtain ⟨r, hr, hup, hid⟩ := hs q hlive
        exact ⟨r, h.keep _ r hkey hr, (h.same r).2.trans hup, (h.same r).1.trans hid⟩

/-- What a change of one peer does: the entries stay, and it does not come up by it. -/
structure Alters (s : Links) (p : PeerRef) (s' : Links) : Prop where
  leads : ∀ k q, s'.net.Leads k q ↔ s.net.Leads k q
  same : ∀ q, q ≠ p → s'.peer q = s.peer q
  others : ∀ q, q ≠ p → (s'.Live q ↔ s.Live q)
  own : s'.Live p → s.Live p ∧ (s'.peer p).id = (s.peer p).id

theorem Alters.findsLive_iff {s s' : Links} {p : PeerRef} (h : s.Alters p s')
    (hs : s.FindsLive) : s'.FindsLive ↔ ∀ q, s.StandsFor p q →
      (s'.peer p).status = .kConnected ∧ (s'.peer p).id = (s.peer q).id := by
  rw [Links.findsLive_iff] at hs ⊢
  constructor
  · rintro hs' q ⟨hq, hqp, hlead⟩
    obtain ⟨r, hr, hup, hid⟩ := hs' q ((h.others q hqp).mpr hq)
    rw [h.same q hqp, h.leads] at hr
    obtain rfl := hr.unique hlead
    rw [h.same q hqp] at hid
    exact ⟨hup, hid⟩
  · intro hstands q hq
    by_cases hqp : q = p
    · subst hqp
      obtain ⟨hlive, hid⟩ := h.own hq
      obtain ⟨r, hr, hup, hrid⟩ := hs q hlive
      refine ⟨r, ?_, ?_⟩
      · rw [hid]
        exact (h.leads _ r).mpr hr
      · by_cases hrq : r = q
        · subst hrq
          exact ⟨hq.connected, rfl⟩
        · rw [h.same r hrq, hid]
          exact ⟨hup, hrid⟩
    · have hlive := (h.others q hqp).mp hq
      obtain ⟨r, hr, hup, hid⟩ := hs q hlive
      rw [h.same q hqp]
      refine ⟨r, (h.leads _ r).mpr hr, ?_⟩
      by_cases hrp : r = p
      · subst hrp
        exact hstands q ⟨hlive, hqp, hr⟩
      · rw [h.same r hrp]
        exact ⟨hup, hid⟩

/-- What taking a peer out does: the key of its id leads nowhere. -/
structure Drops (s : Links) (p : PeerRef) (s' : Links) : Prop where
  own : ∀ q, ¬ s'.net.Leads (s.peer p).id.key q
  keep : ∀ k q, k ≠ (s.peer p).id.key → q ≠ p → s.net.Leads k q → s'.net.Leads k q
  same : ∀ q, s'.peer q = s.peer q
  live : ∀ q, s'.Live q ↔ s.Live q ∧ q ≠ p

theorem Drops.findsLive_iff {s s' : Links} {p : PeerRef} (h : s.Drops p s') (hs : s.FindsLive) :
    s'.FindsLive ↔ ∀ q, s.Live q → q ≠ p → (s.peer q).id.key ≠ (s.peer p).id.key := by
  rw [Links.findsLive_iff] at hs ⊢
  constructor
  · intro hs' q hq hqp hkey
    obtain ⟨r, hr, -, -⟩ := hs' q ((h.live q).mpr ⟨hq, hqp⟩)
    rw [h.same, hkey] at hr
    exact h.own r hr
  · intro hkeys q hq
    obtain ⟨hq, hqp⟩ := (h.live q).mp hq
    obtain ⟨r, hr, hup, hid⟩ := hs q hq
    have hkey := hkeys q hq hqp
    have hrp : r ≠ p := by
      rintro rfl
      exact hkey (congrArg UUID.key hid.symm)
    rw [h.same q]
    refine ⟨r, h.keep _ r hkey hrp hr, ?_⟩
    rw [h.same r]
    exact ⟨hup, hid⟩

/-! ## §3  Each step -/

/-- A peer is up if it is so in the slots, in its own state and in the flag. -/
theorem live_congr {s s' : Links} {q : PeerRef}
    (hreg : s'.net.isRegistered q = s.net.isRegistered q)
    (hstatus : (s'.peer q).status = (s.peer q).status) (hflag : s'.notified q = s.notified q) :
    s'.Live q ↔ s.Live q := by
  constructor
  · rintro ⟨h₁, h₂, h₃⟩
    exact ⟨hreg ▸ h₁, hstatus ▸ h₂, hflag ▸ h₃⟩
  · rintro ⟨h₁, h₂, h₃⟩
    exact ⟨hreg.trans h₁, hstatus.trans h₂, hflag.trans h₃⟩

theorem enters_connect {s : Links} {p : PeerRef} {u' : Universe}
    (hreg : s.net.isRegistered p = false) (h : s.net.insertPeer p = .ok u') :
    s.Enters p { s with net := u' } := by
  rcases insertPeer_cases h with ⟨hreg', -⟩ | ⟨i, -, -, hnone, rfl⟩
  · rw [hreg] at hreg'
    cases hreg'
  · have hi : i < s.net.peers.length := (List.getElem?_eq_some_iff.mp hnone).1
    have hsame : ∀ q, (Function.update s.net.store p { s.net.store p with localId := i } q).id =
          (s.net.store q).id ∧
        (Function.update s.net.store p { s.net.store p with localId := i } q).status =
          (s.net.store q).status := by
      intro q
      by_cases hqp : q = p
      · subst hqp
        simp
      · simp [hqp]
    refine ⟨?_, ?_, hsame, ?_⟩
    · obtain ⟨id', hself, -⟩ := s.net.setPeerId_self (s.peer p).id i
      exact ⟨id', i, hself, List.getElem?_set_self hi⟩
    · rintro k q hk ⟨id, j, hj, hq⟩
      have hij : i ≠ j := by
        rintro rfl
        rw [hnone] at hq
        cases hq
      refine ⟨id, j, ?_, ?_⟩
      · exact (s.net.setPeerId_ne _ _ hk).trans hj
      · exact (List.getElem?_set_ne hij).trans hq
    · intro q hqp
      refine live_congr ?_ (hsame q).2 rfl
      exact decide_eq_decide.mpr (isRegistered_set_some hnone hqp)

theorem enters_notify {s : Links} {p : PeerRef} (hslots : s.net.SlotIds)
    (hreg : s.net.isRegistered p = true) : s.Enters p (s.handle (.notify p)) := by
  obtain ⟨i, hi⟩ := isRegistered_iff.mp hreg
  have hlocal : (s.net.store p).localId.toNat = i := by
    rw [hslots i p hi]
    rfl
  have heq : s.handle (.notify p) =
      { net := { s.net with peerIds := s.net.setPeerId (s.peer p).id i }
        notified := Function.update s.notified p true } := by
    rw [handle, notifyConnect, if_pos hreg, if_pos hreg, hlocal]
    rfl
  rw [heq]
  refine ⟨?_, ?_, fun q => ⟨rfl, rfl⟩, ?_⟩
  · obtain ⟨id', hself, -⟩ := s.net.setPeerId_self (s.peer p).id i
    exact ⟨id', i, hself, hi⟩
  · rintro k q hk ⟨id, j, hj, hq⟩
    exact ⟨id, j, (s.net.setPeerId_ne _ _ hk).trans hj, hq⟩
  · intro q hqp
    exact live_congr rfl rfl (Function.update_of_ne hqp _ _)

theorem alters_announce (s : Links) (p : PeerRef) (pid : UUID) :
    s.Alters p (s.handle (.announce p pid)) where
  leads := fun _ _ => Iff.rfl
  same := fun _ hqp => Function.update_of_ne hqp _ _
  others := by
    intro q hqp
    refine live_congr rfl ?_ (Function.update_of_ne hqp _ _)
    exact congrArg Peer.status (Function.update_of_ne hqp _ _)
  own := by
    rintro ⟨-, -, hflag⟩
    simp [handle] at hflag

theorem alters_status {s : Links} {p : PeerRef} {status : NodeStatus} {isValid : Bool}
    (hposs : s.Possible (.status p status isValid)) :
    s.Alters p (s.handle (.status p status isValid)) where
  leads := fun _ _ => Iff.rfl
  same := fun _ hqp => Function.update_of_ne hqp _ _
  others := by
    intro q hqp
    refine live_congr rfl ?_ rfl
    exact congrArg Peer.status (Function.update_of_ne hqp _ _)
  own := by
    rintro ⟨hreg, hup, hflag⟩
    have hstatus : status = .kConnected := by
      simpa [handle, peer, setStatus] using hup
    refine ⟨⟨hreg, hposs hstatus, hflag⟩, ?_⟩
    simp [handle, peer, setStatus]

theorem removePeer_gone {u : Universe} {i : Nat} {p : PeerRef}
    (hp : u.peers[i]? = some (some p)) (hgone : isGone (u.store p) = true) :
    (u.removePeer i).peers = u.peers.set i none ∧ (u.removePeer i).store = u.store ∧
      (u.removePeer i).peerIds = Function.update u.peerIds (u.store p).id.key none := by
  unfold removePeer
  rw [hp]
  simp only [hgone, if_true]
  exact ⟨trivial, trivial, trivial⟩

theorem drops_remove {s : Links} (hslots : s.net.SlotIds) {i : Nat} {p : PeerRef}
    (hp : s.net.peers[i]? = some (some p)) (hgone : isGone (s.peer p) = true) :
    s.Drops p (s.handle (.remove i)) := by
  obtain ⟨hpeers, hstore, hids⟩ := removePeer_gone hp hgone
  -- the others stay in their slots
  have hslot : ∀ (q : PeerRef) (j : Nat), q ≠ p →
      ((s.net.removePeer i).peers[j]? = some (some q) ↔ s.net.peers[j]? = some (some q)) := by
    intro q j hqp
    refine ⟨removePeer_peers, ?_⟩
    intro hj
    have hij : i ≠ j := by
      rintro rfl
      rw [hp] at hj
      cases hj
      exact hqp rfl
    rw [hpeers, List.getElem?_set_ne hij, hj]
  refine ⟨?_, ?_, fun q => congrFun hstore q, ?_⟩
  · rintro q ⟨id, j, hj, -⟩
    have hnone := (congrFun hids (s.peer p).id.key).trans (Function.update_self _ _ _)
    rw [show (s.handle (.remove i)).net.peerIds (s.peer p).id.key = none from hnone] at hj
    cases hj
  · rintro k q hk hqp ⟨id, j, hj, hq⟩
    have hentry := (congrFun hids k).trans (Function.update_of_ne hk _ _)
    exact ⟨id, j, hentry.trans hj, (hslot q j hqp).mpr hq⟩
  · intro q
    by_cases hqp : q = p
    · subst hqp
      simp only [ne_eq, not_true, and_false, iff_false]
      rintro ⟨hreg, -, -⟩
      obtain ⟨j, hj⟩ := isRegistered_iff.mp hreg
      obtain rfl := hslots.unique hp (removePeer_peers hj)
      change (s.net.removePeer i).peers[i]? = _ at hj
      rw [hpeers, List.getElem?_set_self (List.getElem?_eq_some_iff.mp hp).1] at hj
      cases hj
    · rw [and_iff_left hqp]
      refine live_congr ?_ (congrArg Peer.status (congrFun hstore q)) rfl
      rw [Bool.eq_iff_iff, isRegistered_iff, isRegistered_iff]
      exact exists_congr fun j => hslot q j hqp

theorem findsLive_remove {s : Links} (hslots : s.net.SlotIds) (hs : s.FindsLive) (i : Nat) :
    (s.handle (.remove i)).FindsLive ↔ s.Safe (.remove i) := by
  by_cases hgone : ∃ p, s.net.peers[i]? = some (some p) ∧ isGone (s.peer p) = true
  · obtain ⟨p, hp, hgone⟩ := hgone
    rw [(drops_remove hslots hp hgone).findsLive_iff hs]
    constructor
    · intro h p' hp' _
      rw [hp] at hp'
      cases hp'
      exact h
    · intro h
      exact h p hp hgone
  · have hnet : s.net.removePeer i = s.net := by
      unfold removePeer
      split
      · rename_i p hp
        exact if_neg fun h => hgone ⟨p, hp, h⟩
      · rfl
    have hsame : s.handle (.remove i) = s := by
      rw [handle, hnet]
    rw [hsame]
    refine ⟨fun _ p hp h => ?_, fun _ => hs⟩
    exact absurd ⟨p, hp, h⟩ hgone

theorem findsLive_handle {s : Links} (hslots : s.net.SlotIds) (hs : s.FindsLive) {e : LinkEvent}
    (hposs : s.Possible e) : (s.handle e).FindsLive ↔ s.Safe e := by
  cases e with
  | connect p =>
      simp only [handle, Safe]
      cases hreg : s.net.isRegistered p with
      | true =>
          have hok : s.net.insertPeer p = .ok s.net := if_pos hreg
          rw [hok]
          refine ⟨fun _ hnot => ?_, fun _ => hs⟩
          cases hnot
      | false =>
          cases h : s.net.insertPeer p with
          | error f =>
              refine ⟨fun _ _ hfree => ?_, fun _ => hs⟩
              obtain ⟨i, hi⟩ := Option.ne_none_iff_exists'.mp hfree
              simp [insertPeer, hreg, hi] at h
          | ok u' =>
              have hfree : s.net.freeSlot ≠ none := by
                intro hnone
                simp [insertPeer, hreg, hnone] at h
              rw [orUnchanged, (enters_connect hreg h).findsLive_iff hs]
              exact ⟨fun hmay _ _ => hmay, fun hmay => hmay rfl hfree⟩
  | announce p pid =>
      rw [(alters_announce s p pid).findsLive_iff hs]
      simp [Safe, handle, peer, Universe.announce]
  | notify p =>
      cases hreg : s.net.isRegistered p with
      | true =>
          rw [(enters_notify hslots hreg).findsLive_iff hs, Safe, hreg]
          exact ⟨fun hmay _ => hmay, fun hmay => hmay rfl⟩
      | false =>
          have hsame : s.handle (.notify p) = s := by
            simp [handle, notifyConnect, hreg]
          rw [hsame, Safe, hreg]
          refine ⟨fun _ hnot => ?_, fun _ => hs⟩
          cases hnot
  | status p status isValid =>
      rw [(alters_status hposs).findsLive_iff hs, Safe]
      constructor
      · intro h hstatus q hq
        apply hstatus
        simpa [handle, peer, setStatus] using (h q hq).1
      · intro h q hq
        by_cases hstatus : status = .kConnected
        · obtain ⟨r, hr, -, hid⟩ := Links.findsLive_iff.mp hs q hq.1
          obtain rfl := hr.unique hq.2.2
          simpa [handle, peer, setStatus, hstatus] using hid
        · exact absurd hq (h hstatus q)
  | remove i => exact findsLive_remove hslots hs i

/-! ## §4  Over whole runs -/

theorem slotIds_handle {s : Links} (h : s.net.SlotIds) (e : LinkEvent) :
    (s.handle e).net.SlotIds := by
  cases e with
  | connect p => exact orUnchanged_of h fun u' hu' => h.insertPeer hu'
  | announce p pid =>
      intro i q hq
      have hlocal := h i q hq
      by_cases hqp : q = p
      · subst hqp
        simpa [handle, Universe.announce] using hlocal
      · simpa [handle, Universe.announce, hqp] using hlocal
  | notify p =>
      show (s.net.notifyConnect p).SlotIds
      unfold notifyConnect
      split_ifs
      · exact h
      · exact h
  | status p status isValid => exact h.setStatus p status isValid
  | remove i => exact h.removePeer i

def LinkStep (s : Links) (e : LinkEvent) (s' : Links) : Prop :=
  s.Possible e ∧ s' = s.handle e

def SafeLinkStep (s : Links) (e : LinkEvent) (s' : Links) : Prop :=
  s.LinkStep e s' ∧ s.Safe e

/-- **A run of safe steps keeps every live peer findable by its id**, and from every state it
reaches exactly the safe steps do so. -/
theorem lookup_finds_live {n : Nat} {store : PeerRef → Peer} {es : List LinkEvent} {s : Links}
    (run : Runs SafeLinkStep (start n store) es s) :
    s.FindsLive ∧ ∀ e s', s.LinkStep e s' → (s'.FindsLive ↔ s.Safe e) := by
  have hinv : s.FindsLive ∧ s.net.SlotIds := by
    apply run.invariant (I := fun s => s.FindsLive ∧ s.net.SlotIds)
    · refine ⟨?_, slotIds_empty n store⟩
      rintro id p ⟨-, -, hflag⟩
      cases hflag
    · rintro s e _ ⟨hs, hslots⟩ ⟨⟨hposs, rfl⟩, hsafe⟩
      exact ⟨(findsLive_handle hslots hs hposs).mpr hsafe, slotIds_handle hslots e⟩
  refine ⟨hinv.1, ?_⟩
  rintro e _ ⟨hposs, rfl⟩
  exact findsLive_handle hinv.2 hinv.1 hposs

theorem lookup_finds_live_first :
    ∃ s, Runs SafeLinkStep (start 2 newPeers) [.connect 0, .announce 0 (.fill 9), .notify 0] s ∧
      s.Live 0 ∧ s.FindsLive := by
  -- nobody is up before the last step
  have hconnect : (start 2 newPeers).Safe (.connect 0) := by
    rintro _ _ q ⟨-, -, hflag⟩
    cases hflag
  have hannounce : ((start 2 newPeers).handle (.connect 0)).Safe (.announce 0 (.fill 9)) := by
    rintro q ⟨⟨-, -, hflag⟩, -, -⟩
    cases hflag
  have hnotify : (((start 2 newPeers).handle (.connect 0)).handle (.announce 0 (.fill 9))).Safe
      (.notify 0) := by
    rintro _ q ⟨-, -, hflag⟩ hq
    have hnot : Function.update (fun _ : PeerRef => false) 0 false q = false :=
      Function.update_of_ne hq _ _
    exact absurd (hflag.symm.trans hnot) (by decide)
  have run : Runs SafeLinkStep (start 2 newPeers)
      [.connect 0, .announce 0 (.fill 9), .notify 0]
      ([.connect 0, .announce 0 (.fill 9), .notify 0].foldl handle (start 2 newPeers)) :=
    ((Runs.init.snoc ⟨⟨trivial, rfl⟩, hconnect⟩).snoc ⟨⟨trivial, rfl⟩, hannounce⟩).snoc
      ⟨⟨trivial, rfl⟩, hnotify⟩
  exact ⟨_, run, ⟨by decide, by decide, rfl⟩, (lookup_finds_live run).1⟩

/-- Two connections of one node. -/
def twoConnections : Links :=
  [.connect 0, .announce 0 (.fill 9), .notify 0, .connect 1, .announce 1 (.fill 9),
    .notify 1].foldl handle (start 2 newPeers)

theorem twoConnections_runs : Runs LinkStep (start 2 newPeers)
    [.connect 0, .announce 0 (.fill 9), .notify 0, .connect 1, .announce 1 (.fill 9),
      .notify 1] twoConnections :=
  (((((Runs.init.snoc ⟨trivial, rfl⟩).snoc ⟨trivial, rfl⟩).snoc ⟨trivial, rfl⟩).snoc
    ⟨trivial, rfl⟩).snoc ⟨trivial, rfl⟩).snoc ⟨trivial, rfl⟩

/-- The second of the connections goes down: the id leads to the peer that is gone, and to nobody
once it is removed, while the first connection is up all the time. -/
theorem second_connection_hides_first :
    ∃ s s', Runs LinkStep (start 2 newPeers)
        [.connect 0, .announce 0 (.fill 9), .notify 0, .connect 1, .announce 1 (.fill 9),
          .notify 1, .status 1 .kDisconnected false] s ∧
      s.LinkStep (.remove 1) s' ∧ ¬ s.FindsLive ∧ ¬ s'.FindsLive := by
  have hposs : twoConnections.Possible (.status 1 .kDisconnected false) := by
    intro h
    cases h
  refine ⟨_, _, twoConnections_runs.snoc ⟨hposs, rfl⟩, ⟨trivial, rfl⟩, ?_, ?_⟩
  · intro h
    obtain ⟨q, hq, hup, -⟩ := h (.fill 9) 0 ⟨by decide, by decide, rfl⟩ (by decide)
    have hone : (twoConnections.handle (.status 1 .kDisconnected false)).net.getPeerById
        (.fill 9) = .ok (some 1) := by decide
    rw [hone] at hq
    cases hq
    revert hup
    decide
  · intro h
    obtain ⟨q, hq, -, -⟩ := h (.fill 9) 0 ⟨by decide, by decide, rfl⟩ (by decide)
    have hnone : ((twoConnections.handle (.status 1 .kDisconnected false)).handle
        (.remove 1)).net.getPeerById (.fill 9) = .ok none := by decide
    rw [hnone] at hq
    cases hq

end Links

end Universe

end BeyondProtocol
