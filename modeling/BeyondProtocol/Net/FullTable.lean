import BeyondProtocol.Net.Registry

/-!
# A full table of peers (`universe.cpp`)

`insertPeer_` throws when no slot is free. `connect` runs in a thread of the
application, which can catch the exception. An accepted connection and a peer that is
to reconnect are registered by the network thread itself, in `_run` and in
`_periodic`, and there nobody catches it: the exception leaves the thread function
and `std::terminate` is called.
-/

namespace BeyondProtocol

namespace Universe

open Framework

/-- The registry, and whether the network thread still runs. -/
structure Loop where
  net : Universe
  running : Bool := true

inductive LoopEvent : Type where
  /-- `_run` accepts a connection and makes a peer for it. -/
  | accept (p : PeerRef)
  /-- The application calls `connect`; the peer is made unless there is one with its URI. -/
  | connect (p : PeerRef)
  | handshake (p : PeerRef) (pid : UUID)
  | status (p : PeerRef) (status : NodeStatus) (isValid : Bool)
  /-- A turn of the loop of `_cleanupPeers`. -/
  | remove (i : Nat)
  /-- A turn of the loop of `_periodic` over the peers that wait. -/
  | retry (outcome : ReconnectOutcome)
deriving DecidableEq, Repr

namespace Loop

def start (n : Nat) (store : PeerRef → Peer) : Loop where
  net := empty n store

/-- An operation of the network thread: an exception ends the program. -/
def inThread (s : Loop) : Except Fault Universe → Loop
  | .ok u => { s with net := u }
  | .error _ => { s with running := false }

/-- `connect` -/
def connect (s : Loop) (p : PeerRef) : Loop :=
  if (s.net.peerByUri.lookup (s.net.store p).uri).isSome then s
  else { s with net := s.net.orUnchanged (s.net.insertPeer p) }

/-- A step; there is none once the program has ended. -/
def handle (s : Loop) (e : LoopEvent) : Loop :=
  if s.running then
    match e with
    | .accept p => s.inThread (s.net.insertPeer p)
    | .connect p => s.connect p
    | .handshake p pid => { s with net := s.net.completeHandshake p pid }
    | .status p status isValid => { s with net := s.net.setStatus p status isValid }
    | .remove i => { s with net := s.net.removePeer i }
    | .retry outcome => s.inThread (s.net.reconnectNext outcome)
  else s

/-- The peer of a new connection is a new object. -/
def Possible (s : Loop) : LoopEvent → Prop
  | .accept p => s.net.isRegistered p = false ∧ p ∉ s.net.reconnects
  | .connect p => s.net.isRegistered p = false ∧ p ∉ s.net.reconnects
  | _ => True

def LoopStep (s : Loop) (e : LoopEvent) (s' : Loop) : Prop := s.Possible e ∧ s' = s.handle e

/-- What the network thread registers finds a slot. -/
def HasRoom (s : Loop) : LoopEvent → Prop
  | .accept _ => s.net.freeSlot ≠ none
  | .retry outcome => outcome = .selfConnect ∨ s.net.reconnects = [] ∨ s.net.freeSlot ≠ none
  | _ => True

end Loop

/-! ## §1  What is asked of a full table -/

def LoopEvent.registers : LoopEvent → Bool
  | .accept _ => true
  | .connect _ => true
  | .retry _ => true
  | _ => false

/-- The slots, the maps into them and the counter are as they were. -/
structure SameTables (u v : Universe) : Prop where
  peers : v.peers = u.peers
  peerIds : v.peerIds = u.peerIds
  peerByUri : v.peerByUri = u.peerByUri
  connectionCount : v.connectionCount = u.connectionCount

/-- A peer that has its slot and is found there by its URI and by its id. -/
def FullyRegistered (u : Universe) (p : PeerRef) : Prop :=
  ∃ i : Nat, u.peers[i]? = some (some p) ∧ (u.store p).localId = i ∧
    u.peerByUri.lookup (u.store p).uri = some i ∧
    ∃ id, u.peerIds (u.store p).id.key = some (id, i)

namespace Loop

structure Survives (s : Loop) : Prop where
  running : s.running = true
  /-- Without a free slot, nobody is registered and nothing is changed. -/
  refused : ∀ e, e.registers → s.net.freeSlot = none → SameTables s.net (s.handle e).net
  /-- Who waits for a reconnect is not in a slot, -/
  apart : ∀ p ∈ s.net.reconnects, s.net.isRegistered p = false
  /-- and goes on waiting until it is registered or found to be this universe itself. -/
  kept : ∀ e, ∀ p ∈ s.net.reconnects, p ∈ (s.handle e).net.reconnects ∨
    (s.handle e).net.FullyRegistered p ∨
    (e = .retry .selfConnect ∧ p ∈ (s.handle e).net.garbage)

/-! ## §2  The parts of a step -/

/-- What keeps those who wait apart from those who are registered. -/
structure Apart (u : Universe) : Prop where
  slots : u.SlotIds
  nodup : u.reconnects.Nodup
  apart : ∀ p ∈ u.reconnects, u.isRegistered p = false

end Loop

theorem insertPeer_full {u : Universe} {p : PeerRef} (hreg : u.isRegistered p = false)
    (hfull : u.freeSlot = none) : u.insertPeer p = .error .thrown := by
  simp [insertPeer, hreg, hfull]

theorem insertPeer_free {u : Universe} (p : PeerRef) (hfree : u.freeSlot ≠ none) :
    ∃ u', u.insertPeer p = .ok u' := by
  obtain ⟨i, hi⟩ := Option.ne_none_iff_exists'.mp hfree
  unfold insertPeer
  rw [hi]
  split_ifs
  · exact ⟨u, rfl⟩
  · exact ⟨_, rfl⟩

/-- A registration leaves the list of those who wait alone. -/
theorem insertPeer_reconnects {u u' : Universe} {p : PeerRef} (h : u.insertPeer p = .ok u') :
    u'.reconnects = u.reconnects := by
  rcases insertPeer_cases h with ⟨-, rfl⟩ | ⟨i, -, -, -, rfl⟩ <;> rfl

theorem insertPeer_fullyRegistered {u u' : Universe} {p : PeerRef}
    (hreg : u.isRegistered p = false) (h : u.insertPeer p = .ok u') : u'.FullyRegistered p := by
  rcases insertPeer_cases h with ⟨hreg', -⟩ | ⟨i, -, -, hfree, rfl⟩
  · rw [hreg] at hreg'
    cases hreg'
  · obtain ⟨hi, -⟩ := List.getElem?_eq_some_iff.mp hfree
    obtain ⟨id, hid, -⟩ := u.setPeerId_self (u.store p).id i
    have hpeer : Function.update u.store p { u.store p with localId := i } p =
        { u.store p with localId := i } := Function.update_self ..
    refine ⟨i, List.getElem?_set_self hi, congrArg Peer.localId hpeer, ?_, id, ?_⟩
    · exact (congrArg (fun q => AList.lookup q.uri (u.peerByUri.insert (u.store p).uri i))
        hpeer).trans (AList.lookup_insert u.peerByUri)
    · exact (congrArg (fun q => u.setPeerId (u.store p).id i q.id.key) hpeer).trans hid

theorem FullyRegistered.setStatus {u : Universe} {p : PeerRef} (h : u.FullyRegistered p)
    (status : NodeStatus) (isValid : Bool) :
    (u.setStatus p status isValid).FullyRegistered p := by
  have hpeer : (u.setStatus p status isValid).store p =
      { u.store p with status := status, isValid := isValid } := Function.update_self ..
  obtain ⟨i, hi, hlocal, huri, id, hid⟩ := h
  refine ⟨i, hi, (congrArg Peer.localId hpeer).trans hlocal, ?_, id, ?_⟩
  · exact (congrArg (fun q => AList.lookup q.uri u.peerByUri) hpeer).trans huri
  · exact (congrArg (fun q => u.peerIds q.id.key) hpeer).trans hid

/-- What a removal did to those who wait. -/
theorem removePeer_reconnects (u : Universe) (i : Nat) :
    (u.removePeer i).reconnects = u.reconnects ∨
      ∃ p, u.peers[i]? = some (some p) ∧ (u.removePeer i).peers = u.peers.set i none ∧
        (u.removePeer i).reconnects = u.reconnects ++ [p] := by
  unfold removePeer
  split
  · rename_i p hp
    split_ifs with hgone
    · by_cases hwait : ((u.store p).status = .kReconnecting && (u.store p).isTcp) = true
      · exact .inr ⟨p, hp, rfl, if_pos hwait⟩
      · exact .inl (if_neg hwait)
    · exact .inl rfl
  · exact .inl rfl

theorem removePeer_isRegistered {u : Universe} {i : Nat} {p : PeerRef}
    (h : (u.removePeer i).isRegistered p = true) : u.isRegistered p = true := by
  obtain ⟨j, hj⟩ := isRegistered_iff.mp h
  exact isRegistered_iff.mpr ⟨j, removePeer_peers hj⟩

namespace Loop

theorem Apart.insertPeer {u u' : Universe} (hu : Apart u) {p : PeerRef} (hnew : p ∉ u.reconnects)
    (h : u.insertPeer p = .ok u') : Apart u' where
  slots := hu.slots.insertPeer h
  nodup := by
    rw [insertPeer_reconnects h]
    exact hu.nodup
  apart := by
    intro q hq
    rw [insertPeer_reconnects h] at hq
    rw [insertPeer_isRegistered h (fun heq => hnew (heq ▸ hq))]
    exact hu.apart q hq

/-- A removed peer is nowhere else. -/
theorem Apart.removePeer {u : Universe} (hu : Apart u) (i : Nat) : Apart (u.removePeer i) := by
  have hgone : ∀ q ∈ u.reconnects, (u.removePeer i).isRegistered q = false := by
    intro q hq
    refine Bool.eq_false_iff.mpr fun hreg => ?_
    have hold := removePeer_isRegistered hreg
    rw [hu.apart q hq] at hold
    cases hold
  rcases u.removePeer_reconnects i with hsame | ⟨p, hp, hpeers, hmore⟩
  · refine ⟨hu.slots.removePeer i, by rw [hsame]; exact hu.nodup, ?_⟩
    rw [hsame]
    exact hgone
  · have hnew : p ∉ u.reconnects := by
      intro hmem
      have := hu.apart p hmem
      rw [isRegistered_iff.mpr ⟨i, hp⟩] at this
      cases this
    refine ⟨hu.slots.removePeer i, ?_, ?_⟩
    · rw [hmore]
      exact hu.nodup.append (List.nodup_singleton p) (by simpa using hnew)
    · rw [hmore]
      intro q hq
      rcases List.mem_append.mp hq with hq | hq
      · exact hgone q hq
      · rw [List.mem_singleton.mp hq]
        refine Bool.eq_false_iff.mpr fun hreg => ?_
        obtain ⟨j, hj⟩ := isRegistered_iff.mp hreg
        rw [hpeers, List.getElem?_set] at hj
        split_ifs at hj with hij
        · cases hj
        · exact hij (hu.slots.unique hp hj)

theorem Apart.reconnectNext {u u' : Universe} (hu : Apart u) {outcome : ReconnectOutcome}
    (h : u.reconnectNext outcome = .ok u') : Apart u' := by
  rcases u.reconnectNext_cases outcome with ⟨-, heq⟩ | ⟨-, p, rest, hq, heq⟩ |
    ⟨p, rest, status, isValid, hq, -, heq⟩
  · rw [h] at heq
    cases heq
    exact hu
  · rw [h] at heq
    cases heq
    refine ⟨hu.slots, ?_, fun q hq' => hu.apart q (by rw [hq]; exact List.mem_cons_of_mem _ hq')⟩
    have hnodup := hu.nodup
    rw [hq] at hnodup
    exact hnodup.of_cons
  · rw [h] at heq
    cases hins : u.insertPeer p with
    | error f =>
        rw [hins] at heq
        cases heq
    | ok v =>
        rw [hins] at heq
        cases heq
        have hnodup := hu.nodup
        rw [hq] at hnodup
        refine ⟨(hu.slots.insertPeer hins).setStatus p status isValid, hnodup.of_cons, ?_⟩
        intro q hqrest
        have hqp : q ≠ p := by
          rintro rfl
          exact (List.nodup_cons.mp hnodup).1 hqrest
        have hsame : v.isRegistered q = u.isRegistered q := insertPeer_isRegistered hins hqp
        exact hsame.trans (hu.apart q (by rw [hq]; exact List.mem_cons_of_mem _ hqrest))

theorem inThread_of {P : Universe → Prop} {s : Loop} {x : Except Fault Universe} (hs : P s.net)
    (h : ∀ u, x = .ok u → P u) : P (s.inThread x).net := by
  cases x with
  | ok u => exact h u rfl
  | error f => exact hs

theorem Apart.handle {s : Loop} (hs : Apart s.net) {e : LoopEvent} (h : s.Possible e) :
    Apart (s.handle e).net := by
  unfold Loop.handle
  split_ifs with hrun
  · cases e with
    | accept p => exact inThread_of hs fun u hu => hs.insertPeer h.2 hu
    | connect p =>
        simp only [connect]
        split_ifs
        · exact hs
        · exact orUnchanged_of hs fun u hu => hs.insertPeer h.2 hu
    | handshake p pid =>
        obtain ⟨hpeers, hwait⟩ := s.net.completeHandshake_peers p pid
        refine ⟨hs.slots.completeHandshake p pid, by rw [hwait]; exact hs.nodup, ?_⟩
        rw [hwait]
        intro q hq
        rw [isRegistered, hpeers]
        exact hs.apart q hq
    | status p status isValid => exact ⟨hs.slots.setStatus p status isValid, hs.nodup, hs.apart⟩
    | remove i => exact hs.removePeer i
    | retry outcome => exact inThread_of hs fun u hu => hs.reconnectNext hu
  · exact hs

/-- When an operation of the thread throws. -/
theorem running_handle {s : Loop} (hs : Apart s.net) (hrun : s.running = true) {e : LoopEvent}
    (h : s.Possible e) : (s.handle e).running = true ↔ s.HasRoom e := by
  unfold Loop.handle
  rw [if_pos hrun]
  cases e with
  | accept p =>
      by_cases hfull : s.net.freeSlot = none
      · simp [HasRoom, inThread, insertPeer_full h.1 hfull, hfull]
      · obtain ⟨u, hu⟩ := insertPeer_free p hfull
        simpa [HasRoom, inThread, hu, hrun] using hfull
  | connect p =>
      simp only [connect, HasRoom, iff_true]
      split_ifs <;> exact hrun
  | handshake p pid => simpa [HasRoom] using hrun
  | status p status isValid => simpa [HasRoom] using hrun
  | remove i => simpa [HasRoom] using hrun
  | retry outcome =>
      rcases s.net.reconnectNext_cases outcome with ⟨hq, heq⟩ | ⟨hself, p, rest, -, heq⟩ |
        ⟨p, rest, status, isValid, hq, hself, heq⟩
      · simp [HasRoom, inThread, heq, hq, hrun]
      · subst hself
        simp [HasRoom, inThread, heq, hrun]
      · by_cases hfull : s.net.freeSlot = none
        · have hreg := hs.apart p (by simp [hq])
          simp [HasRoom, inThread, heq, hself, hq, hfull, insertPeer_full hreg hfull, Except.map]
        · obtain ⟨u, hu⟩ := insertPeer_free p hfull
          simp [HasRoom, inThread, heq, hu, hfull, hrun, Except.map]

theorem sameTables_insertPeer {u u' : Universe} {p : PeerRef} (hfull : u.freeSlot = none)
    (h : u.insertPeer p = .ok u') : SameTables u u' := by
  rcases insertPeer_cases h with ⟨-, rfl⟩ | ⟨i, hi, -⟩
  · exact ⟨rfl, rfl, rfl, rfl⟩
  · rw [hfull] at hi
    cases hi

/-- A connection that finds no slot changes nothing. -/
theorem sameTables_handle {s : Loop} (hs : Apart s.net) {e : LoopEvent} (he : e.registers = true)
    (hfull : s.net.freeSlot = none) : SameTables s.net (s.handle e).net := by
  have hrefl : SameTables s.net s.net := ⟨rfl, rfl, rfl, rfl⟩
  unfold handle
  split_ifs
  · cases e with
    | accept p => exact inThread_of hrefl fun u hu => sameTables_insertPeer hfull hu
    | connect p =>
        simp only [connect]
        split_ifs
        · exact hrefl
        · exact orUnchanged_of hrefl fun u hu => sameTables_insertPeer hfull hu
    | retry outcome =>
        refine inThread_of hrefl fun u hu => ?_
        rcases s.net.reconnectNext_cases outcome with ⟨-, heq⟩ | ⟨-, p, rest, -, heq⟩ |
          ⟨p, rest, status, isValid, hq, -, heq⟩
        · rw [hu] at heq
          cases heq
          exact hrefl
        · rw [hu] at heq
          cases heq
          exact ⟨rfl, rfl, rfl, rfl⟩
        · rw [insertPeer_full (hs.apart p (by simp [hq])) hfull, hu] at heq
          cases heq
    | handshake p pid => cases he
    | status p status isValid => cases he
    | remove i => cases he
  · exact hrefl

/-- Only a retry takes a peer from those who wait. -/
theorem reconnects_handle {s : Loop} {e : LoopEvent} (he : ∀ outcome, e ≠ .retry outcome)
    {p : PeerRef} (hp : p ∈ s.net.reconnects) : p ∈ (s.handle e).net.reconnects := by
  unfold handle
  split_ifs
  · cases e with
    | accept q =>
        refine inThread_of (P := fun u => p ∈ u.reconnects) hp fun u hu => ?_
        rw [insertPeer_reconnects hu]
        exact hp
    | connect q =>
        simp only [connect]
        split_ifs
        · exact hp
        · refine orUnchanged_of (P := fun u => p ∈ u.reconnects) hp fun u hu => ?_
          rw [insertPeer_reconnects hu]
          exact hp
    | handshake q pid =>
        rw [(s.net.completeHandshake_peers q pid).2]
        exact hp
    | status q status isValid => exact hp
    | remove i =>
        rcases s.net.removePeer_reconnects i with hsame | ⟨q, -, -, hmore⟩
        · rw [hsame]
          exact hp
        · rw [hmore]
          exact List.mem_append_left _ hp
    | retry outcome => exact absurd rfl (he outcome)
  · exact hp

/-- A retry registers the first of those who wait, or puts it away, or does nothing. -/
theorem kept_retry {s : Loop} (hs : Apart s.net) (outcome : ReconnectOutcome) {p : PeerRef}
    (hp : p ∈ s.net.reconnects) : p ∈ (s.handle (.retry outcome)).net.reconnects ∨
      (s.handle (.retry outcome)).net.FullyRegistered p ∨
      (outcome = .selfConnect ∧ p ∈ (s.handle (.retry outcome)).net.garbage) := by
  unfold handle
  split_ifs
  · refine inThread_of (P := fun u => p ∈ u.reconnects ∨ u.FullyRegistered p ∨
      (outcome = .selfConnect ∧ p ∈ u.garbage)) (.inl hp) fun u hu => ?_
    rcases s.net.reconnectNext_cases outcome with ⟨-, heq⟩ | ⟨hself, q, rest, hq, heq⟩ |
      ⟨q, rest, status, isValid, hq, -, heq⟩
    · rw [hu] at heq
      cases heq
      exact .inl hp
    · rw [hu] at heq
      cases heq
      rw [hq] at hp
      rcases List.mem_cons.mp hp with rfl | hp
      · exact .inr (.inr ⟨hself, by simp⟩)
      · exact .inl hp
    · rw [hu] at heq
      cases hins : s.net.insertPeer q with
      | error f =>
          rw [hins] at heq
          cases heq
      | ok v =>
          rw [hins] at heq
          cases heq
          have hreg := hs.apart q (by simp [hq])
          rw [hq] at hp
          rcases List.mem_cons.mp hp with rfl | hp
          · exact .inr (.inl ((insertPeer_fullyRegistered hreg hins).setStatus status isValid))
          · exact .inl hp
  · exact .inl hp

theorem survives_of_apart {s : Loop} (hs : Apart s.net) (hrun : s.running = true) :
    s.Survives where
  running := hrun
  refused := fun _ he hfull => sameTables_handle hs he hfull
  apart := hs.apart
  kept := by
    intro e p hp
    by_cases he : ∃ outcome, e = .retry outcome
    · obtain ⟨outcome, rfl⟩ := he
      simpa using kept_retry hs outcome hp
    · exact .inl (reconnects_handle (fun outcome h => he ⟨outcome, h⟩) hp)

/-! ## §3  Runs -/

/-- The state after a sequence of events. -/
def after (n : Nat) (store : PeerRef → Peer) (es : List LoopEvent) : Loop :=
  es.foldl handle (start n store)

theorem apart_start (n : Nat) (store : PeerRef → Peer) : Apart (start n store).net where
  slots := slotIds_empty n store
  nodup := List.nodup_nil
  apart := by
    intro p hp
    cases hp

/-- **A full table is survived exactly by the runs in which it is never noticed by the network
thread**: whenever that thread registers a peer there is a slot for it. -/
theorem full_table_survived_iff {n : Nat} {store : PeerRef → Peer} {es : List LoopEvent}
    {s : Loop} (run : Runs LoopStep (start n store) es s) :
    s.Survives ↔ ∀ pre e post, es = pre ++ e :: post → (after n store pre).HasRoom e := by
  have hinv : s = after n store es ∧ Apart s.net ∧ (s.running = true ↔
      ∀ pre e post, es = pre ++ e :: post → (after n store pre).HasRoom e) := by
    refine run.invariant_hist (I := fun es s => s = after n store es ∧ Apart s.net ∧
      (s.running = true ↔ ∀ pre e post, es = pre ++ e :: post → (after n store pre).HasRoom e))
      ⟨rfl, apart_start n store, by simp [after, start]⟩ ?_
    rintro es s e _ ⟨hs, hapart, hiff⟩ ⟨hposs, rfl⟩
    refine ⟨by rw [after, List.foldl_append, hs]; rfl, hapart.handle hposs, ?_⟩
    rw [forall_split_snoc, ← hs, ← hiff]
    by_cases hrun : s.running = true
    · rw [running_handle hapart hrun hposs]
      exact ⟨fun h => ⟨h, hrun⟩, fun h => h.1⟩
    · simp [handle, hrun]
  obtain ⟨-, hapart, hiff⟩ := hinv
  rw [← hiff]
  exact ⟨fun h => h.running, survives_of_apart hapart⟩

theorem accept_first {store : PeerRef → Peer} :
    Runs LoopStep (start 1 store) ([] ++ [.accept 0]) (after 1 store [.accept 0]) :=
  Runs.init.snoc ⟨⟨rfl, List.not_mem_nil⟩, rfl⟩

/-- Peers of two addresses. -/
def twoPeers : PeerRef → Peer := fun p =>
  { newPeers p with uri := if p = 0 then "tcp://10.0.0.1:9000" else "tcp://10.0.0.2:9000" }

/-- The application finds the table full and nothing is changed; the peer that has the slot is lost
and gets it again. -/
theorem full_table_survived_one : ∃ es s,
    es = [.accept 0, .connect 1, .status 0 .kReconnecting false, .remove 0, .retry .connected] ∧
      Runs LoopStep (start 1 twoPeers) es s ∧ (after 1 twoPeers [.accept 0]).net.freeSlot = none ∧
      s.net.peers = [some 0] ∧ s.Survives := by
  have hpossible : (after 1 twoPeers [.accept 0]).Possible (.connect 1) :=
    ⟨by decide, List.not_mem_nil⟩
  have hstep : ∀ (s : Loop) (e : LoopEvent), s.Possible e → LoopStep s e (s.handle e) :=
    fun _ _ h => ⟨h, rfl⟩
  have run := (((accept_first.snoc (hstep _ _ hpossible)).snoc
    (hstep _ (.status 0 .kReconnecting false) trivial)).snoc (hstep _ (.remove 0) trivial)).snoc
    (hstep _ (.retry .connected) trivial)
  refine ⟨_, _, rfl, run, by decide, by decide, (full_table_survived_iff run).mpr ?_⟩
  -- the slot is free for the accepted connection, and again for the reconnect
  simp only [forall_split_snoc]
  refine ⟨.inr (.inr ?_), trivial, trivial, trivial, ?_, by simp⟩
  · decide
  · show (after 1 twoPeers []).net.freeSlot ≠ none
    decide

/-- The second connection to a universe with one slot ends the program. -/
theorem accept_at_limit_terminates :
    ∃ s, Runs LoopStep (start 1 newPeers) [.accept 0, .accept 1] s ∧ ¬ s.Survives := by
  refine ⟨_, accept_first.snoc ⟨⟨by decide, List.not_mem_nil⟩, rfl⟩, fun h => ?_⟩
  have hrun := h.running
  revert hrun
  decide

end Loop

end Universe

end BeyondProtocol
