import BeyondProtocol.Net.Credit

/-!
# Who gets the frames: client entries and the slots of the registry

The entries of a stream name a peer by its local id, which is the number of a
slot in the registry. Slots are reused, entries outlive the peer they were made
for: a peer that takes over a slot inherits what its predecessor asked for.
Where no entry is left when a slot is taken, every packet goes to a connection
that asked for its frame.
-/

namespace BeyondProtocol.Net

open Framework

/-! ## §1  The stream and the registry together -/

/-- Every registration opens a new connection, also that of a peer object that
was registered before. `connection` numbers the one in each slot, `asked` holds
the requests processed so far with the connection each came from. -/
structure Delivery where
  registry : Universe
  net : Net
  connection : Nat → Nat := fun _ => 0
  connections : Nat := 0
  asked : List (Nat × StreamPacket) := []

inductive DeliveryEvent : Type where
  /-- `insertPeer_` -/
  | connect (p : PeerRef)
  /-- `removePeer_` on a slot -/
  | disconnect (i : Nat)
  | setStatus (p : PeerRef) (status : NodeStatus) (isValid : Bool)
  /-- A packet of the stream arrives from a peer. -/
  | packet (p : PeerRef) (spkt : StreamPacket) (pkt : DataPacket)
  | post (spkt : StreamPacket) (pkt : DataPacket)

/-- How a send ends: without a peer in the registry there is none. -/
def delivers (u : Universe) (outcome : Destination → SendOutcome) : Destination → SendOutcome
  | .client peerid => if (u.getPeer peerid).isSome then outcome (.client peerid) else .noPeer
  | dest => outcome dest

/-- The connection in the slot a new peer was put into. -/
def Delivery.opened (w : Delivery) (u : Universe) (p : PeerRef) : Delivery :=
  if w.registry.isRegistered p then { w with registry := u }
  else
    match w.registry.freeSlot with
    | none => w
    | some i => { w with
        registry := u
        connection := Function.update w.connection i w.connections
        connections := w.connections + 1 }

/-- The requests known after a packet of peer `p`, whose connection is the one in
the slot its local id names. -/
def Delivery.heard (w : Delivery) (p : PeerRef) (spkt : StreamPacket) (pkt : DataPacket) :
    List (Nat × StreamPacket) :=
  if isRequest spkt pkt && w.registry.isRegistered p then
    w.asked ++ [(w.connection (w.registry.store p).localId.toNat, spkt)]
  else w.asked

inductive DeliveryStep : Delivery → DeliveryEvent → Delivery → Prop where
  | connect {w : Delivery} {p : PeerRef} {u : Universe} (h : w.registry.insertPeer p = .ok u) :
      DeliveryStep w (.connect p) (w.opened u p)
  | disconnect {w : Delivery} {i : Nat} :
      DeliveryStep w (.disconnect i) { w with registry := w.registry.removePeer i }
  | setStatus {w : Delivery} {p : PeerRef} {status : NodeStatus} {isValid : Bool} :
      DeliveryStep w (.setStatus p status isValid)
        { w with registry := w.registry.setStatus p status isValid }
  | packet {w : Delivery} {p : PeerRef} {spkt : StreamPacket} {pkt : DataPacket} {net : Net}
      {fuel : Nat} {now ttimeoff buffering : Int} {effects : List Effect}
      (h : receive fuel w.net (w.registry.store p).localId now ttimeoff buffering spkt pkt =
        .ok (net, effects)) :
      DeliveryStep w (.packet p spkt pkt) { w with net := net, asked := w.heard p spkt pkt }
  | post {w : Delivery} {spkt : StreamPacket} {pkt : DataPacket} {net : Net}
      {outcome : Destination → SendOutcome} {effects : List Effect}
      (h : w.net.post (delivers w.registry outcome) spkt pkt = .ok (net, effects)) :
      DeliveryStep w (.post spkt pkt) { w with net := net }

/-- One event, with all sends of a post succeeding. -/
def Delivery.exec (w : Delivery) : DeliveryEvent → Except Fault Delivery
  | .connect p => do
      let u ← w.registry.insertPeer p
      return w.opened u p
  | .disconnect i => .ok { w with registry := w.registry.removePeer i }
  | .setStatus p status isValid =>
      .ok { w with registry := w.registry.setStatus p status isValid }
  | .packet p spkt pkt => do
      let (net, _) ← receive 1 w.net (w.registry.store p).localId 0 0 0 spkt pkt
      return { w with net := net, asked := w.heard p spkt pkt }
  | .post spkt pkt => do
      let (net, _) ← w.net.post (delivers w.registry fun _ => .sent) spkt pkt
      return { w with net := net }

theorem exec_step (w : Delivery) (e : DeliveryEvent) (w' : Delivery) (h : w.exec e = .ok w') :
    DeliveryStep w e w' := by
  cases e with
  | connect p =>
      simp only [Delivery.exec, bind_eq_ok] at h
      obtain ⟨u, hu, hret⟩ := h
      cases hret
      exact .connect hu
  | disconnect i =>
      cases h
      exact .disconnect
  | setStatus p status isValid =>
      cases h
      exact .setStatus
  | packet p spkt pkt =>
      simp only [Delivery.exec, bind_eq_ok] at h
      obtain ⟨⟨net, effects⟩, hrecv, hret⟩ := h
      cases hret
      exact .packet hrecv
  | post spkt pkt =>
      simp only [Delivery.exec, bind_eq_ok] at h
      obtain ⟨⟨net, effects⟩, hpost, hret⟩ := h
      cases hret
      exact .post hpost

/-- A slot is taken only when the stream has no entry for it, and packets come
from registered peers. -/
def Clean (w : Delivery) : DeliveryEvent → Prop
  | .connect p => w.registry.isRegistered p = false → ∀ i, w.registry.freeSlot = some i →
      ∀ f, ∀ c ∈ w.net.clients f, c.peerid ≠ i
  | .packet p _ _ => w.registry.isRegistered p = true
  | _ => True

/-- The connection in the slot of a registered peer has asked for frame `f`. -/
def Delivery.HasAsked (w : Delivery) (i : Nat) (f : FrameID) : Prop :=
  ∃ spkt, (w.connection i, spkt) ∈ w.asked ∧ covers spkt f = true

/-- Whatever a post sends out goes to a registered peer whose connection has
asked for the frame. -/
def DeliversToAskers (w : Delivery) : Prop :=
  ∀ outcome spkt pkt net effects,
    w.net.post (delivers w.registry outcome) spkt pkt = .ok (net, effects) →
      ∀ peerid spkt' pkt', Effect.transmit (.client peerid) spkt' pkt' ∈ effects →
        ∃ (i : Nat) (p : PeerRef), peerid = i ∧ w.registry.getPeer peerid = some p ∧
          w.registry.peers[i]? = some (some p) ∧ w.HasAsked i spkt.frame

/-! ## §2  What entries there are -/

/-- An entry after a request was there before, or is the peer's own. -/
theorem mem_clients_registerClient {net : Net} {x : Packet} {peerid : Int} {f : FrameID}
    {c : StreamClientLocal} (hc : c ∈ (net.registerClient x.1 x.2 peerid).clients f) :
    (∃ d ∈ net.clients f, d.peerid = c.peerid) ∨ (c.peerid = peerid ∧ x.1.frame = f) := by
  by_cases hf : f = x.1.frame
  · subst hf
    rw [clients_registerClient_self, grantClient] at hc
    split_ifs at hc
    · obtain ⟨d, hd, rfl⟩ := List.mem_map.mp hc
      refine .inl ⟨d, hd, ?_⟩
      split_ifs <;> rfl
    · rcases List.mem_append.mp hc with hc | hc
      · exact .inl ⟨c, hc, rfl⟩
      · obtain rfl := List.mem_singleton.mp hc
        exact .inr ⟨rfl, rfl⟩
  · rw [clients_registerClient_ne hf] at hc
    exact .inl ⟨c, hc, rfl⟩

theorem mem_clients_registerAll {net : Net} {l : List Packet} {peerid : Int} {f : FrameID}
    {c : StreamClientLocal} (hc : c ∈ (net.registerAll (some peerid) l).clients f) :
    (∃ d ∈ net.clients f, d.peerid = c.peerid) ∨
      (c.peerid = peerid ∧ ∃ x ∈ l, x.1.frame = f) := by
  induction l generalizing net with
  | nil => exact .inl ⟨c, hc, rfl⟩
  | cons x l ih =>
      have hc : c ∈
        ((net.registerClient x.1 x.2 peerid).registerAll (some peerid) l).clients f := hc
      rcases ih hc with ⟨d, hd, hpeer⟩ | ⟨hpeer, y, hy, hframe⟩
      · rcases mem_clients_registerClient hd with ⟨e, he, hpeer'⟩ | ⟨hown, hframe⟩
        · exact .inl ⟨e, he, hpeer'.trans hpeer⟩
        · exact .inr ⟨hpeer ▸ hown, x, by simp, hframe⟩
      · exact .inr ⟨hpeer, y, by simp [hy], hframe⟩

/-- A packet from the network makes entries only for the peer it comes from, in
frames it asks for. -/
theorem mem_clients_receive {net net' : Net} (hs : net.Serving) {fuel : Nat}
    {peerid now ttimeoff buffering : Int} {spkt : StreamPacket} {pkt : DataPacket}
    {effects : List Effect}
    (h : receive fuel net peerid now ttimeoff buffering spkt pkt = .ok (net', effects)) :
    net'.Serving ∧ ∀ f, ∀ c ∈ net'.clients f, (∃ d ∈ net.clients f, d.peerid = c.peerid) ∨
      (c.peerid = peerid ∧ isRequest spkt pkt = true ∧ covers spkt f = true) := by
  rw [receive, if_pos hs.host] at h
  simp only [receiveHost, bind_eq_ok] at h
  obtain ⟨⟨net₁, early⟩, hearly, ⟨net₂, late⟩, hproc, hret⟩ := h
  cases hret
  by_cases hreq : isRequest spkt pkt = true
  · obtain ⟨rfl, -⟩ := earlyProcessPacket_request hs.active hs.host hreq hearly
    unfold processPacket at hproc
    rw [if_neg (by simp [hs.active]), if_pos (by simp [hs.host]; exact hreq), bind_eq_ok] at hproc
    obtain ⟨⟨net₃, spkt₃, pkt₃, effects₃⟩, hcall, hret⟩ := hproc
    cases hret
    obtain ⟨-, -, -, l, hl, rfl⟩ := processRequest_spec _ hcall
    refine ⟨registerAll_serving hs (some peerid) l, fun f c hc => ?_⟩
    refine (mem_clients_registerAll hc).imp_right fun ⟨hpeer, x, hx, hframe⟩ => ?_
    exact ⟨hpeer, hreq, hframe ▸ (hl x hx).1⟩
  · obtain ⟨stream, tally, rfl⟩ := earlyProcessPacket_changes hearly
    unfold processPacket at hproc
    rw [if_neg (by simp [hs.active]),
      if_neg (by simp [hs.host]; exact Bool.eq_false_iff.mpr hreq)] at hproc
    cases hproc
    exact ⟨⟨hs.1, hs.2, hs.3⟩, fun f c hc => .inl ⟨c, hc, rfl⟩⟩

/-! ## §3  Clean runs -/

/-- An entry for an occupied slot stems from a request of the connection in it. -/
structure Delivering (w : Delivery) : Prop where
  serving : w.net.Serving
  slotIds : w.registry.SlotIds
  asked : ∀ f, ∀ c ∈ w.net.clients f, ∀ (i : Nat) (p : PeerRef), c.peerid = i →
    w.registry.peers[i]? = some (some p) → w.HasAsked i f

theorem Delivering.connect {w : Delivery} (h : Delivering w) {p : PeerRef} {u : Universe}
    (hinsert : w.registry.insertPeer p = .ok u) (hclean : Clean w (.connect p)) :
    Delivering (w.opened u p) := by
  rcases Universe.insertPeer_cases hinsert with ⟨hreg, rfl⟩ | ⟨i, hfree, hreg, -, hu⟩
  · rw [Delivery.opened, if_pos hreg]
    exact h
  · have hopened : w.opened u p = { w with
        registry := u
        connection := Function.update w.connection i w.connections
        connections := w.connections + 1 } := by
      simp [Delivery.opened, hreg, hfree]
    rw [hopened]
    refine ⟨h.serving, h.slotIds.insertPeer hinsert, fun f c hc j q hj hq => ?_⟩
    -- no entry is left for the slot that is taken
    have hji : j ≠ i := by
      rintro rfl
      exact hclean hreg j hfree f c hc hj
    simp only [hu, List.getElem?_set_ne (Ne.symm hji)] at hq
    obtain ⟨spkt, hmem, hcov⟩ := h.asked f c hc j q hj hq
    exact ⟨spkt, by simpa [Function.update_of_ne hji] using hmem, hcov⟩

theorem Delivering.packet {w : Delivery} (h : Delivering w) {p : PeerRef} {spkt : StreamPacket}
    {pkt : DataPacket} {net : Net} {fuel : Nat} {now ttimeoff buffering : Int}
    {effects : List Effect} (hreg : w.registry.isRegistered p = true)
    (hrecv : receive fuel w.net (w.registry.store p).localId now ttimeoff buffering spkt pkt =
      .ok (net, effects)) :
    Delivering { w with net := net, asked := w.heard p spkt pkt } := by
  obtain ⟨hserving, hentries⟩ := mem_clients_receive h.serving hrecv
  refine ⟨hserving, h.slotIds, fun f c hc i q hi hq => ?_⟩
  rcases hentries f c hc with ⟨d, hd, hpeer⟩ | ⟨hpeer, hreq, hcov⟩
  · obtain ⟨s, hmem, hs⟩ := h.asked f d hd i q (hpeer.trans hi) hq
    refine ⟨s, ?_, hs⟩
    simp only [Delivery.heard]
    split_ifs
    · exact List.mem_append_left _ hmem
    · exact hmem
  · -- the peer's own entry: its local id is the slot of its connection
    have hlocal : (w.registry.store p).localId.toNat = i := by
      rw [← hpeer, hi]
      rfl
    refine ⟨spkt, ?_, hcov⟩
    simp only [Delivery.heard, hreq, hreg, Bool.and_self, if_true, hlocal]
    simp

theorem Delivering.post {w : Delivery} (h : Delivering w) {spkt : StreamPacket}
    {pkt : DataPacket} {net : Net} {deliver : Destination → SendOutcome} {effects : List Effect}
    (hpost : w.net.post deliver spkt pkt = .ok (net, effects)) :
    Delivering { w with net := net } := by
  obtain ⟨ok, hsend⟩ := post_eq_send hpost
  obtain ⟨hserving, -, -, hself, hother⟩ := send_spec h.serving hsend
  refine ⟨hserving, h.slotIds, fun f c hc i q hi hq => ?_⟩
  have hold : ∃ d ∈ w.net.clients f, d.peerid = c.peerid := by
    by_cases hf : f = spkt.frame
    · subst hf
      rw [hself, afterPost] at hc
      obtain ⟨d, hd, rfl⟩ := List.mem_map.mp (List.mem_of_mem_filter hc)
      exact ⟨d, hd, (sendTo_peerid _ _ _).symm⟩
    · rcases hother f hf with hsame | hfilter
      · exact ⟨c, hsame ▸ hc, rfl⟩
      · exact ⟨c, List.mem_of_mem_filter (hfilter ▸ hc), rfl⟩
  obtain ⟨d, hd, hpeer⟩ := hold
  exact h.asked f d hd i q (hpeer.trans hi) hq

theorem Delivering.step {w w' : Delivery} {e : DeliveryEvent} (h : Delivering w)
    (hstep : DeliveryStep w e w') (hclean : Clean w e) : Delivering w' := by
  cases hstep with
  | connect hinsert => exact h.connect hinsert hclean
  | disconnect =>
      exact ⟨h.serving, h.slotIds.removePeer _, fun f c hc i p hi hp =>
        h.asked f c hc i p hi (Universe.removePeer_peers hp)⟩
  | setStatus => exact ⟨h.serving, h.slotIds.setStatus _ _ _, h.asked⟩
  | packet hrecv => exact h.packet hclean hrecv
  | post hpost => exact h.post hpost

theorem Delivering.deliversToAskers {w : Delivery} (h : Delivering w) : DeliversToAskers w := by
  intro outcome spkt pkt net effects hpost peerid spkt' pkt' htx
  obtain ⟨ok, hsend⟩ := post_eq_send hpost
  obtain ⟨-, -, rfl, -, -⟩ := send_spec h.serving hsend
  obtain ⟨c, hc, hmem⟩ := List.mem_flatMap.mp htx
  -- only to a peer of the registry is anything sent at all
  cases hpeer : w.registry.getPeer c.peerid with
  | none => simp [sendEffects, delivers, hpeer] at hmem
  | some p =>
      have hid : peerid = c.peerid := by
        unfold sendEffects at hmem
        split at hmem
        · cases hmem
        · simp only [List.mem_singleton, Effect.transmit.injEq, Destination.client.injEq] at hmem
          exact hmem.1
      obtain ⟨i, hi, hslot⟩ := h.slotIds.getPeer hpeer
      exact ⟨i, p, hid.trans hi, by rw [hid, hpeer], hslot, h.asked _ c hc i p hi hslot⟩

/-- A stream and a registry of `n` slots without any connection. -/
def startDelivery (n : Nat) (store : PeerRef → Peer) (net : Net) : Delivery where
  registry := .empty n store
  net := net

/-- **Frames go to those who asked**, in every state of every run in which no slot
is taken while the stream still has an entry for it. -/
theorem frames_go_to_askers {n : Nat} {store : PeerRef → Peer} {net : Net} (hs : net.Serving)
    (hnone : ∀ f, net.clientsLocal f = none) {es : List DeliveryEvent} {w : Delivery}
    (run : Runs (fun w e w' => DeliveryStep w e w' ∧ Clean w e) (startDelivery n store net) es w) :
    DeliversToAskers w := by
  have hstart : Delivering (startDelivery n store net) := by
    refine ⟨hs, Universe.slotIds_empty n store, fun f c hc => ?_⟩
    simp [startDelivery, clients, hnone f] at hc
  exact (run.invariant hstart fun w e w' h hstep => h.step hstep.1 hstep.2).deliversToAskers

/-- Two peers, one slot. -/
def twoPeers : Delivery :=
  startDelivery 1 (fun p => ⟨.fill (p + 1).toUInt8, "ftl://peer", .kConnected, true, true, -1⟩)
    { active := true, host := true }

/-- A request of some peer for frame (0, 1). -/
def frameRequest : StreamPacket := ⟨0, 0, 1, 0, kFlagRequest, 0, 0⟩

theorem frames_go_to_askers_request : ∃ w, DeliversToAskers w ∧
    Runs DeliveryStep twoPeers [.connect 0, .packet 0 frameRequest {}] w := by
  have run : Runs (fun w e w' => DeliveryStep w e w' ∧ Clean w e) twoPeers _ _ :=
    (Runs.init.snoc ⟨exec_step _ (.connect 0) _ rfl,
      by simp [Clean, twoPeers, startDelivery, clients]⟩).snoc
      ⟨exec_step _ (.packet 0 frameRequest {}) _ rfl, by exact rfl⟩
  exact ⟨_, frames_go_to_askers ⟨rfl, rfl, rfl⟩ (fun _ => rfl) run, run.mono fun _ _ _ h => h.1⟩

/-- The first peer asks and disconnects; the second one takes over its slot and
gets the next packet, though it has not asked for anything. -/
theorem slot_reuse_misdelivers : ∃ w,
    Runs DeliveryStep twoPeers [.connect 0, .packet 0 frameRequest {},
      .setStatus 0 .kDisconnected false, .disconnect 0, .connect 1] w ∧
    w.registry.getPeer 0 = some 1 ∧ ¬ w.HasAsked 0 frameRequest.frame ∧ ¬ DeliversToAskers w := by
  have run : Runs DeliveryStep twoPeers [.connect 0, .packet 0 frameRequest {},
      .setStatus 0 .kDisconnected false, .disconnect 0, .connect 1] _ :=
    Runs.of_foldlM (fun s e _ => exec_step s e) rfl
  have hnot : ∀ spkt, (1, spkt) ∉ [(0, frameRequest)] := by simp
  refine ⟨_, run, by decide, fun ⟨spkt, hmem, _⟩ => hnot spkt hmem, fun h => ?_⟩
  obtain ⟨i, p, hi, -, -, spkt, hmem, -⟩ :=
    h (fun _ => .sent) frameRequest {} _ _ rfl 0 frameRequest {} (by decide)
  obtain rfl : i = 0 := by exact_mod_cast hi.symm
  exact hnot spkt hmem

end BeyondProtocol.Net
