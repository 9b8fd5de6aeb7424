import BeyondProtocol.Framework.ForkJoin
import BeyondProtocol.Net.PacketQueue

/-!
# The worker thread of a receiving stream

`netstream_thread_` runs beside the calls of `queuePacket_`: it notes which
queues have packets, takes from each the packets that are due, sorts what it got
and hands it to `_processPacket`, video channels through the thread pool. The
model lets the two critical sections of `queuePacket_`, the visit of each queue
and every start and return of a callback interleave freely.
-/

namespace BeyondProtocol

open Framework

/-! ## §1  The system -/

/-- The comparison of `process_buffered_packets_`: by timestamp, and any packet
before an EndFrame of its timestamp. -/
def comesBefore (a b : Packet) : Bool :=
  if a.1.timestamp = b.1.timestamp then b.1.isEndFrame
  else decide (a.1.timestamp < b.1.timestamp)

/-- `std::stable_sort` by `comesBefore`: a packet moves ahead of one before it only
if it compares smaller. -/
def sortPackets (l : List Packet) : List Packet :=
  l.insertionSort fun a b => comesBefore b a = false

def isVideoPacket (x : Packet) : Bool := x.1.channel.isVideo

def isEndPacket (x : Packet) : Bool := x.1.isEndFrame

/-- `process_buffered_packets_` -/
def dispatch (batch : List Packet) : ForkJoin.Config Packet :=
  ForkJoin.start isVideoPacket isEndPacket (sortPackets batch)

inductive Worker : Type where
  | waiting
  /-- Some queues are still to be visited. -/
  | collecting (it : Iteration) (todo : List FrameID) (batch : List Packet)
  | dispatching (batch : List Packet) (tasks : ForkJoin.Config Packet)

structure Receiver where
  recv : RecvBuffer := {}
  worker : Worker := .waiting
  /-- Every packet queued so far, in order. -/
  queued : List Packet := []
  /-- The callbacks of earlier iterations, all returned. -/
  returned : Multiset Packet := 0

/-- What an iteration that starts now works with. -/
def Receiver.iteration (r : Receiver) (nowMicro : Int) : Iteration where
  nowMicro := nowMicro
  buffering := r.recv.buffering
  syncFrames := r.recv.synchronizeOnRecvTimestamps

inductive ReceiverEvent : Type where
  | emplace (spkt : StreamPacket)
  | insert (spkt : StreamPacket) (dpkt : DataPacket)
  | setBuffering (ms : Int)
  | allowFrameInterleaving
  | wake
  | visit (f : FrameID)
  | dispatch
  | task (e : ForkJoin.Event Packet)
  | done

inductive ReceiverStep : Receiver → ReceiverEvent → Receiver → Prop where
  | emplace {r : Receiver} {spkt : StreamPacket} {now buffering : Int} :
      ReceiverStep r (.emplace spkt) { r with recv := r.recv.emplaceQueue now buffering spkt }
  | insert {r : Receiver} {spkt : StreamPacket} {dpkt : DataPacket}
      (h : spkt.frame ∈ r.recv.packetQueue) :
      ReceiverStep r (.insert spkt dpkt)
        { r with recv := r.recv.insertPacket spkt dpkt, queued := r.queued ++ [(spkt, dpkt)] }
  | setBuffering {r : Receiver} {ms : Int} :
      ReceiverStep r (.setBuffering ms) { r with recv := { r.recv with buffering := ms } }
  | allowFrameInterleaving {r : Receiver} :
      ReceiverStep r .allowFrameInterleaving
        { r with recv := { r.recv with synchronizeOnRecvTimestamps := true } }
  | wake {r : Receiver} {nowMicro : Int} (h : r.worker = .waiting)
      (hqueues : r.recv.nonemptyQueues ≠ []) :
      ReceiverStep r .wake
        { r with worker := .collecting (r.iteration nowMicro) r.recv.nonemptyQueues [] }
  | visit {r : Receiver} {it : Iteration} {f : FrameID} {todo : List FrameID}
      {batch : List Packet} (h : r.worker = .collecting it (f :: todo) batch) :
      ReceiverStep r (.visit f)
        { r with
          recv := r.recv.releaseFrom it f
          worker := .collecting it todo (batch ++ r.recv.releasedFrom it f) }
  | dispatch {r : Receiver} {it : Iteration} {batch : List Packet}
      (h : r.worker = .collecting it [] batch) :
      ReceiverStep r .dispatch
        { r with worker := if batch = [] then .waiting
            else .dispatching batch (BeyondProtocol.dispatch batch) }
  | task {r : Receiver} {batch : List Packet} {tasks tasks' : ForkJoin.Config Packet}
      {e : ForkJoin.Event Packet} (h : r.worker = .dispatching batch tasks)
      (hstep : ForkJoin.Step tasks e tasks') :
      ReceiverStep r (.task e) { r with worker := .dispatching batch tasks' }
  | done {r : Receiver} {batch : List Packet} {tasks : ForkJoin.Config Packet}
      (h : r.worker = .dispatching batch tasks) (hdone : tasks.Done) :
      ReceiverStep r .done
        { r with worker := .waiting, returned := r.returned + tasks.finished }

/-- What the present dispatch has started. -/
def Worker.started : Worker → Multiset Packet
  | .dispatching _ tasks => tasks.started
  | _ => 0

/-- What the present iteration took out of the queues and did not hand over yet. -/
def Worker.inBatch : Worker → Multiset Packet
  | .waiting => 0
  | .collecting _ _ batch => batch
  | .dispatching _ tasks => tasks.waiting

/-- What was handed to `_processPacket`. -/
def Receiver.handed (r : Receiver) : Multiset Packet := r.returned + r.worker.started

/-! ## §2  Queues keep their packets -/

namespace PacketQueue

theorem unconsumed_insertPacket (q : PacketQueue) (spkt : StreamPacket) (dpkt : DataPacket) :
    (q.insertPacket spkt dpkt).unconsumed = q.unconsumed ++ [(spkt, dpkt)] := by
  simp [unconsumed, insertPacket, PacketBuffer.packet]

theorem filter_dropWhile_not {α : Type} (p : α → Bool) (l : List α) :
    (l.dropWhile p).filter (fun a => !p a) = l.filter fun a => !p a := by
  induction l with
  | nil => rfl
  | cons a l ih =>
      by_cases ha : p a = true
      · simp [ha, ih]
      · simp [List.dropWhile_cons_of_neg ha]

/-- Of the unconsumed packets, an iteration releases those that are due. -/
theorem released_eq (q : PacketQueue) (it : Iteration) :
    q.released it = ((q.packets.filter fun b => !b.packetConsumed).filter
      (q.shouldProcessNow it)).map PacketBuffer.packet := by
  have htakes : q.takes it = fun b => !b.packetConsumed && q.shouldProcessNow it b := rfl
  rw [List.filter_filter, released, htakes]
  simp only [Bool.and_comm]

/-- The others stay, in order. -/
theorem unconsumed_release (q : PacketQueue) (it : Iteration) :
    (q.release it).unconsumed = ((q.packets.filter fun b => !b.packetConsumed).filter
      (fun b => !q.shouldProcessNow it b)).map PacketBuffer.packet := by
  set mark : PacketBuffer → PacketBuffer := fun b =>
    if q.takes it b then { b with packetConsumed := true } else b with hmark
  have hkeep : ((fun b : PacketBuffer => !b.packetConsumed) ∘ mark) =
      fun b => (!q.shouldProcessNow it b) && !b.packetConsumed := by
    funext b
    by_cases hc : b.packetConsumed <;> by_cases hs : q.shouldProcessNow it b <;>
      simp [hmark, takes, hc, hs]
  have hpacket : PacketBuffer.packet ∘ mark = PacketBuffer.packet := by
    funext b
    simp only [hmark, Function.comp]
    split_ifs <;> rfl
  show (((q.packets.map mark).dropWhile PacketBuffer.packetConsumed).filter
    (fun b => !b.packetConsumed)).map PacketBuffer.packet = _
  rw [filter_dropWhile_not, List.filter_map, List.map_map, hkeep, hpacket, List.filter_filter]

theorem release_conserves (q : PacketQueue) (it : Iteration) :
    (q.unconsumed : Multiset Packet) = q.released it + (q.release it).unconsumed := by
  rw [released_eq, unconsumed_release, unconsumed, ← Multiset.map_coe, ← Multiset.map_coe,
    ← Multiset.map_coe, ← Multiset.map_add, Multiset.coe_add]
  exact congrArg _ (Multiset.coe_eq_coe.mpr (List.filter_append_perm _ _).symm)

end PacketQueue

namespace RecvBuffer

/-- What waits in all queues. -/
def unconsumed (b : RecvBuffer) : Multiset Packet :=
  (b.packetQueue.entries.map fun e => (e.2.unconsumed : Multiset Packet)).sum

theorem mem_unconsumed {b : RecvBuffer} {x : Packet} :
    x ∈ b.unconsumed ↔ ∃ f q, b.packetQueue.lookup f = some q ∧ x ∈ q.unconsumed := by
  have hsum : ∀ l : List (Sigma fun _ : FrameID => PacketQueue),
      x ∈ (l.map fun e => (e.2.unconsumed : Multiset Packet)).sum ↔
        ∃ e ∈ l, x ∈ e.2.unconsumed := by
    intro l
    induction l with
    | nil => simp
    | cons e l ih => simp [ih]
  rw [unconsumed, hsum]
  constructor
  · rintro ⟨⟨f, q⟩, he, hx⟩
    exact ⟨f, q, AList.mem_lookup_iff.mpr he, hx⟩
  · rintro ⟨f, q, hq, hx⟩
    exact ⟨⟨f, q⟩, AList.mem_lookup_iff.mp hq, hx⟩

/-- Replacing a queue replaces its share. -/
theorem unconsumed_insert_some {b : RecvBuffer} {f : FrameID} {q : PacketQueue}
    (h : b.packetQueue.lookup f = some q) (q' : PacketQueue) :
    unconsumed { b with packetQueue := b.packetQueue.insert f q' } + q.unconsumed =
      b.unconsumed + q'.unconsumed := by
  have hmem : f ∈ b.packetQueue.entries.keys :=
    AList.mem_keys.mp (AList.lookup_isSome.mp (by rw [h]; rfl))
  obtain ⟨q₁, l₁, l₂, -, hl, herase⟩ := List.exists_of_kerase hmem
  obtain rfl : q₁ = q := b.packetQueue.nodupKeys.eq_of_mk_mem (by rw [hl]; simp)
    (AList.mem_lookup_iff.mp h)
  rw [unconsumed, unconsumed, AList.entries_insert, herase, hl]
  simp only [List.map_cons, List.map_append, List.sum_cons, List.sum_append]
  abel

/-- A new queue adds its share. -/
theorem unconsumed_insert_none {b : RecvBuffer} {f : FrameID} (h : f ∉ b.packetQueue)
    (q' : PacketQueue) :
    unconsumed { b with packetQueue := b.packetQueue.insert f q' } =
      b.unconsumed + q'.unconsumed := by
  rw [unconsumed, unconsumed, AList.entries_insert_of_notMem h, List.map_cons, List.sum_cons,
    add_comm]

theorem unconsumed_emplaceQueue (b : RecvBuffer) (now buffering : Int) (spkt : StreamPacket) :
    (b.emplaceQueue now buffering spkt).unconsumed = b.unconsumed := by
  unfold emplaceQueue
  split_ifs with hf
  · rfl
  · exact (unconsumed_insert_none hf _).trans (add_zero _)

theorem unconsumed_insertPacket {b : RecvBuffer} {spkt : StreamPacket}
    (hf : spkt.frame ∈ b.packetQueue) (dpkt : DataPacket) :
    (b.insertPacket spkt dpkt).unconsumed = b.unconsumed + {(spkt, dpkt)} := by
  obtain ⟨q, hq⟩ := Option.isSome_iff_exists.mp (AList.lookup_isSome.mpr hf)
  have hsum := unconsumed_insert_some hq (q.insertPacket spkt dpkt)
  rw [PacketQueue.unconsumed_insertPacket, ← Multiset.coe_add,
    add_comm (q.unconsumed : Multiset Packet), ← add_assoc] at hsum
  rw [insertPacket, hq]
  exact add_right_cancel hsum

/-- What an iteration takes from a queue and what it leaves make up what was there. -/
theorem unconsumed_releaseFrom (b : RecvBuffer) (it : Iteration) (f : FrameID) :
    b.unconsumed = b.releasedFrom it f + (b.releaseFrom it f).unconsumed := by
  unfold releasedFrom releaseFrom
  cases hq : b.packetQueue.lookup f with
  | none => simp
  | some q =>
      have hsum := unconsumed_insert_some hq (q.release it)
      rw [q.release_conserves it, ← add_assoc] at hsum
      rw [add_comm]
      exact (add_right_cancel hsum).symm

end RecvBuffer

/-! ## §3  No packet is lost or handed over twice -/

structure Conserving (r : Receiver) : Prop where
  balance : (r.queued : Multiset Packet) =
    r.returned + r.worker.started + r.worker.inBatch + r.recv.unconsumed
  /-- Each queue holds its packets in arrival order. -/
  order : ∀ f q, r.recv.packetQueue.lookup f = some q →
    q.unconsumed.Sublist (r.queued.filter fun x => x.1.frame = f)
  tasks : ∀ batch tasks, r.worker = .dispatching batch tasks →
    ForkJoin.Progress isVideoPacket isEndPacket (sortPackets batch) tasks

theorem coe_sortPackets (batch : List Packet) :
    (sortPackets batch : Multiset Packet) = batch :=
  Multiset.coe_eq_coe.mpr (List.perm_insertionSort _ batch)

/-- A dispatch starts with the whole batch waiting. -/
theorem dispatch_waiting (batch : List Packet) : (dispatch batch).waiting = batch := by
  simp only [dispatch, ForkJoin.start, ForkJoin.Config.waiting, ForkJoin.items_program,
    add_zero, coe_sortPackets]

theorem Conserving.emplace {r : Receiver} (h : Conserving r) (now buffering : Int)
    (spkt : StreamPacket) :
    Conserving { r with recv := r.recv.emplaceQueue now buffering spkt } := by
  refine ⟨?_, ?_, h.tasks⟩
  · rw [RecvBuffer.unconsumed_emplaceQueue]
    exact h.balance
  · intro f q hq
    rcases RecvBuffer.lookup_emplaceQueue hq with hq | ⟨-, rfl⟩
    · exact h.order f q hq
    · exact List.nil_sublist _

theorem Conserving.insert {r : Receiver} (h : Conserving r) {spkt : StreamPacket}
    (hf : spkt.frame ∈ r.recv.packetQueue) (dpkt : DataPacket) :
    Conserving { r with
      recv := r.recv.insertPacket spkt dpkt
      queued := r.queued ++ [(spkt, dpkt)] } := by
  refine ⟨?_, ?_, h.tasks⟩
  · rw [RecvBuffer.unconsumed_insertPacket hf, ← Multiset.coe_add, h.balance, add_assoc]
    rfl
  · intro f q' hq'
    rw [RecvBuffer.lookup_insertPacket] at hq'
    obtain ⟨q, hq, rfl⟩ := Option.map_eq_some_iff.mp hq'
    rw [List.filter_append]
    split_ifs with hfs
    · subst hfs
      rw [PacketQueue.unconsumed_insertPacket]
      exact (h.order _ q hq).append (by simp)
    · exact (h.order f q hq).trans (List.sublist_append_left _ _)

theorem Conserving.visit {r : Receiver} (h : Conserving r) {it : Iteration} {f : FrameID}
    {todo : List FrameID} {batch : List Packet} (hw : r.worker = .collecting it (f :: todo) batch) :
    Conserving { r with
      recv := r.recv.releaseFrom it f
      worker := .collecting it todo (batch ++ r.recv.releasedFrom it f) } := by
  refine ⟨?_, ?_, fun _ _ hw' => by cases hw'⟩
  · have hbalance := h.balance
    rw [hw, r.recv.unconsumed_releaseFrom it f] at hbalance
    simp only [Worker.inBatch, Worker.started] at hbalance ⊢
    rw [hbalance, ← Multiset.coe_add]
    abel
  · intro g q' hq'
    rw [RecvBuffer.lookup_releaseFrom] at hq'
    obtain ⟨q, hq, rfl⟩ := Option.map_eq_some_iff.mp hq'
    refine List.Sublist.trans ?_ (h.order g q hq)
    split_ifs
    · rw [PacketQueue.unconsumed_release, PacketQueue.unconsumed]
      exact List.filter_sublist.map _
    · exact List.Sublist.refl _

theorem Conserving.step {r r' : Receiver} {e : ReceiverEvent} (h : Conserving r)
    (hstep : ReceiverStep r e r') : Conserving r' := by
  have hbalance := h.balance
  cases hstep with
  | emplace => exact h.emplace _ _ _
  | insert hf => exact h.insert hf _
  | setBuffering => exact ⟨hbalance, h.order, h.tasks⟩
  | allowFrameInterleaving => exact ⟨hbalance, h.order, h.tasks⟩
  | wake hw _ =>
      rw [hw] at hbalance
      exact ⟨hbalance, h.order, fun _ _ hw' => by cases hw'⟩
  | visit hw => exact h.visit hw
  | @dispatch it batch hw =>
      rw [hw] at hbalance
      simp only [Worker.inBatch, Worker.started] at hbalance
      split_ifs with hnil
      · subst hnil
        exact ⟨hbalance, h.order, fun _ _ hw' => by cases hw'⟩
      · refine ⟨?_, h.order, fun b tasks hw' => ?_⟩
        · simp only [Worker.inBatch, Worker.started, dispatch_waiting]
          exact hbalance
        · cases hw'
          exact ForkJoin.progress_start _ _ _
  | @task batch tasks tasks' e hw hstep =>
      rw [hw] at hbalance
      have hprog := (h.tasks batch tasks hw).step hstep
      refine ⟨?_, h.order, fun b t hw' => ?_⟩
      · -- a task moves from waiting to started or stays what it was
        have hold := (h.tasks batch tasks hw).conserved
        have hnew := hprog.conserved
        simp only [Worker.inBatch, Worker.started] at hbalance ⊢
        rw [hbalance, add_assoc r.returned, add_comm tasks.started, ← hold, hnew]
        abel
      · cases hw'
        exact hprog
  | @done batch tasks hw hdone =>
      rw [hw] at hbalance
      have hprog := h.tasks batch tasks hw
      refine ⟨?_, h.order, fun _ _ hw' => by cases hw'⟩
      have hconserved := hprog.conserved
      have hfinished := hprog.done hdone
      simp only [Worker.inBatch, Worker.started] at hbalance ⊢
      rw [hbalance, add_assoc r.returned, add_comm tasks.started, ← hconserved, hfinished]
      abel

/-- What waits in the queue of a frame was queued for it. -/
theorem Conserving.mem_queued {r : Receiver} (h : Conserving r) {f : FrameID} {q : PacketQueue}
    (hq : r.recv.packetQueue.lookup f = some q) {x : Packet} (hx : x ∈ q.unconsumed) :
    x ∈ r.queued ∧ x.1.frame = f := by
  have hmem := List.mem_filter.mp ((h.order f q hq).subset hx)
  exact ⟨hmem.1, of_decide_eq_true hmem.2⟩

/-- What the present iteration holds was queued. -/
theorem Conserving.mem_queued_of_inBatch {r : Receiver} (h : Conserving r) {x : Packet}
    (hx : x ∈ r.worker.inBatch) : x ∈ r.queued := by
  rw [← Multiset.mem_coe, h.balance]
  simp [hx]

theorem conserving_start {recv : RecvBuffer} (hempty : recv.packetQueue = ∅) :
    Conserving { recv := recv } := by
  have hnone : recv.unconsumed = 0 := by
    rw [RecvBuffer.unconsumed, hempty]
    rfl
  refine ⟨?_, ?_, fun _ _ hw => by cases hw⟩
  · simp only [hnone]
    rfl
  · intro f q hq
    simp [hempty] at hq

/-- **Receive buffering neither loses nor duplicates packets.** At every point of
every run, what was queued is what was handed over, what the present iteration
holds and what waits in the queues unconsumed; between iterations the second is
empty. Queues keep arrival order, and an iteration takes out unconsumed entries
only. -/
theorem buffering_conserves {es : List ReceiverEvent} {r : Receiver}
    (run : Runs ReceiverStep {} es r) :
    (r.queued : Multiset Packet) = r.handed + r.worker.inBatch + r.recv.unconsumed ∧
      (r.worker = .waiting → (r.queued : Multiset Packet) = r.handed + r.recv.unconsumed) ∧
      ∀ f q, r.recv.packetQueue.lookup f = some q →
        q.unconsumed.Sublist (r.queued.filter fun x => x.1.frame = f) ∧
        ∀ it, (q.released it).Sublist q.unconsumed ∧
          (q.unconsumed : Multiset Packet) = q.released it + (q.release it).unconsumed := by
  have h := run.invariant (conserving_start rfl) fun r e r' h hstep => h.step hstep
  refine ⟨h.balance, fun hw => ?_, fun f q hq => ⟨h.order f q hq, fun it => ⟨?_, ?_⟩⟩⟩
  · have := h.balance
    rw [hw] at this
    simpa [Receiver.handed, Worker.inBatch, hw] using this
  · rw [PacketQueue.released_eq, PacketQueue.unconsumed]
    exact List.filter_sublist.map _
  · exact q.release_conserves it

/-- The only packet of a frame of frameset 0. -/
def loneEndFrame (source : UInt8) : Packet :=
  (⟨40, 0, source, Channel.kEndFrame, 0, 0, 0⟩, { dataFlags := 1 })

def latePacket : Packet := (⟨80, 0, 0, Channel.kColour, 0, 0, 0⟩, {})

/-- Two frames through an iteration, the first of them handed over and one packet left behind. -/
theorem buffering_conserves_released : ∃ es r, Runs ReceiverStep {} es r ∧
    r.queued = [loneEndFrame 0, loneEndFrame 1, latePacket] ∧
      (r.queued : Multiset Packet) = r.handed + r.worker.inBatch + r.recv.unconsumed ∧
      r.handed.card = 1 ∧ r.worker.inBatch.card = 1 ∧ r.recv.unconsumed = {latePacket} := by
  have harrived : Runs ReceiverStep {} _ _ :=
    ((((Runs.init.snoc (@ReceiverStep.emplace _ (loneEndFrame 0).1 0 0)).snoc
      (@ReceiverStep.insert _ (loneEndFrame 0).1 (loneEndFrame 0).2 (by decide))).snoc
      (@ReceiverStep.emplace _ (loneEndFrame 1).1 0 0)).snoc
      (@ReceiverStep.insert _ (loneEndFrame 1).1 (loneEndFrame 1).2 (by decide))).snoc
      (@ReceiverStep.insert _ latePacket.1 latePacket.2 (by decide))
  have run := (((((harrived.snoc (@ReceiverStep.wake _ 1000 rfl (by decide))).snoc
    (.visit rfl)).snoc (.visit rfl)).snoc (.dispatch rfl)).snoc
    (.task rfl (@ForkJoin.Step.join _ _ 0))).snoc (.task rfl (@ForkJoin.Step.call _ _ _ 0 0 0))
  exact ⟨_, _, run, rfl, (buffering_conserves run).1, rfl, rfl, rfl⟩

end BeyondProtocol
