import BeyondProtocol.Net.Completion
import BeyondProtocol.Net.Order

/-!
# EndFrames come last

The consumer of a stream takes the EndFrame of a timestamp as the sign that it
has seen the whole frame. Three mechanisms of the receiving side have to work
together for that: the count of a timestamp keeps its EndFrame in the queue until
everything has arrived, all packets of one timestamp fall due together, and the
dispatch sorts the EndFrame behind the other packets and waits for them.
-/

namespace BeyondProtocol

open Framework

/-! ## §1  The batch behind an EndFrame -/

/-- Two EndFrames of one timestamp compare smaller than each other. -/
def bothEnd (a b : Packet) : Prop :=
  a.1.timestamp = b.1.timestamp ∧ a.1.isEndFrame = true ∧ b.1.isEndFrame = true

/-- What the dispatch processes after an EndFrame is of another timestamp. -/
theorem timestamp_ne_of_sorted {batch pre post : List Packet} {x : Packet}
    (hbatch : batch.Pairwise fun a b => ¬ bothEnd a b)
    (hsort : sortPackets batch = pre ++ x :: post) (hend : x.1.isEndFrame = true) :
    ∀ y ∈ post, y.1.timestamp ≠ x.1.timestamp := by
  have hsorted := sortPackets_sorted batch
  have hends : (sortPackets batch).Pairwise fun a b => ¬ bothEnd a b := by
    refine (List.Perm.pairwise_iff ?_ (List.perm_insertionSort _ batch)).mpr hbatch
    intro a b hab hba
    exact hab ⟨hba.1.symm, hba.2.2, hba.2.1⟩
  rw [hsort] at hsorted hends
  intro y hy ht
  have hxy := (List.pairwise_cons.mp (List.pairwise_append.mp hsorted).2.1).1 y hy
  exact (List.pairwise_cons.mp (List.pairwise_append.mp hends).2.1).1 y hy
    ⟨ht.symm, hend, hxy.2 ht.symm hend⟩

/-! ## §2  The packets of one frame -/

/-- The packets of a timestamp. -/
def ofTime (t : Int) (xs : Multiset Packet) : Multiset Packet :=
  xs.filter fun x => x.1.timestamp = t

/-- A well-formed stream of one frame: each timestamp has exactly one EndFrame, which
carries the number of its packets. -/
structure Framed (f : FrameID) (all : Multiset Packet) : Prop where
  frame : ∀ x ∈ all, x.1.frame = f
  one : ∀ x ∈ all, ((ofTime x.1.timestamp all).filter fun y => y.1.isEndFrame = true).card = 1
  announced : ∀ x ∈ all, x.1.isEndFrame = true →
    x.2.packetCount = (ofTime x.1.timestamp all).card

theorem ofTime_le {xs ys : Multiset Packet} (h : xs ≤ ys) (t : Int) : ofTime t xs ≤ ofTime t ys :=
  Multiset.filter_le_filter _ h

theorem ofTime_add (t : Int) (xs ys : Multiset Packet) :
    ofTime t (xs + ys) = ofTime t xs + ofTime t ys :=
  Multiset.filter_add _ xs ys

theorem ofTime_eq_zero {t : Int} {xs : Multiset Packet} (h : ∀ x ∈ xs, x.1.timestamp ≠ t) :
    ofTime t xs = 0 :=
  Multiset.filter_eq_nil.mpr h

theorem Framed.pairwise {f : FrameID} {all : Multiset Packet} (h : Framed f all)
    {batch : List Packet} (hle : (batch : Multiset Packet) ≤ all) :
    batch.Pairwise fun a b => ¬ bothEnd a b := by
  rw [List.pairwise_iff_forall_sublist]
  rintro a b hab ⟨ht, ha, hb⟩
  have hpair : ({a, b} : Multiset Packet) ≤ all :=
    le_trans (Multiset.coe_le.mpr hab.subperm) hle
  have hends := Multiset.card_le_card (Multiset.filter_le_filter (fun y => y.1.isEndFrame = true)
    (ofTime_le hpair a.1.timestamp))
  have ha' : a ∈ all := Multiset.mem_of_le hpair (by simp)
  rw [h.one a ha'] at hends
  simp [ofTime, Multiset.filter_singleton, ha, hb, ht.symm] at hends

/-- Where an EndFrame has arrived and the count is even, nothing is missing. -/
theorem Framed.whole {f : FrameID} {all : Multiset Packet} (h : Framed f all)
    {queued : List Packet} (hle : (queued : Multiset Packet) ≤ all) {x : Packet}
    (hx : x ∈ queued) (hend : x.1.isEndFrame = true)
    (hbalance : balance (queued.filter fun y => y.1.timestamp = x.1.timestamp) = 0) :
    ofTime x.1.timestamp queued = ofTime x.1.timestamp all := by
  set t := x.1.timestamp with ht
  set here := queued.filter fun y => y.1.timestamp = t with hhere
  have hcoe : ofTime t queued = here := rfl
  have hxall : x ∈ all := Multiset.mem_of_le hle hx
  have hxhere : x ∈ here := List.mem_filter.mpr ⟨hx, by simp [ht]⟩
  have hcount : here.countP (fun y => y.1.isEndFrame) = 1 := by
    refine le_antisymm ?_ (List.countP_pos_iff.mpr ⟨x, hxhere, hend⟩)
    have hends := Multiset.card_le_card (Multiset.filter_le_filter
      (fun y => y.1.isEndFrame = true) (ofTime_le hle t))
    rw [h.one x hxall, hcoe, ← Multiset.countP_eq_card_filter, Multiset.coe_countP] at hends
    simpa using hends
  have hannounced : ∀ y ∈ here, y.1.isEndFrame = true →
      y.2.packetCount = (ofTime t all).card := by
    intro y hy hy'
    obtain ⟨hyq, hyt⟩ := List.mem_filter.mp hy
    rw [h.announced y (Multiset.mem_of_le hle hyq) hy', of_decide_eq_true hyt]
  rw [balance_eq hannounced, hcount] at hbalance
  refine Multiset.eq_of_le_of_card_le (ofTime_le hle t) ?_
  rw [hcoe, Multiset.coe_card]
  push_cast at hbalance
  omega

/-! ## §3  What has left the queues -/

/-- What the worker took out of the queues so far. -/
def Receiver.taken (r : Receiver) : Multiset Packet := r.handed + r.worker.inBatch

/-- The callbacks that have returned. -/
def Receiver.completed (r : Receiver) : Multiset Packet :=
  r.returned + match r.worker with
    | .dispatching _ tasks => tasks.finished
    | _ => 0

structure Holding (f : FrameID) (all : Multiset Packet) (r : Receiver) : Prop where
  conserving : Conserving r
  offsets : r.recv.Offsets
  count : ∀ t, r.recv.incomplete f t =
    stored (balance (r.queued.filter fun x => x.1.timestamp = t))
  /-- An EndFrame leaves the queue last. -/
  last : ∀ x ∈ r.taken, x.1.isEndFrame = true →
    ofTime x.1.timestamp r.queued = ofTime x.1.timestamp all ∧
      ∀ y ∈ r.recv.unconsumed, y.1.timestamp ≠ x.1.timestamp

theorem Conserving.split {r : Receiver} (h : Conserving r) :
    (r.queued : Multiset Packet) = r.taken + r.recv.unconsumed :=
  h.balance

/-- A step that does not touch the queues. -/
theorem Holding.of_eq {f : FrameID} {all : Multiset Packet} {r r' : Receiver}
    (h : Holding f all r) (hcons : Conserving r') (hqueued : r'.queued = r.queued)
    (hrecv : r'.recv.packetQueue = r.recv.packetQueue) : Holding f all r' := by
  have hunconsumed : r'.recv.unconsumed = r.recv.unconsumed := by
    rw [RecvBuffer.unconsumed, hrecv, RecvBuffer.unconsumed]
  have htaken : r'.taken = r.taken := by
    have hsplit := hcons.split
    rw [hqueued, hunconsumed, h.conserving.split] at hsplit
    exact (add_right_cancel hsplit).symm
  refine ⟨hcons, fun g q hq => h.offsets g q (hrecv ▸ hq), fun t => ?_, ?_⟩
  · rw [RecvBuffer.incomplete, hrecv, hqueued]
    exact h.count t
  · rw [htaken, hqueued, hunconsumed]
    exact h.last

theorem Holding.emplace {f : FrameID} {all : Multiset Packet} {r : Receiver}
    (h : Holding f all r) (now buffering : Int) (spkt : StreamPacket) :
    Holding f all { r with recv := r.recv.emplaceQueue now buffering spkt } := by
  have hcons := h.conserving.emplace now buffering spkt
  have hunconsumed := r.recv.unconsumed_emplaceQueue now buffering spkt
  refine ⟨hcons, h.offsets.emplaceQueue now buffering spkt, fun t => ?_, fun x hx hend => ?_⟩
  · rw [RecvBuffer.incomplete_emplaceQueue]
    exact h.count t
  · rw [hunconsumed]
    exact h.last x hx hend

theorem Holding.insert {f : FrameID} {all : Multiset Packet} (hframed : Framed f all)
    {r : Receiver} (h : Holding f all r) {spkt : StreamPacket} {dpkt : DataPacket}
    (hmem : spkt.frame ∈ r.recv.packetQueue)
    (hle : ((r.queued ++ [(spkt, dpkt)] : List Packet) : Multiset Packet) ≤ all) :
    Holding f all { r with
      recv := r.recv.insertPacket spkt dpkt
      queued := r.queued ++ [(spkt, dpkt)] } := by
  have hcons := h.conserving.insert hmem dpkt
  have hframe : spkt.frame = f := hframed.frame (spkt, dpkt) (Multiset.mem_of_le hle (by simp))
  have hunconsumed := RecvBuffer.unconsumed_insertPacket hmem dpkt
  refine ⟨hcons, h.offsets.insertPacket spkt dpkt, fun t => ?_, fun x hx hend => ?_⟩
  · rw [RecvBuffer.incomplete_insertPacket hmem, h.count t, stored_getD, List.filter_append,
      balance_append]
    by_cases ht : spkt.timestamp = t <;> simp [hframe, ht, balance]
  · obtain ⟨hwhole, hgone⟩ := h.last x hx hend
    -- all of the timestamp is in already
    have hne : spkt.timestamp ≠ x.1.timestamp := by
      intro ht
      have hcard := Multiset.card_le_card (ofTime_le hle x.1.timestamp)
      rw [← hwhole, ← Multiset.coe_add, ofTime_add, Multiset.card_add] at hcard
      simp [ofTime, ht] at hcard
    have hother : ofTime x.1.timestamp ([(spkt, dpkt)] : List Packet) = 0 :=
      ofTime_eq_zero (by simpa using hne)
    refine ⟨?_, fun y hy => ?_⟩
    · rw [← Multiset.coe_add, ofTime_add, hother, add_zero]
      exact hwhole
    · rw [hunconsumed] at hy
      rcases Multiset.mem_add.mp hy with hy | hy
      · exact hgone y hy
      · rw [Multiset.mem_singleton.mp hy]
        exact hne

/-- The EndFrame of a timestamp is among the packets an iteration takes. -/
theorem Holding.release {f : FrameID} {all : Multiset Packet} (hframed : Framed f all)
    {r r' : Receiver} (h : Holding f all r) (hle : (r.queued : Multiset Packet) ≤ all)
    {it : Iteration} {g : FrameID} (hcons : Conserving r')
    (hrecv : r'.recv = r.recv.releaseFrom it g) (hqueued : r'.queued = r.queued) {x : Packet}
    (hx : x ∈ r.recv.releasedFrom it g) (hend : x.1.isEndFrame = true) :
    ofTime x.1.timestamp r.queued = ofTime x.1.timestamp all ∧
      ∀ y ∈ r'.recv.unconsumed, y.1.timestamp ≠ x.1.timestamp := by
  have hcomplete := RecvBuffer.complete_of_released hx hend
  cases hq : r.recv.packetQueue.lookup g with
  | none => simp [RecvBuffer.releasedFrom, hq] at hx
  | some q =>
      simp only [RecvBuffer.releasedFrom, hq] at hx
      have hxq : x ∈ q.unconsumed := by
        rw [PacketQueue.released_eq] at hx
        exact (List.filter_sublist.map _).subset hx
      obtain ⟨hxqueued, hxg⟩ := h.conserving.mem_queued hq hxq
      -- the stream has one frame only, so `g` is its queue
      obtain rfl : g = f := hxg.symm.trans (hframed.frame x (Multiset.mem_of_le hle hxqueued))
      refine ⟨hframed.whole hle hxqueued hend ?_, fun y hy => ?_⟩
      · rw [← stored_eq_none, ← h.count, hcomplete]
      · obtain ⟨g', q', hq', hyq'⟩ := RecvBuffer.mem_unconsumed.mp hy
        obtain ⟨hyqueued, hyg⟩ := hcons.mem_queued hq' hyq'
        rw [hqueued] at hyqueued
        obtain rfl : g' = g :=
          hyg.symm.trans (hframed.frame y (Multiset.mem_of_le hle hyqueued))
        rw [hrecv, RecvBuffer.lookup_releaseFrom, hq] at hq'
        simp only [Option.map_some, if_true, Option.some.injEq] at hq'
        subst hq'
        rw [RecvBuffer.incomplete, hq] at hcomplete
        intro ht
        have hheld := PacketQueue.heldBack_of_left (h.offsets _ q hq) hx hyq' (by rw [ht])
        have hcomplete' : q.incompletePacketCount y.1.timestamp = none := ht ▸ hcomplete
        simp [PacketQueue.heldBack, hcomplete'] at hheld

/-- A visit takes what it releases. -/
theorem taken_visit {r : Receiver} {it : Iteration} {g : FrameID} {todo : List FrameID}
    {batch : List Packet} (hw : r.worker = .collecting it (g :: todo) batch) :
    Receiver.taken { r with
      recv := r.recv.releaseFrom it g
      worker := .collecting it todo (batch ++ r.recv.releasedFrom it g) } =
      r.taken + r.recv.releasedFrom it g := by
  rw [Receiver.taken, Receiver.taken, Receiver.handed, Receiver.handed, hw]
  simp only [Worker.started, Worker.inBatch, ← Multiset.coe_add, add_assoc]

theorem Holding.visit {f : FrameID} {all : Multiset Packet} (hframed : Framed f all)
    {r : Receiver} (h : Holding f all r) (hle : (r.queued : Multiset Packet) ≤ all)
    {it : Iteration} {g : FrameID} {todo : List FrameID} {batch : List Packet}
    (hw : r.worker = .collecting it (g :: todo) batch) :
    Holding f all { r with
      recv := r.recv.releaseFrom it g
      worker := .collecting it todo (batch ++ r.recv.releasedFrom it g) } := by
  have hcons := h.conserving.visit hw
  set r' : Receiver := { r with
    recv := r.recv.releaseFrom it g
    worker := .collecting it todo (batch ++ r.recv.releasedFrom it g) } with hr'
  have htaken : r'.taken = r.taken + r.recv.releasedFrom it g := taken_visit hw
  have hunconsumed := r.recv.unconsumed_releaseFrom it g
  refine ⟨hcons, h.offsets.releaseFrom it g, fun t => ?_, fun x hx hend => ?_⟩
  · rw [RecvBuffer.incomplete_releaseFrom]
    exact h.count t
  · rw [htaken] at hx
    rcases Multiset.mem_add.mp hx with hold | hnew
    · obtain ⟨hwhole, hgone⟩ := h.last x hold hend
      refine ⟨hwhole, fun y hy => hgone y ?_⟩
      rw [hunconsumed]
      exact Multiset.mem_add.mpr (.inr hy)
    · exact h.release hframed hle hcons rfl rfl hnew hend

theorem Holding.step {f : FrameID} {all : Multiset Packet} (hframed : Framed f all)
    {r r' : Receiver} {e : ReceiverEvent} (h : Holding f all r) (hstep : ReceiverStep r e r')
    (hle : (r'.queued : Multiset Packet) ≤ all) : Holding f all r' := by
  have hcons := h.conserving.step hstep
  cases hstep with
  | emplace => exact h.emplace _ _ _
  | insert hmem => exact h.insert hframed hmem hle
  | visit hw => exact h.visit hframed hle hw
  | setBuffering => exact h.of_eq hcons rfl rfl
  | allowFrameInterleaving => exact h.of_eq hcons rfl rfl
  | wake => exact h.of_eq hcons rfl rfl
  | dispatch => exact h.of_eq hcons rfl rfl
  | task => exact h.of_eq hcons rfl rfl
  | done => exact h.of_eq hcons rfl rfl

/-- What was queued stays queued. -/
theorem queued_le {r r' : Receiver} {e : ReceiverEvent} (hstep : ReceiverStep r e r') :
    (r.queued : Multiset Packet) ≤ r'.queued := by
  cases hstep with
  | insert => exact Multiset.coe_le.mpr (List.sublist_append_left _ _).subperm
  | _ => exact le_rfl

theorem holding_start (f : FrameID) (all : Multiset Packet) {recv : RecvBuffer}
    (hempty : recv.packetQueue = ∅) : Holding f all { recv := recv } where
  conserving := conserving_start hempty
  offsets := fun _ _ hq => absurd hq (by simp [hempty])
  count := fun _ => by simp [RecvBuffer.incomplete, hempty, stored]
  last := fun x hx => absurd hx (Multiset.notMem_zero x)

/-- **EndFrames come last.** On a stream of one frame, whatever the order in which the
packets arrive, whatever the times and the changes of the buffering delay: when the
callback of an EndFrame starts, the callbacks of all other packets of its timestamp have
returned. -/
theorem endFrame_starts_last {f : FrameID} {all : Multiset Packet} (hframed : Framed f all)
    {es : List ReceiverEvent} {r r' : Receiver} (run : Runs ReceiverStep {} es r)
    (hall : (r.queued : Multiset Packet) ≤ all) {x : Packet} (hend : x.1.isEndFrame = true)
    (hstart : ReceiverStep r (.task (.start x)) r') :
    ofTime x.1.timestamp all = x ::ₘ ofTime x.1.timestamp r.completed := by
  have h : (r.queued : Multiset Packet) ≤ all → Holding f all r :=
    run.invariant (I := fun r => (r.queued : Multiset Packet) ≤ all → Holding f all r)
      (fun _ => holding_start f all rfl)
      fun _ _ _ ih hstep hle => (ih ((queued_le hstep).trans hle)).step hframed hstep hle
  replace h := h hall
  cases hstart with
  | @task batch tasks tasks' _ hw hstep =>
      have hvideo : isVideoPacket x = false := by
        simp only [StreamPacket.isEndFrame, decide_eq_true_eq] at hend
        simp [isVideoPacket, Channel.isVideo, hend, Channel.kEndFrame]
      obtain ⟨pre, post, hsort, hpre, hwaiting, hstarted⟩ :=
        (h.conserving.tasks batch tasks hw).calls_barrier hstep hvideo hend
      have htaken : r.taken = r.completed + ↑(x :: post) := by
        rw [Receiver.taken, Receiver.handed, Receiver.completed, hw]
        simp only [Worker.started, Worker.inBatch, hwaiting, hstarted]
      have hbatch : (batch : Multiset Packet) ≤ all := by
        refine le_trans ?_ hall
        rw [h.conserving.split, htaken, Receiver.completed, hw, ← coe_sortPackets, hsort,
          ← Multiset.coe_add, hpre, add_assoc r.returned]
        exact (Multiset.le_add_left _ _).trans (Multiset.le_add_right _ _)
      -- nothing of the timestamp comes later in the batch, and nothing is left in the queues
      have hpost := timestamp_ne_of_sorted (hframed.pairwise hbatch) hsort hend
      obtain ⟨hwhole, hgone⟩ := h.last x (by rw [htaken]; simp) hend
      have hx : ofTime x.1.timestamp ↑(x :: post) = {x} := by
        have hrest : ofTime x.1.timestamp (post : Multiset Packet) = 0 := ofTime_eq_zero hpost
        rw [← Multiset.cons_coe, ← Multiset.singleton_add, ofTime_add, hrest]
        simp [ofTime, Multiset.filter_singleton]
      calc
        ofTime x.1.timestamp all = ofTime x.1.timestamp (r.taken + r.recv.unconsumed) := by
          rw [← hwhole, h.conserving.split]
        _ = ofTime x.1.timestamp r.completed + {x} := by
          rw [htaken, ofTime_add, ofTime_add, ofTime_eq_zero hgone, hx, add_zero]
        _ = x ::ₘ ofTime x.1.timestamp r.completed := by
          rw [add_comm, Multiset.singleton_add]

/-- A colour packet of frame (0, 0), and the EndFrame that counts both. -/
def colourOfPair : Packet := (⟨40, 0, 0, Channel.kColour, 0, 0, 0⟩, {})
def endOfPair : Packet := (⟨40, 0, 0, Channel.kEndFrame, 0, 0, 0⟩, { dataFlags := 2 })

theorem framed_pair : Framed ⟨0⟩ {endOfPair, colourOfPair} where
  frame := by decide
  one := by decide
  announced := by decide

/-- The tasks of an iteration that took both, when the colour packet has returned. -/
def colourReturned : ForkJoin.Config Packet :=
  ⟨[.call endOfPair, .join], 0, 0, 0, {colourOfPair}⟩

theorem run_colourReturned : Runs ForkJoin.Step (dispatch [endOfPair, colourOfPair])
    [.main, .start colourOfPair, .finish colourOfPair, .main] colourReturned :=
  (((Runs.init.snoc
    (@ForkJoin.Step.spawn _ colourOfPair [.join, .call endOfPair, .join] 0 0 0)).snoc
    (@ForkJoin.Step.taskStart _ colourOfPair [.join, .call endOfPair, .join] 0 0 0 0)).snoc
    (@ForkJoin.Step.taskFinish _ colourOfPair [.join, .call endOfPair, .join] 0 0 0 0)).snoc
    (@ForkJoin.Step.join _ [.call endOfPair, .join] {colourOfPair})

/-- A run of the tasks is a run of the receiver. -/
theorem run_tasks {r₀ r : Receiver} {fs : List ReceiverEvent} (batch : List Packet)
    {tasks tasks' : ForkJoin.Config Packet} {es : List (ForkJoin.Event Packet)}
    (run : Runs ReceiverStep r₀ fs { r with worker := .dispatching batch tasks })
    (hrun : Runs ForkJoin.Step tasks es tasks') :
    Runs ReceiverStep r₀ (fs ++ es.map .task) { r with worker := .dispatching batch tasks' } := by
  induction hrun with
  | init => simpa using run
  | snoc _ hstep ih =>
      rw [List.map_append, ← List.append_assoc]
      exact ih.snoc (.task rfl hstep)

theorem endFrame_starts_last_pair : ∃ es r, Runs ReceiverStep {} es r ∧
    ofTime 40 {endOfPair, colourOfPair} = endOfPair ::ₘ ofTime 40 r.completed ∧
    r.completed = {colourOfPair} := by
  have run : Runs ReceiverStep {} _ _ :=
    (((((Runs.init.snoc (@ReceiverStep.emplace _ endOfPair.1 0 0)).snoc
      (@ReceiverStep.insert _ endOfPair.1 endOfPair.2 (by decide))).snoc
      (@ReceiverStep.insert _ colourOfPair.1 colourOfPair.2 (by decide))).snoc
      (@ReceiverStep.wake _ 1 rfl (by decide))).snoc (.visit rfl)).snoc (.dispatch rfl)
  have run' := run_tasks [endOfPair, colourOfPair] run run_colourReturned
  exact ⟨_, _, run', endFrame_starts_last framed_pair run' (by decide) rfl
    (.task rfl ForkJoin.Step.call), rfl⟩

end BeyondProtocol
