import BeyondProtocol.Framework.Sorting
import BeyondProtocol.Net.Release

/-!
# The order in which callbacks start

The batch of an iteration is sorted by timestamp, but its video packets are handed to
the thread pool, which starts them in any order until the next EndFrame makes the
worker wait. Between iterations, what was taken out of the queues is ahead of what was
left in them.

`Sequenced` collects this for any relation that asks some packets to start before
others: it says what each kind of step has to respect, and the results about order
instantiate it.
-/

namespace BeyondProtocol

open Framework

/-! ## §1  The sorted batch -/

/-- The order of a sorted batch: by timestamp, with only EndFrames behind an EndFrame of
the same timestamp. -/
def Sorted (a b : Packet) : Prop :=
  a.1.timestamp ≤ b.1.timestamp ∧
    (a.1.timestamp = b.1.timestamp → a.1.isEndFrame = true → b.1.isEndFrame = true)

theorem sorted_of_not_before {a b : Packet} (h : comesBefore b a = false) : Sorted a b := by
  unfold comesBefore at h
  split_ifs at h with ht
  · refine ⟨ht.symm.le, ?_⟩
    intro _ hend
    rw [hend] at h
    cases h
  · rw [decide_eq_false_iff_not, not_lt] at h
    exact ⟨h, fun heq => absurd heq.symm ht⟩

theorem sorted_of_before {a b : Packet} (h : comesBefore a b = true) : Sorted a b := by
  unfold comesBefore at h
  split_ifs at h with ht
  · exact ⟨ht.le, fun _ _ => h⟩
  · have hlt := of_decide_eq_true h
    exact ⟨hlt.le, fun heq => absurd heq ht⟩

theorem Sorted.trans {a b c : Packet} (hab : Sorted a b) (hbc : Sorted b c) : Sorted a c := by
  refine ⟨hab.1.trans hbc.1, ?_⟩
  intro hac hend
  have hab' : a.1.timestamp = b.1.timestamp := le_antisymm hab.1 (hac ▸ hbc.1)
  exact hbc.2 (hab'.symm.trans hac) (hab.2 hab' hend)

/-- Two EndFrames of one timestamp each compare smaller than the other, and still the
batch comes out sorted. -/
theorem sortPackets_sorted (batch : List Packet) : (sortPackets batch).Pairwise Sorted := by
  refine pairwise_insertionSort (r := fun a b => comesBefore b a = false) (w := Sorted)
    (fun a b c => Sorted.trans) ?_ ?_ batch
  · intro a b h
    exact sorted_of_not_before h
  · intro a b h
    exact sorted_of_before (by simpa using h)

theorem mem_sortPackets {batch : List Packet} {x : Packet} : x ∈ sortPackets batch ↔ x ∈ batch :=
  List.mem_insertionSort _

/-- What stands between two packets of the sorted batch in the order, stands between them
in the batch. -/
theorem mem_between {batch l₁ l₂ l₃ : List Packet} {x y e : Packet}
    (hl : sortPackets batch = l₁ ++ x :: (l₂ ++ y :: l₃)) (he : e ∈ batch)
    (hxe : ¬ Sorted e x) (hey : ¬ Sorted y e) : e ∈ l₂ := by
  have hself : ∀ z : Packet, Sorted z z := fun z => ⟨le_rfl, fun _ h => h⟩
  have hsorted := sortPackets_sorted batch
  have hmem : e ∈ sortPackets batch := mem_sortPackets.mpr he
  rw [hl] at hsorted hmem
  obtain ⟨-, hrest, hfirst⟩ := List.pairwise_append.mp hsorted
  obtain ⟨-, hrest⟩ := List.pairwise_cons.mp hrest
  obtain ⟨-, hlast, -⟩ := List.pairwise_append.mp hrest
  rcases List.mem_append.mp hmem with he | he
  · exact absurd (hfirst e he x (by simp)) hxe
  · rcases List.mem_cons.mp he with rfl | he
    · exact absurd (hself _) hxe
    · rcases List.mem_append.mp he with he | he
      · exact he
      · rcases List.mem_cons.mp he with rfl | he
        · exact absurd (hself _) hey
        · exact absurd ((List.pairwise_cons.mp hlast).1 e he) hey

theorem not_end_of_video {x : Packet} (h : isVideoPacket x = true) : isEndPacket x = false := by
  have hlt : x.1.channel < 32 := of_decide_eq_true h
  refine decide_eq_false ?_
  intro hend
  rw [hend] at hlt
  exact absurd hlt (by decide)

theorem waits_of_end {x : Packet} (h : isEndPacket x = true) :
    ForkJoin.Waits isVideoPacket isEndPacket x := by
  refine ⟨?_, h⟩
  by_contra hvideo
  rw [not_end_of_video (by simpa using hvideo)] at h
  cases h

/-! ## §2  Packets fall due in the order of their timestamps -/

namespace RecvBuffer

/-- Entries carry their offset to the first packet of the queue. -/
def Offsets (b : RecvBuffer) : Prop :=
  ∀ f q, b.packetQueue.lookup f = some q → ∀ e ∈ q.packets,
    e.tsRel = toInt64 (e.spkt.timestamp - q.tsBaseSpkt)

theorem Offsets.emplaceQueue {b : RecvBuffer} (h : b.Offsets) (now buffering : Int)
    (spkt : StreamPacket) : (b.emplaceQueue now buffering spkt).Offsets := by
  intro f q hq
  rcases lookup_emplaceQueue hq with hq | ⟨-, rfl⟩
  · exact h f q hq
  · simp

theorem Offsets.insertPacket {b : RecvBuffer} (h : b.Offsets) (spkt : StreamPacket)
    (dpkt : DataPacket) : (b.insertPacket spkt dpkt).Offsets := by
  intro f q' hq' e he
  rw [lookup_insertPacket] at hq'
  obtain ⟨q, hq, rfl⟩ := Option.map_eq_some_iff.mp hq'
  split_ifs at he ⊢
  · rcases List.mem_append.mp he with he | he
    · exact h f q hq e he
    · rw [List.mem_singleton.mp he]
      rfl
  · exact h f q hq e he

theorem Offsets.releaseFrom {b : RecvBuffer} (h : b.Offsets) (it : Iteration) (g : FrameID) :
    (b.releaseFrom it g).Offsets := by
  intro f q' hq' e he
  rw [lookup_releaseFrom] at hq'
  obtain ⟨q, hq, rfl⟩ := Option.map_eq_some_iff.mp hq'
  by_cases hf : f = g
  · rw [if_pos hf] at he ⊢
    obtain ⟨e₀, he₀, rfl⟩ := List.mem_map.mp ((List.dropWhile_suffix _).subset he)
    have := h f q hq e₀ he₀
    split_ifs <;> exact this
  · rw [if_neg hf] at he ⊢
    exact h f q hq e he

end RecvBuffer

theorem ReceiverStep.offsets {r r' : Receiver} {e : ReceiverEvent} (hstep : ReceiverStep r e r')
    (h : r.recv.Offsets) : r'.recv.Offsets := by
  cases hstep with
  | emplace => exact h.emplaceQueue _ _ _
  | insert => exact h.insertPacket _ _
  | visit => exact h.releaseFrom _ _
  | setBuffering => exact h
  | allowFrameInterleaving => exact h
  | wake => exact h
  | dispatch => exact h
  | task => exact h
  | done => exact h

namespace PacketQueue

/-- An incomplete frame keeps its EndFrame, and under synchronisation all its packets, in
the queue. -/
def heldBack (q : PacketQueue) (it : Iteration) (x : Packet) : Bool :=
  (it.syncFrames || x.1.isEndFrame) && (q.incompletePacketCount x.1.timestamp).isSome

/-- The time a packet falls due, in milliseconds. -/
def releaseTime (q : PacketQueue) (buffering t : Int) : Int :=
  q.tsBaseLocal + (t - q.tsBaseSpkt) + buffering

/-- The same in microseconds, as the worker computes it. -/
def releaseMicro (q : PacketQueue) (buffering t : Int) : Int :=
  toInt64 (q.releaseTime buffering t * 1000)

/-- The worker computes it without an overflow. -/
def Fits (q : PacketQueue) (buffering t : Int) : Prop :=
  -2 ^ 63 ≤ q.releaseTime buffering t * 1000 ∧ q.releaseTime buffering t * 1000 < 2 ^ 63

instance (q : PacketQueue) (buffering t : Int) : Decidable (q.Fits buffering t) :=
  inferInstanceAs (Decidable (_ ∧ _))

theorem Fits.releaseMicro_eq {q : PacketQueue} {buffering t : Int} (h : q.Fits buffering t) :
    q.releaseMicro buffering t = q.releaseTime buffering t * 1000 :=
  Int.bmod_eq_of_le h.1 h.2

/-- Without an overflow packets fall due in the order of their timestamps. -/
theorem Fits.releaseMicro_le {q : PacketQueue} {buffering s t : Int} (hs : q.Fits buffering s)
    (ht : q.Fits buffering t) (hle : s ≤ t) :
    q.releaseMicro buffering s ≤ q.releaseMicro buffering t := by
  rw [hs.releaseMicro_eq, ht.releaseMicro_eq]
  unfold releaseTime
  omega

/-- Where the sums before it overflow, the product wraps to the same value. -/
theorem releaseMicro_offset (q : PacketQueue) (buffering t : Int) :
    toInt64 (toInt64 (q.tsBaseLocal + toInt64 (t - q.tsBaseSpkt) + buffering) * 1000) =
      q.releaseMicro buffering t := by
  unfold releaseMicro releaseTime toInt64
  rw [Int.bmod_mul_bmod, Int.add_right_comm, ← Int.bmod_mul_bmod, Int.add_bmod_bmod,
    Int.bmod_mul_bmod, Int.add_right_comm]

theorem shouldProcessNow_eq {q : PacketQueue} (it : Iteration) {e : PacketBuffer}
    (hrel : e.tsRel = toInt64 (e.spkt.timestamp - q.tsBaseSpkt)) :
    q.shouldProcessNow it e = (!q.heldBack it e.packet &&
      decide (q.releaseMicro it.buffering e.spkt.timestamp < it.nowMicro)) := by
  rw [← releaseMicro_offset, ← hrel]
  unfold shouldProcessNow heldBack PacketBuffer.packet
  cases it.syncFrames <;> cases e.spkt.isEndFrame <;>
    cases q.incompletePacketCount e.spkt.timestamp <;> simp

section Release

variable {q : PacketQueue} {it : Iteration}
  (hoffsets : ∀ e ∈ q.packets, e.tsRel = toInt64 (e.spkt.timestamp - q.tsBaseSpkt))
include hoffsets

theorem mem_released {x : Packet} : x ∈ q.released it ↔ x ∈ q.unconsumed ∧
    q.heldBack it x = false ∧ q.releaseMicro it.buffering x.1.timestamp < it.nowMicro := by
  rw [released_eq, unconsumed]
  constructor
  · intro hx
    obtain ⟨e, he, rfl⟩ := List.mem_map.mp hx
    obtain ⟨heq, hdue⟩ := List.mem_filter.mp he
    rw [shouldProcessNow_eq it (hoffsets e (List.mem_of_mem_filter heq)), Bool.and_eq_true,
      Bool.not_eq_true', decide_eq_true_eq] at hdue
    exact ⟨List.mem_map_of_mem heq, hdue⟩
  · rintro ⟨hx, hdue⟩
    obtain ⟨e, he, rfl⟩ := List.mem_map.mp hx
    refine List.mem_map_of_mem (List.mem_filter.mpr ⟨he, ?_⟩)
    rw [shouldProcessNow_eq it (hoffsets e (List.mem_of_mem_filter he)), Bool.and_eq_true,
      Bool.not_eq_true', decide_eq_true_eq]
    exact hdue

theorem mem_unconsumed_release {x : Packet} : x ∈ (q.release it).unconsumed ↔
    x ∈ q.unconsumed ∧ (q.heldBack it x = true ∨
      it.nowMicro ≤ q.releaseMicro it.buffering x.1.timestamp) := by
  rw [unconsumed_release, unconsumed]
  constructor
  · intro hx
    obtain ⟨e, he, rfl⟩ := List.mem_map.mp hx
    obtain ⟨heq, hwait⟩ := List.mem_filter.mp he
    rw [shouldProcessNow_eq it (hoffsets e (List.mem_of_mem_filter heq)), Bool.not_and,
      Bool.not_not, Bool.or_eq_true, Bool.not_eq_true', decide_eq_false_iff_not, not_lt] at hwait
    exact ⟨List.mem_map_of_mem heq, hwait⟩
  · rintro ⟨hx, hwait⟩
    obtain ⟨e, he, rfl⟩ := List.mem_map.mp hx
    refine List.mem_map_of_mem (List.mem_filter.mpr ⟨he, ?_⟩)
    rw [shouldProcessNow_eq it (hoffsets e (List.mem_of_mem_filter he)), Bool.not_and,
      Bool.not_not, Bool.or_eq_true, Bool.not_eq_true', decide_eq_false_iff_not, not_lt]
    exact hwait

/-- What is left behind by an iteration that takes something due later is held back. -/
theorem heldBack_of_left {x y : Packet} (hx : x ∈ q.released it)
    (hy : y ∈ (q.release it).unconsumed)
    (hle : q.releaseMicro it.buffering y.1.timestamp ≤
      q.releaseMicro it.buffering x.1.timestamp) : q.heldBack it y = true := by
  obtain ⟨-, -, hdue⟩ := (mem_released hoffsets).mp hx
  obtain ⟨-, hheld | hearly⟩ := (mem_unconsumed_release hoffsets).mp hy
  · exact hheld
  · exact absurd (hle.trans_lt hdue) (not_lt.mpr hearly)

end Release

end PacketQueue

/-! ## §3  Steps that respect an order -/

/-- The packet whose callback an event starts. -/
def ReceiverEvent.starts : ReceiverEvent → List Packet
  | .task (.start x) => [x]
  | _ => []

/-- The packet an event queues. -/
def ReceiverEvent.queues : ReceiverEvent → List Packet
  | .insert spkt dpkt => [(spkt, dpkt)]
  | _ => []

theorem ReceiverStep.queued_eq {r r' : Receiver} {e : ReceiverEvent}
    (hstep : ReceiverStep r e r') : r'.queued = r.queued ++ e.queues := by
  cases hstep with
  | insert => rfl
  | _ => exact (List.append_nil _).symm

/-- Only what the iteration holds can start. -/
theorem ReceiverStep.mem_inBatch {r r' : Receiver} {e : ReceiverEvent}
    (hstep : ReceiverStep r e r') {x : Packet} (hx : x ∈ e.starts) : x ∈ r.worker.inBatch := by
  cases hstep with
  | @task batch tasks tasks' e hw hstep =>
      cases e with
      | start a =>
          rw [hw, List.mem_singleton.mp hx, Worker.inBatch, hstep.waiting_start]
          exact Multiset.mem_cons_self a _
      | finish a => cases hx
      | main => cases hx
  | _ => cases hx

/-- Every callback started is handed over, and nothing else is. -/
theorem ReceiverStep.handed_eq {r r' : Receiver} {e : ReceiverEvent} (hcons : Conserving r)
    (hstep : ReceiverStep r e r') : r'.handed = r.handed + (e.starts : Multiset Packet) := by
  unfold Receiver.handed
  cases hstep with
  | @task batch tasks tasks' e hw hstep =>
      have hprogress := hcons.tasks batch tasks hw
      rw [hw]
      cases e with
      | start a =>
          simp only [Worker.started, hprogress.started_start hstep, ReceiverEvent.starts,
            Multiset.coe_singleton, ← Multiset.singleton_add]
          abel
      | finish a =>
          simp [Worker.started, hprogress.started_eq hstep (by simp), ReceiverEvent.starts]
      | main =>
          simp [Worker.started, hprogress.started_eq hstep (by simp), ReceiverEvent.starts]
  | @done batch tasks hw hdone =>
      obtain ⟨-, hcurrent, -, hrunning⟩ := hdone
      simp [hw, Worker.started, ForkJoin.Config.started, hcurrent, hrunning, ReceiverEvent.starts]
  | @dispatch it batch hw =>
      have hnone : (BeyondProtocol.dispatch batch).started = 0 := rfl
      rw [hw]
      split_ifs
      · simp [Worker.started, ReceiverEvent.starts]
      · simp [Worker.started, hnone, ReceiverEvent.starts]
  | wake hw => simp [hw, Worker.started, ReceiverEvent.starts]
  | visit hw => simp [hw, Worker.started, ReceiverEvent.starts]
  | emplace => simp [ReceiverEvent.starts]
  | insert => simp [ReceiverEvent.starts]
  | setBuffering => simp [ReceiverEvent.starts]
  | allowFrameInterleaving => simp [ReceiverEvent.starts]

variable (precedes : Packet → Packet → Prop)

/-- Nothing starts behind what it precedes. -/
def InOrder (l : List Packet) : Prop := l.Pairwise fun x y => ¬ precedes y x

instance [DecidableRel precedes] (l : List Packet) : Decidable (InOrder precedes l) :=
  inferInstanceAs (Decidable (l.Pairwise _))

/-- The callbacks started so far are in order and ahead of what waits. -/
structure Sequenced (started : List Packet) (r : Receiver) : Prop where
  conserving : Conserving r
  inOrder : InOrder precedes started
  ahead : ∀ y ∈ started, ∀ x ∈ r.worker.inBatch + r.recv.unconsumed, ¬ precedes x y
  behind : ∀ y ∈ r.worker.inBatch, ∀ x ∈ r.recv.unconsumed, ¬ precedes x y
  tasks : ∀ batch tasks, r.worker = .dispatching batch tasks →
    ForkJoin.Recent isVideoPacket isEndPacket (sortPackets batch) tasks ∧
      ForkJoin.Orderly isVideoPacket isEndPacket precedes (sortPackets batch)

theorem sequenced_start {recv : RecvBuffer} (hempty : recv.packetQueue = ∅) :
    Sequenced precedes [] { recv := recv } := by
  refine ⟨conserving_start hempty, List.Pairwise.nil, ?_, ?_, ?_⟩
  · intro y hy
    cases hy
  · intro y hy
    exact absurd hy (Multiset.notMem_zero y)
  · intro batch tasks hw
    cases hw

/-- What the steps of the queues and of the dispatch have to respect. -/
def Respects (started : List Packet) (r : Receiver) : ReceiverEvent → Prop
  | .insert spkt dpkt => ∀ y, y ∈ started ∨ y ∈ r.worker.inBatch → ¬ precedes (spkt, dpkt) y
  | .visit f => ∀ it todo batch, r.worker = .collecting it (f :: todo) batch →
      ∀ y ∈ r.recv.releasedFrom it f, ∀ x ∈ (r.recv.releaseFrom it f).unconsumed, ¬ precedes x y
  | .dispatch => ∀ it batch, r.worker = .collecting it [] batch →
      ForkJoin.Orderly isVideoPacket isEndPacket precedes (sortPackets batch)
  | _ => True

variable {precedes}

theorem Sequenced.quiet {started : List Packet} {r : Receiver}
    (h : Sequenced precedes started r) : Sequenced precedes (started ++ []) r := by
  rwa [List.append_nil]

/-- A step that starts nothing and moves no packet. -/
theorem Sequenced.of_eq {started : List Packet} {r r' : Receiver}
    (h : Sequenced precedes started r) (hcons : Conserving r')
    (hbatch : r'.worker.inBatch = r.worker.inBatch)
    (hqueues : r'.recv.unconsumed = r.recv.unconsumed)
    (htasks : ∀ batch tasks, r'.worker = .dispatching batch tasks →
      ForkJoin.Recent isVideoPacket isEndPacket (sortPackets batch) tasks ∧
        ForkJoin.Orderly isVideoPacket isEndPacket precedes (sortPackets batch)) :
    Sequenced precedes started r' := by
  refine ⟨hcons, h.inOrder, ?_, ?_, htasks⟩
  · rw [hbatch, hqueues]
    exact h.ahead
  · rw [hbatch, hqueues]
    exact h.behind

theorem Sequenced.insert {started : List Packet} {r : Receiver}
    (h : Sequenced precedes started r) {spkt : StreamPacket} {dpkt : DataPacket}
    (hmem : spkt.frame ∈ r.recv.packetQueue)
    (hnew : ∀ y, y ∈ started ∨ y ∈ r.worker.inBatch → ¬ precedes (spkt, dpkt) y) :
    Sequenced precedes started { r with
      recv := r.recv.insertPacket spkt dpkt
      queued := r.queued ++ [(spkt, dpkt)] } := by
  have hqueues := RecvBuffer.unconsumed_insertPacket hmem dpkt
  refine ⟨h.conserving.insert hmem dpkt, h.inOrder, ?_, ?_, h.tasks⟩
  · intro y hy x hx
    simp only [hqueues, ← add_assoc] at hx
    rcases Multiset.mem_add.mp hx with hx | hx
    · exact h.ahead y hy x hx
    · rw [Multiset.mem_singleton.mp hx]
      exact hnew y (.inl hy)
  · intro y hy x hx
    simp only [hqueues] at hx
    rcases Multiset.mem_add.mp hx with hx | hx
    · exact h.behind y hy x hx
    · rw [Multiset.mem_singleton.mp hx]
      exact hnew y (.inr hy)

theorem Sequenced.visit {started : List Packet} {r : Receiver}
    (h : Sequenced precedes started r) {it : Iteration} {f : FrameID} {todo : List FrameID}
    {batch : List Packet} (hw : r.worker = .collecting it (f :: todo) batch)
    (hleft : ∀ y ∈ r.recv.releasedFrom it f, ∀ x ∈ (r.recv.releaseFrom it f).unconsumed,
      ¬ precedes x y) :
    Sequenced precedes started { r with
      recv := r.recv.releaseFrom it f
      worker := .collecting it todo (batch ++ r.recv.releasedFrom it f) } := by
  have hsplit := r.recv.unconsumed_releaseFrom it f
  have hahead := h.ahead
  have hbehind := h.behind
  rw [hw, hsplit] at hahead hbehind
  refine ⟨h.conserving.visit hw, h.inOrder, ?_, ?_, fun _ _ hw' => by cases hw'⟩
  · intro y hy x hx
    apply hahead y hy x
    simpa only [Worker.inBatch, ← Multiset.coe_add, add_assoc] using hx
  · intro y hy x hx
    simp only [Worker.inBatch, ← Multiset.coe_add] at hy
    rcases Multiset.mem_add.mp hy with hy | hy
    · exact hbehind y hy x (Multiset.mem_add.mpr (.inr hx))
    · exact hleft y hy x hx

theorem Sequenced.task (hirrefl : ∀ x, ¬ precedes x x) {started : List Packet} {r : Receiver}
    (h : Sequenced precedes started r) {batch : List Packet}
    {tasks tasks' : ForkJoin.Config Packet} {e : ForkJoin.Event Packet}
    (hw : r.worker = .dispatching batch tasks) (hstep : ForkJoin.Step tasks e tasks') :
    Sequenced precedes (started ++ ReceiverEvent.starts (.task e))
      { r with worker := .dispatching batch tasks' } := by
  obtain ⟨hrecent, horderly⟩ := h.tasks batch tasks hw
  have hprogress := h.conserving.tasks batch tasks hw
  have hcons := h.conserving.step (.task hw hstep)
  have htasks : ∀ b t, Worker.dispatching batch tasks' = .dispatching b t →
      ForkJoin.Recent isVideoPacket isEndPacket (sortPackets b) t ∧
        ForkJoin.Orderly isVideoPacket isEndPacket precedes (sortPackets b) := by
    intro b t hbt
    cases hbt
    exact ⟨hrecent.step hprogress hstep, horderly⟩
  cases e with
  | start a =>
      have hahead := h.ahead
      have hbehind := h.behind
      simp only [hw, Worker.inBatch, hstep.waiting_start] at hahead hbehind
      refine ⟨hcons, ?_, ?_, ?_, htasks⟩
      · -- what was started before is ahead of what waited, `a` included
        refine List.pairwise_append.mpr ⟨h.inOrder, List.pairwise_singleton _ _, ?_⟩
        intro y hy x hx
        rw [List.mem_singleton.mp hx]
        exact hahead y hy a (by simp)
      · intro y hy x hx
        rcases List.mem_append.mp hy with hy | hy
        · apply hahead y hy x
          rw [Multiset.cons_add]
          exact Multiset.mem_cons_of_mem hx
        · rw [List.mem_singleton.mp hy]
          rcases Multiset.mem_add.mp hx with hx | hx
          · exact hprogress.start_in_order hirrefl horderly hrecent hstep x hx
          · exact hbehind a (by simp) x hx
      · intro y hy x hx
        exact hbehind y (Multiset.mem_cons_of_mem hy) x hx
  | finish a =>
      refine .quiet ?_
      refine h.of_eq hcons ?_ rfl htasks
      rw [hw]
      exact (hstep.waiting_eq (by simp)).symm
  | main =>
      refine .quiet ?_
      refine h.of_eq hcons ?_ rfl htasks
      rw [hw]
      exact (hstep.waiting_eq (by simp)).symm

/-- **Steps that respect the order keep the callbacks in order.** -/
theorem Sequenced.step (hirrefl : ∀ x, ¬ precedes x x) {started : List Packet}
    {r r' : Receiver} {e : ReceiverEvent} (h : Sequenced precedes started r)
    (hstep : ReceiverStep r e r') (hrespects : Respects precedes started r e) :
    Sequenced precedes (started ++ e.starts) r' := by
  have hcons := h.conserving.step hstep
  cases hstep with
  | task hw hstep => exact h.task hirrefl hw hstep
  | emplace =>
      refine .quiet ?_
      exact h.of_eq hcons rfl (r.recv.unconsumed_emplaceQueue _ _ _) h.tasks
  | insert hmem =>
      refine .quiet ?_
      exact h.insert hmem hrespects
  | setBuffering =>
      refine .quiet ?_
      exact h.of_eq hcons rfl rfl h.tasks
  | allowFrameInterleaving =>
      refine .quiet ?_
      exact h.of_eq hcons rfl rfl h.tasks
  | wake hw =>
      refine .quiet ?_
      refine h.of_eq hcons ?_ rfl fun _ _ hw' => by cases hw'
      rw [hw]
      rfl
  | visit hw =>
      refine .quiet ?_
      exact h.visit hw (hrespects _ _ _ hw)
  | @dispatch it batch hw =>
      refine .quiet ?_
      refine h.of_eq hcons ?_ rfl ?_
      · rw [hw]
        split_ifs with hnil
        · rw [hnil]
          rfl
        · exact dispatch_waiting batch
      · intro b tasks hw'
        simp only at hw'
        split_ifs at hw'
        cases hw'
        exact ⟨ForkJoin.recent_start _, hrespects it batch hw⟩
  | done hw hdone =>
      refine .quiet ?_
      refine h.of_eq hcons ?_ rfl fun _ _ hw' => by cases hw'
      rw [hw]
      exact hdone.waiting_eq_zero.symm

end BeyondProtocol
