import BeyondProtocol.Net.EndFrames

/-!
# A long enough buffer repairs any reordering

If every packet of a stream of complete frames is queued before the first of them is
due, an iteration finds each timestamp whole: it takes all packets of the timestamps
that are due and leaves all others. The batch then has the EndFrame of a timestamp
behind its packets and before those of the next one, so the callbacks start in the
order of the timestamps whatever the order of arrival was.

The worker computes when a packet is due in 64 bits of microseconds. A timestamp far
behind the first of its queue overflows and is due at once; a run in which no time
overflows that an iteration looks at repairs everything.
-/

namespace BeyondProtocol

open Framework

/-! ## §1  Patient runs -/

/-- Across frames by timestamp, within a timestamp the EndFrame last. -/
def DeliveredBefore (x y : Packet) : Prop :=
  x.1.timestamp < y.1.timestamp ∨
    x.1.timestamp = y.1.timestamp ∧ x.1.isEndFrame = false ∧ y.1.isEndFrame = true

instance : DecidableRel DeliveredBefore := fun x y => by
  unfold DeliveredBefore
  infer_instance

/-- The time of timestamp `t` in the queue of frame `f` is past in this iteration. -/
def RecvBuffer.Due (b : RecvBuffer) (f : FrameID) (it : Iteration) (t : Int) : Prop :=
  ∃ q, b.packetQueue.lookup f = some q ∧ q.releaseTime it.buffering t * 1000 < it.nowMicro

/-- The buffering delay is constant, the packets of `all` arrive, and an iteration whose
time is past the release of any of them starts after all of them were queued. -/
structure PatientStep (f : FrameID) (all : Multiset Packet) (r : Receiver) (e : ReceiverEvent)
    (r' : Receiver) : Prop where
  step : ReceiverStep r e r'
  constant : r'.recv.buffering = r.recv.buffering
  within : (r'.queued : Multiset Packet) ≤ all
  patient : ∀ it todo batch, e = .wake → r'.worker = .collecting it todo batch →
    ∀ x ∈ all, r.recv.Due f it x.1.timestamp → (r.queued : Multiset Packet) = all

/-- No time overflows that an iteration computes for the queue of `f`. -/
def TimesFit (f : FrameID) (it : Iteration) (r : Receiver) : Prop :=
  ∀ q, r.recv.packetQueue.lookup f = some q →
    ∀ x ∈ q.unconsumed, q.Fits it.buffering x.1.timestamp

structure FittingStep (f : FrameID) (all : Multiset Packet) (r : Receiver) (e : ReceiverEvent)
    (r' : Receiver) : Prop extends PatientStep f all r e r' where
  fits : ∀ it todo batch, e = .visit f → r.worker = .collecting it (f :: todo) batch →
    TimesFit f it r

theorem FittingStep.times {f g : FrameID} {all : Multiset Packet} {r r' : Receiver}
    (hstep : FittingStep f all r (.visit g) r') (it : Iteration) (todo : List FrameID)
    (batch : List Packet) (hw : r.worker = .collecting it (g :: todo) batch) (hg : g = f) :
    TimesFit f it r := by
  subst hg
  exact hstep.fits it todo batch rfl hw

/-- The callbacks started in a run, in order. -/
def startedBy (es : List ReceiverEvent) : List Packet := es.flatMap ReceiverEvent.starts

theorem startedBy_append (es fs : List ReceiverEvent) :
    startedBy (es ++ fs) = startedBy es ++ startedBy fs := by
  simp [startedBy]

/-- No packet of `all` is due in the present iteration. -/
def NotDue (f : FrameID) (all : Multiset Packet) (r : Receiver) : Prop :=
  ∀ it todo batch, r.worker = .collecting it todo batch →
    ∀ x ∈ all, ¬ r.recv.Due f it x.1.timestamp

structure Patient (f : FrameID) (all : Multiset Packet) (started : List Packet) (r : Receiver) :
    Prop where
  holding : Holding f all r
  sequenced : Sequenced DeliveredBefore started r
  handed : (started : Multiset Packet) = r.handed
  within : (r.queued : Multiset Packet) ≤ all
  /-- Nothing leaves the queues before all packets are in. -/
  early : (r.queued : Multiset Packet) = all ∨ r.taken = 0 ∧ NotDue f all r
  /-- Timestamps leave the queues whole and in order. -/
  apart : ∀ x ∈ r.taken, ∀ y ∈ r.recv.unconsumed, x.1.timestamp < y.1.timestamp
  fresh : ∀ it todo batch, r.worker = .collecting it todo batch →
    ∀ x ∈ r.returned, ∀ y ∈ batch, x.1.timestamp < y.1.timestamp
  queues : ∀ g q, r.recv.packetQueue.lookup g = some q → q.packets ≠ [] → g = f
  opened : ∀ it todo batch, r.worker = .collecting it todo batch → f ∈ r.recv.packetQueue
  delay : ∀ it todo batch, r.worker = .collecting it todo batch → it.buffering = r.recv.buffering
  single : ∀ batch tasks, r.worker = .dispatching batch tasks → tasks.current.card ≤ 1

/-! ## §2  Complete timestamps -/

/-- When everything is queued no timestamp is counted. -/
theorem Framed.balance_eq_zero {f : FrameID} {all : Multiset Packet} (h : Framed f all)
    {queued : List Packet} (hall : (queued : Multiset Packet) = all) (t : Int) :
    balance (queued.filter fun x => x.1.timestamp = t) = 0 := by
  set here := queued.filter fun x => x.1.timestamp = t with hhere
  have hcoe : ofTime t all = here := by
    rw [← hall]
    rfl
  by_cases hnil : here = []
  · rw [hnil, balance_nil]
  · obtain ⟨x, hx⟩ := List.exists_mem_of_ne_nil here hnil
    have hmem : ∀ y ∈ here, y ∈ all ∧ y.1.timestamp = t := by
      intro y hy
      obtain ⟨hyq, hyt⟩ := List.mem_filter.mp hy
      exact ⟨hall ▸ hyq, of_decide_eq_true hyt⟩
    have hannounced : ∀ y ∈ here, y.1.isEndFrame = true → y.2.packetCount = here.length := by
      intro y hy hend
      obtain ⟨hyall, rfl⟩ := hmem y hy
      rw [h.announced y hyall hend, hcoe, Multiset.coe_card]
    have hone : here.countP (fun y => y.1.isEndFrame) = 1 := by
      obtain ⟨hxall, rfl⟩ := hmem x hx
      have hcard := h.one x hxall
      rw [hcoe, ← Multiset.countP_eq_card_filter, Multiset.coe_countP] at hcard
      simpa using hcard
    rw [balance_eq hannounced, hone]
    simp

theorem Holding.complete {f : FrameID} {all : Multiset Packet} (hframed : Framed f all)
    {r : Receiver} (h : Holding f all r) (hall : (r.queued : Multiset Packet) = all)
    {q : PacketQueue}
    (hq : r.recv.packetQueue.lookup f = some q) (it : Iteration) (x : Packet) :
    q.heldBack it x = false := by
  have hcount := h.count x.1.timestamp
  rw [hframed.balance_eq_zero hall, RecvBuffer.incomplete, hq] at hcount
  have hnone : q.incompletePacketCount x.1.timestamp = none := hcount
  simp [PacketQueue.heldBack, hnone]

/-- A stream of one frame has its packets in one queue. -/
theorem Conserving.queue_of_frame {f : FrameID} {all : Multiset Packet} (hframed : Framed f all)
    {r : Receiver} (h : Conserving r) (hle : (r.queued : Multiset Packet) ≤ all) {g : FrameID}
    {q : PacketQueue} (hq : r.recv.packetQueue.lookup g = some q) {x : Packet}
    (hx : x ∈ q.unconsumed) : g = f := by
  obtain ⟨hqueued, hg⟩ := h.mem_queued hq hx
  exact hg.symm.trans (hframed.frame x (Multiset.mem_of_le hle hqueued))

/-! ## §3  Queues keep their base -/

theorem ReceiverStep.queue_eq {r r' : Receiver} {e : ReceiverEvent} (hstep : ReceiverStep r e r')
    {f : FrameID} {q : PacketQueue} (hq : r.recv.packetQueue.lookup f = some q) :
    ∃ q', r'.recv.packetQueue.lookup f = some q' ∧ q'.tsBaseSpkt = q.tsBaseSpkt ∧
      q'.tsBaseLocal = q.tsBaseLocal ∧ (q'.packets ≠ [] → q.packets ≠ [] ∨ ∃ x ∈ e.queues,
        x.1.frame = f) := by
  cases hstep with
  | emplace => exact ⟨q, RecvBuffer.lookup_emplaceQueue_of_some hq _ _ _, rfl, rfl, .inl⟩
  | @insert spkt dpkt hin =>
      refine ⟨_, by rw [RecvBuffer.lookup_insertPacket, hq]; rfl, ?_⟩
      split_ifs with hf
      · refine ⟨rfl, rfl, ?_⟩
        intro _
        exact .inr ⟨(spkt, dpkt), by simp [ReceiverEvent.queues], hf.symm⟩
      · exact ⟨rfl, rfl, .inl⟩
  | @visit it g todo batch hw =>
      refine ⟨_, by rw [RecvBuffer.lookup_releaseFrom, hq]; rfl, ?_⟩
      split_ifs
      · refine ⟨rfl, rfl, ?_⟩
        intro hne
        refine .inl fun hnil => hne ?_
        simp [PacketQueue.release, hnil]
      · exact ⟨rfl, rfl, .inl⟩
  | _ => exact ⟨q, hq, rfl, rfl, .inl⟩

theorem ReceiverStep.due_iff {r r' : Receiver} {e : ReceiverEvent} (hstep : ReceiverStep r e r')
    {f : FrameID} (hmem : f ∈ r.recv.packetQueue) (it : Iteration) (t : Int) :
    r'.recv.Due f it t ↔ r.recv.Due f it t := by
  obtain ⟨q, hq⟩ := Option.isSome_iff_exists.mp (AList.lookup_isSome.mpr hmem)
  obtain ⟨q', hq', hspkt, hlocal, -⟩ := hstep.queue_eq hq
  have htime : q'.releaseTime it.buffering t = q.releaseTime it.buffering t := by
    rw [PacketQueue.releaseTime, hspkt, hlocal, PacketQueue.releaseTime]
  simp only [RecvBuffer.Due, hq, hq', Option.some.injEq, exists_eq_left', htime]

/-- Only a visit takes packets out of the queues. -/
theorem ReceiverStep.taken_eq {r r' : Receiver} {e : ReceiverEvent} (hcons : Conserving r)
    (hstep : ReceiverStep r e r') (hvisit : ∀ g, e ≠ .visit g) :
    r'.taken = r.taken ∧ r'.recv.unconsumed = r.recv.unconsumed + (e.queues : Multiset Packet) := by
  have hunconsumed : r'.recv.unconsumed = r.recv.unconsumed + (e.queues : Multiset Packet) := by
    cases hstep with
    | emplace => exact (r.recv.unconsumed_emplaceQueue _ _ _).trans (add_zero _).symm
    | insert hmem => exact RecvBuffer.unconsumed_insertPacket hmem _
    | visit => exact absurd rfl (hvisit _)
    | _ => exact (add_zero _).symm
  refine ⟨?_, hunconsumed⟩
  have hsplit := (hcons.step hstep).split
  rw [hstep.queued_eq, ← Multiset.coe_add, hcons.split, hunconsumed, ← add_assoc] at hsplit
  exact (add_right_cancel (add_right_cancel hsplit)).symm

/-! ## §4  Patient runs deliver in order -/

section Patient

variable {f : FrameID} {all : Multiset Packet} {started : List Packet} {r r' : Receiver}
  {e : ReceiverEvent}

/-- While packets still arrive, nothing has left the queues. -/
theorem Patient.taken_of_insert (h : Patient f all started r) {x : Packet}
    (hle : ((r.queued ++ [x] : List Packet) : Multiset Packet) ≤ all) : r.taken = 0 := by
  rcases h.early with hall | ⟨htaken, -⟩
  · have hcard := Multiset.card_le_card hle
    rw [← hall] at hcard
    simp at hcard
  · exact htaken

/-- What an iteration takes is due, so everything is queued by then. -/
theorem Patient.all_queued (hframed : Framed f all) (h : Patient f all started r)
    {it : Iteration} {g : FrameID} {todo : List FrameID} {batch : List Packet}
    (hw : r.worker = .collecting it (g :: todo) batch) (hfits : g = f → TimesFit f it r)
    {x : Packet} (hx : x ∈ r.recv.releasedFrom it g) :
    (r.queued : Multiset Packet) = all ∧ ∃ q, r.recv.packetQueue.lookup f = some q ∧ g = f ∧
      x ∈ q.released it := by
  cases hq : r.recv.packetQueue.lookup g with
  | none => simp [RecvBuffer.releasedFrom, hq] at hx
  | some q =>
      rw [RecvBuffer.releasedFrom, hq] at hx
      obtain ⟨hxq, -, hdue⟩ := (PacketQueue.mem_released (h.holding.offsets g q hq)).mp hx
      obtain rfl := h.holding.conserving.queue_of_frame hframed h.within hq hxq
      refine ⟨?_, q, hq, rfl, hx⟩
      rcases h.early with hall | ⟨-, hnot⟩
      · exact hall
      · obtain ⟨hqueued, -⟩ := h.holding.conserving.mem_queued hq hxq
        rw [(hfits rfl q hq x hxq).releaseMicro_eq] at hdue
        exact absurd ⟨q, hq, hdue⟩ (hnot it _ batch hw x (Multiset.mem_of_le h.within hqueued))

/-- What is left in the queues is later than what was taken. -/
theorem Patient.left_later (hframed : Framed f all) (h : Patient f all started r)
    {it : Iteration} {g : FrameID} {todo : List FrameID} {batch : List Packet}
    (hw : r.worker = .collecting it (g :: todo) batch) (hfits : g = f → TimesFit f it r) :
    ∀ x ∈ r.recv.releasedFrom it g, ∀ y ∈ (r.recv.releaseFrom it g).unconsumed,
      x.1.timestamp < y.1.timestamp := by
  intro x hx y hy
  obtain ⟨hall, q, hq, rfl, hxq⟩ := h.all_queued hframed hw hfits hx
  obtain ⟨g', q', hq', hyq'⟩ := RecvBuffer.mem_unconsumed.mp hy
  obtain rfl := (h.holding.conserving.visit hw).queue_of_frame hframed h.within hq' hyq'
  simp only [RecvBuffer.lookup_releaseFrom, hq, Option.map_some, if_true, Option.some.injEq] at hq'
  subst hq'
  have hoffsets := h.holding.offsets _ q hq
  have hxfits := hfits rfl q hq x ((PacketQueue.mem_released hoffsets).mp hxq).1
  have hyfits := hfits rfl q hq y ((PacketQueue.mem_unconsumed_release hoffsets).mp hyq').1
  by_contra hle
  have hheld := PacketQueue.heldBack_of_left hoffsets hxq hyq'
    (hyfits.releaseMicro_le hxfits (not_lt.mp hle))
  rw [h.holding.complete hframed hall hq it y] at hheld
  cases hheld

/-- The batch of an iteration holds the EndFrame of each of its timestamps. -/
theorem Patient.orderly (hframed : Framed f all) (h : Patient f all started r) {it : Iteration}
    {batch : List Packet} (hw : r.worker = .collecting it [] batch) :
    ForkJoin.Orderly isVideoPacket isEndPacket DeliveredBefore (sortPackets batch) := by
  have htaken : r.taken = r.returned + batch := by
    simp [Receiver.taken, Receiver.handed, hw, Worker.started, Worker.inBatch]
  constructor
  · refine (sortPackets_sorted batch).imp ?_
    rintro a b hab (hba | ⟨ht, hb, ha⟩)
    · exact absurd hba (not_lt.mpr hab.1)
    · rw [hab.2 ht.symm ha] at hb
      cases hb
  · rintro l₁ x l₂ y l₃ hl (hxy | ⟨-, -, hend⟩)
    · by_cases hvideo : isVideoPacket x = true
      · have hx : x ∈ batch := mem_sortPackets.mp (by rw [hl]; simp)
        have hxtaken : x ∈ r.taken := by
          rw [htaken]
          simp [hx]
        rcases h.early with hall | ⟨hzero, -⟩
        · -- the EndFrame of the timestamp of `x` is in the batch
          have hxall : x ∈ all := by
            rw [← hall, h.holding.conserving.split]
            simp [hxtaken]
          have hone := hframed.one x hxall
          obtain ⟨e, he⟩ := Multiset.card_pos_iff_exists_mem.mp (by rw [hone]; exact Nat.one_pos)
          obtain ⟨heall, hend⟩ := Multiset.mem_filter.mp he
          obtain ⟨heall, het⟩ := Multiset.mem_filter.mp heall
          have hebatch : e ∈ batch := by
            rw [← hall, h.holding.conserving.split, htaken] at heall
            rcases Multiset.mem_add.mp heall with hin | hin
            · rcases Multiset.mem_add.mp hin with hin | hin
              · exact absurd het (h.fresh it [] batch hw e hin x hx).ne
              · exact hin
            · exact absurd het (h.apart x hxtaken e hin).ne'
          refine .inr (.inr ⟨e, ?_, waits_of_end hend⟩)
          apply mem_between hl hebatch
          · intro hsorted
            have hends := hsorted.2 het hend
            rw [show x.1.isEndFrame = false from not_end_of_video hvideo] at hends
            cases hends
          · intro hsorted
            exact absurd (het ▸ hsorted.1) (not_le.mpr hxy)
        · rw [hzero] at hxtaken
          exact absurd hxtaken (Multiset.notMem_zero x)
      · exact .inl (by simpa using hvideo)
    · exact .inr (.inl (waits_of_end hend))

theorem Patient.respects (hframed : Framed f all) (h : Patient f all started r)
    (hstep : FittingStep f all r e r') : Respects DeliveredBefore started r e := by
  cases e with
  | insert spkt dpkt =>
      have hle := hstep.within
      rw [hstep.step.queued_eq] at hle
      have hnone := h.taken_of_insert hle
      rintro y hy
      have hytaken : y ∈ r.taken := by
        rcases hy with hy | hy
        · exact Multiset.mem_add.mpr (.inl (h.handed ▸ hy))
        · exact Multiset.mem_add.mpr (.inr hy)
      rw [hnone] at hytaken
      exact absurd hytaken (Multiset.notMem_zero y)
  | visit g =>
      rintro it todo batch hw y hy x hx (hxy | ⟨hxy, -, -⟩)
      · exact absurd hxy (h.left_later hframed hw (hstep.times _ _ _ hw) y hy x hx).not_gt
      · exact absurd hxy (h.left_later hframed hw (hstep.times _ _ _ hw) y hy x hx).ne'
  | dispatch =>
      intro it batch hw
      exact h.orderly hframed hw
  | _ => trivial

/-- An iteration that was not due stays so. -/
theorem NotDue.step (h : NotDue f all r) (hstep : ReceiverStep r e r')
    (hopened : ∀ it todo batch, r.worker = .collecting it todo batch → f ∈ r.recv.packetQueue)
    (hworker : ∀ it todo batch, r'.worker = .collecting it todo batch →
      ∃ todo' batch', r.worker = .collecting it todo' batch') : NotDue f all r' := by
  intro it todo batch hw x hx
  obtain ⟨todo', batch', hw'⟩ := hworker it todo batch hw
  rw [hstep.due_iff (hopened it todo' batch' hw')]
  exact h it todo' batch' hw' x hx

/-- Where the worker collects after a step, it did before, or it just woke up. -/
theorem ReceiverStep.collecting_of (hstep : ReceiverStep r e r') {it : Iteration}
    {todo : List FrameID} {batch : List Packet} (hw : r'.worker = .collecting it todo batch) :
    (∃ todo' batch', r.worker = .collecting it todo' batch') ∨ e = .wake := by
  cases hstep with
  | wake => exact .inr rfl
  | visit hw' =>
      cases hw
      exact .inl ⟨_, _, hw'⟩
  | dispatch hw' =>
      simp only at hw
      split_ifs at hw
  | task => cases hw
  | done => cases hw
  | _ => exact .inl ⟨todo, batch, hw⟩

theorem Patient.early_step (hframed : Framed f all) (h : Patient f all started r)
    (hstep : FittingStep f all r e r') :
    (r'.queued : Multiset Packet) = all ∨ r'.taken = 0 ∧ NotDue f all r' := by
  rcases h.early with hall | ⟨htaken, hnot⟩
  · exact .inl (le_antisymm hstep.within (hall ▸ queued_le hstep.step))
  · by_cases hwake : e = .wake
    · -- an iteration that is due for anything starts with everything queued
      subst hwake
      by_cases hdue : NotDue f all r'
      · exact .inr ⟨(hstep.step.taken_eq h.holding.conserving (by simp)).1.trans htaken, hdue⟩
      · left
        simp only [NotDue, not_forall, not_not] at hdue
        obtain ⟨it, todo, batch, hw, x, hx, hdue⟩ := hdue
        rw [hstep.step.queued_eq]
        have hsame : r'.recv = r.recv := by
          cases hstep.step
          rfl
        simpa [ReceiverEvent.queues] using hstep.patient it todo batch rfl hw x hx (hsame ▸ hdue)
    · have hnot' : NotDue f all r' := hnot.step hstep.step h.opened fun it todo batch hw =>
        (hstep.step.collecting_of hw).resolve_right hwake
      by_cases hvisit : ∃ g, e = .visit g
      · obtain ⟨g, rfl⟩ := hvisit
        by_cases hall : (r.queued : Multiset Packet) = all
        · exact .inl (le_antisymm hstep.within (hall ▸ queued_le hstep.step))
        · refine .inr ⟨?_, hnot'⟩
          have htimes := hstep.times
          cases hstep.step with
          | @visit it _ todo batch hw =>
              have hnone : r.recv.releasedFrom it g = [] := by
                refine List.eq_nil_iff_forall_not_mem.mpr fun x hx => ?_
                exact hall (h.all_queued hframed hw (htimes _ _ _ hw) hx).1
              rw [Receiver.taken, Receiver.handed, hw] at htaken
              simpa [Receiver.taken, Receiver.handed, hnone, Worker.started, Worker.inBatch]
                using htaken
      · refine .inr ⟨?_, hnot'⟩
        rw [(hstep.step.taken_eq h.holding.conserving fun g hg => hvisit ⟨g, hg⟩).1, htaken]

theorem Patient.apart_step (hframed : Framed f all) (h : Patient f all started r)
    (hstep : FittingStep f all r e r') :
    ∀ x ∈ r'.taken, ∀ y ∈ r'.recv.unconsumed, x.1.timestamp < y.1.timestamp := by
  by_cases hvisit : ∃ g, e = .visit g
  · obtain ⟨g, rfl⟩ := hvisit
    have htimes := hstep.times
    cases hstep.step with
    | @visit it _ todo batch hw =>
        intro x hx y hy
        rw [taken_visit hw] at hx
        rcases Multiset.mem_add.mp hx with hx | hx
        · refine h.apart x hx y ?_
          rw [r.recv.unconsumed_releaseFrom it g]
          exact Multiset.mem_add.mpr (.inr hy)
        · exact h.left_later hframed hw (htimes _ _ _ hw) x hx y hy
  · obtain ⟨htaken, hunconsumed⟩ :=
      hstep.step.taken_eq h.holding.conserving fun g hg => hvisit ⟨g, hg⟩
    intro x hx y hy
    rw [htaken] at hx
    rw [hunconsumed] at hy
    rcases Multiset.mem_add.mp hy with hy | hy
    · exact h.apart x hx y hy
    · -- a packet arrives: nothing was taken yet
      have hle := hstep.within
      rw [hstep.step.queued_eq] at hle
      have hone : ((r.queued ++ [y] : List Packet) : Multiset Packet) ≤ all := by
        refine le_trans ?_ hle
        exact Multiset.coe_le.mpr ((List.singleton_sublist.mpr hy).append_left _).subperm
      rw [h.taken_of_insert hone] at hx
      exact absurd hx (Multiset.notMem_zero x)

theorem Patient.fresh_step (h : Patient f all started r) (hstep : PatientStep f all r e r') :
    ∀ it todo batch, r'.worker = .collecting it todo batch →
      ∀ x ∈ r'.returned, ∀ y ∈ batch, x.1.timestamp < y.1.timestamp := by
  intro it todo batch hw x hx y hy
  cases hstep.step with
  | wake =>
      cases hw
      cases hy
  | @visit _ g _ batch' hw' =>
      cases hw
      rcases List.mem_append.mp hy with hy | hy
      · exact h.fresh it _ batch' hw' x hx y hy
      · refine h.apart x ?_ y ?_
        · exact Multiset.mem_add.mpr (.inl (Multiset.mem_add.mpr (.inl hx)))
        · rw [r.recv.unconsumed_releaseFrom it g]
          exact Multiset.mem_add.mpr (.inl hy)
  | dispatch =>
      simp only at hw
      split_ifs at hw
  | task => cases hw
  | done => cases hw
  | _ => exact h.fresh it todo batch hw x hx y hy

theorem Patient.queues_step (hframed : Framed f all) (h : Patient f all started r)
    (hstep : PatientStep f all r e r') :
    ∀ g q, r'.recv.packetQueue.lookup g = some q → q.packets ≠ [] → g = f := by
  intro g q' hq' hne
  cases hq : r.recv.packetQueue.lookup g with
  | some q =>
      obtain ⟨q'', hq'', -, -, hpackets⟩ := hstep.step.queue_eq hq
      obtain rfl : q'' = q' := Option.some.inj (hq''.symm.trans hq')
      rcases hpackets hne with hold | ⟨x, hx, rfl⟩
      · exact h.queues g q hq hold
      · apply hframed.frame x
        apply Multiset.mem_of_le hstep.within
        rw [hstep.step.queued_eq]
        simp [hx]
  | none =>
      -- a queue opened by this step is empty
      cases hstep.step with
      | emplace =>
          rcases RecvBuffer.lookup_emplaceQueue hq' with hold | ⟨-, rfl⟩
          · rw [hq] at hold
            cases hold
          · exact absurd rfl hne
      | insert => simp [RecvBuffer.lookup_insertPacket, hq] at hq'
      | visit => simp [RecvBuffer.lookup_releaseFrom, hq] at hq'
      | _ =>
          rw [hq] at hq'
          cases hq'

theorem Patient.opened_step (h : Patient f all started r) (hstep : PatientStep f all r e r') :
    ∀ it todo batch, r'.worker = .collecting it todo batch → f ∈ r'.recv.packetQueue := by
  intro it todo batch hw
  rcases hstep.step.collecting_of hw with ⟨todo', batch', hw'⟩ | rfl
  · obtain ⟨q, hq⟩ :=
      Option.isSome_iff_exists.mp (AList.lookup_isSome.mpr (h.opened it todo' batch' hw'))
    obtain ⟨q', hq', -⟩ := hstep.step.queue_eq hq
    exact AList.lookup_isSome.mp (by rw [hq']; rfl)
  · cases hstep.step with
    | wake _ hqueues =>
        obtain ⟨g, hg⟩ := List.exists_mem_of_ne_nil _ hqueues
        obtain ⟨-, hpackets⟩ := List.mem_filter.mp hg
        cases hq : r.recv.packetQueue.lookup g with
        | none => simp [hq] at hpackets
        | some q =>
            have hne : q.packets ≠ [] := by
              intro hnil
              simp [hq, hnil] at hpackets
            obtain rfl := h.queues g q hq hne
            exact AList.lookup_isSome.mp (by rw [hq]; rfl)

theorem Patient.delay_step (h : Patient f all started r) (hstep : PatientStep f all r e r') :
    ∀ it todo batch, r'.worker = .collecting it todo batch →
      it.buffering = r'.recv.buffering := by
  intro it todo batch hw
  rw [hstep.constant]
  rcases hstep.step.collecting_of hw with ⟨todo', batch', hw'⟩ | rfl
  · exact h.delay it todo' batch' hw'
  · cases hstep.step
    cases hw
    rfl

theorem Patient.single_step (h : Patient f all started r) (hstep : PatientStep f all r e r') :
    ∀ batch tasks, r'.worker = .dispatching batch tasks → tasks.current.card ≤ 1 := by
  intro batch tasks hw
  cases hstep.step with
  | wake => cases hw
  | visit => cases hw
  | dispatch =>
      simp only at hw
      split_ifs at hw
      cases hw
      exact Nat.zero_le _
  | task hw' htask =>
      cases hw
      exact htask.current_le (h.single _ _ hw')
  | done => cases hw
  | _ => exact h.single batch tasks hw

theorem deliveredBefore_irrefl (x : Packet) : ¬ DeliveredBefore x x := by
  rintro (hlt | ⟨-, hnot, hend⟩)
  · exact lt_irrefl _ hlt
  · rw [hend] at hnot
    cases hnot

theorem Patient.step (hframed : Framed f all) (h : Patient f all started r)
    (hstep : FittingStep f all r e r') : Patient f all (started ++ e.starts) r' where
  holding := h.holding.step hframed hstep.step hstep.within
  sequenced := h.sequenced.step deliveredBefore_irrefl hstep.step (h.respects hframed hstep)
  handed := by
    rw [hstep.step.handed_eq h.holding.conserving, ← h.handed, Multiset.coe_add]
  within := hstep.within
  early := h.early_step hframed hstep
  apart := h.apart_step hframed hstep
  fresh := h.fresh_step hstep.toPatientStep
  queues := h.queues_step hframed hstep.toPatientStep
  opened := h.opened_step hstep.toPatientStep
  delay := h.delay_step hstep.toPatientStep
  single := h.single_step hstep.toPatientStep

theorem Patient.run (hframed : Framed f all) (h : Patient f all started r)
    {es : List ReceiverEvent} (run : Runs (FittingStep f all) r es r') :
    Patient f all (started ++ startedBy es) r' := by
  refine run.invariant_hist (I := fun es r => Patient f all (started ++ startedBy es) r) ?_ ?_
  · simpa [startedBy] using h
  · intro es s e t hs hstep
    rw [startedBy_append, ← List.append_assoc]
    simpa [startedBy] using hs.step hframed hstep

/-! ## §5  Everything is delivered -/

/-- The present iteration has the queue still to visit, and is late for every packet. -/
def LateIteration (f : FrameID) (all : Multiset Packet) (r : Receiver) : Prop :=
  ∃ it todo batch, r.worker = .collecting it todo batch ∧ f ∈ todo ∧
    ∀ x ∈ all, r.recv.Due f it x.1.timestamp

/-- The queue is empty, or the present iteration will empty it. -/
structure Emptying (f : FrameID) (all : Multiset Packet) (r : Receiver) : Prop where
  queued : (r.queued : Multiset Packet) = all
  late : LateIteration f all r ∨ r.recv.unconsumed = 0

theorem Patient.emptying_of_late (h : Patient f all started r) (hlate : LateIteration f all r) :
    Emptying f all r := by
  refine ⟨?_, .inl hlate⟩
  rcases h.early with hall | ⟨-, hnot⟩
  · exact hall
  · obtain ⟨it, todo, batch, hw, -, hdue⟩ := hlate
    rcases Multiset.empty_or_exists_mem all with rfl | ⟨x, hx⟩
    · exact le_antisymm h.within (Multiset.zero_le _)
    · exact absurd (hdue x hx) (hnot it todo batch hw x hx)

/-- A late visit empties the queue. -/
theorem Patient.visit_late (hframed : Framed f all) (h : Patient f all started r)
    (hall : (r.queued : Multiset Packet) = all) {it : Iteration} {todo : List FrameID}
    {batch : List Packet} (hw : r.worker = .collecting it (f :: todo) batch)
    (hfits : TimesFit f it r) (hdue : ∀ x ∈ all, r.recv.Due f it x.1.timestamp) :
    (r.recv.releaseFrom it f).unconsumed = 0 := by
  refine Multiset.eq_zero_of_forall_notMem fun y hy => ?_
  obtain ⟨g, q', hq', hyq'⟩ := RecvBuffer.mem_unconsumed.mp hy
  have hcons := h.holding.conserving.visit hw
  obtain rfl := hcons.queue_of_frame hframed h.within hq' hyq'
  obtain ⟨hyqueued, -⟩ := hcons.mem_queued hq' hyq'
  obtain ⟨q, hq, hlate⟩ := hdue y (Multiset.mem_of_le h.within hyqueued)
  simp only [RecvBuffer.lookup_releaseFrom, hq, Option.map_some, if_true, Option.some.injEq] at hq'
  subst hq'
  obtain ⟨hyq, hheld | hearly⟩ :=
    (PacketQueue.mem_unconsumed_release (h.holding.offsets _ q hq)).mp hyq'
  · rw [h.holding.complete hframed hall hq it y] at hheld
    cases hheld
  · rw [(hfits q hq y hyq).releaseMicro_eq] at hearly
    exact absurd hlate (not_lt.mpr hearly)

theorem Emptying.step (hframed : Framed f all) (hp : Patient f all started r)
    (h : Emptying f all r) (hstep : FittingStep f all r e r') : Emptying f all r' := by
  have hqueued : (r'.queued : Multiset Packet) = all :=
    le_antisymm hstep.within (h.queued ▸ queued_le hstep.step)
  have hnone : e.queues = [] := by
    have hsame := hqueued.trans h.queued.symm
    rw [hstep.step.queued_eq, ← Multiset.coe_add, add_eq_left] at hsame
    exact Multiset.coe_eq_zero _ |>.mp hsame
  refine ⟨hqueued, ?_⟩
  by_cases hvisit : ∃ g, e = .visit g
  · obtain ⟨g, rfl⟩ := hvisit
    have hdue := fun it hmem t => hstep.step.due_iff (f := f) hmem it t
    have htimes := hstep.times
    cases hstep.step with
    | @visit it _ todo batch hw =>
        rcases h.late with ⟨it', todo', batch', hw', hf, hlate⟩ | hempty
        · rw [hw] at hw'
          cases hw'
          by_cases hg : g = f
          · subst hg
            exact .inr (hp.visit_late hframed h.queued hw (htimes _ _ _ hw rfl) hlate)
          · refine .inl ⟨it, todo, _, rfl, ?_, ?_⟩
            · exact (List.mem_cons.mp hf).resolve_left fun heq => hg heq.symm
            · intro x hx
              exact (hdue it (hp.opened it _ batch hw) _).mpr (hlate x hx)
        · right
          rw [r.recv.unconsumed_releaseFrom it g] at hempty
          exact (add_eq_zero.mp hempty).2
  · obtain ⟨-, hunconsumed⟩ :=
      hstep.step.taken_eq hp.holding.conserving fun g hg => hvisit ⟨g, hg⟩
    rcases h.late with ⟨it, todo, batch, hw, hf, hlate⟩ | hempty
    · left
      -- the worker is between two visits, so only the queues can move
      have hw' : r'.worker = r.worker := by
        cases hstep.step with
        | visit => exact absurd ⟨_, rfl⟩ hvisit
        | wake hwait =>
            rw [hw] at hwait
            cases hwait
        | dispatch hcollect =>
            rw [hw] at hcollect
            cases hcollect
            cases hf
        | task hdispatch =>
            rw [hw] at hdispatch
            cases hdispatch
        | done hdispatch =>
            rw [hw] at hdispatch
            cases hdispatch
        | _ => rfl
      refine ⟨it, todo, batch, hw'.trans hw, hf, fun x hx => ?_⟩
      exact (hstep.step.due_iff (hp.opened it todo batch hw) it _).mpr (hlate x hx)
    · right
      rw [hunconsumed, hempty, hnone]
      rfl

/-- Between iterations, an empty queue means that everything was delivered. -/
theorem Patient.delivered (h : Patient f all started r) (hempty : Emptying f all r)
    (hw : r.worker = .waiting) : (started : Multiset Packet) = all := by
  rcases hempty.late with ⟨it, todo, batch, hw', -⟩ | hnone
  · rw [hw] at hw'
    cases hw'
  · have hsplit := h.holding.conserving.split
    rw [hempty.queued, hnone, add_zero, Receiver.taken, hw] at hsplit
    rw [h.handed, hsplit]
    exact (add_zero _).symm

end Patient

/-! ## §6  The worker never gets stuck -/

/-- No time of a packet of `all` overflows in the queue of `f`, or none would once the queue is
opened with one of them. -/
structure Fitting (f : FrameID) (all : Multiset Packet) (r : Receiver) : Prop where
  here : ∀ q, r.recv.packetQueue.lookup f = some q →
    ∀ x ∈ all, q.Fits r.recv.buffering x.1.timestamp
  first : f ∉ r.recv.packetQueue → ∀ x ∈ all, ∃ now, ∀ y ∈ all,
    PacketQueue.Fits { tsBaseSpkt := x.1.timestamp, tsBaseLocal := now } r.recv.buffering
      y.1.timestamp

section Continuation

variable {f : FrameID} {all : Multiset Packet} {started : List Packet} {r r' : Receiver}

/-- Only the first part of `queuePacket_` can change it. -/
theorem Fitting.step {e : ReceiverEvent} (h : Fitting f all r) (hstep : ReceiverStep r e r')
    (hconstant : r'.recv.buffering = r.recv.buffering) (hopen : ∀ spkt, e ≠ .emplace spkt) :
    Fitting f all r' := by
  have hmem : f ∈ r'.recv.packetQueue ↔ f ∈ r.recv.packetQueue := by
    rw [← AList.lookup_isSome, ← AList.lookup_isSome]
    cases hstep with
    | emplace => exact absurd rfl (hopen _)
    | insert => rw [RecvBuffer.lookup_insertPacket, Option.isSome_map]
    | visit => rw [RecvBuffer.lookup_releaseFrom, Option.isSome_map]
    | _ => rfl
  constructor
  · intro q' hq' x hx
    have hin : f ∈ r.recv.packetQueue := hmem.mp (AList.lookup_isSome.mp (by rw [hq']; rfl))
    obtain ⟨q, hq⟩ := Option.isSome_iff_exists.mp (AList.lookup_isSome.mpr hin)
    obtain ⟨q'', hq'', hspkt, hlocal, -⟩ := hstep.queue_eq hq
    obtain rfl : q'' = q' := Option.some.inj (hq''.symm.trans hq')
    have hfits := h.here q hq x hx
    unfold PacketQueue.Fits PacketQueue.releaseTime at hfits ⊢
    rwa [hspkt, hlocal, hconstant]
  · rw [hmem, hconstant]
    exact h.first

/-- An iteration under way looks at packets of `all`. -/
theorem Patient.timesFit (h : Patient f all started r) (hfitting : Fitting f all r)
    {it : Iteration} {todo : List FrameID} {batch : List Packet}
    (hw : r.worker = .collecting it todo batch) : TimesFit f it r := by
  intro q hq x hx
  obtain ⟨hqueued, -⟩ := h.holding.conserving.mem_queued hq hx
  rw [h.delay it todo batch hw]
  exact hfitting.here q hq x (Multiset.mem_of_le h.within hqueued)

/-- A visit leaves packets of before. -/
theorem TimesFit.visit {it : Iteration} {g : FrameID} {todo : List FrameID} {batch : List Packet}
    (h : TimesFit f it r) (hstep : ReceiverStep r (.visit g) r')
    (hw : r.worker = .collecting it (g :: todo) batch) : TimesFit f it r' := by
  cases hstep with
  | @visit it' _ todo' batch' hw' =>
      rw [hw] at hw'
      cases hw'
      intro q' hq' x hx
      rw [RecvBuffer.lookup_releaseFrom] at hq'
      obtain ⟨q, hq, rfl⟩ := Option.map_eq_some_iff.mp hq'
      split_ifs at hx ⊢
      · refine h q hq x ?_
        rw [PacketQueue.unconsumed_release] at hx
        exact (List.filter_sublist.map _).subset hx
      · exact h q hq x hx

/-- A step that queues nothing and is not the start of an iteration. -/
theorem FittingStep.of_step {e : ReceiverEvent} {r' : Receiver} (hstep : ReceiverStep r e r')
    (hconstant : r'.recv.buffering = r.recv.buffering)
    (hwithin : (r'.queued : Multiset Packet) ≤ all) (hwake : e ≠ .wake)
    (hvisit : e ≠ .visit f) : FittingStep f all r e r' :=
  ⟨⟨hstep, hconstant, hwithin, fun _ _ _ he => absurd he hwake⟩,
    fun _ _ _ he => absurd he hvisit⟩

theorem exists_dispatched (hwithin : (r.queued : Multiset Packet) ≤ all) {batch : List Packet}
    {tasks : ForkJoin.Config Packet} (hw : r.worker = .dispatching batch tasks)
    (hsingle : tasks.current.card ≤ 1) (hfitting : Fitting f all r) :
    ∃ es r', Runs (FittingStep f all) r es r' ∧ r'.worker = .waiting ∧ r'.queued = r.queued ∧
      Fitting f all r' := by
  obtain ⟨es, tasks', run, hdone⟩ := ForkJoin.exists_done tasks hsingle
  have hrun : Runs (FittingStep f all) r (es.map .task)
      { r with worker := .dispatching batch tasks' } := by
    clear hdone
    induction run with
    | init =>
        rw [← hw]
        exact .init
    | snoc _ htask ih =>
        rw [List.map_append]
        exact ih.snoc (.of_step (.task rfl htask) rfl hwithin (by simp) (by simp))
  exact ⟨_, _, hrun.snoc (.of_step (.done rfl hdone) rfl hwithin (by simp) (by simp)), rfl, rfl,
    ⟨hfitting.here, hfitting.first⟩⟩

theorem releaseFrom_buffering (b : RecvBuffer) (it : Iteration) (g : FrameID) :
    (b.releaseFrom it g).buffering = b.buffering := by
  unfold RecvBuffer.releaseFrom
  split <;> rfl

theorem exists_collected (it : Iteration) (todo : List FrameID) (batch : List Packet)
    (hwithin : (r.queued : Multiset Packet) ≤ all) (hw : r.worker = .collecting it todo batch)
    (hfitting : Fitting f all r) (htimes : TimesFit f it r) :
    ∃ es r', Runs (FittingStep f all) r es r' ∧ r'.worker = .waiting ∧ r'.queued = r.queued ∧
      Fitting f all r' := by
  induction todo generalizing r batch with
  | cons g todo ih =>
      have hstep := ReceiverStep.visit hw
      have hconstant := releaseFrom_buffering r.recv it g
      obtain ⟨es, r', run, hwait, hqueued, hfitting'⟩ := ih
        (r := { r with
          recv := r.recv.releaseFrom it g
          worker := .collecting it todo (batch ++ r.recv.releasedFrom it g) })
        (batch ++ r.recv.releasedFrom it g) hwithin rfl (hfitting.step hstep hconstant (by simp))
        (htimes.visit hstep hw)
      have hvisit : FittingStep f all r (.visit g) _ :=
        ⟨⟨hstep, hconstant, hwithin, by simp⟩, fun it' todo' batch' _ hw' => by
          rw [hw] at hw'
          cases hw'
          exact htimes⟩
      exact ⟨_, r', (Runs.init.snoc hvisit).trans run, hwait, hqueued, hfitting'⟩
  | nil =>
      have hstep : FittingStep f all r .dispatch _ :=
        .of_step (.dispatch hw) rfl hwithin (by simp) (by simp)
      have hfitting' := hfitting.step hstep.step rfl (by simp)
      by_cases hnil : batch = []
      · exact ⟨_, _, Runs.init.snoc hstep, by simp [hnil], rfl, hfitting'⟩
      · obtain ⟨es, r', run, hwait, hqueued, hfitting''⟩ := exists_dispatched (f := f)
          (r := { r with worker :=
            if batch = [] then .waiting else .dispatching batch (dispatch batch) })
          hwithin (if_neg hnil) (Nat.zero_le _) hfitting'
        exact ⟨_, r', (Runs.init.snoc hstep).trans run, hwait, hqueued, hfitting''⟩

/-- The present iteration can come to its end. -/
theorem Patient.exists_waiting (h : Patient f all started r) (hfitting : Fitting f all r) :
    ∃ es r', Runs (FittingStep f all) r es r' ∧ r'.worker = .waiting ∧ r'.queued = r.queued ∧
      Fitting f all r' := by
  cases hw : r.worker with
  | waiting => exact ⟨[], r, .init, hw, rfl, hfitting⟩
  | collecting it todo batch =>
      exact exists_collected it todo batch h.within hw hfitting (h.timesFit hfitting hw)
  | dispatching batch tasks =>
      exact exists_dispatched h.within hw (h.single batch tasks hw) hfitting

/-- The queue can be opened, if it is not. -/
theorem Fitting.exists_emplaced (h : Fitting f all r) {x : Packet} (hx : x ∈ all)
    (hframe : x.1.frame = f) : ∃ now,
      Fitting f all { r with recv := r.recv.emplaceQueue now r.recv.buffering x.1 } := by
  by_cases hmem : f ∈ r.recv.packetQueue
  · refine ⟨0, ?_, ?_⟩
    · intro q' hq'
      unfold RecvBuffer.emplaceQueue at hq' ⊢
      rw [hframe, if_pos hmem] at hq'
      exact h.here q' hq'
    · unfold RecvBuffer.emplaceQueue
      rw [hframe, if_pos hmem]
      exact h.first
  · obtain ⟨now, hnow⟩ := h.first hmem x hx
    refine ⟨now, ?_, fun hnot => absurd (hframe ▸ RecvBuffer.mem_emplaceQueue _ _ _ _) hnot⟩
    intro q' hq'
    rcases RecvBuffer.lookup_emplaceQueue hq' with hq | ⟨-, rfl⟩
    · rw [AList.lookup_eq_none.mpr hmem] at hq
      cases hq
    · exact hnow

/-- The packets still missing can arrive. -/
theorem exists_queued (hframed : Framed f all) (l : List Packet)
    (hwithin : ((r.queued ++ l : List Packet) : Multiset Packet) ≤ all)
    (hfitting : Fitting f all r) :
    ∃ es r', Runs (FittingStep f all) r es r' ∧ r'.worker = r.worker ∧
      r'.queued = r.queued ++ l ∧ Fitting f all r' := by
  induction l generalizing r with
  | nil => exact ⟨[], r, .init, rfl, (List.append_nil _).symm, hfitting⟩
  | cons x l ih =>
      have hone : ((r.queued ++ [x] : List Packet) : Multiset Packet) ≤ all := by
        refine le_trans (Multiset.coe_le.mpr ?_) hwithin
        exact (List.Sublist.append_left (by simp) _).subperm
      have hold : (r.queued : Multiset Packet) ≤ all :=
        le_trans (Multiset.coe_le.mpr (List.sublist_append_left _ _).subperm) hone
      have hx : x ∈ all := Multiset.mem_of_le hone (by simp)
      obtain ⟨now, hopened⟩ := hfitting.exists_emplaced hx (hframed.frame x hx)
      set r₁ : Receiver := { r with recv := r.recv.emplaceQueue now r.recv.buffering x.1 } with hr₁
      set r₂ : Receiver := { r₁ with
        recv := r₁.recv.insertPacket x.1 x.2
        queued := r₁.queued ++ [(x.1, x.2)] } with hr₂
      have hmem : x.1.frame ∈ r₁.recv.packetQueue := RecvBuffer.mem_emplaceQueue _ _ _ _
      have hbuffering : r₂.recv.buffering = r₁.recv.buffering := by
        simp only [hr₂, RecvBuffer.insertPacket]
        split <;> rfl
      have hemplace : FittingStep f all r (.emplace x.1) r₁ :=
        .of_step .emplace rfl hold (by simp) (by simp)
      have hinsert : FittingStep f all r₁ (.insert x.1 x.2) r₂ :=
        .of_step (.insert hmem) hbuffering hone (by simp) (by simp)
      obtain ⟨es, r', run, hw, hqueued, hfitting'⟩ := ih (r := r₂)
        (by simpa [hr₂, hr₁] using hwithin) (hopened.step hinsert.step hbuffering (by simp))
      exact ⟨_, r', ((Runs.init.snoc hemplace).snoc hinsert).trans run, hw,
        by simpa [hr₂, hr₁] using hqueued, hfitting'⟩

/-- With everything queued, an iteration can start that is late for every packet. -/
theorem Patient.exists_late (hframed : Framed f all) (h : Patient f all started r)
    (hall : (r.queued : Multiset Packet) = all) (hw : r.worker = .waiting)
    (hne : r.recv.unconsumed ≠ 0) :
    ∃ r', FittingStep f all r .wake r' ∧ LateIteration f all r' := by
  obtain ⟨x, hx⟩ := Multiset.exists_mem_of_ne_zero hne
  obtain ⟨g, q, hq, hxq⟩ := RecvBuffer.mem_unconsumed.mp hx
  obtain rfl := h.holding.conserving.queue_of_frame hframed h.within hq hxq
  obtain ⟨late, hlate⟩ := Finset.exists_le
    (all.map fun y => q.releaseTime r.recv.buffering y.1.timestamp * 1000).toFinset
  have hpackets : q.packets ≠ [] := by
    intro hnil
    simp [PacketQueue.unconsumed, hnil] at hxq
  have hqueue : g ∈ r.recv.nonemptyQueues := by
    refine List.mem_filter.mpr ⟨?_, ?_⟩
    · exact AList.mem_keys.mp (AList.lookup_isSome.mp (by rw [hq]; rfl))
    · simpa [hq] using hpackets
  refine ⟨_, ⟨⟨@ReceiverStep.wake _ (late + 1) hw (List.ne_nil_of_mem hqueue), rfl, h.within,
    fun _ _ _ _ _ _ _ _ => hall⟩, by simp⟩, ⟨_, _, _, rfl, hqueue, ?_⟩⟩
  intro y hy
  refine ⟨q, hq, ?_⟩
  have hle := hlate (q.releaseTime r.recv.buffering y.1.timestamp * 1000)
    (Multiset.mem_toFinset.mpr (Multiset.mem_map_of_mem _ hy))
  exact Int.lt_add_one_of_le hle

/-- From every state of a run where the times fit, the run can go on until everything is
delivered. -/
theorem Patient.exists_delivered (hframed : Framed f all) (h : Patient f all started r)
    (hfitting : Fitting f all r) :
    ∃ es r', Runs (FittingStep f all) r es r' ∧
      ((started ++ startedBy es : List Packet) : Multiset Packet) = all := by
  obtain ⟨es₁, r₁, run₁, hw₁, hqueued₁, hfitting₁⟩ := h.exists_waiting hfitting
  obtain ⟨l, hl⟩ := Quot.exists_rep (all - (r.queued : Multiset Packet))
  have hmissing : ((r₁.queued ++ l : List Packet) : Multiset Packet) = all := by
    rw [hqueued₁, ← Multiset.coe_add]
    exact (congrArg _ hl).trans (add_tsub_cancel_of_le h.within)
  obtain ⟨es₂, r₂, run₂, hw₂, hqueued₂, hfitting₂⟩ :=
    exists_queued hframed l hmissing.le hfitting₁
  have run : Runs (FittingStep f all) r (es₁ ++ es₂) r₂ := run₁.trans run₂
  have hp := h.run hframed run
  have hall : (r₂.queued : Multiset Packet) = all := by rw [hqueued₂, hmissing]
  by_cases hempty : r₂.recv.unconsumed = 0
  · exact ⟨_, r₂, run, hp.delivered ⟨hall, .inr hempty⟩ (hw₂.trans hw₁)⟩
  · obtain ⟨r₃, hwake, hlate⟩ := hp.exists_late hframed hall (hw₂.trans hw₁) hempty
    have hp₃ := h.run hframed (run.snoc hwake)
    obtain ⟨es₄, r₄, run₄, hw₄, -⟩ :=
      hp₃.exists_waiting (hfitting₂.step hwake.step hwake.constant (by simp))
    have hempty₄ : Emptying f all r₄ := by
      refine (run₄.invariant_run (I := fun _ s => Emptying f all s)
        (hp₃.emptying_of_late hlate) ?_)
      intro es s e t hrun hs hstep
      exact hs.step hframed (hp₃.run hframed hrun) hstep
    exact ⟨_, r₄, (run.snoc hwake).trans run₄,
      (h.run hframed ((run.snoc hwake).trans run₄)).delivered hempty₄ hw₄⟩

end Continuation

/-! ## §7  The result -/

/-- A receiving stream with a buffering delay of `ms` milliseconds. -/
def bufferingFor (ms : Int) (sync : Bool) : Receiver where
  recv := { buffering := ms, synchronizeOnRecvTimestamps := sync }

theorem patient_start (f : FrameID) (all : Multiset Packet) (ms : Int) (sync : Bool) :
    Patient f all [] (bufferingFor ms sync) where
  holding := holding_start f all rfl
  sequenced := sequenced_start DeliveredBefore rfl
  handed := rfl
  within := Multiset.zero_le all
  early := .inr ⟨rfl, fun _ _ _ hw => by cases hw⟩
  apart := fun x hx => absurd hx (Multiset.notMem_zero x)
  fresh := fun _ _ _ hw => by cases hw
  queues := fun _ _ hq => absurd hq (by simp [bufferingFor])
  opened := fun _ _ _ hw => by cases hw
  delay := fun _ _ _ hw => by cases hw
  single := fun _ _ hw => by cases hw

/-- **A long enough buffer repairs any reordering, where no time overflows.** The packets of
complete frames arrive in any order and all of them before the first is due, with any iterations
of the worker. The callbacks start by timestamp with the EndFrame last, no packet is delivered
twice, once an iteration that was late for all of them has ended every packet has been delivered,
and from every state where the times fit the run can go on to there. -/
theorem buffer_repairs_reordering {f : FrameID} {all : Multiset Packet} (hframed : Framed f all)
    {ms : Int} {sync : Bool} {es : List ReceiverEvent} {r : Receiver}
    (run : Runs (FittingStep f all) (bufferingFor ms sync) es r) :
    InOrder DeliveredBefore (startedBy es) ∧ (startedBy es : Multiset Packet) ≤ all ∧
      (LateIteration f all r → ∀ fs r', Runs (FittingStep f all) r fs r' →
        r'.worker = .waiting → (startedBy (es ++ fs) : Multiset Packet) = all) ∧
      (Fitting f all r → ∃ fs r', Runs (FittingStep f all) r fs r' ∧
        (startedBy (es ++ fs) : Multiset Packet) = all) := by
  have h : Patient f all (startedBy es) r := by
    simpa using (patient_start f all ms sync).run hframed run
  refine ⟨h.sequenced.inOrder, ?_, ?_, ?_⟩
  · refine le_trans ?_ h.within
    rw [h.handed, h.holding.conserving.split, Receiver.taken, add_assoc]
    exact Multiset.le_add_right _ _
  · intro hlate fs r' run' hw
    have hempty : Emptying f all r' := by
      refine run'.invariant_run (I := fun _ s => Emptying f all s) (h.emptying_of_late hlate) ?_
      intro gs s e t hrun hs hstep
      exact hs.step hframed (h.run hframed hrun) hstep
    rw [startedBy_append]
    exact (h.run hframed run').delivered hempty hw
  · intro hfitting
    obtain ⟨fs, r', run', hall⟩ := h.exists_delivered hframed hfitting
    exact ⟨fs, r', run', by rw [startedBy_append]; exact hall⟩

/-- The EndFrame of a pair arrives before the colour packet it counts. -/
theorem buffer_repairs_reordering_pair : ∃ es r,
    Runs (FittingStep ⟨0⟩ {endOfPair, colourOfPair}) (bufferingFor 100 false) es r ∧
      (r.queued = [endOfPair, colourOfPair]) ∧ ∃ fs, InOrder DeliveredBefore (startedBy fs) ∧
        (startedBy fs : Multiset Packet) = {endOfPair, colourOfPair} := by
  have run : Runs (FittingStep ⟨0⟩ {endOfPair, colourOfPair}) (bufferingFor 100 false) _ _ :=
    ((Runs.init.snoc ⟨⟨@ReceiverStep.emplace _ endOfPair.1 0 100, rfl, by decide, nofun⟩,
      nofun⟩).snoc
      ⟨⟨@ReceiverStep.insert _ endOfPair.1 endOfPair.2 (by decide), rfl, by decide, nofun⟩,
        nofun⟩).snoc
      ⟨⟨@ReceiverStep.insert _ colourOfPair.1 colourOfPair.2 (by decide), rfl, by decide, nofun⟩,
        nofun⟩
  obtain ⟨-, -, -, hgoes⟩ := buffer_repairs_reordering framed_pair run
  obtain ⟨fs, r', run', hall⟩ := hgoes ⟨by
    rintro q hq x hx
    obtain rfl := Option.some.inj hq
    revert x
    decide, fun hnot => absurd (by decide) hnot⟩
  exact ⟨_, _, run, rfl, _, (buffer_repairs_reordering framed_pair (run.trans run')).1, hall⟩

/-- A frame that is an EndFrame only. -/
def endFrameAt (t : Int) : Packet := (⟨t, 0, 0, Channel.kEndFrame, 0, 0, 0⟩, { dataFlags := 1 })

/-- Too far from the first packet for microseconds in 64 bits. -/
def farTime : Int := 9300000000000000

/-- Both frames are queued when the worker wakes for the first time, before any of them is due. The
time of the later one overflows: it is delivered at once. -/
theorem far_timestamp_overtakes : ∃ es r,
    Framed ⟨0⟩ {endFrameAt 0, endFrameAt farTime} ∧
      Runs (PatientStep ⟨0⟩ {endFrameAt 0, endFrameAt farTime}) (bufferingFor 100 false) es r ∧
      startedBy es = [endFrameAt farTime, endFrameAt 0] ∧
      ¬ InOrder DeliveredBefore (startedBy es) := by
  have harrived : Runs (PatientStep ⟨0⟩ {endFrameAt 0, endFrameAt farTime})
      (bufferingFor 100 false) _ _ :=
    ((Runs.init.snoc ⟨@ReceiverStep.emplace _ (endFrameAt 0).1 0 100, rfl, by decide, nofun⟩).snoc
      ⟨@ReceiverStep.insert _ (endFrameAt 0).1 (endFrameAt 0).2 (by decide), rfl, by decide,
        nofun⟩).snoc
      ⟨@ReceiverStep.insert _ (endFrameAt farTime).1 (endFrameAt farTime).2 (by decide), rfl,
        by decide, nofun⟩
  -- the first iteration takes the far packet only
  have hfirst := (((((harrived.snoc
      ⟨@ReceiverStep.wake _ 1000 rfl (by decide), rfl, by decide, fun _ _ _ _ _ _ _ _ => rfl⟩).snoc
      ⟨.visit rfl, rfl, by decide, nofun⟩).snoc ⟨.dispatch rfl, rfl, by decide, nofun⟩).snoc
      ⟨.task rfl (@ForkJoin.Step.join _ [.call (endFrameAt farTime), .join] 0), rfl, by decide,
        nofun⟩).snoc
      ⟨.task rfl (@ForkJoin.Step.call _ (endFrameAt farTime) [.join] 0 0 0), rfl, by decide,
        nofun⟩).snoc
      ⟨.task rfl (@ForkJoin.Step.ret _ (endFrameAt farTime) [.join] 0 0 0), rfl, by decide,
        nofun⟩
  have hsecond := ((((((hfirst.snoc
      ⟨.task rfl (@ForkJoin.Step.join _ [] {endFrameAt farTime}), rfl, by decide, nofun⟩).snoc
      ⟨.done rfl ⟨rfl, rfl, rfl, rfl⟩, rfl, by decide, nofun⟩).snoc
      ⟨@ReceiverStep.wake _ 200000 rfl (by decide), rfl, by decide,
        fun _ _ _ _ _ _ _ _ => rfl⟩).snoc
      ⟨.visit rfl, rfl, by decide, nofun⟩).snoc ⟨.dispatch rfl, rfl, by decide, nofun⟩).snoc
      ⟨.task rfl (@ForkJoin.Step.join _ [.call (endFrameAt 0), .join] 0), rfl, by decide,
        nofun⟩).snoc
      ⟨.task rfl (@ForkJoin.Step.call _ (endFrameAt 0) [.join] 0 0 0), rfl, by decide, nofun⟩
  refine ⟨_, _, ⟨by decide, by decide, by decide⟩, hsecond, rfl, ?_⟩
  decide

end BeyondProtocol
