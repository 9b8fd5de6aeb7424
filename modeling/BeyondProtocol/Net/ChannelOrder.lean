import BeyondProtocol.Net.Net
import BeyondProtocol.Net.Order

/-!
# Timestamp order on each channel

The comment on `synchronize_on_recv_timestamps_` promises that the callbacks of one
channel come in the order of their timestamps. Four paths of a receiving stream break
it: an iteration may hold back a packet of an incomplete frame and take a later one,
the time a far packet falls due may overflow, two video packets in one batch may run in
the pool side by side, and a packet past the queue overtakes what waits there. Where no
step does so, the order holds in every run.
-/

namespace BeyondProtocol

open Framework

/-! ## §1  A receiving stream with its two paths -/

/-- The stream and its buffering; `receiver` stands for the member `recv` of the stream. -/
structure Client where
  net : Net := { host := false }
  receiver : Receiver := {}

inductive ClientEvent : Type where
  | buffer (e : ReceiverEvent)
  /-- The handler of the stream calls `_processPacket` itself. -/
  | bypass (spkt : StreamPacket) (dpkt : DataPacket)
  | disableBuffering (c : Channel) (disable : Bool)

inductive ClientStep : Client → ClientEvent → Client → Prop where
  | buffer {c : Client} {e : ReceiverEvent} {r : Receiver} (h : ReceiverStep c.receiver e r)
      (hqueue : ∀ spkt, e = .emplace spkt → c.net.bypassesQueue spkt = false) :
      ClientStep c (.buffer e) { c with receiver := r }
  | bypass {c : Client} {spkt : StreamPacket} {dpkt : DataPacket}
      (h : c.net.bypassesQueue spkt = true) : ClientStep c (.bypass spkt dpkt) c
  | disableBuffering {c : Client} {ch : Channel} {disable : Bool} :
      ClientStep c (.disableBuffering ch disable)
        { c with net := c.net.disableBuffering ch disable }

/-- The packets an event brings in. -/
def ClientEvent.arrivals : ClientEvent → List Packet
  | .buffer e => e.queues
  | .bypass spkt dpkt => [(spkt, dpkt)]
  | _ => []

def ClientEvent.starts : ClientEvent → List Packet
  | .buffer e => e.starts
  | .bypass spkt dpkt => [(spkt, dpkt)]
  | _ => []

/-- The packets that arrived in a run, in order. -/
def arrivalsOf (es : List ClientEvent) : List Packet := es.flatMap ClientEvent.arrivals

/-- The packets whose callbacks started in a run, in order. -/
def startsOf (es : List ClientEvent) : List Packet := es.flatMap ClientEvent.starts

/-- Packets of one frame and channel, the first with the earlier timestamp. -/
def Earlier (x y : Packet) : Prop :=
  x.1.frame = y.1.frame ∧ x.1.channel = y.1.channel ∧ x.1.timestamp < y.1.timestamp

instance : DecidableRel Earlier := fun x y => by
  unfold Earlier
  infer_instance

/-- What a step has to avoid, in the state before it. -/
def KeepsOrder (c : Client) : ClientEvent → Prop
  | .buffer (.visit f) => ∀ it todo batch, c.receiver.worker = .collecting it (f :: todo) batch →
      ∀ q, c.receiver.recv.packetQueue.lookup f = some q →
        ∀ x ∈ q.unconsumed, ∀ y ∈ q.released it, Earlier x y → q.heldBack it x = false ∧
          q.Fits it.buffering x.1.timestamp ∧ q.Fits it.buffering y.1.timestamp
  | .buffer .dispatch => ∀ it batch, c.receiver.worker = .collecting it [] batch →
      ∀ x ∈ batch, ∀ y ∈ batch, isVideoPacket x = true → Earlier x y →
        ∃ e ∈ batch, isEndPacket e = true ∧ x.1.timestamp ≤ e.1.timestamp ∧
          e.1.timestamp < y.1.timestamp
  | .bypass spkt dpkt =>
      ∀ x ∈ c.receiver.worker.inBatch + c.receiver.recv.unconsumed, ¬ Earlier x (spkt, dpkt)
  | _ => True

/-! ## §2  Each step in order -/

/-- A batch with an EndFrame between any two packets of a video channel. -/
theorem orderly_earlier {batch : List Packet}
    (h : ∀ x ∈ batch, ∀ y ∈ batch, isVideoPacket x = true → Earlier x y →
      ∃ e ∈ batch, isEndPacket e = true ∧ x.1.timestamp ≤ e.1.timestamp ∧
        e.1.timestamp < y.1.timestamp) :
    ForkJoin.Orderly isVideoPacket isEndPacket Earlier (sortPackets batch) := by
  constructor
  · refine (sortPackets_sorted batch).imp ?_
    intro a b hab hba
    exact absurd hba.2.2 (not_lt.mpr hab.1)
  · intro l₁ x l₂ y l₃ hl hxy
    by_cases hvideo : isVideoPacket x = true
    · have hx : x ∈ batch := mem_sortPackets.mp (by rw [hl]; simp)
      have hy : y ∈ batch := mem_sortPackets.mp (by rw [hl]; simp)
      obtain ⟨e, he, hend, hxe, hey⟩ := h x hx y hy hvideo hxy
      refine .inr (.inr ⟨e, ?_, waits_of_end hend⟩)
      apply mem_between hl he
      · -- an EndFrame of the same timestamp stands behind the video packet
        intro hsorted
        have hends := hsorted.2 (le_antisymm hsorted.1 hxe) hend
        rw [show x.1.isEndFrame = false from not_end_of_video hvideo] at hends
        cases hends
      · intro hsorted
        exact absurd hsorted.1 (not_le.mpr hey)
    · exact .inl (by simpa using hvideo)

/-- Nothing earlier on a channel is left behind by an iteration that holds nothing of it
back and has the right times. -/
theorem not_earlier_left {r : Receiver} (hcons : Conserving r) (hoffsets : r.recv.Offsets)
    {it : Iteration} {f : FrameID} {todo : List FrameID} {batch : List Packet}
    (hw : r.worker = .collecting it (f :: todo) batch)
    (hkeep : ∀ q, r.recv.packetQueue.lookup f = some q →
      ∀ x ∈ q.unconsumed, ∀ y ∈ q.released it, Earlier x y → q.heldBack it x = false ∧
        q.Fits it.buffering x.1.timestamp ∧ q.Fits it.buffering y.1.timestamp) :
    ∀ y ∈ r.recv.releasedFrom it f, ∀ x ∈ (r.recv.releaseFrom it f).unconsumed,
      ¬ Earlier x y := by
  intro y hy x hx hxy
  cases hq : r.recv.packetQueue.lookup f with
  | none => simp [RecvBuffer.releasedFrom, hq] at hy
  | some q =>
      rw [RecvBuffer.releasedFrom, hq] at hy
      have hyq : y ∈ q.unconsumed := ((PacketQueue.mem_released (hoffsets f q hq)).mp hy).1
      obtain ⟨-, hyf⟩ := hcons.mem_queued hq hyq
      -- the packet left behind is of the same frame, so it waits in the same queue
      obtain ⟨g, q', hq', hxq'⟩ := RecvBuffer.mem_unconsumed.mp hx
      obtain ⟨-, hxg⟩ := (hcons.visit hw).mem_queued hq' hxq'
      obtain rfl : g = f := hxg.symm.trans (hxy.1.trans hyf)
      rw [RecvBuffer.lookup_releaseFrom, hq] at hq'
      simp only [Option.map_some, if_true, Option.some.injEq] at hq'
      subst hq'
      have hxq := ((PacketQueue.mem_unconsumed_release (hoffsets g q hq)).mp hxq').1
      obtain ⟨hfree, hfitsx, hfitsy⟩ := hkeep q hq x hxq y hy hxy
      have hheld := PacketQueue.heldBack_of_left (hoffsets g q hq) hy hxq'
        (hfitsx.releaseMicro_le hfitsy hxy.2.2.le)
      rw [hfree] at hheld
      cases hheld

/-! ## §3  Runs in order -/

/-- The history of a client: callbacks in order, and nothing started or queued that did not
arrive. -/
structure Ordered (es : List ClientEvent) (c : Client) : Prop where
  sequenced : Sequenced Earlier (startsOf es) c.receiver
  offsets : c.receiver.recv.Offsets
  startsArrived : ∀ x ∈ startsOf es, x ∈ arrivalsOf es
  queuedArrived : ∀ x ∈ c.receiver.queued, x ∈ arrivalsOf es

theorem startsOf_snoc (es : List ClientEvent) (e : ClientEvent) :
    startsOf (es ++ [e]) = startsOf es ++ e.starts := by
  simp [startsOf]

theorem arrivalsOf_snoc (es : List ClientEvent) (e : ClientEvent) :
    arrivalsOf (es ++ [e]) = arrivalsOf es ++ e.arrivals := by
  simp [arrivalsOf]

/-- A packet that arrives now is not earlier than one that arrived before. -/
theorem not_earlier_of_arrived {es : List ClientEvent} {e : ClientEvent}
    (harrivals : InOrder Earlier (arrivalsOf (es ++ [e]))) {x y : Packet}
    (hx : x ∈ e.arrivals) (hy : y ∈ arrivalsOf es) : ¬ Earlier x y := by
  rw [arrivalsOf_snoc] at harrivals
  exact (List.pairwise_append.mp harrivals).2.2 y hy x hx

theorem Ordered.respects {es : List ClientEvent} {c : Client} (h : Ordered es c)
    {e : ReceiverEvent} (hkeep : KeepsOrder c (.buffer e))
    (harrivals : InOrder Earlier (arrivalsOf (es ++ [.buffer e]))) :
    Respects Earlier (startsOf es) c.receiver e := by
  have hcons := h.sequenced.conserving
  cases e with
  | insert spkt dpkt =>
      rintro y (hy | hy)
      · exact not_earlier_of_arrived harrivals
          (by simp [ClientEvent.arrivals, ReceiverEvent.queues])
          (h.startsArrived y hy)
      · exact not_earlier_of_arrived harrivals
          (by simp [ClientEvent.arrivals, ReceiverEvent.queues])
          (h.queuedArrived y (hcons.mem_queued_of_inBatch hy))
  | visit f =>
      intro it todo batch hw
      exact not_earlier_left hcons h.offsets hw (hkeep it todo batch hw)
  | dispatch =>
      intro it batch hw
      exact orderly_earlier (hkeep it batch hw)
  | _ => trivial

theorem Ordered.buffer {es : List ClientEvent} {c : Client} (h : Ordered es c)
    {e : ReceiverEvent} {r : Receiver} (hstep : ReceiverStep c.receiver e r)
    (hkeep : KeepsOrder c (.buffer e))
    (harrivals : InOrder Earlier (arrivalsOf (es ++ [.buffer e]))) :
    Ordered (es ++ [.buffer e]) { c with receiver := r } := by
  have hirrefl : ∀ x, ¬ Earlier x x := fun x hx => lt_irrefl _ hx.2.2
  refine ⟨?_, hstep.offsets h.offsets, ?_, ?_⟩
  · rw [startsOf_snoc]
    exact h.sequenced.step hirrefl hstep (h.respects hkeep harrivals)
  · intro x hx
    rw [startsOf_snoc] at hx
    rw [arrivalsOf_snoc]
    apply List.mem_append_left
    rcases List.mem_append.mp hx with hx | hx
    · exact h.startsArrived x hx
    · exact h.queuedArrived x (h.sequenced.conserving.mem_queued_of_inBatch (hstep.mem_inBatch hx))
  · intro x hx
    simp only [hstep.queued_eq] at hx
    rw [arrivalsOf_snoc]
    rcases List.mem_append.mp hx with hx | hx
    · exact List.mem_append_left _ (h.queuedArrived x hx)
    · exact List.mem_append_right _ hx

/-- A packet past the queue starts at once: it must not overtake what waits. -/
theorem Ordered.bypass {es : List ClientEvent} {c : Client} (h : Ordered es c)
    {spkt : StreamPacket} {dpkt : DataPacket} (hkeep : KeepsOrder c (.bypass spkt dpkt))
    (harrivals : InOrder Earlier (arrivalsOf (es ++ [.bypass spkt dpkt]))) :
    Ordered (es ++ [.bypass spkt dpkt]) c := by
  have hseq := h.sequenced
  refine ⟨⟨hseq.conserving, ?_, ?_, hseq.behind, hseq.tasks⟩, h.offsets, ?_, ?_⟩
  · rw [startsOf_snoc]
    refine List.pairwise_append.mpr ⟨hseq.inOrder, List.pairwise_singleton _ _, ?_⟩
    intro y hy x hx
    exact not_earlier_of_arrived harrivals hx (h.startsArrived y hy)
  · intro y hy x hx
    rw [startsOf_snoc] at hy
    rcases List.mem_append.mp hy with hy | hy
    · exact hseq.ahead y hy x hx
    · rw [List.mem_singleton.mp hy]
      exact hkeep x hx
  · intro x hx
    rw [startsOf_snoc] at hx
    rw [arrivalsOf_snoc]
    rcases List.mem_append.mp hx with hx | hx
    · exact List.mem_append_left _ (h.startsArrived x hx)
    · exact List.mem_append_right _ hx
  · intro x hx
    rw [arrivalsOf_snoc]
    exact List.mem_append_left _ (h.queuedArrived x hx)

theorem Ordered.step {es : List ClientEvent} {c c' : Client} {e : ClientEvent} (h : Ordered es c)
    (hstep : ClientStep c e c') (hkeep : KeepsOrder c e)
    (harrivals : InOrder Earlier (arrivalsOf (es ++ [e]))) : Ordered (es ++ [e]) c' := by
  cases hstep with
  | buffer hstep _ => exact h.buffer hstep hkeep harrivals
  | bypass _ => exact h.bypass hkeep harrivals
  | disableBuffering =>
      refine ⟨?_, h.offsets, ?_, ?_⟩
      · rw [startsOf_snoc]
        exact h.sequenced.quiet
      · rw [startsOf_snoc, arrivalsOf_snoc]
        simpa [ClientEvent.starts, ClientEvent.arrivals] using h.startsArrived
      · rw [arrivalsOf_snoc]
        simpa [ClientEvent.arrivals] using h.queuedArrived

theorem ordered_start : Ordered [] {} where
  sequenced := sequenced_start Earlier rfl
  offsets := fun _ _ hq => absurd hq (by simp)
  startsArrived := fun _ hx => hx
  queuedArrived := fun _ hx => hx

/-- **The callbacks of each frame and channel start in the order of their timestamps**, if
they arrive so and no step holds back, parallelises or lets overtake packets of one
channel, or takes a time that overflows for one. -/
theorem channel_callbacks_in_order {es : List ClientEvent} {c : Client}
    (run : Runs (fun c e c' => ClientStep c e c' ∧ KeepsOrder c e) {} es c)
    (harrivals : InOrder Earlier (arrivalsOf es)) : InOrder Earlier (startsOf es) := by
  have h : InOrder Earlier (arrivalsOf es) → Ordered es c := by
    refine run.invariant_hist (I := fun es c => InOrder Earlier (arrivalsOf es) → Ordered es c)
      (fun _ => ordered_start) ?_
    intro es c e c' ih hstep harr
    refine (ih ?_).step hstep.1 hstep.2 harr
    rw [arrivalsOf_snoc] at harr
    exact (List.pairwise_append.mp harr).1
  exact (h harrivals).sequenced.inOrder

/-- A colour packet of frame (0, 0). -/
def colourAt (t : Int) : Packet := (⟨t, 0, 0, Channel.kColour, 0, 0, 0⟩, {})

/-- A step of the queues or of the worker, when colour packets are buffered. -/
theorem colour_step {net : Net} {r r' : Receiver} {e : ReceiverEvent}
    (h : ReceiverStep r e r')
    (hemplace : ∀ spkt, e = .emplace spkt → net.bypassesQueue spkt = false) :
    ClientStep ⟨net, r⟩ (.buffer e) ⟨net, r'⟩ :=
  .buffer h hemplace

theorem channel_callbacks_in_order_colour : ∃ es c,
    Runs (fun c e c' => ClientStep c e c' ∧ KeepsOrder c e) {} es c ∧
      InOrder Earlier (startsOf es) ∧ startsOf es = [colourAt 40] := by
  have run : Runs (fun c e c' => ClientStep c e c' ∧ KeepsOrder c e) {} _ _ :=
    ((((((Runs.init.snoc ⟨colour_step (@ReceiverStep.emplace _ (colourAt 40).1 0 0)
      (by rintro _ ⟨⟩; rfl), trivial⟩).snoc
      ⟨colour_step (@ReceiverStep.insert _ (colourAt 40).1 (colourAt 40).2 (by decide)) nofun,
        trivial⟩).snoc
      ⟨colour_step (@ReceiverStep.wake _ 100000 rfl (by decide)) nofun, trivial⟩).snoc
      ⟨colour_step (.visit rfl) nofun, by
        rintro it todo batch ⟨⟩ q hq
        obtain rfl := Option.some.inj hq
        decide⟩).snoc
      ⟨colour_step (.dispatch rfl) nofun, by
        rintro it batch ⟨⟩
        decide⟩).snoc
      ⟨colour_step (.task rfl (@ForkJoin.Step.spawn _ (colourAt 40) _ 0 0 0)) nofun, trivial⟩).snoc
      ⟨colour_step (.task rfl (@ForkJoin.Step.taskStart _ (colourAt 40) _ _ 0 0 0)) nofun, trivial⟩
  exact ⟨_, _, run, channel_callbacks_in_order run (by decide), by decide⟩

/-- Two colour packets in one batch: the pool starts the later one first. -/
theorem parallel_video_overtakes : ∃ es c, Runs ClientStep {} es c ∧
    InOrder Earlier (arrivalsOf es) ∧ startsOf es = [colourAt 80, colourAt 40] ∧
      ¬ InOrder Earlier (startsOf es) := by
  have run : Runs ClientStep {} _ _ :=
    (((((((((Runs.init.snoc (colour_step (@ReceiverStep.emplace _ (colourAt 40).1 0 0)
      (by rintro _ ⟨⟩; rfl))).snoc
      (colour_step (@ReceiverStep.insert _ (colourAt 40).1 (colourAt 40).2 (by decide)) nofun)).snoc
      (colour_step (@ReceiverStep.insert _ (colourAt 80).1 (colourAt 80).2 (by decide)) nofun)).snoc
      (colour_step (@ReceiverStep.wake _ 100000 rfl (by decide)) nofun)).snoc
      (colour_step (.visit rfl) nofun)).snoc (colour_step (.dispatch rfl) nofun)).snoc
      (colour_step (.task rfl (@ForkJoin.Step.spawn _ (colourAt 40) _ 0 0 0)) nofun)).snoc
      (colour_step (.task rfl (@ForkJoin.Step.spawn _ (colourAt 80) _ _ 0 0)) nofun)).snoc
      (colour_step (.task rfl (@ForkJoin.Step.taskStart _ (colourAt 80) _ _ _ 0 0)) nofun)).snoc
      (colour_step (.task rfl (@ForkJoin.Step.taskStart _ (colourAt 40) _ _ 0 _ 0)) nofun)
  exact ⟨_, _, run, by decide, by decide, by decide⟩

end BeyondProtocol
