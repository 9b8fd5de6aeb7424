import BeyondProtocol.Framework.Runs
import BeyondProtocol.Net.Clients

/-!
# When is a frame complete?

`incomplete_packet_count` holds, per timestamp, the packets queued minus the
packets the sender announced in the EndFrame, and no entry where the two agree.
The count sees queued packets only. A packet that bypasses the queue is in the
announced number all the same, so the count of its timestamp never returns to
zero and the EndFrame stays in the queue.
-/

namespace BeyondProtocol

open Framework

/-! ## §1  The count -/

/-- What one queued packet adds to the count of its timestamp. -/
def weight (x : Packet) : Int := 1 - if x.1.isEndFrame then (x.2.packetCount : Int) else 0

def balance (xs : List Packet) : Int := (xs.map weight).sum

/-- How a count is stored. -/
def stored (n : Int) : Option Int := if n = 0 then none else some n

theorem stored_getD (n : Int) : (stored n).getD 0 = n := by
  unfold stored
  split_ifs with h
  · exact h.symm
  · rfl

theorem stored_eq_none {n : Int} : stored n = none ↔ n = 0 := by
  simp [stored]

@[simp] theorem balance_nil : balance [] = 0 := rfl

theorem balance_append (xs ys : List Packet) : balance (xs ++ ys) = balance xs + balance ys := by
  simp [balance]

/-- Where every EndFrame announces `n`, each one takes `n` off the number of packets. -/
theorem balance_eq {n : Nat} {xs : List Packet}
    (h : ∀ x ∈ xs, x.1.isEndFrame = true → x.2.packetCount = n) :
    balance xs = xs.length - n * xs.countP fun x => x.1.isEndFrame := by
  induction xs with
  | nil => simp
  | cons x xs ih =>
      have hxs := ih fun y hy => h y (by simp [hy])
      have hcons : balance (x :: xs) = weight x + balance xs := by simp [balance]
      rw [hcons, hxs, List.countP_cons, List.length_cons, weight]
      by_cases hx : x.1.isEndFrame = true
      · rw [h x (by simp) hx]
        simp only [hx, if_true]
        push_cast
        ring
      · simp only [hx]
        push_cast
        ring

namespace RecvBuffer

/-- The count of a frame and a timestamp. -/
def incomplete (b : RecvBuffer) (f : FrameID) (t : Int) : Option Int :=
  (b.packetQueue.lookup f).bind fun q => q.incompletePacketCount t

theorem incomplete_emplaceQueue (b : RecvBuffer) (now buffering : Int) (spkt : StreamPacket)
    (f : FrameID) (t : Int) :
    (b.emplaceQueue now buffering spkt).incomplete f t = b.incomplete f t := by
  cases hq : b.packetQueue.lookup f with
  | some q => rw [incomplete, lookup_emplaceQueue_of_some hq, incomplete, hq]
  | none =>
      -- a new queue has counted nothing
      rw [incomplete, incomplete, hq]
      cases hq' : (b.emplaceQueue now buffering spkt).packetQueue.lookup f with
      | none => rfl
      | some q' =>
          rcases lookup_emplaceQueue hq' with hold | ⟨-, rfl⟩
          · rw [hq] at hold
            cases hold
          · rfl

theorem incomplete_releaseFrom (b : RecvBuffer) (it : Iteration) (g f : FrameID) (t : Int) :
    (b.releaseFrom it g).incomplete f t = b.incomplete f t := by
  rw [incomplete, incomplete, lookup_releaseFrom]
  cases b.packetQueue.lookup f with
  | none => rfl
  | some q =>
      simp only [Option.map_some, Option.bind_some]
      split_ifs <;> rfl

theorem incomplete_insertPacket {b : RecvBuffer} {spkt : StreamPacket}
    (hmem : spkt.frame ∈ b.packetQueue) (dpkt : DataPacket) (f : FrameID) (t : Int) :
    (b.insertPacket spkt dpkt).incomplete f t =
      if spkt.frame = f ∧ spkt.timestamp = t then
        stored ((b.incomplete f t).getD 0 + weight (spkt, dpkt))
      else b.incomplete f t := by
  rw [incomplete, incomplete, lookup_insertPacket]
  by_cases hf : f = spkt.frame
  · subst hf
    obtain ⟨q, hq⟩ := Option.isSome_iff_exists.mp (AList.lookup_isSome.mpr hmem)
    simp only [hq, Option.map_some, Option.bind_some, if_true, true_and]
    simp only [PacketQueue.insertPacket, PacketQueue.countPacket, Function.update_apply]
    by_cases ht : t = spkt.timestamp
    · subst ht
      simp only [if_true, stored, weight, add_sub_assoc]
    · rw [if_neg ht, if_neg fun h => ht h.symm]
  · rw [if_neg fun h => hf h.1.symm]
    simp [hf]

/-- No iteration takes the EndFrame of a timestamp that is still counted. -/
theorem complete_of_released {b : RecvBuffer} {it : Iteration} {f : FrameID} {x : Packet}
    (hx : x ∈ b.releasedFrom it f) (hend : x.1.isEndFrame = true) :
    b.incomplete f x.1.timestamp = none := by
  cases hq : b.packetQueue.lookup f with
  | none => simp [releasedFrom, hq] at hx
  | some q =>
      simp only [releasedFrom, hq, PacketQueue.released] at hx
      obtain ⟨e, he, rfl⟩ := List.mem_map.mp hx
      have htakes := (List.mem_filter.mp he).2
      have hend' : e.spkt.isEndFrame = true := hend
      simp [PacketQueue.takes, PacketQueue.shouldProcessNow, hend'] at htakes
      rw [incomplete, hq]
      exact htakes.2.2.1

theorem mem_emplaceQueue (b : RecvBuffer) (now buffering : Int) (spkt : StreamPacket) :
    spkt.frame ∈ (b.emplaceQueue now buffering spkt).packetQueue := by
  unfold emplaceQueue
  split_ifs with h
  · exact h
  · simp

theorem incomplete_queuePacket (b : RecvBuffer) (now buffering : Int) (spkt : StreamPacket)
    (dpkt : DataPacket) (f : FrameID) (t : Int) :
    (b.queuePacket now buffering spkt dpkt).incomplete f t =
      if spkt.frame = f ∧ spkt.timestamp = t then
        stored ((b.incomplete f t).getD 0 + weight (spkt, dpkt))
      else b.incomplete f t := by
  rw [queuePacket, incomplete_insertPacket (b.mem_emplaceQueue now buffering spkt),
    incomplete_emplaceQueue]

end RecvBuffer

/-! ## §2  Arrivals at a client -/

inductive BufferEvent : Type where
  | receive (spkt : StreamPacket) (pkt : DataPacket)
  /-- The worker visits the queue of a frame. -/
  | release (it : Iteration) (f : FrameID)

inductive BufferStep : Net → BufferEvent → Net → Prop where
  | receive {net net' : Net} {fuel : Nat} {p now ttimeoff buffering : Int} {spkt : StreamPacket}
      {pkt : DataPacket} {effects : List Effect}
      (h : net.receive fuel p now ttimeoff buffering spkt pkt = .ok (net', effects)) :
      BufferStep net (.receive spkt pkt) net'
  | release {net : Net} {it : Iteration} {f : FrameID} :
      BufferStep net (.release it f) { net with recv := net.recv.releaseFrom it f }

/-- The packets of a frame and a timestamp that arrived, in order. -/
def arrivals (f : FrameID) (t : Int) (es : List BufferEvent) : List Packet :=
  es.filterMap fun
    | .receive spkt pkt => if spkt.frame = f ∧ spkt.timestamp = t then some (spkt, pkt) else none
    | _ => none

/-- No packet is missing, and whatever EndFrame of the timestamp waits in the queue is
released by the first iteration after its time. -/
def Releasable (b : RecvBuffer) (f : FrameID) (t : Int) : Prop :=
  b.incomplete f t = none ∧
    ∀ q, b.packetQueue.lookup f = some q → ∀ e ∈ q.packets, e.packetConsumed = false →
      e.spkt.timestamp = t → e.spkt.isEndFrame = true → ∀ it : Iteration,
        toInt64 (toInt64 (q.tsBaseLocal + e.tsRel + it.buffering) * 1000) < it.nowMicro →
          e.packet ∈ b.releasedFrom it f

/-- The count decides. -/
theorem releasable_iff {b : RecvBuffer} {f : FrameID} {t : Int} :
    Releasable b f t ↔ b.incomplete f t = none := by
  refine ⟨fun h => h.1, fun h => ⟨h, fun q hq e he hnew ht hend it hdue => ?_⟩⟩
  have hall : q.incompletePacketCount e.spkt.timestamp = none := by
    rw [ht]
    simpa [RecvBuffer.incomplete, hq] using h
  have htakes : q.takes it e = true := by
    simp [PacketQueue.takes, PacketQueue.shouldProcessNow, hnew, hall, hdue]
  rw [RecvBuffer.releasedFrom, hq]
  exact List.mem_map_of_mem (List.mem_filter.mpr ⟨he, htakes⟩)

namespace Net

/-- A client queues what does not bypass the queue. -/
theorem receive_recv {net net' : Net} (hclient : net.host = false) {fuel : Nat}
    {p now ttimeoff buffering : Int} {spkt : StreamPacket} {pkt : DataPacket}
    {effects : List Effect}
    (h : net.receive fuel p now ttimeoff buffering spkt pkt = .ok (net', effects)) :
    net'.host = false ∧
      net'.bufferingDisabledChannels = net.bufferingDisabledChannels ∧
      net'.recv = if net.bypassesQueue spkt then net.recv
        else net.recv.queuePacket now buffering { spkt with localTimestamp := now - ttimeoff }
          pkt := by
  unfold receive receiveClient at h
  simp only [hclient] at h
  obtain ⟨⟨net₁, early⟩, h₁, h⟩ := bind_eq_ok.mp h
  obtain ⟨⟨net₂, more⟩, h₂, h⟩ := bind_eq_ok.mp h
  cases h
  obtain ⟨stream, tally, rfl⟩ := earlyProcessPacket_changes h₁
  have hbypass : bypassesQueue { net with stream := stream, tally := tally }
      { spkt with localTimestamp := now - ttimeoff } = net.bypassesQueue spkt := rfl
  unfold bufferOrProcess at h₂
  rw [hbypass] at h₂
  split_ifs at h₂ ⊢
  · unfold processPacket at h₂
    simp only [hclient, Bool.false_and, Bool.false_eq_true, if_false] at h₂
    split_ifs at h₂ <;> cases h₂ <;> exact ⟨rfl, rfl, rfl⟩
  · cases h₂
    exact ⟨hclient, rfl, rfl⟩

end Net

/-! ## §3  Bypassing packets are missed -/

/-- The packets of a frame and a timestamp that arrived and were queued. -/
def queuedArrivals (net : Net) (f : FrameID) (t : Int) (es : List BufferEvent) : List Packet :=
  (arrivals f t es).filter fun x => !net.bypassesQueue x.1

theorem queuedArrivals_snoc (net : Net) (f : FrameID) (t : Int) (es : List BufferEvent)
    (e : BufferEvent) :
    queuedArrivals net f t (es ++ [e]) =
      queuedArrivals net f t es ++ queuedArrivals net f t [e] := by
  simp [queuedArrivals, arrivals]

theorem queuedArrivals_receive (net : Net) (f : FrameID) (t : Int) (spkt : StreamPacket)
    (pkt : DataPacket) :
    queuedArrivals net f t [.receive spkt pkt] =
      if (spkt.frame = f ∧ spkt.timestamp = t) ∧ net.bypassesQueue spkt = false then
        [(spkt, pkt)] else [] := by
  by_cases hx : spkt.frame = f ∧ spkt.timestamp = t <;> by_cases hb : net.bypassesQueue spkt <;>
    simp [queuedArrivals, arrivals, hx, hb]

/-- The count law: at every point of a run the count is the balance of what was queued. -/
theorem incomplete_eq_balance {net₀ net : Net} {es : List BufferEvent}
    (run : Runs BufferStep net₀ es net) (hclient : net₀.host = false) {f : FrameID} {t : Int}
    (hnew : net₀.recv.incomplete f t = none) :
    net.recv.incomplete f t = stored (balance (queuedArrivals net₀ f t es)) := by
  refine (run.invariant_hist (I := fun es net => net.host = false ∧
    net.bufferingDisabledChannels = net₀.bufferingDisabledChannels ∧
    net.recv.incomplete f t = stored (balance (queuedArrivals net₀ f t es)))
    ⟨hclient, rfl, hnew⟩ ?_).2.2
  -- the set of bypassing channels is carried along: it decides what is queued
  rintro es net e net' ⟨hhost, hdisabled, hlaw⟩ hstep
  rw [queuedArrivals_snoc, balance_append]
  cases hstep with
  | @receive _ fuel p now ttimeoff buffering spkt pkt effects h =>
      obtain ⟨hhost', hdisabled', hrecv⟩ := Net.receive_recv hhost h
      refine ⟨hhost', hdisabled'.trans hdisabled, ?_⟩
      have hbypass : net.bypassesQueue spkt = net₀.bypassesQueue spkt := by
        rw [Net.bypassesQueue, hdisabled, Net.bypassesQueue]
      rw [hrecv, queuedArrivals_receive, hbypass]
      by_cases hb : net₀.bypassesQueue spkt = true
      · simp [hb, hlaw]
      · have hqueue := RecvBuffer.incomplete_queuePacket net.recv now buffering
          { spkt with localTimestamp := now - ttimeoff } pkt f t
        rw [if_neg hb, hqueue, hlaw, stored_getD]
        change (if spkt.frame = f ∧ spkt.timestamp = t then
          stored (balance (queuedArrivals net₀ f t es) + weight (spkt, pkt)) else _) = _
        by_cases hx : spkt.frame = f ∧ spkt.timestamp = t <;> simp [hx, hb, balance]
  | release =>
      refine ⟨hhost, hdisabled, ?_⟩
      rw [RecvBuffer.incomplete_releaseFrom, hlaw]
      simp [queuedArrivals, arrivals]

/-- **A complete frame can be released exactly if all of it was queued.** All `n`
packets of a frame and a timestamp have arrived at a client, in any order and between
any others, the EndFrame among them buffered and announcing `n`. -/
theorem complete_frame_releasable {net₀ net : Net} {es : List BufferEvent}
    (run : Runs BufferStep net₀ es net) (hclient : net₀.host = false) {f : FrameID} {t : Int}
    (hnew : net₀.recv.incomplete f t = none) {n : Nat} (hall : (arrivals f t es).length = n)
    (hone : (arrivals f t es).countP (fun x => x.1.isEndFrame) = 1)
    (hend : ∀ x ∈ arrivals f t es, x.1.isEndFrame = true →
      x.2.packetCount = n ∧ net₀.bypassesQueue x.1 = false) :
    Releasable net.recv f t ↔ ∀ x ∈ arrivals f t es, net₀.bypassesQueue x.1 = false := by
  have hcount : (queuedArrivals net₀ f t es).countP (fun x => x.1.isEndFrame) = 1 := by
    rw [queuedArrivals, List.countP_filter, ← hone]
    refine List.countP_congr fun x hx => ?_
    by_cases hx' : x.1.isEndFrame = true
    · simp [hx', (hend x hx hx').2]
    · simp [hx']
  have hbalance : balance (queuedArrivals net₀ f t es) =
      (queuedArrivals net₀ f t es).length - n := by
    have hannounced : ∀ x ∈ queuedArrivals net₀ f t es, x.1.isEndFrame = true →
        x.2.packetCount = n := fun x hx => fun hx' => (hend x (List.mem_of_mem_filter hx) hx').1
    rw [balance_eq hannounced, hcount, Nat.cast_one, mul_one]
  calc
    Releasable net.recv f t ↔ balance (queuedArrivals net₀ f t es) = 0 := by
      rw [releasable_iff, incomplete_eq_balance run hclient hnew, stored_eq_none]
    _ ↔ (queuedArrivals net₀ f t es).length = (arrivals f t es).length := by
      rw [hbalance, hall]
      omega
    _ ↔ ∀ x ∈ arrivals f t es, net₀.bypassesQueue x.1 = false := by
      rw [queuedArrivals, List.length_filter_eq_length_iff]
      simp

/-- A started client that takes poses past the queue. -/
def poseClient : Net :=
  Net.begin (Net.disableBuffering { host := false } Channel.kPose true)

def posePacket (c : Channel) : StreamPacket := ⟨40, 0, 0, c, 0, 0, 0⟩

/-- The EndFrame of a frame of two packets. -/
def pairEndFrame : DataPacket := { dataFlags := 2 }

/-- A packet of channel `c` and the EndFrame arrive. -/
theorem run_pair (c : Channel) {net₁ net₂ : Net} {effects₁ effects₂ : List Effect}
    (h₁ : poseClient.receive 1 0 0 0 0 (posePacket c) {} = .ok (net₁, effects₁))
    (h₂ : net₁.receive 1 0 0 0 0 (posePacket Channel.kEndFrame) pairEndFrame =
      .ok (net₂, effects₂)) :
    Runs BufferStep poseClient
      [.receive (posePacket c) {}, .receive (posePacket Channel.kEndFrame) pairEndFrame] net₂ :=
  (Runs.init.snoc (.receive h₁)).snoc (.receive h₂)

theorem complete_frame_releasable_pair : ∃ net, Runs BufferStep poseClient
    [.receive (posePacket Channel.kColour) {},
      .receive (posePacket Channel.kEndFrame) pairEndFrame] net ∧ Releasable net.recv ⟨0⟩ 40 :=
  let run := run_pair Channel.kColour rfl rfl
  ⟨_, run, (complete_frame_releasable run rfl rfl (n := 2) (by decide) (by decide)
    (by decide)).mpr (by decide)⟩

/-- The pose went past the queue and the EndFrame waits for it for ever. -/
theorem bypassed_pose_blocks_endFrame : ∃ net es, Runs BufferStep poseClient es net ∧
    (arrivals ⟨0⟩ 40 es).length = 2 ∧
    (arrivals ⟨0⟩ 40 es).countP (fun x => x.1.isEndFrame) = 1 ∧
    (∀ x ∈ arrivals ⟨0⟩ 40 es, x.1.isEndFrame = true →
      x.2.packetCount = 2 ∧ poseClient.bypassesQueue x.1 = false) ∧
    net.recv.incomplete ⟨0⟩ 40 = some (-1) ∧ ¬ Releasable net.recv ⟨0⟩ 40 ∧
    ∀ it, (posePacket Channel.kEndFrame, pairEndFrame) ∉ net.recv.releasedFrom it ⟨0⟩ := by
  refine ⟨_, _, run_pair Channel.kPose rfl rfl, by decide, by decide, by decide, rfl, ?_, ?_⟩
  · intro h
    cases h.1
  · intro it hmem
    cases RecvBuffer.complete_of_released hmem rfl

end BeyondProtocol
