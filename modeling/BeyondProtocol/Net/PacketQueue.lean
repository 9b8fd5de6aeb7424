import Mathlib.Data.List.AList
import BeyondProtocol.Protocol.Packet

/-!
# Receive buffering (`netstream.hpp`, `netstream.cpp`)

A receiving stream keeps one queue per frame. Arriving packets are appended and
counted by timestamp; the worker thread takes out the packets whose time has
come, marks them consumed where they stand and pops the consumed front.

Timestamps are `int64_t` milliseconds in the source and `Int` here; where the
worker computes with them the arithmetic is that of 64 bits and wraps. The
automatic adjustment of the buffering delay is computed in floating point from
the round trip time, so the model takes its outcome as an argument.
-/

namespace BeyondProtocol

/-- The value of an `int64_t` expression. -/
def toInt64 (i : Int) : Int := Int.bmod i (2 ^ 64)

/-- `Net::PacketBuffer` -/
structure PacketBuffer where
  spkt : StreamPacket
  dpkt : DataPacket
  /-- Relative timestamp since the first packet of the queue. -/
  tsRel : Int
  packetConsumed : Bool := false
deriving DecidableEq, Repr

def PacketBuffer.packet (b : PacketBuffer) : Packet := (b.spkt, b.dpkt)

/-- `Net::PacketQueue` -/
structure PacketQueue where
  packets : List PacketBuffer := []
  tsBaseSpkt : Int
  tsBaseLocal : Int
  /-- Packets received minus packets announced, by timestamp; no entry at zero. -/
  incompletePacketCount : Int → Option Int := fun _ => none

/-- What a worker iteration reads before it releases `queue_mtx_`, and the time
it took at its start. -/
structure Iteration where
  nowMicro : Int
  buffering : Int
  syncFrames : Bool
deriving DecidableEq, Repr

namespace PacketQueue

/-! ## §1  One queue -/

/-- The update of `incomplete_packet_count` for one received packet: an EndFrame
carries the number of packets sent for its timestamp. -/
def countPacket (counts : Int → Option Int) (spkt : StreamPacket) (dpkt : DataPacket) :
    Int → Option Int :=
  let count := (counts spkt.timestamp).getD 0 + 1 -
    (if spkt.isEndFrame then (dpkt.packetCount : Int) else 0)
  Function.update counts spkt.timestamp (if count = 0 then none else some count)

/-- The second critical section of `queuePacket_`. -/
def insertPacket (q : PacketQueue) (spkt : StreamPacket) (dpkt : DataPacket) : PacketQueue :=
  { q with
    packets := q.packets ++ [⟨spkt, dpkt, toInt64 (spkt.timestamp - q.tsBaseSpkt), false⟩]
    incompletePacketCount := countPacket q.incompletePacketCount spkt dpkt }

/-- `should_process_now`. Nothing of a frame whose packets are still counted is
released under synchronisation, and its EndFrame not without it either. -/
def shouldProcessNow (q : PacketQueue) (it : Iteration) (pkt : PacketBuffer) : Bool :=
  let haveAllPackets := (q.incompletePacketCount pkt.spkt.timestamp).isNone
  if it.syncFrames && !haveAllPackets then false
  else if pkt.spkt.isEndFrame && !haveAllPackets then false
  else
    let tBufferedMs := toInt64 (q.tsBaseLocal + pkt.tsRel + it.buffering)
    decide (toInt64 (tBufferedMs * 1000) < it.nowMicro)

/-- An entry is taken out by this iteration. -/
def takes (q : PacketQueue) (it : Iteration) (pkt : PacketBuffer) : Bool :=
  !pkt.packetConsumed && q.shouldProcessNow it pkt

/-- The packets one iteration moves out of the queue. -/
def released (q : PacketQueue) (it : Iteration) : List Packet :=
  (q.packets.filter (q.takes it)).map PacketBuffer.packet

/-- The queue after the iteration: released entries are marked, and the marked
entries at its front popped. -/
def release (q : PacketQueue) (it : Iteration) : PacketQueue :=
  { q with
    packets := (q.packets.map fun pkt =>
      if q.takes it pkt then { pkt with packetConsumed := true } else pkt).dropWhile
        PacketBuffer.packetConsumed }

/-- The packets that were queued and not handed over yet, in queue order. -/
def unconsumed (q : PacketQueue) : List Packet :=
  (q.packets.filter fun pkt => !pkt.packetConsumed).map PacketBuffer.packet

end PacketQueue

/-- The members of `Net` that belong to receive buffering. -/
structure RecvBuffer where
  packetQueue : AList (fun _ : FrameID => PacketQueue) := ∅
  buffering : Int := 0
  synchronizeOnRecvTimestamps : Bool := false

namespace RecvBuffer

/-! ## §2  The table of queues -/

/-- The first critical section of `queuePacket_`: the buffering delay may be
adjusted, and the first packet of a frame opens its queue. -/
def emplaceQueue (b : RecvBuffer) (now buffering : Int) (spkt : StreamPacket) : RecvBuffer :=
  { b with
    buffering := buffering
    packetQueue :=
      if spkt.frame ∈ b.packetQueue then b.packetQueue
      else b.packetQueue.insert spkt.frame
        { tsBaseSpkt := spkt.timestamp, tsBaseLocal := now } }

/-- The second critical section, on the queue found by the first. -/
def insertPacket (b : RecvBuffer) (spkt : StreamPacket) (dpkt : DataPacket) : RecvBuffer :=
  match b.packetQueue.lookup spkt.frame with
  | none => b
  | some q => { b with packetQueue := b.packetQueue.insert spkt.frame (q.insertPacket spkt dpkt) }

def queuePacket (b : RecvBuffer) (now buffering : Int) (spkt : StreamPacket)
    (dpkt : DataPacket) : RecvBuffer :=
  (b.emplaceQueue now buffering spkt).insertPacket spkt dpkt

/-- The queues a worker iteration visits. -/
def nonemptyQueues (b : RecvBuffer) : List FrameID :=
  b.packetQueue.keys.filter fun f =>
    match b.packetQueue.lookup f with
    | none => false
    | some q => !q.packets.isEmpty

def releasedFrom (b : RecvBuffer) (it : Iteration) (f : FrameID) : List Packet :=
  match b.packetQueue.lookup f with
  | none => []
  | some q => q.released it

def releaseFrom (b : RecvBuffer) (it : Iteration) (f : FrameID) : RecvBuffer :=
  match b.packetQueue.lookup f with
  | none => b
  | some q => { b with packetQueue := b.packetQueue.insert f (q.release it) }

/-! Looking up a queue after each of these. -/

theorem lookup_emplaceQueue {b : RecvBuffer} {now buffering : Int} {spkt : StreamPacket}
    {f : FrameID} {q : PacketQueue}
    (h : (b.emplaceQueue now buffering spkt).packetQueue.lookup f = some q) :
    b.packetQueue.lookup f = some q ∨
      b.packetQueue.lookup f = none ∧ q = { tsBaseSpkt := spkt.timestamp, tsBaseLocal := now } := by
  unfold emplaceQueue at h
  split_ifs at h with hmem
  · exact .inl h
  · by_cases hf : f = spkt.frame
    · subst hf
      rw [AList.lookup_insert] at h
      cases h
      exact .inr ⟨AList.lookup_eq_none.mpr hmem, rfl⟩
    · rw [AList.lookup_insert_ne hf] at h
      exact .inl h

theorem lookup_emplaceQueue_of_some {b : RecvBuffer} {f : FrameID} {q : PacketQueue}
    (h : b.packetQueue.lookup f = some q) (now buffering : Int) (spkt : StreamPacket) :
    (b.emplaceQueue now buffering spkt).packetQueue.lookup f = some q := by
  unfold emplaceQueue
  split_ifs with hmem
  · exact h
  · have hf : f ≠ spkt.frame := by
      rintro rfl
      rw [AList.lookup_eq_none.mpr hmem] at h
      cases h
    rw [AList.lookup_insert_ne hf, h]

theorem lookup_insertPacket (b : RecvBuffer) (spkt : StreamPacket) (dpkt : DataPacket)
    (f : FrameID) :
    (b.insertPacket spkt dpkt).packetQueue.lookup f =
      (b.packetQueue.lookup f).map fun q =>
        if f = spkt.frame then q.insertPacket spkt dpkt else q := by
  unfold insertPacket
  by_cases hf : f = spkt.frame
  · subst hf
    cases h : b.packetQueue.lookup spkt.frame <;> simp [h]
  · cases h : b.packetQueue.lookup spkt.frame <;> simp [hf, AList.lookup_insert_ne]

theorem lookup_releaseFrom (b : RecvBuffer) (it : Iteration) (f g : FrameID) :
    (b.releaseFrom it f).packetQueue.lookup g =
      (b.packetQueue.lookup g).map fun q => if g = f then q.release it else q := by
  unfold releaseFrom
  by_cases hg : g = f
  · subst hg
    cases h : b.packetQueue.lookup g <;> simp [h]
  · cases h : b.packetQueue.lookup f <;> simp [hg, AList.lookup_insert_ne]

end RecvBuffer

end BeyondProtocol
