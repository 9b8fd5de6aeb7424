import BeyondProtocol.Framework.Runs
import BeyondProtocol.Quic.WebSocketRead

/-!
# The send queue of a QUIC stream (`quic/src/quic_peer.cpp`)

A message sits in the queue from `send_buffer_` until its Write has completed. Its
buffer is one of a bounded number: it is handed out by `get_buffer_`, then owned by
the event in the queue, and goes to the free list when the Write completes. With
WebSocket framing the header of each event is kept in a second queue.

`write` says of each `MsQuicStream::Write`, in the order they are made, whether it
succeeds. Functions that hold `send_mtx_` are one step; `OnWriteComplete` is two,
since it takes the counters down before it takes the lock.
-/

namespace BeyondProtocol.Quic

open Framework

/-! ## §1  The source functions -/

structure SendEvent where
  /-- The call of `send_buffer_` that made the event: stands for its address. -/
  call : Nat
  buffer : List UInt8
  pending : Bool := true
  complete : Bool := false
  /-- The header that `quic_vector` starts with. -/
  header : Option Nat := none
  /-- MsQuic has accepted the Write. -/
  submitted : Bool := false
  /-- `OnWriteComplete` has been called. -/
  notified : Bool := false
deriving DecidableEq, Repr

/-- A header buffer: `bytes` are those that `quic_vector` refers to. -/
structure WsHeaderBuffer where
  address : Nat
  bytes : List UInt8
deriving DecidableEq, Repr

/-- The sending half of `QuicPeerStream`, with what its callers hold and the calls made so far.
The counters that wrap around in the source are integers in the range of `int`. -/
structure QuicPeerStream where
  wsFrame : Bool
  isOpen : Bool
  sendQueue : List SendEvent := []
  wsHeaders : List WsHeaderBuffer := []
  /-- `send_buffers_free_`: the buffers are all empty. -/
  sendBuffersFree : Nat := 0
  sendBufferCount : Nat := 0
  pendingSends : Int := 0
  pendingBytes : Int := 0
  /-- Buffers that `get_buffer_` has handed out. -/
  buffersOut : Nat := 0
  calls : Nat := 0
  writes : Nat := 0
  /-- The calls of `send_buffer_` that returned 1, in order. -/
  accepted : List Nat := []
  /-- The calls whose events were passed to a Write that succeeded, in order. -/
  written : List Nat := []
deriving DecidableEq, Repr

/-- `max_send_buffers_` -/
def maxSendBuffers : Nat := 512

/-- `max_pending_bytes_` -/
def maxPendingBytes : Int := 1024 * 1024 * 24

/-- `+=` on a `std::atomic_int` -/
def atomicAdd (a d : Int) : Int := Int.bmod (a + d) (2 ^ 32)

namespace QuicPeerStream

/-- `get_buffer_` waits until this holds. -/
def HasBuffer (s : QuicPeerStream) : Prop :=
  0 < s.sendBuffersFree ∨ s.sendBufferCount < maxSendBuffers

def getBuffer (s : QuicPeerStream) : QuicPeerStream :=
  if 0 < s.sendBuffersFree then
    { s with sendBuffersFree := s.sendBuffersFree - 1, buffersOut := s.buffersOut + 1 }
  else { s with sendBufferCount := s.sendBufferCount + 1, buffersOut := s.buffersOut + 1 }

def releaseBuffer (s : QuicPeerStream) : QuicPeerStream :=
  { s with sendBuffersFree := s.sendBuffersFree + 1 }

/-- `queue_send_`: the event for the end of the queue. Masking works in place. -/
def queueSend (s : QuicPeerStream) (buffer : List UInt8) (key : WsMaskKey) :
    Except Fault (QuicPeerStream × SendEvent) :=
  if s.wsFrame then do
    match ← wsWriteHeader OpCodeType.BINARY_FRAME true key buffer.length kHeaderCapacity with
    | none => .error .checkFailed
    | some (headerSize, header) =>
        if headerSize = 0 then .error .checkFailed
        else
          let s' := { s with
            wsHeaders := s.wsHeaders ++ [⟨s.calls, header.take headerSize⟩]
            calls := s.calls + 1 }
          let event := {
            call := s.calls
            buffer := mask key 0 buffer
            header := some s.calls }
          return (s', event)
  else return ({ s with calls := s.calls + 1 }, { call := s.calls, buffer := buffer })

/-- `send_` -/
def send (write : Nat → Bool) (s : QuicPeerStream) (event : SendEvent) :
    QuicPeerStream × SendEvent :=
  let success := write s.writes
  ({ s with
      writes := s.writes + 1
      written := if success then s.written ++ [event.call] else s.written },
    { event with pending := !success, submitted := success })

/-- The loop of `flush_send_queue_`, over the queue from its end. -/
def flushFrom (write : Nat → Bool) (s : QuicPeerStream) :
    List SendEvent → QuicPeerStream × List SendEvent
  | [] => (s, [])
  | event :: older =>
      if event.pending then
        let (s, event) := s.send write event
        if !event.pending then (s, event :: older)
        else
          let (s, older) := flushFrom write s older
          (s, { event with pending := false } :: older)
      else (s, event :: older)

def flushSendQueue (write : Nat → Bool) (s : QuicPeerStream) : QuicPeerStream :=
  let (s', queue) := s.flushFrom write s.sendQueue.reverse
  { s' with sendQueue := queue.reverse }

/-- `send_buffer_` waits until this holds. -/
def HasRoom (s : QuicPeerStream) : Prop := s.isOpen = true → s.pendingBytes ≤ maxPendingBytes

/-- A message of this size is taken on: the counters go up. -/
def takeOn (s : QuicPeerStream) (size : Nat) : QuicPeerStream :=
  { s with
    buffersOut := s.buffersOut - 1
    pendingSends := atomicAdd s.pendingSends 1
    pendingBytes := atomicAdd s.pendingBytes size
    accepted := s.accepted ++ [s.calls] }

/-- `send_buffer_`, after the wait. -/
def sendBuffer (write : Nat → Bool) (s : QuicPeerStream) (buffer : List UInt8) (key : WsMaskKey) :
    Except Fault QuicPeerStream :=
  if !s.isOpen then .ok (releaseBuffer { s with buffersOut := s.buffersOut - 1 })
  else do
    let s := (s.takeOn buffer.length).flushSendQueue write
    let (s, event) ← s.queueSend buffer key
    let (s, event) := s.send write event
    return { s with sendQueue := s.sendQueue ++ [event] }

/-- One event of the queue changes. -/
def update (queue : List SendEvent) (call : Nat) (f : SendEvent → SendEvent) : List SendEvent :=
  queue.map fun event => if event.call = call then f event else event

/-- `OnWriteComplete` up to the lock. -/
def writeComplete (s : QuicPeerStream) (event : SendEvent) : QuicPeerStream :=
  { s with
    pendingSends := atomicAdd s.pendingSends (-1)
    pendingBytes := atomicAdd s.pendingBytes (-event.buffer.length)
    sendQueue := update s.sendQueue event.call fun e => { e with notified := true } }

/-- `clear_completed_` -/
def clearCompleted (wsFrame : Bool) :
    List SendEvent → List WsHeaderBuffer → Except Fault (List SendEvent × List WsHeaderBuffer)
  | [], headers => .ok ([], headers)
  | event :: queue, headers =>
      if event.complete then
        if wsFrame then
          match headers with
          | [] => .error .undefined
          | header :: headers =>
              if event.header = some header.address then clearCompleted wsFrame queue headers
              else .error .checkFailed
        else clearCompleted wsFrame queue headers
      else .ok (event :: queue, headers)

/-- `OnWriteComplete` from the lock on. The buffer moves to the free list. -/
def completeLocked (s : QuicPeerStream) (event : SendEvent) : Except Fault QuicPeerStream :=
  let s := releaseBuffer { s with
    sendQueue := update s.sendQueue event.call fun e => { e with complete := true, buffer := [] } }
  if s.sendQueue.head?.map SendEvent.call = some event.call then do
    let (queue, headers) ← clearCompleted s.wsFrame s.sendQueue s.wsHeaders
    return { s with sendQueue := queue, wsHeaders := headers }
  else .ok s

end QuicPeerStream

inductive StreamEvent : Type where
  | getBuffer
  | sendBuffer (buffer : List UInt8) (key : WsMaskKey)
  /-- Whether the Write was cancelled is only logged. -/
  | writeComplete (event : SendEvent) (cancelled : Bool)
  | completeLocked (event : SendEvent)
deriving DecidableEq, Repr

namespace QuicPeerStream

/-- When a step can be taken: buffers passed to `send_buffer_` come from `get_buffer_`, and a
Write that was accepted completes once. -/
def Enabled (s : QuicPeerStream) : StreamEvent → Prop
  | .getBuffer => s.HasBuffer
  | .sendBuffer _ _ => s.HasRoom ∧ 0 < s.buffersOut
  | .writeComplete event _ => event ∈ s.sendQueue ∧ event.submitted ∧ !event.notified
  | .completeLocked event => event ∈ s.sendQueue ∧ event.notified ∧ !event.complete

instance (s : QuicPeerStream) : (e : StreamEvent) → Decidable (s.Enabled e)
  | .getBuffer => inferInstanceAs (Decidable (_ ∨ _))
  | .sendBuffer _ _ => inferInstanceAs (Decidable ((_ → _) ∧ _))
  | .writeComplete _ _ => inferInstanceAs (Decidable (_ ∧ _ ∧ _))
  | .completeLocked _ => inferInstanceAs (Decidable (_ ∧ _ ∧ _))

def handle (write : Nat → Bool) (s : QuicPeerStream) : StreamEvent → Except Fault QuicPeerStream
  | .getBuffer => .ok s.getBuffer
  | .sendBuffer buffer key => s.sendBuffer write buffer key
  | .writeComplete event _ => .ok (s.writeComplete event)
  | .completeLocked event => s.completeLocked event

def Step (write : Nat → Bool) (s : QuicPeerStream) (e : StreamEvent) (t : QuicPeerStream) : Prop :=
  s.Enabled e ∧ s.handle write e = .ok t

/-- The step as a function, to run the model. -/
def exec (write : Nat → Bool) (s : QuicPeerStream) (e : StreamEvent) :
    Except Fault QuicPeerStream :=
  if s.Enabled e then s.handle write e else .error .undefined

theorem step_of_exec {write : Nat → Bool} {s t : QuicPeerStream} {e : StreamEvent}
    (h : s.exec write e = .ok t) : Step write s e t := by
  unfold exec at h
  split_ifs at h with henabled
  exact ⟨henabled, h⟩

end QuicPeerStream

/-! ## §2  What the queue is made of

Flushing the queue touches only what the events say about their Writes. -/

/-- An event without the state of its Write. -/
def SendEvent.ledger (event : SendEvent) : SendEvent :=
  { event with pending := false, submitted := false }

namespace QuicPeerStream

variable {write : Nat → Bool}

theorem flushFrom_ledger (write : Nat → Bool) (s : QuicPeerStream) (queue : List SendEvent) :
    (s.flushFrom write queue).2.map SendEvent.ledger = queue.map SendEvent.ledger ∧
      ∃ writes written, (s.flushFrom write queue).1 =
        { s with writes := writes, written := written } := by
  induction queue generalizing s with
  | nil => exact ⟨rfl, s.writes, s.written, rfl⟩
  | cons event older ih =>
      obtain ⟨hmap, writes, written, heq⟩ := ih (s.send write event).1
      unfold flushFrom
      split_ifs with hpending
      · simp only
        split_ifs with hdone
        · exact ⟨rfl, _, _, rfl⟩
        · simp only [List.map_cons, hmap, heq]
          exact ⟨rfl, writes, written, rfl⟩
      · exact ⟨rfl, s.writes, s.written, rfl⟩

/-- What a flush can do. -/
theorem flushSendQueue_ledger (write : Nat → Bool) (s : QuicPeerStream) :
    ∃ queue writes written, s.flushSendQueue write =
        { s with sendQueue := queue, writes := writes, written := written } ∧
      queue.map SendEvent.ledger = s.sendQueue.map SendEvent.ledger := by
  obtain ⟨hmap, writes, written, heq⟩ := flushFrom_ledger write s s.sendQueue.reverse
  refine ⟨(s.flushFrom write s.sendQueue.reverse).2.reverse, writes, written, ?_, ?_⟩
  · simp only [flushSendQueue, heq]
  · rw [List.map_reverse, hmap, List.map_reverse, List.reverse_reverse]

theorem queueSend_framed {s : QuicPeerStream} (hws : s.wsFrame = true) (buffer : List UInt8)
    (key : WsMaskKey) : s.queueSend buffer key = .ok
      ({ s with
          wsHeaders := s.wsHeaders ++
            [⟨s.calls, headerBytes OpCodeType.BINARY_FRAME true key buffer.length⟩]
          calls := s.calls + 1 },
        { call := s.calls, buffer := mask key 0 buffer, header := some s.calls }) := by
  have hsize : (headerBytes OpCodeType.BINARY_FRAME true key buffer.length).length ≠ 0 := by
    simp [headerBytes]
  rw [queueSend, if_pos hws, wsWriteHeader_ok _ _ _ _ (show 14 ≤ kHeaderCapacity by decide)]
  simp only [ok_bind, if_neg hsize, List.take_length]
  rfl

/-- The event that is queued: framing leaves its size. -/
theorem queueSend_eq (s : QuicPeerStream) (buffer : List UInt8) (key : WsMaskKey) :
    ∃ headers event, s.queueSend buffer key =
        .ok ({ s with wsHeaders := s.wsHeaders ++ headers, calls := s.calls + 1 }, event) ∧
      event.call = s.calls ∧ event.buffer.length = buffer.length ∧ event.pending = true ∧
      event.complete = false ∧ event.submitted = false ∧ event.notified = false ∧
      (s.wsFrame = true → headers.map (some ·.address) = [event.header]) ∧
      (s.wsFrame = false → headers = []) := by
  by_cases hws : s.wsFrame = true
  · refine ⟨[⟨s.calls, headerBytes OpCodeType.BINARY_FRAME true key buffer.length⟩], _,
      queueSend_framed hws buffer key, rfl, ?_, rfl, rfl, rfl, rfl, fun _ => rfl, ?_⟩
    · exact length_mask key 0 buffer
    · intro hplain
      rw [hws] at hplain
      cases hplain
  · refine ⟨[], { call := s.calls, buffer := buffer }, ?_, rfl, rfl, rfl, rfl, rfl, rfl, ?_,
      fun _ => rfl⟩
    · rw [queueSend, if_neg hws, List.append_nil]
      rfl
    · intro hframed
      exact absurd hframed hws

/-- The stream after the first Write of an event. -/
def sendNew (write : Nat → Bool) (s : QuicPeerStream) (headers : List WsHeaderBuffer)
    (event : SendEvent) : QuicPeerStream :=
  { s with
    wsHeaders := s.wsHeaders ++ headers
    calls := s.calls + 1
    writes := s.writes + 1
    written := if write s.writes then s.written ++ [event.call] else s.written
    sendQueue := s.sendQueue ++
      [{ event with pending := !write s.writes, submitted := write s.writes }] }

/-- What a call on an open stream does: the queue is flushed, then the new event is written. -/
theorem sendBuffer_flush (write : Nat → Bool) {s : QuicPeerStream} (hopen : s.isOpen = true)
    (buffer : List UInt8) (key : WsMaskKey) {t : QuicPeerStream}
    (ht : (s.takeOn buffer.length).flushSendQueue write = t) :
    ∃ (headers : List WsHeaderBuffer) (event : SendEvent),
      s.sendBuffer write buffer key = .ok (t.sendNew write headers event) ∧
      event.call = t.calls ∧ event.buffer.length = buffer.length ∧
      event.complete = false ∧ event.notified = false ∧
      (t.wsFrame = true → headers.map (some ·.address) = [event.header]) ∧
      (t.wsFrame = false → headers = []) := by
  obtain ⟨headers, event, hqueue, hcall, hsize, -, hcomplete, -, hnotified, hws, hplain⟩ :=
    queueSend_eq t buffer key
  unfold sendBuffer
  rw [if_neg (by simp [hopen]), ht]
  simp only [hqueue, ok_bind]
  exact ⟨headers, event, rfl, hcall, hsize, hcomplete, hnotified, hws, hplain⟩

/-- What of it concerns the bookkeeping. -/
theorem sendBuffer_eq (write : Nat → Bool) {s : QuicPeerStream} (hopen : s.isOpen = true)
    (buffer : List UInt8) (key : WsMaskKey) : ∃ queue writes written headers event,
    s.sendBuffer write buffer key = .ok { s.takeOn buffer.length with
        sendQueue := queue ++ [event]
        wsHeaders := s.wsHeaders ++ headers
        calls := s.calls + 1
        writes := writes
        written := written } ∧
      queue.map SendEvent.ledger = s.sendQueue.map SendEvent.ledger ∧
      event.call = s.calls ∧ event.buffer.length = buffer.length ∧
      event.complete = false ∧ event.notified = false ∧
      (s.wsFrame = true → headers.map (some ·.address) = [event.header]) ∧
      (s.wsFrame = false → headers = []) := by
  obtain ⟨queue, writes, written, hflush, hmap⟩ :=
    flushSendQueue_ledger write (s.takeOn buffer.length)
  obtain ⟨headers, event, heq, hevent⟩ := sendBuffer_flush write hopen buffer key hflush
  exact ⟨queue, _, _, headers, { event with pending := _, submitted := _ }, heq, hmap, hevent⟩

/-! ## §3  The bookkeeping -/

/-- The headers belong to the events, position by position. -/
def Corresponds (wsFrame : Bool) (queue : List SendEvent) (headers : List WsHeaderBuffer) : Prop :=
  (wsFrame = true → headers.map (some ·.address) = queue.map SendEvent.header) ∧
    (wsFrame = false → headers = [])

/-- Events whose completion was not signalled yet. -/
def outstanding (queue : List SendEvent) : Nat := queue.countP fun event => !event.notified

def outstandingBytes (queue : List SendEvent) : Nat :=
  ((queue.filter fun event => !event.notified).map fun event => event.buffer.length).sum

/-- Events that still own a buffer. -/
def buffersHeld (queue : List SendEvent) : Nat := queue.countP fun event => !event.complete

structure Bookkeeping (s : QuicPeerStream) : Prop where
  headers : Corresponds s.wsFrame s.sendQueue s.wsHeaders
  front : ∀ event, s.sendQueue.head? = some event → event.complete = false
  sends : s.pendingSends = outstanding s.sendQueue
  bytes : s.pendingBytes = toInt32 (outstandingBytes s.sendQueue)
  buffers : s.sendBufferCount = s.sendBuffersFree + buffersHeld s.sendQueue + s.buffersOut
  limit : s.sendBufferCount ≤ maxSendBuffers

/-- Events are told apart by their calls, and only a signalled one is complete. -/
structure Tidy (s : QuicPeerStream) : Prop where
  sorted : (s.sendQueue.map SendEvent.call).Pairwise (· < ·)
  called : ∀ event ∈ s.sendQueue, event.call < s.calls
  signalled : ∀ event ∈ s.sendQueue, event.complete = true → event.notified = true

@[simp] theorem outstanding_append (q r : List SendEvent) :
    outstanding (q ++ r) = outstanding q + outstanding r :=
  List.countP_append

@[simp] theorem outstanding_cons (event : SendEvent) (q : List SendEvent) :
    outstanding (event :: q) = (if event.notified then 0 else 1) + outstanding q := by
  cases h : event.notified <;> simp [outstanding, h, Nat.add_comm]

@[simp] theorem outstandingBytes_append (q r : List SendEvent) :
    outstandingBytes (q ++ r) = outstandingBytes q + outstandingBytes r := by
  simp [outstandingBytes]

@[simp] theorem outstandingBytes_cons (event : SendEvent) (q : List SendEvent) :
    outstandingBytes (event :: q) =
      (if event.notified then 0 else event.buffer.length) + outstandingBytes q := by
  cases h : event.notified <;> simp [outstandingBytes, h]

@[simp] theorem buffersHeld_append (q r : List SendEvent) :
    buffersHeld (q ++ r) = buffersHeld q + buffersHeld r :=
  List.countP_append

@[simp] theorem buffersHeld_cons (event : SendEvent) (q : List SendEvent) :
    buffersHeld (event :: q) = (if event.complete then 0 else 1) + buffersHeld q := by
  cases h : event.complete <;> simp [buffersHeld, h, Nat.add_comm]

@[simp] theorem outstanding_nil : outstanding [] = 0 := rfl

@[simp] theorem outstandingBytes_nil : outstandingBytes [] = 0 := rfl

@[simp] theorem buffersHeld_nil : buffersHeld [] = 0 := rfl

theorem outstanding_ledger (q : List SendEvent) :
    outstanding (q.map SendEvent.ledger) = outstanding q :=
  List.countP_map

theorem buffersHeld_ledger (q : List SendEvent) :
    buffersHeld (q.map SendEvent.ledger) = buffersHeld q :=
  List.countP_map

theorem outstandingBytes_ledger (q : List SendEvent) :
    outstandingBytes (q.map SendEvent.ledger) = outstandingBytes q := by
  induction q with
  | nil => rfl
  | cons event q ih => simp [ih, SendEvent.ledger]

/-- Completed events at the front hold nothing. -/
theorem outstanding_done {q : List SendEvent} (hdone : ∀ event ∈ q, event.complete = true)
    (hsig : ∀ event ∈ q, event.complete = true → event.notified = true) :
    outstanding q = 0 ∧ outstandingBytes q = 0 ∧ buffersHeld q = 0 := by
  induction q with
  | nil => exact ⟨rfl, rfl, rfl⟩
  | cons event q ih =>
      obtain ⟨h₁, h₂, h₃⟩ := ih (fun e he => hdone e (List.mem_cons_of_mem _ he))
        (fun e he => hsig e (List.mem_cons_of_mem _ he))
      have hc := hdone event (by simp)
      have hn := hsig event (by simp) hc
      simp [h₁, h₂, h₃, hc, hn]

theorem outstanding_le_buffersHeld {q : List SendEvent}
    (hsig : ∀ event ∈ q, event.complete = true → event.notified = true) :
    outstanding q ≤ buffersHeld q := by
  apply List.countP_mono_left
  intro event he hn
  cases hc : event.complete with
  | false => rfl
  | true => simp [hsig event he hc] at hn

theorem update_of_ne {queue : List SendEvent} {call : Nat} (f : SendEvent → SendEvent)
    (h : ∀ event ∈ queue, event.call ≠ call) : update queue call f = queue := by
  unfold update
  rw [List.map_congr_left fun event he => if_neg (h event he), List.map_id']

/-- An event changes in its place. -/
theorem update_split {queue : List SendEvent}
    (hsorted : (queue.map SendEvent.call).Pairwise (· < ·)) {event : SendEvent}
    (hmem : event ∈ queue) (f : SendEvent → SendEvent) :
    ∃ newer older, queue = older ++ event :: newer ∧
      update queue event.call f = older ++ f event :: newer ∧
      ∀ e ∈ older, e.call ≠ event.call := by
  obtain ⟨older, newer, rfl⟩ := List.append_of_mem hmem
  simp only [List.map_append, List.map_cons, List.pairwise_append, List.pairwise_cons,
    List.mem_map, List.mem_cons] at hsorted
  obtain ⟨-, ⟨hafter, -⟩, hbefore⟩ := hsorted
  have holder : ∀ e ∈ older, e.call ≠ event.call := by
    intro e he
    exact (hbefore _ ⟨e, he, rfl⟩ _ (.inl rfl)).ne
  have hnewer : ∀ e ∈ newer, e.call ≠ event.call := by
    intro e he
    exact (hafter _ ⟨e, he, rfl⟩).ne'
  refine ⟨newer, older, rfl, ?_, holder⟩
  calc update (older ++ event :: newer) event.call f
      = update older event.call f ++ f event :: update newer event.call f := by simp [update]
    _ = older ++ f event :: newer := by rw [update_of_ne f holder, update_of_ne f hnewer]

/-- With the headers in step the `CHECK` of a completed front holds. -/
theorem clearCompleted_cons {wsFrame : Bool} {event : SendEvent} {queue : List SendEvent}
    {headers : List WsHeaderBuffer} (hcomplete : event.complete = true)
    (h : Corresponds wsFrame (event :: queue) headers) :
    ∃ headers', Corresponds wsFrame queue headers' ∧
      clearCompleted wsFrame (event :: queue) headers =
        clearCompleted wsFrame queue headers' := by
  cases wsFrame with
  | false => exact ⟨headers, ⟨by simp, h.2⟩, by simp [clearCompleted, hcomplete]⟩
  | true =>
      have hmap := h.1 rfl
      cases headers with
      | nil => simp at hmap
      | cons header headers =>
          simp only [List.map_cons, List.cons.injEq] at hmap
          exact ⟨headers, ⟨fun _ => hmap.2, by simp⟩,
            by simp [clearCompleted, hcomplete, ← hmap.1]⟩

/-- The loop takes the completed events off the front. -/
theorem clearCompleted_eq {wsFrame : Bool} {queue : List SendEvent}
    {headers : List WsHeaderBuffer} (h : Corresponds wsFrame queue headers) :
    ∃ done rest headers', queue = done ++ rest ∧ (∀ event ∈ done, event.complete = true) ∧
      (∀ event, rest.head? = some event → event.complete = false) ∧
      clearCompleted wsFrame queue headers = .ok (rest, headers') ∧
      Corresponds wsFrame rest headers' := by
  induction queue generalizing headers with
  | nil => exact ⟨[], [], headers, rfl, by simp, by simp, rfl, h⟩
  | cons event queue ih =>
      cases hcomplete : event.complete with
      | false =>
          refine ⟨[], event :: queue, headers, rfl, by simp, ?_,
            by simp [clearCompleted, hcomplete], h⟩
          intro e he
          cases he
          exact hcomplete
      | true =>
          obtain ⟨headers₁, hcorr, heq⟩ := clearCompleted_cons hcomplete h
          obtain ⟨done, rest, headers', hq, hdone, hfront, hclear, hrest⟩ := ih hcorr
          refine ⟨event :: done, rest, headers', by simp [hq], ?_, hfront,
            heq.trans hclear, hrest⟩
          intro e he
          rcases List.mem_cons.mp he with rfl | he
          · exact hcomplete
          · exact hdone e he

theorem atomicAdd_of_small {a d : Int} (hlow : -2 ^ 31 ≤ a + d) (hhigh : a + d < 2 ^ 31) :
    atomicAdd a d = a + d :=
  Int.bmod_eq_of_le (by omega) (by omega)

theorem bmod_add_size (a b n : Nat) :
    Int.bmod (Int.bmod a n + b) n = Int.bmod ((a + b : Nat) : Int) n := by
  rw [Int.bmod_add_bmod, Int.natCast_add]

theorem bmod_sub_size (a b n : Nat) :
    Int.bmod (Int.bmod ((a + b : Nat) : Int) n + -b) n = Int.bmod a n := by
  rw [Int.bmod_add_bmod, Int.natCast_add, Int.add_neg_cancel_right]

theorem atomicAdd_toInt32 (a b : Nat) : atomicAdd (toInt32 a) b = toInt32 (a + b) :=
  bmod_add_size a b _

theorem atomicAdd_toInt32_neg (a b : Nat) : atomicAdd (toInt32 (a + b)) (-b) = toInt32 a :=
  bmod_sub_size a b _

/-! ## §4  Every step keeps the books -/

theorem Tidy.getBuffer {s : QuicPeerStream} (h : s.Tidy) : s.getBuffer.Tidy := by
  unfold QuicPeerStream.getBuffer
  split_ifs
  · exact ⟨h.sorted, h.called, h.signalled⟩
  · exact ⟨h.sorted, h.called, h.signalled⟩

theorem Bookkeeping.getBuffer {s : QuicPeerStream} (h : s.Bookkeeping) (hbuffer : s.HasBuffer) :
    s.getBuffer.Bookkeeping := by
  have hcount := h.buffers
  have hlimit := h.limit
  unfold QuicPeerStream.getBuffer
  split_ifs with hfree
  · refine ⟨h.headers, h.front, h.sends, h.bytes, ?_, hlimit⟩
    simp only
    omega
  · refine ⟨h.headers, h.front, h.sends, h.bytes, ?_, ?_⟩
    · simp only
      omega
    · rcases hbuffer with hb | hb
      · exact absurd hb hfree
      · exact hb

/-- The queue after a flush has the same events in it. -/
theorem mem_of_ledger {queue queue' : List SendEvent}
    (hmap : queue'.map SendEvent.ledger = queue.map SendEvent.ledger) {event : SendEvent}
    (h : event ∈ queue') : ∃ event₀ ∈ queue, event₀.call = event.call ∧
      event₀.complete = event.complete ∧ event₀.notified = event.notified := by
  have hmem : event.ledger ∈ queue.map SendEvent.ledger := hmap ▸ List.mem_map_of_mem h
  obtain ⟨event₀, hmem₀, heq⟩ := List.mem_map.mp hmem
  simp only [SendEvent.ledger, SendEvent.mk.injEq] at heq
  exact ⟨event₀, hmem₀, heq.1, heq.2.2.2.1, heq.2.2.2.2.2.2⟩

theorem map_of_ledger {α : Type} {queue queue' : List SendEvent} (f : SendEvent → α)
    (hf : ∀ event, f event.ledger = f event)
    (hmap : queue'.map SendEvent.ledger = queue.map SendEvent.ledger) :
    queue'.map f = queue.map f := by
  have := congrArg (List.map f) hmap
  simpa only [List.map_map, Function.comp_def, hf] using this

theorem Tidy.sendBuffer {s t : QuicPeerStream} (h : s.Tidy) {buffer : List UInt8}
    {key : WsMaskKey} (hstep : s.sendBuffer write buffer key = .ok t) : t.Tidy := by
  cases hopen : s.isOpen with
  | false =>
      rw [QuicPeerStream.sendBuffer, hopen] at hstep
      cases hstep
      exact ⟨h.sorted, h.called, h.signalled⟩
  | true =>
      obtain ⟨queue, writes, written, headers, event, heq, hmap, hcall, -, hcomplete, -⟩ :=
        sendBuffer_eq write hopen buffer key
      rw [heq] at hstep
      cases hstep
      refine ⟨?_, ?_, ?_⟩
      · simp only [List.map_append, map_of_ledger SendEvent.call (fun _ => rfl) hmap]
        rw [List.pairwise_append]
        refine ⟨h.sorted, by simp, ?_⟩
        intro a ha b hb
        obtain ⟨e, he, rfl⟩ := List.mem_map.mp ha
        simp only [List.map_cons, List.map_nil, List.mem_singleton] at hb
        rw [hb, hcall]
        exact h.called e he
      · intro e he
        rcases List.mem_append.mp he with he | he
        · obtain ⟨e₀, he₀, hsame, -⟩ := mem_of_ledger hmap he
          rw [← hsame]
          exact Nat.lt_succ_of_lt (h.called e₀ he₀)
        · rw [List.mem_singleton.mp he, hcall]
          exact Nat.lt_succ_self _
      · intro e he hdone
        rcases List.mem_append.mp he with he | he
        · obtain ⟨e₀, he₀, -, hc, hn⟩ := mem_of_ledger hmap he
          rw [← hn]
          exact h.signalled e₀ he₀ (hc.trans hdone)
        · rw [List.mem_singleton.mp he, hcomplete] at hdone
          cases hdone

theorem Bookkeeping.sendBuffer {s t : QuicPeerStream} (h : s.Bookkeeping) (htidy : s.Tidy)
    (hout : 0 < s.buffersOut) {buffer : List UInt8} {key : WsMaskKey}
    (hstep : s.sendBuffer write buffer key = .ok t) : t.Bookkeeping := by
  have hcount := h.buffers
  have hlimit := h.limit
  cases hopen : s.isOpen with
  | false =>
      rw [QuicPeerStream.sendBuffer, hopen] at hstep
      cases hstep
      refine ⟨h.headers, h.front, h.sends, h.bytes, ?_, hlimit⟩
      simp only [releaseBuffer]
      omega
  | true =>
      obtain ⟨queue, writes, written, headers, event, heq, hmap, -, hsize, hcomplete, hnotified,
        hws, hplain⟩ := sendBuffer_eq write hopen buffer key
      rw [heq] at hstep
      cases hstep
      have hsends : outstanding queue = outstanding s.sendQueue := by
        rw [← outstanding_ledger, hmap, outstanding_ledger]
      have hbytes : outstandingBytes queue = outstandingBytes s.sendQueue := by
        rw [← outstandingBytes_ledger, hmap, outstandingBytes_ledger]
      have hheld : buffersHeld queue = buffersHeld s.sendQueue := by
        rw [← buffersHeld_ledger, hmap, buffersHeld_ledger]
      have hfew := outstanding_le_buffersHeld htidy.signalled
      refine ⟨⟨?_, ?_⟩, ?_, ?_, ?_, ?_, hlimit⟩
      · intro hframe
        simp only [List.map_append, hws hframe, h.headers.1 hframe,
          map_of_ledger SendEvent.header (fun _ => rfl) hmap]
        rfl
      · intro hframe
        simp only [hplain hframe, h.headers.2 hframe]
        rfl
      · intro e he
        simp only [List.head?_append] at he
        cases hhead : queue.head? with
        | none =>
            rw [hhead] at he
            cases he
            exact hcomplete
        | some e₁ =>
            rw [hhead] at he
            cases he
            have hfront := congrArg List.head?
              (map_of_ledger SendEvent.complete (fun _ => rfl) hmap)
            rw [List.head?_map, List.head?_map, hhead] at hfront
            obtain ⟨e₀, he₀, hsame⟩ := Option.map_eq_some_iff.mp hfront.symm
            rw [← hsame]
            exact h.front e₀ he₀
      · simp only [takeOn, outstanding_append, outstanding_cons, outstanding_nil, hnotified, hsends]
        rw [h.sends, atomicAdd_of_small (by omega) (by unfold maxSendBuffers at hlimit; omega)]
        simp
      · simp only [takeOn, outstandingBytes_append, outstandingBytes_cons, outstandingBytes_nil,
          hnotified, hbytes, hsize]
        rw [h.bytes, atomicAdd_toInt32]
        simp
      · simp only [takeOn, buffersHeld_append, buffersHeld_cons, buffersHeld_nil, hcomplete, hheld]
        simp
        omega

theorem Tidy.update {s : QuicPeerStream} (h : s.Tidy) {event : SendEvent}
    (hmem : event ∈ s.sendQueue) {f : SendEvent → SendEvent} (hcall : (f event).call = event.call)
    (hsignalled : (f event).complete = true → (f event).notified = true) :
    Tidy { s with sendQueue := update s.sendQueue event.call f } := by
  obtain ⟨newer, older, hq, hupdate, -⟩ := update_split h.sorted hmem f
  have hmem' : ∀ e ∈ older ++ f event :: newer, e = f event ∨ e ∈ s.sendQueue := by
    intro e he
    rw [hq]
    simp only [List.mem_append, List.mem_cons] at he ⊢
    rcases he with he | he | he
    · exact .inr (.inl he)
    · exact .inl he
    · exact .inr (.inr (.inr he))
  rw [hupdate]
  refine ⟨?_, ?_, ?_⟩
  · have hsorted := h.sorted
    rw [hq] at hsorted
    simpa [hcall] using hsorted
  · intro e he
    rcases hmem' e he with rfl | he
    · rw [hcall]
      exact h.called event hmem
    · exact h.called e he
  · intro e he
    rcases hmem' e he with rfl | he
    · exact hsignalled
    · exact h.signalled e he

theorem Tidy.writeComplete {s : QuicPeerStream} (h : s.Tidy) {event : SendEvent}
    (hmem : event ∈ s.sendQueue) : (s.writeComplete event).Tidy := by
  have h' := h.update hmem (f := fun e => { e with notified := true }) rfl (fun _ => rfl)
  exact ⟨h'.sorted, h'.called, h'.signalled⟩

theorem Bookkeeping.writeComplete {s : QuicPeerStream} (h : s.Bookkeeping) (htidy : s.Tidy)
    {event : SendEvent} (hmem : event ∈ s.sendQueue) (hnew : event.notified = false) :
    (s.writeComplete event).Bookkeeping := by
  obtain ⟨newer, older, hq, hupdate, -⟩ := update_split htidy.sorted hmem fun e =>
    { e with notified := true }
  have hheaders := h.headers
  have hfront := h.front
  have hsends := h.sends
  have hbytes := h.bytes
  have hbuffers := h.buffers
  have hlimit := h.limit
  have hfew := outstanding_le_buffersHeld htidy.signalled
  unfold QuicPeerStream.writeComplete
  rw [hupdate]
  rw [hq] at hheaders hfront hsends hbytes hbuffers hfew
  refine ⟨?_, ?_, ?_, ?_, ?_, hlimit⟩
  · simpa [Corresponds] using hheaders
  · intro e he
    cases older with
    | nil =>
        cases he
        exact hfront event rfl
    | cons e₀ older => exact hfront e (by simpa using he)
  · simp only [outstanding_append, outstanding_cons, hnew] at hsends hfew ⊢
    rw [hsends, atomicAdd_of_small (by simp; omega)
      (by unfold maxSendBuffers at hlimit; simp; omega)]
    simp
    omega
  · simp only [outstandingBytes_append, outstandingBytes_cons, hnew] at hbytes ⊢
    have hsum : outstandingBytes older + ((if false = true then 0 else event.buffer.length) +
        outstandingBytes newer) =
        outstandingBytes older + outstandingBytes newer + event.buffer.length := by
      simp
      omega
    rw [hbytes, hsum, atomicAdd_toInt32_neg]
    simp
  · simpa using hbuffers

/-- What the locked half does: the event is complete, and if it was the front of the queue
all completed ones are taken off. -/
theorem completeLocked_eq {s : QuicPeerStream} (h : s.Bookkeeping) (htidy : s.Tidy)
    {event : SendEvent} (hmem : event ∈ s.sendQueue) :
    ∃ done rest headers,
      update s.sendQueue event.call (fun e => { e with complete := true, buffer := [] }) =
        done ++ rest ∧
      (∀ e ∈ done, e.complete = true) ∧ (∀ e, rest.head? = some e → e.complete = false) ∧
      Corresponds s.wsFrame rest headers ∧
      s.completeLocked event = .ok { s with
        sendQueue := rest, wsHeaders := headers, sendBuffersFree := s.sendBuffersFree + 1 } := by
  obtain ⟨newer, older, hq, hupdate, holder⟩ := update_split htidy.sorted hmem fun e =>
    { e with complete := true, buffer := [] }
  have hcorr : Corresponds s.wsFrame
      (older ++ { event with complete := true, buffer := [] } :: newer) s.wsHeaders := by
    have := h.headers
    rw [hq] at this
    simpa [Corresponds] using this
  unfold completeLocked
  simp only [releaseBuffer, hupdate]
  cases older with
  | nil =>
      obtain ⟨done, rest, headers, hsplit, hdone, hfront, hclear, hrest⟩ := clearCompleted_eq hcorr
      refine ⟨done, rest, headers, hsplit, hdone, hfront, hrest, ?_⟩
      simp only [List.nil_append] at hclear ⊢
      rw [if_pos (by simp), hclear]
      rfl
  | cons front older =>
      refine ⟨[], _, _, rfl, by simp, ?_, hcorr, ?_⟩
      · intro e he
        have := h.front
        rw [hq] at this
        exact this e (by simpa using he)
      · exact if_neg (by simpa using holder front (by simp))

theorem Tidy.completeLocked {s t : QuicPeerStream} (h : s.Tidy) (hbooks : s.Bookkeeping)
    {event : SendEvent} (hmem : event ∈ s.sendQueue) (hnotified : event.notified = true)
    (hstep : s.completeLocked event = .ok t) : t.Tidy := by
  obtain ⟨done, rest, headers, hsplit, -, -, -, heq⟩ := completeLocked_eq hbooks h hmem
  have h' := h.update hmem (f := fun e => { e with complete := true, buffer := [] }) rfl
    (fun _ => hnotified)
  rw [heq] at hstep
  cases hstep
  have hsorted := h'.sorted
  have hcalled := h'.called
  have hsignalled := h'.signalled
  simp only [hsplit] at hsorted hcalled hsignalled
  refine ⟨?_, ?_, ?_⟩
  · rw [List.map_append, List.pairwise_append] at hsorted
    exact hsorted.2.1
  · intro e he
    exact hcalled e (List.mem_append_right _ he)
  · intro e he
    exact hsignalled e (List.mem_append_right _ he)

theorem Bookkeeping.completeLocked {s t : QuicPeerStream} (h : s.Bookkeeping) (htidy : s.Tidy)
    {event : SendEvent} (hmem : event ∈ s.sendQueue) (hnotified : event.notified = true)
    (hnew : event.complete = false) (hstep : s.completeLocked event = .ok t) :
    t.Bookkeeping := by
  obtain ⟨done, rest, headers, hsplit, hdone, hfront, hrest, heq⟩ := completeLocked_eq h htidy hmem
  obtain ⟨newer, older, hq, hupdate, -⟩ := update_split htidy.sorted hmem fun e =>
    { e with complete := true, buffer := [] }
  have hsignalled : ∀ e ∈ done, e.complete = true → e.notified = true := by
    have h' := htidy.update hmem (f := fun e => { e with complete := true, buffer := [] }) rfl
      (fun _ => hnotified)
    intro e he
    apply h'.signalled
    simp only [hsplit]
    exact List.mem_append_left _ he
  obtain ⟨hnone, hnoBytes, hnoBuffers⟩ := outstanding_done hdone hsignalled
  rw [hupdate] at hsplit
  rw [heq] at hstep
  cases hstep
  have hsends := h.sends
  have hbytes := h.bytes
  have hbuffers := h.buffers
  rw [hq] at hsends hbytes hbuffers
  -- the same sums over the queue before the front is taken off
  have hsends' := congrArg outstanding hsplit
  have hbytes' := congrArg outstandingBytes hsplit
  have hbuffers' := congrArg buffersHeld hsplit
  simp only [outstanding_append, outstanding_cons, hnotified, hnone, if_true] at hsends hsends'
  simp only [outstandingBytes_append, outstandingBytes_cons, hnotified, hnoBytes, if_true]
    at hbytes hbytes'
  simp only [buffersHeld_append, buffersHeld_cons, hnew, hnoBuffers, if_true] at hbuffers hbuffers'
  refine ⟨hrest, hfront, ?_, ?_, ?_, h.limit⟩
  · simp only [hsends]
    omega
  · simp only [hbytes]
    congr 1
    omega
  · simp only [hbuffers]
    simp at hbuffers' ⊢
    omega

theorem tidy_start (wsFrame isOpen : Bool) : Tidy { wsFrame := wsFrame, isOpen := isOpen } :=
  ⟨by simp, by simp, by simp⟩

theorem bookkeeping_start (wsFrame isOpen : Bool) :
    Bookkeeping { wsFrame := wsFrame, isOpen := isOpen } where
  headers := ⟨by simp, by simp⟩
  front := by simp
  sends := rfl
  bytes := (toInt32_of_lt (by decide)).symm
  buffers := rfl
  limit := Nat.zero_le _

theorem Bookkeeping.step {s t : QuicPeerStream} {e : StreamEvent} (h : s.Bookkeeping)
    (htidy : s.Tidy) (hstep : Step write s e t) : t.Bookkeeping ∧ t.Tidy := by
  obtain ⟨henabled, hhandle⟩ := hstep
  cases e with
  | getBuffer =>
      cases hhandle
      exact ⟨h.getBuffer henabled, htidy.getBuffer⟩
  | sendBuffer buffer key =>
      exact ⟨h.sendBuffer htidy henabled.2 hhandle, htidy.sendBuffer hhandle⟩
  | writeComplete event cancelled =>
      cases hhandle
      obtain ⟨hmem, -, hnew⟩ := henabled
      exact ⟨h.writeComplete htidy hmem (by simpa using hnew), htidy.writeComplete hmem⟩
  | completeLocked event =>
      obtain ⟨hmem, hnotified, hnew⟩ := henabled
      exact ⟨h.completeLocked htidy hmem hnotified (by simpa using hnew) hhandle,
        htidy.completeLocked h hmem hnotified hhandle⟩

/-- Framing is chosen once. -/
theorem Bookkeeping.step_wsFrame {s t : QuicPeerStream} {e : StreamEvent} (h : s.Bookkeeping)
    (htidy : s.Tidy) (hstep : Step write s e t) : t.wsFrame = s.wsFrame := by
  obtain ⟨henabled, hhandle⟩ := hstep
  cases e with
  | getBuffer =>
      cases hhandle
      unfold QuicPeerStream.getBuffer
      split_ifs <;> rfl
  | sendBuffer buffer key =>
      cases hopen : s.isOpen with
      | false =>
          simp only [QuicPeerStream.handle, QuicPeerStream.sendBuffer, hopen, Bool.not_false,
            if_true] at hhandle
          cases hhandle
          rfl
      | true =>
          obtain ⟨queue, writes, written, headers, event, heq, -⟩ :=
            sendBuffer_eq write hopen buffer key
          cases heq.symm.trans hhandle
          rfl
  | writeComplete event cancelled =>
      cases hhandle
      rfl
  | completeLocked event =>
      obtain ⟨done, rest, headers, -, -, -, -, heq⟩ := completeLocked_eq h htidy henabled.1
      cases heq.symm.trans hhandle
      rfl

/-- No `CHECK` on the way fails. -/
theorem Bookkeeping.handle {s : QuicPeerStream} {e : StreamEvent} (h : s.Bookkeeping)
    (htidy : s.Tidy) (henabled : s.Enabled e) : ∃ t, s.handle write e = .ok t := by
  cases e with
  | getBuffer => exact ⟨_, rfl⟩
  | sendBuffer buffer key =>
      cases hopen : s.isOpen with
      | false => exact ⟨_, by simp [QuicPeerStream.handle, QuicPeerStream.sendBuffer, hopen]; rfl⟩
      | true =>
          obtain ⟨queue, writes, written, headers, event, heq, -⟩ :=
            sendBuffer_eq write hopen buffer key
          exact ⟨_, heq⟩
  | writeComplete event cancelled => exact ⟨_, rfl⟩
  | completeLocked event =>
      obtain ⟨done, rest, headers, -, -, -, -, heq⟩ := completeLocked_eq h htidy henabled.1
      exact ⟨_, heq⟩

/-! ## §5  Over whole runs -/

theorem bookkeeping_of_runs {wsFrame isOpen : Bool} {es : List StreamEvent} {s : QuicPeerStream}
    (run : Runs (Step write) { wsFrame := wsFrame, isOpen := isOpen } es s) :
    s.Bookkeeping ∧ s.Tidy ∧ s.wsFrame = wsFrame := by
  apply run.invariant (I := fun s => s.Bookkeeping ∧ s.Tidy ∧ s.wsFrame = wsFrame)
  · exact ⟨bookkeeping_start wsFrame isOpen, tidy_start wsFrame isOpen, rfl⟩
  · rintro s e t ⟨hbooks, htidy, hframe⟩ hstep
    obtain ⟨hbooks', htidy'⟩ := hbooks.step htidy hstep
    exact ⟨hbooks', htidy', (hbooks.step_wsFrame htidy hstep).trans hframe⟩

/-- **The bookkeeping holds in every state**, whatever becomes of the Writes: the headers go
with the events, the counters count what is outstanding (the bytes as an `int`, so exactly as
long as they fit one), and every buffer is accounted for. -/
theorem stream_bookkeeping {isOpen : Bool} {es : List StreamEvent} {s : QuicPeerStream}
    (run : Runs (Step write) { wsFrame := true, isOpen := isOpen } es s) :
    s.Bookkeeping ∧ s.wsHeaders.length = s.sendQueue.length ∧
      s.wsHeaders.map (some ·.address) = s.sendQueue.map SendEvent.header ∧
      (outstandingBytes s.sendQueue < 2 ^ 31 →
        s.pendingBytes = outstandingBytes s.sendQueue) ∧
      ∀ e, s.Enabled e → ∃ t, s.handle write e = .ok t := by
  obtain ⟨hbooks, htidy, hframe⟩ := bookkeeping_of_runs run
  have hheaders := hbooks.headers.1 hframe
  refine ⟨hbooks, ?_, hheaders, ?_, ?_⟩
  · have hlength := congrArg List.length hheaders
    simpa using hlength
  · intro hfit
    rw [hbooks.bytes, toInt32_of_lt hfit]
  · intro e henabled
    exact hbooks.handle htidy henabled

/-- The first message on a stream. -/
theorem first_message (write : Nat → Bool) (wsFrame : Bool) (message : List UInt8)
    (key : WsMaskKey) : ∃ s, Runs (Step write) { wsFrame := wsFrame, isOpen := true }
      [.getBuffer, .sendBuffer message key] s ∧ s.sendQueue.length = 1 ∧
      outstandingBytes s.sendQueue = message.length := by
  have hget : Step write { wsFrame := wsFrame, isOpen := true } .getBuffer
      { wsFrame := wsFrame, isOpen := true, sendBufferCount := 1, buffersOut := 1 } :=
    ⟨.inr (show 0 < maxSendBuffers by decide), rfl⟩
  obtain ⟨queue, writes, written, headers, event, heq, hmap, -, hsize, -, hnotified, -⟩ :=
    sendBuffer_eq write
      (s := { wsFrame := wsFrame, isOpen := true, sendBufferCount := 1, buffersOut := 1 })
      rfl message key
  have hempty : queue = [] := by simpa using hmap
  subst hempty
  have hsend : Step write
      { wsFrame := wsFrame, isOpen := true, sendBufferCount := 1, buffersOut := 1 }
      (.sendBuffer message key) _ :=
    ⟨⟨fun _ => show 0 ≤ maxPendingBytes by decide, Nat.one_pos⟩, heq⟩
  refine ⟨_, (Runs.init.snoc hget).snoc hsend, rfl, ?_⟩
  simp [hnotified, hsize]

theorem stream_bookkeeping_first :
    ∃ s, Runs (Step fun _ => true) { wsFrame := true, isOpen := true }
      [.getBuffer, .sendBuffer [1, 2, 3] .zero] s ∧ s.Bookkeeping ∧ s.wsHeaders.length = 1 := by
  obtain ⟨s, run, hlength, -⟩ := first_message (fun _ => true) true [1, 2, 3] .zero
  obtain ⟨hbooks, hheaders, -⟩ := stream_bookkeeping run
  exact ⟨s, run, hbooks, hheaders.trans hlength⟩

/-- A message that does not fit an `int` is miscounted. -/
theorem bookkeeping_is_narrower :
    ∃ s, Runs (Step fun _ => true) { wsFrame := true, isOpen := true }
      [.getBuffer, .sendBuffer (List.replicate (2 ^ 31) 0) .zero] s ∧
      s.pendingBytes ≠ outstandingBytes s.sendQueue := by
  obtain ⟨s, run, -, hbytes⟩ :=
    first_message (fun _ => true) true (List.replicate (2 ^ 31) 0) .zero
  refine ⟨s, run, ?_⟩
  rw [(bookkeeping_of_runs run).1.bytes, hbytes, List.length_replicate]
  have := toInt32_lt (2 ^ 31)
  omega

end QuicPeerStream

end BeyondProtocol.Quic
