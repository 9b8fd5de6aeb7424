import Mathlib.Data.List.Sort
import BeyondProtocol.Quic.SendOrder

/-!
# The bytes of the Writes (`quic/src/quic_peer.cpp`)

A Write is given the vector of its event: the header of the WebSocket frame, if there is one,
and the message, masked in place. Header and message stay where they are until the Write is
complete, whatever is sent and completed in between. So the stream of MsQuic carries the
frames of the messages whose Writes succeeded, in the order in which `send_buffer_` was called.
-/

namespace BeyondProtocol.Quic

open Framework

/-- A message and the key it is masked with. -/
abbrev AskedMessage : Type := List UInt8 × WsMaskKey

/-- What `send_buffer_` was called with, if it was called. -/
def StreamEvent.asks : StreamEvent → List AskedMessage
  | .sendBuffer buffer key => [(buffer, key)]
  | _ => []

namespace AskedMessage

/-- The message in its buffer, masked if it is framed. -/
def body (wsFrame : Bool) (m : AskedMessage) : List UInt8 :=
  if wsFrame then mask m.2 0 m.1 else m.1

def header (m : AskedMessage) : List UInt8 :=
  headerBytes OpCodeType.BINARY_FRAME true m.2 m.1.length

/-- The message on the stream. -/
def encode (wsFrame : Bool) (m : AskedMessage) : List UInt8 :=
  if wsFrame then m.header ++ m.body wsFrame else m.body wsFrame

end AskedMessage

/-- The messages of some calls. -/
def messagesOf {α : Type} (asked : List α) (calls : List Nat) : List α :=
  calls.filterMap fun call => asked[call]?

namespace QuicPeerStream

variable {write : Nat → Bool}

/-! ## §1  The vectors -/

/-- `quic_vector` of an event -/
def vector (s : QuicPeerStream) (event : SendEvent) : List UInt8 :=
  match event.header with
  | none => event.buffer
  | some address =>
      ((s.wsHeaders.find? (·.address = address)).elim [] WsHeaderBuffer.bytes) ++ event.buffer

/-- What was passed to Writes that succeeded from one state to another. -/
def passed (s t : QuicPeerStream) : List UInt8 :=
  (t.written.drop s.written.length).flatMap fun call =>
    (t.sendQueue.find? (·.call = call)).elim [] t.vector

/-- The header that is made for a message, if any. -/
def newHeaders (s : QuicPeerStream) (m : AskedMessage) : List WsHeaderBuffer :=
  if s.wsFrame then [⟨s.calls, m.header⟩] else []

/-- The event that is made for a message. -/
def newEvent (s : QuicPeerStream) (m : AskedMessage) : SendEvent where
  call := s.calls
  buffer := m.body s.wsFrame
  header := if s.wsFrame then some s.calls else none

theorem queueSend_frame (s : QuicPeerStream) (m : AskedMessage) :
    s.queueSend m.1 m.2 = .ok
      ({ s with wsHeaders := s.wsHeaders ++ s.newHeaders m, calls := s.calls + 1 },
        s.newEvent m) := by
  unfold newHeaders newEvent AskedMessage.body AskedMessage.header
  by_cases hws : s.wsFrame = true
  · simp only [queueSend_framed hws, if_pos hws]
  · simp only [queueSend, if_neg hws, List.append_nil]
    rfl

/-! ## §2  The order of the Writes

Whatever fails, only the last message of the queue waits to be tried again, and it is younger
than all that were written. -/

structure Ordered (s : QuicPeerStream) : Prop where
  idle : ∀ event ∈ s.sendQueue.dropLast, event.pending = false
  late : ∀ event ∈ s.sendQueue, event.pending = true → ∀ call ∈ s.written, call < event.call
  sorted : s.written.Pairwise (· < ·)
  called : ∀ call ∈ s.written, call < s.calls

theorem ordered_start (wsFrame isOpen : Bool) :
    Ordered { wsFrame := wsFrame, isOpen := isOpen } where
  idle := by simp
  late := by simp
  sorted := .nil
  called := by simp

/-- What a flush leaves: nothing waits, and at most the one that did was written. -/
theorem Ordered.flush (write : Nat → Bool) {s : QuicPeerStream} (h : s.Ordered) (size : Nat) :
    ∃ queue writes calls,
      (s.takeOn size).flushSendQueue write =
        { s.takeOn size with
          sendQueue := queue, writes := writes, written := s.written ++ calls } ∧
      queue.map SendEvent.ledger = s.sendQueue.map SendEvent.ledger ∧
      (∀ event ∈ queue, event.pending = false) ∧
      (calls = [] ∨ ∃ event ∈ s.sendQueue, event.pending = true ∧ calls = [event.call]) := by
  rcases List.eq_nil_or_concat s.sendQueue with hnil | ⟨older, event, hqueue⟩
  · have hidle : ∀ e ∈ (s.takeOn size).sendQueue, e.pending = false := by
      intro e he
      simp [takeOn, hnil] at he
    refine ⟨s.sendQueue, s.writes, [], ?_, rfl, hidle, .inl rfl⟩
    rw [flushSendQueue_idle hidle, List.append_nil]
    rfl
  rw [List.concat_eq_append] at hqueue
  have holder : ∀ e ∈ older, e.pending = false := by
    intro e he
    apply h.idle e
    rwa [hqueue, List.dropLast_concat]
  cases hpending : event.pending with
  | false =>
      have hidle : ∀ e ∈ (s.takeOn size).sendQueue, e.pending = false := by
        intro e he
        replace he : e ∈ s.sendQueue := he
        rw [hqueue] at he
        rcases List.mem_append.mp he with he | he
        · exact holder e he
        · rw [List.mem_singleton.mp he]
          exact hpending
      refine ⟨s.sendQueue, s.writes, [], ?_, rfl, hidle, .inl rfl⟩
      rw [flushSendQueue_idle hidle, List.append_nil]
      rfl
  | true =>
      have hflush := flushSendQueue_retry write (s := s.takeOn size) hqueue hpending holder
      refine ⟨older ++ [{ event with pending := false, submitted := write s.writes }],
        s.writes + 1, if write s.writes then [event.call] else [], ?_, ?_, ?_, ?_⟩
      · rw [hflush]
        congr 1
        show (if write s.writes then s.written ++ [event.call] else s.written) = _
        split_ifs
        · rfl
        · exact (List.append_nil _).symm
      · rw [hqueue]
        simp [SendEvent.ledger]
      · intro e he
        rcases List.mem_append.mp he with he | he
        · exact holder e he
        · rw [List.mem_singleton.mp he]
      · split_ifs
        · exact .inr ⟨event, by simp [hqueue], hpending, rfl⟩
        · exact .inl rfl

/-- What a call on an open stream does, with the new event spelt out. -/
theorem Ordered.sendBuffer_frame (write : Nat → Bool) {s : QuicPeerStream} (h : s.Ordered)
    (hopen : s.isOpen = true) (m : AskedMessage) : ∃ queue writes calls,
      s.sendBuffer write m.1 m.2 = .ok { s.takeOn m.1.length with
        sendQueue := queue ++
          [{ s.newEvent m with pending := !write writes, submitted := write writes }]
        wsHeaders := s.wsHeaders ++ s.newHeaders m
        calls := s.calls + 1
        writes := writes + 1
        written := s.written ++ (calls ++ if write writes then [s.calls] else []) } ∧
      queue.map SendEvent.ledger = s.sendQueue.map SendEvent.ledger ∧
      (∀ event ∈ queue, event.pending = false) ∧
      (calls = [] ∨ ∃ event ∈ s.sendQueue, event.pending = true ∧ calls = [event.call]) := by
  obtain ⟨queue, writes, calls, hflush, hmap, hidle, hcalls⟩ :=
    h.flush write m.1.length
  refine ⟨queue, writes, calls, ?_, hmap, hidle, hcalls⟩
  unfold sendBuffer
  rw [if_neg (by simp [hopen])]
  simp only [hflush, queueSend_frame, ok_bind]
  unfold send
  cases write writes with
  | false =>
      simp
      rfl
  | true =>
      simp
      rfl

/-- What waits to be tried again was not called before what was written. -/
theorem Ordered.sendBuffer {s t : QuicPeerStream} (h : s.Ordered) (htidy : s.Tidy)
    (hopen : s.isOpen = true) {m : AskedMessage}
    (hstep : s.sendBuffer write m.1 m.2 = .ok t) : t.Ordered := by
  obtain ⟨queue, writes, calls, heq, -, hidle, hcalls⟩ :=
    h.sendBuffer_frame write hopen m
  rw [heq] at hstep
  cases hstep
  -- what the flush wrote
  have hflushed : (s.written ++ calls).Pairwise (· < ·) ∧
      ∀ call ∈ s.written ++ calls, call < s.calls := by
    rcases hcalls with rfl | ⟨event, hmem, hpending, rfl⟩
    · rw [List.append_nil]
      exact ⟨h.sorted, h.called⟩
    · refine ⟨List.pairwise_append.mpr ⟨h.sorted, List.pairwise_singleton _ _, ?_⟩, ?_⟩
      · intro call hcall call' hcall'
        rw [List.mem_singleton.mp hcall']
        exact h.late event hmem hpending call hcall
      · rw [List.forall_mem_append, List.forall_mem_singleton]
        exact ⟨h.called, htidy.called event hmem⟩
  obtain ⟨hsorted, hcalled⟩ := hflushed
  refine ⟨?_, ?_, ?_, ?_⟩
  · intro e he
    rw [List.dropLast_concat] at he
    exact hidle e he
  · intro e he hpending call hcall
    rcases List.mem_append.mp he with he | he
    · rw [hidle e he] at hpending
      cases hpending
    · rw [List.mem_singleton.mp he] at hpending ⊢
      have hfailed : write writes = false := by simpa using hpending
      rw [hfailed] at hcall
      exact hcalled call (by simpa using hcall)
  · rw [← List.append_assoc]
    refine List.pairwise_append.mpr ⟨hsorted, by split_ifs <;> simp, ?_⟩
    intro call hcall call' hcall'
    split_ifs at hcall'
    · rw [List.mem_singleton.mp hcall']
      exact hcalled call hcall
    · cases hcall'
  · rw [← List.append_assoc, List.forall_mem_append]
    refine ⟨fun call hcall => Nat.lt_succ_of_lt (hcalled call hcall), ?_⟩
    intro call hcall
    split_ifs at hcall
    · rw [List.mem_singleton.mp hcall]
      exact Nat.lt_succ_self _
    · cases hcall

/-- Completions leave the marks as they are. -/
theorem Ordered.settle {s t : QuicPeerStream} (h : s.Ordered) {call : Nat}
    {f : SendEvent → SendEvent} {done : List SendEvent}
    (hsplit : update s.sendQueue call f = done ++ t.sendQueue)
    (hcall : ∀ e, (f e).call = e.call) (hpending : ∀ e, (f e).pending = e.pending)
    (hwritten : t.written = s.written) (hcalls : t.calls = s.calls) : t.Ordered := by
  have hsame : ∀ e : SendEvent, (if e.call = call then f e else e).call = e.call ∧
      (if e.call = call then f e else e).pending = e.pending := by
    intro e
    split_ifs
    · exact ⟨hcall e, hpending e⟩
    · exact ⟨rfl, rfl⟩
  refine ⟨?_, ?_, hwritten ▸ h.sorted, hwritten ▸ hcalls ▸ h.called⟩
  · intro e he
    have hne : t.sendQueue ≠ [] := by
      intro hnil
      simp [hnil] at he
    have hmem : e ∈ (update s.sendQueue call f).dropLast := by
      rw [hsplit, List.dropLast_append_of_ne_nil hne]
      exact List.mem_append_right _ he
    rw [update, ← List.map_dropLast] at hmem
    obtain ⟨e₀, he₀, rfl⟩ := List.mem_map.mp hmem
    rw [(hsame e₀).2]
    exact h.idle e₀ he₀
  · intro e he hp c hc
    have hmem : e ∈ update s.sendQueue call f := by
      rw [hsplit]
      exact List.mem_append_right _ he
    obtain ⟨e₀, he₀, rfl⟩ := List.mem_map.mp hmem
    rw [(hsame e₀).2] at hp
    rw [(hsame e₀).1]
    exact h.late e₀ he₀ hp c (hwritten ▸ hc)

/-! ## §3  What header and message are -/

/-- The event of a message, whatever became of its Write. -/
structure FramedEvent (asked : List AskedMessage) (wsFrame : Bool) (event : SendEvent) :
    Prop where
  header : event.header = if wsFrame then some event.call else none
  buffer : event.complete = false → ∃ m, asked[event.call]? = some m ∧
    event.buffer = m.body wsFrame

structure Framed (asked : List AskedMessage) (s : QuicPeerStream) : Prop where
  isOpen : s.isOpen = true
  calls : s.calls = asked.length
  events : ∀ event ∈ s.sendQueue, FramedEvent asked s.wsFrame event
  headers : ∀ header ∈ s.wsHeaders, ∃ m : AskedMessage,
    asked[header.address]? = some m ∧ header.bytes = m.header

theorem getElem?_asked {asked : List AskedMessage} {call : Nat} {m : AskedMessage}
    (h : asked[call]? = some m) (more : List AskedMessage) :
    (asked ++ more)[call]? = some m := by
  rw [List.getElem?_append_left (List.getElem?_eq_some_iff.mp h).1]
  exact h

theorem FramedEvent.mono {asked : List AskedMessage} {wsFrame : Bool} {event : SendEvent}
    (h : FramedEvent asked wsFrame event) (more : List AskedMessage) :
    FramedEvent (asked ++ more) wsFrame event := by
  refine ⟨h.header, fun hcomplete => ?_⟩
  obtain ⟨m, hm, hbuffer⟩ := h.buffer hcomplete
  exact ⟨m, getElem?_asked hm more, hbuffer⟩

/-- The marks of the Writes do not matter. -/
theorem framedEvent_ledger {asked : List AskedMessage} {wsFrame : Bool} {event : SendEvent} :
    FramedEvent asked wsFrame event.ledger ↔ FramedEvent asked wsFrame event :=
  ⟨fun h => ⟨h.header, h.buffer⟩, fun h => ⟨h.header, h.buffer⟩⟩

theorem framed_start (wsFrame : Bool) : Framed [] { wsFrame := wsFrame, isOpen := true } where
  isOpen := rfl
  calls := rfl
  events := by simp
  headers := by simp

theorem Framed.sendBuffer {s t : QuicPeerStream} {asked : List AskedMessage} (h : Framed asked s)
    (hordered : s.Ordered) {m : AskedMessage} (hstep : s.sendBuffer write m.1 m.2 = .ok t) :
    Framed (asked ++ [m]) t := by
  obtain ⟨queue, writes, calls, heq, hmap, -⟩ :=
    hordered.sendBuffer_frame write h.isOpen m
  rw [heq] at hstep
  cases hstep
  have hnew : (asked ++ [m])[s.calls]? = some m := by
    rw [h.calls]
    exact List.getElem?_concat_length
  refine ⟨h.isOpen, ?_, ?_, ?_⟩
  · show s.calls + 1 = _
    rw [h.calls, List.length_append, List.length_singleton]
  · intro e he
    rcases List.mem_append.mp he with he | he
    · have hmem : e.ledger ∈ s.sendQueue.map SendEvent.ledger := hmap ▸ List.mem_map_of_mem he
      obtain ⟨e₀, he₀, hsame⟩ := List.mem_map.mp hmem
      have hledger := framedEvent_ledger.mpr (h.events e₀ he₀)
      rw [hsame] at hledger
      exact (framedEvent_ledger.mp hledger).mono [m]
    · rw [List.mem_singleton.mp he]
      exact ⟨rfl, fun _ => ⟨m, hnew, rfl⟩⟩
  · intro header he
    rcases List.mem_append.mp he with he | he
    · obtain ⟨m₀, hm₀, hbytes⟩ := h.headers header he
      exact ⟨m₀, getElem?_asked hm₀ [m], hbytes⟩
    · unfold newHeaders at he
      split_ifs at he
      · rw [List.mem_singleton.mp he]
        exact ⟨m, hnew, rfl⟩
      · cases he

/-- Completed events take their headers with them, and no others. -/
theorem clearCompleted_headers {wsFrame : Bool} {queue queue' : List SendEvent}
    {headers headers' : List WsHeaderBuffer}
    (h : clearCompleted wsFrame queue headers = .ok (queue', headers')) :
    headers' ⊆ headers := by
  induction queue generalizing headers with
  | nil =>
      cases h
      exact List.Subset.refl _
  | cons event queue ih =>
      unfold clearCompleted at h
      split at h
      · cases wsFrame with
        | false => exact ih h
        | true =>
            simp only [if_true] at h
            cases headers with
            | nil => cases h
            | cons header headers =>
                simp only at h
                split_ifs at h
                exact List.subset_cons_of_subset _ (ih h)
      · cases h
        exact List.Subset.refl _

theorem completeLocked_headers {s t : QuicPeerStream} {event : SendEvent}
    (h : s.completeLocked event = .ok t) : t.wsHeaders ⊆ s.wsHeaders := by
  unfold completeLocked at h
  simp only at h
  split_ifs at h
  · obtain ⟨⟨queue, headers⟩, hclear, hrest⟩ := bind_eq_ok.mp h
    cases hrest
    exact clearCompleted_headers hclear
  · cases h
    exact List.Subset.refl _

theorem Framed.settle {s t : QuicPeerStream} {asked : List AskedMessage} (h : Framed asked s)
    {call : Nat} {f : SendEvent → SendEvent}
    (hqueue : t.sendQueue ⊆ update s.sendQueue call f)
    (hf : ∀ e, FramedEvent asked s.wsFrame e → FramedEvent asked s.wsFrame (f e))
    (hheaders : t.wsHeaders ⊆ s.wsHeaders) (hopen : t.isOpen = s.isOpen)
    (hcalls : t.calls = s.calls) (hframe : t.wsFrame = s.wsFrame) : Framed asked t := by
  refine ⟨hopen.trans h.isOpen, hcalls.trans h.calls, ?_, fun header he =>
    h.headers header (hheaders he)⟩
  intro e he
  obtain ⟨e₀, he₀, rfl⟩ := List.mem_map.mp (hqueue he)
  rw [hframe]
  split_ifs
  · exact hf e₀ (h.events e₀ he₀)
  · exact h.events e₀ he₀

/-! ## §4  What a step passes on -/

/-- The vector of an event that is not complete is the frame of its message. -/
theorem Framed.vector {s : QuicPeerStream} {asked : List AskedMessage} (h : Framed asked s)
    (hbooks : s.Bookkeeping) {event : SendEvent} (hmem : event ∈ s.sendQueue)
    (hcomplete : event.complete = false) :
    ∃ m, asked[event.call]? = some m ∧ s.vector event = m.encode s.wsFrame := by
  obtain ⟨hheader, hbuffer⟩ := h.events event hmem
  obtain ⟨m, hm, hbody⟩ := hbuffer hcomplete
  refine ⟨m, hm, ?_⟩
  unfold QuicPeerStream.vector AskedMessage.encode
  cases hframe : s.wsFrame with
  | false =>
      rw [hframe] at hheader hbody
      rw [hheader, hbody]
      rfl
  | true =>
      rw [hframe] at hheader hbody
      -- the header that was made with the event is still there
      have hthere : some event.call ∈ s.wsHeaders.map (some ·.address) := by
        rw [hbooks.headers.1 hframe]
        exact List.mem_map.mpr ⟨event, hmem, hheader⟩
      obtain ⟨header, hin, haddress⟩ := List.mem_map.mp hthere
      cases hfind : s.wsHeaders.find? (·.address = event.call) with
      | none =>
          have hnot := List.find?_eq_none.mp hfind header hin
          simp only [decide_eq_true_eq] at hnot
          exact absurd (Option.some.inj haddress) hnot
      | some found =>
          have hfound : found.address = event.call := by simpa using List.find?_some hfind
          obtain ⟨m', hm', hbytes⟩ := h.headers found (List.mem_of_find?_eq_some hfind)
          rw [hfound, hm] at hm'
          cases hm'
          rw [hheader, hbody]
          simp [hfind, hbytes]

theorem messagesOf_cons {α : Type} {asked : List α} {call : Nat} {m : α}
    (h : asked[call]? = some m) (calls : List Nat) :
    messagesOf asked (call :: calls) = m :: messagesOf asked calls := by
  simp [messagesOf, h]

/-- What was written in a step that has the events still in the queue. -/
theorem Framed.passed_eq {s t : QuicPeerStream} {asked : List AskedMessage} (h : Framed asked t)
    (hbooks : t.Bookkeeping) (htidy : t.Tidy) {calls : List Nat}
    (hwritten : t.written = s.written ++ calls)
    (hqueue : ∀ call ∈ calls, ∃ event ∈ t.sendQueue, event.call = call ∧
      event.complete = false) :
    passed s t = (messagesOf asked calls).flatMap (AskedMessage.encode t.wsFrame) := by
  unfold passed
  rw [hwritten, List.drop_left]
  clear hwritten
  induction calls with
  | nil => rfl
  | cons call calls ih =>
      obtain ⟨hfirst, hrest⟩ := List.forall_mem_cons.mp hqueue
      obtain ⟨event, hmem, hcall, hcomplete⟩ := hfirst
      obtain ⟨m, hm, hvector⟩ := h.vector hbooks hmem hcomplete
      rw [hcall] at hm
      have hfind : t.sendQueue.find? (·.call = call) = some event := by
        cases hf : t.sendQueue.find? (·.call = call) with
        | none =>
            have hnot := List.find?_eq_none.mp hf event hmem
            simp only [decide_eq_true_eq] at hnot
            exact absurd hcall hnot
        | some found =>
            have hfound : found.call = call := by simpa using List.find?_some hf
            rw [htidy.eq_of_call (List.mem_of_find?_eq_some hf) hmem (hfound.trans hcall.symm)]
      rw [messagesOf_cons hm, List.flatMap_cons, List.flatMap_cons, ih hrest, hfind]
      exact congrArg (· ++ _) hvector

theorem Flow.step {s t : QuicPeerStream} {e : StreamEvent} (h : Flow write s)
    (hstep : Step write s e t) : Flow write t := by
  obtain ⟨hbooks, htidy⟩ := h.books.step h.tidy hstep
  exact ⟨hbooks, htidy, h.step_numbered hstep, h.step_standing hstep⟩

/-- What waits to be tried again is not complete. -/
theorem Flow.incomplete {s : QuicPeerStream} (h : Flow write s) {event : SendEvent}
    (hmem : event ∈ s.sendQueue) (hpending : event.pending = true) : event.complete = false := by
  obtain ⟨hsubmitted, hnotified⟩ := h.numbered.events event hmem
  by_contra hcomplete
  have hcomplete : event.complete = true := by simpa using hcomplete
  have := hsubmitted (hnotified (h.tidy.signalled event hmem hcomplete))
  rw [hpending] at this
  cases this

/-- Everything that is known of a sender after some calls. -/
structure Sending (write : Nat → Bool) (asked : List AskedMessage) (s : QuicPeerStream) :
    Prop where
  flow : Flow write s
  ordered : s.Ordered
  framed : Framed asked s

theorem sending_start (wsFrame : Bool) :
    Sending write [] { wsFrame := wsFrame, isOpen := true } :=
  ⟨flow_start wsFrame true, ordered_start wsFrame true, framed_start wsFrame⟩

/-- What a step passes to MsQuic are the frames of the messages that it adds to the written
ones. -/
def PassesOn (asked : List AskedMessage) (s t : QuicPeerStream) : Prop :=
  ∃ calls, t.written = s.written ++ calls ∧
    passed s t = (messagesOf asked calls).flatMap (AskedMessage.encode s.wsFrame)

theorem passesOn_of_written {s t : QuicPeerStream} {asked : List AskedMessage}
    (h : t.written = s.written) : PassesOn asked s t := by
  refine ⟨[], by rw [h, List.append_nil], ?_⟩
  unfold passed
  rw [h, List.drop_length]
  rfl

theorem Sending.sendBuffer {s t : QuicPeerStream} {asked : List AskedMessage}
    (h : Sending write asked s) {m : AskedMessage}
    (hstep : Step write s (.sendBuffer m.1 m.2) t) :
    Sending write (asked ++ [m]) t ∧ PassesOn (asked ++ [m]) s t ∧ t.wsFrame = s.wsFrame := by
  have hflow := h.flow.step hstep
  have hframed := h.framed.sendBuffer h.ordered hstep.2
  have hordered := h.ordered.sendBuffer h.flow.tidy h.framed.isOpen hstep.2
  obtain ⟨queue, writes, calls, heq, hmap, -, hcalls⟩ :=
    h.ordered.sendBuffer_frame write h.framed.isOpen m
  have ht := hstep.2
  rw [handle, heq] at ht
  injection ht with ht
  have hframe := h.flow.books.step_wsFrame h.flow.tidy hstep
  refine ⟨⟨hflow, hordered, hframed⟩, ⟨calls ++ if write writes then [s.calls] else [], ?_, ?_⟩,
    hframe⟩
  · rw [← ht]
  rw [← hframe]
  refine hframed.passed_eq hflow.books hflow.tidy (by rw [← ht]) ?_
  intro call hcall
  rcases List.mem_append.mp hcall with hcall | hcall
  · -- it waited, and the flush has left it in its place
    rcases hcalls with rfl | ⟨event, hmem, hpending, rfl⟩
    · cases hcall
    · rw [List.mem_singleton.mp hcall]
      have hledger : event.ledger ∈ queue.map SendEvent.ledger := hmap ▸ List.mem_map_of_mem hmem
      obtain ⟨event', hmem', hsame⟩ := List.mem_map.mp hledger
      simp only [SendEvent.ledger, SendEvent.mk.injEq] at hsame
      refine ⟨event', ?_, hsame.1, ?_⟩
      · rw [← ht]
        exact List.mem_append_left _ hmem'
      · rw [hsame.2.2.2.1]
        exact h.flow.incomplete hmem hpending
  · split_ifs at hcall
    · rw [List.mem_singleton.mp hcall, ← ht]
      exact ⟨_, List.mem_append_right _ (List.mem_singleton_self _), rfl, rfl⟩
    · cases hcall

/-- **The stream carries the frames of the written messages**: whatever a step does, what it
passes to MsQuic are the frames of the messages that it adds to the written ones. -/
theorem Sending.step {s t : QuicPeerStream} {asked : List AskedMessage} {e : StreamEvent}
    (h : Sending write asked s) (hstep : Step write s e t) :
    Sending write (asked ++ e.asks) t ∧ PassesOn (asked ++ e.asks) s t ∧
      t.wsFrame = s.wsFrame := by
  cases e with
  | sendBuffer buffer key => exact h.sendBuffer (m := (buffer, key)) hstep
  | getBuffer =>
      have hflow := h.flow.step hstep
      have hframe := h.flow.books.step_wsFrame h.flow.tidy hstep
      obtain ⟨-, hhandle⟩ := hstep
      cases hhandle
      have hsame : s.getBuffer.wsHeaders = s.wsHeaders ∧ s.getBuffer.isOpen = s.isOpen := by
        unfold getBuffer
        split_ifs <;> exact ⟨rfl, rfl⟩
      obtain ⟨hqueue, -, hwritten, -, hcalls⟩ := s.getBuffer_queue
      obtain ⟨hheaders, hopen⟩ := hsame
      simp only [StreamEvent.asks, List.append_nil]
      refine ⟨⟨hflow, ?_, ?_⟩, passesOn_of_written hwritten, hframe⟩
      · exact ⟨hqueue ▸ h.ordered.idle, hqueue ▸ hwritten ▸ h.ordered.late,
          hwritten ▸ h.ordered.sorted, hwritten ▸ hcalls ▸ h.ordered.called⟩
      · exact ⟨hopen.trans h.framed.isOpen, hcalls.trans h.framed.calls,
          hqueue ▸ hframe ▸ h.framed.events, hheaders ▸ h.framed.headers⟩
  | writeComplete event cancelled =>
      have hflow := h.flow.step hstep
      obtain ⟨-, hhandle⟩ := hstep
      cases hhandle
      simp only [StreamEvent.asks, List.append_nil]
      have hsplit : update s.sendQueue event.call (fun e => { e with notified := true }) =
          [] ++ (s.writeComplete event).sendQueue := rfl
      refine ⟨⟨hflow, ?_, ?_⟩, passesOn_of_written rfl, rfl⟩
      · exact h.ordered.settle hsplit (fun _ => rfl) (fun _ => rfl) rfl rfl
      · exact h.framed.settle (List.Subset.refl _) (fun e he => ⟨he.header, he.buffer⟩)
          (List.Subset.refl _) rfl rfl rfl
  | completeLocked event =>
      have hflow := h.flow.step hstep
      obtain ⟨⟨hmem, -⟩, hhandle⟩ := hstep
      have hheaders := completeLocked_headers hhandle
      obtain ⟨done, rest, headers, hsplit, -, -, -, heq⟩ :=
        completeLocked_eq h.flow.books h.flow.tidy hmem
      rw [handle, heq] at hhandle
      cases hhandle
      simp only [StreamEvent.asks, List.append_nil]
      refine ⟨⟨hflow, ?_, ?_⟩, passesOn_of_written rfl, trivial⟩
      · exact h.ordered.settle hsplit (fun _ => rfl) (fun _ => rfl) rfl rfl
      · have hqueue : rest ⊆ update s.sendQueue event.call
            fun e => { e with complete := true, buffer := [] } := by
          rw [hsplit]
          exact List.subset_append_right _ _
        exact h.framed.settle hqueue (fun e he => ⟨he.header, Bool.noConfusion⟩) hheaders
          rfl rfl rfl

/-! ## §5  The messages that were written -/

section

variable {α : Type} {asked : List α} {calls : List Nat}

theorem messagesOf_append (more : List α) (h : ∀ call ∈ calls, call < asked.length) :
    messagesOf (asked ++ more) calls = messagesOf asked calls := by
  refine List.filterMap_congr fun call hcall => ?_
  exact List.getElem?_append_left (h call hcall)

theorem messagesOf_map {β : Type} (f : α → β) :
    messagesOf (asked.map f) calls = (messagesOf asked calls).map f := by
  simp [messagesOf, List.map_filterMap]

theorem messagesOf_range (asked : List α) :
    messagesOf asked (List.range asked.length) = asked := by
  induction asked using List.reverseRecOn with
  | nil => rfl
  | append_singleton asked m ih =>
      have hlast : messagesOf (asked ++ [m]) [asked.length] = [m] :=
        messagesOf_cons List.getElem?_concat_length []
      rw [List.length_append, List.length_singleton, List.range_succ, messagesOf,
        List.filterMap_append]
      change messagesOf _ _ ++ messagesOf _ _ = _
      rw [messagesOf_append [m] (fun call hcall => List.mem_range.mp hcall), ih, hlast]

theorem messagesOf_sublist (hsorted : calls.Pairwise (· < ·))
    (h : ∀ call ∈ calls, call < asked.length) : (messagesOf asked calls).Sublist asked := by
  have hsubset : calls ⊆ List.range asked.length := by
    intro call hcall
    exact List.mem_range.mpr (h call hcall)
  have hnodup : calls.Nodup := hsorted.imp fun hlt => hlt.ne
  have hsub : calls.Sublist (List.range asked.length) :=
    List.sublist_of_subperm_of_pairwise (List.subperm_of_subset hnodup hsubset) hsorted
      List.pairwise_lt_range
  have hmessages := hsub.filterMap fun call => asked[call]?
  rwa [← messagesOf, ← messagesOf, messagesOf_range] at hmessages

theorem messagesOf_first (h : calls <+: List.range asked.length) :
    messagesOf asked calls <+: asked := by
  have hmessages := h.filterMap fun call => asked[call]?
  rwa [← messagesOf, ← messagesOf, messagesOf_range] at hmessages

end

/-- The messages that were written come in the order of the calls, each once. -/
theorem Sending.messages_sublist {s : QuicPeerStream} {asked : List AskedMessage}
    (h : Sending write asked s) {α : Type} {sent : List α} (hlength : sent.length = asked.length) :
    (messagesOf sent s.written).Sublist sent := by
  refine messagesOf_sublist h.ordered.sorted fun call hcall => ?_
  rw [hlength, ← h.framed.calls]
  exact h.ordered.called call hcall

/-- As long as no two Writes in a row fail, they are the first ones, and all of them when
none waits. -/
theorem Sending.messages_first {s : QuicPeerStream} {asked : List AskedMessage}
    (h : Sending write asked s) (hretried : Retried write s.writes) {α : Type} {sent : List α}
    (hlength : sent.length = asked.length) :
    messagesOf sent s.written <+: sent ∧
      ((∀ event ∈ s.sendQueue, event.pending = false) → messagesOf sent s.written = sent) := by
  have hlossless := (h.flow.standing.lossless_iff h.flow.numbered).mpr hretried
  have haccepted : s.accepted = List.range sent.length := by
    rw [h.flow.numbered.accepted, h.framed.calls, hlength]
  have hfirst := hlossless.inOrder
  rw [haccepted] at hfirst
  refine ⟨messagesOf_first hfirst, fun hidle => ?_⟩
  have hall : s.written = List.range sent.length := by
    refine hfirst.sublist.eq_of_length_le ?_
    have hsubset : List.range sent.length ⊆ s.written := by
      intro call hcall
      by_contra hnot
      obtain ⟨event, hmem, -, hpending⟩ := hlossless.queued call (haccepted ▸ hcall) hnot
      rw [hidle event hmem] at hpending
      cases hpending
    exact (List.subperm_of_subset List.nodup_range hsubset).length_le
  rw [hall, messagesOf_range]

end QuicPeerStream

end BeyondProtocol.Quic
