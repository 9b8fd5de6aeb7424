import BeyondProtocol.Quic.SendQueue

/-!
# The order of Writes on a QUIC stream (`quic/src/quic_peer.cpp`)

A message whose Write fails stays in the queue, marked as pending, and the next
`send_buffer_` tries it again before it writes its own. The loop that does so takes the
mark off after a second failure, and nobody tries the message again: so everything
accepted is written, in order, exactly as long as no two Writes in a row fail.
-/

namespace BeyondProtocol.Quic

open Framework

namespace QuicPeerStream

variable {write : Nat → Bool}

/-- What was written is a first part of what was accepted, and the rest waits to be tried
again. -/
structure Lossless (s : QuicPeerStream) : Prop where
  inOrder : s.written <+: s.accepted
  once : s.accepted.Nodup
  queued : ∀ call ∈ s.accepted, call ∉ s.written →
    ∃ event ∈ s.sendQueue, event.call = call ∧ event.pending = true

/-- Among the first `n` Writes none fails right after another. -/
def Retried (write : Nat → Bool) (n : Nat) : Prop :=
  ∀ k, k + 1 < n → write k = true ∨ write (k + 1) = true

theorem Retried.succ {n : Nat} (h : Retried write n)
    (hn : 0 < n → write (n - 1) = true ∨ write n = true) :
    Retried write (n + 1) := by
  intro k hk
  by_cases hlast : k + 1 = n
  · have := hn (by omega)
    rwa [← hlast, Nat.add_sub_cancel] at this
  · exact h k (by omega)

theorem Retried.mono {m n : Nat} (h : Retried write n) (hmn : m ≤ n) : Retried write m :=
  fun k hk => h k (by omega)

/-! ## §1  What a flush does -/

theorem flushFrom_idle (s : QuicPeerStream) {queue : List SendEvent}
    (h : ∀ event ∈ queue, event.pending = false) : s.flushFrom write queue = (s, queue) := by
  cases queue with
  | nil => rfl
  | cons event older => simp [flushFrom, h event List.mem_cons_self]

theorem flushSendQueue_idle {s : QuicPeerStream}
    (h : ∀ event ∈ s.sendQueue, event.pending = false) : s.flushSendQueue write = s := by
  have hrev : ∀ event ∈ s.sendQueue.reverse, event.pending = false := by
    intro event he
    exact h event (List.mem_reverse.mp he)
  simp only [flushSendQueue, flushFrom_idle s hrev, List.reverse_reverse]

/-- One message waits, the last one: it is tried once, and not marked any more. -/
theorem flushSendQueue_retry (write : Nat → Bool) {s : QuicPeerStream}
    {older : List SendEvent} {event : SendEvent}
    (hq : s.sendQueue = older ++ [event]) (hpending : event.pending = true)
    (holder : ∀ e ∈ older, e.pending = false) :
    s.flushSendQueue write = { s with
      writes := s.writes + 1
      written := if write s.writes then s.written ++ [event.call] else s.written
      sendQueue := older ++
        [{ event with pending := false, submitted := write s.writes }] } := by
  have hrev : ∀ e ∈ older.reverse, e.pending = false := by
    intro e he
    exact holder e (List.mem_reverse.mp he)
  unfold flushSendQueue
  rw [hq, List.reverse_append, List.reverse_singleton, List.singleton_append]
  simp only [flushFrom, hpending, if_true]
  cases hw : write s.writes with
  | false => simp [send, hw, flushFrom_idle _ hrev]
  | true => simp [send, hw]

/-- A message that is not marked is not written, and no mark is set. -/
theorem flushFrom_lost (write : Nat → Bool) {call : Nat} (s : QuicPeerStream)
    {queue : List SendEvent}
    (hwritten : call ∉ s.written)
    (hqueue : ∀ event ∈ queue, event.call = call → event.pending = false) :
    call ∉ (s.flushFrom write queue).1.written ∧ s.writes ≤ (s.flushFrom write queue).1.writes ∧
      ∀ event ∈ (s.flushFrom write queue).2, event.call = call → event.pending = false := by
  induction queue generalizing s with
  | nil => exact ⟨hwritten, le_rfl, hqueue⟩
  | cons event older ih =>
      have hother := fun e he => hqueue e (List.mem_cons_of_mem _ he)
      unfold flushFrom
      split_ifs with hpending
      · have hne : event.call ≠ call := by
          intro heq
          simp [hqueue event List.mem_cons_self heq] at hpending
        have hsent : call ∉ (s.send write event).1.written := by
          simp only [send]
          split_ifs
          · simp [hwritten, hne.symm]
          · exact hwritten
        simp only
        split_ifs
        · refine ⟨hsent, Nat.le_succ _, ?_⟩
          intro e he hcall
          rcases List.mem_cons.mp he with rfl | he
          · exact absurd hcall hne
          · exact hother e he hcall
        · obtain ⟨h₁, h₂, h₃⟩ := ih (s.send write event).1 hsent hother
          refine ⟨h₁, (Nat.le_succ _).trans h₂, ?_⟩
          intro e he hcall
          rcases List.mem_cons.mp he with rfl | he
          · rfl
          · exact h₃ e he hcall
      · exact ⟨hwritten, le_rfl, hqueue⟩

theorem flushSendQueue_lost (write : Nat → Bool) {call : Nat} {s : QuicPeerStream}
    (hwritten : call ∉ s.written)
    (hqueue : ∀ event ∈ s.sendQueue, event.call = call → event.pending = false) :
    call ∉ (s.flushSendQueue write).written ∧ s.writes ≤ (s.flushSendQueue write).writes ∧
      ∀ event ∈ (s.flushSendQueue write).sendQueue, event.call = call → event.pending = false := by
  obtain ⟨h₁, h₂, h₃⟩ := flushFrom_lost write s hwritten
    (fun event he => hqueue event (List.mem_reverse.mp he))
  refine ⟨h₁, h₂, ?_⟩
  intro event he
  exact h₃ event (List.mem_reverse.mp he)

/-! ## §2  Where the queue can stand -/

/-- A Write that was accepted is not tried again, and only such a Write completes. -/
def Consistent (event : SendEvent) : Prop :=
  (event.submitted = true → event.pending = false) ∧
    (event.notified = true → event.submitted = true)

/-- The calls accepted are numbered. -/
structure Numbered (s : QuicPeerStream) : Prop where
  accepted : s.accepted = List.range s.calls
  events : ∀ event ∈ s.sendQueue, Consistent event

theorem Numbered.nodup {s : QuicPeerStream} (h : s.Numbered) : s.accepted.Nodup := by
  rw [h.accepted]
  exact List.nodup_range

theorem Numbered.ne_calls {s : QuicPeerStream} (h : s.Numbered) {call : Nat}
    (hmem : call ∈ s.accepted) : s.calls ≠ call := by
  rw [h.accepted, List.mem_range] at hmem
  exact Nat.ne_of_gt hmem

inductive Standing (write : Nat → Bool) (s : QuicPeerStream) : Prop
  /-- Everything has been written. -/
  | clean (written : s.written = s.accepted)
      (idle : ∀ event ∈ s.sendQueue, event.pending = false)
      (retried : Retried write s.writes) (last : 0 < s.writes → write (s.writes - 1) = true)
  /-- The last message is to be tried again. -/
  | retry (older : List SendEvent) (event : SendEvent) (queue : s.sendQueue = older ++ [event])
      (accepted : s.accepted = s.written ++ [event.call])
      (pending : event.pending = true) (unsubmitted : event.submitted = false)
      (incomplete : event.complete = false)
      (idle : ∀ e ∈ older, e.pending = false)
      (retried : Retried write s.writes)
      (last : 0 < s.writes ∧ write (s.writes - 1) = false)
  /-- A message was given up. -/
  | lost (call : Nat) (accepted : call ∈ s.accepted) (unwritten : call ∉ s.written)
      (idle : ∀ event ∈ s.sendQueue, event.call = call → event.pending = false)
      (twice : ¬ Retried write s.writes)

theorem Standing.lossless_iff {s : QuicPeerStream} (h : Standing write s) (hnum : s.Numbered) :
    s.Lossless ↔ Retried write s.writes := by
  have hnodup := hnum.nodup
  cases h with
  | clean written idle retried last =>
      refine ⟨fun _ => retried, fun _ => ⟨?_, hnodup, ?_⟩⟩
      · rw [written]
      · intro call hcall hnot
        rw [written] at hnot
        exact absurd hcall hnot
  | retry older event queue accepted pending unsubmitted incomplete idle retried last =>
      refine ⟨fun _ => retried, fun _ => ⟨?_, hnodup, ?_⟩⟩
      · exact ⟨[event.call], accepted.symm⟩
      · intro call hcall hnot
        rw [accepted] at hcall
        rcases List.mem_append.mp hcall with hcall | hcall
        · exact absurd hcall hnot
        · exact ⟨event, by simp [queue], (List.mem_singleton.mp hcall).symm, pending⟩
  | lost call accepted unwritten idle twice =>
      refine ⟨fun hlossless => ?_, fun hretried => absurd hretried twice⟩
      obtain ⟨event, hmem, hcall, hpending⟩ := hlossless.queued call accepted unwritten
      rw [idle event hmem hcall] at hpending
      cases hpending

/-! ## §3  Sending -/

theorem flushFrom_consistent (s : QuicPeerStream) {queue : List SendEvent}
    (h : ∀ event ∈ queue, Consistent event) :
    ∀ event ∈ (s.flushFrom write queue).2, Consistent event := by
  induction queue generalizing s with
  | nil => exact h
  | cons event older ih =>
      have hother := fun e he => h e (List.mem_cons_of_mem _ he)
      obtain ⟨hsubmitted, hnotified⟩ := h event List.mem_cons_self
      unfold flushFrom
      split_ifs with hpending
      · -- what is still pending has not been signalled
        have hnew : event.notified = false := by
          cases hn : event.notified with
          | false => rfl
          | true => simp [hsubmitted (hnotified hn)] at hpending
        simp only
        split_ifs with hdone
        · intro e he
          rcases List.mem_cons.mp he with rfl | he
          · exact ⟨fun _ => by simpa using hdone, fun hn => by simp [send, hnew] at hn⟩
          · exact hother e he
        · intro e he
          rcases List.mem_cons.mp he with rfl | he
          · exact ⟨fun _ => rfl, fun hn => by simp [send, hnew] at hn⟩
          · exact ih _ hother e he
      · exact h

theorem Numbered.sendBuffer {s t : QuicPeerStream} (h : s.Numbered) {buffer : List UInt8}
    {key : WsMaskKey} (hstep : s.sendBuffer write buffer key = .ok t) : t.Numbered := by
  cases hopen : s.isOpen with
  | false =>
      rw [QuicPeerStream.sendBuffer, hopen] at hstep
      cases hstep
      exact ⟨h.accepted, h.events⟩
  | true =>
      obtain ⟨queue, writes, written, hflush, -⟩ :=
        flushSendQueue_ledger write (s.takeOn buffer.length)
      obtain ⟨headers, event, heq, hcall, -, -, hnotified, -⟩ :=
        sendBuffer_flush write hopen buffer key hflush
      have hevents : ∀ e ∈ queue, Consistent e := by
        have hqueue : queue = ((s.takeOn buffer.length).flushSendQueue write).sendQueue := by
          rw [hflush]
        intro e he
        rw [hqueue] at he
        exact flushFrom_consistent (s.takeOn buffer.length)
          (fun e he => h.events e (List.mem_reverse.mp he)) e (List.mem_reverse.mp he)
      rw [heq] at hstep
      cases hstep
      refine ⟨?_, ?_⟩
      · simp only [sendNew, takeOn, h.accepted]
        rw [List.range_succ]
      · intro e he
        rcases List.mem_append.mp he with he | he
        · exact hevents e he
        · rw [List.mem_singleton.mp he]
          exact ⟨fun hsub => by simpa using hsub, fun hn => by simp [hnotified] at hn⟩

/-- Where the queue can stand between the flush and the Write of the new message. -/
inductive Flushed (write : Nat → Bool) (t : QuicPeerStream) (new : Nat) : Prop
  /-- Only the new message is left. -/
  | ready (accepted : t.accepted = t.written ++ [new])
      (idle : ∀ e ∈ t.sendQueue, e.pending = false) (retried : Retried write t.writes)
      (last : 0 < t.writes → write (t.writes - 1) = true)
  /-- An older message was given up, by this flush or before. -/
  | lost (call : Nat) (accepted : call ∈ t.accepted) (unwritten : call ∉ t.written)
      (idle : ∀ e ∈ t.sendQueue, e.call = call → e.pending = false)
      (twice : ¬ Retried write t.writes) (ne : new ≠ call)

/-- The new message is written, or has to wait; what was given up stays so. -/
theorem Flushed.sendNew {t : QuicPeerStream} {headers : List WsHeaderBuffer} {event : SendEvent}
    (h : Flushed write t event.call) (hcomplete : event.complete = false) :
    Standing write (t.sendNew write headers event) := by
  cases h with
  | ready accepted idle retried last =>
      have hsucc : Retried write (t.writes + 1) := retried.succ fun hpos => .inl (last hpos)
      cases hw : write t.writes with
      | true =>
          refine .clean ?_ ?_ hsucc ?_
          · simp [QuicPeerStream.sendNew, hw, accepted]
          · intro e he
            rcases List.mem_append.mp he with he | he
            · exact idle e he
            · rw [List.mem_singleton.mp he, hw]
              rfl
          · intro _
            exact hw
      | false =>
          refine .retry t.sendQueue _ rfl ?_ ?_ ?_ hcomplete idle hsucc ⟨Nat.succ_pos _, hw⟩
          · simp [QuicPeerStream.sendNew, hw, accepted]
          · simp [hw]
          · exact hw
  | lost call accepted unwritten idle twice ne =>
      refine .lost call accepted ?_ ?_ ?_
      · simp only [QuicPeerStream.sendNew]
        split_ifs
        · simp [unwritten, ne.symm]
        · exact unwritten
      · intro e he hcall
        rcases List.mem_append.mp he with he | he
        · exact idle e he hcall
        · rw [List.mem_singleton.mp he] at hcall
          exact absurd hcall ne
      · intro hretried
        exact twice (hretried.mono (Nat.le_succ _))

/-- The one message that waits is tried again: a second failure gives it up. -/
theorem flushed_retry {s : QuicPeerStream} (hnum : s.Numbered) {older : List SendEvent}
    {event : SendEvent} (hqueue : s.sendQueue = older ++ [event])
    (haccepted : s.accepted = s.written ++ [event.call]) (hpending : event.pending = true)
    (hidle : ∀ e ∈ older, e.pending = false) (hretried : Retried write s.writes)
    (hlast : 0 < s.writes ∧ write (s.writes - 1) = false) (size : Nat) :
    Flushed write ((s.takeOn size).flushSendQueue write) s.calls := by
  rw [flushSendQueue_retry write (s := s.takeOn size) hqueue hpending hidle]
  have hidle' : ∀ e ∈ older ++ [{ event with pending := false, submitted := write s.writes }],
      e.pending = false := by
    intro e he
    rcases List.mem_append.mp he with he | he
    · exact hidle e he
    · rw [List.mem_singleton.mp he]
  cases hw : write s.writes with
  | true =>
      refine .ready ?_ (hw ▸ hidle') (hretried.succ fun _ => .inr hw) ?_
      · simp [takeOn, hw, haccepted]
      · intro _
        exact hw
  | false =>
      have hmem : event.call ∈ s.accepted := by simp [haccepted]
      refine .lost event.call (List.mem_append_left _ hmem) ?_ ?_ ?_ (hnum.ne_calls hmem)
      · have hnodup := hnum.nodup
        rw [haccepted, List.nodup_append] at hnodup
        simp only [takeOn, hw]
        intro hwritten
        exact hnodup.2.2 _ hwritten _ (by simp) rfl
      · intro e he hcall
        exact hidle' e (hw ▸ he)
      · -- the Write before the flush and the one of the flush
        intro hboth
        have := hboth (s.writes - 1) (by simp only [takeOn]; omega)
        rw [Nat.sub_add_cancel hlast.1, hlast.2, hw] at this
        simp at this

theorem Standing.flushed {s : QuicPeerStream} (h : Standing write s) (hnum : s.Numbered)
    (size : Nat) : Flushed write ((s.takeOn size).flushSendQueue write) s.calls := by
  cases h with
  | clean written idle retried last =>
      rw [flushSendQueue_idle (s := s.takeOn size) idle]
      refine .ready ?_ idle retried last
      simp [takeOn, written]
  | retry older event queue accepted pending unsubmitted incomplete idle retried last =>
      exact flushed_retry hnum queue accepted pending idle retried last size
  | lost call accepted unwritten idle twice =>
      obtain ⟨hwritten, hwrites, hqueue⟩ :=
        flushSendQueue_lost write (s := s.takeOn size) unwritten idle
      obtain ⟨queue, writes, written, hflush, -⟩ := flushSendQueue_ledger write (s.takeOn size)
      refine .lost call ?_ hwritten hqueue ?_ (hnum.ne_calls accepted)
      · rw [hflush]
        exact List.mem_append_left _ accepted
      · intro hretried
        exact twice (hretried.mono hwrites)

theorem Standing.congr {s t : QuicPeerStream} (h : Standing write s)
    (hqueue : t.sendQueue = s.sendQueue) (haccepted : t.accepted = s.accepted)
    (hwritten : t.written = s.written) (hwrites : t.writes = s.writes) : Standing write t := by
  cases h with
  | clean written idle retried last =>
      exact .clean (by rw [hwritten, haccepted, written]) (hqueue ▸ idle) (hwrites ▸ retried)
        (hwrites ▸ last)
  | retry older event queue accepted pending unsubmitted incomplete idle retried last =>
      exact .retry older event (hqueue ▸ queue) (by rw [hwritten, haccepted, accepted]) pending
        unsubmitted incomplete idle (hwrites ▸ retried) (hwrites ▸ last)
  | lost call accepted unwritten idle twice =>
      exact .lost call (haccepted ▸ accepted) (hwritten ▸ unwritten) (hqueue ▸ idle)
        (hwrites ▸ twice)

theorem Standing.sendBuffer {s t : QuicPeerStream} (h : Standing write s) (hnum : s.Numbered)
    {buffer : List UInt8} {key : WsMaskKey} (hstep : s.sendBuffer write buffer key = .ok t) :
    Standing write t := by
  cases hopen : s.isOpen with
  | false =>
      rw [QuicPeerStream.sendBuffer, hopen] at hstep
      cases hstep
      exact h.congr rfl rfl rfl rfl
  | true =>
      obtain ⟨headers, event, heq, hcall, -, hcomplete, -⟩ :=
        sendBuffer_flush write hopen buffer key rfl
      obtain ⟨queue, writes, written, hflush, -⟩ :=
        flushSendQueue_ledger write (s.takeOn buffer.length)
      have hnew : event.call = s.calls := by
        rw [hcall, hflush]
        rfl
      rw [heq] at hstep
      cases hstep
      apply Flushed.sendNew _ hcomplete
      rw [hnew]
      exact h.flushed hnum buffer.length

/-! ## §4  Completions -/

/-- The last element stays when a front part without it is taken off. -/
theorem exists_concat_of_append {α : Type} {xs done rest : List α} {x : α}
    (h : xs ++ [x] = done ++ rest) (hx : x ∉ done) :
    ∃ ys, rest = ys ++ [x] ∧ ∀ y ∈ ys, y ∈ xs := by
  rcases List.append_eq_append_iff.mp h with ⟨a, ha, hrest⟩ | ⟨a, ha, hrest⟩
  · cases a with
    | nil => exact ⟨[], by simpa using hrest.symm, by simp⟩
    | cons y a =>
        simp only [List.cons_append, List.cons.injEq] at hrest
        exact absurd (by simp [ha, hrest.1]) hx
  · refine ⟨a, hrest, ?_⟩
    intro y hy
    simp [ha, hy]

/-- A completion changes and takes away events that were written. -/
theorem Standing.settle {s t : QuicPeerStream} (h : Standing write s) (htidy : s.Tidy)
    {target : SendEvent} (hmem : target ∈ s.sendQueue) (hsubmitted : target.submitted = true)
    {f : SendEvent → SendEvent} {done : List SendEvent}
    (hsplit : update s.sendQueue target.call f = done ++ t.sendQueue)
    (hdone : ∀ e ∈ done, e.complete = true) (hcall : ∀ e, (f e).call = e.call)
    (hpending : ∀ e, (f e).pending = e.pending) (haccepted : t.accepted = s.accepted)
    (hwritten : t.written = s.written) (hwrites : t.writes = s.writes) : Standing write t := by
  -- an event that is left was there before
  have hfrom : ∀ e ∈ t.sendQueue, ∃ e₀ ∈ s.sendQueue, e₀.call = e.call ∧
      e₀.pending = e.pending := by
    intro e he
    have he' : e ∈ update s.sendQueue target.call f := by
      rw [hsplit]
      exact List.mem_append_right _ he
    obtain ⟨e₀, he₀, rfl⟩ := List.mem_map.mp he'
    refine ⟨e₀, he₀, ?_⟩
    split_ifs
    · exact ⟨(hcall e₀).symm, (hpending e₀).symm⟩
    · exact ⟨rfl, rfl⟩
  cases h with
  | clean written idle retried last =>
      refine .clean (by rw [hwritten, haccepted, written]) ?_ (hwrites ▸ retried) (hwrites ▸ last)
      intro e he
      obtain ⟨e₀, he₀, -, hsame⟩ := hfrom e he
      rw [← hsame]
      exact idle e₀ he₀
  | lost call accepted unwritten idle twice =>
      refine .lost call (haccepted ▸ accepted) (hwritten ▸ unwritten) ?_ (hwrites ▸ twice)
      intro e he hc
      obtain ⟨e₀, he₀, hsamecall, hsame⟩ := hfrom e he
      rw [← hsame]
      exact idle e₀ he₀ (hsamecall.trans hc)
  | retry older event queue accepted pending unsubmitted incomplete idle retried last =>
      -- the last event was not written, so it is not the one that completes
      have hne : event.call ≠ target.call := by
        rw [queue] at hmem
        rcases List.mem_append.mp hmem with hm | hm
        · have hsorted := htidy.sorted
          rw [queue, List.map_append, List.pairwise_append] at hsorted
          exact (hsorted.2.2 _ (List.mem_map_of_mem hm) _ (by simp)).ne'
        · rw [List.mem_singleton.mp hm, unsubmitted] at hsubmitted
          cases hsubmitted
      have hlast : update s.sendQueue target.call f = update older target.call f ++ [event] := by
        rw [queue]
        simp [update, hne]
      have hkept : event ∉ done := by
        intro hmem
        have := hdone event hmem
        rw [incomplete] at this
        cases this
      obtain ⟨older', hqueue, hsub⟩ := exists_concat_of_append (hlast.symm.trans hsplit) hkept
      refine .retry older' event hqueue (by rw [hwritten, haccepted, accepted]) pending
        unsubmitted incomplete ?_ (hwrites ▸ retried) (hwrites ▸ last)
      intro e he
      obtain ⟨e₀, he₀, rfl⟩ := List.mem_map.mp (hsub e he)
      split_ifs
      · rw [hpending]
        exact idle e₀ he₀
      · exact idle e₀ he₀

theorem consistent_update {queue : List SendEvent} (call : Nat) (f : SendEvent → SendEvent)
    (h : ∀ event ∈ queue, Consistent event)
    (hf : ∀ event ∈ queue, event.call = call → Consistent (f event)) :
    ∀ event ∈ update queue call f, Consistent event := by
  intro event he
  obtain ⟨e, hmem, rfl⟩ := List.mem_map.mp he
  split_ifs with hc
  · exact hf e hmem hc
  · exact h e hmem

/-- Events with one call are one event. -/
theorem Tidy.eq_of_call {s : QuicPeerStream} (h : s.Tidy) {e e' : SendEvent}
    (he : e ∈ s.sendQueue) (he' : e' ∈ s.sendQueue) (hcall : e.call = e'.call) : e = e' := by
  have hnodup : (s.sendQueue.map SendEvent.call).Nodup := h.sorted.imp fun hlt => hlt.ne
  exact List.inj_on_of_nodup_map hnodup he he' hcall

/-! ## §5  Over whole runs -/

/-- Everything the argument carries along. -/
structure Flow (write : Nat → Bool) (s : QuicPeerStream) : Prop where
  books : s.Bookkeeping
  tidy : s.Tidy
  numbered : s.Numbered
  standing : Standing write s

theorem flow_start (wsFrame isOpen : Bool) :
    Flow write { wsFrame := wsFrame, isOpen := isOpen } where
  books := bookkeeping_start wsFrame isOpen
  tidy := tidy_start wsFrame isOpen
  numbered := ⟨rfl, by simp⟩
  standing := .clean rfl (by simp) (fun k hk => absurd hk (Nat.not_lt_zero _)) (by simp)

theorem getBuffer_queue (s : QuicPeerStream) : s.getBuffer.sendQueue = s.sendQueue ∧
    s.getBuffer.accepted = s.accepted ∧ s.getBuffer.written = s.written ∧
    s.getBuffer.writes = s.writes ∧ s.getBuffer.calls = s.calls := by
  unfold getBuffer
  split_ifs <;> exact ⟨rfl, rfl, rfl, rfl, rfl⟩

theorem Flow.step_numbered {s t : QuicPeerStream} {e : StreamEvent} (h : Flow write s)
    (hstep : Step write s e t) : t.Numbered := by
  obtain ⟨henabled, hhandle⟩ := hstep
  cases e with
  | getBuffer =>
      cases hhandle
      obtain ⟨hqueue, haccepted, -, -, hcalls⟩ := s.getBuffer_queue
      exact ⟨by rw [haccepted, hcalls, h.numbered.accepted], hqueue ▸ h.numbered.events⟩
  | sendBuffer buffer key => exact h.numbered.sendBuffer hhandle
  | writeComplete event cancelled =>
      cases hhandle
      obtain ⟨hmem, hsubmitted, -⟩ := henabled
      refine ⟨h.numbered.accepted, consistent_update _ _ h.numbered.events ?_⟩
      intro e he hcall
      rw [h.tidy.eq_of_call he hmem hcall]
      exact ⟨(h.numbered.events event hmem).1, fun _ => hsubmitted⟩
  | completeLocked event =>
      obtain ⟨done, rest, headers, hsplit, -, -, -, heq⟩ :=
        completeLocked_eq h.books h.tidy henabled.1
      rw [handle, heq] at hhandle
      cases hhandle
      refine ⟨h.numbered.accepted, ?_⟩
      intro e he
      have hall := consistent_update event.call
        (fun e => { e with complete := true, buffer := [] }) h.numbered.events
        (fun e he _ => h.numbered.events e he)
      rw [hsplit] at hall
      exact hall e (List.mem_append_right _ he)

theorem Flow.step_standing {s t : QuicPeerStream} {e : StreamEvent} (h : Flow write s)
    (hstep : Step write s e t) : Standing write t := by
  obtain ⟨henabled, hhandle⟩ := hstep
  cases e with
  | getBuffer =>
      cases hhandle
      obtain ⟨hqueue, haccepted, hwritten, hwrites, -⟩ := s.getBuffer_queue
      exact h.standing.congr hqueue haccepted hwritten hwrites
  | sendBuffer buffer key => exact h.standing.sendBuffer h.numbered hhandle
  | writeComplete event cancelled =>
      cases hhandle
      obtain ⟨hmem, hsubmitted, -⟩ := henabled
      have hsplit : update s.sendQueue event.call (fun e => { e with notified := true }) =
          [] ++ (s.writeComplete event).sendQueue := rfl
      exact h.standing.settle h.tidy hmem hsubmitted hsplit (by simp) (fun _ => rfl)
        (fun _ => rfl) rfl rfl rfl
  | completeLocked event =>
      obtain ⟨hmem, hnotified, -⟩ := henabled
      obtain ⟨done, rest, headers, hsplit, hdone, -, -, heq⟩ :=
        completeLocked_eq h.books h.tidy hmem
      rw [handle, heq] at hhandle
      cases hhandle
      have hsubmitted := (h.numbered.events event hmem).2 hnotified
      exact h.standing.settle h.tidy hmem hsubmitted hsplit hdone (fun _ => rfl) (fun _ => rfl)
        rfl rfl rfl

theorem flow_of_runs {wsFrame isOpen : Bool} {es : List StreamEvent} {s : QuicPeerStream}
    (run : Runs (Step write) { wsFrame := wsFrame, isOpen := isOpen } es s) : Flow write s := by
  apply run.invariant (I := Flow write)
  · exact flow_start wsFrame isOpen
  · intro s e t h hstep
    obtain ⟨hbooks, htidy⟩ := h.books.step h.tidy hstep
    exact ⟨hbooks, htidy, h.step_numbered hstep, h.step_standing hstep⟩

/-- **Everything accepted is written in order, or waits to be, exactly as long as no Write
fails right after another.** -/
theorem lossless_iff_retried {wsFrame : Bool} {es : List StreamEvent} {s : QuicPeerStream}
    (run : Runs (Step write) { wsFrame := wsFrame, isOpen := true } es s) :
    s.Lossless ↔ Retried write s.writes := by
  have h := flow_of_runs run
  exact h.standing.lossless_iff h.numbered

/-- The second Write fails, and is made good by the third. -/
def flaky : Nat → Bool := fun n => n ≠ 1

theorem retried_flaky (n : Nat) : Retried flaky n := by
  intro k _
  simp only [flaky, ne_eq, decide_not, Bool.not_eq_true', decide_eq_false_iff_not]
  omega

theorem lossless_iff_retried_flaky : ∃ s,
    Runs (Step flaky) { wsFrame := true, isOpen := true }
      [.getBuffer, .sendBuffer [1] .zero, .getBuffer, .sendBuffer [2] .zero] s ∧
      s.accepted = [0, 1] ∧ s.written = [0] ∧ s.Lossless := by
  have run := Runs.of_foldlM (f := exec flaky) (fun _ _ _ _ => step_of_exec)
    (show [.getBuffer, .sendBuffer [1] .zero, .getBuffer, .sendBuffer [2] .zero].foldlM
      (exec flaky) { wsFrame := true, isOpen := true } = .ok _ from rfl)
  exact ⟨_, run, rfl, rfl, (lossless_iff_retried run).mpr (retried_flaky _)⟩

/-- The first message fails twice and is dropped: the second one takes its place. -/
theorem second_failure_drops : ∃ s,
    Runs (Step fun n => 2 ≤ n) { wsFrame := true, isOpen := true }
      [.getBuffer, .sendBuffer [1] .zero, .getBuffer, .sendBuffer [2] .zero] s ∧
      s.accepted = [0, 1] ∧ s.written = [1] ∧
      (∀ event ∈ s.sendQueue, event.pending = false) ∧ ¬ s.Lossless := by
  have run := Runs.of_foldlM (f := exec fun n => 2 ≤ n) (fun _ _ _ _ => step_of_exec)
    (show [.getBuffer, .sendBuffer [1] .zero, .getBuffer, .sendBuffer [2] .zero].foldlM
      (exec fun n => 2 ≤ n) { wsFrame := true, isOpen := true } = .ok _ from rfl)
  refine ⟨_, run, rfl, rfl, by decide, ?_⟩
  intro h
  exact absurd h.inOrder (by decide)

end QuicPeerStream

end BeyondProtocol.Quic
