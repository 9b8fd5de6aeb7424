import BeyondProtocol.Framework.Runs

/-!
# The receive pipeline of a QUIC stream (`quic/src/quic_peer.cpp`)

`OnData` decodes what has arrived into `recv_queue_` and hands it to a worker: it
schedules `ProcessRecv` if none is busy, and otherwise wakes the one there is if it
waits. The worker takes the whole queue, handles it outside the lock, and looks
again; with nothing to do it waits a while and then goes away.

A step is what one side does between taking `recv_mtx_` and letting go of it, plus
the two things that are done without the lock: pushing the job or notifying, and
handling one message. MsQuic calls `OnData` of one stream one at a time.
-/

namespace BeyondProtocol.Quic

open Framework

/-- Where an instance of `ProcessRecv` stands when it does not hold the lock. -/
inductive Worker (α : Type) : Type where
  | scheduled
  | waiting (signalled : Bool)
  | processing (objs : List α)
deriving DecidableEq, Repr

/-- What is left of `OnData` after it has let go of the lock. -/
inductive Producer : Type where
  | idle
  | pushing
  | notifying (notify : Bool)
deriving DecidableEq, Repr

structure RecvState (α : Type) where
  recvQueue : List α := []
  recvBusy : Bool := false
  recvWaiting : Bool := false
  producer : Producer := .idle
  workers : List (Worker α) := []
  /-- Everything decoded so far, in the order of the stream. -/
  decoded : List α := []
  /-- What was passed to `process_message_`, in order. -/
  processed : List α := []
deriving DecidableEq, Repr

variable {α : Type}

namespace RecvState

/-- `notify_recv_and_unlock_` up to the end of the lock. -/
def notifyRecvAndUnlock (s : RecvState α) : RecvState α :=
  if !s.recvBusy then { s with recvBusy := true, producer := .pushing }
  else { s with producer := .notifying (s.recvWaiting && !s.recvQueue.isEmpty) }

/-- The locked part of `OnData`, in which the unpacker gives `objs`. -/
def onData (s : RecvState α) (objs : List α) : RecvState α :=
  notifyRecvAndUnlock { s with
    recvQueue := s.recvQueue ++ objs
    decoded := s.decoded ++ objs }

/-- `notify_one`: some worker that waits gets the signal. -/
def signalOne : List (Worker α) → List (Worker α)
  | [] => []
  | .waiting _ :: workers => .waiting true :: workers
  | worker :: workers => worker :: signalOne workers

/-- The rest of `OnData`. -/
def publish (s : RecvState α) : RecvState α :=
  match s.producer with
  | .idle => s
  | .pushing => { s with producer := .idle, workers := s.workers ++ [.scheduled] }
  | .notifying true => { s with producer := .idle, workers := signalOne s.workers }
  | .notifying false => { s with producer := .idle }

/-- The head of the loop of `ProcessRecv`, with the lock held, for the worker between
`before` and `after`. -/
def nextRound (s : RecvState α) (before after : List (Worker α)) : RecvState α :=
  if s.recvQueue.isEmpty then
    { s with recvWaiting := true, workers := before ++ .waiting false :: after }
  else { s with recvQueue := [], workers := before ++ .processing s.recvQueue :: after }

/-- A waiting worker has the lock again. `wait_for` looks at the predicate also when the time
is up, and without data the worker leaves while it holds the lock. -/
def wake (s : RecvState α) (timedOut : Bool) (before after : List (Worker α)) : RecvState α :=
  if s.recvWaiting && !s.recvQueue.isEmpty then
    nextRound { s with recvWaiting := false } before after
  else if timedOut then
    { s with recvWaiting := false, recvBusy := false, workers := before ++ after }
  else { s with workers := before ++ .waiting false :: after }

end RecvState

inductive RecvEvent (α : Type) : Type where
  | onData (objs : List α)
  | publish
  | start
  | process
  | relock
  | wake (timedOut : Bool)
deriving DecidableEq, Repr

inductive RecvStep : RecvState α → RecvEvent α → RecvState α → Prop
  | onData {s : RecvState α} (objs : List α) (hidle : s.producer = .idle) :
      RecvStep s (.onData objs) (s.onData objs)
  | publish {s : RecvState α} (hbusy : s.producer ≠ .idle) : RecvStep s .publish s.publish
  | start {s : RecvState α} {before after : List (Worker α)}
      (hworker : s.workers = before ++ .scheduled :: after) :
      RecvStep s .start (s.nextRound before after)
  | process {s : RecvState α} {before after : List (Worker α)} {obj : α} {objs : List α}
      (hworker : s.workers = before ++ .processing (obj :: objs) :: after) :
      RecvStep s .process { s with
        processed := s.processed ++ [obj]
        workers := before ++ .processing objs :: after }
  | relock {s : RecvState α} {before after : List (Worker α)}
      (hworker : s.workers = before ++ .processing [] :: after) :
      RecvStep s .relock (s.nextRound before after)
  /-- Signalled, out of time, or for no reason at all. -/
  | wake {s : RecvState α} {before after : List (Worker α)} {signalled : Bool} (timedOut : Bool)
      (hworker : s.workers = before ++ .waiting signalled :: after) :
      RecvStep s (.wake timedOut) (s.wake timedOut before after)

/-! ## §1  What the pipeline guarantees -/

/-- The objects a worker has taken and not handled yet. -/
def Worker.inHand : Worker α → List α
  | .processing objs => objs
  | _ => []

namespace RecvState

def inHand (s : RecvState α) : List α := s.workers.flatMap Worker.inHand

/-- Instances that run, are scheduled, or are just being scheduled. -/
def instances (s : RecvState α) : Nat :=
  s.workers.length + if s.producer = .pushing then 1 else 0

structure Sound (s : RecvState α) : Prop where
  /-- Every decoded object is handled once and in order: it has been, a worker has it, or it
  is in the queue. -/
  inOrder : s.processed ++ s.inHand ++ s.recvQueue = s.decoded
  single : s.instances ≤ 1
  /-- No message is left in the queue without a worker. -/
  served : s.recvQueue ≠ [] → s.producer = .idle → s.workers ≠ []
  /-- A worker that waits beside a message has been woken. -/
  signalled : s.recvQueue ≠ [] → s.producer = .idle → .waiting false ∉ s.workers

/-! ## §2  The phases of the hand-off -/

inductive Phase : RecvState α → Prop
  /-- Nobody is there, and nothing to do. -/
  | quiet {s : RecvState α} (workers : s.workers = []) (busy : s.recvBusy = false)
      (waiting : s.recvWaiting = false) (producer : s.producer ≠ .pushing)
      (queue : s.recvQueue = []) (order : s.processed = s.decoded) : Phase s
  /-- `OnData` is about to schedule a worker. -/
  | pushing {s : RecvState α} (workers : s.workers = []) (busy : s.recvBusy = true)
      (waiting : s.recvWaiting = false) (producer : s.producer = .pushing)
      (order : s.processed ++ s.recvQueue = s.decoded) : Phase s
  /-- The worker waits to be started, or has messages in its hand. -/
  | active {s : RecvState α} {worker : Worker α} (workers : s.workers = [worker])
      (awake : ∀ signalled, worker ≠ .waiting signalled) (busy : s.recvBusy = true)
      (waiting : s.recvWaiting = false) (producer : s.producer ≠ .pushing)
      (order : s.processed ++ worker.inHand ++ s.recvQueue = s.decoded) : Phase s
  | asleep {s : RecvState α} {signalled : Bool} (workers : s.workers = [.waiting signalled])
      (busy : s.recvBusy = true) (waiting : s.recvWaiting = true)
      (producer : s.producer ≠ .pushing) (order : s.processed ++ s.recvQueue = s.decoded)
      (signal : s.recvQueue ≠ [] → signalled = true ∨ s.producer = .notifying true) : Phase s

theorem Phase.sound {s : RecvState α} (h : Phase s) : s.Sound := by
  cases h with
  | quiet workers busy waiting producer queue order =>
      refine ⟨?_, ?_, fun hq => absurd queue hq, fun hq => absurd queue hq⟩
      · simp [inHand, workers, queue, order]
      · simp [instances, workers, producer]
  | pushing workers busy waiting producer order =>
      refine ⟨?_, ?_, ?_, ?_⟩
      · simpa [inHand, workers] using order
      · simp [instances, workers, producer]
      · intro _ hidle
        simp [producer] at hidle
      · intro _ hidle
        simp [producer] at hidle
  | active workers awake busy waiting producer order =>
      refine ⟨?_, ?_, ?_, ?_⟩
      · simpa [inHand, workers] using order
      · simp [instances, workers, producer]
      · simp [workers]
      · intro _ _ hmem
        rw [workers, List.mem_singleton] at hmem
        exact awake false hmem.symm
  | asleep workers busy waiting producer order signal =>
      refine ⟨?_, ?_, ?_, ?_⟩
      · simpa [inHand, workers, Worker.inHand] using order
      · simp [instances, workers, producer]
      · simp [workers]
      · intro hq hidle hmem
        rw [workers, List.mem_singleton] at hmem
        cases hmem
        rcases signal hq with h | h
        · cases h
        · simp [hidle] at h

theorem eq_of_singleton {x y : Worker α} {before after : List (Worker α)}
    (h : [x] = before ++ y :: after) : before = [] ∧ x = y ∧ after = [] := by
  cases before with
  | nil =>
      simp only [List.nil_append, List.cons.injEq] at h
      exact ⟨rfl, h.1, h.2.symm⟩
  | cons w before =>
      simp at h

theorem phase_start : Phase ({} : RecvState α) :=
  .quiet rfl rfl rfl (by simp) rfl rfl

/-- With nothing in its hand the worker takes what there is, or waits. -/
theorem phase_nextRound {s : RecvState α} (busy : s.recvBusy = true)
    (waiting : s.recvWaiting = false) (producer : s.producer ≠ .pushing)
    (order : s.processed ++ s.recvQueue = s.decoded) : Phase (s.nextRound [] []) := by
  unfold nextRound
  split_ifs with hempty
  · refine .asleep rfl busy rfl producer order ?_
    intro hq
    exact absurd (List.isEmpty_iff.mp hempty) hq
  · refine .active rfl (by simp) busy waiting producer ?_
    simpa [Worker.inHand] using order

theorem Phase.onData {s : RecvState α} (h : Phase s) (hidle : s.producer = .idle)
    (objs : List α) : Phase (s.onData objs) := by
  unfold RecvState.onData notifyRecvAndUnlock
  cases h with
  | quiet workers busy waiting producer queue order =>
      simp only [busy, Bool.not_false, if_true]
      refine .pushing workers rfl waiting rfl ?_
      simp [queue, order]
  | pushing workers busy waiting producer order =>
      rw [hidle] at producer
      cases producer
  | active workers awake busy waiting producer order =>
      simp only [busy, Bool.not_true, Bool.false_eq_true, if_false]
      refine .active workers awake rfl waiting (by simp) ?_
      simp [← order]
  | asleep workers busy waiting producer order signal =>
      simp only [busy, Bool.not_true, Bool.false_eq_true, if_false]
      refine .asleep workers rfl waiting (by simp) ?_ ?_
      · simp [← order]
      · intro hq
        right
        simp only [waiting, Bool.true_and, Producer.notifying.injEq, Bool.not_eq_true']
        exact List.isEmpty_eq_false_iff.mpr hq

theorem Phase.publish {s : RecvState α} (h : Phase s) (hbusy : s.producer ≠ .idle) :
    Phase s.publish := by
  unfold RecvState.publish
  cases h with
  | quiet workers busy waiting producer queue order =>
      cases hp : s.producer with
      | idle => exact absurd hp hbusy
      | pushing => exact absurd hp producer
      | notifying notify =>
          cases notify with
          | false => exact .quiet workers busy waiting (by simp) queue order
          | true => exact .quiet (by simp [workers, signalOne]) busy waiting (by simp) queue order
  | pushing workers busy waiting producer order =>
      simp only [producer]
      refine .active (by rw [workers]; rfl) (by simp) busy waiting (by simp) ?_
      simpa [Worker.inHand] using order
  | @active worker workers awake busy waiting producer order =>
      cases hp : s.producer with
      | idle => exact absurd hp hbusy
      | pushing => exact absurd hp producer
      | notifying notify =>
          cases notify with
          | false => exact .active workers awake busy waiting (by simp) order
          | true =>
              refine .active ?_ awake busy waiting (by simp) order
              cases worker with
              | waiting signalled => exact absurd rfl (awake signalled)
              | scheduled => simp [workers, signalOne]
              | processing objs => simp [workers, signalOne]
  | asleep workers busy waiting producer order signal =>
      cases hp : s.producer with
      | idle => exact absurd hp hbusy
      | pushing => exact absurd hp producer
      | notifying notify =>
          cases notify with
          | false =>
              refine .asleep workers busy waiting (by simp) order ?_
              intro hq
              left
              simpa [hp] using signal hq
          | true =>
              exact .asleep (by rw [workers]; rfl) busy waiting (by simp) order
                (fun _ => .inl rfl)

theorem Phase.wake {s : RecvState α} (h : Phase s) {before after : List (Worker α)}
    {signalled timedOut : Bool} (hworker : s.workers = before ++ .waiting signalled :: after) :
    Phase (s.wake timedOut before after) := by
  cases h with
  | quiet workers => simp [workers] at hworker
  | pushing workers => simp [workers] at hworker
  | active workers awake =>
      rw [workers] at hworker
      obtain ⟨-, heq, -⟩ := eq_of_singleton hworker
      exact absurd heq (awake signalled)
  | asleep workers busy waiting producer order signal =>
      rw [workers] at hworker
      obtain ⟨rfl, -, rfl⟩ := eq_of_singleton hworker
      unfold RecvState.wake
      simp only [waiting, Bool.true_and, Bool.not_eq_true']
      split_ifs with hdata htime
      · exact phase_nextRound busy rfl producer order
      · -- the time is up, and the queue is still empty under the same lock
        have hempty : s.recvQueue = [] := by simpa using hdata
        refine .quiet rfl rfl rfl producer hempty ?_
        simpa [hempty] using order
      · refine .asleep rfl busy rfl producer order ?_
        intro hq
        exact absurd (by simpa using hdata) hq

/-- A worker that is not waiting is the only one, and nobody has touched the flags. -/
theorem Phase.awake {s : RecvState α} (h : Phase s) {before after : List (Worker α)}
    {worker : Worker α} (hworker : s.workers = before ++ worker :: after)
    (hawake : ∀ signalled, worker ≠ .waiting signalled) :
    before = [] ∧ after = [] ∧ s.recvBusy = true ∧ s.recvWaiting = false ∧
      s.producer ≠ .pushing ∧ s.processed ++ worker.inHand ++ s.recvQueue = s.decoded := by
  cases h with
  | quiet workers => simp [workers] at hworker
  | pushing workers => simp [workers] at hworker
  | active workers awake busy waiting producer order =>
      rw [workers] at hworker
      obtain ⟨rfl, rfl, rfl⟩ := eq_of_singleton hworker
      exact ⟨rfl, rfl, busy, waiting, producer, order⟩
  | @asleep signalled workers =>
      rw [workers] at hworker
      exact absurd (eq_of_singleton hworker).2.1.symm (hawake signalled)

theorem Phase.step {s t : RecvState α} {e : RecvEvent α} (h : Phase s) (hstep : RecvStep s e t) :
    Phase t := by
  cases hstep with
  | onData objs hidle => exact h.onData hidle objs
  | publish hbusy => exact h.publish hbusy
  | wake timedOut hworker => exact h.wake hworker
  | start hworker =>
      obtain ⟨rfl, rfl, busy, waiting, producer, order⟩ := h.awake hworker (by simp)
      exact phase_nextRound busy waiting producer (by simpa [Worker.inHand] using order)
  | process hworker =>
      obtain ⟨rfl, rfl, busy, waiting, producer, order⟩ := h.awake hworker (by simp)
      refine .active rfl (by simp) busy waiting producer ?_
      simpa [Worker.inHand] using order
  | relock hworker =>
      obtain ⟨rfl, rfl, busy, waiting, producer, order⟩ := h.awake hworker (by simp)
      exact phase_nextRound busy waiting producer (by simpa [Worker.inHand] using order)

theorem phase_of_runs {es : List (RecvEvent α)} {s : RecvState α}
    (run : Runs RecvStep {} es s) : Phase s :=
  run.invariant phase_start fun _ _ _ h hstep => h.step hstep

/-! ## §3  Nothing more has to arrive -/

/-- Steps of the worker, and the end of an `OnData` that is under way. -/
def Internal (es : List (RecvEvent α)) : Prop := ∀ objs, .onData objs ∉ es

theorem step_start {s : RecvState α} (workers : s.workers = [.scheduled]) :
    RecvStep s .start (s.nextRound [] []) :=
  .start (show s.workers = [] ++ .scheduled :: [] from workers)

theorem step_process {s : RecvState α} {obj : α} {objs : List α}
    (workers : s.workers = [.processing (obj :: objs)]) :
    RecvStep s .process { s with
      processed := s.processed ++ [obj], workers := [.processing objs] } :=
  .process (show s.workers = [] ++ .processing (obj :: objs) :: [] from workers)

theorem processing_drains {s : RecvState α} {objs : List α}
    (hworker : s.workers = [.processing objs]) : ∃ es, Internal es ∧
      Runs RecvStep s es { s with
        processed := s.processed ++ objs, workers := [.processing []] } := by
  induction objs generalizing s with
  | nil =>
      refine ⟨[], by simp [Internal], ?_⟩
      simp only [List.append_nil, ← hworker]
      exact .init
  | cons obj objs ih =>
      obtain ⟨es, hinternal, run⟩ := ih (s := { s with
        processed := s.processed ++ [obj], workers := [.processing objs] }) rfl
      refine ⟨[.process] ++ es, ?_, ?_⟩
      · simpa [Internal] using hinternal
      · simpa using (Runs.init.snoc (step_process hworker)).trans run

/-- Whatever was decoded can be handled without another `OnData`. -/
def Drains (s : RecvState α) : Prop :=
  ∃ es t, Internal es ∧ Runs RecvStep s es t ∧ t.processed = s.decoded

theorem Drains.of_step {s t : RecvState α} {e : RecvEvent α} (h : t.Drains)
    (hstep : RecvStep s e t) (he : ∀ objs, e ≠ .onData objs) (hdecoded : t.decoded = s.decoded) :
    s.Drains := by
  obtain ⟨es, u, hinternal, run, hu⟩ := h
  refine ⟨[e] ++ es, u, ?_, (Runs.init.snoc hstep).trans run, hu.trans hdecoded⟩
  intro objs hmem
  rcases List.mem_append.mp hmem with hmem | hmem
  · exact he objs (List.mem_singleton.mp hmem).symm
  · exact hinternal objs hmem

theorem nextRound_drains {s : RecvState α} (order : s.processed ++ s.recvQueue = s.decoded) :
    (s.nextRound [] []).Drains := by
  unfold nextRound
  split_ifs with hempty
  · rw [List.isEmpty_iff] at hempty
    exact ⟨[], _, by simp [Internal], .init, by simpa [hempty] using order⟩
  · obtain ⟨es, hinternal, run⟩ := processing_drains
      (s := { s with recvQueue := [], workers := [] ++ .processing s.recvQueue :: [] }) rfl
    exact ⟨es, _, hinternal, run, order⟩

theorem scheduled_drains {s : RecvState α} (workers : s.workers = [.scheduled])
    (order : s.processed ++ s.recvQueue = s.decoded) : s.Drains := by
  refine (nextRound_drains order).of_step (step_start workers) (by simp) ?_
  unfold nextRound
  split_ifs <;> rfl

theorem Phase.drains {s : RecvState α} (h : Phase s) : s.Drains := by
  cases h with
  | quiet workers busy waiting producer queue order =>
      exact ⟨[], s, by simp [Internal], .init, order⟩
  | pushing workers busy waiting producer order =>
      have hpublish : s.publish = { s with producer := .idle, workers := [.scheduled] } := by
        simp [RecvState.publish, producer, workers]
      have hstep : RecvStep s .publish s.publish := .publish (by simp [producer])
      rw [hpublish] at hstep
      refine Drains.of_step ?_ hstep (by simp) rfl
      exact scheduled_drains rfl order
  | @active worker workers awake busy waiting producer order =>
      cases worker with
      | waiting signalled => exact absurd rfl (awake signalled)
      | scheduled => exact scheduled_drains workers (by simpa [Worker.inHand] using order)
      | processing objs =>
          obtain ⟨es, hinternal, run⟩ := processing_drains workers
          have hstep : RecvStep { s with
              processed := s.processed ++ objs, workers := [.processing []] } .relock
              (nextRound { s with
                processed := s.processed ++ objs, workers := [.processing []] } [] []) :=
            .relock rfl
          obtain ⟨fs, t, hinternal', run', ht⟩ := nextRound_drains
            (s := { s with processed := s.processed ++ objs, workers := [.processing []] }) order
          refine ⟨es ++ ([.relock] ++ fs), t, ?_, run.trans ((Runs.init.snoc hstep).trans run'), ?_⟩
          · simp only [Internal, List.mem_append] at hinternal hinternal' ⊢
            simp [hinternal, hinternal']
          · rw [ht]
            unfold nextRound
            split_ifs <;> rfl
  | @asleep signalled workers busy waiting producer order signal =>
      cases hq : s.recvQueue with
      | nil => exact ⟨[], s, by simp [Internal], .init, by simpa [hq] using order⟩
      | cons obj objs =>
          have hstep : RecvStep s (.wake false) (s.wake false [] []) :=
            .wake false (show s.workers = [] ++ .waiting signalled :: [] from workers)
          have hwake : s.wake false [] [] = nextRound { s with recvWaiting := false } [] [] := by
            simp [RecvState.wake, waiting, hq]
          rw [hwake] at hstep
          refine Drains.of_step ?_ hstep (by simp) ?_
          · exact nextRound_drains order
          · unfold nextRound
            split_ifs <;> rfl

/-- **The receive pipeline.** In every state reached every decoded object has been handled, is
in a worker's hand or in the queue, once and in order; there is at most one worker, and one as
soon as the queue is not empty; and what is there can be handled to the end. -/
theorem recv_pipeline {es : List (RecvEvent α)} {s : RecvState α}
    (run : Runs RecvStep {} es s) : s.Sound ∧ s.Drains := by
  have h := phase_of_runs run
  exact ⟨h.sound, h.drains⟩

theorem recv_pipeline_pair : ∃ s : RecvState Nat,
    Runs RecvStep {} [.onData [1, 2], .publish, .start, .process, .onData [3]] s ∧
      s.processed = [1] ∧ s.recvQueue = [3] ∧ s.Sound ∧ s.Drains := by
  have hdata : RecvStep ({} : RecvState Nat) (.onData [1, 2])
      { recvQueue := [1, 2], recvBusy := true, producer := .pushing, decoded := [1, 2] } :=
    .onData [1, 2] rfl
  have hpublish : RecvStep
      { recvQueue := [1, 2], recvBusy := true, producer := .pushing, decoded := [1, 2] } .publish
      { recvQueue := [1, 2], recvBusy := true, workers := [.scheduled], decoded := [1, 2] } :=
    .publish (by decide)
  have hstart : RecvStep
      { recvQueue := [1, 2], recvBusy := true, workers := [.scheduled], decoded := [1, 2] } .start
      { recvBusy := true, workers := [.processing [1, 2]], decoded := [1, 2] } :=
    step_start rfl
  have hprocess : RecvStep
      { recvBusy := true, workers := [.processing [1, 2]], decoded := [1, 2] } .process
      { recvBusy := true, workers := [.processing [2]], decoded := [1, 2], processed := [1] } :=
    step_process rfl
  have run := ((((Runs.init.snoc hdata).snoc hpublish).snoc hstart).snoc hprocess).snoc
    (.onData [3] rfl)
  exact ⟨_, run, rfl, rfl, recv_pipeline run⟩

end RecvState

end BeyondProtocol.Quic
