import Mathlib.Data.List.Basic
import Mathlib.Algebra.Order.Group.Nat
import BeyondProtocol.Framework.Runs

/-!
# The worker queue (`threads.hpp`)

Tasks are queued from any thread and run by a job of the thread pool, which takes them
from the queue one after the other and ends when there are none. All that is changed is
changed under the lock of the queue, so a step of the model is one locked section; the
job is pushed into the pool behind it.
-/

namespace BeyondProtocol

open Framework

/-- `queue_`, `busy_` and `stop_` of a `WorkerQueue`, the jobs that were started for it, and the
calls of `wait` that have not returned. Tasks are logged when they are queued, started and
removed. -/
structure WorkerQueue (T : Type) where
  tasks : List T := []
  busy : Bool := false
  stopped : Bool := false
  /-- Threads behind `start_and_unlock` that have to push a job. -/
  pushing : Nat := 0
  /-- Jobs in the pool that have not begun. -/
  scheduled : Nat := 0
  /-- Jobs in `run`, with the task they run; without one they are about to take the lock. -/
  workers : List (Option T) := []
  waiting : Nat := 0
  queued : List T := []
  started : List T := []
  removed : List T := []

namespace WorkerQueue

variable {T : Type}

/-! ## §1  The locked sections -/

/-- `start_and_unlock` -/
def startAndUnlock (s : WorkerQueue T) : WorkerQueue T :=
  if !s.busy && !s.stopped then { s with busy := true, pushing := s.pushing + 1 } else s

/-- `queue_.push_back(args)` -/
def pushBack (s : WorkerQueue T) (args : T) : WorkerQueue T :=
  { s with tasks := s.tasks ++ [args], queued := s.queued ++ [args] }

/-- `queue_.clear()` -/
def clear (s : WorkerQueue T) : WorkerQueue T :=
  { s with tasks := [], removed := s.removed ++ s.tasks }

/-- `queue` -/
def queue (s : WorkerQueue T) (args : T) : WorkerQueue T × Int :=
  if s.stopped then (s, -1) else ((s.pushBack args).startAndUnlock, s.tasks.length)

/-- `try_queue`; the size is compared as an unsigned number. -/
def tryQueue (s : WorkerQueue T) (maxQueueSize : Int) (args : T) : WorkerQueue T × Bool :=
  if s.stopped then (s, false)
  else if (maxQueueSize % 18446744073709551616).toNat ≤ s.tasks.length then (s, false)
  else ((s.pushBack args).startAndUnlock, true)

/-- `stop` -/
def stop (s : WorkerQueue T) (clearQueue : Bool) : WorkerQueue T :=
  let s := { s with stopped := true }
  if clearQueue then s.clear else s

/-- `resume` -/
def resume (s : WorkerQueue T) : WorkerQueue T :=
  let s := { s with stopped := false }
  if 0 < s.tasks.length && !s.busy then s.startAndUnlock else s

/-- `wait` returns at once, or when no task runs. -/
def wait (s : WorkerQueue T) : WorkerQueue T :=
  if !s.stopped then s else if !s.busy then s else { s with waiting := s.waiting + 1 }

/-- The locked section of `run` for the `i`-th job: it ends, or it has the next task. -/
def fetch (s : WorkerQueue T) (i : Nat) : WorkerQueue T :=
  if s.stopped then { s with busy := false, workers := s.workers.eraseIdx i }
  else
    match s.tasks with
    | [] => { s with busy := false, workers := s.workers.eraseIdx i }
    | args :: rest =>
        { s with
          tasks := rest
          workers := s.workers.set i (some args)
          started := s.started ++ [args] }

end WorkerQueue

inductive WorkerEvent (T : Type) : Type where
  | queue (args : T)
  | tryQueue (maxQueueSize : Int) (args : T)
  | stop (clearQueue : Bool)
  | clear
  | resume
  | wait
  | waited
  /-- `pool.push` -/
  | push
  /-- The pool begins a job. -/
  | begin
  | fetch (i : Nat)
  /-- A task returns, or it throws and the exception is caught. -/
  | finish (i : Nat) (exception : Option String)

namespace WorkerQueue

variable {T : Type}

inductive Step (s : WorkerQueue T) : WorkerEvent T → WorkerQueue T → Prop where
  | queue {args : T} : Step s (.queue args) (s.queue args).1
  | tryQueue {maxQueueSize : Int} {args : T} :
      Step s (.tryQueue maxQueueSize args) (s.tryQueue maxQueueSize args).1
  | stop {clearQueue : Bool} : Step s (.stop clearQueue) (s.stop clearQueue)
  | clear : Step s .clear s.clear
  | resume : Step s .resume s.resume
  | wait : Step s .wait s.wait
  | waited : 0 < s.waiting → s.busy = false →
      Step s .waited { s with waiting := s.waiting - 1 }
  | push : 0 < s.pushing →
      Step s .push { s with pushing := s.pushing - 1, scheduled := s.scheduled + 1 }
  | begin : 0 < s.scheduled →
      Step s .begin { s with scheduled := s.scheduled - 1, workers := s.workers ++ [none] }
  | fetch {i : Nat} : s.workers[i]? = some none → Step s (.fetch i) (s.fetch i)
  | finish {i : Nat} {args : T} {exception : Option String} : s.workers[i]? = some (some args) →
      Step s (.finish i exception) { s with workers := s.workers.set i none }

/-! ## §2  One job at most, and no task is left behind -/

/-- The jobs of the queue: to be pushed, in the pool or in `run`. -/
def jobs (s : WorkerQueue T) : Nat := s.pushing + s.scheduled + s.workers.length

/-- Each task that was queued was started or removed, in this order, or still waits. -/
def Accounted (s : WorkerQueue T) : Prop :=
  ∃ fates : List (T × Bool), s.queued = fates.map Prod.fst ++ s.tasks ∧
    s.started = (fates.filter Prod.snd).map Prod.fst ∧
    s.removed = (fates.filter fun x => !x.2).map Prod.fst

structure Serial (s : WorkerQueue T) : Prop where
  one : s.jobs = if s.busy then 1 else 0
  awake : s.tasks ≠ [] → s.stopped = false → s.busy = true
  accounted : s.Accounted

theorem Accounted.pushBack {s : WorkerQueue T} (h : s.Accounted) (args : T) :
    (s.pushBack args).Accounted := by
  obtain ⟨fates, hqueued, hstarted, hremoved⟩ := h
  refine ⟨fates, ?_, hstarted, hremoved⟩
  show s.queued ++ [args] = _
  rw [hqueued, List.append_assoc]
  rfl

theorem Accounted.clear {s : WorkerQueue T} (h : s.Accounted) : s.clear.Accounted := by
  obtain ⟨fates, hqueued, hstarted, hremoved⟩ := h
  refine ⟨fates ++ s.tasks.map fun args => (args, false), ?_, ?_, ?_⟩
  · show s.queued = _ ++ []
    rw [hqueued]
    simp [Function.comp_def]
  · show s.started = _
    rw [hstarted]
    simp [List.filter_map, Function.comp_def]
  · show s.removed ++ s.tasks = _
    rw [hremoved]
    simp [List.filter_map, Function.comp_def]

/-- Taking the next task. -/
theorem Accounted.start {s s' : WorkerQueue T} {args : T} {rest : List T} (h : s.Accounted)
    (htasks : s.tasks = args :: rest) (hqueued : s'.queued = s.queued) (htasks' : s'.tasks = rest)
    (hstarted : s'.started = s.started ++ [args]) (hremoved : s'.removed = s.removed) :
    s'.Accounted := by
  obtain ⟨fates, hq, hs, hr⟩ := h
  refine ⟨fates ++ [(args, true)], ?_, ?_, ?_⟩
  · rw [hqueued, hq, htasks, htasks']
    simp
  · rw [hstarted, hs]
    simp
  · rw [hremoved, hr]
    simp

theorem startAndUnlock_cases (s : WorkerQueue T) :
    s.busy = false ∧ s.stopped = false ∧
        s.startAndUnlock = { s with busy := true, pushing := s.pushing + 1 } ∨
      (s.busy = true ∨ s.stopped = true) ∧ s.startAndUnlock = s := by
  unfold startAndUnlock
  cases s.busy with
  | false =>
      cases s.stopped with
      | false => exact .inl ⟨rfl, rfl, rfl⟩
      | true => exact .inr ⟨.inr rfl, rfl⟩
  | true => exact .inr ⟨.inl rfl, rfl⟩

/-- A job is started if there is none. -/
theorem serial_startAndUnlock {s : WorkerQueue T} (hone : s.jobs = if s.busy then 1 else 0)
    (haccounted : s.Accounted) : Serial s.startAndUnlock := by
  rcases s.startAndUnlock_cases with ⟨hbusy, -, heq⟩ | ⟨hnot, heq⟩
  · rw [heq]
    refine ⟨?_, fun _ _ => rfl, haccounted⟩
    rw [hbusy] at hone
    show s.pushing + 1 + s.scheduled + s.workers.length = 1
    unfold jobs at hone
    simp only [Bool.false_eq_true, if_false] at hone
    omega
  · rw [heq]
    refine ⟨hone, fun _ hstopped => ?_, haccounted⟩
    rcases hnot with hbusy | hstop
    · exact hbusy
    · rw [hstopped] at hstop
      cases hstop

theorem Serial.queue {s : WorkerQueue T} (h : s.Serial) (args : T) : (s.queue args).1.Serial := by
  unfold WorkerQueue.queue
  split_ifs
  · exact h
  · exact serial_startAndUnlock h.one (h.accounted.pushBack args)

theorem Serial.tryQueue {s : WorkerQueue T} (h : s.Serial) (maxQueueSize : Int) (args : T) :
    (s.tryQueue maxQueueSize args).1.Serial := by
  unfold WorkerQueue.tryQueue
  split_ifs
  · exact h
  · exact h
  · exact serial_startAndUnlock h.one (h.accounted.pushBack args)

theorem Serial.clear {s : WorkerQueue T} (h : s.Serial) : s.clear.Serial :=
  ⟨h.one, fun hne => absurd rfl hne, h.accounted.clear⟩

theorem Serial.stop {s : WorkerQueue T} (h : s.Serial) (clearQueue : Bool) :
    (s.stop clearQueue).Serial := by
  have hstopped : Serial { s with stopped := true } :=
    ⟨h.one, fun _ => nofun, h.accounted⟩
  unfold WorkerQueue.stop
  cases clearQueue with
  | false => exact hstopped
  | true => exact hstopped.clear

theorem Serial.resume {s : WorkerQueue T} (h : s.Serial) : s.resume.Serial := by
  have hone : jobs { s with stopped := false } = if s.busy then 1 else 0 := h.one
  unfold WorkerQueue.resume
  by_cases hstart : (0 < s.tasks.length && !s.busy) = true
  · rw [if_pos hstart]
    exact serial_startAndUnlock hone h.accounted
  · rw [if_neg hstart]
    refine ⟨hone, fun hne _ => ?_, h.accounted⟩
    -- there are tasks, so a job was not started because there is one
    have hpos := List.length_pos_iff.mpr hne
    simpa [hpos] using hstart

theorem Serial.wait {s : WorkerQueue T} (h : s.Serial) : s.wait.Serial := by
  unfold WorkerQueue.wait
  split_ifs
  · exact h
  · exact h
  · exact ⟨h.one, h.awake, h.accounted⟩

theorem fetch_cases (s : WorkerQueue T) (i : Nat) :
    (s.stopped = true ∨ s.tasks = []) ∧
        s.fetch i = { s with busy := false, workers := s.workers.eraseIdx i } ∨
      ∃ args rest, s.tasks = args :: rest ∧ s.stopped = false ∧
        s.fetch i = { s with
          tasks := rest
          workers := s.workers.set i (some args)
          started := s.started ++ [args] } := by
  unfold fetch
  cases hstopped : s.stopped with
  | true => exact .inl ⟨.inl rfl, rfl⟩
  | false =>
      cases htasks : s.tasks with
      | nil => exact .inl ⟨.inr rfl, rfl⟩
      | cons args rest => exact .inr ⟨args, rest, rfl, rfl, rfl⟩

/-- A job in `run` is the only one. -/
theorem Serial.only {s : WorkerQueue T} (h : s.Serial) {i : Nat} {worker : Option T}
    (hi : s.workers[i]? = some worker) :
    s.busy = true ∧ s.pushing = 0 ∧ s.scheduled = 0 ∧ s.workers.length = 1 := by
  obtain ⟨hlt, -⟩ := List.getElem?_eq_some_iff.mp hi
  have hone := h.one
  unfold jobs at hone
  cases hbusy : s.busy with
  | false =>
      rw [hbusy] at hone
      simp only [Bool.false_eq_true, if_false] at hone
      omega
  | true =>
      rw [hbusy] at hone
      simp only [if_true] at hone
      exact ⟨rfl, by omega, by omega, by omega⟩

theorem Serial.fetch {s : WorkerQueue T} (h : s.Serial) {i : Nat}
    (hi : s.workers[i]? = some none) : (s.fetch i).Serial := by
  obtain ⟨hbusy, hpushing, hscheduled, hlength⟩ := h.only hi
  obtain ⟨hlt, -⟩ := List.getElem?_eq_some_iff.mp hi
  have hended : s.pushing + s.scheduled + (s.workers.eraseIdx i).length = 0 := by
    rw [List.length_eraseIdx, if_pos hlt]
    omega
  rcases s.fetch_cases i with ⟨hidle, heq⟩ | ⟨args, rest, htasks, -, heq⟩
  · rw [heq]
    refine ⟨hended, fun hne hstopped => ?_, h.accounted⟩
    rcases hidle with hstop | hnil
    · have hgoes : s.stopped = false := hstopped
      rw [hstop] at hgoes
      cases hgoes
    · exact absurd hnil hne
  · rw [heq]
    refine ⟨?_, fun _ _ => hbusy, h.accounted.start htasks rfl rfl rfl rfl⟩
    show s.pushing + s.scheduled + (s.workers.set i (some args)).length = if s.busy then 1 else 0
    rw [List.length_set]
    exact h.one

/-- **One step** of any thread keeps the queue serial. -/
theorem Serial.step {s s' : WorkerQueue T} {e : WorkerEvent T} (h : s.Serial)
    (hstep : Step s e s') : s'.Serial := by
  cases hstep with
  | queue => exact h.queue _
  | tryQueue => exact h.tryQueue _ _
  | stop => exact h.stop _
  | clear => exact h.clear
  | resume => exact h.resume
  | wait => exact h.wait
  | waited _ _ => exact ⟨h.one, h.awake, h.accounted⟩
  | push hpushing =>
      refine ⟨?_, h.awake, h.accounted⟩
      rw [← h.one]
      show s.pushing - 1 + (s.scheduled + 1) + s.workers.length = s.jobs
      unfold jobs
      omega
  | begin hscheduled =>
      refine ⟨?_, h.awake, h.accounted⟩
      rw [← h.one]
      show s.pushing + (s.scheduled - 1) + (s.workers ++ [none]).length = s.jobs
      rw [List.length_append, List.length_singleton]
      unfold jobs
      omega
  | fetch hi => exact h.fetch hi
  | finish _ =>
      refine ⟨?_, h.awake, h.accounted⟩
      rw [← h.one]
      show s.pushing + s.scheduled + (s.workers.set _ none).length = s.jobs
      rw [List.length_set]
      rfl

/-- In every state of every interleaving: the tasks that were queued are those that were started
and those that were removed, in the order they were queued, and behind them those that wait; at
most one task runs; and while tasks wait and the queue is not stopped it is busy, which it is
exactly while there is a job for it. -/
theorem tasks_run_serially {events : List (WorkerEvent T)} {s : WorkerQueue T}
    (run : Runs Step {} events s) :
    (∃ fates : List (T × Bool), s.queued = fates.map Prod.fst ++ s.tasks ∧
      s.started = (fates.filter Prod.snd).map Prod.fst ∧
      s.removed = (fates.filter fun x => !x.2).map Prod.fst) ∧
    (s.workers.filter Option.isSome).length ≤ 1 ∧
    (s.tasks ≠ [] → s.stopped = false → s.busy = true) ∧
    s.jobs = if s.busy then 1 else 0 := by
  have h : s.Serial :=
    run.invariant (I := Serial) ⟨rfl, fun hne => absurd rfl hne, [], rfl, rfl, rfl⟩
      fun _ _ _ => Serial.step
  refine ⟨h.accounted, (List.length_filter_le _ _).trans ?_, h.awake, h.one⟩
  have hone := h.one
  unfold jobs at hone
  split_ifs at hone <;> omega

/-- A task is run, the queue is stopped while it runs, resumed before the job ends, and the job
takes the next task. -/
def resumedRun : List (WorkerEvent Nat) :=
  [.queue 1, .push, .begin, .queue 2, .fetch 0, .stop false, .resume, .finish 0 (some "failed"),
   .fetch 0, .tryQueue 1 3, .stop true]

theorem tasks_run_serially_resumed :
    ∃ s, Runs Step {} resumedRun s ∧ s.started = [1, 2] ∧ s.removed = [3] ∧ s.jobs = 1 ∧
      (s.workers.filter Option.isSome).length ≤ 1 := by
  have hrun : Runs Step {} resumedRun (_ : WorkerQueue Nat) :=
    ((((((((((Runs.init.snoc .queue).snoc (.push (by decide))).snoc (.begin (by decide))).snoc
      .queue).snoc (.fetch rfl)).snoc .stop).snoc .resume).snoc (.finish rfl)).snoc
      (.fetch rfl)).snoc .tryQueue).snoc .stop
  exact ⟨_, hrun, rfl, rfl, rfl, (tasks_run_serially hrun).2.1⟩

end WorkerQueue

end BeyondProtocol
