import Mathlib.Data.List.Basic
import Mathlib.Data.List.Range
import Mathlib.Data.List.Nodup
import BeyondProtocol.Framework.Ranking

/-!
# The thread pool (`ctpl_stl.cpp`, `lib/ctpl_stl.hpp`)

Functions are pushed into a queue with a lock of its own; the threads take them from it and
sleep on a condition variable when there are none. `push` has to wake a thread and `stop` all
of them, and neither changes what the sleepers look at under the mutex of the condition: the
queue, `isDone` and the flags are changed first, and the mutex is taken for the notification.

A step of the model is one access to the queue, a flag or `isDone`, or one section under the
mutex. `resize` and `stop` are called by one thread, as the source asks.
-/

namespace BeyondProtocol

open Framework

/-- Where a thread is in the body of `set_thread`. -/
inductive ThreadPhase where
  /-- `isPop = this->q.pop(_f)` -/
  | pop
  /-- `(*_f)(i)` -/
  | run (f : ℕ)
  /-- `if (_flag)` -/
  | check
  /-- The queue was empty, the mutex is wanted. -/
  | lock
  /-- The predicate of `cv.wait`: the queue, then `isDone`, then the flag. -/
  | test
  | readDone
  | readFlag
  | asleep
  /-- Notified, the mutex is wanted again. -/
  | woken
  | exited
  deriving DecidableEq

/-- The mutex is held in the predicate. -/
def ThreadPhase.holds : ThreadPhase → Bool
  | .test | .readDone | .readFlag => true
  | _ => false

/-- The thread is going to look into the queue because of a notification. -/
def ThreadPhase.looking : ThreadPhase → Bool
  | .test | .woken => true
  | _ => false

/-- How much a thread has to do until it sleeps or leaves. -/
def ThreadPhase.rank : ThreadPhase → ℕ
  | .run _ => 8
  | .check => 7
  | .pop => 6
  | .lock | .woken => 5
  | .test => 4
  | .readDone => 3
  | .readFlag => 2
  | .asleep => 1
  | .exited => 0

structure PoolThread where
  flag : Bool := false
  phase : ThreadPhase := .pop
  deriving DecidableEq

/-- Where the thread is that calls `resize` and `stop`. -/
inductive PoolControl where
  | idle
  | growing (nThreads : ℕ)
  /-- The threads from `i` on have their flags set. -/
  | shrinking (i nThreads : ℕ)
  /-- The threads below `i` have their flags set. -/
  | flagging (i : ℕ)
  | clearing
  | notifying
  /-- The threads below `i` are joined. -/
  | joining (i : ℕ)
  | emptying
  deriving DecidableEq

/-- `notify_all` is still to come. -/
def PoolControl.willNotify : PoolControl → Bool
  | .shrinking _ _ | .flagging _ | .clearing | .notifying => true
  | _ => false

/-- How much `resize` and `stop` have to do. -/
def PoolControl.rank (threads : ℕ) : PoolControl → ℕ
  | .idle => 0
  | .growing nThreads => 1 + (nThreads - threads)
  | .shrinking i nThreads => 1 + (i - nThreads)
  | .emptying => 1
  | .joining i => 2 + (threads - i)
  | .notifying => 3 + threads
  | .clearing => 4 + threads
  | .flagging i => 5 + threads + (threads - i)

/-- Functions are numbered in the order in which they are pushed. All threads that were started
are kept; `threads` has the positions of those that are in the vector. -/
structure ThreadPool where
  threads : List ℕ := []
  workers : List PoolThread := []
  q : List ℕ := []
  isDone : Bool := false
  isStop : Bool := false
  /-- Calls of `push` between the queue and `notify_one`. -/
  pushing : List ℕ := []
  control : PoolControl := .idle
  made : ℕ := 0
  /-- What was taken from the queue, by a thread or by `clear_queue`. -/
  taken : List (ℕ × Option ℕ) := []
  /-- The functions that returned, with the thread. -/
  finished : List (ℕ × ℕ) := []
  deriving DecidableEq

inductive PoolEvent where
  /-- `push` up to the queue -/
  | push
  /-- `notify_one` of the push of `f`, which wakes thread `w` if one is asleep. -/
  | notify (f : ℕ) (w : Option ℕ)
  | thread (w : ℕ)
  | spurious (w : ℕ)
  | resize (nThreads : ℕ)
  | stop (isWait : Bool)
  | control
  deriving DecidableEq

/-- A step that the pool takes by itself. -/
def PoolEvent.internal : PoolEvent → Bool
  | .notify _ _ | .thread _ | .control => true
  | _ => false

namespace ThreadPool

/-! ## §1  The steps -/

/-- Some thread holds the mutex. -/
def locked (s : ThreadPool) : Bool := s.workers.any (·.phase.holds)

def setThread (s : ThreadPool) (w : ℕ) (t : PoolThread) : ThreadPool :=
  { s with workers := s.workers.set w t }

/-- `q.pop` by thread `w`, which goes on with the function or as `empty`. -/
def popBy (s : ThreadPool) (w : ℕ) (t : PoolThread) (empty : ThreadPhase) : ThreadPool :=
  match s.q with
  | [] => s.setThread w { t with phase := empty }
  | f :: q =>
      { s.setThread w { t with phase := .run f } with
        q := q
        taken := s.taken ++ [(f, some w)] }

/-- `set_thread`: the next step of thread `w`. -/
def body (s : ThreadPool) (w : ℕ) (t : PoolThread) : Option ThreadPool :=
  match t.phase with
  | .pop => some (s.popBy w t .lock)
  | .run f =>
      some { s.setThread w { t with phase := .check } with finished := s.finished ++ [(f, w)] }
  | .check => some (s.setThread w { t with phase := if t.flag then .exited else .pop })
  | .lock | .woken => if s.locked then none else some (s.setThread w { t with phase := .test })
  | .test => some (s.popBy w t .readDone)
  | .readDone =>
      some (s.setThread w { t with phase := if s.isDone then .exited else .readFlag })
  | .readFlag =>
      some (s.setThread w { t with phase := if t.flag then .exited else .asleep })
  | .asleep | .exited => none

/-- `push`: the function is in the queue, nobody is notified yet. -/
def push (s : ThreadPool) : ThreadPool :=
  { s with q := s.q ++ [s.made], pushing := s.pushing ++ [s.made], made := s.made + 1 }

def wake (t : PoolThread) : PoolThread :=
  if t.phase = .asleep then { t with phase := .woken } else t

/-- `notify_one` wakes one of the sleepers, if there are any. -/
def notifyOne (s : ThreadPool) (f : ℕ) (w : Option ℕ) : Option ThreadPool :=
  if s.locked || !s.pushing.contains f then none
  else
    match w with
    | none =>
        if s.workers.any (·.phase == .asleep) then none
        else some { s with pushing := s.pushing.erase f }
    | some w =>
        s.workers[w]? >>= fun t =>
          if t.phase = .asleep then
            some { s.setThread w (wake t) with pushing := s.pushing.erase f }
          else none

def notifyAll (s : ThreadPool) : ThreadPool := { s with workers := s.workers.map wake }

/-- The flag of the thread at place `i` of the vector is set. -/
def setFlag (s : ThreadPool) (i : ℕ) : Option ThreadPool :=
  s.threads[i]? >>= fun w => s.workers[w]? >>= fun t => some (s.setThread w { t with flag := true })

/-- `resize` -/
def resize (s : ThreadPool) (nThreads : ℕ) : ThreadPool :=
  if s.isStop || s.isDone then s
  else if s.threads.length ≤ nThreads then { s with control := .growing nThreads }
  else { s with control := .shrinking s.threads.length nThreads }

/-- `stop` -/
def stop (s : ThreadPool) (isWait : Bool) : ThreadPool :=
  if !isWait then
    if s.isStop then s else { s with isStop := true, control := .flagging 0 }
  else if s.isDone || s.isStop then s
  else { s with isDone := true, control := .notifying }

/-- One round of `clear_queue`. -/
def clearQueue (s : ThreadPool) (next : ThreadPool → ThreadPool) : ThreadPool :=
  match s.q with
  | [] => next s
  | f :: q => { s with q := q, taken := s.taken ++ [(f, none)] }

/-- A step of `resize` or `stop`. -/
def proceed (s : ThreadPool) : Option ThreadPool :=
  match s.control with
  | .idle => none
  | .growing nThreads =>
      if s.threads.length < nThreads then
        some { s with
          threads := s.threads ++ [s.workers.length]
          workers := s.workers ++ [{}] }
      else some { s with control := .idle }
  | .shrinking i nThreads =>
      if nThreads < i then
        s.setFlag (i - 1) >>= fun s => some { s with control := .shrinking (i - 1) nThreads }
      else if s.locked then none
      else some { s.notifyAll with threads := s.threads.take nThreads, control := .idle }
  | .flagging i =>
      if i < s.threads.length then
        s.setFlag i >>= fun s => some { s with control := .flagging (i + 1) }
      else some { s with control := .clearing }
  | .clearing => some (s.clearQueue ({ · with control := .notifying }))
  | .notifying =>
      if s.locked then none else some { s.notifyAll with control := .joining 0 }
  | .joining i =>
      match s.threads[i]? with
      | none => some { s with control := .emptying }
      | some w =>
          s.workers[w]? >>= fun t =>
            if t.phase = .exited then some { s with control := .joining (i + 1) } else none
  | .emptying => some (s.clearQueue ({ · with threads := [], control := .idle }))

/-- What an event does, where it can happen. -/
def handle (s : ThreadPool) : PoolEvent → Option ThreadPool
  | .push => some s.push
  | .notify f w => s.notifyOne f w
  | .thread w => s.workers[w]? >>= s.body w
  | .spurious w =>
      s.workers[w]? >>= fun t =>
        if t.phase = .asleep then some (s.setThread w (wake t)) else none
  | .resize nThreads => if s.control = .idle then some (s.resize nThreads) else none
  | .stop isWait => if s.control = .idle then some (s.stop isWait) else none
  | .control => s.proceed

def Step (s : ThreadPool) (e : PoolEvent) (t : ThreadPool) : Prop := s.handle e = some t

/-! ## §2  What a step can do -/

/-- Thread `t` goes on to a phase, and nothing else changes. -/
inductive Goes (s : ThreadPool) (t : PoolThread) : ThreadPhase → Prop
  | lock : t.phase = .pop → s.q = [] → Goes s t .lock
  | pop : t.phase = .check → t.flag = false → Goes s t .pop
  | test : t.phase = .lock ∨ t.phase = .woken → s.locked = false → Goes s t .test
  | readDone : t.phase = .test → s.q = [] → Goes s t .readDone
  | readFlag : t.phase = .readDone → s.isDone = false → Goes s t .readFlag
  | sleep : t.phase = .readFlag → t.flag = false → Goes s t .asleep
  | flagged : t.phase = .check ∨ t.phase = .readFlag → t.flag = true → Goes s t .exited
  | done : t.phase = .readDone → s.isDone = true → Goes s t .exited

/-- Where `resize` and `stop` go on, and nothing else changes. -/
inductive Proceeds (s : ThreadPool) : PoolControl → Prop
  | grown {nThreads : ℕ} : s.control = .growing nThreads → nThreads ≤ s.threads.length →
      Proceeds s .idle
  | flagged {i : ℕ} : s.control = .flagging i → s.threads.length ≤ i → Proceeds s .clearing
  | cleared : s.control = .clearing → s.q = [] → Proceeds s .notifying
  | joined {i w : ℕ} {t : PoolThread} : s.control = .joining i → s.threads[i]? = some w →
      s.workers[w]? = some t → t.phase = .exited → Proceeds s (.joining (i + 1))
  | allJoined {i : ℕ} : s.control = .joining i → s.threads.length ≤ i → Proceeds s .emptying

inductive Change (s : ThreadPool) : PoolEvent → ThreadPool → Prop
  | pushed : Change s .push s.push
  | notified {f w : ℕ} {t : PoolThread} : s.locked = false → f ∈ s.pushing →
      s.workers[w]? = some t → t.phase = .asleep →
      Change s (.notify f (some w))
        { s.setThread w { t with phase := .woken } with pushing := s.pushing.erase f }
  | unheard {f : ℕ} : s.locked = false → f ∈ s.pushing → (∀ t ∈ s.workers, t.phase ≠ .asleep) →
      Change s (.notify f none) { s with pushing := s.pushing.erase f }
  | took {w f : ℕ} {t : PoolThread} {q : List ℕ} : s.workers[w]? = some t →
      t.phase = .pop ∨ t.phase = .test → s.q = f :: q →
      Change s (.thread w)
        { s.setThread w { t with phase := .run f } with
          q := q
          taken := s.taken ++ [(f, some w)] }
  | ran {w f : ℕ} {t : PoolThread} : s.workers[w]? = some t → t.phase = .run f →
      Change s (.thread w)
        { s.setThread w { t with phase := .check } with finished := s.finished ++ [(f, w)] }
  | went {w : ℕ} {t : PoolThread} {p : ThreadPhase} : s.workers[w]? = some t → Goes s t p →
      Change s (.thread w) (s.setThread w { t with phase := p })
  | spurious {w : ℕ} {t : PoolThread} : s.workers[w]? = some t → t.phase = .asleep →
      Change s (.spurious w) (s.setThread w { t with phase := .woken })
  | ignored {e : PoolEvent} : e.internal = false → Change s e s
  | resizing {nThreads : ℕ} {c : PoolControl} : s.control = .idle → s.isStop = false →
      s.isDone = false →
      c = .growing nThreads ∨
        nThreads < s.threads.length ∧ c = .shrinking s.threads.length nThreads →
      Change s (.resize nThreads) { s with control := c }
  | stopNow : s.control = .idle → s.isStop = false →
      Change s (.stop false) { s with isStop := true, control := .flagging 0 }
  | stopWait : s.control = .idle → s.isStop = false → s.isDone = false →
      Change s (.stop true) { s with isDone := true, control := .notifying }
  | proceeded {c : PoolControl} : Proceeds s c → Change s .control { s with control := c }
  | grew {nThreads : ℕ} : s.control = .growing nThreads → s.threads.length < nThreads →
      Change s .control
        { s with threads := s.threads ++ [s.workers.length], workers := s.workers ++ [{}] }
  | flagged {i w : ℕ} {t : PoolThread} {c : PoolControl} : s.threads[i]? = some w →
      s.workers[w]? = some t →
      s.control = .flagging i ∧ c = .flagging (i + 1) ∨
        (∃ nThreads, s.control = .shrinking (i + 1) nThreads ∧ nThreads ≤ i ∧
          c = .shrinking i nThreads) →
      Change s .control { s.setThread w { t with flag := true } with control := c }
  | shrunk {i nThreads : ℕ} : s.control = .shrinking i nThreads → i ≤ nThreads →
      s.locked = false →
      Change s .control { s.notifyAll with threads := s.threads.take nThreads, control := .idle }
  | notifiedAll : s.control = .notifying → s.locked = false →
      Change s .control { s.notifyAll with control := .joining 0 }
  | discarded {f : ℕ} {q : List ℕ} : s.control = .clearing ∨ s.control = .emptying →
      s.q = f :: q →
      Change s .control { s with q := q, taken := s.taken ++ [(f, none)] }
  | stopped : s.control = .emptying → s.q = [] →
      Change s .control { s with threads := [], control := .idle }

theorem popBy_cases (s : ThreadPool) (w : ℕ) (t : PoolThread) (empty : ThreadPhase) :
    s.q = [] ∧ s.popBy w t empty = s.setThread w { t with phase := empty } ∨
      ∃ f q, s.q = f :: q ∧ s.popBy w t empty =
        { s.setThread w { t with phase := .run f } with
          q := q
          taken := s.taken ++ [(f, some w)] } := by
  unfold popBy
  cases s.q with
  | nil => exact .inl ⟨rfl, rfl⟩
  | cons f q => exact .inr ⟨f, q, rfl, rfl⟩

theorem change_body {s s' : ThreadPool} {w : ℕ} {t : PoolThread} (hw : s.workers[w]? = some t)
    (h : s.body w t = some s') : s.Change (.thread w) s' := by
  unfold body at h
  split at h
  case h_1 hphase =>
    cases h
    rcases s.popBy_cases w t .lock with ⟨hq, heq⟩ | ⟨f, q, hq, heq⟩
    · rw [heq]
      exact .went hw (.lock hphase hq)
    · rw [heq]
      exact .took hw (.inl hphase) hq
  case h_2 f hphase =>
    cases h
    exact .ran hw hphase
  case h_3 hphase =>
    cases h
    refine .went hw ?_
    split_ifs with hflag
    · exact .flagged (.inl hphase) hflag
    · exact .pop hphase (by simpa using hflag)
  case h_4 hphase =>
    split_ifs at h with hlocked
    cases h
    exact .went hw (.test (.inl hphase) (by simpa using hlocked))
  case h_5 hphase =>
    split_ifs at h with hlocked
    cases h
    exact .went hw (.test (.inr hphase) (by simpa using hlocked))
  case h_6 hphase =>
    cases h
    rcases s.popBy_cases w t .readDone with ⟨hq, heq⟩ | ⟨f, q, hq, heq⟩
    · rw [heq]
      exact .went hw (.readDone hphase hq)
    · rw [heq]
      exact .took hw (.inr hphase) hq
  case h_7 hphase =>
    cases h
    refine .went hw ?_
    split_ifs with hdone
    · exact .done hphase hdone
    · exact .readFlag hphase (by simpa using hdone)
  case h_8 hphase =>
    cases h
    refine .went hw ?_
    split_ifs with hflag
    · exact .flagged (.inr hphase) hflag
    · exact .sleep hphase (by simpa using hflag)
  all_goals cases h

theorem wake_asleep {t : PoolThread} (h : t.phase = .asleep) :
    wake t = { t with phase := .woken } := if_pos h

theorem change_notifyOne {s s' : ThreadPool} {f : ℕ} {w : Option ℕ}
    (h : s.notifyOne f w = some s') : s.Change (.notify f w) s' := by
  unfold notifyOne at h
  by_cases hcond : (s.locked || !s.pushing.contains f) = true
  · rw [if_pos hcond] at h
    cases h
  rw [if_neg hcond] at h
  simp only [Bool.or_eq_true, Bool.not_eq_true', not_or, Bool.not_eq_true, Bool.not_eq_false,
    List.contains_iff_mem] at hcond
  obtain ⟨hlocked, hf⟩ := hcond
  cases w with
  | none =>
      simp only at h
      split_ifs at h with hasleep
      cases h
      refine .unheard hlocked hf fun t ht hphase => hasleep ?_
      exact List.any_eq_true.mpr ⟨t, ht, by simp [hphase]⟩
  | some w =>
      obtain ⟨t, hw, hrest⟩ := Option.bind_eq_some_iff.mp h
      split_ifs at hrest with hphase
      cases hrest
      rw [wake_asleep hphase]
      exact .notified hlocked hf hw hphase

theorem change_resize {s : ThreadPool} {nThreads : ℕ} (hidle : s.control = .idle) :
    s.Change (.resize nThreads) (s.resize nThreads) := by
  unfold resize
  split_ifs with hstopped hle
  · exact .ignored rfl
  · simp only [Bool.or_eq_true, not_or, Bool.not_eq_true] at hstopped
    exact .resizing hidle hstopped.1 hstopped.2 (.inl rfl)
  · simp only [Bool.or_eq_true, not_or, Bool.not_eq_true] at hstopped
    exact .resizing hidle hstopped.1 hstopped.2 (.inr ⟨Nat.lt_of_not_le hle, rfl⟩)

theorem change_stop {s : ThreadPool} {isWait : Bool} (hidle : s.control = .idle) :
    s.Change (.stop isWait) (s.stop isWait) := by
  unfold stop
  cases isWait with
  | false =>
      simp only [Bool.not_false, if_true]
      split_ifs with hstop
      · exact .ignored rfl
      · exact .stopNow hidle (by simpa using hstop)
  | true =>
      simp only [Bool.not_true, Bool.false_eq_true, if_false]
      split_ifs with hstopped
      · exact .ignored rfl
      · simp only [Bool.or_eq_true, not_or, Bool.not_eq_true] at hstopped
        exact .stopWait hidle hstopped.2 hstopped.1

theorem setFlag_eq_some {s s' : ThreadPool} {i : ℕ} (h : s.setFlag i = some s') :
    ∃ w t, s.threads[i]? = some w ∧ s.workers[w]? = some t ∧
      s' = s.setThread w { t with flag := true } := by
  obtain ⟨w, hw, hrest⟩ := Option.bind_eq_some_iff.mp h
  obtain ⟨t, ht, hlast⟩ := Option.bind_eq_some_iff.mp hrest
  cases hlast
  exact ⟨w, t, hw, ht, rfl⟩

theorem change_clearQueue {s : ThreadPool} {next : ThreadPool → ThreadPool}
    (hcontrol : s.control = .clearing ∨ s.control = .emptying)
    (hnext : s.q = [] → s.Change .control (next s)) :
    s.Change .control (s.clearQueue next) := by
  unfold clearQueue
  cases hq : s.q with
  | nil => exact hnext hq
  | cons f q => exact .discarded hcontrol hq

theorem change_proceed {s s' : ThreadPool} (h : s.proceed = some s') : s.Change .control s' := by
  unfold proceed at h
  split at h
  case h_1 => cases h
  case h_2 nThreads hcontrol =>
    split_ifs at h with hlt
    · cases h
      exact .grew hcontrol hlt
    · cases h
      exact .proceeded (.grown hcontrol (Nat.le_of_not_lt hlt))
  case h_3 i nThreads hcontrol =>
    split_ifs at h with hlt hlocked
    · obtain ⟨u, hu, hlast⟩ := Option.bind_eq_some_iff.mp h
      cases hlast
      obtain ⟨w, t, hw, ht, rfl⟩ := setFlag_eq_some hu
      obtain ⟨i, rfl⟩ := Nat.exists_eq_succ_of_ne_zero (Nat.ne_zero_of_lt hlt)
      exact .flagged hw ht (.inr ⟨nThreads, hcontrol, Nat.le_of_lt_succ hlt, rfl⟩)
    · cases h
      exact .shrunk hcontrol (Nat.le_of_not_lt hlt) (by simpa using hlocked)
  case h_4 i hcontrol =>
    split_ifs at h with hlt
    · obtain ⟨u, hu, hlast⟩ := Option.bind_eq_some_iff.mp h
      cases hlast
      obtain ⟨w, t, hw, ht, rfl⟩ := setFlag_eq_some hu
      exact .flagged hw ht (.inl ⟨hcontrol, rfl⟩)
    · cases h
      exact .proceeded (.flagged hcontrol (Nat.le_of_not_lt hlt))
  case h_5 hcontrol =>
    cases h
    exact change_clearQueue (.inl hcontrol) fun hq => .proceeded (.cleared hcontrol hq)
  case h_6 hcontrol =>
    split_ifs at h with hlocked
    cases h
    exact .notifiedAll hcontrol (by simpa using hlocked)
  case h_7 i hcontrol =>
    split at h
    case h_1 hi =>
      cases h
      exact .proceeded (.allJoined hcontrol (by simpa using hi))
    case h_2 w hi =>
      obtain ⟨t, ht, hlast⟩ := Option.bind_eq_some_iff.mp h
      split_ifs at hlast with hexited
      cases hlast
      exact .proceeded (.joined hcontrol hi ht hexited)
  case h_8 hcontrol =>
    cases h
    exact change_clearQueue (.inr hcontrol) fun hq => .stopped hcontrol hq

/-- **What a step can do.** -/
theorem Step.change {s s' : ThreadPool} {e : PoolEvent} (h : Step s e s') : s.Change e s' := by
  unfold Step handle at h
  cases e with
  | push =>
      cases h
      exact .pushed
  | notify f w => exact change_notifyOne h
  | thread w =>
      obtain ⟨t, hw, hbody⟩ := Option.bind_eq_some_iff.mp h
      exact change_body hw hbody
  | spurious w =>
      obtain ⟨t, hw, hrest⟩ := Option.bind_eq_some_iff.mp h
      split_ifs at hrest with hphase
      cases hrest
      rw [wake_asleep hphase]
      exact .spurious hw hphase
  | resize nThreads =>
      simp only at h
      split_ifs at h with hidle
      cases h
      exact change_resize hidle
  | stop isWait =>
      simp only at h
      split_ifs at h with hidle
      cases h
      exact change_stop hidle
  | control => exact change_proceed h

/-! ## §3  Each function is taken once, in order -/

def phase (s : ThreadPool) (w : ℕ) : Option ThreadPhase := s.workers[w]?.map PoolThread.phase

theorem phase_of {s : ThreadPool} {w : ℕ} {t : PoolThread} (hw : s.workers[w]? = some t) :
    s.phase w = some t.phase := by
  rw [phase, hw]
  rfl

theorem workers_setThread {s : ThreadPool} {w : ℕ} {t : PoolThread} (hw : s.workers[w]? = some t)
    (t' : PoolThread) (v : ℕ) :
    (s.setThread w t').workers[v]? = if w = v then some t' else s.workers[v]? := by
  obtain ⟨hlt, -⟩ := List.getElem?_eq_some_iff.mp hw
  rw [setThread, List.getElem?_set]
  split_ifs <;> rfl

theorem phase_setThread {s : ThreadPool} {w : ℕ} {t : PoolThread} (hw : s.workers[w]? = some t)
    (t' : PoolThread) (v : ℕ) :
    (s.setThread w t').phase v = if w = v then some t'.phase else s.phase v := by
  rw [phase, workers_setThread hw]
  split_ifs <;> rfl

theorem phase_wake (t : PoolThread) :
    (wake t).phase = if t.phase = .asleep then .woken else t.phase := by
  unfold wake
  split_ifs with h
  · rfl
  · rfl

theorem phase_notifyAll (s : ThreadPool) (v : ℕ) :
    s.notifyAll.phase v =
      (s.phase v).map fun p => if p = .asleep then .woken else p := by
  simp only [phase, notifyAll, List.getElem?_map, Option.map_map]
  congr 1
  ext t
  simp [phase_wake]

theorem run_notifyAll (s : ThreadPool) (v f : ℕ) :
    s.notifyAll.phase v = some (.run f) ↔ s.phase v = some (.run f) := by
  rw [phase_notifyAll, Option.map_eq_some_iff]
  constructor
  · rintro ⟨p, hp, heq⟩
    split_ifs at heq
    rw [hp, heq]
  · intro h
    exact ⟨_, h, rfl⟩

theorem Goes.not_run {s : ThreadPool} {t : PoolThread} {p : ThreadPhase} (h : Goes s t p) :
    ∀ f, t.phase ≠ .run f ∧ p ≠ .run f := by
  intro f
  cases h with
  | test hphase => rcases hphase with h | h <;> simp [h]
  | flagged hphase => rcases hphase with h | h <;> simp [h]
  | _ hphase => simp [hphase]

/-- What the log of the queue says. -/
structure InOrder (s : ThreadPool) : Prop where
  order : s.taken.map Prod.fst ++ s.q = List.range s.made
  pushing_lt : ∀ f ∈ s.pushing, f < s.made
  pushing_nodup : s.pushing.Nodup

theorem InOrder.nodup {s : ThreadPool} (h : s.InOrder) :
    (s.taken.map Prod.fst ++ s.q).Nodup := by
  rw [h.order]
  exact List.nodup_range

theorem InOrder.congr {s s' : ThreadPool} (h : s.InOrder) (htaken : s'.taken = s.taken)
    (hq : s'.q = s.q) (hmade : s'.made = s.made) (hpushing : s'.pushing = s.pushing) :
    s'.InOrder := by
  refine ⟨?_, ?_, ?_⟩
  · rw [htaken, hq, hmade]
    exact h.order
  · rw [hmade, hpushing]
    exact h.pushing_lt
  · rw [hpushing]
    exact h.pushing_nodup

theorem InOrder.take {s s' : ThreadPool} {f : ℕ} {q : List ℕ} {who : Option ℕ} (h : s.InOrder)
    (hq : s.q = f :: q) (htaken : s'.taken = s.taken ++ [(f, who)]) (hq' : s'.q = q)
    (hmade : s'.made = s.made) (hpushing : s'.pushing = s.pushing) : s'.InOrder := by
  refine ⟨?_, ?_, ?_⟩
  · rw [htaken, hq', hmade, ← h.order, hq]
    simp
  · rw [hmade, hpushing]
    exact h.pushing_lt
  · rw [hpushing]
    exact h.pushing_nodup

theorem InOrder.push {s : ThreadPool} (h : s.InOrder) : s.push.InOrder := by
  refine ⟨?_, ?_, ?_⟩
  · show s.taken.map Prod.fst ++ (s.q ++ [s.made]) = List.range (s.made + 1)
    rw [← List.append_assoc, h.order, List.range_succ]
  · intro f hf
    rcases List.mem_append.mp hf with hf | hf
    · exact Nat.lt_succ_of_lt (h.pushing_lt f hf)
    · rw [List.mem_singleton.mp hf]
      exact Nat.lt_succ_self _
  · show (s.pushing ++ [s.made]).Nodup
    rw [List.nodup_append]
    refine ⟨h.pushing_nodup, List.nodup_singleton _, ?_⟩
    rintro f hf g hg rfl
    rw [List.mem_singleton] at hg
    exact absurd (h.pushing_lt f hf) (by omega)

theorem InOrder.notify {s s' : ThreadPool} {f : ℕ} (h : s.InOrder) (htaken : s'.taken = s.taken)
    (hq : s'.q = s.q) (hmade : s'.made = s.made) (hpushing : s'.pushing = s.pushing.erase f) :
    s'.InOrder := by
  refine ⟨?_, ?_, ?_⟩
  · rw [htaken, hq, hmade]
    exact h.order
  · rw [hmade, hpushing]
    exact fun g hg => h.pushing_lt g (List.mem_of_mem_erase hg)
  · rw [hpushing]
    exact h.pushing_nodup.erase f

theorem InOrder.step {s s' : ThreadPool} {e : PoolEvent} (h : s.InOrder) (hstep : Step s e s') :
    s'.InOrder := by
  cases hstep.change with
  | pushed => exact h.push
  | notified => exact h.notify rfl rfl rfl rfl
  | unheard => exact h.notify rfl rfl rfl rfl
  | took _ _ hq => exact h.take hq rfl rfl rfl rfl
  | discarded _ hq => exact h.take hq rfl rfl rfl rfl
  | _ => exact h.congr rfl rfl rfl rfl

theorem inOrder_start : InOrder {} := ⟨rfl, nofun, List.nodup_nil⟩

/-- What a thread took from the queue it runs, once. -/
structure Ran (s : ThreadPool) : Prop where
  ran : ∀ f w, (f, some w) ∈ s.taken ↔ (f, w) ∈ s.finished ∨ s.phase w = some (.run f)
  nodup : s.finished.Nodup
  returned : ∀ f w, (f, w) ∈ s.finished → s.phase w ≠ some (.run f)

theorem Ran.congr {s s' : ThreadPool} (h : s.Ran)
    (htaken : ∀ f w, (f, some w) ∈ s'.taken ↔ (f, some w) ∈ s.taken)
    (hfinished : s'.finished = s.finished)
    (hphase : ∀ f w, s'.phase w = some (.run f) ↔ s.phase w = some (.run f)) : s'.Ran := by
  refine ⟨fun f w => ?_, ?_, fun f w hf => ?_⟩
  · rw [htaken, hfinished, hphase]
    exact h.ran f w
  · rw [hfinished]
    exact h.nodup
  · rw [ne_eq, hphase]
    exact h.returned f w (hfinished ▸ hf)

theorem Ran.move {s s' : ThreadPool} (h : s.Ran) {w : ℕ} {t t' : PoolThread}
    (hw : s.workers[w]? = some t) (hs' : ∀ v, s'.phase v = (s.setThread w t').phase v)
    (htaken : s'.taken = s.taken) (hfinished : s'.finished = s.finished)
    (hnot : ∀ f, t.phase ≠ .run f ∧ t'.phase ≠ .run f) : s'.Ran := by
  refine h.congr (fun f w => by rw [htaken]) hfinished fun f v => ?_
  rw [hs', phase_setThread hw]
  split_ifs with hv
  · rw [← hv, phase_of hw]
    simp [(hnot f).1, (hnot f).2]
  · rfl

theorem Ran.take {s s' : ThreadPool} (h : s.Ran) (ho : s.InOrder) {w f : ℕ} {t t' : PoolThread}
    {q : List ℕ} (hw : s.workers[w]? = some t) (hphase : ∀ g, t.phase ≠ .run g)
    (hq : s.q = f :: q) (hrun : t'.phase = .run f)
    (hs' : ∀ v, s'.phase v = (s.setThread w t').phase v)
    (htaken : s'.taken = s.taken ++ [(f, some w)]) (hfinished : s'.finished = s.finished) :
    s'.Ran := by
  have hnew : ∀ v, (f, v) ∉ s.taken := by
    intro v hv
    have hnodup := ho.nodup
    rw [hq] at hnodup
    exact List.disjoint_of_nodup_append hnodup (List.mem_map_of_mem hv) List.mem_cons_self
  refine ⟨fun g v => ?_, hfinished ▸ h.nodup, fun g v hg => ?_⟩
  · rw [htaken, hfinished, hs', phase_setThread hw, List.mem_append, h.ran g v]
    by_cases hv : w = v
    · subst hv
      simp only [phase_of hw, if_true, hrun, Option.some.injEq, hphase g, or_false,
        List.mem_singleton, Prod.mk.injEq, and_true, ThreadPhase.run.injEq]
      exact or_congr_right eq_comm
    · simp [if_neg hv, Ne.symm hv]
  · rw [hfinished] at hg
    rw [hs', phase_setThread hw]
    split_ifs with hv
    · rw [hrun]
      rintro heq
      cases heq
      exact hnew (some v) ((h.ran _ v).mpr (.inl hg))
    · exact h.returned g v hg

theorem Ran.finish {s s' : ThreadPool} (h : s.Ran) {w f : ℕ} {t t' : PoolThread}
    (hw : s.workers[w]? = some t) (hphase : t.phase = .run f) (hnext : ∀ g, t'.phase ≠ .run g)
    (hs' : ∀ v, s'.phase v = (s.setThread w t').phase v) (htaken : s'.taken = s.taken)
    (hfinished : s'.finished = s.finished ++ [(f, w)]) : s'.Ran := by
  have hrunning : s.phase w = some (.run f) := by rw [phase_of hw, hphase]
  refine ⟨fun g v => ?_, ?_, fun g v hg => ?_⟩
  · rw [htaken, hfinished, hs', phase_setThread hw, List.mem_append, h.ran g v]
    by_cases hv : w = v
    · subst hv
      simp only [hrunning, if_true, Option.some.injEq, hnext g, or_false, List.mem_singleton,
        Prod.mk.injEq, and_true, ThreadPhase.run.injEq]
      exact or_congr_right eq_comm
    · simp [if_neg hv, Ne.symm hv]
  · rw [hfinished, List.nodup_append]
    refine ⟨h.nodup, List.nodup_singleton _, ?_⟩
    rintro x hx y hy rfl
    rw [List.mem_singleton] at hy
    subst hy
    exact h.returned f w hx hrunning
  · rw [hs', phase_setThread hw]
    split_ifs with hv
    · simpa using hnext g
    · rw [hfinished] at hg
      rcases List.mem_append.mp hg with hg | hg
      · exact h.returned g v hg
      · cases List.mem_singleton.mp hg
        exact absurd rfl hv

theorem phase_grow (s : ThreadPool) (v : ℕ) (p : ThreadPhase) (threads : List ℕ) :
    ThreadPool.phase { s with threads := threads, workers := s.workers ++ [{}] } v = some p ↔
      s.phase v = some p ∨ v = s.workers.length ∧ p = .pop := by
  simp only [phase]
  rcases Nat.lt_trichotomy v s.workers.length with hv | hv | hv
  · rw [List.getElem?_append_left hv]
    exact ⟨.inl, fun h => h.resolve_right fun h => absurd h.1 (by omega)⟩
  · subst hv
    simp [eq_comm]
  · rw [List.getElem?_eq_none (by rw [List.length_append]; exact hv),
      List.getElem?_eq_none (by omega)]
    simp only [Option.map_none, reduceCtorEq, false_or, false_iff, not_and]
    omega

theorem Ran.step {s s' : ThreadPool} {e : PoolEvent} (ho : s.InOrder) (h : s.Ran)
    (hstep : Step s e s') : s'.Ran := by
  cases hstep.change with
  | notified _ _ hw hphase =>
      exact h.move hw (fun _ => rfl) rfl rfl fun f => by simp [hphase]
  | spurious hw hphase => exact h.move hw (fun _ => rfl) rfl rfl fun f => by simp [hphase]
  | took hw hphase hq =>
      refine h.take ho hw (fun g => ?_) hq rfl (fun _ => rfl) rfl rfl
      rcases hphase with hphase | hphase <;> simp [hphase]
  | ran hw hphase =>
      refine h.finish hw hphase ?_ (fun _ => rfl) rfl rfl
      exact fun g => ThreadPhase.noConfusion
  | went hw hgoes => exact h.move hw (fun _ => rfl) rfl rfl hgoes.not_run
  | @flagged i w t c hi hw hcontrol =>
      refine h.congr (fun _ _ => Iff.rfl) rfl fun f v => ?_
      show (s.setThread _ _).phase v = _ ↔ _
      rw [phase_setThread hw]
      split_ifs with hv
      · rw [← hv, phase_of hw]
      · rfl
  | grew => exact h.congr (fun _ _ => Iff.rfl) rfl fun f v => by simp [phase_grow]
  | shrunk =>
      refine h.congr (fun _ _ => Iff.rfl) rfl fun f v => ?_
      show s.notifyAll.phase v = _ ↔ _
      simp [run_notifyAll]
  | notifiedAll =>
      refine h.congr (fun _ _ => Iff.rfl) rfl fun f v => ?_
      show s.notifyAll.phase v = _ ↔ _
      simp [run_notifyAll]
  | discarded => exact h.congr (fun f w => by simp) rfl fun _ _ => Iff.rfl
  | _ => exact h.congr (fun _ _ => Iff.rfl) rfl fun _ _ => Iff.rfl

theorem ran_start : Ran {} := ⟨by simp [phase], List.nodup_nil, nofun⟩

end ThreadPool

end BeyondProtocol
