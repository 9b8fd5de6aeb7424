import Mathlib.Data.List.Count
import Mathlib.Data.List.Perm.Basic
import BeyondProtocol.Base.Handle

/-!
# Callbacks that run while they are removed (`handle.hpp`, `counter.hpp`)

The callbacks of a `Handler` are called under a shared lock (`trigger`), in a job of the
thread pool under the unique lock (`triggerAsync`), or each in a job of its own without any
lock (`triggerParallel`). `remove` erases the callback under the unique lock and then waits
until `jobs_`, which counts the jobs that exist, is zero.

An activity is a call of one of these functions or a job; all may be under way at once.
-/

namespace BeyondProtocol

open Framework

/-- Where a call or a job is. Callbacks are named by their ids. -/
inductive HandlerCall where
  | trigger
  /-- The loop of `trigger`, with the callback that runs. -/
  | triggering (todo : List ℕ) (running : Option ℕ)
  /-- The job of `triggerAsync`. -/
  | asyncQueued
  | asyncLoop (todo : List ℕ) (running : Option ℕ)
  | triggerParallel
  | pushing (todo : List ℕ)
  /-- A job of `triggerParallel`. -/
  | parallelQueued (f : ℕ)
  | parallelRunning (f : ℕ)
  /-- The job is over, its `Counter` is to be destroyed. -/
  | ending
  | remove (id : ℕ)
  | waiting (id : ℕ)
  | removed (id : ℕ)
  | done
  deriving DecidableEq

namespace HandlerCall

/-- The shared lock is held. -/
def shared : HandlerCall → Bool
  | .triggering _ _ => true
  | _ => false

/-- The unique lock is held. -/
def unique : HandlerCall → Bool
  | .asyncLoop _ _ | .pushing _ => true
  | _ => false

def holds (p : HandlerCall) : Bool := p.shared || p.unique

/-- The job has a `Counter`. -/
def counted : HandlerCall → Bool
  | .asyncQueued | .asyncLoop _ _ | .parallelQueued _ | .parallelRunning _ | .ending => true
  | _ => false

/-- A job that has a callback without the lock. -/
def detached (id : ℕ) : HandlerCall → Bool
  | .parallelQueued f | .parallelRunning f => f == id
  | _ => false

/-- The callback that is being removed or has been. -/
def removing : HandlerCall → Option ℕ
  | .remove id | .waiting id | .removed id => some id
  | _ => none

/-- The callbacks that the activity runs or is going to run. -/
def callbacks : HandlerCall → List ℕ
  | .triggering todo running | .asyncLoop todo running => todo ++ running.toList
  | .pushing todo => todo
  | .parallelQueued f | .parallelRunning f => [f]
  | _ => []

end HandlerCall

structure HandlerCalls where
  callbacks : List ℕ := []
  id : ℕ := 0
  jobs : ℕ := 0
  calls : List HandlerCall := []
  /-- `ftl::pool.size()` -/
  poolSize : ℕ := 0
  deriving DecidableEq

inductive HandlerCallEvent where
  | on
  | trigger
  | triggerAsync
  | triggerParallel
  | remove (id : ℕ)
  /-- The next step of activity `i`; the map is walked in the order `order`, and a callback ends
  with `outcome`. -/
  | step (i : ℕ) (order : List ℕ) (outcome : Outcome)

namespace HandlerCalls

/-! ## §1  The activities -/

/-- Nobody holds the lock. -/
def free (s : HandlerCalls) : Bool := !s.calls.any HandlerCall.holds

def uniqueHeld (s : HandlerCalls) : Bool := s.calls.any HandlerCall.unique

/-- What an activity changes: itself, the map, `jobs_`, and the job it pushes. -/
structure Turn where
  next : HandlerCall
  callbacks : List ℕ
  jobs : ℕ
  pushed : List HandlerCall := []

/-- An activity that only changes itself. -/
def goTo (s : HandlerCalls) (p : HandlerCall) : Option Turn := some ⟨p, s.callbacks, s.jobs, []⟩

def turn (s : HandlerCalls) (order : List ℕ) (outcome : Outcome) : HandlerCall → Option Turn
  | .trigger =>
      if s.uniqueHeld || !order.isPerm s.callbacks then none else s.goTo (.triggering order none)
  | .triggering (f :: todo) none => s.goTo (.triggering todo (some f))
  | .triggering [] none => s.goTo .done
  | .triggering todo (some _) =>
      match outcome with
      | .returned true | .exception _ => s.goTo (.triggering todo none)
      | .returned false | .foreign => s.goTo .done
  | .asyncQueued =>
      if !s.free || !order.isPerm s.callbacks then none else s.goTo (.asyncLoop order none)
  | .asyncLoop (f :: todo) none => s.goTo (.asyncLoop todo (some f))
  | .asyncLoop [] none => s.goTo .ending
  | .asyncLoop todo (some f) =>
      match outcome with
      | .returned true | .exception _ => s.goTo (.asyncLoop todo none)
      | .returned false => some ⟨.asyncLoop todo none, s.callbacks.erase f, s.jobs, []⟩
      | .foreign => s.goTo .ending
  | .triggerParallel =>
      if !s.free || !order.isPerm s.callbacks then none else s.goTo (.pushing order)
  | .pushing (f :: todo) => some ⟨.pushing todo, s.callbacks, s.jobs + 1, [.parallelQueued f]⟩
  | .pushing [] => s.goTo .done
  | .parallelQueued f => s.goTo (.parallelRunning f)
  | .parallelRunning _ => s.goTo .ending
  | .ending => some ⟨.done, s.callbacks, s.jobs - 1, []⟩
  | .remove id =>
      if !s.free then none else some ⟨.waiting id, s.callbacks.erase id, s.jobs, []⟩
  | .waiting id =>
      -- `while (jobs_ > 0 && ftl::pool.size() > 0)`
      if 0 < s.jobs ∧ 0 < s.poolSize then none else s.goTo (.removed id)
  | .removed _ | .done => none

def start (s : HandlerCalls) (p : HandlerCall) : HandlerCalls := { s with calls := s.calls ++ [p] }

def handle (s : HandlerCalls) : HandlerCallEvent → Option HandlerCalls
  | .on =>
      if !s.free then none
      else some { s with callbacks := s.callbacks ++ [s.id], id := s.id + 1 }
  | .trigger => some (s.start .trigger)
  | .triggerAsync => some { s.start .asyncQueued with jobs := s.jobs + 1 }
  | .triggerParallel => some (s.start .triggerParallel)
  | .remove id => if id < s.id then some (s.start (.remove id)) else none
  | .step i order outcome =>
      s.calls[i]? >>= fun p => s.turn order outcome p >>= fun t =>
        some { s with
          callbacks := t.callbacks
          jobs := t.jobs
          calls := s.calls.set i t.next ++ t.pushed }

def Step (s : HandlerCalls) (e : HandlerCallEvent) (t : HandlerCalls) : Prop := s.handle e = some t

/-! ## §2  What a step can do -/

/-- An activity goes on with what it has. -/
structure Follows (p q : HandlerCall) : Prop where
  callbacks : q.callbacks.Subperm p.callbacks
  shared : q.shared = true → p.shared = true
  unique : q.unique = true → p.unique = true
  counted : q.counted = p.counted
  detached : ∀ id, q.detached id = true → p.detached id = true
  removing : q.removing = none

inductive Turns (s : HandlerCalls) (p : HandlerCall) : Turn → Prop
  /-- The lock is taken, and the walk over the map begins. -/
  | locks {q : HandlerCall} : p.holds = false → q.counted = p.counted →
      q.removing = none → (∀ id, q.detached id = false) → s.uniqueHeld = false →
      (q.unique = true → s.free = true) → q.callbacks.Perm s.callbacks →
      Turns s p ⟨q, s.callbacks, s.jobs, []⟩
  | goesOn {q : HandlerCall} : Follows p q → Turns s p ⟨q, s.callbacks, s.jobs, []⟩
  | erases {f : ℕ} {todo : List ℕ} : p = .asyncLoop todo (some f) →
      Turns s p ⟨.asyncLoop todo none, s.callbacks.erase f, s.jobs, []⟩
  | pushes {f : ℕ} {todo : List ℕ} : p = .pushing (f :: todo) →
      Turns s p ⟨.pushing todo, s.callbacks, s.jobs + 1, [.parallelQueued f]⟩
  | ends : p = .ending → Turns s p ⟨.done, s.callbacks, s.jobs - 1, []⟩
  | removes {id : ℕ} : p = .remove id → s.free = true →
      Turns s p ⟨.waiting id, s.callbacks.erase id, s.jobs, []⟩
  | returns {id : ℕ} : p = .waiting id → s.jobs = 0 ∨ s.poolSize = 0 →
      Turns s p ⟨.removed id, s.callbacks, s.jobs, []⟩

theorem uniqueHeld_of_free {s : HandlerCalls} (h : s.free = true) : s.uniqueHeld = false := by
  unfold free at h
  rw [Bool.not_eq_true', List.any_eq_false] at h
  refine List.any_eq_false.mpr fun p hp hunique => h p hp ?_
  rw [HandlerCall.holds, hunique, Bool.or_true]

theorem turns_goTo {s : HandlerCalls} {p q : HandlerCall} {t : Turn} (h : s.goTo q = some t)
    (hfollows : Follows p q) : Turns s p t := by
  cases h
  exact .goesOn hfollows

theorem follows_triggering {todo : List ℕ} {running : Option ℕ} {p : HandlerCall}
    (hcallbacks : (todo ++ running.toList).Subperm p.callbacks) (hshared : p.shared = true)
    (hcounted : p.counted = false) : Follows p (.triggering todo running) :=
  ⟨hcallbacks, fun _ => hshared, nofun, hcounted.symm, nofun, rfl⟩

theorem follows_asyncLoop {todo : List ℕ} {running : Option ℕ} {p : HandlerCall}
    (hcallbacks : (todo ++ running.toList).Subperm p.callbacks) (hunique : p.unique = true)
    (hcounted : p.counted = true) : Follows p (.asyncLoop todo running) :=
  ⟨hcallbacks, nofun, fun _ => hunique, hcounted.symm, nofun, rfl⟩

theorem follows_done {p : HandlerCall} (hcounted : p.counted = false) : Follows p .done :=
  ⟨List.nil_subperm, nofun, nofun, hcounted.symm, nofun, rfl⟩

theorem follows_ending {p : HandlerCall} (hcounted : p.counted = true) : Follows p .ending :=
  ⟨List.nil_subperm, nofun, nofun, hcounted.symm, nofun, rfl⟩

theorem subperm_picked {f : ℕ} {todo : List ℕ} :
    (todo ++ (some f).toList).Subperm (f :: todo ++ (none : Option ℕ).toList) := by
  rw [Option.toList_some, Option.toList_none, List.append_nil]
  exact (List.perm_append_singleton f todo).subperm

theorem subperm_called {f : ℕ} {todo : List ℕ} :
    (todo ++ (none : Option ℕ).toList).Subperm (todo ++ (some f).toList) := by
  rw [Option.toList_none, List.append_nil]
  exact (List.sublist_append_left _ _).subperm

theorem turns_of_turn {s : HandlerCalls} {order : List ℕ} {outcome : Outcome} {p : HandlerCall}
    {t : Turn} (h : s.turn order outcome p = some t) : Turns s p t := by
  unfold turn at h
  split at h
  case h_1 =>
    split_ifs at h with hcond
    cases h
    simp only [Bool.or_eq_true, Bool.not_eq_true', not_or, Bool.not_eq_true, Bool.not_eq_false,
      List.isPerm_iff] at hcond
    exact .locks rfl rfl rfl (fun _ => rfl) hcond.1 nofun
      (by simpa [HandlerCall.callbacks] using hcond.2)
  case h_2 f todo =>
    exact turns_goTo h (follows_triggering subperm_picked rfl rfl)
  case h_3 => exact turns_goTo h (follows_done rfl)
  case h_4 todo f =>
    have hgoes : Follows (.triggering todo (some f)) (.triggering todo none) :=
      follows_triggering subperm_called rfl rfl
    split at h
    · exact turns_goTo h hgoes
    · exact turns_goTo h hgoes
    · exact turns_goTo h (follows_done rfl)
    · exact turns_goTo h (follows_done rfl)
  case h_5 =>
    split_ifs at h with hcond
    cases h
    simp only [Bool.or_eq_true, Bool.not_eq_true', not_or, Bool.not_eq_false,
      List.isPerm_iff] at hcond
    exact .locks rfl rfl rfl (fun _ => rfl) (uniqueHeld_of_free hcond.1)
      (fun _ => hcond.1) (by simpa [HandlerCall.callbacks] using hcond.2)
  case h_6 f todo =>
    exact turns_goTo h (follows_asyncLoop subperm_picked rfl rfl)
  case h_7 => exact turns_goTo h (follows_ending rfl)
  case h_8 todo f =>
    have hgoes : Follows (.asyncLoop todo (some f)) (.asyncLoop todo none) :=
      follows_asyncLoop subperm_called rfl rfl
    split at h
    · exact turns_goTo h hgoes
    · exact turns_goTo h hgoes
    · cases h
      exact .erases rfl
    · exact turns_goTo h (follows_ending rfl)
  case h_9 =>
    split_ifs at h with hcond
    cases h
    simp only [Bool.or_eq_true, Bool.not_eq_true', not_or, Bool.not_eq_false,
      List.isPerm_iff] at hcond
    exact .locks rfl rfl rfl (fun _ => rfl) (uniqueHeld_of_free hcond.1)
      (fun _ => hcond.1) hcond.2
  case h_10 f todo =>
    cases h
    exact .pushes rfl
  case h_11 => exact turns_goTo h (follows_done rfl)
  case h_12 f =>
    exact turns_goTo h ⟨List.Subperm.refl _, nofun, nofun, rfl, fun _ h => h, rfl⟩
  case h_13 => exact turns_goTo h (follows_ending rfl)
  case h_14 =>
    cases h
    exact .ends rfl
  case h_15 id =>
    split_ifs at h with hfree
    cases h
    exact .removes rfl (by simpa using hfree)
  case h_16 id =>
    split_ifs at h with hwait
    cases h
    exact .returns rfl (by omega)
  all_goals cases h

/-- The activities behind a step: the one that moved, another one as it was, or a new one. -/
theorem getElem?_turn {calls pushed : List HandlerCall} {i j : ℕ} {q r : HandlerCall}
    (h : (calls.set i q ++ pushed)[j]? = some r) :
    j = i ∧ r = q ∨ j ≠ i ∧ calls[j]? = some r ∨ calls.length ≤ j ∧ r ∈ pushed := by
  rcases Nat.lt_or_ge j calls.length with hlt | hge
  · rw [List.getElem?_append_left (by rwa [List.length_set]), List.getElem?_set] at h
    split_ifs at h with hij
    · cases h
      exact .inl ⟨hij.symm, rfl⟩
    · exact .inr (.inl ⟨fun heq => hij heq.symm, h⟩)
  · rw [List.getElem?_append_right (by rwa [List.length_set])] at h
    exact .inr (.inr ⟨hge, List.mem_of_getElem? h⟩)

theorem getElem?_start {calls : List HandlerCall} {j : ℕ} {p r : HandlerCall}
    (h : (calls ++ [p])[j]? = some r) : calls[j]? = some r ∨ calls.length ≤ j ∧ r = p := by
  rcases Nat.lt_or_ge j calls.length with hlt | hge
  · rw [List.getElem?_append_left hlt] at h
    exact .inl h
  · rw [List.getElem?_append_right hge] at h
    exact .inr ⟨hge, List.mem_singleton.mp (List.mem_of_getElem? h)⟩

theorem not_holds_of_free {s : HandlerCalls} (h : s.free = true) {j : ℕ} {q : HandlerCall}
    (hj : s.calls[j]? = some q) : q.holds = false := by
  unfold free at h
  rw [Bool.not_eq_true', List.any_eq_false] at h
  simpa using h q (List.mem_of_getElem? hj)

theorem not_unique_of_uniqueHeld {s : HandlerCalls} (h : s.uniqueHeld = false) {j : ℕ}
    {q : HandlerCall} (hj : s.calls[j]? = some q) : q.unique = false := by
  rw [uniqueHeld, List.any_eq_false] at h
  simpa using h q (List.mem_of_getElem? hj)

/-! ## §3  The lock and the counter -/

/-- Who has the unique lock is the only one that has the lock. -/
def Excluded (s : HandlerCalls) : Prop :=
  ∀ (i j : ℕ) (p q : HandlerCall), s.calls[i]? = some p → s.calls[j]? = some q →
    p.unique = true → q.holds = true → i = j

theorem holds_of_unique {p : HandlerCall} (h : p.unique = true) : p.holds = true := by
  rw [HandlerCall.holds, h, Bool.or_true]

/-- The activity that moves has the lock only as before, or it finds nobody else there. -/
theorem Turns.lock {s : HandlerCalls} {p : HandlerCall} {t : Turn} (h : Turns s p t) :
    (t.next.unique = true → p.unique = true ∨ s.free = true) ∧
      (t.next.holds = true → p.holds = true ∨ s.uniqueHeld = false) ∧
      ∀ q ∈ t.pushed, q.holds = false := by
  cases h with
  | locks _ _ _ _ hheld hfree => exact ⟨fun hq => .inr (hfree hq), fun _ => .inr hheld, nofun⟩
  | @goesOn q hfollows =>
      refine ⟨fun hq => .inl (hfollows.unique hq), fun hq => .inl ?_, nofun⟩
      rcases Bool.or_eq_true _ _ |>.mp hq with hq | hq
      · rw [HandlerCall.holds, hfollows.shared hq, Bool.true_or]
      · exact holds_of_unique (hfollows.unique hq)
  | erases hp =>
      subst hp
      exact ⟨fun _ => .inl rfl, fun _ => .inl rfl, nofun⟩
  | pushes hp =>
      subst hp
      refine ⟨fun _ => .inl rfl, fun _ => .inl rfl, fun q hq => ?_⟩
      rw [List.mem_singleton.mp hq]
      rfl
  | ends => exact ⟨nofun, nofun, nofun⟩
  | removes => exact ⟨nofun, nofun, nofun⟩
  | returns => exact ⟨nofun, nofun, nofun⟩

theorem Excluded.turn {s s' : HandlerCalls} (h : s.Excluded) {i : ℕ} {p : HandlerCall} {t : Turn}
    (hi : s.calls[i]? = some p) (ht : Turns s p t)
    (hs' : s'.calls = s.calls.set i t.next ++ t.pushed) : s'.Excluded := by
  obtain ⟨hunique, hholds, hpushed⟩ := ht.lock
  -- against another activity that was there
  have hself : ∀ (j : ℕ) (q : HandlerCall), s.calls[j]? = some q → j ≠ i →
      (t.next.unique = true → q.holds = false) ∧ (q.unique = true → t.next.holds = false) := by
    intro j q hj hne
    constructor
    · intro hq
      rcases hunique hq with hp | hfree
      · cases hholds : q.holds with
        | false => rfl
        | true => exact absurd (h i j p q hi hj hp hholds).symm hne
      · exact not_holds_of_free hfree hj
    · intro hq
      cases hnext : t.next.holds with
      | false => rfl
      | true =>
          rcases hholds hnext with hp | hheld
          · exact absurd (h j i q p hj hi hq hp) hne
          · exact absurd ((not_unique_of_uniqueHeld hheld hj).symm.trans hq) nofun
  intro j k q r hj hk hq hr
  rw [hs'] at hj hk
  rcases getElem?_turn hj with ⟨hji, rfl⟩ | ⟨hji, hj'⟩ | ⟨-, hmem⟩
  · rcases getElem?_turn hk with ⟨hki, -⟩ | ⟨hki, hk'⟩ | ⟨-, hmem⟩
    · rw [hji, hki]
    · exact absurd (((hself k r hk' hki).1 hq).symm.trans hr) nofun
    · exact absurd ((hpushed r hmem).symm.trans hr) nofun
  · rcases getElem?_turn hk with ⟨hki, rfl⟩ | ⟨hki, hk'⟩ | ⟨-, hmem⟩
    · exact absurd (((hself j q hj' hji).2 hq).symm.trans hr) nofun
    · exact h j k q r hj' hk' hq hr
    · exact absurd ((hpushed r hmem).symm.trans hr) nofun
  · exact absurd ((hpushed q hmem).symm.trans (holds_of_unique hq)) nofun

/-- `jobs_` counts the jobs. -/
def Counted (s : HandlerCalls) : Prop := s.jobs = s.calls.countP HandlerCall.counted

theorem countP_turn {calls pushed : List HandlerCall} {i : ℕ} {p q : HandlerCall}
    (hi : calls[i]? = some p) :
    (calls.set i q ++ pushed).countP HandlerCall.counted + (if p.counted then 1 else 0) =
      calls.countP HandlerCall.counted + (if q.counted then 1 else 0) +
        pushed.countP HandlerCall.counted := by
  obtain ⟨hlt, hget⟩ := List.getElem?_eq_some_iff.mp hi
  have hpos : (if p.counted then 1 else 0) ≤ calls.countP HandlerCall.counted := by
    split_ifs with hcounted
    · exact List.countP_pos_iff.mpr ⟨p, List.mem_of_getElem? hi, hcounted⟩
    · exact Nat.zero_le _
  rw [List.countP_append, List.countP_set hlt, hget]
  omega

theorem Counted.turn {s s' : HandlerCalls} (h : s.Counted) {i : ℕ} {p : HandlerCall} {t : Turn}
    (hi : s.calls[i]? = some p) (ht : Turns s p t)
    (hs' : s'.calls = s.calls.set i t.next ++ t.pushed) (hjobs : s'.jobs = t.jobs) :
    s'.Counted := by
  have hcount := @countP_turn _ t.pushed _ _ t.next hi
  rw [Counted] at h ⊢
  rw [hs', hjobs]
  cases ht with
  | locks _ hcounted =>
      rw [hcounted] at hcount
      simp only [List.countP_nil] at hcount ⊢
      omega
  | goesOn hfollows =>
      rw [hfollows.counted] at hcount
      simp only [List.countP_nil] at hcount ⊢
      omega
  | erases hp => subst hp; simp [HandlerCall.counted] at hcount ⊢; omega
  | pushes hp => subst hp; simp [HandlerCall.counted] at hcount ⊢; omega
  | ends hp => subst hp; simp [HandlerCall.counted] at hcount ⊢; omega
  | removes hp => subst hp; simp [HandlerCall.counted] at hcount ⊢; omega
  | returns hp => subst hp; simp [HandlerCall.counted] at hcount ⊢; omega

/-! ## §4  What is removed is over -/

/-- The map, and what the activities have of it. -/
structure Listed (s : HandlerCalls) : Prop where
  nodup : s.callbacks.Nodup
  lt : ∀ f ∈ s.callbacks, f < s.id
  /-- Who has the lock walks over callbacks of the map. -/
  walks : ∀ (i : ℕ) (p : HandlerCall), s.calls[i]? = some p → p.holds = true →
    p.callbacks.Subperm s.callbacks
  known : ∀ (i id : ℕ) (p : HandlerCall), s.calls[i]? = some p → p.removing = some id → id < s.id
  gone : ∀ (i id : ℕ), s.calls[i]? = some (.waiting id) ∨ s.calls[i]? = some (.removed id) →
    id ∉ s.callbacks

/-- Nobody walks over the map while a callback is taken out of it, but who takes it out. -/
theorem Turns.callbacks {s : HandlerCalls} {p : HandlerCall} {t : Turn} (h : Turns s p t) :
    t.callbacks = s.callbacks ∨ ∃ f, t.callbacks = s.callbacks.erase f ∧
      (s.free = true ∧ p = .remove f ∧ t.next = .waiting f ∨
        ∃ todo, p = .asyncLoop todo (some f) ∧ t.next = .asyncLoop todo none) := by
  cases h with
  | erases hp => exact .inr ⟨_, rfl, .inr ⟨_, hp, rfl⟩⟩
  | removes hp hfree => exact .inr ⟨_, rfl, .inl ⟨hfree, hp, rfl⟩⟩
  | _ => exact .inl rfl

theorem Turns.removing {s : HandlerCalls} {p : HandlerCall} {t : Turn} (h : Turns s p t) :
    (∀ id, t.next.removing = some id → p.removing = some id) ∧
      (∀ q ∈ t.pushed, q.removing = none) := by
  cases h with
  | locks _ _ hremoving =>
      refine ⟨fun id hid => ?_, nofun⟩
      rw [hremoving] at hid
      cases hid
  | goesOn hfollows =>
      refine ⟨fun id hid => ?_, nofun⟩
      rw [hfollows.removing] at hid
      cases hid
  | erases => exact ⟨nofun, nofun⟩
  | pushes =>
      refine ⟨nofun, fun q hq => ?_⟩
      rw [List.mem_singleton.mp hq]
      rfl
  | ends => exact ⟨nofun, nofun⟩
  | removes hp =>
      subst hp
      exact ⟨fun _ hid => hid, nofun⟩
  | returns hp =>
      subst hp
      exact ⟨fun _ hid => hid, nofun⟩

/-- What the activity that moves has of the map is still in it. -/
theorem Turns.walks {s : HandlerCalls} {p : HandlerCall} {t : Turn} (h : Turns s p t)
    (hlisted : s.callbacks.Nodup) (hp : p.holds = true → p.callbacks.Subperm s.callbacks)
    (hnext : t.next.holds = true) : t.next.callbacks.Subperm t.callbacks := by
  cases h with
  | locks _ _ _ _ _ _ hperm => exact hperm.subperm
  | @goesOn q hfollows =>
      refine hfollows.callbacks.trans (hp ?_)
      rcases Bool.or_eq_true _ _ |>.mp hnext with hq | hq
      · rw [HandlerCall.holds, hfollows.shared hq, Bool.true_or]
      · exact holds_of_unique (hfollows.unique hq)
  | @erases f todo hp' =>
      subst hp'
      -- the callback that is erased is none of those to come
      have hsub : (todo ++ [f]).Subperm s.callbacks := hp rfl
      have hnodup : (todo ++ [f]).Nodup := by
        obtain ⟨l, hperm, hl⟩ := hsub
        exact hperm.nodup_iff.mp (hlisted.sublist hl)
      have hnot : f ∉ todo := fun hf =>
        List.disjoint_of_nodup_append hnodup hf (List.mem_singleton.mpr rfl)
      show (todo ++ []).Subperm (s.callbacks.erase f)
      rw [List.append_nil]
      refine (List.Nodup.of_append_left hnodup).subperm fun g hg => ?_
      refine (List.mem_erase_of_ne ?_).mpr (hsub.subset (List.mem_append_left _ hg))
      rintro rfl
      exact hnot hg
  | @pushes f todo hp' =>
      subst hp'
      exact (List.sublist_cons_self f todo).subperm.trans (hp rfl)
  | ends => cases hnext
  | removes => cases hnext
  | returns => cases hnext

theorem Turns.nodup {s : HandlerCalls} {p : HandlerCall} {t : Turn} (h : Turns s p t)
    (hlisted : s.callbacks.Nodup) : t.callbacks.Nodup ∧ t.callbacks ⊆ s.callbacks := by
  rcases h.callbacks with heq | ⟨f, heq, -⟩
  · rw [heq]
    exact ⟨hlisted, List.Subset.refl _⟩
  · rw [heq]
    exact ⟨hlisted.erase f, List.erase_subset⟩

theorem Listed.turn {s s' : HandlerCalls} (hlocked : s.Excluded) (h : s.Listed) {i : ℕ}
    {p : HandlerCall} {t : Turn} (hi : s.calls[i]? = some p) (ht : Turns s p t)
    (hs' : s'.calls = s.calls.set i t.next ++ t.pushed) (hcallbacks : s'.callbacks = t.callbacks)
    (hid : s'.id = s.id) : s'.Listed := by
  obtain ⟨hnodup, hsubset⟩ := ht.nodup h.nodup
  obtain ⟨hremoving, hpushed⟩ := ht.removing
  refine ⟨hcallbacks ▸ hnodup, fun f hf => ?_, fun j r hj hholds => ?_, fun j id r hj hr => ?_,
    fun j id hj => ?_⟩
  · rw [hid]
    exact h.lt f (hsubset (hcallbacks ▸ hf))
  · rw [hcallbacks]
    rw [hs'] at hj
    rcases getElem?_turn hj with ⟨-, rfl⟩ | ⟨hji, hj⟩ | ⟨-, hmem⟩
    · exact ht.walks h.nodup (h.walks i p hi) hholds
    · rcases ht.callbacks with heq | ⟨f, -, ⟨hfree, -⟩ | ⟨todo, rfl, -⟩⟩
      · rw [heq]
        exact h.walks j r hj hholds
      · exact absurd ((not_holds_of_free hfree hj).symm.trans hholds) nofun
      · exact absurd (hlocked i j _ r hi hj rfl hholds).symm hji
    · exact absurd ((ht.lock.2.2 r hmem).symm.trans hholds) nofun
  · rw [hid]
    rw [hs'] at hj
    rcases getElem?_turn hj with ⟨-, rfl⟩ | ⟨-, hj⟩ | ⟨-, hmem⟩
    · exact h.known i id p hi (hremoving id hr)
    · exact h.known j id r hj hr
    · exact absurd ((hpushed r hmem).symm.trans hr) nofun
  · rw [hcallbacks]
    rw [hs'] at hj
    have hcase : ∀ r, (r = .waiting id ∨ r = .removed id) →
        (s.calls.set i t.next ++ t.pushed)[j]? = some r → id ∉ t.callbacks := by
      intro r hr hget
      rcases getElem?_turn hget with ⟨-, rfl⟩ | ⟨-, hold⟩ | ⟨-, hmem⟩
      · cases ht with
        | locks _ _ hnone => rcases hr with rfl | rfl <;> cases hnone
        | goesOn hfollows => rcases hr with rfl | rfl <;> cases hfollows.removing
        | removes =>
            rcases hr with hr | hr
            · cases hr
              exact h.nodup.not_mem_erase
            · cases hr
        | returns hp =>
            subst hp
            rcases hr with hr | hr
            · cases hr
            · cases hr
              exact h.gone i _ (.inl hi)
        | _ => rcases hr with hr | hr <;> cases hr
      · refine fun hmem => h.gone j id ?_ (hsubset hmem)
        rcases hr with rfl | rfl
        · exact .inl hold
        · exact .inr hold
      · have hnone := hpushed r hmem
        rcases hr with rfl | rfl <;> cases hnone
    rcases hj with hj | hj
    · exact hcase _ (.inl rfl) hj
    · exact hcase _ (.inr rfl) hj

/-- No job has a callback of its own that was removed. -/
def Over (s : HandlerCalls) : Prop :=
  ∀ (i j id : ℕ) (q : HandlerCall), s.calls[i]? = some (.removed id) → s.calls[j]? = some q →
    q.detached id = false

theorem counted_of_detached {p : HandlerCall} {id : ℕ} (h : p.detached id = true) :
    p.counted = true := by
  cases p with
  | parallelQueued => rfl
  | parallelRunning => rfl
  | _ => cases h

theorem Over.turn {s s' : HandlerCalls} (hpool : 0 < s.poolSize) (hcounted : s.Counted)
    (hlisted : s.Listed) (h : s.Over) {i : ℕ} {p : HandlerCall} {t : Turn}
    (hi : s.calls[i]? = some p) (ht : Turns s p t)
    (hs' : s'.calls = s.calls.set i t.next ++ t.pushed) : s'.Over := by
  -- where the call of `remove` has returned before the step
  have hbefore : ∀ (j id : ℕ) (q : HandlerCall),
      (∃ k : ℕ, s.calls[k]? = some (.removed id)) →
      (s.calls.set i t.next ++ t.pushed)[j]? = some q → q.detached id = false := by
    rintro j id q ⟨k, hk⟩ hj
    rcases getElem?_turn hj with ⟨-, rfl⟩ | ⟨-, hj⟩ | ⟨-, hmem⟩
    · cases ht with
      | locks _ _ _ hdetached => exact hdetached id
      | @goesOn q hfollows =>
          cases hq : q.detached id with
          | false => rfl
          | true => exact absurd ((h k i id p hk hi).symm.trans (hfollows.detached id hq)) nofun
      | _ => rfl
    · exact h k j id q hk hj
    · cases ht with
      | @pushes f todo hp =>
          subst hp
          rw [List.mem_singleton.mp hmem]
          have hf : f ∈ s.callbacks :=
            (hlisted.walks i _ hi rfl).subset List.mem_cons_self
          have hne : f ≠ id := by
            rintro rfl
            exact hlisted.gone k f (.inr hk) hf
          simpa [HandlerCall.detached] using hne
      | _ => cases hmem
  intro k j id q hk hj
  rw [hs'] at hk hj
  rcases getElem?_turn hk with ⟨-, hnext⟩ | ⟨-, hk⟩ | ⟨-, hmem⟩
  · cases ht with
    | returns hp hwait =>
        -- no job exists
        subst hp
        cases hnext
        have hzero : s.jobs = 0 := hwait.resolve_right (Nat.ne_of_gt hpool)
        rw [hcounted] at hzero
        have hnone := List.countP_eq_zero.mp hzero
        rcases getElem?_turn hj with ⟨-, rfl⟩ | ⟨-, hj⟩ | ⟨-, hmem⟩
        · rfl
        · cases hq : q.detached id with
          | false => rfl
          | true => exact absurd (counted_of_detached hq) (hnone q (List.mem_of_getElem? hj))
        · cases hmem
    | locks _ _ hnone =>
        cases hnext
        cases hnone
    | goesOn hfollows =>
        cases hnext
        cases hfollows.removing
    | _ => cases hnext
  · exact hbefore j id q ⟨k, hk⟩ hj
  · exact absurd (ht.removing.2 _ hmem) nofun

structure Secure (s : HandlerCalls) : Prop where
  excluded : s.Excluded
  counted : s.Counted
  listed : s.Listed
  detached : s.Over

theorem Secure.on {s : HandlerCalls} (h : s.Secure) (hfree : s.free = true) :
    Secure { s with callbacks := s.callbacks ++ [s.id], id := s.id + 1 } := by
  refine ⟨h.excluded, h.counted, ⟨?_, fun f hf => ?_, fun j r hj hholds => ?_,
    fun j id r hj hr => ?_, fun j id hj => ?_⟩, h.detached⟩
  · show (s.callbacks ++ [s.id]).Nodup
    rw [List.nodup_append]
    refine ⟨h.listed.nodup, List.nodup_singleton _, ?_⟩
    rintro f hf g hg rfl
    rw [List.mem_singleton.mp hg] at hf
    exact Nat.lt_irrefl _ (h.listed.lt _ hf)
  · rcases List.mem_append.mp hf with hf | hf
    · exact Nat.lt_succ_of_lt (h.listed.lt f hf)
    · rw [List.mem_singleton.mp hf]
      exact Nat.lt_succ_self _
  · exact absurd ((not_holds_of_free hfree hj).symm.trans hholds) nofun
  · exact Nat.lt_succ_of_lt (h.listed.known j id r hj hr)
  · intro hmem
    rcases List.mem_append.mp hmem with hmem | hmem
    · exact h.listed.gone j id hj hmem
    · have hlt : id < s.id := by
        rcases hj with hj | hj
        · exact h.listed.known j id _ hj rfl
        · exact h.listed.known j id _ hj rfl
      exact Nat.ne_of_lt hlt (List.mem_singleton.mp hmem)

/-- A call or a job begins. -/
theorem Secure.start {s : HandlerCalls} (h : s.Secure) {p : HandlerCall} {jobs : ℕ}
    (hholds : p.holds = false) (hdetached : ∀ id, p.detached id = false)
    (hremoving : ∀ id, p.removing = some id → id < s.id ∧ p = .remove id)
    (hjobs : jobs = s.jobs + if p.counted then 1 else 0) :
    Secure { s.start p with jobs := jobs } := by
  refine ⟨fun i j q r hi hj hq hr => ?_, ?_, ⟨h.listed.nodup, h.listed.lt, fun j r hj hr => ?_,
    fun j id r hj hr => ?_, fun j id hj => ?_⟩, fun i j id q hi hj => ?_⟩
  · rcases getElem?_start hi with hi | ⟨-, rfl⟩
    · rcases getElem?_start hj with hj | ⟨-, rfl⟩
      · exact h.excluded i j q r hi hj hq hr
      · exact absurd (hholds.symm.trans hr) nofun
    · exact absurd (hholds.symm.trans (holds_of_unique hq)) nofun
  · show jobs = (s.calls ++ [p]).countP HandlerCall.counted
    rw [hjobs, List.countP_append, List.countP_singleton, h.counted]
  · rcases getElem?_start hj with hj | ⟨-, rfl⟩
    · exact h.listed.walks j r hj hr
    · exact absurd (hholds.symm.trans hr) nofun
  · rcases getElem?_start hj with hj | ⟨-, rfl⟩
    · exact h.listed.known j id r hj hr
    · exact (hremoving id hr).1
  · refine h.listed.gone j id ?_
    rcases hj with hj | hj
    · rcases getElem?_start hj with hj | ⟨-, hp⟩
      · exact .inl hj
      · subst hp
        exact absurd (hremoving id rfl).2 nofun
    · rcases getElem?_start hj with hj | ⟨-, hp⟩
      · exact .inr hj
      · subst hp
        exact absurd (hremoving id rfl).2 nofun
  · rcases getElem?_start hj with hj | ⟨-, rfl⟩
    · rcases getElem?_start hi with hi | ⟨-, hp⟩
      · exact h.detached i j id q hi hj
      · subst hp
        exact absurd (hremoving id rfl).2 nofun
    · exact hdetached id

/-- **One step** of any activity. -/
theorem Secure.step {s s' : HandlerCalls} {e : HandlerCallEvent} (hpool : 0 < s.poolSize)
    (h : s.Secure) (hstep : Step s e s') : s'.Secure ∧ s'.poolSize = s.poolSize := by
  unfold Step handle at hstep
  cases e with
  | on =>
      simp only at hstep
      split_ifs at hstep with hfree
      cases hstep
      exact ⟨h.on (by simpa using hfree), rfl⟩
  | trigger =>
      cases hstep
      exact ⟨h.start rfl (fun _ => rfl) nofun rfl, rfl⟩
  | triggerAsync =>
      cases hstep
      exact ⟨h.start rfl (fun _ => rfl) nofun rfl, rfl⟩
  | triggerParallel =>
      cases hstep
      exact ⟨h.start rfl (fun _ => rfl) nofun rfl, rfl⟩
  | remove id =>
      simp only at hstep
      split_ifs at hstep with hlt
      cases hstep
      refine ⟨h.start rfl (fun _ => rfl) (fun id' hid => ?_) rfl, rfl⟩
      cases hid
      exact ⟨hlt, rfl⟩
  | step i order outcome =>
      obtain ⟨p, hi, hrest⟩ := Option.bind_eq_some_iff.mp hstep
      obtain ⟨t, hturn, hlast⟩ := Option.bind_eq_some_iff.mp hrest
      cases hlast
      have ht := turns_of_turn hturn
      exact ⟨⟨h.excluded.turn hi ht rfl, h.counted.turn hi ht rfl rfl,
        h.listed.turn h.excluded hi ht rfl rfl rfl,
        h.detached.turn hpool h.counted h.listed hi ht rfl⟩, rfl⟩

theorem secure_start (n : ℕ) : Secure { poolSize := n } := by
  refine ⟨by simp [Excluded], rfl, ⟨List.nodup_nil, nofun, ?_, ?_, ?_⟩, by simp [Over]⟩
  · simp
  · simp
  · simp

theorem runs_secure {n : ℕ} (hpool : 0 < n) {es : List HandlerCallEvent} {s : HandlerCalls}
    (run : Runs Step { poolSize := n } es s) : s.Secure ∧ 0 < s.poolSize := by
  refine run.invariant (I := fun s => s.Secure ∧ 0 < s.poolSize) ⟨secure_start n, hpool⟩ ?_
  rintro s e t ⟨hsecure, hpos⟩ hstep
  obtain ⟨hnext, hsize⟩ := hsecure.step hpos hstep
  exact ⟨hnext, hsize ▸ hpos⟩

/-- A call that has returned stays returned. -/
theorem removed_step {s s' : HandlerCalls} {e : HandlerCallEvent} {id : ℕ} (hstep : Step s e s')
    (h : .removed id ∈ s.calls) : .removed id ∈ s'.calls := by
  have hstart : ∀ p, HandlerCall.removed id ∈ (s.start p).calls :=
    fun p => List.mem_append_left _ h
  unfold Step handle at hstep
  cases e with
  | on =>
      simp only at hstep
      split_ifs at hstep
      cases hstep
      exact h
  | trigger =>
      cases hstep
      exact hstart _
  | triggerAsync =>
      cases hstep
      exact hstart _
  | triggerParallel =>
      cases hstep
      exact hstart _
  | remove id' =>
      simp only at hstep
      split_ifs at hstep
      cases hstep
      exact hstart _
  | step i order outcome =>
      obtain ⟨p, hi, hrest⟩ := Option.bind_eq_some_iff.mp hstep
      obtain ⟨t, hturn, hlast⟩ := Option.bind_eq_some_iff.mp hrest
      cases hlast
      obtain ⟨j, hj⟩ := List.getElem?_of_mem h
      have hne : i ≠ j := by
        rintro rfl
        cases hi.symm.trans hj
        cases hturn
      refine List.mem_append_left _ (List.mem_of_getElem? (i := j) ?_)
      rw [List.getElem?_set_ne hne]
      exact hj

theorem holds_or_detached {p : HandlerCall} {id : ℕ} (h : id ∈ p.callbacks) :
    p.holds = true ∨ p.detached id = true := by
  cases p with
  | triggering => exact .inl rfl
  | asyncLoop => exact .inl rfl
  | pushing => exact .inl rfl
  | parallelQueued f =>
      rw [List.mem_singleton.mp h]
      exact .inr (beq_self_eq_true f)
  | parallelRunning f =>
      rw [List.mem_singleton.mp h]
      exact .inr (beq_self_eq_true f)
  | _ => cases h

/-- **A removed callback is over.** When `remove` has returned, its callback is not running, in no
call of `trigger` and in no job, and it is never called again. -/
theorem removed_callback_over {n : ℕ} {es post : List HandlerCallEvent} {s t : HandlerCalls}
    {id : ℕ} (hpool : 0 < n) (run : Runs Step { poolSize := n } es s)
    (hremoved : .removed id ∈ s.calls) (rest : Runs Step s post t) :
    id ∉ t.callbacks ∧ ∀ p ∈ t.calls, id ∉ p.callbacks := by
  obtain ⟨hsecure, -⟩ := runs_secure hpool (run.trans rest)
  have hstays : .removed id ∈ t.calls :=
    rest.invariant (I := fun u => .removed id ∈ u.calls) hremoved fun _ _ _ h hstep =>
      removed_step hstep h
  obtain ⟨i, hi⟩ := List.getElem?_of_mem hstays
  have hgone := hsecure.listed.gone i id (.inr hi)
  refine ⟨hgone, fun p hp hmem => ?_⟩
  obtain ⟨j, hj⟩ := List.getElem?_of_mem hp
  rcases holds_or_detached hmem with hholds | hdetached
  · exact hgone ((hsecure.listed.walks j p hj hholds).subset hmem)
  · exact absurd ((hsecure.detached i j id p hi hj).symm.trans hdetached) nofun

/-- A callback is called in a job while it is removed; `remove` returns behind the job. -/
def removedWhileRunning : List HandlerCallEvent :=
  [.on, .triggerParallel, .step 0 [0] .foreign, .step 0 [] .foreign, .step 0 [] .foreign, .remove 0,
    .step 2 [] .foreign, .step 1 [] .foreign, .step 1 [] .foreign, .step 1 [] .foreign,
    .step 2 [] .foreign]

def removedAfterJob : HandlerCalls :=
  { id := 1
    calls := [.done, .done, .removed 0]
    poolSize := 1 }

theorem removed_callback_over_running :
    removedWhileRunning.foldlM handle { poolSize := 1 } = some removedAfterJob ∧
      0 ∉ removedAfterJob.callbacks ∧ ∀ p ∈ removedAfterJob.calls, 0 ∉ p.callbacks := by
  have hrun : removedWhileRunning.foldlM handle { poolSize := 1 } = some removedAfterJob := by
    decide
  exact ⟨hrun, removed_callback_over Nat.one_pos (.of_foldlM_option hrun) (by decide) .init⟩

end HandlerCalls

end BeyondProtocol
