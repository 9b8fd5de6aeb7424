import Mathlib.Algebra.BigOperators.Group.List.Basic
import Mathlib.Algebra.GroupWithZero.Nat
import BeyondProtocol.Base.ThreadPoolWakeup

/-!
# The runs of the thread pool (`ctpl_stl.cpp`, `lib/ctpl_stl.hpp`)

The pool comes to rest whatever the order of the accesses, and then with all functions run;
`stop` returns when the threads have left, and `stop(true)` only with the queue run.
-/

namespace BeyondProtocol

open Framework

namespace ThreadPool

/-! ## §1  Every function is run -/

structure Sound (s : ThreadPool) : Prop where
  inOrder : s.InOrder
  ran : s.Ran
  exclusive : s.Exclusive
  covered : s.Covered
  attended : s.Attended
  alert : s.Alert
  consistent : s.Consistent
  distinct : s.Distinct
  unflagged : s.Unflagged
  left : s.LeftOnOrder
  kept : s.Kept
  flagsSet : s.FlagsSet

theorem sound_start : Sound {} where
  inOrder := inOrder_start
  ran := ran_start
  exclusive := by simp [Exclusive, Holder, phase]
  covered := by simp [Covered]
  attended := by simp [Attended]
  alert := fun _ _ h => absurd h.get (by simp)
  consistent := fun _ => rfl
  distinct := ⟨List.nodup_nil, nofun⟩
  unflagged := by simp [Unflagged]
  left := by simp [LeftOnOrder]
  kept := by simp [Kept]
  flagsSet := nofun

/-- **One step** of any thread. -/
theorem Sound.step {s s' : ThreadPool} {e : PoolEvent} (h : s.Sound) (hstep : Step s e s') :
    s'.Sound where
  inOrder := h.inOrder.step hstep
  ran := h.ran.step h.inOrder hstep
  exclusive := h.exclusive.step hstep
  covered := h.covered.step hstep
  attended := h.attended.step h.inOrder h.covered hstep
  alert := h.alert.step hstep
  consistent := h.consistent.step hstep
  distinct := h.distinct.step hstep
  unflagged := h.unflagged.step h.distinct h.consistent hstep
  left := h.left.step hstep
  kept := h.kept.step h.consistent hstep
  flagsSet := h.flagsSet.step h.distinct h.consistent hstep

theorem runs_sound {es : List PoolEvent} {s : ThreadPool} (run : Runs Step {} es s) : s.Sound :=
  run.invariant sound_start fun _ _ _ => Sound.step

/-- A step that happens without a call from outside. -/
def Internal (s t : ThreadPool) : Prop := ∃ e : PoolEvent, e.internal = true ∧ Step s e t

/-- Nothing happens any more by itself. -/
def Quiet (s : ThreadPool) : Prop := ∀ t, ¬ s.Internal t

/-! ### The steps come to an end -/

def weight (s : ThreadPool) : ℕ :=
  5 * s.q.length + 5 * s.pushing.length + (s.workers.map (·.phase.rank)).sum

/-- A notification gives a thread more to do, but it comes from a push or a `stop`. -/
def rank (s : ThreadPool) : Rank := .of (s.control.rank s.threads.length) s.weight 0

theorem sum_setThread {s : ThreadPool} {w : ℕ} {t : PoolThread} (hw : s.workers[w]? = some t)
    (t' : PoolThread) :
    ((s.setThread w t').workers.map (·.phase.rank)).sum + t.phase.rank =
      (s.workers.map (·.phase.rank)).sum + t'.phase.rank := by
  obtain ⟨hlt, hget⟩ := List.getElem?_eq_some_iff.mp hw
  have hsplit : s.workers = s.workers.take w ++ t :: s.workers.drop (w + 1) := by
    rw [← hget, ← List.drop_eq_getElem_cons hlt, List.take_append_drop]
  have hset : (s.setThread w t').workers = s.workers.take w ++ t' :: s.workers.drop (w + 1) :=
    List.set_eq_take_cons_drop t' hlt
  rw [hset]
  conv_rhs => rw [hsplit]
  simp only [List.map_append, List.map_cons, List.sum_append, List.sum_cons]
  omega

theorem Goes.rank_lt {s : ThreadPool} {t : PoolThread} {p : ThreadPhase} (h : Goes s t p) :
    p.rank < t.phase.rank := by
  cases h with
  | lock hphase => rw [hphase]; decide
  | pop hphase => rw [hphase]; decide
  | test hphase => rcases hphase with hphase | hphase <;> rw [hphase] <;> decide
  | readDone hphase => rw [hphase]; decide
  | readFlag hphase => rw [hphase]; decide
  | sleep hphase => rw [hphase]; decide
  | flagged hphase => rcases hphase with hphase | hphase <;> rw [hphase] <;> decide
  | done hphase => rw [hphase]; decide

theorem Proceeds.rank_lt {s : ThreadPool} {c : PoolControl} (h : Proceeds s c) :
    c.rank s.threads.length < s.control.rank s.threads.length := by
  cases h with
  | grown hcontrol =>
      simp only [hcontrol, PoolControl.rank]
      omega
  | flagged hcontrol =>
      simp only [hcontrol, PoolControl.rank]
      omega
  | cleared hcontrol =>
      simp only [hcontrol, PoolControl.rank]
      omega
  | joined hcontrol hi =>
      obtain ⟨hlt, -⟩ := List.getElem?_eq_some_iff.mp hi
      simp only [hcontrol, PoolControl.rank]
      omega
  | allJoined hcontrol =>
      simp only [hcontrol, PoolControl.rank]
      omega

theorem Internal.rank_lt {s t : ThreadPool} (h : s.Internal t) : t.rank < s.rank := by
  obtain ⟨e, hinternal, hstep⟩ := h
  cases hstep.change with
  | @notified f w u _ hf hw hphase =>
      refine Rank.lt_of_second (Nat.le_refl _) ?_
      have hsum := sum_setThread hw { u with phase := .woken }
      have hlength := List.length_erase_of_mem hf
      have hpos := List.length_pos_of_mem hf
      have hsleeps : u.phase.rank = 1 := by rw [hphase]; rfl
      have hwoken : ThreadPhase.woken.rank = 5 := rfl
      simp only [weight, setThread, hwoken] at hsum ⊢
      omega
  | unheard _ hf =>
      refine Rank.lt_of_second (Nat.le_refl _) ?_
      have hlength := List.length_erase_of_mem hf
      have hpos := List.length_pos_of_mem hf
      simp only [weight]
      omega
  | @took w f u q hw hphase hq =>
      refine Rank.lt_of_second (Nat.le_refl _) ?_
      have hsum := sum_setThread hw { u with phase := .run f }
      have hpops : 4 ≤ u.phase.rank := by
        rcases hphase with hphase | hphase <;> rw [hphase] <;> decide
      have hruns : (ThreadPhase.run f).rank = 8 := rfl
      simp only [weight, hq, List.length_cons, setThread, hruns] at hsum ⊢
      omega
  | @ran w f u hw hphase =>
      refine Rank.lt_of_second (Nat.le_refl _) ?_
      have hsum := sum_setThread hw { u with phase := .check }
      have hruns : u.phase.rank = 8 := by rw [hphase]; rfl
      have hchecks : ThreadPhase.check.rank = 7 := rfl
      simp only [weight, setThread, hchecks] at hsum ⊢
      omega
  | @went w u p hw hgoes =>
      refine Rank.lt_of_second (Nat.le_refl _) ?_
      have hsum := sum_setThread hw { u with phase := p }
      have hlt := hgoes.rank_lt
      simp only [weight, setThread] at hsum ⊢
      omega
  | proceeded hproceeds => exact Rank.lt_of_first hproceeds.rank_lt
  | grew hcontrol hlt =>
      refine Rank.lt_of_first ?_
      simp only [hcontrol, PoolControl.rank, List.length_append, List.length_singleton]
      omega
  | flagged hi _ hcontrol =>
      refine Rank.lt_of_first ?_
      obtain ⟨hlt, -⟩ := List.getElem?_eq_some_iff.mp hi
      show PoolControl.rank s.threads.length _ < _
      rcases hcontrol with ⟨hcontrol, rfl⟩ | ⟨n, hcontrol, hle, rfl⟩
      · simp only [hcontrol, PoolControl.rank]
        omega
      · simp only [hcontrol, PoolControl.rank]
        omega
  | shrunk hcontrol =>
      refine Rank.lt_of_first ?_
      simp only [hcontrol, PoolControl.rank]
      omega
  | notifiedAll hcontrol =>
      refine Rank.lt_of_first ?_
      show PoolControl.rank s.threads.length _ < _
      simp only [hcontrol, PoolControl.rank]
      omega
  | discarded _ hq =>
      refine Rank.lt_of_second (Nat.le_refl _) ?_
      simp only [weight, hq, List.length_cons]
      omega
  | stopped hcontrol => exact Rank.lt_of_first (by simp [hcontrol, PoolControl.rank])
  | pushed => cases hinternal
  | spurious => cases hinternal
  | resizing => cases hinternal
  | stopNow => cases hinternal
  | stopWait => cases hinternal
  | ignored hexternal =>
      rw [hexternal] at hinternal
      cases hinternal

/-! ### Where nothing happens any more -/

theorem quiet_thread {s : ThreadPool} (h : s.Quiet) {w : ℕ} {t : PoolThread}
    (hw : s.workers[w]? = some t) : s.body w t = none := by
  cases hbody : s.body w t with
  | none => rfl
  | some s' =>
      refine absurd ⟨.thread w, rfl, ?_⟩ (h s')
      simp [Step, handle, hw, hbody]

theorem Quiet.unlocked {s : ThreadPool} (h : s.Quiet) : s.locked = false := by
  cases hlocked : s.locked with
  | false => rfl
  | true =>
      obtain ⟨t, ht, hholds⟩ := List.any_eq_true.mp hlocked
      obtain ⟨w, hw⟩ := List.getElem?_of_mem ht
      have hbody := quiet_thread h hw
      unfold body at hbody
      cases hphase : t.phase with
      | test => rw [hphase] at hbody; cases hbody
      | readDone => rw [hphase] at hbody; cases hbody
      | readFlag => rw [hphase] at hbody; cases hbody
      | _ => rw [hphase] at hholds; cases hholds

theorem Quiet.resting {s : ThreadPool} (h : s.Quiet) {w : ℕ} {t : PoolThread}
    (hw : s.workers[w]? = some t) : t.phase = .asleep ∨ t.phase = .exited := by
  have hbody := quiet_thread h hw
  unfold body at hbody
  rw [h.unlocked] at hbody
  cases hphase : t.phase with
  | asleep => exact .inl rfl
  | exited => exact .inr rfl
  | _ => rw [hphase] at hbody; cases hbody

theorem Quiet.pushing {s : ThreadPool} (h : s.Quiet) : s.pushing = [] := by
  by_contra hne
  obtain ⟨f, hf⟩ := List.exists_mem_of_ne_nil _ hne
  cases hany : s.workers.any (·.phase == .asleep) with
  | false =>
      refine h { s with pushing := s.pushing.erase f } ⟨.notify f none, rfl, ?_⟩
      simp [Step, handle, notifyOne, h.unlocked, hf, hany]
  | true =>
      obtain ⟨t, ht, hasleep⟩ := List.any_eq_true.mp hany
      obtain ⟨w, hw⟩ := List.getElem?_of_mem ht
      have hphase : t.phase = .asleep := by simpa using hasleep
      refine h { s.setThread w (wake t) with pushing := s.pushing.erase f }
        ⟨.notify f (some w), rfl, ?_⟩
      simp [Step, handle, notifyOne, h.unlocked, hf, hw, hphase]

theorem quiet_proceed {s : ThreadPool} (h : s.Quiet) : s.proceed = none := by
  cases hproceed : s.proceed with
  | none => rfl
  | some s' => exact absurd ⟨.control, rfl, hproceed⟩ (h s')

theorem Sound.setFlag {s : ThreadPool} (h : s.Sound) {i : ℕ} (hi : i < s.threads.length) :
    ∃ s', s.setFlag i = some s' := by
  have hlt := h.distinct.lt _ (List.getElem_mem hi)
  refine ⟨s.setThread s.threads[i] { s.workers[s.threads[i]] with flag := true }, ?_⟩
  simp [ThreadPool.setFlag, hi, hlt]

/-- **No call hangs**: where nothing happens any more, `resize` and `stop` have returned. -/
theorem Sound.control {s : ThreadPool} (h : s.Sound) (hquiet : s.Quiet) : s.control = .idle := by
  have hproceed := quiet_proceed hquiet
  have hconsistent := h.consistent
  unfold Consistent at hconsistent
  unfold proceed at hproceed
  cases hcontrol : s.control with
  | idle => rfl
  | growing n =>
      rw [hcontrol] at hproceed
      simp only at hproceed
      split_ifs at hproceed
  | shrinking i n =>
      rw [hcontrol] at hproceed hconsistent
      simp only [hquiet.unlocked] at hproceed
      split_ifs at hproceed with hlt hfalse
      · obtain ⟨s', hs'⟩ := h.setFlag (Nat.lt_of_lt_of_le (by omega) hconsistent.2.2.2 :
          i - 1 < s.threads.length)
        rw [hs'] at hproceed
        cases hproceed
      · cases hfalse
  | flagging i =>
      rw [hcontrol] at hproceed
      simp only at hproceed
      split_ifs at hproceed with hlt
      obtain ⟨s', hs'⟩ := h.setFlag hlt
      rw [hs'] at hproceed
      cases hproceed
  | clearing =>
      rw [hcontrol] at hproceed
      cases hproceed
  | notifying =>
      rw [hcontrol] at hproceed
      simp only [hquiet.unlocked] at hproceed
      cases hproceed
  | joining i =>
      rw [hcontrol] at hproceed hconsistent
      simp only at hproceed
      cases hi : s.threads[i]? with
      | none =>
          rw [hi] at hproceed
          cases hproceed
      | some w =>
          obtain ⟨t, ht⟩ : ∃ t, s.workers[w]? = some t :=
            ⟨_, List.getElem?_eq_getElem (h.distinct.lt w (List.mem_of_getElem? hi))⟩
          rcases hquiet.resting ht with hasleep | hexited
          · -- the thread that is waited for sleeps, and nobody wakes it
            have htold : t.flag = true ∨ s.isDone = true := by
              rcases hconsistent with hstop | hdone
              · rcases h.flagsSet hstop i w t hi ht with hflag | ⟨j, hj, -⟩
                · exact .inl hflag
                · exact absurd (hcontrol.symm.trans hj) nofun
              · exact .inr hdone
            have halert := h.alert w t (.asleep ht hasleep htold)
            rw [hcontrol] at halert
            cases halert
          · rw [hi] at hproceed
            simp [ht, hexited] at hproceed
  | emptying =>
      rw [hcontrol] at hproceed
      cases hproceed

/-- A pool that has threads has run all that was pushed. -/
theorem Sound.all_finished {s : ThreadPool} (h : s.Sound) (hquiet : s.Quiet)
    (hthreads : s.threads ≠ []) {f : ℕ} (hf : f < s.made) : ∃ w, (f, w) ∈ s.finished := by
  have hcontrol := h.control hquiet
  have hconsistent := h.consistent
  unfold Consistent at hconsistent
  rw [hcontrol] at hconsistent
  have hstop : s.isStop = false := by
    by_contra hstop
    exact hthreads (hconsistent (.inl (by simpa using hstop)))
  have hdone : s.isDone = false := by
    by_contra hdone
    exact hthreads (hconsistent (.inr (by simpa using hdone)))
  -- the first thread sleeps
  obtain ⟨w, threads, hw⟩ := List.exists_cons_of_ne_nil hthreads
  have hfirst : s.threads[0]? = some w := by rw [hw]; rfl
  obtain ⟨t, ht⟩ : ∃ t, s.workers[w]? = some t :=
    ⟨_, List.getElem?_eq_getElem (h.distinct.lt w (List.mem_of_getElem? hfirst))⟩
  have hasleep : t.phase = .asleep := by
    refine (hquiet.resting ht).resolve_right fun hexited => ?_
    rcases h.left w t ht hexited with hflag | hflag
    · obtain ⟨i, n, hshrinking, -⟩ := h.unflagged hstop 0 w t hfirst ht hflag
      exact absurd (hcontrol.symm.trans hshrinking) nofun
    · exact absurd (hdone.symm.trans hflag) nofun
  -- so nothing is in the queue
  have hlookers : s.lookers = 0 := by
    refine List.countP_eq_zero.mpr fun u hu => ?_
    obtain ⟨v, hv⟩ := List.getElem?_of_mem hu
    rcases hquiet.resting hv with hphase | hphase <;> simp [hphase, ThreadPhase.looking]
  have hq : s.q = [] := by
    have hle := h.attended w (by rw [Asleep, phase_of ht, hasleep])
    rw [hlookers, hquiet.pushing] at hle
    exact List.eq_nil_of_length_eq_zero (Nat.le_zero.mp hle)
  -- and what was taken was taken by a thread that has finished it
  have horder := h.inOrder.order
  rw [hq, List.append_nil] at horder
  have hmem : f ∈ s.taken.map Prod.fst := horder ▸ List.mem_range.mpr hf
  obtain ⟨⟨f, who⟩, htaken, rfl⟩ := List.mem_map.mp hmem
  cases who with
  | none => exact absurd htaken (h.kept hstop hdone _)
  | some v =>
      refine ⟨v, ((h.ran.ran _ v).mp htaken).resolve_right fun hrun => ?_⟩
      obtain ⟨u, hu, hphase⟩ := Option.map_eq_some_iff.mp hrun
      rcases hquiet.resting hu with hrests | hrests <;> rw [hrests] at hphase <;> cases hphase

/-- What holds of a pool in use. -/
structure Serves (s : ThreadPool) : Prop where
  /-- Functions leave the queue in the order of the pushes, each once. -/
  inOrder : s.taken.map Prod.fst ++ s.q = List.range s.made
  /-- A function that a thread took is running or has returned, and not both. -/
  once : ∀ f w, (f, some w) ∈ s.taken ↔ (f, w) ∈ s.finished ∨ s.phase w = some (.run f)
  returned : s.finished.Nodup ∧ ∀ f w, (f, w) ∈ s.finished → s.phase w ≠ some (.run f)
  /-- The mutex is held by one thread at most. -/
  exclusive : s.Exclusive
  /-- The steps that are under way come to an end, in any order. -/
  settles : Acc (fun t s => Internal s t) s
  /-- Where they have, no call hangs, and all that was pushed to a pool with threads is done. -/
  settled : s.Quiet → s.control = .idle ∧
    (s.threads ≠ [] → ∀ f < s.made, ∃ w, (f, w) ∈ s.finished)

/-- **No function is lost**, and none waits for a thread that sleeps: whatever the order of the
accesses, each function that is pushed is run once, in the order of the pushes as far as they are
started, and the pool comes to rest only with all of them done. -/
theorem functions_run {es : List PoolEvent} {s : ThreadPool} (run : Runs Step {} es s) :
    s.Serves := by
  have h := runs_sound run
  have hwf : WellFounded fun t s : ThreadPool => Internal s t :=
    Subrelation.wf Internal.rank_lt (InvImage.wf rank wellFounded_lt)
  exact ⟨h.inOrder.order, h.ran.ran, ⟨h.ran.nodup, h.ran.returned⟩, h.exclusive, hwf.apply s,
    fun hquiet => ⟨h.control hquiet, fun hthreads f => h.all_finished hquiet hthreads⟩⟩

/-- One thread, which has found the queue empty and sleeps; a function is pushed. -/
def oneAsleep : List PoolEvent :=
  [.resize 1, .control, .control] ++ List.replicate 5 (.thread 0) ++ [.push, .notify 0 (some 0)]

/-- The thread is woken, runs the function and sleeps again. -/
def oneRun : List PoolEvent := oneAsleep ++ List.replicate 9 (.thread 0)

def oneRested : ThreadPool :=
  { threads := [0]
    workers := [⟨false, .asleep⟩]
    made := 1
    taken := [(0, some 0)]
    finished := [(0, 0)] }

theorem quiet_oneRested : oneRested.Quiet := by
  rintro t ⟨e, hinternal, hstep⟩
  cases e with
  | notify f w => cases w <;> cases hstep
  | thread w =>
      rcases w with - | w
      · cases hstep
      · cases hstep
  | control => cases hstep
  | _ => cases hinternal

theorem functions_run_one : oneRun.foldlM handle {} = some oneRested ∧ oneRested.Serves ∧
    ∃ w, (0, w) ∈ oneRested.finished := by
  have hrun : oneRun.foldlM handle {} = some oneRested := by decide
  have hserves := functions_run (.of_foldlM_option hrun)
  exact ⟨hrun, hserves, (hserves.settled quiet_oneRested).2 (by decide) 0 (by decide)⟩

/-! ## §2  What `stop` waits for -/

def Exited (s : ThreadPool) (w : ℕ) : Prop := s.phase w = some .exited

theorem exited_notifyAll (s : ThreadPool) (w : ℕ) : s.notifyAll.Exited w ↔ s.Exited w := by
  rw [Exited, Exited, phase_notifyAll, Option.map_eq_some_iff]
  constructor
  · rintro ⟨p, hp, heq⟩
    split_ifs at heq
    rw [hp, heq]
  · exact fun h => ⟨_, h, rfl⟩

theorem exited_setThread {s : ThreadPool} {w v : ℕ} {t t' : PoolThread}
    (hw : s.workers[w]? = some t) (ht : t.phase ≠ .exited) (ht' : t'.phase ≠ .exited) :
    (s.setThread w t').Exited v ↔ s.Exited v := by
  rw [Exited, Exited, phase_setThread hw]
  split_ifs with hv
  · rw [← hv, phase_of hw]
    simp [ht, ht']
  · rfl

/-- A thread leaves for good, and only when it is told. -/
theorem Change.exited {s s' : ThreadPool} {e : PoolEvent} (h : s.Change e s') (w : ℕ) :
    (s.Exited w → s'.Exited w) ∧
      (s'.Exited w → s.Exited w ∨ ∃ t, s.workers[w]? = some t ∧
        (t.flag = true ∨ t.phase = .readDone ∧ s.isDone = true) ∧ s'.q = s.q) := by
  have hsame : (s'.Exited w ↔ s.Exited w) → (s.Exited w → s'.Exited w) ∧
      (s'.Exited w → s.Exited w ∨ ∃ t, s.workers[w]? = some t ∧
        (t.flag = true ∨ t.phase = .readDone ∧ s.isDone = true) ∧ s'.q = s.q) :=
    fun heq => ⟨heq.mpr, fun hw => .inl (heq.mp hw)⟩
  cases h with
  | notified _ _ hw hphase => exact hsame (exited_setThread hw (by simp [hphase]) (by simp))
  | spurious hw hphase => exact hsame (exited_setThread hw (by simp [hphase]) (by simp))
  | took hw hphase =>
      refine hsame (exited_setThread hw ?_ (by simp))
      rcases hphase with hphase | hphase <;> simp [hphase]
  | ran hw hphase => exact hsame (exited_setThread hw (by simp [hphase]) (by simp))
  | @flagged i v t c hi hv hcontrol =>
      refine hsame ?_
      show (s.setThread v { t with flag := true }).Exited w ↔ _
      rw [Exited, Exited, phase_setThread hv]
      split_ifs with hwv
      · rw [← hwv, phase_of hv]
      · rfl
  | shrunk => exact hsame (exited_notifyAll s w)
  | notifiedAll => exact hsame (exited_notifyAll s w)
  | grew => exact hsame ((phase_grow s w _ _).trans (or_iff_left (by simp)))
  | @went v t p hv hgoes =>
      have hphase : t.phase ≠ .exited := by
        cases hgoes with
        | test hphase => rcases hphase with hphase | hphase <;> simp [hphase]
        | flagged hphase => rcases hphase with hphase | hphase <;> simp [hphase]
        | _ hphase => simp [hphase]
      refine ⟨fun hold => ?_, fun hnew => ?_⟩
      · rw [Exited, phase_setThread hv]
        split_ifs with hwv
        · rw [Exited, ← hwv, phase_of hv] at hold
          exact absurd (Option.some.inj hold) hphase
        · exact hold
      · rcases phase_of_setThread hv hnew with ⟨rfl, hp⟩ | hold
        · refine .inr ⟨t, hv, ?_, rfl⟩
          cases hgoes with
          | flagged _ hflag => exact .inl hflag
          | done hdone hall => exact .inr ⟨hdone, hall⟩
          | _ => cases hp
        · exact .inl hold
  | _ => exact hsame Iff.rfl

/-- How far the call of `stop` is that was made in `s`. -/
inductive Joins (s t : ThreadPool) : Prop
  | before : t.threads = s.threads →
      (∃ i, t.control = .flagging i) ∨ t.control = .clearing ∨ t.control = .notifying → Joins s t
  | joining {i : ℕ} : t.threads = s.threads → t.control = .joining i →
      (∀ (k w : ℕ), k < i → s.threads[k]? = some w → t.Exited w) → Joins s t
  | joined : (∀ w ∈ s.threads, t.Exited w) → Joins s t

/-- While the call has not returned there is no other. -/
theorem Joins.step {s t t' : ThreadPool} {e : PoolEvent} (h : Joins s t) (hstep : Step t e t') :
    Joins s t' := by
  have hexited := fun w => (hstep.change.exited w).1
  cases h with
  | joined hall => exact .joined fun w hw => hexited w (hall w hw)
  | before hthreads hcontrol =>
      have hnot : ∀ c, t.control = c → (∃ i, c = .flagging i) ∨ c = .clearing ∨ c = .notifying := by
        rintro c rfl
        exact hcontrol
      cases hstep.change with
      | resizing hidle => exact absurd (hnot _ hidle) (by simp)
      | stopNow hidle => exact absurd (hnot _ hidle) (by simp)
      | stopWait hidle => exact absurd (hnot _ hidle) (by simp)
      | grew hc => exact absurd (hnot _ hc) (by simp)
      | shrunk hc => exact absurd (hnot _ hc) (by simp)
      | stopped hc => exact absurd (hnot _ hc) (by simp)
      | notifiedAll => exact .joining hthreads rfl nofun
      | flagged _ _ hc =>
          rcases hc with ⟨-, rfl⟩ | ⟨n, hc, -, -⟩
          · exact .before hthreads (.inl ⟨_, rfl⟩)
          · exact absurd (hnot _ hc) (by simp)
      | proceeded hc =>
          cases hc with
          | grown hc => exact absurd (hnot _ hc) (by simp)
          | flagged => exact .before hthreads (.inr (.inl rfl))
          | cleared => exact .before hthreads (.inr (.inr rfl))
          | joined hc => exact absurd (hnot _ hc) (by simp)
          | allJoined hc => exact absurd (hnot _ hc) (by simp)
      | _ => exact .before hthreads hcontrol
  | @joining i hthreads hcontrol hall =>
      have hall' : ∀ k w, k < i → s.threads[k]? = some w → t'.Exited w :=
        fun k w hk hw => hexited w (hall k w hk hw)
      have hnot : ∀ c, t.control = c → c = .joining i := by
        rintro c rfl
        exact hcontrol
      cases hstep.change with
      | resizing hidle => exact absurd (hnot _ hidle) nofun
      | stopNow hidle => exact absurd (hnot _ hidle) nofun
      | stopWait hidle => exact absurd (hnot _ hidle) nofun
      | grew hc => exact absurd (hnot _ hc) nofun
      | shrunk hc => exact absurd (hnot _ hc) nofun
      | stopped hc => exact absurd (hnot _ hc) nofun
      | notifiedAll hc => exact absurd (hnot _ hc) nofun
      | flagged _ _ hc =>
          rcases hc with ⟨hc, -⟩ | ⟨n, hc, -, -⟩
          · exact absurd (hnot _ hc) nofun
          · exact absurd (hnot _ hc) nofun
      | proceeded hc =>
          cases hc with
          | grown hc => exact absurd (hnot _ hc) nofun
          | flagged hc => exact absurd (hnot _ hc) nofun
          | cleared hc => exact absurd (hnot _ hc) nofun
          | @joined j v u hc hj hu hphase =>
              cases hnot _ hc
              refine .joining hthreads rfl fun k w hk hw => ?_
              rcases Nat.lt_succ_iff_lt_or_eq.mp hk with hlt | rfl
              · exact hall' k w hlt hw
              · rw [← hthreads] at hw
                cases hj.symm.trans hw
                exact hexited _ (by rw [Exited, phase_of hu, hphase])
          | @allJoined j hc hle =>
              cases hnot _ hc
              refine .joined fun w hw => ?_
              obtain ⟨k, hk⟩ := List.getElem?_of_mem hw
              obtain ⟨hlt, -⟩ := List.getElem?_eq_some_iff.mp hk
              rw [hthreads] at hle
              exact hall' k w (Nat.lt_of_lt_of_le hlt hle) hk
      | _ => exact .joining hthreads hcontrol hall'

/-- What `stop(true)` keeps of the functions whose push had returned when it was called in `s`. -/
structure Drains (s t : ThreadPool) : Prop where
  made_le : s.made ≤ t.made
  pushing : ∀ f ∈ t.pushing, f < s.made → f ∈ s.pushing
  kept : ∀ f < s.made, (f, none) ∈ t.taken → f ∈ s.pushing
  /-- Once a thread has left, they are all taken. -/
  drained : ∀ w ∈ s.threads, t.Exited w → ∀ f ∈ t.q, f < s.made → f ∈ s.pushing
  waiting : (∀ w ∈ s.threads, t.Exited w) ∨ t.threads = s.threads ∧ t.isStop = false ∧
    (t.control = .notifying ∨ ∃ i, t.control = .joining i)

theorem Change.made_le {s s' : ThreadPool} {e : PoolEvent} (h : s.Change e s') :
    s.made ≤ s'.made := by
  cases h with
  | pushed => exact Nat.le_succ _
  | _ => exact Nat.le_refl _

theorem Change.pushing {s s' : ThreadPool} {e : PoolEvent} (h : s.Change e s') :
    ∀ f ∈ s'.pushing, f ∈ s.pushing ∨ f = s.made := by
  intro f hf
  cases h with
  | pushed => exact (List.mem_append.mp hf).imp id List.mem_singleton.mp
  | notified => exact .inl (List.mem_of_mem_erase hf)
  | unheard => exact .inl (List.mem_of_mem_erase hf)
  | _ => exact .inl hf

theorem Change.queue {s s' : ThreadPool} {e : PoolEvent} (h : s.Change e s') :
    ∀ f ∈ s'.q, f ∈ s.q ∨ f = s.made := by
  intro f hf
  cases h with
  | pushed => exact (List.mem_append.mp hf).imp id List.mem_singleton.mp
  | took _ _ hq =>
      rw [hq]
      exact .inl (List.mem_cons_of_mem _ hf)
  | discarded _ hq =>
      rw [hq]
      exact .inl (List.mem_cons_of_mem _ hf)
  | _ => exact .inl hf

/-- Only `stop` takes functions out of the queue without running them, and not while it waits. -/
theorem Change.discards {s s' : ThreadPool} {e : PoolEvent} (h : s.Change e s') {f : ℕ}
    (hf : (f, none) ∈ s'.taken) :
    (f, none) ∈ s.taken ∨ f ∈ s.q ∧ (s.control = .clearing ∨ s.control = .emptying) := by
  cases h with
  | took =>
      refine .inl ((List.mem_append.mp hf).resolve_right fun hf => ?_)
      cases List.mem_singleton.mp hf
  | discarded hcontrol hq =>
      refine (List.mem_append.mp hf).imp id fun hf => ?_
      cases List.mem_singleton.mp hf
      exact ⟨hq ▸ List.mem_cons_self, hcontrol⟩
  | _ => exact .inl hf

/-- `stop(true)` goes on to wait. -/
theorem Change.waiting {s s' : ThreadPool} {e : PoolEvent} (h : s.Change e s')
    (hcontrol : s.control = .notifying ∨ ∃ i, s.control = .joining i) :
    s'.isStop = s.isStop ∧ s'.threads = s.threads ∧
      (s'.control = .notifying ∨ (∃ i, s'.control = .joining i) ∨ s'.control = .emptying) := by
  have hnot : ∀ c, s.control = c → c = .notifying ∨ ∃ i, c = .joining i := by
    rintro c rfl
    exact hcontrol
  have hsame : s.control = .notifying ∨ (∃ i, s.control = .joining i) ∨ s.control = .emptying :=
    hcontrol.imp id .inl
  cases h with
  | resizing hidle => exact absurd (hnot _ hidle) (by simp)
  | stopNow hidle => exact absurd (hnot _ hidle) (by simp)
  | stopWait hidle => exact absurd (hnot _ hidle) (by simp)
  | grew hc => exact absurd (hnot _ hc) (by simp)
  | shrunk hc => exact absurd (hnot _ hc) (by simp)
  | stopped hc => exact absurd (hnot _ hc) (by simp)
  | notifiedAll => exact ⟨rfl, rfl, .inr (.inl ⟨0, rfl⟩)⟩
  | flagged _ _ hc =>
      rcases hc with ⟨hc, -⟩ | ⟨n, hc, -, -⟩
      · exact absurd (hnot _ hc) (by simp)
      · exact absurd (hnot _ hc) (by simp)
  | proceeded hc =>
      cases hc with
      | grown hc => exact absurd (hnot _ hc) (by simp)
      | flagged hc => exact absurd (hnot _ hc) (by simp)
      | cleared => exact ⟨rfl, rfl, .inl rfl⟩
      | joined => exact ⟨rfl, rfl, .inr (.inl ⟨_, rfl⟩)⟩
      | allJoined => exact ⟨rfl, rfl, .inr (.inr rfl)⟩
  | _ => exact ⟨rfl, rfl, hsame⟩

theorem Drains.step {s t t' : ThreadPool} {e : PoolEvent} (hsound : t.Sound)
    (hthreads : s.threads ≠ []) (hjoins : Joins s t') (h : Drains s t) (hstep : Step t e t') :
    Drains s t' := by
  have hchange := hstep.change
  refine ⟨Nat.le_trans h.made_le hchange.made_le, fun f hf hlt => ?_, fun f hlt hf => ?_,
    fun w hw hexited f hf hlt => ?_, ?_⟩
  · rcases hchange.pushing f hf with hold | rfl
    · exact h.pushing f hold hlt
    · exact absurd h.made_le (Nat.not_le_of_lt hlt)
  · rcases hchange.discards hf with hold | ⟨hq, hcontrol⟩
    · exact h.kept f hlt hold
    · rcases h.waiting with hall | ⟨-, -, hwaiting⟩
      · obtain ⟨w, hw⟩ := List.exists_mem_of_ne_nil _ hthreads
        exact h.drained w hw (hall w hw) f hq hlt
      · rcases hwaiting with hc | ⟨i, hc⟩ <;> rw [hc] at hcontrol <;> simp at hcontrol
  · have hq : f ∈ t.q := by
      rcases hchange.queue f hf with hold | rfl
      · exact hold
      · exact absurd h.made_le (Nat.not_le_of_lt hlt)
    rcases (hchange.exited w).2 hexited with hold | ⟨u, hu, htold, -⟩
    · exact h.drained w hw hold f hq hlt
    · rcases h.waiting with hall | ⟨hvector, hstop, hwaiting⟩
      · exact h.drained w hw (hall w hw) f hq hlt
      · rcases htold with hflag | ⟨hphase, -⟩
        · -- no thread of the pool has its flag set
          obtain ⟨k, hk⟩ := List.getElem?_of_mem hw
          rw [← hvector] at hk
          obtain ⟨i, n, hc, -⟩ := hsound.unflagged hstop k w u hk hu hflag
          rcases hwaiting with hw' | ⟨j, hw'⟩ <;> rw [hc] at hw' <;> cases hw'
        · have hfound : t.FoundEmpty w := .inl (by rw [phase_of hu, hphase])
          exact h.pushing f (hsound.covered w hfound f hq) hlt
  · rcases h.waiting with hall | ⟨hvector, hstop, hwaiting⟩
    · exact .inl fun w hw => (hchange.exited w).1 (hall w hw)
    · obtain ⟨hstop', hvector', hcontrol⟩ := hchange.waiting hwaiting
      rcases hcontrol with hc | hc | hc
      · exact .inr ⟨hvector'.trans hvector, hstop'.trans hstop, .inl hc⟩
      · exact .inr ⟨hvector'.trans hvector, hstop'.trans hstop, .inr hc⟩
      · refine .inl ?_
        cases hjoins with
        | before _ hbefore => rw [hc] at hbefore; simp at hbefore
        | joining _ hjoining => rw [hc] at hjoining; cases hjoining
        | joined hall => exact hall

/-- The call of `stop` on a running pool. -/
theorem stop_call {s s' : ThreadPool} {isWait : Bool} (hstop : s.isStop = false)
    (hdone : s.isDone = false) (call : Step s (.stop isWait) s') :
    s.control = .idle ∧ s' = if isWait then { s with isDone := true, control := .notifying }
      else { s with isStop := true, control := .flagging 0 } := by
  unfold Step handle at call
  simp only at call
  split_ifs at call with hidle
  cases call
  refine ⟨hidle, ?_⟩
  cases isWait <;> simp [stop, hstop, hdone]

theorem drains_start {s : ThreadPool} (h : s.Sound) (hidle : s.control = .idle)
    (hstop : s.isStop = false) (hdone : s.isDone = false) :
    Drains s { s with isDone := true, control := .notifying } := by
  refine ⟨Nat.le_refl _, fun f hf _ => hf, fun f _ hf => absurd hf (h.kept hstop hdone f), ?_,
    .inr ⟨rfl, hstop, .inl rfl⟩⟩
  intro w hw hexited
  -- no thread of the pool has left before the call
  obtain ⟨t, ht, hphase⟩ := Option.map_eq_some_iff.mp hexited
  rcases h.left w t ht hphase with hflag | hflag
  · obtain ⟨k, hk⟩ := List.getElem?_of_mem hw
    obtain ⟨i, n, hc, -⟩ := h.unflagged hstop k w t hk ht hflag
    exact absurd (hidle.symm.trans hc) nofun
  · exact absurd (hdone.symm.trans hflag) nofun

theorem Drains.finished {s t : ThreadPool} (h : Drains s t) (hsound : t.Sound)
    (hthreads : s.threads ≠ []) (hexited : ∀ w ∈ s.threads, t.Exited w) {f : ℕ} (hf : f < s.made)
    (hreturned : f ∉ s.pushing) :
    ∃ w, (f, w) ∈ t.finished ∨ w ∉ s.threads ∧ t.phase w = some (.run f) := by
  obtain ⟨v, hv⟩ := List.exists_mem_of_ne_nil _ hthreads
  have hmem : f ∈ t.taken.map Prod.fst ++ t.q := by
    rw [hsound.inOrder.order]
    exact List.mem_range.mpr (Nat.lt_of_lt_of_le hf h.made_le)
  rcases List.mem_append.mp hmem with hgone | hq
  · obtain ⟨⟨g, who⟩, htaken, rfl⟩ := List.mem_map.mp hgone
    cases who with
    | none => exact absurd (h.kept g hf htaken) hreturned
    | some w =>
        rcases (hsound.ran.ran g w).mp htaken with hfinished | hrunning
        · exact ⟨w, .inl hfinished⟩
        · refine ⟨w, .inr ⟨fun hw => ?_, hrunning⟩⟩
          exact absurd ((hexited w hw).symm.trans hrunning) (by simp)
  · exact absurd (h.drained v hv (hexited v hv) f hq hf) hreturned

/-- **`stop` returns when its threads are gone**, and `stop(true)` not before they have run all
that was pushed before it: a function whose push had returned has returned as well, or it is run
by a thread that an earlier `resize` has detached. -/
theorem stop_waits {es post : List PoolEvent} {s s' t : ThreadPool} {isWait : Bool}
    (run : Runs Step {} es s) (hrunning : s.isStop = false ∧ s.isDone = false)
    (call : Step s (.stop isWait) s') (rest : Runs Step s' post t)
    (returned : t.control = .emptying ∨ t.control = .idle) :
    (∀ w ∈ s.threads, t.Exited w) ∧
      (isWait = true → s.threads ≠ [] → ∀ f < s.made, f ∉ s.pushing →
        ∃ w, (f, w) ∈ t.finished ∨ w ∉ s.threads ∧ t.phase w = some (.run f)) := by
  obtain ⟨hstop, hdone⟩ := hrunning
  obtain ⟨hidle, rfl⟩ := stop_call hstop hdone call
  have hs := runs_sound run
  have hbegun := hs.step call
  have hjoins : Joins s t := by
    refine rest.invariant (I := Joins s) ?_ fun _ _ _ => Joins.step
    cases isWait with
    | false => exact .before rfl (.inl ⟨0, rfl⟩)
    | true => exact .before rfl (.inr (.inr rfl))
  have hexited : ∀ w ∈ s.threads, t.Exited w := by
    cases hjoins with
    | before _ hbefore => rcases returned with hc | hc <;> rw [hc] at hbefore <;> simp at hbefore
    | joining _ hjoining => rcases returned with hc | hc <;> rw [hc] at hjoining <;> cases hjoining
    | joined hall => exact hall
  refine ⟨hexited, ?_⟩
  rintro rfl hthreads f hf hreturned
  -- the waiting `stop`, all along
  have hall : t.Sound ∧ Joins s t ∧ Drains s t := by
    refine rest.invariant (I := fun u => u.Sound ∧ Joins s u ∧ Drains s u) ?_ ?_
    · exact ⟨hbegun, .before rfl (.inr (.inr rfl)), drains_start hs hidle hstop hdone⟩
    · rintro u e v ⟨hsound, hjoins, hdrains⟩ hstep
      have hnext := hjoins.step hstep
      exact ⟨hsound.step hstep, hnext, hdrains.step hsound hthreads hnext hstep⟩
  exact hall.2.2.finished hall.1 hthreads hexited hf hreturned

/-- The function is still in the queue when `stop` is called. -/
def oneWoken : ThreadPool :=
  { threads := [0]
    workers := [⟨false, .woken⟩]
    q := [0]
    made := 1 }

def oneStopped : ThreadPool :=
  { threads := [0]
    workers := [⟨false, .exited⟩]
    isDone := true
    control := .emptying
    made := 1
    taken := [(0, some 0)]
    finished := [(0, 0)] }

theorem stop_waits_one : oneAsleep.foldlM handle {} = some oneWoken ∧
    (∀ w ∈ oneWoken.threads, oneStopped.Exited w) ∧
      ∃ w, (0, w) ∈ oneStopped.finished ∨
        w ∉ oneWoken.threads ∧ oneStopped.phase w = some (.run 0) := by
  have hrun : oneAsleep.foldlM handle {} = some oneWoken := by decide
  have hcall : Step oneWoken (.stop true) (oneWoken.stop true) := rfl
  have hrest : (.control :: (List.replicate 8 (.thread 0) ++ [.control, .control])).foldlM handle
      (oneWoken.stop true) = some oneStopped := by decide
  have hwaits := stop_waits (.of_foldlM_option hrun) ⟨rfl, rfl⟩ hcall
    (.of_foldlM_option hrest) (.inl rfl)
  exact ⟨hrun, hwaits.1, hwaits.2 rfl (by decide) 0 (by decide) (by decide)⟩

end ThreadPool

end BeyondProtocol
