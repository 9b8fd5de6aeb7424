import Mathlib.Data.List.Perm.Subperm
import BeyondProtocol.Base.ThreadPool

/-!
# Who is woken (`ctpl_stl.cpp`, `lib/ctpl_stl.hpp`)

A thread that finds the queue empty holds the mutex until it sleeps. What is pushed in the
meantime stays with a push that waits for the mutex, so for each function in the queue there
is a notification to come or a thread on its way to the queue. In the same way a thread that
reads `isDone` or its flag too early still sleeps before `notify_all`.
-/

namespace BeyondProtocol

open Framework

namespace ThreadPool

/-! ## §1  No push goes unheard -/

def Holder (s : ThreadPool) (v : ℕ) : Prop := ∃ p, s.phase v = some p ∧ p.holds = true

/-- The queue was found empty under the mutex, which is still held. -/
def FoundEmpty (s : ThreadPool) (v : ℕ) : Prop :=
  s.phase v = some .readDone ∨ s.phase v = some .readFlag

def Asleep (s : ThreadPool) (v : ℕ) : Prop := s.phase v = some .asleep

theorem FoundEmpty.holder {s : ThreadPool} {v : ℕ} (h : s.FoundEmpty v) : s.Holder v := by
  rcases h with h | h
  · exact ⟨_, h, rfl⟩
  · exact ⟨_, h, rfl⟩

theorem not_holder {s : ThreadPool} (hlocked : s.locked = false) (v : ℕ) : ¬ s.Holder v := by
  rintro ⟨p, hp, hholds⟩
  obtain ⟨t, ht, rfl⟩ := Option.map_eq_some_iff.mp hp
  have hany : s.workers.any (·.phase.holds) = true :=
    List.any_eq_true.mpr ⟨t, List.mem_of_getElem? ht, hholds⟩
  rw [locked, hany] at hlocked
  cases hlocked

theorem Asleep.of_notifyAll {s : ThreadPool} {v : ℕ} : ¬ s.notifyAll.Asleep v := by
  intro h
  rw [Asleep, phase_notifyAll, Option.map_eq_some_iff] at h
  obtain ⟨p, -, heq⟩ := h
  split_ifs at heq
  contradiction

theorem Holder.of_notifyAll {s : ThreadPool} {v : ℕ} (h : s.notifyAll.Holder v) : s.Holder v := by
  obtain ⟨p, hp, hholds⟩ := h
  rw [phase_notifyAll, Option.map_eq_some_iff] at hp
  obtain ⟨p', hp', rfl⟩ := hp
  split_ifs at hholds with hasleep
  · cases hholds
  · exact ⟨p', hp', hholds⟩

/-- A phase that a step can lead to was there before, or the thread made it. -/
theorem phase_of_setThread {s : ThreadPool} {w v : ℕ} {t t' : PoolThread} {p : ThreadPhase}
    (hw : s.workers[w]? = some t) (h : (s.setThread w t').phase v = some p) :
    v = w ∧ p = t'.phase ∨ s.phase v = some p := by
  rw [phase_setThread hw] at h
  split_ifs at h with hv
  · cases h
    exact .inl ⟨hv.symm, rfl⟩
  · exact .inr h

/-- A thread that gets the mutex finds it free; one that has it goes on. -/
theorem Goes.holds {s : ThreadPool} {t : PoolThread} {p : ThreadPhase} (h : Goes s t p)
    (hholds : p.holds = true) : t.phase.holds = true ∨ s.locked = false := by
  cases h with
  | test _ hlocked => exact .inr hlocked
  | readDone hphase => exact .inl (by rw [hphase]; rfl)
  | readFlag hphase => exact .inl (by rw [hphase]; rfl)
  | _ => cases hholds

/-- At most one thread holds the mutex. -/
def Exclusive (s : ThreadPool) : Prop := ∀ v w, s.Holder v → s.Holder w → v = w

theorem Exclusive.mono {s s' : ThreadPool} (h : s.Exclusive)
    (hholder : ∀ v, s'.Holder v → s.Holder v) : s'.Exclusive :=
  fun v w hv hw => h v w (hholder v hv) (hholder w hw)

theorem Exclusive.set {s : ThreadPool} (h : s.Exclusive) {w : ℕ} {t t' : PoolThread}
    (hw : s.workers[w]? = some t)
    (hholds : t'.phase.holds = true → t.phase.holds = true ∨ s.locked = false) :
    (s.setThread w t').Exclusive := by
  have hsplit : ∀ v, (s.setThread w t').Holder v → v = w ∧ t'.phase.holds = true ∨
      s.Holder v := by
    rintro v ⟨p, hp, hheld⟩
    rcases phase_of_setThread hw hp with ⟨rfl, rfl⟩ | hp
    · exact .inl ⟨rfl, hheld⟩
    · exact .inr ⟨p, hp, hheld⟩
  have hself : t'.phase.holds = true → ∀ v, s.Holder v → v = w := by
    intro hheld v hv
    rcases hholds hheld with ht | hlocked
    · exact h v w hv ⟨_, phase_of hw, ht⟩
    · exact absurd hv (not_holder hlocked v)
  intro v u hv hu
  rcases hsplit v hv with ⟨hvw, hheld⟩ | hv
  · rcases hsplit u hu with ⟨huw, -⟩ | hu
    · rw [hvw, huw]
    · rw [hvw, hself hheld u hu]
  · rcases hsplit u hu with ⟨huw, hheld⟩ | hu
    · rw [huw, hself hheld v hv]
    · exact h v u hv hu

theorem Exclusive.step {s s' : ThreadPool} {e : PoolEvent} (h : s.Exclusive)
    (hstep : Step s e s') : s'.Exclusive := by
  cases hstep.change with
  | notified _ _ hw => exact (h.set hw (by simp [ThreadPhase.holds])).mono fun _ => id
  | spurious hw => exact h.set hw (by simp [ThreadPhase.holds])
  | took hw => exact (h.set hw (by simp [ThreadPhase.holds])).mono fun _ => id
  | ran hw => exact (h.set hw (by simp [ThreadPhase.holds])).mono fun _ => id
  | went hw hgoes => exact h.set hw hgoes.holds
  | @flagged i w t c _ hw _ =>
      have hset : (s.setThread w { t with flag := true }).Exclusive := h.set hw .inl
      exact hset.mono fun _ => id
  | grew =>
      refine h.mono ?_
      rintro v ⟨p, hp, hholds⟩
      rcases (phase_grow s v p _).mp hp with hp | ⟨-, rfl⟩
      · exact ⟨p, hp, hholds⟩
      · cases hholds
  | shrunk => exact h.mono fun _ => Holder.of_notifyAll
  | notifiedAll => exact h.mono fun _ => Holder.of_notifyAll
  | _ => exact h.mono fun _ => id

/-- What is in the queue while a thread is about to sleep was pushed since it looked, and the
push waits for the mutex. -/
def Covered (s : ThreadPool) : Prop := ∀ v, s.FoundEmpty v → ∀ f ∈ s.q, f ∈ s.pushing

theorem Covered.mono {s s' : ThreadPool} (h : s.Covered)
    (hfound : ∀ v, s'.FoundEmpty v → s.FoundEmpty v) (hq : ∀ f ∈ s'.q, f ∈ s.q)
    (hpushing : s'.pushing = s.pushing) : s'.Covered := by
  intro v hv f hf
  rw [hpushing]
  exact h v (hfound v hv) f (hq f hf)

theorem covered_of_unlocked {s s' : ThreadPool} (hlocked : s.locked = false)
    (hfound : ∀ v, s'.FoundEmpty v → s.FoundEmpty v) : s'.Covered :=
  fun v hv => absurd (hfound v hv).holder (not_holder hlocked v)

theorem foundEmpty_of_setThread {s : ThreadPool} {w v : ℕ} {t t' : PoolThread}
    (hw : s.workers[w]? = some t) (h : (s.setThread w t').FoundEmpty v) :
    v = w ∧ (t'.phase = .readDone ∨ t'.phase = .readFlag) ∨ s.FoundEmpty v := by
  rcases h with h | h
  · rcases phase_of_setThread hw h with ⟨hv, hp⟩ | hp
    · exact .inl ⟨hv, .inl hp.symm⟩
    · exact .inr (.inl hp)
  · rcases phase_of_setThread hw h with ⟨hv, hp⟩ | hp
    · exact .inl ⟨hv, .inr hp.symm⟩
    · exact .inr (.inr hp)

/-- No thread comes to be about to sleep, by this. -/
theorem foundEmpty_mono {s : ThreadPool} {w v : ℕ} {t t' : PoolThread}
    (hw : s.workers[w]? = some t)
    (hnot : ¬ (t'.phase = .readDone ∨ t'.phase = .readFlag) ∨ t'.phase = t.phase)
    (h : (s.setThread w t').FoundEmpty v) : s.FoundEmpty v := by
  rcases foundEmpty_of_setThread hw h with ⟨rfl, hv⟩ | hv
  · rcases hnot with hnot | hsame
    · exact absurd hv hnot
    · rw [hsame] at hv
      rw [FoundEmpty, phase_of hw]
      exact hv.imp (congrArg some) (congrArg some)
  · exact hv

theorem FoundEmpty.of_notifyAll {s : ThreadPool} {v : ℕ} (h : s.notifyAll.FoundEmpty v) :
    s.FoundEmpty v := by
  rw [FoundEmpty, phase_notifyAll, Option.map_eq_some_iff, Option.map_eq_some_iff] at h
  rcases h with ⟨p, hp, heq⟩ | ⟨p, hp, heq⟩
  · split_ifs at heq
    exact .inl (heq ▸ hp)
  · split_ifs at heq
    exact .inr (heq ▸ hp)

theorem Covered.went {s : ThreadPool} (h : s.Covered) {w : ℕ} {t : PoolThread} {p : ThreadPhase}
    (hw : s.workers[w]? = some t) (hgoes : Goes s t p) :
    (s.setThread w { t with phase := p }).Covered := by
  cases hgoes with
  | readDone _ hq =>
      intro v hv f hf
      have hnil : f ∈ s.q := hf
      rw [hq] at hnil
      cases hnil
  | readFlag hphase =>
      have hfound : s.FoundEmpty w := .inl (by rw [phase_of hw, hphase])
      exact fun v _ => h w hfound
  | _ => exact h.mono (fun v => foundEmpty_mono hw (.inl (by simp))) (fun _ => id) rfl

theorem Covered.step {s s' : ThreadPool} {e : PoolEvent} (h : s.Covered)
    (hstep : Step s e s') : s'.Covered := by
  cases hstep.change with
  | pushed =>
      intro v hv f hf
      rcases List.mem_append.mp hf with hf | hf
      · exact List.mem_append_left _ (h v hv f hf)
      · exact List.mem_append_right _ hf
  | notified hlocked _ hw =>
      exact covered_of_unlocked hlocked fun v => foundEmpty_mono hw (.inl (by simp))
  | unheard hlocked => exact covered_of_unlocked hlocked fun _ => id
  | spurious hw => exact h.mono (fun v => foundEmpty_mono hw (.inl (by simp))) (fun _ => id) rfl
  | took hw _ hq =>
      refine h.mono (fun v => foundEmpty_mono hw (.inl (by simp))) (fun f hf => ?_) rfl
      rw [hq]
      exact List.mem_cons_of_mem _ hf
  | ran hw => exact h.mono (fun v => foundEmpty_mono hw (.inl (by simp))) (fun _ => id) rfl
  | went hw hgoes => exact h.went hw hgoes
  | flagged _ hw => exact h.mono (fun v => foundEmpty_mono hw (.inr rfl)) (fun _ => id) rfl
  | grew =>
      refine h.mono (fun v hv => ?_) (fun _ => id) rfl
      rcases hv with hv | hv
      · exact .inl (((phase_grow s v _ _).mp hv).resolve_right nofun)
      · exact .inr (((phase_grow s v _ _).mp hv).resolve_right nofun)
  | shrunk => exact h.mono (fun _ => FoundEmpty.of_notifyAll) (fun _ => id) rfl
  | notifiedAll => exact h.mono (fun _ => FoundEmpty.of_notifyAll) (fun _ => id) rfl
  | discarded _ hq =>
      refine h.mono (fun _ => id) (fun f hf => ?_) rfl
      rw [hq]
      exact List.mem_cons_of_mem _ hf
  | _ => exact h.mono (fun _ => id) (fun _ => id) rfl

/-- Threads that were woken, or came by themselves, and look into the queue under the mutex. -/
def lookers (s : ThreadPool) : ℕ := s.workers.countP (·.phase.looking)

theorem lookers_setThread {s : ThreadPool} {w : ℕ} {t : PoolThread} (hw : s.workers[w]? = some t)
    (t' : PoolThread) :
    (s.setThread w t').lookers + (if t.phase.looking then 1 else 0) =
      s.lookers + (if t'.phase.looking then 1 else 0) := by
  obtain ⟨hlt, hget⟩ := List.getElem?_eq_some_iff.mp hw
  have hpos : (if t.phase.looking then 1 else 0) ≤ s.workers.countP (·.phase.looking) := by
    split_ifs with hlooking
    · exact List.countP_pos_iff.mpr ⟨t, List.mem_of_getElem? hw, hlooking⟩
    · exact Nat.zero_le _
  show (s.workers.set w t').countP _ + _ = s.workers.countP _ + _
  rw [List.countP_set hlt, hget]
  omega

theorem lookers_le {s : ThreadPool} {w : ℕ} {t t' : PoolThread} (hw : s.workers[w]? = some t)
    (h : t'.phase.looking = true ∨ t.phase.looking = false) :
    s.lookers ≤ (s.setThread w t').lookers := by
  have hcount := lookers_setThread hw t'
  rcases h with h | h
  · rw [if_pos h] at hcount
    split_ifs at hcount <;> omega
  · simp only [h, Bool.false_eq_true, if_false] at hcount
    omega

/-- Only a thread that holds or wants the mutex is going to look. -/
theorem looking_eq_false {t : PoolThread} (htest : t.phase ≠ .test) (hwoken : t.phase ≠ .woken) :
    t.phase.looking = false := by
  cases h : t.phase <;> simp_all [ThreadPhase.looking]

/-- While a thread sleeps, there is a notification under way or a thread about to look for each
function in the queue. -/
def Attended (s : ThreadPool) : Prop :=
  ∀ v, s.Asleep v → s.q.length ≤ s.pushing.length + s.lookers

theorem Attended.mono {s s' : ThreadPool} (h : s.Attended) (hasleep : ∀ v, s'.Asleep v → s.Asleep v)
    (hq : s'.q.length ≤ s.q.length) (hpushing : s'.pushing = s.pushing)
    (hlookers : s.lookers ≤ s'.lookers) : s'.Attended := by
  intro v hv
  have hle := h v (hasleep v hv)
  rw [hpushing]
  omega

theorem asleep_mono {s : ThreadPool} {w v : ℕ} {t t' : PoolThread} (hw : s.workers[w]? = some t)
    (hnot : t'.phase ≠ .asleep ∨ t'.phase = t.phase) (h : (s.setThread w t').Asleep v) :
    s.Asleep v := by
  rcases phase_of_setThread hw h with ⟨rfl, hv⟩ | hv
  · rcases hnot with hnot | hsame
    · exact absurd hv.symm hnot
    · rw [Asleep, phase_of hw, hv, hsame]
  · exact hv

theorem Covered.length_le {s : ThreadPool} (h : s.Covered) (ho : s.InOrder) {v : ℕ}
    (hv : s.FoundEmpty v) : s.q.length ≤ s.pushing.length := by
  have hnodup : s.q.Nodup := List.Nodup.of_append_right ho.nodup
  exact (hnodup.subperm (h v hv)).length_le

theorem Attended.went {s : ThreadPool} (h : s.Attended) (ho : s.InOrder) (hc : s.Covered) {w : ℕ}
    {t : PoolThread} {p : ThreadPhase} (hw : s.workers[w]? = some t) (hgoes : Goes s t p) :
    (s.setThread w { t with phase := p }).Attended := by
  have hother : (t.phase ≠ .test ∧ t.phase ≠ .woken) → p ≠ .asleep →
      (s.setThread w { t with phase := p }).Attended := fun hphase hp =>
    h.mono (fun v => asleep_mono hw (.inl hp)) (Nat.le_refl _) rfl
      (lookers_le hw (.inr (looking_eq_false hphase.1 hphase.2)))
  cases hgoes with
  | readDone _ hq =>
      intro v _
      show s.q.length ≤ _
      rw [hq]
      exact Nat.zero_le _
  | sleep hphase =>
      have hfound : s.FoundEmpty w := .inr (by rw [phase_of hw, hphase])
      intro v _
      exact Nat.le_trans (hc.length_le ho hfound) (Nat.le_add_right _ _)
  | test hphase =>
      exact h.mono (fun v => asleep_mono hw (.inl (by simp))) (Nat.le_refl _) rfl
        (lookers_le hw (.inl rfl))
  | lock hphase => exact hother (by simp [hphase]) nofun
  | pop hphase => exact hother (by simp [hphase]) nofun
  | readFlag hphase => exact hother (by simp [hphase]) nofun
  | flagged hphase => exact hother (by rcases hphase with h | h <;> simp [h]) nofun
  | done hphase => exact hother (by simp [hphase]) nofun

theorem Attended.step {s s' : ThreadPool} {e : PoolEvent} (ho : s.InOrder) (hc : s.Covered)
    (h : s.Attended) (hstep : Step s e s') : s'.Attended := by
  cases hstep.change with
  | pushed =>
      intro v hv
      have hle := h v hv
      show (s.q ++ [s.made]).length ≤ (s.pushing ++ [s.made]).length + s.lookers
      simp only [List.length_append, List.length_singleton]
      omega
  | @notified f w t _ hf hw hphase =>
      -- the sleeper that was there is the one that looks now
      intro v _
      have hle := h w (by rw [Asleep, phase_of hw, hphase])
      have hcount := lookers_setThread hw { t with phase := .woken }
      have hlength := List.length_erase_of_mem hf
      have hpos := List.length_pos_of_mem hf
      show s.q.length ≤
        (s.pushing.erase f).length + (s.setThread w { t with phase := .woken }).lookers
      simp [hphase, ThreadPhase.looking] at hcount
      omega
  | unheard _ _ hasleep =>
      intro v hv
      obtain ⟨t, ht, hphase⟩ := Option.map_eq_some_iff.mp hv
      exact absurd hphase (hasleep t (List.mem_of_getElem? ht))
  | @took w f t q hw hphase hq =>
      have hcount := lookers_setThread hw { t with phase := .run f }
      intro v hv
      have hle := h v (asleep_mono hw (.inl (by simp)) hv)
      rw [hq, List.length_cons] at hle
      show q.length ≤ s.pushing.length + (s.setThread w { t with phase := .run f }).lookers
      rcases hphase with hphase | hphase <;> simp [hphase, ThreadPhase.looking] at hcount <;> omega
  | @ran w f t hw hphase =>
      refine h.mono (fun v => asleep_mono hw (.inl (by simp))) (Nat.le_refl _) rfl ?_
      exact lookers_le hw (.inr (by rw [hphase]; rfl))
  | went hw hgoes => exact h.went ho hc hw hgoes
  | @spurious w t hw hphase =>
      exact h.mono (fun v => asleep_mono hw (.inl (by simp))) (Nat.le_refl _) rfl
        (lookers_le hw (.inl rfl))
  | @flagged i w t c _ hw _ =>
      have hcount := lookers_setThread hw { t with flag := true }
      refine h.mono (fun v => asleep_mono hw (.inr rfl)) (Nat.le_refl _) rfl ?_
      exact Nat.le_of_eq (Nat.add_right_cancel hcount).symm
  | grew =>
      refine h.mono (fun v hv => ?_) (Nat.le_refl _) rfl ?_
      · exact ((phase_grow s v _ _).mp hv).resolve_right nofun
      · simp [lookers]
  | shrunk => exact fun v hv => absurd hv Asleep.of_notifyAll
  | notifiedAll => exact fun v hv => absurd hv Asleep.of_notifyAll
  | discarded _ hq =>
      refine h.mono (fun _ => id) ?_ rfl (Nat.le_refl _)
      rw [hq]
      exact Nat.le_succ _
  | _ => exact h.mono (fun _ => id) (Nat.le_refl _) rfl (Nat.le_refl _)

/-! ## §2  No stop goes unheard -/

/-- A thread is asleep that has to go, or it has seen `isDone` too early and is about to sleep. -/
inductive Overlooked (s : ThreadPool) (v : ℕ) (t : PoolThread) : Prop
  | asleep : s.workers[v]? = some t → t.phase = .asleep → t.flag = true ∨ s.isDone = true →
      Overlooked s v t
  | early : s.workers[v]? = some t → t.phase = .readFlag → s.isDone = true → Overlooked s v t

/-- Who has to go will be notified. -/
def Alert (s : ThreadPool) : Prop := ∀ v t, s.Overlooked v t → s.control.willNotify = true

theorem Alert.mono {s s' : ThreadPool} (h : s.Alert)
    (hoverlooked : ∀ v t, s'.Overlooked v t → ∃ t', s.Overlooked v t')
    (hcontrol : s.control.willNotify = true → s'.control.willNotify = true) : s'.Alert := by
  intro v t ht
  obtain ⟨t', ht'⟩ := hoverlooked v t ht
  exact hcontrol (h v t' ht')

/-- Where one thread moves on, it is overlooked only as it goes to sleep. -/
theorem overlooked_of_setThread {s s' : ThreadPool} {w v : ℕ} {t t' u : PoolThread}
    (hw : s.workers[w]? = some t) (hs' : s'.workers = (s.setThread w t').workers)
    (hdone : s'.isDone = s.isDone) (h : s'.Overlooked v u) :
    v = w ∧ u = t' ∨ s.Overlooked v u := by
  cases h with
  | asleep hu hphase hgo =>
      rw [hs', workers_setThread hw] at hu
      rw [hdone] at hgo
      split_ifs at hu with hv
      · exact .inl ⟨hv.symm, (Option.some.inj hu).symm⟩
      · exact .inr (.asleep hu hphase hgo)
  | early hu hphase hgo =>
      rw [hs', workers_setThread hw] at hu
      rw [hdone] at hgo
      split_ifs at hu with hv
      · exact .inl ⟨hv.symm, (Option.some.inj hu).symm⟩
      · exact .inr (.early hu hphase hgo)

theorem Overlooked.phase {s : ThreadPool} {v : ℕ} {t : PoolThread} (h : s.Overlooked v t) :
    t.phase = .asleep ∨ t.phase = .readFlag := by
  cases h with
  | asleep _ hphase => exact .inl hphase
  | early _ hphase => exact .inr hphase

theorem Overlooked.get {s : ThreadPool} {v : ℕ} {t : PoolThread} (h : s.Overlooked v t) :
    s.workers[v]? = some t := by
  cases h with
  | asleep ht => exact ht
  | early ht => exact ht

theorem Alert.move {s s' : ThreadPool} (h : s.Alert) {w : ℕ} {t t' : PoolThread}
    (hw : s.workers[w]? = some t) (hs' : s'.workers = (s.setThread w t').workers)
    (hdone : s'.isDone = s.isDone) (hcontrol : s'.control = s.control)
    (hphase : t'.phase ≠ .asleep ∧ t'.phase ≠ .readFlag) : s'.Alert := by
  refine h.mono (fun v u hu => ?_) (by rw [hcontrol]; exact id)
  rcases overlooked_of_setThread hw hs' hdone hu with ⟨-, rfl⟩ | hold
  · rcases hu.phase with hu | hu
    · exact absurd hu hphase.1
    · exact absurd hu hphase.2
  · exact ⟨u, hold⟩

theorem Alert.went {s : ThreadPool} (h : s.Alert) {w : ℕ} {t : PoolThread} {p : ThreadPhase}
    (hw : s.workers[w]? = some t) (hgoes : Goes s t p) :
    (s.setThread w { t with phase := p }).Alert := by
  cases hgoes with
  | readFlag _ hdone =>
      refine h.mono (fun v u hu => ?_) id
      rcases overlooked_of_setThread hw rfl rfl hu with ⟨rfl, rfl⟩ | hold
      · cases hu with
        | asleep _ hphase => cases hphase
        | early _ _ hgo => exact absurd (hdone.symm.trans hgo) nofun
      · exact ⟨u, hold⟩
  | sleep hphase hflag =>
      refine h.mono (fun v u hu => ?_) id
      rcases overlooked_of_setThread hw rfl rfl hu with ⟨rfl, rfl⟩ | hold
      · cases hu with
        | asleep _ _ hgo =>
            refine ⟨t, .early hw hphase (hgo.resolve_left ?_)⟩
            simp [hflag]
        | early _ hphase => cases hphase
      · exact ⟨u, hold⟩
  | _ => exact h.move hw rfl rfl rfl ⟨by simp, by simp⟩

/-- Nobody is overlooked who was notified while the mutex was free. -/
theorem alert_of_notifyAll {s s' : ThreadPool} (hlocked : s.locked = false)
    (hs' : s'.workers = s.notifyAll.workers) : s'.Alert := by
  intro v t h
  have hphase : s.notifyAll.phase v = some t.phase := by
    rw [ThreadPool.phase, ← hs', h.get]
    rfl
  rcases h.phase with ht | ht
  · rw [ht] at hphase
    exact absurd hphase Asleep.of_notifyAll
  · rw [ht] at hphase
    exact absurd (FoundEmpty.of_notifyAll (.inr hphase)).holder (not_holder hlocked v)

theorem Alert.congr {s s' : ThreadPool} (h : s.Alert) (hworkers : s'.workers = s.workers)
    (hdone : s'.isDone = s.isDone)
    (hcontrol : s.control.willNotify = true → s'.control.willNotify = true) : s'.Alert := by
  refine h.mono (fun v t ht => ⟨t, ?_⟩) hcontrol
  cases ht with
  | asleep ht hphase hgo => exact .asleep (hworkers ▸ ht) hphase (hdone ▸ hgo)
  | early ht hphase hgo => exact .early (hworkers ▸ ht) hphase (hdone ▸ hgo)

theorem Alert.step {s s' : ThreadPool} {e : PoolEvent} (h : s.Alert)
    (hstep : Step s e s') : s'.Alert := by
  cases hstep.change with
  | notified _ _ hw => exact h.move hw rfl rfl rfl ⟨by simp, by simp⟩
  | spurious hw => exact h.move hw rfl rfl rfl ⟨by simp, by simp⟩
  | took hw => exact h.move hw rfl rfl rfl ⟨by simp, by simp⟩
  | ran hw => exact h.move hw rfl rfl rfl ⟨by simp, by simp⟩
  | went hw hgoes => exact h.went hw hgoes
  | stopNow => exact fun _ _ _ => rfl
  | stopWait => exact fun _ _ _ => rfl
  | resizing hidle => exact h.congr rfl rfl (by simp [hidle, PoolControl.willNotify])
  | proceeded hc =>
      refine h.congr rfl rfl ?_
      cases hc with
      | grown hcontrol => simp [hcontrol, PoolControl.willNotify]
      | flagged => exact fun _ => rfl
      | cleared => exact fun _ => rfl
      | joined hcontrol => simp [hcontrol, PoolControl.willNotify]
      | allJoined hcontrol => simp [hcontrol, PoolControl.willNotify]
  | grew =>
      refine h.mono (fun v t ht => ⟨t, ?_⟩) id
      have hget : s.workers[v]? = some t := by
        have hphase : _ = some t.phase := phase_of ht.get
        rcases (phase_grow s v t.phase _).mp hphase with hold | ⟨-, hpop⟩
        · have hlt : v < s.workers.length := by
            obtain ⟨u, hu, -⟩ := Option.map_eq_some_iff.mp hold
            exact (List.getElem?_eq_some_iff.mp hu).1
          exact (List.getElem?_append_left hlt).symm.trans ht.get
        · rcases ht.phase with hphase | hphase
          · exact absurd (hpop.symm.trans hphase) nofun
          · exact absurd (hpop.symm.trans hphase) nofun
      cases ht with
      | asleep _ hphase hgo => exact .asleep hget hphase hgo
      | early _ hphase hgo => exact .early hget hphase hgo
  | flagged _ _ hcontrol =>
      intro _ _ _
      rcases hcontrol with ⟨-, rfl⟩ | ⟨_, -, -, rfl⟩
      · rfl
      · rfl
  | shrunk _ _ hlocked => exact alert_of_notifyAll hlocked rfl
  | notifiedAll _ hlocked => exact alert_of_notifyAll hlocked rfl
  | stopped hcontrol => exact h.congr rfl rfl (by simp [hcontrol, PoolControl.willNotify])
  | _ => exact h.congr rfl rfl id

/-! ## §3  The vector of threads -/

/-- What the place of `resize` and `stop` says about the pool. -/
def Consistent (s : ThreadPool) : Prop :=
  match s.control with
  | .idle => s.isStop = true ∨ s.isDone = true → s.threads = []
  | .growing _ => s.isStop = false ∧ s.isDone = false
  | .shrinking i nThreads =>
      s.isStop = false ∧ s.isDone = false ∧ nThreads ≤ i ∧ i ≤ s.threads.length
  | .flagging _ | .clearing => s.isStop = true
  | .notifying | .joining _ | .emptying => s.isStop = true ∨ s.isDone = true

theorem Consistent.congr {s s' : ThreadPool} (h : s.Consistent) (hcontrol : s'.control = s.control)
    (hstop : s'.isStop = s.isStop) (hdone : s'.isDone = s.isDone)
    (hthreads : s'.threads = s.threads) : s'.Consistent := by
  unfold Consistent
  rw [hcontrol, hstop, hdone, hthreads]
  exact h

theorem Consistent.proceeds {s : ThreadPool} (h : s.Consistent) {c : PoolControl}
    (hc : Proceeds s c) : Consistent { s with control := c } := by
  unfold Consistent at h
  cases hc with
  | grown hcontrol =>
      rw [hcontrol] at h
      rintro (hstop | hdone)
      · exact absurd (h.1.symm.trans hstop) nofun
      · exact absurd (h.2.symm.trans hdone) nofun
  | flagged hcontrol =>
      rw [hcontrol] at h
      exact h
  | cleared hcontrol =>
      rw [hcontrol] at h
      exact .inl h
  | joined hcontrol =>
      rw [hcontrol] at h
      exact h
  | allJoined hcontrol =>
      rw [hcontrol] at h
      exact h

theorem Consistent.step {s s' : ThreadPool} {e : PoolEvent} (h : s.Consistent)
    (hstep : Step s e s') : s'.Consistent := by
  cases hstep.change with
  | resizing _ hstop hdone hc =>
      rcases hc with rfl | ⟨hlt, rfl⟩
      · exact ⟨hstop, hdone⟩
      · exact ⟨hstop, hdone, Nat.le_of_lt hlt, Nat.le_refl _⟩
  | stopNow => exact rfl
  | stopWait => exact .inr rfl
  | proceeded hc => exact h.proceeds hc
  | grew hcontrol =>
      unfold Consistent at h ⊢
      rw [hcontrol] at h
      simpa [hcontrol] using h
  | flagged hi _ hcontrol =>
      unfold Consistent at h
      rcases hcontrol with ⟨hcontrol, rfl⟩ | ⟨n, hcontrol, hle, rfl⟩
      · rw [hcontrol] at h
        exact h
      · rw [hcontrol] at h
        exact ⟨h.1, h.2.1, hle, Nat.le_of_succ_le h.2.2.2⟩
  | shrunk hcontrol =>
      unfold Consistent at h
      rw [hcontrol] at h
      rintro (hstop | hdone)
      · exact absurd (h.1.symm.trans hstop) nofun
      · exact absurd (h.2.1.symm.trans hdone) nofun
  | notifiedAll hcontrol =>
      unfold Consistent at h
      rw [hcontrol] at h
      exact h
  | stopped => exact fun _ => rfl
  | _ => exact h.congr rfl rfl rfl rfl

/-- The vector has different threads that were started. -/
structure Distinct (s : ThreadPool) : Prop where
  nodup : s.threads.Nodup
  lt : ∀ w ∈ s.threads, w < s.workers.length

theorem Distinct.congr {s s' : ThreadPool} (h : s.Distinct) (hthreads : s'.threads = s.threads)
    (hlength : s'.workers.length = s.workers.length) : s'.Distinct := by
  refine ⟨?_, ?_⟩
  · rw [hthreads]
    exact h.nodup
  · rw [hthreads, hlength]
    exact h.lt

theorem length_setThread (s : ThreadPool) (w : ℕ) (t : PoolThread) :
    (s.setThread w t).workers.length = s.workers.length := List.length_set

theorem length_notifyAll (s : ThreadPool) : s.notifyAll.workers.length = s.workers.length :=
  List.length_map _

theorem Distinct.step {s s' : ThreadPool} {e : PoolEvent} (h : s.Distinct)
    (hstep : Step s e s') : s'.Distinct := by
  cases hstep.change with
  | grew =>
      refine ⟨?_, fun w hw => ?_⟩
      · show (s.threads ++ [s.workers.length]).Nodup
        rw [List.nodup_append]
        refine ⟨h.nodup, List.nodup_singleton _, ?_⟩
        rintro w hw v hv rfl
        rw [List.mem_singleton] at hv
        exact absurd (h.lt w hw) (by omega)
      · have hlt : w < s.workers.length + 1 := by
          rcases List.mem_append.mp hw with hw | hw
          · exact Nat.lt_succ_of_lt (h.lt w hw)
          · rw [List.mem_singleton.mp hw]
            exact Nat.lt_succ_self _
        simpa using hlt
  | shrunk =>
      refine ⟨h.nodup.sublist (List.take_sublist _ _), fun w hw => ?_⟩
      show w < s.notifyAll.workers.length
      rw [length_notifyAll]
      exact h.lt w (List.mem_of_mem_take hw)
  | stopped => exact ⟨List.nodup_nil, nofun⟩
  | notified => exact h.congr rfl (length_setThread _ _ _)
  | spurious => exact h.congr rfl (length_setThread _ _ _)
  | took => exact h.congr rfl (length_setThread _ _ _)
  | ran => exact h.congr rfl (length_setThread _ _ _)
  | went => exact h.congr rfl (length_setThread _ _ _)
  | flagged => exact h.congr rfl (length_setThread _ _ _)
  | notifiedAll => exact h.congr rfl (length_notifyAll _)
  | _ => exact h.congr rfl rfl

/-- A worker of the state after a step: it was there before, it has the flag by this step, or it is
new. -/
theorem Change.worker {s s' : ThreadPool} {e : PoolEvent} (h : s.Change e s') {v : ℕ}
    {t' : PoolThread} (hv : s'.workers[v]? = some t') :
    (∃ t, s.workers[v]? = some t ∧ t'.flag = t.flag) ∨
      (∃ i t, s.threads[i]? = some v ∧ s.workers[v]? = some t ∧
        (s.control = .flagging i ∨ ∃ n, s.control = .shrinking (i + 1) n ∧ n ≤ i ∧
          s'.control = .shrinking i n) ∧ t' = { t with flag := true }) ∨
      v = s.workers.length ∧ t' = {} := by
  have hset : ∀ {w : ℕ} {t : PoolThread} {p : ThreadPhase}, s.workers[w]? = some t →
      (s.setThread w { t with phase := p }).workers[v]? = some t' →
        ∃ t, s.workers[v]? = some t ∧ t'.flag = t.flag := by
    intro w t p hw hv
    rw [workers_setThread hw] at hv
    split_ifs at hv with hwv
    · cases hv
      exact ⟨t, hwv ▸ hw, rfl⟩
    · exact ⟨t', hv, rfl⟩
  have hwake : s.notifyAll.workers[v]? = some t' →
      ∃ t, s.workers[v]? = some t ∧ t'.flag = t.flag := by
    intro hv
    rw [notifyAll, List.getElem?_map, Option.map_eq_some_iff] at hv
    obtain ⟨t, ht, rfl⟩ := hv
    refine ⟨t, ht, ?_⟩
    unfold wake
    split_ifs <;> rfl
  cases h with
  | notified _ _ hw => exact .inl (hset hw hv)
  | spurious hw => exact .inl (hset hw hv)
  | took hw => exact .inl (hset hw hv)
  | ran hw => exact .inl (hset hw hv)
  | went hw => exact .inl (hset hw hv)
  | shrunk => exact .inl (hwake hv)
  | notifiedAll => exact .inl (hwake hv)
  | @flagged i w t c hi hw hcontrol =>
      have hget : (s.setThread w { t with flag := true }).workers[v]? = some t' := hv
      rw [workers_setThread hw] at hget
      split_ifs at hget with hwv
      · subst hwv
        cases hget
        refine .inr (.inl ⟨i, t, hi, hw, ?_, rfl⟩)
        rcases hcontrol with ⟨hcontrol, -⟩ | ⟨n, hcontrol, hle, rfl⟩
        · exact .inl hcontrol
        · exact .inr ⟨n, hcontrol, hle, rfl⟩
      · exact .inl ⟨t', hget, rfl⟩
  | grew =>
      rcases Nat.lt_or_ge v s.workers.length with hlt | hge
      · exact .inl ⟨t', (List.getElem?_append_left hlt).symm.trans hv, rfl⟩
      · have hnew : ([{}] : List PoolThread)[v - s.workers.length]? = some t' :=
          (List.getElem?_append_right hge).symm.trans hv
        obtain ⟨hlt, hget⟩ := List.getElem?_eq_some_iff.mp hnew
        have hv : v = s.workers.length := by
          rw [List.length_singleton] at hlt
          omega
        refine .inr (.inr ⟨hv, ?_⟩)
        subst hv
        simpa using hget.symm
  | _ => exact .inl ⟨t', hv, rfl⟩

/-- A thread of the vector has its flag set by a `resize` that is about to drop it, or by
`stop(false)`. -/
def Unflagged (s : ThreadPool) : Prop :=
  s.isStop = false → ∀ (k w : ℕ) (t : PoolThread), s.threads[k]? = some w →
    s.workers[w]? = some t → t.flag = true →
      ∃ i nThreads, s.control = .shrinking i nThreads ∧ i ≤ k

theorem Change.running {s s' : ThreadPool} {e : PoolEvent} (h : s.Change e s')
    (hstop : s'.isStop = false) : s.isStop = false := by
  cases h with
  | stopNow => cases hstop
  | _ => exact hstop

/-- A thread that stays in the vector has its place, and a `resize` goes on. -/
theorem Change.kept {s s' : ThreadPool} {e : PoolEvent} (h : s.Change e s') {k w : ℕ}
    (hk : s'.threads[k]? = some w) (hw : w < s.workers.length) :
    s.threads[k]? = some w ∧
      ∀ i n, s.control = .shrinking i n → n ≤ i → i ≤ k →
        ∃ j m, s'.control = .shrinking j m ∧ j ≤ k := by
  cases h with
  | grew hcontrol =>
      refine ⟨?_, fun i n hc => absurd (hcontrol.symm.trans hc) nofun⟩
      rcases Nat.lt_or_ge k s.threads.length with hlt | hge
      · exact (List.getElem?_append_left hlt).symm.trans hk
      · have hnew := (List.getElem?_append_right hge).symm.trans hk
        obtain ⟨hlt, hget⟩ := List.getElem?_eq_some_iff.mp hnew
        simp only [List.getElem_singleton] at hget
        omega
  | @shrunk i' n' hcontrol hle hlocked =>
      have htake : (s.threads.take n')[k]? = some w := hk
      rw [List.getElem?_take] at htake
      split_ifs at htake with hlt
      refine ⟨htake, fun i n hc hn hik => ?_⟩
      cases hcontrol.symm.trans hc
      omega
  | stopped => cases hk
  | @flagged i' w' t c _ _ hcontrol =>
      refine ⟨hk, fun i n hc _ hik => ?_⟩
      rcases hcontrol with ⟨hcontrol, -⟩ | ⟨m, hcontrol, -, rfl⟩
      · exact absurd (hcontrol.symm.trans hc) nofun
      · cases hcontrol.symm.trans hc
        exact ⟨i', n, rfl, by omega⟩
  | resizing hidle => exact ⟨hk, fun i n hc => absurd (hidle.symm.trans hc) nofun⟩
  | stopNow hidle => exact ⟨hk, fun i n hc => absurd (hidle.symm.trans hc) nofun⟩
  | stopWait hidle => exact ⟨hk, fun i n hc => absurd (hidle.symm.trans hc) nofun⟩
  | notifiedAll hcontrol => exact ⟨hk, fun i n hc => absurd (hcontrol.symm.trans hc) nofun⟩
  | proceeded hproceeds =>
      refine ⟨hk, fun i n hc => ?_⟩
      cases hproceeds with
      | grown hcontrol => exact absurd (hcontrol.symm.trans hc) nofun
      | flagged hcontrol => exact absurd (hcontrol.symm.trans hc) nofun
      | cleared hcontrol => exact absurd (hcontrol.symm.trans hc) nofun
      | joined hcontrol => exact absurd (hcontrol.symm.trans hc) nofun
      | allJoined hcontrol => exact absurd (hcontrol.symm.trans hc) nofun
  | _ => exact ⟨hk, fun i n hc _ hik => ⟨i, n, hc, hik⟩⟩

theorem Unflagged.step {s s' : ThreadPool} {e : PoolEvent} (hd : s.Distinct) (hc : s.Consistent)
    (h : s.Unflagged) (hstep : Step s e s') : s'.Unflagged := by
  intro hstop k w t' hk hw hset
  have hrunning := hstep.change.running hstop
  rcases hstep.change.worker hw with ⟨t, ht, hsame⟩ | ⟨i, t, hi, ht, hcontrol, -⟩ | ⟨-, rfl⟩
  · obtain ⟨hlt, -⟩ := List.getElem?_eq_some_iff.mp ht
    obtain ⟨hold, hgoes⟩ := hstep.change.kept hk hlt
    obtain ⟨i, n, hshrinking, hle⟩ := h hrunning k w t hold ht (hsame ▸ hset)
    unfold Consistent at hc
    rw [hshrinking] at hc
    exact hgoes i n hshrinking hc.2.2.1 hle
  · obtain ⟨hlt, -⟩ := List.getElem?_eq_some_iff.mp ht
    obtain ⟨hold, -⟩ := hstep.change.kept hk hlt
    unfold Consistent at hc
    rcases hcontrol with hcontrol | ⟨n, hcontrol, -, hnext⟩
    · rw [hcontrol] at hc
      exact absurd (hrunning.symm.trans hc) nofun
    · obtain ⟨hilt, -⟩ := List.getElem?_eq_some_iff.mp hi
      have hik : i = k := (List.getElem?_inj hilt hd.nodup).mp (hi.trans hold.symm)
      exact ⟨i, n, hnext, Nat.le_of_eq hik⟩
  · cases hset

/-- A thread that has left was told to. -/
def LeftOnOrder (s : ThreadPool) : Prop :=
  ∀ (w : ℕ) (t : PoolThread), s.workers[w]? = some t → t.phase = .exited →
    t.flag = true ∨ s.isDone = true

theorem LeftOnOrder.move {s s' : ThreadPool} (h : s.LeftOnOrder) {w : ℕ} {t t' : PoolThread}
    (hw : s.workers[w]? = some t) (hs' : s'.workers = (s.setThread w t').workers)
    (hdone : s'.isDone = s.isDone)
    (hexited : t'.phase = .exited → t'.flag = true ∨ s.isDone = true) : s'.LeftOnOrder := by
  intro v u hv hphase
  rw [hs', workers_setThread hw] at hv
  rw [hdone]
  split_ifs at hv with hwv
  · cases hv
    exact hexited hphase
  · exact h v u hv hphase

theorem LeftOnOrder.wake {s s' : ThreadPool} (h : s.LeftOnOrder)
    (hs' : s'.workers = s.notifyAll.workers) (hdone : s'.isDone = s.isDone) : s'.LeftOnOrder := by
  intro v u hv hphase
  rw [hs', notifyAll, List.getElem?_map, Option.map_eq_some_iff] at hv
  obtain ⟨t, ht, rfl⟩ := hv
  rw [phase_wake] at hphase
  split_ifs at hphase with hasleep
  rw [hdone, ThreadPool.wake, if_neg hasleep]
  exact h v t ht hphase

theorem LeftOnOrder.step {s s' : ThreadPool} {e : PoolEvent} (h : s.LeftOnOrder)
    (hstep : Step s e s') : s'.LeftOnOrder := by
  cases hstep.change with
  | notified _ _ hw => exact h.move hw rfl rfl nofun
  | spurious hw => exact h.move hw rfl rfl nofun
  | took hw => exact h.move hw rfl rfl nofun
  | ran hw => exact h.move hw rfl rfl nofun
  | went hw hgoes =>
      refine h.move hw rfl rfl fun hphase => ?_
      cases hgoes with
      | flagged _ hflag => exact .inl hflag
      | done _ hdone => exact .inr hdone
      | _ => cases hphase
  | flagged _ hw => exact h.move hw rfl rfl fun _ => .inl rfl
  | shrunk => exact h.wake rfl rfl
  | notifiedAll => exact h.wake rfl rfl
  | stopWait => exact fun _ _ _ _ => .inr rfl
  | grew hcontrol =>
      intro v t hv hphase
      rcases hstep.change.worker hv with ⟨u, hu, -⟩ | ⟨_, _, _, _, hc, -⟩ | ⟨-, rfl⟩
      · obtain ⟨hlt, -⟩ := List.getElem?_eq_some_iff.mp hu
        exact h v t ((List.getElem?_append_left hlt).symm.trans hv) hphase
      · rcases hc with hc | ⟨_, hc, -⟩
        · exact absurd (hcontrol.symm.trans hc) nofun
        · exact absurd (hcontrol.symm.trans hc) nofun
      · cases hphase
  | _ => exact h

/-- Nothing is taken out of the queue of a running pool but by its threads. -/
def Kept (s : ThreadPool) : Prop :=
  s.isStop = false → s.isDone = false → ∀ f, (f, none) ∉ s.taken

theorem Kept.step {s s' : ThreadPool} {e : PoolEvent} (hc : s.Consistent) (h : s.Kept)
    (hstep : Step s e s') : s'.Kept := by
  cases hstep.change with
  | stopNow => exact nofun
  | stopWait => exact fun _ => nofun
  | took =>
      intro hstop hdone f hf
      rcases List.mem_append.mp hf with hf | hf
      · exact h hstop hdone f hf
      · cases List.mem_singleton.mp hf
  | discarded hcontrol =>
      intro hstop hdone
      unfold Consistent at hc
      rcases hcontrol with hcontrol | hcontrol
      · rw [hcontrol] at hc
        exact absurd (hc.symm.trans hstop) nofun
      · rw [hcontrol] at hc
        rcases hc with hc | hc
        · exact absurd (hc.symm.trans hstop) nofun
        · exact absurd (hc.symm.trans hdone) nofun
  | _ => exact h

/-- `stop(false)` has set the flags of the threads that it has come to. -/
def FlagsSet (s : ThreadPool) : Prop :=
  s.isStop = true → ∀ (k w : ℕ) (t : PoolThread), s.threads[k]? = some w →
    s.workers[w]? = some t → t.flag = true ∨ ∃ i, s.control = .flagging i ∧ i ≤ k

/-- Where `isStop` is set, no thread is added, and the flagging goes on to its end. -/
theorem Change.flagging {s s' : ThreadPool} {e : PoolEvent} (hc : s.Consistent)
    (h : s.Change e s') (hstop : s'.isStop = true) {k w : ℕ} (hk : s'.threads[k]? = some w) :
    s.threads[k]? = some w ∧
      (s.isStop = false → s'.control = .flagging 0) ∧
      ∀ i, s.control = .flagging i → i ≤ k →
        (∃ j, s'.control = .flagging j ∧ j ≤ k) ∨
          i = k ∧ ∃ t, s.workers[w]? = some t ∧
            s'.workers = (s.setThread w { t with flag := true }).workers := by
  unfold Consistent at hc
  cases h with
  | stopNow hidle => exact ⟨hk, fun _ => rfl, fun i hi => absurd (hidle.symm.trans hi) nofun⟩
  | grew hcontrol =>
      rw [hcontrol] at hc
      exact absurd (hc.1.symm.trans hstop) nofun
  | shrunk hcontrol =>
      rw [hcontrol] at hc
      exact absurd (hc.1.symm.trans hstop) nofun
  | stopped => cases hk
  | resizing _ hrunning => exact absurd (hrunning.symm.trans hstop) nofun
  | stopWait _ hrunning => exact absurd (hrunning.symm.trans hstop) nofun
  | notifiedAll hcontrol =>
      exact ⟨hk, fun hrunning => absurd (hrunning.symm.trans hstop) nofun,
        fun i hi => absurd (hcontrol.symm.trans hi) nofun⟩
  | @flagged j v t c hj hv hcontrol =>
      refine ⟨hk, fun hrunning => absurd (hrunning.symm.trans hstop) nofun, fun i hi hik => ?_⟩
      rcases hcontrol with ⟨hcontrol, rfl⟩ | ⟨_, hcontrol, -, -⟩
      · cases hcontrol.symm.trans hi
        rcases Nat.eq_or_lt_of_le hik with rfl | hlt
        · cases hj.symm.trans hk
          exact .inr ⟨rfl, t, hv, rfl⟩
        · exact .inl ⟨_, rfl, hlt⟩
      · exact absurd (hcontrol.symm.trans hi) nofun
  | proceeded hproceeds =>
      refine ⟨hk, fun hrunning => absurd (hrunning.symm.trans hstop) nofun, fun i hi hik => ?_⟩
      cases hproceeds with
      | flagged hcontrol hle =>
          cases hcontrol.symm.trans hi
          obtain ⟨hlt, -⟩ := List.getElem?_eq_some_iff.mp hk
          exact absurd hlt (by simp only; omega)
      | grown hcontrol => exact absurd (hcontrol.symm.trans hi) nofun
      | cleared hcontrol => exact absurd (hcontrol.symm.trans hi) nofun
      | joined hcontrol => exact absurd (hcontrol.symm.trans hi) nofun
      | allJoined hcontrol => exact absurd (hcontrol.symm.trans hi) nofun
  | _ =>
      exact ⟨hk, fun hrunning => absurd (hrunning.symm.trans hstop) nofun,
        fun i hi hik => .inl ⟨i, hi, hik⟩⟩

theorem FlagsSet.step {s s' : ThreadPool} {e : PoolEvent} (hd : s.Distinct) (hc : s.Consistent)
    (h : s.FlagsSet) (hstep : Step s e s') : s'.FlagsSet := by
  intro hstop k w t' hk hw
  obtain ⟨hold, hnew, hgoes⟩ := hstep.change.flagging hc hstop hk
  cases hrunning : s.isStop with
  | false => exact .inr ⟨0, hnew hrunning, Nat.zero_le _⟩
  | true =>
      rcases hstep.change.worker hw with ⟨t, ht, hsame⟩ | ⟨i, t, -, -, -, rfl⟩ | ⟨hfresh, -⟩
      · rcases h hrunning k w t hold ht with hflag | ⟨i, hi, hle⟩
        · exact .inl (hsame.trans hflag)
        · rcases hgoes i hi hle with hlater | ⟨-, u, hu, hworkers⟩
          · exact .inr hlater
          · rw [hworkers, workers_setThread hu, if_pos rfl] at hw
            cases hw
            exact .inl rfl
      · exact .inl rfl
      · exact absurd (hd.lt w (List.mem_of_getElem? hold)) (by omega)

end ThreadPool

end BeyondProtocol
