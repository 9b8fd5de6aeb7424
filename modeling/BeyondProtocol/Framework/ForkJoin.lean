import Mathlib.Data.Multiset.AddSub
import Mathlib.Tactic
import BeyondProtocol.Framework.Runs

/-!
# Fork, join and barriers

One thread works through a program: it hands tasks to a pool, waits for the pool
to run empty, or makes calls itself. Tasks start and return in any order.

`program` compiles a list of items: asynchronous items are handed to the pool, a
barrier item is called after a wait, every other item is called in place. The
rule of the library is `calls_barrier`: when a barrier is called, what returned
before is exactly what stands before it in the list.
-/

namespace Framework.ForkJoin

variable {α : Type}

inductive Action (α : Type) : Type where
  | spawn (a : α)
  | join
  | call (a : α)

/-- The items of a program, in order. -/
def items : List (Action α) → List α
  | [] => []
  | .spawn a :: p => a :: items p
  | .join :: p => items p
  | .call a :: p => a :: items p

structure Config (α : Type) where
  prog : List (Action α)
  /-- The call the thread is in. -/
  current : Multiset α := 0
  /-- Handed to the pool and not started. -/
  pending : Multiset α := 0
  running : Multiset α := 0
  finished : Multiset α := 0

inductive Event (α : Type) : Type where
  | start (a : α)
  | finish (a : α)
  | main

inductive Step : Config α → Event α → Config α → Prop where
  | spawn {a : α} {p : List (Action α)} {w r f : Multiset α} :
      Step ⟨.spawn a :: p, 0, w, r, f⟩ .main ⟨p, 0, a ::ₘ w, r, f⟩
  | join {p : List (Action α)} {f : Multiset α} :
      Step ⟨.join :: p, 0, 0, 0, f⟩ .main ⟨p, 0, 0, 0, f⟩
  | call {a : α} {p : List (Action α)} {w r f : Multiset α} :
      Step ⟨.call a :: p, 0, w, r, f⟩ (.start a) ⟨p, {a}, w, r, f⟩
  | ret {a : α} {p : List (Action α)} {w r f : Multiset α} :
      Step ⟨p, {a}, w, r, f⟩ (.finish a) ⟨p, 0, w, r, a ::ₘ f⟩
  | taskStart {a : α} {p : List (Action α)} {c w r f : Multiset α} :
      Step ⟨p, c, a ::ₘ w, r, f⟩ (.start a) ⟨p, c, w, a ::ₘ r, f⟩
  | taskFinish {a : α} {p : List (Action α)} {c w r f : Multiset α} :
      Step ⟨p, c, w, a ::ₘ r, f⟩ (.finish a) ⟨p, c, w, r, a ::ₘ f⟩

/-- Nothing is left to do, start or return. -/
def Config.Done (c : Config α) : Prop :=
  c.prog = [] ∧ c.current = 0 ∧ c.pending = 0 ∧ c.running = 0

/-- What was started so far. -/
def Config.started (c : Config α) : Multiset α := c.current + c.running + c.finished

/-- What was not started yet. -/
def Config.waiting (c : Config α) : Multiset α := ↑(items c.prog) + c.pending

variable (isAsync isBarrier : α → Bool)

/-- The program of a list of items, with a last wait. -/
def program : List α → List (Action α)
  | [] => [.join]
  | a :: l =>
      if isAsync a then .spawn a :: program l
      else if isBarrier a then .join :: .call a :: program l
      else .call a :: program l

def start (l : List α) : Config α := { prog := program isAsync isBarrier l }

theorem items_program (l : List α) : items (program isAsync isBarrier l) = l := by
  induction l with
  | nil => rfl
  | cons a l ih =>
      simp only [program]
      split_ifs <;> simp [items, ih]

/-- The next action is the call of a barrier. -/
def AtBarrier (p : List (Action α)) : Prop :=
  ∃ a q, p = .call a :: q ∧ isAsync a = false ∧ isBarrier a = true

/-- Only asynchronous items go to the pool, and every call of a barrier, but for one
at the head, follows a wait directly. -/
def Guarded : List (Action α) → Prop
  | [] => True
  | .join :: p => Guarded p
  | .spawn a :: p => isAsync a = true ∧ ¬ AtBarrier isAsync isBarrier p ∧ Guarded p
  | .call _ :: p => ¬ AtBarrier isAsync isBarrier p ∧ Guarded p

theorem program_guarded (l : List α) :
    Guarded isAsync isBarrier (program isAsync isBarrier l) ∧
      ¬ AtBarrier isAsync isBarrier (program isAsync isBarrier l) := by
  induction l with
  | nil => exact ⟨trivial, fun ⟨_, _, h, _⟩ => by cases h⟩
  | cons a l ih =>
      simp only [program]
      split_ifs with hasync hbarrier
      · exact ⟨⟨hasync, ih.2, ih.1⟩, fun ⟨_, _, h, _⟩ => by cases h⟩
      · exact ⟨⟨ih.2, ih.1⟩, fun ⟨_, _, h, _⟩ => by cases h⟩
      · refine ⟨⟨ih.2, ih.1⟩, fun ⟨b, q, h, _, hb⟩ => ?_⟩
        cases h
        exact hbarrier hb

/-- What holds of every configuration on the way through `l`. -/
structure Progress (l : List α) (c : Config α) : Prop where
  guarded : Guarded isAsync isBarrier c.prog
  pool : ∀ a ∈ c.pending, isAsync a = true
  /-- At a barrier the pool is empty. -/
  idle : AtBarrier isAsync isBarrier c.prog → c.pending = 0 ∧ c.running = 0
  /-- The items before the program counter are in the pool, in progress or done. -/
  passed : ∃ pre, l = pre ++ items c.prog ∧
    (pre : Multiset α) = c.current + c.pending + c.running + c.finished

theorem progress_start (l : List α) :
    Progress isAsync isBarrier l (start isAsync isBarrier l) where
  guarded := (program_guarded isAsync isBarrier l).1
  pool := fun a ha => absurd ha (Multiset.notMem_zero a)
  idle := fun h => absurd h (program_guarded isAsync isBarrier l).2
  passed := ⟨[], by simp [start, items_program], rfl⟩

variable {isAsync isBarrier}

theorem Progress.step {l : List α} {c c' : Config α} {e : Event α}
    (h : Progress isAsync isBarrier l c) (hstep : Step c e c') :
    Progress isAsync isBarrier l c' := by
  obtain ⟨hguard, hpool, hidle, pre, hl, hpre⟩ := h
  cases hstep with
  | @spawn a p w r f =>
      refine ⟨hguard.2.2, fun b hb => ?_, fun hb => absurd hb hguard.2.1, pre ++ [a],
        by simpa [items] using hl, ?_⟩
      · rcases Multiset.mem_cons.mp hb with rfl | hb
        · exact hguard.1
        · exact hpool b hb
      · simp only at hpre ⊢
        rw [← Multiset.coe_add, hpre]
        simp only [Multiset.coe_singleton, ← Multiset.singleton_add]
        abel
  | join => exact ⟨hguard, hpool, fun _ => ⟨rfl, rfl⟩, pre, hl, hpre⟩
  | @call a p w r f =>
      refine ⟨hguard.2, hpool, fun hb => absurd hb hguard.1, pre ++ [a],
        by simpa [items] using hl, ?_⟩
      simp only at hpre ⊢
      rw [← Multiset.coe_add, hpre]
      simp only [Multiset.coe_singleton]
      abel
  | @ret a p w r f =>
      refine ⟨hguard, hpool, hidle, pre, hl, ?_⟩
      simp only at hpre ⊢
      rw [hpre, ← Multiset.singleton_add]
      abel
  | @taskStart a p c w r f =>
      -- at a barrier the pool is empty, so no task can start there
      refine ⟨hguard, fun b hb => hpool b (Multiset.mem_cons_of_mem hb),
        fun hb => absurd (hidle hb).1 Multiset.cons_ne_zero, pre, hl, ?_⟩
      simp only at hpre ⊢
      rw [hpre, ← Multiset.singleton_add, ← Multiset.singleton_add]
      abel
  | @taskFinish a p c w r f =>
      refine ⟨hguard, hpool, fun hb => absurd (hidle hb).2 Multiset.cons_ne_zero, pre, hl, ?_⟩
      simp only at hpre ⊢
      rw [hpre, ← Multiset.singleton_add, ← Multiset.singleton_add]
      abel

/-- Nothing is lost or made up on the way. -/
theorem Progress.conserved {l : List α} {c : Config α} (h : Progress isAsync isBarrier l c) :
    (l : Multiset α) = c.waiting + c.started := by
  obtain ⟨pre, hl, hpre⟩ := h.passed
  rw [hl, ← Multiset.coe_add, hpre, Config.waiting, Config.started]
  abel

theorem Progress.done {l : List α} {c : Config α} (h : Progress isAsync isBarrier l c)
    (hdone : c.Done) : (l : Multiset α) = c.finished := by
  obtain ⟨hprog, hcur, hpend, hrun⟩ := hdone
  rw [h.conserved, Config.waiting, Config.started, hprog, hcur, hpend, hrun]
  simp [items]

/-- **At a barrier**: when it starts, what has returned is what stands before it. -/
theorem Progress.calls_barrier {l : List α} {c c' : Config α} {a : α}
    (h : Progress isAsync isBarrier l c) (hstep : Step c (.start a) c')
    (hasync : isAsync a = false) (hbarrier : isBarrier a = true) :
    ∃ pre post, l = pre ++ a :: post ∧ (pre : Multiset α) = c.finished ∧
      c.waiting = ↑(a :: post) ∧ c.started = c.finished := by
  cases hstep with
  | @call _ p w r f =>
      obtain ⟨hw, hr⟩ := h.idle ⟨a, p, rfl, hasync, hbarrier⟩
      obtain ⟨pre, hl, hpre⟩ := h.passed
      simp only at hw hr
      subst hw hr
      refine ⟨pre, items p, hl, by simpa using hpre, ?_, ?_⟩
      · simp [Config.waiting, items]
      · simp [Config.started]
  | @taskStart _ p c w r f =>
      -- the pool has asynchronous items only
      have := h.pool a (Multiset.mem_cons_self a w)
      rw [hasync] at this
      cases this

/-! ## Order of starts

`precedes a b` asks that `a` starts before `b`. A list keeps to it if nothing
stands before what precedes it and every asynchronous item is cut off from what it
precedes by a barrier. -/

variable (isAsync isBarrier) in
/-- The thread waits for the pool before it calls this item. -/
def Waits (a : α) : Prop := isAsync a = false ∧ isBarrier a = true

variable (isAsync isBarrier) in
structure Orderly (precedes : α → α → Prop) (l : List α) : Prop where
  sorted : l.Pairwise fun a b => ¬ precedes b a
  separated : ∀ l₁ a l₂ b l₃, l = l₁ ++ a :: (l₂ ++ b :: l₃) → precedes a b →
    isAsync a = false ∨ Waits isAsync isBarrier b ∨ ∃ e ∈ l₂, Waits isAsync isBarrier e

variable (isAsync isBarrier) in
/-- The items in the pool stand behind the last barrier passed. -/
def Recent (l : List α) (c : Config α) : Prop :=
  ∃ far near, l = far ++ (near ++ items c.prog) ∧
    (∀ e ∈ near, ¬ Waits isAsync isBarrier e) ∧ ∀ a ∈ c.pending, a ∈ near

theorem recent_start (l : List α) :
    Recent isAsync isBarrier l (start isAsync isBarrier l) := by
  refine ⟨[], [], ?_, ?_, ?_⟩
  · simp [start, items_program]
  · intro e he
    cases he
  · intro a ha
    exact absurd ha (Multiset.notMem_zero a)

theorem Recent.step {l : List α} {c c' : Config α} {e : Event α}
    (h : Recent isAsync isBarrier l c) (hprogress : Progress isAsync isBarrier l c)
    (hstep : Step c e c') : Recent isAsync isBarrier l c' := by
  obtain ⟨far, near, hl, hnear, hpending⟩ := h
  cases hstep with
  | @spawn a p w r f =>
      have hasync : isAsync a = true := hprogress.guarded.1
      refine ⟨far, near ++ [a], by simpa [items] using hl, ?_, ?_⟩
      · intro e he hwaits
        rcases List.mem_append.mp he with he | he
        · exact hnear e he hwaits
        · rw [List.mem_singleton.mp he, Waits, hasync] at hwaits
          cases hwaits.1
      · intro b hb
        rcases Multiset.mem_cons.mp hb with rfl | hb
        · simp
        · exact List.mem_append_left _ (hpending b hb)
  | join => exact ⟨far, near, hl, hnear, hpending⟩
  | @call a p w r f =>
      by_cases hwaits : Waits isAsync isBarrier a
      · -- the pool ran empty before the barrier, so nothing is recent behind it
        have hidle : w = 0 := (hprogress.idle ⟨a, p, rfl, hwaits.1, hwaits.2⟩).1
        refine ⟨far ++ (near ++ [a]), [], by simpa [items] using hl, ?_, ?_⟩
        · intro e he
          cases he
        · intro b hb
          simp only [hidle] at hb
          exact absurd hb (Multiset.notMem_zero b)
      · refine ⟨far, near ++ [a], by simpa [items] using hl, ?_, ?_⟩
        · intro e he
          rcases List.mem_append.mp he with he | he
          · exact hnear e he
          · rw [List.mem_singleton.mp he]
            exact hwaits
        · intro b hb
          exact List.mem_append_left _ (hpending b hb)
  | ret => exact ⟨far, near, hl, hnear, hpending⟩
  | taskStart =>
      exact ⟨far, near, hl, hnear, fun b hb => hpending b (Multiset.mem_cons_of_mem hb)⟩
  | taskFinish => exact ⟨far, near, hl, hnear, hpending⟩

theorem Config.Done.waiting_eq_zero {c : Config α} (h : c.Done) : c.waiting = 0 := by
  obtain ⟨hprog, -, hpending, -⟩ := h
  rw [Config.waiting, hprog, hpending]
  rfl

/-- An item starts by leaving what waits. -/
theorem Step.waiting_start {c c' : Config α} {a : α} (hstep : Step c (.start a) c') :
    c.waiting = a ::ₘ c'.waiting := by
  cases hstep with
  | call => simp [Config.waiting, items, ← Multiset.cons_coe]
  | taskStart => simp [Config.waiting]

/-- No other step changes what waits. -/
theorem Step.waiting_eq {c c' : Config α} {e : Event α} (hstep : Step c e c')
    (hstart : ∀ a, e ≠ .start a) : c.waiting = c'.waiting := by
  cases hstep with
  | spawn => simp [Config.waiting, items, ← Multiset.cons_coe]
  | join => rfl
  | call => exact absurd rfl (hstart _)
  | ret => rfl
  | taskStart => exact absurd rfl (hstart _)
  | taskFinish => rfl

theorem Progress.started_start {l : List α} {c c' : Config α} {a : α}
    (h : Progress isAsync isBarrier l c) (hstep : Step c (.start a) c') :
    c'.started = a ::ₘ c.started := by
  have hold := h.conserved
  rw [(h.step hstep).conserved, hstep.waiting_start, Multiset.cons_add, ← Multiset.add_cons] at hold
  exact add_left_cancel hold

theorem Progress.started_eq {l : List α} {c c' : Config α} {e : Event α}
    (h : Progress isAsync isBarrier l c) (hstep : Step c e c') (hstart : ∀ a, e ≠ .start a) :
    c'.started = c.started := by
  have hold := h.conserved
  rw [(h.step hstep).conserved, hstep.waiting_eq hstart] at hold
  exact add_left_cancel hold

/-- Two items of a list stand one before the other. -/
theorem split_of_mem {l : List α} {a b : α} (ha : a ∈ l) (hb : b ∈ l) (hne : a ≠ b) :
    (∃ l₁ l₂ l₃, l = l₁ ++ a :: (l₂ ++ b :: l₃)) ∨ ∃ l₁ l₂ l₃, l = l₁ ++ b :: (l₂ ++ a :: l₃) := by
  obtain ⟨l₁, l₂, rfl⟩ := List.append_of_mem ha
  rcases List.mem_append.mp hb with hb | hb
  · obtain ⟨m₁, m₂, rfl⟩ := List.append_of_mem hb
    exact .inr ⟨m₁, m₂, l₂, by simp⟩
  · rcases List.mem_cons.mp hb with rfl | hb
    · exact absurd rfl hne
    · obtain ⟨m₁, m₂, rfl⟩ := List.append_of_mem hb
      exact .inl ⟨l₁, m₁, m₂, rfl⟩

theorem Orderly.not_precedes {precedes : α → α → Prop} {l : List α} {a b : α}
    (h : Orderly isAsync isBarrier precedes l) (l₁ l₂ : List α) (hl : l = l₁ ++ l₂) (ha : a ∈ l₁)
    (hb : b ∈ l₂) : ¬ precedes b a := by
  have hsorted := h.sorted
  rw [hl] at hsorted
  exact (List.pairwise_append.mp hsorted).2.2 a ha b hb

/-- An asynchronous item precedes nothing that stands behind it without a barrier on the
way. -/
theorem Orderly.not_precedes_near {precedes : α → α → Prop} {l : List α} {a b : α}
    (h : Orderly isAsync isBarrier precedes l) (l₁ l₂ l₃ : List α)
    (hl : l = l₁ ++ a :: (l₂ ++ b :: l₃)) (hasync : isAsync a = true)
    (hb : ¬ Waits isAsync isBarrier b)
    (hnear : ∀ e ∈ l₂, ¬ Waits isAsync isBarrier e) : ¬ precedes a b := by
  intro hab
  rcases h.separated l₁ a l₂ b l₃ hl hab with hsync | hwaits | ⟨e, he, hwaits⟩
  · rw [hasync] at hsync
    cases hsync
  · exact hb hwaits
  · exact hnear e he hwaits

/-- **Starts keep to the order**: what still waits when an item starts does not precede
it. -/
theorem Progress.start_in_order {precedes : α → α → Prop} (hirrefl : ∀ a, ¬ precedes a a)
    {l : List α} {c c' : Config α} {a : α} (horder : Orderly isAsync isBarrier precedes l)
    (h : Progress isAsync isBarrier l c) (hrecent : Recent isAsync isBarrier l c)
    (hstep : Step c (.start a) c') : ∀ b ∈ c'.waiting, ¬ precedes b a := by
  obtain ⟨far, near, hl, hnear, hpending⟩ := hrecent
  intro b hb
  cases hstep with
  | @call _ p w r f =>
      simp only [items] at hl
      rcases Multiset.mem_add.mp hb with hb | hb
      · refine horder.not_precedes (far ++ (near ++ [a])) (items p) ?_ ?_ hb
        · simpa using hl
        · simp
      · obtain ⟨n₁, n₂, rfl⟩ := List.append_of_mem (hpending b hb)
        refine horder.not_precedes_near (far ++ n₁) n₂ (items p) ?_
          (h.pool b hb) ?_ fun e he => hnear e (by simp [he])
        · simpa using hl
        · intro hwaits
          obtain ⟨hidle, -⟩ := h.idle ⟨a, p, rfl, hwaits.1, hwaits.2⟩
          simp only at hidle hb
          rw [hidle] at hb
          exact absurd hb (Multiset.notMem_zero b)
  | @taskStart _ p _ w r f =>
      have ha : a ∈ near := hpending a (Multiset.mem_cons_self a w)
      rcases Multiset.mem_add.mp hb with hb | hb
      · exact horder.not_precedes (far ++ near) _ (by simpa using hl) (by simp [ha]) hb
      · have hbnear : b ∈ near := hpending b (Multiset.mem_cons_of_mem hb)
        by_cases hne : b = a
        · rw [hne]
          exact hirrefl a
        · rcases split_of_mem hbnear ha hne with ⟨n₁, n₂, n₃, rfl⟩ | ⟨n₁, n₂, n₃, rfl⟩
          · refine horder.not_precedes_near (far ++ n₁) n₂ (n₃ ++ items p) ?_
              (h.pool b (Multiset.mem_cons_of_mem hb))
              (hnear a (by simp)) fun e he => hnear e (by simp [he])
            simpa using hl
          · refine horder.not_precedes (far ++ (n₁ ++ [a]))
              (n₂ ++ b :: (n₃ ++ items p)) ?_ (by simp) (by simp)
            simpa using hl

/-! ## Progress -/

theorem Step.current_le {c c' : Config α} {e : Event α} (hstep : Step c e c')
    (h : c.current.card ≤ 1) : c'.current.card ≤ 1 := by
  cases hstep with
  | call => exact (Multiset.card_singleton _).le
  | ret => exact Nat.zero_le _
  | _ => exact h

/-- Every callback under way can return, and every task in the pool can run. -/
theorem exists_drained (p : List (Action α)) {c : Multiset α} (hc : c.card ≤ 1)
    (w r f : Multiset α) : ∃ es f', Runs Step ⟨p, c, w, r, f⟩ es ⟨p, 0, 0, 0, f'⟩ := by
  induction w using Multiset.induction_on generalizing r with
  | cons a w ih =>
      obtain ⟨es, f', run⟩ := ih (a ::ₘ r)
      exact ⟨_, f', (Runs.init.snoc Step.taskStart).trans run⟩
  | empty =>
      induction r using Multiset.induction_on generalizing f with
      | cons a r ih =>
          obtain ⟨es, f', run⟩ := ih (a ::ₘ f)
          exact ⟨_, f', (Runs.init.snoc Step.taskFinish).trans run⟩
      | empty =>
          rcases Nat.le_one_iff_eq_zero_or_eq_one.mp hc with hzero | hone
          · obtain rfl := Multiset.card_eq_zero.mp hzero
            exact ⟨[], f, Runs.init⟩
          · obtain ⟨a, rfl⟩ := Multiset.card_eq_one.mp hone
            exact ⟨_, _, Runs.init.snoc Step.ret⟩

/-- The thread can always come to the end of its program. -/
theorem exists_done (c : Config α) (hc : c.current.card ≤ 1) :
    ∃ es c', Runs Step c es c' ∧ c'.Done := by
  obtain ⟨p, cur, w, r, f⟩ := c
  induction p generalizing cur w r f with
  | nil =>
      obtain ⟨es, f', run⟩ := exists_drained [] hc w r f
      exact ⟨es, _, run, rfl, rfl, rfl, rfl⟩
  | cons act p ih =>
      obtain ⟨es, f', run⟩ := exists_drained (act :: p) hc w r f
      cases act with
      | spawn a =>
          obtain ⟨fs, c', run', hdone⟩ := ih 0 {a} 0 f' (Nat.zero_le _)
          exact ⟨_, c', (run.snoc Step.spawn).trans run', hdone⟩
      | join =>
          obtain ⟨fs, c', run', hdone⟩ := ih 0 0 0 f' (Nat.zero_le _)
          exact ⟨_, c', (run.snoc Step.join).trans run', hdone⟩
      | call a =>
          obtain ⟨fs, c', run', hdone⟩ := ih {a} 0 0 f' (Multiset.card_singleton a).le
          exact ⟨_, c', (run.snoc Step.call).trans run', hdone⟩

end Framework.ForkJoin
