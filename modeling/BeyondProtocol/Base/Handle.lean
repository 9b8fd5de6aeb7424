import Mathlib.Data.List.AList
import BeyondProtocol.Framework.Runs
import BeyondProtocol.Protocol.Packet

/-!
# Callbacks and their handles (`handle.hpp`)

A `Handler` keeps callbacks under ids that it counts up. The `Handle` of a callback holds
a pointer to the handler and the id; it is moved by hand, and the callback is removed
when the handle that owns it goes away.
-/

namespace BeyondProtocol

open Framework

/-! ## §1  `Handler` -/

/-- `Handler`; the jobs that `triggerAsync` counts are not started here. -/
structure Handler (F : Type) where
  callbacks : AList fun _ : Int => F := ∅
  id : Int := 0

/-- How a callback ends: it returns whether to keep it, it throws a `std::exception`, or it throws
something else. -/
inductive Outcome : Type where
  | returned (keep : Bool)
  | exception (what : String)
  | foreign
deriving DecidableEq

/-- How `trigger` ends. -/
inductive TriggerEnd : Type where
  | done
  | fault (what : String)
  | notImplemented
  | foreign
deriving DecidableEq

namespace Handler

variable {F : Type}

/-- `on`, with the id of the handle it returns. -/
def on (s : Handler F) (f : F) : Except Fault (Handler F × Int) :=
  if s.id + 1 < 2 ^ 31 then .ok ({ callbacks := s.callbacks.insert s.id f, id := s.id + 1 }, s.id)
  else .error .undefined

/-- `remove` -/
def remove (s : Handler F) (id : Int) : Handler F := { s with callbacks := s.callbacks.erase id }

/-- The loop of `trigger` over the callbacks, with those it invokes. The first argument is the
message of the last exception. -/
def triggerLoop {C : Type} (call : C → Outcome) : Option String → List C → List C × TriggerEnd
  | fault, [] => ([], fault.elim .done .fault)
  | fault, c :: rest =>
      match call c with
      | .returned true =>
          let (invoked, result) := triggerLoop call fault rest
          (c :: invoked, result)
      | .returned false => ([c], .notImplemented)
      | .exception what =>
          let (invoked, result) := triggerLoop call (some what) rest
          (c :: invoked, result)
      | .foreign => ([c], .foreign)

/-- `trigger`; the map is walked in the order `order`. -/
def trigger (order : List (Sigma fun _ : Int => F)) (call : (Sigma fun _ : Int => F) → Outcome) :
    List (Sigma fun _ : Int => F) × TriggerEnd := triggerLoop call none order

theorem triggerLoop_prefix {C : Type} (call : C → Outcome) (fault : Option String) (cs : List C) :
    (triggerLoop call fault cs).1 <+: cs := by
  induction cs generalizing fault with
  | nil => exact List.prefix_rfl
  | cons c cs ih =>
      unfold triggerLoop
      rcases call c with (_ | _) | what | _
      · exact List.cons_prefix_cons.mpr ⟨rfl, List.nil_prefix⟩
      · exact List.cons_prefix_cons.mpr ⟨rfl, ih fault⟩
      · exact List.cons_prefix_cons.mpr ⟨rfl, ih (some what)⟩
      · exact List.cons_prefix_cons.mpr ⟨rfl, List.nil_prefix⟩

/-- Callbacks that return true or throw a `std::exception` are all invoked. -/
theorem triggerLoop_all {C : Type} {call : C → Outcome} {cs : List C}
    (h : ∀ c ∈ cs, call c = .returned true ∨ ∃ what, call c = .exception what)
    (fault : Option String) : (triggerLoop call fault cs).1 = cs := by
  induction cs generalizing fault with
  | nil => rfl
  | cons c cs ih =>
      obtain ⟨hc, hcs⟩ := List.forall_mem_cons.mp h
      unfold triggerLoop
      rcases hc with hc | ⟨what, hc⟩
      · rw [hc]
        exact congrArg (c :: ·) (ih hcs fault)
      · rw [hc]
        exact congrArg (c :: ·) (ih hcs (some what))

end Handler

/-! ## §2  `Handle` -/

structure Handle (H : Type) where
  handler : Option H := none
  id : Int := 0

/-- The handlers and the live handles of a program. -/
structure Callbacks (H R F : Type) where
  handlers : H → Handler F := fun _ => {}
  handles : R → Option (Handle H) := fun _ => none

namespace Callbacks

variable {H R F : Type} [DecidableEq H] [DecidableEq R]

/-- `handler_` of a handle. -/
def handlerOf (w : Callbacks H R F) (r : R) : Option H := (w.handles r).bind Handle.handler

/-- `id_` of a handle. -/
def idOf (w : Callbacks H R F) (r : R) : Int := ((w.handles r).map Handle.id).getD 0

def setHandler (w : Callbacks H R F) (r : R) (h : Option H) : Callbacks H R F :=
  { w with handles :=
      Function.update w.handles r ((w.handles r).map fun handle => { handle with handler := h }) }

def setId (w : Callbacks H R F) (r : R) (id : Int) : Callbacks H R F :=
  { w with handles :=
      Function.update w.handles r ((w.handles r).map fun handle => { handle with id := id }) }

/-- `if (handler_) handler_->remove(*this);` -/
def release (w : Callbacks H R F) (r : R) : Callbacks H R F :=
  match w.handlerOf r with
  | none => w
  | some h =>
      { w with handlers := Function.update w.handlers h ((w.handlers h).remove (w.idOf r)) }

/-- `Handle()` -/
def create (w : Callbacks H R F) (r : R) : Callbacks H R F :=
  { w with handles := Function.update w.handles r (some {}) }

/-- `operator=(Handle &&)`: `dst = std::move(src)`, which may be the same handle. -/
def moveAssign (w : Callbacks H R F) (dst src : R) : Callbacks H R F :=
  let w := w.release dst
  let w := w.setHandler dst (w.handlerOf src)
  let w := w.setHandler src none
  w.setId dst (w.idOf src)

/-- `Handle(Handle &&)`, which starts without a handler and then does what the assignment does. -/
def moveConstruct (w : Callbacks H R F) (dst src : R) : Callbacks H R F :=
  (w.create dst).moveAssign dst src

def cancel (w : Callbacks H R F) (r : R) : Callbacks H R F := (w.release r).setHandler r none

/-- `~Handle` -/
def destroy (w : Callbacks H R F) (r : R) : Callbacks H R F :=
  { w.release r with handles := Function.update w.handles r none }

end Callbacks

inductive HandleEvent (H R F : Type) : Type where
  /-- `Handle r = h.on(f)` -/
  | on (h : H) (f : F) (r : R)
  | create (r : R)
  | moveConstruct (dst src : R)
  | moveAssign (dst src : R)
  | cancel (r : R)
  | destroy (r : R)
  | trigger (h : H) (order : List (Sigma fun _ : Int => F))
      (call : (Sigma fun _ : Int => F) → Outcome)

def HandleEvent.isOn {H R F : Type} : HandleEvent H R F → Bool
  | .on _ _ _ => true
  | _ => false

namespace Callbacks

variable {H R F : Type} [DecidableEq H] [DecidableEq R]

/-- Handles are used while they are live, and new ones are not in the place of a live one. -/
inductive Step (w : Callbacks H R F) : HandleEvent H R F → Callbacks H R F → Prop where
  | on {h : H} {f : F} {r : R} {s : Handler F} {id : Int} : w.handles r = none →
      (w.handlers h).on f = .ok (s, id) →
      Step w (.on h f r)
        { handlers := Function.update w.handlers h s
          handles := Function.update w.handles r (some { handler := some h, id := id }) }
  | create {r : R} : w.handles r = none → Step w (.create r) (w.create r)
  | moveConstruct {dst src : R} : w.handles dst = none → w.handles src ≠ none →
      Step w (.moveConstruct dst src) (w.moveConstruct dst src)
  | moveAssign {dst src : R} : w.handles dst ≠ none → w.handles src ≠ none →
      Step w (.moveAssign dst src) (w.moveAssign dst src)
  | cancel {r : R} : w.handles r ≠ none → Step w (.cancel r) (w.cancel r)
  | destroy {r : R} : w.handles r ≠ none → Step w (.destroy r) (w.destroy r)
  | trigger {h : H} {order : List (Sigma fun _ : Int => F)}
      {call : (Sigma fun _ : Int => F) → Outcome} :
      order.Perm (w.handlers h).callbacks.entries → Step w (.trigger h order call) w

/-! ## §3  Who owns a registration -/

/-- A live handle points to a registration. -/
def Points (w : Callbacks H R F) (r : R) (h : H) (id : Int) : Prop :=
  w.handles r = some { handler := some h, id := id }

/-- Each registration has one live handle, and each live handle that is not empty has one. -/
structure Owned (w : Callbacks H R F) : Prop where
  registered : ∀ h id, id ∈ (w.handlers h).callbacks ↔ ∃ r, w.Points r h id
  unique : ∀ r r' h id, w.Points r h id → w.Points r' h id → r = r'
  fresh : ∀ h id, id ∈ (w.handlers h).callbacks → id < (w.handlers h).id

omit [DecidableEq R] in
theorem release_handles (w : Callbacks H R F) (r : R) : (w.release r).handles = w.handles := by
  unfold release
  cases w.handlerOf r <;> rfl

omit [DecidableEq H] [DecidableEq R] in
theorem points_iff {w : Callbacks H R F} {r : R} {h : H} {id : Int} :
    w.Points r h id ↔ w.handlerOf r = some h ∧ w.idOf r = id := by
  unfold Points handlerOf idOf
  cases w.handles r with
  | none => simp
  | some handle =>
      obtain ⟨handler, id'⟩ := handle
      simp

omit [DecidableEq R] in
/-- Releasing a handle removes the registration it points to. -/
theorem mem_release {w : Callbacks H R F} {r : R} {h : H} {id : Int} :
    id ∈ ((w.release r).handlers h).callbacks ↔
      id ∈ (w.handlers h).callbacks ∧ ¬ w.Points r h id := by
  rw [points_iff, release]
  cases hhandler : w.handlerOf r with
  | none => simp
  | some h' =>
      by_cases hh : h = h'
      · subst hh
        simp only [Function.update_self, Handler.remove, AList.mem_erase, true_and]
        tauto
      · simp [Function.update_of_ne hh, Ne.symm hh]

omit [DecidableEq R] in
theorem release_id (w : Callbacks H R F) (r : R) (h : H) :
    ((w.release r).handlers h).id = (w.handlers h).id := by
  unfold release
  cases w.handlerOf r with
  | none => rfl
  | some h' =>
      by_cases hh : h = h'
      · subst hh
        simp [Handler.remove]
      · simp [Function.update_of_ne hh]

/-- The registration of `src` goes over to `dst`, and what `dst` had is removed. With the same
handle for both, it is removed. -/
structure Moved (w w' : Callbacks H R F) (dst src : R) : Prop where
  callbacks : ∀ h id, id ∈ (w'.handlers h).callbacks ↔
    id ∈ (w.handlers h).callbacks ∧ ¬ w.Points dst h id
  points : ∀ r h id, w'.Points r h id ↔
    r ≠ dst ∧ r ≠ src ∧ w.Points r h id ∨ r = dst ∧ dst ≠ src ∧ w.Points src h id
  ids : ∀ h, (w'.handlers h).id = (w.handlers h).id

omit [DecidableEq H] in
theorem Owned.moved {w w' : Callbacks H R F} {dst src : R} (hw : Owned w)
    (h : Moved w w' dst src) : Owned w' := by
  refine ⟨fun k id => ?_, fun r r' k id hr hr' => ?_, fun k id hid => ?_⟩
  · rw [h.callbacks, hw.registered]
    constructor
    · rintro ⟨⟨r, hr⟩, hnot⟩
      have hdst : r ≠ dst := fun heq => hnot (heq ▸ hr)
      by_cases hsrc : r = src
      · subst hsrc
        exact ⟨dst, (h.points dst k id).mpr (.inr ⟨rfl, hdst.symm, hr⟩)⟩
      · exact ⟨r, (h.points r k id).mpr (.inl ⟨hdst, hsrc, hr⟩)⟩
    · rintro ⟨r, hr⟩
      rcases (h.points r k id).mp hr with ⟨hdst, -, hr⟩ | ⟨-, hne, hr⟩
      · exact ⟨⟨r, hr⟩, fun hd => hdst (hw.unique _ _ k id hr hd)⟩
      · exact ⟨⟨src, hr⟩, fun hd => hne (hw.unique _ _ k id hd hr)⟩
  · rcases (h.points r k id).mp hr with ⟨-, hsrc, hp⟩ | ⟨rfl, -, hp⟩
    · rcases (h.points r' k id).mp hr' with ⟨-, -, hp'⟩ | ⟨-, -, hp'⟩
      · exact hw.unique r r' k id hp hp'
      · exact absurd (hw.unique r src k id hp hp') hsrc
    · rcases (h.points r' k id).mp hr' with ⟨-, hsrc', hp'⟩ | ⟨rfl, -, -⟩
      · exact absurd (hw.unique r' src k id hp' hp) hsrc'
      · rfl
  · rw [h.ids]
    exact hw.fresh k id ((h.callbacks k id).mp hid).1

theorem moveAssign_handles {w : Callbacks H R F} {dst src : R} {handle handle' : Handle H}
    (hdst : w.handles dst = some handle) (hsrc : w.handles src = some handle') (r : R) :
    (w.moveAssign dst src).handles r =
      if r = dst then
        some { handler := if dst = src then none else handle'.handler, id := handle'.id }
      else if r = src then some { handler := none, id := handle'.id }
      else w.handles r := by
  unfold moveAssign setId setHandler handlerOf idOf
  simp only [release_handles, Function.update_apply]
  by_cases hsame : dst = src
  · subst hsame
    by_cases hr : r = dst
    · simp [hr, hsrc]
    · simp [hr]
  · by_cases hr : r = dst
    · simp [hr, hsame, Ne.symm hsame, hdst, hsrc]
    · by_cases hr' : r = src
      · simp [hr', Ne.symm hsame, hsrc]
      · simp [hr, hr']

theorem moved_moveAssign {w : Callbacks H R F} {dst src : R} (hdst : w.handles dst ≠ none)
    (hsrc : w.handles src ≠ none) : Moved w (w.moveAssign dst src) dst src := by
  obtain ⟨handle, hhandle⟩ := Option.ne_none_iff_exists'.mp hdst
  obtain ⟨handle', hhandle'⟩ := Option.ne_none_iff_exists'.mp hsrc
  refine ⟨fun h id => mem_release, fun r h id => ?_, release_id w dst⟩
  unfold Points
  rw [moveAssign_handles hhandle hhandle', hhandle']
  obtain ⟨handler', id'⟩ := handle'
  by_cases hr : r = dst
  · by_cases hsame : dst = src
    · simp [hr, hsame]
    · simp [hr, hsame]
  · by_cases hr' : r = src
    · have hne : src ≠ dst := hr' ▸ hr
      simp [hr', hne]
    · simp [hr, hr']

theorem moved_cancel {w : Callbacks H R F} (r : R) : Moved w (w.cancel r) r r := by
  refine ⟨fun h id => mem_release, fun r' h id => ?_, release_id w r⟩
  unfold Points cancel setHandler
  simp only [release_handles, Function.update_apply]
  by_cases hr : r' = r
  · cases w.handles r <;> simp [hr]
  · simp [hr]

theorem moved_destroy {w : Callbacks H R F} (r : R) : Moved w (w.destroy r) r r := by
  refine ⟨fun h id => mem_release, fun r' h id => ?_, release_id w r⟩
  unfold Points destroy
  simp only [Function.update_apply]
  by_cases hr : r' = r
  · simp [hr]
  · simp [hr]

omit [DecidableEq H] in
/-- An empty handle points to nothing. -/
theorem points_create {w : Callbacks H R F} {r : R} (hfree : w.handles r = none) (r' : R) (h : H)
    (id : Int) : (w.create r).Points r' h id ↔ w.Points r' h id := by
  unfold Points create
  simp only [Function.update_apply]
  by_cases hr : r' = r
  · simp [hr, hfree]
  · simp [hr]

omit [DecidableEq H] in
theorem Owned.create {w : Callbacks H R F} (hw : Owned w) {r : R} (hfree : w.handles r = none) :
    Owned (w.create r) := by
  refine ⟨fun h id => ?_, fun r₁ r₂ h id h₁ h₂ => ?_, hw.fresh⟩
  · simp only [points_create hfree]
    exact hw.registered h id
  · exact hw.unique r₁ r₂ h id ((points_create hfree r₁ h id).mp h₁)
      ((points_create hfree r₂ h id).mp h₂)

theorem Owned.on {w : Callbacks H R F} (hw : Owned w) {h : H} {f : F} {r : R} {s : Handler F}
    {id : Int} (hfree : w.handles r = none) (hon : (w.handlers h).on f = .ok (s, id)) :
    Owned
      { handlers := Function.update w.handlers h s
        handles := Function.update w.handles r (some { handler := some h, id := id }) } := by
  unfold Handler.on at hon
  split_ifs at hon with hrange
  cases hon
  have hregistered : ∀ k id, id ∈ (Function.update w.handlers h
      { callbacks := (w.handlers h).callbacks.insert (w.handlers h).id f
        id := (w.handlers h).id + 1 } k).callbacks ↔
      k = h ∧ id = (w.handlers h).id ∨ id ∈ (w.handlers k).callbacks := by
    intro k id
    by_cases hk : k = h
    · subst hk
      simp [AList.mem_insert]
    · simp [hk]
  have hpoints : ∀ r' k id, Function.update w.handles r
      (some { handler := some h, id := (w.handlers h).id }) r' =
        some { handler := some k, id := id } ↔
      r' = r ∧ k = h ∧ id = (w.handlers h).id ∨ w.Points r' k id := by
    intro r' k id
    by_cases hr : r' = r
    · subst hr
      simp [Points, hfree, eq_comm]
    · simp [Points, hr]
  -- the new id is not in use
  have hnew : ∀ r', ¬ w.Points r' h (w.handlers h).id :=
    fun r' hr' => lt_irrefl _ (hw.fresh h _ ((hw.registered h _).mpr ⟨r', hr'⟩))
  refine ⟨fun k id => ?_, fun r₁ r₂ k id h₁ h₂ => ?_, fun k id hid => ?_⟩
  · rw [hregistered, hw.registered]
    constructor
    · rintro (⟨rfl, rfl⟩ | ⟨r', hr'⟩)
      · exact ⟨r, (hpoints r _ _).mpr (.inl ⟨rfl, rfl, rfl⟩)⟩
      · exact ⟨r', (hpoints r' k id).mpr (.inr hr')⟩
    · rintro ⟨r', hr'⟩
      rcases (hpoints r' k id).mp hr' with ⟨-, rfl, rfl⟩ | hr'
      · exact .inl ⟨rfl, rfl⟩
      · exact .inr ⟨r', hr'⟩
  · rcases (hpoints r₁ k id).mp h₁ with ⟨rfl, rfl, rfl⟩ | hp₁
    · rcases (hpoints r₂ k _).mp h₂ with ⟨rfl, -, -⟩ | hp₂
      · rfl
      · exact absurd hp₂ (hnew r₂)
    · rcases (hpoints r₂ k id).mp h₂ with ⟨rfl, rfl, rfl⟩ | hp₂
      · exact absurd hp₁ (hnew r₁)
      · exact hw.unique r₁ r₂ k id hp₁ hp₂
  · show id < (Function.update w.handlers h _ k).id
    rcases (hregistered k id).mp hid with ⟨rfl, rfl⟩ | hid
    · rw [Function.update_self]
      exact lt_add_one _
    · have hlt := hw.fresh k id hid
      by_cases hk : k = h
      · subst hk
        rw [Function.update_self]
        exact lt_trans hlt (lt_add_one _)
      · rw [Function.update_of_ne hk]
        exact hlt

/-- **One step** keeps the registrations and their handles in step. -/
theorem Owned.step {w w' : Callbacks H R F} {e : HandleEvent H R F} (hw : Owned w)
    (h : Step w e w') : Owned w' := by
  cases h with
  | on hfree hon => exact hw.on hfree hon
  | create hfree => exact hw.create hfree
  | @moveConstruct dst src hfree hsrc =>
      have hne : dst ≠ src := fun heq => hsrc (heq ▸ hfree)
      refine (hw.create hfree).moved (moved_moveAssign ?_ ?_)
      · simp [Callbacks.create]
      · simpa [Callbacks.create, Function.update_of_ne hne.symm] using hsrc
  | moveAssign hdst hsrc => exact hw.moved (moved_moveAssign hdst hsrc)
  | cancel _ => exact hw.moved (moved_cancel _)
  | destroy _ => exact hw.moved (moved_destroy _)
  | trigger _ => exact hw

theorem runs_owned {events : List (HandleEvent H R F)} {w : Callbacks H R F}
    (run : Runs Step {} events w) : Owned w := by
  refine run.invariant (I := Owned) ⟨fun h id => ?_, ?_, ?_⟩ fun _ _ _ => Owned.step
  · exact iff_of_false (AList.notMem_empty id) fun ⟨_, hr⟩ => nomatch hr
  · exact fun _ _ _ _ hr => nomatch hr
  · exact fun _ id hid => absurd hid (AList.notMem_empty id)

theorem moveAssign_id (w : Callbacks H R F) (dst src : R) (h : H) :
    ((w.moveAssign dst src).handlers h).id = (w.handlers h).id := release_id w dst h

/-- A handler gave out at most as many ids as there were calls of `on`. -/
theorem runs_id {events : List (HandleEvent H R F)} {w : Callbacks H R F}
    (run : Runs Step {} events w) (h : H) :
    (w.handlers h).id ≤ (events.countP HandleEvent.isOn : Int) := by
  refine run.invariant_hist
    (I := fun events w => (w.handlers h).id ≤ (events.countP HandleEvent.isOn : Int)) le_rfl ?_
  intro events w e w' hle hstep
  rw [List.countP_append, List.countP_singleton]
  cases hstep with
  | @on k f r s id hfree hon =>
      unfold Handler.on at hon
      split_ifs at hon
      cases hon
      show (Function.update w.handlers k _ h).id ≤ ((List.countP _ events + 1 : Nat) : Int)
      by_cases hk : h = k
      · subst hk
        rw [Function.update_self]
        push_cast
        omega
      · rw [Function.update_of_ne hk]
        push_cast
        omega
  | create _ => exact hle
  | moveConstruct _ _ =>
      exact (moveAssign_id _ _ _ h).trans_le hle
  | moveAssign _ _ => exact (moveAssign_id _ _ _ h).trans_le hle
  | cancel _ => exact (release_id _ _ h).trans_le hle
  | destroy _ => exact (release_id _ _ h).trans_le hle
  | trigger _ => exact hle

/-- In every state the ids registered in a handler are those of the live handles that point to it,
each of one handle, and `trigger` invokes no callback but these and none twice: all of them, unless
one throws what is not a `std::exception`. As long as there are fewer than 2^31 calls of `on`, the
next one has an id. -/
theorem handles_own_registrations {events : List (HandleEvent H R F)} {w : Callbacks H R F}
    (run : Runs Step {} events w) :
    (∀ h id, id ∈ (w.handlers h).callbacks ↔
      ∃ r, w.handles r = some { handler := some h, id := id }) ∧
    (∀ r r' h id, w.handles r = some { handler := some h, id := id } →
      w.handles r' = some { handler := some h, id := id } → r = r') ∧
    (∀ h order call, order.Perm (w.handlers h).callbacks.entries →
      (Handler.trigger order call).1 <+: order ∧ (order.map Sigma.fst).Nodup ∧
      ((∀ c ∈ order, call c = .returned true ∨ ∃ what, call c = .exception what) →
        (Handler.trigger order call).1 = order ∧
        ∀ id, id ∈ order.map Sigma.fst ↔
          ∃ r, w.handles r = some { handler := some h, id := id })) ∧
    (events.countP HandleEvent.isOn + 1 < 2 ^ 31 →
      ∀ h f, ∃ s id, (w.handlers h).on f = .ok (s, id)) := by
  have hw := runs_owned run
  refine ⟨hw.registered, hw.unique, fun h order call hperm => ⟨?_, ?_, fun hcall => ⟨?_, ?_⟩⟩, ?_⟩
  · exact Handler.triggerLoop_prefix call none order
  · exact (hperm.map Sigma.fst).nodup_iff.mpr (w.handlers h).callbacks.nodupKeys
  · exact Handler.triggerLoop_all hcall none
  · intro id
    rw [(hperm.map Sigma.fst).mem_iff]
    exact hw.registered h id
  · intro hcount h f
    have hid := runs_id run h
    exact ⟨_, _, if_pos (by omega)⟩

/-- Two callbacks of one handler, the second registered through a handle that had another one. -/
def replacedHandle : List (HandleEvent Unit Nat Nat) :=
  [.on () 10 0, .on () 20 1, .on () 30 2, .moveAssign 1 2, .moveAssign 0 0]

theorem handles_own_registrations_replaced :
    ∃ w, Runs Step {} replacedHandle w ∧
      (∀ id, id ∈ (w.handlers ()).callbacks ↔
        ∃ r, w.handles r = some { handler := some (), id := id }) ∧
      2 ∈ (w.handlers ()).callbacks := by
  have hrun : Runs Step {} replacedHandle _ :=
    ((((Runs.init.snoc (.on rfl rfl)).snoc (.on rfl rfl)).snoc (.on rfl rfl)).snoc
      (.moveAssign nofun nofun)).snoc (.moveAssign nofun nofun)
  exact ⟨_, hrun, (handles_own_registrations hrun).1 (), by decide⟩

/-- An exception that is not a `std::exception` ends `trigger`: the second callback is not
invoked. -/
theorem foreign_exception_skips :
    ∃ (w : Callbacks Unit Nat Nat) (order : List (Sigma fun _ : Int => Nat)),
      Runs Step {} [.on () 10 0, .on () 20 1] w ∧
      order.Perm (w.handlers ()).callbacks.entries ∧ ⟨1, 20⟩ ∈ order ∧
      w.handles 1 = some { handler := some (), id := 1 } ∧
      ⟨1, 20⟩ ∉ (Handler.trigger order fun c =>
        if c.1 = 0 then .foreign else .returned true).1 := by
  have hrun : Runs Step {} [.on () 10 0, .on () 20 1] (_ : Callbacks Unit Nat Nat) :=
    (Runs.init.snoc (.on rfl rfl)).snoc (.on rfl rfl)
  exact ⟨_, [⟨0, 10⟩, ⟨1, 20⟩], hrun, by decide, by decide, rfl, by decide⟩

end Callbacks

end BeyondProtocol
