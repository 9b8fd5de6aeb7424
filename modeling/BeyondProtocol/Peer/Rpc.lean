import Mathlib.Algebra.Group.Nat.Defs
import Mathlib.Data.List.Perm.Basic
import BeyondProtocol.Framework.Runs

/-!
# Calls and their responses (`peer.hpp`, `peer.cpp`, `dispatcher.cpp`)

The ids come from one counter of the process, travel as `uint32_t` and key the `int` map
`callbacks_` of each peer. A response takes its callback out of the map before it runs it,
so the two are separate steps here and anything may come between them.

A promise lives in its callback. Where the callback goes unused, by `cancelCall` or because
the response does not convert, the future gets `broken_promise`, and that counts as its
completion.
-/

namespace BeyondProtocol.Rpc

open Framework

/-! ## §1  The source functions -/

/-- What the code asks of a `msgpack::object`; `κ` are the result types that calls are made for. -/
structure Msgpack (ω κ τ : Type) where
  /-- `via.i64` -/
  i64 : ω → Int
  isNil : ω → Bool
  toUInt32 : ω → Option (BitVec 32)
  toString : ω → Option String
  convert : κ → ω → Option τ

/-- `ftl::protocol::Error`, those of a response. -/
inductive Error : Type where
  | kRPCResponse
  | kDispatchFailed
deriving DecidableEq, Repr

/-- How a future is completed. -/
inductive Outcome (τ : Type) : Type where
  | value (v : τ)
  | exception (errmsg : String)
  | brokenPromise
deriving DecidableEq, Repr

/-- An entry of `callbacks_`: the promise of the call of that number, and its type. -/
structure Callback (κ : Type) where
  call : Nat
  type : κ
deriving DecidableEq, Repr

/-- A callback that a response has taken out of the map. -/
structure Taken (π ω κ : Type) where
  peer : π
  id : BitVec 32
  cb : Callback κ
  res : ω
  err : ω
deriving DecidableEq, Repr

/-- The future of `call` is completed, by what came for this id at this peer. -/
structure Completion (π τ : Type) where
  peer : π
  id : BitVec 32
  call : Nat
  outcome : Outcome τ
deriving DecidableEq, Repr

structure State (π ω κ τ : Type) where
  /-- `rpcid__` -/
  rpcid : BitVec 32 := 0
  /-- `callbacks_` of each peer -/
  callbacks : π → Int → Option (Callback κ) := fun _ _ => none
  taken : List (Taken π ω κ) := []
  /-- The calls made so far, with the peer and the id each was given. -/
  calls : List (π × BitVec 32) := []
  completed : List (Completion π τ) := []
  /-- What `notifyError_` was told. -/
  errors : List (π × Error × String) := []

inductive Event (π ω κ : Type) : Type where
  | asyncCall (p : π) (type : κ)
  /-- The `int` is given by its bits. -/
  | cancelCall (p : π) (id : BitVec 32)
  | message (p : π) (msg : List ω)
  /-- The callback of this place among those taken runs. -/
  | callback (i : Nat)
deriving DecidableEq, Repr

def Event.isCall {π ω κ : Type} : Event π ω κ → Bool
  | .asyncCall _ _ => true
  | _ => false

variable {π ω κ τ : Type}

/-- Runs the callback, up to the end of its promise. -/
def Taken.outcome (M : Msgpack ω κ τ) (r : Taken π ω κ) : Outcome τ :=
  if M.isNil r.err then
    match M.convert r.cb.type r.res with
    | some value => .value value
    | none => .brokenPromise
  else
    match M.toString r.err with
    | some errmsg => .exception errmsg
    | none => .brokenPromise

namespace State

section Dispatch

variable [DecidableEq π]

def notifyError (s : State π ω κ τ) (p : π) (error : Error) (what : String) : State π ω κ τ :=
  { s with errors := s.errors ++ [(p, error, what)] }

/-- `callbacks_[key] = cb` at one peer, or its erasure. -/
def setCallback (s : State π ω κ τ) (p : π) (key : Int) (cb : Option (Callback κ)) :
    π → Int → Option (Callback κ) :=
  Function.update s.callbacks p (Function.update (s.callbacks p) key cb)

/-- The promise that goes with the callback in this place, if there is one. -/
def brokenPromise (s : State π ω κ τ) (p : π) (id : BitVec 32) : List (Completion π τ) :=
  (s.callbacks p id.toInt).toList.map fun cb => ⟨p, id, cb.call, .brokenPromise⟩

def asyncCall (s : State π ω κ τ) (p : π) (type : κ) : State π ω κ τ :=
  { s with
    rpcid := s.rpcid + 1
    callbacks := s.setCallback p s.rpcid.toInt (some ⟨s.calls.length, type⟩)
    calls := s.calls ++ [(p, s.rpcid)]
    completed := s.completed ++ s.brokenPromise p s.rpcid }

def cancelCall (s : State π ω κ τ) (p : π) (id : BitVec 32) : State π ω κ τ :=
  if (s.callbacks p id.toInt).isSome then
    { s with
      callbacks := s.setCallback p id.toInt none
      completed := s.completed ++ s.brokenPromise p id }
  else s

/-- `_dispatchResponse`, up to the unlock. -/
def dispatchResponse (s : State π ω κ τ) (p : π) (id : BitVec 32) (err res : ω) :
    State π ω κ τ :=
  match s.callbacks p id.toInt with
  | some cb =>
      { s with
        callbacks := s.setCallback p id.toInt none
        taken := s.taken ++ [⟨p, id, cb, res, err⟩] }
  | none => s.notifyError p .kRPCResponse "Missing RPC callback for result - discarding"

/-- The rest of `_dispatchResponse`. -/
def runCallback (M : Msgpack ω κ τ) (s : State π ω κ τ) (i : Nat) (r : Taken π ω κ) :
    State π ω κ τ :=
  let t := { s with
    taken := s.taken.eraseIdx i
    completed := s.completed ++ [⟨r.peer, r.id, r.cb.call, r.outcome M⟩] }
  match r.outcome M with
  | .brokenPromise => t.notifyError r.peer .kRPCResponse "std::bad_cast"
  | _ => t

/-- `Dispatcher::dispatch`. What the handler of a call or of a notification does here, it does
by calls of its own. -/
def dispatch (M : Msgpack ω κ τ) (s : State π ω κ τ) (p : π) :
    List ω → Except String (State π ω κ τ)
  | [_, _, _] => .ok s
  | [type, id, err, res] =>
      if M.i64 type = 1 then
        match M.toUInt32 type, M.toUInt32 id with
        | some _, some k => .ok (s.dispatchResponse p k err res)
        | _, _ => .error "Bad response format"
      else .ok s
  | msg => .error s!"Unrecognised msgpack : {msg.length}"

/-- `process_message_` -/
def processMessage (M : Msgpack ω κ τ) (s : State π ω κ τ) (p : π) (msg : List ω) :
    State π ω κ τ :=
  match s.dispatch M p msg with
  | .ok t => t
  | .error what => s.notifyError p .kDispatchFailed what

def handle (M : Msgpack ω κ τ) (s : State π ω κ τ) : Event π ω κ → State π ω κ τ
  | .asyncCall p type => s.asyncCall p type
  | .cancelCall p id => s.cancelCall p id
  | .message p msg => s.processMessage M p msg
  | .callback i =>
      match s.taken[i]? with
      | some r => s.runCallback M i r
      | none => s

def Step (M : Msgpack ω κ τ) (s : State π ω κ τ) (e : Event π ω κ) (t : State π ω κ τ) : Prop :=
  t = s.handle M e

theorem runs_foldl (M : Msgpack ω κ τ) (s : State π ω κ τ) (es : List (Event π ω κ)) :
    Runs (Step M) s es (es.foldl (handle M) s) := by
  apply Runs.of_foldl
  intro s e
  rfl

/-! ## §2  What a step does -/

theorem setCallback_apply (s : State π ω κ τ) (p q : π) (key j : Int) (cb : Option (Callback κ)) :
    s.setCallback p key cb q j = if q = p ∧ j = key then cb else s.callbacks q j := by
  unfold setCallback
  by_cases hq : q = p
  · subst hq
    rw [Function.update_self, Function.update_apply]
    simp
  · rw [Function.update_of_ne hq]
    simp [hq]

/-- The steps as they change calls and futures; the errors only grow. -/
inductive Moves (M : Msgpack ω κ τ) (s : State π ω κ τ) : Event π ω κ → State π ω κ τ → Prop where
  | call (p : π) (type : κ) : Moves M s (.asyncCall p type) (s.asyncCall p type)
  | cancel (p : π) (id : BitVec 32) (cb : Callback κ) (h : s.callbacks p id.toInt = some cb) :
      Moves M s (.cancelCall p id)
        { s with
          callbacks := s.setCallback p id.toInt none
          completed := s.completed ++ [⟨p, id, cb.call, .brokenPromise⟩] }
  | take (p : π) (type id err res : ω) (k : BitVec 32) (cb : Callback κ)
      (hk : M.toUInt32 id = some k) (h : s.callbacks p k.toInt = some cb) :
      Moves M s (.message p [type, id, err, res])
        { s with
          callbacks := s.setCallback p k.toInt none
          taken := s.taken ++ [⟨p, k, cb, res, err⟩] }
  | complete (i : Nat) (r : Taken π ω κ) (errors : List (π × Error × String))
      (h : s.taken[i]? = some r) :
      Moves M s (.callback i)
        { s with
          taken := s.taken.eraseIdx i
          completed := s.completed ++ [⟨r.peer, r.id, r.cb.call, r.outcome M⟩]
          errors := errors }
  | note (e : Event π ω κ) (errors : List (π × Error × String)) (he : e.isCall = false) :
      Moves M s e { s with errors := errors }

theorem cancelCall_moves (M : Msgpack ω κ τ) (s : State π ω κ τ) (p : π) (id : BitVec 32) :
    Moves M s (.cancelCall p id) (s.cancelCall p id) := by
  unfold cancelCall brokenPromise
  cases h : s.callbacks p id.toInt with
  | none => exact .note _ _ rfl
  | some cb => exact .cancel p id cb h

theorem processMessage_moves (M : Msgpack ω κ τ) (s : State π ω κ τ) (p : π) (msg : List ω) :
    Moves M s (.message p msg) (s.processMessage M p msg) := by
  unfold processMessage
  fun_cases dispatch M s p msg with
  | case1 => exact .note _ _ rfl
  | case2 type id err res htype t k hk ht =>
      simp only [dispatchResponse]
      cases h : s.callbacks p k.toInt with
      | none => exact .note _ _ rfl
      | some cb => exact .take p type id err res k cb hk h
  | case3 => exact .note _ _ rfl
  | case4 => exact .note _ _ rfl
  | case5 => exact .note _ _ rfl

theorem runCallback_moves (M : Msgpack ω κ τ) (s : State π ω κ τ) {i : Nat} {r : Taken π ω κ}
    (h : s.taken[i]? = some r) : Moves M s (.callback i) (s.runCallback M i r) := by
  simp only [runCallback]
  split
  · exact .complete i r _ h
  · exact .complete i r _ h

theorem handle_moves (M : Msgpack ω κ τ) (s : State π ω κ τ) (e : Event π ω κ) :
    Moves M s e (s.handle M e) := by
  cases e with
  | asyncCall p type => exact .call p type
  | cancelCall p id => exact s.cancelCall_moves M p id
  | message p msg => exact s.processMessage_moves M p msg
  | callback i =>
      simp only [handle]
      cases h : s.taken[i]? with
      | none => exact .note _ _ rfl
      | some r => exact s.runCallback_moves M h

end Dispatch

/-! ## §3  Every call is in one place -/

/-- A call with the response, or the cancellation, that has taken its callback. -/
structure Answer (π : Type) where
  peer : π
  id : BitVec 32
  call : Nat
deriving DecidableEq, Repr

/-- The calls whose callbacks are no longer in the map. -/
def settled (s : State π ω κ τ) : List (Answer π) :=
  s.taken.map (fun r => ⟨r.peer, r.id, r.cb.call⟩) ++
    s.completed.map (fun a => ⟨a.peer, a.id, a.call⟩)

/-- A call is pending under the id it was given or settled under it, and never both. -/
structure Matched (s : State π ω κ τ) : Prop where
  bounded : s.calls.length ≤ 2 ^ 32
  counter : s.rpcid = BitVec.ofNat 32 s.calls.length
  ids : ∀ {n p id}, s.calls[n]? = some (p, id) → id = BitVec.ofNat 32 n
  pending : ∀ {p k cb}, s.callbacks p k = some cb →
    ∃ id, s.calls[cb.call]? = some (p, id) ∧ id.toInt = k
  unsettled : ∀ {p k cb}, s.callbacks p k = some cb → cb.call ∉ s.settled.map (·.call)
  answered : ∀ a ∈ s.settled, s.calls[a.call]? = some (a.peer, a.id)
  once : (s.settled.map (·.call)).Nodup
  accounted : ∀ {n p id}, s.calls[n]? = some (p, id) →
    (∃ cb, s.callbacks p id.toInt = some cb ∧ cb.call = n) ∨ n ∈ s.settled.map (·.call)

theorem eq_of_ofNat {m n : Nat} (hm : m < 2 ^ 32) (hn : n < 2 ^ 32)
    (h : BitVec.ofNat 32 m = BitVec.ofNat 32 n) : m = n := by
  have htoNat := congrArg BitVec.toNat h
  rwa [BitVec.toNat_ofNat, BitVec.toNat_ofNat, Nat.mod_eq_of_lt hm, Nat.mod_eq_of_lt hn] at htoNat

/-- While the counter has not gone round, an id belongs to one call. -/
theorem Matched.call_unique {s : State π ω κ τ} (h : s.Matched) {m n : Nat} {p q : π}
    {id : BitVec 32} (hm : s.calls[m]? = some (p, id)) (hn : s.calls[n]? = some (q, id)) :
    m = n := by
  have hmlt := (List.getElem?_eq_some_iff.mp hm).1
  have hnlt := (List.getElem?_eq_some_iff.mp hn).1
  apply eq_of_ofNat (Nat.lt_of_lt_of_le hmlt h.bounded) (Nat.lt_of_lt_of_le hnlt h.bounded)
  rw [← h.ids hm, ← h.ids hn]

/-- The entry in the place of a call's id is the one of that call. -/
theorem Matched.pending_call {s : State π ω κ τ} (h : s.Matched) {n : Nat} {p q : π}
    {id : BitVec 32} {cb : Callback κ} (hcb : s.callbacks q id.toInt = some cb)
    (hn : s.calls[n]? = some (p, id)) : cb.call = n := by
  obtain ⟨id', hcall, hid⟩ := h.pending hcb
  rw [BitVec.toInt_inj] at hid
  subst hid
  exact h.call_unique hcall hn

theorem Matched.fresh {s : State π ω κ τ} (h : s.Matched) (hlt : s.calls.length < 2 ^ 32)
    (p : π) : s.callbacks p s.rpcid.toInt = none := by
  by_contra hne
  obtain ⟨cb, hcb⟩ := Option.ne_none_iff_exists'.mp hne
  obtain ⟨id, hcall, hid⟩ := h.pending hcb
  rw [BitVec.toInt_inj] at hid
  have hbound := (List.getElem?_eq_some_iff.mp hcall).1
  have heq : cb.call = s.calls.length := by
    apply eq_of_ofNat (Nat.lt_trans hbound hlt) hlt
    rw [← h.ids hcall, hid, h.counter]
  omega

theorem Matched.completed_call {s : State π ω κ τ} (h : s.Matched) {a : Completion π τ}
    (ha : a ∈ s.completed) : s.calls[a.call]? = some (a.peer, a.id) := by
  apply h.answered ⟨a.peer, a.id, a.call⟩
  exact List.mem_append_right _ (List.mem_map_of_mem ha)

theorem Matched.completed_once {s : State π ω κ τ} (h : s.Matched) :
    (s.completed.map (·.call)).Nodup := by
  have honce := h.once
  simp only [settled, List.map_append, List.map_map] at honce
  exact (List.nodup_append.mp honce).2.1

theorem matched_init : ({} : State π ω κ τ).Matched where
  bounded := by simp
  counter := rfl
  ids := by simp
  pending := by simp
  unsettled := by simp
  answered := by simp [settled]
  once := by simp [settled]
  accounted := by simp

/-- A taken callback is done, or nothing but an error is noted. -/
theorem Matched.permute {s t : State π ω κ τ} (h : s.Matched) (hrpcid : t.rpcid = s.rpcid)
    (hcalls : t.calls = s.calls) (hcallbacks : t.callbacks = s.callbacks)
    (hsettled : t.settled.Perm s.settled) : t.Matched := by
  have hmap := hsettled.map (·.call)
  constructor
  · rw [hcalls]
    exact h.bounded
  · rw [hrpcid, hcalls]
    exact h.counter
  · rw [hcalls]
    exact h.ids
  · rw [hcallbacks, hcalls]
    exact h.pending
  · intro p k cb hcb
    rw [hmap.mem_iff]
    exact h.unsettled (hcallbacks ▸ hcb)
  · intro a ha
    rw [hcalls]
    exact h.answered a (hsettled.mem_iff.mp ha)
  · rw [hmap.nodup_iff]
    exact h.once
  · intro n p id hn
    rw [hcallbacks, hmap.mem_iff]
    exact h.accounted (hcalls ▸ hn)

theorem settled_completed (s : State π ω κ τ) (callbacks : π → Int → Option (Callback κ))
    (a : Completion π τ) :
    ({ s with callbacks := callbacks, completed := s.completed ++ [a] }).settled.Perm
      (⟨a.peer, a.id, a.call⟩ :: s.settled) := by
  simp only [settled, List.map_append, List.map_cons, List.map_nil, ← List.append_assoc]
  exact List.perm_append_singleton _ _

theorem settled_taken (s : State π ω κ τ) (callbacks : π → Int → Option (Callback κ))
    (r : Taken π ω κ) :
    ({ s with callbacks := callbacks, taken := s.taken ++ [r] }).settled.Perm
      (⟨r.peer, r.id, r.cb.call⟩ :: s.settled) := by
  simp only [settled, List.map_append, List.map_cons, List.map_nil, List.append_assoc]
  exact List.perm_middle

theorem settled_complete (s : State π ω κ τ) {i : Nat} {r : Taken π ω κ}
    (h : s.taken[i]? = some r) (outcome : Outcome τ) (errors : List (π × Error × String)) :
    ({ s with
      taken := s.taken.eraseIdx i
      completed := s.completed ++ [(⟨r.peer, r.id, r.cb.call, outcome⟩ : Completion π τ)]
      errors := errors } : State π ω κ τ).settled.Perm s.settled := by
  obtain ⟨hi, rfl⟩ := List.getElem?_eq_some_iff.mp h
  have htaken := (List.getElem_cons_eraseIdx_perm hi).map
    fun r => (⟨r.peer, r.id, r.cb.call⟩ : Answer π)
  simp only [settled, List.map_append, List.map_cons, List.map_nil, ← List.append_assoc]
  refine (List.perm_append_singleton _ _).trans ?_
  exact htaken.append_right _

variable [DecidableEq π]

/-- What an erasure leaves in the map belongs to other calls. -/
theorem Matched.kept {s : State π ω κ τ} (h : s.Matched) {n : Nat} {p q : π} {id : BitVec 32}
    {k : Int} {c : Callback κ} (hn : s.calls[n]? = some (p, id))
    (hc : s.setCallback p id.toInt none q k = some c) : s.callbacks q k = some c ∧ c.call ≠ n := by
  rw [setCallback_apply] at hc
  split at hc
  · cases hc
  · next hne =>
      refine ⟨hc, ?_⟩
      rintro rfl
      obtain ⟨id', hcall, hk⟩ := h.pending hc
      rw [hn] at hcall
      cases hcall
      exact hne ⟨rfl, hk.symm⟩

/-- A callback leaves the map, and its call is settled. -/
theorem Matched.settle {s t : State π ω κ τ} (h : s.Matched) {p : π} {id : BitVec 32}
    {cb : Callback κ} (hcb : s.callbacks p id.toInt = some cb) (hrpcid : t.rpcid = s.rpcid)
    (hcalls : t.calls = s.calls) (hcallbacks : t.callbacks = s.setCallback p id.toInt none)
    (hsettled : t.settled.Perm (⟨p, id, cb.call⟩ :: s.settled)) : t.Matched := by
  have hmap : (t.settled.map (·.call)).Perm (cb.call :: s.settled.map (·.call)) :=
    hsettled.map (·.call)
  obtain ⟨id', hcall, hid⟩ := h.pending hcb
  rw [BitVec.toInt_inj] at hid
  subst hid
  have hkept : ∀ {q k c}, t.callbacks q k = some c →
      s.callbacks q k = some c ∧ c.call ≠ cb.call := by
    intro q k c hc
    rw [hcallbacks] at hc
    exact h.kept hcall hc
  constructor
  · rw [hcalls]
    exact h.bounded
  · rw [hrpcid, hcalls]
    exact h.counter
  · rw [hcalls]
    exact h.ids
  · intro q k c hc
    rw [hcalls]
    exact h.pending (hkept hc).1
  · intro q k c hc
    rw [hmap.mem_iff, List.mem_cons]
    rintro (heq | hmem)
    · exact (hkept hc).2 heq
    · exact h.unsettled (hkept hc).1 hmem
  · intro a ha
    rw [hcalls]
    rcases List.mem_cons.mp (hsettled.mem_iff.mp ha) with rfl | ha
    · exact hcall
    · exact h.answered a ha
  · rw [hmap.nodup_iff, List.nodup_cons]
    exact ⟨h.unsettled hcb, h.once⟩
  · intro n q id hn
    rw [hcalls] at hn
    rw [hmap.mem_iff, List.mem_cons]
    rcases h.accounted hn with ⟨c, hc, rfl⟩ | hmem
    · by_cases heq : c.call = cb.call
      · exact .inr (.inl heq)
      · refine .inl ⟨c, ?_, rfl⟩
        rw [hcallbacks, setCallback_apply, if_neg, hc]
        rintro ⟨rfl, hk⟩
        rw [hk, hcb] at hc
        cases hc
        exact heq rfl
    · exact .inr (.inr hmem)

theorem asyncCall_callbacks (s : State π ω κ τ) (p q : π) (type : κ) (k : Int) :
    (s.asyncCall p type).callbacks q k =
      if q = p ∧ k = s.rpcid.toInt then some ⟨s.calls.length, type⟩ else s.callbacks q k :=
  s.setCallback_apply p q s.rpcid.toInt k _

theorem asyncCall_calls_getElem? (s : State π ω κ τ) (p : π) (type : κ) (n : Nat)
    (x : π × BitVec 32) :
    (s.asyncCall p type).calls[n]? = some x ↔
      s.calls[n]? = some x ∨ (n = s.calls.length ∧ x = (p, s.rpcid)) := by
  rw [asyncCall, List.getElem?_append]
  split
  · next hlt =>
      constructor
      · exact .inl
      · rintro (hn | ⟨rfl, -⟩)
        · exact hn
        · omega
  · next hge =>
      rw [List.getElem?_eq_none (Nat.le_of_not_lt hge), List.getElem?_singleton]
      split
      · next hn => simp [show n = s.calls.length by omega, eq_comm]
      · next hn => simp [show n ≠ s.calls.length by omega]

theorem Matched.asyncCall {s : State π ω κ τ} (h : s.Matched) (hlt : s.calls.length < 2 ^ 32)
    (p : π) (type : κ) : (s.asyncCall p type).Matched := by
  have hsettled : (s.asyncCall p type).settled = s.settled := by
    simp [settled, State.asyncCall, brokenPromise, h.fresh hlt p]
  have hnot : s.calls.length ∉ s.settled.map (·.call) := by
    intro hmem
    obtain ⟨a, ha, hlen⟩ := List.mem_map.mp hmem
    have := (List.getElem?_eq_some_iff.mp (h.answered a ha)).1
    omega
  constructor
  · simp only [State.asyncCall, List.length_append, List.length_singleton]
    omega
  · simp only [State.asyncCall, List.length_append, List.length_singleton]
    rw [h.counter, BitVec.ofNat_add]
    rfl
  · intro n q id hn
    rcases (s.asyncCall_calls_getElem? p type n _).mp hn with hn | ⟨rfl, heq⟩
    · exact h.ids hn
    · cases heq
      exact h.counter
  · intro q k c hc
    rw [asyncCall_callbacks] at hc
    split at hc
    · next heq =>
        cases hc
        obtain ⟨rfl, rfl⟩ := heq
        refine ⟨s.rpcid, ?_, rfl⟩
        exact (s.asyncCall_calls_getElem? q type _ _).mpr (.inr ⟨rfl, rfl⟩)
    · obtain ⟨id, hcall, hid⟩ := h.pending hc
      exact ⟨id, (s.asyncCall_calls_getElem? p type _ _).mpr (.inl hcall), hid⟩
  · intro q k c hc
    rw [hsettled]
    rw [asyncCall_callbacks] at hc
    split at hc
    · cases hc
      exact hnot
    · exact h.unsettled hc
  · intro a ha
    rw [hsettled] at ha
    exact (s.asyncCall_calls_getElem? p type _ _).mpr (.inl (h.answered a ha))
  · rw [hsettled]
    exact h.once
  · intro n q id hn
    rw [hsettled, asyncCall_callbacks]
    rcases (s.asyncCall_calls_getElem? p type n _).mp hn with hn | ⟨rfl, heq⟩
    · rcases h.accounted hn with ⟨c, hc, rfl⟩ | hmem
      · refine .inl ⟨c, ?_, rfl⟩
        rw [if_neg, hc]
        rintro ⟨rfl, hk⟩
        rw [hk, h.fresh hlt] at hc
        cases hc
      · exact .inr hmem
    · cases heq
      exact .inl ⟨⟨s.calls.length, type⟩, if_pos ⟨rfl, rfl⟩, rfl⟩

/-- A step keeps every call in its one place, as long as the counter does not go round. -/
theorem Matched.moves {M : Msgpack ω κ τ} {s t : State π ω κ τ} {e : Event π ω κ}
    (h : s.Matched) (hm : Moves M s e t) (hlt : e.isCall → s.calls.length < 2 ^ 32) :
    t.Matched := by
  cases hm with
  | call p type => exact h.asyncCall (hlt rfl) p type
  | cancel p id cb hcb => exact h.settle hcb rfl rfl rfl (s.settled_completed _ _)
  | take p type id err res k cb hk hcb => exact h.settle hcb rfl rfl rfl (s.settled_taken _ _)
  | complete i r errors hr => exact h.permute rfl rfl rfl (s.settled_complete hr _ errors)
  | note e errors he => exact h.permute rfl rfl rfl (.refl _)

theorem Moves.calls_length {M : Msgpack ω κ τ} {s t : State π ω κ τ} {e : Event π ω κ}
    (hm : Moves M s e t) : t.calls.length = s.calls.length + if e.isCall then 1 else 0 := by
  cases hm with
  | call p type => simp [asyncCall, Event.isCall]
  | cancel | take | complete => simp [Event.isCall]
  | note e errors he => simp [he]

/-! ## §4  Runs -/

/-- A response with this id has come for this peer. -/
def Responded (M : Msgpack ω κ τ) (es : List (Event π ω κ)) (p : π) (k : BitVec 32) : Prop :=
  ∃ type id err res, .message p [type, id, err, res] ∈ es ∧ M.toUInt32 id = some k

/-- Callbacks are taken by responses, and the futures they complete name those. -/
structure Heard (M : Msgpack ω κ τ) (es : List (Event π ω κ)) (s : State π ω κ τ) : Prop where
  taken : ∀ r ∈ s.taken, Responded M es r.peer r.id
  completed : ∀ a ∈ s.completed, a.outcome = .brokenPromise ∨ Responded M es a.peer a.id

omit [DecidableEq π] in
theorem Responded.append {M : Msgpack ω κ τ} {es : List (Event π ω κ)} {p : π} {k : BitVec 32}
    (h : Responded M es p k) (fs : List (Event π ω κ)) : Responded M (es ++ fs) p k := by
  obtain ⟨type, id, err, res, hmem, hk⟩ := h
  exact ⟨type, id, err, res, List.mem_append_left _ hmem, hk⟩

theorem Heard.moves {M : Msgpack ω κ τ} {es : List (Event π ω κ)} {s t : State π ω κ τ}
    {e : Event π ω κ} (h : Heard M es s) (hm : Moves M s e t) : Heard M (es ++ [e]) t := by
  have htaken : ∀ r ∈ s.taken, Responded M (es ++ [e]) r.peer r.id := by
    intro r hr
    exact (h.taken r hr).append [e]
  have hcompleted : ∀ a ∈ s.completed,
      a.outcome = .brokenPromise ∨ Responded M (es ++ [e]) a.peer a.id := by
    intro a ha
    exact (h.completed a ha).imp_right (·.append [e])
  cases hm with
  | call p type =>
      refine ⟨htaken, ?_⟩
      intro a ha
      rcases List.mem_append.mp ha with ha | ha
      · exact hcompleted a ha
      · obtain ⟨cb, -, rfl⟩ := List.mem_map.mp ha
        exact .inl rfl
  | cancel p id cb hcb =>
      refine ⟨htaken, ?_⟩
      intro a ha
      rcases List.mem_append.mp ha with ha | ha
      · exact hcompleted a ha
      · cases List.mem_singleton.mp ha
        exact .inl rfl
  | take p type id err res k cb hk hcb =>
      refine ⟨?_, hcompleted⟩
      intro r hr
      rcases List.mem_append.mp hr with hr | hr
      · exact htaken r hr
      · cases List.mem_singleton.mp hr
        exact ⟨type, id, err, res, by simp, hk⟩
  | complete i r errors hr =>
      refine ⟨?_, ?_⟩
      · intro q hq
        exact htaken q (List.mem_of_mem_eraseIdx hq)
      · intro a ha
        rcases List.mem_append.mp ha with ha | ha
        · exact hcompleted a ha
        · cases List.mem_singleton.mp ha
          exact .inr (htaken r (List.mem_of_getElem? hr))
  | note e errors he => exact ⟨htaken, hcompleted⟩

/-- Nothing that has happened to a call is undone. -/
structure Extends (s t : State π ω κ τ) : Prop where
  calls : s.calls <+: t.calls
  completed : s.completed <+: t.completed
  settled : s.settled.map (·.call) ⊆ t.settled.map (·.call)

theorem Moves.extends {M : Msgpack ω κ τ} {s t : State π ω κ τ} {e : Event π ω κ}
    (hm : Moves M s e t) : Extends s t := by
  cases hm with
  | call p type =>
      refine ⟨List.prefix_append _ _, List.prefix_append _ _, ?_⟩
      simp only [settled, asyncCall, List.map_append, ← List.append_assoc]
      exact List.subset_append_left _ _
  | cancel p id cb hcb =>
      refine ⟨List.prefix_rfl, List.prefix_append _ _, ?_⟩
      intro n hn
      rw [((s.settled_completed _ _).map _).mem_iff]
      exact List.mem_cons_of_mem _ hn
  | take p type id err res k cb hk hcb =>
      refine ⟨List.prefix_rfl, List.prefix_rfl, ?_⟩
      intro n hn
      rw [((s.settled_taken _ _).map _).mem_iff]
      exact List.mem_cons_of_mem _ hn
  | complete i r errors hr =>
      refine ⟨List.prefix_rfl, List.prefix_append _ _, ?_⟩
      intro n hn
      rw [((s.settled_complete hr _ errors).map _).mem_iff]
      exact hn
  | note e errors he => exact ⟨List.prefix_rfl, List.prefix_rfl, List.Subset.refl _⟩

theorem runs_extends {M : Msgpack ω κ τ} {s t : State π ω κ τ} {fs : List (Event π ω κ)}
    (run : Runs (Step M) s fs t) : Extends s t := by
  refine run.invariant (I := fun t => Extends s t) ?_ ?_
  · exact ⟨List.prefix_rfl, List.prefix_rfl, List.Subset.refl _⟩
  · rintro u e v hu rfl
    have hv := (u.handle_moves M e).extends
    exact ⟨hu.calls.trans hv.calls, hu.completed.trans hv.completed,
      List.Subset.trans hu.settled hv.settled⟩

theorem runs_matched {M : Msgpack ω κ τ} {es : List (Event π ω κ)} {s : State π ω κ τ}
    (run : Runs (Step M) {} es s) (hes : es.countP Event.isCall < 2 ^ 32) :
    s.Matched ∧ Heard M es s := by
  have hinv : s.calls.length = es.countP Event.isCall ∧
      (es.countP Event.isCall < 2 ^ 32 → s.Matched) ∧ Heard M es s := by
    refine run.invariant_hist (I := fun es s => s.calls.length = es.countP Event.isCall ∧
      (es.countP Event.isCall < 2 ^ 32 → s.Matched) ∧ Heard M es s) ?_ ?_
    · refine ⟨rfl, fun _ => matched_init, ?_, ?_⟩ <;> simp
    · rintro es s e t ⟨hlen, hmatched, hheard⟩ rfl
      have hm := s.handle_moves M e
      have hcount : (es ++ [e]).countP Event.isCall =
          es.countP Event.isCall + if e.isCall then 1 else 0 := by
        simp [List.countP_append, List.countP_cons]
      refine ⟨?_, ?_, hheard.moves hm⟩
      · rw [hm.calls_length, hcount, hlen]
      · intro hlt
        refine (hmatched (by omega)).moves hm ?_
        intro he
        rw [if_pos he] at hcount
        omega
  exact ⟨hinv.2.1 hes, hinv.2.2⟩

/-! ## §5  The matching of responses -/

/-- What holds of calls and responses in one state. -/
structure Matching (M : Msgpack ω κ τ) (es : List (Event π ω κ)) (s : State π ω κ τ) : Prop where
  /-- A future is completed for the call that was given the id, at its peer. -/
  answered : ∀ a ∈ s.completed, s.calls[a.call]? = some (a.peer, a.id) ∧
    (a.outcome = .brokenPromise ∨ Responded M es a.peer a.id)
  once : (s.completed.map (·.call)).Nodup
  distinct : ∀ p q k c d, s.callbacks p k = some c → s.callbacks q k = some d → p = q ∧ c = d
  pending : ∀ p k cb, s.callbacks p k = some cb →
    ∃ id, s.calls[cb.call]? = some (p, id) ∧ id.toInt = k
  /-- A response reaches no other entry than that of its id at its peer. -/
  others : ∀ p type id err res q j,
    (∀ k, M.toUInt32 id = some k → ¬ (q = p ∧ j = k.toInt)) →
    (s.handle M (.message p [type, id, err, res])).callbacks q j = s.callbacks q j
  unknown : ∀ p type id err res,
    (∀ k, M.toUInt32 id = some k → s.callbacks p k.toInt = none) →
    (s.handle M (.message p [type, id, err, res])).callbacks = s.callbacks
  cancelled : ∀ p id, (s.handle M (.cancelCall p id)).callbacks p id.toInt = none

/-- What holds between a state and any later one, `news` being the futures completed since. -/
structure Final (s t : State π ω κ τ) (news : List (Completion π τ)) : Prop where
  completed : t.completed = s.completed ++ news
  /-- The id of a completed call, or of a cancelled one, is not completed again. -/
  again : ∀ a ∈ s.completed, ∀ b ∈ news, b.id ≠ a.id
  /-- An id that was given out and is not pending stays so, and is completed only by a response
  that has taken its callback already. -/
  closed : ∀ p id, (p, id) ∈ s.calls → s.callbacks p id.toInt = none →
    t.callbacks p id.toInt = none ∧ ∀ b ∈ news, b.id = id → ∃ r ∈ s.taken, r.cb.call = b.call

theorem message_callbacks (M : Msgpack ω κ τ) (s : State π ω κ τ) (p : π)
    (type id err res : ω) :
    (s.handle M (.message p [type, id, err, res])).callbacks = s.callbacks ∨
      ∃ k, M.toUInt32 id = some k ∧ (s.callbacks p k.toInt).isSome ∧
        (s.handle M (.message p [type, id, err, res])).callbacks =
          s.setCallback p k.toInt none := by
  generalize hm : s.handle M (.message p [type, id, err, res]) = t
  have := s.handle_moves M (.message p [type, id, err, res])
  rw [hm] at this
  cases this with
  | take p type id err res k cb hk hcb =>
      right
      exact ⟨k, hk, by rw [hcb]; rfl, rfl⟩
  | note e errors he =>
      left
      rfl

theorem cancelCall_callbacks (s : State π ω κ τ) (p : π) (id : BitVec 32) :
    (s.cancelCall p id).callbacks p id.toInt = none := by
  unfold cancelCall
  split
  · exact (s.setCallback_apply p p _ _ none).trans (if_pos ⟨rfl, rfl⟩)
  · next h => simpa using h

theorem Matched.matching {M : Msgpack ω κ τ} {es : List (Event π ω κ)} {s : State π ω κ τ}
    (h : s.Matched) (hheard : Heard M es s) : Matching M es s := by
  constructor
  · intro a ha
    exact ⟨h.completed_call ha, hheard.completed a ha⟩
  · exact h.completed_once
  · intro p q k c d hc hd
    obtain ⟨id, hcall, rfl⟩ := h.pending hc
    obtain ⟨id', hcall', hid⟩ := h.pending hd
    rw [BitVec.toInt_inj] at hid
    subst hid
    have heq := h.call_unique hcall hcall'
    rw [heq, hcall'] at hcall
    cases hcall
    rw [hc] at hd
    cases hd
    exact ⟨rfl, rfl⟩
  · intro p k cb hcb
    exact h.pending hcb
  · intro p type id err res q j hne
    rcases s.message_callbacks M p type id err res with heq | ⟨k, hk, -, heq⟩
    · rw [heq]
    · rw [heq, setCallback_apply, if_neg (hne k hk)]
  · intro p type id err res hnone
    rcases s.message_callbacks M p type id err res with heq | ⟨k, hk, hsome, -⟩
    · exact heq
    · rw [hnone k hk] at hsome
      cases hsome
  · intro p id
    exact s.cancelCall_callbacks p id

omit [DecidableEq π] in
theorem Matched.final {s t : State π ω κ τ} (hs : s.Matched) (ht : t.Matched)
    (hext : Extends s t) : ∃ news, Final s t news := by
  obtain ⟨news, hnews⟩ := hext.completed
  have hnew : ∀ b ∈ news, t.calls[b.call]? = some (b.peer, b.id) := by
    intro b hb
    exact ht.completed_call (hnews ▸ List.mem_append_right _ hb)
  have honce : ∀ a ∈ s.completed, ∀ b ∈ news, a.call ≠ b.call := by
    have hnodup := ht.completed_once
    rw [← hnews, List.map_append, List.nodup_append] at hnodup
    intro a ha b hb
    exact hnodup.2.2 _ (List.mem_map_of_mem ha) _ (List.mem_map_of_mem hb)
  have hagain : ∀ a ∈ s.completed, ∀ b ∈ news, b.id ≠ a.id := by
    intro a ha b hb hid
    have hold := ht.completed_call (hnews ▸ List.mem_append_left _ ha)
    exact honce a ha b hb (ht.call_unique hold (hid ▸ hnew b hb))
  refine ⟨news, hnews.symm, hagain, ?_⟩
  intro p id hmem hnone
  obtain ⟨n, hn⟩ := List.getElem?_of_mem hmem
  have hlater : t.calls[n]? = some (p, id) := by
    obtain ⟨later, hcalls⟩ := hext.calls
    rw [← hcalls, List.getElem?_append_left (List.getElem?_eq_some_iff.mp hn).1, hn]
  have hsettled : n ∈ s.settled.map (·.call) := by
    rcases hs.accounted hn with ⟨cb, hcb, -⟩ | hmem
    · rw [hnone] at hcb
      cases hcb
    · exact hmem
  constructor
  · by_contra hne
    obtain ⟨cb, hcb⟩ := Option.ne_none_iff_exists'.mp hne
    have hcall := ht.pending_call hcb hlater
    exact ht.unsettled hcb (hcall ▸ hext.settled hsettled)
  · intro b hb hid
    have hcall := ht.call_unique (hid ▸ hnew b hb) hlater
    simp only [settled, List.map_append, List.map_map, List.mem_append, List.mem_map] at hsettled
    rcases hsettled with ⟨r, hr, hrn⟩ | ⟨a, ha, han⟩
    · exact ⟨r, hr, hrn.trans hcall.symm⟩
    · exact absurd (han.trans hcall.symm) (honce a ha b hb)

/-- Over every run with fewer calls than there are ids: a response completes only the call that
was given its id at its peer, no future is completed twice, the ids of pending calls are
distinct, a completed or cancelled id is never completed again, and a response whose id is not
pending leaves `callbacks_` as it is. -/
theorem responses_matched (M : Msgpack ω κ τ) {es : List (Event π ω κ)} {s : State π ω κ τ}
    (run : Runs (Step M) {} es s) (hes : es.countP Event.isCall < 2 ^ 32) :
    Matching M es s ∧
      ∀ fs t, Runs (Step M) s fs t → (es ++ fs).countP Event.isCall < 2 ^ 32 →
        ∃ news, Final s t news := by
  obtain ⟨hmatched, hheard⟩ := runs_matched run hes
  refine ⟨hmatched.matching hheard, ?_⟩
  intro fs t run' hfs
  exact hmatched.final (runs_matched (run.trans run') hfs).1 (runs_extends run')

/-- The objects of a small exchange. -/
inductive Object : Type where
  | nil
  | integer (n : Nat)
  | str (text : String)
deriving DecidableEq, Repr

/-- Integers are asked for, and the first field of a message is one. -/
def objects : Msgpack Object Unit Nat where
  i64
    | .integer n => n
    | _ => 0
  isNil object := object = .nil
  toUInt32
    | .integer n => if n < 2 ^ 32 then some (BitVec.ofNat 32 n) else none
    | _ => none
  toString
    | .str text => some text
    | _ => none
  convert
    | (), .integer n => some n
    | (), _ => none

/-- A call at each of two peers. The second peer is answered under the id of the first, the first
is answered and its callback waits while the second call is cancelled. -/
def exchange : List (Event Bool Object Unit) :=
  [.asyncCall false (), .asyncCall true (),
    .message true [.integer 1, .integer 0, .nil, .integer 5],
    .message false [.integer 1, .integer 0, .nil, .integer 7],
    .cancelCall true 1, .callback 0]

theorem responses_matched_exchange :
    (exchange.foldl (handle objects) {}).completed =
        [⟨true, 1, 1, .brokenPromise⟩, ⟨false, 0, 0, .value 7⟩] ∧
      Matching objects exchange (exchange.foldl (handle objects) {}) := by
  constructor
  · decide
  · exact (responses_matched objects (runs_foldl objects {} exchange) (by decide)).1

end State

end BeyondProtocol.Rpc
