import Mathlib.Algebra.Group.Int.Defs
import Mathlib.Algebra.Group.Nat.Defs
import BeyondProtocol.Peer.Rpc

/-!
# The called side (`dispatcher.cpp`, `peer.cpp`)

A message of four elements whose type is not 1 is a call. Its handler is looked up in
the dispatcher of the peer and then in that of the universe. What the handler returns
goes back under the id of the call, and so does the text of the exception it threw.

A name that nobody bound is an exception as well, but one of the dispatcher:
`process_message_` reports it on this side and the caller hears nothing.
-/

namespace BeyondProtocol.Rpc

/-! ## §1  The source functions -/

/-- What the called side asks of a `msgpack::object`. -/
structure Objects (ω : Type) where
  /-- `via.i64` -/
  i64 : ω → Int
  toInt8 : ω → Option Int
  toUInt32 : ω → Option (BitVec 32)
  toString : ω → Option String
  /-- The elements of an array. -/
  elements : ω → List ω
  /-- `object_type_to_string` of its type -/
  typeName : ω → String
  nil : ω
  ofString : String → ω

/-- A `std::exception`. -/
inductive Exception : Type where
  | badCast
  | other (what : String)
deriving DecidableEq, Repr

def Exception.what : Exception → String
  | .badCast => "std::bad_cast"
  | .other what => what

/-- What a peer writes to its connection. -/
inductive Sent (ω : Type) : Type where
  /-- `(0, name, args)` -/
  | notification (name : String) (args : ω)
  /-- `(0, id, name, args)` -/
  | call (id : BitVec 32) (name : String) (args : ω)
  /-- `(1, id, err, res)` -/
  | response (id : BitVec 32) (err res : ω)
deriving DecidableEq, Repr

/-- What a handler may send itself; `_sendResponse` is private. -/
inductive Request (ω : Type) : Type where
  | notification (name : String) (args : ω)
  | call (id : BitVec 32) (name : String) (args : ω)
deriving DecidableEq, Repr

def Request.toSent {ω : Type} : Request ω → Sent ω
  | .notification name args => .notification name args
  | .call id name args => .call id name args

/-- `adaptor_type`: the arguments, what the handler sends, and its result or its exception. -/
abbrev Handler (ω : Type) : Type := ω → List (Request ω) × Except Exception ω

/-- A dispatcher with the functions bound to it, and the one it falls back to. -/
inductive Dispatcher (ω : Type) : Type where
  | root (funcs : String → Option (Handler ω))
  | child (funcs : String → Option (Handler ω)) (parent : Dispatcher ω)

variable {ω : Type}

namespace Dispatcher

/-- `_locateHandler` -/
def locateHandler : Dispatcher ω → String → Option (Handler ω)
  | .root funcs, name => funcs name
  | .child funcs parent, name =>
      match funcs name with
      | some func => some func
      | none => parent.locateHandler name

section

variable (M : Objects ω) (deliver : Sent ω → Bool)

/-- Packing and sending. A failure is swallowed. -/
def sendBuffer (msg : Sent ω) : List (Sent ω) := if deliver msg then [msg] else []

/-- `_sendResponse` -/
def sendResponse (id : BitVec 32) (res : ω) : List (Sent ω) :=
  sendBuffer deliver (.response id M.nil res)

/-- `_sendErrorResponse` -/
def sendErrorResponse (id : BitVec 32) (res : ω) : List (Sent ω) :=
  sendBuffer deliver (.response id res M.nil)

/-- `dispatch_call`: what was sent, and the text of the exception it ended with. -/
def dispatchCall (d : Dispatcher ω) (type id name args : ω) : List (Sent ω) × Except String Unit :=
  match M.toInt8 type, M.toUInt32 id, M.toString name with
  | some type, some id, some name =>
      if type = 0 then
        match d.locateHandler name with
        | some func =>
            let (requests, outcome) := func args
            let answer :=
              match outcome with
              | .ok result => sendResponse M deliver id result
              | .error e => sendErrorResponse M deliver id (M.ofString e.what)
            (requests.map Request.toSent ++ answer, .ok ())
        | none => ([], .error s!"No binding found for {name}")
      else ([], .error s!"Unrecognised message type: {type}")
  | _, _, _ => ([], .error "Bad message format")

/-- `dispatch_notification` -/
def dispatchNotification (d : Dispatcher ω) (type name args : ω) :
    List (Sent ω) × Except String Unit :=
  match M.toInt8 type, M.toString name with
  | some _, some name =>
      match d.locateHandler name with
      | some func =>
          let (requests, outcome) := func args
          let result :=
            match outcome with
            | .ok _ => .ok ()
            | .error .badCast =>
                let got := ", ".intercalate ((M.elements args).map M.typeName)
                .error s!"Bad cast, got: {got}"
            | .error (.other what) => .error s!"Exception for '{name}' - {what}"
          (requests.map Request.toSent, result)
      | none => ([], .error s!"Missing handler for incoming message ({name})")
  | _, _ => ([], .error "std::bad_cast")

/-- `dispatch`. What a response does is `State.dispatchResponse`. -/
def dispatch (d : Dispatcher ω) : List ω → List (Sent ω) × Except String Unit
  | [type, name, args] => d.dispatchNotification M type name args
  | [type, id, a, b] =>
      if M.i64 type = 1 then
        match M.toUInt32 type, M.toUInt32 id with
        | some _, some _ => ([], .ok ())
        | _, _ => ([], .error "Bad response format")
      else d.dispatchCall M deliver type id a b
  | msg => ([], .error s!"Unrecognised msgpack : {msg.length}")

/-- `process_message_`: what was sent, and what `notifyError_` was told. -/
def processMessage (d : Dispatcher ω) (msg : List ω) : List (Sent ω) × List (Error × String) :=
  match d.dispatch M deliver msg with
  | (sent, .ok ()) => (sent, [])
  | (sent, .error what) => (sent, [(.kDispatchFailed, what)])

end

/-! ## §2  Every call is answered -/

/-- The message `[0, id, name, args]`. -/
def IsCall (M : Objects ω) (msg : List ω) (id : BitVec 32) (name : String) (args : ω) : Prop :=
  ∃ type key text, msg = [type, key, text, args] ∧ M.i64 type = 0 ∧ M.toInt8 type = some 0 ∧
    M.toUInt32 key = some id ∧ M.toString text = some name

/-- The responses among what was sent that go to this id. -/
def responses (id : BitVec 32) (sent : List (Sent ω)) : List (Sent ω) :=
  sent.filter fun
    | .response i _ _ => i = id
    | _ => false

/-- The response that carries a result or an error. -/
def answer (M : Objects ω) (id : BitVec 32) : Except Exception ω → Sent ω
  | .ok res => .response id M.nil res
  | .error e => .response id (M.ofString e.what) M.nil

def Answered (M : Objects ω) (id : BitVec 32) (sent : List (Sent ω)) : Prop :=
  ∃ outcome, responses id sent = [answer M id outcome]

/-- What a handler sends itself is no response. -/
theorem responses_requests (id : BitVec 32) (requests : List (Request ω)) :
    responses id (requests.map Request.toSent) = [] := by
  unfold responses
  rw [List.filter_eq_nil_iff]
  intro m hm
  obtain ⟨r, -, rfl⟩ := List.mem_map.mp hm
  cases r with
  | notification name args => simp [Request.toSent]
  | call id name args => simp [Request.toSent]

theorem responses_answer (M : Objects ω) (id : BitVec 32) (outcome : Except Exception ω) :
    responses id [answer M id outcome] = [answer M id outcome] := by
  cases outcome with
  | ok res => simp [responses, answer]
  | error e => simp [responses, answer]

section

variable {M : Objects ω} {deliver : Sent ω → Bool} {d : Dispatcher ω} {msg : List ω}
  {id : BitVec 32} {name : String} {args : ω}

theorem processMessage_bound (hmsg : IsCall M msg id name args) (hsend : ∀ m, deliver m = true)
    {func : Handler ω} (hfunc : d.locateHandler name = some func) :
    d.processMessage M deliver msg =
      ((func args).1.map Request.toSent ++ [answer M id (func args).2], []) := by
  obtain ⟨type, key, text, rfl, hi64, hint8, hkey, htext⟩ := hmsg
  have hcall : M.i64 type ≠ 1 := by
    rw [hi64]
    decide
  simp only [processMessage, dispatch, hcall, if_false, dispatchCall, hint8, hkey, htext, if_true,
    hfunc]
  cases hout : (func args).2 with
  | ok res => simp [sendResponse, sendBuffer, hsend, answer]
  | error e => simp [sendErrorResponse, sendBuffer, hsend, answer]

theorem processMessage_unbound (hmsg : IsCall M msg id name args)
    (hfunc : d.locateHandler name = none) :
    d.processMessage M deliver msg =
      ([], [(.kDispatchFailed, s!"No binding found for {name}")]) := by
  obtain ⟨type, key, text, rfl, hi64, hint8, hkey, htext⟩ := hmsg
  have hcall : M.i64 type ≠ 1 := by
    rw [hi64]
    decide
  simp [processMessage, dispatch, hcall, dispatchCall, hint8, hkey, htext, hfunc]

/-- **A call is answered exactly once if and only if its name is bound**, to the peer or to the
universe, and then with what its handler returned or threw. -/
theorem call_answered_iff (hmsg : IsCall M msg id name args) (hsend : ∀ m, deliver m = true) :
    (Answered M id (d.processMessage M deliver msg).1 ↔ (d.locateHandler name).isSome) ∧
      ∀ func, d.locateHandler name = some func →
        responses id (d.processMessage M deliver msg).1 = [answer M id (func args).2] := by
  have hbound : ∀ func, d.locateHandler name = some func →
      responses id (d.processMessage M deliver msg).1 = [answer M id (func args).2] := by
    intro func hfunc
    rw [processMessage_bound hmsg hsend hfunc]
    show responses id (_ ++ _) = _
    rw [responses, List.filter_append, ← responses, ← responses, responses_requests,
      responses_answer, List.nil_append]
  refine ⟨?_, hbound⟩
  cases hfunc : d.locateHandler name with
  | none =>
      rw [processMessage_unbound hmsg hfunc]
      simp [Answered, responses]
  | some func => exact ⟨fun _ => rfl, fun _ => ⟨(func args).2, hbound func hfunc⟩⟩

end

/-! ### Two calls -/

/-- The kinds of objects that a call without arguments is made of. -/
inductive Plain : Type where
  | nil
  | int (n : Int)
  | str (s : String)
  | emptyArray
deriving DecidableEq, Repr

def plainObjects : Objects Plain where
  i64
    | .int n => n
    | _ => 0
  toInt8
    | .int n => if -128 ≤ n ∧ n < 128 then some n else none
    | _ => none
  toUInt32
    | .int n => if 0 ≤ n ∧ n < 2 ^ 32 then some (BitVec.ofInt 32 n) else none
    | _ => none
  toString
    | .str s => some s
    | _ => none
  elements := fun _ => []
  typeName
    | .nil => "NIL"
    | .int n => if 0 ≤ n then "POSITIVE_INTEGER" else "NEGATIVE_INTEGER"
    | .str _ => "STR"
    | .emptyArray => "ARRAY"
  nil := .nil
  ofString := .str

/-- A peer, with the binding of `__ping__` that every peer has, below a universe without any. -/
def pingPeer : Dispatcher Plain :=
  .child (fun name => if name = "__ping__" then some fun _ => ([], .ok (.int 1600)) else none)
    (.root fun _ => none)

def callWithId5 (name : String) : List Plain := [.int 0, .int 5, .str name, .emptyArray]

theorem isCall_withId5 (name : String) :
    IsCall plainObjects (callWithId5 name) 5 name .emptyArray :=
  ⟨.int 0, .int 5, .str name, rfl, rfl, rfl, rfl, rfl⟩

theorem call_answered_ping :
    IsCall plainObjects (callWithId5 "__ping__") 5 "__ping__" .emptyArray ∧
      Answered plainObjects 5
        (pingPeer.processMessage plainObjects (fun _ => true) (callWithId5 "__ping__")).1 :=
  ⟨isCall_withId5 _, (call_answered_iff (isCall_withId5 _) fun _ => rfl).1.mpr rfl⟩

/-- Nobody answers a call of a function that is not there. -/
theorem unbound_call_unanswered :
    IsCall plainObjects (callWithId5 "find_stream") 5 "find_stream" .emptyArray ∧
      ¬ Answered plainObjects 5
        (pingPeer.processMessage plainObjects (fun _ => true) (callWithId5 "find_stream")).1 := by
  refine ⟨isCall_withId5 _, ?_⟩
  rw [processMessage_unbound (isCall_withId5 _) rfl]
  simp [Answered, responses]

end Dispatcher

end BeyondProtocol.Rpc
