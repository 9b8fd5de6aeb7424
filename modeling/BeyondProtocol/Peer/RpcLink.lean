import Mathlib.Data.List.Nodup
import BeyondProtocol.Framework.Direction
import BeyondProtocol.Peer.Dispatcher

/-!
# Calls between two ends (`peer.hpp`, `peer.cpp`, `dispatcher.cpp`)

Each end of a connection calls functions of the other one. A call is registered before its
message is written, and any number of threads may be between the two, so the messages of an
end are not written in the order of their ids. The other end takes one message at a time
from the connection; what its handlers send of themselves, they send as any other thread
does.

`Rpc` has the side of the caller and `Dispatcher` that of the called, each for any messages
that may come. Here the messages are those that the other end sent.
-/

namespace BeyondProtocol.Rpc

open Framework

/-! ## §1  Messages -/

/-- How the fields of messages are packed, and that they are unpacked as they were. -/
structure Codec (ω κ τ : Type) where
  /-- What the caller asks of an object. -/
  answers : Msgpack ω κ τ
  /-- What the called side asks of it. -/
  objects : Objects ω
  ofInt : Int → ω
  ofId : BitVec 32 → ω
  answers_zero : answers.i64 (ofInt 0) = 0
  answers_one : answers.i64 (ofInt 1) = 1
  objects_zero : objects.i64 (ofInt 0) = 0
  objects_one : objects.i64 (ofInt 1) = 1
  toInt8_zero : objects.toInt8 (ofInt 0) = some 0
  toUInt32_one : answers.toUInt32 (ofInt 1) = some 1
  answers_ofId : ∀ id, answers.toUInt32 (ofId id) = some id
  objects_ofId : ∀ id, objects.toUInt32 (ofId id) = some id
  answers_ofString : ∀ text, answers.toString (objects.ofString text) = some text
  objects_ofString : ∀ text, objects.toString (objects.ofString text) = some text
  isNil_nil : answers.isNil objects.nil = true
  isNil_ofString : ∀ text, answers.isNil (objects.ofString text) = false

variable {ω κ τ : Type}

/-- What the other end unpacks of a message. -/
def Codec.fields (C : Codec ω κ τ) : Sent ω → List ω
  | .notification name args => [C.ofInt 0, C.objects.ofString name, args]
  | .call id name args => [C.ofInt 0, C.ofId id, C.objects.ofString name, args]
  | .response id err res => [C.ofInt 1, C.ofId id, err, res]

def Sent.isCall : Sent ω → Bool
  | .call _ _ _ => true
  | _ => false

def Sent.isResponse : Sent ω → Bool
  | .response _ _ _ => true
  | _ => false

/-- A call that was made. -/
structure Made (ω κ : Type) where
  id : BitVec 32
  type : κ
  name : String
  args : ω
deriving DecidableEq, Repr

def Made.message (c : Made ω κ) : Sent ω := .call c.id c.name c.args

/-- A call that has come to the other end, and what became of it: nothing if its name was not
bound. -/
structure Arrival (ω : Type) where
  id : BitVec 32
  name : String
  args : ω
  outcome : Option (Except Exception ω)

def Arrival.message (a : Arrival ω) : Sent ω := .call a.id a.name a.args

def Arrival.answer (O : Objects ω) (a : Arrival ω) : Option (Sent ω) :=
  a.outcome.map (Dispatcher.answer O a.id)

/-- How the future of a call is completed by the outcome of a handler. -/
def Codec.reply (C : Codec ω κ τ) (type : κ) : Except Exception ω → Outcome τ
  | .ok res => (C.answers.convert type res).elim .brokenPromise .value
  | .error e => .exception e.what

/-- What a message comes to where the dispatcher is `d`. -/
def Codec.arrival (d : Dispatcher ω) : Sent ω → Option (Arrival ω)
  | .call id name args =>
      some ⟨id, name, args, (d.locateHandler name).map fun func => (func args).2⟩
  | _ => none

/-- The responses that are sent for a message. -/
def Codec.responses (C : Codec ω κ τ) (d : Dispatcher ω) (m : Sent ω) : List (Sent ω) :=
  (d.processMessage C.objects (fun _ => true) (C.fields m)).1.filter Sent.isResponse

/-! ## §2  The two ends -/

structure Link (ω κ τ : Type) where
  ends : Bool → State Unit ω κ τ := fun _ => {}
  /-- The messages that each end sends. -/
  sends : Bool → Direction (Sent ω) := fun _ => {}
  made : Bool → List (Made ω κ) := fun _ => []
  arrived : Bool → List (Arrival ω) := fun _ => []

inductive LinkEvent (ω κ : Type) : Type where
  /-- `asyncCall`, up to the message. -/
  | call (b : Bool) (type : κ) (name : String) (args : ω)
  | notify (b : Bool) (name : String) (args : ω)
  | cancelCall (b : Bool) (id : BitVec 32)
  /-- A thread writes its message, or fails to. -/
  | write (b : Bool) (i : ℕ) (through : Bool)
  /-- The next message is dispatched; the bindings are `d` at this time. -/
  | dispatch (b : Bool) (d : Dispatcher ω)
  /-- A callback that a response has taken runs. -/
  | callback (b : Bool) (i : ℕ)

namespace Link

def handle (C : Codec ω κ τ) (s : Link ω κ τ) : LinkEvent ω κ → Link ω κ τ
  | .call b type name args =>
      let c : Made ω κ := ⟨(s.ends b).rpcid, type, name, args⟩
      { s with
        ends := Function.update s.ends b ((s.ends b).handle C.answers (.asyncCall () type))
        sends := Function.update s.sends b ((s.sends b).post [c.message])
        made := Function.update s.made b (s.made b ++ [c]) }
  | .notify b name args =>
      { s with
        sends := Function.update s.sends b ((s.sends b).post [.notification name args]) }
  | .cancelCall b id =>
      { s with
        ends := Function.update s.ends b ((s.ends b).handle C.answers (.cancelCall () id)) }
  | .write b i through =>
      { s with sends := Function.update s.sends b ((s.sends b).write i through) }
  | .dispatch b d =>
      match (s.sends (!b)).take with
      | none => s
      | some (m, rest) =>
          { s with
            ends := Function.update s.ends b
              ((s.ends b).handle C.answers (.message () (C.fields m)))
            sends := Function.update (Function.update s.sends (!b) rest) b
              ((s.sends b).post (C.responses d m))
            arrived := Function.update s.arrived b
              (s.arrived b ++ (Codec.arrival d m).toList) }
  | .callback b i =>
      { s with ends := Function.update s.ends b ((s.ends b).handle C.answers (.callback i)) }

def Step (C : Codec ω κ τ) (s : Link ω κ τ) (e : LinkEvent ω κ) (t : Link ω κ τ) : Prop :=
  t = s.handle C e

theorem runs_foldl (C : Codec ω κ τ) (s : Link ω κ τ) (es : List (LinkEvent ω κ)) :
    Runs (Step C) s es (es.foldl (handle C) s) := by
  apply Runs.of_foldl
  intro s e
  rfl

/-- Nothing is under way, nothing was lost, and no callback has yet to run. -/
structure Quiet (s : Link ω κ τ) : Prop where
  idle : ∀ b, (s.sends b).Idle
  taken : ∀ b, (s.ends b).taken = []

/-! ## §3  What a message does -/

/-- A response reaches the callbacks, any other message does not. -/
theorem handle_message (C : Codec ω κ τ) (x : State Unit ω κ τ) (m : Sent ω) :
    x.handle C.answers (.message () (C.fields m)) =
      match m with
      | .response id err res => x.dispatchResponse () id err res
      | _ => x := by
  cases m with
  | notification name args => rfl
  | call id name args =>
      simp [State.handle, State.processMessage, State.dispatch, Codec.fields, C.answers_zero]
  | response id err res =>
      simp [State.handle, State.processMessage, State.dispatch, Codec.fields, C.answers_one,
        C.toUInt32_one, C.answers_ofId]

theorem isCall_fields (C : Codec ω κ τ) (id : BitVec 32) (name : String) (args : ω) :
    Dispatcher.IsCall C.objects (C.fields (.call id name args)) id name args :=
  ⟨C.ofInt 0, C.ofId id, C.objects.ofString name, rfl, C.objects_zero, C.toInt8_zero,
    C.objects_ofId id, C.objects_ofString name⟩

theorem isResponse_answer (O : Objects ω) (id : BitVec 32) (outcome : Except Exception ω) :
    (Dispatcher.answer O id outcome).isResponse = true := by
  cases outcome <;> rfl

theorem filter_isResponse_requests (requests : List (Request ω)) :
    (requests.map Request.toSent).filter Sent.isResponse = [] := by
  rw [List.filter_eq_nil_iff]
  intro m hm
  obtain ⟨r, -, rfl⟩ := List.mem_map.mp hm
  cases r <;> simp [Request.toSent, Sent.isResponse]

theorem processMessage_fst (O : Objects ω) (deliver : Sent ω → Bool) (d : Dispatcher ω)
    (msg : List ω) : (d.processMessage O deliver msg).1 = (d.dispatch O deliver msg).1 := by
  unfold Dispatcher.processMessage
  rcases d.dispatch O deliver msg with ⟨sent, - | -⟩ <;> rfl

/-- A message has one response if it is a call that reaches a handler, and else none. -/
theorem responses_eq (C : Codec ω κ τ) (d : Dispatcher ω) (m : Sent ω) :
    C.responses d m = ((Codec.arrival d m).bind (Arrival.answer C.objects)).toList := by
  cases m with
  | notification name args =>
      simp only [Codec.responses, Codec.fields, processMessage_fst, Dispatcher.dispatch,
        Dispatcher.dispatchNotification, C.toInt8_zero, C.objects_ofString, Codec.arrival]
      cases d.locateHandler name with
      | none => rfl
      | some func => exact filter_isResponse_requests (func args).1
  | call id name args =>
      have hcall := isCall_fields C id name args
      simp only [Codec.responses, Codec.arrival]
      cases hfunc : d.locateHandler name with
      | none =>
          rw [Dispatcher.processMessage_unbound hcall hfunc]
          rfl
      | some func =>
          rw [Dispatcher.processMessage_bound hcall (fun _ => rfl) hfunc, List.filter_append,
            filter_isResponse_requests, List.nil_append,
            List.filter_cons_of_pos (isResponse_answer _ _ _)]
          rfl
  | response id err res =>
      simp only [Codec.responses, Codec.fields, processMessage_fst, Dispatcher.dispatch,
        C.objects_one, if_true, C.objects_ofId, Codec.arrival]
      cases C.objects.toUInt32 (C.ofInt 1) <;> rfl

theorem filter_isCall_answer (O : Objects ω) (a : Option (Arrival ω)) :
    (a.bind (Arrival.answer O)).toList.filter Sent.isCall = [] := by
  rcases a with - | ⟨id, name, args, - | (e | res)⟩ <;> rfl

theorem filter_isResponse_answer (O : Objects ω) (a : Option (Arrival ω)) :
    (a.bind (Arrival.answer O)).toList.filter Sent.isResponse =
      a.toList.filterMap (Arrival.answer O) := by
  rcases a with - | ⟨id, name, args, - | (e | res)⟩ <;> rfl

theorem filter_isCall_arrival (d : Dispatcher ω) (m : Sent ω) :
    [m].filter Sent.isCall = (Codec.arrival d m).toList.map Arrival.message := by
  cases m <;> rfl

/-! ## §4  Where the messages are -/

/-- The messages of end `b` in one state: which there are, and that none is doubled. -/
structure Carried (C : Codec ω κ τ) (s : Link ω κ τ) (b : Bool) : Prop where
  conserved : (s.sends b).Conserved
  /-- The calls that were sent are those that were made. -/
  requests : (s.sends b).posted.filter Sent.isCall = (s.made b).map Made.message
  /-- The responses are those of the handlers that were called. -/
  answers : (s.sends b).posted.filter Sent.isResponse =
    (s.arrived b).filterMap (Arrival.answer C.objects)
  arrivals : (s.sends (!b)).taken.filter Sent.isCall = (s.arrived b).map Arrival.message
  calls : (s.ends b).calls = (s.made b).map fun c => ((), c.id)

theorem handle_calls (C : Codec ω κ τ) (x : State Unit ω κ τ) {e : Event Unit ω κ}
    (he : e.isCall = false) : (x.handle C.answers e).calls = x.calls := by
  generalize hm : x.handle C.answers e = y
  have hmoves := x.handle_moves C.answers e
  rw [hm] at hmoves
  cases hmoves with
  | call p type => cases he
  | cancel p id cb h => rfl
  | take p type id err res k cb hk h => rfl
  | complete i r errors h => rfl
  | note e errors he => rfl

theorem carried_start (C : Codec ω κ τ) (b : Bool) : Carried C {} b :=
  ⟨Direction.conserved_empty, rfl, rfl, rfl, rfl⟩

/-- What only changes one end, and no message. -/
theorem Carried.ends {C : Codec ω κ τ} {s : Link ω κ τ} (h : ∀ b, Carried C s b) (c : Bool)
    {x : State Unit ω κ τ} (hcalls : x.calls = (s.ends c).calls) (b : Bool) :
    Carried C { s with ends := Function.update s.ends c x } b := by
  refine ⟨(h b).conserved, (h b).requests, (h b).answers, (h b).arrivals, ?_⟩
  by_cases hb : b = c
  · subst hb
    simpa [hcalls] using (h b).calls
  · simpa [Function.update_of_ne hb] using (h b).calls

/-- The messages that end `!b` has taken, where end `c` only sends. -/
theorem taken_update {sends : Bool → Direction (Sent ω)} {c : Bool} {x : Direction (Sent ω)}
    (hx : x.taken = (sends c).taken) (b : Bool) :
    (Function.update sends c x b).taken = (sends b).taken := by
  by_cases hb : b = c
  · rw [hb, Function.update_self, hx]
  · rw [Function.update_of_ne hb]

theorem Carried.call {C : Codec ω κ τ} {s : Link ω κ τ} (h : ∀ b, Carried C s b) (c : Bool)
    (type : κ) (name : String) (args : ω) (b : Bool) :
    Carried C (s.handle C (.call c type name args)) b := by
  have harrivals := (h b).arrivals
  rw [← taken_update (Direction.post_taken (d := s.sends c) [.call (s.ends c).rpcid name args])]
    at harrivals
  by_cases hb : b = c
  · subst hb
    constructor
    · simpa [Link.handle] using (h b).conserved.post _
    · simp [Link.handle, (h b).requests, List.filter_append, Made.message, Sent.isCall]
    · simp [Link.handle, (h b).answers, List.filter_append, Made.message, Sent.isResponse]
    · exact harrivals
    · simp [Link.handle, State.handle, State.asyncCall, (h b).calls]
  · constructor
    · simpa [Link.handle, Function.update_of_ne hb] using (h b).conserved
    · simpa [Link.handle, Function.update_of_ne hb] using (h b).requests
    · simpa [Link.handle, Function.update_of_ne hb] using (h b).answers
    · exact harrivals
    · simpa [Link.handle, Function.update_of_ne hb] using (h b).calls

theorem Carried.notify {C : Codec ω κ τ} {s : Link ω κ τ} (h : ∀ b, Carried C s b) (c : Bool)
    (name : String) (args : ω) (b : Bool) :
    Carried C (s.handle C (.notify c name args)) b := by
  have harrivals := (h b).arrivals
  rw [← taken_update (Direction.post_taken (d := s.sends c) [.notification name args])]
    at harrivals
  by_cases hb : b = c
  · subst hb
    refine ⟨?_, ?_, ?_, harrivals, (h b).calls⟩
    · simpa [Link.handle] using (h b).conserved.post _
    · simp [Link.handle, (h b).requests, List.filter_append, Sent.isCall]
    · simp [Link.handle, (h b).answers, List.filter_append, Sent.isResponse]
  · refine ⟨?_, ?_, ?_, harrivals, (h b).calls⟩
    · simpa [Link.handle, Function.update_of_ne hb] using (h b).conserved
    · simpa [Link.handle, Function.update_of_ne hb] using (h b).requests
    · simpa [Link.handle, Function.update_of_ne hb] using (h b).answers

theorem Carried.write {C : Codec ω κ τ} {s : Link ω κ τ} (h : ∀ b, Carried C s b) (c : Bool)
    (i : ℕ) (through : Bool) (b : Bool) : Carried C (s.handle C (.write c i through)) b := by
  have harrivals := (h b).arrivals
  rw [← taken_update (Direction.write_taken (d := s.sends c) i through)] at harrivals
  by_cases hb : b = c
  · subst hb
    refine ⟨?_, ?_, ?_, harrivals, (h b).calls⟩
    · simpa [Link.handle] using (h b).conserved.write i through
    · simpa [Link.handle] using (h b).requests
    · simpa [Link.handle] using (h b).answers
  · refine ⟨?_, ?_, ?_, harrivals, (h b).calls⟩
    · simpa [Link.handle, Function.update_of_ne hb] using (h b).conserved
    · simpa [Link.handle, Function.update_of_ne hb] using (h b).requests
    · simpa [Link.handle, Function.update_of_ne hb] using (h b).answers

theorem Carried.dispatch {C : Codec ω κ τ} {s : Link ω κ τ} (h : ∀ b, Carried C s b) (c : Bool)
    (d : Dispatcher ω) (b : Bool) : Carried C (s.handle C (.dispatch c d)) b := by
  simp only [Link.handle]
  cases htake : (s.sends (!c)).take with
  | none => exact h b
  | some x =>
      obtain ⟨m, rest⟩ := x
      have hrest := (h !c).conserved.take htake
      obtain ⟨wire, hwire, rfl⟩ := Direction.take_eq_some.mp htake
      have hcalls := handle_calls C (s.ends c) (e := .message () (C.fields m)) rfl
      by_cases hb : b = c
      · subst hb
        have hne : (!b) ≠ b := by simp
        constructor
        · simpa using (h b).conserved.post _
        · simp [List.filter_append, (h b).requests, responses_eq, filter_isCall_answer]
        · simp [List.filter_append, (h b).answers, responses_eq, filter_isResponse_answer]
        · simp only [Function.update_of_ne hne, Function.update_self, List.filter_append,
            List.map_append, (h b).arrivals, filter_isCall_arrival d]
        · simpa [hcalls] using (h b).calls
      · obtain rfl : b = !c := Bool.eq_not_of_ne hb
        have hne : (!c) ≠ c := by simp
        constructor
        · simpa [Function.update_of_ne hne] using hrest
        · simpa [Function.update_of_ne hne] using (h !c).requests
        · simpa [Function.update_of_ne hne] using (h !c).answers
        · simpa [Function.update_of_ne hne] using (h !c).arrivals
        · simpa [Function.update_of_ne hne] using (h !c).calls

theorem Carried.step {C : Codec ω κ τ} {s : Link ω κ τ} (h : ∀ b, Carried C s b)
    (e : LinkEvent ω κ) (b : Bool) : Carried C (s.handle C e) b := by
  cases e with
  | call c type name args => exact Carried.call h c type name args b
  | notify c name args => exact Carried.notify h c name args b
  | cancelCall c id => exact Carried.ends h c (handle_calls C _ rfl) b
  | write c i through => exact Carried.write h c i through b
  | dispatch c d => exact Carried.dispatch h c d b
  | callback c i => exact Carried.ends h c (handle_calls C _ rfl) b

/-! ## §5  What an end knows of its calls -/

/-- How a future of this type is completed by a response. -/
def outcome (C : Codec ω κ τ) (type : κ) (err res : ω) : Outcome τ :=
  Taken.outcome C.answers (⟨(), 0, ⟨0, type⟩, res, err⟩ : Taken Unit ω κ)

/-- The futures of an end that made these calls, and has taken these messages: one is completed
by a response with its id, or cancelled; a call is not pending any more when a response with its
id has come. -/
structure Known (C : Codec ω κ τ) (made : List (Made ω κ)) (heard : List (Sent ω))
    (cancelled : BitVec 32 → Prop) (x : State Unit ω κ τ) : Prop where
  matched : x.Matched
  typed : ∀ k cb, x.callbacks () k = some cb → ∃ c, made[cb.call]? = some c ∧ c.type = cb.type
  unheard : ∀ (id : BitVec 32) cb, x.callbacks () id.toInt = some cb →
    ∀ err res, .response id err res ∉ heard
  taken : ∀ r ∈ x.taken, (∃ c, made[r.cb.call]? = some c ∧ c.type = r.cb.type) ∧
    .response r.id r.err r.res ∈ heard
  completed : ∀ a ∈ x.completed, cancelled a.id ∨
    ∃ c err res, made[a.call]? = some c ∧ .response a.id err res ∈ heard ∧
      a.outcome = outcome C c.type err res

variable {C : Codec ω κ τ} {made : List (Made ω κ)} {heard : List (Sent ω)}
  {cancelled : BitVec 32 → Prop} {x : State Unit ω κ τ}

theorem known_start : Known C made heard cancelled {} :=
  ⟨State.matched_init, nofun, nofun, nofun, nofun⟩

theorem Known.call (h : Known C made heard cancelled x) (hlength : x.calls.length = made.length)
    (hlt : x.calls.length < 2 ^ 32) (hfresh : ∀ err res, .response x.rpcid err res ∉ heard)
    (c : Made ω κ) :
    Known C (made ++ [c]) heard cancelled (x.handle C.answers (.asyncCall () c.type)) := by
  have hold : ∀ (n : ℕ) (c' : Made ω κ), made[n]? = some c' → (made ++ [c])[n]? = some c' := by
    intro n c' hn
    rw [List.getElem?_append_left (List.getElem?_eq_some_iff.mp hn).1, hn]
  have hcompleted : (x.asyncCall () c.type).completed = x.completed := by
    simp [State.asyncCall, State.brokenPromise, h.matched.fresh hlt ()]
  refine ⟨h.matched.asyncCall hlt () c.type, ?_, ?_, ?_, ?_⟩
  · intro k cb hcb
    change (x.asyncCall () c.type).callbacks () k = some cb at hcb
    rw [State.asyncCall_callbacks] at hcb
    split at hcb
    · cases hcb
      exact ⟨c, by rw [hlength, List.getElem?_concat_length], rfl⟩
    · obtain ⟨c', hc', htype⟩ := h.typed k cb hcb
      exact ⟨c', hold _ _ hc', htype⟩
  · intro id cb hcb err res
    change (x.asyncCall () c.type).callbacks () id.toInt = some cb at hcb
    rw [State.asyncCall_callbacks] at hcb
    split at hcb
    · next heq =>
        obtain rfl := BitVec.toInt_inj.mp heq.2
        exact hfresh err res
    · exact h.unheard id cb hcb err res
  · intro r hr
    obtain ⟨⟨c', hc', htype⟩, hmem⟩ := h.taken r hr
    exact ⟨⟨c', hold _ _ hc', htype⟩, hmem⟩
  · intro a ha
    change a ∈ (x.asyncCall () c.type).completed at ha
    rw [hcompleted] at ha
    refine (h.completed a ha).imp_right ?_
    rintro ⟨c', err, res, hc', hmem, hout⟩
    exact ⟨c', err, res, hold _ _ hc', hmem, hout⟩

/-- Where no callback is added, the end only hears more, or more is cancelled. -/
theorem Known.mono (h : Known C made heard cancelled x) {heard' : List (Sent ω)}
    {cancelled' : BitVec 32 → Prop} (hheard : heard ⊆ heard')
    (hcancelled : ∀ id, cancelled id → cancelled' id)
    (hpending : ∀ (id : BitVec 32) cb, x.callbacks () id.toInt = some cb →
      ∀ err res, .response id err res ∉ heard') : Known C made heard' cancelled' x := by
  refine ⟨h.matched, h.typed, hpending, ?_, ?_⟩
  · intro r hr
    exact ⟨(h.taken r hr).1, hheard (h.taken r hr).2⟩
  · intro a ha
    rcases h.completed a ha with hcancel | ⟨c, err, res, hc, hmem, hout⟩
    · exact .inl (hcancelled _ hcancel)
    · exact .inr ⟨c, err, res, hc, hheard hmem, hout⟩

theorem Known.response (h : Known C made heard cancelled x) (id : BitVec 32) (err res : ω) :
    Known C made (heard ++ [.response id err res]) cancelled
      (x.dispatchResponse () id err res) := by
  have hheard : heard ⊆ heard ++ [.response id err res] := List.subset_append_left _ _
  have hother : ∀ (k : BitVec 32) err' res', k ≠ id → .response k err' res' ∉ heard →
      .response k err' res' ∉ heard ++ [Sent.response id err res] := by
    intro k err' res' hne hnot hmem
    rcases List.mem_append.mp hmem with hmem | hmem
    · exact hnot hmem
    · cases List.mem_singleton.mp hmem
      exact hne rfl
  unfold State.dispatchResponse
  cases hcb : x.callbacks () id.toInt with
  | none =>
      have hkept := h.mono hheard (fun _ hk => hk) fun k cb hk err' res' => by
        refine hother k err' res' ?_ (h.unheard k cb hk err' res')
        rintro rfl
        rw [hcb] at hk
        cases hk
      exact ⟨(h.matched.permute rfl rfl rfl (.refl _)), hkept.typed, hkept.unheard, hkept.taken,
        hkept.completed⟩
  | some cb =>
      have hmatched := h.matched.settle (t := { x with
        callbacks := x.setCallback () id.toInt none
        taken := x.taken ++ [⟨(), id, cb, res, err⟩] }) hcb rfl rfl rfl (x.settled_taken _ _)
      have hleft : ∀ k cb', x.setCallback () id.toInt none () k = some cb' →
          k ≠ id.toInt ∧ x.callbacks () k = some cb' := by
        intro k cb' hk
        rw [State.setCallback_apply] at hk
        split at hk
        · cases hk
        · next hne => exact ⟨fun heq => hne ⟨rfl, heq⟩, hk⟩
      refine ⟨hmatched, ?_, ?_, ?_, ?_⟩
      · intro k cb' hk
        exact h.typed k cb' (hleft k cb' hk).2
      · intro k cb' hk err' res'
        obtain ⟨hne, hk⟩ := hleft _ _ hk
        exact hother k err' res' (fun heq => hne (congrArg _ heq)) (h.unheard k cb' hk err' res')
      · intro r hr
        rcases List.mem_append.mp hr with hr | hr
        · exact ⟨(h.taken r hr).1, hheard (h.taken r hr).2⟩
        · cases List.mem_singleton.mp hr
          exact ⟨h.typed _ cb hcb, by simp⟩
      · intro a ha
        refine (h.completed a ha).imp_right ?_
        rintro ⟨c, err', res', hc, hmem, hout⟩
        exact ⟨c, err', res', hc, hheard hmem, hout⟩

/-- A message other than a response tells nothing about calls. -/
theorem Known.message (h : Known C made heard cancelled x) (m : Sent ω) :
    Known C made (heard ++ [m]) cancelled (x.handle C.answers (.message () (C.fields m))) := by
  rw [handle_message]
  have hsame : (∀ id err res, m ≠ .response id err res) →
      Known C made (heard ++ [m]) cancelled x := by
    intro hm
    refine h.mono (List.subset_append_left _ _) (fun _ hk => hk) fun k cb hk err res hmem => ?_
    rcases List.mem_append.mp hmem with hmem | hmem
    · exact h.unheard k cb hk err res hmem
    · exact hm k err res (List.mem_singleton.mp hmem).symm
  cases m with
  | notification name args => exact hsame nofun
  | call id name args => exact hsame nofun
  | response id err res => exact h.response id err res

theorem Known.callback (h : Known C made heard cancelled x) (i : ℕ) :
    Known C made heard cancelled (x.handle C.answers (.callback i)) := by
  have hmatched := h.matched.moves (x.handle_moves C.answers (.callback i)) nofun
  revert hmatched
  generalize hm : x.handle C.answers (.callback i) = y
  have hmoves := x.handle_moves C.answers (.callback i)
  rw [hm] at hmoves
  intro hmatched
  cases hmoves with
  | complete i r errors hr =>
      have hmem := List.mem_of_getElem? hr
      obtain ⟨⟨c, hc, htype⟩, hresponse⟩ := h.taken r hmem
      refine ⟨hmatched, h.typed, h.unheard, ?_, ?_⟩
      · intro q hq
        exact h.taken q (List.mem_of_mem_eraseIdx hq)
      · intro a ha
        rcases List.mem_append.mp ha with ha | ha
        · exact h.completed a ha
        · cases List.mem_singleton.mp ha
          refine .inr ⟨c, r.err, r.res, hc, hresponse, ?_⟩
          rw [htype]
          rfl
  | note e errors he => exact ⟨hmatched, h.typed, h.unheard, h.taken, h.completed⟩

theorem Known.cancelCall (h : Known C made heard cancelled x) (id : BitVec 32) :
    Known C made heard (fun k => cancelled k ∨ k = id)
      (x.handle C.answers (.cancelCall () id)) := by
  have hmatched := h.matched.moves (x.handle_moves C.answers (.cancelCall () id)) nofun
  have hkept : Known C made heard (fun k => cancelled k ∨ k = id) x :=
    h.mono (List.Subset.refl _) (fun _ => .inl) h.unheard
  revert hmatched
  generalize hm : x.handle C.answers (.cancelCall () id) = y
  have hmoves := x.handle_moves C.answers (.cancelCall () id)
  rw [hm] at hmoves
  intro hmatched
  cases hmoves with
  | cancel p id cb hcb =>
      have hleft : ∀ k cb', x.setCallback () id.toInt none () k = some cb' →
          x.callbacks () k = some cb' := by
        intro k cb' hk
        rw [State.setCallback_apply] at hk
        split at hk
        · cases hk
        · exact hk
      refine ⟨hmatched, ?_, ?_, hkept.taken, ?_⟩
      · intro k cb' hk
        exact h.typed k cb' (hleft k cb' hk)
      · intro k cb' hk
        exact h.unheard k cb' (hleft _ cb' hk)
      · intro a ha
        rcases List.mem_append.mp ha with ha | ha
        · exact hkept.completed a ha
        · cases List.mem_singleton.mp ha
          exact .inl (.inr rfl)
  | note e errors he => exact ⟨hmatched, hkept.typed, hkept.unheard, hkept.taken, hkept.completed⟩

/-! ## §6  Both ends -/

structure Tracked (C : Codec ω κ τ) (es : List (LinkEvent ω κ)) (s : Link ω κ τ) : Prop where
  carried : ∀ b, Carried C s b
  known : ∀ b, Known C (s.made b) (s.sends (!b)).taken (fun id => .cancelCall b id ∈ es) (s.ends b)

variable {s : Link ω κ τ} {es : List (LinkEvent ω κ)}

/-- A call that has arrived was made. -/
theorem Tracked.made_of_arrived (h : Tracked C es s) {b : Bool} {a : Arrival ω}
    (ha : a ∈ s.arrived (!b)) : ∃ c ∈ s.made b, c.message = a.message := by
  have hmessage : a.message ∈ (s.arrived (!b)).map Arrival.message := List.mem_map_of_mem ha
  have harrivals := (h.carried !b).arrivals
  rw [Bool.not_not] at harrivals
  rw [← harrivals] at hmessage
  obtain ⟨htaken, hcall⟩ := List.mem_filter.mp hmessage
  have hposted := (h.carried b).conserved.taken_subperm.subset htaken
  have hmade := List.mem_filter.mpr ⟨hposted, hcall⟩
  rw [(h.carried b).requests] at hmade
  exact List.mem_map.mp hmade

/-- A response that was taken is the answer to a call that arrived. -/
theorem Tracked.arrived_of_response (h : Tracked C es s) {b : Bool} {id : BitVec 32} {err res : ω}
    (hmem : .response id err res ∈ (s.sends (!b)).taken) :
    ∃ a ∈ s.arrived (!b), ∃ o, a.outcome = some o ∧
      Dispatcher.answer C.objects a.id o = .response id err res := by
  have hposted := (h.carried !b).conserved.taken_subperm.subset hmem
  have hanswer := List.mem_filter (p := Sent.isResponse).mpr ⟨hposted, rfl⟩
  rw [(h.carried !b).answers] at hanswer
  obtain ⟨a, ha, hout⟩ := List.mem_filterMap.mp hanswer
  obtain ⟨o, ho, heq⟩ := Option.map_eq_some_iff.mp hout
  exact ⟨a, ha, o, ho, heq⟩

theorem answer_id {O : Objects ω} {k id : BitVec 32} {o : Except Exception ω} {err res : ω}
    (h : Dispatcher.answer O k o = .response id err res) : k = id := by
  cases o with
  | ok value =>
      cases h
      rfl
  | error e =>
      cases h
      rfl

/-- The response of a handler completes the future with what the handler returned or threw. -/
theorem outcome_answer {type : κ} {k id : BitVec 32} {o : Except Exception ω} {err res : ω}
    (h : Dispatcher.answer C.objects k o = .response id err res) :
    outcome C type err res = C.reply type o := by
  cases o with
  | ok value =>
      cases h
      simp only [outcome, Taken.outcome, C.isNil_nil, if_true, Codec.reply]
      cases C.answers.convert type res <;> rfl
  | error e =>
      cases h
      simp [outcome, Taken.outcome, C.isNil_ofString, C.answers_ofString, Codec.reply]

/-- The id of a call is its number. -/
theorem Tracked.id_eq (h : Tracked C es s) {b : Bool} {n : ℕ} {c : Made ω κ}
    (hn : (s.made b)[n]? = some c) : c.id = BitVec.ofNat 32 n := by
  have hcall : (s.ends b).calls[n]? = some ((), c.id) := by
    rw [(h.carried b).calls, List.getElem?_map, hn]
    rfl
  exact (h.known b).matched.ids hcall

theorem Tracked.length_le (h : Tracked C es s) (b : Bool) : (s.made b).length ≤ 2 ^ 32 := by
  have hbounded := (h.known b).matched.bounded
  rwa [(h.carried b).calls, List.length_map] at hbounded

theorem Tracked.made_unique (h : Tracked C es s) {b : Bool} {n m : ℕ} {c d : Made ω κ}
    (hn : (s.made b)[n]? = some c) (hm : (s.made b)[m]? = some d) (hid : c.id = d.id) : n = m := by
  have hlength := h.length_le b
  have hnlt := (List.getElem?_eq_some_iff.mp hn).1
  have hmlt := (List.getElem?_eq_some_iff.mp hm).1
  rw [h.id_eq hn, h.id_eq hm] at hid
  exact State.eq_of_ofNat (Nat.lt_of_lt_of_le hnlt hlength) (Nat.lt_of_lt_of_le hmlt hlength) hid

/-- No response has come for the next id. -/
theorem Tracked.fresh (h : Tracked C es s) {b : Bool} (hlt : (s.made b).length < 2 ^ 32)
    (err res : ω) : .response (s.ends b).rpcid err res ∉ (s.sends (!b)).taken := by
  intro hmem
  obtain ⟨a, ha, o, -, hanswer⟩ := h.arrived_of_response hmem
  obtain ⟨c, hc, hmessage⟩ := h.made_of_arrived ha
  obtain ⟨n, hn⟩ := List.getElem?_of_mem hc
  have hnlt := (List.getElem?_eq_some_iff.mp hn).1
  have hid : c.id = a.id := congrArg (fun | .call id _ _ => id | _ => 0) hmessage
  have hcounter := (h.known b).matched.counter
  rw [(h.carried b).calls, List.length_map] at hcounter
  have heq : n = (s.made b).length := by
    apply State.eq_of_ofNat (Nat.lt_trans hnlt hlt) hlt
    rw [← h.id_eq hn, hid, answer_id hanswer, hcounter]
  omega

theorem Tracked.step (h : Tracked C es s) (e : LinkEvent ω κ)
    (hids : ∀ b, ((s.handle C e).made b).length ≤ 2 ^ 32) :
    Tracked C (es ++ [e]) (s.handle C e) := by
  refine ⟨Carried.step h.carried e, fun b => ?_⟩
  have hknown : Known C (s.made b) (s.sends (!b)).taken
      (fun id => .cancelCall b id ∈ es ++ [e]) (s.ends b) :=
    (h.known b).mono (List.Subset.refl _) (fun id hid => List.mem_append_left _ hid)
      (h.known b).unheard
  cases e with
  | call c type name args =>
      simp only [Link.handle]
      rw [taken_update (Direction.post_taken _)]
      by_cases hb : b = c
      · subst hb
        have hlt : (s.made b).length < 2 ^ 32 := by
          have hle := hids b
          simp only [Link.handle, Function.update_self, List.length_append,
            List.length_singleton] at hle
          omega
        have hcalls : (s.ends b).calls.length = (s.made b).length := by
          rw [(h.carried b).calls, List.length_map]
        simp only [Function.update_self]
        exact hknown.call hcalls (hcalls ▸ hlt) (h.fresh hlt) ⟨_, type, name, args⟩
      · rw [Function.update_of_ne hb, Function.update_of_ne hb]
        exact hknown
  | notify c name args =>
      simp only [Link.handle]
      rw [taken_update (Direction.post_taken _)]
      exact hknown
  | write c i through =>
      simp only [Link.handle]
      rw [taken_update (Direction.write_taken i through)]
      exact hknown
  | cancelCall c id =>
      simp only [Link.handle]
      by_cases hb : b = c
      · subst hb
        rw [Function.update_self]
        refine ((h.known b).cancelCall id).mono (List.Subset.refl _) ?_
          ((h.known b).cancelCall id).unheard
        rintro k (hk | rfl)
        · exact List.mem_append_left _ hk
        · exact List.mem_append_right _ (List.mem_singleton_self _)
      · rw [Function.update_of_ne hb]
        exact hknown
  | callback c i =>
      simp only [Link.handle]
      by_cases hb : b = c
      · subst hb
        rw [Function.update_self]
        exact hknown.callback i
      · rw [Function.update_of_ne hb]
        exact hknown
  | dispatch c d =>
      simp only [Link.handle]
      cases htake : (s.sends (!c)).take with
      | none => exact hknown
      | some x =>
          obtain ⟨m, rest⟩ := x
          obtain ⟨wire, -, rfl⟩ := Direction.take_eq_some.mp htake
          by_cases hb : b = c
          · subst hb
            have hne : (!b) ≠ b := by simp
            simp only [Function.update_self, Function.update_of_ne hne]
            exact hknown.message m
          · obtain rfl : b = !c := Bool.eq_not_of_ne hb
            simp only [Function.update_of_ne hb, Bool.not_not, Function.update_self,
              Direction.post_taken]
            rwa [Bool.not_not] at hknown

theorem handle_made_length (C : Codec ω κ τ) (s : Link ω κ τ) (e : LinkEvent ω κ) (b : Bool) :
    (s.made b).length ≤ ((s.handle C e).made b).length := by
  cases e with
  | call c type name args =>
      by_cases hb : b = c
      · subst hb
        simp [Link.handle]
      · simp [Link.handle, Function.update_of_ne hb]
  | dispatch c d =>
      simp only [Link.handle]
      split <;> exact Nat.le_refl _
  | notify | write | cancelCall | callback => exact Nat.le_refl _

theorem runs_tracked (run : Runs (Step C) {} es s) (hids : ∀ b, (s.made b).length ≤ 2 ^ 32) :
    Tracked C es s := by
  refine run.invariant_hist
    (I := fun es s => (∀ b, (s.made b).length ≤ 2 ^ 32) → Tracked C es s) ?_ ?_ hids
  · exact fun _ => ⟨carried_start C, fun b => known_start⟩
  · rintro es s e _ h rfl hids
    have hbefore : ∀ b, (s.made b).length ≤ 2 ^ 32 :=
      fun b => Nat.le_trans (handle_made_length C s e b) (hids b)
    exact (h hbefore).step e hids

/-! ## §7  Every call and its answer -/

/-- What holds of the calls of end `b`. -/
structure Answered (C : Codec ω κ τ) (es : List (LinkEvent ω κ)) (s : Link ω κ τ) (b : Bool) :
    Prop where
  /-- A call reaches a handler of the other end at most once, and none that was not made. -/
  once : ((s.arrived (!b)).map Arrival.id).Nodup
  made : ∀ a ∈ s.arrived (!b), ∃ c ∈ s.made b, c.message = a.message
  single : ((s.ends b).completed.map (·.call)).Nodup
  /-- A future is completed with what the handler made of the arguments of the call. -/
  completed : ∀ f ∈ (s.ends b).completed, ∃ c, (s.made b)[f.call]? = some c ∧
    (.cancelCall b c.id ∈ es ∨
      ∃ o, ⟨c.id, c.name, c.args, some o⟩ ∈ s.arrived (!b) ∧ f.outcome = C.reply c.type o)
  /-- When all is quiet, every call has arrived, and those that were handled are completed. -/
  quiet : s.Quiet → ∀ n c, (s.made b)[n]? = some c →
    ∃ o, ⟨c.id, c.name, c.args, o⟩ ∈ s.arrived (!b) ∧
      (o.isSome → ∃ f ∈ (s.ends b).completed, f.call = n)

theorem message_eq {c : Made ω κ} {a : Arrival ω} (h : c.message = a.message) :
    a = ⟨c.id, c.name, c.args, a.outcome⟩ := by
  obtain ⟨id, type, name, args⟩ := c
  obtain ⟨id', name', args', o⟩ := a
  cases h
  rfl

theorem Tracked.nodup_made (h : Tracked C es s) (b : Bool) :
    ((s.made b).map Made.id).Nodup := by
  rw [List.nodup_iff_getElem?_ne_getElem?]
  intro i j hij hj heq
  rw [List.length_map] at hj
  have hi : i < (s.made b).length := by omega
  rw [List.getElem?_map, List.getElem?_map, List.getElem?_eq_getElem hi,
    List.getElem?_eq_getElem hj] at heq
  have hsame := h.made_unique (List.getElem?_eq_getElem hi) (List.getElem?_eq_getElem hj)
    (Option.some.inj heq)
  omega

/-- The id of a call, in its message. -/
def callId : Sent ω → BitVec 32
  | .call id _ _ => id
  | _ => 0

theorem Tracked.nodup_arrived (h : Tracked C es s) (b : Bool) :
    ((s.arrived (!b)).map Arrival.id).Nodup := by
  have harrivals := (h.carried !b).arrivals
  rw [Bool.not_not] at harrivals
  have hsub := (h.carried b).conserved.taken_subperm.filter Sent.isCall
  rw [harrivals, (h.carried b).requests] at hsub
  obtain ⟨messages, hperm, hsublist⟩ := hsub
  have hmade : (((s.made b).map Made.message).map callId).Nodup := by
    rw [List.map_map]
    exact h.nodup_made b
  have harrived := (hperm.map callId).nodup_iff.mp ((hsublist.map callId).nodup hmade)
  rwa [List.map_map] at harrived

theorem Tracked.answered_completed (h : Tracked C es s) {b : Bool} {f : Completion Unit τ}
    (hf : f ∈ (s.ends b).completed) : ∃ c, (s.made b)[f.call]? = some c ∧
      (.cancelCall b c.id ∈ es ∨
        ∃ o, ⟨c.id, c.name, c.args, some o⟩ ∈ s.arrived (!b) ∧ f.outcome = C.reply c.type o) := by
  have hcall := (h.known b).matched.completed_call hf
  rw [(h.carried b).calls, List.getElem?_map] at hcall
  obtain ⟨c, hc, heq⟩ := Option.map_eq_some_iff.mp hcall
  have hid : c.id = f.id := congrArg Prod.snd heq
  refine ⟨c, hc, ?_⟩
  rcases (h.known b).completed f hf with hcancel | ⟨c', err, res, hc', hmem, hout⟩
  · exact .inl (hid ▸ hcancel)
  · right
    rw [hc] at hc'
    cases hc'
    obtain ⟨a, ha, o, ho, hanswer⟩ := h.arrived_of_response hmem
    obtain ⟨d, hd, hmessage⟩ := h.made_of_arrived ha
    obtain ⟨n, hn⟩ := List.getElem?_of_mem hd
    have haid : d.id = a.id := congrArg callId hmessage
    have hsame : f.call = n := by
      apply h.made_unique hc hn
      rw [hid, haid, answer_id hanswer]
    rw [hsame, hn] at hc
    cases hc
    refine ⟨o, ?_, hout.trans (outcome_answer hanswer)⟩
    rw [message_eq hmessage, ho] at ha
    exact ha

theorem Tracked.quiet (h : Tracked C es s) (hquiet : s.Quiet) {b : Bool} {n : ℕ} {c : Made ω κ}
    (hn : (s.made b)[n]? = some c) : ∃ o, ⟨c.id, c.name, c.args, o⟩ ∈ s.arrived (!b) ∧
      (o.isSome → ∃ f ∈ (s.ends b).completed, f.call = n) := by
  have hperm := (h.carried b).conserved.perm_taken (hquiet.idle b)
  have hback := (h.carried !b).conserved.perm_taken (hquiet.idle !b)
  -- the message was sent, and so it was taken
  have hmade : c.message ∈ (s.made b).map Made.message :=
    List.mem_map_of_mem (List.mem_of_getElem? hn)
  rw [← (h.carried b).requests] at hmade
  obtain ⟨hposted, hcall⟩ := List.mem_filter.mp hmade
  have htaken := List.mem_filter.mpr ⟨hperm.mem_iff.mp hposted, hcall⟩
  have harrivals := (h.carried !b).arrivals
  rw [Bool.not_not] at harrivals
  rw [harrivals] at htaken
  obtain ⟨a, ha, hmessage⟩ := List.mem_map.mp htaken
  have heq := message_eq hmessage.symm
  refine ⟨a.outcome, heq ▸ ha, fun hsome => ?_⟩
  -- and so was the answer, which took the callback
  obtain ⟨o, ho⟩ := Option.isSome_iff_exists.mp hsome
  have hanswer : Dispatcher.answer C.objects a.id o ∈
      (s.arrived (!b)).filterMap (Arrival.answer C.objects) :=
    List.mem_filterMap.mpr ⟨a, ha, by rw [Arrival.answer, ho]; rfl⟩
  rw [← (h.carried !b).answers] at hanswer
  have hheard := hback.mem_iff.mp (List.mem_filter.mp hanswer).1
  have hid : a.id = c.id := congrArg Arrival.id heq
  have hnone : (s.ends b).callbacks () c.id.toInt = none := by
    cases hcb : (s.ends b).callbacks () c.id.toInt with
    | none => rfl
    | some cb =>
        rw [hid] at hheard
        rcases o with e | res
        · exact absurd hheard ((h.known b).unheard c.id cb hcb _ _)
        · exact absurd hheard ((h.known b).unheard c.id cb hcb _ _)
  have hcalls : (s.ends b).calls[n]? = some ((), c.id) := by
    rw [(h.carried b).calls, List.getElem?_map, hn]
    rfl
  rcases (h.known b).matched.accounted hcalls with ⟨cb, hcb, -⟩ | hsettled
  · rw [hnone] at hcb
    cases hcb
  · simp only [State.settled, hquiet.taken b, List.map_nil, List.nil_append, List.map_map,
      List.mem_map] at hsettled
    exact hsettled

/-- **Every call is handled at most once and completed by its own answer**, over every
interleaving of the threads of both ends in which neither has made more calls than there are ids:
the functions bound at an end are called for calls of the other end only, each call at most once
and with its own name and arguments; a future is completed at most once, with what the handler
returned or threw for its call unless it was cancelled; and when nothing is under way and nothing
was lost, each call that found its function is completed. -/
theorem calls_answered (C : Codec ω κ τ) (run : Runs (Step C) {} es s)
    (hids : ∀ b, (s.made b).length ≤ 2 ^ 32) (b : Bool) : Answered C es s b := by
  have h := runs_tracked run hids
  exact ⟨h.nodup_arrived b, fun a => h.made_of_arrived, (h.known b).matched.completed_once,
    fun f => h.answered_completed, fun hquiet n c => h.quiet hquiet⟩

/-- Calls that ask for an integer. -/
def plainAnswers : Msgpack Dispatcher.Plain Unit Int where
  i64 := Dispatcher.plainObjects.i64
  isNil o := o = .nil
  toUInt32 := Dispatcher.plainObjects.toUInt32
  toString := Dispatcher.plainObjects.toString
  convert
    | (), .int n => some n
    | (), _ => none

def plainId (id : BitVec 32) : Dispatcher.Plain := .int id.toNat

theorem toUInt32_plainId (id : BitVec 32) :
    Dispatcher.plainObjects.toUInt32 (plainId id) = some id := by
  have hlt : (id.toNat : Int) < 2 ^ 32 := by
    have := id.isLt
    omega
  simp only [Dispatcher.plainObjects, plainId]
  rw [if_pos ⟨Int.natCast_nonneg _, hlt⟩]
  simp

theorem answers_plainId (id : BitVec 32) : plainAnswers.toUInt32 (plainId id) = some id := by
  simp only [plainAnswers]
  exact toUInt32_plainId id

theorem toUInt32_one : Dispatcher.plainObjects.toUInt32 (.int 1) = some 1 := by
  have h : plainId 1 = .int 1 := by decide
  rw [← h]
  exact toUInt32_plainId 1

def plainCodec : Codec Dispatcher.Plain Unit Int where
  answers := plainAnswers
  objects := Dispatcher.plainObjects
  ofInt := .int
  ofId := plainId
  answers_zero := rfl
  answers_one := rfl
  objects_zero := rfl
  objects_one := rfl
  toInt8_zero := rfl
  toUInt32_one := toUInt32_one
  answers_ofId := answers_plainId
  objects_ofId := toUInt32_plainId
  answers_ofString _ := rfl
  objects_ofString _ := rfl
  isNil_nil := rfl
  isNil_ofString _ := rfl

/-- Two calls are written in the wrong order, and one of them finds no function. -/
def plainCalls : List (LinkEvent Dispatcher.Plain Unit) :=
  [.call false () "__ping__" .emptyArray, .call false () "find_stream" .emptyArray,
    .write false 1 true, .write false 0 true, .dispatch true Dispatcher.pingPeer,
    .dispatch true Dispatcher.pingPeer, .write true 0 true,
    .dispatch false (.root fun _ => none), .callback false 0]

theorem calls_answered_plain :
    ((plainCalls.foldl (handle plainCodec) {}).ends false).completed =
        [⟨(), 0, 0, .value 1600⟩] ∧
      Answered plainCodec plainCalls (plainCalls.foldl (handle plainCodec) {}) false := by
  refine ⟨by decide +kernel, ?_⟩
  refine calls_answered plainCodec (runs_foldl plainCodec {} plainCalls) ?_ false
  decide +kernel

end Link

end BeyondProtocol.Rpc
