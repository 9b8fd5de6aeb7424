import BeyondProtocol.Peer.Dispatcher
import BeyondProtocol.Protocol.Packet

/-!
# What `dispatch` reads of a message (`dispatcher.cpp`)

A `msgpack::object` is a type and a union. `dispatch` looks at `via.array.size` before it knows
that the message is an array, and at the first element and its `via.i64` before anything was
converted. What another member of the union leaves in `size` depends on the layout, which is
open here; an element that is read where there is no array is undefined behaviour, and so is
`via.i64` of what is no integer.

Where every read is allowed, `dispatch` does what `Dispatcher.dispatch` says of the elements.
-/

namespace BeyondProtocol.Rpc

open Framework

namespace Raw

/-! ## §1  Objects -/

/-- `msgpack::object` -/
inductive Object : Type where
  | nil
  | boolean (b : Bool)
  /-- `POSITIVE_INTEGER` or `NEGATIVE_INTEGER` -/
  | integer (n : Int)
  | float32 (bits : BitVec 64)
  | float64 (bits : BitVec 64)
  | str (data : List UInt8)
  | bin (data : List UInt8)
  | array (items : List Object)
  | map (items : List (Object × Object))
  | ext (type : UInt8) (data : List UInt8)

/-- The members of the union as any object shows them. -/
structure Layout where
  /-- `via.array.size` -/
  size : Object → ℕ
  /-- `via.i64` -/
  i64 : Object → Int
  size_array : ∀ items, size (.array items) = items.length

namespace Object

/-- `object_type_to_string` of the type -/
def typeName : Object → String
  | .nil => "NIL"
  | .boolean _ => "BOOLEAN"
  | .integer n => if 0 ≤ n then "POSITIVE_INTEGER" else "NEGATIVE_INTEGER"
  | .float32 _ => "FLOAT32"
  | .float64 _ => "FLOAT64"
  | .str _ => "STR"
  | .bin _ => "BIN"
  | .array _ => "ARRAY"
  | .map _ => "MAP"
  | .ext _ _ => "EXT"

/-- A `std::string` of these bytes. -/
def text (data : List UInt8) : String := String.ofList (data.map fun b => Char.ofNat b.toNat)

/-- What the conversions of msgpack accept. -/
def toInt8 : Object → Option Int
  | .integer n => if -128 ≤ n ∧ n < 128 then some n else none
  | _ => none

def toUInt32 : Object → Option (BitVec 32)
  | .integer n => if 0 ≤ n ∧ n < 4294967296 then some (BitVec.ofInt 32 n) else none
  | _ => none

def toString : Object → Option String
  | .str data => some (text data)
  | .bin data => some (text data)
  | _ => none

def elements : Object → List Object
  | .array items => items
  | _ => []

/-- `via.array.ptr[i]` -/
def element (o : Object) (i : ℕ) : Except Fault Object :=
  match o.elements[i]? with
  | some x => .ok x
  | none => .error .undefined

end Object

/-- The objects of the abstract dispatcher. -/
def Layout.objects (L : Layout) : Objects Object where
  i64 := L.i64
  toInt8 := Object.toInt8
  toUInt32 := Object.toUInt32
  toString := Object.toString
  elements := Object.elements
  typeName := Object.typeName
  nil := .nil
  ofString s := .str s.toUTF8.toList

/-- `via.i64` where it stands for an integer. -/
def Layout.readInt (L : Layout) : Object → Except Fault Int
  | .integer n => .ok (L.i64 (.integer n))
  | _ => .error .undefined

/-! ## §2  The source functions -/

/-- What a call of `dispatch` did: the handlers it called, the responses it passed on, what went
out, and how it ended. -/
structure Done where
  handled : List String := []
  completed : List (BitVec 32 × Object × Object) := []
  sent : List (Sent Object) := []
  ending : Except String Unit := .ok ()

def throws (what : String) : Except Fault Done := .ok { ending := .error what }

section

variable (L : Layout) (deliver : Sent Object → Bool) (d : Dispatcher Object)

/-- `dispatch_call` -/
def dispatchCall (msg : Object) : Except Fault Done :=
  match msg with
  | .array [type, id, name, args] =>
      match type.toInt8, id.toUInt32, name.toString with
      | some type, some id, some name =>
          if type = 0 then
            match d.locateHandler name with
            | some func =>
                let (requests, outcome) := func args
                let answer :=
                  match outcome with
                  | .ok result => Dispatcher.sendResponse L.objects deliver id result
                  | .error e =>
                      Dispatcher.sendErrorResponse L.objects deliver id (L.objects.ofString e.what)
                .ok { handled := [name], sent := requests.map Request.toSent ++ answer }
            | none => throws s!"No binding found for {name}"
          else throws s!"Unrecognised message type: {type}"
      | _, _, _ => throws "Bad message format"
  | _ => throws "Bad message format"

/-- The loop over the arguments after a `std::bad_cast`. -/
def badCastText (args : Object) : Except Fault String := do
  let items ← (List.range (L.size args)).mapM args.element
  let got := ", ".intercalate (items.map Object.typeName)
  return s!"Bad cast, got: {got}"

/-- `dispatch_notification` -/
def dispatchNotification (msg : Object) : Except Fault Done :=
  match msg with
  | .array [type, name, args] =>
      match type.toInt8, name.toString with
      | some _, some name =>
          match d.locateHandler name with
          | some func => do
              let (requests, outcome) := func args
              let ending ←
                match outcome with
                | .ok _ => pure (.ok ())
                | .error .badCast => do
                    let text ← badCastText L args
                    pure (.error text)
                | .error (.other what) => pure (.error s!"Exception for '{name}' - {what}")
              return { handled := [name], sent := requests.map Request.toSent, ending := ending }
          | none => throws s!"Missing handler for incoming message ({name})"
      | _, _ => throws "std::bad_cast"
  | _ => throws "std::bad_cast"

/-- The branch of `dispatch` for a response. -/
def dispatchResponse (msg : Object) : Except Fault Done :=
  match msg with
  | .array [type, id, err, res] =>
      match type.toUInt32, id.toUInt32 with
      | some _, some id => .ok { completed := [(id, err, res)] }
      | _, _ => throws "Bad response format"
  | _ => throws "Bad response format"

/-- `dispatch` -/
def dispatch (msg : Object) : Except Fault Done :=
  if L.size msg = 3 then dispatchNotification L d msg
  else if L.size msg = 4 then do
    let first ← msg.element 0
    let type ← L.readInt first
    if type = 1 then dispatchResponse msg
    else dispatchCall L deliver d msg
  else throws s!"Unrecognised msgpack : {L.size msg}"

end

/-! ## §3  Reads -/

section

variable {L : Layout} {deliver : Sent Object → Bool} {d : Dispatcher Object}

theorem element_eq_ok {o x : Object} {i : ℕ} : o.element i = .ok x ↔ o.elements[i]? = some x := by
  unfold Object.element
  cases o.elements[i]? <;> simp

theorem mapM_element (items : List Object) :
    (List.range items.length).mapM (Object.array items).element = .ok items := by
  have hread : ∀ i ∈ List.range items.length,
      (Object.array items).element i = .ok (items[i]?.getD .nil) := by
    intro i hi
    obtain ⟨x, hx⟩ : ∃ x, items[i]? = some x := ⟨_, List.getElem?_eq_getElem (List.mem_range.mp hi)⟩
    rw [element_eq_ok, hx]
    exact hx
  rw [mapM_ok hread]
  refine congrArg Except.ok (List.ext_getElem (by simp) fun i _ hi => ?_)
  simp [List.getElem?_eq_getElem hi]

/-- Only an array has elements to read. -/
theorem array_of_element {o x : Object} {i : ℕ} (h : o.element i = .ok x) :
    ∃ items, o = .array items ∧ items[i]? = some x := by
  rw [element_eq_ok] at h
  cases o with
  | array items => exact ⟨items, rfl, h⟩
  | nil | boolean | integer | float32 | float64 | str | bin | map | ext => cases h

theorem badCastText_array (items : List Object) : badCastText L (.array items) =
    let got := ", ".intercalate (items.map Object.typeName)
    .ok s!"Bad cast, got: {got}" := by
  rw [badCastText, L.size_array, mapM_element]
  rfl

/-- The arguments are read as far as they are an array, and not at all if they look empty. -/
theorem badCastText_ok_iff {args : Object} :
    (∃ text, badCastText L args = .ok text) ↔
      (L.size args ≠ 0 → ∃ items, args = .array items) := by
  constructor
  · rintro ⟨text, h⟩ hsize
    obtain ⟨items, hread, -⟩ := bind_eq_ok.mp h
    have hfirst : 0 ∈ List.range (L.size args) := List.mem_range.mpr (Nat.pos_of_ne_zero hsize)
    obtain ⟨x, -, hx⟩ := (mapM_eq_ok hread).1 0 hfirst
    obtain ⟨items', rfl, -⟩ := array_of_element hx
    exact ⟨items', rfl⟩
  · intro h
    by_cases hsize : L.size args = 0
    · rw [badCastText, hsize]
      exact ⟨_, rfl⟩
    · obtain ⟨items, rfl⟩ := h hsize
      exact ⟨_, badCastText_array items⟩

/-! ## §4  Exactly when a message is safe -/

/-- An array that may be a notification, or a call or a response. -/
def WellFormed (msg : Object) : Prop :=
  (∃ type name args t n, msg = .array [type, name, args] ∧ type.toInt8 = some t ∧
    name.toString = some n) ∨
  ∃ n id a b k, msg = .array [.integer n, id, a, b] ∧ id.toUInt32 = some k

/-- It throws, with no handler called and no pending call completed. -/
structure Done.Rejected (r : Done) : Prop where
  ending : ∃ what, r.ending = .error what
  handled : r.handled = []
  completed : r.completed = []

/-- Every read is of an element that is there, or of an integer, and whatever is no message is
rejected. -/
def Safe (L : Layout) (deliver : Sent Object → Bool) (d : Dispatcher Object) (msg : Object) :
    Prop :=
  ∃ r, dispatch L deliver d msg = .ok r ∧ (¬ WellFormed msg → r.Rejected)

/-- The handler of a notification ends with a `std::bad_cast`. -/
def BadCast (d : Dispatcher Object) (type name args : Object) : Prop :=
  ∃ t n func, type.toInt8 = some t ∧ name.toString = some n ∧ d.locateHandler n = some func ∧
    (func args).2 = .error .badCast

/-- What looks like an array of four is one, with an integer in front; and where the handler of a
notification ends with a `std::bad_cast`, arguments that do not look empty are an array. -/
structure Tame (L : Layout) (d : Dispatcher Object) (msg : Object) : Prop where
  four : L.size msg = 4 → ∃ n a b c, msg = .array [.integer n, a, b, c]
  arguments : ∀ type name args, msg = .array [type, name, args] → BadCast d type name args →
    L.size args ≠ 0 → ∃ items, args = .array items

theorem dispatchNotification_badCast {type name args : Object} (h : BadCast d type name args) :
    (∃ r, dispatchNotification L d (.array [type, name, args]) = .ok r) ↔
      ∃ text, badCastText L args = .ok text := by
  obtain ⟨t, n, func, ht, hn, hf, hout⟩ := h
  rcases hfa : func args with ⟨requests, outcome⟩
  obtain rfl : outcome = .error .badCast := by simpa [hfa] using hout
  simp only [dispatchNotification, ht, hn, hf, hfa]
  cases badCastText L args with
  | ok text => exact iff_of_true ⟨_, rfl⟩ ⟨text, rfl⟩
  | error f =>
      refine iff_of_false ?_ ?_
      · rintro ⟨r, ⟨⟩⟩
      · rintro ⟨text, ⟨⟩⟩

theorem dispatchNotification_ok {type name args : Object} (h : ¬ BadCast d type name args) :
    ∃ r, dispatchNotification L d (.array [type, name, args]) = .ok r := by
  simp only [dispatchNotification]
  split
  case h_1 t n ht hn =>
      split
      case h_1 func hf =>
          split
          case h_1 | h_3 => exact ⟨_, rfl⟩
          case h_2 hout => exact absurd ⟨t, n, func, ht, hn, hf, hout⟩ h
      case h_2 => exact ⟨_, rfl⟩
  case h_2 => exact ⟨_, rfl⟩

theorem dispatchCall_ok (msg : Object) : ∃ r, dispatchCall L deliver d msg = .ok r := by
  unfold dispatchCall throws
  repeat' split
  all_goals exact ⟨_, rfl⟩

theorem dispatchResponse_ok (msg : Object) : ∃ r, dispatchResponse msg = .ok r := by
  unfold dispatchResponse throws
  repeat' split
  all_goals exact ⟨_, rfl⟩

theorem size_eq_three {items : List Object} (h : L.size (.array items) = 3) :
    ∃ type name args, items = [type, name, args] := by
  rw [L.size_array] at h
  exact List.length_eq_three.mp h

theorem throws_rejected {what : String} {r : Done} (h : throws what = .ok r) : r.Rejected := by
  cases h
  exact ⟨⟨what, rfl⟩, rfl, rfl⟩

theorem dispatchNotification_rejects {type name args : Object} {r : Done}
    (hnot : ¬ WellFormed (.array [type, name, args]))
    (h : dispatchNotification L d (.array [type, name, args]) = .ok r) : r.Rejected := by
  simp only [dispatchNotification] at h
  cases ht : type.toInt8 with
  | none =>
      rw [ht] at h
      exact throws_rejected h
  | some t =>
      cases hn : name.toString with
      | none =>
          rw [ht, hn] at h
          exact throws_rejected h
      | some n => exact absurd (.inl ⟨type, name, args, t, n, rfl, ht, hn⟩) hnot

theorem dispatchResponse_rejects {type id err res : Object} {r : Done} (hid : id.toUInt32 = none)
    (h : dispatchResponse (.array [type, id, err, res]) = .ok r) : r.Rejected := by
  simp only [dispatchResponse, hid] at h
  cases ht : type.toUInt32 with
  | none | some =>
      rw [ht] at h
      exact throws_rejected h

theorem dispatchCall_rejects {type id name args : Object} {r : Done} (hid : id.toUInt32 = none)
    (h : dispatchCall L deliver d (.array [type, id, name, args]) = .ok r) : r.Rejected := by
  simp only [dispatchCall, hid] at h
  cases ht : type.toInt8 with
  | none | some =>
      rw [ht] at h
      exact throws_rejected h

theorem dispatch_three {msg : Object} (h : L.size msg = 3) :
    dispatch L deliver d msg = dispatchNotification L d msg := by
  rw [dispatch, if_pos h]

/-- A message that looks like an array of four is read as one. -/
theorem dispatch_four_iff {msg : Object} (h : L.size msg = 4) :
    (∃ r, dispatch L deliver d msg = .ok r) ↔
      ∃ n a b c, msg = .array [.integer n, a, b, c] := by
  rw [dispatch, if_neg (by omega), if_pos h]
  constructor
  · rintro ⟨r, hr⟩
    obtain ⟨first, hfirst, hr⟩ := bind_eq_ok.mp hr
    obtain ⟨type, htype, -⟩ := bind_eq_ok.mp hr
    obtain ⟨items, rfl, hitem⟩ := array_of_element hfirst
    rw [L.size_array] at h
    obtain ⟨x, rest, rfl⟩ := List.exists_of_length_succ items h
    obtain ⟨a, b, c, rfl⟩ := List.length_eq_three.mp (Nat.succ.inj h)
    obtain rfl : x = first := by simpa using hitem
    cases x with
    | integer n => exact ⟨n, a, b, c, rfl⟩
    | nil | boolean | float32 | float64 | str | bin | array | map | ext => cases htype
  · rintro ⟨n, a, b, c, rfl⟩
    show ∃ r, (if L.i64 (.integer n) = 1 then _ else _) = _
    split
    · exact dispatchResponse_ok _
    · exact dispatchCall_ok _

theorem dispatch_four_rejects {n : Int} {id a b : Object} {r : Done} (hid : id.toUInt32 = none)
    (h : dispatch L deliver d (.array [.integer n, id, a, b]) = .ok r) : r.Rejected := by
  have h4 : L.size (.array [.integer n, id, a, b]) = 4 := L.size_array _
  rw [dispatch, if_neg (by omega), if_pos h4] at h
  change (if L.i64 (.integer n) = 1 then _ else _) = _ at h
  split at h
  · exact dispatchResponse_rejects hid h
  · exact dispatchCall_rejects hid h

/-- **Exactly when a message is safe.** -/
theorem dispatch_safe_iff (L : Layout) (deliver : Sent Object → Bool) (d : Dispatcher Object)
    (msg : Object) : Safe L deliver d msg ↔ Tame L d msg := by
  constructor
  · rintro ⟨r, hr, -⟩
    refine ⟨fun h => (dispatch_four_iff h).mp ⟨r, hr⟩, ?_⟩
    rintro type name args rfl hbad
    rw [dispatch_three (L.size_array _)] at hr
    exact badCastText_ok_iff.mp ((dispatchNotification_badCast hbad).mp ⟨r, hr⟩)
  · rintro ⟨hfour, hargs⟩
    by_cases h4 : L.size msg = 4
    · have hmsg := hfour h4
      obtain ⟨r, hr⟩ := (dispatch_four_iff h4).mpr hmsg
      obtain ⟨n, id, a, b, rfl⟩ := hmsg
      refine ⟨r, hr, fun hnot => ?_⟩
      cases hid : id.toUInt32 with
      | none => exact dispatch_four_rejects hid hr
      | some k => exact absurd (.inr ⟨n, id, a, b, k, rfl, hid⟩) hnot
    · by_cases h3 : L.size msg = 3
      · rw [Safe, dispatch_three h3]
        cases msg with
        | array items =>
            obtain ⟨type, name, args, rfl⟩ := size_eq_three h3
            have hok : ∃ r, dispatchNotification L d (.array [type, name, args]) = .ok r := by
              by_cases hbad : BadCast d type name args
              · rw [dispatchNotification_badCast hbad, badCastText_ok_iff]
                exact hargs _ _ _ rfl hbad
              · exact dispatchNotification_ok hbad
            obtain ⟨r, hr⟩ := hok
            exact ⟨r, hr, fun hnot => dispatchNotification_rejects hnot hr⟩
        | nil | boolean | integer | float32 | float64 | str | bin | map | ext =>
            exact ⟨_, rfl, fun _ => throws_rejected rfl⟩
      · rw [Safe, dispatch, if_neg h3, if_neg h4]
        exact ⟨_, rfl, fun _ => throws_rejected rfl⟩

/-! ## §5  Safe messages and the abstract dispatcher -/

theorem badCastText_eq {args : Object} {text : String} (h : badCastText L args = .ok text) :
    let got := ", ".intercalate (args.elements.map Object.typeName)
    text = s!"Bad cast, got: {got}" := by
  by_cases harray : ∃ items, args = .array items
  · obtain ⟨items, rfl⟩ := harray
    rw [badCastText_array] at h
    cases h
    rfl
  · have hsize : L.size args = 0 := by
      by_contra hne
      exact harray (badCastText_ok_iff.mp ⟨text, h⟩ hne)
    have hnone : args.elements = [] := by
      cases args with
      | array items => exact absurd ⟨items, rfl⟩ harray
      | nil | boolean | integer | float32 | float64 | str | bin | map | ext => rfl
    rw [badCastText, hsize] at h
    cases h
    rw [hnone]
    rfl

theorem dispatchNotification_eq {type name args : Object} {r : Done}
    (h : dispatchNotification L d (.array [type, name, args]) = .ok r) :
    d.dispatchNotification L.objects type name args = (r.sent, r.ending) := by
  simp only [dispatchNotification] at h
  simp only [Dispatcher.dispatchNotification, Layout.objects]
  cases ht : type.toInt8 with
  | none =>
      rw [ht] at h
      cases h
      rfl
  | some t =>
      cases hn : name.toString with
      | none =>
          rw [ht, hn] at h
          cases h
          rfl
      | some n =>
          simp only [ht, hn] at h ⊢
          cases hf : d.locateHandler n with
          | none =>
              rw [hf] at h
              cases h
              rfl
          | some func =>
              rw [hf] at h
              rcases hfa : func args with ⟨requests, outcome⟩
              simp only [hfa] at h ⊢
              rcases outcome with (what | _) | result
              · obtain ⟨text, htext, hret⟩ := bind_eq_ok.mp h
                cases hret
                rw [badCastText_eq htext]
              · cases h
                rfl
              · cases h
                rfl

theorem dispatchCall_eq {type id name args : Object} {r : Done}
    (h : dispatchCall L deliver d (.array [type, id, name, args]) = .ok r) :
    d.dispatchCall L.objects deliver type id name args = (r.sent, r.ending) := by
  revert h
  simp only [dispatchCall, Dispatcher.dispatchCall]
  have htoInt8 : L.objects.toInt8 type = type.toInt8 := rfl
  have htoUInt32 : L.objects.toUInt32 id = id.toUInt32 := rfl
  have htoString : L.objects.toString name = name.toString := rfl
  rw [htoInt8, htoUInt32, htoString]
  rcases type.toInt8 with _ | t
  · rintro ⟨⟩
    rfl
  rcases id.toUInt32 with _ | k
  · rintro ⟨⟩
    rfl
  rcases name.toString with _ | n
  · rintro ⟨⟩
    rfl
  simp only
  split_ifs
  · cases d.locateHandler n with
    | none =>
        rintro ⟨⟩
        rfl
    | some func =>
        rintro ⟨⟩
        rcases hfa : func args with ⟨requests, e | res⟩
        · simp only [hfa]
        · simp only [hfa]
  · rintro ⟨⟩
    rfl

/-- **Where every read is allowed**, what goes out and how `dispatch` ends is what the abstract
dispatcher says of the elements. -/
theorem dispatch_array {items : List Object} {r : Done}
    (h : dispatch L deliver d (.array items) = .ok r) :
    d.dispatch L.objects deliver items = (r.sent, r.ending) := by
  by_cases h3 : L.size (.array items) = 3
  · rw [dispatch_three h3] at h
    obtain ⟨type, name, args, rfl⟩ := size_eq_three h3
    exact dispatchNotification_eq h
  · by_cases h4 : L.size (.array items) = 4
    · obtain ⟨n, id, x, y, heq⟩ := (dispatch_four_iff h4).mp ⟨r, h⟩
      cases heq
      rw [dispatch, if_neg h3, if_pos h4] at h
      change (if L.i64 (.integer n) = 1 then _ else _) = _ at h
      show (if L.i64 (.integer n) = 1 then _ else _) = _
      split_ifs at h ⊢ with htype
      · revert h
        simp only [dispatchResponse, Layout.objects]
        rcases (Object.integer n).toUInt32 with _ | t
        · rintro ⟨⟩
          rfl
        rcases id.toUInt32 with _ | k
        · rintro ⟨⟩
          rfl
        rintro ⟨⟩
        rfl
      · exact dispatchCall_eq h
    · rw [dispatch, if_neg h3, if_neg h4] at h
      cases h
      rw [L.size_array] at h3 h4 ⊢
      unfold Dispatcher.dispatch
      split
      · exact absurd rfl h3
      · exact absurd rfl h4
      · rfl

end

/-! ### Messages of other kinds -/

/-- The function that a `bind` with arguments makes of a function: the number of arguments is
compared with what looks like the size of an array, and then they are converted. -/
def adaptor {τ : Type} (L : Layout) (name : String) (argsCount : ℕ)
    (convert : List Object → Option τ)
    (func : τ → List (Request Object) × Except Exception Object) : Handler Object := fun args =>
  if argsCount ≠ L.size args then
    ([], .error (.other s!"RPC argument missmatch for '{name}' - {argsCount} != {L.size args}"))
  else
    match args with
    | .array items =>
        match convert items with
        | some converted => func converted
        | none => ([], .error .badCast)
    | _ => ([], .error .badCast)

/-- Little endian, with the size in the first four bytes of the union. -/
def littleEndian : Layout where
  size
    | .nil => 0
    | .boolean b => b.toNat
    | .integer n => (n % 4294967296).toNat
    | .float32 bits => bits.toNat % 4294967296
    | .float64 bits => bits.toNat % 4294967296
    | .str data => data.length
    | .bin data => data.length
    | .array items => items.length
    | .map items => items.length
    | .ext _ data => data.length
  i64
    | .integer n => n
    | _ => 0
  size_array _ := rfl

/-- A peer with a function of three arguments. -/
def handshakePeer : Dispatcher Object :=
  .root fun name => if name = "hs" then
    some (adaptor littleEndian "hs" 3 (fun _ => none) fun () => ([], .ok .nil)) else none

/-- The number 4 is taken for an array of four, and so are the arguments 3 of a notification for
an array of three. A response whose type is a string is read as if it was a number. -/
theorem number_four_unsafe :
    dispatch littleEndian (fun _ => true) handshakePeer (.integer 4) = .error .undefined ∧
      dispatch littleEndian (fun _ => true) handshakePeer
        (.array [.integer 0, .str [104, 115], .integer 3]) = .error .undefined ∧
      dispatch littleEndian (fun _ => true) handshakePeer
        (.array [.str [49], .integer 5, .nil, .nil]) = .error .undefined ∧
      ¬ Safe littleEndian (fun _ => true) handshakePeer (.integer 4) := by
  refine ⟨rfl, rfl, rfl, ?_⟩
  rintro ⟨r, ⟨⟩, -⟩

end Raw

end BeyondProtocol.Rpc
