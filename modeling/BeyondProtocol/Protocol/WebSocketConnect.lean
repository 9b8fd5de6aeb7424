import Mathlib.Data.List.Basic
import Mathlib.Logic.Function.Basic
import BeyondProtocol.Framework.Fallible
import BeyondProtocol.Protocol.Packet

/-!
# The client side of the WebSocket handshake (`protocol/websocket.cpp`)

After `connect` has sent its request, it reads the status line of the reply and then header
lines up to an empty one, byte by byte into one buffer of 256 characters.

`SocketConnection::recv` returns 0 for "retry" and -1 once the other side has closed. The
loops take 0 for the end of the connection and go on after -1, with a buffer that nothing
was written to: what they see behind the last byte is what earlier lines, or the stack, have
left there.
-/

namespace BeyondProtocol

open Framework

namespace WebSocketBase

/-! ## §1  The source functions -/

/-- `char line[256]` -/
abbrev LineBuffer : Type := ℕ → UInt8

/-- Why a call of `connect` does not go on. -/
inductive Stop : Type where
  | threw (what : String)
  | fault (f : Fault)
deriving DecidableEq, Repr

/-- What `recv` does when all bytes of the server were read: it reports the end, again and
again, or it wants to be called again, or it throws. -/
inductive Ending : Type where
  | closed
  | retry
  | failed (what : String)
deriving DecidableEq, Repr

def CR : UInt8 := 13

def LF : UInt8 := 10

def readAt (line : LineBuffer) (i : ℕ) : Except Stop UInt8 :=
  if i < 256 then .ok (line i) else .error (.fault .undefined)

def writeAt (line : LineBuffer) (i : ℕ) (b : UInt8) : Except Stop LineBuffer :=
  if i < 256 then .ok (Function.update line i b) else .error (.fault .undefined)

/-- `SocketT::recv(line + i, 1)`: the value, the buffer and the bytes not read yet. -/
def recv (ending : Ending) (line : LineBuffer) (i : ℕ) :
    List UInt8 → Except Stop (Int × LineBuffer × List UInt8)
  | b :: bytes => do
      let line ← writeAt line i b
      .ok (1, line, bytes)
  | [] =>
      match ending with
      | .closed => .ok (-1, line, [])
      | .retry => .ok (0, line, [])
      | .failed what => .error (.threw what)

/-- `i < 2 || (i < 255 && line[i-2] != '\r' && line[i-1] != '\n')` -/
def goesOn (line : LineBuffer) (i : ℕ) : Except Stop Bool :=
  if i < 2 then .ok true
  else if i < 255 then do
    let a ← readAt line (i - 2)
    if a ≠ CR then do
      let b ← readAt line (i - 1)
      .ok (b ≠ LF)
    else .ok false
  else .ok false

/-- The loop that reads a line, from index `i` on. -/
def readLoop (ending : Ending) :
    ℕ → ℕ → LineBuffer → List UInt8 → Except Stop (ℕ × LineBuffer × List UInt8)
  | 0, _, _, _ => .error (.fault .outOfFuel)
  | fuel + 1, i, line, bytes => do
      let more ← goesOn line i
      if more then do
        let (rc, line, bytes) ← recv ending line i bytes
        if rc = 0 then .error (.threw "Connection closed by remote")
        else readLoop ending fuel (i + 1) line bytes
      else .ok (i, line, bytes)

/-- The index goes up to 255 at most, so there are at most 256 tests. -/
def readLine (ending : Ending) (line : LineBuffer) (bytes : List UInt8) :
    Except Stop (ℕ × LineBuffer × List UInt8) :=
  readLoop ending 256 0 line bytes

/-- The string that starts at `line`, which has to end within the buffer. -/
def cString (line : LineBuffer) : Except Stop (List UInt8) :=
  let chars := (List.range 256).map line
  if 0 ∈ chars then .ok (chars.takeWhile (· ≠ 0)) else .error (.fault .undefined)

def bytesOf (s : String) : List UInt8 := s.toList.map fun c => UInt8.ofNat c.toNat

def textOf (bytes : List UInt8) : String := String.ofList (bytes.map fun b => Char.ofNat b.toNat)

def isSpace (b : UInt8) : Bool := b = 32 ∨ 9 ≤ b ∧ b ≤ 13

def isDigit (b : UInt8) : Bool := 48 ≤ b ∧ b ≤ 57

/-- `%d`: the number, if there is a digit. A number that is no `int` is read as a `long` and
cut to its low 32 bits. -/
def scanInt (s : List UInt8) : Option Int :=
  let s := s.dropWhile isSpace
  let negative := s.head? = some 45
  let s := if s.head? = some 43 ∨ s.head? = some 45 then s.drop 1 else s
  let digits := s.takeWhile isDigit
  if digits = [] then none
  else
    let n : ℕ := digits.foldl (fun n b => n * 10 + (b.toNat - 48)) 0
    let n : Int := if negative then -n else n
    some (Int.bmod (max (-2 ^ 63) (min n (2 ^ 63 - 1))) (2 ^ 32))

/-- `sscanf(line, "HTTP/1.1 %d", &status)`, with the number where one is assigned. -/
def scanStatus (s : List UInt8) : Option Int :=
  if bytesOf "HTTP/1.1" <+: s then scanInt ((s.drop 8).dropWhile isSpace) else none

/-- `std::string::substr` -/
def substr (s : List UInt8) (pos n : ℕ) : Except Stop (List UInt8) :=
  if pos > s.length then .error (.threw "basic_string::substr") else .ok ((s.drop pos).take n)

def npos : ℕ := 2 ^ 64 - 1

/-- `cppline.find(":")` -/
def findColon (s : List UInt8) : ℕ := if 58 ∈ s then s.idxOf 58 else npos

/-- The label and the value of a header line; positions and sizes are of type `size_t`. -/
def splitHeader (cppline : List UInt8) : Except Stop (List UInt8 × List UInt8) := do
  let ix := findColon cppline
  let label ← substr cppline 0 ix
  let value ← substr cppline ((ix + 2) % 2 ^ 64) ((cppline.length + 2 * 2 ^ 64 - ix - 4) % 2 ^ 64)
  .ok (label, value)

/-- `while (true)`, with a bound on the number of lines; the newest header is in front. -/
def readHeaders (ending : Ending) :
    ℕ → LineBuffer → List UInt8 → List (List UInt8 × List UInt8) →
      Except Stop (List (List UInt8 × List UInt8))
  | 0, _, _, _ => .error (.fault .outOfFuel)
  | fuel + 1, line, bytes, headers => do
      let (i, line, bytes) ← readLine ending line bytes
      let a ← readAt line 0
      let b ← readAt line 1
      if a = CR ∧ b = LF then .ok headers
      else do
        let line ← writeAt line i 0
        let cppline ← cString line
        let header ← splitHeader cppline
        readHeaders ending fuel line bytes (header :: headers)

def checkHeaders (headers : List (List UInt8 × List UInt8)) : Except Stop Unit :=
  if headers.lookup (bytesOf "Connection") ≠ some (bytesOf "upgrade") then
    .error (.threw "Missing WS connection header")
  else if headers.lookup (bytesOf "Upgrade") ≠ some (bytesOf "websocket") then
    .error (.threw "Missing WS Upgrade")
  else if headers.lookup (bytesOf "Sec-WebSocket-Accept") = none then
    .error (.threw "Missing WS accept header")
  else .ok ()

/-- `connect`, from the reply to its request on; `line` is what is on the stack. -/
def connect (host : String) (ending : Ending) (fuel : ℕ) (line : LineBuffer)
    (bytes : List UInt8) : Except Stop Unit := do
  let (i, line, bytes) ← readLine ending line bytes
  let line ← writeAt line i 0
  if i = 255 then .error (.threw ("Got invalid status line connecting to: " ++ host))
  else do
    let s ← cString line
    if scanStatus s ≠ some 101 then
      .error (.threw ("ERROR: Got bad status connecting to: " ++ host ++ ": " ++ textOf s))
    else do
      let headers ← readHeaders ending fuel line bytes []
      checkHeaders headers

/-! ## §2  Reading a line -/

/-- The buffer after bytes were written to its front. -/
def overlay (line : LineBuffer) (bytes : List UInt8) : LineBuffer := fun j => bytes.getD j (line j)

/-- The loop does not go on at index `j`. -/
def Stops (line : LineBuffer) (j : ℕ) : Prop :=
  2 ≤ j ∧ (255 ≤ j ∨ line (j - 2) = CR ∨ line (j - 1) = LF)

instance (line : LineBuffer) (j : ℕ) : Decidable (Stops line j) :=
  inferInstanceAs (Decidable (2 ≤ j ∧ (255 ≤ j ∨ line (j - 2) = CR ∨ line (j - 1) = LF)))

/-- Where the loop ends if this is what it sees in the buffer. -/
structure StopsAt (line : LineBuffer) (i : ℕ) : Prop where
  stops : Stops line i
  first : ∀ j < i, ¬ Stops line j

theorem StopsAt.le {line : LineBuffer} {i : ℕ} (h : StopsAt line i) : i ≤ 255 := by
  by_contra hlt
  exact h.first 255 (by omega) ⟨by omega, .inl le_rfl⟩

theorem exists_stopsAt (line : LineBuffer) : ∃ i, StopsAt line i := by
  classical
  have h : ∃ i, Stops line i := ⟨255, by omega, .inl le_rfl⟩
  exact ⟨Nat.find h, Nat.find_spec h, fun j => Nat.find_min h⟩

theorem StopsAt.unique {line : LineBuffer} {i j : ℕ} (h : StopsAt line i) (h' : StopsAt line j) :
    i = j := by
  rcases Nat.lt_trichotomy i j with hlt | heq | hlt
  · exact absurd h.stops (h'.first i hlt)
  · exact heq
  · exact absurd h'.stops (h.first j hlt)

/-- Only what lies before the index counts. -/
theorem stops_congr {line line' : LineBuffer} {i : ℕ} (h : ∀ j < i, line j = line' j) :
    Stops line i ↔ Stops line' i := by
  unfold Stops
  by_cases hi : 2 ≤ i
  · rw [h (i - 2) (by omega), h (i - 1) (by omega)]
  · simp only [hi, false_and]

theorem StopsAt.congr {line line' : LineBuffer} {i : ℕ} (h : StopsAt line i)
    (hsame : ∀ j < i, line j = line' j) : StopsAt line' i where
  stops := (stops_congr hsame).mp h.stops
  first j hj := fun hstops =>
    h.first j hj ((stops_congr fun k hk => hsame k (by omega)).mpr hstops)

theorem goesOn_of_stops {line : LineBuffer} {i : ℕ} (h : Stops line i) :
    goesOn line i = .ok false := by
  obtain ⟨htwo, h⟩ := h
  unfold goesOn readAt
  rw [if_neg (by omega)]
  by_cases hi : i < 255
  · rw [if_pos hi, if_pos (by omega), if_pos (by omega)]
    rcases h with h | h | h
    · omega
    · simp [h]
    · simp [h]
  · rw [if_neg hi]

theorem goesOn_of_not_stops {line : LineBuffer} {i : ℕ} (h : ¬ Stops line i) :
    goesOn line i = .ok true := by
  unfold goesOn readAt
  by_cases htwo : i < 2
  · rw [if_pos htwo]
  · have hmore : i < 255 ∧ line (i - 2) ≠ CR ∧ line (i - 1) ≠ LF := by
      unfold Stops at h
      refine ⟨?_, ?_, ?_⟩
      · by_contra hlt
        exact h ⟨by omega, .inl (by omega)⟩
      · exact fun hcr => h ⟨by omega, .inr (.inl hcr)⟩
      · exact fun hlf => h ⟨by omega, .inr (.inr hlf)⟩
    rw [if_neg htwo, if_pos hmore.1, if_pos (by omega), if_pos (by omega)]
    simp [hmore.2]

section overlay

variable (line : LineBuffer) (bytes : List UInt8)

@[simp] theorem overlay_nil : overlay line [] = line := rfl

theorem overlay_take_of_lt {n j : ℕ} (h : j < n) :
    overlay line (bytes.take n) j = overlay line bytes j := by
  simp only [overlay, List.getD_eq_getElem?_getD, List.getElem?_take_of_lt h]

theorem overlay_of_lt {j : ℕ} (h : j < bytes.length) (line' : LineBuffer) :
    overlay line bytes j = overlay line' bytes j := by
  simp only [overlay, List.getD_eq_getElem?_getD, List.getElem?_eq_getElem h, Option.getD_some]

theorem overlay_append_of_lt {w : List UInt8} {j : ℕ} (h : j < w.length) :
    overlay line (w ++ bytes) j = overlay line w j := by
  simp only [overlay, List.getD_eq_getElem?_getD, List.getElem?_append_left h]

/-- The next byte is written. -/
theorem update_overlay_take {n : ℕ} (h : n < bytes.length) :
    Function.update (overlay line (bytes.take n)) n bytes[n] =
      overlay line (bytes.take (n + 1)) := by
  funext j
  by_cases hj : j = n
  · subst hj
    rw [Function.update_self, overlay_take_of_lt _ _ (Nat.lt_succ_self j)]
    simp [overlay, h]
  · rw [Function.update_of_ne hj]
    rcases Nat.lt_or_ge j n with hlt | hge
    · rw [overlay_take_of_lt _ _ hlt, overlay_take_of_lt _ _ (by omega)]
    · have hout : ∀ m, m ≤ j → overlay line (bytes.take m) j = line j := by
        intro m hm
        simp only [overlay, List.getD_eq_getElem?_getD]
        rw [List.getElem?_eq_none (by rw [List.length_take]; omega), Option.getD_none]
      rw [hout n hge, hout (n + 1) (by omega)]

end overlay

variable {ending : Ending} {line : LineBuffer} {bytes : List UInt8} {t i fuel : ℕ}

theorem recv_byte (h : i < bytes.length) (hi : i < 256) :
    recv ending (overlay line (bytes.take i)) i (bytes.drop i) =
      .ok (1, overlay line (bytes.take (i + 1)), bytes.drop (i + 1)) := by
  rw [List.drop_eq_getElem_cons h]
  simp only [recv, writeAt, if_pos hi, ok_bind, update_overlay_take line bytes h]

/-- The loop ends at the first index where it does not go on, with the bytes up to there taken
from the connection as far as it has them. -/
theorem readLoop_eq (hstop : StopsAt (overlay line bytes) t)
    (hend : ending = .closed ∨ t ≤ bytes.length) (hi : i ≤ t) (hfuel : t - i < fuel) :
    readLoop ending fuel i (overlay line (bytes.take i)) (bytes.drop i) =
      .ok (t, overlay line (bytes.take t), bytes.drop t) := by
  have hle := hstop.le
  induction fuel generalizing i with
  | zero => omega
  | succ fuel ih =>
      have hsame : ∀ j < i, overlay line bytes j = overlay line (bytes.take i) j :=
        fun j hj => (overlay_take_of_lt _ _ hj).symm
      rcases Nat.lt_or_eq_of_le hi with hlt | rfl
      · have hmore := hstop.first i hlt
        rw [stops_congr hsame] at hmore
        have hrest := ih (i := i + 1) (by omega) (by omega)
        rw [readLoop, goesOn_of_not_stops hmore, ok_bind]
        by_cases hbytes : i < bytes.length
        · rw [if_pos rfl, recv_byte hbytes (by omega), ok_bind]
          exact hrest
        · -- nothing is written any more
          rw [List.drop_eq_nil_of_le (by omega), List.take_of_length_le (by omega)] at hrest ⊢
          have hclosed : ending = .closed := hend.resolve_right (by omega)
          subst hclosed
          exact hrest
      · rw [readLoop, goesOn_of_stops ((stops_congr hsame).mp hstop.stops), ok_bind]
        rfl

theorem readLine_eq (hstop : StopsAt (overlay line bytes) t)
    (hend : ending = .closed ∨ t ≤ bytes.length) :
    readLine ending line bytes = .ok (t, overlay line (bytes.take t), bytes.drop t) := by
  have hle := hstop.le
  exact readLoop_eq (i := 0) hstop hend (Nat.zero_le t) (by omega)

/-- Without more bytes the loop throws, unless the end is reported as such. -/
theorem readLoop_throws (hstop : StopsAt (overlay line bytes) t) (hopen : ending ≠ .closed)
    (hlong : bytes.length < t) (hi : i ≤ bytes.length) (hfuel : t - i < fuel) :
    ∃ what, readLoop ending fuel i (overlay line (bytes.take i)) (bytes.drop i) =
      .error (.threw what) := by
  have hle := hstop.le
  induction fuel generalizing i with
  | zero => omega
  | succ fuel ih =>
      have hsame : ∀ j < i, overlay line bytes j = overlay line (bytes.take i) j :=
        fun j hj => (overlay_take_of_lt _ _ hj).symm
      have hmore := hstop.first i (by omega)
      rw [stops_congr hsame] at hmore
      rw [readLoop, goesOn_of_not_stops hmore, ok_bind, if_pos rfl]
      by_cases hbytes : i < bytes.length
      · rw [recv_byte hbytes (by omega), ok_bind]
        exact ih (by omega) (by omega)
      · rw [List.drop_eq_nil_of_le (by omega)]
        cases ending with
        | closed => exact absurd rfl hopen
        | retry => exact ⟨_, rfl⟩
        | failed what => exact ⟨what, rfl⟩

theorem readLine_throws (hstop : StopsAt (overlay line bytes) t) (hopen : ending ≠ .closed)
    (hlong : bytes.length < t) : ∃ what, readLine ending line bytes = .error (.threw what) := by
  have hle := hstop.le
  exact readLoop_throws (i := 0) hstop hopen hlong (Nat.zero_le _) (by omega)

/-! ## §3  Header lines -/

/-- The string that ends at index `i`. -/
def content (line : LineBuffer) (i : ℕ) : List UInt8 :=
  ((List.range i).map line).takeWhile (· ≠ 0)

theorem content_congr {line line' : LineBuffer} {i : ℕ} (h : ∀ j < i, line j = line' j) :
    content line i = content line' i := by
  unfold content
  congr 1
  exact List.map_congr_left fun j hj => h j (List.mem_range.mp hj)

theorem length_content_le (line : LineBuffer) (i : ℕ) : (content line i).length ≤ i := by
  have hfront := List.takeWhile_prefix (l := (List.range i).map line) (· ≠ 0)
  have hle := hfront.length_le
  rwa [List.length_map, List.length_range] at hle

theorem takeWhile_append_cons_neg {p : UInt8 → Bool} {xs ys : List UInt8} {y : UInt8}
    (h : p y = false) : (xs ++ y :: ys).takeWhile p = xs.takeWhile p := by
  induction xs with
  | nil => simp [h]
  | cons x xs ih =>
      rw [List.cons_append, List.takeWhile_cons, List.takeWhile_cons, ih]

theorem range_256_split (hi : i ≤ 255) :
    List.range 256 = List.range i ++ i :: List.range' (i + 1) (255 - i) := by
  have happend := @List.range'_append_1 0 i (256 - i)
  rw [Nat.zero_add, show i + (256 - i) = 256 by omega,
    show 256 - i = (255 - i) + 1 by omega, List.range'_succ] at happend
  rw [List.range_eq_range', List.range_eq_range', happend]

theorem cString_update (hi : i ≤ 255) :
    cString (Function.update line i 0) = .ok (content line i) := by
  have hfront : (List.range i).map (Function.update line i 0) = (List.range i).map line :=
    List.map_congr_left fun j hj => Function.update_of_ne (List.mem_range.mp hj).ne _ _
  unfold cString content
  simp only [range_256_split hi, List.map_append, List.map_cons, Function.update_self, hfront]
  rw [if_pos (by simp), takeWhile_append_cons_neg (by simp)]

/-- The line has no value to cut out: it is empty, or its first colon is its last character. -/
def Malformed (s : List UInt8) : Prop := s = [] ∨ ∃ t, 58 ∉ t ∧ s = t ++ [58]

/-- The value starts behind the end of the line. -/
theorem malformed_iff {s : List UInt8} (hlen : s.length ≤ 255) :
    Malformed s ↔ (findColon s + 2) % 2 ^ 64 > s.length := by
  unfold findColon
  by_cases hcolon : 58 ∈ s
  · obtain ⟨t, rest, hs, ht⟩ := List.eq_append_cons_of_mem hcolon
    have hix : s.idxOf 58 = t.length := by
      rw [hs, List.idxOf_append_of_notMem ht, List.idxOf_cons_self, Nat.add_zero]
    have hsize := congrArg List.length hs
    rw [List.length_append, List.length_cons] at hsize
    rw [if_pos hcolon, hix, Nat.mod_eq_of_lt (by omega)]
    constructor
    · rintro (rfl | ⟨t', ht', hs'⟩)
      · cases hcolon
      · have hix' : s.idxOf 58 = t'.length := by
          rw [hs', List.idxOf_append_of_notMem ht', List.idxOf_cons_self, Nat.add_zero]
        have hsize' := congrArg List.length hs'
        rw [List.length_append, List.length_singleton] at hsize'
        omega
    · intro hlong
      obtain rfl : rest = [] := List.eq_nil_of_length_eq_zero (by omega)
      exact .inr ⟨t, ht, hs⟩
  · rw [if_neg hcolon]
    have hone : (npos + 2) % 2 ^ 64 = 1 := by decide
    rw [hone]
    constructor
    · rintro (rfl | ⟨t, -, rfl⟩)
      · exact Nat.one_pos
      · exact absurd (by simp) hcolon
    · intro hshort
      exact .inl (List.eq_nil_of_length_eq_zero (by omega))

theorem splitHeader_eq (s : List UInt8) :
    splitHeader s =
      if (findColon s + 2) % 2 ^ 64 > s.length then .error (.threw "basic_string::substr")
      else .ok (s.take (findColon s),
        (s.drop ((findColon s + 2) % 2 ^ 64)).take
          ((s.length + 2 * 2 ^ 64 - findColon s - 4) % 2 ^ 64)) := by
  unfold splitHeader substr
  simp only [if_neg (Nat.not_lt_zero s.length), ok_bind, List.drop_zero]
  split_ifs <;> rfl

/-- With this in the buffer, reading a line gets out of the loop over the lines. -/
def Leaves (line : LineBuffer) : Prop :=
  ∃ i, StopsAt line i ∧ (line 0 = CR ∧ line 1 = LF ∨ Malformed (content line i))

/-- Returned or threw: everything but a fault of the model. -/
def Ended {α : Type} (result : Except Stop α) : Prop := ∀ f, result ≠ .error (.fault f)

theorem ended_ok {α : Type} (a : α) : Ended (.ok a : Except Stop α) := nofun

theorem ended_threw {α : Type} (what : String) : Ended (.error (.threw what) : Except Stop α) :=
  nofun

/-- One line of the loop that is read to its end. -/
theorem readHeaders_succ (hstop : StopsAt (overlay line bytes) t)
    (hend : ending = .closed ∨ t ≤ bytes.length) (headers : List (List UInt8 × List UInt8)) :
    (Leaves (overlay line bytes) →
        ∀ fuel, Ended (readHeaders ending (fuel + 1) line bytes headers)) ∧
      (¬ Leaves (overlay line bytes) → ∃ header, ∀ fuel,
        readHeaders ending (fuel + 1) line bytes headers =
          readHeaders ending fuel (Function.update (overlay line (bytes.take t)) t 0)
            (bytes.drop t) (header :: headers)) := by
  have htwo : 2 ≤ t := hstop.stops.1
  have hle := hstop.le
  have hsame : ∀ j < t, overlay line (bytes.take t) j = overlay line bytes j :=
    fun j hj => overlay_take_of_lt _ _ hj
  have hsize := (length_content_le (overlay line bytes) t).trans hle
  have hleaves : Leaves (overlay line bytes) ↔
      (overlay line bytes 0 = CR ∧ overlay line bytes 1 = LF) ∨
        Malformed (content (overlay line bytes) t) := by
    constructor
    · rintro ⟨i, hi, h⟩
      rwa [hi.unique hstop] at h
    · exact fun h => ⟨t, hstop, h⟩
  rw [hleaves]
  simp only [readHeaders, readLine_eq hstop hend, ok_bind, readAt, writeAt,
    if_pos (show 0 < 256 by decide), if_pos (show 1 < 256 by decide),
    if_pos (show t < 256 by omega), hsame 0 (by omega), hsame 1 (by omega),
    cString_update hle, content_congr hsame, splitHeader_eq, malformed_iff hsize]
  constructor
  · rintro (hblank | hmalformed) fuel
    · rw [if_pos hblank]
      exact ended_ok _
    · split_ifs
      · exact ended_ok _
      · exact ended_threw _
  · intro h
    obtain ⟨hblank, hgood⟩ := not_or.mp h
    simp only [if_neg hblank, if_neg hgood, ok_bind]
    exact ⟨_, fun _ => rfl⟩

/-! ## §4  When the headers end -/

/-- A line as it is sent. -/
def IsLine (w : List UInt8) : Prop := StopsAt (overlay (fun _ => 0) w) w.length

/-- The buffer after a line was read. -/
def keep (line : LineBuffer) (w : List UInt8) : LineBuffer :=
  Function.update (overlay line w) w.length 0

/-- Behind some of the lines that were sent comes one, the last one possibly not sent to its end
and completed by what the buffer holds, that gets out of the loop. -/
def HeadersEnd (line : LineBuffer) (bytes : List UInt8) : Prop :=
  ∃ (lines : List (List UInt8)) (rest : List UInt8), bytes = lines.flatten ++ rest ∧
    (∀ w ∈ lines, IsLine w) ∧ Leaves (overlay (lines.foldl keep line) rest)

theorem IsLine.stopsAt {w : List UInt8} (h : IsLine w) (line : LineBuffer) (more : List UInt8) :
    StopsAt (overlay line (w ++ more)) w.length :=
  StopsAt.congr h fun j hj => by
    rw [overlay_append_of_lt _ _ hj]
    exact overlay_of_lt _ _ hj _

theorem StopsAt.isLine (h : StopsAt (overlay line bytes) t) (hle : t ≤ bytes.length) :
    IsLine (bytes.take t) := by
  have hlen : (bytes.take t).length = t := by rw [List.length_take, min_eq_left hle]
  unfold IsLine
  rw [hlen]
  refine h.congr fun j hj => ?_
  rw [overlay_take_of_lt _ _ hj]
  exact overlay_of_lt _ _ (by omega) _

theorem keep_take (hle : t ≤ bytes.length) :
    keep line (bytes.take t) = Function.update (overlay line (bytes.take t)) t 0 := by
  unfold keep
  rw [List.length_take, min_eq_left hle]

theorem HeadersEnd.cons {w : List UInt8} (hw : IsLine w) (h : HeadersEnd (keep line w) bytes) :
    HeadersEnd line (w ++ bytes) := by
  obtain ⟨lines, rest, hbytes, hlines, hleaves⟩ := h
  refine ⟨w :: lines, rest, ?_, ?_, hleaves⟩
  · rw [hbytes, List.flatten_cons, List.append_assoc]
  · exact List.forall_mem_cons.mpr ⟨hw, hlines⟩

theorem headersEnd_nil_iff : HeadersEnd line [] ↔ Leaves line := by
  constructor
  · rintro ⟨lines, rest, hnil, hlines, hleaves⟩
    obtain ⟨hflat, rfl⟩ := List.append_eq_nil_iff.mp hnil.symm
    cases lines with
    | nil => exact hleaves
    | cons w lines =>
        have hw := (hlines w List.mem_cons_self).stops.1
        rw [List.flatten_cons, List.append_eq_nil_iff] at hflat
        rw [hflat.1] at hw
        exact absurd hw (by decide)
  · exact fun h => ⟨[], [], rfl, fun w hw => absurd hw List.not_mem_nil, h⟩

/-- Once -1 was returned, the same line is read again and again. -/
theorem leaves_again (hstop : StopsAt line t) :
    Leaves (Function.update line t 0) ↔ Leaves line := by
  have htwo : 2 ≤ t := hstop.stops.1
  have hsame : ∀ j < t, Function.update line t 0 j = line j :=
    fun j hj => Function.update_of_ne hj.ne _ _
  have hstop' : StopsAt (Function.update line t 0) t := hstop.congr fun j hj => (hsame j hj).symm
  constructor
  · rintro ⟨i, hi, h⟩
    obtain rfl := hi.unique hstop'
    rw [hsame 0 (by omega), hsame 1 (by omega), content_congr hsame] at h
    exact ⟨i, hstop, h⟩
  · rintro ⟨i, hi, h⟩
    obtain rfl := hi.unique hstop
    rw [← hsame 0 (by omega), ← hsame 1 (by omega), ← content_congr hsame] at h
    exact ⟨i, hstop', h⟩

/-- Every line that is read to its end brings the run closer to the one that leaves. -/
theorem readHeaders_ends (h : HeadersEnd line bytes) (headers : List (List UInt8 × List UInt8)) :
    ∃ fuel, Ended (readHeaders .closed fuel line bytes headers) := by
  obtain ⟨lines, rest, rfl, hlines, hleaves⟩ := h
  induction lines generalizing line headers with
  | nil =>
      obtain ⟨t, hstop⟩ := exists_stopsAt (overlay line rest)
      exact ⟨1, (readHeaders_succ hstop (.inl rfl) headers).1 hleaves 0⟩
  | cons w lines ih =>
      rw [List.flatten_cons, List.append_assoc]
      obtain ⟨hw, hlines⟩ := List.forall_mem_cons.mp hlines
      have hstop := hw.stopsAt line (lines.flatten ++ rest)
      by_cases hnow : Leaves (overlay line (w ++ (lines.flatten ++ rest)))
      · exact ⟨1, (readHeaders_succ hstop (.inl rfl) headers).1 hnow 0⟩
      · obtain ⟨header, hnext⟩ := (readHeaders_succ hstop (.inl rfl) headers).2 hnow
        rw [List.take_left, List.drop_left, ← keep] at hnext
        obtain ⟨fuel, hended⟩ := ih (header :: headers) hlines hleaves
        exact ⟨fuel + 1, by rwa [hnext]⟩

/-- No number of passes is enough when none of them leaves. -/
theorem readHeaders_stuck (h : ¬ HeadersEnd line bytes) (fuel : ℕ)
    (headers : List (List UInt8 × List UInt8)) :
    readHeaders .closed fuel line bytes headers = .error (.fault .outOfFuel) := by
  induction fuel generalizing line bytes headers with
  | zero => rfl
  | succ fuel ih =>
      obtain ⟨t, hstop⟩ := exists_stopsAt (overlay line bytes)
      have hstay : ¬ Leaves (overlay line bytes) := fun hleaves =>
        h ⟨[], bytes, rfl, fun w hw => absurd hw List.not_mem_nil, hleaves⟩
      obtain ⟨header, hnext⟩ := (readHeaders_succ hstop (.inl rfl) headers).2 hstay
      rw [hnext]
      apply ih
      intro hlater
      rcases Nat.lt_or_ge bytes.length t with hlong | hle
      · rw [List.drop_eq_nil_of_le hlong.le, List.take_of_length_le hlong.le,
          headersEnd_nil_iff, leaves_again hstop] at hlater
        exact hstay hlater
      · apply h
        rw [← keep_take hle] at hlater
        have hcons := hlater.cons (hstop.isLine hle)
        rwa [List.take_append_drop] at hcons

/-- If the connection does not report its end as closed, the loop throws there. -/
theorem readHeaders_open (hopen : ending ≠ .closed) (line : LineBuffer) (bytes : List UInt8)
    (headers : List (List UInt8 × List UInt8)) :
    ∃ fuel, Ended (readHeaders ending fuel line bytes headers) := by
  induction hn : bytes.length using Nat.strong_induction_on generalizing line bytes headers with
  | h n ih =>
      obtain ⟨t, hstop⟩ := exists_stopsAt (overlay line bytes)
      rcases Nat.lt_or_ge bytes.length t with hlong | hle
      · obtain ⟨what, hthrown⟩ := readLine_throws hstop hopen hlong
        refine ⟨1, ?_⟩
        rw [readHeaders, hthrown]
        exact ended_threw what
      by_cases hnow : Leaves (overlay line bytes)
      · exact ⟨1, (readHeaders_succ hstop (.inr hle) headers).1 hnow 0⟩
      · obtain ⟨header, hnext⟩ := (readHeaders_succ hstop (.inr hle) headers).2 hnow
        have htwo : 2 ≤ t := hstop.stops.1
        obtain ⟨fuel, hended⟩ := ih (bytes.drop t).length (by rw [List.length_drop]; omega)
          (Function.update (overlay line (bytes.take t)) t 0) (bytes.drop t) (header :: headers) rfl
        exact ⟨fuel + 1, by rwa [hnext]⟩

theorem readHeaders_inBounds (fuel : ℕ) (line : LineBuffer) (bytes : List UInt8)
    (headers : List (List UInt8 × List UInt8)) :
    readHeaders ending fuel line bytes headers ≠ .error (.fault .undefined) := by
  induction fuel generalizing line bytes headers with
  | zero => nofun
  | succ fuel ih =>
      obtain ⟨t, hstop⟩ := exists_stopsAt (overlay line bytes)
      by_cases hend : ending = .closed ∨ t ≤ bytes.length
      · by_cases hnow : Leaves (overlay line bytes)
        · exact (readHeaders_succ hstop hend headers).1 hnow fuel _
        · obtain ⟨header, hnext⟩ := (readHeaders_succ hstop hend headers).2 hnow
          rw [hnext]
          exact ih _ _ _
      · obtain ⟨hopen, hlong⟩ := not_or.mp hend
        obtain ⟨what, hthrown⟩ := readLine_throws hstop hopen (Nat.lt_of_not_le hlong)
        rw [readHeaders, hthrown]
        exact ended_threw what _

/-! ## §5  The handshake -/

/-- The status line, completed by what the buffer holds if it was not sent to its end, is turned
down, or the headers end behind it. -/
def HandshakeEnds (line : LineBuffer) (bytes : List UInt8) : Prop :=
  ∃ i, StopsAt (overlay line bytes) i ∧
    (i = 255 ∨ scanStatus (content (overlay line bytes) i) ≠ some 101 ∨
      HeadersEnd (Function.update (overlay line (bytes.take i)) i 0) (bytes.drop i))

theorem checkHeaders_ended (headers : List (List UInt8 × List UInt8)) :
    Ended (checkHeaders headers) := by
  unfold checkHeaders
  split_ifs
  · exact ended_threw _
  · exact ended_threw _
  · exact ended_threw _
  · exact ended_ok _

theorem bind_fault {α β : Type} {x : Except Stop α} {g : α → Except Stop β}
    (hg : ∀ a, Ended (g a)) {f : Fault} (h : x >>= g = .error (.fault f)) :
    x = .error (.fault f) := by
  cases x with
  | ok a => exact absurd h (hg a f)
  | error e =>
      rw [error_bind] at h
      cases h
      rfl

/-- What follows the status line. -/
theorem connect_eq (host : String) (hstop : StopsAt (overlay line bytes) t)
    (hend : ending = .closed ∨ t ≤ bytes.length) (fuel : ℕ) :
    connect host ending fuel line bytes =
      if t = 255 then .error (.threw ("Got invalid status line connecting to: " ++ host))
      else if scanStatus (content (overlay line bytes) t) ≠ some 101 then
        .error (.threw ("ERROR: Got bad status connecting to: " ++ host ++ ": " ++
          textOf (content (overlay line bytes) t)))
      else
        readHeaders ending fuel (Function.update (overlay line (bytes.take t)) t 0)
          (bytes.drop t) [] >>= checkHeaders := by
  have hle := hstop.le
  have hsame : ∀ j < t, overlay line (bytes.take t) j = overlay line bytes j :=
    fun j hj => overlay_take_of_lt _ _ hj
  unfold connect
  simp only [readLine_eq hstop hend, ok_bind, writeAt, if_pos (show t < 256 by omega),
    cString_update hle, content_congr hsame]

section connect

variable (host : String)

theorem connect_inBounds (line : LineBuffer) (bytes : List UInt8) (fuel : ℕ) :
    connect host ending fuel line bytes ≠ .error (.fault .undefined) := by
  obtain ⟨t, hstop⟩ := exists_stopsAt (overlay line bytes)
  by_cases hend : ending = .closed ∨ t ≤ bytes.length
  · rw [connect_eq host hstop hend]
    split_ifs
    · nofun
    · nofun
    · exact fun h => readHeaders_inBounds _ _ _ _ (bind_fault checkHeaders_ended h)
  · obtain ⟨hopen, hlong⟩ := not_or.mp hend
    obtain ⟨what, hthrown⟩ := readLine_throws hstop hopen (Nat.lt_of_not_le hlong)
    rw [connect, hthrown]
    exact ended_threw what _

/-- Once the headers are at an end, so is the call. -/
theorem connect_of_headers (hstop : StopsAt (overlay line bytes) t)
    (hend : ending = .closed ∨ t ≤ bytes.length)
    (h : t = 255 ∨ scanStatus (content (overlay line bytes) t) ≠ some 101 ∨
      ∃ fuel, Ended (readHeaders ending fuel
        (Function.update (overlay line (bytes.take t)) t 0) (bytes.drop t) [])) :
    ∃ fuel, Ended (connect host ending fuel line bytes) := by
  simp only [connect_eq host hstop hend]
  by_cases hlimit : t = 255
  · exact ⟨0, by rw [if_pos hlimit]; exact ended_threw _⟩
  by_cases hstatus : scanStatus (content (overlay line bytes) t) ≠ some 101
  · exact ⟨0, by rw [if_neg hlimit, if_pos hstatus]; exact ended_threw _⟩
  obtain ⟨fuel, hended⟩ := (h.resolve_left hlimit).resolve_left hstatus
  refine ⟨fuel, ?_⟩
  rw [if_neg hlimit, if_neg hstatus]
  exact fun f hf => hended f (bind_fault checkHeaders_ended hf)

theorem connect_ends (h : HandshakeEnds line bytes) :
    ∃ fuel, Ended (connect host .closed fuel line bytes) := by
  obtain ⟨t, hstop, h⟩ := h
  apply connect_of_headers host hstop (.inl rfl)
  exact h.imp_right (Or.imp_right fun hheaders => readHeaders_ends hheaders [])

theorem connect_open (hopen : ending ≠ .closed) (line : LineBuffer) (bytes : List UInt8) :
    ∃ fuel, Ended (connect host ending fuel line bytes) := by
  obtain ⟨t, hstop⟩ := exists_stopsAt (overlay line bytes)
  rcases Nat.lt_or_ge bytes.length t with hlong | hle
  · obtain ⟨what, hthrown⟩ := readLine_throws hstop hopen hlong
    refine ⟨0, ?_⟩
    rw [connect, hthrown]
    exact ended_threw what
  · exact connect_of_headers host hstop (.inr hle) (.inr (.inr (readHeaders_open hopen _ _ [])))

theorem connect_stuck (h : ¬ HandshakeEnds line bytes) (fuel : ℕ) :
    connect host .closed fuel line bytes = .error (.fault .outOfFuel) := by
  obtain ⟨t, hstop⟩ := exists_stopsAt (overlay line bytes)
  have hlimit : t ≠ 255 := fun h' => h ⟨t, hstop, .inl h'⟩
  have hstatus : ¬ scanStatus (content (overlay line bytes) t) ≠ some 101 :=
    fun h' => h ⟨t, hstop, .inr (.inl h')⟩
  have hheaders := readHeaders_stuck (fun h' => h ⟨t, hstop, .inr (.inr h')⟩) fuel []
  rw [connect_eq host hstop (.inl rfl), if_neg hlimit, if_neg hstatus, hheaders, error_bind]

end connect

/-- **When the handshake comes to an end.** No run leaves the line buffer. If the server has
closed the connection, `connect` returns or throws exactly if it turns the status line down, or
one of the lines it finds is empty or makes `substr` throw: it never sees that the server has
gone. -/
theorem connect_ends_iff (host : String) (ending : Ending) (line : LineBuffer)
    (bytes : List UInt8) :
    ((∃ fuel, Ended (connect host ending fuel line bytes)) ∧
      ∀ fuel, connect host ending fuel line bytes ≠ .error (.fault .undefined)) ↔
      ending ≠ .closed ∨ HandshakeEnds line bytes := by
  constructor
  · rintro ⟨⟨fuel, hended⟩, -⟩
    by_contra hnot
    obtain ⟨hclosed, hnever⟩ := not_or.mp hnot
    rw [not_not] at hclosed
    subst hclosed
    exact hended _ (connect_stuck host hnever fuel)
  · intro hcond
    refine ⟨?_, connect_inBounds host line bytes⟩
    by_cases hopen : ending = .closed
    · subst hopen
      exact connect_ends host (hcond.resolve_left fun h => h rfl)
    · exact connect_open host hopen line bytes

example : connect "localhost" .closed 5 (fun _ => 0) (bytesOf ("HTTP/1.1 101 OK\r\n" ++
    "Upgrade: websocket\r\nConnection: upgrade\r\nSec-WebSocket-Accept: x\r\n\r\n")) = .ok () := by
  decide +kernel

/-- A status line and the end of the connection. -/
def statusOnly : List UInt8 := bytesOf "HTTP/1.1 101 OK\r\n"

/-- The client takes the status line for a header, and for another one, and so on. -/
theorem connect_never_ends :
    scanStatus statusOnly = some 101 ∧
      ¬ ∃ fuel, Ended (connect "localhost" .closed fuel (fun _ => 0) statusOnly) := by
  refine ⟨by decide +kernel, ?_⟩
  rintro ⟨fuel, hended⟩
  apply hended .outOfFuel
  apply connect_stuck
  have hstop : StopsAt (overlay (fun _ => 0) statusOnly) 17 :=
    ⟨by decide +kernel, by decide +kernel⟩
  rintro ⟨i, hi, h⟩
  obtain rfl := hi.unique hstop
  rcases h with hlimit | hstatus | hheaders
  · exact absurd hlimit (by decide)
  · exact hstatus (by decide +kernel)
  · rw [List.drop_eq_nil_of_le (by decide +kernel), List.take_of_length_le (by decide +kernel),
      headersEnd_nil_iff, leaves_again hstop] at hheaders
    obtain ⟨i, hi, hblank | hmalformed⟩ := hheaders
    · exact absurd hblank (by decide +kernel)
    · obtain rfl := hi.unique hstop
      rw [malformed_iff (by decide +kernel)] at hmalformed
      exact absurd hmalformed (by decide +kernel)

end WebSocketBase

end BeyondProtocol
