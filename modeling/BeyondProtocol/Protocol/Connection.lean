import Mathlib.Algebra.BigOperators.Group.List.Basic
import BeyondProtocol.Framework.Fallible
import BeyondProtocol.Protocol.Packet

/-!
# Writing to a socket (`connection.cpp`)

`SocketConnection::writev` calls the `writev` of the socket until everything was taken.
A call may take any part of what it is offered, so the loop keeps a pointer to the first
iovec that was not sent completely and the number of bytes sent since that iovec was last
adjusted, which may reach over several iovecs.

An iovec is the bytes it refers to; moving `iov_base` on and shortening `iov_len` drops
bytes at its front. The bytes are in memory, so their number stays far below what an
`ssize_t` holds.
-/

namespace BeyondProtocol

open Framework

abbrev Iovec : Type := List UInt8

namespace SocketConnection

/-! ## §1  The source functions -/

/-- How a call of the socket's `writev` ends: up to `count` bytes are taken, or it fails and
`is_fatal` says whether for good. -/
inductive WriteResult : Type where
  | taken (count : ℕ)
  | failed (fatal : Bool)
deriving DecidableEq, Repr

/-- A call of the socket's `writev`. -/
structure WriteCall where
  given : List Iovec
  result : WriteResult
deriving DecidableEq, Repr

namespace WriteCall

/-- The bytes that were taken. -/
def bytes (c : WriteCall) : List UInt8 :=
  match c.result with
  | .taken count => c.given.flatten.take count
  | .failed _ => []

/-- The value the call returns. -/
def sent (c : WriteCall) : Int :=
  match c.result with
  | .taken _ => c.bytes.length
  | .failed _ => -1

def fatal (c : WriteCall) : Bool :=
  match c.result with
  | .taken _ => false
  | .failed fatal => fatal

end WriteCall

/-- The iterations of the loop that only move `iov_ptr` on, and the adjustment of the iovec
where it stops. -/
def advance : List Iovec → Int → Except Fault (List Iovec)
  | [], _ => .error .undefined
  | iov :: rest, sent =>
      let iovLen := (iov.length : Int) - sent
      if iovLen < 0 then
        advance rest (-iovLen)
      else
        .ok (iov.drop sent.toNat :: rest)

/-- The loop, with the calls it makes and the value it returns; there is none yet when the
results of the socket are used up. -/
def writeLoop (requested : Int) :
    List WriteResult → List Iovec → Int → Int → Except Fault (List WriteCall × Option Int)
  | results, iovPtr, sent, sentTotal =>
      if sentTotal < requested then do
        let iovPtr ← advance iovPtr sent
        match results with
        | [] => return ([], none)
        | result :: results =>
            let call : WriteCall := ⟨iovPtr, result⟩
            if call.sent < 0 ∧ call.fatal then
              return ([call], some call.sent)
            else
              let sent := if call.sent < 0 then 0 else call.sent
              let (calls, value) ← writeLoop requested results iovPtr sent (sentTotal + sent)
              return (call :: calls, value)
      else
        return ([], some requested)

/-- `SocketConnection::writev` -/
def writev (iov : List Iovec) : List WriteResult → Except Fault (List WriteCall × Option Int)
  | [] => return ([], none)
  | result :: results =>
      let call : WriteCall := ⟨iov, result⟩
      let requested := (iov.map fun v => (v.length : Int)).sum
      if call.sent < 0 ∧ call.fatal then
        return ([call], some call.sent)
      else
        let sent := if call.sent < 0 then 0 else call.sent
        if sent = requested then
          return ([call], some sent)
        else do
          let (calls, value) ← writeLoop requested results iov sent sent
          return (call :: calls, value)

/-! ## §2  What the calls take -/

/-- The bytes the socket took in all calls, in order. -/
def takenBytes (calls : List WriteCall) : List UInt8 := calls.flatMap WriteCall.bytes

/-- How many bytes a result would let through. -/
def WriteResult.count : WriteResult → ℕ
  | .taken count => count
  | .failed _ => 0

/-- The calls are given what was not taken before, all of it and nothing else. -/
def GivenUnsent (data : List UInt8) (calls : List WriteCall) : Prop :=
  ∀ pre c post, calls = pre ++ c :: post →
    c.given.flatten = data.drop (takenBytes pre).length

/-- How far the calls came with `data`. -/
inductive Progress (data : List UInt8) (results : List WriteResult) (calls : List WriteCall)
    (total : Int) : Option Int → Prop where
  | sent (hall : takenBytes calls = data) (hno : ∀ c ∈ calls, c.fatal = false) :
      Progress data results calls total (some total)
  | broken (hfatal : ∃ c ∈ calls, c.fatal = true) : Progress data results calls total (some (-1))
  | going (hno : ∀ c ∈ calls, c.fatal = false)
      (hless : (results.map WriteResult.count).sum < data.length) :
      Progress data results calls total none

namespace WriteCall

variable (c : WriteCall)

theorem bytes_isPrefix : c.bytes <+: c.given.flatten := by
  unfold bytes
  split
  · exact List.take_prefix _ _
  · exact List.nil_prefix

/-- What the loop adds for a call that did not fail for good. -/
theorem sent_eq : (if c.sent < 0 then 0 else c.sent) = (c.bytes.length : Int) := by
  unfold sent bytes
  split
  · exact if_neg (by omega)
  · rfl

theorem sent_of_fatal (h : c.fatal = true) : c.sent = -1 := by
  unfold fatal at h
  unfold sent
  split at h
  · cases h
  · rfl

theorem length_bytes : c.bytes.length = min c.result.count c.given.flatten.length := by
  unfold bytes WriteResult.count
  split
  · exact List.length_take
  · simp

end WriteCall

theorem takenBytes_cons (c : WriteCall) (calls : List WriteCall) :
    takenBytes (c :: calls) = c.bytes ++ takenBytes calls :=
  List.flatMap_cons

theorem givenUnsent_nil (data : List UInt8) : GivenUnsent data [] := by
  intro pre c post h
  cases pre <;> cases h

theorem GivenUnsent.cons {data : List UInt8} {c : WriteCall} {calls : List WriteCall}
    (hc : c.given.flatten = data) (h : GivenUnsent (data.drop c.bytes.length) calls) :
    GivenUnsent data (c :: calls) := by
  intro pre d post heq
  cases pre with
  | nil =>
      cases heq
      exact hc
  | cons c' pre =>
      obtain ⟨rfl, htail⟩ := List.cons_eq_cons.mp heq
      rw [h pre d post htail, List.drop_drop, takenBytes_cons, List.length_append]

theorem append_drop_bytes {data : List UInt8} {c : WriteCall} (hc : c.given.flatten = data) :
    c.bytes ++ data.drop c.bytes.length = data := by
  obtain ⟨rest, hrest⟩ := hc ▸ c.bytes_isPrefix
  rw [← hrest, List.drop_left]

theorem GivenUnsent.isPrefix {data : List UInt8} {calls : List WriteCall}
    (h : GivenUnsent data calls) : takenBytes calls <+: data := by
  induction calls generalizing data with
  | nil => exact List.nil_prefix
  | cons c calls ih =>
      have hc : c.given.flatten = data := h [] c calls rfl
      have hrest : GivenUnsent (data.drop c.bytes.length) calls := by
        intro pre d post heq
        rw [h (c :: pre) d post (by rw [heq, List.cons_append]), takenBytes_cons,
          List.length_append, List.drop_drop]
      rw [takenBytes_cons, ← append_drop_bytes hc]
      exact (List.prefix_append_right_inj _).mpr (ih hrest)

/-! ## §3  The loop -/

/-- With bytes left to send the pointer stays within the iovecs and what it points to is what
was not sent. -/
theorem advance_ok {iov : List Iovec} {k : ℕ} (hk : k < iov.flatten.length) :
    ∃ iov', advance iov k = .ok iov' ∧ iov'.flatten = iov.flatten.drop k := by
  induction iov generalizing k with
  | nil => exact absurd hk (Nat.not_lt_zero k)
  | cons v rest ih =>
      rw [List.flatten_cons, List.length_append] at hk
      by_cases hlen : v.length < k
      · obtain ⟨iov', hadvance, hflatten⟩ := ih (k := k - v.length) (by omega)
        refine ⟨iov', ?_, ?_⟩
        · have hneg : (v.length : Int) - k < 0 := by omega
          have hleft : -((v.length : Int) - k) = ((k - v.length : ℕ) : Int) := by omega
          rw [advance, if_pos hneg, hleft, hadvance]
        · rw [hflatten, List.flatten_cons, List.drop_append, List.drop_eq_nil_of_le hlen.le,
            List.nil_append]
      · refine ⟨v.drop k :: rest, ?_, ?_⟩
        · rw [advance, if_neg (by omega), Int.toNat_natCast]
        · rw [List.flatten_cons, List.flatten_cons, List.drop_append,
            Nat.sub_eq_zero_of_le (by omega), List.drop_zero]

/-- After a call that did not fail for good, the rest is a matter of the bytes not taken. -/
theorem Progress.cons {data : List UInt8} {c : WriteCall} {results : List WriteResult}
    {calls : List WriteCall} {total : Int} {value : Option Int} (hc : c.given.flatten = data)
    (hfatal : c.fatal = false)
    (h : Progress (data.drop c.bytes.length) results calls total value) :
    Progress data (c.result :: results) (c :: calls) total value := by
  cases h with
  | sent hall hno =>
      apply Progress.sent
      · rw [takenBytes_cons, hall, append_drop_bytes hc]
      · exact List.forall_mem_cons.mpr ⟨hfatal, hno⟩
  | broken hbroken =>
      obtain ⟨d, hd, hd'⟩ := hbroken
      exact .broken ⟨d, List.mem_cons_of_mem c hd, hd'⟩
  | going hno hless =>
      apply Progress.going
      · exact List.forall_mem_cons.mpr ⟨hfatal, hno⟩
      · have hlength := c.length_bytes
        rw [hc] at hlength
        rw [List.length_drop] at hless
        rw [List.map_cons, List.sum_cons]
        omega

/-- A call that fails for good is the last one. -/
theorem broken_call {data : List UInt8} {c : WriteCall} {results : List WriteResult} {total : Int}
    (hc : c.given.flatten = data) (hfatal : c.fatal = true) :
    GivenUnsent data [c] ∧ Progress data results [c] total (some c.sent) := by
  refine ⟨GivenUnsent.cons hc (givenUnsent_nil _), ?_⟩
  rw [c.sent_of_fatal hfatal]
  exact .broken ⟨c, List.mem_singleton_self c, hfatal⟩

/-- The loop is left when nothing is to be sent any more. -/
theorem writeLoop_done (results : List WriteResult) (iov : List Iovec) (sent requested : Int) :
    writeLoop requested results iov sent requested = .ok ([], some requested) := by
  rw [writeLoop, if_neg (lt_irrefl requested)]
  rfl

/-- The loop with `k` bytes of its iovecs sent and `data` still to be sent. -/
theorem writeLoop_ok (results : List WriteResult) (total : ℕ) {iov : List Iovec} {k : ℕ}
    {data : List UInt8} (hdata : iov.flatten.drop k = data) :
    ∃ calls value,
      writeLoop (total + data.length : ℕ) results iov k total = .ok (calls, value) ∧
        GivenUnsent data calls ∧
        Progress data results calls (total + data.length : ℕ) value := by
  induction results generalizing iov k total data with
  | nil =>
      rcases data with - | ⟨b, bs⟩
      · exact ⟨[], _, writeLoop_done _ _ _ _, givenUnsent_nil _,
          .sent rfl (fun c hc => absurd hc List.not_mem_nil)⟩
      · have hk : k < iov.flatten.length := by
          have := congrArg List.length hdata
          rw [List.length_drop, List.length_cons] at this
          omega
        obtain ⟨iov', hadvance, -⟩ := advance_ok hk
        refine ⟨[], none, ?_, givenUnsent_nil _, .going ?_ ?_⟩
        · rw [writeLoop, if_pos (by rw [List.length_cons]; omega), hadvance]
          rfl
        · exact fun c hc => absurd hc List.not_mem_nil
        · exact Nat.succ_pos _
  | cons result results ih =>
      rcases hcons : data with - | ⟨b, bs⟩
      · exact ⟨[], _, writeLoop_done _ _ _ _, givenUnsent_nil _,
          .sent rfl (fun c hc => absurd hc List.not_mem_nil)⟩
      rw [← hcons]
      have hpos : 0 < data.length := by
        rw [hcons]
        exact Nat.succ_pos _
      have hk : k < iov.flatten.length := by
        have := congrArg List.length hdata
        rw [List.length_drop] at this
        omega
      obtain ⟨iov', hadvance, hflatten⟩ := advance_ok hk
      set c : WriteCall := ⟨iov', result⟩ with hc
      have hgiven : c.given.flatten = data := hflatten.trans hdata
      rw [writeLoop, if_pos (by omega), hadvance, ok_bind]
      dsimp only
      rw [← hc]
      by_cases hfatal : c.fatal = true
      · have hneg : c.sent < 0 := by
          rw [c.sent_of_fatal hfatal]
          decide
        rw [if_pos ⟨hneg, hfatal⟩]
        exact ⟨[c], _, rfl, broken_call hgiven hfatal⟩
      · have hlength : c.bytes.length ≤ data.length := hgiven ▸ c.bytes_isPrefix.length_le
        rw [if_neg fun h => hfatal h.2, c.sent_eq]
        obtain ⟨calls, value, hloop, hunsent, hprogress⟩ :=
          ih (total + c.bytes.length) (congrArg (List.drop c.bytes.length) hgiven)
        rw [List.length_drop, show total + c.bytes.length + (data.length - c.bytes.length) =
          total + data.length by omega] at hloop hprogress
        rw [← Int.natCast_add, hloop]
        exact ⟨c :: calls, value, rfl, hunsent.cons hgiven,
          hprogress.cons hgiven (Bool.eq_false_of_not_eq_true hfatal)⟩

theorem sum_lengths (iov : List Iovec) :
    (iov.map fun v => (v.length : Int)).sum = iov.flatten.length := by
  induction iov with
  | nil => rfl
  | cons v rest ih =>
      rw [List.map_cons, List.sum_cons, ih, List.flatten_cons, List.length_append]
      exact (Int.natCast_add _ _).symm

theorem writev_ok (iov : List Iovec) (result : WriteResult) (results : List WriteResult) :
    ∃ calls value, writev iov (result :: results) = .ok (calls, value) ∧
      GivenUnsent iov.flatten calls ∧
      Progress iov.flatten (result :: results) calls iov.flatten.length value := by
  set c : WriteCall := ⟨iov, result⟩ with hc
  rw [writev]
  dsimp only
  rw [← hc, sum_lengths]
  by_cases hfatal : c.fatal = true
  · have hneg : c.sent < 0 := by
      rw [c.sent_of_fatal hfatal]
      decide
    rw [if_pos ⟨hneg, hfatal⟩]
    exact ⟨[c], _, rfl, broken_call rfl hfatal⟩
  have hnot : c.fatal = false := Bool.eq_false_of_not_eq_true hfatal
  have hlength : c.bytes.length ≤ iov.flatten.length := c.bytes_isPrefix.length_le
  rw [if_neg fun h => hfatal h.2, c.sent_eq]
  split
  · -- everything was taken at once
    rename_i hall
    have hdone : iov.flatten.drop c.bytes.length = [] := List.drop_eq_nil_of_le (by omega)
    refine ⟨[c], _, rfl, GivenUnsent.cons rfl (givenUnsent_nil _), ?_⟩
    rw [hall]
    refine Progress.cons rfl hnot (.sent ?_ fun d hd => absurd hd List.not_mem_nil)
    exact hdone.symm
  · obtain ⟨calls, value, hloop, hunsent, hprogress⟩ :=
      writeLoop_ok results c.bytes.length (rfl : iov.flatten.drop c.bytes.length = _)
    have htotal : c.bytes.length + (iov.flatten.drop c.bytes.length).length =
        iov.flatten.length := by
      rw [List.length_drop]
      omega
    rw [htotal] at hloop hprogress
    rw [hloop]
    exact ⟨c :: calls, value, rfl, hunsent.cons rfl, hprogress.cons rfl hnot⟩

/-- Whatever the socket answers, each call is given exactly the bytes that were not taken
before, and the pointer stays within the iovecs. With answers that let enough bytes through the
socket has taken all bytes in the end and their number is returned; a call that fails for good
ends it with a negative value and a part of the bytes, from the front, taken. -/
theorem writev_sends_all (iov : List Iovec) (results : List WriteResult) :
    ∃ calls value, writev iov results = .ok (calls, value) ∧
      GivenUnsent iov.flatten calls ∧
      ((∀ c ∈ calls, c.fatal = false) → results ≠ [] →
        iov.flatten.length ≤ (results.map WriteResult.count).sum →
          takenBytes calls = iov.flatten ∧ value = some (iov.flatten.length : Int)) ∧
      ((∃ c ∈ calls, c.fatal = true) →
        takenBytes calls <+: iov.flatten ∧ ∃ v < 0, value = some v) := by
  rcases results with - | ⟨result, results⟩
  · refine ⟨[], none, rfl, givenUnsent_nil _, fun _ hne => absurd rfl hne, ?_⟩
    rintro ⟨c, hc, -⟩
    exact absurd hc List.not_mem_nil
  obtain ⟨calls, value, hwritev, hunsent, hprogress⟩ := writev_ok iov result results
  refine ⟨calls, value, hwritev, hunsent, ?_, ?_⟩
  · intro hno _ henough
    cases hprogress with
    | sent hall _ => exact ⟨hall, rfl⟩
    | broken hfatal =>
        obtain ⟨c, hc, hfatal⟩ := hfatal
        exact absurd (hno c hc) (by simp [hfatal])
    | going _ hless => exact absurd henough (Nat.not_le_of_lt hless)
  · rintro ⟨c, hc, hfatal⟩
    refine ⟨hunsent.isPrefix, ?_⟩
    cases hprogress with
    | sent _ hno => exact absurd (hno c hc) (by simp [hfatal])
    | broken _ => exact ⟨-1, by decide, rfl⟩
    | going hno _ => exact absurd (hno c hc) (by simp [hfatal])

end SocketConnection

end BeyondProtocol
