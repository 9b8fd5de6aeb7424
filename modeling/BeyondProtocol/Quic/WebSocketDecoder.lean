import BeyondProtocol.Framework.Transducer
import BeyondProtocol.Quic.WebSocketRead

/-!
# The reader as a byte-at-a-time decoder

What the frame reader is for, without chunks: `Decoder.step` takes one byte of
the stream and says what that byte was. `WebsocketRead` refines it. From a
reader that stands where a decoder stands, `Next` and the calls of `Buffer` up
to the first empty span do with a chunk what the decoder does with its bytes,
up to the end of the chunk or to a byte after which `Buffer` stops early
(`feed_decodes`).

The refinement holds for any bytes: frames enter only in the next module.
-/

namespace BeyondProtocol.Quic

open Framework

/-! ## §1  The decoder -/

/-- What a byte of the stream was: part of a header, payload, the last byte of
a header without payload, the last byte of the header of a close frame, or the
end of something the decoder does not go on after. -/
inductive Mark : Type where
  | header
  | payload (b : UInt8)
  | empty
  | close
  | invalid
deriving DecidableEq, Repr

namespace Mark

/-- `Buffer` returns an empty span after such a byte. -/
def Stops (m : Mark) : Prop := m = .empty ∨ m = .close

instance (m : Mark) : Decidable m.Stops := by
  unfold Stops
  infer_instance

def payload? : Mark → Option UInt8
  | .payload b => some b
  | _ => none

end Mark

/-- The payload among the marked bytes. -/
def plain (ms : List Mark) : List UInt8 := ms.filterMap Mark.payload?

structure Decoder where
  header : List UInt8 := []
  remaining : Nat := 0
  read : Nat := 0
  key : Option WsMaskKey := none
deriving DecidableEq, Repr

namespace Decoder

def unmask (d : Decoder) (bytes : List UInt8) : List UInt8 :=
  match d.key with
  | some key => mask key d.read bytes
  | none => bytes

/-- The byte that completes a header. The length is the `int` that the reader counts down. -/
def enter (h : WebSocketHeader) : Decoder × Mark :=
  let announced := toInt32 h.payloadLength
  ({ remaining := announced.toNat, key := if h.mask then some h.maskingKey else none },
    if h.opCode = OpCodeType.CLOSE then .close
    else if announced < 0 then .invalid
    else if announced = 0 then .empty else .header)

/-- The byte after which the parser has an answer. -/
def conclude : WsParseHeaderStatus → Decoder × Mark
  | .ok h => enter h
  | _ => ({}, .invalid)

def step (d : Decoder) (b : UInt8) : Decoder × Mark :=
  match d.remaining with
  | n + 1 =>
      ({ d with remaining := n, read := d.read + 1 },
        .payload (match d.key with
          | some key => b ^^^ key.get d.read
          | none => b))
  | 0 =>
      match wsParseHeader (d.header ++ [b]) with
      | .ok .notEnoughData => ({ d with header := d.header ++ [b] }, .header)
      | .ok status => conclude status
      | .error _ => ({}, .invalid)

/-- The decoder after the bytes. -/
def after (d : Decoder) (bytes : List UInt8) : Decoder := Transducer.after step d bytes

def marks (d : Decoder) (bytes : List UInt8) : List Mark := Transducer.outputs step d bytes

end Decoder

/-! ## §2  Runs of the decoder -/

@[simp] theorem plain_nil : plain [] = [] := rfl

@[simp] theorem plain_append (ms ms' : List Mark) : plain (ms ++ ms') = plain ms ++ plain ms' :=
  List.filterMap_append

@[simp] theorem plain_map_payload (bytes : List UInt8) :
    plain (bytes.map Mark.payload) = bytes := by
  simp [plain, List.filterMap_map, Function.comp_def, Mark.payload?]

theorem plain_eq_nil {ms : List Mark} (h : ∀ m ∈ ms, m.payload? = none) : plain ms = [] :=
  List.filterMap_eq_nil_iff.mpr h

theorem mask_cons (key : WsMaskKey) (offset : Nat) (b : UInt8) (bs : List UInt8) :
    mask key offset (b :: bs) = (b ^^^ key.get offset) :: mask key (offset + 1) bs := by
  simp only [mask, List.mapIdx_cons, Nat.zero_add]
  congr 2
  funext i b
  rw [Nat.add_right_comm, Nat.add_assoc]

namespace Decoder

variable (d : Decoder)

@[simp] theorem after_nil : d.after [] = d := rfl

@[simp] theorem marks_nil : d.marks [] = [] := rfl

theorem after_append (xs ys : List UInt8) : d.after (xs ++ ys) = (d.after xs).after ys :=
  Transducer.after_append ..

theorem marks_append (xs ys : List UInt8) :
    d.marks (xs ++ ys) = d.marks xs ++ (d.after xs).marks ys :=
  Transducer.outputs_append ..

@[simp] theorem length_marks (xs : List UInt8) : (d.marks xs).length = xs.length :=
  Transducer.length_outputs ..

/-- Inside a payload. -/
theorem run_payload {d : Decoder} {bytes : List UInt8} (h : bytes.length ≤ d.remaining) :
    d.after bytes = { d with
        remaining := d.remaining - bytes.length
        read := d.read + bytes.length } ∧
      d.marks bytes = (d.unmask bytes).map .payload := by
  induction bytes generalizing d with
  | nil =>
      refine ⟨rfl, ?_⟩
      unfold unmask
      cases d.key <;> rfl
  | cons b bytes ih =>
      rcases d with ⟨header, remaining, read, key⟩
      simp only [List.length_cons] at h
      obtain ⟨n, rfl⟩ : ∃ n, remaining = n + 1 := ⟨remaining - 1, by omega⟩
      obtain ⟨hafter, hmarks⟩ := ih (d := ⟨header, n, read + 1, key⟩) (by simp only; omega)
      constructor
      · refine hafter.trans ?_
        simp only [List.length_cons, mk.injEq, true_and, and_true]
        omega
      · refine (congrArg _ hmarks).trans ?_
        cases key with
        | none => rfl
        | some key =>
            simp only [unmask, mask_cons]
            rfl

/-- Inside a header. -/
theorem run_header {d : Decoder} {bytes : List UInt8} (hrem : d.remaining = 0)
    (h : wsParseHeader (d.header ++ bytes) = .ok .notEnoughData) :
    d.after bytes = { d with header := d.header ++ bytes } ∧
      d.marks bytes = List.replicate bytes.length .header := by
  induction bytes generalizing d with
  | nil =>
      rw [List.append_nil]
      exact ⟨rfl, rfl⟩
  | cons b bytes ih =>
      rw [List.append_cons] at h
      have hstep : d.step b = ({ d with header := d.header ++ [b] }, .header) := by
        unfold step
        simp only [hrem, wsParseHeader_notEnough_left h]
      obtain ⟨hafter, hmarks⟩ := ih (d := { d with header := d.header ++ [b] }) hrem h
      rw [after, Transducer.after_cons, marks, Transducer.outputs_cons, hstep]
      constructor
      · refine hafter.trans ?_
        rw [← List.append_cons]
      · exact congrArg _ hmarks

/-- Through the end of a header. -/
theorem run_conclude {d : Decoder} {bytes : List UInt8} {status : WsParseHeaderStatus}
    (hrem : d.remaining = 0) (hstored : wsParseHeader d.header = .ok .notEnoughData)
    (hparse : wsParseHeader (d.header ++ bytes) = .ok status) (hstatus : status ≠ .notEnoughData) :
    ∃ n, headerSizeOf ((d.header ++ bytes).getD 1 0) = d.header.length + (n + 1) ∧
      n + 1 ≤ bytes.length ∧ d.after (bytes.take (n + 1)) = (conclude status).1 ∧
      d.marks (bytes.take (n + 1)) = List.replicate n .header ++ [(conclude status).2] := by
  set size := headerSizeOf ((d.header ++ bytes).getD 1 0) with hsize
  have htwo : 2 ≤ size := two_le_headerSizeOf _
  have hlong : ¬ ((d.header ++ bytes).length < 2 ∨ (d.header ++ bytes).length < size) := by
    rw [← wsParseHeader_notEnough_iff, hparse]
    simpa using hstatus
  rw [List.length_append] at hlong
  -- the stored bytes are fewer than the header has
  have hlt : d.header.length < size := by
    by_cases h2 : d.header.length < 2
    · omega
    · rw [hsize, List.getD_append _ _ _ _ (by omega)]
      exact (wsParseHeader_notEnough_iff.mp hstored).resolve_left h2
  obtain ⟨n, hn⟩ : ∃ n, size = d.header.length + (n + 1) := ⟨size - d.header.length - 1, by omega⟩
  have hnlt : n < bytes.length := by omega
  have htake : bytes.take (n + 1) = bytes.take n ++ [bytes[n]] :=
    (List.take_append_getElem hnlt).symm
  refine ⟨n, hn, by omega, ?_⟩
  -- every byte before the last leaves the header incomplete
  have hbefore : wsParseHeader (d.header ++ bytes.take n) = .ok .notEnoughData := by
    rw [wsParseHeader_notEnough_iff]
    by_cases h2 : (d.header ++ bytes.take n).length < 2
    · exact .inl h2
    · have hget : (d.header ++ bytes.take n).getD 1 0 = (d.header ++ bytes).getD 1 0 := by
        have hpre := List.getD_append (d.header ++ bytes.take n) (bytes.drop n) 0 1 (by omega)
        rw [List.append_assoc, List.take_append_drop] at hpre
        exact hpre.symm
      right
      rw [hget, ← hsize, List.length_append, List.length_take]
      omega
  have hlast : wsParseHeader (d.header ++ bytes.take n ++ [bytes[n]]) = .ok status := by
    rw [List.append_assoc, ← htake, ← hparse, ← wsParseHeader_take hsize.symm.le, hn,
      List.take_length_add_append]
  obtain ⟨hafter, hmarks⟩ := run_header hrem hbefore
  have hstep : ({ d with header := d.header ++ bytes.take n } : Decoder).step bytes[n] =
      conclude status := by
    unfold step
    simp only [hrem, hlast]
  rw [htake, after_append, marks_append, hafter, hmarks, List.length_take, min_eq_left (by omega)]
  constructor
  · exact congrArg Prod.fst hstep
  · exact congrArg (fun p => List.replicate n Mark.header ++ [p.2]) hstep

end Decoder

/-! ## §3  The reader refines the decoder -/

/-- The reader stands where the decoder stands. -/
structure Decodes (r : WebsocketRead) (d : Decoder) : Prop where
  noError : r.error = false
  remaining : r.payloadRemaining = d.remaining
  stored : r.wsHeader = d.header
  incomplete : wsParseHeader d.header = .ok .notEnoughData
  inPayload : 0 < d.remaining → d.header = []
  read : 0 < d.remaining → r.payloadRead = d.read
  mask : 0 < d.remaining → r.wsMask = d.key.isSome
  key : 0 < d.remaining → ∀ key, d.key = some key → r.maskKey = key

theorem decodes_start : Decodes {} {} where
  noError := rfl
  remaining := rfl
  stored := rfl
  incomplete := rfl
  inPayload _ := rfl
  read _ := rfl
  mask _ := rfl
  key _ key h := by cases h

theorem Decodes.setBuffer {r : WebsocketRead} {d : Decoder} (h : Decodes r d)
    (bytes : List UInt8) : Decodes { r with buffer := bytes } d :=
  ⟨h.noError, h.remaining, h.stored, h.incomplete, h.inPayload, h.read, h.mask, h.key⟩

/-- The bytes `used` of the chunk were taken, with the payload among them
returned; only the last of them can be one that stops. -/
structure Consumed (d : Decoder) (bytes used : List UInt8) (r' : WebsocketRead)
    (out : List UInt8) : Prop where
  split : used ++ r'.buffer = bytes
  plain : out = plain (d.marks used)
  valid : Mark.invalid ∉ d.marks used
  before : ∀ m ∈ (d.marks used).dropLast, ¬ m.Stops
  state : Mark.close ∉ d.marks used → Decodes r' (d.after used)
  closed : Mark.close ∈ d.marks used → r'.error = true

/-- What one call of `Buffer` (or `NextBuffer`) does. A non-empty span ends
inside or at the end of a payload. -/
def Returns (d : Decoder) (bytes : List UInt8)
    (result : Except Fault (WebsocketRead × List UInt8)) : Prop :=
  ∃ used r' out, result = .ok (r', out) ∧ Consumed d bytes used r' out ∧
    (out = [] → r'.buffer ≠ [] → ∃ m ∈ (d.marks used).getLast?, m.Stops) ∧
    (out ≠ [] → (∀ m ∈ d.marks used, ¬ m.Stops) ∧ (d.after used).header = [])

theorem not_stops_payload {m : Mark} {bytes : List UInt8} (h : m ∈ bytes.map Mark.payload) :
    ¬ m.Stops ∧ m ≠ .close := by
  obtain ⟨b, -, rfl⟩ := List.mem_map.mp h
  simp [Mark.Stops]

theorem invalid_not_mem_payload (bytes : List UInt8) :
    Mark.invalid ∉ bytes.map Mark.payload := by
  simp

theorem nextBuffer_returns {r : WebsocketRead} {d : Decoder} (h : Decodes r d)
    (hheader : d.header = []) (hpos : 0 < d.remaining) (hsize : r.buffer.length < 2 ^ 31) :
    ∃ used r' out, r.nextBuffer = .ok (r', out) ∧ Consumed d r.buffer used r' out ∧
      (out = [] → r'.buffer = []) ∧ (∀ m ∈ d.marks used, ¬ m.Stops ∧ m ≠ .close) ∧
      (d.after used).header = [] := by
  set n := min r.buffer.length d.remaining with hn
  have hread : min (toInt32 r.buffer.length) r.payloadRemaining = (n : Int) := by
    rw [toInt32_of_lt hsize, h.remaining]
    omega
  have hlen : (r.buffer.take n).length = n := by
    rw [List.length_take]
    omega
  obtain ⟨hafter, hmarks⟩ := @Decoder.run_payload d (r.buffer.take n)
    (by rw [hlen]; omega)
  have hout : (if r.wsMask then mask r.maskKey r.payloadRead (r.buffer.take n)
      else r.buffer.take n) = d.unmask (r.buffer.take n) := by
    rw [h.mask hpos, h.read hpos, Decoder.unmask]
    cases hkey : d.key with
    | none => rfl
    | some key =>
        rw [h.key hpos key hkey]
        rfl
  have hstops : ∀ m ∈ d.marks (r.buffer.take n), ¬ m.Stops ∧ m ≠ .close := by
    intro m hm
    rw [hmarks] at hm
    exact not_stops_payload hm
  refine ⟨r.buffer.take n, { r with
      buffer := r.buffer.drop n
      payloadRead := r.payloadRead + n
      payloadRemaining := r.payloadRemaining - n }, d.unmask (r.buffer.take n), ?_, ?_, ?_,
      hstops, by rw [hafter]; exact hheader⟩
  · unfold WebsocketRead.nextBuffer
    simp only [hread, Int.toNat_natCast, hout]
    rw [if_neg (by omega)]
  · refine ⟨List.take_append_drop _ _, by rw [hmarks, plain_map_payload],
      by rw [hmarks]; exact invalid_not_mem_payload _,
      fun m hm => (hstops m (List.mem_of_mem_dropLast hm)).1, fun _ => ?_,
      fun hclose => absurd rfl (hstops _ hclose).2⟩
    rw [hafter, hlen]
    exact
      { noError := h.noError
        remaining := by simp only [h.remaining]; omega
        stored := h.stored
        incomplete := h.incomplete
        inPayload := fun _ => hheader
        read := fun _ => by simp only [h.read hpos]
        mask := fun _ => h.mask hpos
        key := fun _ => h.key hpos }
  · intro hnil
    have hzero : (d.unmask (r.buffer.take n)).length = 0 := by rw [hnil, List.length_nil]
    have hsame : (d.unmask (r.buffer.take n)).length = n := by
      unfold Decoder.unmask
      cases d.key <;> simp only [length_mask, hlen]
    have hbuf : r.buffer.length = 0 := by omega
    rw [List.length_eq_zero_iff] at hbuf
    simp only [hbuf, List.drop_nil]

theorem not_stops_header {n : Nat} {m : Mark} (h : m ∈ List.replicate n Mark.header) :
    ¬ m.Stops ∧ m ≠ .close := by
  rw [List.eq_of_mem_replicate h]
  simp [Mark.Stops]

theorem invalid_not_mem_headers (n : Nat) : Mark.invalid ∉ List.replicate n .header := by
  simp [List.mem_replicate]

theorem plain_headers (n : Nat) : plain (List.replicate n .header) = [] :=
  plain_eq_nil fun m hm => by rw [List.eq_of_mem_replicate hm]; rfl

/-- A header that ends with a byte after which `Buffer` returns nothing. -/
theorem returns_stop {r' : WebsocketRead} {d : Decoder} {bytes used : List UInt8} {n : Nat}
    {m : Mark} (hsplit : used ++ r'.buffer = bytes)
    (hmarks : d.marks used = List.replicate n .header ++ [m]) (hm : m.Stops)
    (hempty : m = .empty → Decodes r' (d.after used)) (hclose : m = .close → r'.error = true) :
    Returns d bytes (.ok (r', [])) := by
  have hplain : m.payload? = none := by
    rcases hm with rfl | rfl <;> rfl
  have hbefore : (d.marks used).dropLast = List.replicate n .header := by
    rw [hmarks, List.dropLast_concat]
  refine ⟨used, r', [], rfl, ⟨hsplit, ?_, ?_, ?_, ?_, ?_⟩, ?_, fun hne => absurd rfl hne⟩
  · rw [hmarks, plain_append, plain_headers, List.nil_append, plain_eq_nil]
    intro m' hm'
    rwa [List.mem_singleton.mp hm']
  · rw [hmarks, List.mem_append, List.mem_singleton]
    rintro (hmem | rfl)
    · exact invalid_not_mem_headers n hmem
    · rcases hm with hm | hm <;> cases hm
  · intro m' hm'
    rw [hbefore] at hm'
    exact (not_stops_header hm').1
  · intro hnot
    apply hempty
    rcases hm with rfl | rfl
    · rfl
    · exact absurd (by rw [hmarks]; simp) hnot
  · intro hmem
    rw [hmarks, List.mem_append] at hmem
    rcases hmem with hmem | hmem
    · exact absurd rfl (not_stops_header hmem).2
    · exact hclose (List.mem_singleton.mp hmem).symm
  · intro _ _
    exact ⟨m, by rw [hmarks, List.getLast?_concat]; rfl, hm⟩

/-- At a byte that the decoder does not go on after the reader does not come back, or it reports
an error. -/
def Breaks (d : Decoder) (bytes : List UInt8)
    (result : Except Fault (WebsocketRead × List UInt8)) : Prop :=
  Mark.invalid ∈ d.marks bytes ∧ ∀ r' out, result = .ok (r', out) → r'.error = true

/-- After a complete header. -/
theorem acceptHeader_returns {r : WebsocketRead} {d : Decoder} {h : WebSocketHeader}
    (herr : r.error = false) (hrem : d.remaining = 0)
    (hstored : wsParseHeader d.header = .ok .notEnoughData)
    (hparse : wsParseHeader (d.header ++ r.buffer) = .ok (.ok h))
    (hsize : r.buffer.length < 2 ^ 31) :
    Returns d r.buffer (r.acceptHeader d.header.length h) ∨
      Breaks d r.buffer (r.acceptHeader d.header.length h) := by
  obtain ⟨n, hn, hle, hafter, hmarks⟩ :=
    Decoder.run_conclude hrem hstored hparse (by simp)
  have hskip : h.headerSize - d.header.length = n + 1 := by
    rw [(wsParseHeader_size hparse).1, hn]
    omega
  have hmem : (Decoder.conclude (.ok h)).2 ∈ d.marks r.buffer := by
    rw [← List.take_append_drop (n + 1) r.buffer, Decoder.marks_append, hmarks]
    simp
  have hsplit : r.buffer.take (n + 1) ++ r.buffer.drop (n + 1) = r.buffer :=
    List.take_append_drop _ _
  unfold WebsocketRead.acceptHeader
  rw [hskip]
  simp only [Decoder.conclude, Decoder.enter] at hafter hmarks hmem
  by_cases hclose : h.opCode = OpCodeType.CLOSE
  · rw [if_pos hclose] at hmarks ⊢
    exact .inl (returns_stop hsplit hmarks (.inr rfl) (fun h => by cases h) fun _ => rfl)
  rw [if_neg hclose] at hmarks hmem ⊢
  generalize toInt32 h.payloadLength = announced at hafter hmarks hmem ⊢
  set r₁ : WebsocketRead := { r with
    buffer := r.buffer.drop (n + 1)
    wsMask := h.mask
    maskKey := h.maskingKey
    wsHeader := []
    payloadRead := 0
    payloadRemaining := announced } with hr₁
  by_cases hneg : announced < 0
  · rw [if_pos hneg] at hmem
    have hcall : r₁.nextBuffer = .error .undefined := nextBuffer_of_neg (.inr hneg)
    exact .inr ⟨hmem, by rw [hcall]; nofun⟩
  left
  rw [if_neg hneg] at hmarks
  have hdec : Decodes r₁ (d.after (r.buffer.take (n + 1))) := by
    rw [hafter]
    exact
      { noError := herr
        remaining := (Int.toNat_of_nonneg (not_lt.mp hneg)).symm
        stored := rfl
        incomplete := rfl
        inPayload := fun _ => rfl
        read := fun _ => rfl
        mask := fun _ => by cases hm : h.mask <;> simp [hr₁, hm]
        key := fun _ key hkey => by
          cases hm : h.mask with
          | false => simp [hm] at hkey
          | true => simpa [hm, hr₁] using hkey }
  by_cases hzero : announced = 0
  · have hcall : r₁.nextBuffer = .ok (r₁, []) := by
      have hread : min (toInt32 r₁.buffer.length) r₁.payloadRemaining = 0 := by
        have hbuf : r₁.buffer.length < 2 ^ 31 := by
          simp only [hr₁, List.length_drop]
          omega
        rw [toInt32_of_lt hbuf]
        simp only [hr₁, hzero]
        omega
      unfold WebsocketRead.nextBuffer
      simp [hread, mask]
    rw [if_pos hzero] at hmarks
    rw [hcall]
    exact returns_stop hsplit hmarks (.inl rfl) (fun _ => hdec) fun h => by cases h
  · rw [if_neg hzero] at hmarks
    obtain ⟨used, r', out, hcall, hcons, hend, hstops, hheader⟩ := nextBuffer_returns hdec
      (by rw [hafter]) (by rw [hafter]; simp only; omega)
      (by simp only [hr₁, List.length_drop]; omega)
    have hall : ∀ m ∈ d.marks (r.buffer.take (n + 1) ++ used), ¬ m.Stops ∧ m ≠ .close := by
      intro m hm
      rw [Decoder.marks_append, hmarks, ← List.replicate_succ', List.mem_append] at hm
      rcases hm with hm | hm
      · exact not_stops_header hm
      · exact hstops m hm
    refine ⟨r.buffer.take (n + 1) ++ used, r', out, hcall, ⟨?_, ?_, ?_, ?_, ?_, ?_⟩, ?_, ?_⟩
    · rw [List.append_assoc, hcons.split]
      exact hsplit
    · rw [Decoder.marks_append, plain_append, hmarks, ← List.replicate_succ', plain_headers,
        List.nil_append]
      exact hcons.plain
    · rw [Decoder.marks_append, hmarks, ← List.replicate_succ', List.mem_append, not_or]
      exact ⟨invalid_not_mem_headers _, hcons.valid⟩
    · exact fun m hm => (hall m (List.mem_of_mem_dropLast hm)).1
    · intro _
      rw [Decoder.after_append]
      exact hcons.state fun hmem => (hstops _ hmem).2 rfl
    · exact fun hmem => absurd rfl (hall _ hmem).2
    · exact fun hnil hne => absurd (hend hnil) hne
    · rw [Decoder.after_append]
      exact fun _ => ⟨fun m hm => (hall m hm).1, hheader⟩

/-- The only way to be stopped by a `CHECK`: the bytes lie inside a header of
which earlier bytes are stored. -/
def Aborts (d : Decoder) (bytes : List UInt8)
    (result : Except Fault (WebsocketRead × List UInt8)) : Prop :=
  result = .error .checkFailed ∧ d.header ≠ [] ∧ ∀ m ∈ d.marks bytes, m = .header

theorem returns_await {r' : WebsocketRead} {d : Decoder} {bytes : List UInt8}
    (hrem : d.remaining = 0) (hbuf : r'.buffer = [])
    (hparse : wsParseHeader (d.header ++ bytes) = .ok .notEnoughData) (herr : r'.error = false)
    (hremaining : r'.payloadRemaining = 0) (hstored : r'.wsHeader = d.header ++ bytes) :
    Returns d bytes (.ok (r', [])) := by
  obtain ⟨hafter, hmarks⟩ := Decoder.run_header hrem hparse
  refine ⟨bytes, r', [], rfl, ⟨?_, ?_, ?_, ?_, ?_, ?_⟩, fun _ hne => absurd hbuf hne,
    fun hne => absurd rfl hne⟩
  · rw [hbuf, List.append_nil]
  · rw [hmarks, plain_headers]
  · rw [hmarks]
    exact invalid_not_mem_headers _
  · intro m hm
    rw [hmarks] at hm
    exact (not_stops_header (List.mem_of_mem_dropLast hm)).1
  · intro _
    rw [hafter]
    have hzero : ¬ 0 < d.remaining := by omega
    exact
      { noError := herr
        remaining := by rw [hremaining, hrem]; rfl
        stored := hstored
        incomplete := hparse
        inPayload := fun h => absurd h hzero
        read := fun h => absurd h hzero
        mask := fun h => absurd h hzero
        key := fun h => absurd h hzero }
  · intro hmem
    rw [hmarks] at hmem
    exact absurd rfl (not_stops_header hmem).2

/-- Joining the stored header bytes with the chunk shows the parser all it reads. -/
theorem joinHeader_parse {r : WebsocketRead} {d : Decoder} (h : Decodes r d)
    (hne : d.header ≠ []) :
    r.joinHeader = .ok { r with wsHeader := (d.header ++ r.buffer).take kHeaderCapacity } ∧
      wsParseHeader ((d.header ++ r.buffer).take kHeaderCapacity) =
        wsParseHeader (d.header ++ r.buffer) ∧ d.header.length < kHeaderCapacity := by
  have hlt : d.header.length < kHeaderCapacity := by
    have hcap := headerSizeOf_le (d.header.getD 1 0)
    rcases wsParseHeader_notEnough_iff.mp h.incomplete with h | h
    · exact lt_trans h (by decide)
    · exact lt_of_lt_of_le h hcap
  have hpos : 0 < d.header.length := List.length_pos_iff.mpr hne
  refine ⟨?_, wsParseHeader_take (headerSizeOf_le _), hlt⟩
  have hbytes : d.header ++ r.buffer.take (min (kHeaderCapacity - d.header.length)
      r.buffer.length) = (d.header ++ r.buffer).take kHeaderCapacity := by
    rw [List.take_append, List.take_of_length_le hlt.le, ← List.take_eq_take_min]
  unfold WebsocketRead.joinHeader WebsocketRead.copyPartialHeader
  simp only [h.stored, hbytes]
  rw [if_pos hpos, if_neg (by omega), if_neg]
  simp only [List.length_take]
  omega

/-- **One call of `Buffer`.** -/
theorem getBuffer_returns {r : WebsocketRead} {d : Decoder} (h : Decodes r d)
    (hne : r.buffer ≠ []) (hsize : r.buffer.length < 2 ^ 31) :
    Aborts d r.buffer r.getBuffer ∨ Returns d r.buffer r.getBuffer ∨
      Breaks d r.buffer r.getBuffer := by
  have hpos : 0 < r.buffer.length := List.length_pos_iff.mpr hne
  by_cases hrem : 0 < d.remaining
  · have hcall : r.getBuffer = r.nextBuffer := by
      unfold WebsocketRead.getBuffer
      rw [if_neg (by omega), if_pos (by rw [h.remaining]; omega)]
    obtain ⟨used, r', out, hnext, hcons, hend, hstops, hheader⟩ :=
      nextBuffer_returns h (h.inPayload hrem) hrem hsize
    rw [hcall]
    exact .inr (.inl ⟨used, r', out, hnext, hcons, fun hnil hne => absurd (hend hnil) hne,
      fun _ => ⟨fun m hm => (hstops m hm).1, hheader⟩⟩)
  have hzero : d.remaining = 0 := by omega
  have hremaining : r.payloadRemaining = 0 := by rw [h.remaining, hzero]; rfl
  obtain ⟨status, hparse⟩ := wsParseHeader_ok (d.header ++ r.buffer)
  have hinv : status = .invalid → Mark.invalid ∈ d.marks r.buffer := by
    rintro rfl
    obtain ⟨n, -, -, -, hmarks⟩ := Decoder.run_conclude hzero h.incomplete hparse (by simp)
    rw [← List.take_append_drop (n + 1) r.buffer, Decoder.marks_append, hmarks]
    simp [Decoder.conclude]
  by_cases hheader : d.header = []
  · have hstored : r.wsHeader = [] := h.stored.trans hheader
    have hlen : r.wsHeader.length = d.header.length := by rw [h.stored]
    have hcall := @getBuffer_of_parse r r status hne hremaining
      (by simp [WebsocketRead.joinHeader, hstored])
      (by rw [hstored, if_neg (by simp), ← hparse, hheader, List.nil_append])
    rw [hcall, hlen]
    right
    cases status with
    | invalid => exact .inr ⟨hinv rfl, by rintro r' out ⟨⟩; rfl⟩
    | ok header =>
        exact acceptHeader_returns h.noError hzero h.incomplete hparse hsize
    | notEnoughData =>
        left
        have hcap : r.buffer.length < kHeaderCapacity := by
          have hle := headerSizeOf_le ((d.header ++ r.buffer).getD 1 0)
          have hlen := wsParseHeader_notEnough_iff.mp hparse
          rw [List.length_append] at hlen
          simp only [kHeaderCapacity]
          omega
        simp only [WebsocketRead.handleStatus]
        rw [hheader, List.length_nil, awaitHeader_fresh hstored hcap]
        exact returns_await hzero rfl hparse h.noError hremaining (by rw [hheader]; rfl)
  · obtain ⟨hjoin, htake, hcap⟩ := joinHeader_parse h hheader
    have hpos' : 0 < r.wsHeader.length := by
      rw [h.stored]
      exact List.length_pos_iff.mpr hheader
    have hcall := getBuffer_of_parse status hne hremaining hjoin
      (by rw [if_pos hpos', htake, hparse])
    rw [hcall, h.stored]
    cases status with
    | invalid => exact .inr (.inr ⟨hinv rfl, by rintro r' out ⟨⟩; rfl⟩)
    | ok header =>
        right
        exact acceptHeader_returns (r := { r with
            wsHeader := (d.header ++ r.buffer).take kHeaderCapacity })
          h.noError hzero h.incomplete hparse hsize
    | notEnoughData =>
        have hlong : d.header.length + r.buffer.length < kHeaderCapacity := by
          have hle := headerSizeOf_le ((d.header ++ r.buffer).getD 1 0)
          have hlen := wsParseHeader_notEnough_iff.mp hparse
          rw [List.length_append] at hlen
          simp only [kHeaderCapacity]
          omega
        have hall : (d.header ++ r.buffer).take kHeaderCapacity = d.header ++ r.buffer :=
          List.take_of_length_le (by rw [List.length_append]; omega)
        simp only [WebsocketRead.handleStatus, WebsocketRead.awaitHeader,
          WebsocketRead.keepHeader, hall, List.length_append]
        -- the stored bytes already include the chunk when its size is tested again
        by_cases hcheck : r.buffer.length + (d.header.length + r.buffer.length) < kHeaderCapacity
        · right
          left
          rw [if_neg (by omega), if_neg (by omega), ok_bind, if_neg]
          · exact returns_await hzero rfl hparse h.noError hremaining rfl
          · simp only [List.length_append, toInt32_of_lt hsize]
            push_cast
            omega
        · left
          rw [if_pos hcheck]
          refine ⟨rfl, hheader, fun m hm => ?_⟩
          rw [(Decoder.run_header hzero hparse).2] at hm
          exact List.eq_of_mem_replicate hm

/-! ## §4  One chunk -/

/-- What `Next` and the calls of `Buffer` up to the first empty span do. -/
def Drains (d : Decoder) (bytes : List UInt8)
    (result : Except Fault (WebsocketRead × List UInt8)) : Prop :=
  ∃ used r' out, result = .ok (r', out) ∧ Consumed d bytes used r' out ∧
    (r'.buffer ≠ [] → ∃ m ∈ (d.marks used).getLast?, m.Stops)

theorem Consumed.trans {d : Decoder} {bytes used used' : List UInt8} {r₁ r₂ : WebsocketRead}
    {out out' : List UInt8} (h : Consumed d bytes used r₁ out)
    (hstops : ∀ m ∈ d.marks used, ¬ m.Stops)
    (h' : Consumed (d.after used) r₁.buffer used' r₂ out') :
    Consumed d bytes (used ++ used') r₂ (out ++ out') := by
  have hopen : Mark.close ∉ d.marks used := fun hmem => hstops _ hmem (.inr rfl)
  refine ⟨?_, ?_, ?_, ?_, ?_, ?_⟩
  · rw [List.append_assoc, h'.split, h.split]
  · rw [Decoder.marks_append, plain_append, h.plain, h'.plain]
  · rw [Decoder.marks_append, List.mem_append, not_or]
    exact ⟨h.valid, h'.valid⟩
  · intro m hm
    rw [Decoder.marks_append, List.dropLast_append] at hm
    split_ifs at hm with hnil
    · exact hstops m (List.mem_of_mem_dropLast hm)
    · rcases List.mem_append.mp hm with hm | hm
      · exact hstops m hm
      · exact h'.before m hm
  · intro hclose
    rw [Decoder.marks_append, List.mem_append, not_or] at hclose
    rw [Decoder.after_append]
    exact h'.state hclose.2
  · intro hclose
    rw [Decoder.marks_append, List.mem_append] at hclose
    exact h'.closed (hclose.resolve_left hopen)

theorem drain_drains (fuel : Nat) {r : WebsocketRead} {d : Decoder} (h : Decodes r d)
    (hsize : r.buffer.length < 2 ^ 31) (hfuel : r.buffer.length < fuel) :
    Aborts d r.buffer (WebsocketRead.drain fuel r) ∨
      Drains d r.buffer (WebsocketRead.drain fuel r) ∨
      Breaks d r.buffer (WebsocketRead.drain fuel r) := by
  induction fuel generalizing r d with
  | zero => omega
  | succ fuel ih =>
      by_cases hne : r.buffer = []
      · right
        left
        refine ⟨[], r, [], ?_, ⟨rfl, rfl, ?_, ?_, fun _ => h, ?_⟩, fun hbuf => absurd hne hbuf⟩
        · simp [WebsocketRead.drain, getBuffer_nil hne]
        · simp
        · intro m hm
          simp at hm
        · intro hm
          simp at hm
      rcases getBuffer_returns h hne hsize with ⟨habort, hheader, hall⟩ |
        ⟨used, r₁, out, hcall, hcons, hempty, hmore⟩ | ⟨hinv, hbreak⟩
      · left
        refine ⟨?_, hheader, hall⟩
        simp [WebsocketRead.drain, habort]
      rotate_left
      · right
        right
        refine ⟨hinv, fun r' out hrun => ?_⟩
        obtain ⟨⟨r₁, out₁⟩, hcall, hrun⟩ := bind_eq_ok.mp hrun
        have herr := hbreak r₁ out₁ hcall
        simp only at hrun
        split_ifs at hrun
        · cases hrun
          exact herr
        · obtain ⟨⟨r₂, out₂⟩, hdrain, hrun⟩ := bind_eq_ok.mp hrun
          cases hrun
          exact WebsocketRead.drain_error hdrain herr
      right
      by_cases hout : out = []
      · subst hout
        left
        refine ⟨used, r₁, [], ?_, hcons, hempty rfl⟩
        simp [WebsocketRead.drain, hcall]
      obtain ⟨hstops, hheader⟩ := hmore hout
      have hused : used ≠ [] := by
        rintro rfl
        exact hout hcons.plain
      have hsplit := congrArg List.length hcons.split
      rw [List.length_append] at hsplit
      have hused' : 0 < used.length := List.length_pos_iff.mpr hused
      have hdec := hcons.state fun hmem => hstops _ hmem (.inr rfl)
      rcases ih hdec (by omega) (by omega) with ⟨-, hne', -⟩ |
        ⟨used', r₂, out', hdrain, hcons', hend⟩ | ⟨hinv, hbreak⟩
      · exact absurd hheader hne'
      · left
        refine ⟨used ++ used', r₂, out ++ out', ?_, hcons.trans hstops hcons', fun hbuf => ?_⟩
        · simp [WebsocketRead.drain, hcall, hout, hdrain]
        · obtain ⟨m, hm, hmstops⟩ := hend hbuf
          refine ⟨m, ?_, hmstops⟩
          rw [Decoder.marks_append, List.getLast?_append, Option.mem_def.mp hm]
          rfl
      · right
        refine ⟨?_, fun r' out' hrun => ?_⟩
        · rw [← hcons.split, Decoder.marks_append]
          exact List.mem_append_right _ hinv
        have hspan : ¬ out.length = 0 := by rwa [List.length_eq_zero_iff]
        simp only [WebsocketRead.drain, hcall, ok_bind, if_neg hspan] at hrun
        obtain ⟨⟨r₂, out₂⟩, hdrain, hrun⟩ := bind_eq_ok.mp hrun
        cases hrun
        exact hbreak r₂ out₂ hdrain

/-- What a reader that has consumed what it was given does with any chunk. -/
theorem feed_cases {r : WebsocketRead} {d : Decoder} (h : Decodes r d) (hbuf : r.buffer = [])
    {chunk : List UInt8} (hsize : chunk.length < 2 ^ 31) :
    Aborts d chunk (r.feed chunk) ∨ Drains d chunk (r.feed chunk) ∨
      Breaks d chunk (r.feed chunk) := by
  rw [feed_eq hbuf]
  exact drain_drains (r := { r with buffer := chunk }) _ (h.setBuffer chunk) hsize (by simp)

/-- **One chunk.** A reader that has consumed what it was given does with a
chunk what the decoder does with its bytes, up to the first byte that stops. -/
theorem feed_decodes {r : WebsocketRead} {d : Decoder} (h : Decodes r d) (hbuf : r.buffer = [])
    {chunk : List UInt8} (hvalid : Mark.invalid ∉ d.marks chunk)
    (hsize : chunk.length < 2 ^ 31) :
    Aborts d chunk (r.feed chunk) ∨ Drains d chunk (r.feed chunk) := by
  rcases feed_cases h hbuf hsize with habort | hdrain | ⟨hinv, -⟩
  · exact .inl habort
  · exact .inr hdrain
  · exact absurd hinv hvalid

/-! ## §5  All chunks -/

theorem feedAll_cons_of_left {r : WebsocketRead} (hbuf : r.buffer ≠ []) (chunk : List UInt8)
    (chunks : List (List UInt8)) : r.feedAll (chunk :: chunks) = .error .checkFailed := by
  simp [WebsocketRead.feedAll, WebsocketRead.feed, WebsocketRead.next, hbuf]

/-- A reader that has come back without an error has read what the decoder has, up to where it
stands. -/
theorem feedAll_ok {chunks : List (List UInt8)} {r r' : WebsocketRead} {d : Decoder}
    {out : List UInt8} (h : Decodes r d) (hbuf : r.buffer = [])
    (hsize : ∀ c ∈ chunks, c.length < 2 ^ 31) (hrun : r.feedAll chunks = .ok (r', out))
    (herr : r'.error = false) :
    ∃ used, used ++ r'.buffer = chunks.flatten ∧ out = plain (d.marks used) ∧
      Mark.invalid ∉ d.marks used ∧ Decodes r' (d.after used) ∧
      (r'.buffer ≠ [] → ∃ m ∈ (d.marks used).getLast?, m.Stops) := by
  induction chunks generalizing r d out with
  | nil =>
      cases hrun
      exact ⟨[], hbuf, rfl, by simp, h, fun hne => absurd hbuf hne⟩
  | cons chunk chunks ih =>
      obtain ⟨⟨r₁, out₁⟩, hfeed, hrun⟩ := bind_eq_ok.mp hrun
      obtain ⟨⟨r₂, out₂⟩, hrest, hrun⟩ := bind_eq_ok.mp hrun
      cases hrun
      have herr₁ : r₁.error = false := by
        by_contra hset
        rw [WebsocketRead.feedAll_error hrest (by simpa using hset)] at herr
        cases herr
      rcases feed_cases h hbuf (hsize chunk (by simp)) with ⟨habort, -⟩ |
        ⟨used, r₀, out₀, hfeed', hcons, hend⟩ | ⟨-, hbreak⟩
      · cases habort.symm.trans hfeed
      · cases hfeed'.symm.trans hfeed
        have hdec : Decodes r₁ (d.after used) := by
          apply hcons.state
          intro hclose
          rw [hcons.closed hclose] at herr₁
          cases herr₁
        cases chunks with
        | nil =>
            cases hrest
            refine ⟨used, ?_, ?_, hcons.valid, hdec, hend⟩
            · rw [hcons.split, List.flatten_singleton]
            · rw [hcons.plain, List.append_nil]
        | cons c cs =>
            -- the next call of `Next` has passed
            have hbuf₁ : r₁.buffer = [] := by
              by_contra hne
              rw [feedAll_cons_of_left hne] at hrest
              cases hrest
            have hused : used = chunk := by
              rw [← hcons.split, hbuf₁, List.append_nil]
            subst hused
            obtain ⟨used', hsplit, hplain, hvalid, hdec', hend'⟩ :=
              ih hdec hbuf₁ (fun c hc => hsize c (List.mem_cons_of_mem _ hc)) hrest
            refine ⟨used ++ used', ?_, ?_, ?_, ?_, fun hne => ?_⟩
            · rw [List.append_assoc, hsplit]
              rfl
            · rw [Decoder.marks_append, plain_append, hcons.plain, hplain]
            · rw [Decoder.marks_append, List.mem_append, not_or]
              exact ⟨hcons.valid, hvalid⟩
            · rw [Decoder.after_append]
              exact hdec'
            · obtain ⟨m, hm, hstops⟩ := hend' hne
              refine ⟨m, ?_, hstops⟩
              rw [Decoder.marks_append, List.getLast?_append, Option.mem_def.mp hm]
              rfl
      · rw [hbreak r₁ out₁ hfeed] at herr₁
        cases herr₁

/-- A reader that has consumed every chunk without an error stands where the
decoder stands. -/
theorem feedAll_state {chunks : List (List UInt8)} {r r' : WebsocketRead} {d : Decoder}
    {out : List UInt8} (h : Decodes r d) (hbuf : r.buffer = [])
    (hsize : ∀ c ∈ chunks, c.length < 2 ^ 31) (hrun : r.feedAll chunks = .ok (r', out))
    (hdone : r'.buffer = []) (herr : r'.error = false) : Decodes r' (d.after chunks.flatten) := by
  obtain ⟨used, hsplit, -, -, hdec, -⟩ := feedAll_ok h hbuf hsize hrun herr
  rw [hdone, List.append_nil] at hsplit
  rwa [← hsplit]

/-- The reader stops at no byte before the last: it reads all buffers, or a `CHECK` fails. -/
theorem feedAll_unstopped {chunks : List (List UInt8)} {r : WebsocketRead} {d : Decoder}
    (h : Decodes r d) (hbuf : r.buffer = []) (hvalid : Mark.invalid ∉ d.marks chunks.flatten)
    (hclose : Mark.close ∉ d.marks chunks.flatten)
    (hstops : ∀ m ∈ (d.marks chunks.flatten).dropLast, ¬ m.Stops)
    (hsize : ∀ c ∈ chunks, c.length < 2 ^ 31) :
    r.feedAll chunks = .error .checkFailed ∨
      ∃ r', r.feedAll chunks = .ok (r', plain (d.marks chunks.flatten)) ∧ r'.buffer = [] ∧
        Decodes r' (d.after chunks.flatten) := by
  induction chunks generalizing r d with
  | nil => exact .inr ⟨r, rfl, hbuf, h⟩
  | cons chunk chunks ih =>
      rw [List.flatten_cons, Decoder.marks_append] at hvalid hclose hstops
      simp only [List.mem_append, not_or] at hvalid hclose
      rcases feed_decodes h hbuf hvalid.1 (hsize chunk (by simp)) with
        ⟨habort, -⟩ | ⟨used, r₁, out, hfeed, hcons, hend⟩
      · left
        simp [WebsocketRead.feedAll, habort]
      have hbuf₁ : r₁.buffer = [] := by
        by_contra hne
        obtain ⟨m, hm, hmstops⟩ := hend hne
        apply hstops m _ hmstops
        rw [← hcons.split, Decoder.marks_append, List.append_assoc,
          List.dropLast_append_of_ne_nil]
        · exact List.mem_append_left _ (List.mem_of_getLast? hm)
        · intro hnil
          rw [List.append_eq_nil_iff] at hnil
          have hlen := congrArg List.length hnil.1
          rw [Decoder.length_marks, List.length_nil, List.length_eq_zero_iff] at hlen
          exact hne hlen
      have hused : used = chunk := by
        rw [← hcons.split, hbuf₁, List.append_nil]
      subst hused
      have hlater : ∀ m ∈ ((d.after used).marks chunks.flatten).dropLast, ¬ m.Stops := by
        intro m hm
        apply hstops m
        rw [List.dropLast_append_of_ne_nil]
        · exact List.mem_append_right _ hm
        · rintro hnil
          rw [hnil] at hm
          cases hm
      rcases ih (hcons.state hclose.1) hbuf₁ hvalid.2 hclose.2 hlater
        (fun c hc => hsize c (by simp [hc])) with hfail | ⟨r₂, hrest, hbuf₂, hdec₂⟩
      · left
        simp [WebsocketRead.feedAll, hfeed, hfail]
      · right
        refine ⟨r₂, ?_, hbuf₂, ?_⟩
        · simp [WebsocketRead.feedAll, hfeed, hrest, hcons.plain, Decoder.marks_append]
        · rwa [List.flatten_cons, Decoder.after_append]

theorem feedAll_append_eq {r r₁ : WebsocketRead} {out₁ : List UInt8} {xs ys : List (List UInt8)}
    (h : r.feedAll xs = .ok (r₁, out₁)) :
    r.feedAll (xs ++ ys) = (r₁.feedAll ys).map fun result => (result.1, out₁ ++ result.2) := by
  induction xs generalizing r out₁ with
  | nil =>
      cases h
      rcases hys : r₁.feedAll ys with e | ⟨r₂, out₂⟩ <;> simp [hys, Except.map]
  | cons chunk xs ih =>
      obtain ⟨⟨r₀, out₀⟩, hfeed, h⟩ := bind_eq_ok.mp h
      obtain ⟨⟨r₃, out₃⟩, hrest, h⟩ := bind_eq_ok.mp h
      cases h
      simp only [List.cons_append, WebsocketRead.feedAll, hfeed, ok_bind, ih hrest]
      rcases r₁.feedAll ys with e | ⟨r₂, out₂⟩ <;> simp [Except.map]

theorem feedAll_append {r r₁ r₂ : WebsocketRead} {out₁ out₂ : List UInt8}
    {xs ys : List (List UInt8)} (h₁ : r.feedAll xs = .ok (r₁, out₁))
    (h₂ : r₁.feedAll ys = .ok (r₂, out₂)) : r.feedAll (xs ++ ys) = .ok (r₂, out₁ ++ out₂) := by
  rw [feedAll_append_eq h₁, h₂]
  rfl

theorem feedAll_append_error {r : WebsocketRead} {e : Fault} {xs ys : List (List UInt8)}
    (h : r.feedAll xs = .error e) : r.feedAll (xs ++ ys) = .error e := by
  induction xs generalizing r with
  | nil => cases h
  | cons chunk xs ih =>
      rcases hfeed : r.feed chunk with e' | ⟨r₁, out₁⟩
      · simp only [WebsocketRead.feedAll, hfeed, error_bind] at h
        simp only [List.cons_append, WebsocketRead.feedAll, hfeed, error_bind, h]
      · simp only [WebsocketRead.feedAll, hfeed, ok_bind] at h
        rcases hrest : r₁.feedAll xs with e' | ⟨r₂, out₂⟩
        · rw [hrest] at h
          cases h
          simp only [List.cons_append, WebsocketRead.feedAll, hfeed, ok_bind, ih hrest, error_bind]
        · rw [hrest] at h
          cases h

/-- Chunks that are followed by another one are consumed whole, or a `CHECK` fails. -/
theorem feedAll_passed {chunks : List (List UInt8)} {r : WebsocketRead} {d : Decoder}
    {last : List UInt8} (h : Decodes r d) (hbuf : r.buffer = [])
    (hvalid : Mark.invalid ∉ d.marks chunks.flatten)
    (hclose : Mark.close ∉ d.marks chunks.flatten) (hsize : ∀ c ∈ chunks, c.length < 2 ^ 31)
    (hcheck : r.feedAll (chunks ++ [last]) ≠ .error .checkFailed) :
    ∃ r₁, r.feedAll chunks = .ok (r₁, plain (d.marks chunks.flatten)) ∧ r₁.buffer = [] ∧
      Decodes r₁ (d.after chunks.flatten) := by
  induction chunks generalizing r d with
  | nil => exact ⟨r, rfl, hbuf, h⟩
  | cons chunk chunks ih =>
      rw [List.flatten_cons, Decoder.marks_append, List.mem_append, not_or] at hvalid hclose
      rcases feed_decodes h hbuf hvalid.1 (hsize chunk (by simp)) with
        ⟨habort, -⟩ | ⟨used, r₁, out, hfeed, hcons, -⟩
      · simp [WebsocketRead.feedAll, habort] at hcheck
      have hrest : r₁.feedAll (chunks ++ [last]) ≠ .error .checkFailed := by
        intro hfail
        simp [WebsocketRead.feedAll, hfeed, hfail] at hcheck
      have hbuf₁ : r₁.buffer = [] := by
        by_contra hne
        obtain ⟨c, cs, hcons⟩ := List.exists_cons_of_ne_nil
          (List.append_ne_nil_of_right_ne_nil chunks (List.cons_ne_nil last []))
        rw [hcons, feedAll_cons_of_left hne] at hrest
        exact hrest rfl
      have hused : used = chunk := by
        rw [← hcons.split, hbuf₁, List.append_nil]
      subst hused
      obtain ⟨r₂, hrun, hbuf₂, hdec₂⟩ := ih (hcons.state hclose.1) hbuf₁ hvalid.2 hclose.2
        (fun c hc => hsize c (List.mem_cons_of_mem _ hc)) hrest
      refine ⟨r₂, ?_, hbuf₂, ?_⟩
      · rw [List.flatten_cons, Decoder.marks_append, plain_append, ← hcons.plain]
        simp [WebsocketRead.feedAll, hfeed, hrun]
      · rwa [List.flatten_cons, Decoder.after_append]

/-- **The last chunk.** Without close frames a run is stopped by a `CHECK`, or it consumes
everything up to the last chunk, and that one up to the first byte that stops. -/
theorem feedAll_last {chunks : List (List UInt8)} {r : WebsocketRead} {d : Decoder}
    {last : List UInt8} (h : Decodes r d) (hbuf : r.buffer = [])
    (hvalid : Mark.invalid ∉ d.marks (chunks.flatten ++ last))
    (hclose : Mark.close ∉ d.marks (chunks.flatten ++ last))
    (hsize : ∀ c ∈ chunks, c.length < 2 ^ 31) (hlast : last.length < 2 ^ 31)
    (hcheck : r.feedAll (chunks ++ [last]) ≠ .error .checkFailed) :
    ∃ used rest r', used ++ rest = last ∧
      r.feedAll (chunks ++ [last]) = .ok (r', plain (d.marks (chunks.flatten ++ used))) ∧
      (∀ m ∈ ((d.after chunks.flatten).marks used).dropLast, ¬ m.Stops) ∧
      (rest ≠ [] → ∃ m ∈ ((d.after chunks.flatten).marks used).getLast?, m.Stops) := by
  rw [Decoder.marks_append, List.mem_append, not_or] at hvalid hclose
  obtain ⟨r₁, hrun, hbuf₁, hdec₁⟩ := feedAll_passed h hbuf hvalid.1 hclose.1 hsize hcheck
  rcases feed_decodes hdec₁ hbuf₁ hvalid.2 hlast with
    ⟨habort, -⟩ | ⟨used, r₂, out, hfeed, hcons, hend⟩
  · exfalso
    apply hcheck
    have hone : r₁.feedAll [last] = .error .checkFailed := by
      simp [WebsocketRead.feedAll, habort]
    rw [feedAll_append_eq hrun, hone]
    rfl
  · refine ⟨used, r₂.buffer, r₂, hcons.split, ?_, hcons.before, hend⟩
    have hone : r₁.feedAll [last] = .ok (r₂, out) := by
      simp [WebsocketRead.feedAll, hfeed]
    rw [feedAll_append hrun hone, Decoder.marks_append, plain_append, hcons.plain]

end BeyondProtocol.Quic
