import BeyondProtocol.Quic.OnData
import BeyondProtocol.Quic.WebSocketFrames
import BeyondProtocol.Quic.WebSocketLengths

/-!
# Streams of binary frames in `OnData`

A binary frame may announce any length of 64 bits, which the reader counts down in an `int`. It
returns exactly the payload among the bytes of a call as long as the stream has not come to a
frame whose length is no `int`, or not further into it than the `int` says. With the next byte
payload is lost.
-/

namespace BeyondProtocol.Quic

open Framework

/-! ## §1  Streams of frames -/

/-- A binary frame with a payload of any length. -/
structure WireFrame where
  payload : List UInt8
  key : Option WsMaskKey
  nonempty : payload ≠ []
  bound : payload.length < 2 ^ 64

namespace WireFrame

def useMask (f : WireFrame) : Bool := f.key.isSome

def maskKey (f : WireFrame) : WsMaskKey := f.key.getD .zero

/-- What `WsWriteHeader` writes. -/
def header (f : WireFrame) : List UInt8 :=
  headerBytes OpCodeType.BINARY_FRAME f.useMask f.maskKey f.payload.length

/-- The payload as it travels. -/
def body (f : WireFrame) : List UInt8 :=
  match f.key with
  | some key => mask key 0 f.payload
  | none => f.payload

def encode (f : WireFrame) : List UInt8 := f.header ++ f.body

/-- What the bytes of the frame carry: payload, or nothing. -/
def carried (f : WireFrame) : List (Option UInt8) :=
  List.replicate f.header.length none ++ f.payload.map some

/-- The reader can hold the length. -/
def Short (f : WireFrame) : Prop := f.payload.length < 2 ^ 31

/-- The payload bytes that the reader counts down. -/
def counted (f : WireFrame) : ℕ := (toInt32 f.payload.length).toNat

/-- The bytes of the frame that the reader takes for what they are. With a negative length it
does not come to the last byte of the header. -/
def room (f : WireFrame) : ℕ :=
  if toInt32 f.payload.length < 0 then f.header.length - 1 else f.header.length + f.counted

instance (f : WireFrame) : Decidable f.Short := inferInstanceAs (Decidable (_ < _))

theorem binary_valid : OpCodeType.BINARY_FRAME.Valid := by
  simp [OpCodeType.Valid, OpCodeType.BINARY_FRAME]

/-- A short frame is one of those the decoder knows. -/
def toFrame (f : WireFrame) (h : f.Short) : Frame where
  fin := true
  opCode := OpCodeType.BINARY_FRAME
  payload := f.payload
  key := f.key
  valid := binary_valid
  short := h

end WireFrame

/-- The byte stream of the frames. -/
def wireBytes (fs : List WireFrame) : List UInt8 := fs.flatMap WireFrame.encode

/-- What its bytes carry. -/
def wireCarried (fs : List WireFrame) : List (Option UInt8) := fs.flatMap WireFrame.carried

/-- The payload bytes among the `n` bytes of the stream from position `a` on. -/
def payloadWithin (fs : List WireFrame) (a n : ℕ) : List UInt8 :=
  (((wireCarried fs).drop a).take n).filterMap id

/-- The stream up to where the reader loses count. -/
def held : List WireFrame → List UInt8
  | [] => []
  | f :: fs => if f.Short then f.encode ++ held fs else f.encode.take f.room

/-- The buffers go on with a stream of frames of which the reader has read `before`, and no
`CHECK` of the reader fails on them. -/
structure Continues (fs : List WireFrame) (before : List (List UInt8)) (r : WebsocketRead)
    (buffers : List (List UInt8)) : Prop where
  sizes : ∀ chunk ∈ before, chunk.length < 2 ^ 31
  reads : ∃ out, WebsocketRead.feedAll {} before = .ok (r, out)
  stream : (before ++ buffers).flatten <+: wireBytes fs
  passes : r.feedAll buffers ≠ .error .checkFailed

/-! ## §2  The decoder on a frame -/

namespace WireFrame

theorem length_body (f : WireFrame) : f.body.length = f.payload.length := by
  unfold body
  cases f.key <;> simp

theorem length_carried (f : WireFrame) : f.carried.length = f.encode.length := by
  simp [carried, encode, f.length_body]

theorem header_pos (f : WireFrame) : 0 < f.header.length := by
  obtain ⟨tail, htail⟩ :=
    headerBytes_second OpCodeType.BINARY_FRAME f.useMask f.maskKey f.payload.length
  rw [header, htail]
  simp

/-- What the parser makes of the header. -/
def parsed (f : WireFrame) : WebSocketHeader where
  fin := true
  rsv := 0
  mask := f.useMask
  opCode := OpCodeType.BINARY_FRAME
  payloadLength := f.payload.length
  maskingKey := if f.useMask then f.maskKey else .zero
  headerSize := f.header.length

theorem wsParseHeader_header (f : WireFrame) : wsParseHeader f.header = .ok (.ok f.parsed) := by
  have hparse := @wsParseHeader_headerBytes OpCodeType.BINARY_FRAME binary_valid f.useMask f.maskKey
    _ f.bound []
  rwa [List.append_nil] at hparse

theorem counted_le (f : WireFrame) : f.counted ≤ f.payload.length := by
  unfold counted
  by_cases hmod : f.payload.length % 2 ^ 32 < 2 ^ 31
  · rw [toInt32_of_mod_lt hmod, Int.toNat_natCast]
    exact Nat.mod_le _ _
  · rw [Int.toNat_of_nonpos (toInt32_neg hmod).le]
    exact Nat.zero_le _

/-- A length that is no `int` is longer by a multiple of 2^32. -/
theorem counted_far {f : WireFrame} (hnonneg : ¬ toInt32 f.payload.length < 0)
    (hwide : ¬ f.Short) : f.counted + 2 ^ 32 ≤ f.payload.length := by
  have hmod : f.payload.length % 2 ^ 32 < 2 ^ 31 := by
    by_contra hmod
    exact hnonneg (toInt32_neg hmod)
  unfold Short at hwide
  unfold counted
  rw [toInt32_of_mod_lt hmod, Int.toNat_natCast]
  omega

theorem nonneg_of_short {f : WireFrame} (h : f.Short) : ¬ toInt32 f.payload.length < 0 := by
  rw [toInt32_of_lt h]
  exact Int.not_lt.mpr (Int.natCast_nonneg _)

theorem short_room {f : WireFrame} (h : f.Short) : f.encode.take f.room = f.encode := by
  have hroom : f.room = f.encode.length := by
    rw [room, if_neg (nonneg_of_short h), counted, toInt32_of_lt h, Int.toNat_natCast, encode,
      List.length_append, f.length_body]
  rw [hroom, List.take_length]

variable {d : Decoder}

/-- The header, whatever it announces. -/
theorem run_header (hd : Between d) (f : WireFrame) :
    d.after f.header = (Decoder.enter f.parsed).1 ∧
      d.marks f.header =
        List.replicate (f.header.length - 1) .header ++ [(Decoder.enter f.parsed).2] := by
  have hparse : wsParseHeader (d.header ++ f.header) = .ok (.ok f.parsed) := by
    rw [hd.noHeader, List.nil_append, f.wsParseHeader_header]
  obtain ⟨n, hn, -, hafter, hmarks⟩ := Decoder.run_conclude hd.remaining
    (by rw [hd.noHeader]; rfl) hparse (by simp)
  have hsize : f.header.length = n + 1 := by
    have hparsed := (wsParseHeader_size hparse).1
    rw [hn, hd.noHeader, List.length_nil, Nat.zero_add] at hparsed
    exact hparsed
  rw [← hsize, List.take_length] at hafter hmarks
  refine ⟨hafter, ?_⟩
  rw [hmarks, hsize, Nat.add_sub_cancel]
  rfl

theorem enter_parsed (f : WireFrame) : Decoder.enter f.parsed =
    ({ remaining := f.counted, key := f.key },
      if toInt32 f.payload.length < 0 then .invalid
      else if toInt32 f.payload.length = 0 then .empty else .header) := by
  have hopen : f.parsed.opCode ≠ OpCodeType.CLOSE := by
    show OpCodeType.BINARY_FRAME ≠ OpCodeType.CLOSE
    decide
  have hkey : (if f.parsed.mask then some f.parsed.maskingKey else none) = f.key := by
    unfold parsed useMask maskKey
    cases f.key <;> rfl
  unfold Decoder.enter
  simp only [if_neg hopen, hkey]
  rfl

theorem unmask_body (f : WireFrame) (n : ℕ) :
    ({ remaining := n, key := f.key } : Decoder).unmask (f.body.take n) = f.payload.take n := by
  unfold Decoder.unmask body
  cases f.key with
  | none => rfl
  | some key =>
      show mask key 0 ((mask key 0 f.payload).take n) = f.payload.take n
      rw [mask_take, mask_mask]

/-- What the bytes are to the reader, as far as it counts. -/
theorem run_taken (hd : Between d) {f : WireFrame} (hnonneg : ¬ toInt32 f.payload.length < 0) :
    Between (d.after (f.encode.take f.room)) ∧
      d.marks (f.encode.take f.room) = List.replicate (f.header.length - 1) .header ++
        [if toInt32 f.payload.length = 0 then .empty else .header] ++
        (f.payload.take f.counted).map .payload := by
  obtain ⟨hafter, hmarks⟩ := run_header hd f
  rw [f.enter_parsed, if_neg hnonneg] at hmarks
  rw [f.enter_parsed] at hafter
  have htake : f.encode.take f.room = f.header ++ f.body.take f.counted := by
    rw [encode, room, if_neg hnonneg, List.take_length_add_append]
  have hlength : (f.body.take f.counted).length = f.counted := by
    rw [List.length_take, f.length_body, min_eq_left f.counted_le]
  obtain ⟨hafter', hmarks'⟩ := @Decoder.run_payload { remaining := f.counted, key := f.key }
    (f.body.take f.counted) (by simp only [hlength, le_refl])
  rw [htake, Decoder.after_append, Decoder.marks_append, hafter, hmarks, hafter', hmarks', hlength]
  refine ⟨⟨by simp only [Nat.sub_self], rfl⟩, ?_⟩
  rw [f.unmask_body]

/-- The header without its last byte, and that byte, when the length is negative. -/
theorem run_negative (hd : Between d) {f : WireFrame} (hneg : toInt32 f.payload.length < 0) :
    d.marks (f.encode.take f.room) = List.replicate (f.header.length - 1) .header ∧
      ∀ b, f.encode.take f.room ++ [b] <+: f.encode →
        (d.after (f.encode.take f.room)).marks [b] = [.invalid] := by
  obtain ⟨-, hmarks⟩ := run_header hd f
  rw [f.enter_parsed, if_pos hneg] at hmarks
  have htake : f.encode.take f.room = f.header.dropLast := by
    rw [encode, room, if_pos hneg, List.take_append_of_le_length (Nat.sub_le _ _),
      ← List.dropLast_eq_take]
  have hsplit := List.dropLast_concat_getLast (List.ne_nil_of_length_pos f.header_pos)
  rw [← hsplit, Decoder.marks_append] at hmarks
  rw [hsplit] at hmarks
  obtain ⟨hfront, hlast⟩ := List.append_inj hmarks (by simp)
  rw [htake]
  refine ⟨hfront, fun b hb => ?_⟩
  have hheader : f.header <+: f.encode := List.prefix_append _ _
  have hsame : f.header.dropLast ++ [b] = f.header := by
    apply List.IsPrefix.eq_of_length (List.prefix_of_prefix_length_le hb hheader ?_)
    · have hpos := f.header_pos
      simp only [List.length_append, List.length_dropLast, List.length_singleton]
      omega
    · have hpos := f.header_pos
      simp only [List.length_append, List.length_dropLast, List.length_singleton]
      omega
  have hbyte : [b] = [f.header.getLast (List.ne_nil_of_length_pos f.header_pos)] :=
    List.append_cancel_left (hsame.trans hsplit.symm)
  rw [hbyte]
  exact hlast

/-- As far as the reader counts, the bytes are what they carry, and it stops at no byte that is
not the last. -/
structure Faithful (ms : List Mark) (carried : List (Option UInt8)) : Prop where
  payload : ms.map Mark.payload? = carried
  valid : Mark.invalid ∉ ms
  noClose : Mark.close ∉ ms
  before : ∀ m ∈ ms.dropLast, ¬ m.Stops

theorem faithful_headers (n : ℕ) :
    Faithful (List.replicate n .header) (List.replicate n none) where
  payload := List.map_replicate
  valid := invalid_not_mem_headers n
  noClose := fun h => (not_stops_header h).2 rfl
  before := fun _ h => (not_stops_header (List.mem_of_mem_dropLast h)).1

theorem Faithful.append {ms ms' : List Mark} {cs cs' : List (Option UInt8)} (h : Faithful ms cs)
    (h' : Faithful ms' cs') (hall : ∀ m ∈ ms, ¬ m.Stops) : Faithful (ms ++ ms') (cs ++ cs') where
  payload := by rw [List.map_append, h.payload, h'.payload]
  valid := by
    rw [List.mem_append, not_or]
    exact ⟨h.valid, h'.valid⟩
  noClose := by
    rw [List.mem_append, not_or]
    exact ⟨h.noClose, h'.noClose⟩
  before := by
    intro m hm
    rw [List.dropLast_append] at hm
    split_ifs at hm
    · exact hall m (List.mem_of_mem_dropLast hm)
    · rcases List.mem_append.mp hm with hm | hm
      · exact hall m hm
      · exact h'.before m hm

theorem faithful_payload (bytes : List UInt8) :
    Faithful (bytes.map .payload) (bytes.map some) where
  payload := by rw [List.map_map]; rfl
  valid := invalid_not_mem_payload bytes
  noClose := fun h => (not_stops_payload h).2 rfl
  before := fun _ h => (not_stops_payload (List.mem_of_mem_dropLast h)).1

theorem length_room (f : WireFrame) : (f.encode.take f.room).length = f.room := by
  have hcounted := f.counted_le
  rw [List.length_take, encode, List.length_append, f.length_body, room]
  split_ifs <;> omega

theorem room_le (f : WireFrame) : f.room ≤ f.encode.length := by
  rw [← f.length_room]
  exact List.length_take_le' _ _

theorem room_lt {f : WireFrame} (hneg : toInt32 f.payload.length < 0) :
    f.room < f.encode.length := by
  have hpos := f.header_pos
  rw [room, if_pos hneg, encode, List.length_append]
  omega

theorem faithful_taken (hd : Between d) (f : WireFrame) :
    Faithful (d.marks (f.encode.take f.room)) (f.carried.take f.room) ∧
      (f.Short → ∀ m ∈ d.marks (f.encode.take f.room), ¬ m.Stops) := by
  have hpos := f.header_pos
  by_cases hneg : toInt32 f.payload.length < 0
  · obtain ⟨hmarks, -⟩ := run_negative hd hneg
    have hcarried : f.carried.take f.room = List.replicate (f.header.length - 1) none := by
      rw [carried, room, if_pos hneg, List.take_append_of_le_length (by simp),
        List.take_replicate, min_eq_left (Nat.sub_le _ _)]
    rw [hmarks, hcarried]
    exact ⟨faithful_headers _, fun _ m hm => (not_stops_header hm).1⟩
  · obtain ⟨-, hmarks⟩ := run_taken hd hneg
    have hcarried : f.carried.take f.room =
        List.replicate f.header.length none ++ (f.payload.take f.counted).map some := by
      have htake := @List.take_length_add_append _ (List.replicate f.header.length none)
        (f.payload.map some) f.counted
      rw [List.length_replicate] at htake
      rw [carried, room, if_neg hneg, htake, List.map_take]
    rw [hmarks, hcarried]
    by_cases hzero : toInt32 f.payload.length = 0
    · -- nothing is counted, and the header ends with a byte that stops
      have hnone : f.counted = 0 := by rw [counted, hzero]; rfl
      rw [if_pos hzero, hnone, List.take_zero, List.map_nil, List.map_nil, List.append_nil,
        List.append_nil]
      refine ⟨⟨?_, ?_, ?_, ?_⟩, fun hshort => ?_⟩
      · rw [List.map_append, List.map_replicate]
        show List.replicate (f.header.length - 1) none ++ [none] = _
        rw [← List.replicate_succ', Nat.sub_add_cancel hpos]
      · simp [List.mem_replicate]
      · simp [List.mem_replicate]
      · intro m hm
        rw [List.dropLast_concat] at hm
        exact (not_stops_header hm).1
      · rw [toInt32_of_lt hshort, Int.natCast_eq_zero, List.length_eq_zero_iff] at hzero
        exact absurd hzero f.nonempty
    · rw [if_neg hzero, ← List.replicate_succ', Nat.sub_add_cancel hpos]
      have hstops : ∀ m ∈ List.replicate f.header.length Mark.header, ¬ m.Stops :=
        fun m hm => (not_stops_header hm).1
      refine ⟨(faithful_headers _).append (faithful_payload _) hstops, fun _ m hm => ?_⟩
      rcases List.mem_append.mp hm with hm | hm
      · exact hstops m hm
      · exact (not_stops_payload hm).1

end WireFrame

/-! ## §3  As far as the reader counts -/

theorem held_isPrefix (fs : List WireFrame) : held fs <+: wireBytes fs := by
  induction fs with
  | nil => exact List.prefix_rfl
  | cons f fs ih =>
      rw [wireBytes, List.flatMap_cons, held]
      split_ifs
      · exact (List.prefix_append_right_inj f.encode).mpr ih
      · exact (List.take_prefix _ _).trans (List.prefix_append _ _)

theorem length_wireCarried (fs : List WireFrame) :
    (wireCarried fs).length = (wireBytes fs).length := by
  rw [wireCarried, wireBytes, List.length_flatMap, List.length_flatMap]
  simp only [WireFrame.length_carried]

/-- **What the reader takes the stream for**, as long as it counts, is what it carries. -/
theorem faithful_held {d : Decoder} (hd : Between d) (fs : List WireFrame) :
    WireFrame.Faithful (d.marks (held fs)) ((wireCarried fs).take (held fs).length) := by
  induction fs generalizing d with
  | nil => exact WireFrame.faithful_payload []
  | cons f fs ih =>
      obtain ⟨hfaithful, hshort⟩ := WireFrame.faithful_taken hd f
      rw [held, wireCarried, List.flatMap_cons]
      split_ifs with hf
      · have hnonneg : ¬ toInt32 f.payload.length < 0 := by
          rw [toInt32_of_lt hf]
          omega
        obtain ⟨hbetween, -⟩ := WireFrame.run_taken hd hnonneg
        have hroom := f.length_room
        rw [WireFrame.short_room hf] at hfaithful hshort hbetween hroom
        rw [← hroom, ← f.length_carried, List.take_length] at hfaithful
        rw [Decoder.marks_append, List.length_append, ← f.length_carried,
          List.take_length_add_append]
        exact hfaithful.append (ih hbetween) (hshort hf)
      · rw [f.length_room, List.take_append_of_le_length]
        · exact hfaithful
        · rw [f.length_carried]
          exact f.room_le

/-- **The next byte.** Its header announces a negative length; or it is payload, like all that
can come in a call, and the reader takes it for the first byte of a header. -/
theorem held_beyond {d : Decoder} (hd : Between d) {fs : List WireFrame} {b : UInt8}
    {rest : List UInt8} (h : wireBytes fs = held fs ++ b :: rest) :
    ((d.after (held fs)).marks [b] = [.invalid] ∧ ∀ m ∈ d.marks (held fs), ¬ m.Stops) ∨
      ((d.after (held fs)).marks [b] = [.header] ∧
        none ∉ ((wireCarried fs).drop (held fs).length).take (2 ^ 31)) := by
  induction fs generalizing d with
  | nil => cases h
  | cons f fs ih =>
      obtain ⟨-, hshort⟩ := WireFrame.faithful_taken hd f
      rw [wireBytes, List.flatMap_cons] at h
      rw [held] at h ⊢
      rw [wireCarried, List.flatMap_cons]
      by_cases hf : f.Short
      · rw [if_pos hf] at h ⊢
        have hnonneg := WireFrame.nonneg_of_short hf
        obtain ⟨hbetween, -⟩ := WireFrame.run_taken hd hnonneg
        rw [WireFrame.short_room hf] at hshort hbetween
        rw [List.append_assoc] at h
        have hnext := ih hbetween (List.append_cancel_left h)
        rw [Decoder.after_append, Decoder.marks_append, List.length_append, ← f.length_carried,
          List.drop_length_add_append]
        refine hnext.imp ?_ id
        rintro ⟨hbyte, hstops⟩
        refine ⟨hbyte, fun m hm => ?_⟩
        rcases List.mem_append.mp hm with hm | hm
        · exact hshort hf m hm
        · exact hstops m hm
      · rw [if_neg hf] at h ⊢
        by_cases hneg : toInt32 f.payload.length < 0
        · left
          obtain ⟨hmarks, hbyte⟩ := WireFrame.run_negative hd hneg
          refine ⟨hbyte b ?_, fun m hm => ?_⟩
          · -- the header does not end the frame
            have hread : f.encode.take f.room ++ [b] <+: f.encode ++ fs.flatMap WireFrame.encode :=
              ⟨rest, by rw [h, List.append_assoc, List.singleton_append]⟩
            apply List.prefix_of_prefix_length_le hread (List.prefix_append _ _)
            rw [List.length_append, f.length_room, List.length_singleton]
            exact WireFrame.room_lt hneg
          · rw [hmarks] at hm
            exact (not_stops_header hm).1
        · right
          obtain ⟨hbetween, -⟩ := WireFrame.run_taken hd hneg
          have hparse : wsParseHeader ((d.after (f.encode.take f.room)).header ++ [b]) =
              .ok .notEnoughData := by
            rw [hbetween.noHeader]
            exact wsParseHeader_notEnough_iff.mpr (.inl (by simp))
          refine ⟨(Decoder.run_header hbetween.remaining hparse).2, ?_⟩
          have hfar := WireFrame.counted_far hneg hf
          have hdrop : f.carried.drop f.room = (f.payload.drop f.counted).map some := by
            have hskip := @List.drop_length_add_append _ (List.replicate f.header.length none)
              (f.payload.map some) f.counted
            rw [List.length_replicate] at hskip
            rw [WireFrame.carried, WireFrame.room, if_neg hneg, hskip, List.map_drop]
          have hroom : f.room ≤ f.carried.length := by
            rw [f.length_carried]
            exact f.room_le
          rw [f.length_room, List.drop_append_of_le_length hroom, hdrop,
            List.take_append_of_le_length]
          · intro hmem
            obtain ⟨byte, -, hnone⟩ := List.mem_map.mp (List.mem_of_mem_take hmem)
            cases hnone
          · rw [List.length_map, List.length_drop]
            omega

/-! ## §4  Pieces of the stream -/

namespace WireFrame.Faithful

variable {ms ms' : List Mark} {cs : List (Option UInt8)}

theorem left (h : Faithful (ms ++ ms') cs) : Faithful ms (cs.take ms.length) where
  payload := by
    rw [← h.payload, List.map_append, List.take_append_of_le_length (by rw [List.length_map]),
      ← ms.length_map Mark.payload?, List.take_length]
  valid := fun hm => h.valid (List.mem_append_left _ hm)
  noClose := fun hm => h.noClose (List.mem_append_left _ hm)
  before := by
    intro m hm
    apply h.before m
    rw [List.dropLast_append]
    split_ifs
    · exact hm
    · exact List.mem_append_left _ (List.mem_of_mem_dropLast hm)

theorem right (h : Faithful (ms ++ ms') cs) : Faithful ms' (cs.drop ms.length) where
  payload := by
    rw [← h.payload, List.map_append, ← ms.length_map Mark.payload?, List.drop_left]
  valid := fun hm => h.valid (List.mem_append_right _ hm)
  noClose := fun hm => h.noClose (List.mem_append_right _ hm)
  before := by
    intro m hm
    apply h.before m
    rw [List.dropLast_append_of_ne_nil]
    · exact List.mem_append_right _ hm
    · rintro rfl
      cases hm

theorem plain_eq (h : Faithful ms cs) : plain ms = cs.filterMap id := by
  rw [← h.payload, List.filterMap_map]
  rfl

end WireFrame.Faithful

section

variable {fs : List WireFrame}

/-- Any piece of the stream, as far as the reader counts. -/
theorem faithful_piece {xs ys : List UInt8} (h : xs ++ ys <+: held fs) :
    WireFrame.Faithful ((({} : Decoder).after xs).marks ys)
      (((wireCarried fs).drop xs.length).take ys.length) := by
  obtain ⟨rest, hrest⟩ := h
  have hheld := faithful_held between_start fs
  rw [← hrest, Decoder.marks_append, Decoder.marks_append] at hheld
  have hpiece := hheld.left.right
  rwa [List.length_append, Decoder.length_marks, Decoder.length_marks, List.take_take,
    min_eq_left (by simp only [List.length_append]; omega), List.drop_take,
    Nat.add_sub_cancel_left] at hpiece

theorem plain_piece {xs ys : List UInt8} (h : xs ++ ys <+: held fs) :
    plain ((({} : Decoder).after xs).marks ys) = payloadWithin fs xs.length ys.length :=
  (faithful_piece h).plain_eq

theorem payloadWithin_add (fs : List WireFrame) (a n k : ℕ) :
    payloadWithin fs a (n + k) = payloadWithin fs a n ++ payloadWithin fs (a + n) k := by
  unfold payloadWithin
  rw [List.take_add, List.filterMap_append, List.drop_drop]

/-- Where all bytes are payload. -/
theorem length_payloadWithin {a n : ℕ} (hall : none ∉ ((wireCarried fs).drop a).take n)
    (hlen : a + n ≤ (wireBytes fs).length) : (payloadWithin fs a n).length = n := by
  have hsome : ((wireCarried fs).drop a).take n = (payloadWithin fs a n).map some := by
    unfold payloadWithin
    generalize ((wireCarried fs).drop a).take n = cs at hall
    induction cs with
    | nil => rfl
    | cons c cs ih =>
        rw [List.mem_cons, not_or] at hall
        obtain ⟨b, rfl⟩ := Option.ne_none_iff_exists'.mp (Ne.symm hall.1)
        rw [List.filterMap_cons_some (by rfl), List.map_cons, ← ih hall.2]
  have hlength := congrArg List.length hsome
  rw [List.length_take, List.length_drop, length_wireCarried, List.length_map] at hlength
  omega

theorem within_held {bytes : List UInt8} (h : bytes <+: wireBytes fs)
    (hlen : bytes.length ≤ (held fs).length) : bytes <+: held fs :=
  List.prefix_of_prefix_length_le h (held_isPrefix fs) hlen

/-- The reader neither reads a byte that makes the header invalid nor stops before it. -/
theorem invalid_not_passed {d : Decoder} {used left kept rest : List UInt8} {b : UInt8}
    (hsplit : used ++ left = kept ++ b :: rest) (hbyte : (d.after kept).marks [b] = [.invalid])
    (hstops : ∀ m ∈ d.marks kept, ¬ m.Stops) (hvalid : Mark.invalid ∉ d.marks used)
    (hend : left ≠ [] → ∃ m ∈ (d.marks used).getLast?, m.Stops) : False := by
  rcases List.append_eq_append_iff.mp hsplit with ⟨x, hx, hleft⟩ | ⟨x, rfl, hx⟩
  · -- it has stopped before the byte
    obtain ⟨m, hm, hmstops⟩ := hend (by rw [hleft]; simp)
    apply hstops m _ hmstops
    rw [hx, Decoder.marks_append]
    exact List.mem_append_left _ (List.mem_of_getLast? hm)
  · cases x with
    | nil =>
        rw [List.append_nil] at hend
        obtain ⟨m, hm, hmstops⟩ := hend (by rintro rfl; cases hx)
        exact hstops m (List.mem_of_getLast? hm) hmstops
    | cons c xs =>
        injection hx with hhead
        subst hhead
        apply hvalid
        rw [← List.singleton_append, Decoder.marks_append, Decoder.marks_append, hbyte]
        simp

/-- What the reader returns of bytes of which it takes one of payload for a header. -/
theorem length_plain_beyond {xs kept : List UInt8} {b : UInt8} (hkept : xs ++ kept = held fs)
    (hbyte : (({} : Decoder).after (held fs)).marks [b] = [.header]) (rest : List UInt8) :
    (plain ((({} : Decoder).after xs).marks (kept ++ b :: rest))).length ≤
      (payloadWithin fs xs.length kept.length).length + rest.length := by
  rw [← hkept, Decoder.after_append] at hbyte
  rw [Decoder.marks_append, plain_append, List.length_append,
    plain_piece ⟨[], by rw [List.append_nil, hkept]⟩]
  apply Nat.add_le_add_left
  rw [← List.singleton_append, Decoder.marks_append, hbyte, plain_append]
  exact (List.length_filterMap_le _ _).trans_eq (Decoder.length_marks _ _)

/-- And the payload in them. -/
theorem length_payloadWithin_beyond {xs kept rest tail : List UInt8} {b : UInt8}
    (hkept : xs ++ kept = held fs) (hnext : wireBytes fs = held fs ++ b :: (rest ++ tail))
    (hcarried : none ∉ ((wireCarried fs).drop (held fs).length).take (2 ^ 31))
    (hsize : rest.length + 1 ≤ 2 ^ 31) :
    (payloadWithin fs xs.length (kept.length + (rest.length + 1))).length =
      (payloadWithin fs xs.length kept.length).length + (rest.length + 1) := by
  have hlen := congrArg List.length hnext
  have hheld := congrArg List.length hkept
  simp only [List.length_append, List.length_cons] at hlen hheld
  have hlater : none ∉ ((wireCarried fs).drop (held fs).length).take (rest.length + 1) :=
    fun hmem => hcarried (List.take_subset_take_left _ hsize hmem)
  rw [payloadWithin_add, List.length_append, hheld, length_payloadWithin hlater (by omega)]

end

/-! ## §5  One call -/

namespace Continues

variable {fs : List WireFrame} {before buffers : List (List UInt8)} {r : WebsocketRead}

theorem stands (h : Continues fs before r buffers)
    (hbefore : before.flatten.length ≤ (held fs).length) :
    r.buffer = [] ∧ Decodes r (({} : Decoder).after before.flatten) := by
  have hstream : before.flatten <+: wireBytes fs := by
    have hstream := h.stream
    rw [List.flatten_append] at hstream
    exact (List.prefix_append _ _).trans hstream
  have hheld := within_held hstream hbefore
  have hfaithful := @faithful_piece fs [] before.flatten hheld
  obtain ⟨out, hreads⟩ := h.reads
  rcases feedAll_unstopped decodes_start rfl hfaithful.valid hfaithful.noClose hfaithful.before
    h.sizes with hfail | ⟨r₀, hread, hbuf, hdec⟩
  · rw [hreads] at hfail
    cases hfail
  · cases hreads.symm.trans hread
    exact ⟨hbuf, hdec⟩

/-- As far as the reader counts it returns the payload. -/
theorem feedAll_within (h : Continues fs before r buffers)
    (hwithin : (before ++ buffers).flatten.length ≤ (held fs).length)
    (hsizes : ∀ c ∈ buffers, c.length < 2 ^ 31) :
    ∃ r', r.feedAll buffers =
        .ok (r', payloadWithin fs before.flatten.length buffers.flatten.length) ∧
      r'.error = false := by
  have hheld := within_held h.stream hwithin
  rw [List.flatten_append] at hheld hwithin
  obtain ⟨hbuf, hdec⟩ := h.stands (le_trans (by simp) hwithin)
  have hfaithful := faithful_piece hheld
  rcases feedAll_unstopped hdec hbuf hfaithful.valid hfaithful.noClose hfaithful.before hsizes with
    hfail | ⟨r', hread, -, hdec'⟩
  · exact absurd hfail h.passes
  · exact ⟨r', plain_piece hheld ▸ hread, hdec'.noError⟩

/-- Beyond that it does not: it meets the negative length, or it returns fewer bytes. -/
theorem feedAll_beyond (h : Continues fs before r buffers)
    (hbefore : before.flatten.length ≤ (held fs).length)
    (hbeyond : (held fs).length < (before ++ buffers).flatten.length)
    (hsum : buffers.flatten.length < 2 ^ 31) {r' : WebsocketRead} (herr : r'.error = false) :
    r.feedAll buffers ≠
      .ok (r', payloadWithin fs before.flatten.length buffers.flatten.length) := by
  intro hfeed
  obtain ⟨hbuf, hdec⟩ := h.stands hbefore
  have hsizes : ∀ c ∈ buffers, c.length < 2 ^ 31 := fun c hc =>
    lt_of_le_of_lt (by
      rw [List.length_flatten]
      exact List.le_sum_of_mem (List.mem_map_of_mem hc)) hsum
  obtain ⟨used, hsplit, hplain, hvalid, -, hend⟩ := feedAll_ok hdec hbuf hsizes hfeed herr
  -- the bytes of the call that the reader takes for what they are, and the next one
  obtain ⟨tail, htail⟩ := h.stream
  rw [List.flatten_append] at hbeyond htail
  have hstart : before.flatten <+: held fs :=
    within_held ⟨_, (List.append_assoc _ _ _).symm.trans htail⟩ hbefore
  obtain ⟨kept, hkept⟩ := hstart
  obtain ⟨more, hmore⟩ : held fs <+: before.flatten ++ buffers.flatten :=
    List.prefix_of_prefix_length_le (held_isPrefix fs) ⟨tail, htail⟩ hbeyond.le
  obtain ⟨b, rest, rfl⟩ : ∃ b rest, more = b :: rest := by
    apply List.exists_cons_of_ne_nil
    rintro rfl
    rw [List.append_nil] at hmore
    rw [hmore] at hbeyond
    exact lt_irrefl _ hbeyond
  have hbuffers : buffers.flatten = kept ++ b :: rest := by
    rw [← hkept, List.append_assoc] at hmore
    exact (List.append_cancel_left hmore).symm
  have hnext : wireBytes fs = held fs ++ b :: (rest ++ tail) := by
    rw [← htail, ← hmore, List.append_assoc, List.cons_append]
  rcases held_beyond between_start hnext with ⟨hbyte, hstops⟩ | ⟨hbyte, hcarried⟩
  · rw [← hkept, Decoder.after_append] at hbyte
    rw [← hkept, Decoder.marks_append] at hstops
    exact invalid_not_passed (hsplit.trans hbuffers) hbyte
      (fun m hm => hstops m (List.mem_append_right _ hm)) hvalid hend
  · -- one byte of payload too few
    have hreturned := length_plain_beyond hkept hbyte rest
    have hexpected := length_payloadWithin_beyond hkept hnext hcarried (by
      rw [hbuffers] at hsum
      simp only [List.length_append, List.length_cons] at hsum
      omega)
    have hmarks : (plain ((({} : Decoder).after before.flatten).marks used)).length ≤
        (plain ((({} : Decoder).after before.flatten).marks (kept ++ b :: rest))).length := by
      rw [← hbuffers, ← hsplit, Decoder.marks_append, plain_append, List.length_append]
      exact Nat.le_add_right _ _
    rw [hbuffers, List.length_append, List.length_cons] at hplain
    rw [← hplain, hexpected] at hmarks
    omega

variable {reserve : RecvBuffer → ℕ → List UInt8} (completes : Bool) {s : RecvStream}

/-- The account of a call, when the calls before it have not gone further than the reader
counts. -/
theorem accounted_iff (hreserve : ∀ b size, size ≤ (reserve b size).length)
    (h : Continues fs before r buffers) (hbefore : before.flatten.length ≤ (held fs).length)
    (hframe : s.wsFrame = true) (hrecv : s.wsRecv = r) (hstream : s.stream = true) :
    Accounted s buffers (payloadWithin fs before.flatten.length buffers.flatten.length)
        (onData reserve completes s buffers) ↔
      (buffers.map List.length).sum < 2 ^ 31 ∧
        (before ++ buffers).flatten.length ≤ (held fs).length := by
  subst hrecv
  rw [accounted_iff_feedAll hreserve hframe hstream (h.stands hbefore).2.noError]
  constructor
  · rintro ⟨hsum, r', hfeed, herr⟩
    refine ⟨hsum, ?_⟩
    by_contra hbeyond
    rw [← List.length_flatten] at hsum
    exact h.feedAll_beyond hbefore (not_le.mp hbeyond) hsum herr hfeed
  · rintro ⟨hsum, hwithin⟩
    refine ⟨hsum, h.feedAll_within hwithin fun c hc => ?_⟩
    exact lt_of_le_of_lt (List.le_sum_of_mem (List.mem_map_of_mem hc)) hsum

/-- The first buffers. -/
theorem head {later : List (List UInt8)} (h : Continues fs before r (buffers ++ later)) :
    Continues fs before r buffers where
  sizes := h.sizes
  reads := h.reads
  stream := by
    have hstream := h.stream
    rw [← List.append_assoc, List.flatten_append] at hstream
    exact (List.prefix_append _ _).trans hstream
  passes := by
    intro hfail
    apply h.passes
    rw [feedAll_append_error hfail]

/-- And those behind them. -/
theorem rest {later : List (List UInt8)} {r' : WebsocketRead} {out : List UInt8}
    (h : Continues fs before r (buffers ++ later)) (hsizes : ∀ c ∈ buffers, c.length < 2 ^ 31)
    (hfeed : r.feedAll buffers = .ok (r', out)) : Continues fs (before ++ buffers) r' later where
  sizes := List.forall_mem_append.mpr ⟨h.sizes, hsizes⟩
  reads := by
    obtain ⟨out₀, hreads⟩ := h.reads
    exact ⟨_, feedAll_append hreads hfeed⟩
  stream := by
    rw [List.append_assoc]
    exact h.stream
  passes := by
    intro hfail
    apply h.passes
    rw [feedAll_append_eq hfeed, hfail]
    rfl

end Continues

/-! ## §6  Runs of calls -/

/-- A call of `OnData`, with what the unpacker is by then. -/
structure DataCall where
  recvBuffer : RecvBuffer
  buffers : List (List UInt8)

/-- The peer goes from call to call, the first at position `a` of the stream, and each call is
accounted for. -/
def AllAccounted (reserve : RecvBuffer → ℕ → List UInt8) (completes : Bool)
    (fs : List WireFrame) : RecvStream → ℕ → List DataCall → Prop
  | _, _, [] => True
  | s, a, c :: cs =>
      let peer := { s with recvBuffer := c.recvBuffer }
      let n := c.buffers.flatten.length
      Accounted peer c.buffers (payloadWithin fs a n) (onData reserve completes peer c.buffers) ∧
        ∀ s', onData reserve completes peer c.buffers = .ok s' →
          AllAccounted reserve completes fs s' (a + n) cs

/-- The first call that goes further than the reader counts is the first that is not accounted
for. -/
theorem allAccounted_iff {reserve : RecvBuffer → ℕ → List UInt8}
    (hreserve : ∀ b size, size ≤ (reserve b size).length) (completes : Bool)
    {fs : List WireFrame} {s : RecvStream} {before : List (List UInt8)} {calls : List DataCall}
    (h : Continues fs before s.wsRecv (calls.flatMap DataCall.buffers))
    (hbefore : before.flatten.length ≤ (held fs).length) (hframe : s.wsFrame = true)
    (hstream : s.stream = true) :
    AllAccounted reserve completes fs s before.flatten.length calls ↔
      (∀ c ∈ calls, (c.buffers.map List.length).sum < 2 ^ 31) ∧
        (before ++ calls.flatMap DataCall.buffers).flatten.length ≤ (held fs).length := by
  induction calls generalizing s before with
  | nil =>
      rw [List.flatMap_nil, List.append_nil]
      simpa [AllAccounted] using hbefore
  | cons c cs ih =>
      rw [List.flatMap_cons] at h ⊢
      have hcall := @Continues.accounted_iff _ _ _ _ reserve completes
        { s with recvBuffer := c.recvBuffer } hreserve h.head hbefore hframe rfl hstream
      simp only [AllAccounted]
      rw [hcall, List.forall_mem_cons, ← List.append_assoc]
      have hmono : (before ++ c.buffers).flatten.length ≤
          (before ++ c.buffers ++ cs.flatMap DataCall.buffers).flatten.length := by
        rw [@List.flatten_append _ (before ++ c.buffers), List.length_append]
        exact Nat.le_add_right _ _
      have hlength : before.flatten.length + c.buffers.flatten.length =
          (before ++ c.buffers).flatten.length := by
        rw [List.flatten_append, List.length_append]
      -- the peer behind a call that is accounted for
      have hlater : (c.buffers.map List.length).sum < 2 ^ 31 →
          (before ++ c.buffers).flatten.length ≤ (held fs).length →
          ((∀ s',
              onData reserve completes { s with recvBuffer := c.recvBuffer } c.buffers = .ok s' →
              AllAccounted reserve completes fs s'
                (before.flatten.length + c.buffers.flatten.length) cs) ↔
            (∀ c ∈ cs, (c.buffers.map List.length).sum < 2 ^ 31) ∧
              (before ++ c.buffers ++ cs.flatMap DataCall.buffers).flatten.length ≤
                (held fs).length) := by
        intro hsum hwithin
        have hsizes : ∀ b ∈ c.buffers, b.length < 2 ^ 31 := fun b hb =>
          lt_of_le_of_lt (List.le_sum_of_mem (List.mem_map_of_mem hb)) hsum
        obtain ⟨r', hfeed, herr⟩ := h.head.feedAll_within hwithin hsizes
        obtain ⟨s', hdata, hrecv', hstream', hframe'⟩ := @onData_recv reserve hreserve completes
          { s with recvBuffer := c.recvBuffer } hframe hstream _ _ _ hfeed herr
        have hrest := h.rest hsizes hfeed
        rw [← hrecv'] at hrest
        rw [hlength, hdata, ← ih hrest hwithin hframe' hstream']
        simp
      constructor
      · rintro ⟨⟨hsum, hwithin⟩, hall⟩
        obtain ⟨hsums, htotal⟩ := (hlater hsum hwithin).mp hall
        exact ⟨⟨hsum, hsums⟩, htotal⟩
      · rintro ⟨⟨hsum, hsums⟩, htotal⟩
        have hwithin := hmono.trans htotal
        exact ⟨⟨hsum, hwithin⟩, (hlater hsum hwithin).mpr ⟨hsums, htotal⟩⟩

/-- **The account of `OnData`.** Without framing it is right exactly for calls with fewer than
2^31 bytes, which is what `Consume` can be told. With framing a call has besides to end where the
reader still counts, if those before it did; and all calls of a run are accounted for exactly if
each is below 2^31 bytes and the last ends there. -/
theorem onData_accounted_iff {reserve : RecvBuffer → ℕ → List UInt8}
    (hreserve : ∀ b size, size ≤ (reserve b size).length) (completes : Bool) :
    (∀ s buffers, s.wsFrame = false → s.stream = true →
      (Accounted s buffers buffers.flatten (onData reserve completes s buffers) ↔
        (buffers.map List.length).sum < 2 ^ 31)) ∧
    (∀ fs before r buffers, Continues fs before r buffers →
      before.flatten.length ≤ (held fs).length →
      ∀ s, s.wsFrame = true → s.wsRecv = r → s.stream = true →
        (Accounted s buffers (payloadWithin fs before.flatten.length buffers.flatten.length)
            (onData reserve completes s buffers) ↔
          (buffers.map List.length).sum < 2 ^ 31 ∧
            (before ++ buffers).flatten.length ≤ (held fs).length)) ∧
    ∀ fs s calls, s.wsFrame = true → s.wsRecv = {} → s.stream = true →
      Continues fs [] {} (calls.flatMap DataCall.buffers) →
      (AllAccounted reserve completes fs s 0 calls ↔
        (∀ c ∈ calls, (c.buffers.map List.length).sum < 2 ^ 31) ∧
          (calls.flatMap DataCall.buffers).flatten.length ≤ (held fs).length) := by
  refine ⟨?_, ?_, ?_⟩
  · intro s buffers hframe hstream
    obtain ⟨p, hloop, h⟩ := @Holds.allPlain reserve completes _ _ _ _ hreserve (holds_start hstream)
      hframe buffers
    rw [Nat.zero_add, List.nil_append] at h
    exact accounted_iff_of_holds hloop h
  · intro fs before r buffers h hbefore s hframe hrecv hstream
    exact h.accounted_iff completes hreserve hbefore hframe hrecv hstream
  · intro fs s calls hframe hrecv hstream h
    rw [← hrecv] at h
    exact allAccounted_iff hreserve completes h (Nat.zero_le _) hframe hstream

/-- An unmasked frame of equal bytes. -/
def sevens (n : ℕ) (hpos : 0 < n) (hn : n < 2 ^ 64) : WireFrame where
  payload := List.replicate n 7
  key := none
  nonempty := by
    rw [ne_eq, List.replicate_eq_nil_iff]
    omega
  bound := by rwa [List.length_replicate]

theorem onData_accounted_two :
    Accounted { wsFrame := false } [[1], [2, 3]] [1, 2, 3]
        (onData grown true { wsFrame := false } [[1], [2, 3]]) ∧
      payloadWithin [sevens 2 (by decide) (by decide)] 1 3 = [7, 7] ∧
      Accounted { wsFrame := true, wsRecv := { wsHeader := [0x82] } } [[2, 7], [7]]
        (payloadWithin [sevens 2 (by decide) (by decide)] 1 3)
        (onData grown true { wsFrame := true, wsRecv := { wsHeader := [0x82] } }
          [[2, 7], [7]]) ∧
      AllAccounted grown true [sevens 2 (by decide) (by decide)] { wsFrame := true } 0
        [⟨{}, [[0x82]]⟩, ⟨{}, [[2, 7], [7]]⟩] := by
  set f := sevens 2 (by decide) (by decide) with hf
  refine ⟨?_, by decide +kernel, ?_, ?_⟩
  · exact ((onData_accounted_iff le_length_grown true).1 _ _ rfl rfl).mpr (by decide)
  · have hcont : Continues [f] [[0x82]] { wsHeader := [0x82] } [[2, 7], [7]] :=
      { sizes := by simp
        reads := ⟨[], by decide +kernel⟩
        stream := ⟨[], by decide +kernel⟩
        passes := by decide +kernel }
    exact ((onData_accounted_iff le_length_grown true).2.1 _ _ _ _ hcont (by decide +kernel) _ rfl
      rfl rfl).mpr (by decide +kernel)
  · have hcont : Continues [f] [] {} [[0x82], [2, 7], [7]] :=
      { sizes := by simp
        reads := ⟨[], rfl⟩
        stream := ⟨[], by decide +kernel⟩
        passes := by decide +kernel }
    exact ((onData_accounted_iff le_length_grown true).2.2 _ _ _ rfl rfl rfl hcont).mpr
      ⟨by decide, by decide +kernel⟩

/-- The header of a frame that announces 2^32 bytes, with the first of them. -/
def wideStart : List UInt8 := [0x82, 0x7f, 0, 0, 0, 1, 0, 0, 0, 0, 7]

/-- The reader waits for none of them, and the byte is not given to the unpacker. -/
theorem wide_start_lost :
    Continues [sevens (2 ^ 32) (by decide) (by decide)] [] {} [wideStart] ∧
      ¬ Accounted { wsFrame := true } [wideStart]
        (payloadWithin [sevens (2 ^ 32) (by decide) (by decide)] 0 wideStart.length)
        (onData grown true { wsFrame := true } [wideStart]) := by
  have hfeed : WebsocketRead.feedAll {} [wideStart] = .ok ({ buffer := [7] }, []) := by
    decide +kernel
  set f := sevens (2 ^ 32) (by decide) (by decide)
  have hheader : f.header = [0x82, 0x7f, 0, 0, 0, 1, 0, 0, 0, 0] := by
    have hlen : f.payload.length = 2 ^ 32 := List.length_replicate
    rw [WireFrame.header, hlen]
    decide +kernel
  obtain ⟨n, hn⟩ : ∃ n, 2 ^ 32 = n + 1 := ⟨2 ^ 32 - 1, by norm_num⟩
  have hpayload : f.payload = 7 :: List.replicate n 7 := by
    show List.replicate (2 ^ 32) 7 = _
    rw [hn, List.replicate_succ]
  constructor
  · refine ⟨by simp, ⟨[], rfl⟩, ⟨List.replicate n 7, ?_⟩, by rw [hfeed]; simp⟩
    have hbytes : wireBytes [f] = f.header ++ f.payload := by
      rw [wireBytes, List.flatMap_cons, List.flatMap_nil, List.append_nil]
      rfl
    rw [hbytes, hheader, hpayload]
    rfl
  · rw [accounted_iff_feedAll le_length_grown rfl rfl rfl]
    rintro ⟨-, r', hsame, -⟩
    rw [hfeed] at hsame
    injection hsame with hsame
    have hone : payloadWithin [f] 0 wideStart.length = [7] := by
      rw [payloadWithin, wireCarried, List.flatMap_cons, WireFrame.carried, hheader, hpayload]
      rfl
    rw [hone] at hsame
    cases hsame

end BeyondProtocol.Quic
