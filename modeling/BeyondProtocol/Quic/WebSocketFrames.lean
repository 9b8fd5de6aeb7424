import BeyondProtocol.Quic.WebSocketDecoder

/-!
# Frames of every kind

A stream of valid frames: any opcode the parser lets through, fragmented or
not, masked or not, with or without payload. On such a stream the decoder marks
every byte as what the sender meant it to be (`run_frames`), so that the
refinement says what the reader does with every chunk of it.

Two things go wrong. A frame without payload makes `Buffer` return an empty
span although bytes of the chunk are left, and the payload of a frame that is
not binary is returned like that of a binary one.
-/

namespace BeyondProtocol.Quic

/-! ## §1  The sending side -/

/-- A valid frame whose payload length is representable as a non-negative `int`. -/
structure Frame where
  fin : Bool
  opCode : OpCodeType
  payload : List UInt8
  key : Option WsMaskKey
  valid : opCode.Valid
  short : payload.length < 2 ^ 31

namespace Frame

def useMask (f : Frame) : Bool := f.key.isSome

def maskKey (f : Frame) : WsMaskKey := f.key.getD .zero

def firstByte (f : Frame) : UInt8 := (if f.fin then 0x80 else 0) ||| f.opCode

/-- What `WsWriteHeader` writes, with the FIN bit of the frame. -/
def header (f : Frame) : List UInt8 :=
  f.firstByte :: (headerBytes f.opCode f.useMask f.maskKey f.payload.length).tail

/-- The payload as it travels. -/
def body (f : Frame) : List UInt8 :=
  match f.key with
  | some key => mask key 0 f.payload
  | none => f.payload

def encode (f : Frame) : List UInt8 := f.header ++ f.body

/-- `Buffer` returns nothing when the header of such a frame ends. -/
def Stops (f : Frame) : Prop := f.payload = [] ∨ f.opCode = OpCodeType.CLOSE

instance (f : Frame) : Decidable f.Stops := by
  unfold Stops
  infer_instance

def lastMark (f : Frame) : Mark :=
  if f.opCode = OpCodeType.CLOSE then .close else if f.payload = [] then .empty else .header

/-- What the bytes of the frame are. -/
def marks (f : Frame) : List Mark :=
  List.replicate (f.header.length - 1) .header ++ [f.lastMark] ++ f.payload.map .payload

end Frame

/-- The byte stream of the frames. -/
def frameBytes (frames : List Frame) : List UInt8 := frames.flatMap Frame.encode

def frameMarks (frames : List Frame) : List Mark := frames.flatMap Frame.marks

def framePayloads (frames : List Frame) : List UInt8 := frames.flatMap Frame.payload

/-- The payload that is meant for the message parser. -/
def binaryPayloads (frames : List Frame) : List UInt8 :=
  framePayloads (frames.filter fun f => f.opCode = OpCodeType.BINARY_FRAME)

/-! ## §2  The decoder on frames -/

/-- The first byte counts for the FIN bit, the reserved bits and the opcode. -/
theorem wsParseHeader_firstByte {b b' : UInt8} {tail : List UInt8} {h : WebSocketHeader}
    (hrsv : b' &&& 0x70 = b &&& 0x70) (hop : b' &&& 0x0F = b &&& 0x0F)
    (hparse : wsParseHeader (b :: tail) = .ok (.ok h)) :
    wsParseHeader (b' :: tail) = .ok (.ok { h with fin := decide (b' &&& 0x80 = 0x80) }) := by
  obtain ⟨hlong, hbyte, rfl⟩ := wsParseHeader_eq_ok hparse
  have hbyte' : ¬ Rejected ((b' :: tail).getD 0 0) := by
    show ¬ (b' &&& 0x70 ≠ 0 ∨ _)
    rw [List.getD_cons_zero, hrsv, hop]
    exact hbyte
  rw [@wsParseHeader_parsed (b' :: tail) hlong hbyte']
  -- the key starts behind the length, at the third byte or later
  have hkey : ∀ i, 2 ≤ i → (b' :: tail).getD i 0 = (b :: tail).getD i 0 := by
    intro i hi
    obtain ⟨j, rfl⟩ := Nat.exists_eq_add_of_le' hi
    rfl
  unfold parsedHeader
  simp only [List.getD_cons_zero, List.getD_cons_succ, hrsv, hop]
  rw [hkey _ (by split_ifs <;> decide)]

namespace Frame

theorem firstByte_fields (f : Frame) :
    f.firstByte &&& 0x70 = (0x80 ||| f.opCode) &&& 0x70 ∧
      f.firstByte &&& 0x0F = (0x80 ||| f.opCode) &&& 0x0F ∧
      decide (f.firstByte &&& 0x80 = 0x80) = f.fin := by
  have hop := f.valid
  simp only [OpCodeType.Valid, List.mem_cons, List.not_mem_nil, or_false] at hop
  unfold firstByte
  rcases hop with hop | hop | hop | hop | hop | hop <;> rw [hop] <;> cases f.fin <;> decide

theorem length_header (f : Frame) :
    f.header.length = (headerBytes f.opCode f.useMask f.maskKey f.payload.length).length := by
  obtain ⟨tail, htail⟩ := headerBytes_second f.opCode f.useMask f.maskKey f.payload.length
  simp [header, htail]

/-- What the parser makes of the header. -/
def parsed (f : Frame) : WebSocketHeader where
  fin := f.fin
  rsv := 0
  mask := f.useMask
  opCode := f.opCode
  payloadLength := f.payload.length
  maskingKey := if f.useMask then f.maskKey else .zero
  headerSize := f.header.length

theorem wsParseHeader_header (f : Frame) : wsParseHeader f.header = .ok (.ok f.parsed) := by
  obtain ⟨tail, htail⟩ := headerBytes_second f.opCode f.useMask f.maskKey f.payload.length
  have hwritten := wsParseHeader_headerBytes f.valid f.useMask f.maskKey
    (lt_trans f.short (by norm_num)) []
  obtain ⟨hrsv, hop, hfin⟩ := f.firstByte_fields
  rw [List.append_nil] at hwritten
  have hlen := f.length_header
  rw [htail] at hwritten hlen
  have := wsParseHeader_firstByte hrsv hop hwritten
  rw [header, htail, List.tail_cons, this, hfin, parsed, hlen]

theorem headerSize_pos (f : Frame) : 0 < f.header.length := by
  simp [header]

theorem length_body (f : Frame) : f.body.length = f.payload.length := by
  unfold body
  cases f.key <;> simp

end Frame

/-- The decoder has seen whole frames. -/
structure Between (d : Decoder) : Prop where
  remaining : d.remaining = 0
  noHeader : d.header = []

namespace Frame

variable {d : Decoder}

theorem run_header (hd : Between d) (f : Frame) :
    d.after f.header = (Decoder.enter f.parsed).1 ∧
      d.marks f.header = List.replicate (f.header.length - 1) .header ++ [f.lastMark] := by
  have hparse : wsParseHeader (d.header ++ f.header) = .ok (.ok f.parsed) := by
    rw [hd.noHeader, List.nil_append, f.wsParseHeader_header]
  obtain ⟨n, hn, -, hafter, hmarks⟩ := Decoder.run_conclude hd.remaining
    (by rw [hd.noHeader]; rfl) hparse (by simp)
  have hsize : f.header.length = n + 1 := by
    have := (wsParseHeader_size hparse).1
    rw [hn, hd.noHeader, List.length_nil, Nat.zero_add] at this
    exact this
  have hlast : (Decoder.enter f.parsed).2 = f.lastMark := by
    have hzero : ((f.payload.length : Nat) : Int) = 0 ↔ f.payload = [] := by
      rw [Int.natCast_eq_zero, List.length_eq_zero_iff]
    have hnonneg : ¬ ((f.payload.length : Nat) : Int) < 0 := Int.not_lt.mpr (Int.natCast_nonneg _)
    unfold Decoder.enter lastMark
    simp only [parsed, toInt32_of_lt f.short, if_neg hnonneg, hzero]
  rw [← hsize, List.take_length] at hafter hmarks
  refine ⟨hafter, ?_⟩
  rw [hmarks, hsize, Nat.add_sub_cancel]
  exact congrArg _ (congrArg (fun m => [m]) hlast)

/-- The decoder at the first byte of the payload. -/
def entered (f : Frame) : Decoder where
  remaining := f.payload.length
  key := f.key

theorem enter_parsed (f : Frame) : (Decoder.enter f.parsed).1 = f.entered := by
  unfold Decoder.enter entered
  have hkey : (if f.useMask then some (if f.useMask then f.maskKey else .zero) else none) =
      f.key := by
    unfold useMask maskKey
    cases f.key <;> rfl
  simp only [parsed, toInt32_of_lt f.short, Int.toNat_natCast]
  exact congrArg (fun key => ({ remaining := f.payload.length, key := key } : Decoder)) hkey

theorem run_body (f : Frame) :
    Between ((Decoder.enter f.parsed).1.after f.body) ∧
      (Decoder.enter f.parsed).1.marks f.body = f.payload.map .payload := by
  rw [enter_parsed]
  obtain ⟨hafter, hmarks⟩ := @Decoder.run_payload f.entered f.body f.length_body.le
  constructor
  · rw [hafter, f.length_body]
    exact ⟨Nat.sub_self _, rfl⟩
  · rw [hmarks]
    congr 1
    cases hkey : f.key with
    | none => simp [entered, Decoder.unmask, body, hkey]
    | some key => simp [entered, Decoder.unmask, body, hkey, mask_mask]

theorem run_encode (hd : Between d) (f : Frame) :
    Between (d.after f.encode) ∧ d.marks f.encode = f.marks := by
  obtain ⟨hafter, hmarks⟩ := run_header hd f
  obtain ⟨hbetween, hpayload⟩ := f.run_body
  rw [encode, Decoder.after_append, Decoder.marks_append, hafter, hmarks, hpayload]
  exact ⟨hbetween, rfl⟩

theorem length_marks (f : Frame) : f.marks.length = f.encode.length := by
  have := f.headerSize_pos
  simp only [marks, encode, List.length_append, List.length_replicate, List.length_map,
    f.length_body, List.length_cons, List.length_nil]
  omega

end Frame

/-- **Every byte of a stream of frames is what the sender meant.** -/
theorem run_frames {d : Decoder} (hd : Between d) (frames : List Frame) :
    Between (d.after (frameBytes frames)) ∧ d.marks (frameBytes frames) = frameMarks frames := by
  induction frames generalizing d with
  | nil => exact ⟨hd, rfl⟩
  | cons f frames ih =>
      obtain ⟨hbetween, hmarks⟩ := Frame.run_encode hd f
      obtain ⟨hbetween', hmarks'⟩ := ih hbetween
      rw [frameBytes, List.flatMap_cons, Decoder.after_append, Decoder.marks_append, hmarks]
      exact ⟨hbetween', congrArg (f.marks ++ ·) hmarks'⟩

theorem between_start : Between {} := ⟨rfl, rfl⟩

/-- The marks of one piece of the stream. -/
theorem marks_piece {frames : List Frame} {before piece rest : List UInt8}
    (h : before ++ piece ++ rest = frameBytes frames) :
    (({} : Decoder).after before).marks piece =
      ((frameMarks frames).drop before.length).take piece.length := by
  rw [← (run_frames between_start frames).2, ← h]
  exact Framework.Transducer.outputs_middle ..

theorem invalid_not_mem (frames : List Frame) : Mark.invalid ∉ frameMarks frames := by
  intro h
  obtain ⟨f, -, hf⟩ := List.mem_flatMap.mp h
  simp only [Frame.marks, List.mem_append, List.mem_replicate, List.mem_map, List.mem_singleton,
    Frame.lastMark] at hf
  split_ifs at hf <;> simp at hf

theorem plain_marks (f : Frame) : plain f.marks = f.payload := by
  have hlast : plain [f.lastMark] = [] := by
    unfold Frame.lastMark
    split_ifs <;> rfl
  rw [Frame.marks, plain_append, plain_append, plain_headers, hlast, plain_map_payload,
    List.nil_append, List.nil_append]

theorem plain_frameMarks (frames : List Frame) :
    plain (frameMarks frames) = framePayloads frames := by
  induction frames with
  | nil => rfl
  | cons f frames ih =>
      rw [frameMarks, List.flatMap_cons, plain_append, plain_marks, framePayloads,
        List.flatMap_cons]
      exact congrArg _ ih

/-! ## §3  Where the reader stops early -/

theorem Frame.stops_lastMark_iff (f : Frame) : f.lastMark.Stops ↔ f.Stops := by
  unfold Frame.lastMark Frame.Stops Mark.Stops
  split_ifs with h₁ h₂ <;> simp_all

theorem Frame.stops_marks_iff (f : Frame) (i : Nat) :
    (∃ m ∈ f.marks[i]?, m.Stops) ↔ f.Stops ∧ i + 1 = f.header.length := by
  have hpos := f.headerSize_pos
  have hlen : (List.replicate (f.header.length - 1) Mark.header).length = f.header.length - 1 :=
    List.length_replicate
  rw [Frame.marks, List.append_assoc]
  rcases lt_trichotomy (i + 1) f.header.length with hi | hi | hi
  · rw [List.getElem?_append_left (by omega)]
    constructor
    · rintro ⟨m, hm, hstops⟩
      exact absurd hstops (not_stops_header (List.mem_of_getElem? hm)).1
    · rintro ⟨-, heq⟩
      omega
  · rw [List.getElem?_append_right (by omega), hlen, show i - (f.header.length - 1) = 0 by omega,
      ← f.stops_lastMark_iff]
    simp [hi]
  · rw [List.getElem?_append_right (by omega), hlen, List.getElem?_append_right (by simp; omega)]
    constructor
    · rintro ⟨m, hm, hstops⟩
      exact absurd hstops (not_stops_payload (List.mem_of_getElem? hm)).1
    · rintro ⟨-, heq⟩
      omega

/-- The bytes after which `Buffer` stops are the last header bytes of frames
without payload and of close frames. -/
theorem stops_frameMarks_iff (frames : List Frame) (i : Nat) :
    (∃ m ∈ (frameMarks frames)[i]?, m.Stops) ↔
      ∃ before z after, frames = before ++ z :: after ∧ z.Stops ∧
        i + 1 = (frameBytes before).length + z.header.length := by
  induction frames generalizing i with
  | nil => simp [frameMarks]
  | cons f frames ih =>
      rw [frameMarks, List.flatMap_cons]
      by_cases hi : i < f.encode.length
      · rw [List.getElem?_append_left (by rwa [f.length_marks]), f.stops_marks_iff]
        constructor
        · rintro ⟨hstops, heq⟩
          exact ⟨[], f, frames, rfl, hstops, by simpa [frameBytes] using heq⟩
        · rintro ⟨before, z, after, heq, hstops, hpos⟩
          cases before with
          | nil =>
              cases heq
              exact ⟨hstops, by simpa [frameBytes] using hpos⟩
          | cons f' before =>
              cases heq
              have := z.headerSize_pos
              simp only [frameBytes, List.flatMap_cons, List.length_append] at hpos
              omega
      · rw [List.getElem?_append_right (by rw [f.length_marks]; omega), f.length_marks]
        refine (ih (i - f.encode.length)).trans ?_
        constructor
        · rintro ⟨before, z, after, rfl, hstops, hpos⟩
          refine ⟨f :: before, z, after, rfl, hstops, ?_⟩
          simp only [frameBytes, List.flatMap_cons, List.length_append] at hpos ⊢
          omega
        · rintro ⟨before, z, after, heq, hstops, hpos⟩
          cases before with
          | nil =>
              cases heq
              simp only [frameBytes, List.flatMap_nil, List.length_nil] at hpos
              simp only [Frame.encode, List.length_append] at hi
              omega
          | cons f' before =>
              cases heq
              refine ⟨before, z, after, rfl, hstops, ?_⟩
              simp only [frameBytes, List.flatMap_cons, List.length_append] at hpos ⊢
              omega

theorem not_stops_frameMarks {frames : List Frame} (h : ∀ f ∈ frames, ¬ f.Stops) :
    ∀ m ∈ frameMarks frames, ¬ m.Stops := by
  intro m hm hstops
  obtain ⟨i, hi⟩ := List.mem_iff_getElem?.mp hm
  obtain ⟨before, z, after, rfl, hz, -⟩ := (stops_frameMarks_iff frames i).mp ⟨m, hi, hstops⟩
  exact h z (by simp) hz

/-- The header of a frame without payload, or of a close frame, ends inside the
chunk of `n` bytes at position `a`, before the last byte of the chunk. -/
def StopsInside (frames : List Frame) (a n : Nat) : Prop :=
  ∃ before z after, frames = before ++ z :: after ∧ z.Stops ∧
    a < (frameBytes before).length + z.header.length ∧
    (frameBytes before).length + z.header.length < a + n

theorem stopsInside_iff {frames : List Frame} {before chunk rest : List UInt8}
    (h : before ++ chunk ++ rest = frameBytes frames) :
    StopsInside frames before.length chunk.length ↔
      ∃ i, i + 1 < chunk.length ∧
        ∃ m ∈ ((({} : Decoder).after before).marks chunk)[i]?, m.Stops := by
  have hget : ∀ i, i < chunk.length → ((({} : Decoder).after before).marks chunk)[i]? =
      (frameMarks frames)[before.length + i]? := by
    intro i hi
    rw [marks_piece h, List.getElem?_take_of_lt hi, List.getElem?_drop]
  constructor
  · rintro ⟨fs, z, gs, hframes, hstops, hlt, hend⟩
    obtain ⟨i, hi⟩ : ∃ i, (frameBytes fs).length + z.header.length = before.length + i + 1 :=
      ⟨(frameBytes fs).length + z.header.length - before.length - 1, by omega⟩
    refine ⟨i, by omega, ?_⟩
    rw [hget i (by omega), stops_frameMarks_iff]
    exact ⟨fs, z, gs, hframes, hstops, by omega⟩
  · rintro ⟨i, hi, hstops⟩
    rw [hget i (by omega), stops_frameMarks_iff] at hstops
    obtain ⟨fs, z, gs, hframes, hz, hpos⟩ := hstops
    exact ⟨fs, z, gs, hframes, hz, by omega, by omega⟩

/-- The chunk has been consumed, the payload in it returned, and `Next` can be
called again. -/
structure ChunkDone (payload : List UInt8) (r' : WebsocketRead) (out : List UInt8) : Prop where
  consumed : r'.buffer = []
  returned : out = payload
  next : ∀ data, ∃ r'', r'.next data = .ok r''

/-- The payload bytes among the `n` bytes of the stream from position `a` on. -/
def payloadIn (frames : List Frame) (a n : Nat) : List UInt8 :=
  plain (((frameMarks frames).drop a).take n)

/-- **Empty means done**, for a chunk that the reader gets in any state it can
reach: exactly when no header without payload ends before the last byte of the
chunk. -/
theorem first_empty_span_iff (frames : List Frame) (chunks : List (List UInt8))
    (chunk rest : List UInt8) (hstream : chunks.flatten ++ chunk ++ rest = frameBytes frames)
    (hsizes : ∀ c ∈ chunks, c.length < 2 ^ 31) (hsize : chunk.length < 2 ^ 31)
    (r : WebsocketRead) (out₀ : List UInt8)
    (hreach : WebsocketRead.feedAll {} chunks = .ok (r, out₀)) (herr : r.error = false)
    (hnext : r.buffer = []) :
    (∀ r' out, r.feed chunk = .ok (r', out) →
        ChunkDone (payloadIn frames chunks.flatten.length chunk.length) r' out) ↔
      ¬ StopsInside frames chunks.flatten.length chunk.length := by
  have hvalid : Mark.invalid ∉ ({} : Decoder).marks (chunks.flatten ++ chunk ++ rest) := by
    rw [hstream, (run_frames between_start frames).2]
    exact invalid_not_mem frames
  rw [Decoder.marks_append, Decoder.marks_append] at hvalid
  simp only [List.mem_append, not_or] at hvalid
  have hdec := feedAll_state decodes_start rfl hsizes hreach hnext herr
  rw [stopsInside_iff hstream, payloadIn, ← marks_piece hstream]
  have hfeed := feed_decodes hdec hnext hvalid.1.2 hsize
  set d := ({} : Decoder).after chunks.flatten
  constructor
  · rintro hdone ⟨i, hi, m, hm, hstops⟩
    have hmem := List.mem_of_getElem? hm
    rcases hfeed with ⟨-, -, hall⟩ | ⟨used, r', out, hrun, hcons, -⟩
    · rw [hall m hmem] at hstops
      simp [Mark.Stops] at hstops
    · have hbuf := (hdone r' out hrun).consumed
      have hused : used = chunk := by
        rw [← hcons.split, hbuf, List.append_nil]
      subst hused
      -- a byte that stops is the last one consumed
      apply hcons.before m _ hstops
      apply List.mem_of_getElem? (i := i)
      rw [List.getElem?_dropLast, if_pos (by rw [Decoder.length_marks]; omega)]
      exact hm
  · intro hnone r' out hrun
    rcases hfeed with ⟨habort, -⟩ | ⟨used, r₁, out₁, hrun₁, hcons, hstop⟩
    · rw [hrun] at habort
      cases habort
    rw [hrun] at hrun₁
    cases hrun₁
    have hsplit := congrArg List.length hcons.split
    rw [List.length_append] at hsplit
    have hbuf : r'.buffer = [] := by
      by_contra hne
      obtain ⟨m, hm, hstops⟩ := hstop hne
      have hpos : 0 < r'.buffer.length := List.length_pos_iff.mpr hne
      rw [List.getLast?_eq_getElem?, Decoder.length_marks] at hm
      have hlt : used.length - 1 < (d.marks used).length := by
        by_contra hge
        rw [List.getElem?_eq_none (by omega)] at hm
        cases hm
      rw [Decoder.length_marks] at hlt
      refine hnone ⟨used.length - 1, by omega, m, ?_, hstops⟩
      rw [← hcons.split, Decoder.marks_append,
        List.getElem?_append_left (by rw [Decoder.length_marks]; omega)]
      exact hm
    have hused : used = chunk := by
      rw [← hcons.split, hbuf, List.append_nil]
    refine ⟨hbuf, ?_, fun data => ⟨{ r' with buffer := data }, by simp [WebsocketRead.next, hbuf]⟩⟩
    rw [hcons.plain, hused]

/-- An unmasked binary frame. -/
def binaryFrame (payload : List UInt8) (h : payload.length < 2 ^ 31) : Frame where
  fin := true
  opCode := OpCodeType.BINARY_FRAME
  payload := payload
  key := none
  valid := by simp [OpCodeType.Valid, OpCodeType.BINARY_FRAME]
  short := h

def emptyFrame : Frame := binaryFrame [] (by decide)

def byteFrame : Frame := binaryFrame [7] (by decide)

/-- A frame without payload at the end of the chunk does no harm. -/
theorem not_stopsInside_last :
    ¬ StopsInside [byteFrame, emptyFrame] 0 (frameBytes [byteFrame, emptyFrame]).length := by
  rintro ⟨before, z, after, hframes, hstops, -, hend⟩
  cases before with
  | nil =>
      cases hframes
      revert hstops
      decide
  | cons f before =>
      cases before with
      | nil =>
          cases hframes
          revert hend
          decide
      | cons g before => simp at hframes

theorem first_empty_span_byte :
    ∃ r', WebsocketRead.feed {} (frameBytes [byteFrame, emptyFrame]) = .ok (r', [7]) ∧
      ChunkDone [7] r' [7] := by
  have hrun : WebsocketRead.feed {} (frameBytes [byteFrame, emptyFrame]) =
      .ok ({ payloadRead := 0 }, [7]) := by decide +kernel
  refine ⟨_, hrun, ?_⟩
  exact (first_empty_span_iff [byteFrame, emptyFrame] [] (frameBytes [byteFrame, emptyFrame]) []
    (by simp) (by simp) (by decide) {} [] rfl rfl rfl).mpr not_stopsInside_last _ _ hrun

/-- After a frame without payload the frame behind it stays in the buffer, and
the next call of `Next` fails its `CHECK`. -/
theorem empty_frame_hides_rest :
    payloadIn [emptyFrame, byteFrame] 0 (frameBytes [emptyFrame, byteFrame]).length = [7] ∧
      ∃ r', WebsocketRead.feed {} (frameBytes [emptyFrame, byteFrame]) = .ok (r', []) ∧
        r'.error = false ∧ r'.buffer = frameBytes [byteFrame] ∧
        r'.next [] = .error .checkFailed := by
  have hrun : WebsocketRead.feed {} (frameBytes [emptyFrame, byteFrame]) =
      .ok ({ buffer := frameBytes [byteFrame] }, []) := by decide +kernel
  exact ⟨by decide, _, hrun, rfl, rfl, rfl⟩

/-! ## §4  Only binary payload -/

/-- The frames of a stream in which other frames are interleaved with binary ones. -/
def Frame.Interleaved (f : Frame) : Prop :=
  f.opCode ∈ [OpCodeType.TEXT_FRAME, OpCodeType.BINARY_FRAME, OpCodeType.PING, OpCodeType.PONG]

theorem Frame.Interleaved.not_close {f : Frame} (h : f.Interleaved) :
    f.opCode ≠ OpCodeType.CLOSE := by
  intro hclose
  rw [Frame.Interleaved, hclose] at h
  revert h
  decide

theorem close_not_mem {frames : List Frame} (h : ∀ f ∈ frames, f.Interleaved) :
    Mark.close ∉ frameMarks frames := by
  intro hmem
  obtain ⟨f, hf, hmark⟩ := List.mem_flatMap.mp hmem
  simp only [Frame.marks, List.mem_append, List.mem_replicate, List.mem_map, List.mem_singleton,
    Frame.lastMark, if_neg (h f hf).not_close] at hmark
  split_ifs at hmark <;> simp at hmark

theorem binaryPayloads_cons (f : Frame) (frames : List Frame) :
    binaryPayloads (f :: frames) =
      (if f.opCode = OpCodeType.BINARY_FRAME then f.payload else []) ++ binaryPayloads frames := by
  unfold binaryPayloads framePayloads
  by_cases hop : f.opCode = OpCodeType.BINARY_FRAME <;> simp [hop]

theorem length_binaryPayloads_le (frames : List Frame) :
    (binaryPayloads frames).length ≤ (framePayloads frames).length := by
  induction frames with
  | nil => exact le_rfl
  | cons f frames ih =>
      rw [binaryPayloads_cons, framePayloads, List.flatMap_cons, List.length_append,
        List.length_append]
      have : (if f.opCode = OpCodeType.BINARY_FRAME then f.payload else []).length ≤
          f.payload.length := by
        split_ifs <;> simp
      unfold framePayloads at ih
      omega

/-- When all payload is binary payload. -/
theorem framePayloads_eq_binary_iff (frames : List Frame) :
    framePayloads frames = binaryPayloads frames ↔
      ∀ f ∈ frames, f.opCode ≠ OpCodeType.BINARY_FRAME → f.payload = [] := by
  induction frames with
  | nil => simp [framePayloads, binaryPayloads]
  | cons f frames ih =>
      have hcons : framePayloads (f :: frames) = f.payload ++ framePayloads frames := rfl
      rw [hcons, binaryPayloads_cons, List.forall_mem_cons, ← ih]
      by_cases hop : f.opCode = OpCodeType.BINARY_FRAME
      · simp [hop]
      · rw [if_neg hop, List.nil_append]
        constructor
        · intro heq
          have hlen := congrArg List.length heq
          have hle := length_binaryPayloads_le frames
          rw [List.length_append] at hlen
          have hnil : f.payload = [] := List.eq_nil_of_length_eq_zero (by omega)
          rw [hnil, List.nil_append] at heq
          exact ⟨fun _ => hnil, heq⟩
        · rintro ⟨hnil, heq⟩
          rw [hnil hop, List.nil_append, heq]

theorem frameBytes_split (pre : List Frame) {z : Frame} (hz : z.payload = [])
    (post : List Frame) :
    frameBytes (pre ++ z :: post) = frameBytes pre ++ z.header ++ frameBytes post := by
  have hbody : z.body = [] := List.eq_nil_of_length_eq_zero (by rw [z.length_body, hz]; rfl)
  simp [frameBytes, Frame.encode, hbody]

theorem eq_nil_of_frameBytes {frames : List Frame} (h : (frameBytes frames).length = 0) :
    frames = [] := by
  cases frames with
  | nil => rfl
  | cons f frames =>
      have hpos := f.headerSize_pos
      simp only [frameBytes, List.flatMap_cons, List.length_append, Frame.encode] at h
      omega

/-- Consuming ends early only behind the header of a frame without payload. -/
theorem stopped_split {frames : List Frame} (hframes : ∀ f ∈ frames, f.Interleaved)
    {used rest : List UInt8} (hsplit : frameBytes frames = used ++ rest)
    (hlast : ∃ m ∈ (({} : Decoder).marks used).getLast?, m.Stops) :
    ∃ pre z post, frames = pre ++ z :: post ∧ z.payload = [] ∧ rest = frameBytes post ∧
      plain (({} : Decoder).marks used) = framePayloads pre := by
  obtain ⟨m, hm, hstops⟩ := hlast
  have hpos : 0 < (({} : Decoder).marks used).length :=
    List.length_pos_iff.mpr (List.ne_nil_of_mem (List.mem_of_getLast? hm))
  rw [Decoder.length_marks] at hpos
  rw [List.getLast?_eq_getElem?, Decoder.length_marks] at hm
  have hmark : m ∈ (frameMarks frames)[used.length - 1]? := by
    rw [← (run_frames between_start frames).2, hsplit, Decoder.marks_append,
      List.getElem?_append_left (by rw [Decoder.length_marks]; omega)]
    exact hm
  obtain ⟨pre, z, post, rfl, hz, hlen⟩ := (stops_frameMarks_iff _ _).mp ⟨m, hmark, hstops⟩
  have hop := hframes z (by simp)
  have hnil : z.payload = [] := hz.resolve_right hop.not_close
  rw [frameBytes_split pre hnil] at hsplit
  obtain ⟨hused, hrest⟩ := List.append_inj hsplit (by rw [List.length_append]; omega)
  refine ⟨pre, z, post, rfl, hnil, hrest.symm, ?_⟩
  obtain ⟨hbetween, hmarks⟩ := run_frames between_start pre
  rw [← hused, Decoder.marks_append, hmarks, (Frame.run_header hbetween z).2, plain_append,
    plain_append, plain_frameMarks, plain_headers, Frame.lastMark, if_neg hop.not_close,
    if_pos hnil]
  simp [plain, Mark.payload?]

/-- The frames behind the first one without payload whose header ends among the last `n` bytes
of the stream, before the very last of them. -/
def hidden (n : Nat) : List Frame → List Frame
  | [] => []
  | f :: frames =>
      if f.payload = [] ∧ (frameBytes frames).length < n then frames else hidden n frames

/-- The frames up to that one, or all. -/
def seen (n : Nat) : List Frame → List Frame
  | [] => []
  | f :: frames =>
      f :: if f.payload = [] ∧ (frameBytes frames).length < n then [] else seen n frames

theorem seen_append_hidden (n : Nat) (frames : List Frame) :
    seen n frames ++ hidden n frames = frames := by
  induction frames with
  | nil => rfl
  | cons f frames ih =>
      unfold seen hidden
      split_ifs
      · rfl
      · rw [List.cons_append, ih]

theorem hidden_eq_nil {n : Nat} {frames : List Frame}
    (h : ∀ pre z post, frames = pre ++ z :: post → z.payload = [] →
      (frameBytes post).length < n → post = []) : hidden n frames = [] := by
  induction frames with
  | nil => rfl
  | cons f frames ih =>
      unfold hidden
      split_ifs with hf
      · exact h [] f frames rfl hf.1 hf.2
      · apply ih
        rintro pre z post rfl
        exact h (f :: pre) z post rfl

/-- What is hidden, when nothing in front of it is. -/
theorem hidden_eq {n : Nat} {pre : List Frame} {z : Frame} {post : List Frame}
    (hz : z.payload = []) (hn : (frameBytes post).length < n)
    (hfirst : ∀ pre' z' post', pre = pre' ++ z' :: post' → z'.payload = [] →
      n ≤ (frameBytes (post' ++ z :: post)).length) : hidden n (pre ++ z :: post) = post := by
  induction pre with
  | nil => exact if_pos ⟨hz, hn⟩
  | cons f pre ih =>
      rw [List.cons_append, hidden, if_neg]
      · apply ih
        rintro pre' z' post' rfl
        exact hfirst (f :: pre') z' post' rfl
      · rintro ⟨hf, hlt⟩
        exact absurd (hfirst [] f pre rfl hf) (Nat.not_le.mpr hlt)

theorem seen_eq {n : Nat} {pre : List Frame} {z : Frame} {post : List Frame}
    (h : hidden n (pre ++ z :: post) = post) : seen n (pre ++ z :: post) = pre ++ [z] := by
  have hsplit := seen_append_hidden n (pre ++ z :: post)
  rw [h] at hsplit
  exact List.append_cancel_right (hsplit.trans (List.append_cons ..))

theorem framePayloads_singleton (f : Frame) : framePayloads [f] = f.payload :=
  List.flatMap_singleton ..

theorem framePayloads_append (frames frames' : List Frame) :
    framePayloads (frames ++ frames') = framePayloads frames ++ framePayloads frames' :=
  List.flatMap_append

theorem binaryPayloads_append (frames frames' : List Frame) :
    binaryPayloads (frames ++ frames') = binaryPayloads frames ++ binaryPayloads frames' := by
  rw [binaryPayloads, List.filter_append, framePayloads_append]
  rfl

/-- **What is returned** of a stream of frames: the payload of the frames that are not hidden in
the last chunk. -/
theorem feedAll_seen {frames : List Frame} (hframes : ∀ f ∈ frames, f.Interleaved)
    {chunks : List (List UInt8)} {last : List UInt8}
    (hflat : chunks.flatten ++ last = frameBytes frames)
    (hsize : ∀ c ∈ chunks, c.length < 2 ^ 31) (hlast : last.length < 2 ^ 31)
    (hcheck : WebsocketRead.feedAll {} (chunks ++ [last]) ≠ .error .checkFailed) :
    ∃ r, WebsocketRead.feedAll {} (chunks ++ [last]) =
      .ok (r, framePayloads (seen last.length frames)) := by
  obtain ⟨-, hmarks⟩ := run_frames between_start frames
  obtain ⟨used, rest, r, hsplit, hrun, hbefore, hend⟩ := feedAll_last decodes_start rfl
    (by rw [hflat, hmarks]; exact invalid_not_mem frames)
    (by rw [hflat, hmarks]; exact close_not_mem hframes) hsize hlast hcheck
  refine ⟨r, ?_⟩
  rw [hrun]
  have hlength := congrArg List.length hsplit
  rw [List.length_append] at hlength
  -- no header without payload ends before the last byte that was consumed
  have hbound : ∀ pre z post, frames = pre ++ z :: post → z.payload = [] →
      (frameBytes post).length < last.length → (frameBytes post).length ≤ rest.length := by
    intro pre z post hpre hz hpost
    by_contra hlong
    have htotal := congrArg List.length hflat
    rw [hpre, frameBytes_split pre hz] at htotal
    simp only [List.length_append] at htotal
    have hinside : StopsInside frames chunks.flatten.length used.length :=
      ⟨pre, z, post, hpre, .inl hz, by omega, by omega⟩
    rw [← hsplit, ← List.append_assoc] at hflat
    obtain ⟨i, hi, m, hm, hstops⟩ := (stopsInside_iff hflat).mp hinside
    apply hbefore m _ hstops
    apply List.mem_of_getElem? (i := i)
    rw [List.getElem?_dropLast, if_pos (by rw [Decoder.length_marks]; omega)]
    exact hm
  by_cases hrest : rest = []
  · have hnone : hidden last.length frames = [] := by
      apply hidden_eq_nil
      intro pre z post hpre hz hpost
      have hle := hbound pre z post hpre hz hpost
      rw [hrest, List.length_nil] at hle
      exact eq_nil_of_frameBytes (Nat.le_zero.mp hle)
    have hseen := seen_append_hidden last.length frames
    rw [hnone, List.append_nil] at hseen
    rw [hrest, List.append_nil] at hsplit
    rw [hseen, hsplit, hflat, hmarks, plain_frameMarks]
  · obtain ⟨m, hm, hstops⟩ := hend hrest
    have hmarked : ∃ m ∈ (({} : Decoder).marks (chunks.flatten ++ used)).getLast?, m.Stops := by
      refine ⟨m, ?_, hstops⟩
      rw [Decoder.marks_append, List.getLast?_append, Option.mem_def.mp hm]
      rfl
    have hwhole : frameBytes frames = chunks.flatten ++ used ++ rest := by
      rw [← hflat, ← hsplit, List.append_assoc]
    obtain ⟨pre, z, post, rfl, hz, rfl, hplain⟩ := stopped_split hframes hwhole hmarked
    have hused : 0 < used.length := by
      rw [← Decoder.length_marks (({} : Decoder).after chunks.flatten) used]
      exact List.length_pos_iff.mpr (List.ne_nil_of_mem (List.mem_of_getLast? hm))
    have hhidden : hidden last.length (pre ++ z :: post) = post := by
      apply hidden_eq hz (by omega)
      intro pre' z' post' hpre hz'
      by_contra hlt
      have hle := hbound pre' z' (post' ++ z :: post) (by rw [hpre]; simp) hz' (by omega)
      have hpos := z.headerSize_pos
      rw [frameBytes_split post' hz] at hle
      simp only [List.length_append] at hle
      omega
    rw [hplain, seen_eq hhidden, framePayloads_append, framePayloads_singleton, hz,
      List.append_nil]

/-- The payload of the frames that are seen is that of all binary frames: none of the others
carries any, and no binary payload is hidden; or else the payload of the others happens to make
up, byte for byte, for what is hidden. -/
def OnlyBinary (n : Nat) (frames : List Frame) : Prop :=
  ((∀ f ∈ seen n frames, f.opCode ≠ OpCodeType.BINARY_FRAME → f.payload = []) ∧
      binaryPayloads (hidden n frames) = []) ∨
    (binaryPayloads (hidden n frames) ≠ [] ∧ framePayloads (seen n frames) =
      binaryPayloads (seen n frames) ++ binaryPayloads (hidden n frames))

theorem onlyBinary_iff (n : Nat) (frames : List Frame) :
    OnlyBinary n frames ↔ framePayloads (seen n frames) = binaryPayloads frames := by
  have hall : binaryPayloads frames =
      binaryPayloads (seen n frames) ++ binaryPayloads (hidden n frames) := by
    rw [← binaryPayloads_append, seen_append_hidden]
  rw [OnlyBinary, ← framePayloads_eq_binary_iff, hall]
  by_cases hnone : binaryPayloads (hidden n frames) = []
  · simp [hnone]
  · simp [hnone]

/-- **Only binary payload is returned** of a stream, in a chunking on which no `CHECK` fails:
exactly when the frames that are seen in it are such. -/
theorem only_binary_payload_iff (frames : List Frame) (hframes : ∀ f ∈ frames, f.Interleaved)
    (chunks : List (List UInt8)) (hflat : chunks.flatten = frameBytes frames)
    (hsize : ∀ c ∈ chunks, c.length < 2 ^ 31)
    (hcheck : WebsocketRead.feedAll {} chunks ≠ .error .checkFailed) :
    (∃ r, WebsocketRead.feedAll {} chunks = .ok (r, binaryPayloads frames)) ↔
      OnlyBinary (chunks.getLastD []).length frames := by
  rw [onlyBinary_iff]
  rcases List.eq_nil_or_concat chunks with rfl | ⟨chunks, last, rfl⟩
  · have hnone : frames = [] := eq_nil_of_frameBytes (by rw [← hflat]; rfl)
    subst hnone
    exact iff_of_true ⟨{}, rfl⟩ rfl
  · rw [List.concat_eq_append] at hflat hsize hcheck ⊢
    rw [List.flatten_append, List.flatten_singleton] at hflat
    rw [List.forall_mem_append, List.forall_mem_singleton] at hsize
    obtain ⟨r, hrun⟩ := feedAll_seen hframes hflat hsize.1 hsize.2 hcheck
    rw [hrun, List.getLastD_concat]
    constructor
    · rintro ⟨r', hsame⟩
      rw [Except.ok.injEq, Prod.mk.injEq] at hsame
      exact hsame.2
    · intro hsame
      exact ⟨r, by rw [hsame]⟩

/-- An unmasked ping. -/
def pingFrame (payload : List UInt8) (h : payload.length < 2 ^ 31) : Frame where
  fin := true
  opCode := OpCodeType.PING
  payload := payload
  key := none
  valid := by simp [OpCodeType.Valid, OpCodeType.PING]
  short := h

def barePing : Frame := pingFrame [] (by decide)

theorem only_binary_payload_bare :
    ∃ r, WebsocketRead.feedAll {} [frameBytes [byteFrame], frameBytes [barePing]] =
      .ok (r, [7]) := by
  refine (only_binary_payload_iff [byteFrame, barePing] ?_ _ ?_ ?_ ?_).mpr (.inl ⟨?_, ?_⟩)
  · intro f hf
    simp only [List.mem_cons, List.not_mem_nil, or_false] at hf
    rcases hf with rfl | rfl <;>
      simp [Frame.Interleaved, byteFrame, binaryFrame, barePing, pingFrame]
  · decide
  · decide
  · decide +kernel
  · intro f hf hop
    have hseen : f ∈ [byteFrame, barePing] := hf
    simp only [List.mem_cons, List.not_mem_nil, or_false] at hseen
    rcases hseen with rfl | rfl
    · exact absurd rfl hop
    · rfl
  · rfl

/-- The payload of a ping is returned in front of that of the binary frame. -/
theorem ping_payload_returned :
    binaryPayloads [pingFrame [1] (by decide), byteFrame] = [7] ∧
      ∃ r, WebsocketRead.feedAll {} [frameBytes [pingFrame [1] (by decide), byteFrame]] =
        .ok (r, [1, 7]) := by
  have hrun : WebsocketRead.feedAll {} [frameBytes [pingFrame [1] (by decide), byteFrame]] =
      .ok ({ payloadRead := 1 }, [1, 7]) := by decide +kernel
  exact ⟨by decide, _, hrun⟩

end BeyondProtocol.Quic
