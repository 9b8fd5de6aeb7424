import BeyondProtocol.Quic.WebSocketRead

/-!
# Every chunking of a frame stream

`At` places the reader at a byte position of the encoded stream: inside a
header, with exactly the header bytes before that position stored, or inside a
payload, with the mask phase of that position. One call of `Buffer` moves it
forward (`getBuffer_at`), so draining a chunk ends at the chunk's end.

The one way to stop is the size test made while a header is incomplete: it
counts the bytes of the current chunk twice when earlier header bytes are
stored. `CutsSafe` says, on the positions of the chunk boundaries alone, that
this never reaches the capacity of the header buffer.
-/

namespace BeyondProtocol.Quic

/-! ## §1  Positions -/

@[simp] theorem encodeAll_nil : encodeAll [] = [] := rfl

@[simp] theorem payloads_nil : payloads [] = [] := rfl

@[simp] theorem encodeAll_cons (f : BinaryFrame) (fs : List BinaryFrame) :
    encodeAll (f :: fs) = f.header ++ (f.body 0 ++ encodeAll fs) := by
  simp [encodeAll, BinaryFrame.encode]

@[simp] theorem encodeAll_append (fs gs : List BinaryFrame) :
    encodeAll (fs ++ gs) = encodeAll fs ++ encodeAll gs := by
  simp [encodeAll]

@[simp] theorem payloads_cons (f : BinaryFrame) (fs : List BinaryFrame) :
    payloads (f :: fs) = f.payload ++ payloads fs := by
  simp [payloads]

namespace BinaryFrame

@[simp] theorem length_body (f : BinaryFrame) (j : Nat) :
    (f.body j).length = f.payload.length - j := by
  unfold body
  split <;> simp

theorem body_drop (f : BinaryFrame) (j n : Nat) : (f.body j).drop n = f.body (j + n) := by
  unfold body
  split
  · rw [mask_drop, List.drop_drop]
  · rw [List.drop_drop]

theorem unmask_body_take (f : BinaryFrame) (j n : Nat) :
    (if f.useMask then mask f.maskKey j ((f.body j).take n) else (f.body j).take n) =
      (f.payload.drop j).take n := by
  unfold body
  by_cases h : f.useMask
  · simp only [h, if_true]
    rw [mask_take, mask_mask]
  · simp [h]

theorem length_payload_pos (f : BinaryFrame) : 0 < f.payload.length :=
  List.length_pos_iff.mpr f.nonempty

theorem headerSize_le (f : BinaryFrame) : f.header.length ≤ 14 := by
  rw [header, length_headerBytes]
  split_ifs <;> omega

theorem headerSize_pos (f : BinaryFrame) : 2 ≤ f.header.length := by
  rw [header, length_headerBytes]
  omega

/-- What the parser makes of the header of `f`. -/
def parsed (f : BinaryFrame) : WebSocketHeader where
  fin := true
  rsv := 0
  mask := f.useMask
  opCode := OpCodeType.BINARY_FRAME
  payloadLength := f.payload.length
  maskingKey := if f.useMask then f.maskKey else .zero
  headerSize := f.header.length

theorem wsParseHeader_header (f : BinaryFrame) (rest : List UInt8) :
    wsParseHeader (f.header ++ rest) = .ok (.ok f.parsed) :=
  wsParseHeader_headerBytes (by simp [OpCodeType.Valid, OpCodeType.BINARY_FRAME]) _ _
    (lt_trans f.short (by norm_num)) rest

end BinaryFrame

/-- Start and size of every header of the encoded stream. -/
def headerSpans : Nat → List BinaryFrame → List (Nat × Nat)
  | _, [] => []
  | o, f :: fs => (o, f.header.length) :: headerSpans (o + f.encode.length) fs

/-- Start and size of every chunk. -/
def chunkSpans : Nat → List (List UInt8) → List (Nat × Nat)
  | _, [] => []
  | a, c :: cs => (a, c.length) :: chunkSpans (a + c.length) cs

/-- A chunk that lies strictly inside a header, `a - o` bytes after its start,
passes the size test of the reader. -/
def CutSafe (header chunk : Nat × Nat) : Prop :=
  header.1 < chunk.1 → chunk.1 + chunk.2 < header.1 + header.2 →
    (chunk.1 - header.1) + 2 * chunk.2 < kHeaderCapacity

instance (h c : Nat × Nat) : Decidable (CutSafe h c) := by
  unfold CutSafe
  infer_instance

def CutsSafe (fs : List BinaryFrame) (chunks : List (List UInt8)) : Prop :=
  ∀ h ∈ headerSpans 0 fs, ∀ c ∈ chunkSpans 0 chunks, CutSafe h c

instance (fs : List BinaryFrame) (chunks : List (List UInt8)) : Decidable (CutsSafe fs chunks) := by
  unfold CutsSafe
  infer_instance

theorem headerSpans_append (o : Nat) (fs gs : List BinaryFrame) :
    headerSpans o (fs ++ gs) =
      headerSpans o fs ++ headerSpans (o + (encodeAll fs).length) gs := by
  induction fs generalizing o with
  | nil => simp [headerSpans, encodeAll]
  | cons f fs ih =>
      simp only [List.cons_append, headerSpans, ih, encodeAll_cons, List.length_append,
        BinaryFrame.encode]
      rw [Nat.add_assoc, Nat.add_assoc]

/-- Headers end before the stream they belong to. -/
theorem headerSpans_end {o : Nat} {fs : List BinaryFrame} {h : Nat × Nat}
    (hmem : h ∈ headerSpans o fs) : o ≤ h.1 ∧ h.1 + h.2 ≤ o + (encodeAll fs).length := by
  induction fs generalizing o with
  | nil => simp [headerSpans] at hmem
  | cons f fs ih =>
      simp only [headerSpans, List.mem_cons] at hmem
      rcases hmem with rfl | hmem
      · simp
      · have := ih hmem
        simp only [BinaryFrame.encode, encodeAll_cons, List.length_append] at this ⊢
        omega

/-- The headers a chunk starting at the current position can lie strictly
inside: only the one being read. -/
theorem cutSafe_iff_current {fs done gs : List BinaryFrame} {f : BinaryFrame} {a s k : Nat}
    (hfs : fs = done ++ f :: gs) (ha : a = (encodeAll done).length + k)
    (hk : k < f.encode.length) :
    (∀ h ∈ headerSpans 0 fs, CutSafe h (a, s)) ↔
      (0 < k → k + s < f.header.length → k + 2 * s < kHeaderCapacity) := by
  subst hfs ha
  have hcur : ((encodeAll done).length, f.header.length) ∈ headerSpans 0 (done ++ f :: gs) := by
    rw [headerSpans_append]
    simp [headerSpans]
  constructor
  · intro h hk0 hks
    have := h _ hcur
    simp only [CutSafe] at this
    have := this (by omega) (by omega)
    omega
  · intro h p hp
    rw [headerSpans_append, List.mem_append] at hp
    intro h₁ h₂
    simp only at h₁ h₂ ⊢
    rcases hp with hp | hp
    · have := (headerSpans_end hp).2
      omega
    · simp only [headerSpans, List.mem_cons] at hp
      rcases hp with rfl | hp
      · simp only at h₁ h₂ ⊢
        have := h (by omega) (by omega)
        omega
      · have := (headerSpans_end hp).1
        omega

/-! ## §2  The reader at a position -/

/-- The reader has taken `j` bytes of the payload of `f`. -/
structure InPayload (done : List BinaryFrame) (f : BinaryFrame) (j : Nat) (a : Nat)
    (r : WebsocketRead) : Prop where
  pos : a = (encodeAll done).length + f.header.length + j
  inside : j < f.payload.length
  remaining : r.payloadRemaining = (f.payload.length : Int) - j
  read : r.payloadRead = j
  noHeader : r.wsHeader = []
  mask : r.wsMask = f.useMask
  key : r.maskKey = if f.useMask then f.maskKey else .zero
  noError : r.error = false

/-- The reader stands `k` bytes into the next header, with these bytes stored. -/
structure InHeader (done fs : List BinaryFrame) (k : Nat) (a : Nat) (r : WebsocketRead) :
    Prop where
  pos : a = (encodeAll done).length + k
  remaining : r.payloadRemaining = 0
  stored : r.wsHeader = (encodeAll fs).take k
  inside : 0 < k → ∃ f gs, fs = f :: gs ∧ k < f.header.length
  noError : r.error = false

theorem InHeader.offset_eq_zero {done fs : List BinaryFrame} {k a : Nat} {r : WebsocketRead}
    (h : InHeader done fs k a r) (hstored : r.wsHeader = []) : k = 0 := by
  by_contra hk
  obtain ⟨f, gs, rfl, hkH⟩ := h.inside (by omega)
  have := congrArg List.length h.stored
  rw [hstored, List.length_take, encodeAll_cons, List.length_append, List.length_nil] at this
  omega

/-- `At frames a r future plain`: the reader is at byte `a` of the encoding of
`frames`; `future` are the bytes from there on, `plain` the payload bytes it
still has to return. -/
inductive At (frames : List BinaryFrame) (a : Nat) (r : WebsocketRead) :
    List UInt8 → List UInt8 → Prop where
  | payload {done gs : List BinaryFrame} {f : BinaryFrame} {j : Nat}
      (hframes : frames = done ++ f :: gs) (h : InPayload done f j a r) :
      At frames a r (f.body j ++ encodeAll gs) (f.payload.drop j ++ payloads gs)
  | header (done : List BinaryFrame) {fs : List BinaryFrame} {k : Nat}
      (hframes : frames = done ++ fs) (h : InHeader done fs k a r) :
      At frames a r ((encodeAll fs).drop k) (payloads fs)

theorem take_drop_of_append_eq {α : Type} {b t x y : List α} {n : Nat} (h : b ++ t = x ++ y)
    (hb : n ≤ b.length) (hx : n ≤ x.length) :
    b.take n = x.take n ∧ b.drop n ++ t = x.drop n ++ y := by
  constructor
  · have := congrArg (List.take n) h
    rwa [List.take_append_of_le_length hb, List.take_append_of_le_length hx] at this
  · have := congrArg (List.drop n) h
    rwa [List.drop_append_of_le_length hb, List.drop_append_of_le_length hx] at this

/-- What one call of `Buffer` (or `NextBuffer`) achieves from a position. -/
def Advances (frames : List BinaryFrame) (a : Nat) (r : WebsocketRead) (t plain : List UInt8)
    (result : Except Fault (WebsocketRead × List UInt8)) : Prop :=
  ∃ (r' : WebsocketRead) (out : List UInt8) (n : Nat) (plain' : List UInt8),
    result = .ok (r', out) ∧ n + r'.buffer.length = r.buffer.length ∧
      plain = out ++ plain' ∧ At frames (a + n) r' (r'.buffer ++ t) plain' ∧
      (r'.buffer ≠ [] → out ≠ [] ∧ r'.wsHeader = []) ∧ (out ≠ [] → 0 < n)

theorem nextBuffer_at {frames done gs : List BinaryFrame} {f : BinaryFrame} {j a : Nat}
    {r : WebsocketRead} {t : List UInt8} (hframes : frames = done ++ f :: gs)
    (h : InPayload done f j a r) (hfuture : r.buffer ++ t = f.body j ++ encodeAll gs)
    (hsize : r.buffer.length < 2 ^ 31) :
    Advances frames a r t (f.payload.drop j ++ payloads gs) r.nextBuffer := by
  have hin := h.inside
  set n := min r.buffer.length (f.payload.length - j) with hn
  have hread : min (toInt32 r.buffer.length) r.payloadRemaining = (n : Int) := by
    rw [toInt32_of_lt hsize, h.remaining]
    omega
  obtain ⟨htake, hdrop⟩ := take_drop_of_append_eq (n := n) hfuture (by omega) (by simp; omega)
  have hout : (if r.wsMask then mask r.maskKey r.payloadRead (r.buffer.take n)
      else r.buffer.take n) = (f.payload.drop j).take n := by
    rw [← f.unmask_body_take j n, h.mask, h.read, htake, h.key]
    cases f.useMask <;> rfl
  refine ⟨{ r with
      buffer := r.buffer.drop n
      payloadRead := r.payloadRead + n
      payloadRemaining := r.payloadRemaining - n }, (f.payload.drop j).take n, n,
      (f.payload.drop j).drop n ++ payloads gs, ?_, ?_, ?_, ?_, ?_, ?_⟩
  · unfold WebsocketRead.nextBuffer
    simp only [hread, Int.toNat_natCast, hout]
    rw [if_neg (by omega)]
  · simp only [List.length_drop]
    omega
  · rw [← List.append_assoc, List.take_append_drop]
  · show At frames (a + n) _ (r.buffer.drop n ++ t) _
    rw [hdrop, f.body_drop, List.drop_drop]
    have hpos := h.pos
    have hrem := h.remaining
    by_cases hend : j + n < f.payload.length
    · exact .payload hframes
        { pos := by omega
          inside := hend
          remaining := by simp only [hrem]; omega
          read := by simp [h.read]
          noHeader := h.noHeader
          mask := h.mask
          key := h.key
          noError := h.noError }
    · -- the payload is complete: the reader stands before the next header
      have hfull : j + n = f.payload.length := by omega
      have hbody : f.body (j + n) = [] := List.eq_nil_of_length_eq_zero (by simp; omega)
      have hplain : f.payload.drop (j + n) = [] := List.drop_of_length_le (by omega)
      rw [hbody, hplain, List.nil_append, List.nil_append, ← List.drop_zero (l := encodeAll gs)]
      refine .header (done ++ [f]) (k := 0) (by simp [hframes])
        { pos := ?_
          remaining := by simp only [hrem]; omega
          stored := by simp [h.noHeader]
          inside := by simp
          noError := h.noError }
      simp only [encodeAll_append, encodeAll_cons, encodeAll_nil, List.length_append,
        List.length_nil, BinaryFrame.length_body]
      omega
  · -- bytes are left over only if the payload ended inside the chunk
    intro hne
    have hlt : n < r.buffer.length := by
      by_contra hge
      exact hne (List.drop_of_length_le (by omega))
    refine ⟨?_, h.noHeader⟩
    intro hnil
    have := congrArg List.length hnil
    simp at this
    omega
  · intro hne
    by_contra hz
    exact hne (by simp [show n = 0 by omega])

/-! ## §3  One call of `Buffer` -/

theorem Advances.shift {frames : List BinaryFrame} {a m : Nat} {r r₁ : WebsocketRead}
    {t plain : List UInt8} {result : Except Fault (WebsocketRead × List UInt8)}
    (h : Advances frames (a + m) r₁ t plain result)
    (hm : m + r₁.buffer.length = r.buffer.length) : Advances frames a r t plain result := by
  obtain ⟨r', out, n, plain', hres, hlen, hplain, hat, hbuf, hout⟩ := h
  refine ⟨r', out, m + n, plain', hres, by omega, hplain, ?_, hbuf, fun hne => ?_⟩
  · rwa [← Nat.add_assoc]
  · have := hout hne
    omega

theorem acceptHeader_parsed (r : WebsocketRead) (f : BinaryFrame) (k : Nat) :
    r.acceptHeader k f.parsed = WebsocketRead.nextBuffer { r with
      buffer := r.buffer.drop (f.header.length - k)
      wsMask := f.useMask
      maskKey := if f.useMask then f.maskKey else .zero
      wsHeader := []
      payloadRead := 0
      payloadRemaining := f.payload.length } := by
  have hopcode : OpCodeType.BINARY_FRAME ≠ OpCodeType.CLOSE := by decide
  unfold WebsocketRead.acceptHeader BinaryFrame.parsed
  rw [if_neg hopcode]
  simp only [toInt32_of_lt f.short]

/-- After a complete header the reader enters the payload. -/
theorem acceptHeader_at {frames done gs : List BinaryFrame} {f : BinaryFrame} {k a : Nat}
    {r : WebsocketRead} {t : List UInt8} (hframes : frames = done ++ f :: gs)
    (hpos : a = (encodeAll done).length + k) (hk : k < f.header.length)
    (hfuture : r.buffer ++ t = (encodeAll (f :: gs)).drop k)
    (hlong : f.header.length ≤ k + r.buffer.length) (hsize : r.buffer.length < 2 ^ 31)
    (herr : r.error = false) :
    Advances frames a r t (payloads (f :: gs)) (r.acceptHeader k f.parsed) := by
  rw [acceptHeader_parsed]
  have hrest : r.buffer.drop (f.header.length - k) ++ t = f.body 0 ++ encodeAll gs := by
    have := congrArg (List.drop (f.header.length - k)) hfuture
    rw [List.drop_append_of_le_length (by omega), List.drop_drop, encodeAll_cons] at this
    rw [this, show k + (f.header.length - k) = f.header.length by omega, List.drop_left]
  have hadv := nextBuffer_at (a := a + (f.header.length - k))
    (r := { r with
      buffer := r.buffer.drop (f.header.length - k)
      wsMask := f.useMask
      maskKey := if f.useMask then f.maskKey else .zero
      wsHeader := []
      payloadRead := 0
      payloadRemaining := f.payload.length }) (j := 0) (t := t) hframes
    { pos := by omega
      inside := f.length_payload_pos
      remaining := by simp
      read := rfl
      noHeader := rfl
      mask := rfl
      key := rfl
      noError := herr } hrest (by simp; omega)
  have hplain : f.payload.drop 0 ++ payloads gs = payloads (f :: gs) := by simp
  rw [hplain] at hadv
  exact hadv.shift (by simp; omega)

theorem take_eq_of_append_eq {α : Type} {b t x y : List α} (h : b ++ t = x ++ y)
    (hle : b.length ≤ x.length) : b = x.take b.length := by
  have := (take_drop_of_append_eq h le_rfl hle).1
  rwa [List.take_length] at this

theorem append_of_append_eq {α : Type} {b t x y : List α} (h : b ++ t = x ++ y)
    (hle : x.length ≤ b.length) : b = x ++ b.drop x.length := by
  have := (take_drop_of_append_eq h hle le_rfl).1
  rw [List.take_length] at this
  conv_lhs => rw [← List.take_append_drop x.length b, this]

/-- `Buffer` at a header of which nothing is stored yet. -/
theorem getBuffer_fresh {frames done fs : List BinaryFrame} {a : Nat} {r : WebsocketRead}
    {t : List UInt8} (hframes : frames = done ++ fs) (h : InHeader done fs 0 a r)
    (hfuture : r.buffer ++ t = encodeAll fs) (hne : r.buffer ≠ [])
    (hsize : r.buffer.length < 2 ^ 31) :
    Advances frames a r t (payloads fs) r.getBuffer := by
  have hstored : r.wsHeader = [] := by simpa using h.stored
  have hjoin : r.joinHeader = .ok r := by simp [WebsocketRead.joinHeader, hstored]
  have hsrc : (if r.wsHeader.length > 0 then r.wsHeader else r.buffer) = r.buffer := by
    simp [hstored]
  cases fs with
  | nil => simp at hfuture; exact absurd hfuture.1 hne
  | cons f gs =>
      rw [encodeAll_cons] at hfuture
      by_cases hlong : f.header.length ≤ r.buffer.length
      · have hb := append_of_append_eq hfuture hlong
        rw [getBuffer_of_parse (.ok f.parsed) hne h.remaining hjoin
          (by rw [hsrc, hb, f.wsParseHeader_header])]
        simp only [hstored, List.length_nil, WebsocketRead.handleStatus]
        exact acceptHeader_at hframes h.pos (by have := f.headerSize_pos; omega)
          (by simpa using hfuture) (by omega) hsize h.noError
      · have hle := f.headerSize_le
        have hb := take_eq_of_append_eq hfuture (by omega)
        have hlt : r.buffer.length < f.header.length := by omega
        rw [getBuffer_of_parse .notEnoughData hne h.remaining hjoin
          (by rw [hsrc, hb]; exact wsParseHeader_prefix _ _ _ _ _ hlt)]
        simp only [hstored, List.length_nil, WebsocketRead.handleStatus]
        rw [awaitHeader_fresh hstored (by simp only [kHeaderCapacity]; omega)]
        refine ⟨_, [], r.buffer.length, payloads (f :: gs), rfl, by simp, by simp, ?_,
          by simp, by simp⟩
        have hdrop : ([] : List UInt8) ++ t = (encodeAll (f :: gs)).drop r.buffer.length := by
          rw [encodeAll_cons, ← hfuture, List.drop_left, List.nil_append]
        rw [hdrop]
        exact .header _ hframes
          { pos := by rw [h.pos]; simp
            remaining := h.remaining
            stored := by rw [encodeAll_cons, ← hfuture, List.take_left]
            inside := fun _ => ⟨f, gs, rfl, hlt⟩
            noError := h.noError }

/-- Joining the stored header bytes with the chunk gives the header bytes up to
the end of the chunk, or up to the capacity of the header buffer. -/
theorem joinHeader_stored {done gs : List BinaryFrame} {f : BinaryFrame} {k a : Nat}
    {r : WebsocketRead} {t : List UInt8} (h : InHeader done (f :: gs) k a r)
    (hk : 0 < k) (hkH : k < f.header.length)
    (hfuture : r.buffer ++ t = (encodeAll (f :: gs)).drop k) :
    r.wsHeader.length = k ∧ r.joinHeader = .ok { r with
      wsHeader := (encodeAll (f :: gs)).take
        (k + min (kHeaderCapacity - k) r.buffer.length) } := by
  have hle := f.headerSize_le
  have hlen : r.wsHeader.length = k := by
    rw [h.stored, List.length_take, encodeAll_cons, List.length_append]
    omega
  refine ⟨hlen, ?_⟩
  set cpy := min (kHeaderCapacity - k) r.buffer.length with hcpy
  have hbytes : r.wsHeader ++ r.buffer.take cpy = (encodeAll (f :: gs)).take (k + cpy) := by
    rw [List.take_add, h.stored, ← hfuture, List.take_append_of_le_length (by omega)]
  unfold WebsocketRead.joinHeader WebsocketRead.copyPartialHeader
  simp only [hlen, ← hcpy, hbytes]
  rw [if_pos hk, if_neg (by simp only [kHeaderCapacity]; omega), if_neg]
  simp only [List.length_take, kHeaderCapacity] at hcpy ⊢
  omega

/-- `Buffer` at a header of which `k` bytes are stored. If the chunk ends inside
the header the size test decides; otherwise the header is completed. -/
theorem getBuffer_partial {frames done gs : List BinaryFrame} {f : BinaryFrame} {k a : Nat}
    {r : WebsocketRead} {t : List UInt8} (hframes : frames = done ++ f :: gs)
    (h : InHeader done (f :: gs) k a r) (hk : 0 < k) (hkH : k < f.header.length)
    (hfuture : r.buffer ++ t = (encodeAll (f :: gs)).drop k) (hne : r.buffer ≠ [])
    (hsize : r.buffer.length < 2 ^ 31) :
    (¬ (k + r.buffer.length < f.header.length → k + 2 * r.buffer.length < kHeaderCapacity) →
        r.getBuffer = .error .checkFailed) ∧
      ((k + r.buffer.length < f.header.length → k + 2 * r.buffer.length < kHeaderCapacity) →
        Advances frames a r t (payloads (f :: gs)) r.getBuffer) := by
  have hle := f.headerSize_le
  obtain ⟨hlen, hjoin⟩ := joinHeader_stored h hk hkH hfuture
  have hcap : kHeaderCapacity = 14 := rfl
  -- the copied bytes may reach beyond the header: the parser ignores them
  by_cases hlong : f.header.length ≤ k + r.buffer.length
  · refine ⟨fun hbad => absurd (fun hlt => absurd hlt (by omega)) hbad, fun _ => ?_⟩
    rw [getBuffer_of_parse (.ok f.parsed) hne h.remaining hjoin]
    · simp only [WebsocketRead.handleStatus, hlen]
      exact (acceptHeader_at hframes h.pos hkH hfuture hlong hsize h.noError).shift (m := 0)
        (by simp)
    · rw [if_pos (by omega), encodeAll_cons, List.take_append,
        List.take_of_length_le (by omega)]
      exact f.wsParseHeader_header _
  · have hmin : k + min (kHeaderCapacity - k) r.buffer.length = k + r.buffer.length := by omega
    rw [hmin] at hjoin
    have hlt : k + r.buffer.length < f.header.length := by omega
    have hcall := getBuffer_of_parse .notEnoughData hne h.remaining hjoin (by
      rw [if_pos (by omega), encodeAll_cons, List.take_append_of_le_length (by omega)]
      exact wsParseHeader_prefix _ _ _ _ _ hlt)
    have hstored : ((encodeAll (f :: gs)).take (k + r.buffer.length)).length =
        k + r.buffer.length := by
      rw [List.length_take, encodeAll_cons, List.length_append]
      omega
    simp only [WebsocketRead.handleStatus, hlen, WebsocketRead.awaitHeader,
      WebsocketRead.keepHeader, hstored] at hcall
    rw [if_neg (by omega : ¬ k + r.buffer.length = 0), Framework.ok_bind] at hcall
    -- the stored bytes already include the chunk when its size is tested again
    constructor
    · intro hbad
      rw [hcall, if_pos (by omega)]
    · intro hok
      have := hok hlt
      rw [hcall, if_neg (by omega), if_neg (by rw [hstored, toInt32_of_lt hsize]; push_cast; omega)]
      refine ⟨_, [], r.buffer.length, payloads (f :: gs), rfl, by simp, by simp, ?_, by simp,
        by simp⟩
      have hdrop : ([] : List UInt8) ++ t =
          (encodeAll (f :: gs)).drop (k + r.buffer.length) := by
        rw [← List.drop_drop, ← hfuture, List.drop_left, List.nil_append]
      rw [hdrop]
      exact .header _ hframes
        { pos := by rw [h.pos]; omega
          remaining := h.remaining
          stored := rfl
          inside := fun _ => ⟨f, gs, rfl, hlt⟩
          noError := h.noError }

/-! ## §4  One chunk -/

/-- No header byte is stored while payload or a whole header is being read, so
`Buffer` cannot stop there. -/
theorem getBuffer_at {frames : List BinaryFrame} {a : Nat} {r : WebsocketRead}
    {future t plain : List UInt8} (hat : At frames a r future plain)
    (hfuture : r.buffer ++ t = future) (hne : r.buffer ≠ []) (hstored : r.wsHeader = [])
    (hsize : r.buffer.length < 2 ^ 31) : Advances frames a r t plain r.getBuffer := by
  have hpos : 0 < r.buffer.length := List.length_pos_iff.mpr hne
  cases hat with
  | @payload done gs f j hframes h =>
      have hcall : r.getBuffer = r.nextBuffer := by
        have := h.inside
        unfold WebsocketRead.getBuffer
        rw [if_neg (by omega), if_pos (by rw [h.remaining]; omega)]
      rw [hcall]
      exact nextBuffer_at hframes h hfuture hsize
  | @header done fs k hframes h =>
      obtain rfl := h.offset_eq_zero hstored
      exact getBuffer_fresh hframes h (by simpa using hfuture) hne hsize

/-- Draining returns payload up to the end of the chunk. -/
def Drained (frames : List BinaryFrame) (a : Nat) (r : WebsocketRead) (t plain : List UInt8)
    (result : Except Fault (WebsocketRead × List UInt8)) : Prop :=
  ∃ (r' : WebsocketRead) (out plain' : List UInt8), result = .ok (r', out) ∧
    r'.buffer = [] ∧ plain = out ++ plain' ∧ At frames (a + r.buffer.length) r' t plain'

theorem drain_succ {frames : List BinaryFrame} {fuel a : Nat} {r : WebsocketRead}
    {t plain : List UInt8} (hadv : Advances frames a r t plain r.getBuffer)
    (hrest : ∀ (a' : Nat) (r' : WebsocketRead) (plain' : List UInt8),
      At frames a' r' (r'.buffer ++ t) plain' → (r'.buffer ≠ [] → r'.wsHeader = []) →
      r'.buffer.length < r.buffer.length →
      Drained frames a' r' t plain' (WebsocketRead.drain fuel r')) :
    Drained frames a r t plain (WebsocketRead.drain (fuel + 1) r) := by
  obtain ⟨r', out, n, plain', hcall, hlen, hplain, hat, hbuf, hn⟩ := hadv
  by_cases hout : out = []
  · have hend : r'.buffer = [] := by
      by_contra h
      exact (hbuf h).1 hout
    refine ⟨r', [], plain', ?_, hend, by simpa [hout] using hplain, ?_⟩
    · simp [WebsocketRead.drain, hcall, hout]
    · rw [hend] at hat hlen
      simp only [List.length_nil, Nat.add_zero] at hlen
      simpa [hlen] using hat
  · have hpos := hn hout
    obtain ⟨r'', outs, plain'', hdrain, hend, hplain', hat'⟩ :=
      hrest _ r' plain' hat (fun h => (hbuf h).2) (by omega)
    refine ⟨r'', out ++ outs, plain'', ?_, hend, ?_, ?_⟩
    · simp [WebsocketRead.drain, hcall, hout, hdrain]
    · rw [hplain, hplain', List.append_assoc]
    · rwa [show a + r.buffer.length = a + n + r'.buffer.length by omega]

/-- The rest of a chunk is returned completely. -/
theorem drain_at {frames : List BinaryFrame} {t : List UInt8} (fuel : Nat) {a : Nat}
    {r : WebsocketRead} {plain : List UInt8} (hat : At frames a r (r.buffer ++ t) plain)
    (hstored : r.buffer ≠ [] → r.wsHeader = []) (hsize : r.buffer.length < 2 ^ 31)
    (hfuel : r.buffer.length < fuel) :
    Drained frames a r t plain (WebsocketRead.drain fuel r) := by
  induction fuel generalizing a r plain with
  | zero => omega
  | succ fuel ih =>
      by_cases hne : r.buffer = []
      · refine ⟨r, [], plain, ?_, hne, rfl, by simpa [hne] using hat⟩
        simp [WebsocketRead.drain, getBuffer_nil hne]
      · exact drain_succ (getBuffer_at hat rfl hne (hstored hne) hsize)
          (fun a' r' plain' hat' hstored' hlt => ih hat' hstored' (by omega) (by omega))

theorem At.setBuffer {frames : List BinaryFrame} {a : Nat} {r : WebsocketRead}
    {future plain : List UInt8} (hat : At frames a r future plain) (b : List UInt8) :
    At frames a { r with buffer := b } future plain := by
  cases hat with
  | payload hframes h =>
      exact .payload hframes
        ⟨h.pos, h.inside, h.remaining, h.read, h.noHeader, h.mask, h.key, h.noError⟩
  | header done hframes h =>
      exact .header _ hframes ⟨h.pos, h.remaining, h.stored, h.inside, h.noError⟩

/-- Where no header byte is stored, the next chunk cannot lie strictly inside a
header. -/
theorem At.cutSafe {frames : List BinaryFrame} {a : Nat} {r : WebsocketRead}
    {future plain : List UInt8} (hat : At frames a r future plain)
    (hstored : r.wsHeader = []) (s : Nat) :
    ∀ h ∈ headerSpans 0 frames, CutSafe h (a, s) := by
  cases hat with
  | @payload done gs f j hframes h =>
      have hin := h.inside
      refine (cutSafe_iff_current (k := f.header.length + j) hframes (by rw [h.pos]; omega)
        ?_).mpr (fun _ hlt => by omega)
      simp only [BinaryFrame.encode, List.length_append, BinaryFrame.length_body]
      omega
  | @header done fs k hframes h =>
      cases fs with
      | nil =>
          intro p hp _ hlt
          have hend := (headerSpans_end hp).2
          have hpos := h.pos
          rw [hframes, List.append_nil] at hend
          simp only at hlt
          omega
      | cons f gs =>
          obtain rfl := h.offset_eq_zero hstored
          refine (cutSafe_iff_current (k := 0) hframes h.pos ?_).mpr
            (fun h0 => absurd h0 (by omega))
          have := f.headerSize_pos
          simp only [BinaryFrame.encode, List.length_append]
          omega

theorem headerSpans_size {o : Nat} {fs : List BinaryFrame} {h : Nat × Nat}
    (hmem : h ∈ headerSpans o fs) : h.2 ≤ 14 := by
  induction fs generalizing o with
  | nil => simp [headerSpans] at hmem
  | cons f fs ih =>
      simp only [headerSpans, List.mem_cons] at hmem
      rcases hmem with rfl | hmem
      · exact f.headerSize_le
      · exact ih hmem

theorem cutSafe_empty {frames : List BinaryFrame} (a : Nat) :
    ∀ h ∈ headerSpans 0 frames, CutSafe h (a, 0) := by
  intro h hmem hlt hend
  have := headerSpans_size hmem
  simp only [kHeaderCapacity] at hlt hend ⊢
  omega

/-- A chunk is accepted if and only if its boundaries are safe, and then it is
decoded up to its end. -/
theorem feed_at {frames : List BinaryFrame} {a : Nat} {r : WebsocketRead}
    {chunk t plain : List UInt8} (hat : At frames a r (chunk ++ t) plain)
    (hbuf : r.buffer = []) (hsize : chunk.length < 2 ^ 31) :
    (¬ (∀ h ∈ headerSpans 0 frames, CutSafe h (a, chunk.length)) →
        r.feed chunk = .error .checkFailed) ∧
      ((∀ h ∈ headerSpans 0 frames, CutSafe h (a, chunk.length)) →
        ∃ (r' : WebsocketRead) (out plain' : List UInt8), r.feed chunk = .ok (r', out) ∧
          r'.buffer = [] ∧ plain = out ++ plain' ∧ At frames (a + chunk.length) r' t plain') := by
  rw [feed_eq hbuf]
  set r₁ : WebsocketRead := { r with buffer := chunk } with hr₁
  have hat₁ : At frames a r₁ (r₁.buffer ++ t) plain := hat.setBuffer chunk
  by_cases hstored : r₁.buffer ≠ [] → r₁.wsHeader = []
  · refine ⟨fun hbad => absurd ?_ hbad, fun _ => drain_at _ hat₁ hstored hsize (by simp [hr₁])⟩
    by_cases hne : chunk = []
    · simpa [hne] using cutSafe_empty a
    · exact hat₁.cutSafe (hstored hne) _
  · obtain ⟨hne, hsome⟩ := Classical.not_imp.mp hstored
    generalize hfut : r₁.buffer ++ t = future at hat₁
    cases hat₁ with
    | payload _ h => exact absurd h.noHeader hsome
    | @header done fs k hframes h =>
        have hk : 0 < k := by
          by_contra hk
          exact hsome (by rw [h.stored, show k = 0 by omega, List.take_zero])
        obtain ⟨f, gs, rfl, hkH⟩ := h.inside hk
        have hsafe := cutSafe_iff_current (s := chunk.length) hframes h.pos
          (by simp only [BinaryFrame.encode, List.length_append]; omega : k < f.encode.length)
        obtain ⟨hfail, hadv⟩ := getBuffer_partial hframes h hk hkH hfut hne hsize
        rw [hsafe]
        constructor
        · intro hbad
          have hcall := hfail (fun hok => hbad (fun _ => hok))
          simp [WebsocketRead.drain, hcall]
        · intro hok
          refine drain_succ (hadv (hok hk)) (fun a' r' plain' hat' hstored' hlt => ?_)
          have hlt' : r'.buffer.length < chunk.length := hlt
          exact drain_at _ hat' hstored' (by omega) (by omega)

/-! ## §5  Whole runs -/

/-- The reader as it stands between two frames. -/
structure Idle (r : WebsocketRead) : Prop where
  buffer : r.buffer = []
  remaining : r.payloadRemaining = 0
  noHeader : r.wsHeader = []
  noError : r.error = false

/-- At the end of the stream nothing is left to return. -/
theorem At.idle {frames : List BinaryFrame} {a : Nat} {r : WebsocketRead}
    {future plain : List UInt8} (hat : At frames a r future plain) (hfut : future = [])
    (hbuf : r.buffer = []) : plain = [] ∧ Idle r := by
  cases hat with
  | @payload done gs f j hframes h =>
      have := congrArg List.length hfut
      have := h.inside
      simp at *
      omega
  | @header done fs k hframes h =>
      cases fs with
      | nil => exact ⟨rfl, hbuf, h.remaining, by simpa using h.stored, h.noError⟩
      | cons f gs =>
          have hlt : k < f.header.length := by
            by_cases hk : 0 < k
            · obtain ⟨f', gs', heq, hkH⟩ := h.inside hk
              obtain ⟨rfl, rfl⟩ := List.cons.inj heq
              exact hkH
            · have := f.headerSize_pos
              omega
          have := congrArg List.length hfut
          rw [List.length_drop, encodeAll_cons, List.length_append, List.length_nil] at this
          omega

/-- **All chunkings**: the run over the remaining chunks is stopped by a `CHECK`
if and only if some chunk boundary is unsafe; otherwise everything is decoded. -/
theorem feedAll_at {frames : List BinaryFrame} (chunks : List (List UInt8)) {a : Nat}
    {r : WebsocketRead} {plain : List UInt8} (hat : At frames a r chunks.flatten plain)
    (hbuf : r.buffer = []) (hsize : ∀ c ∈ chunks, c.length < 2 ^ 31) :
    (¬ (∀ c ∈ chunkSpans a chunks, ∀ h ∈ headerSpans 0 frames, CutSafe h c) →
        r.feedAll chunks = .error .checkFailed) ∧
      ((∀ c ∈ chunkSpans a chunks, ∀ h ∈ headerSpans 0 frames, CutSafe h c) →
        ∃ r', r.feedAll chunks = .ok (r', plain) ∧ Idle r') := by
  induction chunks generalizing a r plain with
  | nil =>
      obtain ⟨rfl, hidle⟩ := hat.idle rfl hbuf
      exact ⟨fun hbad => absurd (by simp [chunkSpans]) hbad, fun _ => ⟨r, rfl, hidle⟩⟩
  | cons chunk chunks ih =>
      obtain ⟨hfail, hok⟩ := feed_at (t := chunks.flatten) (by simpa using hat) hbuf
        (hsize chunk (by simp))
      simp only [chunkSpans, List.forall_mem_cons]
      by_cases hsafe : ∀ h ∈ headerSpans 0 frames, CutSafe h (a, chunk.length)
      · obtain ⟨r', out, plain', hfeed, hbuf', hplain, hat'⟩ := hok hsafe
        obtain ⟨hfail', hok'⟩ := ih hat' hbuf' (fun c hc => hsize c (by simp [hc]))
        constructor
        · intro hbad
          have hrest := hfail' (fun h => hbad ⟨hsafe, h⟩)
          simp [WebsocketRead.feedAll, hfeed, hrest]
        · rintro ⟨-, hrest⟩
          obtain ⟨r'', hfeeds, hidle⟩ := hok' hrest
          exact ⟨r'', by simp [WebsocketRead.feedAll, hfeed, hfeeds, hplain], hidle⟩
      · refine ⟨fun _ => ?_, fun h => absurd h.1 hsafe⟩
        simp [WebsocketRead.feedAll, hfail hsafe]

theorem at_start (frames : List BinaryFrame) :
    At frames 0 {} (encodeAll frames) (payloads frames) := by
  rw [← List.drop_zero (l := encodeAll frames)]
  exact .header [] (k := 0) rfl
    { pos := rfl
      remaining := rfl
      stored := rfl
      inside := fun h => absurd h (by omega)
      noError := rfl }

/-- **The reader decodes every chunking it survives.** For chunks whose length
is representable as a non-negative `int32_t`: if no `CHECK` stops the run, the
returned spans are the payloads and the reader is between frames again. -/
theorem feedAll_decodes (frames : List BinaryFrame) (chunks : List (List UInt8))
    (hchunks : chunks.flatten = encodeAll frames) (hsize : ∀ c ∈ chunks, c.length < 2 ^ 31)
    (hcheck : WebsocketRead.feedAll {} chunks ≠ .error .checkFailed) :
    ∃ r, WebsocketRead.feedAll {} chunks = .ok (r, payloads frames) ∧ Idle r := by
  obtain ⟨hfail, hok⟩ := feedAll_at chunks (by rw [hchunks]; exact at_start frames) rfl hsize
  by_cases hsafe : ∀ c ∈ chunkSpans 0 chunks, ∀ h ∈ headerSpans 0 frames, CutSafe h c
  · exact hok hsafe
  · exact absurd (hfail hsafe) hcheck

/-- A masked frame with a three-byte payload, one byte at a time. -/
def smallFrame : BinaryFrame := ⟨[7, 8, 9], some ⟨1, 2, 3, 4⟩, by decide, by decide⟩

def smallChunks : List (List UInt8) := smallFrame.encode.map fun b => [b]

theorem smallChunks_run : ∃ r, WebsocketRead.feedAll {} smallChunks = .ok (r, [7, 8, 9]) :=
  ⟨_, rfl⟩

theorem feedAll_decodes_small :
    ∃ r, WebsocketRead.feedAll {} smallChunks = .ok (r, [7, 8, 9]) ∧ Idle r :=
  feedAll_decodes [smallFrame] smallChunks (by decide) (by decide) (by
    obtain ⟨r, hr⟩ := smallChunks_run
    rw [hr]
    nofun)

/-- An unmasked frame of zeros. -/
def zeroFrame (n : Nat) (hpos : 0 < n) (hshort : n < 2 ^ 31) : BinaryFrame :=
  ⟨List.replicate n 0, none, by simp; omega, by simpa using hshort⟩

theorem length_zeroFrame (n : Nat) (hpos : 0 < n) (hshort : n < 2 ^ 31) :
    (zeroFrame n hpos hshort).payload.length = n :=
  List.length_replicate

theorem length_zeroFrame_header (n : Nat) (hpos : 0 < n) (hshort : n < 2 ^ 31) :
    (zeroFrame n hpos hshort).header.length =
      2 + (if n ≥ 126 then 2 else 0) + (if n ≥ 65536 then 6 else 0) := by
  simp [zeroFrame, BinaryFrame.header, BinaryFrame.useMask, length_headerBytes]

theorem bmod_self_eq_zero (m : Nat) : Int.bmod m m = 0 := by
  simp only [Int.bmod_def, Int.emod_self]
  omega

theorem toInt32_wraps {n : Nat} (h : n = 2 ^ 32) : toInt32 n = 0 :=
  h ▸ bmod_self_eq_zero n

/-- With a complete header in front, `Buffer` returns what `NextBuffer` makes of
the rest of the chunk. -/
theorem getBuffer_header (f : BinaryFrame) (rest : List UInt8) :
    WebsocketRead.getBuffer { buffer := f.header ++ rest } =
      WebsocketRead.nextBuffer
        { payloadRemaining := f.payload.length
          wsMask := f.useMask
          buffer := rest
          maskKey := if f.useMask then f.maskKey else .zero } := by
  have hne : f.header ++ rest ≠ [] := by
    have := f.headerSize_pos
    exact List.append_ne_nil_of_left_ne_nil (List.ne_nil_of_length_pos (by omega)) _
  rw [getBuffer_of_parse (.ok f.parsed) (r := { buffer := f.header ++ rest }) hne rfl rfl
    (f.wsParseHeader_header rest)]
  simp only [WebsocketRead.handleStatus, acceptHeader_parsed, List.length_nil, Nat.sub_zero,
    List.drop_left]

/-- If the length of the rest of the chunk wraps to zero, the first span is
empty and the run ends there. -/
theorem feedAll_wrapped (f : BinaryFrame) (rest : List UInt8) (hwrap : toInt32 rest.length = 0) :
    WebsocketRead.feedAll {} [f.header ++ rest] = .ok
      ({ payloadRemaining := f.payload.length
         wsMask := f.useMask
         buffer := rest
         maskKey := if f.useMask then f.maskKey else .zero }, []) := by
  have hread : min (toInt32 rest.length) (f.payload.length : Int) = 0 := by
    rw [hwrap]
    omega
  have hcall : WebsocketRead.getBuffer { buffer := f.header ++ rest } = .ok
      ({ payloadRemaining := f.payload.length
         wsMask := f.useMask
         buffer := rest
         maskKey := if f.useMask then f.maskKey else .zero }, []) := by
    rw [getBuffer_header]
    unfold WebsocketRead.nextBuffer
    simp [hread, mask]
  simp [WebsocketRead.feedAll, feed_eq, WebsocketRead.drain, hcall]

theorem feedAll_wide_chunk {f g h : BinaryFrame}
    (hlen : f.payload.length + (g.encode.length + h.encode.length) = 2 ^ 32) :
    ∃ r, WebsocketRead.feedAll {} [encodeAll [f, g, h]] = .ok (r, []) ∧
      r.payloadRemaining = f.payload.length := by
  rw [encodeAll_cons]
  refine ⟨_, feedAll_wrapped f _ (toInt32_wraps ?_), rfl⟩
  rw [← hlen]
  simp only [encodeAll_cons, encodeAll_nil, BinaryFrame.encode, List.length_append,
    List.length_nil, BinaryFrame.length_body]
  omega

theorem length_encode_zeroFrame {n : Nat} (hpos : 0 < n) (hshort : n < 2 ^ 31) (hlong : 65536 ≤ n) :
    (zeroFrame n hpos hshort).encode.length = 10 + n := by
  rw [BinaryFrame.encode, List.length_append, length_zeroFrame_header, BinaryFrame.length_body,
    length_zeroFrame]
  split_ifs <;> omega

/-- Three frames whose encoding, without the first header, has 2^32 bytes. -/
def wideFrames : List BinaryFrame :=
  [zeroFrame 1 (by norm_num) (by norm_num), zeroFrame (2 ^ 31 - 1) (by norm_num) (by norm_num),
    zeroFrame (2 ^ 31 - 20) (by norm_num) (by norm_num)]

theorem payloads_wideFrames_ne_nil : payloads wideFrames ≠ [] := by
  rw [wideFrames, payloads_cons]
  exact List.append_ne_nil_of_left_ne_nil (BinaryFrame.nonempty _) _

/-- In one chunk these frames are not decoded at all, and no `CHECK` notices:
the length of the first span is 2^32 converted to `int32_t`. -/
theorem feedAll_loses_wide_chunk :
    [encodeAll wideFrames].flatten = encodeAll wideFrames ∧
      (∃ r, WebsocketRead.feedAll {} [encodeAll wideFrames] = .ok (r, []) ∧
        r.payloadRemaining = 1) ∧
      payloads wideFrames ≠ [] := by
  refine ⟨List.flatten_singleton, ?_, payloads_wideFrames_ne_nil⟩
  have hone := length_zeroFrame 1 (by norm_num) (by norm_num)
  have hlen := length_encode_zeroFrame (n := 2 ^ 31 - 1) (by norm_num) (by norm_num) (by norm_num)
  have hlen' := length_encode_zeroFrame (n := 2 ^ 31 - 20) (by norm_num) (by norm_num) (by norm_num)
  have hsum := congrArg₂ (· + ·) hone (congrArg₂ (· + ·) hlen hlen')
  obtain ⟨r, hrun, hrem⟩ := feedAll_wide_chunk (hsum.trans (by norm_num))
  rw [wideFrames]
  exact ⟨r, hrun, hrem.trans (congrArg Nat.cast hone)⟩

/-- **When a legal fragmentation aborts the process**: exactly when a chunk lies
strictly inside a header at a distance that the doubled count takes to the
capacity of the header buffer. -/
theorem feedAll_checks_iff (frames : List BinaryFrame) (chunks : List (List UInt8))
    (hchunks : chunks.flatten = encodeAll frames) (hsize : ∀ c ∈ chunks, c.length < 2 ^ 31) :
    WebsocketRead.feedAll {} chunks ≠ .error .checkFailed ↔ CutsSafe frames chunks := by
  obtain ⟨hfail, hok⟩ := feedAll_at chunks (by rw [hchunks]; exact at_start frames) rfl hsize
  constructor
  · intro hcheck h hh c hc
    by_contra hbad
    exact hcheck (hfail fun hall => hbad (hall c hc h hh))
  · intro hsafe herr
    obtain ⟨r, hr, -⟩ := hok fun c hc h hh => hsafe h hh c hc
    rw [herr] at hr
    cases hr

/-- A frame with a ten-byte header. -/
def longFrame : BinaryFrame := zeroFrame 65536 (by norm_num) (by norm_num)

/-- Its header arrives as one byte, then seven bytes, then the rest. -/
def longChunks : List (List UInt8) :=
  [longFrame.encode.take 1, (longFrame.encode.drop 1).take 7, longFrame.encode.drop 8]

theorem flatten_longChunks : longChunks.flatten = encodeAll [longFrame] := by
  simp only [longChunks, List.flatten_cons, List.flatten_nil, List.append_nil]
  rw [← List.append_assoc, ← List.take_add, List.take_append_drop, BinaryFrame.encode,
    encodeAll_cons, encodeAll_nil, List.append_nil]

theorem length_longFrame_header : longFrame.header.length = 10 := by
  rw [longFrame, length_zeroFrame_header]
  norm_num

theorem length_longFrame : longFrame.encode.length = 65546 := by
  rw [longFrame, length_encode_zeroFrame _ _ (by norm_num)]

theorem longChunks_short {c : List UInt8} (hc : c ∈ longChunks) : c.length < 2 ^ 31 := by
  have hle : c.length ≤ longFrame.encode.length := by
    simp only [longChunks, List.mem_cons, List.not_mem_nil, or_false] at hc
    rcases hc with hc | hc | hc <;> rw [hc] <;> simp only [List.length_take, List.length_drop] <;>
      omega
  rw [length_longFrame] at hle
  omega

theorem longChunks_span : (1, 7) ∈ chunkSpans 0 longChunks := by
  simp only [longChunks, chunkSpans, List.length_take, List.length_drop, length_longFrame]
  simp

/-- The second chunk starts one byte into the header and has seven bytes. -/
theorem feedAll_aborts_long_header :
    longChunks.flatten = encodeAll [longFrame] ∧
      WebsocketRead.feedAll {} longChunks = .error .checkFailed := by
  have hat : At [longFrame] 0 {} longChunks.flatten (payloads [longFrame]) := by
    rw [flatten_longChunks]
    exact at_start _
  refine ⟨flatten_longChunks, (feedAll_at longChunks hat rfl fun c => longChunks_short).1 ?_⟩
  intro hsafe
  have hcut := hsafe (1, 7) longChunks_span (0, 10)
    (by rw [headerSpans, length_longFrame_header]; exact List.mem_cons_self)
  exact absurd (hcut (by decide) (by decide)) (by decide)

theorem feedAll_checks_small : WebsocketRead.feedAll {} smallChunks ≠ .error .checkFailed :=
  (feedAll_checks_iff [smallFrame] smallChunks (by decide) (by decide)).mpr (by decide)

end BeyondProtocol.Quic
