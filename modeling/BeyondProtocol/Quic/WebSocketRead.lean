import BeyondProtocol.Framework.Fallible
import BeyondProtocol.Quic.WebSocketHeader

/-!
# The resumable frame reader (`WebsocketRead` in `quic/src/websocket.hpp`)

`Next` hands the reader a chunk of the byte stream, `Buffer` returns decoded
payload until it returns an empty span. A chunk boundary may fall anywhere: the
reader keeps the header bytes seen so far and the phase of the mask between
chunks.

The spans are lists here. `Buffer` unmasks in place, but only the bytes of the
span it returns, so the value of a span is fixed when it is returned.
-/

namespace BeyondProtocol.Quic

open Framework

/-- Conversion of a `size_t` or `uint64_t` to `int`. -/
def toInt32 (n : Nat) : Int := Int.bmod n (2 ^ 32)

theorem toInt32_of_lt {n : Nat} (h : n < 2 ^ 31) : toInt32 n = n := by
  exact Int.bmod_eq_of_le (by omega) (by omega)

theorem toInt32_lt (n : Nat) : toInt32 n < 2 ^ 31 := by
  have h := Int.bmod_lt (x := n) (m := 2 ^ 32) (by decide)
  unfold toInt32
  omega

theorem toInt32_of_mod_lt {n : Nat} (h : n % 2 ^ 32 < 2 ^ 31) : toInt32 n = (n % 2 ^ 32 : Nat) := by
  unfold toInt32
  rw [Int.bmod_def]
  split_ifs <;> omega

theorem toInt32_neg {n : Nat} (h : ¬ n % 2 ^ 32 < 2 ^ 31) : toInt32 n < 0 := by
  unfold toInt32
  rw [Int.bmod_def]
  split_ifs <;> omega

/-- `ws_header_.size()` -/
def kHeaderCapacity : Nat := 14

/-- `wsHeader` holds the bytes of `ws_header_` copied so far; the counter
`ws_partial_header_read_` is its length. -/
structure WebsocketRead where
  payloadRead : Nat := 0
  payloadRemaining : Int := 0
  wsHeader : List UInt8 := []
  wsMask : Bool := false
  buffer : List UInt8 := []
  error : Bool := false
  maskKey : WsMaskKey := .zero
deriving DecidableEq, Repr

namespace WebsocketRead

def copyPartialHeader (r : WebsocketRead) : Except Fault WebsocketRead :=
  if ¬ r.wsHeader.length < kHeaderCapacity then .error .checkFailed
  else
    let cpySize := min (kHeaderCapacity - r.wsHeader.length) r.buffer.length
    let r' := { r with wsHeader := r.wsHeader ++ r.buffer.take cpySize }
    if ¬ r'.wsHeader.length ≤ kHeaderCapacity then .error .checkFailed else .ok r'

/-- `NextBuffer`. The length of the returned span is computed in `int32_t`; a
span with a negative length has no meaning. -/
def nextBuffer (r : WebsocketRead) : Except Fault (WebsocketRead × List UInt8) :=
  let readSize := min (toInt32 r.buffer.length) r.payloadRemaining
  if readSize < 0 then .error .undefined
  else
    let n := readSize.toNat
    let out := r.buffer.take n
    .ok ({ r with
            buffer := r.buffer.drop n
            payloadRead := r.payloadRead + n
            payloadRemaining := r.payloadRemaining - readSize },
          if r.wsMask then mask r.maskKey r.payloadRead out else out)

def next (r : WebsocketRead) (data : List UInt8) : Except Fault WebsocketRead :=
  if r.buffer.length ≠ 0 then .error .checkFailed else .ok { r with buffer := data }

/-- `Buffer`, after the header has been parsed. -/
def acceptHeader (r : WebsocketRead) (partialHeaderOffset : Nat) (header : WebSocketHeader) :
    Except Fault (WebsocketRead × List UInt8) :=
  let r := { r with buffer := r.buffer.drop (header.headerSize - partialHeaderOffset) }
  if header.opCode = OpCodeType.CLOSE then .ok ({ r with error := true }, [])
  else
    nextBuffer { r with
      wsMask := header.mask
      maskKey := header.maskingKey
      wsHeader := []
      payloadRead := 0
      payloadRemaining := toInt32 header.payloadLength }

/-- The header bytes of the current chunk join those of earlier chunks. -/
def joinHeader (r : WebsocketRead) : Except Fault WebsocketRead :=
  if r.wsHeader.length > 0 then r.copyPartialHeader else .ok r

/-- Header bytes not copied by `joinHeader` are stored for the next chunk. -/
def keepHeader (r : WebsocketRead) : Except Fault WebsocketRead :=
  if r.wsHeader.length = 0 then r.copyPartialHeader else .ok r

/-- `Buffer`, when the header is still incomplete. The size test uses the
counter that `CopyPartialHeader` has already advanced. -/
def awaitHeader (r : WebsocketRead) (partialHeaderOffset : Nat) :
    Except Fault (WebsocketRead × List UInt8) :=
  if ¬ r.buffer.length + r.wsHeader.length < kHeaderCapacity then .error .checkFailed
  else do
    let r ← r.keepHeader
    if ((r.wsHeader.length - partialHeaderOffset : Int) ≠ toInt32 r.buffer.length) then
      .error .checkFailed
    else .ok ({ r with buffer := [] }, [])

/-- `Buffer`, by the result of `WsParseHeader`. -/
def handleStatus (r : WebsocketRead) (partialHeaderOffset : Nat) :
    WsParseHeaderStatus → Except Fault (WebsocketRead × List UInt8)
  | .invalid => .ok ({ r with error := true }, [])
  | .notEnoughData => r.awaitHeader partialHeaderOffset
  | .ok header => r.acceptHeader partialHeaderOffset header

/-- `Buffer` -/
def getBuffer (r : WebsocketRead) : Except Fault (WebsocketRead × List UInt8) :=
  if r.buffer.length = 0 then .ok (r, [])
  else if r.payloadRemaining > 0 then r.nextBuffer
  else do
    let partialHeaderOffset := r.wsHeader.length
    let r ← r.joinHeader
    let status ← wsParseHeader (if partialHeaderOffset > 0 then r.wsHeader else r.buffer)
    r.handleStatus partialHeaderOffset status

/-! ## Driving the reader

The loop of `QuicPeerStream::OnData`: after `Next`, call `Buffer` until it
returns an empty span. Every non-empty span shortens the buffer, so one call
more than the chunk has bytes is enough (`drain_at`). -/

def drain : Nat → WebsocketRead → Except Fault (WebsocketRead × List UInt8)
  | 0, _ => .error .outOfFuel
  | fuel + 1, r => do
      let (r, out) ← r.getBuffer
      if out.length = 0 then .ok (r, [])
      else
        let (r, outs) ← drain fuel r
        .ok (r, out ++ outs)

def feed (r : WebsocketRead) (chunk : List UInt8) : Except Fault (WebsocketRead × List UInt8) := do
  let r ← r.next chunk
  drain (chunk.length + 1) r

/-- All chunks in order, with the concatenation of every span returned. -/
def feedAll : WebsocketRead → List (List UInt8) → Except Fault (WebsocketRead × List UInt8)
  | r, [] => .ok (r, [])
  | r, chunk :: chunks => do
      let (r, out) ← r.feed chunk
      let (r, outs) ← feedAll r chunks
      .ok (r, out ++ outs)

end WebsocketRead

/-! ## Single calls -/

theorem getBuffer_of_parse {r r₁ : WebsocketRead} (status : WsParseHeaderStatus)
    (hne : r.buffer ≠ []) (hrem : r.payloadRemaining = 0) (hjoin : r.joinHeader = .ok r₁)
    (hparse : wsParseHeader (if r.wsHeader.length > 0 then r₁.wsHeader else r₁.buffer) =
      .ok status) :
    r.getBuffer = r₁.handleStatus r.wsHeader.length status := by
  have hpos : 0 < r.buffer.length := List.length_pos_iff.mpr hne
  unfold WebsocketRead.getBuffer
  rw [if_neg (by omega), if_neg (by omega), hjoin]
  simp only [Framework.ok_bind, hparse]

/-- The chunk ends inside a header of which nothing was stored before it. -/
theorem awaitHeader_fresh {r : WebsocketRead} (hstored : r.wsHeader = [])
    (hcap : r.buffer.length < kHeaderCapacity) :
    r.awaitHeader 0 = .ok ({ r with wsHeader := r.buffer, buffer := [] }, []) := by
  have hsize : r.buffer.length < 2 ^ 31 := lt_trans hcap (by decide)
  have hkeep : r.keepHeader = .ok { r with wsHeader := r.buffer } := by
    unfold WebsocketRead.keepHeader WebsocketRead.copyPartialHeader
    simp only [hstored, List.length_nil, Nat.sub_zero, List.nil_append, min_eq_right hcap.le,
      List.take_length, if_true]
    rw [if_neg (by simp [kHeaderCapacity]), if_neg (by omega)]
  unfold WebsocketRead.awaitHeader
  rw [if_neg (by simp only [hstored, List.length_nil]; omega), hkeep, Framework.ok_bind]
  rw [if_neg (by simp [toInt32_of_lt hsize])]

theorem getBuffer_nil {r : WebsocketRead} (h : r.buffer = []) : r.getBuffer = .ok (r, []) := by
  simp [WebsocketRead.getBuffer, h]

theorem nextBuffer_of_neg {r : WebsocketRead}
    (h : toInt32 r.buffer.length < 0 ∨ r.payloadRemaining < 0) :
    r.nextBuffer = .error .undefined := by
  unfold WebsocketRead.nextBuffer
  simp only
  rw [if_pos (by omega)]

theorem next_of_nil {r : WebsocketRead} (hbuf : r.buffer = []) (chunk : List UInt8) :
    r.next chunk = .ok { r with buffer := chunk } := by
  simp [WebsocketRead.next, hbuf]

theorem next_of_ne_nil {r : WebsocketRead} (hbuf : r.buffer ≠ []) (chunk : List UInt8) :
    r.next chunk = .error .checkFailed := by
  simp [WebsocketRead.next, hbuf]

theorem next_eq_ok {r r' : WebsocketRead} {chunk : List UInt8} :
    r.next chunk = .ok r' ↔ r.buffer = [] ∧ r' = { r with buffer := chunk } := by
  by_cases hbuf : r.buffer = []
  · rw [next_of_nil hbuf]
    constructor
    · rintro ⟨⟩
      exact ⟨hbuf, rfl⟩
    · rintro ⟨-, rfl⟩
      rfl
  · rw [next_of_ne_nil hbuf]
    constructor
    · rintro ⟨⟩
    · exact fun h => absurd h.1 hbuf

theorem feed_eq {r : WebsocketRead} (h : r.buffer = []) (chunk : List UInt8) :
    r.feed chunk = WebsocketRead.drain (chunk.length + 1) { r with buffer := chunk } := by
  rw [WebsocketRead.feed, next_of_nil h, Framework.ok_bind]

namespace WebsocketRead

variable {r r' : WebsocketRead} {out : List UInt8}

theorem nextBuffer_length (h : r.nextBuffer = .ok (r', out)) :
    out.length + r'.buffer.length ≤ r.buffer.length := by
  unfold nextBuffer at h
  simp only at h
  split_ifs at h <;> cases h <;>
    simp only [length_mask, List.length_take, List.length_drop] <;> omega

theorem joinHeader_buffer (h : r.joinHeader = .ok r') : r'.buffer = r.buffer := by
  unfold joinHeader copyPartialHeader at h
  simp only at h
  split_ifs at h <;> cases h <;> rfl

/-- A span is part of the buffer, and what is left comes behind it. -/
theorem getBuffer_length (h : r.getBuffer = .ok (r', out)) :
    out.length + r'.buffer.length ≤ r.buffer.length := by
  unfold getBuffer at h
  split_ifs at h
  · cases h
    simp
  · exact nextBuffer_length h
  · obtain ⟨r₁, hjoin, h⟩ := bind_eq_ok.mp h
    obtain ⟨status, -, h⟩ := bind_eq_ok.mp h
    rw [← joinHeader_buffer hjoin]
    cases status with
    | invalid =>
        cases h
        simp
    | notEnoughData =>
        simp only [handleStatus, awaitHeader] at h
        split_ifs at h
        obtain ⟨r₂, -, h⟩ := bind_eq_ok.mp h
        split_ifs at h
        cases h
        simp
    | ok header =>
        simp only [handleStatus, acceptHeader] at h
        split_ifs at h
        · cases h
          simp
        · have hle := nextBuffer_length h
          simp only [List.length_drop] at hle
          omega

theorem drain_length {fuel : ℕ} (h : drain fuel r = .ok (r', out)) :
    out.length + r'.buffer.length ≤ r.buffer.length := by
  induction fuel generalizing r out with
  | zero => cases h
  | succ fuel ih =>
      obtain ⟨⟨r₁, out₁⟩, hcall, h⟩ := bind_eq_ok.mp h
      have hle := getBuffer_length hcall
      simp only at h
      split_ifs at h
      · cases h
        simp only [List.length_nil]
        omega
      · obtain ⟨⟨r₂, out₂⟩, hdrain, h⟩ := bind_eq_ok.mp h
        cases h
        have hle' := ih hdrain
        simp only [List.length_append] at hle' ⊢
        omega

end WebsocketRead

/-! ## Errors stay -/

namespace WebsocketRead

variable {r r' : WebsocketRead} {out : List UInt8}

theorem nextBuffer_error (h : r.nextBuffer = .ok (r', out)) : r'.error = r.error := by
  unfold nextBuffer at h
  simp only at h
  split_ifs at h <;> cases h <;> rfl

theorem copyPartialHeader_error (h : r.copyPartialHeader = .ok r') : r'.error = r.error := by
  unfold copyPartialHeader at h
  simp only at h
  split_ifs at h
  cases h
  rfl

theorem joinHeader_error (h : r.joinHeader = .ok r') : r'.error = r.error := by
  unfold joinHeader at h
  split_ifs at h
  · exact copyPartialHeader_error h
  · cases h
    rfl

theorem keepHeader_error (h : r.keepHeader = .ok r') : r'.error = r.error := by
  unfold keepHeader at h
  split_ifs at h
  · exact copyPartialHeader_error h
  · cases h
    rfl

theorem handleStatus_error {k : Nat} {status : WsParseHeaderStatus}
    (h : r.handleStatus k status = .ok (r', out)) (herr : r.error = true) : r'.error = true := by
  cases status with
  | invalid =>
      cases h
      rfl
  | notEnoughData =>
      simp only [handleStatus, awaitHeader] at h
      split_ifs at h with hcheck
      obtain ⟨r₁, hkeep, hrest⟩ := bind_eq_ok.mp h
      split_ifs at hrest
      cases hrest
      exact (keepHeader_error hkeep).trans herr
  | ok header =>
      simp only [handleStatus, acceptHeader] at h
      split_ifs at h with hclose
      · cases h
        rfl
      · exact (nextBuffer_error h).trans herr

theorem getBuffer_error (h : r.getBuffer = .ok (r', out)) (herr : r.error = true) :
    r'.error = true := by
  unfold getBuffer at h
  split_ifs at h
  · cases h
    exact herr
  · exact (nextBuffer_error h).trans herr
  · obtain ⟨r₁, hjoin, h⟩ := bind_eq_ok.mp h
    obtain ⟨status, -, h⟩ := bind_eq_ok.mp h
    exact handleStatus_error h ((joinHeader_error hjoin).trans herr)

/-- A call that raises the error returns nothing. -/
theorem getBuffer_raises (h : r.getBuffer = .ok (r', out)) (hopen : r.error = false)
    (herr : r'.error = true) : out = [] := by
  have hraises : ∀ {r₁ : WebsocketRead}, r₁.error = false → r₁.nextBuffer ≠ .ok (r', out) := by
    intro r₁ hopen₁ hnext
    rw [nextBuffer_error hnext, hopen₁] at herr
    cases herr
  unfold getBuffer at h
  split_ifs at h
  · cases h
    rfl
  · exact absurd h (hraises hopen)
  · obtain ⟨r₁, hjoin, h⟩ := bind_eq_ok.mp h
    obtain ⟨status, -, h⟩ := bind_eq_ok.mp h
    cases status with
    | invalid =>
        cases h
        rfl
    | notEnoughData =>
        simp only [handleStatus, awaitHeader] at h
        split_ifs at h
        obtain ⟨r₂, -, h⟩ := bind_eq_ok.mp h
        split_ifs at h
        cases h
        rfl
    | ok header =>
        simp only [handleStatus, acceptHeader] at h
        split_ifs at h
        · cases h
          rfl
        · exact absurd h (hraises ((joinHeader_error hjoin).trans hopen))

theorem drain_error {fuel : Nat} (h : drain fuel r = .ok (r', out)) (herr : r.error = true) :
    r'.error = true := by
  induction fuel generalizing r out with
  | zero => cases h
  | succ fuel ih =>
      obtain ⟨⟨r₁, out₁⟩, hcall, h⟩ := bind_eq_ok.mp h
      have herr₁ := getBuffer_error hcall herr
      simp only at h
      split_ifs at h
      · cases h
        exact herr₁
      · obtain ⟨⟨r₂, out₂⟩, hdrain, h⟩ := bind_eq_ok.mp h
        cases h
        exact ih hdrain herr₁

theorem feed_error {chunk : List UInt8} (h : r.feed chunk = .ok (r', out))
    (herr : r.error = true) : r'.error = true := by
  obtain ⟨r₀, hnext, hdrain⟩ := bind_eq_ok.mp h
  obtain ⟨-, rfl⟩ := next_eq_ok.mp hnext
  exact drain_error hdrain herr

theorem feedAll_error {chunks : List (List UInt8)} (h : feedAll r chunks = .ok (r', out))
    (herr : r.error = true) : r'.error = true := by
  induction chunks generalizing r out with
  | nil =>
      cases h
      exact herr
  | cons chunk chunks ih =>
      obtain ⟨⟨r₁, out₁⟩, hfeed, h⟩ := bind_eq_ok.mp h
      obtain ⟨⟨r₂, out₂⟩, hrest, h⟩ := bind_eq_ok.mp h
      cases h
      exact ih hrest (feed_error hfeed herr)

end WebsocketRead

/-! ## The sending side -/

/-- A binary frame the reader can hold: a non-empty payload whose length is
representable as a non-negative `int`. -/
structure BinaryFrame where
  payload : List UInt8
  key : Option WsMaskKey
  nonempty : payload ≠ []
  short : payload.length < 2 ^ 31

namespace BinaryFrame

def useMask (f : BinaryFrame) : Bool := f.key.isSome

def maskKey (f : BinaryFrame) : WsMaskKey := f.key.getD .zero

def header (f : BinaryFrame) : List UInt8 :=
  headerBytes OpCodeType.BINARY_FRAME f.useMask f.maskKey f.payload.length

/-- The payload as it travels, from its byte `offset` on. -/
def body (f : BinaryFrame) (offset : Nat) : List UInt8 :=
  if f.useMask then mask f.maskKey offset (f.payload.drop offset) else f.payload.drop offset

def encode (f : BinaryFrame) : List UInt8 := f.header ++ f.body 0

/-- The header is what `WsWriteHeader` produces in a buffer large enough for
any header. -/
theorem wsWriteHeader_header (f : BinaryFrame) :
    wsWriteHeader OpCodeType.BINARY_FRAME f.useMask f.maskKey f.payload.length kHeaderCapacity =
      .ok (some (f.header.length, f.header)) :=
  wsWriteHeader_ok _ _ _ _ (by decide)

end BinaryFrame

def encodeAll (fs : List BinaryFrame) : List UInt8 := (fs.map BinaryFrame.encode).flatten

def payloads (fs : List BinaryFrame) : List UInt8 := (fs.map BinaryFrame.payload).flatten

end BeyondProtocol.Quic
