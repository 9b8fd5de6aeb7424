import BeyondProtocol.Protocol.Packet

/-!
# WebSocket headers on the QUIC side (`quic/src/websocket.hpp`)

`wsWriteHeader` and `wsParseHeader` are the two directions of the framing
header; `mask` is the payload transformation. The second half of the file is
the round trip between them, cut at every length: a strict prefix of a written
header parses as *not enough data*, the whole header followed by anything
parses back to what was written.
-/

namespace BeyondProtocol.Quic

/-! ## §1  The source functions -/

/-- `OpCodeType`. The parser casts any four-bit value to it. -/
abbrev OpCodeType : Type := UInt8

namespace OpCodeType

def TEXT_FRAME : OpCodeType := 0x1
def BINARY_FRAME : OpCodeType := 0x2
def CLOSE : OpCodeType := 8
def PING : OpCodeType := 9
def PONG : OpCodeType := 0xA

end OpCodeType

/-- `std::array<uint8_t, 4>` -/
structure WsMaskKey where
  k0 : UInt8
  k1 : UInt8
  k2 : UInt8
  k3 : UInt8
deriving DecidableEq, Repr, Inhabited

namespace WsMaskKey

def zero : WsMaskKey := ⟨0, 0, 0, 0⟩

/-- `Key[i & 3]` -/
def get (key : WsMaskKey) (i : Nat) : UInt8 :=
  match i &&& 3 with
  | 0 => key.k0
  | 1 => key.k1
  | 2 => key.k2
  | _ => key.k3

def bytes (key : WsMaskKey) : List UInt8 := [key.k0, key.k1, key.k2, key.k3]

end WsMaskKey

/-- `Mask(Buffer, Key, Offset)`: the bytes after the call. -/
def mask (key : WsMaskKey) (offset : Nat) (buffer : List UInt8) : List UInt8 :=
  buffer.mapIdx fun i b => b ^^^ key.get (i + offset)

/-- `(Length >> shift) & 0xFF` as the byte stored in the header. -/
def lengthByte (length shift : Nat) : UInt8 := UInt8.ofNat ((length >>> shift) &&& 0xFF)

/-- `UseMask ? 0x80 : 0` -/
def maskBit (useMask : Bool) : UInt8 := if useMask then 0x80 else 0

/-- The bytes from `Header[1]` up to the masking key. -/
def sizeBytes (useMask : Bool) (length : Nat) : List UInt8 :=
  if length < 126 then [lengthByte length 0 ||| maskBit useMask]
  else if length < 65536 then
    [126 ||| maskBit useMask, lengthByte length 8, lengthByte length 0]
  else
    [127 ||| maskBit useMask, lengthByte length 56, lengthByte length 48, lengthByte length 40,
      lengthByte length 32, lengthByte length 24, lengthByte length 16, lengthByte length 8,
      lengthByte length 0]

def headerBytes (op : OpCodeType) (useMask : Bool) (key : WsMaskKey) (length : Nat) :
    List UInt8 :=
  (0x80 ||| op) :: sizeBytes useMask length ++ (if useMask then key.bytes else [])

/-- `WsWriteHeader`: `none` is the return value `-1`, otherwise the return value and the bytes
written. -/
def wsWriteHeader (op : OpCodeType) (useMask : Bool) (key : WsMaskKey) (length maxLength : Nat) :
    Except Fault (Option (Nat × List UInt8)) :=
  if maxLength < 12 then .error .checkFailed
  else
    let headerSize := 2 + (if length ≥ 126 then 2 else 0) + (if length ≥ 65536 then 6 else 0)
      + (if useMask then 4 else 0)
    if headerSize > maxLength then .ok none
    else .ok (some (headerSize, headerBytes op useMask key length))

structure WebSocketHeader where
  fin : Bool
  rsv : UInt8
  mask : Bool
  opCode : OpCodeType
  payloadLength : Nat
  maskingKey : WsMaskKey
  headerSize : Nat
deriving DecidableEq, Repr

inductive WsParseHeaderStatus : Type where
  | ok (header : WebSocketHeader)
  | notEnoughData
  | invalid
deriving DecidableEq, Repr

/-- The header size announced by the second byte. -/
def headerSizeOf (b1 : UInt8) : Nat :=
  2 + (if b1 &&& 0x7F = 126 then 2 else 0) + (if b1 &&& 0x7F = 127 then 8 else 0)
    + (if b1 &&& 0x80 = 0x80 then 4 else 0)

/-- `WsParseHeader(Data, Length, Header)` on the `Length` bytes of `data`. -/
def wsParseHeader (data : List UInt8) : Except Fault WsParseHeaderStatus :=
  if data.length < 2 then .ok .notEnoughData
  else
    let byte (i : Nat) : UInt8 := data.getD i 0
    let rsv := byte 0 &&& 0x70
    let opCode := byte 0 &&& 0x0F
    let useMask := decide (byte 1 &&& 0x80 = 0x80)
    let len7 := byte 1 &&& 0x7F
    let headerSize := headerSizeOf (byte 1)
    if headerSize > 14 then .error .checkFailed
    else if data.length < headerSize then .ok .notEnoughData
    else if rsv ≠ 0 then .ok .invalid
    else if opCode > 10 ∨ (opCode > 2 ∧ opCode < 8) then .ok .invalid
    else
      let payloadLength :=
        if len7 < 126 then len7.toNat
        else if len7 = 126 then ((byte 2).toNat <<< 8) ||| (byte 3).toNat
        else
          ((byte 2).toNat <<< 56) ||| ((byte 3).toNat <<< 48) ||| ((byte 4).toNat <<< 40)
            ||| ((byte 5).toNat <<< 32) ||| ((byte 6).toNat <<< 24) ||| ((byte 7).toNat <<< 16)
            ||| ((byte 8).toNat <<< 8) ||| (byte 9).toNat
      let i := if len7 < 126 then 2 else if len7 = 126 then 4 else 10
      .ok (.ok
        { fin := decide (byte 0 &&& 0x80 = 0x80)
          rsv := rsv
          mask := useMask
          opCode := opCode
          payloadLength := payloadLength
          maskingKey := if useMask then ⟨byte i, byte (i + 1), byte (i + 2), byte (i + 3)⟩
            else .zero
          headerSize := headerSize })

/-! ## §2  Masking -/

@[simp] theorem length_mask (key : WsMaskKey) (offset : Nat) (bs : List UInt8) :
    (mask key offset bs).length = bs.length := by
  simp [mask]

theorem mask_take (key : WsMaskKey) (offset n : Nat) (bs : List UInt8) :
    (mask key offset bs).take n = mask key offset (bs.take n) := by
  apply List.ext_getElem (by simp)
  intro i h₁ h₂
  simp [mask]

theorem mask_drop (key : WsMaskKey) (offset n : Nat) (bs : List UInt8) :
    (mask key offset bs).drop n = mask key (offset + n) (bs.drop n) := by
  apply List.ext_getElem (by simp)
  intro i h₁ h₂
  simp only [mask, List.getElem_drop, List.getElem_mapIdx]
  rw [show n + i + offset = i + (offset + n) by omega]

theorem mask_append (key : WsMaskKey) (offset : Nat) (bs bs' : List UInt8) :
    mask key offset (bs ++ bs') = mask key offset bs ++ mask key (offset + bs.length) bs' := by
  rw [mask, List.mapIdx_append]
  simp only [mask, Nat.add_comm, Nat.add_left_comm]

/-- Masking twice with one key at one offset gives the payload back. -/
theorem mask_mask (key : WsMaskKey) (offset : Nat) (bs : List UInt8) :
    mask key offset (mask key offset bs) = bs := by
  apply List.ext_getElem (by simp)
  intro i h₁ h₂
  simp only [mask, List.getElem_mapIdx, UInt8.xor_assoc, UInt8.xor_self, UInt8.xor_zero]

/-! ## §3  Reading a written header back -/

theorem lengthByte_toNat (length shift : Nat) :
    (lengthByte length shift).toNat = length / 2 ^ shift % 256 := by
  have h : (length >>> shift) &&& 0xFF = (length >>> shift) % 256 :=
    Nat.and_two_pow_sub_one_eq_mod _ 8
  rw [lengthByte, h, Nat.shiftRight_eq_div_pow, UInt8.toNat_ofNat']
  omega

/-- One step of the big-endian accumulation: the byte below a shifted value. -/
theorem lor_shift_byte (a b k : Nat) (hb : b < 256) :
    (a <<< (k + 8)) ||| (b <<< k) = (a * 256 + b) <<< k := by
  have h : a * 256 + b = (a <<< 8) ||| b := by
    rw [← Nat.shiftLeft_add_eq_or_of_lt (by omega : b < 2 ^ 8), Nat.shiftLeft_eq]
  rw [h, Nat.shiftLeft_or_distrib, ← Nat.shiftLeft_add, Nat.add_comm]

theorem length16 (length : Nat) (h : length < 65536) :
    ((lengthByte length 8).toNat <<< 8) ||| (lengthByte length 0).toNat = length := by
  have h0 : (lengthByte length 0).toNat < 2 ^ 8 := (lengthByte length 0).toNat_lt
  rw [← Nat.shiftLeft_add_eq_or_of_lt h0, Nat.shiftLeft_eq, lengthByte_toNat, lengthByte_toNat]
  omega

/-- A byte and what lies above it make up what lies above the byte below. -/
theorem div_byte (n k : Nat) : n / 2 ^ (k + 8) * 256 + n / 2 ^ k % 256 = n / 2 ^ k := by
  rw [Nat.pow_add, ← Nat.div_div_eq_div_mul]
  omega

theorem length64 (length : Nat) (h : length < 2 ^ 64) :
    ((lengthByte length 56).toNat <<< 56) ||| ((lengthByte length 48).toNat <<< 48)
      ||| ((lengthByte length 40).toNat <<< 40) ||| ((lengthByte length 32).toNat <<< 32)
      ||| ((lengthByte length 24).toNat <<< 24) ||| ((lengthByte length 16).toNat <<< 16)
      ||| ((lengthByte length 8).toNat <<< 8) ||| (lengthByte length 0).toNat = length := by
  have hb : ∀ s, (lengthByte length s).toNat < 256 := fun s => (lengthByte length s).toNat_lt
  have h0 : (lengthByte length 0).toNat = (lengthByte length 0).toNat <<< 0 := rfl
  rw [h0, lor_shift_byte _ _ 48 (hb _), lor_shift_byte _ _ 40 (hb _),
    lor_shift_byte _ _ 32 (hb _), lor_shift_byte _ _ 24 (hb _), lor_shift_byte _ _ 16 (hb _),
    lor_shift_byte _ _ 8 (hb _), lor_shift_byte _ _ 0 (hb _), Nat.shiftLeft_zero]
  have htop : length / 2 ^ 56 < 256 := by omega
  simp only [lengthByte_toNat]
  rw [Nat.mod_eq_of_lt htop, div_byte length 48, div_byte length 40, div_byte length 32,
    div_byte length 24, div_byte length 16, div_byte length 8, div_byte length 0,
    Nat.pow_zero, Nat.div_one]

/-- The opcodes `WsParseHeader` lets through. -/
def OpCodeType.Valid (op : OpCodeType) : Prop := op ∈ [0, 1, 2, 8, 9, 10]

theorem firstByte_fields {op : OpCodeType} (h : op.Valid) :
    (0x80 ||| op) &&& 0x80 = 0x80 ∧ (0x80 ||| op) &&& 0x70 = 0 ∧ (0x80 ||| op) &&& 0x0F = op ∧
      ¬ (op > 10 ∨ (op > 2 ∧ op < 8)) := by
  simp only [OpCodeType.Valid, List.mem_cons, List.not_mem_nil, or_false] at h
  rcases h with rfl | rfl | rfl | rfl | rfl | rfl <;> decide

/-- What the parser reads out of the second byte of a short frame. -/
theorem secondByte_short (useMask : Bool) {length : Nat} (h : length < 126) :
    let b1 := lengthByte length 0 ||| maskBit useMask
    (b1 &&& 0x80 = 0x80 ↔ useMask = true) ∧ (b1 &&& 0x7F).toNat = length ∧
      b1 &&& 0x7F < 126 ∧ b1 &&& 0x7F ≠ 126 ∧ b1 &&& 0x7F ≠ 127 := by
  have key : ∀ (m : Bool) (l : Fin 126), let b1 := lengthByte l 0 ||| maskBit m
      (b1 &&& 0x80 = 0x80 ↔ m = true) ∧ (b1 &&& 0x7F).toNat = l ∧
        b1 &&& 0x7F < 126 ∧ b1 &&& 0x7F ≠ 126 ∧ b1 &&& 0x7F ≠ 127 := by decide
  exact key useMask ⟨length, h⟩

theorem secondByte_long (useMask : Bool) :
    ((126 ||| maskBit useMask) &&& 0x80 = 0x80 ↔ useMask = true) ∧
      (126 ||| maskBit useMask) &&& 0x7F = 126 ∧
      ((127 ||| maskBit useMask) &&& 0x80 = 0x80 ↔ useMask = true) ∧
      (127 ||| maskBit useMask) &&& 0x7F = 127 := by
  cases useMask <;> decide

/-- The second byte of a written header. -/
def secondByte (useMask : Bool) (length : Nat) : UInt8 :=
  if length < 126 then lengthByte length 0 ||| maskBit useMask
  else if length < 65536 then 126 ||| maskBit useMask else 127 ||| maskBit useMask

theorem headerSizeOf_secondByte (useMask : Bool) (length : Nat) :
    headerSizeOf (secondByte useMask length) =
      2 + (if length ≥ 126 then 2 else 0) + (if length ≥ 65536 then 6 else 0)
        + (if useMask then 4 else 0) := by
  obtain ⟨m₁, l₁, m₂, l₂⟩ := secondByte_long useMask
  unfold secondByte headerSizeOf
  by_cases h₁ : length < 126
  · obtain ⟨hm, -, -, h126, h127⟩ := secondByte_short useMask h₁
    simp only [if_pos h₁, if_neg h126, if_neg h127, hm]
    rw [if_neg (by omega : ¬ length ≥ 126), if_neg (by omega : ¬ length ≥ 65536)]
  · by_cases h₂ : length < 65536
    · simp only [if_neg h₁, if_pos h₂, l₁, m₁]
      rw [if_pos (by omega : length ≥ 126), if_neg (by omega : ¬ length ≥ 65536)]
      simp
    · simp only [if_neg h₁, if_neg h₂, l₂, m₂]
      rw [if_pos (by omega : length ≥ 126), if_pos (by omega : length ≥ 65536)]
      simp

theorem length_headerBytes (op : OpCodeType) (useMask : Bool) (key : WsMaskKey) (length : Nat) :
    (headerBytes op useMask key length).length =
      2 + (if length ≥ 126 then 2 else 0) + (if length ≥ 65536 then 6 else 0)
        + (if useMask then 4 else 0) := by
  unfold headerBytes sizeBytes
  by_cases h₁ : length < 126
  · have h₂ : length < 65536 := by omega
    cases useMask <;> simp [h₁, Nat.not_le.mpr h₁, Nat.not_le.mpr h₂, WsMaskKey.bytes]
  · by_cases h₂ : length < 65536
    · cases useMask <;> simp [h₁, h₂, Nat.not_lt.mp h₁, Nat.not_le.mpr h₂, WsMaskKey.bytes]
    · cases useMask <;> simp [h₁, h₂, Nat.not_lt.mp h₁, Nat.not_lt.mp h₂, WsMaskKey.bytes]

/-- The size that is returned is the number of bytes that are written. -/
theorem wsWriteHeader_eq (op : OpCodeType) (useMask : Bool) (key : WsMaskKey) (length : Nat)
    {maxLength : Nat} (h : 12 ≤ maxLength) :
    wsWriteHeader op useMask key length maxLength =
      if (headerBytes op useMask key length).length > maxLength then .ok none
      else .ok (some ((headerBytes op useMask key length).length,
        headerBytes op useMask key length)) := by
  rw [wsWriteHeader, if_neg (Nat.not_lt.mpr h), length_headerBytes]

theorem wsWriteHeader_ok (op : OpCodeType) (useMask : Bool) (key : WsMaskKey) (length : Nat)
    {maxLength : Nat} (h : 14 ≤ maxLength) :
    wsWriteHeader op useMask key length maxLength =
      .ok (some ((headerBytes op useMask key length).length,
        headerBytes op useMask key length)) := by
  rw [wsWriteHeader_eq op useMask key length (by omega), if_neg]
  rw [length_headerBytes]
  split_ifs <;> omega

theorem headerSizeOf_le (b : UInt8) : headerSizeOf b ≤ 14 := by
  unfold headerSizeOf
  split_ifs with h₁ h₂ <;> simp_all

theorem headerBytes_second (op : OpCodeType) (useMask : Bool) (key : WsMaskKey) (length : Nat) :
    ∃ tail, headerBytes op useMask key length =
      (0x80 ||| op) :: secondByte useMask length :: tail := by
  unfold headerBytes sizeBytes secondByte
  split_ifs <;> exact ⟨_, rfl⟩

/-- A strict prefix of a written header is not enough data. -/
theorem wsParseHeader_prefix (op : OpCodeType) (useMask : Bool) (key : WsMaskKey)
    (length n : Nat) (hn : n < (headerBytes op useMask key length).length) :
    wsParseHeader ((headerBytes op useMask key length).take n) = .ok .notEnoughData := by
  have hsize := length_headerBytes op useMask key length
  rw [← headerSizeOf_secondByte] at hsize
  obtain ⟨tail, htail⟩ := headerBytes_second op useMask key length
  rw [htail] at hn hsize ⊢
  unfold wsParseHeader
  by_cases h2 : n < 2
  · rw [if_pos (by simp; omega)]
  · obtain ⟨m, rfl⟩ : ∃ m, n = m + 2 := ⟨n - 2, by omega⟩
    have hle := headerSizeOf_le (secondByte useMask length)
    rw [if_neg (by simp)]
    simp only [List.take_succ_cons, List.getD_cons_succ, List.getD_cons_zero]
    rw [if_neg (by omega), if_pos (by simp at hn hsize ⊢; omega)]

/-- **Header round trip**: a written header followed by any bytes parses back
to what was written. -/
theorem wsParseHeader_headerBytes {op : OpCodeType} (hop : op.Valid) (useMask : Bool)
    (key : WsMaskKey) {length : Nat} (hlen : length < 2 ^ 64) (rest : List UInt8) :
    wsParseHeader (headerBytes op useMask key length ++ rest) = .ok (.ok
      { fin := true
        rsv := 0
        mask := useMask
        opCode := op
        payloadLength := length
        maskingKey := if useMask then key else .zero
        headerSize := (headerBytes op useMask key length).length }) := by
  obtain ⟨hfin, hrsv, hopc, hvalid⟩ := firstByte_fields hop
  have hsize := length_headerBytes op useMask key length
  rw [← headerSizeOf_secondByte] at hsize
  have hle := headerSizeOf_le (secondByte useMask length)
  rw [hsize]
  unfold wsParseHeader
  have hlong : (headerBytes op useMask key length ++ rest).length ≥
      headerSizeOf (secondByte useMask length) := by simp [hsize]
  have htwo : headerSizeOf (secondByte useMask length) ≥ 2 := by
    rw [headerSizeOf_secondByte]; omega
  rw [if_neg (by omega)]
  have hb0 : (headerBytes op useMask key length ++ rest).getD 0 0 = 0x80 ||| op := by
    obtain ⟨tail, htail⟩ := headerBytes_second op useMask key length
    simp [htail]
  have hb1 : (headerBytes op useMask key length ++ rest).getD 1 0 = secondByte useMask length := by
    obtain ⟨tail, htail⟩ := headerBytes_second op useMask key length
    simp [htail]
  simp only [hb0, hb1, hfin, hrsv, hopc]
  rw [if_neg (by omega), if_neg (by omega), if_neg (by simp), if_neg hvalid]
  obtain ⟨m₁, l₁, m₂, l₂⟩ := secondByte_long useMask
  -- one case for each width of the length field
  by_cases h₁ : length < 126
  · obtain ⟨hm, hl, hlt, -, -⟩ := secondByte_short useMask h₁
    simp only [secondByte, headerBytes, sizeBytes, if_pos h₁, hm, hl, if_pos hlt]
    cases useMask <;> simp [WsMaskKey.bytes]
  · by_cases h₂ : length < 65536
    · simp only [secondByte, headerBytes, sizeBytes, if_neg h₁, if_pos h₂, m₁, l₁]
      have := length16 length h₂
      cases useMask <;> simp [WsMaskKey.bytes, this]
    · simp only [secondByte, headerBytes, sizeBytes, if_neg h₁, if_neg h₂, m₂, l₂]
      have := length64 length hlen
      cases useMask <;> simp [WsMaskKey.bytes, this]

/-- What `WsWriteHeader` writes, as many bytes as it returns, parses back, whatever follows it,
and not before its last byte. -/
theorem written_header_parses {op : OpCodeType} (hop : op.Valid) (useMask : Bool)
    (key : WsMaskKey) {length maxLength : Nat} (hlen : length < 2 ^ 64) (hmax : 14 ≤ maxLength)
    (rest : List UInt8) :
    ∃ n bytes, wsWriteHeader op useMask key length maxLength = .ok (some (n, bytes)) ∧
      bytes.length = n ∧
      wsParseHeader (bytes ++ rest) = .ok (.ok
        { fin := true
          rsv := 0
          mask := useMask
          opCode := op
          payloadLength := length
          maskingKey := if useMask then key else .zero
          headerSize := n }) ∧
      ∀ k < n, wsParseHeader (bytes.take k) = .ok .notEnoughData := by
  refine ⟨_, headerBytes op useMask key length, wsWriteHeader_ok op useMask key length hmax, rfl,
    ?_, ?_⟩
  · exact wsParseHeader_headerBytes hop useMask key hlen rest
  · exact fun n hn => wsParseHeader_prefix op useMask key length n hn

theorem written_header_parses_masked :
    ∃ n bytes, wsWriteHeader OpCodeType.PING true ⟨1, 2, 3, 4⟩ 300 14 = .ok (some (n, bytes)) ∧
      bytes.length = n ∧
      wsParseHeader (bytes ++ [5]) = .ok (.ok
        { fin := true
          rsv := 0
          mask := true
          opCode := OpCodeType.PING
          payloadLength := 300
          maskingKey := ⟨1, 2, 3, 4⟩
          headerSize := n }) ∧
      ∀ k < n, wsParseHeader (bytes.take k) = .ok .notEnoughData :=
  written_header_parses (by simp [OpCodeType.Valid, OpCodeType.PING]) true ⟨1, 2, 3, 4⟩
    (by decide) (by decide) [5]

/-! ## §4  Parsing any bytes -/

theorem two_le_headerSizeOf (b : UInt8) : 2 ≤ headerSizeOf b := by
  unfold headerSizeOf
  omega

/-- The header in the bytes, if there are enough and the first one is valid. -/
def parsedHeader (data : List UInt8) : WebSocketHeader :=
  let byte (i : Nat) : UInt8 := data.getD i 0
  let len7 := byte 1 &&& 0x7F
  let i := if len7 < 126 then 2 else if len7 = 126 then 4 else 10
  { fin := decide (byte 0 &&& 0x80 = 0x80)
    rsv := byte 0 &&& 0x70
    mask := decide (byte 1 &&& 0x80 = 0x80)
    opCode := byte 0 &&& 0x0F
    payloadLength :=
      if len7 < 126 then len7.toNat
      else if len7 = 126 then ((byte 2).toNat <<< 8) ||| (byte 3).toNat
      else
        ((byte 2).toNat <<< 56) ||| ((byte 3).toNat <<< 48) ||| ((byte 4).toNat <<< 40)
          ||| ((byte 5).toNat <<< 32) ||| ((byte 6).toNat <<< 24) ||| ((byte 7).toNat <<< 16)
          ||| ((byte 8).toNat <<< 8) ||| (byte 9).toNat
    maskingKey := if decide (byte 1 &&& 0x80 = 0x80) then
        ⟨byte i, byte (i + 1), byte (i + 2), byte (i + 3)⟩ else .zero
    headerSize := headerSizeOf (byte 1) }

/-- A first byte the parser turns down: reserved bits, or an opcode that is none. -/
def Rejected (b : UInt8) : Prop :=
  b &&& 0x70 ≠ 0 ∨ b &&& 0x0F > 10 ∨ (b &&& 0x0F > 2 ∧ b &&& 0x0F < 8)

/-- The parser waits for the bytes the second byte announces. -/
theorem wsParseHeader_short {data : List UInt8}
    (h : data.length < 2 ∨ data.length < headerSizeOf (data.getD 1 0)) :
    wsParseHeader data = .ok .notEnoughData := by
  have hcap := headerSizeOf_le (data.getD 1 0)
  unfold wsParseHeader
  by_cases h₁ : data.length < 2
  · rw [if_pos h₁]
  · rw [if_neg h₁]
    dsimp only
    rw [if_neg (Nat.not_lt.mpr hcap), if_pos (h.resolve_left h₁)]

theorem wsParseHeader_rejected {data : List UInt8}
    (h : ¬ (data.length < 2 ∨ data.length < headerSizeOf (data.getD 1 0)))
    (hbyte : Rejected (data.getD 0 0)) : wsParseHeader data = .ok .invalid := by
  obtain ⟨h₁, h₂⟩ := not_or.mp h
  have hcap := headerSizeOf_le (data.getD 1 0)
  unfold wsParseHeader
  rw [if_neg h₁]
  dsimp only
  rw [if_neg (Nat.not_lt.mpr hcap), if_neg h₂]
  by_cases hrsv : data.getD 0 0 &&& 0x70 ≠ 0
  · rw [if_pos hrsv]
  · rw [if_neg hrsv, if_pos (hbyte.resolve_left hrsv)]

theorem wsParseHeader_parsed {data : List UInt8}
    (h : ¬ (data.length < 2 ∨ data.length < headerSizeOf (data.getD 1 0)))
    (hbyte : ¬ Rejected (data.getD 0 0)) :
    wsParseHeader data = .ok (.ok (parsedHeader data)) := by
  obtain ⟨h₁, h₂⟩ := not_or.mp h
  obtain ⟨hrsv, hop⟩ := not_or.mp hbyte
  have hcap := headerSizeOf_le (data.getD 1 0)
  unfold wsParseHeader
  rw [if_neg h₁]
  dsimp only
  rw [if_neg (Nat.not_lt.mpr hcap), if_neg h₂, if_neg hrsv, if_neg hop]
  rfl

/-- **What the parser says of any bytes.** -/
theorem wsParseHeader_cases (data : List UInt8) :
    ((data.length < 2 ∨ data.length < headerSizeOf (data.getD 1 0)) ∧
        wsParseHeader data = .ok .notEnoughData) ∨
      (¬ (data.length < 2 ∨ data.length < headerSizeOf (data.getD 1 0)) ∧
        Rejected (data.getD 0 0) ∧ wsParseHeader data = .ok .invalid) ∨
      (¬ (data.length < 2 ∨ data.length < headerSizeOf (data.getD 1 0)) ∧
        ¬ Rejected (data.getD 0 0) ∧ wsParseHeader data = .ok (.ok (parsedHeader data))) := by
  by_cases hshort : data.length < 2 ∨ data.length < headerSizeOf (data.getD 1 0)
  · exact .inl ⟨hshort, wsParseHeader_short hshort⟩
  · by_cases hbyte : Rejected (data.getD 0 0)
    · exact .inr (.inl ⟨hshort, hbyte, wsParseHeader_rejected hshort hbyte⟩)
    · exact .inr (.inr ⟨hshort, hbyte, wsParseHeader_parsed hshort hbyte⟩)

theorem wsParseHeader_ok (data : List UInt8) : ∃ status, wsParseHeader data = .ok status := by
  rcases wsParseHeader_cases data with ⟨-, h⟩ | ⟨-, -, h⟩ | ⟨-, -, h⟩
  · exact ⟨_, h⟩
  · exact ⟨_, h⟩
  · exact ⟨_, h⟩

/-- The parser waits for exactly the bytes the second byte announces. -/
theorem wsParseHeader_notEnough_iff {data : List UInt8} :
    wsParseHeader data = .ok .notEnoughData ↔
      data.length < 2 ∨ data.length < headerSizeOf (data.getD 1 0) := by
  rcases wsParseHeader_cases data with ⟨hshort, h⟩ | ⟨hlong, -, h⟩ | ⟨hlong, -, h⟩
  · exact iff_of_true h hshort
  · rw [h]
    exact iff_of_false (by simp) hlong
  · rw [h]
    exact iff_of_false (by simp) hlong

/-- A header that was parsed is the one in the bytes, all of which are there. -/
theorem wsParseHeader_eq_ok {data : List UInt8} {header : WebSocketHeader}
    (h : wsParseHeader data = .ok (.ok header)) :
    ¬ (data.length < 2 ∨ data.length < headerSizeOf (data.getD 1 0)) ∧
      ¬ Rejected (data.getD 0 0) ∧ header = parsedHeader data := by
  rcases wsParseHeader_cases data with ⟨-, h'⟩ | ⟨-, -, h'⟩ | ⟨hlong, hbyte, h'⟩
  · rw [h'] at h
    cases h
  · rw [h'] at h
    cases h
  · rw [h'] at h
    cases h
    exact ⟨hlong, hbyte, rfl⟩

/-- A header that has not arrived completely has not done so at any earlier byte. -/
theorem wsParseHeader_notEnough_left {xs ys : List UInt8}
    (h : wsParseHeader (xs ++ ys) = .ok .notEnoughData) :
    wsParseHeader xs = .ok .notEnoughData := by
  rw [wsParseHeader_notEnough_iff] at h ⊢
  by_cases h₁ : xs.length < 2
  · exact .inl h₁
  · have hget : (xs ++ ys).getD 1 0 = xs.getD 1 0 := List.getD_append _ _ _ _ (by omega)
    rw [hget, List.length_append] at h
    right
    omega

theorem wsParseHeader_size {data : List UInt8} {header : WebSocketHeader}
    (h : wsParseHeader data = .ok (.ok header)) :
    header.headerSize = headerSizeOf (data.getD 1 0) ∧ header.headerSize ≤ data.length := by
  obtain ⟨hlong, -, rfl⟩ := wsParseHeader_eq_ok h
  exact ⟨rfl, Nat.not_lt.mp (not_or.mp hlong).2⟩

/-- How far the length field and the key reach into the announced header. -/
theorem headerSizeOf_fields (b : UInt8) :
    (b &&& 0x7F < 126 ∧ 2 + (if b &&& 0x80 = 0x80 then 4 else 0) ≤ headerSizeOf b) ∨
      (b &&& 0x7F = 126 ∧ 4 + (if b &&& 0x80 = 0x80 then 4 else 0) ≤ headerSizeOf b) ∨
      (b &&& 0x7F = 127 ∧ 10 + (if b &&& 0x80 = 0x80 then 4 else 0) ≤ headerSizeOf b) := by
  have key : ∀ b : Fin 256, let b := UInt8.ofFin b
      (b &&& 0x7F < 126 ∧ 2 + (if b &&& 0x80 = 0x80 then 4 else 0) ≤ headerSizeOf b) ∨
      (b &&& 0x7F = 126 ∧ 4 + (if b &&& 0x80 = 0x80 then 4 else 0) ≤ headerSizeOf b) ∨
      (b &&& 0x7F = 127 ∧ 10 + (if b &&& 0x80 = 0x80 then 4 else 0) ≤ headerSizeOf b) := by
    decide +kernel
  exact key b.toFin

/-- The parser reads no byte after the header. -/
theorem wsParseHeader_take {data : List UInt8} {n : Nat} (hn : headerSizeOf (data.getD 1 0) ≤ n) :
    wsParseHeader (data.take n) = wsParseHeader data := by
  have htwo := two_le_headerSizeOf (data.getD 1 0)
  have hcap := headerSizeOf_le (data.getD 1 0)
  by_cases hlen : data.length ≤ n
  · rw [List.take_of_length_le hlen]
  have hget : ∀ i, i < n → (data.take n).getD i 0 = data.getD i 0 := by
    intro i hi
    simp [hi]
  have hmin : (data.take n).length = n := by
    rw [List.length_take]
    omega
  have hlong : ∀ m, n ≤ m → ¬ m < 2 ∧ ¬ m < headerSizeOf (data.getD 1 0) := by
    intro m hm
    omega
  obtain ⟨h₁, h₂⟩ := hlong n le_rfl
  obtain ⟨h₃, h₄⟩ := hlong data.length (by omega)
  unfold wsParseHeader
  simp only [hmin, hget 0 (by omega), hget 1 (by omega), if_neg h₁, if_neg h₂, if_neg h₃,
    if_neg h₄]
  have h126 : ¬ (126 : UInt8) < 126 := by decide
  have h127 : ¬ (127 : UInt8) < 126 ∧ ¬ (127 : UInt8) = 126 := by decide
  -- one case for each width of the length field, with and without a key
  by_cases hmask : data.getD 1 0 &&& 0x80 = 0x80
  · simp only [hmask, if_true, decide_true]
    rcases headerSizeOf_fields (data.getD 1 0) with ⟨h, hsize⟩ | ⟨h, hsize⟩ | ⟨h, hsize⟩
    · rw [if_pos hmask] at hsize
      simp only [if_pos h, hget 2 (by omega), hget 3 (by omega), hget 4 (by omega),
        hget 5 (by omega)]
    · rw [if_pos hmask] at hsize
      simp only [h, if_neg h126, if_true, hget 2 (by omega), hget 3 (by omega),
        hget 4 (by omega), hget 5 (by omega), hget 6 (by omega), hget 7 (by omega)]
    · rw [if_pos hmask] at hsize
      simp only [h, if_neg h127.1, if_neg h127.2, hget 2 (by omega), hget 3 (by omega),
        hget 4 (by omega), hget 5 (by omega), hget 6 (by omega), hget 7 (by omega),
        hget 8 (by omega), hget 9 (by omega), hget 10 (by omega), hget 11 (by omega),
        hget 12 (by omega), hget 13 (by omega)]
  · simp only [hmask, decide_false, if_neg Bool.false_ne_true]
    rcases headerSizeOf_fields (data.getD 1 0) with ⟨h, hsize⟩ | ⟨h, hsize⟩ | ⟨h, hsize⟩
    · simp only [if_pos h]
    · rw [if_neg hmask] at hsize
      simp only [h, if_neg h126, if_true, hget 2 (by omega), hget 3 (by omega)]
    · rw [if_neg hmask] at hsize
      simp only [h, if_neg h127.1, if_neg h127.2, hget 2 (by omega), hget 3 (by omega),
        hget 4 (by omega), hget 5 (by omega), hget 6 (by omega), hget 7 (by omega),
        hget 8 (by omega), hget 9 (by omega)]

end BeyondProtocol.Quic
