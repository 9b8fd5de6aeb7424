import BeyondProtocol.Quic.WebSocketHeader

/-!
# WebSocket headers on the TCP side (`protocol/websocket.cpp`)

The repository has the framing header twice. `ws_prepare` and `ws_parse` serve the
sockets of `protocol/`, `WsWriteHeader` and `WsParseHeader` those of `quic/`, and peers
of the two kinds talk to each other. Both are written out by hand for the three widths
of the length field; this file has the first pair, and that it agrees with the second
on every input.
-/

namespace BeyondProtocol

open Quic (OpCodeType WsMaskKey maskBit lengthByte)

/-! ## §1  The source functions -/

/-- `header[i] = …` for consecutive places. -/
def store (header : List UInt8) (i : Nat) : List UInt8 → List UInt8
  | [] => header
  | b :: bs => store (header.set i b) (i + 1) bs

/-- `ws_prepare`: `none` is the return value `-1`, otherwise the return value and the bytes
of the header. `maskingKey` are the bytes of `mask` as they lie in memory. -/
def wsPrepare (op : OpCodeType) (useMask : Bool) (maskingKey : WsMaskKey) (len maxlen : Nat) :
    Option (Nat × List UInt8) :=
  let headerSize := 2 + (if len ≥ 126 then 2 else 0) + (if len ≥ 65536 then 6 else 0)
    + (if useMask then 4 else 0)
  if headerSize > maxlen then none
  else
    -- `memset`
    let header := List.replicate headerSize 0
    let header := store header 0 [0x80 ||| op]
    let key := if useMask then maskingKey.bytes else []
    let header :=
      if len < 126 then
        store (store header 1 [lengthByte len 0 ||| maskBit useMask]) 2 key
      else if len < 65536 then
        store (store header 1 [126 ||| maskBit useMask, lengthByte len 8, lengthByte len 0]) 4 key
      else
        store (store header 1 [127 ||| maskBit useMask, lengthByte len 56, lengthByte len 48,
          lengthByte len 40, lengthByte len 32, lengthByte len 24, lengthByte len 16,
          lengthByte len 8, lengthByte len 0]) 10 key
    some (headerSize, header)

/-- `wsheader_type` -/
structure WsHeaderType where
  headerSize : Nat
  fin : Bool
  rsv : Int
  mask : Bool
  opcode : OpCodeType
  n0 : Nat
  n : UInt64
  maskingKey : WsMaskKey
deriving DecidableEq, Repr

/-- `ws->N = 0; ws->N |= ((uint64_t) data[i]) << shift; …` -/
def readLength (byte : Nat → UInt8) (places : List (Nat × UInt64)) : UInt64 :=
  places.foldl (fun n place => n ||| (byte place.1).toUInt64 <<< place.2) 0

/-- `ws_parse(data, len, ws)` on the `len` bytes of `data`. -/
def wsParse (data : List UInt8) : Except String WsHeaderType :=
  if data.length < 2 then .error "Websock header too small"
  else
    let byte (i : Nat) : UInt8 := data.getD i 0
    let fin := decide (byte 0 &&& 0x80 = 0x80)
    let rsv : Int := (byte 0 &&& 0x70).toNat
    let opcode := byte 0 &&& 0x0f
    let mask := decide (byte 1 &&& 0x80 = 0x80)
    let n0 := (byte 1 &&& 0x7f).toNat
    let headerSize := 2 + (if n0 = 126 then 2 else 0) + (if n0 = 127 then 8 else 0)
      + (if mask then 4 else 0)
    if data.length < headerSize then .error "Websock header too small"
    else if rsv ≠ 0 then .error "WS header reserved not zero"
    else if opcode > 10 ∨ (opcode > 2 ∧ opcode < 8) then .error "Websock opcode invalid"
    else
      let (n, i) :=
        if n0 < 126 then (UInt64.ofNat n0, 2)
        else if n0 = 126 then (readLength byte [(2, 8), (3, 0)], 4)
        else (readLength byte [(2, 56), (3, 48), (4, 40), (5, 32), (6, 24), (7, 16), (8, 8),
          (9, 0)], 10)
      .ok
        { headerSize := headerSize
          fin := fin
          rsv := rsv
          mask := mask
          opcode := opcode
          n0 := n0
          n := n
          maskingKey := if mask then ⟨byte i, byte (i + 1), byte (i + 2), byte (i + 3)⟩
            else ⟨0, 0, 0, 0⟩ }

/-! ## §2  Writing -/

/-- The stores fill the header with the bytes that `WsWriteHeader` puts there. -/
theorem wsPrepare_eq (op : OpCodeType) (useMask : Bool) (key : WsMaskKey) (len maxlen : Nat) :
    wsPrepare op useMask key len maxlen =
      if (Quic.headerBytes op useMask key len).length > maxlen then none
      else some ((Quic.headerBytes op useMask key len).length,
        Quic.headerBytes op useMask key len) := by
  rw [Quic.length_headerBytes]
  unfold wsPrepare Quic.headerBytes Quic.sizeBytes
  -- one case for each width of the length field
  by_cases h₁ : len < 126
  · have h₂ : len < 65536 := by omega
    simp only [if_pos h₁, if_neg (Nat.not_le.mpr h₁), if_neg (Nat.not_le.mpr h₂)]
    cases useMask <;> rfl
  · by_cases h₂ : len < 65536
    · simp only [if_neg h₁, if_pos h₂, if_pos (Nat.not_lt.mp h₁), if_neg (Nat.not_le.mpr h₂)]
      cases useMask <;> rfl
    · simp only [if_neg h₁, if_neg h₂, if_pos (Nat.not_lt.mp h₁), if_pos (Nat.not_lt.mp h₂)]
      cases useMask <;> rfl

/-! ## §3  Parsing -/

theorem toNat_shift_byte (b : UInt8) {s : UInt64} (h : s.toNat ≤ 56) :
    (b.toUInt64 <<< s).toNat = b.toNat <<< s.toNat := by
  have hb := b.toNat_lt
  have hlt : b.toNat <<< s.toNat < 2 ^ 64 := by
    rw [Nat.shiftLeft_eq]
    calc b.toNat * 2 ^ s.toNat < 2 ^ 8 * 2 ^ s.toNat := by gcongr
      _ = 2 ^ (8 + s.toNat) := (Nat.pow_add ..).symm
      _ ≤ 2 ^ 64 := Nat.pow_le_pow_right (by decide) (by omega)
  have hs : s.toNat % 64 = s.toNat := Nat.mod_eq_of_lt (by omega)
  rw [UInt64.toNat_shiftLeft, UInt8.toNat_toUInt64, hs, Nat.mod_eq_of_lt hlt]

theorem toNat_readLength (byte : Nat → UInt8) {places : List (Nat × UInt64)}
    (h : ∀ place ∈ places, place.2.toNat ≤ 56) :
    (readLength byte places).toNat =
      places.foldl (fun n place => n ||| (byte place.1).toNat <<< place.2.toNat) 0 := by
  have hfold : ∀ n : UInt64,
      (places.foldl (fun n place => n ||| (byte place.1).toUInt64 <<< place.2) n).toNat =
        places.foldl (fun n place => n ||| (byte place.1).toNat <<< place.2.toNat) n.toNat := by
    induction places with
    | nil =>
        intro n
        rfl
    | cons place places ih =>
        intro n
        rw [List.foldl_cons, List.foldl_cons, ih fun p hp => h p (List.mem_cons_of_mem _ hp),
          UInt64.toNat_or, toNat_shift_byte _ (h place List.mem_cons_self)]
  exact hfold 0

/-- The two header records say the same. -/
structure SameHeader (ws : WsHeaderType) (header : Quic.WebSocketHeader) : Prop where
  fin : ws.fin = header.fin
  rsv : ws.rsv = header.rsv.toNat
  opcode : ws.opcode = header.opCode
  mask : ws.mask = header.mask
  length : ws.n.toNat = header.payloadLength
  key : ws.maskingKey = header.maskingKey
  size : ws.headerSize = header.headerSize

/-- Where `ws_parse` throws, `WsParseHeader` says why it does not go on. -/
inductive SameResult : Except String WsHeaderType → Quic.WsParseHeaderStatus → Prop where
  | parsed {ws : WsHeaderType} {header : Quic.WebSocketHeader} (h : SameHeader ws header) :
      SameResult (.ok ws) (.ok header)
  | short : SameResult (.error "Websock header too small") .notEnoughData
  | reserved : SameResult (.error "WS header reserved not zero") .invalid
  | opcode : SameResult (.error "Websock opcode invalid") .invalid

/-- The second byte announces the same header to both. -/
theorem headerSize_eq (b : UInt8) :
    2 + (if (b &&& 0x7f).toNat = 126 then 2 else 0) + (if (b &&& 0x7f).toNat = 127 then 8 else 0)
      + (if decide (b &&& 0x80 = 0x80) = true then 4 else 0) = Quic.headerSizeOf b := by
  have h126 : (b &&& 0x7f).toNat = 126 ↔ b &&& 0x7f = 126 := UInt8.toNat_inj (b := 126)
  have h127 : (b &&& 0x7f).toNat = 127 ↔ b &&& 0x7f = 127 := UInt8.toNat_inj (b := 127)
  simp only [Quic.headerSizeOf, h126, h127, decide_eq_true_eq]

theorem wsParse_same (data : List UInt8) :
    ∃ status, Quic.wsParseHeader data = .ok status ∧ SameResult (wsParse data) status := by
  unfold Quic.wsParseHeader wsParse
  by_cases hlen : data.length < 2
  · simp only [if_pos hlen]
    exact ⟨_, rfl, .short⟩
  simp only [if_neg hlen, headerSize_eq, if_neg (Nat.not_lt.mpr (Quic.headerSizeOf_le _))]
  by_cases hsize : data.length < Quic.headerSizeOf (data.getD 1 0)
  · simp only [if_pos hsize]
    exact ⟨_, rfl, .short⟩
  have hrsv : ((data.getD 0 0 &&& 0x70).toNat : Int) ≠ 0 ↔ data.getD 0 0 &&& 0x70 ≠ 0 := by
    have := UInt8.toNat_inj (a := data.getD 0 0 &&& 0x70) (b := 0)
    simpa using not_congr this
  simp only [if_neg hsize, hrsv]
  by_cases hzero : data.getD 0 0 &&& 0x70 ≠ 0
  · simp only [if_pos hzero]
    exact ⟨_, rfl, .reserved⟩
  simp only [if_neg hzero]
  by_cases hop : data.getD 0 0 &&& 0x0f > 10 ∨
      (data.getD 0 0 &&& 0x0f > 2 ∧ data.getD 0 0 &&& 0x0f < 8)
  · simp only [if_pos hop]
    exact ⟨_, rfl, .opcode⟩
  simp only [if_neg hop]
  refine ⟨_, rfl, .parsed ?_⟩
  have hlt : (data.getD 1 0 &&& 0x7f).toNat < 126 ↔ data.getD 1 0 &&& 0x7f < 126 := Iff.rfl
  have h126 : (data.getD 1 0 &&& 0x7f).toNat = 126 ↔ data.getD 1 0 &&& 0x7f = 126 :=
    UInt8.toNat_inj (b := 126)
  simp only [hlt, h126]
  -- one case for each width of the length field
  by_cases hshort : data.getD 1 0 &&& 0x7f < 126
  · simp only [if_pos hshort]
    refine ⟨rfl, rfl, rfl, rfl, ?_, rfl, rfl⟩
    have := (data.getD 1 0 &&& 0x7f).toNat_lt
    rw [UInt64.toNat_ofNat', Nat.mod_eq_of_lt (by omega)]
  · by_cases hmiddle : data.getD 1 0 &&& 0x7f = 126
    · simp only [if_neg hshort, if_pos hmiddle]
      refine ⟨rfl, rfl, rfl, rfl, ?_, rfl, rfl⟩
      rw [toNat_readLength _ (by decide)]
      simp
    · simp only [if_neg hshort, if_neg hmiddle]
      refine ⟨rfl, rfl, rfl, rfl, ?_, rfl, rfl⟩
      rw [toNat_readLength _ (by decide)]
      simp

/-- `ws_parse` succeeds where `WsParseHeader` does, with the same header. -/
theorem wsParse_of_quic {data : List UInt8} {header : Quic.WebSocketHeader}
    (h : Quic.wsParseHeader data = .ok (.ok header)) :
    ∃ ws, wsParse data = .ok ws ∧ SameHeader ws header := by
  obtain ⟨status, hstatus, hsame⟩ := wsParse_same data
  cases h.symm.trans hstatus
  generalize wsParse data = result at hsame
  cases hsame with
  | parsed hheader => exact ⟨_, rfl, hheader⟩

/-- **The two WebSocket implementations agree**: they write the same headers into the same
buffers, and they parse the same byte strings, to the same header. -/
theorem websocket_sides_agree (op : OpCodeType) (useMask : Bool) (key : WsMaskKey)
    (len : Nat) (capacity : Nat) (hcapacity : 12 ≤ capacity) (data : List UInt8) :
    (Quic.wsWriteHeader op useMask key len capacity =
        .ok (wsPrepare op useMask key len capacity) ∧
      ∀ size header, wsPrepare op useMask key len capacity = some (size, header) →
        header.length = size) ∧
    ((∃ ws, wsParse data = .ok ws) ↔ ∃ header, Quic.wsParseHeader data = .ok (.ok header)) ∧
    ∀ ws header, wsParse data = .ok ws → Quic.wsParseHeader data = .ok (.ok header) →
      SameHeader ws header := by
  refine ⟨?_, ?_⟩
  · rw [wsPrepare_eq, Quic.wsWriteHeader_eq op useMask key len hcapacity]
    split_ifs with hlarge
    · exact ⟨rfl, nofun⟩
    · refine ⟨rfl, ?_⟩
      rintro size header ⟨⟩
      rfl
  · obtain ⟨status, hstatus, hsame⟩ := wsParse_same data
    rw [hstatus]
    constructor
    · constructor
      · rintro ⟨ws, hws⟩
        rw [hws] at hsame
        cases hsame with
        | parsed h => exact ⟨_, rfl⟩
      · rintro ⟨header, hheader⟩
        cases hheader
        generalize wsParse data = result at hsame ⊢
        cases hsame with
        | parsed h => exact ⟨_, rfl⟩
    · intro ws header hws hheader
      cases hheader
      rw [hws] at hsame
      cases hsame with
      | parsed h => exact h

theorem websocket_sides_agree_masked : ∃ ws header,
    wsPrepare 2 true ⟨1, 2, 3, 4⟩ 126 12 = some (8, [0x82, 0xfe, 0, 126, 1, 2, 3, 4]) ∧
      Quic.wsWriteHeader 2 true ⟨1, 2, 3, 4⟩ 126 12 =
        .ok (some (8, [0x82, 0xfe, 0, 126, 1, 2, 3, 4])) ∧
      wsParse [0x82, 0xfe, 0, 126, 1, 2, 3, 4] = .ok ws ∧
      Quic.wsParseHeader [0x82, 0xfe, 0, 126, 1, 2, 3, 4] = .ok (.ok header) ∧
      SameHeader ws header := by
  obtain ⟨⟨hwrite, -⟩, -, hsame⟩ := websocket_sides_agree 2 true ⟨1, 2, 3, 4⟩ 126
    12 (by decide) [0x82, 0xfe, 0, 126, 1, 2, 3, 4]
  exact ⟨_, _, rfl, hwrite, rfl, rfl, hsame _ _ rfl rfl⟩

end BeyondProtocol
