import BeyondProtocol.Framework.Fallible
import BeyondProtocol.Framework.Msgpack
import BeyondProtocol.Protocol.WebSocket

/-!
# Taking frames off a TCP WebSocket (`protocol/websocket.cpp`, `peer_tcp.cpp`)

What the socket gives is appended to one buffer. Before a message is unpacked from the front
of it, `prepare_next` has to say that a whole frame is there and how long its header is.

It does not look at fewer than 14 bytes, as many as the longest header has, and it adds the
sizes of header and payload in 64 bits.
-/

namespace BeyondProtocol

open Framework

/-! ## §1  The source functions -/

namespace WebSocketBase

/-- `prepare_next`: the value it returns and `offset`. -/
def prepareNext (data : List UInt8) : Except String (Bool × ℕ) :=
  if data.length < 14 then .ok (false, 0)
  else do
    let header ← wsParse data
    if (header.n + UInt64.ofNat header.headerSize).toNat > data.length then .ok (false, 0)
    else if header.mask then .error "masked WebSocket data not supported"
    else .ok (true, header.headerSize)

end WebSocketBase

/-- The receiving side of a `PeerTcp`: the bytes the unpacker has not parsed, and the messages
that were processed. -/
structure TcpReceiver (Object : Type) where
  buffer : List UInt8 := []
  processed : List Object := []
  isValid : Bool := true
deriving DecidableEq, Repr

namespace TcpReceiver

variable {Object : Type}

/-- `_has_next` on a valid socket. -/
def hasNext (buffer : List UInt8) : Except String (Bool × List UInt8) := do
  let (hasNext, skip) ← WebSocketBase.prepareNext buffer
  .ok (hasNext, if hasNext then buffer.drop skip else buffer)

/-- `_data`, with the value it returns; `next` is the one of the unpacker. A job runs alone
here, so nothing has arrived since it looked. -/
def data (next : List UInt8 → Except String (Option Object × List UInt8))
    (s : TcpReceiver Object) : TcpReceiver Object × Bool :=
  if s.isValid = false then (s, false)
  else
    match (do
      let (hasNext, buffer) ← hasNext s.buffer
      if hasNext then next buffer else .ok (none, buffer)) with
    | .error _ => ({ s with isValid := false }, false)
    | .ok (none, buffer) => ({ s with buffer := buffer }, false)
    | .ok (some message, buffer) =>
        ({ s with buffer := buffer, processed := s.processed ++ [message] }, true)

/-- `while (_data());`, with a bound on the number of calls. -/
def dataLoop (next : List UInt8 → Except String (Option Object × List UInt8)) :
    ℕ → TcpReceiver Object → Option (TcpReceiver Object)
  | 0, _ => none
  | fuel + 1, s =>
      let (s, more) := data next s
      if more then dataLoop next fuel s else some s

/-- `recv`, and the job it creates. -/
def recv (next : List UInt8 → Except String (Option Object × List UInt8))
    (s : TcpReceiver Object) (bytes : List UInt8) : Option (TcpReceiver Object) :=
  let s := { s with buffer := s.buffer ++ bytes }
  dataLoop next (s.buffer.length + 1) s

/-- The bytes arrive in pieces. -/
def recvAll (next : List UInt8 → Except String (Option Object × List UInt8))
    (s : TcpReceiver Object) (pieces : List (List UInt8)) : Option (TcpReceiver Object) :=
  pieces.foldlM (recv next) s

end TcpReceiver

/-! ## §2  Soundness -/

/-- A parsed header is the one the QUIC side finds. -/
theorem quic_of_wsParse {data : List UInt8} {ws : WsHeaderType} (h : wsParse data = .ok ws) :
    ∃ header, Quic.wsParseHeader data = .ok (.ok header) ∧ SameHeader ws header := by
  obtain ⟨status, hstatus, hsame⟩ := wsParse_same data
  rw [h] at hsame
  cases hsame with
  | parsed hheader => exact ⟨_, hstatus, hheader⟩

theorem wsParse_headerSize {data : List UInt8} {ws : WsHeaderType} (h : wsParse data = .ok ws) :
    ws.headerSize ≤ 14 ∧ ws.headerSize ≤ data.length := by
  obtain ⟨header, hheader, hsame⟩ := quic_of_wsParse h
  obtain ⟨hsize, hle⟩ := Quic.wsParseHeader_size hheader
  rw [hsame.size]
  exact ⟨hsize ▸ Quic.headerSizeOf_le _, hle⟩

namespace WebSocketBase

/-- The bytes start with a complete unmasked frame that has this header. -/
structure StartsFrame (data : List UInt8) (ws : WsHeaderType) : Prop where
  parsed : wsParse data = .ok ws
  unmasked : ws.mask = false
  complete : ws.headerSize + ws.n.toNat ≤ data.length

/-- What is decided once the header is there. -/
theorem prepareNext_of_parse {data : List UInt8} {ws : WsHeaderType} (hlen : 14 ≤ data.length)
    (hparse : wsParse data = .ok ws) :
    prepareNext data =
      if (ws.headerSize + ws.n.toNat) % 2 ^ 64 > data.length then .ok (false, 0)
      else if ws.mask then .error "masked WebSocket data not supported"
      else .ok (true, ws.headerSize) := by
  have hsize := (wsParse_headerSize hparse).1
  have hsum : (ws.n + UInt64.ofNat ws.headerSize).toNat =
      (ws.headerSize + ws.n.toNat) % 2 ^ 64 := by
    rw [UInt64.toNat_add, UInt64.toNat_ofNat', Nat.mod_eq_of_lt (a := ws.headerSize) (by omega),
      Nat.add_comm]
  unfold prepareNext
  rw [if_neg (by omega), hparse, ok_bind, hsum]

/-- **When `prepare_next` can be believed.** It sees a frame that is not there exactly where
the size of the frame wraps around: the sum is then smaller than any header. -/
theorem prepareNext_sound_iff (data : List UInt8) (hsize : data.length < 2 ^ 64) :
    (∀ offset, prepareNext data = .ok (true, offset) →
      ∃ ws, StartsFrame data ws ∧ offset = ws.headerSize) ↔
      ¬ (14 ≤ data.length ∧ ∃ ws, wsParse data = .ok ws ∧ ws.mask = false ∧
        2 ^ 64 ≤ ws.headerSize + ws.n.toNat) := by
  constructor
  · rintro hsound ⟨hlen, ws, hparse, hmask, hwide⟩
    have hn := ws.n.toNat_lt
    have hheader := (wsParse_headerSize hparse).1
    have hcall := prepareNext_of_parse hlen hparse
    rw [if_neg (by omega), hmask, if_neg Bool.false_ne_true] at hcall
    obtain ⟨ws', hstarts, -⟩ := hsound _ hcall
    cases hparse.symm.trans hstarts.parsed
    have hcomplete := hstarts.complete
    omega
  · intro hnarrow offset hcall
    by_cases hlen : 14 ≤ data.length
    · cases hparse : wsParse data with
      | error e =>
          unfold prepareNext at hcall
          rw [if_neg (by omega), hparse] at hcall
          cases hcall
      | ok ws =>
          rw [prepareNext_of_parse hlen hparse] at hcall
          split_ifs at hcall with hmore hmask
          · cases hcall
          · cases hcall
            have hunmasked : ws.mask = false := by simpa using hmask
            have hlt : ¬ 2 ^ 64 ≤ ws.headerSize + ws.n.toNat :=
              fun hwide => hnarrow ⟨hlen, ws, hparse, hunmasked, hwide⟩
            rw [Nat.mod_eq_of_lt (by omega)] at hmore
            exact ⟨ws, ⟨hparse, hunmasked, by omega⟩, rfl⟩
    · unfold prepareNext at hcall
      rw [if_pos (by omega)] at hcall
      cases hcall

/-- A header that announces 2^64 - 1 bytes, and some of them. -/
def wideBuffer : List UInt8 := [0x82, 127] ++ List.replicate 8 0xff ++ [0, 0, 0, 0]

def wideHeader : WsHeaderType :=
  { headerSize := 10
    fin := true
    rsv := 0
    mask := false
    opcode := Quic.OpCodeType.BINARY_FRAME
    n0 := 127
    n := 0xffffffffffffffff
    maskingKey := ⟨0, 0, 0, 0⟩ }

theorem wsParse_wideBuffer : wsParse wideBuffer = .ok wideHeader := by
  decide +kernel

/-- An unmasked binary frame of 14 bytes. -/
def shortBuffer : List UInt8 := [0x82, 12] ++ List.replicate 12 7

theorem prepareNext_short_frame : ∃ ws, StartsFrame shortBuffer ws ∧ 2 = ws.headerSize := by
  have hparse : wsParse shortBuffer =
      .ok { wideHeader with headerSize := 2, n0 := 12, n := 12 } := by decide +kernel
  apply (prepareNext_sound_iff shortBuffer (by decide)).mpr
  · rintro ⟨-, ws, hws, -, hwide⟩
    cases hparse.symm.trans hws
    exact absurd hwide (by decide)
  · decide +kernel

/-- Ten bytes and 2^64 - 1 make nine, and nine are there. -/
theorem prepareNext_wide_frame :
    prepareNext wideBuffer = .ok (true, 10) ∧ ∀ ws, ¬ StartsFrame wideBuffer ws := by
  refine ⟨?_, fun ws hstarts => ?_⟩
  · rw [prepareNext_of_parse (by decide) wsParse_wideBuffer]
    decide
  · have hcomplete := hstarts.complete
    cases wsParse_wideBuffer.symm.trans hstarts.parsed
    exact absurd hcomplete (by decide)

/-! ## §3  Completeness -/

/-- A frame that is there is seen from 14 bytes on. -/
theorem StartsFrame.prepareNext_iff {data : List UInt8} {ws : WsHeaderType}
    (h : StartsFrame data ws) (hsize : data.length < 2 ^ 64) :
    prepareNext data = .ok (true, ws.headerSize) ↔ 14 ≤ data.length := by
  have hcomplete := h.complete
  constructor
  · intro hcall
    by_contra hshort
    unfold prepareNext at hcall
    rw [if_pos (by omega)] at hcall
    cases hcall
  · intro hlen
    rw [prepareNext_of_parse hlen h.parsed, Nat.mod_eq_of_lt (by omega), if_neg (by omega),
      h.unmasked, if_neg Bool.false_ne_true]

end WebSocketBase

/-- An unmasked frame that carries one message and fits into a buffer. -/
structure MessageFrame {Object : Type} (pack : Object → List UInt8) (fits : Object → Prop) where
  header : List UInt8
  message : Object
  parsed : WsHeaderType
  fits : fits message
  parse : wsParse header = .ok parsed
  unmasked : parsed.mask = false
  size : parsed.headerSize = header.length
  length : parsed.n.toNat = (pack message).length
  short : header.length + (pack message).length < 2 ^ 64

namespace MessageFrame

variable {Object : Type} {pack : Object → List UInt8} {fits : Object → Prop}

def encode (f : MessageFrame pack fits) : List UInt8 := f.header ++ pack f.message

/-- The byte stream of the frames. -/
def stream (fs : List (MessageFrame pack fits)) : List UInt8 := fs.flatMap encode

/-- The frames whose last byte is among the first `n` of the stream. -/
def completeIn : List (MessageFrame pack fits) → ℕ → List (MessageFrame pack fits)
  | [], _ => []
  | f :: fs, n => if f.encode.length ≤ n then f :: completeIn fs (n - f.encode.length) else []

/-- The frames of which that holds and which have 14 of these bytes from their first one on. -/
def seenIn : List (MessageFrame pack fits) → ℕ → List (MessageFrame pack fits)
  | [], _ => []
  | f :: fs, n =>
      if f.encode.length ≤ n ∧ 14 ≤ n then f :: seenIn fs (n - f.encode.length) else []

/-- From the first byte of every frame that is complete, 14 bytes have arrived. -/
def Covered : List (MessageFrame pack fits) → ℕ → Prop
  | [], _ => True
  | f :: fs, n => f.encode.length ≤ n → 14 ≤ n ∧ Covered fs (n - f.encode.length)

/-- The two differ exactly by a frame at the end that is too close to the last byte. -/
theorem seenIn_eq_iff (fs : List (MessageFrame pack fits)) (n : ℕ) :
    (seenIn fs n).map message = (completeIn fs n).map message ↔ Covered fs n := by
  induction fs generalizing n with
  | nil => exact ⟨fun _ => trivial, fun _ => rfl⟩
  | cons f fs ih =>
      unfold seenIn completeIn Covered
      by_cases hcomplete : f.encode.length ≤ n
      · by_cases hlen : 14 ≤ n
        · rw [if_pos ⟨hcomplete, hlen⟩, if_pos hcomplete, List.map_cons, List.map_cons,
            List.cons_inj_right, ih]
          exact ⟨fun h _ => ⟨hlen, h⟩, fun h => (h hcomplete).2⟩
        · rw [if_neg (fun h => hlen h.2), if_pos hcomplete]
          exact ⟨fun h => (List.cons_ne_nil _ _ h.symm).elim, fun h => absurd (h hcomplete).1 hlen⟩
      · rw [if_neg (fun h => hcomplete h.1), if_neg hcomplete]
        exact ⟨fun _ h => absurd h hcomplete, fun _ => rfl⟩

/-- More bytes show more frames, behind those seen before. -/
theorem seenIn_add (fs : List (MessageFrame pack fits)) (n m : ℕ) :
    seenIn fs (n + m) = seenIn fs n ++
      seenIn (fs.drop (seenIn fs n).length) (n - (stream (seenIn fs n)).length + m) := by
  induction fs generalizing n with
  | nil => rfl
  | cons f fs ih =>
      by_cases hseen : f.encode.length ≤ n ∧ 14 ≤ n
      · have hmore : f.encode.length ≤ n + m ∧ 14 ≤ n + m := by omega
        have hn : seenIn (f :: fs) n = f :: seenIn fs (n - f.encode.length) := if_pos hseen
        have hnm : seenIn (f :: fs) (n + m) = f :: seenIn fs (n + m - f.encode.length) :=
          if_pos hmore
        rw [hn, hnm, show n + m - f.encode.length = n - f.encode.length + m by omega, ih]
        simp only [List.length_cons, List.drop_succ_cons, List.cons_append, stream,
          List.flatMap_cons, List.length_append, Nat.sub_sub]
      · have hn : seenIn (f :: fs) n = [] := if_neg hseen
        rw [hn]
        simp [stream]

theorem seenIn_split (fs : List (MessageFrame pack fits)) (n : ℕ) :
    seenIn fs n ++ fs.drop (seenIn fs n).length = fs ∧ (stream (seenIn fs n)).length ≤ n := by
  induction fs generalizing n with
  | nil => exact ⟨rfl, Nat.zero_le n⟩
  | cons f fs ih =>
      unfold seenIn
      split_ifs with hseen
      · obtain ⟨hsplit, hle⟩ := ih (n - f.encode.length)
        refine ⟨congrArg (f :: ·) hsplit, ?_⟩
        rw [stream, List.flatMap_cons, List.length_append, ← stream]
        omega
      · exact ⟨rfl, Nat.zero_le n⟩

theorem stream_append (fs gs : List (MessageFrame pack fits)) :
    stream (fs ++ gs) = stream fs ++ stream gs :=
  List.flatMap_append

/-- `ws_parse` reads no byte after the header. -/
theorem wsParse_of_header {header data : List UInt8} {ws : WsHeaderType}
    (h : wsParse header = .ok ws) (hsize : ws.headerSize = header.length) (hpre : header <+: data) :
    ∃ ws', wsParse data = .ok ws' ∧ ws'.mask = ws.mask ∧ ws'.headerSize = ws.headerSize ∧
      ws'.n.toNat = ws.n.toNat := by
  obtain ⟨hd, hquic, hsame⟩ := quic_of_wsParse h
  have hof := (Quic.wsParseHeader_size hquic).1
  rw [← hsame.size, hsize] at hof
  obtain ⟨rest, rfl⟩ := hpre
  have htwo := Quic.two_le_headerSizeOf (header.getD 1 0)
  have hget : (header ++ rest).getD 1 0 = header.getD 1 0 := List.getD_append _ _ _ _ (by omega)
  have htake := @Quic.wsParseHeader_take (header ++ rest) header.length (by rw [hget]; omega)
  rw [List.take_left, hquic] at htake
  obtain ⟨ws', hparse, hsame'⟩ := wsParse_of_quic htake.symm
  exact ⟨ws', hparse, hsame'.mask.trans hsame.mask.symm, hsame'.size.trans hsame.size.symm,
    hsame'.length.trans hsame.length.symm⟩

end MessageFrame

namespace TcpReceiver

open MessageFrame

variable {Object : Type} {pack : Object → List UInt8} {fits : Object → Prop}
variable {next : List UInt8 → Except String (Option Object × List UInt8)}

theorem data_of_false {s : TcpReceiver Object} (hvalid : s.isValid = true)
    (h : WebSocketBase.prepareNext s.buffer = .ok (false, 0)) : data next s = (s, false) := by
  unfold data hasNext
  rw [if_neg (by simp [hvalid]), h]
  rfl

/-- One call of `_data` with the beginning of a stream of frames in the buffer. -/
theorem data_frame (hnext : ∀ o rest, fits o → next (pack o ++ rest) = .ok (some o, rest))
    {s : TcpReceiver Object} (hvalid : s.isValid = true) {f : MessageFrame pack fits}
    {more : List UInt8} (hpre : s.buffer <+: f.encode ++ more) :
    data next s =
      if f.encode.length ≤ s.buffer.length ∧ 14 ≤ s.buffer.length then
        ({ s with
            buffer := s.buffer.drop f.encode.length
            processed := s.processed ++ [f.message] }, true)
      else (s, false) := by
  by_cases hlen : 14 ≤ s.buffer.length
  · -- all of the header is there
    have hle : f.header.length ≤ 14 := f.size ▸ (wsParse_headerSize f.parse).1
    have hheader : f.header <+: s.buffer := by
      apply List.prefix_of_prefix_length_le _ hpre (by omega)
      rw [encode, List.append_assoc]
      exact List.prefix_append _ _
    obtain ⟨ws, hparse, hmask, hsize, hn⟩ := wsParse_of_header f.parse f.size hheader
    have hsum : ws.headerSize + ws.n.toNat = f.encode.length := by
      rw [hsize, hn, f.size, f.length, encode, List.length_append]
    have hshort := f.short
    rw [← List.length_append, ← encode] at hshort
    have hcall := WebSocketBase.prepareNext_of_parse hlen hparse
    rw [hsum, Nat.mod_eq_of_lt hshort, hmask, f.unmasked] at hcall
    by_cases hcomplete : f.encode.length ≤ s.buffer.length
    · rw [if_neg (by omega), if_neg Bool.false_ne_true, hsize, f.size] at hcall
      rw [if_pos ⟨hcomplete, hlen⟩]
      have hwhole : f.encode <+: s.buffer :=
        List.prefix_of_prefix_length_le (List.prefix_append _ _) hpre hcomplete
      obtain ⟨rest, hrest⟩ := hwhole
      have hskip : s.buffer.drop f.header.length = pack f.message ++ rest := by
        rw [← hrest, encode, List.append_assoc, List.drop_left]
      have hleft : s.buffer.drop f.encode.length = rest := by
        rw [← hrest, List.drop_left]
      unfold data hasNext
      rw [if_neg (by simp [hvalid]), hcall, hleft]
      simp only [ok_bind, if_true, hskip, hnext f.message rest f.fits]
    · rw [if_pos (by omega)] at hcall
      rw [if_neg (fun h => hcomplete h.1)]
      exact data_of_false hvalid hcall
  · rw [if_neg (fun h => hlen h.2)]
    exact data_of_false hvalid (if_pos (by omega))

theorem encode_pos (f : MessageFrame pack fits) : 0 < f.encode.length := by
  obtain ⟨hd, hquic, hsame⟩ := quic_of_wsParse f.parse
  have htwo := Quic.two_le_headerSizeOf (f.header.getD 1 0)
  rw [← (Quic.wsParseHeader_size hquic).1, ← hsame.size, f.size] at htwo
  rw [encode, List.length_append]
  omega

/-- The job takes all frames that can be seen. -/
theorem dataLoop_stream (hnext : ∀ o rest, fits o → next (pack o ++ rest) = .ok (some o, rest))
    {fs : List (MessageFrame pack fits)} {s : TcpReceiver Object} (hvalid : s.isValid = true)
    (hpre : s.buffer <+: stream fs) {fuel : ℕ} (hfuel : s.buffer.length < fuel) :
    dataLoop next fuel s = some { s with
      buffer := s.buffer.drop (stream (seenIn fs s.buffer.length)).length
      processed := s.processed ++ (seenIn fs s.buffer.length).map message } := by
  induction fs generalizing s fuel with
  | nil =>
      have hnil : s.buffer = [] := List.prefix_nil.mp hpre
      obtain ⟨fuel, rfl⟩ : ∃ k, fuel = k + 1 := ⟨fuel - 1, by omega⟩
      have hcall : data next s = (s, false) := by
        apply data_of_false hvalid
        rw [hnil]
        rfl
      rw [dataLoop, hcall]
      simp [seenIn, stream]
  | cons f fs ih =>
      obtain ⟨fuel, rfl⟩ : ∃ k, fuel = k + 1 := ⟨fuel - 1, by omega⟩
      rw [stream, List.flatMap_cons, ← stream] at hpre
      rw [dataLoop, data_frame hnext hvalid hpre]
      by_cases hseen : f.encode.length ≤ s.buffer.length ∧ 14 ≤ s.buffer.length
      · have hrest : s.buffer.drop f.encode.length <+: stream fs := by
          have hdrop := hpre.drop f.encode.length
          rwa [List.drop_left] at hdrop
        have hpos := encode_pos f
        have hsee : seenIn (f :: fs) s.buffer.length =
            f :: seenIn fs (s.buffer.length - f.encode.length) := if_pos hseen
        rw [if_pos hseen, hsee]
        simp only [if_true]
        rw [ih (s := { s with
            buffer := s.buffer.drop f.encode.length
            processed := s.processed ++ [f.message] }) hvalid hrest
          (by rw [List.length_drop]; omega)]
        simp only [List.length_drop, List.drop_drop, List.map_cons, List.append_assoc,
          List.singleton_append, stream, List.flatMap_cons, List.length_append]
      · have hsee : seenIn (f :: fs) s.buffer.length = [] := if_neg hseen
        rw [if_neg hseen, hsee]
        simp [stream]

/-- Where the receiver is after the first `n` bytes of the stream. -/
structure Received (fs : List (MessageFrame pack fits)) (n : ℕ) (s : TcpReceiver Object) :
    Prop where
  isValid : s.isValid = true
  processed : s.processed = (seenIn fs n).map message
  buffer : s.buffer = ((stream fs).take n).drop (stream (seenIn fs n)).length

theorem take_add_of_isPrefix {l piece : List UInt8} {n : ℕ} (hn : n ≤ l.length)
    (h : l.take n ++ piece <+: l) : l.take (n + piece.length) = l.take n ++ piece := by
  have hlen : (l.take n ++ piece).length = n + piece.length := by
    rw [List.length_append, List.length_take, min_eq_left hn]
  rw [← hlen]
  exact (List.prefix_iff_eq_take.mp h).symm

theorem recv_stream (hnext : ∀ o rest, fits o → next (pack o ++ rest) = .ok (some o, rest))
    {fs : List (MessageFrame pack fits)} {n : ℕ} {s : TcpReceiver Object} (h : Received fs n s)
    {piece : List UInt8} (hn : n ≤ (stream fs).length)
    (hpiece : (stream fs).take n ++ piece <+: stream fs) :
    ∃ s', recv next s piece = some s' ∧ Received fs (n + piece.length) s' := by
  obtain ⟨hsplit, hle⟩ := seenIn_split fs n
  set seen := seenIn fs n with hseen
  set left := fs.drop seen.length with hleft
  have hlen : ((stream fs).take n).length = n := by
    rw [List.length_take, min_eq_left hn]
  have hbuf : s.buffer ++ piece =
      ((stream fs).take (n + piece.length)).drop (stream seen).length := by
    rw [h.buffer, take_add_of_isPrefix hn hpiece, List.drop_append_of_le_length (by omega)]
  have hpre : s.buffer ++ piece <+: stream left := by
    have hdrop := (List.take_prefix (n + piece.length) (stream fs)).drop (stream seen).length
    rwa [← hbuf, ← hsplit, stream_append, List.drop_left] at hdrop
  have hsize : (s.buffer ++ piece).length = n - (stream seen).length + piece.length := by
    rw [hbuf, List.length_drop, take_add_of_isPrefix hn hpiece, List.length_append, hlen]
    omega
  have hloop := dataLoop_stream hnext (s := { s with buffer := s.buffer ++ piece }) h.isValid hpre
    (Nat.lt_succ_self _)
  refine ⟨_, hloop, ?_⟩
  -- what is seen now comes behind what was seen before
  have hadd := seenIn_add fs n piece.length
  rw [← hseen, ← hleft, ← hsize] at hadd
  set new := seenIn left (s.buffer ++ piece).length
  have hboth : (stream (seen ++ new)).length = (stream seen).length + (stream new).length := by
    rw [stream_append, List.length_append]
  exact
    { isValid := h.isValid
      processed := by rw [hadd, List.map_append, h.processed]
      buffer := by rw [hadd, hboth, ← List.drop_drop, ← hbuf] }

/-- The run over all pieces. -/
theorem recvAll_stream (hnext : ∀ o rest, fits o → next (pack o ++ rest) = .ok (some o, rest))
    {fs : List (MessageFrame pack fits)} {pieces : List (List UInt8)} {n : ℕ}
    {s : TcpReceiver Object} (h : Received fs n s) (hn : n ≤ (stream fs).length)
    (hpieces : (stream fs).take n ++ pieces.flatten <+: stream fs) :
    ∃ s', recvAll next s pieces = some s' ∧ Received fs (n + pieces.flatten.length) s' := by
  induction pieces generalizing s n with
  | nil => exact ⟨s, rfl, h⟩
  | cons piece pieces ih =>
      rw [List.flatten_cons, ← List.append_assoc] at hpieces
      have hpiece := (List.prefix_append _ _).trans hpieces
      obtain ⟨s₁, hrecv, h₁⟩ := recv_stream hnext h hn hpiece
      have hlen := hpiece.length_le
      rw [List.length_append, List.length_take, min_eq_left hn] at hlen
      obtain ⟨s', hrest, h'⟩ := ih h₁ hlen (by rwa [take_add_of_isPrefix hn hpiece])
      refine ⟨s', ?_, ?_⟩
      · rw [recvAll, List.foldlM_cons, hrecv]
        exact hrest
      · rwa [List.flatten_cons, List.length_append, ← Nat.add_assoc]

/-- **When a complete frame is seen.** `prepare_next` sees it exactly if the buffer holds 14
bytes; in any fragmentation the messages of all complete frames have been processed exactly if
14 bytes have arrived from the first byte of each of these frames on. -/
theorem complete_frames_processed_iff
    (hnext : ∀ o rest, fits o → next (pack o ++ rest) = .ok (some o, rest)) :
    (∀ buffer ws, WebSocketBase.StartsFrame buffer ws → buffer.length < 2 ^ 64 →
      (WebSocketBase.prepareNext buffer = .ok (true, ws.headerSize) ↔ 14 ≤ buffer.length)) ∧
    ∀ (fs : List (MessageFrame pack fits)) (pieces : List (List UInt8)),
      pieces.flatten <+: stream fs →
      ∃ s, recvAll next {} pieces = some s ∧
        (s.processed = (completeIn fs pieces.flatten.length).map message ↔
          Covered fs pieces.flatten.length) := by
  refine ⟨fun buffer ws hstarts hsize => hstarts.prepareNext_iff hsize, fun fs pieces hpieces => ?_⟩
  have hstart : Received fs 0 ({} : TcpReceiver Object) := by
    have hnone : seenIn fs 0 = [] := by
      cases fs with
      | nil => rfl
      | cons f fs => exact if_neg (by omega)
    exact ⟨rfl, by rw [hnone]; rfl, by rw [List.take_zero, List.drop_nil]⟩
  obtain ⟨s, hrun, h⟩ := recvAll_stream hnext hstart (Nat.zero_le _)
    (by rwa [List.take_zero, List.nil_append])
  rw [Nat.zero_add] at h
  refine ⟨s, hrun, ?_⟩
  rw [h.processed, seenIn_eq_iff]

/-- `next` of an unpacker that has not looked at the bytes yet. -/
def nextObject (bytes : List UInt8) : Except String (Option Msgpack.Object × List UInt8) :=
  match Msgpack.Object.parse bytes.length bytes with
  | none => .ok (none, bytes)
  | some (o, rest) => .ok (some o, rest)

theorem nextObject_pack (o : Msgpack.Object) (rest : List UInt8) (h : o.Fits) :
    nextObject (o.pack ++ rest) = .ok (some o, rest) := by
  unfold nextObject
  rw [Msgpack.Object.parse_pack h.1 (by simp) h.2 rest]

/-- A frame of 14 bytes. -/
def wholeFrame : MessageFrame Msgpack.Object.pack Msgpack.Object.Fits where
  header := [0x82, 12]
  message := .bin (List.replicate 10 7)
  parsed := { WebSocketBase.wideHeader with headerSize := 2, n0 := 12, n := 12 }
  fits := ⟨.bin _, by decide⟩
  parse := by decide +kernel
  unmasked := rfl
  size := rfl
  length := rfl
  short := by decide

theorem complete_frames_processed_one :
    ∃ s, recvAll nextObject {} [wholeFrame.encode.take 5, wholeFrame.encode.drop 5] = some s ∧
      s.processed = [wholeFrame.message] := by
  obtain ⟨s, hrun, hprocessed⟩ :=
    (@complete_frames_processed_iff _ Msgpack.Object.pack _ _ nextObject_pack).2 [wholeFrame]
      [wholeFrame.encode.take 5, wholeFrame.encode.drop 5] (by decide)
  exact ⟨s, hrun, hprocessed.mpr fun _ => ⟨by decide, trivial⟩⟩

/-- A frame of three bytes, with the number 7 for its message. -/
def tinyFrame : MessageFrame Msgpack.Object.pack Msgpack.Object.Fits where
  header := [0x82, 1]
  message := .int 7
  parsed := { WebSocketBase.wideHeader with headerSize := 2, n0 := 1, n := 1 }
  fits := ⟨.int (by decide) (by decide), by decide⟩
  parse := by decide +kernel
  unmasked := rfl
  size := rfl
  length := rfl
  short := by decide

/-- It waits in the buffer until more arrives. -/
theorem tiny_frame_waits :
    WebSocketBase.StartsFrame tinyFrame.encode tinyFrame.parsed ∧
      WebSocketBase.prepareNext tinyFrame.encode = .ok (false, 0) ∧
      completeIn [tinyFrame] tinyFrame.encode.length = [tinyFrame] ∧
      ∃ s, recvAll nextObject {} [tinyFrame.encode] = some s ∧ s.processed = [] :=
  ⟨⟨by decide +kernel, rfl, by decide⟩, rfl, rfl, _, rfl, rfl⟩

end TcpReceiver

end BeyondProtocol
