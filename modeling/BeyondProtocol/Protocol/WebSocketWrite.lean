import Mathlib.Data.List.Nodup
import Mathlib.Data.List.Range
import BeyondProtocol.Protocol.Connection
import BeyondProtocol.Protocol.WebSocket

/-!
# Writing a message to a TCP WebSocket (`protocol/websocket.cpp`)

`WebSocketBase::writev` masks the message where it lies: the bytes the iovecs refer to
are changed one after the other, with a key whose phase runs over all of them. The
header is put before them as one more iovec.

A byte two iovecs refer to is masked twice, and what is sent for it is neither. This is
why the iovecs here are addresses in a memory and not the bytes found there.
-/

namespace BeyondProtocol

open Quic (OpCodeType WsMaskKey)

/-! ## §1  The source functions -/

abbrev Memory : Type := ℕ → UInt8

/-- `struct iovec` -/
structure Segment where
  base : ℕ
  len : ℕ
deriving DecidableEq, Repr

namespace Segment

def addresses (v : Segment) : List ℕ := List.range' v.base v.len

/-- The bytes are in memory, and none of them at the null address. -/
def Valid (v : Segment) : Prop := (0 < v.len → 0 < v.base) ∧ v.base + v.len ≤ 2 ^ 64

def bytes (mem : Memory) (v : Segment) : Iovec := v.addresses.map mem

end Segment

namespace WebSocketBase

/-- `buf[j] ^= masking_key[(msglen + j) & 0x3]` for the first `n` bytes of a buffer. -/
def maskBuffer (key : WsMaskKey) (msglen : ℕ) (buf : ℕ) (n : ℕ) (mem : Memory) : Memory :=
  (List.range n).foldl
    (fun mem j => Function.update mem (buf + j) (mem (buf + j) ^^^ key.get (msglen + j))) mem

/-- The loop over the iovecs: `msglen`, of type `size_t`, and the memory after it. -/
def maskAll (key : WsMaskKey) : List Segment → ℕ → Memory → ℕ × Memory
  | [], msglen, mem => (msglen, mem)
  | v :: rest, msglen, mem =>
      maskAll key rest ((msglen + v.len) % 2 ^ 64) (maskBuffer key msglen v.base v.len mem)

def kHSize : ℕ := 20

/-- What is handed to `SocketT::writev` and what is returned if that one returns `sent`. -/
structure Written where
  iovecs : List Iovec
  value : Int → Int

/-- `WebSocketBase::writev`; `key` are the bytes of the random mask as they lie in memory, and
`none` is the return value `-1` before anything was handed on. -/
def writev (mem : Memory) (iov : List Segment) (key : WsMaskKey) : Option Written :=
  let (msglen, mem) := maskAll key iov 0 mem
  match wsPrepare OpCodeType.BINARY_FRAME true key msglen kHSize with
  | none => none
  | some (rc, header) => some
      { iovecs := header :: iov.map (Segment.bytes mem)
        value := fun sent => if sent > 0 then sent - rc else sent }

/-! ## §2  Masking in place -/

/-- All addresses of a message, in the order in which they are sent. -/
def addresses (iov : List Segment) : List ℕ := iov.flatMap Segment.addresses

/-- The message as it lies in memory. -/
def contents (mem : Memory) (iov : List Segment) : List UInt8 := (addresses iov).map mem

theorem maskBuffer_succ (key : WsMaskKey) (msglen buf n : ℕ) (mem : Memory) :
    maskBuffer key msglen buf (n + 1) mem =
      Function.update (maskBuffer key msglen buf n mem) (buf + n)
        (maskBuffer key msglen buf n mem (buf + n) ^^^ key.get (msglen + n)) := by
  rw [maskBuffer, List.range_succ, List.foldl_append]
  rfl

theorem maskBuffer_apply (key : WsMaskKey) (msglen buf n : ℕ) (mem : Memory) (a : ℕ) :
    maskBuffer key msglen buf n mem a =
      if buf ≤ a ∧ a < buf + n then mem a ^^^ key.get (msglen + (a - buf)) else mem a := by
  induction n with
  | zero =>
      rw [if_neg (by omega)]
      rfl
  | succ n ih =>
      rw [maskBuffer_succ]
      by_cases ha : a = buf + n
      · subst ha
        rw [Function.update_self, ih, if_neg (by omega), if_pos (by omega),
          Nat.add_sub_cancel_left]
      · rw [Function.update_of_ne ha, ih]
        have hsame : (buf ≤ a ∧ a < buf + n) ↔ buf ≤ a ∧ a < buf + (n + 1) := by omega
        rw [if_congr hsame rfl rfl]

theorem maskBuffer_of_notMem {key : WsMaskKey} {msglen : ℕ} {v : Segment} {mem : Memory} {a : ℕ}
    (ha : a ∉ v.addresses) : maskBuffer key msglen v.base v.len mem a = mem a := by
  rw [Segment.addresses, List.mem_range'_1] at ha
  rw [maskBuffer_apply, if_neg ha]

theorem maskBuffer_bytes (key : WsMaskKey) (msglen : ℕ) (v : Segment) (mem : Memory) :
    v.addresses.map (maskBuffer key msglen v.base v.len mem) =
      Quic.mask key msglen (v.addresses.map mem) := by
  apply List.ext_getElem (by simp)
  intro i h₁ h₂
  have hi : i < v.len := by simpa [Segment.addresses] using h₁
  simp only [Segment.addresses, Quic.mask, List.getElem_map, List.getElem_mapIdx,
    List.getElem_range', maskBuffer_apply, Nat.one_mul]
  rw [if_pos (by omega), Nat.add_sub_cancel_left, Nat.add_comm msglen]

theorem maskAll_of_notMem {key : WsMaskKey} {iov : List Segment} {msglen : ℕ} {mem : Memory}
    {a : ℕ} (ha : a ∉ addresses iov) : (maskAll key iov msglen mem).2 a = mem a := by
  induction iov generalizing msglen mem with
  | nil => rfl
  | cons v rest ih =>
      rw [addresses, List.flatMap_cons, List.mem_append, not_or] at ha
      rw [maskAll, ih ha.2, maskBuffer_of_notMem ha.1]

theorem maskAll_length {key : WsMaskKey} {iov : List Segment} {msglen : ℕ} {mem : Memory}
    (hlen : msglen + (addresses iov).length < 2 ^ 64) :
    (maskAll key iov msglen mem).1 = msglen + (addresses iov).length := by
  induction iov generalizing msglen mem with
  | nil => rfl
  | cons v rest ih =>
      have hsum : (addresses (v :: rest)).length = v.len + (addresses rest).length := by
        rw [addresses, List.flatMap_cons, List.length_append, Segment.addresses, List.length_range']
        rfl
      rw [hsum] at hlen ⊢
      have hmod : (msglen + v.len) % 2 ^ 64 = msglen + v.len := Nat.mod_eq_of_lt (by omega)
      rw [maskAll, hmod, ih (by omega), Nat.add_assoc]

/-- Where no byte is listed twice, the loop masks the message as a whole. -/
theorem maskAll_contents {key : WsMaskKey} {iov : List Segment} {msglen : ℕ} {mem : Memory}
    (hdistinct : (addresses iov).Nodup) (hlen : msglen + (addresses iov).length < 2 ^ 64) :
    contents (maskAll key iov msglen mem).2 iov = Quic.mask key msglen (contents mem iov) := by
  induction iov generalizing msglen mem with
  | nil => rfl
  | cons v rest ih =>
      have hcons : addresses (v :: rest) = v.addresses ++ addresses rest := List.flatMap_cons
      rw [hcons] at hdistinct hlen
      obtain ⟨-, hrest, happart⟩ := List.nodup_append.mp hdistinct
      have hlength : v.addresses.length = v.len := List.length_range'
      rw [List.length_append, hlength] at hlen
      have hmod : (msglen + v.len) % 2 ^ 64 = msglen + v.len := Nat.mod_eq_of_lt (by omega)
      -- the later buffers leave this one alone, and this one the later ones
      have hfirst : v.addresses.map (maskAll key (v :: rest) msglen mem).2 =
          Quic.mask key msglen (v.addresses.map mem) := by
        rw [← maskBuffer_bytes]
        apply List.map_congr_left
        intro a ha
        rw [maskAll]
        exact maskAll_of_notMem fun hmem => happart a ha a hmem rfl
      have hsecond : contents (maskBuffer key msglen v.base v.len mem) rest =
          contents mem rest := by
        apply List.map_congr_left
        intro a ha
        exact maskBuffer_of_notMem fun hmem => happart a hmem a ha rfl
      rw [contents, contents, hcons, List.map_append, List.map_append, hfirst, Quic.mask_append,
        List.length_map, hlength]
      congr 1
      rw [maskAll, hmod]
      show contents _ rest = Quic.mask key (msglen + v.len) (contents mem rest)
      rw [ih hrest (by omega), hsecond]

/-! ## §3  What arrives -/

theorem flatten_bytes (mem : Memory) (iov : List Segment) :
    (iov.map (Segment.bytes mem)).flatten = contents mem iov := by
  rw [contents, addresses, List.map_flatMap, List.flatMap_def]
  rfl

/-- The header always fits. -/
theorem writev_eq (mem : Memory) (iov : List Segment) (key : WsMaskKey) :
    let header := Quic.headerBytes OpCodeType.BINARY_FRAME true key (maskAll key iov 0 mem).1
    ∃ w, writev mem iov key = some w ∧
      w.iovecs.flatten = header ++ contents (maskAll key iov 0 mem).2 iov ∧
      ∀ sent > 0, w.value sent = sent - header.length := by
  intro header
  have hsize : ¬ header.length > kHSize := by
    have hlength := Quic.length_headerBytes OpCodeType.BINARY_FRAME true key
      (maskAll key iov 0 mem).1
    show ¬ (Quic.headerBytes _ _ _ _).length > 20
    rw [hlength]
    split_ifs <;> omega
  refine ⟨⟨header :: iov.map (Segment.bytes (maskAll key iov 0 mem).2),
    fun sent => if sent > 0 then sent - header.length else sent⟩, ?_, ?_, ?_⟩
  · rw [writev]
    dsimp only
    rw [wsPrepare_eq, if_neg hsize]
  · rw [List.flatten_cons, flatten_bytes]
  · intro sent hsent
    exact if_pos hsent

/-- Addresses that are all different are no more than there are addresses. -/
theorem length_addresses_lt {iov : List Segment} (hvalid : ∀ v ∈ iov, v.Valid)
    (hdistinct : (addresses iov).Nodup) : (addresses iov).length < 2 ^ 64 := by
  have hsub : addresses iov ⊆ List.range' 1 (2 ^ 64 - 1) := by
    intro a ha
    obtain ⟨v, hv, ha⟩ := List.mem_flatMap.mp ha
    obtain ⟨hbase, hend⟩ := hvalid v hv
    rw [Segment.addresses, List.mem_range'_1] at ha
    have hpos := hbase (by omega)
    rw [List.mem_range'_1]
    omega
  have hle := (hdistinct.subperm hsub).length_le
  rw [List.length_range'] at hle
  omega

/-- Iovecs that refer to different bytes are written as one masked binary frame that decodes to
the message, and its length is returned if the socket took it all. -/
theorem writev_frame_decodes (mem : Memory) {iov : List Segment} (key : WsMaskKey)
    (hvalid : ∀ v ∈ iov, v.Valid) (hdistinct : (addresses iov).Nodup) :
    ∃ w ws, writev mem iov key = some w ∧ wsParse w.iovecs.flatten = .ok ws ∧
      ws.fin = true ∧ ws.opcode = OpCodeType.BINARY_FRAME ∧ ws.mask = true ∧
      ws.n.toNat = (contents mem iov).length ∧
      Quic.mask ws.maskingKey 0 (w.iovecs.flatten.drop ws.headerSize) = contents mem iov ∧
      w.value w.iovecs.flatten.length = (contents mem iov).length := by
  have hlen := length_addresses_lt hvalid hdistinct
  have hcontents : (contents mem iov).length = (addresses iov).length := List.length_map _
  obtain ⟨w, hwritev, hflatten, hvalue⟩ := writev_eq mem iov key
  have hmsglen : (maskAll key iov 0 mem).1 = (addresses iov).length := by
    rw [maskAll_length (by omega), Nat.zero_add]
  have hmasked : contents (maskAll key iov 0 mem).2 iov = Quic.mask key 0 (contents mem iov) :=
    maskAll_contents hdistinct (by omega)
  rw [hmsglen, hmasked] at hflatten
  rw [hmsglen] at hvalue
  have hop : OpCodeType.Valid OpCodeType.BINARY_FRAME := by
    simp [OpCodeType.Valid, OpCodeType.BINARY_FRAME]
  obtain ⟨ws, hparse, hheader⟩ := wsParse_of_quic (Quic.wsParseHeader_headerBytes hop true key hlen
    (Quic.mask key 0 (contents mem iov)))
  have htotal : w.iovecs.flatten.length =
      (Quic.headerBytes OpCodeType.BINARY_FRAME true key (addresses iov).length).length +
        (contents mem iov).length := by
    rw [hflatten, List.length_append, Quic.length_mask]
  refine ⟨w, ws, hwritev, hflatten ▸ hparse, hheader.fin, hheader.opcode, hheader.mask, ?_, ?_, ?_⟩
  · rw [hheader.length, hcontents]
  · rw [hheader.key, hheader.size, hflatten]
    dsimp only
    rw [List.drop_left, if_pos rfl, Quic.mask_mask]
  · rw [hvalue _ ?_, htotal]
    · omega
    · rw [htotal, Quic.length_headerBytes]
      omega

theorem writev_frame_decodes_two :
    ∃ w ws, writev (fun a => UInt8.ofNat a) [⟨16, 3⟩, ⟨32, 2⟩] ⟨1, 2, 3, 4⟩ = some w ∧
      wsParse w.iovecs.flatten = .ok ws ∧
      Quic.mask ws.maskingKey 0 (w.iovecs.flatten.drop ws.headerSize) = [16, 17, 18, 32, 33] ∧
      w.value w.iovecs.flatten.length = 5 := by
  obtain ⟨w, ws, hwritev, hparse, -, -, -, -, hcontents, hvalue⟩ :=
    writev_frame_decodes (fun a => UInt8.ofNat a) ⟨1, 2, 3, 4⟩
      (show ∀ v ∈ [⟨16, 3⟩, ⟨32, 2⟩], Segment.Valid v by simp [Segment.Valid])
      (show (addresses [⟨16, 3⟩, ⟨32, 2⟩]).Nodup by decide)
  exact ⟨w, ws, hwritev, hparse, hcontents, hvalue⟩

/-- The same four bytes listed twice are masked and unmasked again before they are sent. -/
theorem writev_listed_twice :
    (∀ v ∈ [⟨16, 4⟩, ⟨16, 4⟩], Segment.Valid v) ∧
      ∃ w ws, writev (fun _ => 0) [⟨16, 4⟩, ⟨16, 4⟩] ⟨1, 2, 3, 4⟩ = some w ∧
        wsParse w.iovecs.flatten = .ok ws ∧
        Quic.mask ws.maskingKey 0 (w.iovecs.flatten.drop ws.headerSize) ≠
          contents (fun _ => 0) [⟨16, 4⟩, ⟨16, 4⟩] := by
  refine ⟨by simp [Segment.Valid], _, _, rfl, rfl, ?_⟩
  decide +kernel

end WebSocketBase

end BeyondProtocol
