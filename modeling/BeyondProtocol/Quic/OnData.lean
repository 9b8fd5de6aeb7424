import BeyondProtocol.Quic.WebSocketDecoder

/-!
# What becomes of received bytes (`OnData` in `quic/src/quic_peer.cpp`)

MsQuic hands over a list of buffers. `OnData` copies what they contain, with the WebSocket
framing taken off if there is any, behind what the unpacker has been given so far, and tells
MsQuic how many bytes it is done with. It counts in two sizes: the bytes written since the
unpacker was last told, and all others.

The unpacker is the library's: `reserve_buffer` is a parameter, of which only the size of the
buffer afterwards is known. So is whether MsQuic reports the end of the stream while `close()`
waits for it.
-/

namespace BeyondProtocol.Quic

open Framework

/-! ## §1  The source functions -/

/-- `msgpack::unpacker`: the bytes it was given, and the memory from `buffer()` on. -/
structure RecvBuffer where
  appended : List UInt8 := []
  area : List UInt8 := []
deriving DecidableEq, Repr

namespace RecvBuffer

def bufferCapacity (b : RecvBuffer) : ℕ := b.area.length

/-- `memcpy(buffer() + offset, bytes.data(), bytes.size())` -/
def memcpy (b : RecvBuffer) (offset : ℕ) (bytes : List UInt8) : Except Fault RecvBuffer :=
  if offset + bytes.length ≤ b.area.length then
    .ok { b with area := b.area.take offset ++ bytes ++ b.area.drop (offset + bytes.length) }
  else .error .undefined

def bufferConsumed (b : RecvBuffer) (size : ℕ) : Except Fault RecvBuffer :=
  if size ≤ b.area.length then
    .ok { appended := b.appended ++ b.area.take size, area := b.area.drop size }
  else .error .undefined

end RecvBuffer

/-- The receiving side of a `QuicPeerStream`; `completed` are the sizes MsQuic was told. -/
structure RecvStream where
  wsFrame : Bool
  wsRecv : WebsocketRead := {}
  recvBuffer : RecvBuffer := {}
  /-- `stream_` is not null. -/
  stream : Bool := true
  isValid : Bool := true
  completed : List Int := []
deriving DecidableEq, Repr

/-- `OnData` with its two sizes. -/
structure Progress where
  peer : RecvStream
  sizeConsumed : ℕ := 0
  sizeTotal : ℕ := 0
deriving DecidableEq, Repr

def recvBufferReserveSize : ℕ := 1024 * 512

namespace RecvStream

/-- `close()` returns when `OnShutdownComplete` has set `stream_` to null; `completes` says
whether it is called while `close()` waits. -/
def close (completes : Bool) (s : RecvStream) : Except Fault RecvStream :=
  if s.stream then
    if completes then .ok { s with stream := false, isValid := false } else .error .outOfFuel
  else .ok s

/-- `stream_->Consume(n)`, which takes an `int32_t`. -/
def consume (s : RecvStream) (n : ℕ) : Except Fault RecvStream :=
  if s.stream then .ok { s with completed := s.completed ++ [toInt32 n] } else .error .undefined

end RecvStream

namespace Progress

/-- The memory is extended if a buffer of this length might not fit. -/
def regrow (reserve : RecvBuffer → ℕ → List UInt8) (p : Progress) (length : ℕ) :
    Except Fault Progress :=
  if length + p.sizeConsumed > p.peer.recvBuffer.bufferCapacity then do
    let b ← p.peer.recvBuffer.bufferConsumed p.sizeConsumed
    .ok
      { peer := { p.peer with
          recvBuffer := { b with area := reserve b (max recvBufferReserveSize length) } }
        sizeTotal := p.sizeTotal + p.sizeConsumed
        sizeConsumed := 0 }
  else .ok p

/-- The copy of some bytes, with `size_consumed` advanced. -/
def append (p : Progress) (bytes : List UInt8) : Except Fault Progress := do
  let b ← p.peer.recvBuffer.memcpy p.sizeConsumed bytes
  .ok { p with
    peer := { p.peer with recvBuffer := b }
    sizeConsumed := p.sizeConsumed + bytes.length }

/-- `while (true)`, with a bound on the number of spans; `memcpySize` is returned too. -/
def copySpans (completes : Bool) : ℕ → Progress → ℕ → Except Fault (Progress × ℕ)
  | 0, _, _ => .error .outOfFuel
  | fuel + 1, p, memcpySize => do
      let (r, wsBuffer) ← p.peer.wsRecv.getBuffer
      let p := { p with peer := { p.peer with wsRecv := r } }
      if r.error then do
        let peer ← p.peer.close completes
        .ok ({ p with peer := peer }, memcpySize)
      else if wsBuffer.length = 0 then .ok (p, memcpySize)
      else do
        let p ← p.append wsBuffer
        copySpans completes fuel p (memcpySize + wsBuffer.length)

/-- One buffer of the list. -/
def onBuffer (reserve : RecvBuffer → ℕ → List UInt8) (completes : Bool) (p : Progress)
    (bufferIn : List UInt8) : Except Fault Progress := do
  let p ← p.regrow reserve bufferIn.length
  if p.peer.wsFrame then do
    let r ← p.peer.wsRecv.next bufferIn
    let (p, memcpySize) ← copySpans completes (bufferIn.length + 1)
      { p with peer := { p.peer with wsRecv := r } } 0
    -- the header bytes
    .ok { p with sizeTotal := p.sizeTotal + (bufferIn.length - memcpySize) }
  else p.append bufferIn

end Progress

/-- `OnData`, up to the unpacking of what has been appended. -/
def onData (reserve : RecvBuffer → ℕ → List UInt8) (completes : Bool) (s : RecvStream)
    (data : List (List UInt8)) : Except Fault RecvStream := do
  let p ← data.foldlM (Progress.onBuffer reserve completes) { peer := s }
  let s ← p.peer.consume (p.sizeConsumed + p.sizeTotal)
  if p.sizeConsumed + p.sizeTotal ≠ (data.map List.length).sum then .error .checkFailed
  else do
    let b ← s.recvBuffer.bufferConsumed p.sizeConsumed
    .ok { s with recvBuffer := b }

/-- A `reserve_buffer` that replaces the memory when it is too small. -/
def grown (b : RecvBuffer) (size : ℕ) : List UInt8 :=
  if size ≤ b.area.length then b.area else List.replicate size 0

theorem le_length_grown (b : RecvBuffer) (size : ℕ) : size ≤ (grown b size).length := by
  unfold grown
  split_ifs with h
  · exact h
  · exact List.length_replicate.ge

/-! ## §2  What has been written so far -/

/-- After `n` bytes of the list, which contained `payload`. -/
structure Holds (s : RecvStream) (n : ℕ) (payload : List UInt8) (p : Progress) : Prop where
  wsFrame : p.peer.wsFrame = s.wsFrame
  stream : p.peer.stream = true
  completed : p.peer.completed = s.completed
  room : p.sizeConsumed ≤ p.peer.recvBuffer.area.length
  bytes : p.peer.recvBuffer.appended ++ p.peer.recvBuffer.area.take p.sizeConsumed =
    s.recvBuffer.appended ++ payload
  sizes : p.sizeConsumed + p.sizeTotal = n

theorem holds_start {s : RecvStream} (h : s.stream = true) : Holds s 0 [] { peer := s } where
  wsFrame := rfl
  stream := h
  completed := rfl
  room := Nat.zero_le _
  bytes := rfl
  sizes := rfl

section

variable {reserve : RecvBuffer → ℕ → List UInt8} {completes : Bool} {s : RecvStream} {n : ℕ}
  {payload : List UInt8} {p : Progress}

/-- After this the buffer has room for the whole of `buffer_in`. -/
theorem Holds.regrow (hreserve : ∀ b size, size ≤ (reserve b size).length)
    (h : Holds s n payload p) (length : ℕ) :
    ∃ p', p.regrow reserve length = .ok p' ∧ Holds s n payload p' ∧
      p'.peer.wsRecv = p.peer.wsRecv ∧
      p'.sizeConsumed + length ≤ p'.peer.recvBuffer.area.length := by
  unfold Progress.regrow RecvBuffer.bufferCapacity
  by_cases hfull : length + p.sizeConsumed > p.peer.recvBuffer.area.length
  · rw [if_pos hfull]
    simp only [RecvBuffer.bufferConsumed, if_pos h.room, ok_bind]
    refine ⟨_, rfl, ?_, rfl, ?_⟩
    · exact
        { wsFrame := h.wsFrame
          stream := h.stream
          completed := h.completed
          room := Nat.zero_le _
          bytes := by simpa using h.bytes
          sizes := by simp only [← h.sizes]; omega }
    · have hsize := hreserve { appended := p.peer.recvBuffer.appended ++
          p.peer.recvBuffer.area.take p.sizeConsumed
                               area := p.peer.recvBuffer.area.drop p.sizeConsumed }
        (max recvBufferReserveSize length)
      simp only
      omega
  · rw [if_neg hfull]
    exact ⟨p, rfl, h, rfl, by omega⟩

theorem Holds.append (h : Holds s n payload p) {bytes : List UInt8}
    (hroom : p.sizeConsumed + bytes.length ≤ p.peer.recvBuffer.area.length) :
    ∃ p', p.append bytes = .ok p' ∧ Holds s (n + bytes.length) (payload ++ bytes) p' ∧
      p'.peer.wsRecv = p.peer.wsRecv ∧ p'.sizeConsumed = p.sizeConsumed + bytes.length ∧
      p'.peer.recvBuffer.area.length = p.peer.recvBuffer.area.length := by
  have htake : (p.peer.recvBuffer.area.take p.sizeConsumed).length = p.sizeConsumed := by
    rw [List.length_take, min_eq_left h.room]
  unfold Progress.append
  simp only [RecvBuffer.memcpy, if_pos hroom, ok_bind]
  have hlen : (p.peer.recvBuffer.area.take p.sizeConsumed ++ bytes ++
      p.peer.recvBuffer.area.drop (p.sizeConsumed + bytes.length)).length =
      p.peer.recvBuffer.area.length := by
    rw [List.length_append, List.length_append, htake, List.length_drop]
    omega
  refine ⟨_, rfl, ?_, rfl, rfl, hlen⟩
  exact
    { wsFrame := h.wsFrame
      stream := h.stream
      completed := h.completed
      room := by simp only [hlen]; exact hroom
      bytes := by
        have hfront : (p.peer.recvBuffer.area.take p.sizeConsumed ++ bytes).length =
            p.sizeConsumed + bytes.length := by rw [List.length_append, htake]
        simp only
        rw [← hfront, List.take_left, ← List.append_assoc, h.bytes, List.append_assoc]
      sizes := by simp only [← h.sizes]; omega }

theorem Holds.withRecv (h : Holds s n payload p) (r : WebsocketRead) :
    Holds s n payload { p with peer := { p.peer with wsRecv := r } } :=
  ⟨h.wsFrame, h.stream, h.completed, h.room, h.bytes, h.sizes⟩

/-- `close()`, if the reader has reported an error. -/
def Progress.closeOn (completes error : Bool) (p : Progress) : Except Fault Progress :=
  if error then do
    let peer ← p.peer.close completes
    .ok { p with peer := peer }
  else .ok p

@[simp] theorem Progress.closeOn_false (p : Progress) : p.closeOn completes false = .ok p := rfl

/-- The copying loop: what `drain` returns is written, and `close()` is called on an error. -/
theorem Holds.copySpans {fuel : ℕ} (h : Holds s n payload p) {r' : WebsocketRead}
    {out : List UInt8} (hdrain : WebsocketRead.drain fuel p.peer.wsRecv = .ok (r', out))
    (hopen : p.peer.wsRecv.error = false)
    (hroom : p.sizeConsumed + out.length ≤ p.peer.recvBuffer.area.length) (m : ℕ) :
    ∃ p', p.copySpans completes fuel m = (do
        let q ← p'.closeOn completes r'.error
        .ok (q, m + out.length)) ∧
      Holds s (n + out.length) (payload ++ out) p' ∧ p'.peer.wsRecv = r' := by
  induction fuel generalizing n payload p out m with
  | zero => cases hdrain
  | succ fuel ih =>
      obtain ⟨⟨r₁, out₁⟩, hcall, hrest⟩ := bind_eq_ok.mp hdrain
      have hread := h.withRecv r₁
      simp only [Progress.copySpans, hcall, ok_bind]
      simp only at hrest
      by_cases hout : out₁.length = 0
      · rw [if_pos hout] at hrest
        cases hrest
        refine ⟨{ p with peer := { p.peer with wsRecv := r' } }, ?_, ?_, rfl⟩
        · unfold Progress.closeOn
          split_ifs
          · rcases RecvStream.close completes _ with e | peer <;> rfl
          · rfl
        · rwa [List.append_nil]
      · have hopen₁ : r₁.error = false := by
          by_contra hset
          rw [WebsocketRead.getBuffer_raises hcall hopen (by simpa using hset)] at hout
          exact hout rfl
        rw [if_neg hout] at hrest
        obtain ⟨⟨r₂, out₂⟩, hdrain', hret⟩ := bind_eq_ok.mp hrest
        cases hret
        simp only [List.length_append] at hroom
        obtain ⟨p₁, happend, hholds, hrecv, hsize, harea⟩ := @Holds.append _ _ _ _ hread out₁
          (by simp only; omega)
        simp only [hopen₁, if_neg Bool.false_ne_true, if_neg hout, happend, ok_bind]
        simp only at hsize harea hrecv
        obtain ⟨p', hloop, hholds', hrecv'⟩ := ih hholds (by rw [hrecv]; exact hdrain')
          (by rw [hrecv]; exact hopen₁) (by omega) (m + out₁.length)
        refine ⟨p', ?_, ?_, hrecv'⟩
        · rw [hloop, List.length_append, Nat.add_assoc]
        · rwa [List.length_append, ← Nat.add_assoc, ← List.append_assoc]

/-- One buffer with framing. -/
theorem Holds.onFramed (hreserve : ∀ b size, size ≤ (reserve b size).length)
    (h : Holds s n payload p) (hframe : s.wsFrame = true) {buffer : List UInt8}
    {r' : WebsocketRead} {out : List UInt8}
    (hfeed : p.peer.wsRecv.feed buffer = .ok (r', out)) (hopen : p.peer.wsRecv.error = false) :
    ∃ p', p.onBuffer reserve completes buffer = p'.closeOn completes r'.error ∧
      Holds s (n + buffer.length) (payload ++ out) p' ∧ p'.peer.wsRecv = r' := by
  obtain ⟨r₀, hnext, hdrain⟩ := bind_eq_ok.mp hfeed
  obtain ⟨-, rfl⟩ := next_eq_ok.mp hnext
  have hlen := WebsocketRead.drain_length hdrain
  simp only at hlen
  obtain ⟨p₁, hregrow, h₁, hrecv₁, hroom₁⟩ := h.regrow hreserve buffer.length
  obtain ⟨p', hloop, h', hrecv'⟩ := @Holds.copySpans completes _ _ _ _ _ (h₁.withRecv _) r' out
    hdrain hopen (by simp only; omega) 0
  have hon : p₁.peer.wsFrame = true := h₁.wsFrame.trans hframe
  refine ⟨{ p' with sizeTotal := p'.sizeTotal + (buffer.length - out.length) }, ?_, ?_, hrecv'⟩
  · unfold Progress.onBuffer
    simp only [hregrow, ok_bind, if_pos hon, hrecv₁, hnext, hloop, Nat.zero_add]
    unfold Progress.closeOn
    split_ifs
    · rcases p'.peer.close completes with e | peer <;> rfl
    · rfl
  · exact ⟨h'.wsFrame, h'.stream, h'.completed, h'.room, h'.bytes, by
      have hsizes := h'.sizes
      simp only
      omega⟩

/-- One buffer without framing. -/
theorem Holds.onPlain (hreserve : ∀ b size, size ≤ (reserve b size).length)
    (h : Holds s n payload p) (hframe : s.wsFrame = false) (buffer : List UInt8) :
    ∃ p', p.onBuffer reserve completes buffer = .ok p' ∧
      Holds s (n + buffer.length) (payload ++ buffer) p' := by
  obtain ⟨p₁, hregrow, h₁, -, hroom₁⟩ := h.regrow hreserve buffer.length
  obtain ⟨p', happend, h', -, -, -⟩ := h₁.append hroom₁
  unfold Progress.onBuffer
  simp only [hregrow, ok_bind, h₁.wsFrame, hframe, if_neg Bool.false_ne_true]
  exact ⟨p', happend, h'⟩

theorem Holds.allFramed (hreserve : ∀ b size, size ≤ (reserve b size).length)
    (h : Holds s n payload p) (hframe : s.wsFrame = true) {buffers : List (List UInt8)}
    {r' : WebsocketRead} {out : List UInt8}
    (hfeed : p.peer.wsRecv.feedAll buffers = .ok (r', out)) (herr : r'.error = false) :
    ∃ p', buffers.foldlM (Progress.onBuffer reserve completes) p = .ok p' ∧
      Holds s (n + (buffers.map List.length).sum) (payload ++ out) p' ∧ p'.peer.wsRecv = r' := by
  induction buffers generalizing n payload p out with
  | nil =>
      cases hfeed
      refine ⟨p, rfl, ?_, rfl⟩
      rwa [List.append_nil]
  | cons buffer buffers ih =>
      obtain ⟨⟨r₁, out₁⟩, hfirst, hfeed⟩ := bind_eq_ok.mp hfeed
      obtain ⟨⟨r₂, out₂⟩, hrest, hfeed⟩ := bind_eq_ok.mp hfeed
      cases hfeed
      have herr₁ : r₁.error = false := by
        by_contra hset
        rw [WebsocketRead.feedAll_error hrest (by simpa using hset)] at herr
        cases herr
      have hopen : p.peer.wsRecv.error = false := by
        by_contra hset
        rw [WebsocketRead.feed_error hfirst (by simpa using hset)] at herr₁
        cases herr₁
      obtain ⟨p₁, hcall, h₁, hrecv₁⟩ := @Holds.onFramed reserve completes _ _ _ _ hreserve h hframe
        buffer r₁ out₁ hfirst hopen
      rw [herr₁, Progress.closeOn_false] at hcall
      obtain ⟨p', hloop, h', hrecv'⟩ := ih h₁ (by rw [hrecv₁]; exact hrest)
      refine ⟨p', ?_, ?_, hrecv'⟩
      · rw [List.foldlM_cons, hcall, ok_bind, hloop]
      · rwa [List.map_cons, List.sum_cons, ← Nat.add_assoc, ← List.append_assoc]

theorem Holds.allPlain (hreserve : ∀ b size, size ≤ (reserve b size).length)
    (h : Holds s n payload p) (hframe : s.wsFrame = false) (buffers : List (List UInt8)) :
    ∃ p', buffers.foldlM (Progress.onBuffer reserve completes) p = .ok p' ∧
      Holds s (n + (buffers.map List.length).sum) (payload ++ buffers.flatten) p' := by
  induction buffers generalizing n payload p with
  | nil =>
      refine ⟨p, rfl, ?_⟩
      rwa [List.flatten_nil, List.append_nil]
  | cons buffer buffers ih =>
      obtain ⟨p₁, hcall, h₁⟩ := @Holds.onPlain reserve completes _ _ _ _ hreserve h hframe buffer
      obtain ⟨p', hloop, h'⟩ := ih h₁
      refine ⟨p', ?_, ?_⟩
      · rw [List.foldlM_cons, hcall, ok_bind, hloop]
      · rwa [List.map_cons, List.sum_cons, ← Nat.add_assoc, List.flatten_cons,
          ← List.append_assoc]

end

/-! ## §3  The account -/

/-- `OnData` has come back, the unpacker was given the payload, and MsQuic the number of
bytes. -/
def Accounted (s : RecvStream) (buffers : List (List UInt8)) (payload : List UInt8)
    (result : Except Fault RecvStream) : Prop :=
  ∃ s', result = .ok s' ∧ s'.recvBuffer.appended = s.recvBuffer.appended ++ payload ∧
    s'.completed = s.completed ++ [((buffers.map List.length).sum : Int)]

theorem toInt32_eq_iff (n : ℕ) : toInt32 n = n ↔ n < 2 ^ 31 := by
  constructor
  · intro h
    have hlt := toInt32_lt n
    omega
  · exact toInt32_of_lt

/-- What is left to do when all buffers were gone through. -/
theorem onData_of_holds {reserve : RecvBuffer → ℕ → List UInt8} {completes : Bool}
    {s : RecvStream} {buffers : List (List UInt8)} {payload : List UInt8} {p : Progress}
    (hloop : buffers.foldlM (Progress.onBuffer reserve completes) { peer := s } = .ok p)
    (h : Holds s (buffers.map List.length).sum payload p) :
    ∃ b, onData reserve completes s buffers = .ok { p.peer with
        recvBuffer := b
        completed := s.completed ++ [toInt32 (buffers.map List.length).sum] } ∧
      b.appended = s.recvBuffer.appended ++ payload := by
  unfold onData RecvStream.consume RecvBuffer.bufferConsumed
  simp only [hloop, ok_bind, h.stream, if_true, h.sizes, ne_eq, not_true_eq_false, if_false,
    if_pos h.room, ← h.completed]
  exact ⟨_, rfl, h.bytes⟩

theorem accounted_iff_of_holds {reserve : RecvBuffer → ℕ → List UInt8} {completes : Bool}
    {s : RecvStream} {buffers : List (List UInt8)} {payload : List UInt8} {p : Progress}
    (hloop : buffers.foldlM (Progress.onBuffer reserve completes) { peer := s } = .ok p)
    (h : Holds s (buffers.map List.length).sum payload p) :
    Accounted s buffers payload (onData reserve completes s buffers) ↔
      (buffers.map List.length).sum < 2 ^ 31 := by
  obtain ⟨b, hdata, happended⟩ := onData_of_holds hloop h
  rw [← toInt32_eq_iff]
  constructor
  · rintro ⟨s', hdata', -, hcompleted⟩
    cases hdata.symm.trans hdata'
    simpa using List.append_cancel_left hcompleted
  · intro heq
    exact ⟨_, hdata, happended, by rw [heq]⟩

/-! ### Where `OnData` comes back -/

section

variable {reserve : RecvBuffer → ℕ → List UInt8} {completes : Bool} {p p' : Progress}

/-- Only the memory of the unpacker changes. -/
theorem regrow_peer {length : ℕ} (h : p.regrow reserve length = .ok p') :
    ∃ b, p'.peer = { p.peer with recvBuffer := b } := by
  unfold Progress.regrow at h
  split_ifs at h
  · obtain ⟨b, -, h⟩ := bind_eq_ok.mp h
    cases h
    exact ⟨_, rfl⟩
  · cases h
    exact ⟨_, rfl⟩

theorem append_peer {bytes : List UInt8} (h : p.append bytes = .ok p') :
    ∃ b, p'.peer = { p.peer with recvBuffer := b } := by
  obtain ⟨b, -, h⟩ := bind_eq_ok.mp h
  cases h
  exact ⟨b, rfl⟩

/-- `stream_` is not null after the loop: no error was met in it. -/
theorem copySpans_open {fuel m m' : ℕ} (h : p.copySpans completes fuel m = .ok (p', m'))
    (hopen : p'.peer.stream = true) :
    p.peer.stream = true ∧ p'.peer.wsFrame = p.peer.wsFrame ∧ p'.peer.wsRecv.error = false ∧
      ∃ out, WebsocketRead.drain fuel p.peer.wsRecv = .ok (p'.peer.wsRecv, out) := by
  induction fuel generalizing p m with
  | zero => cases h
  | succ fuel ih =>
      obtain ⟨⟨r, span⟩, hcall, h⟩ := bind_eq_ok.mp h
      simp only at h
      simp only [WebsocketRead.drain, hcall, ok_bind]
      split_ifs at h with herr hspan
      · -- `close()` has run
        obtain ⟨peer, hclose, h⟩ := bind_eq_ok.mp h
        cases h
        unfold RecvStream.close at hclose
        split_ifs at hclose with hset <;> cases hclose
        · cases hopen
        · exact absurd hopen hset
      · cases h
        rw [if_pos hspan]
        exact ⟨hopen, rfl, by simpa using herr, [], rfl⟩
      · obtain ⟨p₁, happend, h⟩ := bind_eq_ok.mp h
        obtain ⟨b, hpeer⟩ := append_peer happend
        obtain ⟨hopen₁, hframe, herr', out, hdrain⟩ := ih h
        rw [hpeer] at hopen₁ hframe hdrain
        simp only at hdrain
        rw [if_neg hspan, hdrain]
        exact ⟨hopen₁, hframe, herr', _, rfl⟩

/-- `stream_` is not set again. -/
theorem onBuffer_stream {buffer : List UInt8} (h : p.onBuffer reserve completes buffer = .ok p')
    (hopen : p'.peer.stream = true) : p.peer.stream = true := by
  obtain ⟨p₁, hregrow, h⟩ := bind_eq_ok.mp h
  obtain ⟨b, hpeer⟩ := regrow_peer hregrow
  have hsame : p₁.peer.stream = p.peer.stream := by rw [hpeer]
  rw [← hsame]
  split_ifs at h
  · obtain ⟨r, -, h⟩ := bind_eq_ok.mp h
    obtain ⟨⟨p₂, m⟩, hloop, h⟩ := bind_eq_ok.mp h
    cases h
    exact (copySpans_open hloop hopen).1
  · obtain ⟨b', hpeer'⟩ := append_peer h
    rw [hpeer'] at hopen
    exact hopen

theorem onBuffer_feed {buffer : List UInt8} (h : p.onBuffer reserve completes buffer = .ok p')
    (hframe : p.peer.wsFrame = true) (hopen : p'.peer.stream = true) :
    p'.peer.wsFrame = true ∧ p'.peer.wsRecv.error = false ∧
      ∃ out, p.peer.wsRecv.feed buffer = .ok (p'.peer.wsRecv, out) := by
  obtain ⟨p₁, hregrow, h⟩ := bind_eq_ok.mp h
  obtain ⟨b, hpeer⟩ := regrow_peer hregrow
  rw [hpeer] at h
  simp only [hframe, if_true] at h
  obtain ⟨r, hnext, h⟩ := bind_eq_ok.mp h
  obtain ⟨⟨p₂, m⟩, hloop, h⟩ := bind_eq_ok.mp h
  cases h
  obtain ⟨-, hframe₁, herr, out, hdrain⟩ := copySpans_open hloop hopen
  refine ⟨hframe₁, herr, out, ?_⟩
  unfold WebsocketRead.feed
  rw [hnext, ok_bind]
  exact hdrain

theorem foldlM_feedAll {buffers : List (List UInt8)}
    (h : buffers.foldlM (Progress.onBuffer reserve completes) p = .ok p')
    (hframe : p.peer.wsFrame = true) (herr : p.peer.wsRecv.error = false)
    (hopen : p'.peer.stream = true) :
    ∃ r' out, p.peer.wsRecv.feedAll buffers = .ok (r', out) ∧ r'.error = false := by
  induction buffers generalizing p with
  | nil => exact ⟨p.peer.wsRecv, [], rfl, herr⟩
  | cons buffer buffers ih =>
      rw [List.foldlM_cons] at h
      obtain ⟨p₁, hcall, h⟩ := bind_eq_ok.mp h
      have hopen₁ : p₁.peer.stream = true := by
        by_contra hclosed
        apply @foldlM_invariant _ _ _ (fun q => ¬ q.peer.stream = true) _ _ _ _ h hclosed _ hopen
        intro q b q' _ hq hstep hq'
        exact hq (onBuffer_stream hstep hq')
      obtain ⟨hframe₁, herr₁, out₁, hfeed⟩ := onBuffer_feed hcall hframe hopen₁
      obtain ⟨r', out, hrest, herr'⟩ := ih h hframe₁ herr₁
      exact ⟨r', out₁ ++ out, by simp [WebsocketRead.feedAll, hfeed, hrest], herr'⟩

end

/-- Where the peer stands when the reader has come to the end of the buffers. -/
theorem onData_recv {reserve : RecvBuffer → ℕ → List UInt8}
    (hreserve : ∀ b size, size ≤ (reserve b size).length) (completes : Bool) {s : RecvStream}
    (hframe : s.wsFrame = true) (hstream : s.stream = true) {buffers : List (List UInt8)}
    {r' : WebsocketRead} {out : List UInt8}
    (hfeed : s.wsRecv.feedAll buffers = .ok (r', out)) (herr : r'.error = false) :
    ∃ s', onData reserve completes s buffers = .ok s' ∧ s'.wsRecv = r' ∧ s'.stream = true ∧
      s'.wsFrame = true := by
  obtain ⟨p, hloop, hholds, hrecv⟩ := @Holds.allFramed reserve completes _ _ _ _ hreserve
    (holds_start hstream) hframe buffers r' out hfeed herr
  rw [Nat.zero_add] at hholds
  obtain ⟨b, hdata, -⟩ := onData_of_holds hloop hholds
  exact ⟨_, hdata, hrecv, hholds.stream, hholds.wsFrame.trans hframe⟩

/-- What `OnData` does with framing is what the reader does. -/
theorem accounted_iff_feedAll {reserve : RecvBuffer → ℕ → List UInt8}
    (hreserve : ∀ b size, size ≤ (reserve b size).length) {completes : Bool} {s : RecvStream}
    (hframe : s.wsFrame = true) (hstream : s.stream = true) (herr : s.wsRecv.error = false)
    (buffers : List (List UInt8)) (payload : List UInt8) :
    Accounted s buffers payload (onData reserve completes s buffers) ↔
      (buffers.map List.length).sum < 2 ^ 31 ∧
        ∃ r', s.wsRecv.feedAll buffers = .ok (r', payload) ∧ r'.error = false := by
  have hfold := fun r' out hfeed herr' =>
    @Holds.allFramed reserve completes _ _ _ _ hreserve (holds_start hstream) hframe buffers r' out
      hfeed herr'
  simp only [Nat.zero_add, List.nil_append] at hfold
  constructor
  · intro h
    obtain ⟨s', hdata, happended, -⟩ := id h
    obtain ⟨p, hloop, hrest⟩ := bind_eq_ok.mp hdata
    have hopen : p.peer.stream = true := by
      by_contra hclosed
      simp only [RecvStream.consume, if_neg hclosed] at hrest
      cases hrest
    obtain ⟨r', out, hfeed, herr'⟩ := foldlM_feedAll hloop hframe herr hopen
    obtain ⟨p', hloop', hholds, -⟩ := hfold r' out hfeed herr'
    obtain ⟨b, hdata', happended'⟩ := onData_of_holds hloop' hholds
    cases hdata.symm.trans hdata'
    have hsame : out = payload := List.append_cancel_left (happended'.symm.trans happended)
    rw [← hsame] at h ⊢
    exact ⟨(accounted_iff_of_holds hloop' hholds).mp h, r', hfeed, herr'⟩
  · rintro ⟨hsum, r', hfeed, herr'⟩
    obtain ⟨p', hloop', hholds, -⟩ := hfold r' payload hfeed herr'
    exact (accounted_iff_of_holds hloop' hholds).mpr hsum

end BeyondProtocol.Quic
