import BeyondProtocol.Quic.OnData

/-!
# Invalid headers and close frames in `OnData` (`quic/src/quic_peer.cpp`)

When the reader reports an error, `OnData` calls `close()` and leaves the loop over the spans
of the buffer, but not the loop over the buffers. The reader keeps what it had not read.
`close()` waits until `OnShutdownComplete` has set `stream_` to null, and `OnData` goes on to
`stream_->Consume`.
-/

namespace BeyondProtocol.Quic

open Framework

/-! ## §1  The buffer with the error -/

section

variable {reserve : RecvBuffer → ℕ → List UInt8} {completes : Bool} {s : RecvStream} {n : ℕ}
  {payload : List UInt8} {p : Progress}

/-- Once the error is set the unpacker is given nothing more. -/
theorem onBuffer_after_error {p' : Progress} {buffer : List UInt8}
    (h : p.onBuffer reserve completes buffer = .ok p') (hframe : p.peer.wsFrame = true)
    (herr : p.peer.wsRecv.error = true) :
    p'.peer.recvBuffer.appended ++ p'.peer.recvBuffer.area.take p'.sizeConsumed =
      p.peer.recvBuffer.appended ++ p.peer.recvBuffer.area.take p.sizeConsumed := by
  obtain ⟨p₁, hregrow, h⟩ := bind_eq_ok.mp h
  obtain ⟨b, hpeer⟩ := regrow_peer hregrow
  have hframe₁ : p₁.peer.wsFrame = true := by rw [hpeer]; exact hframe
  have herr₁ : p₁.peer.wsRecv.error = true := by rw [hpeer]; exact herr
  have hsame : p₁.peer.recvBuffer.appended ++ p₁.peer.recvBuffer.area.take p₁.sizeConsumed =
      p.peer.recvBuffer.appended ++ p.peer.recvBuffer.area.take p.sizeConsumed := by
    unfold Progress.regrow RecvBuffer.bufferConsumed at hregrow
    split_ifs at hregrow <;> cases hregrow
    · simp
    · rfl
  rw [if_pos hframe₁] at h
  obtain ⟨r, hnext, h⟩ := bind_eq_ok.mp h
  obtain ⟨⟨p₂, m⟩, hloop, h⟩ := bind_eq_ok.mp h
  cases h
  obtain ⟨-, rfl⟩ := next_eq_ok.mp hnext
  -- the first span is already behind the error
  obtain ⟨⟨r₁, span⟩, hcall, hloop⟩ := bind_eq_ok.mp hloop
  simp only [if_pos (WebsocketRead.getBuffer_error hcall herr₁)] at hloop
  obtain ⟨peer, hclose, hloop⟩ := bind_eq_ok.mp hloop
  cases hloop
  rw [← hsame]
  unfold RecvStream.close at hclose
  split_ifs at hclose <;> cases hclose <;> rfl

/-- The buffers up to the offending header. -/
theorem foldlM_raises (hreserve : ∀ b size, size ≤ (reserve b size).length)
    (hframe : s.wsFrame = true) (hstream : s.stream = true) {buffers : List (List UInt8)}
    {buffer : List UInt8} {r₁ r' : WebsocketRead} {out₁ out : List UInt8}
    (hbuffers : s.wsRecv.feedAll buffers = .ok (r₁, out₁)) (hopen : r₁.error = false)
    (hfeed : r₁.feed buffer = .ok (r', out)) (herr : r'.error = true) :
    ∃ p : Progress, (buffers ++ [buffer]).foldlM (Progress.onBuffer reserve completes)
        { peer := s } = p.closeOn completes true ∧
      Holds s ((buffers.map List.length).sum + buffer.length) (out₁ ++ out) p ∧
      p.peer.wsRecv = r' := by
  obtain ⟨p₁, hloop, h₁, hrecv₁⟩ := @Holds.allFramed reserve completes _ _ _ _ hreserve
    (holds_start hstream) hframe buffers r₁ out₁ hbuffers hopen
  obtain ⟨p, hcall, h, hrecv⟩ := @Holds.onFramed reserve completes _ _ _ _ hreserve h₁ hframe
    buffer r' out (by rw [hrecv₁]; exact hfeed) (by rw [hrecv₁]; exact hopen)
  rw [Nat.zero_add, List.nil_append] at h
  rw [herr] at hcall
  refine ⟨p, ?_, h, hrecv⟩
  rw [List.foldlM_append, hloop, ok_bind, List.foldlM_cons, hcall]
  rcases p.closeOn completes true with e | q <;> rfl

/-- A buffer that comes while the reader has bytes left. -/
theorem onBuffer_left (hroom : p.sizeConsumed ≤ p.peer.recvBuffer.area.length)
    (hframe : p.peer.wsFrame = true) (hleft : p.peer.wsRecv.buffer ≠ []) (buffer : List UInt8) :
    p.onBuffer reserve completes buffer = .error .checkFailed := by
  have hregrow : ∃ p₁, p.regrow reserve buffer.length = .ok p₁ := by
    unfold Progress.regrow RecvBuffer.bufferConsumed
    split_ifs <;> exact ⟨_, rfl⟩
  obtain ⟨p₁, hregrow⟩ := hregrow
  obtain ⟨b, hpeer⟩ := regrow_peer hregrow
  unfold Progress.onBuffer
  simp only [hregrow, ok_bind, hpeer, if_pos hframe, next_of_ne_nil hleft, error_bind]

end

/-! ## §2  The whole call -/

/-- `OnData` has come back, the unpacker was given nothing behind the offending header, and the
peer is closed. -/
def FailsCleanly (s : RecvStream) (payload : List UInt8) (result : Except Fault RecvStream) :
    Prop :=
  ∃ s', result = .ok s' ∧ s'.recvBuffer.appended = s.recvBuffer.appended ++ payload ∧
    s'.stream = false

/-- What happens when the buffers up to an offending header are read. `close()` does not return
inside the callback, or it leaves `stream_` null; a further buffer meets the bytes that the
error left in the reader. -/
theorem onData_offending {reserve : RecvBuffer → ℕ → List UInt8}
    (hreserve : ∀ b size, size ≤ (reserve b size).length) {s : RecvStream}
    (hframe : s.wsFrame = true) (hstream : s.stream = true) {buffers : List (List UInt8)}
    {buffer : List UInt8} {r₁ r' : WebsocketRead} {out₁ out : List UInt8}
    (hbuffers : s.wsRecv.feedAll buffers = .ok (r₁, out₁)) (hopen : r₁.error = false)
    (hfeed : r₁.feed buffer = .ok (r', out)) (herr : r'.error = true) :
    (∀ rest, onData reserve false s (buffers ++ buffer :: rest) = .error .outOfFuel) ∧
      onData reserve true s (buffers ++ [buffer]) = .error .undefined ∧
      (r'.buffer ≠ [] → ∀ next rest,
        onData reserve true s (buffers ++ buffer :: next :: rest) = .error .checkFailed) := by
  have hraises := fun completes =>
    @foldlM_raises reserve completes s hreserve hframe hstream buffers buffer r₁ r' out₁ out
      hbuffers hopen hfeed herr
  unfold onData
  refine ⟨fun rest => ?_, ?_, fun hleft next rest => ?_⟩
  · obtain ⟨p, hloop, h, -⟩ := hraises false
    simp only [Progress.closeOn, RecvStream.close, h.stream, if_true,
      if_neg Bool.false_ne_true, error_bind] at hloop
    rw [List.append_cons, List.foldlM_append, hloop]
    rfl
  · obtain ⟨p, hloop, h, -⟩ := hraises true
    simp only [Progress.closeOn, RecvStream.close, h.stream, if_true, ok_bind] at hloop
    rw [hloop]
    rfl
  · obtain ⟨p, hloop, h, hrecv⟩ := hraises true
    simp only [Progress.closeOn, RecvStream.close, h.stream, if_true, ok_bind] at hloop
    rw [List.append_cons, List.foldlM_append, hloop, ok_bind, List.foldlM_cons, onBuffer_left]
    · rfl
    · exact h.room
    · exact h.wsFrame.trans hframe
    · rw [← hrecv] at hleft
      exact hleft

/-- `OnData` comes back with `stream_` set. -/
theorem onData_stream {reserve : RecvBuffer → ℕ → List UInt8} {completes : Bool}
    {s s' : RecvStream} {buffers : List (List UInt8)}
    (h : onData reserve completes s buffers = .ok s') : s'.stream = true := by
  obtain ⟨p, -, h⟩ := bind_eq_ok.mp h
  obtain ⟨s₁, hconsume, h⟩ := bind_eq_ok.mp h
  split_ifs at h
  obtain ⟨b, -, h⟩ := bind_eq_ok.mp h
  cases h
  unfold RecvStream.consume at hconsume
  split_ifs at hconsume with hset
  cases hconsume
  exact hset

/-- **`OnData` never fails cleanly**: after `close()` there is no `stream_` to consume on. -/
theorem onData_never_fails_cleanly (reserve : RecvBuffer → ℕ → List UInt8) (completes : Bool)
    (s : RecvStream) (buffers : List (List UInt8)) (payload : List UInt8) :
    ¬ FailsCleanly s payload (onData reserve completes s buffers) := by
  rintro ⟨s', hdata, -, hclosed⟩
  rw [onData_stream hdata] at hclosed
  cases hclosed

/-- A reserved bit with a buffer behind it, and a close frame alone. -/
theorem offending_headers_fault :
    onData grown true { wsFrame := true, recvBuffer := { area := [0, 0, 0] } }
        [[0x70, 0], [0x82]] = .error .checkFailed ∧
      onData grown true { wsFrame := true, recvBuffer := { area := [0, 0, 0] } } [[0x88, 0]] =
        .error .undefined ∧
      ∀ completes payload,
        ¬ FailsCleanly { wsFrame := true, recvBuffer := { area := [0, 0, 0] } } payload
          (onData grown completes { wsFrame := true, recvBuffer := { area := [0, 0, 0] } }
            [[0x88, 0]]) := by
  have hclose : onData grown true { wsFrame := true, recvBuffer := { area := [0, 0, 0] } }
      [[0x88, 0]] = .error .undefined := by decide +kernel
  have hwait : onData grown false { wsFrame := true, recvBuffer := { area := [0, 0, 0] } }
      [[0x88, 0]] = .error .outOfFuel := by decide +kernel
  refine ⟨by decide +kernel, hclose, fun completes payload => ?_⟩
  rintro ⟨s', hdata, -⟩
  cases completes
  · rw [hwait] at hdata
    cases hdata
  · rw [hclose] at hdata
    cases hdata

end BeyondProtocol.Quic
