import BeyondProtocol.Framework.Msgpack
import BeyondProtocol.Framework.PackedStream
import BeyondProtocol.Quic.OnDataStreams
import BeyondProtocol.Quic.RecvPipeline
import BeyondProtocol.Quic.SendBytes

/-!
# Two ends of a QUIC stream (`quic/src/quic_peer.cpp`)

One end queues packed messages, frames them if the stream is a WebSocket and writes them; MsQuic
delivers the bytes in the order of the Writes, in buffers of its own making, to `OnData` of the
other end, which takes the frames and then the messages apart again and hands them to a worker.

Failed Writes, completions and retries on one side and the hand-off between `OnData` and the
worker on the other come in any order.
-/

namespace BeyondProtocol.Quic

open Framework Framework.Msgpack

/-! ## §1  Frames on their way

The reader has read some bytes of a stream of frames, and the rest of them is on the wire. -/

/-- The payload is what the reader will find in the bytes on the wire. -/
def InFrames (r : WebsocketRead) (wire payload : List UInt8) : Prop :=
  ∃ (read : List UInt8) (frames : List Frame), read ++ wire = frameBytes frames ∧
    (∀ f ∈ frames, ¬ f.Stops) ∧ Decodes r (({} : Decoder).after read) ∧ r.buffer = [] ∧
    payload = plain ((({} : Decoder).after read).marks wire)

theorem inFrames_start : InFrames {} [] [] :=
  ⟨[], [], rfl, by simp, decodes_start, rfl, rfl⟩

theorem InFrames.snoc {r : WebsocketRead} {wire payload : List UInt8} (h : InFrames r wire payload)
    {f : Frame} (hf : ¬ f.Stops) : InFrames r (wire ++ f.encode) (payload ++ f.payload) := by
  obtain ⟨read, frames, hbytes, hstops, hdec, hbuf, rfl⟩ := h
  refine ⟨read, frames ++ [f], ?_, ?_, hdec, hbuf, ?_⟩
  · rw [← List.append_assoc, hbytes]
    simp [frameBytes]
  · rw [List.forall_mem_append, List.forall_mem_singleton]
    exact ⟨hstops, hf⟩
  · -- the new frame begins where the last one ends
    have hbetween : Between ((({} : Decoder).after read).after wire) := by
      rw [← Decoder.after_append, hbytes]
      exact (run_frames between_start frames).1
    rw [Decoder.marks_append, (Frame.run_encode hbetween f).2, plain_append, plain_marks]

/-- Whatever the reader makes of some buffers, it is the next part of the payload. -/
theorem InFrames.feedAll {r r' : WebsocketRead} {rest payload out : List UInt8}
    {buffers : List (List UInt8)} (h : InFrames r (buffers.flatten ++ rest) payload)
    (hsize : ∀ buffer ∈ buffers, buffer.length < 2 ^ 31)
    (hfeed : r.feedAll buffers = .ok (r', out)) :
    ∃ later, payload = out ++ later ∧ InFrames r' rest later := by
  obtain ⟨read, frames, hbytes, hstops, hdec, hbuf, rfl⟩ := h
  set d := ({} : Decoder).after read with hd
  have hmarks : ∀ m ∈ d.marks buffers.flatten, m ∈ frameMarks frames := by
    intro m hm
    rw [← (run_frames between_start frames).2, ← hbytes, Decoder.marks_append,
      Decoder.marks_append]
    exact List.mem_append_right _ (List.mem_append_left _ hm)
  have hvalid : Mark.invalid ∉ d.marks buffers.flatten := by
    intro hmem
    exact invalid_not_mem frames (hmarks _ hmem)
  have hgo : ∀ m ∈ d.marks buffers.flatten, ¬ m.Stops := by
    intro m hm
    exact not_stops_frameMarks hstops m (hmarks m hm)
  have hclose : Mark.close ∉ d.marks buffers.flatten := fun hm => hgo _ hm (.inr rfl)
  have hbefore : ∀ m ∈ (d.marks buffers.flatten).dropLast, ¬ m.Stops := fun m hm =>
    hgo m (List.mem_of_mem_dropLast hm)
  rcases feedAll_unstopped hdec hbuf hvalid hclose hbefore hsize with
    hfail | ⟨r₁, hread, hbuf₁, hdec₁⟩
  · rw [hfeed] at hfail
    cases hfail
  cases hread.symm.trans hfeed
  refine ⟨plain ((d.after buffers.flatten).marks rest), ?_, read ++ buffers.flatten, frames, ?_,
    hstops, ?_, hbuf₁, ?_⟩
  · rw [Decoder.marks_append, plain_append]
  · rw [List.append_assoc, hbytes]
  · rw [Decoder.after_append]
    exact hdec₁
  · rw [Decoder.after_append]

/-! ## §2  `OnData` on its way -/

/-- The payload that the receiver will find in the bytes on the wire. -/
inductive Carries (s : RecvStream) (wire : List UInt8) : List UInt8 → Prop
  | plain (frame : s.wsFrame = false) : Carries s wire wire
  | framed {payload : List UInt8} (frame : s.wsFrame = true)
      (frames : InFrames s.wsRecv wire payload) : Carries s wire payload

theorem carries_start (wsFrame : Bool) : Carries { wsFrame := wsFrame } [] [] := by
  cases wsFrame with
  | false => exact .plain rfl
  | true => exact .framed rfl inFrames_start

/-- A call that comes back has given the next part of the payload to the unpacker. -/
theorem Carries.onData {reserve : RecvBuffer → ℕ → List UInt8}
    (hreserve : ∀ b size, size ≤ (reserve b size).length) {completes : Bool}
    {s s' : RecvStream} {rest payload : List UInt8} {buffers : List (List UInt8)}
    (h : Carries s (buffers.flatten ++ rest) payload) (hstream : s.stream = true)
    (hsize : ∀ buffer ∈ buffers, buffer.length < 2 ^ 31)
    (hdata : onData reserve completes s buffers = .ok s') :
    ∃ out later, payload = out ++ later ∧
      s'.recvBuffer.appended = s.recvBuffer.appended ++ out ∧ Carries s' rest later ∧
      s'.stream = true ∧ s'.wsFrame = s.wsFrame := by
  cases h with
  | plain hframe =>
      obtain ⟨p, hloop, hholds⟩ := @Holds.allPlain reserve completes _ _ _ _ hreserve
        (holds_start hstream) hframe buffers
      rw [Nat.zero_add, List.nil_append] at hholds
      obtain ⟨b, heq, happended⟩ := onData_of_holds hloop hholds
      cases heq.symm.trans hdata
      exact ⟨buffers.flatten, rest, rfl, happended, .plain (hholds.wsFrame.trans hframe),
        hholds.stream, hholds.wsFrame⟩
  | framed hframe hframes =>
      have herr : s.wsRecv.error = false := by
        obtain ⟨_, _, _, _, hdec, _⟩ := hframes
        exact hdec.noError
      obtain ⟨p, hloop, hrest⟩ := bind_eq_ok.mp hdata
      have hopen : p.peer.stream = true := by
        by_contra hclosed
        simp only [RecvStream.consume, if_neg hclosed] at hrest
        cases hrest
      obtain ⟨r', out, hfeed, herr'⟩ := foldlM_feedAll hloop hframe herr hopen
      obtain ⟨p', hloop', hholds, hrecv⟩ := @Holds.allFramed reserve completes _ _ _ _ hreserve
        (holds_start hstream) hframe buffers r' out hfeed herr'
      rw [Nat.zero_add, List.nil_append] at hholds
      obtain ⟨b, heq, happended⟩ := onData_of_holds hloop' hholds
      cases heq.symm.trans hdata
      obtain ⟨later, hpayload, hlater⟩ := hframes.feedAll hsize hfeed
      refine ⟨out, later, hpayload, happended, .framed (hholds.wsFrame.trans hframe) ?_,
        hholds.stream, hholds.wsFrame⟩
      show InFrames p'.peer.wsRecv rest later
      rw [hrecv]
      exact hlater

/-! ## §3  The two ends -/

/-- Only `OnData` decodes. -/
theorem RecvStep.decoded {α : Type} {s t : RecvState α} {e : RecvEvent α} (h : RecvStep s e t)
    (he : ∀ objs, e ≠ .onData objs) : t.decoded = s.decoded := by
  have hround : ∀ (s : RecvState α) before after,
      (s.nextRound before after).decoded = s.decoded := by
    intro s before after
    unfold RecvState.nextRound
    split_ifs <;> rfl
  cases h with
  | onData objs => exact absurd rfl (he objs)
  | publish =>
      unfold RecvState.publish
      split <;> rfl
  | start => exact hround _ _ _
  | process => rfl
  | relock => exact hround _ _ _
  | wake timedOut =>
      unfold RecvState.wake
      split_ifs
      · exact hround _ _ _
      · rfl
      · rfl

variable {μ : Type} (C : ObjectCodec μ)

/-- A message with the key it is masked with. -/
abbrev SentMessage (μ : Type) : Type := μ × WsMaskKey

/-- The message as `send_buffer_` gets it. -/
def packed (m : SentMessage μ) : AskedMessage := (C.pack m.1, m.2)

structure StreamLink (δ μ : Type) where
  sender : QuicPeerStream
  /-- The messages `send_buffer_` was called with. -/
  sent : List (SentMessage μ) := []
  /-- Bytes that MsQuic has taken and not delivered. -/
  wire : List UInt8 := []
  receiver : RecvStream
  unpacker : δ
  pipeline : RecvState μ := {}

inductive LinkEvent (μ : Type) : Type where
  | send (o : μ) (key : WsMaskKey)
  /-- Any other step of the sender. -/
  | sender (e : StreamEvent)
  /-- `OnData` with these buffers. -/
  | deliver (buffers : List (List UInt8))
  /-- Any other step of the receiver. -/
  | receiver (e : RecvEvent μ)

namespace StreamLink

def start (wsFrame : Bool) : StreamLink C.unpacker.State μ where
  sender := { wsFrame := wsFrame, isOpen := true }
  receiver := { wsFrame := wsFrame }
  unpacker := C.unpacker.empty

section

variable (write : Nat → Bool) (reserve : RecvBuffer → ℕ → List UInt8) (completes : Bool)

/-- The sender has made a step: what it has passed to MsQuic is under way. -/
def sendStep {δ : Type} (s : StreamLink δ μ) (t : QuicPeerStream) : StreamLink δ μ :=
  { s with sender := t, wire := s.wire ++ s.sender.passed t }

inductive Step (s : StreamLink C.unpacker.State μ) :
    LinkEvent μ → StreamLink C.unpacker.State μ → Prop where
  | send {o : μ} {key : WsMaskKey} {t : QuicPeerStream} :
      QuicPeerStream.Step write s.sender (.sendBuffer (C.pack o) key) t →
      Step s (.send o key) { s.sendStep t with sent := s.sent ++ [(o, key)] }
  | sender {e : StreamEvent} {t : QuicPeerStream} : e.asks = [] →
      QuicPeerStream.Step write s.sender e t → Step s (.sender e) (s.sendStep t)
  | deliver {buffers : List (List UInt8)} {rest payload : List UInt8} {r : RecvStream} {fuel : ℕ}
      {left : C.unpacker.State} {objs : List μ} : s.pipeline.producer = .idle →
      s.wire = buffers.flatten ++ rest → onData reserve completes s.receiver buffers = .ok r →
      r.recvBuffer.appended = s.receiver.recvBuffer.appended ++ payload →
      C.unpacker.takeAll fuel (C.unpacker.consumed s.unpacker payload) = some (left, objs) →
      Step s (.deliver buffers) { s with
        wire := rest
        receiver := r
        unpacker := left
        pipeline := s.pipeline.onData objs }
  | receiver {e : RecvEvent μ} {p : RecvState μ} : (∀ objs, e ≠ .onData objs) →
      RecvStep s.pipeline e p → Step s (.receiver e) { s with pipeline := p }

/-- Messages and buffers stay below 2^31 bytes. -/
def Sized : LinkEvent μ → Prop
  | .send o _ => C.Fits o ∧ (C.pack o).length < 2 ^ 31
  | .deliver buffers => ∀ buffer ∈ buffers, buffer.length < 2 ^ 31
  | _ => True

def SizedStep (s : StreamLink C.unpacker.State μ) (e : LinkEvent μ)
    (t : StreamLink C.unpacker.State μ) : Prop :=
  Sized C e ∧ Step C write reserve completes s e t

end

/-- Nothing is under way or to be tried again, and no worker is there. -/
structure Quiet {δ : Type} (s : StreamLink δ μ) : Prop where
  sender : ∀ event ∈ s.sender.sendQueue, event.pending = false
  wire : s.wire = []
  producer : s.pipeline.producer = .idle
  workers : s.pipeline.workers = []

/-! ## §4  What is under way -/

/-- The written messages that the receiver has not decoded are in its unpacker and on the
wire. -/
structure Reading (s : StreamLink C.unpacker.State μ) (objects : List μ) : Prop where
  stream : s.receiver.stream = true
  frame : s.receiver.wsFrame = s.sender.wsFrame
  bytes : ∃ payload, Carries s.receiver s.wire payload ∧
    PackedStream C.pack C.Fits (C.pending s.unpacker ++ payload) objects []
  settled : ∀ s' o, C.unpacker.next s.unpacker ≠ some (s', some o)

variable {C}

theorem pack_ne_nil {o : μ} (ho : C.Fits o) : C.pack o ≠ [] := C.incremental.pack_ne_nil o ho

/-- The sender's message is a frame of the reader. -/
theorem encode_framed {m : SentMessage μ} (hfits : C.Fits m.1)
    (hshort : (C.pack m.1).length < 2 ^ 31) :
    ∃ f : Frame, f.encode = (packed C m).encode true ∧ f.payload = C.pack m.1 ∧ ¬ f.Stops := by
  have hne := pack_ne_nil hfits
  let f : WireFrame :=
    { payload := C.pack m.1, key := some m.2, nonempty := hne, bound := by omega }
  refine ⟨f.toFrame hshort, rfl, rfl, ?_⟩
  rintro (hnil | hclose)
  · exact hne hnil
  · revert hclose
    show OpCodeType.BINARY_FRAME ≠ OpCodeType.CLOSE
    decide

theorem carries_snoc {r : RecvStream} {wire payload : List UInt8} (h : Carries r wire payload)
    {m : SentMessage μ} (hfits : C.Fits m.1) (hshort : (C.pack m.1).length < 2 ^ 31) :
    Carries r (wire ++ (packed C m).encode r.wsFrame) (payload ++ C.pack m.1) := by
  cases h with
  | plain hframe =>
      rw [hframe]
      exact .plain hframe
  | framed hframe hframes =>
      obtain ⟨f, hencode, hpayload, hf⟩ := encode_framed hfits hshort
      rw [hframe, ← hencode, ← hpayload]
      exact .framed hframe (hframes.snoc hf)

/-- More messages are written. -/
theorem carries_append {r : RecvStream} {wire payload unread : List UInt8}
    {objects : List μ} (h : Carries r wire payload)
    (hstream : PackedStream C.pack C.Fits (unread ++ payload) objects [])
    {ms : List (SentMessage μ)} (hms : ∀ m ∈ ms, C.Fits m.1 ∧ (C.pack m.1).length < 2 ^ 31) :
    ∃ payload', Carries r (wire ++ ms.flatMap fun m => (packed C m).encode r.wsFrame) payload' ∧
      PackedStream C.pack C.Fits (unread ++ payload') (objects ++ ms.map Prod.fst) [] := by
  induction ms generalizing wire payload objects with
  | nil =>
      refine ⟨payload, ?_, ?_⟩
      · simpa using h
      · simpa using hstream
  | cons m ms ih =>
      obtain ⟨⟨hfits, hshort⟩, hms⟩ := List.forall_mem_cons.mp hms
      have hsnoc := hstream.snoc hfits
      rw [List.append_assoc] at hsnoc
      obtain ⟨payload', hcarries, hpacked⟩ := ih (carries_snoc h hfits hshort) hsnoc hms
      refine ⟨payload', ?_, ?_⟩
      · rwa [List.flatMap_cons, ← List.append_assoc]
      · rwa [List.map_cons, List.append_cons]

variable {write : Nat → Bool} {reserve : RecvBuffer → ℕ → List UInt8} {completes : Bool}

/-- Everything the argument carries along. -/
structure UnderWay (C : ObjectCodec μ) (write : Nat → Bool) (s : StreamLink C.unpacker.State μ)
    (objects : List μ) : Prop where
  sending : QuicPeerStream.Sending write (s.sent.map (packed C)) s.sender
  fits : ∀ m ∈ s.sent, C.Fits m.1 ∧ (C.pack m.1).length < 2 ^ 31
  reading : Reading C s objects
  decoded : (messagesOf s.sent s.sender.written).map Prod.fst = s.pipeline.decoded ++ objects
  phase : s.pipeline.Phase

theorem underWay_start (wsFrame : Bool) : UnderWay C write (start C wsFrame) [] where
  sending := QuicPeerStream.sending_start wsFrame
  fits := nofun
  reading :=
    { stream := rfl
      frame := rfl
      bytes := by
        obtain ⟨o, ho⟩ := C.exists_fits
        refine ⟨[], carries_start wsFrame, ?_⟩
        show PackedStream C.pack C.Fits (C.pending C.unpacker.empty ++ []) [] []
        rw [C.incremental.pending_empty]
        exact PackedStream.nil ho (pack_ne_nil ho)
      settled := C.settled.empty }
  decoded := rfl
  phase := RecvState.phase_start

/-- A step of the sender puts the frames of the messages that it writes on the wire. -/
theorem UnderWay.sendStep {s : StreamLink C.unpacker.State μ} {objects : List μ}
    (h : UnderWay C write s objects) {more : List (SentMessage μ)}
    (hmore : ∀ m ∈ more, C.Fits m.1 ∧ (C.pack m.1).length < 2 ^ 31) {e : StreamEvent}
    (hasks : e.asks = more.map (packed C)) {t : QuicPeerStream}
    (hstep : QuicPeerStream.Step write s.sender e t) :
    ∃ objects', UnderWay C write { s.sendStep t with sent := s.sent ++ more } objects' := by
  obtain ⟨hsending, ⟨calls, hwritten, hpassed⟩, hframe⟩ := h.sending.step hstep
  rw [hasks, ← List.map_append] at hsending hpassed
  have hfits : ∀ m ∈ s.sent ++ more, C.Fits m.1 ∧ (C.pack m.1).length < 2 ^ 31 :=
    List.forall_mem_append.mpr ⟨h.fits, hmore⟩
  have hold : ∀ call ∈ s.sender.written, call < s.sent.length := by
    intro call hcall
    have := h.sending.ordered.called call hcall
    rwa [h.sending.framed.calls, List.length_map] at this
  set new := messagesOf (s.sent ++ more) calls with hnew
  have hmessages : messagesOf (s.sent ++ more) t.written =
      messagesOf s.sent s.sender.written ++ new := by
    rw [hwritten, messagesOf, List.filterMap_append]
    exact congrArg (· ++ _) (QuicPeerStream.messagesOf_append more hold)
  have hwire : s.sender.passed t = new.flatMap fun m => (packed C m).encode s.receiver.wsFrame := by
    rw [hpassed, QuicPeerStream.messagesOf_map, List.flatMap_map, h.reading.frame]
  have hnewfits : ∀ m ∈ new, C.Fits m.1 ∧ (C.pack m.1).length < 2 ^ 31 := by
    intro m hm
    obtain ⟨call, -, hm⟩ := List.mem_filterMap.mp hm
    exact hfits m (List.mem_of_getElem? hm)
  obtain ⟨payload, hcarries, hstream⟩ := h.reading.bytes
  obtain ⟨payload', hcarries', hstream'⟩ := carries_append hcarries hstream hnewfits
  refine ⟨objects ++ new.map Prod.fst, hsending, hfits, ⟨h.reading.stream, ?_, ⟨payload', ?_,
    hstream'⟩, h.reading.settled⟩, ?_, h.phase⟩
  · exact h.reading.frame.trans hframe.symm
  · show Carries s.receiver (s.wire ++ s.sender.passed t) payload'
    rw [hwire]
    exact hcarries'
  · show (messagesOf (s.sent ++ more) t.written).map Prod.fst = _
    rw [hmessages, List.map_append, h.decoded, List.append_assoc]
    rfl

theorem UnderWay.step (hreserve : ∀ b size, size ≤ (reserve b size).length)
    {s t : StreamLink C.unpacker.State μ} {objects : List μ} (h : UnderWay C write s objects)
    {e : LinkEvent μ} (hstep : SizedStep C write reserve completes s e t) :
    ∃ objects', UnderWay C write t objects' := by
  obtain ⟨hsized, hstep⟩ := hstep
  cases hstep with
  | @send o key t hstep =>
      have hnew : ∀ m ∈ [(o, key)], C.Fits m.1 ∧ (C.pack m.1).length < 2 ^ 31 := by
        rw [List.forall_mem_singleton]
        exact hsized
      exact h.sendStep hnew rfl hstep
  | @sender e t hasks hstep =>
      have hnone : ∀ m ∈ ([] : List (SentMessage μ)),
          C.Fits m.1 ∧ (C.pack m.1).length < 2 ^ 31 := nofun
      obtain ⟨objects', hunder⟩ := h.sendStep hnone hasks hstep
      rw [List.append_nil] at hunder
      exact ⟨objects', hunder⟩
  | @deliver buffers rest payload r fuel left objs hidle hwire hdata happended htake =>
      obtain ⟨bytes, hcarries, hstream⟩ := h.reading.bytes
      rw [hwire] at hcarries
      obtain ⟨out, later, hpayload, happended', hlater, hopen, hframe⟩ :=
        hcarries.onData hreserve h.reading.stream hsized hdata
      have hout : payload = out := List.append_cancel_left (happended.symm.trans happended')
      rw [hpayload, ← hout, ← List.append_assoc, ← C.incremental.pending_consumed] at hstream
      obtain ⟨left', taken, objects', htake', hobjects, hstream', -⟩ :=
        PackedStream.takeAll C.incremental (s := C.unpacker.consumed s.unpacker payload)
          (Nat.lt_succ_self _) hstream
      have hsame := Unpacker.takeAll_mono (Nat.le_max_left _ fuel) htake'
      rw [Unpacker.takeAll_mono (Nat.le_max_right _ fuel) htake] at hsame
      cases hsame
      refine ⟨objects', h.sending, h.fits, ⟨hopen, hframe.trans h.reading.frame,
        ⟨later, hlater, hstream'⟩, ?_⟩, ?_, h.phase.onData hidle objs⟩
      · obtain ⟨s₀, hnext⟩ := Unpacker.takeAll_end htake
        exact C.settled.again _ _ hnext
      have hdecoded : (s.pipeline.onData objs).decoded = s.pipeline.decoded ++ objs := by
        unfold RecvState.onData RecvState.notifyRecvAndUnlock
        split_ifs <;> rfl
      show (messagesOf s.sent s.sender.written).map Prod.fst = _
      rw [h.decoded, hdecoded, hobjects, List.append_assoc]
  | @receiver e p hother hstep =>
      have hreading : Reading C { s with pipeline := p } objects :=
        ⟨h.reading.stream, h.reading.frame, h.reading.bytes, h.reading.settled⟩
      refine ⟨objects, h.sending, h.fits, hreading, ?_, h.phase.step hstep⟩
      have hdecoded : p.decoded = s.pipeline.decoded := RecvStep.decoded hstep hother
      show _ = p.decoded ++ objects
      rw [hdecoded]
      exact h.decoded

/-! ## §5  Over whole runs -/

theorem runs_underWay (hreserve : ∀ b size, size ≤ (reserve b size).length) {wsFrame : Bool}
    {es : List (LinkEvent μ)} {s : StreamLink C.unpacker.State μ}
    (run : Runs (SizedStep C write reserve completes) (start C wsFrame) es s) :
    ∃ objects, UnderWay C write s objects := by
  refine run.invariant (I := fun s => ∃ objects, UnderWay C write s objects)
    ⟨[], underWay_start wsFrame⟩ ?_
  rintro s e t ⟨objects, h⟩ hstep
  exact h.step hreserve hstep

/-- With nothing on the wire nothing is left to decode, and without a worker nothing to
process. -/
theorem UnderWay.processed {s : StreamLink C.unpacker.State μ} {objects : List μ}
    (h : UnderWay C write s objects) :
    s.pipeline.processed <+: (messagesOf s.sent s.sender.written).map Prod.fst ∧
      (s.Quiet → s.pipeline.processed = (messagesOf s.sent s.sender.written).map Prod.fst) := by
  have hsound := h.phase.sound
  constructor
  · refine ⟨s.pipeline.inHand ++ s.pipeline.recvQueue ++ objects, ?_⟩
    rw [h.decoded, ← hsound.inOrder]
    simp only [List.append_assoc]
  · intro hquiet
    have hqueue : s.pipeline.recvQueue = [] := by
      by_contra hleft
      exact hsound.served hleft hquiet.producer hquiet.workers
    have hhand : s.pipeline.inHand = [] := by
      rw [RecvState.inHand, hquiet.workers]
      rfl
    have hprocessed := hsound.inOrder
    rw [hqueue, hhand, List.append_nil, List.append_nil] at hprocessed
    obtain ⟨payload, hcarries, hstream⟩ := h.reading.bytes
    rw [hquiet.wire] at hcarries
    have hpayload : payload = [] := by
      cases hcarries with
      | plain => rfl
      | framed _ hframes =>
          obtain ⟨read, frames, -, -, -, -, hpayload⟩ := hframes
          exact hpayload
    rcases hstream.next C.incremental with ⟨o, rest, s', -, hnext, -⟩ | ⟨s', -, -, hall⟩
    · exact absurd hnext (h.reading.settled s' o)
    · rw [h.decoded, (hall hpayload).1, List.append_nil]
      exact hprocessed

/-- **A QUIC stream is a queue of messages.** Whatever fails or is retried, however the bytes
are cut up and in whatever order the workers get the lock: what is processed at one end are
messages that the other end has sent, in the order of the calls and each at most once. As long
as no two Writes in a row fail no message is left out, and when all is quiet then every message
has been processed. -/
theorem messages_processed_in_order
    (hreserve : ∀ b size, size ≤ (reserve b size).length) {wsFrame : Bool}
    {es : List (LinkEvent μ)} {s : StreamLink C.unpacker.State μ}
    (run : Runs (SizedStep C write reserve completes) (start C wsFrame) es s) :
    s.pipeline.processed.Sublist (s.sent.map Prod.fst) ∧
      (QuicPeerStream.Retried write s.sender.writes →
        s.pipeline.processed <+: s.sent.map Prod.fst ∧
          (s.Quiet → s.pipeline.processed = s.sent.map Prod.fst)) := by
  obtain ⟨objects, h⟩ := runs_underWay hreserve run
  obtain ⟨hinOrder, hall⟩ := h.processed
  have hlength : s.sent.length = (s.sent.map (packed C)).length := by
    rw [List.length_map]
  have hsub := h.sending.messages_sublist hlength
  refine ⟨hinOrder.sublist.trans (hsub.map Prod.fst), fun hretried => ?_⟩
  obtain ⟨hfirst, hwritten⟩ := h.sending.messages_first hretried hlength
  refine ⟨hinOrder.trans (hfirst.map Prod.fst), fun hquiet => ?_⟩
  rw [hall hquiet, hwritten hquiet.sender]

/-- The receiver can go on by itself. -/
theorem runs_receiver {s : StreamLink C.unpacker.State μ} {es : List (RecvEvent μ)}
    {p : RecvState μ}
    (run : Runs (fun p e q => RecvStep p e q ∧ ∀ objs, e ≠ .onData objs) s.pipeline es p) :
    Runs (SizedStep C write reserve completes) s (es.map .receiver) { s with pipeline := p } := by
  induction run with
  | init => exact .init
  | snoc _ hstep ih =>
      obtain ⟨hstep, hother⟩ := hstep
      rw [List.map_append, List.map_singleton]
      exact ih.snoc ⟨trivial, .receiver hother hstep⟩

/-- The integer 5 is sent in a frame, delivered in two buffers and processed. -/
def sendFive : List (LinkEvent Object) :=
  [.sender .getBuffer, .send (.int 5) .zero, .deliver [[0x82, 0x81, 0, 0, 0, 0], [5]],
    .receiver .publish, .receiver .start, .receiver .process, .receiver .relock,
    .receiver (.wake true)]

/-- The sender when the Write was accepted. -/
def fiveSender : QuicPeerStream where
  wsFrame := true
  isOpen := true
  sendQueue :=
    [{ call := 0, buffer := [5], pending := false, header := some 0, submitted := true }]
  wsHeaders := [⟨0, [0x82, 0x81, 0, 0, 0, 0]⟩]
  sendBufferCount := 1
  pendingSends := 1
  pendingBytes := 1
  calls := 1
  writes := 1
  accepted := [0]
  written := [0]

theorem runs_fiveSent : Runs (SizedStep Object.codec (fun _ => true) grown true)
    (start Object.codec true) (sendFive.take 2) { start Object.codec true with
      sender := fiveSender
      sent := [(.int 5, .zero)]
      wire := [0x82, 0x81, 0, 0, 0, 0, 5] } := by
  let taken : QuicPeerStream :=
    { wsFrame := true, isOpen := true, sendBufferCount := 1, buffersOut := 1 }
  have hget :
      QuicPeerStream.Step (fun _ => true) (start Object.codec true).sender .getBuffer taken :=
    ⟨.inr (show 0 < maxSendBuffers by decide), rfl⟩
  have hsend : QuicPeerStream.Step (fun _ => true) taken (.sendBuffer (Object.pack (.int 5)) .zero)
      fiveSender :=
    ⟨⟨fun _ => show 0 ≤ maxPendingBytes by decide, Nat.one_pos⟩, by decide +kernel⟩
  have hfits : Object.codec.Fits (.int 5) := ⟨.int (by decide) (by decide), by decide⟩
  have hpassed : taken.passed fiveSender = [0x82, 0x81, 0, 0, 0, 0, 5] := by decide +kernel
  have hstep : Step Object.codec (fun _ => true) grown true
      ((start Object.codec true).sendStep taken) (.send (.int 5) .zero) _ := .send hsend
  simp only [StreamLink.sendStep, hpassed] at hstep
  exact (Runs.init.snoc ⟨trivial, .sender rfl hget⟩).snoc
    ⟨⟨hfits, show (Object.pack (.int 5)).length < 2 ^ 31 by decide⟩, hstep⟩

/-- What the worker makes of the message, from the end of `OnData` on. -/
def fiveDecoded : RecvState Object := ({} : RecvState Object).onData [.int 5]

def fiveDone : RecvState Object := { decoded := [.int 5], processed := [.int 5] }

theorem runs_fiveDone : Runs (fun p e q => RecvStep p e q ∧ ∀ objs, e ≠ .onData objs) fiveDecoded
    [.publish, .start, .process, .relock, .wake true] fiveDone := by
  have hpublish : RecvStep fiveDecoded .publish
      { fiveDecoded with producer := .idle, workers := [.scheduled] } := .publish nofun
  have hstart : RecvStep { fiveDecoded with producer := .idle, workers := [.scheduled] } .start
      { decoded := [.int 5], recvBusy := true, workers := [.processing [.int 5]] } :=
    RecvState.step_start rfl
  have hprocess : RecvStep
      { decoded := [.int 5], recvBusy := true, workers := [.processing [.int 5]] } .process
      { fiveDone with recvBusy := true, workers := [.processing []] } :=
    RecvState.step_process rfl
  have hrelock : RecvStep { fiveDone with recvBusy := true, workers := [.processing []] } .relock
      { fiveDone with recvBusy := true, recvWaiting := true, workers := [.waiting false] } :=
    @RecvStep.relock _ _ [] [] rfl
  have hwake : RecvStep
      { fiveDone with recvBusy := true, recvWaiting := true, workers := [.waiting false] }
      (.wake true) fiveDone := @RecvStep.wake _ _ [] [] false true rfl
  exact ((((Runs.init.snoc ⟨hpublish, nofun⟩).snoc ⟨hstart, nofun⟩).snoc ⟨hprocess, nofun⟩).snoc
    ⟨hrelock, nofun⟩).snoc ⟨hwake, nofun⟩

theorem messages_processed_in_order_five : ∃ s,
    Runs (SizedStep Object.codec (fun _ => true) grown true) (start Object.codec true) sendFive s ∧
      s.Quiet ∧ s.pipeline.processed = [.int 5] := by
  have haccounted : Accounted { wsFrame := true } [[0x82, 0x81, 0, 0, 0, 0], [5]] [5]
      (onData grown true { wsFrame := true } [[0x82, 0x81, 0, 0, 0, 0], [5]]) :=
    (accounted_iff_feedAll le_length_grown rfl rfl rfl _ _).mpr
      ⟨by decide, { payloadRead := 1, wsMask := true }, by decide +kernel, rfl⟩
  obtain ⟨r, hdata, happended, -⟩ := haccounted
  have hsized : Sized Object.codec (.deliver [[0x82, 0x81, 0, 0, 0, 0], [5]]) := by
    show ∀ buffer ∈ ([[0x82, 0x81, 0, 0, 0, 0], [5]] : List (List UInt8)), buffer.length < 2 ^ 31
    decide
  have htake : Object.codec.unpacker.takeAll 2 ([5] : List UInt8) = some ([], [.int 5]) := rfl
  have hstep : Step Object.codec (fun _ => true) grown true
      { start Object.codec true with
        sender := fiveSender, sent := [(.int 5, .zero)], wire := [0x82, 0x81, 0, 0, 0, 0, 5] }
      (.deliver [[0x82, 0x81, 0, 0, 0, 0], [5]])
      { start Object.codec true with
        sender := fiveSender, sent := [(.int 5, .zero)], receiver := r, pipeline := fiveDecoded } :=
    .deliver rfl (List.append_nil _).symm hdata happended htake
  have run := (runs_fiveSent.snoc ⟨hsized, hstep⟩).trans (runs_receiver runs_fiveDone)
  have hquiet : Quiet { sender := fiveSender
                        sent := [(.int 5, .zero)]
                        receiver := r
                        unpacker := ([] : List UInt8)
                        pipeline := fiveDone } :=
    ⟨show ∀ event ∈ fiveSender.sendQueue, event.pending = false by decide, rfl, rfl, rfl⟩
  refine ⟨_, run, hquiet, ?_⟩
  refine ((messages_processed_in_order le_length_grown run).2 ?_).2 hquiet
  exact fun k _ => .inl rfl

end StreamLink

end BeyondProtocol.Quic
