import BeyondProtocol.Framework.Msgpack
import BeyondProtocol.Framework.PackedStream
import BeyondProtocol.Peer.Wakeup
import BeyondProtocol.Protocol.Connection

/-!
# Two ends of a TCP connection (`peer_tcp.cpp`, `connection.cpp`)

One end packs messages and writes them to its socket, the other end reads whatever bytes are
there and takes the messages apart again in its jobs. Between them the network keeps the
bytes in order and cuts them up as it likes.

`send_buffer_` writes under `send_mtx_`, so the bytes of one message are not mixed with those
of another. A write that fails for good may have got a part of the message through, and
`send_buffer_` leaves the connection open then: what follows is read as the rest of that
message.
-/

namespace BeyondProtocol.TcpLink

open Framework Framework.Msgpack Jobs

/-! ## §1  The two ends -/

/-- `recv_buf_` -/
def decoder {μ : Type} (C : ObjectCodec μ) : Decoder C.unpacker.State μ where
  empty := C.unpacker.empty
  feed := C.unpacker.consumed
  next buffer :=
    match C.unpacker.next buffer with
    | some (buffer, some o) => .message o buffer
    | some (buffer, none) => .needMore buffer
    | none => .bad
  next_empty := by
    intro o buffer h
    split at h
    · rename_i hnext
      exact C.settled.empty _ _ hnext
    · cases h
    · cases h
  next_needMore := by
    intro buffer buffer' h o buffer'' h'
    split at h
    · cases h
    · rename_i hnone
      cases h
      split at h'
      · rename_i hnext
        exact C.settled.again _ _ hnone _ _ hnext
      · cases h'
      · cases h'
    · cases h

/-- A message is `sent` once the socket has taken all of it. -/
structure Link (δ μ : Type) where
  sent : List μ := []
  /-- What got through of the messages that the socket did not take to the end. -/
  cut : List UInt8 := []
  /-- Bytes that the receiver's socket has not given out. -/
  wire : List UInt8 := []
  receiver : PeerTcp δ μ

inductive LinkEvent (μ : Type) : Type where
  /-- `send`, with what the socket answers; it is decided when the lock is taken. -/
  | send (o : μ) (results : List SocketConnection.WriteResult)
  /-- `recv()` gets bytes from the socket. -/
  | recv (bytes : List UInt8)
  /-- Any other step of the receiver. -/
  | receiver (e : Event)

variable {μ : Type} (C : ObjectCodec μ)

namespace Link

def start : Link C.unpacker.State μ where
  receiver := { buffer := C.unpacker.empty }

/-- The receiver's part of an event. -/
def received : LinkEvent μ → List Event
  | .send _ _ => []
  | .recv bytes => [.consume bytes]
  | .receiver e => [e]

/-- The bytes that the socket takes of a message. -/
def write (s : Link C.unpacker.State μ) (o : μ) (taken : List UInt8) :
    Link C.unpacker.State μ :=
  if taken = C.pack o then { s with sent := s.sent ++ [o], wire := s.wire ++ taken }
  else { s with cut := s.cut ++ taken, wire := s.wire ++ taken }

inductive Step (s : Link C.unpacker.State μ) :
    LinkEvent μ → Link C.unpacker.State μ → Prop where
  | send {o : μ} {results : List SocketConnection.WriteResult}
      {calls : List SocketConnection.WriteCall} {value : Option Int} :
      SocketConnection.writev [C.pack o] results = .ok (calls, value) →
      Step s (.send o results) (s.write C o (SocketConnection.takenBytes calls))
  | recv {bytes rest : List UInt8} : s.receiver.recv = .idle → s.receiver.isValid = true →
      bytes ≠ [] → s.wire = bytes ++ rest →
      Step s (.recv bytes)
        { s with wire := rest, receiver := s.receiver.handle (decoder C) (.consume bytes) }
  | receiver {e : Event} : (∀ bytes, e ≠ .consume bytes) →
      Step s (.receiver e) { s with receiver := s.receiver.handle (decoder C) e }

/-- Nothing is sent any more once a message was cut off. -/
def Clean (s : Link C.unpacker.State μ) : LinkEvent μ → Prop
  | .send o _ => C.Fits o ∧ s.cut = []
  | _ => True

def CleanStep (s : Link C.unpacker.State μ) (e : LinkEvent μ)
    (t : Link C.unpacker.State μ) : Prop :=
  s.Clean C e ∧ Step C s e t

/-- Besides, the jobs of the receiver do not overlap. -/
def OrderlyStep (s : Link C.unpacker.State μ) (e : LinkEvent μ)
    (t : Link C.unpacker.State μ) : Prop :=
  CleanStep C s e t ∧ ∀ r ∈ received e, s.receiver.Exclusive r

/-- Nothing is under way, and nobody is at work at the receiver. -/
structure Quiet {δ : Type} (s : Link δ μ) : Prop where
  wire : s.wire = []
  recv : s.receiver.recv = .idle
  jobs : s.receiver.jobs = []
  valid : s.receiver.isValid = true

/-! ## §2  What is under way -/

/-- The messages that were sent and not taken are in the buffer and on the wire. -/
def UnderWay (s : Link C.unpacker.State μ) (objects : List μ) : Prop :=
  s.sent = s.receiver.taken ++ objects ∧
    PackedStream C.pack C.Fits (C.pending s.receiver.buffer ++ s.wire) objects s.cut

theorem underWay_start : UnderWay C (start C) [] := by
  obtain ⟨o, ho⟩ := C.exists_fits
  refine ⟨rfl, ?_⟩
  show PackedStream C.pack C.Fits (C.pending C.unpacker.empty ++ []) [] []
  rw [C.incremental.pending_empty]
  exact PackedStream.nil ho (C.incremental.pack_ne_nil o ho)

/-- What a step other than `consume` does to the buffer. -/
inductive Reads {δ : Type} (D : Decoder δ μ) (r t : PeerTcp δ μ) : Prop
  | nothing (buffer : t.buffer = r.buffer) (taken : t.taken = r.taken)
  | needMore (next : D.next r.buffer = .needMore t.buffer) (taken : t.taken = r.taken)
  | message (m : μ) (next : D.next r.buffer = .message m t.buffer)
      (taken : t.taken = r.taken ++ [m])

theorem reads_advance {δ : Type} (D : Decoder δ μ) {r t : PeerTcp δ μ}
    {phase : JobPhase μ} {phase' : Option (JobPhase μ)}
    (h : r.advance D phase = (t, phase')) : Reads D r t := by
  cases phase with
  | next =>
      simp only [PeerTcp.advance] at h
      split_ifs at h with hvalid
      · cases hnext : D.next r.buffer with
        | needMore buffer =>
            rw [hnext] at h
            cases h
            exact .needMore hnext rfl
        | message m buffer =>
            rw [hnext] at h
            cases h
            exact .message m hnext rfl
        | bad =>
            rw [hnext] at h
            cases h
            exact .nothing rfl rfl
      · cases h
        exact .nothing rfl rfl
  | start => cases h; exact .nothing rfl rfl
  | process m => cases h; exact .nothing rfl rfl
  | release => cases h; exact .nothing rfl rfl
  | recheck => cases h; exact .nothing rfl rfl
  | reacquire => cases h; exact .nothing rfl rfl
  | finish => cases h; exact .nothing rfl rfl

theorem reads_handle {δ : Type} (D : Decoder δ μ) (r : PeerTcp δ μ)
    {e : Event} (he : ∀ bytes, e ≠ .consume bytes) : Reads D r (r.handle D e) := by
  cases e with
  | consume bytes => exact absurd rfl (he bytes)
  | clearChecked =>
      simp only [PeerTcp.handle]
      split_ifs <;> exact .nothing rfl rfl
  | testAndSet =>
      simp only [PeerTcp.handle]
      split_ifs <;> exact .nothing rfl rfl
  | createJob =>
      simp only [PeerTcp.handle]
      split_ifs <;> exact .nothing rfl rfl
  | close => exact .nothing rfl rfl
  | job i =>
      cases hi : r.jobs[i]? with
      | none =>
          rw [PeerTcp.handle_job_none hi]
          exact .nothing rfl rfl
      | some phase =>
          rw [PeerTcp.handle_job hi rfl]
          cases reads_advance D (rfl : r.advance D phase = _) with
          | nothing buffer taken => exact .nothing buffer taken
          | needMore next taken => exact .needMore next taken
          | message m next taken => exact .message m next taken

/-! ## §3  The steps -/

/-- What the socket has taken of a message is the front of it. -/
theorem takenBytes_isPrefix {data : List UInt8} {results : List SocketConnection.WriteResult}
    {calls : List SocketConnection.WriteCall} {value : Option Int}
    (h : SocketConnection.writev [data] results = .ok (calls, value)) :
    SocketConnection.takenBytes calls <+: data := by
  cases results with
  | nil =>
      cases h
      exact List.nil_prefix
  | cons result results =>
      obtain ⟨calls', value', hwritev, hunsent, -⟩ :=
        SocketConnection.writev_ok [data] result results
      rw [hwritev] at h
      cases h
      simpa using hunsent.isPrefix

section

variable {C : ObjectCodec μ} {s : Link C.unpacker.State μ} {objects : List μ}

theorem UnderWay.write (h : s.UnderWay C objects) {o : μ} (ho : C.Fits o)
    (hcut : s.cut = []) {taken : List UInt8} (htaken : taken <+: C.pack o) :
    ∃ objects', (s.write C o taken).UnderWay C objects' := by
  obtain ⟨hsent, hstream⟩ := h
  rw [hcut] at hstream
  unfold Link.write
  split_ifs with hall
  · refine ⟨objects ++ [o], ?_, ?_⟩
    · show s.sent ++ [o] = _
      rw [hsent, List.append_assoc]
    · show PackedStream _ _ (_ ++ (_ ++ taken)) _ s.cut
      rw [hcut, hall, ← List.append_assoc]
      exact hstream.snoc ho
  · obtain ⟨missing, hmissing⟩ := htaken
    refine ⟨objects, hsent, ?_⟩
    show PackedStream _ _ (_ ++ (_ ++ taken)) _ (s.cut ++ taken)
    rw [hcut, List.nil_append, ← List.append_assoc]
    refine hstream.cutOff ho hmissing.symm ?_
    rintro rfl
    exact hall (by simpa using hmissing)

theorem decoder_next {buffer : C.unpacker.State} {wire cut : List UInt8}
    (h : PackedStream C.pack C.Fits (C.pending buffer ++ wire) objects cut) :
    (∃ o rest buffer', objects = o :: rest ∧ (decoder C).next buffer = .message o buffer' ∧
      PackedStream C.pack C.Fits (C.pending buffer' ++ wire) rest cut) ∨
    ∃ buffer', (decoder C).next buffer = .needMore buffer' ∧
      C.pending buffer' = C.pending buffer ∧
      (wire = [] → objects = [] ∧ C.pending buffer = cut) := by
  rcases h.next C.incremental with ⟨o, rest, buffer', hobjects, hnext, hrest⟩ |
    ⟨buffer', hnext, hbuffer, hwire⟩
  · refine .inl ⟨o, rest, buffer', hobjects, ?_, hrest⟩
    simp only [decoder, hnext]
  · refine .inr ⟨buffer', ?_, hbuffer, hwire⟩
    simp only [decoder, hnext]

theorem UnderWay.receiver (h : s.UnderWay C objects) {r : PeerTcp C.unpacker.State μ}
    (hr : Reads (decoder C) s.receiver r) :
    ∃ objects', UnderWay C { s with receiver := r } objects' := by
  obtain ⟨hsent, hstream⟩ := h
  cases hr with
  | nothing buffer taken =>
      refine ⟨objects, ?_, ?_⟩
      · rw [taken]
        exact hsent
      · rw [buffer]
        exact hstream
  | needMore next taken =>
      rcases decoder_next hstream with ⟨o, rest, buffer', -, hmessage, -⟩ |
        ⟨buffer', hneed, hpending, -⟩
      · rw [hmessage] at next
        cases next
      · rw [hneed] at next
        injection next with hbuffer
        refine ⟨objects, ?_, ?_⟩
        · rw [taken]
          exact hsent
        · rw [← hbuffer, hpending]
          exact hstream
  | message m next taken =>
      rcases decoder_next hstream with ⟨o, rest, buffer', hobjects, hmessage, hrest⟩ |
        ⟨buffer', hneed, -⟩
      · rw [hmessage] at next
        cases next
        refine ⟨rest, ?_, hrest⟩
        rw [taken, List.append_assoc]
        show s.sent = _
        rw [hsent, hobjects]
        rfl
      · rw [hneed] at next
        cases next

theorem UnderWay.step {t : Link C.unpacker.State μ} {e : LinkEvent μ}
    (h : s.UnderWay C objects) (hstep : CleanStep C s e t) : ∃ objects', t.UnderWay C objects' := by
  obtain ⟨hclean, hstep⟩ := hstep
  cases hstep with
  | send hwritev => exact h.write hclean.1 hclean.2 (takenBytes_isPrefix hwritev)
  | @recv bytes rest hidle hvalid hne hwire =>
      obtain ⟨hsent, hstream⟩ := h
      have hconsume : s.receiver.handle (decoder C) (.consume bytes) = { s.receiver with
          recv := .consumed, buffer := C.unpacker.consumed s.receiver.buffer bytes } :=
        if_pos ⟨hidle, hvalid, hne⟩
      rw [hconsume]
      refine ⟨objects, hsent, ?_⟩
      show PackedStream _ _ (C.pending (C.unpacker.consumed s.receiver.buffer bytes) ++ rest) _ _
      rw [C.incremental.pending_consumed, List.append_assoc, ← hwire]
      exact hstream
  | receiver he => exact h.receiver (reads_handle (decoder C) s.receiver he)

end

/-! ## §4  Over whole runs -/

section

variable {C : ObjectCodec μ} {s : Link C.unpacker.State μ} {es : List (LinkEvent μ)}

/-- A step of the link is a step of the receiver, or none. -/
theorem runs_receiver {t : Link C.unpacker.State μ} {e : LinkEvent μ}
    (h : OrderlyStep C s e t) :
    Runs (PeerTcp.ExclusiveStep (decoder C)) s.receiver (received e) t.receiver := by
  obtain ⟨⟨-, hstep⟩, hexclusive⟩ := h
  cases hstep with
  | @send o results calls value hwritev =>
      have hsame : (s.write C o (SocketConnection.takenBytes calls)).receiver = s.receiver := by
        unfold Link.write
        split_ifs <;> rfl
      rw [hsame]
      exact .init
  | recv _ _ _ _ => exact .snoc .init ⟨hexclusive _ (List.mem_singleton_self _), rfl⟩
  | receiver _ => exact .snoc .init ⟨hexclusive _ (List.mem_singleton_self _), rfl⟩

theorem receiver_orderly (run : Runs (OrderlyStep C) (start C) es s) :
    s.receiver.Sole ∧ s.receiver.Awake (decoder C) := by
  have hreceiver := run.simulate (π := Link.receiver) (ρ := received) fun _ _ _ => runs_receiver
  exact (PeerTcp.runs_handed hreceiver).2

theorem runs_underWay (run : Runs (CleanStep C) (start C) es s) :
    ∃ objects, s.UnderWay C objects := by
  refine run.invariant (I := fun s => ∃ objects, UnderWay C s objects) ⟨[], underWay_start C⟩ ?_
  rintro s e t ⟨objects, h⟩ hstep
  exact h.step hstep

/-- **A connection is a queue of messages.** However the bytes are cut up and whatever the jobs of
the receiver do, the messages they take are the first ones that were sent, in order and each once,
as long as nothing is sent behind a message that was cut off. If moreover the jobs do not overlap,
the messages are processed in this order, and when all is quiet every message has been processed
and nothing is left in the buffer but the front of the message that was cut off. -/
theorem messages_delivered_in_order (run : Runs (CleanStep C) (start C) es s) :
    s.receiver.taken <+: s.sent ∧
      (Runs (OrderlyStep C) (start C) es s →
        s.receiver.processed <+: s.sent ∧
          (s.Quiet → s.receiver.processed = s.sent ∧ C.pending s.receiver.buffer = s.cut)) := by
  obtain ⟨objects, hsent, hstream⟩ := runs_underWay run
  refine ⟨⟨objects, hsent.symm⟩, fun horderly => ?_⟩
  obtain ⟨hsole, hawake⟩ := receiver_orderly horderly
  have hprocessed : s.receiver.processed <+: s.receiver.taken := ⟨_, hsole.inOrder⟩
  refine ⟨hprocessed.trans ⟨objects, hsent.symm⟩, fun hquiet => ?_⟩
  have hidle : s.receiver.processed = s.receiver.taken := by
    simpa [hquiet.jobs] using hsole.inOrder
  rcases decoder_next hstream with ⟨o, rest, buffer', -, hmessage, -⟩ | ⟨_, -, -, hall⟩
  · -- the message would be left behind
    exact absurd ⟨hquiet.recv, hquiet.jobs, hquiet.valid, o, buffer', hmessage⟩ hawake.not_stranded
  · obtain ⟨hobjects, hbuffer⟩ := hall hquiet.wire
    rw [hobjects, List.append_nil] at hsent
    exact ⟨hidle.trans hsent.symm, hbuffer⟩

/-- Steps at which no job overlaps another. -/
theorem orderly_receiver {e : Event} (hconsume : ∀ bytes, e ≠ .consume bytes)
    (hexclusive : s.receiver.Exclusive e) :
    OrderlyStep C s (.receiver e) { s with receiver := s.receiver.handle (decoder C) e } := by
  refine ⟨⟨trivial, .receiver hconsume⟩, ?_⟩
  intro r hr
  cases List.mem_singleton.mp hr
  exact hexclusive

theorem orderly_job (i : ℕ) :
    OrderlyStep C s (.receiver (.job i))
      { s with receiver := s.receiver.handle (decoder C) (.job i) } :=
  orderly_receiver nofun nofun

end

/-- The integer 5 is sent, of which the socket takes nothing at first, and processed. -/
def sendFive : List (LinkEvent Object) :=
  [.send (.int 5) [.taken 0, .taken 1], .recv [5], .receiver .clearChecked,
    .receiver .testAndSet, .receiver .createJob] ++ List.replicate 8 (.receiver (.job 0))

/-- The link when the receiver has the job to make. -/
def fiveCreating : Link Object.codec.unpacker.State Object :=
  { sent := [.int 5]
    receiver := { alreadyProcessing := true, buffer := [5], recv := .creating } }

/-- The link when nothing is left to do. -/
def fiveQuiet : Link Object.codec.unpacker.State Object :=
  { sent := [.int 5]
    receiver :=
      { recvChecked := true
        buffer := []
        taken := [.int 5]
        processed := [.int 5] } }

theorem runs_fiveCreating :
    Runs (OrderlyStep Object.codec) (start Object.codec) (sendFive.take 4) fiveCreating := by
  have hfive : Object.codec.Fits (.int 5) := ⟨.int (by decide) (by decide), by decide⟩
  have hwritev : SocketConnection.writev [Object.codec.pack (.int 5)] [.taken 0, .taken 1] =
      .ok ([⟨[[5]], .taken 0⟩, ⟨[[5]], .taken 1⟩], some 1) := rfl
  have hsend : OrderlyStep Object.codec (start Object.codec) (.send (.int 5) [.taken 0, .taken 1])
      { sent := [.int 5], wire := [5], receiver := { buffer := ([] : List UInt8) } } :=
    ⟨⟨⟨hfive, rfl⟩, .send hwritev⟩, fun r hr => absurd hr List.not_mem_nil⟩
  have hrecv : OrderlyStep Object.codec
      { sent := [.int 5], wire := [5], receiver := { buffer := ([] : List UInt8) } } (.recv [5])
      { sent := [.int 5], receiver := { buffer := ([5] : List UInt8), recv := .consumed } } := by
    refine ⟨⟨trivial, .recv rfl rfl (List.cons_ne_nil 5 []) rfl⟩, fun r hr => ?_⟩
    cases List.mem_singleton.mp hr
    exact nofun
  exact (((Runs.init.snoc hsend).snoc hrecv).snoc
    (orderly_receiver (e := .clearChecked) nofun nofun)).snoc
    (orderly_receiver (e := .testAndSet) nofun fun _ _ _ => rfl)

theorem messages_delivered_in_order_five :
    Runs (CleanStep Object.codec) (start Object.codec) sendFive fiveQuiet ∧ fiveQuiet.Quiet ∧
      fiveQuiet.receiver.processed = [.int 5] ∧
        Object.codec.pending fiveQuiet.receiver.buffer = [] := by
  have hcreate := @orderly_receiver _ Object.codec fiveCreating .createJob nofun nofun
  have hlast : Runs (OrderlyStep Object.codec) fiveCreating (sendFive.drop 4) fiveQuiet :=
    ((((((((Runs.init.snoc hcreate).snoc (orderly_job 0)).snoc (orderly_job 0)).snoc
      (orderly_job 0)).snoc (orderly_job 0)).snoc (orderly_job 0)).snoc (orderly_job 0)).snoc
      (orderly_job 0)).snoc (orderly_job 0)
  have run : Runs (OrderlyStep Object.codec) (start Object.codec) sendFive fiveQuiet :=
    runs_fiveCreating.trans hlast
  have hclean := run.mono fun _ _ _ h => h.1
  have hquiet : fiveQuiet.Quiet := ⟨rfl, rfl, rfl, rfl⟩
  exact ⟨hclean, hquiet, ((messages_delivered_in_order hclean).2 run).2 hquiet⟩

end Link

end BeyondProtocol.TcpLink
