import BeyondProtocol.Framework.Runs

/-!
# Processing jobs of a TCP peer (`peer_tcp.cpp`)

`recv()` appends what the socket gives to the receive buffer and leaves the messages to
a job in the thread pool. Two flags keep the two sides together: a job is made only by
whoever sets `already_processing_`, and `recv()` clears `recv_checked_` so that a job
that has found no message looks again before it goes.

A job clears `already_processing_` twice, in `_data` when it has found no message and
once more at its end, and by then the flag may belong to another job. Every operation on
a flag and every access to the buffer is one step here.
-/

namespace BeyondProtocol.Jobs

open Framework

/-! ## §1  The source functions -/

/-- What `_has_next() && next()` comes to. -/
inductive Next (δ μ : Type) : Type where
  | needMore (buffer : δ)
  | message (m : μ) (buffer : δ)
  | bad
deriving DecidableEq, Repr

/-- The receive buffer with the unpacker: a new one has no message, and a call that has found
none would find none again. -/
structure Decoder (δ μ : Type) where
  empty : δ
  feed : δ → List UInt8 → δ
  next : δ → Next δ μ
  next_empty : ∀ m d, next empty ≠ .message m d
  next_needMore : ∀ d d', next d = .needMore d' → ∀ m d'', next d' ≠ .message m d''

/-- Where `recv()` stands, after `buffer_consumed`. -/
inductive RecvPhase : Type where
  | idle
  | consumed
  | cleared
  | creating
deriving DecidableEq, Repr

/-- What a job does next. -/
inductive JobPhase (μ : Type) : Type where
  /-- Sets `recv_checked_` at the top of `_data`. -/
  | start
  | next
  | process (m : μ)
  /-- Clears `already_processing_`: no message was found. -/
  | release
  /-- Looks whether `recv_checked_` was cleared since. -/
  | recheck
  /-- Tries to get `already_processing_` back. -/
  | reacquire
  /-- Clears `already_processing_` after the last `_data`. -/
  | finish
deriving DecidableEq, Repr

structure PeerTcp (δ μ : Type) where
  alreadyProcessing : Bool := false
  recvChecked : Bool := false
  /-- The socket is open. -/
  isValid : Bool := true
  buffer : δ
  recv : RecvPhase := .idle
  jobs : List (JobPhase μ) := []
  /-- The messages that `next()` has given, in order. -/
  taken : List μ := []
  /-- The messages that `process_message_` is done with, in order. -/
  processed : List μ := []
deriving DecidableEq, Repr

inductive Event : Type where
  /-- `recv()` gets bytes from the socket. -/
  | consume (bytes : List UInt8)
  | clearChecked
  | testAndSet
  | createJob
  | job (i : Nat)
  | close
deriving DecidableEq, Repr

variable {δ μ : Type}

namespace PeerTcp

/-- A step of a job, with what it does next. -/
def advance (D : Decoder δ μ) (s : PeerTcp δ μ) : JobPhase μ → PeerTcp δ μ × Option (JobPhase μ)
  | .start => ({ s with recvChecked := true }, some .next)
  | .next =>
      if s.isValid then
        match D.next s.buffer with
        | .needMore buffer => ({ s with buffer := buffer }, some .release)
        | .message m buffer =>
            ({ s with buffer := buffer, taken := s.taken ++ [m] }, some (.process m))
        -- a protocol error closes the connection, and `_data` returns with the flag set
        | .bad => ({ s with isValid := false }, some .finish)
      else (s, some .release)
  | .process m => ({ s with processed := s.processed ++ [m] }, some .start)
  | .release => ({ s with alreadyProcessing := false }, some .recheck)
  | .recheck =>
      ({ s with recvChecked := true }, some (if s.recvChecked then .finish else .reacquire))
  | .reacquire =>
      ({ s with alreadyProcessing := true },
        some (if s.alreadyProcessing then .finish else .start))
  | .finish => ({ s with alreadyProcessing := false }, none)

/-- Job `i` goes on, or is over. -/
def replaceJob (jobs : List (JobPhase μ)) (i : Nat) (phase : Option (JobPhase μ)) :
    List (JobPhase μ) :=
  jobs.take i ++ phase.toList ++ jobs.drop (i + 1)

/-- One step; what cannot happen now does nothing. -/
def handle (D : Decoder δ μ) (s : PeerTcp δ μ) : Event → PeerTcp δ μ
  | .consume bytes =>
      if s.recv = .idle ∧ s.isValid ∧ bytes ≠ [] then
        { s with recv := .consumed, buffer := D.feed s.buffer bytes }
      else s
  | .clearChecked =>
      if s.recv = .consumed then { s with recv := .cleared, recvChecked := false } else s
  | .testAndSet =>
      if s.recv = .cleared then
        if s.alreadyProcessing then { s with recv := .idle }
        else { s with recv := .creating, alreadyProcessing := true }
      else s
  | .createJob =>
      if s.recv = .creating then { s with recv := .idle, jobs := s.jobs ++ [.start] } else s
  | .job i =>
      match s.jobs[i]? with
      | none => s
      | some phase =>
          let (t, phase') := s.advance D phase
          { t with jobs := replaceJob s.jobs i phase' }
  | .close => { s with isValid := false }

def Step (D : Decoder δ μ) (s : PeerTcp δ μ) (e : Event) (t : PeerTcp δ μ) : Prop :=
  t = s.handle D e

theorem runs_foldl (D : Decoder δ μ) (s : PeerTcp δ μ) (es : List Event) :
    Runs (Step D) s es (es.foldl (handle D) s) := by
  apply Runs.of_foldl
  intro s e
  rfl

theorem handle_job {D : Decoder δ μ} {s t : PeerTcp δ μ} {i : Nat} {phase : JobPhase μ}
    {phase' : Option (JobPhase μ)} (hi : s.jobs[i]? = some phase)
    (ht : s.advance D phase = (t, phase')) :
    s.handle D (.job i) = { t with jobs := replaceJob s.jobs i phase' } := by
  simp only [handle, hi, ht]

theorem handle_job_none {D : Decoder δ μ} {s : PeerTcp δ μ} {i : Nat} (hi : s.jobs[i]? = none) :
    s.handle D (.job i) = s := by
  simp only [handle, hi]

end PeerTcp

/-! ## §2  One job at a time -/

/-- The job is not past its last `_data`. -/
def JobPhase.active : JobPhase μ → Bool
  | .finish => false
  | _ => true

/-- The job got `already_processing_` and has not cleared it. -/
def JobPhase.owns : JobPhase μ → Bool
  | .start | .next | .process _ | .release => true
  | .recheck | .reacquire | .finish => false

def JobPhase.inHand : JobPhase μ → List μ
  | .process m => [m]
  | _ => []

namespace PeerTcp

structure OneAtATime (s : PeerTcp δ μ) : Prop where
  single : s.jobs.countP JobPhase.active ≤ 1
  /-- What was processed, and the message that is being processed, in the order received. -/
  inOrder : s.processed ++ s.jobs.flatMap JobPhase.inHand = s.taken

/-- `recv()` finds `already_processing_` clear only when every job has come to its end. -/
def Exclusive (s : PeerTcp δ μ) (e : Event) : Prop :=
  e = .testAndSet → s.recv = .cleared → s.alreadyProcessing = false → s.jobs = []

instance [DecidableEq μ] (s : PeerTcp δ μ) (e : Event) : Decidable (s.Exclusive e) :=
  inferInstanceAs (Decidable (_ → _ → _ → _))

def ExclusiveStep (D : Decoder δ μ) (s : PeerTcp δ μ) (e : Event) (t : PeerTcp δ μ) : Prop :=
  s.Exclusive e ∧ Step D s e t

/-- There is one job, and the flag is set while it owns it. -/
structure Sole (s : PeerTcp δ μ) : Prop where
  jobs : s.jobs = [] ∨ ∃ phase, s.jobs = [phase] ∧ (phase.owns = true → s.alreadyProcessing = true)
  creating : s.recv = .creating → s.jobs = [] ∧ s.alreadyProcessing = true
  inOrder : s.processed ++ s.jobs.flatMap JobPhase.inHand = s.taken

theorem sole_start (buffer : δ) : Sole ({ buffer := buffer } : PeerTcp δ μ) where
  jobs := .inl rfl
  creating := by simp
  inOrder := rfl

theorem Sole.oneAtATime {s : PeerTcp δ μ} (h : s.Sole) : s.OneAtATime := by
  refine ⟨?_, h.inOrder⟩
  rcases h.jobs with hjobs | ⟨phase, hjobs, -⟩
  · simp [hjobs]
  · simp only [hjobs, List.countP_cons, List.countP_nil]
    split_ifs <;> simp

/-- One job there is, and `recv()` is not about to make another. -/
theorem sole_single {t : PeerTcp δ μ} {phase : JobPhase μ} (hrecv : t.recv ≠ .creating)
    (howns : phase.owns = true → t.alreadyProcessing = true)
    (hinOrder : t.processed ++ [phase].flatMap JobPhase.inHand = t.taken) :
    Sole { t with jobs := [phase] } := by
  refine ⟨.inr ⟨phase, rfl, howns⟩, ?_, hinOrder⟩
  intro hcreating
  exact absurd hcreating hrecv

/-- What one step of a job makes of the only job there is. -/
theorem Sole.advance {D : Decoder δ μ} {s t : PeerTcp δ μ} {phase : JobPhase μ}
    {phase' : Option (JobPhase μ)} (h : s.Sole) (hjobs : s.jobs = [phase])
    (ht : s.advance D phase = (t, phase')) : Sole { t with jobs := phase'.toList } := by
  have hrecv : s.recv ≠ .creating := by
    intro hcreating
    simp [(h.creating hcreating).1] at hjobs
  have howns : phase.owns = true → s.alreadyProcessing = true := by
    rcases h.jobs with hnone | ⟨phase₁, hone, howns⟩
    · simp [hnone] at hjobs
    · rw [hjobs] at hone
      cases hone
      exact howns
  have hinOrder := h.inOrder
  rw [hjobs] at hinOrder
  cases phase with
  | start =>
      cases ht
      exact sole_single hrecv (fun _ => howns rfl) hinOrder
  | next =>
      simp only [PeerTcp.advance] at ht
      split_ifs at ht with hvalid
      · cases hnext : D.next s.buffer with
        | needMore buffer =>
            rw [hnext] at ht
            cases ht
            exact sole_single hrecv (fun _ => howns rfl) hinOrder
        | message m buffer =>
            rw [hnext] at ht
            cases ht
            refine sole_single hrecv (fun _ => howns rfl) ?_
            simpa [JobPhase.inHand] using hinOrder
        | bad =>
            rw [hnext] at ht
            cases ht
            exact sole_single hrecv (by simp [JobPhase.owns]) hinOrder
      · cases ht
        exact sole_single hrecv (fun _ => howns rfl) hinOrder
  | process m =>
      cases ht
      refine sole_single hrecv (fun _ => howns rfl) ?_
      simpa [JobPhase.inHand] using hinOrder
  | release =>
      cases ht
      exact sole_single hrecv (by simp [JobPhase.owns]) hinOrder
  | recheck =>
      cases ht
      refine sole_single hrecv ?_ ?_
      · split_ifs <;> simp [JobPhase.owns]
      · split_ifs <;> exact hinOrder
  | reacquire =>
      cases ht
      refine sole_single hrecv (fun _ => rfl) ?_
      split_ifs <;> exact hinOrder
  | finish =>
      cases ht
      exact ⟨.inl rfl, fun hcreating => absurd hcreating hrecv, hinOrder⟩

theorem Sole.handle {D : Decoder δ μ} {s : PeerTcp δ μ} {e : Event} (h : s.Sole)
    (hexclusive : s.Exclusive e) : (s.handle D e).Sole := by
  cases e with
  | consume bytes =>
      simp only [PeerTcp.handle]
      split_ifs
      · exact ⟨h.jobs, by simp, h.inOrder⟩
      · exact h
  | clearChecked =>
      simp only [PeerTcp.handle]
      split_ifs
      · exact ⟨h.jobs, by simp, h.inOrder⟩
      · exact h
  | testAndSet =>
      simp only [PeerTcp.handle]
      split_ifs with hrecv hflag
      · exact ⟨h.jobs, by simp, h.inOrder⟩
      · have hjobs := hexclusive rfl hrecv (by simpa using hflag)
        exact ⟨.inl hjobs, fun _ => ⟨hjobs, rfl⟩, h.inOrder⟩
      · exact h
  | createJob =>
      simp only [PeerTcp.handle]
      split_ifs with hrecv
      · obtain ⟨hjobs, hflag⟩ := h.creating hrecv
        refine ⟨.inr ⟨.start, by simp [hjobs], fun _ => hflag⟩, by simp, ?_⟩
        simpa [hjobs, JobPhase.inHand] using h.inOrder
      · exact h
  | job i =>
      cases hi : s.jobs[i]? with
      | none => rwa [handle_job_none hi]
      | some phase =>
          have hjobs : s.jobs = [phase] ∧ i = 0 := by
            rcases h.jobs with hnone | ⟨phase₁, hone, -⟩
            · simp [hnone] at hi
            · cases i with
              | zero =>
                  rw [hone] at hi
                  cases hi
                  exact ⟨hone, rfl⟩
              | succ i => simp [hone] at hi
          obtain ⟨hjobs, rfl⟩ := hjobs
          obtain ⟨t, phase', ht⟩ : ∃ t phase', s.advance D phase = (t, phase') := ⟨_, _, rfl⟩
          rw [handle_job hi ht, hjobs]
          simpa [replaceJob] using h.advance hjobs ht
  | close => exact ⟨h.jobs, h.creating, h.inOrder⟩

/-- `recv()` makes a job beside another that is not over. If that one is at its very end, its
last clear lets the next `recv()` make one more. -/
theorem Sole.overlap {D : Decoder δ μ} {s : PeerTcp δ μ} {e : Event} (h : s.Sole)
    (hvalid : s.isValid = true) (hexclusive : ¬ s.Exclusive e) :
    ∃ es t, Runs (Step D) s ([e] ++ es) t ∧ ¬ t.OneAtATime := by
  simp only [Exclusive, not_forall] at hexclusive
  obtain ⟨rfl, hrecv, hflag, hsome⟩ := hexclusive
  obtain ⟨phase, hjobs⟩ : ∃ phase, s.jobs = [phase] := by
    rcases h.jobs with hnone | ⟨phase, hone, -⟩
    · exact absurd hnone hsome
    · exact ⟨phase, hone⟩
  by_cases hactive : phase.active = true
  · refine ⟨[.createJob], _, runs_foldl D s _, ?_⟩
    intro hone
    have htwo := hone.single
    simp only [List.cons_append, List.nil_append, List.foldl_cons, List.foldl_nil, PeerTcp.handle,
      hrecv, hflag, hjobs, if_true, Bool.false_eq_true, if_false] at htwo
    rw [List.countP_cons_of_pos hactive, List.countP_cons_of_pos rfl] at htwo
    omega
  · have hfinish : phase = .finish := by
      cases phase <;> simp_all [JobPhase.active]
    refine ⟨[.createJob, .job 0, .consume [0], .clearChecked, .testAndSet, .createJob], _,
      runs_foldl D s _, ?_⟩
    intro hone
    have htwo := hone.single
    simp [PeerTcp.handle, hrecv, hflag, hjobs, hfinish, hvalid, PeerTcp.advance, replaceJob] at htwo
    rw [List.countP_cons_of_pos rfl, List.countP_cons_of_pos rfl] at htwo
    omega

/-- **Messages are processed one at a time and in order** as long as no `recv()` makes a job
before the last one has come to its end. Where one does, two jobs can be at work at once. -/
theorem one_job_at_a_time {D : Decoder δ μ} {buffer : δ} {es : List Event} {s : PeerTcp δ μ}
    (run : Runs (ExclusiveStep D) { buffer := buffer } es s) :
    s.OneAtATime ∧ ∀ e, s.isValid = true → ¬ s.Exclusive e →
      ∃ fs t, Runs (Step D) s ([e] ++ fs) t ∧ ¬ t.OneAtATime := by
  have hsole : s.Sole := by
    apply run.invariant (I := Sole)
    · exact sole_start buffer
    · rintro s e _ h ⟨hexclusive, rfl⟩
      exact h.handle hexclusive
  exact ⟨hsole.oneAtATime, fun e hvalid hexclusive => hsole.overlap hvalid hexclusive⟩

/-- Messages of one byte, such as the small integers of msgpack. -/
def byteDecoder : Decoder (List UInt8) UInt8 where
  empty := []
  feed := (· ++ ·)
  next
    | [] => .needMore []
    | b :: bytes => .message b bytes
  next_empty := by simp
  next_needMore := by
    intro d d' h m d''
    cases d with
    | nil =>
        cases h
        simp
    | cons b bytes => cases h

/-- Steps that can be checked to be exclusive. -/
theorem runs_exclusive [DecidableEq μ] {D : Decoder δ μ} {s t : PeerTcp δ μ} {es : List Event}
    (h : es.foldlM (fun s e => if s.Exclusive e then some (s.handle D e) else none) s = some t) :
    Runs (ExclusiveStep D) s es t := by
  refine (Runs.of_foldlM_option h).mono fun s e t hstep => ?_
  split_ifs at hstep with hexclusive
  cases hstep
  exact ⟨hexclusive, rfl⟩

/-- Message 2 comes while the job is at message 1, and the job takes it too. -/
theorem one_job_at_a_time_byte : ∃ s : PeerTcp (List UInt8) UInt8,
    Runs (ExclusiveStep byteDecoder) { buffer := [] }
      [.consume [1], .clearChecked, .testAndSet, .createJob, .job 0, .job 0, .consume [2],
        .clearChecked, .testAndSet, .job 0, .job 0, .job 0] s ∧
      s.jobs = [.process 2] ∧ s.processed = [1] ∧ s.OneAtATime := by
  have run := @runs_exclusive _ _ _ byteDecoder { buffer := [] } _
    [.consume [1], .clearChecked, .testAndSet, .createJob, .job 0, .job 0, .consume [2],
      .clearChecked, .testAndSet, .job 0, .job 0, .job 0] rfl
  exact ⟨_, run, rfl, rfl, (one_job_at_a_time run).1⟩

/-- The first job's last clear hands the flag of the second one to a third: two messages are
processed at once, and the later one is done first. -/
theorem last_clear_overlaps : ∃ s t : PeerTcp (List UInt8) UInt8,
    Runs (Step byteDecoder) { buffer := [] }
      [.consume [1], .clearChecked, .testAndSet, .createJob, .job 0, .job 0, .job 0, .job 0,
        .job 0, .job 0, .job 0, .consume [2], .clearChecked, .testAndSet, .createJob, .job 1,
        .job 1, .job 0, .consume [3], .clearChecked, .testAndSet, .createJob, .job 1, .job 1] s ∧
      s.jobs = [.process 2, .process 3] ∧ ¬ s.OneAtATime ∧
      Step byteDecoder s (.job 1) t ∧ t.taken = [1, 2, 3] ∧ t.processed = [1, 3] := by
  refine ⟨_, _, runs_foldl _ _ _, rfl, ?_, rfl, rfl, rfl⟩
  intro h
  exact absurd h.single (by decide)

end PeerTcp

end BeyondProtocol.Jobs
