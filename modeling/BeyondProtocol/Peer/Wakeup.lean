import BeyondProtocol.Peer.Jobs

/-!
# No message is left behind (`peer_tcp.cpp`)

A message that is complete in the receive buffer has to be found by a job without more
bytes arriving. `recv()` leaves the mark `recv_checked_` clear for the job that owns
`already_processing_`; the job looks at the mark after it has let go of the flag.

With two jobs about, the one that sees the mark need not be the one that owns the flag:
it takes the mark, does not get the flag, and leaves; the owner comes to its own look at
the mark too late. This file says that nothing else goes wrong.
-/

namespace BeyondProtocol.Jobs

open Framework

variable {δ μ : Type}

namespace PeerTcp

/-! ## §1  Who is going to look -/

/-- A complete message is in the buffer of a valid connection. -/
def HasMessage (D : Decoder δ μ) (s : PeerTcp δ μ) : Prop :=
  s.isValid = true ∧ ∃ m buffer, D.next s.buffer = .message m buffer

/-- Nobody is at work, and a message is left. -/
def Stranded (D : Decoder δ μ) (s : PeerTcp δ μ) : Prop :=
  s.recv = .idle ∧ s.jobs = [] ∧ s.HasMessage D

end PeerTcp

/-- The job will take the next message that is there. -/
def JobPhase.looking : JobPhase μ → Bool
  | .start | .next | .process _ => true
  | _ => false

/-- The job will look at the mark. -/
def JobPhase.marking : JobPhase μ → Bool
  | .release | .recheck => true
  | _ => false

namespace PeerTcp

/-- Somebody finds the message: a job before its `next()`, one that tries to go on, `recv()`
before it clears the mark or with a job to make, or whoever comes to see the mark. -/
inductive Watched (s : PeerTcp δ μ) : Prop
  | looking (phase : JobPhase μ) (mem : phase ∈ s.jobs) (looking : phase.looking = true)
  | reacquiring (mem : .reacquire ∈ s.jobs)
  | receiving (recv : s.recv = .consumed ∨ s.recv = .creating)
  | marked (clear : s.recvChecked = false)
      (marking : s.recv = .cleared ∨ ∃ phase ∈ s.jobs, phase.marking = true)

structure Awake (D : Decoder δ μ) (s : PeerTcp δ μ) : Prop where
  watched : s.HasMessage D → s.Watched
  /-- On a valid connection the flag is set by somebody who still has it. -/
  owned : s.isValid = true → s.alreadyProcessing = true →
    s.recv = .creating ∨ ∃ phase ∈ s.jobs, phase.owns = true

/-- The other jobs than job `i`. -/
def others (s : PeerTcp δ μ) (i : Nat) : List (JobPhase μ) :=
  s.jobs.take i ++ s.jobs.drop (i + 1)

/-- A job that does not get the flag back leaves no message to nobody: with one in the buffer
some other job is going to take it or tries to go on, `recv()` has not cleared the mark yet or is
about to make a job, or the mark is clear again. -/
def Handed (D : Decoder δ μ) (s : PeerTcp δ μ) (e : Event) : Prop :=
  ∀ i, e = .job i → s.jobs[i]? = some .reacquire → s.alreadyProcessing = true →
    s.HasMessage D →
      (∃ phase ∈ s.others i, phase.looking = true ∨ phase = .reacquire) ∨
        s.recv = .consumed ∨ s.recv = .creating ∨ s.recvChecked = false

def HandedStep (D : Decoder δ μ) (s : PeerTcp δ μ) (e : Event) (t : PeerTcp δ μ) : Prop :=
  s.Handed D e ∧ Step D s e t

theorem mem_jobs_iff {s : PeerTcp δ μ} {i : Nat} {phase : JobPhase μ}
    (hi : s.jobs[i]? = some phase) {q : JobPhase μ} :
    q ∈ s.jobs ↔ q = phase ∨ q ∈ s.others i := by
  have hsplit : s.jobs = s.jobs.take i ++ phase :: s.jobs.drop (i + 1) := by
    obtain ⟨hlt, hget⟩ := List.getElem?_eq_some_iff.mp hi
    rw [← hget, ← List.drop_eq_getElem_cons hlt, List.take_append_drop]
  conv_lhs => rw [hsplit]
  simp only [others, List.mem_append, List.mem_cons]
  tauto

theorem mem_replaceJob_iff {s : PeerTcp δ μ} {i : Nat} {phase' : Option (JobPhase μ)}
    {q : JobPhase μ} : q ∈ replaceJob s.jobs i phase' ↔ phase' = some q ∨ q ∈ s.others i := by
  simp only [replaceJob, others, List.mem_append, Option.mem_toList]
  tauto

theorem awake_start (D : Decoder δ μ) : Awake D { buffer := D.empty } where
  watched := by
    rintro ⟨-, m, d, hnext⟩
    exact absurd hnext (D.next_empty m d)
  owned := by simp

theorem Awake.not_stranded {D : Decoder δ μ} {s : PeerTcp δ μ} (h : s.Awake D) :
    ¬ s.Stranded D := by
  rintro ⟨hrecv, hjobs, hmessage⟩
  cases h.watched hmessage with
  | looking phase mem => simp [hjobs] at mem
  | reacquiring mem => simp [hjobs] at mem
  | receiving recv => simp [hrecv] at recv
  | marked clear marking => simp [hrecv, hjobs] at marking

/-! ## §2  The steps of `recv()` -/

/-- The flag is somebody's, and the mark is clear for the one who has it. -/
theorem Awake.leaveToOwner {D : Decoder δ μ} {s : PeerTcp δ μ} (h : s.Awake D)
    (hrecv : s.recv = .cleared) (hflag : s.alreadyProcessing = true) :
    Awake D { s with recv := .idle } := by
  by_cases hvalid : s.isValid = true
  · obtain ⟨phase, hmem, howns⟩ : ∃ phase ∈ s.jobs, phase.owns = true := by
      rcases h.owned hvalid hflag with hcreating | howner
      · simp [hrecv] at hcreating
      · exact howner
    refine ⟨?_, fun _ _ => .inr ⟨phase, hmem, howns⟩⟩
    intro hmessage
    cases h.watched hmessage with
    | looking phase mem looking => exact .looking phase mem looking
    | reacquiring mem => exact .reacquiring mem
    | receiving recv => simp [hrecv] at recv
    | marked clear marking =>
        cases phase with
        | release => exact .marked clear (.inr ⟨_, hmem, rfl⟩)
        | start => exact .looking _ hmem rfl
        | next => exact .looking _ hmem rfl
        | process m => exact .looking _ hmem rfl
        | recheck => cases howns
        | reacquire => cases howns
        | finish => cases howns
  · constructor
    · intro hmessage
      exact absurd hmessage.1 hvalid
    · intro hvalid'
      exact absurd hvalid' hvalid

theorem Awake.recv {D : Decoder δ μ} {s : PeerTcp δ μ} (h : s.Awake D) {e : Event}
    (he : ∀ i, e ≠ .job i) : (s.handle D e).Awake D := by
  cases e with
  | job i => exact absurd rfl (he i)
  | consume bytes =>
      simp only [handle]
      split_ifs with hcond
      · refine ⟨fun _ => .receiving (.inl rfl), ?_⟩
        intro hvalid hflag
        rcases h.owned hvalid hflag with hrecv | howner
        · simp [hcond.1] at hrecv
        · exact .inr howner
      · exact h
  | clearChecked =>
      simp only [handle]
      split_ifs with hcond
      · refine ⟨fun _ => .marked rfl (.inl rfl), ?_⟩
        intro hvalid hflag
        rcases h.owned hvalid hflag with hrecv | howner
        · simp [hcond] at hrecv
        · exact .inr howner
      · exact h
  | testAndSet =>
      simp only [handle]
      split_ifs with hcond hflag
      · exact h.leaveToOwner hcond hflag
      · exact ⟨fun _ => .receiving (.inr rfl), fun _ _ => .inl rfl⟩
      · exact h
  | createJob =>
      simp only [handle]
      split_ifs with hcond
      · have hmem : JobPhase.start ∈ s.jobs ++ [.start] := by simp
        exact ⟨fun _ => .looking _ hmem rfl, fun _ _ => .inr ⟨_, hmem, rfl⟩⟩
      · exact h
  | close =>
      refine ⟨fun hmessage => ?_, fun hvalid => ?_⟩
      · simp [HasMessage, handle] at hmessage
      · simp [handle] at hvalid

/-! ## §3  The steps of a job -/

section

variable {s r : PeerTcp δ μ} {i : Nat} {phase : JobPhase μ} {phase' : Option (JobPhase μ)}

/-- Who does not watch for the message may leave. -/
theorem Watched.leave (h : s.Watched) (hi : s.jobs[i]? = some phase)
    (hjobs : r.jobs = replaceJob s.jobs i phase') (hrecv : r.recv = s.recv)
    (hlooking : phase.looking = false) (hreacquire : phase ≠ .reacquire)
    (hmark : s.recvChecked = false → r.recvChecked = false ∧
      (phase.marking = true → ∃ q, phase' = some q ∧ q.marking = true)) : r.Watched := by
  have hkeep : ∀ q ∈ s.jobs, q ≠ phase → q ∈ r.jobs := by
    intro q hq hne
    rw [hjobs, mem_replaceJob_iff]
    exact .inr (((mem_jobs_iff hi).mp hq).resolve_left hne)
  cases h with
  | looking q mem looking =>
      refine .looking q (hkeep q mem ?_) looking
      rintro rfl
      simp [hlooking] at looking
  | reacquiring mem => exact .reacquiring (hkeep _ mem hreacquire.symm)
  | receiving recv => exact .receiving (hrecv ▸ recv)
  | marked clear marking =>
      obtain ⟨hclear, hnew⟩ := hmark clear
      refine .marked hclear ?_
      rcases marking with hcleared | ⟨q, mem, marking⟩
      · exact .inl (hrecv.trans hcleared)
      · right
        by_cases hq : q = phase
        · subst hq
          obtain ⟨q', hq', hmarking⟩ := hnew marking
          exact ⟨q', by rw [hjobs, mem_replaceJob_iff]; exact .inl hq', hmarking⟩
        · exact ⟨q, hkeep q mem hq, marking⟩

/-- Who does not own the flag may leave. -/
theorem Awake.owned_leave {D : Decoder δ μ} (h : s.Awake D) (hi : s.jobs[i]? = some phase)
    (hjobs : r.jobs = replaceJob s.jobs i phase') (hrecv : r.recv = s.recv)
    (hnot : phase.owns = false) (hvalid : s.isValid = true)
    (hflag : s.alreadyProcessing = true) :
    r.recv = .creating ∨ ∃ q ∈ r.jobs, q.owns = true := by
  rcases h.owned hvalid hflag with hcreating | ⟨q, mem, owns⟩
  · exact .inl (hrecv.trans hcreating)
  · right
    refine ⟨q, ?_, owns⟩
    rw [hjobs, mem_replaceJob_iff]
    right
    refine ((mem_jobs_iff hi).mp mem).resolve_left ?_
    rintro rfl
    simp [hnot] at owns

/-- A job that looks and has the flag is all that is needed. -/
theorem awake_of_looking {D : Decoder δ μ} {q : JobPhase μ}
    (hjobs : r.jobs = replaceJob s.jobs i (some q)) (hlooking : q.looking = true)
    (howns : q.owns = true) : r.Awake D := by
  have hmem : q ∈ r.jobs := by
    rw [hjobs, mem_replaceJob_iff]
    exact .inl rfl
  exact ⟨fun _ => .looking q hmem hlooking, fun _ _ => .inr ⟨q, hmem, howns⟩⟩

end

theorem Awake.next {D : Decoder δ μ} {s t : PeerTcp δ μ} {i : Nat}
    {phase' : Option (JobPhase μ)} (ht : s.advance D .next = (t, phase')) :
    Awake D { t with jobs := replaceJob s.jobs i phase' } := by
  simp only [advance] at ht
  split_ifs at ht with hvalid
  · cases hnext : D.next s.buffer with
    | needMore buffer =>
        rw [hnext] at ht
        cases ht
        constructor
        · rintro ⟨-, m, d, hmessage⟩
          exact absurd hmessage (D.next_needMore _ _ hnext m d)
        · intro _ _
          exact .inr ⟨.release, mem_replaceJob_iff.mpr (.inl rfl), rfl⟩
    | message m buffer =>
        rw [hnext] at ht
        cases ht
        exact awake_of_looking rfl rfl rfl
    | bad =>
        rw [hnext] at ht
        cases ht
        constructor
        · rintro ⟨hvalid, -⟩
          cases hvalid
        · intro hvalid
          cases hvalid
  · cases ht
    constructor
    · rintro ⟨hvalid', -⟩
      exact absurd hvalid' hvalid
    · intro hvalid'
      exact absurd hvalid' hvalid

theorem Awake.reacquire {D : Decoder δ μ} {s t : PeerTcp δ μ} {i : Nat}
    {phase' : Option (JobPhase μ)} (h : s.Awake D) (hi : s.jobs[i]? = some .reacquire)
    (hhanded : s.Handed D (.job i)) (ht : s.advance D .reacquire = (t, phase')) :
    Awake D { t with jobs := replaceJob s.jobs i phase' } := by
  cases hflag : s.alreadyProcessing with
  | false =>
      simp only [advance, hflag] at ht
      cases ht
      exact awake_of_looking rfl rfl rfl
  | true =>
      simp only [advance, hflag] at ht
      cases ht
      refine ⟨?_, fun hvalid _ => h.owned_leave hi rfl rfl rfl hvalid hflag⟩
      intro hmessage
      have hkeep : ∀ q ∈ s.others i, q ∈ replaceJob s.jobs i (some .finish) := by
        intro q hq
        exact mem_replaceJob_iff.mpr (.inr hq)
      rcases hhanded i rfl hi hflag hmessage with ⟨q, hq, hlooking | rfl⟩ | hrecv | hrecv | hclear
      · exact .looking q (hkeep q hq) hlooking
      · exact .reacquiring (hkeep _ hq)
      · exact .receiving (.inl hrecv)
      · exact .receiving (.inr hrecv)
      · -- the mark is clear, and the owner of the flag has yet to look at it
        rcases h.owned hmessage.1 hflag with hrecv | ⟨q, mem, owns⟩
        · exact .receiving (.inr hrecv)
        · have hq : q ∈ s.others i := by
            refine ((mem_jobs_iff hi).mp mem).resolve_left ?_
            rintro rfl
            cases owns
          cases q with
          | start => exact .looking _ (hkeep _ hq) rfl
          | next => exact .looking _ (hkeep _ hq) rfl
          | process m => exact .looking _ (hkeep _ hq) rfl
          | release => exact .marked hclear (.inr ⟨_, hkeep _ hq, rfl⟩)
          | recheck => cases owns
          | reacquire => cases owns
          | finish => cases owns

theorem Awake.job {D : Decoder δ μ} {s t : PeerTcp δ μ} {i : Nat} {phase : JobPhase μ}
    {phase' : Option (JobPhase μ)} (h : s.Awake D) (hi : s.jobs[i]? = some phase)
    (hhanded : s.Handed D (.job i)) (ht : s.advance D phase = (t, phase')) :
    Awake D { t with jobs := replaceJob s.jobs i phase' } := by
  cases phase with
  | start =>
      cases ht
      exact awake_of_looking rfl rfl rfl
  | next => exact Awake.next ht
  | process m =>
      cases ht
      exact awake_of_looking rfl rfl rfl
  | release =>
      cases ht
      refine ⟨fun hmessage => ?_, fun _ hflag => by cases hflag⟩
      exact (h.watched hmessage).leave hi rfl rfl rfl (by simp)
        (fun hclear => ⟨hclear, fun _ => ⟨_, rfl, rfl⟩⟩)
  | recheck =>
      cases hmark : s.recvChecked with
      | false =>
          simp only [advance, hmark] at ht
          cases ht
          refine ⟨fun _ => ?_, fun hvalid hflag => h.owned_leave hi rfl rfl rfl hvalid hflag⟩
          exact .reacquiring (mem_replaceJob_iff.mpr (.inl rfl))
      | true =>
          simp only [advance, hmark] at ht
          cases ht
          refine ⟨fun hmessage => ?_, fun hvalid hflag => h.owned_leave hi rfl rfl rfl hvalid hflag⟩
          exact (h.watched hmessage).leave hi rfl rfl rfl (by simp)
            (fun hclear => by simp [hmark] at hclear)
  | reacquire => exact h.reacquire hi hhanded ht
  | finish =>
      cases ht
      refine ⟨fun hmessage => ?_, fun _ hflag => by cases hflag⟩
      exact (h.watched hmessage).leave hi rfl rfl rfl (by simp)
        (fun hclear => ⟨hclear, fun hmarking => by cases hmarking⟩)

theorem Awake.handle {D : Decoder δ μ} {s : PeerTcp δ μ} {e : Event} (h : s.Awake D)
    (hhanded : s.Handed D e) : (s.handle D e).Awake D := by
  cases e with
  | job i =>
      cases hi : s.jobs[i]? with
      | none => rwa [handle_job_none hi]
      | some phase =>
          rw [handle_job hi rfl]
          exact h.job hi hhanded rfl
  | consume bytes => exact h.recv (by simp)
  | clearChecked => exact h.recv (by simp)
  | testAndSet => exact h.recv (by simp)
  | createJob => exact h.recv (by simp)
  | close => exact h.recv (by simp)

/-! ## §4  Where nobody looks any more -/

/-- The job goes away if it finds the mark set. -/
def retiring : JobPhase μ → Bool
  | .release | .recheck | .finish => true
  | _ => false

theorem retire_head (D : Decoder δ μ) {s : PeerTcp δ μ} {phase : JobPhase μ}
    {rest : List (JobPhase μ)} (hjobs : s.jobs = phase :: rest) (hretiring : retiring phase = true)
    (hmark : s.recvChecked = true) :
    ∃ es, Runs (Step D) s es { s with alreadyProcessing := false, jobs := rest } := by
  obtain ⟨flag, mark, valid, buffer, recv, jobs, taken, processed⟩ := s
  simp only at hjobs hmark
  subst hjobs hmark
  cases phase with
  | finish => exact ⟨[.job 0], runs_foldl D _ _⟩
  | recheck => exact ⟨[.job 0, .job 0], runs_foldl D _ _⟩
  | release => exact ⟨[.job 0, .job 0, .job 0], runs_foldl D _ _⟩
  | start => cases hretiring
  | next => cases hretiring
  | process m => cases hretiring
  | reacquire => cases hretiring

theorem retire_all (D : Decoder δ μ) {s : PeerTcp δ μ}
    (hretiring : ∀ phase ∈ s.jobs, retiring phase = true) (hmark : s.recvChecked = true) :
    ∃ es t, Runs (Step D) s es t ∧ t.jobs = [] ∧ t.recv = s.recv ∧ t.buffer = s.buffer ∧
      t.isValid = s.isValid := by
  obtain ⟨n, hn⟩ : ∃ n, s.jobs.length = n := ⟨_, rfl⟩
  induction n generalizing s with
  | zero => exact ⟨[], s, .init, List.length_eq_zero_iff.mp hn, rfl, rfl, rfl⟩
  | succ n ih =>
      obtain ⟨phase, rest, hjobs⟩ := List.exists_cons_of_length_eq_add_one hn
      obtain ⟨es, run⟩ := retire_head D hjobs (hretiring phase (by simp [hjobs])) hmark
      have hrest : ∀ q ∈ rest, retiring q = true := by
        intro q hq
        exact hretiring q (by simp [hjobs, hq])
      obtain ⟨fs, t, run', ht⟩ := ih
        (s := { s with alreadyProcessing := false, jobs := rest }) hrest hmark
        (by simpa [hjobs] using hn)
      exact ⟨es ++ fs, t, run.trans run', ht⟩

/-- Once a job has left a message to nobody, the others go too. -/
theorem strands_of_not_handed {D : Decoder δ μ} {s : PeerTcp δ μ} {e : Event}
    (hhanded : ¬ s.Handed D e) :
    ∃ es t, Runs (Step D) s ([e] ++ es) t ∧ t.Stranded D := by
  simp only [Handed, not_forall] at hhanded
  obtain ⟨i, rfl, hi, hflag, hmessage, hnobody⟩ := hhanded
  simp only [not_or, not_exists, not_and, Bool.not_eq_false] at hnobody
  obtain ⟨hothers, hconsumed, hcreating, hmark⟩ := hnobody
  have hretiring : ∀ phase ∈ replaceJob s.jobs i (some .finish), retiring phase = true := by
    intro phase hmem
    rcases mem_replaceJob_iff.mp hmem with hfinish | hother
    · cases hfinish
      rfl
    · obtain ⟨hlooking, hreacquire⟩ := hothers phase hother
      cases phase <;> simp_all [JobPhase.looking, retiring]
  have hleave : s.handle D (.job i) = { s with
      alreadyProcessing := true, jobs := replaceJob s.jobs i (some .finish) } := by
    rw [handle_job hi rfl]
    simp [hflag]
  have hstep : Step D s (.job i) { s with
      alreadyProcessing := true, jobs := replaceJob s.jobs i (some .finish) } := hleave.symm
  cases hrecv : s.recv with
  | consumed => exact absurd hrecv hconsumed
  | creating => exact absurd hrecv hcreating
  | idle =>
      obtain ⟨es, t, run, hjobs, hrecv', hbuffer, hvalid⟩ := retire_all D (s := { s with
        alreadyProcessing := true, jobs := replaceJob s.jobs i (some .finish) }) hretiring hmark
      refine ⟨es, t, (Runs.init.snoc hstep).trans run, hrecv'.trans hrecv, hjobs, ?_⟩
      unfold HasMessage at hmessage ⊢
      rwa [hbuffer, hvalid]
  | cleared =>
      -- `recv()` does not get the flag either
      have hfail : Step D { s with
          alreadyProcessing := true, jobs := replaceJob s.jobs i (some .finish) } .testAndSet
          { s with
            alreadyProcessing := true, jobs := replaceJob s.jobs i (some .finish)
            recv := .idle } := by
        simp [Step, PeerTcp.handle, hrecv]
      obtain ⟨es, t, run, hjobs, hrecv', hbuffer, hvalid⟩ := retire_all D (s := { s with
        alreadyProcessing := true, jobs := replaceJob s.jobs i (some .finish)
        recv := .idle }) hretiring hmark
      have hrun := ((Runs.init.snoc hstep).snoc hfail).trans run
      refine ⟨[.testAndSet] ++ es, t, by simpa using hrun, hrecv', hjobs, ?_⟩
      unfold HasMessage at hmessage ⊢
      rwa [hbuffer, hvalid]

/-! ## §5  Over whole runs -/

/-- A job that is the only one gets the flag back. -/
theorem Awake.handed {D : Decoder δ μ} {s : PeerTcp δ μ} (h : s.Awake D) (hsole : s.Sole)
    (e : Event) : s.Handed D e := by
  rintro i - hi hflag hmessage
  have hjobs : s.jobs = [.reacquire] := by
    rcases hsole.jobs with hnone | ⟨phase, hone, -⟩
    · simp [hnone] at hi
    · rw [hone, List.getElem?_singleton] at hi
      split_ifs at hi
      cases hi
      exact hone
  exfalso
  rcases h.owned hmessage.1 hflag with hcreating | ⟨phase, mem, howns⟩
  · rw [(hsole.creating hcreating).1] at hjobs
    cases hjobs
  · rw [hjobs, List.mem_singleton] at mem
    subst mem
    cases howns

/-- Where the jobs do not overlap none leaves a message to nobody. -/
theorem runs_handed {D : Decoder δ μ} {es : List Event} {s : PeerTcp δ μ}
    (run : Runs (ExclusiveStep D) { buffer := D.empty } es s) :
    Runs (HandedStep D) { buffer := D.empty } es s ∧ s.Sole ∧ s.Awake D := by
  induction run with
  | init => exact ⟨.init, sole_start _, awake_start D⟩
  | @snoc es s t e _ hstep ih =>
      obtain ⟨hexclusive, hhandle⟩ := hstep
      obtain ⟨run, hsole, hawake⟩ := ih
      have hhanded := hawake.handed hsole e
      refine ⟨run.snoc ⟨hhanded, hhandle⟩, ?_⟩
      rw [hhandle]
      exact ⟨hsole.handle hexclusive, hawake.handle hhanded⟩

/-- **No message is left behind** as long as no job that fails to get the flag back leaves one
to nobody. Where one does, the run can end with the message in the buffer. -/
theorem no_message_stranded {D : Decoder δ μ} {es : List Event} {s : PeerTcp δ μ}
    (run : Runs (HandedStep D) { buffer := D.empty } es s) :
    ¬ s.Stranded D ∧ ∀ e, ¬ s.Handed D e →
      ∃ fs t, Runs (Step D) s ([e] ++ fs) t ∧ t.Stranded D := by
  have hawake : s.Awake D := by
    apply run.invariant (I := Awake D)
    · exact awake_start D
    · rintro s e _ h ⟨hhanded, rfl⟩
      exact h.handle hhanded
  exact ⟨hawake.not_stranded, fun e hhanded => strands_of_not_handed hhanded⟩

/-- Message 2 comes when the job has let go of the flag: it finds the mark clear, gets the flag
back before `recv()` does, and is over when both messages are processed. -/
theorem no_message_stranded_byte : ∃ s : PeerTcp (List UInt8) UInt8,
    Runs (HandedStep byteDecoder) { buffer := byteDecoder.empty }
      [.consume [1], .clearChecked, .testAndSet, .createJob, .job 0, .job 0, .job 0, .job 0,
        .job 0, .job 0, .consume [2], .clearChecked, .job 0, .job 0, .testAndSet, .job 0, .job 0,
        .job 0, .job 0, .job 0, .job 0, .job 0, .job 0] s ∧
      s.jobs = [] ∧ s.processed = [1, 2] ∧ ¬ s.Stranded byteDecoder := by
  have hexclusive := @runs_exclusive _ _ _ byteDecoder { buffer := byteDecoder.empty } _
    [.consume [1], .clearChecked, .testAndSet, .createJob, .job 0, .job 0, .job 0, .job 0,
      .job 0, .job 0, .consume [2], .clearChecked, .job 0, .job 0, .testAndSet, .job 0, .job 0,
      .job 0, .job 0, .job 0, .job 0, .job 0, .job 0] rfl
  obtain ⟨run, -, -⟩ := runs_handed hexclusive
  exact ⟨_, run, rfl, rfl, (no_message_stranded run).1⟩

/-- The first job takes the mark that was meant for the second: message 3 stays in the
buffer. -/
theorem mark_taken_by_other_job : ∃ s : PeerTcp (List UInt8) UInt8,
    Runs (Step byteDecoder) { buffer := byteDecoder.empty }
      [.consume [1], .clearChecked, .testAndSet, .createJob, .job 0, .job 0, .job 0, .job 0,
        .job 0, .job 0, .consume [2], .clearChecked, .testAndSet, .createJob, .job 1, .job 1,
        .job 1, .job 1, .job 1, .consume [3], .clearChecked, .testAndSet, .job 0, .job 0, .job 0,
        .job 0, .job 0, .job 0] s ∧
      s.processed = [1, 2] ∧ s.buffer = [3] ∧ s.Stranded byteDecoder := by
  refine ⟨_, runs_foldl _ _ _, rfl, rfl, rfl, rfl, rfl, 3, [], rfl⟩

end PeerTcp

end BeyondProtocol.Jobs
