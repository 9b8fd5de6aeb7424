import BeyondProtocol.Net.Flow

/-!
# Pausing a receiving stream

A paused client counts no EndFrames and renews no requests, while the host goes on
to spend its credit. Every EndFrame that arrives then takes one out of flight
without a step of the countdown. This file follows the session of `Flow` with
`setProperty(kPaused, ...)` among the calls and counts what the pauses swallow. Between
two requests that reach the host a frame can miss fewer than half of the EndFrames it asks
for.
-/

namespace BeyondProtocol.Net

open Framework

/-! ## §1  The session with pauses -/

inductive PauseEvent : Type where
  | flow (e : FlowEvent)
  | setPaused (value : Bool)

inductive PauseStep (peerid : Int) (hostId : UUID) : Session → PauseEvent → Session → Prop where
  | flow {s s' : Session} {e : FlowEvent} (h : FlowStep peerid hostId s e s') :
      PauseStep peerid hostId s (.flow e) s'
  | setPaused {s : Session} {value : Bool} :
      PauseStep peerid hostId s (.setPaused value)
        { s with client := s.client.setPaused value }

/-- Every selected frame has a request on its way, or outlasts the countdown. -/
def Sustained (peerid : Int) (n : Nat) (s : Session) : Prop :=
  ∀ f (hf : f.frameset < 5), f.source ≠ kAll → isSelected s.client f → Covered peerid n s f hf

/-- How many EndFrames of each frame were delivered to a paused client since the host last got a
request for the frame. -/
def missedAfter (s : Session) (missed : FrameID → Nat) : PauseEvent → FrameID → Nat
  | .flow .deliverToHost =>
      match s.toHost with
      | [] => missed
      | x :: _ => Function.update missed x.1.frame 0
  | .flow .deliverToClient =>
      match s.toClient with
      | [] => missed
      | x :: _ =>
          if s.client.paused && x.1.isEndFrame then
            Function.update missed x.1.frame (missed x.1.frame + 1)
          else missed
  | _ => missed

/-- An EndFrame that a pause swallows is one of fewer than half the request size, unless a
request for its frame is on the way. -/
def WithinBudget (n : Nat) (s : Session) (missed : FrameID → Nat) : PauseEvent → Prop
  | .flow .deliverToClient =>
      s.client.paused = true → ∀ x ∈ s.toClient.head?, x.1.isEndFrame = true →
        x.1.frame.frameset < 5 → x.1.frame.source ≠ kAll → isSelected s.client x.1.frame →
          (∃ y ∈ s.toHost, y.1.frame = x.1.frame) ∨ missed x.1.frame + 1 < n / 2
  | _ => True

/-- A step of the session, with the count. -/
def BudgetStep (peerid : Int) (hostId : UUID) (n : Nat) (s : Session × (FrameID → Nat))
    (e : PauseEvent) (s' : Session × (FrameID → Nat)) : Prop :=
  PauseStep peerid hostId s.1 e s'.1 ∧ s'.2 = missedAfter s.1 s.2 e ∧ WithinBudget n s.1 s.2 e

theorem BudgetStep.count {peerid : Int} {hostId : UUID} {n : Nat} {s s' : Session}
    {missed : FrameID → Nat} {e : PauseEvent} (h : PauseStep peerid hostId s e s')
    (hbudget : WithinBudget n s missed e) :
    BudgetStep peerid hostId n (s, missed) e (s', missedAfter s missed e) :=
  ⟨h, rfl, hbudget⟩

/-! ## §2  The session as if it were not paused -/

/-- The session with the flag of the client cleared. -/
def resumed (s : Session) : Session := { s with client := s.client.setPaused false }

theorem findPeer_setPaused (net : Net) (b : Bool) (found : Option UUID) (id : FrameID) :
    (net.setPaused b).findPeer found id =
      ((net.findPeer found id).1.setPaused b, (net.findPeer found id).2) := by
  unfold findPeer
  show (if net.host = true then _ else if net.peer.isSome = true then _
    else if net.stream.enabled id = true then _ else _) = _
  split_ifs
  · rfl
  · rfl
  · rfl
  · cases found <;> rfl

theorem enableWith_setPaused {net net' : Net} (b : Bool) {now : Int} {found : Option UUID}
    {id : FrameID} {u : Stream → Stream} {cs : List Channel} {effects : List Effect} {ok : Bool}
    (h : net.enableWith now found id u cs = .ok (net', effects, ok)) :
    (net.setPaused b).enableWith now found id u cs = .ok (net'.setPaused b, effects, ok) := by
  unfold enableWith at h ⊢
  rw [findPeer_setPaused]
  show (if net.host = true then _ else _) = _
  split_ifs at h ⊢
  · cases h
    rfl
  · generalize net.findPeer found id = r at h ⊢
    obtain ⟨net₁, es, r⟩ := r
    cases r with
    | false =>
        cases h
        rfl
    | true =>
        obtain ⟨requests, hmap, hret⟩ := bind_eq_ok.mp h
        cases hret
        exact bind_eq_ok.mpr ⟨requests, hmap, rfl⟩

theorem run_setPaused {net net' : Net} (b : Bool) {now : Int} {found : Option UUID}
    {call : ClientCall} {effects : List Effect} (h : call.run net now found = .ok (net', effects)) :
    call.run (net.setPaused b) now found = .ok (net'.setPaused b, effects) := by
  have henable {id : FrameID} {u : Stream → Stream} {cs : List Channel}
      (h : (net.enableWith now found id u cs >>= fun r => .ok (r.1, r.2.1)) =
        .ok (net', effects)) :
      ((net.setPaused b).enableWith now found id u cs >>= fun r => .ok (r.1, r.2.1)) =
        .ok (net'.setPaused b, effects) := by
    obtain ⟨⟨net₁, es, ok⟩, hcall, hret⟩ := bind_eq_ok.mp h
    cases hret
    rw [enableWith_setPaused b hcall]
    rfl
  cases call with
  | enable id => exact henable h
  | enableChannel id c => exact henable h
  | enableChannels id cs => exact henable h
  | disable id =>
      cases h
      rfl
  | disableChannel id c =>
      cases h
      rfl
  | disableChannels id cs =>
      cases h
      rfl
  | refresh =>
      obtain ⟨es, hsend, hret⟩ := bind_eq_ok.mp h
      cases hret
      refine bind_eq_ok.mpr ⟨effects, ?_, rfl⟩
      exact hsend

theorem noteSeen_setPaused {net net' : Net} (b : Bool) {spkt : StreamPacket} {pkt : DataPacket}
    {effects : List Effect} (h : net.noteSeen spkt pkt = .ok (net', effects)) :
    (net.setPaused b).noteSeen spkt pkt = .ok (net'.setPaused b, effects) := by
  unfold noteSeen at h ⊢
  show (if (net.host && isRequest spkt pkt) = true then _ else _) = _
  split_ifs at h ⊢
  · cases h
    rfl
  · obtain ⟨⟨stream, fired⟩, hseen, hret⟩ := bind_eq_ok.mp h
    cases hret
    exact bind_eq_ok.mpr ⟨(stream, fired), hseen, rfl⟩

theorem bufferOrProcess_setPaused {net net' : Net} (b : Bool) (hrecv : net.host = false)
    {fuel : Nat} {p now ttimeoff buffering : Int} {spkt : StreamPacket} {pkt : DataPacket}
    {effects : List Effect}
    (h : bufferOrProcess fuel net p now ttimeoff buffering spkt pkt = .ok (net', effects)) :
    bufferOrProcess fuel (net.setPaused b) p now ttimeoff buffering spkt pkt =
      .ok (net'.setPaused b, effects) := by
  unfold bufferOrProcess at h ⊢
  show (if net.bypassesQueue spkt = true then _ else _) = _
  split_ifs at h ⊢
  · rw [processPacket_client hrecv] at h
    rw [@processPacket_client (net.setPaused b) hrecv]
    cases h
    rfl
  · cases h
    rfl

theorem resumed_eq {s : Session} (h : s.client.paused = false) : resumed s = s := by
  have hclient : s.client.setPaused false = s.client := by
    unfold setPaused
    rw [← h]
  rw [resumed, hclient]

/-- A step that does not hand a packet to the client is one of the resumed session. -/
theorem FlowStep.resumed {peerid : Int} {hostId : UUID} {s s' : Session} {e : FlowEvent}
    (h : FlowStep peerid hostId s e s') (hne : e ≠ .deliverToClient) :
    FlowStep peerid hostId (Net.resumed s) e (Net.resumed s') := by
  cases h with
  | post hpost => exact .post (s := Net.resumed s) hpost
  | call hlegal hcall => exact .call (s := Net.resumed s) hlegal (run_setPaused false hcall)
  | deliverToHost hnext hrecv => exact .deliverToHost (s := Net.resumed s) hnext hrecv
  | deliverToClient _ _ => exact absurd rfl hne

/-! ## §3  A packet reaches a paused client -/

/-- A packet that reaches a paused client changes neither the countdown nor what is
selected, and is answered by nothing. -/
theorem receive_paused {n : Nat} {hostId : UUID} {net net' : Net} (hpaused : net.paused = true)
    (h : ClientSide n hostId (net.setPaused false)) {fuel : Nat}
    {p now ttimeoff buffering : Int} {x : Packet} {effects : List Effect}
    (hrecv : receive fuel net p now ttimeoff buffering x.1.onWire x.2 = .ok (net', effects)) :
    ClientSide n hostId (net'.setPaused false) ∧ net'.tally = net.tally ∧
      (∀ f, isSelected net' f ↔ isSelected net f) ∧
      transmissions (.host hostId) effects = [] := by
  have hhost : net.host = false := h.requesting.receiving
  rw [receive, if_neg (by simp [hhost])] at hrecv
  simp only [receiveClient, bind_eq_ok] at hrecv
  obtain ⟨⟨net₁, early⟩, hearly, ⟨net₂, late⟩, hlate, hret⟩ := hrecv
  cases hret
  unfold earlyProcessPacket at hearly
  split at hearly
  · cases hearly
  · have hactive : net.active = true := h.requesting.active
    rw [if_neg (by simp [hactive])] at hearly
    simp only [bind_eq_ok] at hearly
    obtain ⟨⟨net₃, seen⟩, hseen, ⟨net₄, requests⟩, hmanage, hret⟩ := hearly
    cases hret
    obtain ⟨hside₃, htally₃, hsel₃, htx₃⟩ := noteSeen_spec h (noteSeen_setPaused false hseen)
    -- still paused, so the countdown is left out
    obtain ⟨stream, rfl⟩ := noteSeen_changes hseen
    unfold manageRequests at hmanage
    rw [if_pos hpaused] at hmanage
    cases hmanage
    obtain ⟨hside, htally, hstream, htx⟩ := bufferOrProcess_spec hside₃
      (@bufferOrProcess_setPaused { net with stream := stream } _ false hhost _ _ _ _ _ _ _ _
        hlate)
    refine ⟨hside, ?_, ?_, ?_⟩
    · exact htally.trans htally₃
    · intro f
      refine Iff.trans ?_ (hsel₃ f)
      have hsame : net₂.stream = stream := hstream
      rw [isSelected, hsame]
      rfl
    · rw [transmissions_append, transmissions_append, htx₃, htx]
      rfl

theorem endFramesOf_cons (f : FrameID) (x : Packet) (xs : List Packet) :
    endFramesOf f (x :: xs) =
      endFramesOf f xs + if x.1.isEndFrame && x.1.frame = f then 1 else 0 :=
  List.countP_cons

/-- What a frame may fall short by. -/
def budget (n : Nat) (missed : FrameID → Nat) (f : FrameID) : Option Nat :=
  if missed f < n / 2 then some (missed f) else none

theorem mem_budget {n k : Nat} {missed : FrameID → Nat} {f : FrameID} :
    k ∈ budget n missed f ↔ missed f < n / 2 ∧ missed f = k := by
  unfold budget
  split_ifs with h <;> simp [h]

theorem Flowing.sustained {peerid : Int} {hostId : UUID} {n : Nat} {missed : FrameID → Nat}
    {s : Session} (h : Flowing peerid hostId n (budget n missed) (resumed s)) :
    Sustained peerid n s := by
  intro f hf hsrc hsel
  refine KeepsUp.covered (h.keepsUp f hf hsrc hsel) fun k hk => ?_
  obtain ⟨hlt, rfl⟩ := mem_budget.mp hk
  exact hlt

/-- **A packet reaches a paused client.** An EndFrame is one more that its frame has missed. -/
theorem deliver_paused {peerid : Int} {hostId : UUID} {n : Nat} {missed : FrameID → Nat}
    {s : Session} (h : Flowing peerid hostId n (budget n missed) (resumed s))
    (hpaused : s.client.paused = true) (hbudget : WithinBudget n s missed (.flow .deliverToClient))
    {client : Net} {x : Packet} {rest : List Packet} {fuel : Nat} {p now ttimeoff buffering : Int}
    {effects : List Effect} (hnext : s.toClient = x :: rest)
    (hrecv : receive fuel s.client p now ttimeoff buffering x.1.onWire x.2 =
      .ok (client, effects)) :
    Flowing peerid hostId n (budget n (missedAfter s missed (.flow .deliverToClient)))
      (resumed { s with
        client := client
        toClient := rest
        toHost := s.toHost ++ transmissions (.host hostId) effects }) := by
  obtain ⟨hside, htally, hsel, htx⟩ := receive_paused hpaused h.client hrecv
  rw [htx, List.append_nil]
  refine ⟨h.host, hside, h.requests, fun f hf hsrc hf' => ?_⟩
  have hold : isSelected s.client f := (hsel f).mp hf'
  have hmissed : missedAfter s missed (.flow .deliverToClient) = if x.1.isEndFrame then
      Function.update missed x.1.frame (missed x.1.frame + 1) else missed := by
    simp only [missedAfter, hnext, hpaused, Bool.true_and]
  rw [hmissed]
  rcases h.keepsUp f hf hsrc hold with hrequest | ⟨k, hk, hkeeps⟩
  · exact .inl hrequest
  · have hkeeps : s.client.tally ⟨f.frameset, hf⟩ ≤
        credit s.host f peerid + endFramesOf f s.toClient + (k : Nat) := hkeeps
    obtain ⟨hlt, rfl⟩ := mem_budget.mp hk
    rw [hnext, endFramesOf_cons] at hkeeps
    show (∃ y ∈ s.toHost, y.1.frame = f) ∨ ∃ k ∈ _, client.tally ⟨f.frameset, hf⟩ ≤
      credit s.host f peerid + endFramesOf f rest + (k : Nat)
    rw [htally]
    by_cases hx : x.1.isEndFrame = true ∧ x.1.frame = f
    · obtain ⟨hend, rfl⟩ := hx
      refine (hbudget hpaused x (by rw [hnext]; rfl) hend hf hsrc hold).imp_right fun hmore => ?_
      refine ⟨missed x.1.frame + 1, mem_budget.mpr ?_, ?_⟩
      · rw [if_pos hend, Function.update_self]
        exact ⟨hmore, rfl⟩
      · simp only [hend, Bool.true_and, decide_true, if_true] at hkeeps
        push_cast at hkeeps ⊢
        omega
    · refine .inr ⟨missed f, mem_budget.mpr ?_, ?_⟩
      · split_ifs with hend
        · rw [Function.update_of_ne fun heq => hx ⟨hend, heq.symm⟩]
          exact ⟨hlt, rfl⟩
        · exact ⟨hlt, rfl⟩
      · rw [if_neg (by simpa using hx)] at hkeeps
        simpa using hkeeps

/-! ## §4  Over whole runs -/

theorem PauseStep.flowing {peerid : Int} {hostId : UUID} {n : Nat} {missed : FrameID → Nat}
    (hn : n < 256) (hn2 : 2 ≤ n) {s s' : Session} {e : PauseEvent}
    (h : Flowing peerid hostId n (budget n missed) (resumed s))
    (hstep : PauseStep peerid hostId s e s') (hbudget : WithinBudget n s missed e) :
    Flowing peerid hostId n (budget n (missedAfter s missed e)) (resumed s') := by
  cases hstep with
  | setPaused => exact h
  | @flow _ e hflow =>
      by_cases hdeliver : e = .deliverToClient
      · subst hdeliver
        cases hpaused : s.client.paused with
        | true =>
            cases hflow with
            | deliverToClient hnext hrecv => exact deliver_paused h hpaused hbudget hnext hrecv
        | false =>
            rw [resumed_eq hpaused] at h
            have hs' := h.step hn hn2 hflow
            rw [← resumed_eq hs'.client.unpaused] at hs'
            have hmissed : missedAfter s missed (.flow .deliverToClient) = missed := by
              rw [missedAfter]
              split
              · rfl
              · rw [hpaused]
                rfl
            rwa [hmissed]
      · have hs' := h.step hn hn2 (hflow.resumed hdeliver)
        have hgranted : granted (budget n missed) (resumed s) e =
            budget n (missedAfter s missed (.flow e)) := by
          cases e with
          | deliverToClient => exact absurd rfl hdeliver
          | deliverToHost =>
              show (match s.toHost with | [] => _ | x :: _ => _) = _
              rw [missedAfter]
              cases s.toHost with
              | nil => rfl
              | cons x rest =>
                  funext f
                  simp only [budget, Function.update_apply]
                  split_ifs <;> first | rfl | omega
          | post spkt pkt => rfl
          | call call => rfl
        rwa [← hgranted]

/-- **What a frame can miss.** In every run in which the pauses swallow, between two requests for
a frame that reach the host, fewer than half as many of its EndFrames as it asks for, every
selected frame has a request on its way or outlasts the countdown, in every state. -/
theorem pausing_keeps_stream (peerid : Int) (hostId : UUID) {n : Nat} (hn2 : 2 ≤ n)
    (hn : n ≤ 255) {es : List PauseEvent} {s : Session} {missed : FrameID → Nat}
    (run : Runs (BudgetStep peerid hostId n) (startSession n, fun _ => 0) es (s, missed)) :
    Sustained peerid n s := by
  have h : Flowing peerid hostId n (budget n missed) (resumed s) := by
    refine run.invariant (I := fun s => Flowing peerid hostId n (budget n s.2) (resumed s.1))
      (startSession_flowing peerid hostId n _) ?_
    rintro ⟨s, missed⟩ e ⟨s', missed'⟩ h ⟨hstep, hmissed, hbudget⟩
    obtain rfl : missed' = missedAfter s missed e := hmissed
    exact hstep.flowing (by omega) hn2 h hbudget
  exact h.sustained

/-- An EndFrame of frame (0, 1). -/
def endFrameOne (timestamp : Int) : StreamPacket :=
  { timestamp := timestamp, streamID := 0, frameNumber := 1, channel := Channel.kEndFrame }

theorem legal_enableOne : (ClientCall.enableChannel ⟨1⟩ 0).Legal := by
  show (⟨1⟩ : FrameID).frameset < 5
  decide

/-- One EndFrame of eighty is lost in a pause. -/
theorem pausing_keeps_stream_one : ∃ s : Session, ∃ missed : FrameID → Nat,
    Runs (BudgetStep 3 (.fill 7) 80) (startSession 80, fun _ => 0)
      [.flow (.call (.enableChannel ⟨1⟩ 0)), .flow .deliverToHost, .setPaused true,
        .flow (.post (endFrameOne 40) {}), .flow .deliverToClient, .setPaused false] (s, missed) ∧
      s.client.paused = false ∧ isSelected s.client ⟨1⟩ ∧ missed ⟨1⟩ = 1 ∧ Sustained 3 80 s := by
  have run : ∃ s : Session, ∃ missed : FrameID → Nat,
      Runs (BudgetStep 3 (.fill 7) 80) (startSession 80, fun _ => 0)
        [.flow (.call (.enableChannel ⟨1⟩ 0)), .flow .deliverToHost, .setPaused true,
          .flow (.post (endFrameOne 40) {}), .flow .deliverToClient, .setPaused false]
        (s, missed) ∧
      s.client.paused = false ∧ isSelected s.client ⟨1⟩ ∧ missed ⟨1⟩ = 1 := by
    refine ⟨_, _, (((((Runs.init.snoc
      (.count (.flow (@FlowStep.call 3 (.fill 7) _ _ _ 0 _ legal_enableOne rfl)) trivial)).snoc
      (.count (.flow (@FlowStep.deliverToHost 3 (.fill 7) _ _ _ _ 1 0 0 0 _ rfl rfl))
        trivial)).snoc
      (.count .setPaused trivial)).snoc (.count (.flow (.post rfl)) trivial)).snoc
      (.count (.flow (@FlowStep.deliverToClient 3 (.fill 7) _ _ _ _ 1 0 0 0 0 _ rfl rfl))
        ?_)).snoc
      (.count .setPaused trivial), rfl, ⟨by decide, by decide⟩, by decide⟩
    -- none has been missed since the request
    intro _ x hx _ _ _ _
    cases hx
    right
    decide
  obtain ⟨s, missed, run, hpaused, hsel, hmissed⟩ := run
  exact ⟨s, missed, run, hpaused, hsel, hmissed,
    pausing_keeps_stream 3 (.fill 7) (by decide) (by decide) run⟩

/-- A request for two frames, both of which arrive while the client is paused: when it goes on
there is no credit, nothing in flight and no request, and nobody will ask again. -/
theorem pausing_kills_stream : ∃ s : Session,
    Runs (PauseStep 3 (.fill 7)) (startSession 2)
      [.flow (.call (.enableChannel ⟨1⟩ 0)), .flow .deliverToHost, .setPaused true,
        .flow (.post (endFrameOne 40) {}), .flow (.post (endFrameOne 80) {}),
        .flow .deliverToClient, .flow .deliverToClient, .setPaused false] s ∧
      s.client.paused = false ∧ isSelected s.client ⟨1⟩ ∧ s.toHost = [] ∧ s.toClient = [] ∧
      credit s.host ⟨1⟩ 3 = 0 ∧ ¬ Sustained 3 2 s := by
  have run : ∃ s : Session, Runs (PauseStep 3 (.fill 7)) (startSession 2)
      [.flow (.call (.enableChannel ⟨1⟩ 0)), .flow .deliverToHost, .setPaused true,
        .flow (.post (endFrameOne 40) {}), .flow (.post (endFrameOne 80) {}),
        .flow .deliverToClient, .flow .deliverToClient, .setPaused false] s ∧
      s.client.paused = false ∧ isSelected s.client ⟨1⟩ ∧ s.toHost = [] ∧ s.toClient = [] ∧
      credit s.host ⟨1⟩ 3 = 0 ∧ s.client.tally 0 = 2 :=
    ⟨_, (((((((Runs.init.snoc
      (.flow (@FlowStep.call 3 (.fill 7) _ _ _ 0 _ legal_enableOne rfl))).snoc
      (.flow (@FlowStep.deliverToHost 3 (.fill 7) _ _ _ _ 1 0 0 0 _ rfl rfl))).snoc
      .setPaused).snoc (.flow (.post rfl))).snoc (.flow (.post rfl))).snoc
      (.flow (@FlowStep.deliverToClient 3 (.fill 7) _ _ _ _ 1 0 0 0 0 _ rfl rfl))).snoc
      (.flow (@FlowStep.deliverToClient 3 (.fill 7) _ _ _ _ 1 0 0 0 0 _ rfl rfl))).snoc
      .setPaused, rfl, ⟨by decide, by decide⟩, rfl, rfl, by decide, rfl⟩
  obtain ⟨s, run, hpaused, hsel, htoHost, htoClient, hcredit, htally⟩ := run
  refine ⟨s, run, hpaused, hsel, htoHost, htoClient, hcredit, ?_⟩
  intro h
  rcases h ⟨1⟩ (by decide) (by decide) hsel with ⟨x, hx, -⟩ | hle
  · rw [htoHost] at hx
    cases hx
  · have hzero : s.client.tally ⟨(⟨1⟩ : FrameID).frameset, by decide⟩ = 2 := htally
    rw [hzero, hcredit, htoClient] at hle
    revert hle
    decide

end BeyondProtocol.Net
