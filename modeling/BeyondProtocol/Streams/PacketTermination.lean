import BeyondProtocol.Framework.Ranking
import BeyondProtocol.Streams.PacketOrder

/-!
# A call of `submit` returns

A packet that a drain submits again may go back into the ring, and enough EndFrames there
start another drain, of the same packets. What ends this is the current timestamp. Every
packet that is passed on leaves for good, and a drain that gives a frame up moves the current
timestamp to one of those that are in the ring. From then on only packets behind it are put
back, so that each further drain finds one timestamp less above the current one.

The counters are of no account here: the call returns whatever they say.
-/

namespace BeyondProtocol

open Framework StreamState

/-! ## §1  The rank -/

/-- The steps of one pending call, when those its loop makes put their packets back. -/
def Pending.work : Pending → ℕ
  | .loop i stop _ => 4 * (stop - i) + 1
  | .swap _ => 1

namespace PacketManager

variable (m : PacketManager)

/-- The timestamps in sight: those of all slots and that of the packet in hand. -/
def stamps : Finset Int :=
  Finset.univ.image (fun i => (m.state.buffer i).1.timestamp) ∪
    m.call.elim ∅ fun r => {(m.state.deref r).1.timestamp}

/-- The packet in hand counts for one more when it has not got the current timestamp: it may
become the current one or go back into the ring. -/
def callWeight : ℕ :=
  m.call.elim 0 fun r => if m.state.timestamp = (m.state.deref r).1.timestamp then 1 else 2

/-- How much there is to pass on. -/
def toPass : ℕ := 2 * m.held.card + m.callWeight

/-- All that waits is younger than the current frame. -/
def Behind : Prop := ∀ i ∈ m.state.waiting, m.state.timestamp < m.stamp i

instance : Decidable m.Behind := Multiset.decidableForallMultiset

/-- How many frames may still be given up while nothing is passed on. A state in which
something older than the current frame waits is left with the next drain. -/
def drains : ℕ :=
  if m.Behind then (m.stamps.filter (m.state.timestamp < ·)).card else m.stamps.card + 1

def work : ℕ := (m.pending.map Pending.work).sum + m.call.elim 0 fun _ => 1

def rank : Rank := .of m.toPass m.drains m.work

/-- What holds in every state of a thread in `submit`. Timestamps are of type `int64_t`. -/
structure Sound : Prop where
  ordered : m.state.readPos ≤ m.state.writePos
  int64 : ∀ t ∈ m.stamps, t ≤ int64Max

variable {m} {m' : PacketManager}

theorem mem_stamps {t : Int} :
    t ∈ m.stamps ↔ (∃ i, m.stamp i = t) ∨
      ∃ r, m.call = some r ∧ (m.state.deref r).1.timestamp = t := by
  have hslot : (∃ i, m.stamp i = t) ↔ ∃ i, (m.state.buffer i).1.timestamp = t := by
    constructor
    · rintro ⟨i, hi⟩
      exact ⟨_, hi⟩
    · rintro ⟨i, hi⟩
      refine ⟨i.val, ?_⟩
      rw [stamp, Ring.get, Ring.slot, Fin.ofNat_val_eq_self]
      exact hi
  rw [stamps, Finset.mem_union, Finset.mem_image, hslot]
  rcases m.call with - | r <;> simp [eq_comm]

theorem stamp_mem_stamps (m : PacketManager) (i : ℕ) : m.stamp i ∈ m.stamps :=
  mem_stamps.mpr (.inl ⟨i, rfl⟩)

theorem call_mem_stamps {r : PacketRef} (hcall : m.call = some r) :
    (m.state.deref r).1.timestamp ∈ m.stamps :=
  mem_stamps.mpr (.inr ⟨r, hcall, rfl⟩)

theorem stamps_subset (hslots : ∀ i, m'.stamp i ∈ m.stamps)
    (hcall : ∀ r, m'.call = some r → (m'.state.deref r).1.timestamp ∈ m.stamps) :
    m'.stamps ⊆ m.stamps := by
  intro t ht
  rcases mem_stamps.mp ht with ⟨i, rfl⟩ | ⟨r, hr, rfl⟩
  · exact hslots i
  · exact hcall r hr

theorem callWeight_none (hcall : m.call = none) : m.callWeight = 0 := by
  rw [callWeight, hcall, Option.elim_none]

theorem callWeight_le (m : PacketManager) : m.callWeight ≤ 2 := by
  unfold callWeight
  rcases m.call with - | r
  · exact Nat.zero_le 2
  · rw [Option.elim_some]
    split <;> omega

theorem callWeight_pos {r : PacketRef} (hcall : m.call = some r) : 0 < m.callWeight := by
  rw [callWeight, hcall, Option.elim_some]
  split <;> omega

theorem callWeight_other {r : PacketRef} (hcall : m.call = some r)
    (hne : m.state.timestamp ≠ (m.state.deref r).1.timestamp) : m.callWeight = 2 := by
  rw [callWeight, hcall, Option.elim_some, if_neg hne]

/-- Without another current frame, and nothing older among what waits, no more drains come. -/
theorem drains_le (hcurrent : m'.state.timestamp = m.state.timestamp) (hsub : m'.stamps ⊆ m.stamps)
    (hbehind : m.Behind → m'.Behind) : m'.drains ≤ m.drains := by
  unfold drains
  rw [hcurrent]
  by_cases h : m.Behind
  · rw [if_pos h, if_pos (hbehind h)]
    exact Finset.card_le_card (Finset.filter_subset_filter _ hsub)
  · rw [if_neg h]
    split
    · exact (Finset.card_filter_le _ _).trans ((Finset.card_le_card hsub).trans (Nat.le_succ _))
    · exact Nat.succ_le_succ (Finset.card_le_card hsub)

theorem behind_congr (hstamp : ∀ i, m'.stamp i = m.stamp i)
    (hcurrent : m'.state.timestamp = m.state.timestamp)
    (hread : m'.state.readPos = m.state.readPos) (hwrite : m'.state.writePos = m.state.writePos)
    (h : m.Behind) : m'.Behind := by
  intro i hi
  rw [waiting, hread, hwrite] at hi
  rw [hcurrent, hstamp]
  exact h i hi

/-- Where something waits, the smallest timestamp is that of one of the packets. -/
theorem exists_stamp_eq_minTimestamp (h : m.Sound) (hwaits : m.state.readPos < m.state.writePos) :
    ∃ i ∈ m.state.waiting, m.state.minTimestamp = m.stamp i := by
  rcases foldl_min_eq (fun i => (m.state.buffer.get i).1.timestamp)
    (List.range' m.state.readPos (m.state.writePos - m.state.readPos)) int64Max with hmax | hmin
  · have hfirst : m.state.readPos ∈ m.state.waiting := Ring.mem_span.mpr ⟨le_rfl, hwaits⟩
    refine ⟨m.state.readPos, hfirst, le_antisymm (minTimestamp_le hfirst) ?_⟩
    exact (h.int64 _ (stamp_mem_stamps m _)).trans hmax.ge
  · exact hmin

/-- A drain that gives the current frame up has one timestamp less above the new one. -/
theorem drains_drain (h : m.Sound) (hcall : m.call = none)
    (hwaits : m.state.readPos < m.state.writePos) (discard : Bool) :
    (m.drain discard).drains < m.drains := by
  have hbehind : (m.drain discard).Behind := by
    intro i hi
    rw [waiting_drain] at hi
    exact absurd hi (Multiset.notMem_zero i)
  have hstamps : (m.drain discard).stamps = m.stamps := by
    unfold stamps
    rw [hcall, show (m.drain discard).call = none from hcall]
    rfl
  rw [drains, if_pos hbehind, hstamps, drains]
  split
  · rename_i hwaiting
    obtain ⟨i, hi, hmin⟩ := exists_stamp_eq_minTimestamp h hwaits
    have hup : m.state.timestamp < m.state.minTimestamp := hmin ▸ hwaiting i hi
    apply Finset.card_lt_card
    rw [Finset.ssubset_iff_of_subset]
    · refine ⟨m.state.minTimestamp, ?_, ?_⟩
      · exact Finset.mem_filter.mpr ⟨hmin ▸ stamp_mem_stamps m i, hup⟩
      · intro hmem
        exact lt_irrefl _ (Finset.mem_filter.mp hmem).2
    · intro t ht
      obtain ⟨hmem, hlt⟩ := Finset.mem_filter.mp ht
      exact Finset.mem_filter.mpr ⟨hmem, hup.trans hlt⟩
  · exact Nat.lt_succ_of_le (Finset.card_filter_le _ _)

/-! ## §2  What one step does -/

/-- A step that keeps the invariant and lowers the rank. -/
structure Advances (m m' : PacketManager) : Prop where
  sound : m'.Sound
  rank : m'.rank < m.rank

theorem Sound.of_subset (h : m.Sound) (hordered : m'.state.readPos ≤ m'.state.writePos)
    (hsub : m'.stamps ⊆ m.stamps) : m'.Sound :=
  ⟨hordered, fun t ht => h.int64 t (hsub ht)⟩

/-- The call returns without another one, and no slot is written. -/
theorem stamps_subset_of_none (hcall : m'.call = none) (hslots : ∀ i, m'.stamp i ∈ m.stamps) :
    m'.stamps ⊆ m.stamps := by
  apply stamps_subset hslots
  intro r hr
  rw [hcall] at hr
  cases hr

theorem held_submitCurrent (m : PacketManager) (p : Packet) :
    (m.submitCurrent p).held = m.held := by
  unfold submitCurrent
  dsimp only
  split
  · split
    · exact held_drain _ _
    · rfl
  · rfl

theorem ordered_submitCurrent {p : Packet} (h : m.state.readPos ≤ m.state.writePos) :
    (m.submitCurrent p).state.readPos ≤ (m.submitCurrent p).state.writePos := by
  unfold submitCurrent
  dsimp only
  split
  · split
    · exact le_rfl
    · exact h
  · exact h

theorem stamp_submitCurrent (m : PacketManager) (p : Packet) (i : ℕ) :
    (m.submitCurrent p).stamp i = m.stamp i := by
  unfold submitCurrent
  dsimp only
  split
  · split <;> rfl
  · rfl

/-- What was in hand is passed on, with all that waits left where it is. -/
theorem Advances.of_passed {r : PacketRef} (h : m.Sound) (hcall : m.call = some r)
    (hreturned : m'.call = none) (hordered : m'.state.readPos ≤ m'.state.writePos)
    (hheld : m'.held = m.held) (hstamp : ∀ i, m'.stamp i = m.stamp i) : m.Advances m' := by
  constructor
  · apply h.of_subset hordered
    apply stamps_subset_of_none hreturned
    intro i
    rw [hstamp]
    exact stamp_mem_stamps m i
  · apply Rank.lt_of_first
    rw [toPass, toPass, hheld, callWeight_none hreturned]
    have := callWeight_pos hcall
    omega

/-- The packet in hand becomes the current one. -/
def opened (m : PacketManager) (r : PacketRef) : PacketManager :=
  { m with
    state := { m.state with timestamp := (m.state.deref r).1.timestamp }, call := some r }

theorem deref_opened (m : PacketManager) (r : PacketRef) :
    (m.opened r).state.deref r = m.state.deref r := by
  cases r <;> rfl

theorem Advances.opened {r : PacketRef} (h : m.Sound) (hcall : m.call = some r)
    (hne : m.state.timestamp ≠ (m.state.deref r).1.timestamp) : m.Advances (m.opened r) := by
  constructor
  · refine h.of_subset h.ordered (stamps_subset (stamp_mem_stamps m) ?_)
    rintro _ ⟨⟩
    rw [deref_opened]
    exact call_mem_stamps hcall
  · apply Rank.lt_of_first
    have hweight : (m.opened r).callWeight = 1 := by
      rw [callWeight, PacketManager.opened, Option.elim_some, if_pos]
      exact (congrArg (fun p : Packet => p.1.timestamp) (deref_opened m r)).symm
    rw [toPass, toPass, hweight, callWeight_other hcall hne]
    exact Nat.lt_succ_self _

/-- The packet in hand goes back into the ring. -/
def stored (m : PacketManager) (r : PacketRef) : PacketManager :=
  { m with state := (m.state.store r).countEndFrame (m.state.deref r) 1, call := none }

theorem stamp_stored (m : PacketManager) (r : PacketRef) (i : ℕ) :
    (m.stored r).stamp i =
      if Ring.slot kMaxBuffer i = Ring.slot kMaxBuffer m.state.writePos then
        (m.state.deref r).1.timestamp
      else m.stamp i := by
  rw [← stamp_store]
  show (((m.state.store r).countEndFrame _ _).buffer.get i).1.timestamp = _
  rw [countEndFrame_buffer]
  rfl

theorem stored_writePos (m : PacketManager) (r : PacketRef) :
    (m.stored r).state.writePos = m.state.writePos + 1 := by
  rw [stored, countEndFrame_writePos, store_writePos]

theorem stored_readPos (m : PacketManager) (r : PacketRef) :
    (m.stored r).state.readPos = m.state.readPos := by
  rw [stored, countEndFrame_readPos, store_readPos]

theorem stored_timestamp (m : PacketManager) (r : PacketRef) :
    (m.stored r).state.timestamp = m.state.timestamp := by
  rw [stored, countEndFrame_timestamp, store_timestamp]

theorem stored_stamps {r : PacketRef} (hcall : m.call = some r) :
    (m.stored r).stamps ⊆ m.stamps := by
  apply stamps_subset_of_none rfl
  intro i
  rw [stamp_stored]
  split
  · exact call_mem_stamps hcall
  · exact stamp_mem_stamps m i

theorem sound_stored {r : PacketRef} (h : m.Sound) (hcall : m.call = some r) :
    (m.stored r).Sound := by
  apply h.of_subset
  · rw [stored_readPos, stored_writePos]
    exact h.ordered.trans (Nat.le_succ _)
  · exact stored_stamps hcall

/-- The packet counts twice in the ring, as it did in hand. -/
theorem toPass_stored {r : PacketRef} (h : m.Sound) (hcall : m.call = some r)
    (hlater : m.state.timestamp < (m.state.deref r).1.timestamp) :
    (m.stored r).toPass = m.toPass := by
  have hheld : (m.stored r).held = m.state.writePos ::ₘ m.held := by
    rw [← held_store r h.ordered]
    apply held_congr
    · exact countEndFrame_readPos _ _ _
    · exact countEndFrame_writePos _ _ _
    · rfl
  rw [toPass, toPass, hheld, Multiset.card_cons, callWeight_none rfl,
    callWeight_other hcall hlater.ne]
  omega

theorem behind_stored {r : PacketRef} (h : m.Sound)
    (hlater : m.state.timestamp < (m.state.deref r).1.timestamp) (hbehind : m.Behind) :
    (m.stored r).Behind := by
  intro i hi
  rw [stored_timestamp, stamp_stored]
  split
  · exact hlater
  · rename_i hslot
    rw [waiting, stored_readPos, stored_writePos, Ring.span_snoc h.ordered,
      Multiset.mem_cons] at hi
    apply hbehind i
    apply hi.resolve_left
    rintro rfl
    exact hslot rfl

theorem drains_stored {r : PacketRef} (h : m.Sound) (hcall : m.call = some r)
    (hlater : m.state.timestamp < (m.state.deref r).1.timestamp) :
    (m.stored r).drains ≤ m.drains :=
  drains_le (stored_timestamp m r) (stored_stamps hcall) (behind_stored h hlater)

/-- The packet goes back into the ring, and a drain gives the current frame up or not. -/
theorem Advances.submitLater {r : PacketRef} (h : m.Sound) (hcall : m.call = some r)
    (hlater : m.state.timestamp < (m.state.deref r).1.timestamp) :
    m.Advances ({ m with call := none }.submitLater r) := by
  have hstored := sound_stored h hcall
  have hpass := toPass_stored h hcall hlater
  have hdrains := drains_stored h hcall hlater
  unfold PacketManager.submitLater
  dsimp only
  split
  · -- the counters start anew
    set given : PacketManager := { m.stored r with
      state := { (m.stored r).state with processed := 0, expected := -1 } } with hgiven
    have hsound : given.Sound := ⟨hstored.ordered, hstored.int64⟩
    have hwaits : given.state.readPos < given.state.writePos := by
      show (m.stored r).state.readPos < (m.stored r).state.writePos
      rw [stored_readPos, stored_writePos]
      exact Nat.lt_succ_of_le h.ordered
    show m.Advances (given.drain true)
    constructor
    · exact hsound.of_subset le_rfl (stamps_subset_of_none rfl (stamp_mem_stamps given))
    · apply Rank.lt_of_second
      · rw [toPass, held_drain, callWeight_none rfl]
        exact (Nat.le_add_right _ _).trans hpass.le
      · exact (drains_drain hsound rfl hwaits true).trans_le hdrains
  · show m.Advances (m.stored r)
    refine ⟨hstored, Rank.lt_of_third hpass.le hdrains ?_⟩
    rw [work, work, hcall]
    exact Nat.lt_succ_self _

theorem Advances.submit {r : PacketRef} (h : m.Sound) (hcall : m.call = some r) :
    m.Advances (m.submit r) := by
  unfold PacketManager.submit
  dsimp only
  split
  · exact of_passed h hcall (submitCurrent_call _ _) (ordered_submitCurrent h.ordered)
      (held_submitCurrent _ _) (stamp_submitCurrent _ _)
  split
  · exact of_passed h hcall rfl h.ordered rfl fun _ => rfl
  split
  · rename_i hne _ _
    exact opened h hcall hne
  · rename_i hne hold _
    exact submitLater h hcall (lt_of_le_of_ne (not_lt.mp hold) hne)

/-- A call that has returned lets the one around it go on. Nothing is stored meanwhile. -/
theorem Advances.of_resumed (h : m.Sound) (hstamp : ∀ i, m'.stamp i = m.stamp i)
    (hcurrent : m'.state.timestamp = m.state.timestamp)
    (hread : m'.state.readPos = m.state.readPos) (hwrite : m'.state.writePos = m.state.writePos)
    (hcall : ∀ r, m'.call = some r → ∃ i, r = .slot i) (hpass : m'.toPass ≤ m.toPass)
    (hwork : m'.work < m.work) : m.Advances m' := by
  have hsub : m'.stamps ⊆ m.stamps := by
    apply stamps_subset
    · intro i
      rw [hstamp]
      exact stamp_mem_stamps m i
    · intro r hr
      obtain ⟨i, rfl⟩ := hcall r hr
      show m'.stamp i ∈ m.stamps
      rw [hstamp]
      exact stamp_mem_stamps m i
  constructor
  · apply h.of_subset _ hsub
    rw [hread, hwrite]
    exact h.ordered
  · exact Rank.lt_of_third hpass
      (drains_le hcurrent hsub (behind_congr hstamp hcurrent hread hwrite)) hwork

theorem work_cons {x : Pending} {rest : List Pending} (hcall : m.call = none)
    (hpending : m.pending = x :: rest) : m.work = x.work + (rest.map Pending.work).sum := by
  rw [work, hcall, hpending, List.map_cons, List.sum_cons, Option.elim_none, add_zero]

theorem work_afterCall (i stop : ℕ) (discard : Bool) :
    ((Pending.afterCall i stop discard).map Pending.work).sum ≤ 4 * (stop - (i + 1)) + 2 := by
  cases discard
  · simp [Pending.afterCall, Pending.work]
  · simp only [Pending.afterCall, Pending.work, if_true, List.cons_append, List.nil_append,
      List.map_cons, List.map_nil, List.sum_cons, List.sum_nil]
    omega

theorem toPass_pop {x : Pending} {rest : List Pending} (hcall : m.call = none)
    (hpending : m.pending = x :: rest) (hreturned : m'.call = none) (hrest : m'.pending = rest)
    (hwaiting : m'.state.waiting = m.state.waiting) : m'.toPass ≤ m.toPass := by
  have hunread : m'.unread = (rest.map Pending.unread).sum := by rw [unread, hrest]
  rw [toPass, toPass, callWeight_none hcall, callWeight_none hreturned, held, held,
    unread_cons hpending, hunread, hwaiting, Multiset.card_add, Multiset.card_add,
    Multiset.card_add]
  omega

theorem Advances.resume (h : m.Sound) (hcall : m.call = none) (hstep : m.resume = some m') :
    m.Advances m' := by
  unfold PacketManager.resume at hstep
  split at hstep
  · cases hstep
  · rename_i i rest hpending
    cases hstep
    refine of_resumed h (stamp_clear m i) rfl rfl rfl ?_ ?_ ?_
    · intro r hr
      cases hcall.symm.trans hr
    · exact toPass_pop hcall hpending hcall rfl rfl
    · rw [work_cons hcall hpending, work, hcall, Option.elim_none, add_zero]
      exact Nat.lt_add_of_pos_left Nat.one_pos
  · rename_i i stop discard rest hpending
    split at hstep
    · rename_i hi
      cases hstep
      apply of_resumed h
      · intro j
        show (((m.state.countEndFrame _ _).buffer.get j)).1.timestamp = _
        rw [countEndFrame_buffer]
        rfl
      · exact countEndFrame_timestamp _ _ _
      · exact countEndFrame_readPos _ _ _
      · exact countEndFrame_writePos _ _ _
      · rintro _ ⟨⟩
        exact ⟨i, rfl⟩
      · -- the slot leaves the loop for the hand
        set next : PacketManager := { m with
          state := m.state.countEndFrame (m.state.buffer.get i) (-1)
          call := some (.slot i)
          pending := Pending.afterCall i stop discard ++ rest } with hnext
        have hheld : m.held = i ::ₘ next.held := by
          rw [held, unread_next hpending hi, Multiset.cons_add, held, waiting, waiting,
            countEndFrame_readPos, countEndFrame_writePos]
          rfl
        have hweight := callWeight_le next
        rw [toPass, toPass, hheld, Multiset.card_cons, callWeight_none hcall]
        omega
      · rw [work_cons hcall hpending, work, Pending.work, Option.elim_some, List.map_append,
          List.sum_append]
        have hafter := work_afterCall i stop discard
        omega
    · cases hstep
      refine of_resumed h (fun _ => rfl) rfl rfl rfl ?_ ?_ ?_
      · intro r hr
        cases hcall.symm.trans hr
      · exact toPass_pop hcall hpending hcall rfl rfl
      · rw [work_cons hcall hpending, work, hcall, Option.elim_none, add_zero]
        exact Nat.lt_add_of_pos_left (Nat.succ_pos _)

/-! ## §3  The whole call -/

/-- A call that has not returned can go on. -/
theorem exists_step_of_not_idle (h : ¬ m.Idle) : ∃ m', m.exec .step = .ok m' := by
  have hstep : ∃ m', m.step = some m' := by
    unfold step
    rcases hcall : m.call with - | r
    · rcases hpending : m.pending with - | ⟨x, rest⟩
      · exact absurd ⟨hcall, hpending⟩ h
      · rw [PacketManager.resume, hpending]
        cases x with
        | swap i => exact ⟨_, rfl⟩
        | loop i stop discard =>
            dsimp only
            split <;> exact ⟨_, rfl⟩
    · exact ⟨_, rfl⟩
  obtain ⟨m', hm'⟩ := hstep
  exact ⟨m', by rw [exec, hm']⟩

theorem Sound.exec_step (h : m.Sound) (hstep : m.exec .step = .ok m') : m.Advances m' := by
  obtain ⟨p, hp, -⟩ | ⟨r, -, hcall, rfl⟩ | ⟨-, hcall, hresume⟩ := exec_cases hstep
  · cases hp
  · exact Advances.submit h hcall
  · exact Advances.resume h hcall hresume

/-- From any ring with its positions in order, a call of `submit` for any packet returns. -/
theorem submit_terminates {p : Packet} (hordered : m.state.readPos ≤ m.state.writePos)
    (hring : ∀ i, m.stamp i ≤ int64Max) (hp : p.1.timestamp ≤ int64Max)
    (hsubmit : m.exec (.submit p) = .ok m') :
    ∃ k t, Runs (fun m e m' => m.exec e = .ok m') m' (List.replicate k .step) t ∧ t.Idle := by
  have hsound : m'.Sound := by
    obtain ⟨q, hq, -, rfl⟩ | ⟨r, hr, -⟩ | ⟨hr, -⟩ := exec_cases hsubmit
    · cases hq
      refine ⟨hordered, ?_⟩
      intro t ht
      rcases mem_stamps.mp ht with ⟨i, rfl⟩ | ⟨r, hr, rfl⟩
      · exact hring i
      · cases hr
        exact hp
    · cases hr
    · cases hr
  have hstep : ∀ s : PacketManager, s.Sound → ¬ s.Idle →
      ∃ t, s.exec .step = .ok t ∧ t.Sound ∧ t.rank < s.rank := by
    intro s hs hbusy
    obtain ⟨t, hexec⟩ := exists_step_of_not_idle hbusy
    obtain ⟨ht, hlt⟩ := hs.exec_step hexec
    exact ⟨t, hexec, ht, hlt⟩
  obtain ⟨k, t, run, -, hidle⟩ := @Runs.exists_of_rank _ ManagerEvent _ _ _
    (fun m e m' => PacketManager.exec m e = .ok m') Sound Idle rank .step hstep _ hsound
  exact ⟨k, t, run, hidle⟩

/-- The packet completes frame 5, behind which three packets wait. -/
def beforeDrain : PacketManager :=
  { state := { buffer := fun _ => endFrame 7 1, timestamp := 5, writePos := 3 } }

theorem submit_terminates_draining :
    ∃ m, beforeDrain.exec (.submit (endFrame 5 1)) = .ok m ∧
      ∃ k t, Runs (fun m e m' => m.exec e = .ok m') m (List.replicate k .step) t ∧ t.Idle := by
  have hring : ∀ i, beforeDrain.stamp i ≤ int64Max := by
    intro i
    show (7 : Int) ≤ int64Max
    decide
  exact ⟨_, rfl, submit_terminates (Nat.zero_le 3) hring (by decide) rfl⟩

end PacketManager

end BeyondProtocol
