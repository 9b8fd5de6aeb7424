import BeyondProtocol.Streams.PacketManager

/-!
# What the reordering buffer keeps

A drain has moved `readPos` past its slots before it submits them again, so nothing but
the loop of the drain holds on to them: `writePos` may come round to a slot that is still
to be read. What the ring has to hold is therefore everything from the oldest position a
running drain needs up to `writePos`, and drains nest, each of them moving the packets it
keeps further on. As long as that fits in one turn of the ring every packet is passed on
once or waits; thirty packets are enough to go beyond it.
-/

namespace BeyondProtocol

open Framework StreamState

/-! ## §1  Positions in use -/

/-- The positions a loop has still to read. -/
def Pending.unread : Pending → Multiset ℕ
  | .loop i stop _ => Ring.span i stop
  | .swap _ => 0

/-- The positions that must not be written: those still to be read, and a slot whose
vector is to be dropped. -/
def Pending.needed : Pending → Multiset ℕ
  | .loop i stop _ => Ring.span i stop
  | .swap i => {i}

def PacketRef.positions : PacketRef → Multiset ℕ
  | .caller _ => 0
  | .slot i => {i}

namespace PacketManager

variable (m : PacketManager)

def unread : Multiset ℕ := (m.pending.map Pending.unread).sum

def needed : Multiset ℕ := (m.pending.map Pending.needed).sum

/-- The packet of the innermost call. -/
def inHand : Multiset Packet := m.call.elim 0 fun r => {m.state.deref r}

/-- What the running calls have still to deal with: the packet of the innermost one and those
their drains have yet to submit. -/
def underway : Multiset Packet := m.inHand + m.state.buffer.read m.unread

/-- What waits in the ring between `readPos` and `writePos`. -/
def waitingPackets : Multiset Packet := m.state.buffer.read m.state.waiting

/-- The packets submitted and not yet passed to the callback. -/
def outstanding : Multiset Packet := (m.submitted : Multiset Packet) - m.passed

/-- The packet a call is given goes into the ring: its timestamp is above the current one,
and there is a current one. -/
def Buffers (p : Packet) : Prop :=
  m.state.timestamp < p.1.timestamp ∧ m.state.timestamp ≠ -1

/-- A packet that goes into the ring leaves everything the running drains need, the slot it
comes from included, less than one turn behind. -/
def Room : Prop :=
  ∀ r ∈ m.call, m.Buffers (m.state.deref r) →
    ∀ i ∈ r.positions + m.needed, m.state.writePos < i + kMaxBuffer

instance (p : Packet) : Decidable (m.Buffers p) := by
  unfold Buffers
  infer_instance

instance : Decidable m.Room := by
  unfold Room
  infer_instance

end PacketManager

/-- A step that leaves at most `kMaxBuffer` packets to be passed on. -/
structure BoundedStep (m : PacketManager) (e : ManagerEvent) (m' : PacketManager) : Prop where
  step : m.exec e = .ok m'
  bounded : m'.outstanding.card ≤ kMaxBuffer

/-- Such a step that puts a packet into the ring only where there is room. -/
structure RoomyStep (m : PacketManager) (e : ManagerEvent) (m' : PacketManager) : Prop
    extends BoundedStep m e m' where
  room : m.Room

/-! ## §2  The invariant -/

namespace PacketManager

/-- The positions whose packets were neither passed on nor taken by the running call. -/
def held (m : PacketManager) : Multiset ℕ := m.unread + m.state.waiting

/-- The running call aside: `hand` is what it has taken and neither passed on nor stored. -/
structure Holding (hand : Multiset Packet) (m : PacketManager) : Prop where
  ordered : m.state.readPos ≤ m.state.writePos
  /-- All positions in use lie within one turn of the ring. -/
  turn : ∀ i ∈ m.needed + m.state.waiting,
    i < m.state.writePos ∧ m.state.writePos ≤ i + kMaxBuffer
  apart : m.held.Nodup
  swaps : ∀ i, .swap i ∈ m.pending → i ∉ m.held
  conserved : (m.submitted : Multiset Packet) =
    m.passed + hand + m.state.buffer.read m.held

/-- The slot a call refers to is its own. -/
structure Own (m : PacketManager) (i : ℕ) : Prop where
  turn : i < m.state.writePos ∧ m.state.writePos ≤ i + kMaxBuffer
  apart : i ∉ m.held

structure Conserving (m : PacketManager) : Prop where
  holding : m.Holding m.inHand
  own : ∀ i, m.call = some (.slot i) → m.Own i

variable {m m' : PacketManager} {hand : Multiset Packet}

theorem inHand_of_none (h : m.call = none) : m.inHand = 0 := by
  rw [inHand, h, Option.elim_none]

theorem inHand_of_some {r : PacketRef} (h : m.call = some r) :
    m.inHand = {m.state.deref r} := by
  rw [inHand, h, Option.elim_some]

theorem mem_positions {f : Pending → Multiset ℕ} {xs : List Pending} {i : ℕ} :
    i ∈ (xs.map f).sum ↔ ∃ x ∈ xs, i ∈ f x := by
  induction xs with
  | nil => simp
  | cons x xs ih => simp [ih]

theorem unread_cons {x : Pending} {rest : List Pending} (h : m.pending = x :: rest) :
    m.unread = x.unread + (rest.map Pending.unread).sum := by
  rw [unread, h, List.map_cons, List.sum_cons]

theorem needed_cons {x : Pending} {rest : List Pending} (h : m.pending = x :: rest) :
    m.needed = x.needed + (rest.map Pending.needed).sum := by
  rw [needed, h, List.map_cons, List.sum_cons]

theorem mem_needed_of_unread {i : ℕ} (h : i ∈ m.unread) : i ∈ m.needed := by
  obtain ⟨x, hx, hi⟩ := mem_positions.mp h
  refine mem_positions.mpr ⟨x, hx, ?_⟩
  cases x with
  | loop => exact hi
  | swap => exact absurd hi (Multiset.notMem_zero i)

theorem mem_needed_of_swap {i : ℕ} (h : .swap i ∈ m.pending) : i ∈ m.needed :=
  mem_positions.mpr ⟨_, h, Multiset.mem_singleton_self i⟩

theorem mem_needed_of_held {i : ℕ} (h : i ∈ m.held) : i ∈ m.needed + m.state.waiting := by
  rw [held, Multiset.mem_add] at h
  rw [Multiset.mem_add]
  exact h.imp_left mem_needed_of_unread

theorem held_congr (hread : m'.state.readPos = m.state.readPos)
    (hwrite : m'.state.writePos = m.state.writePos) (hpending : m'.pending = m.pending) :
    m'.held = m.held := by
  rw [held, held, unread, unread, waiting, waiting, hpending, hread, hwrite]

theorem Own.congr {i : ℕ} (h : m.Own i) (hread : m'.state.readPos = m.state.readPos)
    (hwrite : m'.state.writePos = m.state.writePos) (hpending : m'.pending = m.pending) :
    m'.Own i := by
  constructor
  · rw [hwrite]
    exact h.turn
  · rw [held_congr hread hwrite hpending]
    exact h.apart

/-- The counters and the current timestamp do not matter. -/
theorem Holding.congr (h : m.Holding hand) (hbuffer : m'.state.buffer = m.state.buffer)
    (hread : m'.state.readPos = m.state.readPos) (hwrite : m'.state.writePos = m.state.writePos)
    (hpending : m'.pending = m.pending) (hsubmitted : m'.submitted = m.submitted)
    (hpassed : m'.passed = m.passed) : m'.Holding hand := by
  have hwaiting : m'.state.waiting = m.state.waiting := by rw [waiting, waiting, hread, hwrite]
  have hneeded : m'.needed = m.needed := by rw [needed, needed, hpending]
  have hheld : m'.held = m.held := held_congr hread hwrite hpending
  constructor
  · rw [hread, hwrite]
    exact h.ordered
  · rw [hneeded, hwaiting, hwrite]
    exact h.turn
  · rw [hheld]
    exact h.apart
  · rw [hpending, hheld]
    exact h.swaps
  · rw [hsubmitted, hpassed, hbuffer, hheld]
    exact h.conserved

/-! ## §3  The operations -/

theorem Holding.cb {p : Packet} (h : m.Holding (p ::ₘ hand)) : (m.cb p).Holding hand where
  ordered := h.ordered
  turn := h.turn
  apart := h.apart
  swaps := h.swaps
  conserved := by
    show (m.submitted : Multiset Packet) =
      ((m.passed ++ [p] : List Packet) : Multiset Packet) + hand + m.state.buffer.read m.held
    rw [h.conserved, ← Multiset.coe_add, Multiset.coe_singleton, add_assoc _ {p} hand,
      Multiset.singleton_add]

theorem waiting_drain (m : PacketManager) (discard : Bool) :
    (m.drain discard).state.waiting = 0 :=
  Ring.span_eq_zero le_rfl

/-- A drain turns what waits into what its loop has to read. -/
theorem held_drain (m : PacketManager) (discard : Bool) : (m.drain discard).held = m.held := by
  have hpending : (m.drain discard).pending =
      .loop m.state.readPos m.state.writePos discard :: m.pending := rfl
  rw [held, waiting_drain, add_zero, held, add_comm]
  exact unread_cons hpending

theorem Holding.drain (h : m.Holding hand) (discard : Bool) : (m.drain discard).Holding hand := by
  have hpending : (m.drain discard).pending =
      .loop m.state.readPos m.state.writePos discard :: m.pending := rfl
  have hwaiting := waiting_drain m discard
  have hheld := held_drain m discard
  have hneeded : (m.drain discard).needed = m.state.waiting + m.needed :=
    needed_cons hpending
  constructor
  · exact le_rfl
  · rw [hneeded, hwaiting, add_zero, add_comm]
    exact h.turn
  · rw [hheld]
    exact h.apart
  · intro i hi
    rw [hheld]
    apply h.swaps
    simpa [hpending] using hi
  · rw [hheld]
    exact h.conserved

/-- Dropping the vector of a slot that nothing holds on to. -/
theorem Holding.clear {i : ℕ} (h : m.Holding hand) (hown : m.Own i) :
    { m with state := m.state.clear i }.Holding hand where
  ordered := h.ordered
  turn := h.turn
  apart := h.apart
  swaps := h.swaps
  conserved := by
    have hread : (m.state.clear i).buffer.read m.held = m.state.buffer.read m.held := by
      apply Ring.read_put
      intro j hj
      apply Ring.slot_ne (h.turn j (mem_needed_of_held hj)) hown.turn
      rintro rfl
      exact hown.apart hj
    show (m.submitted : Multiset Packet) = m.passed + hand + (m.state.clear i).buffer.read m.held
    rw [hread]
    exact h.conserved

theorem held_store (r : PacketRef) (h : m.state.readPos ≤ m.state.writePos) :
    { m with state := m.state.store r }.held = m.state.writePos ::ₘ m.held := by
  show m.unread + (m.state.store r).waiting = _
  rw [waiting_store r h, Multiset.add_cons]
  rfl

/-- A write in front of all positions in use, with room for it. -/
theorem Holding.put {p : Packet} (h : m.Holding (p ::ₘ hand))
    (hneeded : ∀ i ∈ m.needed, m.state.writePos < i + kMaxBuffer)
    (hwaiting : m.state.writePos < m.state.readPos + kMaxBuffer) :
    { m with state := m.state.store (.caller p) }.Holding hand := by
  set w := m.state.writePos with hw
  set m' := { m with state := m.state.store (.caller p) } with hm'
  have hw' : m'.state.waiting = w ::ₘ m.state.waiting := Ring.span_snoc h.ordered
  have hheld : m'.held = w ::ₘ m.held := held_store _ h.ordered
  have hfresh : w ∉ m.held := by
    intro hmem
    exact lt_irrefl w (h.turn w (mem_needed_of_held hmem)).1
  have hroom : ∀ i ∈ m.needed + m.state.waiting, i < w ∧ w < i + kMaxBuffer := by
    intro i hi
    refine ⟨(h.turn i hi).1, ?_⟩
    rcases Multiset.mem_add.mp hi with hi | hi
    · exact hneeded i hi
    · have := (Ring.mem_span.mp hi).1
      omega
  constructor
  · exact h.ordered.trans (Nat.le_succ w)
  · intro i hi
    show i < w + 1 ∧ w + 1 ≤ i + kMaxBuffer
    rw [hw', Multiset.add_cons, Multiset.mem_cons] at hi
    rcases hi with rfl | hi
    · exact ⟨Nat.lt_succ_self w, Nat.add_le_add_left (by decide) w⟩
    · have := hroom i hi
      omega
  · rw [hheld]
    exact Multiset.nodup_cons.mpr ⟨hfresh, h.apart⟩
  · intro i hi hmem
    rw [hheld, Multiset.mem_cons] at hmem
    rcases hmem with rfl | hmem
    · exact lt_irrefl w (hroom w (Multiset.mem_add.mpr (.inl (mem_needed_of_swap hi)))).1
    · exact h.swaps i hi hmem
  · have hread : (m.state.buffer.put w p).read m.held = m.state.buffer.read m.held := by
      apply Ring.read_put
      intro j hj
      obtain ⟨hlt, hturn⟩ := hroom j (mem_needed_of_held hj)
      exact Ring.slot_ne_of_lt hlt hturn
    show (m.submitted : Multiset Packet) =
      m.passed + hand + (m.state.buffer.put w p).read m'.held
    rw [hheld, Ring.read_cons, Ring.get_put_self, hread, h.conserved]
    simp [add_assoc]

/-- A packet moved within the ring leaves its old slot behind, which is no other's. -/
theorem Holding.store {r : PacketRef} (h : m.Holding {m.state.deref r})
    (hown : ∀ i, r = .slot i → m.Own i)
    (hneeded : ∀ i ∈ r.positions + m.needed, m.state.writePos < i + kMaxBuffer)
    (hwaiting : m.state.writePos < m.state.readPos + kMaxBuffer) :
    { m with state := m.state.store r }.Holding 0 := by
  have hput : { m with state := m.state.store (.caller (m.state.deref r)) }.Holding 0 :=
    h.put (fun i hi => hneeded i (Multiset.mem_add.mpr (.inr hi))) hwaiting
  cases r with
  | caller p => exact hput
  | slot i =>
      obtain ⟨hturn, hapart⟩ := hown i rfl
      have hroom : m.state.writePos < i + kMaxBuffer :=
        hneeded i (Multiset.mem_add.mpr (.inl (Multiset.mem_singleton_self i)))
      apply hput.clear
      constructor
      · show i < m.state.writePos + 1 ∧ m.state.writePos + 1 ≤ i + kMaxBuffer
        omega
      · rw [held_store _ h.ordered, Multiset.mem_cons]
        rintro (rfl | hmem)
        · exact lt_irrefl _ hturn.1
        · exact hapart hmem

/-! ## §4  The calls -/

theorem Holding.submitCurrent {p : Packet} (h : m.Holding {p}) :
    (m.submitCurrent p).Holding 0 := by
  have hcb : (m.cb p).Holding 0 := h.cb
  unfold PacketManager.submitCurrent
  dsimp only
  split
  · split
    · apply Holding.drain
      exact hcb.congr rfl rfl rfl rfl rfl rfl
    · exact hcb.congr rfl rfl rfl rfl rfl rfl
  · exact hcb.congr rfl rfl rfl rfl rfl rfl

theorem Holding.submitLater {r : PacketRef}
    (h : { m with state := m.state.store r }.Holding 0) : (m.submitLater r).Holding 0 := by
  unfold PacketManager.submitLater
  dsimp only
  split
  · apply Holding.drain
    apply h.congr <;> simp
  · apply h.congr <;> simp

theorem submitCurrent_call (m : PacketManager) (p : Packet) :
    (m.submitCurrent p).call = m.call := by
  unfold submitCurrent
  dsimp only
  split
  · split <;> rfl
  · rfl

theorem submitLater_call (m : PacketManager) (r : PacketRef) :
    (m.submitLater r).call = m.call := by
  unfold submitLater
  dsimp only
  split <;> rfl

/-- Between two calls nothing is in hand. -/
theorem Holding.returned (h : m.Holding 0) (hcall : m.call = none) : m.Conserving := by
  constructor
  · rw [inHand_of_none hcall]
    exact h
  · intro i hi
    rw [hcall] at hi
    cases hi

theorem Holding.outstanding_eq (h : m.Holding hand) :
    m.outstanding = hand + m.state.buffer.read m.held := by
  rw [outstanding, h.conserved, add_assoc, add_tsub_cancel_left]

/-- The packet in hand is one of those outstanding, so the waiting ones do not fill the
ring. -/
theorem Holding.room_waiting {p : Packet} (h : m.Holding {p})
    (hbounded : m.outstanding.card ≤ kMaxBuffer) :
    m.state.writePos < m.state.readPos + kMaxBuffer := by
  have hcard : m.held.card < kMaxBuffer := by
    simpa [h.outstanding_eq] using hbounded
  have hheld : m.held.card = m.unread.card + (m.state.writePos - m.state.readPos) := by
    rw [held, Multiset.card_add, waiting, Ring.card_span]
  omega

theorem Conserving.submit {r : PacketRef} (h : m.Conserving) (hcall : m.call = some r)
    (hbounded : m.outstanding.card ≤ kMaxBuffer) (hroom : m.Room) : (m.submit r).Conserving := by
  obtain ⟨hholding, hown⟩ := h
  rw [inHand_of_some hcall] at hholding
  rw [hcall] at hown
  have htaken : { m with call := none }.Holding {m.state.deref r} :=
    hholding.congr rfl rfl rfl rfl rfl rfl
  unfold PacketManager.submit
  dsimp only
  split
  · exact htaken.submitCurrent.returned (submitCurrent_call _ _)
  split
  · exact Holding.returned htaken.cb rfl
  split
  · -- the packet's timestamp becomes the current one and the call is made again
    constructor
    · cases r <;> exact hholding.congr rfl rfl rfl rfl rfl rfl
    · intro i hi
      exact (hown i hi).congr rfl rfl rfl
  · rename_i hne hold hcurrent
    have hbuffers : m.Buffers (m.state.deref r) := ⟨by omega, hcurrent⟩
    have hstored : { m with call := none, state := m.state.store r }.Holding 0 := by
      refine Holding.store (m := { m with call := none }) htaken ?_ (hroom r hcall hbuffers)
        (hholding.room_waiting hbounded)
      rintro i rfl
      exact (hown i rfl).congr rfl rfl rfl
    exact hstored.submitLater.returned (submitLater_call _ _)

/-- What is done is taken off the stack. -/
theorem Holding.pop {x : Pending} {rest : List Pending} (h : m.Holding hand)
    (hpending : m.pending = x :: rest) (hx : x.unread = 0) :
    { m with pending := rest }.Holding hand := by
  set m' := { m with pending := rest } with hm'
  have hunread : m.unread = m'.unread := by
    rw [unread_cons hpending, hx, zero_add]
    rfl
  have hheld : m'.held = m.held := by
    rw [held, held, hunread]
  constructor
  · exact h.ordered
  · intro i hi
    apply h.turn i
    rw [needed_cons hpending, add_assoc]
    exact Multiset.mem_add.mpr (.inr hi)
  · rw [hheld]
    exact h.apart
  · intro i hi
    rw [hheld]
    apply h.swaps
    rw [hpending]
    exact List.mem_cons_of_mem x hi
  · rw [hheld]
    exact h.conserved

theorem unread_next {i stop : ℕ} {discard : Bool} {rest : List Pending}
    (hpending : m.pending = .loop i stop discard :: rest) (hi : i < stop) :
    m.unread = i ::ₘ { m with pending := Pending.afterCall i stop discard ++ rest }.unread := by
  rw [unread_cons hpending, Pending.unread, Ring.span_cons hi]
  cases discard <;> simp [unread, Pending.afterCall, Pending.unread]

/-- The next slot of a loop goes from the loop to the call. -/
theorem Holding.next {i stop : ℕ} {discard : Bool} {rest : List Pending} (h : m.Holding 0)
    (hpending : m.pending = .loop i stop discard :: rest) (hi : i < stop) :
    let m' := { m with pending := Pending.afterCall i stop discard ++ rest }
    m'.Holding {m.state.buffer.get i} ∧ m'.Own i := by
  intro m'
  have hheld : m.held = i ::ₘ m'.held := by
    rw [held, unread_next hpending hi, Multiset.cons_add]
    rfl
  have hneeded : ∀ j ∈ m'.needed, j ∈ m.needed := by
    intro j hj
    rw [needed_cons hpending, Pending.needed, Ring.span_cons hi]
    cases discard
    all_goals
      simp only [m', needed, Pending.afterCall, Pending.needed, if_true, Bool.false_eq_true,
        if_false, List.nil_append, List.cons_append, List.map_cons, List.sum_cons,
        Multiset.mem_add, Multiset.mem_cons, Multiset.mem_singleton] at hj ⊢
      tauto
  have hmem : i ∈ m.held := hheld ▸ Multiset.mem_cons_self i _
  obtain ⟨hown, happart⟩ := Multiset.nodup_cons.mp (hheld ▸ h.apart)
  refine ⟨⟨h.ordered, ?_, happart, ?_, ?_⟩, h.turn i (mem_needed_of_held hmem), hown⟩
  · intro j hj
    apply h.turn
    exact Multiset.mem_add.mpr ((Multiset.mem_add.mp hj).imp_left (hneeded j))
  · intro j hj
    by_cases hji : j = i
    · rw [hji]
      exact hown
    · have hold : .swap j ∈ m.pending := by
        rw [hpending]
        cases discard <;> simpa [m', Pending.afterCall, hji] using hj
      intro hheldj
      apply h.swaps j hold
      rw [hheld]
      exact Multiset.mem_cons_of_mem hheldj
  · show (m.submitted : Multiset Packet) = m.passed + _ + m.state.buffer.read m'.held
    rw [h.conserved, hheld, Ring.read_cons, ← Multiset.singleton_add]
    simp [add_assoc]

theorem Conserving.resume (h : m.Conserving) (hcall : m.call = none)
    (hstep : m.resume = some m') : m'.Conserving := by
  obtain ⟨hholding, -⟩ := h
  rw [inHand_of_none hcall] at hholding
  unfold PacketManager.resume at hstep
  split at hstep
  · cases hstep
  · rename_i i rest hpending
    cases hstep
    have hmem : .swap i ∈ m.pending := by simp [hpending]
    have hown : m.Own i :=
      ⟨hholding.turn i (Multiset.mem_add.mpr (.inl (mem_needed_of_swap hmem))),
        hholding.swaps i hmem⟩
    exact ((hholding.clear hown).pop hpending rfl).returned hcall
  · rename_i i stop discard rest hpending
    split at hstep
    · rename_i hi
      cases hstep
      obtain ⟨hnext, hown⟩ := hholding.next hpending hi
      constructor
      · show Holding {(m.state.countEndFrame _ _).buffer.get i} _
        rw [countEndFrame_buffer]
        apply hnext.congr <;> simp
      · intro j hj
        cases hj
        apply hown.congr <;> simp
    · rename_i hi
      cases hstep
      refine (hholding.pop hpending ?_).returned hcall
      exact Ring.span_eq_zero (Nat.le_of_not_lt hi)

theorem Conserving.submitted {p : Packet} (h : m.Conserving) (hcall : m.call = none) :
    { m with submitted := m.submitted ++ [p], call := some (.caller p) }.Conserving := by
  obtain ⟨hholding, -⟩ := h
  rw [inHand_of_none hcall] at hholding
  constructor
  · refine ⟨hholding.ordered, hholding.turn, hholding.apart, hholding.swaps, ?_⟩
    show ((m.submitted ++ [p] : List Packet) : Multiset Packet) =
      m.passed + {p} + m.state.buffer.read m.held
    rw [← Multiset.coe_add, hholding.conserved, Multiset.coe_singleton, add_zero]
    exact add_right_comm _ _ _
  · intro i hi
    cases hi

theorem Conserving.exec {e : ManagerEvent} (h : m.Conserving)
    (hbounded : m.outstanding.card ≤ kMaxBuffer) (hroom : m.Room) (hstep : m.exec e = .ok m') :
    m'.Conserving := by
  obtain ⟨p, -, hidle, rfl⟩ | ⟨r, -, hcall, rfl⟩ | ⟨-, hcall, hresume⟩ := exec_cases hstep
  · exact h.submitted hidle.1
  · exact h.submit hcall hbounded hroom
  · exact h.resume hcall hresume

theorem conserving_init : Conserving {} where
  holding :=
    { ordered := le_rfl
      turn := fun i hi => absurd hi (Multiset.notMem_zero i)
      apart := Multiset.nodup_zero
      swaps := fun _ hi => absurd hi List.not_mem_nil
      conserved := rfl }
  own := fun _ hi => nomatch hi

/-- Whatever is still to be passed on waits in the ring or is in hand of a running call. -/
theorem Conserving.submitted_eq (h : m.Conserving) :
    (m.submitted : Multiset Packet) = m.passed + m.waitingPackets + m.underway := by
  rw [h.holding.conserved, held, Ring.read_add, waitingPackets, underway]
  abel

end PacketManager

/-! ## §5  Runs -/

namespace PacketManager

theorem conserving_of_run {es : List ManagerEvent} {m : PacketManager}
    (run : Runs RoomyStep {} es m) : m.Conserving := by
  have h : m.Conserving ∧ m.outstanding.card ≤ kMaxBuffer := by
    apply run.invariant
    · exact ⟨conserving_init, by decide⟩
    · rintro m e m' ⟨h, hbounded⟩ hstep
      exact ⟨h.exec hbounded hstep.room hstep.step, hstep.bounded⟩
  exact h.1

theorem Holding.waiting_fits {m : PacketManager} {hand : Multiset Packet} (h : m.Holding hand) :
    m.state.writePos ≤ m.state.readPos + kMaxBuffer := by
  rcases h.ordered.eq_or_lt with heq | hlt
  · omega
  · have hmem : m.state.readPos ∈ m.state.waiting := Ring.mem_span.mpr ⟨le_rfl, hlt⟩
    exact (h.turn _ (Multiset.mem_add.mpr (.inr hmem))).2

/-- With room at every step, each packet submitted so far was passed to the callback once,
as it was submitted, or waits in the ring, or is in hand of the call that runs; when the
calls have returned only the first two are left. -/
theorem submit_conserves {es : List ManagerEvent} {m : PacketManager}
    (run : Runs RoomyStep {} es m) :
    (m.submitted : Multiset Packet) = m.passed + m.waitingPackets + m.underway ∧
      m.state.readPos ≤ m.state.writePos ∧
      m.state.writePos ≤ m.state.readPos + kMaxBuffer ∧
      (m.Idle → (m.submitted : Multiset Packet) = m.passed + m.waitingPackets) := by
  have h := conserving_of_run run
  refine ⟨h.submitted_eq, h.holding.ordered, h.holding.waiting_fits, ?_⟩
  rintro ⟨hcall, hpending⟩
  have hunderway : m.underway = 0 := by
    rw [underway, inHand_of_none hcall, unread, hpending]
    rfl
  rw [h.submitted_eq, hunderway, add_zero]

/-! ## §6  Two runs -/

/-- An event whose outcome passes a test. -/
def execIf (ok : PacketManager → PacketManager → Bool) (m : PacketManager) (e : ManagerEvent) :
    Except Unit PacketManager := do
  let m' ← m.exec e
  if ok m m' then return m' else throw ()

theorem execIf_eq_ok {ok : PacketManager → PacketManager → Bool} {m m' : PacketManager}
    {e : ManagerEvent} (h : m.execIf ok e = .ok m') : m.exec e = .ok m' ∧ ok m m' = true := by
  rw [execIf, bind_eq_ok] at h
  obtain ⟨t, ht, hok⟩ := h
  split at hok
  · rename_i htest
    cases hok
    exact ⟨ht, htest⟩
  · cases hok

/-- What a tested execution shows of the state it ends in. -/
theorem exists_run {step : PacketManager → ManagerEvent → PacketManager → Prop}
    {ok : PacketManager → PacketManager → Bool} {Q : PacketManager → Bool}
    (es : List ManagerEvent)
    (hstep : ∀ m e m', m.exec e = .ok m' → ok m m' = true → step m e m')
    (h : (es.foldlM (execIf ok) {}).toOption.any Q = true) :
    ∃ m, Runs step {} es m ∧ Q m = true := by
  rcases hfold : es.foldlM (execIf ok) {} with e | m
  · rw [hfold] at h
    cases h
  · rw [hfold] at h
    refine ⟨m, Runs.of_foldlM (fun s e _ t ht => ?_) hfold, h⟩
    obtain ⟨hexec, hok⟩ := execIf_eq_ok ht
    exact hstep s e t hexec hok

theorem outstanding_card_le (m : PacketManager) : m.outstanding.card ≤ m.submitted.length :=
  Multiset.card_le_card tsub_le_self

def dataPacket (timestamp : Int) (channel : Channel) (data : List UInt8) : Packet :=
  (⟨timestamp, 0, 0, channel, 0, 0, 0⟩, { data })

def endFrame (timestamp : Int) (packetCount : UInt8) : Packet :=
  (⟨timestamp, 0, 0, Channel.kEndFrame, 0, 0, 0⟩, { dataFlags := packetCount })

/-- A frame of two packets completes while a packet of each of the next two waits, the later
one first: the drain puts it back. -/
def shortRun : List ManagerEvent :=
  ([.submit (dataPacket 0 Channel.kColour [1]), .step, .step,
    .submit (dataPacket 2 Channel.kColour [2]), .step,
    .submit (dataPacket 1 Channel.kColour [3]), .step,
    .submit (endFrame 0 2)] : List ManagerEvent) ++ (List.replicate 6 .step : List ManagerEvent)

theorem submit_conserves_shortRun :
    ∃ m, Runs RoomyStep {} shortRun m ∧
      (m.submitted : Multiset Packet) = m.passed + m.waitingPackets ∧
      m.passed = [dataPacket 0 Channel.kColour [1], endFrame 0 2,
        dataPacket 1 Channel.kColour [3]] := by
  have hstep : ∀ (m : PacketManager) (e : ManagerEvent) (m' : PacketManager),
      m.exec e = .ok m' → decide (m'.submitted.length ≤ kMaxBuffer ∧ m.Room) = true →
        RoomyStep m e m' := by
    intro m e m' hexec htest
    obtain ⟨hlength, hroom⟩ := of_decide_eq_true htest
    exact ⟨⟨hexec, (outstanding_card_le m').trans hlength⟩, hroom⟩
  obtain ⟨m, run, hend⟩ := exists_run shortRun (Q := fun m => decide (m.Idle ∧ m.passed =
    [dataPacket 0 Channel.kColour [1], endFrame 0 2, dataPacket 1 Channel.kColour [3]]))
    hstep (by decide +kernel)
  obtain ⟨hidle, hpassed⟩ := of_decide_eq_true hend
  exact ⟨m, run, (submit_conserves run).2.2.2 hidle, hpassed⟩

/-- Frames 1 to 4 are only an EndFrame each and come in reverse order behind 24 packets of
frame 9, with one more of these behind. Each of the drains that follow one another inside
the first one moves the 24 packets on, and the last of them reach the slot of that one. -/
def nestedRun : List ManagerEvent :=
  ([.submit (dataPacket 0 Channel.kColour []), .step, .step] : List ManagerEvent) ++
    (((List.range 24).map fun i => dataPacket 9 Channel.kColour [UInt8.ofNat i]).flatMap
      (fun p => [.submit p, .step]) : List ManagerEvent) ++
    ([endFrame 4 1, endFrame 3 1, endFrame 2 1, endFrame 1 1,
      dataPacket 9 Channel.kPose [1]].flatMap (fun p => [.submit p, .step]) :
        List ManagerEvent) ++
    (.submit (endFrame 0 2) :: List.replicate 268 .step : List ManagerEvent)

/-- Thirty-one packets, of which one is never passed on and no longer waits. -/
theorem nested_drains_lose_packet :
    ∃ m, Runs BoundedStep {} nestedRun m ∧ m.Idle ∧ (∀ p ∈ m.submitted, 0 ≤ p.1.timestamp) ∧
      ¬ ((m.submitted : Multiset Packet) = m.passed + m.waitingPackets) := by
  have hstep : ∀ (m : PacketManager) (e : ManagerEvent) (m' : PacketManager),
      m.exec e = .ok m' → decide (m'.submitted.length ≤ kMaxBuffer) = true →
        BoundedStep m e m' := by
    intro m e m' hexec htest
    exact ⟨hexec, (outstanding_card_le m').trans (of_decide_eq_true htest)⟩
  obtain ⟨m, run, hend⟩ := exists_run nestedRun (Q := fun m => decide (m.Idle ∧
      (∀ p ∈ m.submitted, 0 ≤ p.1.timestamp) ∧ m.state.readPos = m.state.writePos ∧
      dataPacket 9 Channel.kPose [1] ∈ m.submitted ∧ dataPacket 9 Channel.kPose [1] ∉ m.passed))
    hstep (by decide +kernel)
  obtain ⟨hidle, htimes, hempty, hsubmitted, hpassed⟩ := of_decide_eq_true hend
  refine ⟨m, run, hidle, htimes, ?_⟩
  intro h
  have hmem : dataPacket 9 Channel.kPose [1] ∈ (m.submitted : Multiset Packet) := hsubmitted
  have hwaiting : m.waitingPackets = 0 := by
    rw [waitingPackets, waiting, Ring.span_eq_zero hempty.ge, Ring.read_zero]
  rw [h, hwaiting, add_zero] at hmem
  exact hpassed hmem

end PacketManager

end BeyondProtocol
