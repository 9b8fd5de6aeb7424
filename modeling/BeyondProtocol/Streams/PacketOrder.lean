import BeyondProtocol.Framework.Sorting
import BeyondProtocol.Streams.PacketConservation

/-!
# The order in which packets leave the reordering buffer

What is passed on has the current timestamp, and the current timestamp goes up: to the
smallest one that waits in the ring when a frame is complete, to that of the next packet
when nothing waits. Neither looks at the packets a running drain has taken out of the
ring and not submitted yet. When a frame completes in the middle of a drain, a frame
behind it in the loop may be older than the one that becomes current; its packets are
then passed on as old ones.

A state without a current timestamp does not know what was passed on before.
-/

namespace BeyondProtocol

open Framework StreamState

namespace PacketManager

/-! ## §1  Steps that keep to the order -/

variable (m : PacketManager)

/-- The timestamp of the packet at a position. -/
def stamp (i : ℕ) : Int := (m.state.buffer.get i).1.timestamp

/-- A packet waits that is not younger than `t`. -/
def WaitsFor (t : Int) : Prop := ∃ w ∈ m.state.waiting, m.stamp w ≤ t

/-- There is no current timestamp and the packet's becomes it. -/
def Opens (p : Packet) : Prop := m.state.timestamp = -1 ∧ -1 < p.1.timestamp

/-- The packet is the last one of the current frame, and packets wait. -/
def Completes (p : Packet) : Prop :=
  m.state.timestamp = p.1.timestamp ∧
    (m.state.countProcessed p).processed = (m.state.countProcessed p).expected ∧
    m.state.readPos < m.state.writePos

/-- The packet goes into the ring, where too many EndFrames wait then. -/
def GivesUp (p : Packet) : Prop :=
  m.Buffers p ∧ (m.state.countEndFrame p 1).bufferedEndFrames > 4

/-- Where the call changes the current timestamp, nothing a running drain has yet to submit
is older than the new one. -/
def OrderlyCall (p : Packet) : Prop :=
  ∀ i ∈ m.unread,
    (m.Opens p → p.1.timestamp ≤ m.stamp i) ∧
    (m.Completes p → m.WaitsFor (m.stamp i)) ∧
    (m.GivesUp p → p.1.timestamp ≤ m.stamp i ∨ m.WaitsFor (m.stamp i))

/-- The packet that starts anew after a complete frame is not older than what was passed on. -/
def OrderlySubmit (p : Packet) : Prop :=
  m.state.timestamp = -1 → ∀ x ∈ m.passed, x.1.timestamp ≤ p.1.timestamp

def Orderly : ManagerEvent → Prop
  | .submit packets => m.OrderlySubmit packets
  | .step => ∀ r ∈ m.call, m.OrderlyCall (m.state.deref r)

instance (t : Int) : Decidable (m.WaitsFor t) := Multiset.decidableExistsMultiset

instance (p : Packet) : Decidable (m.Opens p) := by
  unfold Opens
  infer_instance

instance (p : Packet) : Decidable (m.Completes p) := by
  unfold Completes
  infer_instance

instance (p : Packet) : Decidable (m.GivesUp p) := by
  unfold GivesUp
  infer_instance

instance (p : Packet) : Decidable (m.OrderlyCall p) := by
  unfold OrderlyCall
  infer_instance

instance (p : Packet) : Decidable (m.OrderlySubmit p) := by
  unfold OrderlySubmit
  infer_instance

instance : DecidablePred m.Orderly
  | .submit packets => inferInstanceAs (Decidable (m.OrderlySubmit packets))
  | .step => inferInstanceAs (Decidable (∀ r ∈ m.call, m.OrderlyCall (m.state.deref r)))

end PacketManager

/-- Fewer than `kMaxBuffer` packets wait, and the caller submits nothing with a timestamp
below the current one. Timestamps are of type `int64_t`. -/
structure CallerStep (m : PacketManager) (e : ManagerEvent) (m' : PacketManager) : Prop where
  step : m.exec e = .ok m'
  waiting : m'.state.writePos < m'.state.readPos + kMaxBuffer
  notOld : ∀ p, e = .submit p → m.state.timestamp ≤ p.1.timestamp
  int64 : ∀ p, e = .submit p → p.1.timestamp ≤ int64Max

structure OrderlyStep (m : PacketManager) (e : ManagerEvent) (m' : PacketManager) : Prop
    extends CallerStep m e m' where
  orderly : m.Orderly e

/-! ## §2  The invariant -/

namespace PacketManager

/-- A timestamp that may still come. -/
structure Due (m : PacketManager) (t : Int) : Prop where
  current : m.state.timestamp ≤ t
  passed : ∀ x ∈ m.passed, x.1.timestamp ≤ t
  int64 : t ≤ int64Max

/-- The running call aside. -/
structure InOrder (m : PacketManager) : Prop where
  sorted : m.passed.Pairwise fun x y => x.1.timestamp ≤ y.1.timestamp
  floor : -1 ≤ m.state.timestamp
  ordered : m.state.readPos ≤ m.state.writePos
  int64 : ∀ x ∈ m.passed, x.1.timestamp ≤ int64Max
  held : ∀ i ∈ m.held, m.Due (m.stamp i)
  /-- Between frames the ring is empty. -/
  between : m.state.timestamp = -1 → m.state.readPos = m.state.writePos
  behind : m.state.timestamp ≠ -1 → ∀ x ∈ m.passed, x.1.timestamp ≤ m.state.timestamp

variable {m m' : PacketManager}

/-! ## §3  The operations -/

theorem minTimestamp_le {s : StreamState} {i : ℕ} (hi : i ∈ s.waiting) :
    s.minTimestamp ≤ (s.buffer.get i).1.timestamp :=
  (le_foldl_min.mp le_rfl).2 i hi

theorem le_minTimestamp {s : StreamState} {t : Int} (ht : t ≤ int64Max)
    (h : ∀ i ∈ s.waiting, t ≤ (s.buffer.get i).1.timestamp) : t ≤ s.minTimestamp :=
  le_foldl_min.mpr ⟨ht, h⟩

/-- A packet with the current timestamp is passed on. -/
theorem InOrder.cb {p : Packet} (h : m.InOrder) (hdue : m.Due p.1.timestamp)
    (hcurrent : m.state.timestamp = p.1.timestamp) : (m.cb p).InOrder := by
  have hpassed : ∀ t, (∀ x ∈ m.passed, x.1.timestamp ≤ t) → p.1.timestamp ≤ t →
      ∀ x ∈ (m.cb p).passed, x.1.timestamp ≤ t := by
    intro t hall hp x hx
    rcases List.mem_append.mp hx with hx | hx
    · exact hall x hx
    · rw [List.mem_singleton.mp hx]
      exact hp
  constructor
  · show (m.passed ++ [p]).Pairwise _
    rw [List.pairwise_append]
    refine ⟨h.sorted, List.pairwise_singleton _ _, ?_⟩
    intro x hx y hy
    rw [List.mem_singleton.mp hy]
    exact hdue.passed x hx
  · exact h.floor
  · exact h.ordered
  · exact hpassed _ h.int64 hdue.int64
  · intro i hi
    obtain ⟨hle, hall, hint⟩ := h.held i hi
    exact ⟨hle, hpassed _ hall (hcurrent ▸ hle), hint⟩
  · exact h.between
  · intro hne
    exact hpassed _ (h.behind hne) hcurrent.ge

/-- The current timestamp goes up to that of the packet in hand. -/
theorem InOrder.opens {p : Packet} (h : m.InOrder) (hdue : m.Due p.1.timestamp)
    (hopens : m.Opens p) (horderly : ∀ i ∈ m.unread, p.1.timestamp ≤ m.stamp i) (r : PacketRef) :
    { m with state := { m.state with timestamp := p.1.timestamp }, call := some r }.InOrder := by
  obtain ⟨hnone, hp⟩ := hopens
  have hempty : m.state.waiting = 0 := Ring.span_eq_zero (h.between hnone).ge
  have hheld : m.held = m.unread := by rw [PacketManager.held, hempty, add_zero]
  constructor
  · exact h.sorted
  · exact hp.le
  · exact h.ordered
  · exact h.int64
  · intro i hi
    have hi' : i ∈ m.held := hi
    obtain ⟨-, hall, hint⟩ := h.held i hi'
    exact ⟨horderly i (hheld ▸ hi'), hall, hint⟩
  · intro heq
    exact absurd heq (ne_of_gt hp)
  · intro _
    exact hdue.passed

/-- A drain makes the smallest timestamp that waits the current one. -/
theorem InOrder.drain (h : m.InOrder) (discard : Bool)
    (horderly : ∀ i ∈ m.unread, m.WaitsFor (m.stamp i)) : (m.drain discard).InOrder := by
  have hwaits : ∀ i ∈ m.held, m.state.minTimestamp ≤ m.stamp i := by
    intro i hi
    rcases Multiset.mem_add.mp hi with hi | hi
    · obtain ⟨w, hw, hle⟩ := horderly i hi
      exact (minTimestamp_le hw).trans hle
    · exact minTimestamp_le hi
  have hmin : ∀ t ≤ int64Max, (∀ i ∈ m.held, t ≤ m.stamp i) → t ≤ m.state.minTimestamp := by
    intro t ht hall
    exact le_minTimestamp ht fun i hi => hall i (Multiset.mem_add.mpr (.inr hi))
  constructor
  · exact h.sorted
  · exact hmin _ (by decide) fun i hi => h.floor.trans (h.held i hi).current
  · exact le_rfl
  · exact h.int64
  · intro i hi
    rw [held_drain] at hi
    obtain ⟨-, hall, hint⟩ := h.held i hi
    exact ⟨hwaits i hi, hall, hint⟩
  · intro _
    rfl
  · intro _ x hx
    exact hmin _ (h.int64 x hx) fun i hi => (h.held i hi).passed x hx

/-- The frame is complete and nothing waits. -/
theorem InOrder.finish (h : m.InOrder) (hempty : m.state.readPos = m.state.writePos) :
    { m with state := { m.state with timestamp := -1 } }.InOrder := by
  constructor
  · exact h.sorted
  · exact le_rfl
  · exact h.ordered
  · exact h.int64
  · intro i hi
    obtain ⟨hle, hall, hint⟩ := h.held i hi
    exact ⟨h.floor.trans hle, hall, hint⟩
  · intro _
    exact hempty
  · intro hne
    exact absurd rfl hne

/-- Only the timestamps in the buffer matter, not the counters. -/
theorem InOrder.congr (h : m.InOrder) (hstamp : ∀ i, m'.stamp i = m.stamp i)
    (hcurrent : m'.state.timestamp = m.state.timestamp)
    (hread : m'.state.readPos = m.state.readPos) (hwrite : m'.state.writePos = m.state.writePos)
    (hpending : ∀ i ∈ m'.unread, i ∈ m.unread) (hpassed : m'.passed = m.passed) :
    m'.InOrder := by
  constructor
  · rw [hpassed]
    exact h.sorted
  · rw [hcurrent]
    exact h.floor
  · rw [hread, hwrite]
    exact h.ordered
  · rw [hpassed]
    exact h.int64
  · intro i hi
    have hi' : i ∈ m.held := by
      rw [PacketManager.held, Multiset.mem_add, waiting, hread, hwrite] at hi
      exact Multiset.mem_add.mpr (hi.imp_left (hpending i))
    obtain ⟨hle, hall, hint⟩ := h.held i hi'
    rw [hstamp]
    exact ⟨hcurrent ▸ hle, hpassed ▸ hall, hint⟩
  · rw [hcurrent, hread, hwrite]
    exact h.between
  · rw [hcurrent, hpassed]
    exact h.behind

theorem stamp_clear (m : PacketManager) (i j : ℕ) :
    { m with state := m.state.clear i }.stamp j = m.stamp j := by
  show ((m.state.buffer.put i _).get j).1.timestamp = _
  by_cases hslot : Ring.slot kMaxBuffer j = Ring.slot kMaxBuffer i
  · rw [Ring.get_put_of_eq _ hslot, stamp, Ring.get_congr _ hslot]
  · rw [Ring.get_put_of_ne _ hslot]
    rfl

/-- A packet that is put into the ring shows at every position of its slot. -/
theorem stamp_store (m : PacketManager) (r : PacketRef) (j : ℕ) :
    { m with state := m.state.store r }.stamp j =
      if Ring.slot kMaxBuffer j = Ring.slot kMaxBuffer m.state.writePos then
        (m.state.deref r).1.timestamp
      else m.stamp j := by
  have hput : ∀ p, { m with state := m.state.store (.caller p) }.stamp j =
      if Ring.slot kMaxBuffer j = Ring.slot kMaxBuffer m.state.writePos then p.1.timestamp
      else m.stamp j := by
    intro p
    show ((m.state.buffer.put m.state.writePos p).get j).1.timestamp = _
    split
    · rename_i hslot
      rw [Ring.get_put_of_eq _ hslot]
    · rename_i hslot
      rw [Ring.get_put_of_ne _ hslot]
      rfl
  cases r with
  | caller p => exact hput p
  | slot i => exact (stamp_clear _ i j).trans (hput _)

/-- A packet of a later timestamp goes into the ring. -/
theorem InOrder.store {r : PacketRef} (h : m.InOrder) (hdue : m.Due (m.state.deref r).1.timestamp)
    (hcurrent : m.state.timestamp ≠ -1) : { m with state := m.state.store r }.InOrder := by
  set m' := { m with state := m.state.store r } with hm'
  have htime : m'.state.timestamp = m.state.timestamp := store_timestamp _ r
  have hread : m'.state.readPos = m.state.readPos := store_readPos _ r
  have hwrite : m'.state.writePos = m.state.writePos + 1 := store_writePos _ r
  constructor
  · exact h.sorted
  · rw [htime]
    exact h.floor
  · rw [hread, hwrite]
    exact h.ordered.trans (Nat.le_succ _)
  · exact h.int64
  · intro i hi
    have hdue' : m.Due (m'.stamp i) := by
      rw [held_store r h.ordered, Multiset.mem_cons] at hi
      rw [stamp_store]
      split
      · exact hdue
      · rename_i hslot
        apply h.held
        apply hi.resolve_left
        rintro rfl
        exact hslot rfl
    exact ⟨htime.trans_le hdue'.current, hdue'.passed, hdue'.int64⟩
  · intro heq
    exact absurd (htime.symm.trans heq) hcurrent
  · rw [htime]
    exact h.behind

/-! ## §4  The calls -/

theorem InOrder.submitCurrent {p : Packet} (h : m.InOrder) (hdue : m.Due p.1.timestamp)
    (hcurrent : m.state.timestamp = p.1.timestamp)
    (horderly : m.Completes p → ∀ i ∈ m.unread, m.WaitsFor (m.stamp i)) :
    (m.submitCurrent p).InOrder := by
  have hcb : (m.cb p).InOrder := h.cb hdue hcurrent
  unfold PacketManager.submitCurrent
  dsimp only
  split
  · rename_i hcomplete
    split
    · rename_i hwaiting
      apply InOrder.drain
      · exact hcb.congr (fun _ => rfl) rfl rfl rfl (fun _ hi => hi) rfl
      · exact horderly ⟨hcurrent, hcomplete, hwaiting⟩
    · rename_i hwaiting
      apply InOrder.finish (m := { m.cb p with state := { m.state.countProcessed p with
        processed := 0, expected := -1 } })
      · exact hcb.congr (fun _ => rfl) rfl rfl rfl (fun _ hi => hi) rfl
      · exact le_antisymm h.ordered (Nat.le_of_not_lt hwaiting)
  · exact hcb.congr (fun _ => rfl) rfl rfl rfl (fun _ hi => hi) rfl

theorem store_bufferedEndFrames (s : StreamState) (r : PacketRef) (p : Packet) (k : Int) :
    ((s.store r).countEndFrame p k).bufferedEndFrames =
      (s.countEndFrame p k).bufferedEndFrames := by
  unfold countEndFrame
  cases r <;> split <;> rfl

/-- A write that does not reach the packets that wait leaves what a drain may look for. -/
theorem waitsFor_store {r : PacketRef} {i : ℕ} (hordered : m.state.readPos ≤ m.state.writePos)
    (hroom : m.state.writePos < m.state.readPos + kMaxBuffer)
    (h : (m.state.deref r).1.timestamp ≤ m.stamp i ∨ m.WaitsFor (m.stamp i)) :
    { m with state := m.state.store r }.WaitsFor
      ({ m with state := m.state.store r }.stamp i) := by
  have hwaiting := waiting_store r hordered
  have hnew : { m with state := m.state.store r }.stamp m.state.writePos =
      (m.state.deref r).1.timestamp := by
    rw [stamp_store, if_pos rfl]
  have hmem : m.state.writePos ∈ (m.state.store r).waiting := by
    rw [hwaiting]
    exact Multiset.mem_cons_self _ _
  rw [stamp_store m r i]
  split
  · exact ⟨_, hmem, hnew.le⟩
  rcases h with h | ⟨w, hw, hle⟩
  · exact ⟨_, hmem, hnew.trans_le h⟩
  · refine ⟨w, by rw [hwaiting]; exact Multiset.mem_cons_of_mem hw, ?_⟩
    obtain ⟨hlow, hhigh⟩ := Ring.mem_span.mp hw
    have hslot : Ring.slot kMaxBuffer w ≠ Ring.slot kMaxBuffer m.state.writePos :=
      Ring.slot_ne_of_lt hhigh (by omega)
    rw [stamp_store, if_neg hslot]
    exact hle

theorem InOrder.submitLater {r : PacketRef} (h : m.InOrder)
    (hdue : m.Due (m.state.deref r).1.timestamp) (hbuffers : m.Buffers (m.state.deref r))
    (hroom : m.state.writePos < m.state.readPos + kMaxBuffer)
    (horderly : m.GivesUp (m.state.deref r) → ∀ i ∈ m.unread,
      (m.state.deref r).1.timestamp ≤ m.stamp i ∨ m.WaitsFor (m.stamp i)) :
    (m.submitLater r).InOrder := by
  have hstore : { m with state := m.state.store r }.InOrder := h.store hdue hbuffers.2
  have hcount :
      { m with state := (m.state.store r).countEndFrame (m.state.deref r) 1 }.InOrder := by
    apply hstore.congr
    · intro i
      show (((m.state.store r).countEndFrame _ _).buffer.get i).1.timestamp = _
      rw [countEndFrame_buffer]
      rfl
    · exact countEndFrame_timestamp _ _ _
    · exact countEndFrame_readPos _ _ _
    · exact countEndFrame_writePos _ _ _
    · exact fun _ hi => hi
    · rfl
  unfold PacketManager.submitLater
  dsimp only
  rw [store_bufferedEndFrames]
  split
  · rename_i hmany
    apply InOrder.drain
    · exact hcount.congr (fun _ => rfl) rfl rfl rfl (fun _ hi => hi) rfl
    · intro i hi
      have hwaits := waitsFor_store h.ordered hroom (horderly ⟨hbuffers, hmany⟩ i hi)
      unfold countEndFrame
      split
      · exact hwaits
      · exact hwaits
  · exact hcount

/-- The packet of the running call may be passed on next. -/
structure Delivering (m : PacketManager) : Prop where
  inOrder : m.InOrder
  due : ∀ r, m.call = some r → m.Due (m.state.deref r).1.timestamp

theorem InOrder.returned (h : m.InOrder) (hcall : m.call = none) : m.Delivering := by
  refine ⟨h, ?_⟩
  intro r hr
  rw [hcall] at hr
  cases hr

theorem Delivering.submit {r : PacketRef} (h : m.Delivering) (hcall : m.call = some r)
    (hroom : m.state.writePos < m.state.readPos + kMaxBuffer)
    (horderly : m.OrderlyCall (m.state.deref r)) : (m.submit r).Delivering := by
  have hdue := h.due r hcall
  have htaken : { m with call := none }.InOrder :=
    h.inOrder.congr (fun _ => rfl) rfl rfl rfl (fun _ hi => hi) rfl
  have hdue' : { m with call := none }.Due (m.state.deref r).1.timestamp :=
    ⟨hdue.current, hdue.passed, hdue.int64⟩
  unfold PacketManager.submit
  dsimp only
  split
  · rename_i hcurrent
    refine InOrder.returned ?_ (submitCurrent_call _ _)
    exact htaken.submitCurrent hdue' hcurrent fun hcompletes i hi => (horderly i hi).2.1 hcompletes
  split
  · rename_i hold
    exact absurd hdue.current (not_le_of_gt hold)
  split
  · rename_i hne _ hnone
    have hopens : m.Opens (m.state.deref r) := by
      have := hdue.current
      exact ⟨hnone, by omega⟩
    have hopened := htaken.opens hdue' hopens (fun i hi => (horderly i hi).1 hopens) r
    refine ⟨hopened, ?_⟩
    rintro _ ⟨⟩
    cases r with
    | caller p => exact ⟨le_rfl, hdue.passed, hdue.int64⟩
    | slot i => exact ⟨le_rfl, hdue.passed, hdue.int64⟩
  · rename_i hne hold hcurrent
    have hbuffers : m.Buffers (m.state.deref r) := ⟨by omega, hcurrent⟩
    refine InOrder.returned ?_ (submitLater_call _ _)
    exact htaken.submitLater hdue' hbuffers hroom fun hgives i hi => (horderly i hi).2.2 hgives

theorem mem_unread_of_rest {x : Pending} {rest : List Pending} (hpending : m.pending = x :: rest)
    {i : ℕ} (hi : i ∈ { m with pending := rest }.unread) : i ∈ m.unread := by
  rw [unread_cons hpending]
  exact Multiset.mem_add.mpr (.inr hi)

theorem Delivering.resume (h : m.Delivering) (hcall : m.call = none)
    (hstep : m.resume = some m') : m'.Delivering := by
  obtain ⟨hin, -⟩ := h
  unfold PacketManager.resume at hstep
  split at hstep
  · cases hstep
  · rename_i i rest hpending
    cases hstep
    refine InOrder.returned ?_ hcall
    exact hin.congr (stamp_clear m i) rfl rfl rfl (fun _ hj => mem_unread_of_rest hpending hj) rfl
  · rename_i i stop discard rest hpending
    split at hstep
    · rename_i hi
      cases hstep
      have hunread := unread_next hpending hi
      constructor
      · apply hin.congr
        · intro j
          show (((m.state.countEndFrame _ _).buffer.get j)).1.timestamp = _
          rw [countEndFrame_buffer]
          rfl
        · exact countEndFrame_timestamp _ _ _
        · exact countEndFrame_readPos _ _ _
        · exact countEndFrame_writePos _ _ _
        · intro j hj
          rw [hunread]
          exact Multiset.mem_cons_of_mem hj
        · rfl
      · rintro _ ⟨⟩
        have hmem : i ∈ m.held := by
          rw [held, hunread, Multiset.cons_add]
          exact Multiset.mem_cons_self _ _
        obtain ⟨hle, hall, hint⟩ := hin.held i hmem
        show Due _ ((m.state.countEndFrame _ _).buffer.get i).1.timestamp
        rw [countEndFrame_buffer]
        exact ⟨(countEndFrame_timestamp _ _ _).trans_le hle, hall, hint⟩
    · cases hstep
      refine InOrder.returned ?_ hcall
      exact hin.congr (fun _ => rfl) rfl rfl rfl (fun _ hj => mem_unread_of_rest hpending hj) rfl

/-- A packet the caller may submit. -/
theorem Delivering.submitted {p : Packet} (h : m.Delivering)
    (hle : m.state.timestamp ≤ p.1.timestamp) (hint : p.1.timestamp ≤ int64Max)
    (horderly : m.OrderlySubmit p) :
    { m with submitted := m.submitted ++ [p], call := some (.caller p) }.Delivering := by
  refine ⟨h.inOrder.congr (fun _ => rfl) rfl rfl rfl (fun _ hi => hi) rfl, ?_⟩
  rintro _ ⟨⟩
  refine ⟨hle, ?_, hint⟩
  by_cases hnone : m.state.timestamp = -1
  · exact horderly hnone
  · intro x hx
    exact (h.inOrder.behind hnone x hx).trans hle

theorem Delivering.exec {e : ManagerEvent} (h : m.Delivering)
    (hroom : m.state.writePos < m.state.readPos + kMaxBuffer) (hstep : OrderlyStep m e m') :
    m'.Delivering := by
  obtain ⟨p, rfl, -, rfl⟩ | ⟨r, rfl, hcall, rfl⟩ | ⟨rfl, hcall, hresume⟩ := exec_cases hstep.step
  · exact h.submitted (hstep.notOld p rfl) (hstep.int64 p rfl) hstep.orderly
  · exact h.submit hcall hroom (hstep.orderly r hcall)
  · exact h.resume hcall hresume

theorem delivering_init : Delivering {} := by
  refine InOrder.returned ?_ rfl
  constructor
  · exact List.Pairwise.nil
  · exact le_rfl
  · exact le_rfl
  · exact fun x hx => absurd hx List.not_mem_nil
  · exact fun i hi => absurd hi (Multiset.notMem_zero i)
  · exact fun _ => rfl
  · exact fun _ x hx => absurd hx List.not_mem_nil

/-- If nothing older waits in a running drain where the current timestamp changes, and no frame
starts behind one that is complete already, the callback sees the timestamps in order. -/
theorem passed_in_order {es : List ManagerEvent} {m : PacketManager}
    (run : Runs OrderlyStep {} es m) :
    m.passed.Pairwise fun x y => x.1.timestamp ≤ y.1.timestamp := by
  have h : m.Delivering ∧ m.state.writePos < m.state.readPos + kMaxBuffer := by
    apply run.invariant
    · exact ⟨delivering_init, by decide⟩
    · rintro m e m' ⟨h, hroom⟩ hstep
      exact ⟨h.exec hroom hstep, hstep.waiting⟩
  exact h.1.inOrder.sorted

/-! ## §5  Two runs -/

/-- What the caller's packet has to meet, seen from the call it leads to. -/
def Admits (m m' : PacketManager) : Prop :=
  ∀ r ∈ m'.call, (m'.state.deref r).1.timestamp ≤ int64Max ∧
    (m.Idle → m.state.timestamp ≤ (m'.state.deref r).1.timestamp ∧
      m.OrderlySubmit (m'.state.deref r))

instance (m m' : PacketManager) : Decidable (m.Admits m') := by
  unfold Admits
  infer_instance

theorem callerStep_of_admits {m m' : PacketManager} {e : ManagerEvent} (hexec : m.exec e = .ok m')
    (hwaiting : m'.state.writePos < m'.state.readPos + kMaxBuffer) (hadmits : m.Admits m') :
    CallerStep m e m' := by
  have hcaller : ∀ p, e = .submit p →
      m.state.timestamp ≤ p.1.timestamp ∧ p.1.timestamp ≤ int64Max := by
    intro p he
    obtain ⟨q, hq, hidle, rfl⟩ | ⟨r, hr, -⟩ | ⟨hr, -⟩ := exec_cases hexec
    · cases he.symm.trans hq
      obtain ⟨hint, hrest⟩ := hadmits _ rfl
      exact ⟨(hrest hidle).1, hint⟩
    · cases he.symm.trans hr
    · cases he.symm.trans hr
  exact ⟨hexec, hwaiting, fun p he => (hcaller p he).1, fun p he => (hcaller p he).2⟩

theorem orderly_of_admits {m m' : PacketManager} {e : ManagerEvent} (hexec : m.exec e = .ok m')
    (hadmits : m.Admits m') (hcall : m.Orderly .step) : m.Orderly e := by
  obtain ⟨p, rfl, hidle, rfl⟩ | ⟨r, rfl, -⟩ | ⟨rfl, -⟩ := exec_cases hexec
  · exact ((hadmits _ rfl).2 hidle).2
  · exact hcall
  · exact hcall

theorem passed_in_order_shortRun :
    ∃ m, Runs OrderlyStep {} shortRun m ∧
      m.passed.Pairwise (fun x y => x.1.timestamp ≤ y.1.timestamp) ∧ m.passed.length = 3 := by
  have hstep : ∀ (m : PacketManager) (e : ManagerEvent) (m' : PacketManager),
      m.exec e = .ok m' → decide (m'.state.writePos < m'.state.readPos + kMaxBuffer ∧
        m.Admits m' ∧ m.Orderly .step) = true → OrderlyStep m e m' := by
    intro m e m' hexec htest
    obtain ⟨hwaiting, hadmits, hcall⟩ := of_decide_eq_true htest
    exact ⟨callerStep_of_admits hexec hwaiting hadmits, orderly_of_admits hexec hadmits hcall⟩
  obtain ⟨m, run, hend⟩ := exists_run shortRun (Q := fun m => decide (m.passed.length = 3))
    hstep (by decide +kernel)
  exact ⟨m, run, passed_in_order run, of_decide_eq_true hend⟩

/-- Every timestamp has an EndFrame, which says how many packets there are of it. -/
def FramesComplete (ps : List Packet) : Prop :=
  ∀ p ∈ ps, (∃ q ∈ ps, q.1.isEndFrame = true ∧ q.1.timestamp = p.1.timestamp) ∧
    (p.1.isEndFrame = true →
      p.2.packetCount = ps.countP fun q => q.1.timestamp = p.1.timestamp)

instance (ps : List Packet) : Decidable (FramesComplete ps) := by
  unfold FramesComplete
  infer_instance

/-- While frame 0 is incomplete the EndFrame of frame 1, a packet of frame 3 and the EndFrame of
frame 2 wait in this order. -/
def interleavedRun : List ManagerEvent :=
  ([.submit (dataPacket 0 Channel.kColour [1]), .step, .step,
    .submit (endFrame 1 1), .step,
    .submit (dataPacket 3 Channel.kColour [2]), .step,
    .submit (endFrame 2 1), .step,
    .submit (endFrame 0 2)] : List ManagerEvent) ++
    (List.replicate 9 .step : List ManagerEvent) ++
    ([.submit (endFrame 3 2), .step] : List ManagerEvent)

/-- In the drain frame 1 completes and the packet behind it, of frame 3, becomes current. -/
theorem drain_passes_older_frame :
    ∃ m, Runs CallerStep {} interleavedRun m ∧ m.Idle ∧ FramesComplete m.submitted ∧
      m.passed.map (fun p => p.1.timestamp) = [0, 0, 1, 3, 2, 3] ∧
      ¬ m.passed.Pairwise fun x y => x.1.timestamp ≤ y.1.timestamp := by
  have hstep : ∀ (m : PacketManager) (e : ManagerEvent) (m' : PacketManager),
      m.exec e = .ok m' → decide (m'.state.writePos < m'.state.readPos + kMaxBuffer ∧
        m.Admits m') = true → CallerStep m e m' := by
    intro m e m' hexec htest
    obtain ⟨hwaiting, hadmits⟩ := of_decide_eq_true htest
    exact callerStep_of_admits hexec hwaiting hadmits
  obtain ⟨m, run, hend⟩ := exists_run interleavedRun (Q := fun m => decide (m.Idle ∧
      FramesComplete m.submitted ∧ m.passed.map (fun p => p.1.timestamp) = [0, 0, 1, 3, 2, 3]))
    hstep (by decide +kernel)
  obtain ⟨hidle, hcomplete, htimes⟩ := of_decide_eq_true hend
  refine ⟨m, run, hidle, hcomplete, htimes, ?_⟩
  intro hsorted
  have hmapped : (m.passed.map fun p => p.1.timestamp).Pairwise (· ≤ ·) :=
    List.pairwise_map.mpr hsorted
  rw [htimes] at hmapped
  revert hmapped
  decide

end PacketManager

end BeyondProtocol
