import BeyondProtocol.Net.EndFrames

/-!
# How large a frame may be

`queuePacket_` counts the packets of a timestamp up, and the EndFrame takes the number it
announces off the count, in whatever order they arrive. That number has eight bits, as it
shares its byte with the data flags: the sender's count arrives modulo 256.
-/

namespace BeyondProtocol

open Framework

/-! ## §1  The count in a receiver -/

/-- The packets of a frame and a timestamp that arrived, in order. -/
def Receiver.arrived (r : Receiver) (f : FrameID) (t : Int) : List Packet :=
  r.queued.filter fun x => x.1.frame = f ∧ x.1.timestamp = t

/-- Whatever the worker does in between, the count is the balance of what arrived. -/
theorem incomplete_eq_balance_arrived {es : List ReceiverEvent} {r : Receiver}
    (run : Runs ReceiverStep {} es r) (f : FrameID) (t : Int) :
    r.recv.incomplete f t = stored (balance (r.arrived f t)) := by
  refine run.invariant (I := fun r => r.recv.incomplete f t = stored (balance (r.arrived f t)))
    (by simp [RecvBuffer.incomplete, Receiver.arrived, stored]) ?_
  intro r e r' h hstep
  cases hstep with
  | emplace => exact (RecvBuffer.incomplete_emplaceQueue _ _ _ _ f t).trans h
  | @insert spkt dpkt hmem =>
      show (r.recv.insertPacket spkt dpkt).incomplete f t = _
      rw [RecvBuffer.incomplete_insertPacket hmem, h, stored_getD]
      simp only [Receiver.arrived, List.filter_append, balance_append]
      by_cases hx : spkt.frame = f ∧ spkt.timestamp = t
      · simp [hx, balance]
      · simp [hx]
  | visit hw => exact (RecvBuffer.incomplete_releaseFrom _ _ _ f t).trans h
  | setBuffering | allowFrameInterleaving | wake | dispatch | task | done => exact h

/-- Packets of a frame that has a queue can be queued one after the other. -/
theorem run_insert {r₀ r : Receiver} {es : List ReceiverEvent} (run : Runs ReceiverStep r₀ es r)
    {f : FrameID} (hf : f ∈ r.recv.packetQueue) {xs : List Packet}
    (hxs : ∀ x ∈ xs, x.1.frame = f) :
    ∃ es' r', Runs ReceiverStep r₀ es' r' ∧ f ∈ r'.recv.packetQueue ∧
      r'.queued = r.queued ++ xs := by
  induction xs using List.reverseRecOn with
  | nil => exact ⟨es, r, run, hf, by simp⟩
  | append_singleton xs x ih =>
      obtain ⟨es', r', run', hf', hqueued⟩ := ih fun y hy => hxs y (by simp [hy])
      have hx : x.1.frame = f := hxs x (by simp)
      refine ⟨_, _, run'.snoc (@ReceiverStep.insert r' x.1 x.2 (hx ▸ hf')), ?_, ?_⟩
      · rw [← AList.lookup_isSome] at hf' ⊢
        rw [RecvBuffer.lookup_insertPacket, Option.isSome_map]
        exact hf'
      · rw [hqueued, List.append_assoc]

/-- Any packets of one frame can arrive in any order. -/
theorem exists_run_queued {f : FrameID} (xs : List Packet) (hxs : ∀ x ∈ xs, x.1.frame = f) :
    ∃ es r, Runs ReceiverStep {} es r ∧ r.queued = xs := by
  cases xs with
  | nil => exact ⟨[], {}, .init, rfl⟩
  | cons x xs =>
      have run : Runs ReceiverStep {} _ _ :=
        Runs.init.snoc (@ReceiverStep.emplace _ x.1 0 0)
      have hmem := RecvBuffer.mem_emplaceQueue {} 0 0 x.1
      rw [hxs x (by simp)] at hmem
      obtain ⟨es, r, hrun, -, hqueued⟩ := run_insert run hmem hxs
      exact ⟨es, r, hrun, hqueued⟩

/-! ## §2  Frames of every size -/

/-- The `n` packets of a frame and a timestamp, in the order of arrival. The sender sets
the count of the EndFrame from `n`. -/
structure FrameOf (f : FrameID) (t : Int) (n : ℕ) (order : List Packet) : Prop where
  place : ∀ x ∈ order, x.1.frame = f ∧ x.1.timestamp = t
  size : order.length = n
  one : order.countP (fun x => x.1.isEndFrame) = 1
  count : ∀ x ∈ order, x.1.isEndFrame = true → x.2.dataFlags = UInt8.ofNat n

/-- The timestamp is marked incomplete from its first packet on until the last one is in. -/
def DetectsCompletion (f : FrameID) (t : Int) (order : List Packet) : Prop :=
  ∀ es r pre post, Runs ReceiverStep {} es r → order = pre ++ post → pre ≠ [] →
    r.arrived f t = pre → ((r.recv.incomplete f t).isSome = true ↔ post ≠ [])

theorem FrameOf.balance_before {f : FrameID} {t : Int} {n : ℕ} {pre post : List Packet}
    (h : FrameOf f t n (pre ++ post)) :
    balance pre = pre.length - ((n % 256 : ℕ) : Int) * pre.countP fun x => x.1.isEndFrame := by
  refine balance_eq fun x hx hend => ?_
  rw [DataPacket.packetCount, h.count x (List.mem_append_left _ hx) hend]
  exact UInt8.toNat_ofNat'

/-- **Completeness is detected for frames of up to 255 packets**, in every order of arrival,
and of larger frames in none. -/
theorem detectsCompletion_iff {f : FrameID} {t : Int} {n : ℕ} {order : List Packet}
    (h : FrameOf f t n order) : DetectsCompletion f t order ↔ n ≤ 255 := by
  constructor
  · intro hdetects
    obtain ⟨es, r, run, hqueued⟩ := exists_run_queued order fun x hx => (h.place x hx).1
    have harrived : r.arrived f t = order := by
      rw [Receiver.arrived, hqueued, List.filter_eq_self]
      exact fun x hx => decide_eq_true (h.place x hx)
    have hne : order ≠ [] := by
      rintro rfl
      exact absurd h.one (by simp)
    have hlast := hdetects es r order [] run (by simp) hne harrived
    have hnone : r.recv.incomplete f t = none := by
      simpa using hlast
    rw [incomplete_eq_balance_arrived run, harrived, stored_eq_none] at hnone
    have hall : FrameOf f t n (order ++ []) := by simpa using h
    have hbalance := hall.balance_before
    rw [hnone, h.one, h.size] at hbalance
    push_cast at hbalance
    omega
  · rintro hn es r pre post run rfl hne harrived
    rw [incomplete_eq_balance_arrived run, harrived, ← Option.ne_none_iff_isSome, Ne,
      stored_eq_none, h.balance_before, Nat.mod_eq_of_lt (Nat.lt_succ_of_le hn)]
    have hsize := h.size
    have hone := h.one
    rw [List.length_append] at hsize
    rw [List.countP_append] at hone
    have hpre : pre.length ≠ 0 := fun h0 => hne (List.length_eq_zero_iff.mp h0)
    have hpost : post.countP (fun x => x.1.isEndFrame) ≤ post.length := List.countP_le_length
    rw [Ne, ← List.length_eq_zero_iff]
    -- the EndFrame is in already, or among what is still to come
    rcases Nat.le_one_iff_eq_zero_or_eq_one.mp (hone ▸ Nat.le_add_right _ _) with hc | hc
    · rw [hc]
      push_cast
      omega
    · rw [hc]
      push_cast
      omega

/-- The colour packet and its EndFrame, the EndFrame first. -/
theorem frameOf_pair : FrameOf ⟨0⟩ 40 2 [endOfPair, colourOfPair] where
  place := by decide
  size := rfl
  one := by decide
  count := by decide

theorem detectsCompletion_pair : DetectsCompletion ⟨0⟩ 40 [endOfPair, colourOfPair] :=
  (detectsCompletion_iff frameOf_pair).mpr (by decide)

/-- A frame of 256 packets. -/
def largeFrame : List Packet :=
  List.replicate 255 colourOfPair ++
    [(⟨40, 0, 0, Channel.kEndFrame, 0, 0, 0⟩, { dataFlags := UInt8.ofNat 256 })]

theorem frameOf_large : FrameOf ⟨0⟩ 40 256 largeFrame where
  place x hx := by
    rcases List.mem_append.mp hx with hx | hx
    · rw [List.eq_of_mem_replicate hx]
      decide
    · rw [List.mem_singleton.mp hx]
      decide
  size := by
    rw [largeFrame, List.length_append, List.length_replicate]
    rfl
  one := by
    rw [largeFrame, List.countP_append, List.countP_replicate]
    decide
  count x hx hend := by
    rcases List.mem_append.mp hx with hx | hx
    · rw [List.eq_of_mem_replicate hx] at hend
      exact absurd hend (by decide)
    · rw [List.mem_singleton.mp hx]

/-- All 256 packets have arrived, and the count stands at 256. -/
theorem large_frame_never_complete : FrameOf ⟨0⟩ 40 256 largeFrame ∧
    (∃ es r, Runs ReceiverStep {} es r ∧ r.arrived ⟨0⟩ 40 = largeFrame ∧
      r.recv.incomplete ⟨0⟩ 40 = some 256) ∧ ¬ DetectsCompletion ⟨0⟩ 40 largeFrame := by
  obtain ⟨es, r, run, hqueued⟩ := exists_run_queued largeFrame fun x hx =>
    (frameOf_large.place x hx).1
  have harrived : r.arrived ⟨0⟩ 40 = largeFrame := by
    rw [Receiver.arrived, hqueued, List.filter_eq_self]
    exact fun x hx => decide_eq_true (frameOf_large.place x hx)
  have hbalance : balance largeFrame = 256 := by
    have hall : FrameOf ⟨0⟩ 40 256 (largeFrame ++ []) := by simpa using frameOf_large
    have h := hall.balance_before
    rw [frameOf_large.one, frameOf_large.size] at h
    exact h
  have hcount : r.recv.incomplete ⟨0⟩ 40 = some 256 := by
    rw [incomplete_eq_balance_arrived run, harrived, hbalance]
    rfl
  refine ⟨frameOf_large, ⟨es, r, run, harrived, hcount⟩, fun hdetects => ?_⟩
  have hne : largeFrame ≠ [] := List.append_ne_nil_of_right_ne_nil _ (List.cons_ne_nil _ _)
  have hlast := hdetects es r largeFrame [] run (List.append_nil _).symm hne harrived
  rw [hcount] at hlast
  exact hlast.mp rfl rfl

end BeyondProtocol
