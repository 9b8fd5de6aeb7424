import BeyondProtocol.Streams.FileReplay

/-!
# The packet counts of generated EndFrames

While a frameset stays at a timestamp, `packet_counts` holds how many packets
each frame had at it. When the frameset moves on, the counts of the frames below
`frame_count` go out in EndFrames and start again.

The counts are wrong where something was counted and not started again: a file
that starts again keeps the counts of its last frame, and a frame that was
counted may not be below `frame_count`. They are also wrong where an EndFrame
cannot say them: a count that does not fit into eight bits, and a frame below
`frame_count` without an entry.
-/

namespace BeyondProtocol.File

open Framework

/-! ## §1  What an EndFrame should say -/

/-- The packet counts for frame `j`; packets of the whole frameset count for frame 0. -/
def countsFor (j : UInt8) (x : Packet) : Prop :=
  x.1.frameNumber = j ∨ j = 0 ∧ x.1.frameNumber = 255

instance (j : UInt8) (x : Packet) : Decidable (countsFor j x) :=
  inferInstanceAs (Decidable (_ ∨ _))

/-- The number of packets that went out for a frame at a timestamp. -/
def sentFor (log : List Emission) (sid j : UInt8) (t : Int) : Nat :=
  (Emission.packets log).countP fun x =>
    x.1.streamID = sid ∧ x.1.timestamp = t ∧ countsFor j x

/-- Every EndFrame that went out has the right count. -/
def CountsRight (log : List Emission) : Prop :=
  ∀ x, .endFrame x ∈ log →
    x.2.packetCount = 1 + sentFor log x.1.streamID x.1.frameNumber x.1.timestamp

theorem sentFor_append (log es : List Emission) (sid j : UInt8) (t : Int) :
    sentFor (log ++ es) sid j t = sentFor log sid j t + sentFor es sid j t := by
  rw [sentFor, Emission.packets_append, List.countP_append]
  rfl

theorem sentFor_endFrames {es : List Emission} (h : Emission.packets es = []) (sid j : UInt8)
    (t : Int) : sentFor es sid j t = 0 := by
  rw [sentFor, h]
  rfl

theorem sentFor_packet (x : Packet) (sid j : UInt8) (t : Int) :
    sentFor [.packet (played x)] sid j t =
      if x.1.streamID = sid ∧ x.1.timestamp = t ∧ countsFor j x then 1 else 0 := by
  show List.countP _ [played x] = _
  rw [List.countP_singleton]
  simp only [decide_eq_true_iff]
  rfl

theorem sentFor_eq_zero {log : List Emission} {sid j : UInt8} {t : Int}
    (h : ∀ x ∈ Emission.packets log, x.1.streamID = sid → x.1.timestamp ≠ t) :
    sentFor log sid j t = 0 := by
  rw [sentFor, List.countP_eq_zero]
  intro x hx
  simp only [decide_eq_true_iff]
  exact fun hmatch => h x hx hmatch.1 hmatch.2.1

/-! ## §2  Counting -/

/-- The entry of `packet_counts` for a packet. -/
def frameIndex (x : Packet) : Nat := if x.1.frameNumber < 255 then x.1.frameNumber.toNat else 0

theorem countsFor_iff {j : UInt8} (hj : j ≠ 255) (x : Packet) :
    countsFor j x ↔ frameIndex x = j.toNat := by
  have hlt := x.1.frameNumber.toNat_lt
  unfold countsFor frameIndex
  split_ifs with hframe
  · have hne : x.1.frameNumber ≠ 255 := fun h => by simp [h] at hframe
    simp only [hne, and_false, or_false]
    exact UInt8.toNat_inj.symm
  · have heq : x.1.frameNumber = 255 := by
      rw [UInt8.lt_iff_toNat_lt] at hframe
      refine UInt8.toNat_inj.mp ?_
      have : (255 : UInt8).toNat = 255 := rfl
      omega
    rw [heq]
    constructor
    · rintro (h | ⟨rfl, -⟩)
      · exact absurd h.symm hj
      · rfl
    · intro h
      have hzero : (0 : UInt8).toNat = j.toNat := h
      exact .inr ⟨(UInt8.toNat_inj.mp hzero).symm, rfl⟩

/-- The count of one frame. -/
def countAt (d : FramesetData) (j : Nat) : Nat := d.packetCounts.getD j 0

theorem countAt_modify (d : FramesetData) {n i : Nat} (hi : i < n) (j : Nat) :
    ((d.padded n).modify i (· + 1)).getD j 0 = countAt d j + if i = j then 1 else 0 := by
  have hpad : (d.padded n).getD j 0 = countAt d j := by
    unfold FramesetData.padded countAt
    rcases Nat.lt_or_ge j d.packetCounts.length with hj | hj
    · rw [List.getD_append _ _ _ _ hj]
    · rw [List.getD_append_right _ _ _ _ hj, List.getD_eq_default _ _ hj,
        List.getD_eq_getElem?_getD, List.getElem?_replicate]
      split_ifs <;> rfl
  have hlen : n ≤ (d.padded n).length := by
    unfold FramesetData.padded
    rw [List.length_append, List.length_replicate]
    omega
  rw [← hpad, List.getD_eq_getElem?_getD, List.getD_eq_getElem?_getD, List.getElem?_modify]
  split_ifs with hij
  · subst hij
    rw [List.getElem?_eq_getElem (by omega)]
    rfl
  · simp

/-- A packet that is counted adds one to the count of its frame. -/
theorem countAt_count {d : FramesetData} {x : Packet} (hx : x.1.isEndFrame = false)
    (hneeds : d.needsEndframe = true) (j : Nat) :
    countAt (d.count x) j = countAt d j + if frameIndex x = j then 1 else 0 := by
  unfold FramesetData.count frameIndex
  rw [if_neg (by simp [hx]), if_neg (by simp [hneeds])]
  by_cases hframe : x.1.frameNumber < 255
  · rw [if_pos hframe, if_pos hframe]
    exact countAt_modify d (Nat.lt_succ_self _) j
  · rw [if_neg hframe, if_neg hframe]
    exact countAt_modify d (lt_of_lt_of_le Nat.zero_lt_one (le_max_right _ _)) j

@[simp] theorem count_needsEndframe {d : FramesetData} {x : Packet} (hx : x.1.isEndFrame = false) :
    (d.count x).needsEndframe = d.needsEndframe := by
  unfold FramesetData.count
  rw [if_neg (by simp [hx])]
  split_ifs <;> rfl

/-- The EndFrames of a frameset can say all that was counted. -/
structure Sayable (d : FramesetData) : Prop where
  listed : d.frameCount ≤ d.packetCounts.length
  frames : d.frameCount ≤ 255
  fits : ∀ n ∈ d.packetCounts, n < 255
  covered : ∀ n ∈ d.packetCounts.drop d.frameCount, n = 0

/-- Nothing is counted. -/
def NothingCounted (d : FramesetData) : Prop := ∀ n ∈ d.packetCounts, n = 0

theorem countAt_of_forall {d : FramesetData} {P : Nat → Prop} (hzero : P 0)
    (h : ∀ n ∈ d.packetCounts, P n) (j : Nat) : P (countAt d j) := by
  unfold countAt
  rcases Nat.lt_or_ge j d.packetCounts.length with hj | hj
  · rw [List.getD_eq_getElem _ _ hj]
    exact h _ (List.getElem_mem hj)
  · rw [List.getD_eq_default _ _ hj]
    exact hzero

/-- Every one of `es` is an EndFrame with the right count for what went out at `t`. -/
def SaysCounts (log : List Emission) (sid : UInt8) (t : Int) (es : List Emission) : Prop :=
  ∀ e ∈ es, ∃ y, e = .endFrame y ∧ y.1.streamID = sid ∧ y.1.timestamp = t ∧
    y.2.packetCount = 1 + sentFor log sid y.1.frameNumber t

/-- EndFrames that can be said, where the counts agree with what went out. -/
theorem endFrames_says {d : FramesetData} {log : List Emission} {sid : UInt8} (h : Sayable d)
    (hcounts : ∀ j : UInt8, j ≠ 255 → countAt d j.toNat = sentFor log sid j d.timestamp) :
    ∃ d' es, d.endFrames sid = .ok (d', es) ∧ SaysCounts log sid d.timestamp es ∧
      NothingCounted d' ∧ d'.needsEndframe = d.needsEndframe := by
  unfold FramesetData.endFrames
  rw [if_neg (not_lt.mpr h.listed)]
  refine ⟨_, _, rfl, ?_, ?_, rfl⟩
  · intro e he
    obtain ⟨j, hj, rfl⟩ := List.mem_map.mp he
    have hj255 : j < 255 := lt_of_lt_of_le (List.mem_range.mp hj) h.frames
    have htoNat : (UInt8.ofNat j).toNat = j := UInt8.toNat_ofNat_of_lt' (by rw [UInt8.size]; omega)
    have hne : UInt8.ofNat j ≠ 255 := fun heq => by
      rw [heq] at htoNat
      exact absurd htoNat (by show ¬ 255 = j; omega)
    have hcount := hcounts (UInt8.ofNat j) hne
    rw [htoNat] at hcount
    refine ⟨_, rfl, rfl, rfl, ?_⟩
    have hfits : countAt d j < 255 := countAt_of_forall (P := (· < 255)) (by omega) h.fits j
    show (UInt8.ofNat (countAt d j + 1)).toNat = 1 + sentFor log sid (UInt8.ofNat j) d.timestamp
    rw [UInt8.toNat_ofNat_of_lt' (by rw [UInt8.size]; omega), ← hcount, Nat.add_comm]
  · intro n hn
    rcases List.mem_append.mp hn with hn | hn
    · exact List.eq_of_mem_replicate hn
    · exact h.covered n hn

/-! ## §3  The counts of a frameset along a pass -/

/-- What is known of a frameset when `log` went out in this pass: the counts are those of its
timestamp, and no EndFrame went out for it yet unless the pass is `closed`. -/
structure Counted (log : List Emission) (sid : UInt8) (closed : Prop) (d : FramesetData) :
    Prop where
  unseen : d.timestamp = 0 → ∀ x ∈ Emission.packets log, x.1.streamID ≠ sid
  reached : ∀ x ∈ Emission.packets log, x.1.streamID = sid → x.1.timestamp ≤ d.timestamp
  counts : d.needsEndframe = true → d.timestamp ≠ 0 → ∀ j : UInt8, j ≠ 255 →
    countAt d j.toNat = sentFor log sid j d.timestamp
  ended : ∀ y, .endFrame y ∈ log → y.1.streamID = sid →
    y.1.timestamp < d.timestamp ∧ d.timestamp ≠ 0 ∨ closed
  right : ∀ y, .endFrame y ∈ log → y.1.streamID = sid →
    y.2.packetCount = 1 + sentFor log sid y.1.frameNumber y.1.timestamp

namespace Counted

variable {log es : List Emission} {sid : UInt8} {closed closed' : Prop} {d d' : FramesetData}

theorem init (h : d.timestamp = 0) : Counted [] sid closed d :=
  ⟨fun _ => nofun, nofun, fun _ hts => absurd h hts, nofun, nofun⟩

theorem mono (h : Counted log sid closed d) (hclosed : closed → closed') :
    Counted log sid closed' d :=
  ⟨h.unseen, h.reached, h.counts, fun y hy hs => (h.ended y hy hs).imp_right hclosed, h.right⟩

/-- What goes out for another frameset. -/
theorem other (h : Counted log sid closed d)
    (hpackets : ∀ x ∈ Emission.packets es, x.1.streamID ≠ sid)
    (hends : ∀ y, .endFrame y ∈ es → y.1.streamID ≠ sid) : Counted (log ++ es) sid closed d := by
  have hsent : ∀ j t, sentFor (log ++ es) sid j t = sentFor log sid j t := by
    intro j t
    rw [sentFor_append, sentFor_eq_zero fun x hx hsid => absurd hsid (hpackets x hx), Nat.add_zero]
  have hold : ∀ y, .endFrame y ∈ log ++ es → y.1.streamID = sid → .endFrame y ∈ log := by
    intro y hy hs
    rcases List.mem_append.mp hy with hy | hy
    · exact hy
    · exact absurd hs (hends y hy)
  refine ⟨fun hts x hx => ?_, fun x hx hs => ?_, fun hneeds hts j hj => ?_,
    fun y hy hs => h.ended y (hold y hy hs) hs, fun y hy hs => ?_⟩
  · rw [Emission.packets_append, List.mem_append] at hx
    exact hx.elim (h.unseen hts x) (hpackets x)
  · rw [Emission.packets_append, List.mem_append] at hx
    exact hx.elim (fun hx => h.reached x hx hs) fun hx => absurd hs (hpackets x hx)
  · rw [hsent]
    exact h.counts hneeds hts j hj
  · rw [hsent]
    exact h.right y (hold y hy hs) hs

/-- A packet at the timestamp of the frameset. -/
theorem packet (h : Counted log sid False d) {x : Packet} (hsid : x.1.streamID = sid)
    (hts : x.1.timestamp = d.timestamp) (hzero : x.1.timestamp ≠ 0)
    (hx : x.1.isEndFrame = false) :
    Counted (log ++ [.packet (played x)]) sid False (d.count x) := by
  have hmem : ∀ y, .endFrame y ∈ log ++ [.packet (played x)] → .endFrame y ∈ log := by
    intro y hy
    simpa using hy
  refine ⟨fun h0 => ?_, fun y hy hs => ?_, fun hneeds _ j hj => ?_, fun y hy hs => ?_,
    fun y hy hs => ?_⟩
  · rw [count_timestamp, ← hts] at h0
    exact absurd h0 hzero
  · rw [count_timestamp]
    rw [Emission.packets_append, List.mem_append] at hy
    rcases hy with hy | hy
    · exact h.reached y hy hs
    · obtain rfl : y = played x := by simpa [Emission.packets] using hy
      exact hts.le
  · rw [count_needsEndframe hx] at hneeds
    rw [countAt_count hx hneeds, count_timestamp, sentFor_append, sentFor_packet,
      h.counts hneeds (hts ▸ hzero) j hj]
    simp only [hsid, hts, true_and, countsFor_iff hj]
  · rw [count_timestamp]
    exact h.ended y (hmem y hy) hs
  · -- the EndFrames that went out are for earlier timestamps
    obtain ⟨hlt, -⟩ := (h.ended y (hmem y hy) hs).resolve_right id
    rw [sentFor_append, sentFor_packet, if_neg (by omega), Nat.add_zero]
    exact h.right y (hmem y hy) hs

/-- The EndFrames of the frameset. -/
theorem ends (h : Counted log sid closed d) (htold : SaysCounts log sid d.timestamp es)
    (hd : d.timestamp < d'.timestamp ∧ d'.timestamp ≠ 0 ∨ closed' ∧ d'.timestamp = d.timestamp)
    (hclosed : closed → closed')
    (hcounts : d'.needsEndframe = true → d'.timestamp ≠ 0 → ∀ j : UInt8, j ≠ 255 →
      countAt d' j.toNat = sentFor log sid j d'.timestamp) :
    Counted (log ++ es) sid closed' d' := by
  have hnone : Emission.packets es = [] := by
    refine List.filterMap_eq_nil_iff.mpr fun e he => ?_
    obtain ⟨y, rfl, -⟩ := htold e he
    rfl
  have hsent : ∀ j t, sentFor (log ++ es) sid j t = sentFor log sid j t := by
    intro j t
    rw [sentFor_append, sentFor_endFrames hnone, Nat.add_zero]
  refine ⟨fun hts x hx => ?_, fun x hx hs => ?_, fun hneeds hts j hj => ?_, fun y hy hs => ?_,
    fun y hy hs => ?_⟩
  · rw [Emission.packets_append, hnone, List.append_nil] at hx
    rcases hd with ⟨-, hne⟩ | ⟨-, heq⟩
    · exact absurd hts hne
    · exact h.unseen (heq ▸ hts) x hx
  · rw [Emission.packets_append, hnone, List.append_nil] at hx
    have := h.reached x hx hs
    rcases hd with ⟨hlt, -⟩ | ⟨-, heq⟩
    · omega
    · rw [heq]
      exact this
  · rw [hsent]
    exact hcounts hneeds hts j hj
  · rcases List.mem_append.mp hy with hy | hy
    · rcases h.ended y hy hs with ⟨hlt, hne⟩ | hc
      · rcases hd with ⟨hlt', hne'⟩ | ⟨hc, -⟩
        · exact .inl ⟨hlt.trans hlt', hne'⟩
        · exact .inr hc
      · exact .inr (hclosed hc)
    · obtain ⟨z, hz, -, hts, -⟩ := htold _ hy
      cases hz
      rcases hd with ⟨hlt, hne⟩ | ⟨hc, -⟩
      · exact .inl ⟨hts.trans_lt hlt, hne⟩
      · exact .inr hc
  · rw [hsent]
    rcases List.mem_append.mp hy with hy | hy
    · exact h.right y hy hs
    · obtain ⟨z, hz, -, hts, hcount⟩ := htold _ hy
      cases hz
      rw [hts]
      exact hcount

end Counted

/-! ## §4  The counts along a tick -/

/-- Nothing is counted for a frameset that has no timestamp yet. -/
def Clean (d : FramesetData) : Prop :=
  d.needsEndframe = true → d.timestamp = 0 → NothingCounted d

/-- The condition on one turn of the loop, for the frameset of the packet as it is before: it has
no counts left over, and if it moves on its EndFrames can say what was counted. A packet at time
0 would look like no timestamp. -/
structure TurnSafe (ts : Int) (d : FramesetData) (x : Packet) : Prop where
  timed : x.1.timestamp ≠ 0
  clean : Clean d
  sayable : d.needsEndframe = true → x.1.timestamp ≤ ts → d.timestamp ≠ 0 →
    d.timestamp < x.1.timestamp → Sayable d

/-- The condition on all turns of the loop. -/
def LoopSafe (ts : Int) (size : Nat) : Nat → Framesets → List Packet → Prop
  | _, _, [] => True
  | complete, fs, x :: rest => TurnSafe ts (fs x.1.streamID) x ∧
      ∀ fs' complete' es, visit ts size complete fs x = .ok (fs', complete', es, true) →
        LoopSafe ts size complete' fs' rest

theorem Counted.started {log : List Emission} {sid : UInt8} {d : FramesetData} {x : Packet}
    (h : Counted log sid False d) (hclean : Clean d) (hx : x.1.timestamp ≠ 0) :
    Counted log sid False (d.started x) := by
  unfold FramesetData.started
  split_ifs with hts
  · have hunseen := h.unseen hts
    refine ⟨fun h0 => absurd h0 hx, fun y hy hs => absurd hs (hunseen y hy), ?_, ?_, h.right⟩
    · intro hneeds _ j _
      have hzero : countAt d j.toNat = 0 :=
        countAt_of_forall (P := (· = 0)) rfl (hclean hneeds hts) _
      rw [sentFor_eq_zero fun y hy hs => absurd hs (hunseen y hy)]
      exact hzero
    · intro y hy hs
      rcases h.ended y hy hs with ⟨-, hne⟩ | hfalse
      · exact absurd hts hne
      · exact hfalse.elim
  · exact h

/-- One frameset changes and the rest of what goes out is for it. -/
theorem counted_update {log es : List Emission} {sid : UInt8} {fs : Framesets} {d : FramesetData}
    {closed closed' : Prop} (h : ∀ s, Counted log s closed (fs s)) (hclosed : closed → closed')
    (hd : Counted (log ++ es) sid closed' d)
    (hpackets : ∀ x ∈ Emission.packets es, x.1.streamID = sid)
    (hends : ∀ y, .endFrame y ∈ es → y.1.streamID = sid) (s : UInt8) :
    Counted (log ++ es) s closed' (Function.update fs sid d s) := by
  by_cases hs : s = sid
  · rw [hs, Function.update_self]
    exact hd
  · rw [Function.update_of_ne hs]
    exact ((h s).mono hclosed).other (fun x hx heq => hs (heq.symm.trans (hpackets x hx)))
      fun y hy heq => hs (heq.symm.trans (hends y hy))

/-- A frameset that moves on to a later timestamp. -/
theorem finishFrame_counted {log : List Emission} {sid : UInt8} {d : FramesetData} {t : Int}
    (h : Counted log sid False d) (hlt : d.timestamp < t) (ht : t ≠ 0)
    (hsay : d.needsEndframe = true → d.timestamp ≠ 0 ∧ Sayable d) :
    ∃ d' es, d.finishFrame sid = .ok (d', es) ∧
      Counted (log ++ es) sid False { d' with timestamp := t } ∧ Emission.packets es = [] ∧
      ∀ y, .endFrame y ∈ es → y.1.streamID = sid := by
  unfold FramesetData.finishFrame
  have hlater : ∀ j, sentFor log sid j t = 0 := fun j =>
    sentFor_eq_zero fun x hx hs heq => by
      have := h.reached x hx hs
      omega
  split_ifs with hneeds
  · obtain ⟨hts, hsayable⟩ := hsay hneeds
    obtain ⟨d', es, hends, htold, hnothing, hneeds'⟩ :=
      endFrames_says hsayable (h.counts hneeds hts)
    refine ⟨d', es, hends, h.ends htold (.inl ⟨hlt, ht⟩) id ?_, (endFrames_spec hends).2.2, ?_⟩
    · intro _ _ j _
      rw [hlater]
      exact countAt_of_forall (P := (· = 0)) rfl hnothing _
    · intro y hy
      obtain ⟨z, hz, hs, -⟩ := htold _ hy
      cases hz
      exact hs
  · have hnone : SaysCounts log sid d.timestamp [] := nofun
    exact ⟨d, [], rfl, h.ends hnone (.inl ⟨hlt, ht⟩) id fun hn => absurd hn hneeds, rfl, nofun⟩

theorem visit_counted {ts : Int} {size complete : Nat} {fs : Framesets} {x : Packet}
    {log : List Emission} (h : ∀ s, Counted log s False (fs s)) (hx : x.1.isEndFrame = false)
    (hsafe : TurnSafe ts (fs x.1.streamID) x) :
    Ensures (· = .outOfRange) (visit ts size complete fs x)
      fun r => ∀ s, Counted (log ++ r.2.2.1) s False (r.1 s) := by
  have hstarted : Counted log x.1.streamID False ((fs x.1.streamID).started x) :=
    (h _).started hsafe.clean hsafe.timed
  have hown : ∀ y ∈ Emission.packets [Emission.packet (played x)],
      y.1.streamID = x.1.streamID := by
    intro y hy
    obtain rfl : y = played x := by simpa [Emission.packets] using hy
    rfl
  have hsilent : (∀ y ∈ Emission.packets [], y.1.streamID = x.1.streamID) ∧
      ∀ y, .endFrame y ∈ ([] : List Emission) → y.1.streamID = x.1.streamID := by
    simp [Emission.packets]
  have hfinish : ¬ ts < x.1.timestamp →
      ¬ x.1.timestamp ≤ ((fs x.1.streamID).started x).timestamp →
      ∃ d' es, ((fs x.1.streamID).started x).finishFrame x.1.streamID = .ok (d', es) ∧
        Counted (log ++ es) x.1.streamID False { d' with timestamp := x.1.timestamp } ∧
        Emission.packets es = [] ∧ ∀ y, .endFrame y ∈ es → y.1.streamID = x.1.streamID := by
    intro hts hlater
    refine finishFrame_counted hstarted (not_le.mp hlater) hsafe.timed fun hneeds => ?_
    -- the frameset has a timestamp already, or it would be at that of the packet
    unfold FramesetData.started at hlater hneeds ⊢
    split_ifs at hlater hneeds ⊢ with hzero
    · exact absurd le_rfl hlater
    · exact ⟨hzero, hsafe.sayable hneeds (not_lt.mp hts) hzero (not_le.mp hlater)⟩
  unfold visit
  dsimp only
  split_ifs with hts hold hnow hsize
  · exact .ok (counted_update h id (by simpa using hstarted) hsilent.1 hsilent.2)
  · exact .ok (counted_update h id (by simpa using hstarted) hsilent.1 hsilent.2)
  · exact .ok (counted_update h id
      (hstarted.packet rfl (le_antisymm hnow (not_lt.mp hold)) hsafe.timed hx) hown (by simp))
  · obtain ⟨d', ends, hends, hcounted, hnone, hsids⟩ := hfinish hts hnow
    rw [hends, ok_bind]
    exact .ok (counted_update h id hcounted (by simp [hnone]) hsids)
  · obtain ⟨d', ends, hends, hcounted, hnone, hsids⟩ := hfinish hts hnow
    rw [hends, ok_bind]
    have hpacket := hcounted.packet rfl rfl hsafe.timed hx
    rw [List.append_assoc] at hpacket
    refine .ok (counted_update h id hpacket ?_ fun y hy => hsids y (by simpa using hy))
    rw [Emission.packets_append, hnone]
    exact hown

theorem dispatch_counted {ts : Int} {size complete : Nat} {fs : Framesets} {data : List Packet}
    {log : List Emission} (h : ∀ s, Counted log s False (fs s))
    (hdata : ∀ x ∈ data, x.1.isEndFrame = false) (hsafe : LoopSafe ts size complete fs data) :
    Ensures (· = .outOfRange) (dispatch ts size complete fs data)
      fun r => (∀ s, Counted (log ++ r.2.1) s False (r.1 s)) ∧ r.2.2 ⊆ data := by
  induction data generalizing complete fs log with
  | nil => exact .ok ⟨by simpa using h, List.Subset.refl _⟩
  | cons x data ih =>
      obtain ⟨hturn, hloop⟩ := hsafe
      refine (visit_counted h (hdata x (by simp)) hturn).returned.bind ?_
      rintro ⟨fs₁, complete₁, es₁, more⟩ ⟨hvisit, hcounted⟩
      cases more with
      | false => exact .ok ⟨hcounted, List.Subset.refl _⟩
      | true =>
          refine (ih hcounted (fun y hy => hdata y (by simp [hy]))
            (hloop fs₁ complete₁ es₁ hvisit)).bind ?_
          rintro ⟨fs₂, es₂, rest⟩ ⟨hcounted₂, hrest⟩
          refine .ok ⟨?_, List.subset_cons_of_subset x hrest⟩
          simpa only [List.append_assoc] using hcounted₂

/-- The condition on a frameset of a static file that is played to its end. -/
def EndSafe (d : FramesetData) : Prop := d.needsEndframe = true → Clean d ∧ Sayable d

theorem staticEndFrame_counted {fs : Framesets} {sid : UInt8} {log : List Emission} {closed : Prop}
    (hclosed : closed) (h : ∀ s, Counted log s closed (fs s)) (hsafe : EndSafe (fs sid)) :
    Ensures (· = .outOfRange) (staticEndFrame fs sid)
      fun r => (∀ s, Counted (log ++ r.2) s closed (r.1 s)) ∧
        ∀ s, r.1 s = fs s ∨ (r.1 s).needsEndframe = false := by
  unfold staticEndFrame
  split_ifs with hneeds
  · exact .ok ⟨by simpa using h, fun _ => .inl rfl⟩
  · rw [Bool.not_eq_true', Bool.not_eq_false] at hneeds
    obtain ⟨hclean, hsay⟩ := hsafe hneeds
    have hcounts : ∀ j : UInt8, j ≠ 255 →
        countAt { fs sid with needsEndframe := false } j.toNat =
          sentFor log sid j (fs sid).timestamp := by
      intro j hj
      by_cases hts : (fs sid).timestamp = 0
      · rw [sentFor_eq_zero fun x hx hs => absurd hs ((h sid).unseen hts x hx)]
        exact countAt_of_forall (P := (· = 0)) rfl (hclean hneeds hts) _
      · exact (h sid).counts hneeds hts j hj
    have hsay' : Sayable { fs sid with needsEndframe := false } :=
      ⟨hsay.listed, hsay.frames, hsay.fits, hsay.covered⟩
    obtain ⟨d, es, hends, htold, -, hneeds'⟩ := endFrames_says hsay' hcounts
    obtain ⟨hts, -, hnone⟩ := endFrames_spec hends
    rw [hends, ok_bind]
    have hd : Counted (log ++ es) sid closed d :=
      (h sid).ends htold (.inr ⟨hclosed, hts⟩) id fun hn => by simp [hneeds'] at hn
    refine .ok ⟨counted_update h id hd (by simp [hnone]) fun y hy => ?_, fun s => ?_⟩
    · obtain ⟨z, hz, hs, -⟩ := htold _ hy
      cases hz
      exact hs
    · show Function.update fs sid d s = fs s ∨ (Function.update fs sid d s).needsEndframe = false
      by_cases hs : s = sid
      · rw [hs, Function.update_self]
        exact .inr hneeds'
      · rw [Function.update_of_ne hs]
        exact .inl rfl

theorem staticEndFrames_counted {fs : Framesets} {sids : List UInt8} {log : List Emission}
    {closed : Prop} (hclosed : closed) (h : ∀ s, Counted log s closed (fs s))
    (hsafe : ∀ s ∈ sids, EndSafe (fs s)) :
    Ensures (· = .outOfRange) (staticEndFrames fs sids)
      fun r => ∀ s, Counted (log ++ r.2) s closed (r.1 s) := by
  induction sids generalizing fs log with
  | nil => exact .ok (by simpa using h)
  | cons sid sids ih =>
      refine (staticEndFrame_counted hclosed h (hsafe sid (by simp))).bind ?_
      rintro ⟨fs₁, es₁⟩ ⟨hcounted, hkept⟩
      have hsafe₁ : ∀ s ∈ sids, EndSafe (fs₁ s) := by
        intro s hs hneeds
        rcases hkept s with heq | hoff
        · dsimp only at heq
          rw [heq] at hneeds ⊢
          exact hsafe s (by simp [hs]) hneeds
        · dsimp only at hoff
          rw [hneeds] at hoff
          cases hoff
      refine (ih hcounted hsafe₁).bind ?_
      rintro ⟨fs₂, es₂⟩ hcounted₂
      exact .ok (by simpa only [List.append_assoc] using hcounted₂)

/-- Reading ahead does not touch the counts. -/
theorem fillData_defined (f : File) :
    Ensures (· = .outOfRange) f.fillData fun f' => f.fillData = .ok f' := by
  have hint : ∀ i, Ensures (· = .outOfRange) (int64 i) fun _ => True := by
    intro i
    unfold int64
    split_ifs
    · exact .ok trivial
    · exact .error (by simp)
  have hread : ∀ extended xs,
      Ensures (· = .outOfRange) (f.readAhead extended xs) fun _ => True := by
    intro extended xs
    induction xs with
    | nil => exact .ok trivial
    | cons x xs ih =>
        refine Ensures.bind (P := fun _ => True) ?_ fun y _ => ?_
        · exact (hint _).bind fun _ _ => (hint _).bind fun _ _ => .ok trivial
        · dsimp only
          split_ifs
          · exact .ok trivial
          · exact ih.bind fun _ _ => .ok trivial
  have hfill : Ensures (· = .outOfRange) f.fillData fun _ => True := by
    refine (hint _).bind fun extended _ => ?_
    dsimp only
    split_ifs
    · exact .ok trivial
    · exact (hread _ _).bind fun _ _ => .ok trivial
  exact ⟨fun f' hf' => hf', hfill.2⟩

/-! ## §5  Runs over a file without EndFrames -/

/-- The condition on a tick: on each turn of its loop, and on each frameset of a static file that
this tick finds at its end. -/
structure TickSafe (f : File) (c : Tick) : Prop where
  loop : LoopSafe c.ts f.known.card 0 f.framesets f.data
  atEnd : ∀ fs es rest f₁,
    dispatch c.ts f.known.card 0 f.framesets f.data = .ok (fs, es, rest) →
    fillData { f with framesets := fs, data := rest } = .ok f₁ → f₁.isVideo = false →
    f₁.data = [] → Emission.packets es = [] ∨ c.doneFirst = true →
    ∀ s ∈ f₁.known, EndSafe (f₁.framesets s)

/-- Ticks that are left out need no condition. -/
def SafeStep (s : File × List Emission) (e : PlayEvent) (s' : File × List Emission) : Prop :=
  PlayStep s e s' ∧ ∀ c, e = .tick c → s.1.active = true → c.busy = false → TickSafe s.1 c

/-- The counts of all framesets when `log` went out in this pass. -/
structure Tallied (f : File) (log : List Emission) : Prop where
  counted : ∀ s, Counted log s (f.data = [] ∧ f.unread = []) (f.framesets s)
  plain : ∀ x ∈ f.waiting, x.1.isEndFrame = false
  source : ∀ x ∈ f.file, x.1.isEndFrame = false
  atEnd : f.readError = true → f.unread = []

theorem plain_waiting {f : File} : (∀ x ∈ f.waiting, x.1.isEndFrame = false) ↔
    (∀ x ∈ f.data, x.1.isEndFrame = false) ∧ ∀ x ∈ f.unread, x.1.isEndFrame = false := by
  simp only [waiting, List.mem_append, List.mem_map, or_imp, forall_and, forall_exists_index,
    and_imp, forall_apply_eq_imp_iff₂]
  exact Iff.rfl

theorem Tallied.countsRight {f : File} {log : List Emission} (h : Tallied f log) :
    CountsRight log :=
  fun x hx => (h.counted x.1.streamID).right x hx rfl

/-- The loop, in a pass that is closed only if there is nothing to do. -/
theorem dispatch_tallied {f : File} {c : Tick} {log : List Emission} (h : Tallied f log)
    (hsafe : LoopSafe c.ts f.known.card 0 f.framesets f.data) :
    Ensures (· = .outOfRange) (dispatch c.ts f.known.card 0 f.framesets f.data)
      fun r => (∀ s, Counted (log ++ r.2.1) s (r.2.2 = [] ∧ f.unread = []) (r.1 s)) ∧
        r.2.2 ⊆ f.data := by
  by_cases hdata : f.data = []
  · rw [hdata]
    refine .ok ⟨fun s => ?_, List.Subset.refl _⟩
    rw [List.append_nil]
    exact (h.counted s).mono fun hc => ⟨rfl, hc.2⟩
  · have hopen : ∀ s, Counted log s False (f.framesets s) :=
      fun s => (h.counted s).mono fun hc => hdata hc.1
    obtain ⟨hok, herror⟩ := dispatch_counted hopen (plain_waiting.mp h.plain).1 hsafe
    exact ⟨fun r hr => ⟨fun s => ((hok r hr).1 s).mono False.elim, (hok r hr).2⟩, herror⟩

theorem fillData_closed {f f' : File} (h : f.fillData = .ok f') (hunread : f.unread = []) :
    f'.data = f.data ∧ f'.unread = [] := by
  rcases fillData_cases h with ⟨-, rfl⟩ | ⟨extended, data, unread, ended, hread, rfl⟩
  · exact ⟨rfl, hunread⟩
  · rw [hunread] at hread
    cases hread
    exact ⟨List.append_nil _, rfl⟩

theorem finishStatic_tallied {f : File} {empty : Bool} {log : List Emission}
    (h : ∀ s, Counted log s (f.data = [] ∧ f.unread = []) (f.framesets s))
    (hempty : empty = true → f.data = [] ∧ f.unread = [])
    (hsafe : empty = true → f.isVideo = false → ∀ s ∈ f.known, EndSafe (f.framesets s)) :
    Ensures (· = .outOfRange) (f.finishStatic empty)
      fun r => ∀ s, Counted (log ++ r.2) s (f.data = [] ∧ f.unread = []) (r.1.framesets s) := by
  unfold finishStatic
  split_ifs with hstatic
  · simp only [Bool.and_eq_true, Bool.not_eq_true'] at hstatic
    have hknown : ∀ s ∈ f.known.sort, EndSafe (f.framesets s) :=
      fun s hs => hsafe hstatic.1 hstatic.2 s (by simpa using hs)
    exact (staticEndFrames_counted (hempty hstatic.1) h hknown).bind fun r hr => .ok hr
  · exact .ok (by simpa using h)

/-- **One tick** that meets the condition. -/
theorem tick_tallied {f : File} {c : Tick} {log : List Emission} (h : Tallied f log)
    (hsafe : f.active = true → c.busy = false → TickSafe f c) :
    Ensures (· = .outOfRange) (f.tick c)
      fun r => CountsRight (log ++ r.2.1) ∧
        Tallied r.1 (if r.2.2 then [] else log ++ r.2.1) := by
  unfold tick
  split_ifs with hskip
  · refine .ok ⟨?_, ?_⟩
    · simpa using h.countsRight
    · simpa using h
  · simp only [Bool.or_eq_true, Bool.not_eq_true', not_or, Bool.not_eq_true,
      Bool.not_eq_false] at hskip
    obtain ⟨hloop, hend⟩ := hsafe hskip.1 hskip.2
    refine (dispatch_tallied h hloop).returned.bind ?_
    rintro ⟨fs, es, rest⟩ ⟨hdispatch, hcounted, hrest⟩
    refine (fillData_defined _).bind fun f₁ hfill => ?_
    obtain ⟨hsame₁, hfs₁, hwaiting₁, hend₁, hempty₁⟩ := fillData_spec hfill h.atEnd
    have hcounted₁ : ∀ s, Counted (log ++ es) s (f₁.data = [] ∧ f₁.unread = [])
        (f₁.framesets s) := by
      intro s
      rw [hfs₁]
      refine (hcounted s).mono fun hc => ?_
      obtain ⟨hdata, hunread⟩ := fillData_closed hfill hc.2
      exact ⟨hdata.trans hc.1, hunread⟩
    refine (finishStatic_tallied hcounted₁ ?_ ?_).returned.bind ?_
    · intro hidle
      simp only [Bool.and_eq_true, List.isEmpty_iff] at hidle
      exact ⟨hidle.1, hempty₁ hidle.1⟩
    · intro hidle hvideo
      simp only [Bool.and_eq_true, Bool.or_eq_true, List.isEmpty_iff] at hidle
      exact hend fs es rest f₁ hdispatch hfill hvideo hidle.1 hidle.2
    · rintro ⟨f₂, ends⟩ ⟨hstatic, hcounted₂⟩
      obtain ⟨hsame₂, hdata₂, hunread₂, herror₂, -, -⟩ := finishStatic_spec hstatic
      have hwaiting₂ : f₂.waiting = f₁.waiting := by
        unfold waiting
        rw [hdata₂, hunread₂, hsame₂.shown]
      have hplain : ∀ x ∈ f₂.waiting, x.1.isEndFrame = false := by
        obtain ⟨hdata, hunread⟩ := plain_waiting.mp h.plain
        rw [hwaiting₂, hwaiting₁]
        exact plain_waiting.mpr ⟨fun x hx => hdata x (hrest hx), hunread⟩
      have htallied : Tallied f₂ (log ++ (es ++ ends)) := by
        refine ⟨?_, hplain, ?_, ?_⟩
        · rw [hdata₂, hunread₂, ← List.append_assoc]
          exact hcounted₂
        · rw [hsame₂.file, hsame₁.file]
          exact h.source
        · rw [herror₂, hunread₂]
          exact hend₁
      dsimp only
      split_ifs with hloops
      · refine .ok ⟨htallied.countsRight, fun s => .init rfl, ?_, htallied.source, nofun⟩
        exact plain_waiting.mpr ⟨(plain_waiting.mp hplain).1, htallied.source⟩
      · exact .ok ⟨htallied.countsRight, htallied⟩

theorem tallied_begin {file : List Packet} (hfile : ∀ x ∈ file, x.1.isEndFrame = false)
    (looping : Bool) (now : Int) : Tallied (begin { file := file, looping := looping } now) [] := by
  obtain ⟨hsource, hdata, hts⟩ := probe_begin file looping
  refine ⟨fun s => .init (hts s), ?_, ?_, nofun⟩
  · refine plain_waiting.mpr ⟨?_, ?_⟩
    · show ∀ x ∈ (probe file 1000 (-1000) _).1.data, _
      rw [hdata]
      exact nofun
    · show ∀ x ∈ (probe file 1000 (-1000) _).1.file, _
      rw [hsource]
      exact hfile
  · show ∀ x ∈ (probe file 1000 (-1000) _).1.file, _
    rw [hsource]
    exact hfile

/-- In a run all of whose ticks meet the condition, the generated EndFrames are right: those that
went out in the current pass, and those of a next tick that meets it. -/
theorem endFrames_counted {file : List Packet} (hfile : ∀ x ∈ file, x.1.isEndFrame = false)
    {looping : Bool} {now : Int} {events : List PlayEvent} {f : File} {log : List Emission}
    (run : Runs SafeStep (begin { file := file, looping := looping } now, []) events (f, log))
    {c : Tick} (hsafe : f.active = true → c.busy = false → TickSafe f c) :
    f.tick c ≠ .error .outOfRange ∧
      ∀ f' out looped, f.tick c = .ok (f', out, looped) → CountsRight (log ++ out) := by
  have htallied : Tallied f log := by
    refine run.invariant (I := fun s => Tallied s.1 s.2) (tallied_begin hfile looping now) ?_
    rintro ⟨f, log⟩ e ⟨f', log'⟩ h ⟨hstep, hsafe⟩
    cases e with
    | tick c =>
        obtain ⟨g, out, looped, htick, heq⟩ := hstep
        cases heq
        exact ((tick_tallied h (hsafe c rfl)).1 _ htick).2
    | setLooping value =>
        cases hstep
        exact ⟨h.counted, h.plain, h.source, h.atEnd⟩
  obtain ⟨hok, herror⟩ := tick_tallied htallied hsafe
  exact ⟨fun hout => herror _ hout rfl, fun f' out looped htick => (hok _ htick).1⟩

/-- The tick that plays the small recording meets the condition. -/
theorem recording_safe : TickSafe recordingRead { ts := 1040, now := 1040 } := by
  have hfresh : ∀ (d : FramesetData) (x : Packet), x.1.timestamp ≠ 0 → d.timestamp = 0 →
      d.packetCounts = [] → TurnSafe 1040 d x := by
    intro d x hx hts hcounts
    refine ⟨hx, fun _ _ n hn => ?_, fun _ _ hne => absurd hts hne⟩
    rw [hcounts] at hn
    cases hn
  refine ⟨⟨hfresh _ _ (by decide) rfl rfl, ?_⟩, ?_⟩
  · rintro _ _ _ ⟨⟩
    refine ⟨hfresh _ _ (by decide) rfl rfl, ?_⟩
    rintro _ _ _ ⟨⟩
    refine ⟨⟨by decide, fun _ => nofun, fun _ _ _ _ => ⟨by decide, by decide, ?_, ?_⟩⟩, ?_⟩
    · show ∀ n ∈ [1], n < 255
      decide
    · show ∀ n ∈ [], n = 0
      exact nofun
    · exact fun _ _ _ _ => trivial
  · rintro _ _ _ _ ⟨⟩ ⟨⟩ - - hidle
    rcases hidle with hidle | hidle <;> cases hidle

/-- Its EndFrame says two packets: the one of the frame and itself. -/
theorem endFrames_counted_recording :
    ∃ f out, recordingRead.tick { ts := 1040, now := 1040 } = .ok (f, out, false) ∧
      (∃ x, .endFrame x ∈ out ∧ x.2.packetCount = 2) ∧ CountsRight ([] ++ out) := by
  have hplain : ∀ x ∈ recording, x.1.isEndFrame = false := by decide
  have hfirst : Runs SafeStep (begin { file := recording } 1000, [])
      [.tick { ts := 1000, now := 1000 }] (recordingRead, []) := by
    refine Runs.init.snoc ⟨⟨_, _, _, rfl, rfl⟩, ?_⟩
    rintro _ ⟨⟩ - -
    refine ⟨trivial, ?_⟩
    rintro _ _ _ _ ⟨⟩ ⟨⟩ - hdata
    cases hdata
  obtain ⟨f, htick⟩ : ∃ f, recordingRead.tick { ts := 1040, now := 1040 } =
      .ok (f, (_ : List Emission), false) := ⟨_, rfl⟩
  have hright := (endFrames_counted hplain hfirst fun _ _ => recording_safe).2 f _ _ htick
  exact ⟨f, _, htick, ⟨_, List.mem_cons_of_mem _ (List.mem_cons_of_mem _ List.mem_cons_self), rfl⟩,
    hright⟩

/-! ## §6  A video in a loop -/

/-- A frame of a recording with one frame each second. -/
def videoPacket (k : Nat) : Packet :=
  ({ timestamp := 1000 * (k + 1), streamID := 0, frameNumber := 0, channel := Channel.kColour },
   { data := [1] })

def video : List Packet := (List.range' 0 995).map videoPacket

/-- The same packet in the buffer, in a pass that starts at `T`. -/
def buffered (T : Int) (k : Nat) : Packet :=
  ({ (videoPacket k).1 with timestamp := T + 1000 * k, hintCapability := 2 }, (videoPacket k).2)

/-- The stream while it plays the video. -/
def videoAt (T : Int) (d : FramesetData) (data unread : List Packet) (ended : Bool) : File :=
  { file := video, unread := unread, data := data
    framesets := Function.update (fun _ => {}) 0 d
    known := {0}, timestart := T, checked := true, active := true, isVideo := true
    readError := ended, looping := true }

/-- A tick late enough for everything in the buffer. -/
def lateTick (T : Int) : Tick := { ts := 2 ^ 40, now := T, doneFirst := true }

/-- The frameset at frame `k`. -/
def atFrame (T : Int) (k n : Nat) : FramesetData :=
  { frameCount := 1, packetCounts := [n], timestamp := T + 1000 * k, firstTs := 1000 }

theorem adjust_video {T : Int} {d : FramesetData} (hd : d.firstTs = 1000) (hT : 0 < T)
    (hT' : T < 2 ^ 30) {k : Nat} (hk : k ≤ 1000) (data unread : List Packet) (ended : Bool) :
    (videoAt T d data unread ended).adjust (videoPacket k) = .ok (buffered T k) := by
  have h1 : int64 (1000 * ((k : Int) + 1) - 1000) = .ok (1000 * (k : Int)) := by
    rw [show 1000 * ((k : Int) + 1) - 1000 = 1000 * k by ring]
    exact if_pos (by omega)
  have h2 : int64 (1000 * (k : Int) + T) = .ok (T + 1000 * (k : Int)) := by
    rw [add_comm]
    exact if_pos (by omega)
  unfold adjust videoAt videoPacket
  simp only [Function.update_self, hd, h1, h2, ok_bind]
  rfl

theorem extendedTs_video {T t : Int} {d : FramesetData}
    (ht : (if d.timestamp ≤ 0 then T else d.timestamp) = t)
    (hlo : 0 ≤ t) (hhi : t < 2 ^ 40) (data unread : List Packet) (ended : Bool) :
    (videoAt T d data unread ended).extendedTs = .ok (t + 200) := by
  unfold extendedTs int64 videoAt
  simp only [Finset.fold_singleton, Function.update_self, ht]
  rw [max_eq_left (by omega), if_pos (by omega)]

/-- The first packet of the buffer is due and the second ends the loop. -/
theorem dispatch_video {T : Int} {d : FramesetData} {k n : Nat} (hT : 0 < T) (hT' : T < 2 ^ 30)
    (hk : k ≤ 1000) (hts : (d.started (buffered T k)).timestamp = T + 1000 * k)
    (hcount : (d.started (buffered T k)).count (buffered T k) = atFrame T k n) :
    dispatch (2 ^ 40) 1 0 (Function.update (fun _ => {}) 0 d) [buffered T k, buffered T (k + 1)] =
      .ok (Function.update (fun _ => {}) 0 (atFrame T (k + 1) 0),
        [.packet (played (buffered T k)), .endFrame ((atFrame T k n).endFramePacket 0 0)],
        [buffered T (k + 1)]) := by
  have hfirst : visit (2 ^ 40) 1 0 (Function.update (fun _ => {}) 0 d) (buffered T k) =
      .ok (Function.update (fun _ => {}) 0 (atFrame T k n), 0, [.packet (played (buffered T k))],
        true) := by
    have hsid : (buffered T k).1.streamID = 0 := rfl
    have htime : (buffered T k).1.timestamp = T + 1000 * k := rfl
    unfold visit
    simp only [hsid, Function.update_self, htime, hts, hcount, Function.update_idem]
    rw [if_neg (by omega), if_neg (by omega), if_pos le_rfl]
  have hsecond : visit (2 ^ 40) 1 0 (Function.update (fun _ => {}) 0 (atFrame T k n))
      (buffered T (k + 1)) = .ok (Function.update (fun _ => {}) 0 (atFrame T (k + 1) 0), 1,
        [.endFrame ((atFrame T k n).endFramePacket 0 0)], false) := by
    have hsid : (buffered T (k + 1)).1.streamID = 0 := rfl
    have htime : (buffered T (k + 1)).1.timestamp = T + 1000 * ((k + 1 : Nat) : Int) := rfl
    have hstarted : (atFrame T k n).started (buffered T (k + 1)) = atFrame T k n := by
      refine if_neg ?_
      show ¬ T + 1000 * (k : Int) = 0
      omega
    have hts' : (atFrame T k n).timestamp = T + 1000 * (k : Int) := rfl
    unfold visit
    simp only [hsid, Function.update_self, htime, hstarted, hts', Function.update_idem]
    rw [if_neg (by omega), if_neg (by omega), if_neg (by omega)]
    rfl
  unfold dispatch
  rw [hfirst, ok_bind]
  show (dispatch (2 ^ 40) 1 0 _ [buffered T (k + 1)] >>= _) = _
  unfold dispatch
  rw [hsecond]
  rfl

theorem fillData_video {T t : Int} {d : FramesetData} {data unread later : List Packet}
    {ended : Bool} (new : List Packet) (ht : (if d.timestamp ≤ 0 then T else d.timestamp) = t)
    (hlo : 0 ≤ t) (hhi : t < 2 ^ 40) (hnew : ∀ x ∈ new, x.1.streamID = 0)
    (hread : (videoAt T d data unread false).readAhead (t + 200) unread =
      .ok (new, later, ended)) :
    (videoAt T d data unread false).fillData = .ok (videoAt T d (data ++ new) later ended) := by
  have hknown : ({0} : Finset UInt8) ∪ (new.map fun x => x.1.streamID).toFinset = {0} := by
    refine Finset.union_eq_left.mpr fun s hs => ?_
    obtain ⟨x, hx, rfl⟩ := List.mem_map.mp (List.mem_toFinset.mp hs)
    exact Finset.mem_singleton.mpr (hnew x hx)
  unfold fillData
  rw [extendedTs_video ht hlo hhi, ok_bind]
  show (readAhead (videoAt T d data unread false) (t + 200) unread >>= _) = _
  rw [hread]
  show Except.ok { videoAt T d (data ++ new) later ended with
    known := {0} ∪ (new.map fun x : Packet => x.1.streamID).toFinset } = _
  rw [hknown]
  rfl

/-- The tick after its loop, where packets stay in the buffer. -/
theorem tick_of_parts {T now : Int} {d d' : FramesetData}
    {data rest data' unread later : List Packet} {ended ended' : Bool} {es : List Emission}
    (hdispatch : dispatch (2 ^ 40) 1 0 (Function.update (fun _ => {}) 0 d) data =
      .ok (Function.update (fun _ => {}) 0 d', es, rest))
    (hfill : (videoAt T d' rest unread ended).fillData =
      .ok (videoAt T d' data' later ended')) (hdata : data' ≠ []) :
    (videoAt T d data unread ended).tick (lateTick now) =
      .ok (videoAt T d' data' later ended', es, false) := by
  unfold tick
  rw [if_neg (by simp [videoAt, lateTick])]
  show (dispatch (2 ^ 40) 1 0 _ _ >>= _) = _
  rw [show (videoAt T d data unread ended).framesets = Function.update (fun _ => {}) 0 d from rfl,
    show (videoAt T d data unread ended).data = data from rfl, hdispatch, ok_bind]
  show (fillData (videoAt T d' rest unread ended) >>= _) = _
  rw [hfill, ok_bind]
  cases data' with
  | nil => exact absurd rfl hdata
  | cons x data' =>
      show Except.ok (_, es ++ [], _) = _
      rw [List.append_nil]

/-- A tick in the middle of the video: one frame goes out, one is read. -/
theorem tick_video {T : Int} {d : FramesetData} {k n : Nat} (hT : 0 < T) (hT' : T < 2 ^ 30)
    (hk : k + 2 ≤ 1000) (hts : (d.started (buffered T k)).timestamp = T + 1000 * k)
    (hcount : (d.started (buffered T k)).count (buffered T k) = atFrame T k n) (l : List Packet)
    (now : Int) :
    (videoAt T d [buffered T k, buffered T (k + 1)] (videoPacket (k + 2) :: l) false).tick
        (lateTick now) =
      .ok (videoAt T (atFrame T (k + 1) 0) [buffered T (k + 1), buffered T (k + 2)] l false,
        [.packet (played (buffered T k)), .endFrame ((atFrame T k n).endFramePacket 0 0)],
        false) := by
  have htime : (atFrame T (k + 1) 0).timestamp = T + 1000 * ((k + 1 : Nat) : Int) := rfl
  refine tick_of_parts (dispatch_video hT hT' (by omega) hts hcount)
    (fillData_video (t := T + 1000 * ((k + 1 : Nat) : Int))
      [buffered T (k + 2)] (by rw [htime, if_neg (by omega)]) (by omega) (by omega)
      (by simp; rfl) ?_) (by simp)
  unfold readAhead
  rw [adjust_video rfl hT hT' hk, ok_bind]
  refine if_pos ?_
  show T + 1000 * ((k + 1 : Nat) : Int) + 200 < T + 1000 * ((k + 2 : Nat) : Int)
  omega

/-- The last tick but one. -/
theorem tick_last {T : Int} {d : FramesetData} {k n : Nat} (hT : 0 < T) (hT' : T < 2 ^ 30)
    (hk : k + 2 ≤ 1000) (hts : (d.started (buffered T k)).timestamp = T + 1000 * k)
    (hcount : (d.started (buffered T k)).count (buffered T k) = atFrame T k n) (now : Int) :
    (videoAt T d [buffered T k, buffered T (k + 1)] [] false).tick (lateTick now) =
      .ok (videoAt T (atFrame T (k + 1) 0) [buffered T (k + 1)] [] true,
        [.packet (played (buffered T k)), .endFrame ((atFrame T k n).endFramePacket 0 0)],
        false) := by
  have htime : (atFrame T (k + 1) 0).timestamp = T + 1000 * ((k + 1 : Nat) : Int) := rfl
  exact tick_of_parts (dispatch_video hT hT' (by omega) hts hcount)
    (fillData_video (t := T + 1000 * ((k + 1 : Nat) : Int)) []
      (by rw [htime, if_neg (by omega)]) (by omega) (by omega) nofun rfl) (by simp)

/-- The first tick of a pass reads two frames. -/
theorem tick_start {T : Int} {d : FramesetData} (hT : 0 < T) (hT' : T < 2 ^ 30)
    (hts : d.timestamp = 0) (hd : d.firstTs = 1000) (l : List Packet) (now : Int) :
    (videoAt T d [] (videoPacket 0 :: videoPacket 1 :: l) false).tick (lateTick now) =
      .ok (videoAt T d [buffered T 0, buffered T 1] l false, [], false) := by
  refine tick_of_parts rfl (fillData_video (t := T) [buffered T 0, buffered T 1]
    (by rw [hts, if_pos le_rfl]) (by omega) (by omega) (by simp; exact ⟨rfl, rfl⟩) ?_) (by simp)
  unfold readAhead
  rw [adjust_video hd hT hT' (by omega), ok_bind, if_neg]
  · unfold readAhead
    rw [adjust_video hd hT hT' (by omega), ok_bind, if_pos]
    · rfl
    · show T + 200 < T + 1000 * ((1 : Nat) : Int)
      omega
  · show ¬ T + 200 < T + 1000 * ((0 : Nat) : Int)
    omega

/-- The last frame goes out, its count stays, and the video starts again. -/
theorem tick_restart {T : Int} {k : Nat} (hT : 0 < T) (hT' : T < 2 ^ 30) (hk : k ≤ 1000)
    (now : Int) :
    (videoAt T (atFrame T k 0) [buffered T k] [] true).tick (lateTick now) =
      .ok (videoAt now { atFrame T k 1 with timestamp := 0 } [] video false,
        [.packet (played (buffered T k))], true) := by
  have hts : (atFrame T k 0).timestamp = T + 1000 * (k : Int) := rfl
  have hstarted : (atFrame T k 0).started (buffered T k) = atFrame T k 0 :=
    if_neg (by rw [hts]; omega)
  have hvisit : visit (2 ^ 40) 1 0 (Function.update (fun _ => {}) 0 (atFrame T k 0))
      (buffered T k) = .ok (Function.update (fun _ => {}) 0 (atFrame T k 1), 0,
        [.packet (played (buffered T k))], true) := by
    have hsid : (buffered T k).1.streamID = 0 := rfl
    have htime : (buffered T k).1.timestamp = T + 1000 * k := rfl
    unfold visit
    simp only [hsid, Function.update_self, htime, hstarted, hts, Function.update_idem]
    rw [if_neg (by omega), if_neg (by omega), if_pos le_rfl]
    rfl
  have hdispatch : dispatch (2 ^ 40) 1 0 (Function.update (fun _ => {}) 0 (atFrame T k 0))
      [buffered T k] = .ok (Function.update (fun _ => {}) 0 (atFrame T k 1),
        [.packet (played (buffered T k))], []) := by
    unfold dispatch
    rw [hvisit]
    rfl
  have hfill : (videoAt T (atFrame T k 1) [] [] true).fillData =
      .ok (videoAt T (atFrame T k 1) [] [] true) := by
    unfold fillData
    rw [extendedTs_video (t := T + 1000 * (k : Int)) (by
      show (if T + 1000 * (k : Int) ≤ 0 then T else T + 1000 * (k : Int)) = _
      rw [if_neg (by omega)]) (by omega) (by omega)]
    rfl
  have hrestart : (videoAt T (atFrame T k 1) [] [] true).restart now =
      videoAt now { atFrame T k 1 with timestamp := 0 } [] video false := by
    have hfs : (fun s => { (videoAt T (atFrame T k 1) [] [] true).framesets s with
        timestamp := 0 }) = Function.update (fun _ => {}) 0
          { atFrame T k 1 with timestamp := 0 } := by
      ext1 s
      by_cases hs : s = 0
      · rw [hs, Function.update_self]
        rfl
      · rw [Function.update_of_ne hs]
        show { Function.update (fun _ => ({} : FramesetData)) 0 (atFrame T k 1) s with
          timestamp := 0 } = _
        rw [Function.update_of_ne hs]
    unfold restart
    rw [hfs]
    rfl
  unfold tick
  rw [if_neg (by simp [videoAt, lateTick])]
  show (dispatch (2 ^ 40) 1 0 (Function.update (fun _ => {}) 0 (atFrame T k 0)) [buffered T k] >>=
    _) = _
  rw [hdispatch, ok_bind]
  show (fillData (videoAt T (atFrame T k 1) [] [] true) >>= _) = _
  rw [hfill, ok_bind]
  show Except.ok ((videoAt T (atFrame T k 1) [] [] true).restart now, _, _) = _
  rw [hrestart]
  rfl

theorem runs_tick {f f' : File} {c : Tick} {out : List Emission} {looped : Bool}
    (h : f.tick c = .ok (f', out, looped)) (log : List Emission) :
    Runs PlayStep (f, log) [.tick c] (f', if looped then [] else log ++ out) :=
  Runs.init.snoc ⟨f', out, looped, h, rfl⟩

/-- A pass from its second frame on, to the start of the next. -/
theorem runs_video {T : Int} (hT : 0 < T) (hT' : T < 2 ^ 30) {k m : Nat} (hk : k + 2 + m ≤ 1000)
    (log : List Emission) (now : Int) :
    ∃ events K, Runs PlayStep
      (videoAt T (atFrame T k 0) [buffered T k, buffered T (k + 1)]
        ((List.range' (k + 2) m).map videoPacket) false, log) events
      (videoAt now { atFrame T K 1 with timestamp := 0 } [] video false, []) := by
  have hstarted : ∀ k, (atFrame T k 0).started (buffered T k) = atFrame T k 0 :=
    fun k => if_neg (by show ¬ T + 1000 * (k : Int) = 0; omega)
  have hts : ((atFrame T k 0).started (buffered T k)).timestamp = T + 1000 * k := by
    rw [hstarted]
    rfl
  have hcount : ((atFrame T k 0).started (buffered T k)).count (buffered T k) = atFrame T k 1 := by
    rw [hstarted]
    rfl
  induction m generalizing k log with
  | zero =>
      have hlast := tick_last hT hT' hk hts hcount now
      have hrestart := tick_restart hT hT' (by omega : k + 1 ≤ 1000) now
      exact ⟨_, k + 1, (runs_tick hlast log).trans (runs_tick hrestart _)⟩
  | succ m ih =>
      have hnext := tick_video hT hT' (by omega) hts hcount
        ((List.range' (k + 3) m).map videoPacket) now
      obtain ⟨events, K, hrest⟩ := ih (k := k + 1) (by omega) _ (by rw [hstarted]; rfl)
        (by rw [hstarted]; rfl)
      exact ⟨_, K, (runs_tick hnext log).trans hrest⟩

/-- Probing the rest of the video. -/
theorem probe_video {f : File} (hfs : (f.framesets 0).firstTs = 1000) (hknown : f.known = {0})
    (k m count : Nat) (ts : Int) (hts : ts < 1000 * ((k : Int) + 1)) (hm : m ≤ count) :
    probe ((List.range' k m).map videoPacket) count ts f = (f, count - m) := by
  induction m generalizing k count ts with
  | zero => cases count <;> rfl
  | succ m ih =>
      obtain ⟨count, rfl⟩ : ∃ n, count = n + 1 := ⟨count - 1, by omega⟩
      have hnote : f.noteFrameset (videoPacket k) = f := by
        have hsid : (videoPacket k).1.streamID = 0 := rfl
        have hkeep : (if (f.framesets 0).firstTs < 0 then
            { f.framesets 0 with firstTs := (videoPacket k).1.timestamp } else f.framesets 0) =
            f.framesets 0 := if_neg (by omega)
        unfold noteFrameset
        simp only [hsid, hkeep, Function.update_eq_self]
        rw [hknown, Finset.insert_eq_of_mem (Finset.mem_singleton_self 0), ← hknown]
      rw [List.range'_succ, List.map_cons]
      unfold probe
      have htime : (videoPacket k).1.timestamp = 1000 * ((k : Int) + 1) := rfl
      have hvideo : (videoPacket k).1.channel.isVideo = true := rfl
      rw [if_pos (by simp only [htime, hvideo, Bool.and_true, Bool.and_eq_true,
        decide_eq_true_iff]; omega), hnote, ih (k + 1) count _ (by rw [htime]; push_cast; omega)
        (by omega), Nat.add_sub_add_right]

/-- The first tick may come at once: the video is recognised and starts with nothing counted. -/
theorem begin_video (now : Int) :
    begin { file := video, looping := true } now =
      videoAt now { firstTs := 1000 } [] video false := by
  have hprobe : probe video 1000 (-1000) { file := video, looping := true } =
      ({ file := video, looping := true, framesets := Function.update (fun _ => {}) 0
          { firstTs := 1000 }, known := {0} }, 5) := by
    have hsplit : video = videoPacket 0 :: (List.range' 1 994).map videoPacket := rfl
    rw [hsplit]
    unfold probe
    rw [if_pos (by decide), probe_video (by rfl) rfl 1 994 999 _ (by decide) (by omega)]
    rfl
  unfold begin checkFile
  simp only [hprobe]
  rfl

/-- A recording played in a loop: in the second pass the first EndFrame says three packets for a
frame of two, since the last frame of the first pass is counted again. -/
theorem looped_video_miscounts :
    (∀ x ∈ video, x.1.isEndFrame = false) ∧
      ∃ events f log, Runs PlayStep (begin { file := video, looping := true } 1000, []) events
        (f, log) ∧ ¬ CountsRight log := by
  refine ⟨fun x hx => ?_, ?_⟩
  · obtain ⟨k, -, rfl⟩ := List.mem_map.mp hx
    rfl
  · rw [begin_video]
    have hvideo : video = videoPacket 0 :: videoPacket 1 ::
        videoPacket 2 :: (List.range' 3 992).map videoPacket := rfl
    have hread := tick_start (T := 1000) (d := { firstTs := 1000 }) (by decide) (by decide) rfl rfl
      (videoPacket 2 :: (List.range' 3 992).map videoPacket) 0
    have hfirst := tick_video (T := 1000) (d := { firstTs := 1000 }) (k := 0) (n := 1) (by decide)
      (by decide) (by omega) rfl rfl ((List.range' 3 992).map videoPacket) 0
    obtain ⟨events, K, hpass⟩ := runs_video (T := 1000) (k := 1) (m := 992) (by decide) (by decide)
      (by omega) (([] ++ []) ++ [.packet (played (buffered 1000 0)),
        .endFrame ((atFrame 1000 0 1).endFramePacket 0 0)]) 2000000
    have hread' := tick_start (T := 2000000) (d := { atFrame 1000 K 1 with timestamp := 0 })
      (by decide) (by decide) rfl rfl (videoPacket 2 :: (List.range' 3 992).map videoPacket) 0
    have hsecond := tick_video (T := 2000000) (d := { atFrame 1000 K 1 with timestamp := 0 })
      (k := 0) (n := 2) (by decide) (by decide) (by omega) rfl rfl
      ((List.range' 3 992).map videoPacket) 0
    rw [← hvideo] at hread hread'
    refine ⟨_, _, _, ((runs_tick hread []).trans (runs_tick hfirst _)).trans
      (hpass.trans ((runs_tick hread' _).trans (runs_tick hsecond _))), ?_⟩
    intro hright
    have hcount := hright ((atFrame 2000000 0 2).endFramePacket 0 0) (by simp)
    exact absurd hcount (by decide)

end BeyondProtocol.File
