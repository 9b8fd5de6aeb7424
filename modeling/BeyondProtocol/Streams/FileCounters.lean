import BeyondProtocol.Streams.FileEndFrames

/-!
# The counters of a file stay in range

The EndFrame loops read `packet_counts` for each frame below `frame_count`. A packet of a frame
raises `frame_count` by the frames it includes, and gives `packet_counts` an entry for its own
frame only: counting keeps the entries in range as long as no packet includes a frame that has no
entry by then.
-/

namespace BeyondProtocol.File

open Framework

/-! ## §1  Counting -/

/-- There is an entry for each frame. -/
def Listed (d : FramesetData) : Prop := d.frameCount ≤ d.packetCounts.length

/-- A packet that is counted includes frames with entries only, its own among them. -/
def Announced (d : FramesetData) (x : Packet) : Prop :=
  x.1.isEndFrame = false → d.needsEndframe = true → x.1.frameNumber < 255 →
    x.1.frameNumber.toNat + x.2.frameCount.toNat ≤
      max d.packetCounts.length (x.1.frameNumber.toNat + 1)

theorem length_padded (d : FramesetData) (n : Nat) :
    (d.padded n).length = max d.packetCounts.length n := by
  rw [FramesetData.padded, List.length_append, List.length_replicate]
  omega

/-- Counting a packet keeps the entries in range exactly if its frames have entries. -/
theorem count_listed_iff {d : FramesetData} {x : Packet} (h : Listed d) :
    Listed (d.count x) ↔ Announced d x := by
  unfold Listed at h
  unfold FramesetData.count Announced
  by_cases hend : x.1.isEndFrame = true
  · rw [if_pos hend]
    exact iff_of_true h fun hfalse => absurd hend (by simp [hfalse])
  · rw [if_neg hend]
    by_cases hneeds : d.needsEndframe = true
    · rw [if_neg (by simp [hneeds])]
      by_cases hframe : x.1.frameNumber < 255
      · rw [if_pos hframe]
        show max d.frameCount _ ≤ (List.modify _ _ _).length ↔ _
        rw [List.length_modify, length_padded, max_le_iff]
        constructor
        · exact fun hle _ _ _ => hle.2
        · exact fun hle => ⟨le_max_of_le_left h, hle (by simpa using hend) hneeds hframe⟩
      · rw [if_neg hframe]
        refine iff_of_true ?_ fun _ _ hlt => absurd hlt hframe
        show max d.frameCount 1 ≤ (List.modify _ _ _).length
        rw [List.length_modify, length_padded]
        exact le_max_right _ _
    · rw [if_pos (by simpa using hneeds)]
      exact iff_of_true h fun _ hneeds' => absurd hneeds' hneeds

/-- With an entry for each frame the EndFrames can be made, and keep the entries. -/
theorem endFrames_listed {d : FramesetData} (h : Listed d) (sid : UInt8) :
    ∃ d' es, d.endFrames sid = .ok (d', es) ∧ Listed d' ∧
      d'.packetCounts.length = d.packetCounts.length ∧ d'.needsEndframe = d.needsEndframe := by
  unfold FramesetData.endFrames
  rw [if_neg (not_lt.mpr h)]
  have hlength : (List.replicate d.frameCount 0 ++ d.packetCounts.drop d.frameCount).length =
      d.packetCounts.length := by
    rw [List.length_append, List.length_replicate, List.length_drop]
    exact Nat.add_sub_cancel' h
  refine ⟨_, _, rfl, ?_, hlength, rfl⟩
  show d.frameCount ≤ List.length _
  rw [hlength]
  exact h

theorem finishFrame_listed {d : FramesetData} (h : Listed d) (sid : UInt8) :
    ∃ d' es, d.finishFrame sid = .ok (d', es) ∧ Listed d' ∧
      d'.packetCounts.length = d.packetCounts.length ∧ d'.needsEndframe = d.needsEndframe := by
  unfold FramesetData.finishFrame
  split_ifs
  · exact endFrames_listed h sid
  · exact ⟨d, [], rfl, h, rfl, rfl⟩

/-! ## §2  A tick -/

/-- The condition on the turns of the loop: the frames of each packet that is handed over have
entries when it is counted. -/
def LoopAnnounced (ts : Int) (size : Nat) : Nat → Framesets → List Packet → Prop
  | _, _, [] => True
  | complete, fs, x :: rest =>
      ∀ fs' complete' es, visit ts size complete fs x = .ok (fs', complete', es, true) →
        (((fs x.1.streamID).started x).timestamp ≤ x.1.timestamp →
          Announced (fs x.1.streamID) x) ∧
        LoopAnnounced ts size complete' fs' rest

theorem started_counters (d : FramesetData) (x : Packet) :
    (d.started x).frameCount = d.frameCount ∧ (d.started x).packetCounts = d.packetCounts ∧
      (d.started x).needsEndframe = d.needsEndframe := by
  unfold FramesetData.started
  split_ifs <;> exact ⟨rfl, rfl, rfl⟩

theorem Announced.congr {d d' : FramesetData} {x : Packet} (h : Announced d x)
    (hlength : d'.packetCounts.length = d.packetCounts.length)
    (hneeds : d'.needsEndframe = d.needsEndframe) : Announced d' x := by
  unfold Announced
  rw [hlength, hneeds]
  exact h

theorem listed_update {fs : Framesets} {sid : UInt8} {d : FramesetData}
    (h : ∀ s, Listed (fs s)) (hd : Listed d) (s : UInt8) : Listed (Function.update fs sid d s) := by
  by_cases hs : s = sid
  · rw [hs, Function.update_self]
    exact hd
  · rw [Function.update_of_ne hs]
    exact h s

theorem visit_listed {ts : Int} {size complete : Nat} {fs : Framesets} {x : Packet}
    (h : ∀ s, Listed (fs s))
    (hx : ∀ fs' complete' es, visit ts size complete fs x = .ok (fs', complete', es, true) →
      ((fs x.1.streamID).started x).timestamp ≤ x.1.timestamp → Announced (fs x.1.streamID) x) :
    Ensures (· = .outOfRange) (visit ts size complete fs x) fun r => ∀ s, Listed (r.1 s) := by
  obtain ⟨hcount, hcounts, hneeds⟩ := started_counters (fs x.1.streamID) x
  have hstarted : Listed ((fs x.1.streamID).started x) := by
    unfold Listed
    rw [hcount, hcounts]
    exact h _
  unfold visit at hx ⊢
  dsimp only at hx ⊢
  split_ifs at hx ⊢ with hts hold hnow hsize
  · exact .ok (listed_update h hstarted)
  · exact .ok (listed_update h hstarted)
  · have hannounced := (hx _ _ _ rfl (not_lt.mp hold)).congr (by rw [hcounts]) hneeds
    exact .ok (listed_update h ((count_listed_iff hstarted).mpr hannounced))
  · obtain ⟨d, ends, hends, hd, -, -⟩ := finishFrame_listed hstarted x.1.streamID
    rw [hends, ok_bind]
    exact .ok (listed_update h hd)
  · obtain ⟨d, ends, hends, hd, hlength, hneeds'⟩ := finishFrame_listed hstarted x.1.streamID
    rw [hends, ok_bind] at hx ⊢
    have hannounced : Announced { d with timestamp := x.1.timestamp } x :=
      (hx _ _ _ rfl (not_lt.mp hold)).congr (hlength.trans (by rw [hcounts])) (hneeds'.trans hneeds)
    have hd' : Listed { d with timestamp := x.1.timestamp } := hd
    exact .ok (listed_update h ((count_listed_iff hd').mpr hannounced))

theorem dispatch_listed {ts : Int} {size complete : Nat} {fs : Framesets} {data : List Packet}
    (h : ∀ s, Listed (fs s)) (hloop : LoopAnnounced ts size complete fs data) :
    Ensures (· = .outOfRange) (dispatch ts size complete fs data)
      fun r => ∀ s, Listed (r.1 s) := by
  induction data generalizing complete fs with
  | nil => exact .ok h
  | cons x data ih =>
      refine (visit_listed h fun fs' complete' es hvisit =>
        (hloop fs' complete' es hvisit).1).returned.bind ?_
      rintro ⟨fs₁, complete₁, es₁, more⟩ ⟨hvisit, hlisted⟩
      cases more with
      | false => exact .ok hlisted
      | true => exact (ih hlisted (hloop fs₁ complete₁ es₁ hvisit).2).bind fun r hr => .ok hr

theorem staticEndFrames_listed {fs : Framesets} (h : ∀ s, Listed (fs s)) (sids : List UInt8) :
    Ensures (· = .outOfRange) (staticEndFrames fs sids) fun r => ∀ s, Listed (r.1 s) := by
  induction sids generalizing fs with
  | nil => exact .ok h
  | cons sid sids ih =>
      have hone : Ensures (· = .outOfRange) (staticEndFrame fs sid)
          fun r => ∀ s, Listed (r.1 s) := by
        unfold staticEndFrame
        split_ifs
        · exact .ok h
        · have hlisted : Listed { fs sid with needsEndframe := false } := h sid
          obtain ⟨d, es, hends, hd, -, -⟩ := endFrames_listed hlisted sid
          rw [hends, ok_bind]
          exact .ok (listed_update h hd)
      exact hone.bind fun r hr => (ih hr).bind fun r' hr' => .ok hr'

/-- **One tick** whose packets include frames with entries only. -/
theorem tick_listed {f : File} {c : Tick} (h : ∀ s, Listed (f.framesets s))
    (hloop : f.active = true → c.busy = false →
      LoopAnnounced c.ts f.known.card 0 f.framesets f.data) :
    Ensures (· = .outOfRange) (f.tick c) fun r => ∀ s, Listed (r.1.framesets s) := by
  unfold tick
  split_ifs with hskip
  · exact .ok h
  · simp only [Bool.or_eq_true, Bool.not_eq_true', not_or, Bool.not_eq_true,
      Bool.not_eq_false] at hskip
    refine (dispatch_listed h (hloop hskip.1 hskip.2)).bind ?_
    rintro ⟨fs, es, rest⟩ hlisted
    refine (fillData_defined _).bind fun f₁ hfill => ?_
    have hlisted₁ : ∀ s, Listed (f₁.framesets s) := by
      rcases fillData_cases hfill with ⟨-, rfl⟩ | ⟨_, _, _, _, -, rfl⟩
      · exact hlisted
      · exact hlisted
    have hstatic : ∀ empty, Ensures (· = .outOfRange) (f₁.finishStatic empty)
        fun r => ∀ s, Listed (r.1.framesets s) := by
      intro empty
      unfold finishStatic
      split_ifs
      · exact (staticEndFrames_listed hlisted₁ _).bind fun r hr => .ok hr
      · exact .ok hlisted₁
    refine (hstatic _).bind ?_
    rintro ⟨f₂, ends⟩ hlisted₂
    dsimp only
    split_ifs
    · exact .ok hlisted₂
    · exact .ok hlisted₂

/-! ## §3  Runs over a file -/

/-- A step whose tick, if it is not left out, meets the condition. -/
def AnnouncedStep (s : File × List Emission) (e : PlayEvent) (s' : File × List Emission) : Prop :=
  PlayStep s e s' ∧ ∀ c, e = .tick c → s.1.active = true → c.busy = false →
    LoopAnnounced c.ts s.1.known.card 0 s.1.framesets s.1.data

theorem listed_begin (file : List Packet) (looping : Bool) (now : Int) (s : UInt8) :
    Listed ((begin { file := file, looping := looping } now).framesets s) := by
  refine probe_keeps (P := fun f => ∀ s, Listed (f.framesets s)) ?_ file 1000 (-1000)
    (fun _ => le_refl 0) s
  intro f x h
  refine listed_update h ?_
  split_ifs
  · exact h _
  · exact h _

/-- Packets of one frame each meet the condition. -/
theorem loopAnnounced_of_single {ts : Int} {size complete : Nat} {fs : Framesets}
    {data : List Packet} (h : ∀ x ∈ data, x.2.frameCount.toNat ≤ 1) :
    LoopAnnounced ts size complete fs data := by
  induction data generalizing complete fs with
  | nil => trivial
  | cons x data ih =>
      obtain ⟨hx, hdata⟩ := List.forall_mem_cons.mp h
      refine fun fs' complete' es _ => ⟨fun _ _ _ _ => ?_, ih hdata⟩
      exact le_max_of_le_right (Nat.add_le_add_left hx _)

/-- In a run all of whose ticks meet the condition the counters are in range: every frame has an
entry, and no EndFrame loop of a next tick that meets it reads outside of them. -/
theorem counters_in_range {file : List Packet} {looping : Bool} {now : Int}
    {events : List PlayEvent} {f : File} {log : List Emission}
    (run : Runs AnnouncedStep (begin { file := file, looping := looping } now, []) events
      (f, log)) :
    (∀ s, (f.framesets s).frameCount ≤ (f.framesets s).packetCounts.length) ∧
      ∀ c : Tick, (f.active = true → c.busy = false →
        LoopAnnounced c.ts f.known.card 0 f.framesets f.data) → f.tick c ≠ .error .outOfRange := by
  have hlisted : ∀ s, Listed (f.framesets s) := by
    refine run.invariant (I := fun s => ∀ sid, Listed (s.1.framesets sid))
      (listed_begin file looping now) ?_
    rintro ⟨f, log⟩ e ⟨f', log'⟩ h ⟨hstep, hloop⟩
    cases e with
    | tick c =>
        obtain ⟨g, out, looped, htick, heq⟩ := hstep
        cases heq
        exact (tick_listed h (hloop c rfl)).1 _ htick
    | setLooping value =>
        cases hstep
        exact h
  exact ⟨hlisted, fun c hloop hout => (tick_listed hlisted hloop).2 _ hout rfl⟩

theorem counters_in_range_recording :
    (∀ s, (recordingRead.framesets s).frameCount ≤
      (recordingRead.framesets s).packetCounts.length) ∧
      recordingRead.tick { ts := 1040, now := 1040 } ≠ .error .outOfRange := by
  have hrun : Runs AnnouncedStep (begin { file := recording } 1000, [])
      [.tick { ts := 1000, now := 1000 }] (recordingRead, []) := by
    refine Runs.init.snoc ⟨⟨_, _, _, rfl, rfl⟩, ?_⟩
    rintro _ ⟨⟩ - -
    trivial
  have hsingle : ∀ x ∈ recordingRead.data, x.2.frameCount.toNat ≤ 1 := by decide
  obtain ⟨hlisted, hticks⟩ := counters_in_range hrun
  exact ⟨hlisted, hticks _ fun _ _ => loopAnnounced_of_single hsingle⟩

/-- A packet that includes two frames, and the next of its frameset. -/
def pairRecording : List Packet :=
  [({ timestamp := 10, streamID := 0, frameNumber := 0, channel := Channel.kColour },
    { frameCount := 2, data := [1] }),
   ({ timestamp := 50, streamID := 0, frameNumber := 0, channel := Channel.kColour },
    { frameCount := 2, data := [2] })]

/-- When the frameset moves on, the count of its second frame is read, which has no entry. -/
theorem pairRecording_out_of_range :
    ∃ f, Runs PlayStep (begin { file := pairRecording } 1000, [])
        [.tick { ts := 1000, now := 1000 }] (f, []) ∧
      f.tick { ts := 1040, now := 1040 } = .error .outOfRange := by
  exact ⟨_, Runs.init.snoc ⟨_, _, _, rfl, rfl⟩, rfl⟩

end BeyondProtocol.File
