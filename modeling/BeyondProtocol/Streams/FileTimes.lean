import BeyondProtocol.Streams.FileReplay

/-!
# The timestamps of a replay

A packet is played at its distance from the first timestamp of its frameset. That
timestamp is taken while the file is probed, which ends when 1000 different
timestamps of video were seen: a frameset that comes later counts from its default.
-/

namespace BeyondProtocol.File

open Framework

/-! ## §1  What probing finds -/

/-- The packets that `_checkFile` reads. -/
def probed : List Packet → Nat → Int → List Packet
  | _, 0, _ => []
  | [], _ + 1, _ => []
  | x :: xs, count + 1, ts =>
      if 0 < x.1.timestamp && x.1.channel.isVideo && ts < x.1.timestamp then
        x :: probed xs count x.1.timestamp
      else x :: probed xs (count + 1) ts

/-- The timestamp of the first packet of a frameset. -/
def firstTimestamp (xs : List Packet) (sid : UInt8) : Option Int :=
  (xs.find? fun x => x.1.streamID = sid).map fun x => x.1.timestamp

theorem probe_eq (xs : List Packet) (count : Nat) (ts : Int) (f : File) :
    (probe xs count ts f).1 = (probed xs count ts).foldl noteFrameset f := by
  induction xs generalizing count ts f with
  | nil => cases count <;> rfl
  | cons x xs ih =>
      cases count with
      | zero => rfl
      | succ count =>
          unfold probe probed
          split_ifs
          · exact ih count x.1.timestamp (f.noteFrameset x)
          · exact ih (count + 1) ts (f.noteFrameset x)

theorem probed_front (xs : List Packet) (count : Nat) (ts : Int) : probed xs count ts <+: xs := by
  induction xs generalizing count ts with
  | nil => cases count <;> exact List.nil_prefix
  | cons x xs ih =>
      cases count with
      | zero => exact List.nil_prefix
      | succ count =>
          unfold probed
          split_ifs
          · exact List.cons_prefix_cons.mpr ⟨rfl, ih count x.1.timestamp⟩
          · exact List.cons_prefix_cons.mpr ⟨rfl, ih (count + 1) ts⟩

theorem firstTimestamp_cons (x : Packet) (xs : List Packet) (sid : UInt8) :
    firstTimestamp (x :: xs) sid =
      if x.1.streamID = sid then some x.1.timestamp else firstTimestamp xs sid := by
  unfold firstTimestamp
  rw [List.find?_cons]
  by_cases hsid : x.1.streamID = sid
  · simp [hsid]
  · simp [hsid]

theorem firstTimestamp_eq_none {xs : List Packet} {sid : UInt8} :
    firstTimestamp xs sid = none ↔ ∀ x ∈ xs, x.1.streamID ≠ sid := by
  simp [firstTimestamp, List.find?_eq_none]

theorem firstTimestamp_mem {xs : List Packet} {sid : UInt8} {first : Int}
    (h : firstTimestamp xs sid = some first) : ∃ x ∈ xs, x.1.streamID = sid ∧
      x.1.timestamp = first := by
  obtain ⟨x, hfind, rfl⟩ := Option.map_eq_some_iff.mp h
  exact ⟨x, List.mem_of_find?_eq_some hfind, by simpa using List.find?_some hfind, rfl⟩

theorem firstTimestamp_append (xs ys : List Packet) (sid : UInt8) :
    firstTimestamp (xs ++ ys) sid = (firstTimestamp xs sid).or (firstTimestamp ys sid) := by
  rw [firstTimestamp, List.find?_append, Option.map_or]
  rfl

theorem firstTimestamp_prefix {xs ys : List Packet} (h : xs <+: ys) {sid : UInt8} {first : Int}
    (hfirst : firstTimestamp xs sid = some first) : firstTimestamp ys sid = some first := by
  obtain ⟨zs, rfl⟩ := h
  rw [firstTimestamp_append, hfirst]
  rfl

/-- A frameset keeps the first timestamp that is noted for it. -/
theorem foldl_firstTs {xs : List Packet} (h : ∀ x ∈ xs, 0 ≤ x.1.timestamp) (f : File)
    (sid : UInt8) :
    ((xs.foldl noteFrameset f).framesets sid).firstTs =
      if (f.framesets sid).firstTs < 0 then
        (firstTimestamp xs sid).getD (f.framesets sid).firstTs
      else (f.framesets sid).firstTs := by
  induction xs generalizing f with
  | nil =>
      show (f.framesets sid).firstTs = if _ then (none : Option Int).getD _ else _
      simp
  | cons x xs ih =>
      obtain ⟨hx, hxs⟩ := List.forall_mem_cons.mp h
      rw [List.foldl_cons, ih hxs, firstTimestamp_cons]
      by_cases hsid : x.1.streamID = sid
      · subst hsid
        by_cases hneg : (f.framesets x.1.streamID).firstTs < 0
        · simp [noteFrameset, hneg, not_lt.mpr hx]
        · simp [noteFrameset, hneg]
      · simp [noteFrameset, hsid, Function.update_of_ne (Ne.symm hsid)]

/-! ## §2  What is read -/

theorem SamePass.asBuffered {f f' : File} (h : SamePass f f') :
    f'.asBuffered = f.asBuffered := by
  ext1 x
  unfold File.asBuffered
  rw [h.timestart, h.isVideo, h.firstTs]

theorem firstTs_update {fs : Framesets} {sid : UInt8} {d : FramesetData}
    (h : d.firstTs = (fs sid).firstTs) (s : UInt8) :
    (Function.update fs sid d s).firstTs = (fs s).firstTs := by
  by_cases hs : s = sid
  · rw [hs, Function.update_self, h]
  · rw [Function.update_of_ne hs]

theorem visit_firstTs {ts : Int} {size complete complete' : Nat} {fs fs' : Framesets} {x : Packet}
    {es : List Emission} {more : Bool}
    (h : visit ts size complete fs x = .ok (fs', complete', es, more)) (s : UInt8) :
    (fs' s).firstTs = (fs s).firstTs := by
  have hstarted := (started_spec (fs x.1.streamID) x).1
  rcases visit_cases h with ⟨rfl, -⟩ | ⟨-, rfl, -⟩ | ⟨-, rfl, -⟩ | ⟨d, ends, -, hends, hcase⟩
  · exact firstTs_update hstarted s
  · exact firstTs_update hstarted s
  · exact firstTs_update (by rw [count_firstTs, hstarted]) s
  · have hends' := (finishFrame_spec hends).2.1.trans hstarted
    rcases hcase with ⟨rfl, -⟩ | ⟨rfl, -⟩
    · exact firstTs_update (by exact hends') s
    · exact firstTs_update (by rw [count_firstTs]; exact hends') s

/-- The loop takes packets from the front of the buffer. -/
theorem dispatch_suffix {ts : Int} {size complete : Nat} {fs fs' : Framesets}
    {data rest : List Packet} {es : List Emission}
    (h : dispatch ts size complete fs data = .ok (fs', es, rest)) :
    rest <:+ data ∧ ∀ s, (fs' s).firstTs = (fs s).firstTs := by
  induction data generalizing complete fs es with
  | nil =>
      cases h
      exact ⟨List.suffix_rfl, fun _ => rfl⟩
  | cons x data ih =>
      unfold dispatch at h
      obtain ⟨⟨fs₁, complete₁, es₁, more⟩, hvisit, h⟩ := bind_eq_ok.mp h
      cases more with
      | false =>
          cases h
          exact ⟨List.suffix_rfl, visit_firstTs hvisit⟩
      | true =>
          obtain ⟨⟨fs₂, es₂, rest₂⟩, hrest, h⟩ := bind_eq_ok.mp h
          cases h
          obtain ⟨hsuffix, hfirst⟩ := ih hrest
          exact ⟨hsuffix.trans (List.suffix_cons x data),
            fun s => (hfirst s).trans (visit_firstTs hvisit s)⟩

/-! ## §3  Along a run -/

/-- What waits in the buffer was read from the file, right before what was not read. -/
structure Buffers (file : List Packet) (f : File) : Prop where
  source : f.file = file
  firstTs : ∀ s, (f.framesets s).firstTs =
    (firstTimestamp (probed file 1000 (-1000)) s).getD (-1)
  read : ∃ gone taken, file = gone ++ (taken ++ f.unread) ∧ f.data = taken.map f.asBuffered

theorem tick_buffers {file : List Packet} {f f' : File} {c : Tick} {out : List Emission}
    {looped : Bool} (h : Buffers file f) (htick : f.tick c = .ok (f', out, looped)) :
    Buffers file f' := by
  rcases tick_cases htick with ⟨rfl, -, -⟩ |
    ⟨fs, es, rest, f₁, empty, f₂, ends, hdispatch, hfill, hstatic, -, -, hlast⟩
  · exact h
  · obtain ⟨hsuffix, hfirst⟩ := dispatch_suffix hdispatch
    obtain ⟨gone, taken, hfile, hdata⟩ := h.read
    rw [hdata] at hsuffix
    obtain ⟨dropped, hsplit⟩ := hsuffix
    obtain ⟨gone', kept, rfl, -, rfl⟩ := List.map_eq_append_iff.mp hsplit.symm
    have hsame₀ : SamePass f { f with framesets := fs, data := kept.map f.asBuffered } :=
      ⟨rfl, rfl, rfl, hfirst⟩
    -- what is read ahead follows what was kept
    have hfilled : SamePass f f₁ ∧ ∃ taken', f.unread = taken' ++ f₁.unread ∧
        f₁.data = (kept ++ taken').map f.asBuffered := by
      rcases fillData_cases hfill with ⟨-, rfl⟩ | ⟨extended, data, unread, ended, hread, rfl⟩
      · exact ⟨hsame₀, [], rfl, by rw [List.append_nil]⟩
      · obtain ⟨taken', hunread, rfl, -⟩ := readAhead_taken hread
        refine ⟨⟨rfl, rfl, rfl, hfirst⟩, taken', hunread, ?_⟩
        rw [List.map_append, hsame₀.asBuffered]
    obtain ⟨hsame₁, taken', hunread, hdata₁⟩ := hfilled
    obtain ⟨hsame₂, hdata₂, hunread₂, -, -, -⟩ := finishStatic_spec hstatic
    have hsame := hsame₁.trans hsame₂
    have hsource : f₂.file = file := hsame.file.trans h.source
    have hfirsts : ∀ s, (f₂.framesets s).firstTs = _ :=
      fun s => (hsame.firstTs s).trans (h.firstTs s)
    rcases hlast with ⟨-, rfl⟩ | ⟨-, hempty, rfl⟩
    · refine ⟨hsource, hfirsts, gone ++ gone', kept ++ taken', ?_, ?_⟩
      · rw [hfile, hunread, hunread₂]
        simp only [List.append_assoc]
      · rw [hdata₂, hdata₁, hsame.asBuffered]
    · exact ⟨hsource, hfirsts, [], [], hsource.symm, hempty⟩

theorem buffers_begin {file : List Packet} (hnonneg : ∀ x ∈ file, 0 ≤ x.1.timestamp)
    (looping : Bool) (now : Int) :
    Buffers file (begin { file := file, looping := looping } now) := by
  obtain ⟨hfile, hdata, -⟩ := probe_begin file looping
  refine ⟨hfile, fun s => ?_, [], [], hfile.symm, hdata⟩
  have hprobed : ∀ x ∈ probed file 1000 (-1000), 0 ≤ x.1.timestamp :=
    fun x hx => hnonneg x ((probed_front file 1000 (-1000)).subset hx)
  show ((probe file 1000 (-1000) _).1.framesets s).firstTs = _
  rw [probe_eq, foldl_firstTs hprobed]
  rfl

theorem runs_buffers {file : List Packet} (hnonneg : ∀ x ∈ file, 0 ≤ x.1.timestamp)
    {looping : Bool} {now : Int} {events : List PlayEvent} {f : File} {log : List Emission}
    (run : Runs PlayStep (begin { file := file, looping := looping } now, []) events (f, log)) :
    Buffers file f := by
  refine run.invariant (I := fun s => Buffers file s.1) (buffers_begin hnonneg looping now) ?_
  rintro ⟨f, log⟩ e ⟨f', log'⟩ h hstep
  cases e with
  | tick c =>
      obtain ⟨g, out, looped, htick, heq⟩ := hstep
      cases heq
      exact tick_buffers h htick
  | setLooping value =>
      cases hstep
      exact ⟨h.source, h.firstTs, h.read⟩

/-- The base of a frameset is right exactly if the frameset was met while probing. -/
theorem base_eq_iff {file : List Packet} (hnonneg : ∀ x ∈ file, 0 ≤ x.1.timestamp) {sid : UInt8}
    {first : Int} (hfirst : firstTimestamp file sid = some first) :
    (firstTimestamp (probed file 1000 (-1000)) sid).getD (-1) = first ↔
      ∃ x ∈ probed file 1000 (-1000), x.1.streamID = sid := by
  cases hprobed : firstTimestamp (probed file 1000 (-1000)) sid with
  | none =>
      obtain ⟨x, hx, -, rfl⟩ := firstTimestamp_mem hfirst
      have hx' := hnonneg x hx
      refine iff_of_false (fun heq => ?_) ?_
      · rw [Option.getD_none] at heq
        omega
      · rintro ⟨y, hy, hsid⟩
        exact firstTimestamp_eq_none.mp hprobed y hy hsid
  | some t =>
      have heq := firstTimestamp_prefix (probed_front file 1000 (-1000)) hprobed
      obtain ⟨x, hx, hsid, -⟩ := firstTimestamp_mem hprobed
      refine iff_of_true ?_ ⟨x, hx, hsid⟩
      exact Option.some.inj (heq.symm.trans hfirst)

/-- In every state of a replay the buffer holds packets of the file, in the order of the file and
up to what was not read; a packet was moved to its distance from the first packet of its frameset
exactly if a packet of the frameset was among those that were probed. -/
theorem rebased_iff {file : List Packet} (hnonneg : ∀ x ∈ file, 0 ≤ x.1.timestamp)
    {looping : Bool} {now : Int} {events : List PlayEvent} {f : File} {log : List Emission}
    (run : Runs PlayStep (begin { file := file, looping := looping } now, []) events (f, log)) :
    ∃ gone taken, file = gone ++ (taken ++ f.unread) ∧
      List.Forall₂ (fun x y => ∃ first, firstTimestamp file x.1.streamID = some first ∧
        (y.1.timestamp = x.1.timestamp - first + f.timestart ↔
          ∃ z ∈ probed file 1000 (-1000), z.1.streamID = x.1.streamID)) taken f.data := by
  have h := runs_buffers hnonneg run
  obtain ⟨gone, taken, hfile, hdata⟩ := h.read
  refine ⟨gone, taken, hfile, ?_⟩
  rw [hdata, List.forall₂_map_right_iff, List.forall₂_same]
  intro x hx
  have hmem : x ∈ file := by
    rw [hfile]
    simp [hx]
  cases hfirst : firstTimestamp file x.1.streamID with
  | none => exact absurd rfl (firstTimestamp_eq_none.mp hfirst x hmem)
  | some first =>
      refine ⟨first, rfl, ?_⟩
      rw [← base_eq_iff hnonneg hfirst, ← h.firstTs]
      show x.1.timestamp - _ + f.timestart = _ ↔ _
      omega

/-- In the recording every frameset is probed. -/
theorem rebased_iff_recording :
    (∀ x ∈ recording, ∃ z ∈ probed recording 1000 (-1000), z.1.streamID = x.1.streamID) ∧
      ∃ gone taken, recording = gone ++ (taken ++ recordingRead.unread) ∧
        List.Forall₂ (fun x y => ∃ first, firstTimestamp recording x.1.streamID = some first ∧
          (y.1.timestamp = x.1.timestamp - first + recordingRead.timestart ↔
            ∃ z ∈ probed recording 1000 (-1000), z.1.streamID = x.1.streamID))
          taken recordingRead.data := by
  have hrun : Runs PlayStep (begin { file := recording } 1000, [])
      [.tick { ts := 1000, now := 1000 }] (recordingRead, []) :=
    Runs.init.snoc ⟨_, _, _, rfl, rfl⟩
  exact ⟨by decide, rebased_iff (by decide) hrun⟩

/-! ## §4  A frameset that comes late -/

/-- A packet that does not count, from which the frameset is rebased. -/
def leadPacket : Packet :=
  ({ timestamp := 2000, streamID := 0, frameNumber := 0, channel := Channel.kPose },
   { data := [1] })

def countedPacket (k : Nat) : Packet :=
  ({ timestamp := k, streamID := 0, frameNumber := 0, channel := Channel.kColour },
   { data := [1] })

def latePacket : Packet :=
  ({ timestamp := 40, streamID := 1, frameNumber := 0, channel := Channel.kColour },
   { data := [1] })

/-- After 1000 timestamps of one frameset another one starts. -/
def lateFile : List Packet :=
  leadPacket :: ((List.range' 1 1000).map countedPacket ++ [latePacket])

theorem probed_counted (k n : Nat) {ts : Int} (hts : ts < k) (hk : 0 < k) (l : List Packet) :
    probed ((List.range' k n).map countedPacket ++ l) n ts =
      (List.range' k n).map countedPacket := by
  induction n generalizing k ts with
  | zero => cases l <;> rfl
  | succ n ih =>
      rw [List.range'_succ, List.map_cons, List.cons_append, probed, if_pos]
      · rw [ih (k + 1) (by show (k : Int) < _; omega) (by omega)]
      · have hvideo : (countedPacket k).1.channel.isVideo = true := rfl
        have htime : (countedPacket k).1.timestamp = k := rfl
        simp only [hvideo, htime, Bool.and_true, Bool.and_eq_true, decide_eq_true_iff]
        omega

theorem probed_late :
    probed lateFile 1000 (-1000) = leadPacket :: (List.range' 1 1000).map countedPacket := by
  have hlead : (0 < leadPacket.1.timestamp && leadPacket.1.channel.isVideo &&
      -1000 < leadPacket.1.timestamp) = false := rfl
  rw [lateFile, probed, hlead, if_neg (by decide),
    probed_counted 1 1000 (by decide) Nat.one_pos]

/-- Packets that are not too far ahead are all read. -/
theorem readAhead_all {f : File} {extended : Int} {xs : List Packet}
    (h : ∀ x ∈ xs, f.adjust x = .ok (f.asBuffered x) ∧
      (f.asBuffered x).1.timestamp ≤ extended) :
    f.readAhead extended xs = .ok (xs.map f.asBuffered, [], true) := by
  induction xs with
  | nil => rfl
  | cons x xs ih =>
      obtain ⟨⟨hadjust, hle⟩, hxs⟩ := List.forall_mem_cons.mp h
      rw [readAhead, hadjust, ok_bind, if_neg (not_lt.mpr hle), ih hxs]
      rfl

theorem foldl_known (xs : List Packet) (f : File) :
    (xs.foldl noteFrameset f).known = f.known ∪ (xs.map fun x => x.1.streamID).toFinset := by
  induction xs generalizing f with
  | nil => simp
  | cons x xs ih =>
      rw [List.foldl_cons, ih, List.map_cons, List.toFinset_cons, Finset.union_insert]
      show insert x.1.streamID f.known ∪ _ = _
      rw [Finset.insert_union]

theorem adjust_ok {f : File} {x : Packet}
    (h : -2 ^ 63 ≤ x.1.timestamp - (f.framesets x.1.streamID).firstTs ∧
      x.1.timestamp - (f.framesets x.1.streamID).firstTs < 2 ^ 63)
    (h' : -2 ^ 63 ≤ x.1.timestamp - (f.framesets x.1.streamID).firstTs + f.timestart ∧
      x.1.timestamp - (f.framesets x.1.streamID).firstTs + f.timestart < 2 ^ 63) :
    f.adjust x = .ok (f.asBuffered x) := by
  unfold adjust int64
  rw [if_pos h, ok_bind, if_pos h']
  rfl

theorem begin_fields (file : List Packet) (looping : Bool) (now : Int) :
    let f := begin { file := file, looping := looping } now
    f.active = true ∧ f.readError = false ∧ f.timestart = now ∧ f.unread = file ∧ f.data = [] ∧
      (∀ s, (f.framesets s).timestamp = 0) ∧
      f.known = ((probed file 1000 (-1000)).map fun x => x.1.streamID).toFinset := by
  obtain ⟨hfile, hdata, hts⟩ := probe_begin file looping
  refine ⟨rfl, rfl, rfl, hfile, hdata, hts, ?_⟩
  show (probe file 1000 (-1000) _).1.known = _
  rw [probe_eq, foldl_known]
  exact Finset.empty_union _

/-- The first tick of a file that it reads to the end. -/
theorem tick_reads {f : File} {ts now extended : Int} {data : List Packet}
    (hactive : f.active = true) (herror : f.readError = false) (hdata : f.data = [])
    (hextended : f.extendedTs = .ok extended)
    (hread : f.readAhead extended f.unread = .ok (data, [], true)) (hsome : data ≠ []) :
    ∃ g, f.tick { ts := ts, now := now } = .ok (g, [], false) ∧ g.data = data ∧
      g.timestart = f.timestart := by
  obtain ⟨x, data, rfl⟩ := List.exists_cons_of_ne_nil hsome
  have hfill : f.fillData = .ok
      { f with
        data := x :: data
        unread := []
        known := f.known ∪ ((x :: data).map fun x => x.1.streamID).toFinset
        readError := true } := by
    unfold fillData
    rw [hextended, ok_bind, if_neg (by simp [herror]), hread, ok_bind, hdata]
    rfl
  have hdispatch : dispatch ts f.known.card 0 f.framesets f.data = .ok (f.framesets, [], []) := by
    rw [hdata]
    rfl
  have hsame : { f with framesets := f.framesets, data := [] } = f := by
    rw [← hdata]
  have htick : f.tick { ts := ts, now := now } = .ok
      ({ f with
        data := x :: data
        unread := []
        known := f.known ∪ ((x :: data).map fun x => x.1.streamID).toFinset
        readError := true }, [], false) := by
    unfold tick
    rw [if_neg (by simp [hactive]), hdispatch, ok_bind]
    show (fillData { f with framesets := f.framesets, data := [] } >>= _) = _
    rw [hsame, hfill]
    rfl
  exact ⟨_, htick, rfl, rfl⟩

theorem lateFile_cases {x : Packet} (hx : x ∈ lateFile) :
    x = leadPacket ∨ (∃ k : Nat, k ≤ 1000 ∧ x = countedPacket k) ∨ x = latePacket := by
  rcases List.mem_cons.mp hx with rfl | hx
  · exact .inl rfl
  · rcases List.mem_append.mp hx with hx | hx
    · obtain ⟨k, hk, rfl⟩ := List.mem_map.mp hx
      have hk' := List.mem_range'_1.mp hk
      exact .inr (.inl ⟨k, by omega, rfl⟩)
    · exact .inr (.inr (List.mem_singleton.mp hx))

theorem lateFile_nonneg : ∀ x ∈ lateFile, 0 ≤ x.1.timestamp := by
  intro x hx
  rcases lateFile_cases hx with rfl | ⟨k, -, rfl⟩ | rfl
  · decide
  · exact Int.natCast_nonneg k
  · decide

theorem firstTimestamp_counted :
    firstTimestamp ((List.range' 1 1000).map countedPacket) 1 = none := by
  refine firstTimestamp_eq_none.mpr fun x hx => ?_
  obtain ⟨k, -, rfl⟩ := List.mem_map.mp hx
  exact (by decide : (0 : UInt8) ≠ 1)

/-- The first packet of the late frameset is played 41 ms behind the start, not at it. -/
theorem late_frameset_not_rebased :
    ∃ f, Runs PlayStep (begin { file := lateFile } 1000, [])
        [.tick { ts := 1000, now := 1000 }] (f, []) ∧
      (∀ x ∈ lateFile, 0 ≤ x.1.timestamp) ∧ f.timestart = 1000 ∧
      firstTimestamp lateFile 1 = some 40 ∧
      ∃ y ∈ f.data, y.1.streamID = 1 ∧ y.1.timestamp = 1041 := by
  have hbuffers : Buffers lateFile (begin { file := lateFile } 1000) :=
    buffers_begin lateFile_nonneg false 1000
  obtain ⟨hactive, herror, htimestart, hunread, hdata, hts, hknown⟩ :=
    begin_fields lateFile false 1000
  generalize begin { file := lateFile } 1000 = f at *
  have hzero : (f.framesets 0).firstTs = 2000 := by
    rw [hbuffers.firstTs, probed_late, firstTimestamp_cons, if_pos (by rfl)]
    rfl
  have hone : (f.framesets 1).firstTs = -1 := by
    rw [hbuffers.firstTs, probed_late, firstTimestamp_cons, if_neg (by decide),
      firstTimestamp_counted]
    rfl
  have hknown' : f.known = {0} := by
    rw [hknown, probed_late]
    ext s
    simp only [List.mem_toFinset, List.mem_map, Finset.mem_singleton]
    constructor
    · rintro ⟨x, hx, rfl⟩
      rcases List.mem_cons.mp hx with rfl | hx
      · rfl
      · obtain ⟨k, -, rfl⟩ := List.mem_map.mp hx
        rfl
    · rintro rfl
      exact ⟨leadPacket, List.mem_cons_self, rfl⟩
  have hextended : f.extendedTs = .ok 1200 := by
    unfold extendedTs int64
    simp only [hknown', Finset.fold_singleton, hts, le_refl, if_true, htimestart]
    decide
  have hread : f.readAhead 1200 f.unread = .ok (lateFile.map f.asBuffered, [], true) := by
    rw [hunread]
    refine readAhead_all fun x hx => ?_
    have hbounds : -2 ^ 62 ≤ x.1.timestamp - (f.framesets x.1.streamID).firstTs ∧
        x.1.timestamp - (f.framesets x.1.streamID).firstTs ≤ 200 := by
      rcases lateFile_cases hx with rfl | ⟨k, hk, rfl⟩ | rfl
      · show _ ≤ (2000 : Int) - (f.framesets 0).firstTs ∧
          (2000 : Int) - (f.framesets 0).firstTs ≤ _
        omega
      · show _ ≤ (k : Int) - (f.framesets 0).firstTs ∧ (k : Int) - (f.framesets 0).firstTs ≤ _
        omega
      · show _ ≤ (40 : Int) - (f.framesets 1).firstTs ∧ (40 : Int) - (f.framesets 1).firstTs ≤ _
        omega
    refine ⟨adjust_ok (by omega) (by omega), ?_⟩
    show x.1.timestamp - (f.framesets x.1.streamID).firstTs + f.timestart ≤ 1200
    omega
  obtain ⟨g, htick, hg, hstart⟩ := @tick_reads f 1000 1000 _ _ hactive herror hdata
    hextended hread (by simp [lateFile])
  refine ⟨g, Runs.init.snoc ⟨g, [], false, htick, rfl⟩, lateFile_nonneg, hstart.trans htimestart,
    ?_, f.asBuffered latePacket, ?_, rfl, ?_⟩
  · rw [lateFile, firstTimestamp_cons, if_neg (by decide), firstTimestamp_append,
      firstTimestamp_counted]
    rfl
  · rw [hg]
    exact List.mem_map_of_mem (by simp [lateFile])
  · show (40 : Int) - (f.framesets 1).firstTs + f.timestart = 1041
    omega

end BeyondProtocol.File
