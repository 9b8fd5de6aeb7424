import BeyondProtocol.Framework.Runs
import BeyondProtocol.Streams.FilePlayer

/-!
# What is played of a file

The packets that were read and not handed over are always a part of the file
that follows what was handed over, in the order of the file. A tick erases a
packet only if its frameset is at a later timestamp already; a frameset moves to
the timestamp of its first packet that waits, and within a frameset timestamps
do not go back, so this does not happen.
-/

namespace BeyondProtocol.File

open Framework

/-! ## §1  Runs over a file -/

inductive PlayEvent : Type where
  | tick (c : Tick)
  | setLooping (value : Bool)

/-- A step of a stream and of what went out in the current pass. -/
def PlayStep (s : File × List Emission) (e : PlayEvent) (s' : File × List Emission) : Prop :=
  match e with
  | .tick c => ∃ f out looped, s.1.tick c = .ok (f, out, looped) ∧
      s' = (f, if looped then [] else s.2 ++ out)
  | .setLooping value => s' = (s.1.setLooping value, s.2)

/-- Timestamps do not go back within a frameset. -/
def Ordered (xs : List Packet) : Prop :=
  xs.Pairwise fun x y => x.1.streamID = y.1.streamID → x.1.timestamp ≤ y.1.timestamp

/-- A packet of the file as the callbacks see it in the current pass. -/
def shown (f : File) (x : Packet) : Packet :=
  ({ x.1 with
     timestamp := x.1.timestamp - (f.framesets x.1.streamID).firstTs + f.timestart
     localTimestamp := x.1.timestamp - (f.framesets x.1.streamID).firstTs + f.timestart
     hintCapability := (if f.isVideo then 0 else kStreamCapStatic) ||| kStreamCapRecorded }, x.2)

/-- What was read and not handed over, and what was not read. -/
def waiting (f : File) : List Packet := f.data.map played ++ f.unread.map f.shown

/-! ## §2  The loop over the buffered packets -/

/-- No frameset is behind a packet that waits. -/
def Due (fs : Framesets) (xs : List Packet) : Prop :=
  ∀ x ∈ xs, (fs x.1.streamID).timestamp = 0 ∨ (fs x.1.streamID).timestamp ≤ x.1.timestamp

theorem Due.congr {fs fs' : Framesets} {xs : List Packet} (h : Due fs xs)
    (heq : ∀ s, (fs' s).timestamp = (fs s).timestamp) : Due fs' xs := by
  intro x hx
  rw [heq]
  exact h x hx

@[simp] theorem count_timestamp (d : FramesetData) (x : Packet) :
    (d.count x).timestamp = d.timestamp := by
  unfold FramesetData.count
  split_ifs <;> rfl

@[simp] theorem count_firstTs (d : FramesetData) (x : Packet) :
    (d.count x).firstTs = d.firstTs := by
  unfold FramesetData.count
  split_ifs <;> rfl

theorem endFrames_spec {d d' : FramesetData} {sid : UInt8} {es : List Emission}
    (h : d.endFrames sid = .ok (d', es)) :
    d'.timestamp = d.timestamp ∧ d'.firstTs = d.firstTs ∧ Emission.packets es = [] := by
  unfold FramesetData.endFrames at h
  split_ifs at h
  cases h
  refine ⟨rfl, rfl, ?_⟩
  rw [Emission.packets, List.filterMap_map, List.filterMap_eq_nil_iff]
  exact fun j _ => rfl

theorem finishFrame_spec {d d' : FramesetData} {sid : UInt8} {es : List Emission}
    (h : d.finishFrame sid = .ok (d', es)) :
    d'.timestamp = d.timestamp ∧ d'.firstTs = d.firstTs ∧ Emission.packets es = [] := by
  unfold FramesetData.finishFrame at h
  split_ifs at h
  · exact endFrames_spec h
  · cases h
    exact ⟨rfl, rfl, rfl⟩

theorem started_spec (d : FramesetData) (x : Packet) :
    (d.started x).firstTs = d.firstTs ∧
      ((d.started x).timestamp = x.1.timestamp ∨ (d.started x).timestamp = d.timestamp) := by
  unfold FramesetData.started
  split_ifs
  · exact ⟨rfl, .inl rfl⟩
  · exact ⟨rfl, .inr rfl⟩

/-- **One turn of the loop.** The packet goes out and the loop goes on, or it stays. -/
theorem visit_spec {ts : Int} {size complete complete' : Nat} {fs fs' : Framesets} {x : Packet}
    {l : List Packet} {es : List Emission} {more : Bool} (hdue : Due fs (x :: l))
    (hord : ∀ y ∈ l, x.1.streamID = y.1.streamID → x.1.timestamp ≤ y.1.timestamp)
    (h : visit ts size complete fs x = .ok (fs', complete', es, more)) :
    (∀ s, (fs' s).firstTs = (fs s).firstTs) ∧
      Emission.packets es = (if more then [played x] else []) ∧
      Due fs' (if more then l else x :: l) := by
  obtain ⟨hfirst, hstarted⟩ := started_spec (fs x.1.streamID) x
  -- the frameset may move to the timestamp of the packet, the others stay where they are
  have hmoved : ∀ d : FramesetData, d.firstTs = (fs x.1.streamID).firstTs →
      d.timestamp = x.1.timestamp ∨ d.timestamp = (fs x.1.streamID).timestamp →
      (∀ s, (Function.update fs x.1.streamID d s).firstTs = (fs s).firstTs) ∧
        Due (Function.update fs x.1.streamID d) (x :: l) := by
    intro d hd hts
    constructor
    · intro s
      by_cases hs : s = x.1.streamID
      · rw [hs, Function.update_self, hd]
      · rw [Function.update_of_ne hs]
    · intro y hy
      by_cases hs : y.1.streamID = x.1.streamID
      · rw [hs, Function.update_self]
        rcases hts with hts | hts
        · right
          rw [hts]
          rcases List.mem_cons.mp hy with rfl | hy
          · exact le_rfl
          · exact hord y hy hs.symm
        · rw [hts, ← hs]
          exact hdue y hy
      · rw [Function.update_of_ne hs]
        exact hdue y hy
  have htail : ∀ {fs : Framesets}, Due fs (x :: l) → Due fs l :=
    fun h y hy => h y (List.mem_cons_of_mem x hy)
  rcases visit_cases h with ⟨rfl, rfl, rfl⟩ | ⟨hold, -, -, -⟩ | ⟨-, rfl, rfl, rfl⟩ |
    ⟨d, ends, -, hends, hcase⟩
  · -- not due yet
    obtain ⟨hf, hd⟩ := hmoved _ hfirst hstarted
    exact ⟨hf, rfl, hd⟩
  · -- too old, which does not happen
    exfalso
    unfold FramesetData.started at hold
    split_ifs at hold with hzero
    · exact lt_irrefl _ hold
    · exact absurd ((hdue x List.mem_cons_self).resolve_left hzero) (not_le.mpr hold)
  · obtain ⟨hf, hd⟩ := hmoved (((fs x.1.streamID).started x).count x) (by simpa using hfirst)
      (by simpa using hstarted)
    exact ⟨hf, rfl, htail hd⟩
  · obtain ⟨-, hfirst', hpackets⟩ := finishFrame_spec hends
    rcases hcase with ⟨rfl, rfl, rfl⟩ | ⟨rfl, rfl, rfl⟩
    · obtain ⟨hf, hd⟩ := hmoved { d with timestamp := x.1.timestamp } (hfirst'.trans hfirst)
        (.inl rfl)
      exact ⟨hf, hpackets, hd⟩
    · obtain ⟨hf, hd⟩ := hmoved ({ d with timestamp := x.1.timestamp }.count x)
        (by simpa using hfirst'.trans hfirst) (.inl (by simp))
      refine ⟨hf, ?_, htail hd⟩
      rw [Emission.packets_append, hpackets]
      rfl

/-- **The loop.** What goes out and what stays make up what was buffered. -/
theorem dispatch_spec {ts : Int} {size complete : Nat} {fs fs' : Framesets}
    {data rest l : List Packet} {es : List Emission} (hdue : Due fs (data ++ l))
    (hord : Ordered (data ++ l))
    (h : dispatch ts size complete fs data = .ok (fs', es, rest)) :
    (∀ s, (fs' s).firstTs = (fs s).firstTs) ∧
      Emission.packets es ++ rest.map played = data.map played ∧ Due fs' (rest ++ l) := by
  induction data generalizing complete fs es with
  | nil =>
      cases h
      exact ⟨fun _ => rfl, rfl, hdue⟩
  | cons x data ih =>
      obtain ⟨hx, hord⟩ := List.pairwise_cons.mp hord
      unfold dispatch at h
      obtain ⟨⟨fs₁, complete₁, es₁, more⟩, hvisit, h⟩ := bind_eq_ok.mp h
      obtain ⟨hfirst, hpackets, hdue₁⟩ := visit_spec hdue hx hvisit
      cases more with
      | false =>
          cases h
          rw [hpackets]
          exact ⟨hfirst, rfl, hdue₁⟩
      | true =>
          obtain ⟨⟨fs₂, es₂, rest₂⟩, hrest, h⟩ := bind_eq_ok.mp h
          cases h
          obtain ⟨hfirst₂, hpackets₂, hdue₂⟩ := ih hdue₁ hord hrest
          refine ⟨fun s => (hfirst₂ s).trans (hfirst s), ?_, hdue₂⟩
          rw [Emission.packets_append, hpackets, List.append_assoc, hpackets₂]
          rfl

/-! ## §3  Reading ahead -/

/-- A packet of the file as it waits in the buffer. -/
def asBuffered (f : File) (x : Packet) : Packet :=
  ({ x.1 with
     timestamp := x.1.timestamp - (f.framesets x.1.streamID).firstTs + f.timestart
     hintCapability := (if f.isVideo then 0 else kStreamCapStatic) ||| kStreamCapRecorded }, x.2)

theorem adjust_eq {f : File} {x y : Packet} (h : f.adjust x = .ok y) : y = f.asBuffered x := by
  unfold adjust int64 at h
  obtain ⟨offset, hoffset, h⟩ := bind_eq_ok.mp h
  obtain ⟨timestamp, htimestamp, h⟩ := bind_eq_ok.mp h
  split_ifs at hoffset
  cases hoffset
  split_ifs at htimestamp
  cases htimestamp
  cases h
  rfl

/-- Reading ahead takes the next packets, at least one while there are any. -/
theorem readAhead_taken {f : File} {extended : Int} {xs data unread : List Packet} {ended : Bool}
    (h : f.readAhead extended xs = .ok (data, unread, ended)) :
    ∃ taken, xs = taken ++ unread ∧ data = taken.map f.asBuffered ∧
      (ended = true → unread = []) ∧ (taken = [] → unread = []) := by
  induction xs generalizing data with
  | nil =>
      cases h
      exact ⟨[], rfl, rfl, fun _ => rfl, fun _ => rfl⟩
  | cons x xs ih =>
      unfold readAhead at h
      obtain ⟨y, hy, h⟩ := bind_eq_ok.mp h
      split_ifs at h
      · cases h
        exact ⟨[x], rfl, by rw [adjust_eq hy]; rfl, nofun, nofun⟩
      · obtain ⟨⟨data', unread', ended'⟩, hrest, h⟩ := bind_eq_ok.mp h
        cases h
        obtain ⟨taken, rfl, rfl, hended, -⟩ := ih hrest
        exact ⟨x :: taken, rfl, by rw [adjust_eq hy]; rfl, hended, nofun⟩

theorem readAhead_spec {f : File} {extended : Int} {xs data unread : List Packet} {ended : Bool}
    (h : f.readAhead extended xs = .ok (data, unread, ended)) :
    data.map played ++ unread.map f.shown = xs.map f.shown ∧ (ended = true → unread = []) ∧
      (data = [] → unread = []) := by
  obtain ⟨taken, rfl, rfl, hended, hempty⟩ := readAhead_taken h
  refine ⟨?_, hended, fun hdata => hempty (List.map_eq_nil_iff.mp hdata)⟩
  rw [List.map_map, List.map_append]
  rfl

/-- Fields that a pass does not change. -/
structure SamePass (f f' : File) : Prop where
  file : f'.file = f.file
  timestart : f'.timestart = f.timestart
  isVideo : f'.isVideo = f.isVideo
  firstTs : ∀ s, (f'.framesets s).firstTs = (f.framesets s).firstTs

theorem SamePass.trans {f g h : File} (hfg : SamePass f g) (hgh : SamePass g h) : SamePass f h :=
  ⟨hgh.file.trans hfg.file, hgh.timestart.trans hfg.timestart, hgh.isVideo.trans hfg.isVideo,
    fun s => (hgh.firstTs s).trans (hfg.firstTs s)⟩

theorem SamePass.shown {f f' : File} (h : SamePass f f') : f'.shown = f.shown := by
  ext1 x
  unfold File.shown
  rw [h.timestart, h.isVideo, h.firstTs]

/-- Reading ahead moves packets from the file to the buffer. -/
theorem fillData_spec {f f' : File} (h : f.fillData = .ok f')
    (hend : f.readError = true → f.unread = []) :
    SamePass f f' ∧ f'.framesets = f.framesets ∧ f'.waiting = f.waiting ∧
      (f'.readError = true → f'.unread = []) ∧ (f'.data = [] → f'.unread = []) := by
  rcases fillData_cases h with ⟨herror, rfl⟩ | ⟨extended, data, unread, ended, hread, rfl⟩
  · exact ⟨⟨rfl, rfl, rfl, fun _ => rfl⟩, rfl, rfl, hend, fun _ => hend herror⟩
  · obtain ⟨hmap, hended, hempty⟩ := readAhead_spec hread
    refine ⟨⟨rfl, rfl, rfl, fun _ => rfl⟩, rfl, ?_, hended, ?_⟩
    · show (f.data ++ data).map played ++ unread.map f.shown = _
      rw [List.map_append, List.append_assoc, hmap]
      rfl
    · exact fun hdata => hempty (List.append_eq_nil_iff.mp hdata).2

theorem staticEndFrames_spec {fs fs' : Framesets} {sids : List UInt8} {es : List Emission}
    (h : staticEndFrames fs sids = .ok (fs', es)) :
    (∀ s, (fs' s).timestamp = (fs s).timestamp ∧ (fs' s).firstTs = (fs s).firstTs) ∧
      Emission.packets es = [] := by
  induction sids generalizing fs es with
  | nil =>
      cases h
      exact ⟨fun _ => ⟨rfl, rfl⟩, rfl⟩
  | cons sid sids ih =>
      unfold staticEndFrames at h
      obtain ⟨⟨fs₁, es₁⟩, hone, h⟩ := bind_eq_ok.mp h
      obtain ⟨⟨fs₂, es₂⟩, hrest, h⟩ := bind_eq_ok.mp h
      cases h
      obtain ⟨hkeeps, hpackets⟩ := ih hrest
      have hone' : (∀ s, (fs₁ s).timestamp = (fs s).timestamp ∧
          (fs₁ s).firstTs = (fs s).firstTs) ∧ Emission.packets es₁ = [] := by
        unfold staticEndFrame at hone
        split_ifs at hone
        · cases hone
          exact ⟨fun _ => ⟨rfl, rfl⟩, rfl⟩
        · obtain ⟨⟨d, ends⟩, hends, hone⟩ := bind_eq_ok.mp hone
          cases hone
          obtain ⟨hts, hfirst, hnone⟩ := endFrames_spec hends
          refine ⟨fun s => ?_, hnone⟩
          by_cases hs : s = sid
          · rw [hs, Function.update_self]
            exact ⟨hts, hfirst⟩
          · rw [Function.update_of_ne hs]
            exact ⟨rfl, rfl⟩
      refine ⟨fun s => ⟨(hkeeps s).1.trans (hone'.1 s).1, (hkeeps s).2.trans (hone'.1 s).2⟩, ?_⟩
      rw [Emission.packets_append, hone'.2, hpackets]
      rfl

theorem finishStatic_spec {f f' : File} {empty : Bool} {es : List Emission}
    (h : f.finishStatic empty = .ok (f', es)) :
    SamePass f f' ∧ f'.data = f.data ∧ f'.unread = f.unread ∧ f'.readError = f.readError ∧
      (∀ s, (f'.framesets s).timestamp = (f.framesets s).timestamp) ∧
      Emission.packets es = [] := by
  rcases finishStatic_cases h with ⟨rfl, rfl⟩ | ⟨fs, -, hstatic, rfl⟩
  · exact ⟨⟨rfl, rfl, rfl, fun _ => rfl⟩, rfl, rfl, rfl, fun _ => rfl, rfl⟩
  · obtain ⟨hkeeps, hpackets⟩ := staticEndFrames_spec hstatic
    exact ⟨⟨rfl, rfl, rfl, fun s => (hkeeps s).2⟩, rfl, rfl, rfl, fun s => (hkeeps s).1, hpackets⟩

/-! ## §4  One pass over the file -/

/-- What went out in this pass and what waits make up the file, and nothing that waits is too
old. -/
structure Replays (file : List Packet) (f : File) (log : List Emission) : Prop where
  source : f.file = file
  ordered : Ordered file
  whole : file.map f.shown = Emission.packets log ++ f.waiting
  due : Due f.framesets f.waiting
  atEnd : f.readError = true → f.unread = []

theorem Replays.ordered_waiting {file : List Packet} {f : File} {log : List Emission}
    (h : Replays file f log) : Ordered f.waiting := by
  have hshown : Ordered (file.map f.shown) := by
    refine List.Pairwise.map f.shown (fun x y hxy hsid => ?_) h.ordered
    have hle : x.1.timestamp ≤ y.1.timestamp := hxy hsid
    have hsame : x.1.streamID = y.1.streamID := hsid
    show x.1.timestamp - (f.framesets x.1.streamID).firstTs + f.timestart ≤
      y.1.timestamp - (f.framesets y.1.streamID).firstTs + f.timestart
    rw [hsame]
    omega
  rw [h.whole] at hshown
  exact (List.pairwise_append.mp hshown).2.1

/-- Timestamps and framesets are the same for a packet in the buffer and as it is played. -/
theorem due_played {fs : Framesets} {data l : List Packet} :
    Due fs (data.map played ++ l) ↔ Due fs (data ++ l) := by
  unfold Due
  simp only [List.mem_append, List.mem_map, or_imp, forall_and, forall_exists_index, and_imp,
    forall_apply_eq_imp_iff₂]
  exact Iff.rfl

theorem ordered_played {data l : List Packet} :
    Ordered (data.map played ++ l) ↔ Ordered (data ++ l) := by
  unfold Ordered
  simp only [List.pairwise_append, List.pairwise_map, List.mem_map, forall_exists_index, and_imp,
    forall_apply_eq_imp_iff₂]
  exact Iff.rfl

/-- **One tick.** What went out before it and in it is the beginning of the file, and the rest
waits; a file that starts again was played to its end. -/
theorem tick_replays {file : List Packet} {f f' : File} {c : Tick} {log out : List Emission}
    {looped : Bool} (h : Replays file f log) (htick : f.tick c = .ok (f', out, looped)) :
    file.map f.shown = Emission.packets (log ++ out) ++ (if looped then [] else f'.waiting) ∧
      Replays file f' (if looped then [] else log ++ out) := by
  rcases tick_cases htick with ⟨rfl, rfl, rfl⟩ |
    ⟨fs, es, rest, f₁, empty, f₂, ends, hdispatch, hfill, hstatic, -, rfl, hlast⟩
  · rw [List.append_nil]
    exact ⟨h.whole, h⟩
  · obtain ⟨hfirst, hpackets, hdue⟩ := dispatch_spec (l := f.unread.map f.shown)
      (due_played.mp h.due) (ordered_played.mp h.ordered_waiting) hdispatch
    obtain ⟨hsame₁, hfs₁, hwaiting₁, hend₁, hempty₁⟩ := fillData_spec hfill h.atEnd
    obtain ⟨hsame₂, hdata₂, hunread₂, herror₂, hts₂, hends⟩ := finishStatic_spec hstatic
    have hsame₀ : SamePass f { f with framesets := fs, data := rest } := ⟨rfl, rfl, rfl, hfirst⟩
    have hsame : SamePass f f₂ := (hsame₀.trans hsame₁).trans hsame₂
    have hwaiting₂ : f₂.waiting = rest.map played ++ f.unread.map f.shown := by
      unfold waiting at hwaiting₁ ⊢
      rw [hdata₂, hunread₂, hsame₂.shown, hwaiting₁, hsame₀.shown]
    have hwhole : file.map f.shown = Emission.packets (log ++ (es ++ ends)) ++ f₂.waiting := by
      rw [h.whole, Emission.packets_append, Emission.packets_append, hends, hwaiting₂, waiting,
        ← hpackets]
      simp only [List.append_assoc, List.nil_append]
    rcases hlast with ⟨rfl, rfl⟩ | ⟨rfl, hdata, rfl⟩
    · refine ⟨hwhole, hsame.file.trans h.source, h.ordered, ?_, ?_, ?_⟩
      · rw [hsame.shown]
        exact hwhole
      · rw [hwaiting₂]
        exact (due_played.mpr hdue).congr fun s => (hts₂ s).trans (by rw [hfs₁])
      · rw [herror₂, hunread₂]
        exact hend₁
    · -- the buffer is empty only at the end of the file
      have hnothing : f₂.waiting = [] := by
        have hunread : f₂.unread = [] := by
          rw [hunread₂]
          exact hempty₁ (by rw [← hdata₂, hdata])
        rw [waiting, hdata, hunread]
        rfl
      have hsource : f₂.file = file := hsame.file.trans h.source
      refine ⟨by rw [hwhole, hnothing]; rfl, hsource, h.ordered, ?_, ?_, nofun⟩
      · show file.map (f₂.restart c.now).shown =
          f₂.data.map played ++ f₂.file.map (f₂.restart c.now).shown
        rw [hdata, hsource]
        rfl
      · exact fun x _ => .inl rfl

/-- Probing leaves the file, the buffer and the timestamps alone. -/
theorem probe_begin (file : List Packet) (looping : Bool) :
    let f := (probe file 1000 (-1000) { file := file, looping := looping }).1
    f.file = file ∧ f.data = [] ∧ ∀ s, (f.framesets s).timestamp = 0 := by
  refine probe_keeps
    (P := fun f => f.file = file ∧ f.data = [] ∧ ∀ s, (f.framesets s).timestamp = 0) ?_
    file 1000 (-1000) ⟨rfl, rfl, fun _ => rfl⟩
  rintro f x ⟨hfile, hdata, hts⟩
  refine ⟨hfile, hdata, fun s => ?_⟩
  by_cases hs : s = x.1.streamID
  · simp only [noteFrameset, hs, Function.update_self]
    split_ifs <;> exact hts _
  · simp only [noteFrameset, Function.update_of_ne hs]
    exact hts s

/-- A file that was opened and not played. -/
theorem replays_begin {file : List Packet} (hord : Ordered file) (looping : Bool) (now : Int) :
    Replays file (begin { file := file, looping := looping } now) [] := by
  obtain ⟨hfile, hdata, hts⟩ := probe_begin file looping
  refine ⟨hfile, hord, ?_, ?_, nofun⟩
  · show file.map _ = [] ++ ((probe file 1000 (-1000) _).1.data.map played ++
      (probe file 1000 (-1000) _).1.file.map _)
    rw [hdata, hfile]
    rfl
  · exact fun x _ => .inl (hts _)

/-- Two framesets that start at different times. -/
def recording : List Packet :=
  [({ timestamp := 10, streamID := 0, frameNumber := 0, channel := Channel.kColour },
    { data := [1] }),
   ({ timestamp := 20, streamID := 1, frameNumber := 0, channel := Channel.kColour },
    { data := [2] }),
   ({ timestamp := 50, streamID := 0, frameNumber := 0, channel := Channel.kColour },
    { data := [3] })]

/-- The stream after the tick of `begin`, which reads the packets. -/
def recordingRead : File :=
  match (begin { file := recording } 1000).tick { ts := 1000, now := 1000 } with
  | .ok (f, _, _) => f
  | .error _ => { file := [] }

end BeyondProtocol.File
