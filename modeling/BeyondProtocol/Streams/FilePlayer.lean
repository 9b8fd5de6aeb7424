import BeyondProtocol.Framework.Fallible
import BeyondProtocol.Protocol.Packet

/-!
# Playing a file (`filestream.cpp`)

A file is opened, probed for its framesets and then played by `tick`. Packets are
read ahead into `data_`; a tick hands those that are due to the thread pool and
generates the EndFrames a recording does not have. Timestamps are moved so that
the file starts when it is played.

A task of the pool takes its packet out of `data_` when it is done. The model
takes a packet out when it is handed over: until all tasks are done the next tick
does nothing, and the only places where a tick sees whether they are done already
are the two tests for an empty `data_` at its end.
-/

namespace BeyondProtocol

open Framework

/-- Ways a tick ends without returning: signed overflow, and an index outside `packet_counts`. -/
inductive FileFault : Type where
  | overflow
  | outOfRange
deriving DecidableEq, Repr

/-- A result of 64-bit arithmetic. -/
def int64 (i : Int) : Except FileFault Int :=
  if -2 ^ 63 ≤ i ∧ i < 2 ^ 63 then .ok i else .error .overflow

/-- What goes out to the callbacks of the stream. -/
inductive Emission : Type where
  | packet (x : Packet)
  | endFrame (x : Packet)
deriving DecidableEq

namespace Emission

/-- The packets of the file among what goes out. -/
def packets (es : List Emission) : List Packet :=
  es.filterMap fun
    | .packet x => some x
    | .endFrame _ => none

@[simp] theorem packets_append (es fs : List Emission) :
    packets (es ++ fs) = packets es ++ packets fs :=
  List.filterMap_append

end Emission

/-! ## §1  Counting the packets of a frameset -/

/-- `File::FramesetData`; no `tick` reads `interval`. -/
structure FramesetData where
  frameCount : Nat := 0
  needsEndframe : Bool := true
  packetCounts : List Nat := []
  timestamp : Int := 0
  firstTs : Int := -1
deriving DecidableEq

namespace FramesetData

/-- `packet_counts` with at least `n` entries. -/
def padded (d : FramesetData) (n : Nat) : List Nat :=
  d.packetCounts ++ List.replicate (n - d.packetCounts.length) 0

/-- The counting of a packet that is handed over. Packets of the whole frameset count for
frame 0. -/
def count (d : FramesetData) (x : Packet) : FramesetData :=
  if x.1.isEndFrame then { d with needsEndframe := false }
  else if !d.needsEndframe then d
  else if x.1.frameNumber < 255 then
    { d with
      frameCount := max d.frameCount (x.1.frameNumber.toNat + x.2.frameCount.toNat)
      packetCounts := (d.padded (x.1.frameNumber.toNat + 1)).modify x.1.frameNumber.toNat (· + 1) }
  else
    { d with
      frameCount := max d.frameCount 1
      packetCounts := (d.padded (max d.frameCount 1)).modify 0 (· + 1) }

/-- The EndFrame of frame `j`. Frame number and count are cut down to eight bits. -/
def endFramePacket (d : FramesetData) (sid : UInt8) (j : Nat) : Packet :=
  ({ timestamp := d.timestamp, streamID := sid, frameNumber := UInt8.ofNat j,
     channel := Channel.kEndFrame },
   { bitrate := 255, dataFlags := UInt8.ofNat (d.packetCounts.getD j 0 + 1) })

/-- The EndFrames of all frames, which also starts their counts again. -/
def endFrames (d : FramesetData) (sid : UInt8) : Except FileFault (FramesetData × List Emission) :=
  if d.packetCounts.length < d.frameCount then .error .outOfRange
  else .ok ({ d with packetCounts := List.replicate d.frameCount 0 ++
      d.packetCounts.drop d.frameCount },
    (List.range d.frameCount).map fun j => .endFrame (d.endFramePacket sid j))

/-- The EndFrames of a frameset that moves on, if the file has none of its own. -/
def finishFrame (d : FramesetData) (sid : UInt8) :
    Except FileFault (FramesetData × List Emission) :=
  if d.needsEndframe then d.endFrames sid else .ok (d, [])

end FramesetData

/-! ## §2  The packets that are due -/

abbrev Framesets : Type := UInt8 → FramesetData

/-- The timestamp a frameset is at when the loop comes to `x`. -/
def FramesetData.started (d : FramesetData) (x : Packet) : FramesetData :=
  if d.timestamp = 0 then { d with timestamp := x.1.timestamp } else d

namespace File

/-- A packet as the callbacks see it. -/
def played (x : Packet) : Packet := ({ x.1 with localTimestamp := x.1.timestamp }, x.2)

/-- The packet `x` of `data_` in the loop of a tick with `size` framesets, `complete` of them (or
of their frames) done. The result says whether the loop goes on behind `x`; if not, `x` stays. A
packet of the next frame is come to twice: first the frameset moves on, and if that does not end
the loop the packet is due. -/
def visit (ts : Int) (size complete : Nat) (fs : Framesets) (x : Packet) :
    Except FileFault (Framesets × Nat × List Emission × Bool) :=
  let sid := x.1.streamID
  let d := (fs sid).started x
  if ts < x.1.timestamp then .ok (Function.update fs sid d, complete, [], false)
  else if x.1.timestamp < d.timestamp then
    -- too old: erased
    .ok (Function.update fs sid d, complete, [], true)
  else if x.1.timestamp ≤ d.timestamp then
    .ok (Function.update fs sid (d.count x), complete, [.packet (played x)], true)
  else do
    let (d, ends) ← d.finishFrame sid
    let d := { d with timestamp := x.1.timestamp }
    if complete + 1 = size then
      return (Function.update fs sid d, complete + 1, ends, false)
    else
      return (Function.update fs sid (d.count x), complete + 1, ends ++ [.packet (played x)], true)

/-- What one turn of the loop can do. -/
theorem visit_cases {ts : Int} {size complete complete' : Nat} {fs fs' : Framesets} {x : Packet}
    {es : List Emission} {more : Bool}
    (h : visit ts size complete fs x = .ok (fs', complete', es, more)) :
    let d := (fs x.1.streamID).started x
    (fs' = Function.update fs x.1.streamID d ∧ es = [] ∧ more = false) ∨
    (x.1.timestamp < d.timestamp ∧ fs' = Function.update fs x.1.streamID d ∧ es = [] ∧
      more = true) ∨
    (x.1.timestamp = d.timestamp ∧ fs' = Function.update fs x.1.streamID (d.count x) ∧
      es = [.packet (played x)] ∧ more = true) ∨
    ∃ d' ends, d.timestamp < x.1.timestamp ∧ d.finishFrame x.1.streamID = .ok (d', ends) ∧
      ((fs' = Function.update fs x.1.streamID { d' with timestamp := x.1.timestamp } ∧
        es = ends ∧ more = false) ∨
      (fs' = Function.update fs x.1.streamID ({ d' with timestamp := x.1.timestamp }.count x) ∧
        es = ends ++ [.packet (played x)] ∧ more = true)) := by
  intro d
  unfold visit at h
  dsimp only at h
  split_ifs at h with hts hold hnow hsize
  · cases h
    exact .inl ⟨rfl, rfl, rfl⟩
  · cases h
    exact .inr (.inl ⟨hold, rfl, rfl, rfl⟩)
  · cases h
    exact .inr (.inr (.inl ⟨le_antisymm hnow (not_lt.mp hold), rfl, rfl, rfl⟩))
  · obtain ⟨⟨d', ends⟩, hends, h⟩ := bind_eq_ok.mp h
    cases h
    exact .inr (.inr (.inr ⟨d', ends, not_le.mp hnow, hends, .inl ⟨rfl, rfl, rfl⟩⟩))
  · obtain ⟨⟨d', ends⟩, hends, h⟩ := bind_eq_ok.mp h
    cases h
    exact .inr (.inr (.inr ⟨d', ends, not_le.mp hnow, hends, .inr ⟨rfl, rfl, rfl⟩⟩))

/-- The loop over `data_`, with what stays of it. -/
def dispatch (ts : Int) (size : Nat) : Nat → Framesets → List Packet →
    Except FileFault (Framesets × List Emission × List Packet)
  | _, fs, [] => .ok (fs, [], [])
  | complete, fs, x :: rest => do
      let (fs, complete, es, more) ← visit ts size complete fs x
      if more then
        let (fs, es', rest) ← dispatch ts size complete fs rest
        return (fs, es ++ es', rest)
      else return (fs, es, x :: rest)

end File

/-! ## §3  The file stream -/

/-- A file stream in read mode. -/
structure File where
  /-- What `readPacket` returns from the start of the file on. -/
  file : List Packet
  /-- What it will return next. -/
  unread : List Packet := []
  data : List Packet := []
  framesets : Framesets := fun _ => {}
  /-- The keys of `framesets_`. -/
  known : Finset UInt8 := ∅
  timestart : Int := 0
  checked : Bool := false
  active : Bool := false
  isVideo : Bool := true
  readError : Bool := false
  looping : Bool := false

namespace File

/-- The frameset of a packet that is probed, with its first timestamp. -/
def noteFrameset (f : File) (x : Packet) : File :=
  let sid := x.1.streamID
  let d := f.framesets sid
  { f with
    framesets := Function.update f.framesets sid
      (if d.firstTs < 0 then { d with firstTs := x.1.timestamp } else d)
    known := insert sid f.known }

/-- The loop of `_checkFile`: read until `count` different timestamps of video were seen. -/
def probe : List Packet → Nat → Int → File → File × Nat
  | _, 0, _, f => (f, 0)
  | [], count, _, f => (f, count)
  | x :: xs, count + 1, ts, f =>
      if 0 < x.1.timestamp && x.1.channel.isVideo && ts < x.1.timestamp then
        probe xs count x.1.timestamp (f.noteFrameset x)
      else probe xs (count + 1) ts (f.noteFrameset x)

/-- `_checkFile` -/
def checkFile (f : File) : File :=
  let (f, count) := probe f.file 1000 (-1000) f
  { f with
    checked := true
    isVideo := decide (count < 9)
    looping := f.looping && decide (count < 9) }

/-- `begin`, up to its first tick. -/
def begin (f : File) (now : Int) : File :=
  if f.active then f
  else
    let f := if f.checked then f else f.checkFile
    { f with unread := f.file, timestart := now, active := true, readError := false }

/-- `setProperty(StreamProperty::kLooping, value)` -/
def setLooping (f : File) (value : Bool) : File := { f with looping := value }

def kStreamCapStatic : Nat := 0x01

def kStreamCapRecorded : Nat := 0x02

/-- The time of a packet when it is played, and its capabilities. -/
def adjust (f : File) (x : Packet) : Except FileFault Packet := do
  let offset ← int64 (x.1.timestamp - (f.framesets x.1.streamID).firstTs)
  let timestamp ← int64 (offset + f.timestart)
  return ({ x.1 with
    timestamp := timestamp
    hintCapability := (if f.isVideo then 0 else kStreamCapStatic) ||| kStreamCapRecorded }, x.2)

/-- The packets read ahead until one is later than `extended`, what is left in the file, and
whether its end was met. -/
def readAhead (f : File) (extended : Int) : List Packet →
    Except FileFault (List Packet × List Packet × Bool)
  | [] => .ok ([], [], true)
  | x :: rest => do
      let x ← f.adjust x
      if extended < x.1.timestamp then return ([x], rest, false)
      else
        let (data, unread, ended) ← readAhead f extended rest
        return (x :: data, unread, ended)

/-- `extended_ts`: 200 ms behind the latest frameset. -/
def extendedTs (f : File) : Except FileFault Int :=
  int64 (f.known.fold max (-2 ^ 63) (fun s => if (f.framesets s).timestamp ≤ 0 then f.timestart
    else (f.framesets s).timestamp) + 200)

/-- The EndFrames of one frameset of a static file. -/
def staticEndFrame (fs : Framesets) (sid : UInt8) : Except FileFault (Framesets × List Emission) :=
  if !(fs sid).needsEndframe then .ok (fs, [])
  else do
    let (d, ends) ← { fs sid with needsEndframe := false }.endFrames sid
    return (Function.update fs sid d, ends)

def staticEndFrames (fs : Framesets) : List UInt8 → Except FileFault (Framesets × List Emission)
  | [] => .ok (fs, [])
  | sid :: sids => do
      let (fs, es) ← staticEndFrame fs sid
      let (fs, es') ← staticEndFrames fs sids
      return (fs, es ++ es')

/-- A call of `tick`. What other threads decide is part of it: the tick is left out while tasks or
another call are `busy`; the tasks it starts may be done by its two tests for an empty `data_`. -/
structure Tick where
  ts : Int
  /-- The time at a restart. -/
  now : Int
  busy : Bool := false
  doneFirst : Bool := false
  doneSecond : Bool := false

/-- The last part of a tick: EndFrames of a static file. -/
def finishStatic (f : File) (empty : Bool) : Except FileFault (File × List Emission) :=
  if empty && !f.isVideo then do
    let (fs, es) ← staticEndFrames f.framesets f.known.sort
    return ({ f with framesets := fs }, es)
  else .ok (f, [])

/-- The start of another pass. -/
def restart (f : File) (now : Int) : File :=
  { f with
    unread := f.file
    readError := false
    timestart := now
    framesets := fun s => { f.framesets s with timestamp := 0 } }

/-- The reading part of a tick. -/
def fillData (f : File) : Except FileFault File := do
  let extended ← f.extendedTs
  if f.readError then return f
  else
    let (data, unread, ended) ← f.readAhead extended f.unread
    return { f with
      data := f.data ++ data
      unread := unread
      known := f.known ∪ (data.map fun x => x.1.streamID).toFinset
      readError := ended }

/-- `tick`, with what goes out and whether the file starts again. -/
def tick (f : File) (c : Tick) : Except FileFault (File × List Emission × Bool) :=
  if !f.active || c.busy then .ok (f, [], false)
  else do
    let (fs, es, rest) ← dispatch c.ts f.known.card 0 f.framesets f.data
    let f ← fillData { f with framesets := fs, data := rest }
    let idle := (Emission.packets es).isEmpty
    let (f, ends) ← f.finishStatic (f.data.isEmpty && (idle || c.doneFirst))
    if f.data.isEmpty && (idle || c.doneFirst || c.doneSecond) && f.looping then
      return (f.restart c.now, es ++ ends, true)
    else return (f, es ++ ends, false)

/-! ## §4  What a tick can do -/

/-- Probing keeps what each packet keeps. -/
theorem probe_keeps {P : File → Prop} (hstep : ∀ f x, P f → P (noteFrameset f x))
    (xs : List Packet) (count : Nat) (ts : Int) {f : File} (h : P f) :
    P (probe xs count ts f).1 := by
  induction xs generalizing count ts f with
  | nil => cases count <;> exact h
  | cons x xs ih =>
      cases count with
      | zero => exact h
      | succ count =>
          unfold probe
          split_ifs
          · exact ih _ _ (hstep f x h)
          · exact ih _ _ (hstep f x h)

theorem fillData_cases {f f' : File} (h : f.fillData = .ok f') :
    (f.readError = true ∧ f' = f) ∨
    ∃ extended data unread ended, f.readAhead extended f.unread = .ok (data, unread, ended) ∧
      f' = { f with
        data := f.data ++ data
        unread := unread
        known := f.known ∪ (data.map fun x => x.1.streamID).toFinset
        readError := ended } := by
  unfold fillData at h
  obtain ⟨extended, -, h⟩ := bind_eq_ok.mp h
  split_ifs at h with herror
  · cases h
    exact .inl ⟨herror, rfl⟩
  · obtain ⟨⟨data, unread, ended⟩, hread, h⟩ := bind_eq_ok.mp h
    cases h
    exact .inr ⟨extended, data, unread, ended, hread, rfl⟩

theorem finishStatic_cases {f f' : File} {empty : Bool} {es : List Emission}
    (h : f.finishStatic empty = .ok (f', es)) :
    (f' = f ∧ es = []) ∨
    ∃ fs, empty = true ∧ staticEndFrames f.framesets f.known.sort = .ok (fs, es) ∧
      f' = { f with framesets := fs } := by
  unfold finishStatic at h
  split_ifs at h with hstatic
  · obtain ⟨⟨fs, es'⟩, hes, h⟩ := bind_eq_ok.mp h
    cases h
    rw [Bool.and_eq_true] at hstatic
    exact .inr ⟨fs, hstatic.1, hes, rfl⟩
  · cases h
    exact .inl ⟨rfl, rfl⟩

/-- A tick that was not left out, part by part. -/
theorem tick_cases {f f' : File} {c : Tick} {out : List Emission} {looped : Bool}
    (h : f.tick c = .ok (f', out, looped)) :
    (f' = f ∧ out = [] ∧ looped = false) ∨
    ∃ fs es rest f₁ empty f₂ ends,
      dispatch c.ts f.known.card 0 f.framesets f.data = .ok (fs, es, rest) ∧
      fillData { f with framesets := fs, data := rest } = .ok f₁ ∧
      f₁.finishStatic empty = .ok (f₂, ends) ∧ (empty = true → f₁.data = []) ∧
      out = es ++ ends ∧
      (looped = false ∧ f' = f₂ ∨ looped = true ∧ f₂.data = [] ∧ f' = f₂.restart c.now) := by
  unfold tick at h
  split_ifs at h
  · cases h
    exact .inl ⟨rfl, rfl, rfl⟩
  · obtain ⟨⟨fs, es, rest⟩, hdispatch, h⟩ := bind_eq_ok.mp h
    obtain ⟨f₁, hfill, h⟩ := bind_eq_ok.mp h
    obtain ⟨⟨f₂, ends⟩, hstatic, h⟩ := bind_eq_ok.mp h
    refine .inr ⟨fs, es, rest, f₁, _, f₂, ends, hdispatch, hfill, hstatic, ?_, ?_⟩
    · intro hempty
      rw [Bool.and_eq_true, List.isEmpty_iff] at hempty
      exact hempty.1
    · dsimp only at h
      split_ifs at h with hlast
      · cases h
        simp only [Bool.and_eq_true, List.isEmpty_iff] at hlast
        exact ⟨rfl, .inr ⟨rfl, hlast.1.1, rfl⟩⟩
      · cases h
        exact ⟨rfl, .inl ⟨rfl, rfl⟩⟩

end File

end BeyondProtocol
