import BeyondProtocol.Streams.Stream

/-!
# The muxer (`muxer.cpp`, `muxer.hpp`)

A muxer presents the frames of several child streams as one stream. Each frame of
a child gets a local id when it is first heard of: `imap` takes stream id and
remote frame to the local id, `omap` takes the local id back to the remote frame
and the entry of the child.

Child streams are known by reference only, so the model is generic in their type.
A `StreamEntry*` is modelled by the id of the entry, which no two entries share;
reading through the pointer of an erased entry is undefined.
-/

namespace BeyondProtocol

/-- `Muxer::StreamEntry`, without its handles: the callbacks of an entry run while
it is in the list. -/
structure StreamEntry (σ : Type) where
  id : Nat
  stream : σ
  /-- The frameset all frames of the stream go to, or -1. -/
  fixedFs : Int := -1
deriving DecidableEq

structure Muxer (σ : Type) where
  /-- Local framesets, by stream id and remote frameset. -/
  fsmap : Nat → Option Nat := fun _ => none
  sourcecount : Int → Nat := fun _ => 0
  imap : Nat → Option FrameID := fun _ => none
  omap : FrameID → Option (FrameID × Nat) := fun _ => none
  streams : List (StreamEntry σ) := []
  streamIds : Nat := 0
  framesets : Nat := 0
  /-- The state of the base class. -/
  base : Stream := {}

namespace Muxer

variable {σ : Type}

/-! ## §1  Packed keys -/

/-- The key of `imap`, an `int64_t` with the stream id above bit 32. -/
def iid (i : Nat) (id : FrameID) : Nat := (i <<< 32) ||| id.id.toNat

/-- The key of `fsmap`, an `int` with the stream id above bit 16. -/
def fsiid (i fs : Nat) : Nat := ((i <<< 16) ||| fs) % 2 ^ 32

/-! ## §2  Mapping -/

/-- The local frameset of a remote frameset, the next free one if it is new. -/
def mapFrameset (m : Muxer σ) (i fs : Nat) : Muxer σ × Nat :=
  match m.fsmap (fsiid i fs) with
  | some v => (m, v)
  | none =>
      ({ m with
          fsmap := Function.update m.fsmap (fsiid i fs) (some m.framesets)
          framesets := m.framesets + 1 }, m.framesets)

/-- A local id for a frame that has none. -/
def allocate (m : Muxer σ) (s : StreamEntry σ) (id : FrameID) : Muxer σ × FrameID :=
  if 0 ≤ s.fixedFs then
    ({ m with
        sourcecount := Function.update m.sourcecount s.fixedFs (m.sourcecount s.fixedFs + 1) },
      FrameID.ofPair s.fixedFs.toNat (m.sourcecount s.fixedFs))
  else
    let (m, v) := m.mapFrameset s.id id.frameset
    (m, FrameID.ofPair v id.source)

/-- `_mapFromInput` -/
def mapFromInput (m : Muxer σ) (s : StreamEntry σ) (id : FrameID) : Muxer σ × FrameID :=
  match m.imap (iid s.id id) with
  | some l => (m, l)
  | none =>
      let (m, l) := m.allocate s id
      ({ m with
          imap := Function.update m.imap (iid s.id id) (some l)
          omap := Function.update m.omap l (some (id, s.id)) }, l)

/-- `_mapFromInput` on a constant muxer. -/
def findInput (m : Muxer σ) (s : StreamEntry σ) (id : FrameID) : Except Fault FrameID :=
  match m.imap (iid s.id id) with
  | some l => .ok l
  | none => .error .thrown

/-- `_mapToOutput` -/
def mapToOutput (m : Muxer σ) (id : FrameID) : FrameID × Option Nat :=
  match m.omap id with
  | some (remote, p) => (remote, some p)
  | none => (id, none)

/-- Reading through a `StreamEntry*`. -/
def entryAt (m : Muxer σ) (p : Nat) : Except Fault (StreamEntry σ) :=
  match m.streams.find? fun e => e.id = p with
  | some e => .ok e
  | none => .error .undefined

def findRemote (m : Muxer σ) (l : FrameID) : Except Fault FrameID :=
  match m.mapToOutput l with
  | (_, none) => .error .thrown
  | (remote, some _) => .ok remote

def originStream (m : Muxer σ) (l : FrameID) : Except Fault (Option σ) :=
  match m.mapToOutput l with
  | (_, none) => .ok none
  | (_, some p) => do
      let e ← m.entryAt p
      return some e.stream

/-- `post`: `none` is the return value `false`, otherwise the child whose `post` is
called, with the packet it is called with. -/
def post (m : Muxer σ) (spkt : StreamPacket) (pkt : DataPacket) :
    Except Fault (Option (σ × Packet)) :=
  match m.mapToOutput spkt.frame with
  | (_, none) => .ok none
  | (remote, some p) => do
      let e ← m.entryAt p
      return some (e.stream, { spkt with
        streamID := UInt8.ofNat remote.frameset
        frameNumber := UInt8.ofNat remote.source }, pkt)

/-! ## §3  Callbacks of a child stream -/

/-- A packet of a child as the muxer passes it on. The ids of a packet have eight
bits each. -/
def onPacket (m : Muxer σ) (s : StreamEntry σ) (spkt : StreamPacket) (pkt : DataPacket) :
    Muxer σ × Packet :=
  let (m, l) := m.mapFromInput s spkt.frame
  (m, { spkt with
    streamID := UInt8.ofNat l.frameset
    frameNumber := UInt8.ofNat l.source }, pkt)

/-- What a child reports as seen, the muxer has seen. -/
def onAvailable (m : Muxer σ) (s : StreamEntry σ) (id : FrameID) (c : Channel) :
    Except Fault (Muxer σ × Bool) := do
  let (m, l) := m.mapFromInput s id
  let (base, fired) ← m.base.seen l c
  return ({ m with base := base }, fired)

theorem onAvailable_eq {m m' : Muxer σ} {s : StreamEntry σ} {id : FrameID} {c : Channel}
    {fired : Bool} (h : m.onAvailable s id c = .ok (m', fired)) :
    ∃ base, (m.mapFromInput s id).1.base.seen (m.mapFromInput s id).2 c = .ok (base, fired) ∧
      m' = { (m.mapFromInput s id).1 with base := base } := by
  obtain ⟨⟨base, b⟩, hseen, hret⟩ := Framework.bind_eq_ok.mp h
  cases hret
  exact ⟨base, hseen, rfl⟩

/-- The frames a request of a child is for: `frames` are the frames of the child. -/
def requestedFrames (frames : List FrameID) (req : Request) : List FrameID :=
  if req.id.frameset = kAll ∨ req.id.source = kAll then
    frames.filter fun i => (req.id.frameset = kAll || req.id.frameset = i.frameset) &&
      (req.id.source = kAll || req.id.source = i.source)
  else [req.id]

/-- The local ids of frames of a child, in order. -/
def mapAll (m : Muxer σ) (s : StreamEntry σ) : List FrameID → Muxer σ × List FrameID
  | [] => (m, [])
  | id :: ids =>
      let (m, l) := m.mapFromInput s id
      let (m, ls) := m.mapAll s ids
      (m, l :: ls)

/-- The requests the muxer raises for a request of a child. -/
def onRequest (m : Muxer σ) (s : StreamEntry σ) (frames : List FrameID) (req : Request) :
    Muxer σ × List Request :=
  let (m, ls) := m.mapAll s (requestedFrames frames req)
  (m, ls.map fun l => { req with id := l })

/-! ## §4  Streams of a muxer -/

/-- `add`, with -1 for a stream without a fixed frameset. -/
def add (m : Muxer σ) (s : σ) (fsid : Int) : Muxer σ :=
  { m with
    streams := m.streams ++ [⟨m.streamIds, s, fsid⟩]
    streamIds := m.streamIds + 1 }

variable [DecidableEq σ]

/-- The entry of a stream. -/
def findEntry (m : Muxer σ) (s : σ) : Option (StreamEntry σ) :=
  m.streams.find? fun e => e.stream = s

/-- `findLocal(stream, remote)` -/
def findLocal (m : Muxer σ) (s : σ) (remote : FrameID) : Except Fault FrameID :=
  match m.findEntry s with
  | some e => m.findInput e remote
  | none => .error .thrown

def findOrCreateLocal (m : Muxer σ) (s : σ) (remote : FrameID) :
    Except Fault (Muxer σ × FrameID) :=
  match m.findEntry s with
  | some e => .ok (m.mapFromInput e remote)
  | none => .error .thrown

/-- `remove`: the entry goes, and with it what `imap` and `omap` hold of it. The
numbers of its framesets stay taken. -/
def remove (m : Muxer σ) (s : σ) : Muxer σ :=
  match m.findEntry s with
  | none => m
  | some e =>
      { m with
        imap := fun k => if k >>> 32 = e.id then none else m.imap k
        omap := fun l => (m.omap l).filter fun p => p.2 ≠ e.id
        streams := m.streams.eraseP fun e => e.stream = s }

end Muxer

end BeyondProtocol
