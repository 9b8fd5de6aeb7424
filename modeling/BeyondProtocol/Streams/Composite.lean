import BeyondProtocol.Streams.Muxer

/-!
# Streams of streams (`muxer.cpp`, `broadcaster.cpp`)

A muxer and a broadcast are streams of their own, with a frame table of the base class,
and pass the calls they get on to their children. What a child does with a call depends on
its class; the queries are not virtual, they read the table of the base class. Children
are known by reference, so one that was added twice is called twice.
-/

namespace BeyondProtocol

/-! ## §1  Children -/

/-- The three overloads of `enable` and `disable`, for a frame. -/
inductive Selection : Type where
  | frame
  | channel (c : Channel)
  | channels (cs : ChannelSet)

/-- `Stream::enable`; it always succeeds. -/
def Stream.enableSelection (s : Stream) (id : FrameID) : Selection → Stream
  | .frame => s.enable id
  | .channel c => s.enableChannel id c
  | .channels cs => s.enableChannels id cs

/-- `Stream::disable` -/
def Stream.disableSelection (s : Stream) (id : FrameID) : Selection → Stream
  | .frame => s.disable id
  | .channel c => s.disableChannel id c
  | .channels cs => s.disableChannels id cs

/-- A class of streams with objects `κ`: its virtual calls, and the table of the base
class that the queries read. -/
structure StreamClass (κ : Type) where
  base : κ → Stream
  enable : κ → FrameID → Selection → κ × Bool
  disable : κ → FrameID → Selection → κ
  reset : κ → κ

/-- The class that overrides nothing. -/
def StreamClass.plain : StreamClass Stream where
  base s := s
  enable s id sel := (s.enableSelection id sel, true)
  disable s id sel := s.disableSelection id sel
  reset s := s.reset

variable {σ κ : Type} [DecidableEq σ]

/-! ## §2  Broadcast -/

/-- A `Broadcast`, with the objects behind its references. -/
structure Broadcast (σ κ : Type) where
  base : Stream := {}
  streams : List σ := []
  child : σ → κ

namespace Broadcast

def add (b : Broadcast σ κ) (s : σ) : Broadcast σ κ := { b with streams := b.streams ++ [s] }

def remove (b : Broadcast σ κ) (s : σ) : Broadcast σ κ := { b with streams := b.streams.erase s }

def clear (b : Broadcast σ κ) : Broadcast σ κ := { b with streams := [] }

/-- What a child sees, the broadcast has seen. -/
def onAvailable (b : Broadcast σ κ) (id : FrameID) (c : Channel) :
    Except Fault (Broadcast σ κ × Bool) := do
  let r ← b.base.seen id c
  return ({ b with base := r.1 }, r.2)

variable (S : StreamClass κ)

/-- The loop of `enable`, with the result so far. -/
def enableEach (id : FrameID) (sel : Selection) :
    List σ → (σ → κ) → Bool → (σ → κ) × Bool
  | [], child, r => (child, r)
  | s :: ss, child, r =>
      enableEach id sel ss (Function.update child s (S.enable (child s) id sel).1)
        ((S.enable (child s) id sel).2 || r)

/-- The broadcast is enabled with the first child that is. -/
def enable (b : Broadcast σ κ) (id : FrameID) (sel : Selection) : Broadcast σ κ × Bool :=
  let (child, r) := enableEach S id sel b.streams b.child false
  ({ b with
      child := child
      base := if r then b.base.enableSelection id sel else b.base }, r)

/-- A call of every child, one after the other. -/
def eachChild (f : κ → κ) (streams : List σ) (child : σ → κ) : σ → κ :=
  streams.foldl (fun child s => Function.update child s (f (child s))) child

def disable (b : Broadcast σ κ) (id : FrameID) (sel : Selection) : Broadcast σ κ :=
  { b with
    child := eachChild (fun k => S.disable k id sel) b.streams b.child
    base := b.base.disableSelection id sel }

def reset (b : Broadcast σ κ) : Broadcast σ κ :=
  { b with child := eachChild S.reset b.streams b.child }

end Broadcast

/-! ## §3  Muxer -/

/-- A muxer, with the objects behind its references. -/
structure MuxerTree (σ κ : Type) where
  mux : Muxer σ := {}
  child : σ → κ

namespace MuxerTree

variable (S : StreamClass κ)

/-- A local id with a wildcard in it stands for these frames. -/
def selects (id i : FrameID) : Bool :=
  (id.frameset = kAll || id.frameset = i.frameset) && (id.source = kAll || id.source = i.source)

/-- `enable` for one local id; without a result if the id has no mapping. -/
def enableOne (t : MuxerTree σ κ) (id : FrameID) (sel : Selection) :
    Except Fault (MuxerTree σ κ × Option Bool) :=
  match t.mux.mapToOutput id with
  | (_, none) => .ok (t, none)
  | (remote, some p) => do
      let e ← t.mux.entryAt p
      let r := S.enable (t.child e.stream) remote sel
      return ({ t with
        mux := { t.mux with
          base := if r.2 then t.mux.base.enableSelection id sel else t.mux.base }
        child := Function.update t.child e.stream r.1 }, some r.2)

/-- The loop of `enable` over the frames of a wildcard; it ends with `false` at a frame that
has no mapping. -/
def enableEach (sel : Selection) :
    List FrameID → MuxerTree σ κ → Bool → Except Fault (MuxerTree σ κ × Bool)
  | [], t, r => .ok (t, r)
  | i :: is, t, r => do
      let one ← t.enableOne S i sel
      match one.2 with
      | none => return (one.1, false)
      | some rr => enableEach sel is one.1 (r && rr)

def enable (t : MuxerTree σ κ) (id : FrameID) (sel : Selection) :
    Except Fault (MuxerTree σ κ × Bool) :=
  if id.frameset = kAll ∨ id.source = kAll then
    enableEach S sel (t.mux.base.frames.filter (selects id)) t true
  else do
    let one ← t.enableOne S id sel
    return (one.1, one.2.getD false)

def disable (t : MuxerTree σ κ) (id : FrameID) (sel : Selection) :
    Except Fault (MuxerTree σ κ) :=
  match t.mux.mapToOutput id with
  | (_, none) => .ok t
  | (remote, some p) => do
      let e ← t.mux.entryAt p
      return { t with
        mux := { t.mux with base := t.mux.base.disableSelection id sel }
        child := Function.update t.child e.stream (S.disable (t.child e.stream) remote sel) }

def reset (t : MuxerTree σ κ) : MuxerTree σ κ :=
  { t with child := Broadcast.eachChild S.reset (t.mux.streams.map (·.stream)) t.child }

end MuxerTree

end BeyondProtocol
