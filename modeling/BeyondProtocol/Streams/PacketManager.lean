import BeyondProtocol.Framework.Ring
import BeyondProtocol.Framework.Runs
import BeyondProtocol.Protocol.Packet

/-!
# The reordering buffer (`packetmanager.cpp`)

`PacketManager::submit` passes the packets of the current timestamp on to the callback
and keeps those of later timestamps in a ring. When the current frame is complete, or
too many frames wait behind it, it drains the ring: it moves `readPos` past all that
waits and submits each slot again. These calls may put packets back into the ring and
may start drains of their own, so the model keeps the stack of what is still to be done
when the running call returns.

The state is that of one `FrameID`, whose calls come one after the other.
-/

namespace BeyondProtocol

open Framework

/-! ## §1  `StreamState` -/

namespace StreamState

def kMaxBuffer : ℕ := 100

/-- `std::numeric_limits<int64_t>::max()` -/
def int64Max : Int := 2 ^ 63 - 1

instance : NeZero kMaxBuffer := ⟨by decide⟩

end StreamState

structure StreamState where
  buffer : Ring StreamState.kMaxBuffer Packet := fun _ => default
  timestamp : Int := -1
  expected : Int := -1
  processed : Int := 0
  readPos : ℕ := 0
  writePos : ℕ := 0
  bufferedEndFrames : Int := 0

/-- The `PacketPair &` a call of `submit` works on: a variable of the caller, or a slot
of the ring. -/
inductive PacketRef : Type where
  | caller (packets : Packet)
  | slot (i : ℕ)
deriving DecidableEq, Repr

namespace StreamState

variable (s : StreamState)

/-- What a reference refers to now. -/
def deref : PacketRef → Packet
  | .caller packets => packets
  | .slot i => s.buffer.get i

/-- The positions of the packets that wait. -/
def waiting : Multiset ℕ := Ring.span s.readPos s.writePos

/-- The smallest timestamp that waits. -/
def minTimestamp : Int :=
  (List.range' s.readPos (s.writePos - s.readPos)).foldl
    (fun ts i => min ts (s.buffer.get i).1.timestamp) int64Max

/-- The vector of a slot is emptied; the rest of the packet stays. -/
def clear (i : ℕ) : StreamState :=
  let p := s.buffer.get i
  { s with buffer := s.buffer.put i (p.1, { p.2 with data := [] }) }

/-- `state.buffer[wpos % kMaxBuffer] = std::move(packets)`. The header is copied and the
vector handed over, which leaves the one it was taken from empty. -/
def store (r : PacketRef) : StreamState :=
  let wpos := s.writePos
  let moved := { s with
    writePos := wpos + 1
    buffer := s.buffer.put wpos (s.deref r) }
  match r with
  | .caller _ => moved
  | .slot i => moved.clear i

/-- The counter of EndFrames in the ring goes up by `k` for an EndFrame. -/
def countEndFrame (p : Packet) (k : Int) : StreamState :=
  if p.1.channel = Channel.kEndFrame then
    { s with bufferedEndFrames := s.bufferedEndFrames + k }
  else s

/-- One more packet of the current timestamp; an EndFrame says how many there are. -/
def countProcessed (p : Packet) : StreamState :=
  { s with
    expected := if p.1.channel = Channel.kEndFrame then p.2.packetCount else s.expected
    processed := s.processed + 1 }

/-- What comes before the loop of a drain: all that waits is now the drain's. -/
def takeWaiting : StreamState :=
  { s with readPos := s.writePos, timestamp := s.minTimestamp }

end StreamState

/-! ## §2  `submit` -/

/-- What a running `submit` still has to do after the call it makes returns. -/
inductive Pending : Type where
  /-- The loop of a drain, at index `i`. -/
  | loop (i stop : ℕ) (discard : Bool)
  /-- Only in the drain that discards: the slot's vector is swapped with an empty one. -/
  | swap (i : ℕ)
deriving DecidableEq, Repr

/-- What the loop does when the call for slot `i` has returned. -/
def Pending.afterCall (i stop : ℕ) (discard : Bool) : List Pending :=
  (if discard then [.swap i] else []) ++ [.loop (i + 1) stop discard]

/-- The thread in `submit`: the reference the innermost call was made with, while that
call has not begun, and what the calls around it still have to do. The packets submitted
by the caller and those the callback was given are logged. -/
structure PacketManager where
  state : StreamState := {}
  call : Option PacketRef := none
  pending : List Pending := []
  submitted : List Packet := []
  passed : List Packet := []

namespace PacketManager

variable (m : PacketManager)

/-- `cb(packets)` -/
def cb (p : Packet) : PacketManager := { m with passed := m.passed ++ [p] }

/-- Both drains: take all that waits and start the loop. -/
def drain (discard : Bool) : PacketManager :=
  { m with
    state := m.state.takeWaiting
    pending := .loop m.state.readPos m.state.writePos discard :: m.pending }

/-- The packet belongs to the current timestamp. -/
def submitCurrent (p : Packet) : PacketManager :=
  let s := m.state.countProcessed p
  let m := m.cb p
  if s.processed = s.expected then
    let s := { s with processed := 0, expected := -1 }
    if s.writePos > s.readPos then
      { m with state := s }.drain false
    else
      { m with state := { s with timestamp := -1 } }
  else
    { m with state := s }

/-- The packet belongs to a later timestamp: it goes into the ring, and when more than
four EndFrames wait there the current frame is given up. -/
def submitLater (r : PacketRef) : PacketManager :=
  let p := m.state.deref r
  let s := (m.state.store r).countEndFrame p 1
  if s.bufferedEndFrames > 4 then
    { m with state := { s with processed := 0, expected := -1 } }.drain true
  else
    { m with state := s }

/-- `submit(packets, cb)` up to its return or the loop it starts. The tests that are made
again under the lock see what the first ones saw. -/
def submit (r : PacketRef) : PacketManager :=
  let m := { m with call := none }
  let p := m.state.deref r
  if m.state.timestamp = p.1.timestamp then
    m.submitCurrent p
  else if m.state.timestamp > p.1.timestamp then
    -- an old packet: "not ideal but still better than discarding"
    m.cb p
  else if m.state.timestamp = -1 then
    { m with state := { m.state with timestamp := p.1.timestamp }, call := some r }
  else
    m.submitLater r

/-- What the calls around the one that returned do next. -/
def resume : Option PacketManager :=
  match m.pending with
  | [] => none
  | .swap i :: rest => some { m with state := m.state.clear i, pending := rest }
  | .loop i stop discard :: rest =>
      if i < stop then
        some { m with
          state := m.state.countEndFrame (m.state.buffer.get i) (-1)
          call := some (.slot i)
          pending := Pending.afterCall i stop discard ++ rest }
      else
        some { m with pending := rest }

/-- The thread's next step, while it is in `submit`. -/
def step : Option PacketManager :=
  match m.call with
  | some r => some (m.submit r)
  | none => m.resume

/-- No call of `submit` is running. -/
def Idle : Prop := m.call = none ∧ m.pending = []

instance : Decidable m.Idle := by
  unfold Idle
  infer_instance

end PacketManager

/-- The caller submits a packet, or the call it made goes on. -/
inductive ManagerEvent : Type where
  | submit (packets : Packet)
  | step
deriving DecidableEq, Repr

/-- The caller's next packet waits until the call before it has returned. -/
def PacketManager.exec (m : PacketManager) : ManagerEvent → Except Unit PacketManager
  | .submit packets =>
      if m.Idle then
        .ok { m with submitted := m.submitted ++ [packets], call := some (.caller packets) }
      else .error ()
  | .step =>
      match m.step with
      | some m' => .ok m'
      | none => .error ()

/-! ## §3  What the operations leave alone -/

namespace StreamState

variable (s : StreamState) (p : Packet) (k : Int)

@[simp] theorem countEndFrame_buffer : (s.countEndFrame p k).buffer = s.buffer := by
  unfold countEndFrame
  split <;> rfl

@[simp] theorem countEndFrame_timestamp : (s.countEndFrame p k).timestamp = s.timestamp := by
  unfold countEndFrame
  split <;> rfl

@[simp] theorem countEndFrame_readPos : (s.countEndFrame p k).readPos = s.readPos := by
  unfold countEndFrame
  split <;> rfl

@[simp] theorem countEndFrame_writePos : (s.countEndFrame p k).writePos = s.writePos := by
  unfold countEndFrame
  split <;> rfl

variable (r : PacketRef)

@[simp] theorem store_timestamp : (s.store r).timestamp = s.timestamp := by
  cases r <;> rfl

@[simp] theorem store_readPos : (s.store r).readPos = s.readPos := by
  cases r <;> rfl

@[simp] theorem store_writePos : (s.store r).writePos = s.writePos + 1 := by
  cases r <;> rfl

variable {s} in
theorem waiting_store (h : s.readPos ≤ s.writePos) :
    (s.store r).waiting = s.writePos ::ₘ s.waiting := by
  rw [waiting, store_readPos, store_writePos, Ring.span_snoc h, waiting]

end StreamState

/-- The ways an event can go. -/
theorem PacketManager.exec_cases {m m' : PacketManager} {e : ManagerEvent}
    (h : m.exec e = .ok m') :
    (∃ p, e = .submit p ∧ m.Idle ∧
      m' = { m with submitted := m.submitted ++ [p], call := some (.caller p) }) ∨
    (∃ r, e = .step ∧ m.call = some r ∧ m' = m.submit r) ∨
    (e = .step ∧ m.call = none ∧ m.resume = some m') := by
  cases e with
  | submit p =>
      simp only [exec] at h
      split at h
      · rename_i hidle
        cases h
        exact .inl ⟨p, rfl, hidle, rfl⟩
      · cases h
  | step =>
      simp only [exec, step] at h
      rcases hcall : m.call with - | r
      · rw [hcall] at h
        dsimp only at h
        split at h
        · rename_i hresume
          cases h
          exact .inr (.inr ⟨rfl, rfl, hresume⟩)
        · cases h
      · rw [hcall] at h
        cases h
        exact .inr (.inl ⟨r, rfl, rfl, rfl⟩)

end BeyondProtocol
