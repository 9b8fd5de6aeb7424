import BeyondProtocol.Framework.Exceptions
import BeyondProtocol.Peer.Closing
import BeyondProtocol.Peer.Dispatcher

/-!
# The lock around the send buffer (`peer_tcp.cpp`, `peer.hpp`, `peer.cpp`)

`get_buffer_` locks `send_mtx_` and moves the buffer out, `set_buffer_` puts a buffer back and
unlocks. In between a message is packed and written, and `send_buffer_` calls `set_buffer_` at
the end of every way it has through the socket. The four functions that send catch whatever is
thrown. They do not unlock then, and neither does `send_buffer_` where it finds the socket
invalid.

What the application does in the callbacks of the universe is open: it may throw, and it may
use this peer on the same thread, for which the mutex is recursive.
-/

namespace BeyondProtocol.SendLock

open Framework Rpc

/-! ## §1  The source functions -/

inductive Thrown : Type where
  /-- A `std::exception`. -/
  | std (what : String)
  | other
deriving DecidableEq, Repr

/-- A `PeerTcp` as one thread finds it. -/
structure PeerTcp (α : Type) where
  /-- How often the thread holds `send_mtx_`. -/
  depth : ℕ := 0
  /-- `send_buf_`, which owns no memory after it was moved from. -/
  sendBuf : Option (List UInt8) := some []
  status : NodeStatus := .kConnected
  /-- `sock_->is_valid()` -/
  sockValid : Bool := true
  canReconnect : Bool := false
  txBytes : Int := 0
  rpcid : BitVec 32 := 0
  /-- The ids in `callbacks_`. -/
  callbacks : List (BitVec 32) := []
  /-- Whatever the callbacks of the application refer to. -/
  app : α

abbrev Code (α β : Type) : Type := EStateM Thrown (PeerTcp α) β

/-- A callback of the application. The mutex is private to the peer: a callback holds it as
often afterwards as before, or more often. -/
structure Callback (α : Type) where
  run : Code α Unit
  climbs : Climbs PeerTcp.depth run

/-- What a send depends on, apart from the peer. -/
structure Env (α ω : Type) where
  nil : ω
  /-- `msgpack::pack` -/
  pack : Sent ω → Except Thrown (List UInt8)
  /-- `sock_->writev` -/
  writev : List UInt8 → Except Thrown Int
  /-- What `notifyError_` triggers. -/
  onError : String → Callback α
  /-- What `notifyDisconnect_` triggers. -/
  onDisconnect : Callback α

variable {α ω : Type}

/-- The caller owns the buffer now: its contents, none after it was moved from. -/
def getBuffer : Code α (List UInt8) :=
  modifyGet fun s => (s.sendBuf.getD [], { s with depth := s.depth + 1, sendBuf := none })

/-- The buffer that comes back is cleared. -/
def setBuffer : Code α Unit :=
  modify fun s => { s with depth := s.depth - 1, sendBuf := some [] }

/-- The value of a call, or what it threw. -/
def ofExcept {β : Type} : Except Thrown β → Code α β
  | .ok b => pure b
  | .error e => throw e

namespace Env

variable (env : Env α ω)

def notifyError (what : String) : Code α Unit := (env.onError what).run

/-- `_close` -/
def close (retry : Bool) : Code α Unit := do
  let s ← get
  if Closing.Network.isUp s.status then
    modify fun s => { s with
      status := if retry && s.canReconnect then .kReconnecting else .kDisconnected }
    if s.sockValid then
      env.onDisconnect.run
      modify fun s => { s with sockValid := false }

/-- The `try` block of `send_buffer_`; a value is one that the function returns from here. -/
def attempt (buffer : List UInt8) : Code α (Option Int) := do
  let c ← ofExcept (env.writev buffer)
  if c ≤ 0 then
    env.notifyError "writev() failed"
    setBuffer
    return some c
  else
    if c ≠ buffer.length then
      env.notifyError "writev(): incomplete send"
      env.close Closing.reconnectOnSocketError
    setBuffer
    return none

/-- The handler of `send_buffer_`. -/
def handleThrown : Thrown → Code α (Option Int)
  | .std what => do
      env.notifyError what
      env.close Closing.reconnectOnSocketError
      setBuffer
      return none
  | .other => throw .other

/-- `c`, as far as it was assigned. -/
def written (buffer : List UInt8) : Int :=
  match env.writev buffer with
  | .ok c => c
  | .error _ => 0

/-- `send_buffer_` -/
def sendBuffer (buffer : List UInt8) : Code α Int := do
  let s ← get
  if !s.sockValid then return -1
  else
    match ← tryCatch (env.attempt buffer) env.handleThrown with
    | some c => return c
    | none =>
        modify fun s => { s with txBytes := s.txBytes + env.written buffer }
        return 1

/-- The common body of the functions that send: packing and `send_buffer_`, with a handler
for everything. -/
def packAndSend (msg : Sent ω) : Code α Int := do
  let buffer ← getBuffer
  tryCatch (do
      let bytes ← ofExcept (env.pack msg)
      env.sendBuffer (buffer ++ bytes))
    fun _ => return -1

/-- `send` -/
def send (name : String) (args : ω) : Code α Int := env.packAndSend (.notification name args)

/-- The registration of the callback in `asyncCall`: the id of the call. -/
def register : Code α (BitVec 32) :=
  modifyGet fun s =>
    (s.rpcid, { s with rpcid := s.rpcid + 1, callbacks := s.callbacks.insert s.rpcid })

/-- `asyncCall` -/
def asyncCall (name : String) (args : ω) : Code α (BitVec 32) := do
  let rpcid ← register
  let _ ← env.packAndSend (.call rpcid name args)
  return rpcid

/-- `_sendResponse` -/
def sendResponse (id : BitVec 32) (res : ω) : Code α Unit := do
  let _ ← env.packAndSend (.response id env.nil res)

/-- `_sendErrorResponse` -/
def sendErrorResponse (id : BitVec 32) (err : ω) : Code α Unit := do
  let _ ← env.packAndSend (.response id err env.nil)

end Env

/-- The ways to send. -/
inductive Call (ω : Type) : Type where
  | send (name : String) (args : ω)
  | asyncCall (name : String) (args : ω)
  | sendResponse (id : BitVec 32) (res : ω)
  | sendErrorResponse (id : BitVec 32) (err : ω)
deriving DecidableEq, Repr

namespace Call

variable (env : Env α ω)

def code : Call ω → Code α Unit
  | .send name args => do let _ ← env.send name args
  | .asyncCall name args => do let _ ← env.asyncCall name args
  | .sendResponse id res => env.sendResponse id res
  | .sendErrorResponse id err => env.sendErrorResponse id err

/-- The peer once the callback of a call is registered. -/
def registered (s : PeerTcp α) : Call ω → PeerTcp α
  | .asyncCall _ _ => { s with rpcid := s.rpcid + 1, callbacks := s.callbacks.insert s.rpcid }
  | _ => s

/-- What is packed. -/
def message (s : PeerTcp α) : Call ω → Sent ω
  | .send name args => .notification name args
  | .asyncCall name args => .call s.rpcid name args
  | .sendResponse id res => .response id env.nil res
  | .sendErrorResponse id err => .response id err env.nil

/-- Every way to send comes down to the common body. -/
theorem code_apply (call : Call ω) (s : PeerTcp α) :
    (call.code env).run s =
      (env.packAndSend (call.message env s) >>= fun _ => pure ()).run (call.registered s) := by
  cases call with
  | asyncCall name args =>
      show ((Env.register >>= fun rpcid => env.packAndSend (.call rpcid name args) >>= fun _ =>
        pure rpcid) >>= fun _ => pure ()).run s = _
      simp only [bind_assoc, pure_bind]
      rfl
  | send | sendResponse | sendErrorResponse => rfl

end Call

/-! ## §2  Between the two buffers -/

section

variable (env : Env α ω)

/-- What is reported of a result of `writev`, and what follows from it. -/
def Env.reports (c : Int) (size : ℕ) : Code α Unit :=
  if c ≤ 0 then env.notifyError "writev() failed"
  else if c ≠ size then do
    env.notifyError "writev(): incomplete send"
    env.close Closing.reconnectOnSocketError
  else pure ()

/-- What the handler does about a `std::exception`. -/
def Env.recover (what : String) : Code α Unit := do
  env.notifyError what
  env.close Closing.reconnectOnSocketError

/-- The `try` block of `send_buffer_` up to `set_buffer_`. -/
def Env.tried (buffer : List UInt8) : Code α (Option Int) := do
  let c ← ofExcept (env.writev buffer)
  env.reports c buffer.length
  return if c ≤ 0 then some c else none

/-- Its handler up to `set_buffer_`. -/
def Env.handled : Thrown → Code α (Option Int)
  | .std what => do
      env.recover what
      return none
  | .other => throw .other

/-- Both ways end with `set_buffer_`. -/
def putBack (r : Option Int) : Code α (Option Int) := do
  setBuffer
  return r

theorem Env.attempt_eq (buffer : List UInt8) :
    env.attempt buffer = env.tried buffer >>= putBack := by
  unfold Env.attempt Env.tried Env.reports putBack
  rw [bind_assoc]
  refine congrArg _ (funext fun c => ?_)
  by_cases hc : c ≤ 0
  · simp only [hc, if_true, bind_assoc, pure_bind]
  · by_cases hsize : c = buffer.length
    · simp only [hc, ← hsize, if_false, ne_eq, not_true_eq_false, pure_bind]
    · simp only [hc, hsize, if_false, if_true, ne_eq, not_false_eq_true, bind_assoc, pure_bind]

theorem Env.handleThrown_eq (e : Thrown) : env.handleThrown e = env.handled e >>= putBack := by
  cases e with
  | std what =>
      simp only [Env.handleThrown, Env.handled, Env.recover, putBack, bind_assoc, pure_bind]
  | other => rfl

theorem returns_putBack (r : Option Int) : Returns (putBack (α := α) r) :=
  fun _ => ⟨_, _, rfl⟩

/-- The part of `send_buffer_` that may throw, and after which it puts the buffer back. -/
theorem Env.guarded_eq (buffer : List UInt8) :
    tryCatch (env.attempt buffer) env.handleThrown =
      tryCatch (env.tried buffer) env.handled >>= putBack := by
  rw [← tryCatch_bind_end returns_putBack, env.attempt_eq, funext env.handleThrown_eq]

theorem climbs_ofExcept {β : Type} (r : Except Thrown β) :
    Climbs PeerTcp.depth (ofExcept r : Code α β) := by
  cases r with
  | ok b => exact Climbs.pure b
  | error e => exact Climbs.throw e

theorem Env.climbs_notifyError (what : String) :
    Climbs PeerTcp.depth (env.notifyError what) := (env.onError what).climbs

theorem Env.climbs_close (retry : Bool) : Climbs PeerTcp.depth (env.close retry) := by
  refine Climbs.get.bind fun s => ?_
  split
  · refine .bind (.modify fun s => Nat.le_refl s.depth) fun _ => ?_
    split
    · exact env.onDisconnect.climbs.bind fun _ => .modify fun s => Nat.le_refl s.depth
    · exact .pure _
  · exact .pure _

theorem Env.climbs_recover (what : String) : Climbs PeerTcp.depth (env.recover what) :=
  (env.climbs_notifyError what).bind fun _ => env.climbs_close _

theorem Env.climbs_tried (buffer : List UInt8) : Climbs PeerTcp.depth (env.tried buffer) := by
  refine (climbs_ofExcept _).bind fun c => .bind ?_ fun _ => .pure _
  unfold Env.reports
  split_ifs
  · exact env.climbs_notifyError _
  · exact env.climbs_recover _
  · exact .pure _

theorem Env.climbs_handled (e : Thrown) : Climbs PeerTcp.depth (env.handled e) := by
  cases e with
  | std what => exact (env.climbs_recover what).bind fun _ => .pure _
  | other => exact .throw _

/-! ## §3  Exactly when the lock is released -/

/-- The result of `writev`, and all that is reported of it, leaves `send_buffer_` on a way that
puts the buffer back: nothing but a `std::exception` is thrown in the `try` block, nothing in
the handler, and the callbacks hold the lock no longer than they run. -/
def Env.Settles (buffer : List UInt8) (s : PeerTcp α) : Prop :=
  match env.writev buffer with
  | .error .other => False
  | .error (.std what) => Quiet PeerTcp.depth (env.recover what) s
  | .ok c => Quiet PeerTcp.depth (env.reports c buffer.length) s ∨
      ∃ what t, (env.reports c buffer.length).run s = .error (.std what) t ∧ t.depth = s.depth ∧
        Quiet PeerTcp.depth (env.recover what) t

/-- The peer after `get_buffer_`. -/
def PeerTcp.taken (s : PeerTcp α) : PeerTcp α :=
  { s with depth := s.depth + 1, sendBuf := none }

/-- The socket is valid, the message can be packed, and writing it settles. -/
def Env.ReleasesWhen (msg : Sent ω) (s : PeerTcp α) : Prop :=
  s.sockValid = true ∧ ∃ bytes, env.pack msg = .ok bytes ∧
    env.Settles (s.sendBuf.getD [] ++ bytes) s.taken

/-- The code returns, with the lock as often held as before and an empty buffer in its place. -/
def Released (x : Code α Unit) (s : PeerTcp α) : Prop :=
  ∃ t, x.run s = .ok () t ∧ t.depth = s.depth ∧ t.sendBuf = some []

theorem not_quiet_throw {β : Type} (e : Thrown) (s : PeerTcp α) :
    ¬ Quiet PeerTcp.depth (throw e : Code α β) s := by
  rintro ⟨b, t, ⟨⟩, -⟩

theorem Env.quiet_handled (e : Thrown) (s : PeerTcp α) :
    Quiet PeerTcp.depth (env.handled e) s ↔
      ∃ what, e = .std what ∧ Quiet PeerTcp.depth (env.recover what) s := by
  cases e with
  | std what =>
      simp only [Thrown.std.injEq, exists_eq_left']
      exact quiet_bind_pure (fun _ => none) s
  | other => exact iff_of_false (not_quiet_throw _ s) (by simp)

theorem Env.settles_iff (buffer : List UInt8) (s : PeerTcp α) :
    env.Settles buffer s ↔
      Quiet PeerTcp.depth (tryCatch (env.tried buffer) env.handled) s := by
  rw [quiet_tryCatch (env.climbs_tried buffer) env.climbs_handled]
  simp only [env.quiet_handled]
  unfold Env.Settles Env.tried
  cases env.writev buffer with
  | error e =>
      -- nothing has been assigned yet, and the handler starts where the block did
      cases e with
      | std what =>
          refine Iff.trans ?_ (or_iff_right (not_quiet_throw _ s)).symm
          constructor
          · exact fun hquiet => ⟨_, s, rfl, rfl, what, rfl, hquiet⟩
          · rintro ⟨_, t, ⟨⟩, -, _, ⟨⟩, hquiet⟩
            exact hquiet
      | other =>
          refine Iff.trans (iff_of_false not_false ?_) (or_iff_right (not_quiet_throw _ s)).symm
          rintro ⟨_, t, ⟨⟩, -, _, ⟨⟩, -⟩
  | ok c =>
      refine or_congr (quiet_bind_pure _ s).symm ?_
      constructor
      · rintro ⟨what, t, hthrow, hlevel, hquiet⟩
        exact ⟨_, t, bind_pure_eq_error.mpr hthrow, hlevel, what, rfl, hquiet⟩
      · rintro ⟨_, t, hthrow, hlevel, what, rfl, hquiet⟩
        exact ⟨what, t, bind_pure_eq_error.mp hthrow, hlevel, hquiet⟩

/-- What `send_buffer_` does once it has put the buffer back. -/
def Env.finish (buffer : List UInt8) : Option Int → Code α Int
  | some c => pure c
  | none => do
      modify fun s => { s with txBytes := s.txBytes + env.written buffer }
      return 1

theorem Env.sendBuffer_valid {s : PeerTcp α} (hvalid : s.sockValid = true)
    (buffer : List UInt8) : (env.sendBuffer buffer).run s =
      (tryCatch (env.tried buffer) env.handled >>= fun r => putBack r >>=
        env.finish buffer).run s := by
  rw [← bind_assoc, ← env.guarded_eq]
  unfold Env.sendBuffer
  rw [EStateM.run_bind, EStateM.run_get]
  simp only [hvalid, Bool.not_true, Bool.false_eq_true, if_false]
  refine congrFun (congrArg EStateM.run (congrArg _ (funext fun r => ?_))) s
  cases r <;> rfl

theorem Env.run_putBack (buffer : List UInt8) (r : Option Int) (t : PeerTcp α) :
    ∃ c u, (putBack r >>= env.finish buffer).run t = .ok c u ∧ u.depth = t.depth - 1 ∧
      u.sendBuf = some [] := by
  cases r with
  | none => exact ⟨_, _, rfl, rfl, rfl⟩
  | some c => exact ⟨_, _, rfl, rfl, rfl⟩

/-- `send_buffer_` under the handler of its caller, with the lock held: on the one way that
settles the lock is given back, on every other it is kept. -/
theorem Env.caught_sendBuffer {s : PeerTcp α} (hheld : 0 < s.depth) (buffer : List UInt8) :
    ∃ c t, (tryCatch (env.sendBuffer buffer) fun _ => pure (-1)).run s = .ok c t ∧
      s.depth ≤ t.depth + 1 ∧ (t.depth + 1 = s.depth ∧ t.sendBuf = some [] ↔
        s.sockValid = true ∧ env.Settles buffer s) := by
  rw [run_tryCatch]
  cases hvalid : s.sockValid with
  | false =>
      have hinvalid : (env.sendBuffer buffer).run s = .ok (-1) s := by
        unfold Env.sendBuffer
        rw [EStateM.run_bind, EStateM.run_get]
        simp only [hvalid]
        rfl
      rw [hinvalid]
      refine ⟨-1, s, rfl, Nat.le_succ _, iff_of_false ?_ (by simp)⟩
      rintro ⟨hdepth, -⟩
      omega
  | true =>
      have hclimb := (env.climbs_tried buffer).tryCatch env.climbs_handled
      rw [env.sendBuffer_valid hvalid, EStateM.run_bind, env.settles_iff, Quiet]
      cases hrun : (tryCatch (env.tried buffer) env.handled).run s with
      | ok r t =>
          obtain ⟨c, u, hput, hdepth, hbuf⟩ := env.run_putBack buffer r t
          have hle : s.depth ≤ t.depth := hclimb.ok hrun
          refine ⟨c, u, by simp only [hput], by omega, ?_⟩
          simp only [hbuf, and_true, true_and]
          constructor
          · exact fun hsame => ⟨r, t, rfl, by omega⟩
          · rintro ⟨r', t', ⟨⟩, hlevel⟩
            omega
      | error e t =>
          have hle : s.depth ≤ t.depth := hclimb.error hrun
          refine ⟨-1, t, rfl, by omega, iff_of_false ?_ ?_⟩
          · rintro ⟨hdepth, -⟩
            omega
          · rintro ⟨-, r', t', ⟨⟩, -⟩

/-- **The common body** always returns, never holds the lock less often than before, and
releases it exactly under the condition. -/
theorem Env.packAndSend_spec (msg : Sent ω) (s : PeerTcp α) :
    ∃ c t, (env.packAndSend msg).run s = .ok c t ∧ s.depth ≤ t.depth ∧
      (t.depth = s.depth ∧ t.sendBuf = some [] ↔ env.ReleasesWhen msg s) := by
  have htaken : s.taken.depth = s.depth + 1 := rfl
  have hbody : (env.packAndSend msg).run s = (tryCatch (ofExcept (env.pack msg) >>= fun bytes =>
      env.sendBuffer (s.sendBuf.getD [] ++ bytes)) fun _ => pure (-1)).run s.taken := rfl
  rw [hbody, Env.ReleasesWhen]
  cases env.pack msg with
  | error e =>
      refine ⟨-1, s.taken, rfl, Nat.le_succ _, iff_of_false ?_ (by simp)⟩
      rintro ⟨hdepth, -⟩
      omega
  | ok bytes =>
      obtain ⟨c, t, hrun, hle, hiff⟩ :=
        env.caught_sendBuffer (s := s.taken) (Nat.succ_pos _) (s.sendBuf.getD [] ++ bytes)
      refine ⟨c, t, hrun, by omega, ?_⟩
      simp only [Except.ok.injEq, exists_eq_left']
      rw [← Nat.succ_inj, Nat.succ_eq_add_one, Nat.succ_eq_add_one, ← htaken]
      exact hiff

/-- **The send lock is released**, by each of the four ways to send, if and only if the socket is
valid, the message can be packed, and writing it settles. -/
theorem call_releases_iff (call : Call ω) (s : PeerTcp α) :
    Released (call.code env) s ↔ env.ReleasesWhen (call.message env s) (call.registered s) := by
  obtain ⟨c, t, hrun, -, hwhen⟩ := env.packAndSend_spec (call.message env s) (call.registered s)
  have hcode : (call.code env).run s = .ok () t := by
    rw [call.code_apply env s, EStateM.run_bind, hrun]
    rfl
  have hdepth : (call.registered s).depth = s.depth := by
    cases call <;> rfl
  rw [Released, hcode, ← hwhen, hdepth]
  constructor
  · rintro ⟨_, ⟨⟩, h⟩
    exact h
  · exact fun h => ⟨t, rfl, h⟩

end

/-- A peer that nobody listens to, with a connection that takes everything. -/
def quietEnv : Env Unit Unit where
  nil := ()
  pack _ := .ok [0x93, 0x00, 0xa0, 0x90]
  writev buffer := .ok buffer.length
  onError _ := ⟨pure (), .pure ()⟩
  onDisconnect := ⟨pure (), .pure ()⟩

/-- Once the socket is closed, or if the message cannot be packed, a send leaves the lock taken
and the buffer moved out. -/
theorem closed_socket_keeps_lock :
    ¬ Released ((Call.send "ping" ()).code quietEnv) { sockValid := false, app := () } ∧
      ((Call.send "ping" ()).code quietEnv).run { sockValid := false, app := () } =
        .ok () { depth := 1, sendBuf := none, sockValid := false, app := () } ∧
      ((Call.send "ping" ()).code { quietEnv with pack := fun _ => .error .other }).run
        { app := () } = .ok () { depth := 1, sendBuf := none, app := () } := by
  refine ⟨?_, rfl, rfl⟩
  rintro ⟨t, hrun, hdepth, -⟩
  cases hrun
  cases hdepth

section

variable {env : Env α ω}

/-- Callbacks that return and leave the lock as they find it. -/
structure Env.Peaceful (env : Env α ω) : Prop where
  error : ∀ what s, Quiet PeerTcp.depth (env.onError what).run s
  disconnect : ∀ s, Quiet PeerTcp.depth env.onDisconnect.run s

theorem Env.Peaceful.close (h : env.Peaceful) (retry : Bool) (s : PeerTcp α) :
    Quiet PeerTcp.depth (env.close retry) s := by
  have hget : Quiet PeerTcp.depth (MonadState.get : Code α (PeerTcp α)) s := ⟨s, s, rfl, rfl⟩
  refine hget.bind fun s₁ t _ => ?_
  split
  · refine Quiet.bind ⟨(), _, rfl, rfl⟩ fun _ t' _ => ?_
    split
    · exact (h.disconnect t').bind fun _ _ _ => ⟨(), _, rfl, rfl⟩
    · exact ⟨_, _, rfl, rfl⟩
  · exact ⟨_, _, rfl, rfl⟩

theorem Env.Peaceful.recover (h : env.Peaceful) (what : String) (s : PeerTcp α) :
    Quiet PeerTcp.depth (env.recover what) s :=
  (h.error what s).bind fun _ t _ => h.close _ t

theorem Env.Peaceful.reports (h : env.Peaceful) (c : Int) (size : ℕ) (s : PeerTcp α) :
    Quiet PeerTcp.depth (env.reports c size) s := by
  unfold Env.reports
  split_ifs
  · exact h.error _ s
  · exact h.recover _ s
  · exact ⟨_, _, rfl, rfl⟩

/-- With such callbacks a failed, an incomplete and a thrown write all release the lock. -/
theorem Env.Peaceful.releasesWhen_iff (h : env.Peaceful) (msg : Sent ω) (s : PeerTcp α) :
    env.ReleasesWhen msg s ↔ s.sockValid = true ∧ ∃ bytes, env.pack msg = .ok bytes ∧
      env.writev (s.sendBuf.getD [] ++ bytes) ≠ .error .other := by
  refine and_congr_right fun _ => exists_congr fun bytes => and_congr_right fun _ => ?_
  unfold Env.Settles
  split
  case h_1 hw => simp [hw]
  case h_2 what hw => simp [hw, h.recover]
  case h_3 c hw => simp [hw, h.reports]

/-- A callback that sends on the peer itself. -/
def Call.callback (call : Call ω) (env : Env α ω) : Callback α where
  run := call.code env
  climbs := by
    have hspec (s : PeerTcp α) : ∃ t, (call.code env).run s = .ok () t ∧ s.depth ≤ t.depth := by
      obtain ⟨c, t, hrun, hle, -⟩ :=
        env.packAndSend_spec (call.message env s) (call.registered s)
      refine ⟨t, ?_, ?_⟩
      · rw [call.code_apply env s, EStateM.run_bind, hrun]
        rfl
      · cases call <;> exact hle
    constructor
    · intro s a t hrun
      obtain ⟨t', hrun', hle⟩ := hspec s
      rw [hrun] at hrun'
      cases hrun'
      exact hle
    · intro s e t hrun
      obtain ⟨t', hrun', -⟩ := hspec s
      rw [hrun] at hrun'
      cases hrun'

end

end BeyondProtocol.SendLock
