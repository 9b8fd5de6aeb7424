import Mathlib.Logic.Relation
import BeyondProtocol.Framework.PackedStream
import BeyondProtocol.Streams.FileFormat
import BeyondProtocol.Streams.FilePlayer

/-!
# Whether reading a file comes to an end

`readPacket` asks the unpacker for an object and reads more of the file if there
is none. It does so only while fewer than 10,000,000 bytes wait in the buffer: an
object that is not complete with so many bytes is asked for again and again.
Otherwise each turn of the loop takes bytes from the file, and each packet that
is returned takes bytes from the buffer.
-/

namespace BeyondProtocol

open Framework Msgpack Relation

namespace IStream

theorem fill_append (s : IStream) : s.fill.1 ++ s.fill.2.rest = s.rest := by
  unfold fill
  split_ifs with hgood hrest
  · rfl
  · rfl
  · exact List.take_append_drop _ _

theorem fill_length (s : IStream) :
    s.fill.1.length + s.fill.2.rest.length = s.rest.length := by
  rw [← List.length_append, fill_append]

theorem good_of_fill {s : IStream} (h : s.fill.1 ≠ []) : s.good = true := by
  unfold fill at h
  split_ifs at h with hgood
  · exact absurd rfl h
  · exact absurd rfl h
  · simpa using hgood

end IStream

namespace FileReader

variable {u : Unpacker Object}

/-! ## §1  The loops of the source -/

/-- A loop that reads packets, each into a new one: it goes on while `more` says so, and `take`
puts a packet away and says whether to go on behind it. The last part of the result is whether a
call of `readPacket` returned false. -/
def readLoop {σ : Type} (more : FileReader u → σ → Bool)
    (take : σ → Packet → Except Fault (σ × Bool)) :
    Nat → FileReader u → σ → Except Fault (FileReader u × σ × Bool)
  | 0, _, _ => .error .outOfFuel
  | fuel + 1, f, s =>
      if !more f s then .ok (f, s, false)
      else do
        let (f, data, res) ← readPacket fuel f (default, default)
        if !res then return (f, s, true)
        else
          let (s, go) ← take s data
          if go then readLoop more take fuel f s else return (f, s, false)

/-- What the loop of `_checkFile` does with a packet. -/
def checkPacket (s : File × Nat × Int) (x : Packet) :
    Except Fault ((File × Nat × Int) × Bool) :=
  let file := s.1.noteFrameset x
  if 0 < x.1.timestamp && x.1.channel.isVideo && s.2.2 < x.1.timestamp then
    .ok ((file, s.2.1 - 1, x.1.timestamp), true)
  else .ok ((file, s.2), true)

/-- The loop of `_checkFile`. -/
def checkLoop (fuel : Nat) (f : FileReader u) (s : File × Nat × Int) :
    Except Fault (FileReader u × (File × Nat × Int) × Bool) :=
  readLoop (fun _ s => decide (0 < s.2.1)) checkPacket fuel f s

/-- What the loop of `tick` does with a packet. -/
def tickPacket (file : File) (extended : Int) (data : List Packet) (x : Packet) :
    Except Fault (List Packet × Bool) :=
  match file.adjust x with
  | .error _ => .error .undefined
  | .ok x => .ok (data ++ [x], !decide (extended < x.1.timestamp))

/-- The reading loop of `tick`. -/
def tickLoop (file : File) (extended : Int) (fuel : Nat) (f : FileReader u)
    (data : List Packet) : Except Fault (FileReader u × List Packet × Bool) :=
  readLoop (fun f _ => file.active && f.istream.good || decide (0 < u.nonparsedSize f.buffer))
    (tickPacket file extended) fuel f data

/-! ## §2  One turn of `readPacket` -/

/-- The unpacker, as far as progress rests on it: an object takes bytes from the buffer, and of one
that is not complete a part stays that no further call takes. -/
structure Consumes (u : Unpacker Object) : Prop where
  consumed : ∀ s bs, u.nonparsedSize (u.consumed s bs) = u.nonparsedSize s + bs.length
  object : ∀ s s' o, u.next s = some (s', some o) → u.nonparsedSize s' < u.nonparsedSize s
  incomplete : ∀ s s', u.next s = some (s', none) →
    u.nonparsedSize s' ≤ u.nonparsedSize s ∧ u.next s' = some (s', none)

/-- An object that is not complete, and 10,000,000 bytes of it are in the buffer. -/
def Stuck (f : FileReader u) : Prop :=
  ∃ buffer, u.next f.buffer = some (buffer, none) ∧ 10000000 ≤ u.nonparsedSize buffer

/-- The buffer into which more of the file is read: one without bytes, or what is left of it when
an object is not complete. -/
inductive Short (f : FileReader u) : u.State → Prop where
  | empty : u.nonparsedSize f.buffer = 0 → Short f f.buffer
  | incomplete {buffer : u.State} : 0 < u.nonparsedSize f.buffer →
      u.next f.buffer = some (buffer, none) → u.nonparsedSize buffer < 10000000 → Short f buffer

/-- The reader after a read into `buffer`. -/
def filled (f : FileReader u) (buffer : u.State) : FileReader u :=
  { f with istream := f.istream.fill.2, buffer := u.consumed buffer f.istream.fill.1 }

/-- The reader gets on: bytes come in, or a packet is taken. -/
inductive ReadStep (f : FileReader u) : FileReader u → Prop where
  | fill {buffer : u.State} : f.Short buffer → f.istream.fill.1 ≠ [] →
      ReadStep f (f.filled buffer)
  | took {buffer : u.State} {obj : Object} {data : Packet} : 0 < u.nonparsedSize f.buffer →
      u.next f.buffer = some (buffer, some obj) → 5 ≤ f.version →
      Packet.convert obj (default, default) = some data → ReadStep f { f with buffer := buffer }

/-- Bytes that are not parsed, in the buffer and in the file. -/
def left (f : FileReader u) : Nat := f.istream.rest.length + u.nonparsedSize f.buffer

/-- The rest of a turn: an object is taken from the buffer. -/
def ask (fuel : Nat) (f : FileReader u) (data : Packet) :
    Except Fault (FileReader u × Packet × Bool) := do
  let (f, parsed) ← parseMessage f data
  match parsed with
  | none => readPacketLoop fuel true f data
  | some (data, res) => .ok (f, data, res)

theorem readPacketLoop_succ (fuel : Nat) (partialMsg : Bool) (f : FileReader u) (data : Packet) :
    readPacketLoop (fuel + 1) partialMsg f data =
      if !f.istream.good && u.nonparsedSize f.buffer = 0 then .ok (f, data, false)
      else if u.nonparsedSize f.buffer = 0 || (partialMsg && u.nonparsedSize f.buffer < 10000000)
        then
          if f.istream.fill.1 = [] then .ok ({ f with istream := f.istream.fill.2 }, data, false)
          else (f.filled f.buffer).ask fuel data
      else f.ask fuel data := rfl

theorem ask_incomplete {f : FileReader u} {buffer : u.State}
    (h : u.next f.buffer = some (buffer, none)) (fuel : Nat) (data : Packet) :
    f.ask fuel data = readPacketLoop fuel true { f with buffer := buffer } data := by
  unfold ask parseMessage
  rw [h]
  rfl

theorem readPacket_ask {f : FileReader u} (h : 0 < u.nonparsedSize f.buffer) (fuel : Nat)
    (data : Packet) : f.readPacket (fuel + 1) data = f.ask fuel data := by
  have hne : u.nonparsedSize f.buffer ≠ 0 := Nat.pos_iff_ne_zero.mp h
  rw [readPacket, readPacketLoop_succ, if_neg (by simp [hne]), if_neg (by simp [hne])]

/-- A turn that reads from the file. -/
theorem readPacketLoop_fill {f : FileReader u} {partialMsg : Bool}
    (h : u.nonparsedSize f.buffer = 0 ∨
      partialMsg = true ∧ u.nonparsedSize f.buffer < 10000000)
    (hbytes : f.istream.fill.1 ≠ []) (fuel : Nat) (data : Packet) :
    readPacketLoop (fuel + 1) partialMsg f data = (f.filled f.buffer).ask fuel data := by
  rw [readPacketLoop_succ, if_neg (by simp [IStream.good_of_fill hbytes]),
    if_pos (by simpa using h), if_neg hbytes]

/-- A turn that finds the end of the file. -/
theorem readPacketLoop_end {f : FileReader u} {partialMsg : Bool}
    (h : u.nonparsedSize f.buffer = 0 ∨
      partialMsg = true ∧ u.nonparsedSize f.buffer < 10000000)
    (hbytes : f.istream.fill.1 = []) (data : Packet) :
    ∃ f', ∀ fuel, readPacketLoop (fuel + 1) partialMsg f data = .ok (f', data, false) := by
  by_cases hover : (!f.istream.good && u.nonparsedSize f.buffer = 0) = true
  · exact ⟨f, fun fuel => by rw [readPacketLoop_succ, if_pos hover]⟩
  · refine ⟨{ f with istream := f.istream.fill.2 }, fun fuel => ?_⟩
    rw [readPacketLoop_succ, if_neg hover, if_pos (by simpa using h), if_pos hbytes]

theorem filled_pos (hu : Consumes u) {f : FileReader u} {buffer : u.State}
    (hbytes : f.istream.fill.1 ≠ []) : 0 < u.nonparsedSize (f.filled buffer).buffer := by
  have := List.length_pos_iff.mpr hbytes
  show 0 < u.nonparsedSize (u.consumed buffer _)
  rw [hu.consumed]
  omega

/-- Before and after bytes come in the same is read. -/
theorem readPacket_filled (hu : Consumes u) {f : FileReader u} {buffer : u.State}
    (hshort : f.Short buffer) (hbytes : f.istream.fill.1 ≠ []) (data : Packet) :
    ∃ k ≤ 1, ∀ fuel, f.readPacket (fuel + k) data = (f.filled buffer).readPacket fuel data := by
  cases hshort with
  | empty hsize =>
      refine ⟨0, Nat.zero_le 1, fun fuel => ?_⟩
      cases fuel with
      | zero => rfl
      | succ fuel =>
          rw [readPacket_ask (filled_pos hu hbytes)]
          exact readPacketLoop_fill (.inl hsize) hbytes fuel data
  | incomplete hpos hnext hsize =>
      refine ⟨1, le_rfl, fun fuel => ?_⟩
      rw [readPacket_ask hpos, ask_incomplete hnext]
      cases fuel with
      | zero => rfl
      | succ fuel =>
          rw [readPacket_ask (filled_pos hu hbytes)]
          exact readPacketLoop_fill (f := { f with buffer := buffer }) (.inr ⟨rfl, hsize⟩) hbytes
            fuel data

/-- A stuck reader asks forever. -/
theorem readPacket_stuck (hu : Consumes u) {f : FileReader u} (h : f.Stuck) (fuel : Nat)
    (data : Packet) : f.readPacket fuel data = .error .outOfFuel := by
  obtain ⟨buffer, hnext, hsize⟩ := h
  obtain ⟨hle, hagain⟩ := hu.incomplete _ _ hnext
  have hloop : ∀ fuel,
      readPacketLoop fuel true { f with buffer := buffer } data = .error .outOfFuel := by
    intro fuel
    induction fuel with
    | zero => rfl
    | succ fuel ih =>
        have hne : u.nonparsedSize buffer ≠ 0 := by omega
        rw [readPacketLoop_succ, if_neg (by simp [hne]),
          if_neg (by simp [hne, Nat.not_lt.mpr hsize]), ask_incomplete hagain]
        exact ih
  cases fuel with
  | zero => rfl
  | succ fuel =>
      rw [readPacket_ask (by omega), ask_incomplete hnext]
      exact hloop fuel

/-! ## §3  Reading comes to an end -/

/-- With enough turns the result is `out`. -/
def Settles {α : Type} (call : Nat → Except Fault α) (out : Except Fault α) : Prop :=
  ∃ n, ∀ fuel, n ≤ fuel → call fuel = out

theorem Settles.of_add {α : Type} {call : Nat → Except Fault α} {out : Except Fault α} (n : Nat)
    (h : ∀ fuel, call (fuel + n) = out) : Settles call out := by
  refine ⟨n, fun fuel hfuel => ?_⟩
  rw [← h (fuel - n), Nat.sub_add_cancel hfuel]

theorem Settles.shift {α : Type} {call call' : Nat → Except Fault α} {out : Except Fault α}
    {k : Nat} (h : Settles call out) (hsame : ∀ fuel, call' (fuel + k) = call fuel) :
    Settles call' out := by
  obtain ⟨n, hout⟩ := h
  refine .of_add (n + k) fun fuel => ?_
  rw [← Nat.add_assoc, hsame]
  exact hout _ (Nat.le_add_left n fuel)

theorem Settles.unique {α : Type} {call : Nat → Except Fault α} {out out' : Except Fault α}
    (h : Settles call out) (h' : Settles call out') : out = out' := by
  obtain ⟨n, hout⟩ := h
  obtain ⟨n', hout'⟩ := h'
  rw [← hout _ (Nat.le_max_left n n'), hout' _ (Nat.le_max_right n n')]

/-- A call that comes back. -/
def Terminates {α : Type} (call : Nat → Except Fault α) : Prop :=
  ∃ out, out ≠ .error .outOfFuel ∧ Settles call out

/-- Wherever the reader gets to, no object keeps it waiting forever. -/
def NeverStuck (f : FileReader u) : Prop := ∀ f', ReflTransGen ReadStep f f' → ¬ f'.Stuck

theorem NeverStuck.step {f f' : FileReader u} (h : f.NeverStuck)
    (hstep : ReflTransGen ReadStep f f') : f'.NeverStuck :=
  fun _ hlater => h _ (hstep.trans hlater)

/-- What `readPacket` returns for a new packet. -/
abbrev Result (u : Unpacker Object) : Type := Except Fault (FileReader u × Packet × Bool)

/-- A call comes back with `out`; a packet takes bytes. -/
structure Comes (f : FileReader u) (out : Result u) : Prop where
  returns : out ≠ .error .outOfFuel
  settles : Settles (fun fuel => f.readPacket fuel (default, default)) out
  took : ∀ f' data, out = .ok (f', data, true) → ReflTransGen ReadStep f f' ∧ f'.left < f.left

theorem Comes.of_step {f g : FileReader u} {k : Nat} {out : Result u} (h : g.Comes out)
    (hstep : ReadStep f g) (hleft : g.left ≤ f.left)
    (hsame : ∀ fuel, f.readPacket (fuel + k) (default, default) =
      g.readPacket fuel (default, default)) : f.Comes out := by
  refine ⟨h.returns, h.settles.shift hsame, fun f' data heq => ?_⟩
  obtain ⟨hsteps, hlt⟩ := h.took f' data heq
  exact ⟨.head hstep hsteps, lt_of_lt_of_le hlt hleft⟩

/-- A call that returns false. -/
theorem Comes.of_false {f f' : FileReader u} {data : Packet} (n : Nat)
    (h : ∀ fuel, f.readPacket (fuel + n) (default, default) = .ok (f', data, false)) :
    f.Comes (.ok (f', data, false)) :=
  ⟨by simp, .of_add n h, by simp⟩

theorem left_filled_le (hu : Consumes u) {f : FileReader u} {buffer : u.State}
    (hshort : f.Short buffer) : (f.filled buffer).left ≤ f.left := by
  have hlength := f.istream.fill_length
  have hle : u.nonparsedSize buffer ≤ u.nonparsedSize f.buffer := by
    cases hshort with
    | empty => exact le_rfl
    | incomplete _ hnext _ => exact (hu.incomplete _ _ hnext).1
  show f.istream.fill.2.rest.length + u.nonparsedSize (u.consumed buffer _) ≤ _
  rw [hu.consumed, left]
  omega

theorem ask_object {f : FileReader u} {buffer : u.State} {obj : Object} {data : Packet}
    (h : u.next f.buffer = some (buffer, some obj)) (hversion : 5 ≤ f.version)
    (hdata : Packet.convert obj (default, default) = some data) (fuel : Nat) :
    f.ask fuel (default, default) = .ok ({ f with buffer := buffer }, data, true) := by
  unfold ask parseMessage
  simp only [h, if_neg (not_lt.mpr hversion), hdata, ok_bind]

/-- A call that takes an object, or throws. -/
theorem comes_next (hu : Consumes u) {f : FileReader u} (hpos : 0 < u.nonparsedSize f.buffer)
    (hnext : ∀ buffer, u.next f.buffer ≠ some (buffer, none)) : ∃ out, f.Comes out := by
  rcases hobj : u.next f.buffer with _ | ⟨buffer, _ | obj⟩
  · refine ⟨.error .thrown, by simp, .of_add 1 fun fuel => ?_, by simp⟩
    show f.readPacket (fuel + 1) (default, default) = _
    rw [readPacket_ask hpos, ask, parseMessage, hobj]
    rfl
  · exact absurd hobj (hnext buffer)
  · have hrefused : f.version < 5 ∨ Packet.convert obj (default, default) = none →
        f.Comes (.ok ({ f with buffer := buffer }, (default, default), false)) := by
      intro hcase
      refine .of_false 1 fun fuel => ?_
      rw [readPacket_ask hpos, ask, parseMessage]
      by_cases hversion : f.version < 5
      · simp only [hobj, if_pos hversion, ok_bind]
      · simp only [hobj, if_neg hversion, hcase.resolve_left hversion, ok_bind]
    by_cases hversion : f.version < 5
    · exact ⟨_, hrefused (.inl hversion)⟩
    · cases hdata : Packet.convert obj (default, default) with
      | none => exact ⟨_, hrefused (.inr hdata)⟩
      | some data =>
          refine ⟨.ok ({ f with buffer := buffer }, data, true), by simp, .of_add 1 fun fuel => ?_,
            ?_⟩
          · show f.readPacket (fuel + 1) (default, default) = _
            rw [readPacket_ask hpos, ask_object hobj (not_lt.mp hversion) hdata]
          · rintro _ _ ⟨⟩
            exact ⟨.single (.took hpos hobj (not_lt.mp hversion) hdata),
              Nat.add_lt_add_left (hu.object _ _ _ hobj) _⟩

/-- **`readPacket` comes back** if it does not get stuck: each turn takes bytes from the file. -/
theorem readPacket_comes (hu : Consumes u) (f : FileReader u) (h : f.NeverStuck) :
    ∃ out, f.Comes out := by
  induction hrest : f.istream.rest.length using Nat.strong_induction_on generalizing f with
  | _ rest ih =>
      subst hrest
      -- the turn in which bytes come in, or the end of the file is found
      have hturn : ∀ buffer, f.Short buffer → ∃ out, f.Comes out := by
        intro buffer hshort
        by_cases hbytes : f.istream.fill.1 = []
        · cases hshort with
          | empty hsize =>
              obtain ⟨f', hend⟩ := readPacketLoop_end (.inl hsize) hbytes (default, default)
              exact ⟨_, Comes.of_false 1 hend⟩
          | incomplete hpos hnext hsize =>
              obtain ⟨f', hend⟩ := readPacketLoop_end (f := { f with buffer := buffer })
                (.inr ⟨rfl, hsize⟩) hbytes (default, default)
              have hsame : ∀ fuel, f.readPacket (fuel + 2) (default, default) =
                  .ok (f', (default, default), false) := by
                intro fuel
                rw [readPacket_ask hpos (fuel + 1), ask_incomplete hnext]
                exact hend fuel
              exact ⟨_, Comes.of_false 2 hsame⟩
        · have hstep : ReadStep f (f.filled buffer) := .fill hshort hbytes
          have hlength := f.istream.fill_length
          have hsome := List.length_pos_iff.mpr hbytes
          obtain ⟨k, -, hsame⟩ := readPacket_filled hu hshort hbytes (default, default)
          have hless : (f.filled buffer).istream.rest.length < f.istream.rest.length := by
            show f.istream.fill.2.rest.length < _
            omega
          obtain ⟨out, hcomes⟩ := ih _ hless (f.filled buffer) (h.step (.single hstep)) rfl
          exact ⟨out, hcomes.of_step hstep (left_filled_le hu hshort) hsame⟩
      rcases Nat.eq_zero_or_pos (u.nonparsedSize f.buffer) with hsize | hpos
      · exact hturn _ (.empty hsize)
      · by_cases hnext : ∃ buffer, u.next f.buffer = some (buffer, none)
        · obtain ⟨buffer, hnext⟩ := hnext
          refine hturn buffer (.incomplete hpos hnext ?_)
          exact not_le.mp fun hsize => h f .refl ⟨buffer, hnext, hsize⟩
        · exact comes_next hu hpos (not_exists.mp hnext)

section

variable {σ : Type} {more : FileReader u → σ → Bool} {take : σ → Packet → Except Fault (σ × Bool)}
  {f f' : FileReader u} {s s' : σ} {x : Packet}

theorem readLoop_enough (hmore : more f s = false) :
    Settles (fun fuel => readLoop more take fuel f s) (.ok (f, s, false)) := by
  refine .of_add 1 fun fuel => ?_
  show readLoop more take (fuel + 1) f s = _
  rw [readLoop, if_pos (by simp [hmore])]

/-- What the loop does behind a call of `readPacket` that comes back. -/
theorem readLoop_behind (take : σ → Packet → Except Fault (σ × Bool)) {out : Result u}
    (hmore : more f s = true) (h : Settles (fun fuel => f.readPacket fuel (default, default)) out) :
    ∃ n, ∀ fuel, readLoop more take (fuel + n + 1) f s = (do
      let (f, data, res) ← out
      if !res then return (f, s, true)
      else
        let (s, go) ← take s data
        if go then readLoop more take (fuel + n) f s else return (f, s, false)) := by
  obtain ⟨n, hout⟩ := h
  refine ⟨n, fun fuel => ?_⟩
  rw [← hout (fuel + n) (Nat.le_add_left n fuel), readLoop, if_neg (by simp [hmore])]

theorem readLoop_error {e : Fault} (hmore : more f s = true)
    (h : Settles (fun fuel => f.readPacket fuel (default, default)) (.error e)) :
    Settles (fun fuel => readLoop more take fuel f s) (.error e) := by
  obtain ⟨n, hbehind⟩ := readLoop_behind take hmore h
  exact .of_add (n + 1) hbehind

theorem readLoop_done (hmore : more f s = true)
    (h : Settles (fun fuel => f.readPacket fuel (default, default)) (.ok (f', x, false))) :
    Settles (fun fuel => readLoop more take fuel f s) (.ok (f', s, true)) := by
  obtain ⟨n, hbehind⟩ := readLoop_behind take hmore h
  exact .of_add (n + 1) hbehind

theorem readLoop_refused {e : Fault} (hmore : more f s = true)
    (h : Settles (fun fuel => f.readPacket fuel (default, default)) (.ok (f', x, true)))
    (hput : take s x = .error e) :
    Settles (fun fuel => readLoop more take fuel f s) (.error e) := by
  obtain ⟨n, hbehind⟩ := readLoop_behind take hmore h
  refine .of_add (n + 1) fun fuel => (hbehind fuel).trans ?_
  rw [ok_bind]
  simp only [hput]
  rfl

theorem readLoop_last (hmore : more f s = true)
    (h : Settles (fun fuel => f.readPacket fuel (default, default)) (.ok (f', x, true)))
    (hput : take s x = .ok (s', false)) :
    Settles (fun fuel => readLoop more take fuel f s) (.ok (f', s', false)) := by
  obtain ⟨n, hbehind⟩ := readLoop_behind take hmore h
  refine .of_add (n + 1) fun fuel => (hbehind fuel).trans ?_
  rw [ok_bind]
  simp only [hput]
  rfl

theorem readLoop_next {out : Except Fault (FileReader u × σ × Bool)} (hmore : more f s = true)
    (h : Settles (fun fuel => f.readPacket fuel (default, default)) (.ok (f', x, true)))
    (hput : take s x = .ok (s', true))
    (hrest : Settles (fun fuel => readLoop more take fuel f' s') out) :
    Settles (fun fuel => readLoop more take fuel f s) out := by
  obtain ⟨n, hbehind⟩ := readLoop_behind take hmore h
  obtain ⟨n', hout⟩ := hrest
  refine .of_add (n' + n + 1) fun fuel => ?_
  have hnext := hbehind (fuel + n')
  rw [ok_bind] at hnext
  simp only [hput] at hnext
  rw [← hout (fuel + n' + n) (by omega), ← Nat.add_assoc, ← Nat.add_assoc]
  exact hnext

/-- **A loop comes to an end**: each packet takes bytes from the buffer. -/
theorem readLoop_terminates (hu : Consumes u) (htake : ∀ s x, take s x ≠ .error .outOfFuel)
    (f : FileReader u) (s : σ) (h : f.NeverStuck) :
    Terminates fun fuel => readLoop more take fuel f s := by
  induction hleft : f.left using Nat.strong_induction_on generalizing f s with
  | _ m ih =>
      subst hleft
      by_cases hmore : more f s = true
      · obtain ⟨out, hcomes⟩ := readPacket_comes hu f h
        rcases out with e | ⟨f', data, _ | _⟩
        · exact ⟨.error e, fun heq => hcomes.returns (by rw [Except.error.inj heq]),
            readLoop_error hmore hcomes.settles⟩
        · exact ⟨_, by simp, readLoop_done hmore hcomes.settles⟩
        · obtain ⟨hsteps, hlt⟩ := hcomes.took f' data rfl
          rcases hput : take s data with e | ⟨s', _ | _⟩
          · exact ⟨.error e, fun heq => htake s data (by rw [hput, Except.error.inj heq]),
              readLoop_refused hmore hcomes.settles hput⟩
          · exact ⟨_, by simp, readLoop_last hmore hcomes.settles hput⟩
          · obtain ⟨out, hne, hsettles⟩ := ih _ hlt f' s' (h.step hsteps) rfl
            exact ⟨out, hne, readLoop_next hmore hcomes.settles hput hsettles⟩
      · exact ⟨_, by simp, readLoop_enough (by simpa using hmore)⟩

end

/-! ## §4  Exactly then -/

/-- A call of `readPacket` returns true. -/
def Returned (f f' : FileReader u) : Prop :=
  ∃ data, Settles (fun fuel => f.readPacket fuel (default, default)) (.ok (f', data, true))

/-- Each call of `readPacket` comes back while packets are read one after the other, and the loops
of `_checkFile` and of `tick` come to an end. -/
structure Ends (f : FileReader u) : Prop where
  readPacket : ∀ f', ReflTransGen Returned f f' →
    Terminates fun fuel => f'.readPacket fuel (default, default)
  checkFile : ∀ f', ReflTransGen Returned f f' → ∀ s, Terminates fun fuel => f'.checkLoop fuel s
  tick : ∀ f', ReflTransGen Returned f f' → ∀ file extended data,
    Terminates fun fuel => tickLoop file extended fuel f' data

theorem Returned.steps (hu : Consumes u) {f f' : FileReader u} (h : ReflTransGen Returned f f')
    (hf : f.NeverStuck) : ReflTransGen ReadStep f f' := by
  induction h with
  | refl => exact .refl
  | tail _ hlast ih =>
      obtain ⟨data, hsettles⟩ := hlast
      obtain ⟨out, hcomes⟩ := readPacket_comes hu _ (hf.step ih)
      exact ih.trans (hcomes.took _ data (hcomes.settles.unique hsettles)).1

/-- If the reader can get to where it is stuck, then a call does not come back. -/
theorem hangs_of_stuck (hu : Consumes u) {f g : FileReader u} (h : ReflTransGen ReadStep f g)
    (hstuck : g.Stuck) : ∃ f', ReflTransGen Returned f f' ∧
      ∀ fuel, f'.readPacket fuel (default, default) = .error .outOfFuel := by
  induction h using ReflTransGen.head_induction_on with
  | refl => exact ⟨g, .refl, fun fuel => readPacket_stuck hu hstuck fuel _⟩
  | head hstep _ ih =>
      obtain ⟨f', hreturned, hhangs⟩ := ih
      cases hstep with
      | fill hshort hbytes =>
          obtain ⟨k, hk, hsame⟩ := readPacket_filled hu hshort hbytes (default, default)
          rcases hreturned.cases_head with rfl | ⟨c, ⟨data, hsettles⟩, hrest⟩
          · refine ⟨_, .refl, fun fuel => ?_⟩
            cases fuel with
            | zero => rfl
            | succ fuel =>
                obtain ⟨m, hm⟩ : ∃ m, fuel + 1 = m + k := ⟨fuel + 1 - k, by omega⟩
                rw [hm, hsame, hhangs]
          · exact ⟨f', .head ⟨data, hsettles.shift hsame⟩ hrest, hhangs⟩
      | took hpos hobj hversion hdata =>
          have hreturns := fun fuel => (readPacket_ask hpos fuel (default, default)).trans
            (ask_object hobj hversion hdata fuel)
          exact ⟨f', .head ⟨_, .of_add 1 hreturns⟩ hreturned, hhangs⟩

/-- Reading comes to an end exactly if no object is ever found incomplete with 10,000,000 bytes of
it in the buffer. -/
theorem ends_iff (hu : Consumes u) (f : FileReader u) : f.Ends ↔ f.NeverStuck := by
  constructor
  · intro h g hsteps hstuck
    obtain ⟨f', hreturned, hhangs⟩ := hangs_of_stuck hu hsteps hstuck
    obtain ⟨out, hne, n, hout⟩ := h.readPacket f' hreturned
    exact hne ((hout n le_rfl).symm.trans (hhangs n))
  · intro h
    have hlater : ∀ f', ReflTransGen Returned f f' → f'.NeverStuck :=
      fun f' hreturned => h.step (Returned.steps hu hreturned h)
    refine ⟨fun f' hreturned => ?_, fun f' hreturned s => ?_,
      fun f' hreturned file extended data => ?_⟩
    · obtain ⟨out, hcomes⟩ := readPacket_comes hu f' (hlater f' hreturned)
      exact ⟨out, hcomes.returns, hcomes.settles⟩
    · refine readLoop_terminates hu (fun s x => ?_) f' s (hlater f' hreturned)
      unfold checkPacket
      split_ifs <;> simp
    · refine readLoop_terminates hu (fun data x => ?_) f' data (hlater f' hreturned)
      unfold tickPacket
      cases file.adjust x <;> simp

/-! ## §5  The loops over what is read -/

/-- The packets that a reader returns one after the other. -/
inductive Yields : FileReader u → List Packet → Prop where
  | done {f f' : FileReader u} {data : Packet} :
      Settles (fun fuel => f.readPacket fuel (default, default)) (.ok (f', data, false)) →
      Yields f []
  | more {f f' : FileReader u} {x : Packet} {xs : List Packet} :
      Settles (fun fuel => f.readPacket fuel (default, default)) (.ok (f', x, true)) →
      Yields f' xs → Yields f (x :: xs)

/-- The loop of `_checkFile` probes what the reader returns. -/
theorem checkLoop_probe {f : FileReader u} {xs : List Packet} (h : Yields f xs) (file : File)
    (count : Nat) (ts : Int) :
    ∃ f' ts' ended, Settles (fun fuel => f.checkLoop fuel (file, count, ts))
      (.ok (f', ((File.probe xs count ts file).1, (File.probe xs count ts file).2, ts'),
        ended)) := by
  induction h generalizing file count ts with
  | done hread =>
      cases count with
      | zero => exact ⟨_, _, _, readLoop_enough rfl⟩
      | succ count => exact ⟨_, _, _, readLoop_done rfl hread⟩
  | @more f f' x xs hread _ ih =>
      cases count with
      | zero => exact ⟨_, _, _, readLoop_enough rfl⟩
      | succ count =>
          unfold File.probe
          by_cases hcounts : (0 < x.1.timestamp && x.1.channel.isVideo && ts < x.1.timestamp) = true
          · rw [if_pos hcounts]
            obtain ⟨g, ts', ended, hrest⟩ := ih (file.noteFrameset x) count x.1.timestamp
            exact ⟨g, ts', ended, readLoop_next rfl hread (if_pos hcounts) hrest⟩
          · rw [if_neg hcounts]
            obtain ⟨g, ts', ended, hrest⟩ := ih (file.noteFrameset x) (count + 1) ts
            exact ⟨g, ts', ended, readLoop_next rfl hread (if_neg hcounts) hrest⟩

/-- While there is a packet to return, the condition of the reading loop holds. -/
theorem more_of_returned {f f' : FileReader u} {x : Packet}
    (h : Settles (fun fuel => f.readPacket fuel (default, default)) (.ok (f', x, true))) :
    (f.istream.good || decide (0 < u.nonparsedSize f.buffer)) = true := by
  by_contra hnone
  simp only [Bool.or_eq_true, decide_eq_true_iff, not_or, Bool.not_eq_true, Nat.not_lt,
    Nat.le_zero] at hnone
  have hfalse : Settles (fun fuel => f.readPacket fuel (default, default))
      (.ok (f, (default, default), false)) := by
    refine .of_add 1 fun fuel => ?_
    show f.readPacket (fuel + 1) (default, default) = _
    rw [readPacket, readPacketLoop_succ, if_pos (by simp [hnone.1, hnone.2])]
  have heq := hfalse.unique h
  cases heq

/-- The reading loop of `tick` reads ahead in what the reader returns. -/
theorem tickLoop_readAhead {f : FileReader u} {xs : List Packet} (h : Yields f xs) {file : File}
    (hactive : file.active = true) {extended : Int} {ahead unread : List Packet} {ended : Bool}
    (hahead : file.readAhead extended xs = .ok (ahead, unread, ended)) (data : List Packet) :
    ∃ f' ended', Settles (fun fuel => tickLoop file extended fuel f data)
        (.ok (f', data ++ ahead, ended')) ∧ (ended' = false → Yields f' unread) ∧
      (ended' = true → ended = true) := by
  induction h generalizing data ahead with
  | @done f f' x hread =>
      cases hahead
      rw [List.append_nil]
      by_cases hmore : (file.active && f.istream.good || decide (0 < u.nonparsedSize f.buffer)) =
          true
      · exact ⟨f', true, readLoop_done hmore hread, nofun, fun _ => rfl⟩
      · exact ⟨f, false, readLoop_enough (by simpa using hmore), fun _ => .done hread, nofun⟩
  | @more f f' x xs hread hlater ih =>
      have hmore : (file.active && f.istream.good || decide (0 < u.nonparsedSize f.buffer)) =
          true := by
        rw [hactive]
        exact more_of_returned hread
      unfold File.readAhead at hahead
      obtain ⟨y, hy, hahead⟩ := bind_eq_ok.mp hahead
      have hput : tickPacket file extended data x =
          .ok (data ++ [y], !decide (extended < y.1.timestamp)) := by
        rw [tickPacket, hy]
      split_ifs at hahead with hlate
      · cases hahead
        rw [decide_eq_true hlate] at hput
        exact ⟨f', false, readLoop_last hmore hread hput, fun _ => hlater, nofun⟩
      · obtain ⟨⟨ahead', unread', ended₁⟩, hrest, hahead⟩ := bind_eq_ok.mp hahead
        cases hahead
        rw [decide_eq_false hlate] at hput
        obtain ⟨g, ended', hsettles, hyields, hends⟩ := ih hrest (data ++ [y])
        rw [List.append_assoc] at hsettles
        exact ⟨g, ended', readLoop_next hmore hread hput hsettles, hyields, hends⟩

/-- With fewer than 10,000,000 bytes the reader does not get stuck. -/
theorem neverStuck_of_left (hu : Consumes u) {f : FileReader u} (h : f.left < 10000000) :
    f.NeverStuck := by
  have hle : ∀ g, ReflTransGen ReadStep f g → g.left ≤ f.left := by
    intro g hsteps
    induction hsteps with
    | refl => exact le_rfl
    | tail _ hlast ih =>
        refine le_trans ?_ ih
        cases hlast with
        | fill hshort _ => exact left_filled_le hu hshort
        | took _ hobj _ _ => exact Nat.add_le_add_left (hu.object _ _ _ hobj).le _
  rintro g hsteps ⟨buffer, hnext, hsize⟩
  have hbuffer := (hu.incomplete _ _ hnext).1
  have hleft := hle g hsteps
  unfold left at hleft h
  omega

section

variable {pack : Object → List UInt8} {fits : Object → Prop} {pending : u.State → List UInt8}
variable {objects : List Object} {cut : List UInt8}

/-- The bytes in the buffer and in the file stay those of packed objects. -/
theorem ReadStep.packedStream (hu : u.Incremental pack fits pending) {f f' : FileReader u}
    (hstep : ReadStep f f')
    (h : PackedStream pack fits (pending f.buffer ++ f.istream.rest) objects cut) :
    ∃ objects', PackedStream pack fits (pending f'.buffer ++ f'.istream.rest) objects' cut := by
  have hfilled : ∀ buffer, pending buffer = pending f.buffer →
      pending (f.filled buffer).buffer ++ (f.filled buffer).istream.rest =
        pending f.buffer ++ f.istream.rest := by
    intro buffer hbuffer
    show pending (u.consumed buffer _) ++ f.istream.fill.2.rest = _
    rw [hu.pending_consumed, hbuffer, List.append_assoc, f.istream.fill_append]
  cases hstep with
  | fill hshort _ =>
      refine ⟨objects, ?_⟩
      cases hshort with
      | empty => exact (hfilled f.buffer rfl).symm ▸ h
      | incomplete _ hnext _ =>
          rcases h.next hu with ⟨_, _, _, -, hnext', -⟩ | ⟨_, hnext', hbuffer, -⟩
          · rw [hnext] at hnext'
            cases hnext'
          · rw [hnext] at hnext'
            cases hnext'
            exact (hfilled _ hbuffer).symm ▸ h
  | took _ hnext _ _ =>
      rcases h.next hu with ⟨_, rest, _, -, hnext', hrest⟩ | ⟨_, hnext', -⟩
      · rw [hnext] at hnext'
        cases hnext'
        exact ⟨rest, hrest⟩
      · rw [hnext] at hnext'
        cases hnext'

/-- In a file of any size, cut off or not, the reader does not get stuck if no object has
10,000,000 bytes. -/
theorem neverStuck_of_small (hu : u.Incremental pack fits pending)
    (hsmall : ∀ o, fits o → (pack o).length < 10000000) {f : FileReader u}
    (h : PackedStream pack fits (pending f.buffer ++ f.istream.rest) objects cut) :
    f.NeverStuck := by
  have hpacked : ∀ g, ReflTransGen ReadStep f g →
      ∃ objects', PackedStream pack fits (pending g.buffer ++ g.istream.rest) objects' cut := by
    intro g hsteps
    induction hsteps with
    | refl => exact ⟨objects, h⟩
    | tail _ hlast ih =>
        obtain ⟨_, ih⟩ := ih
        exact hlast.packedStream hu ih
  rintro g hsteps ⟨buffer, hnext, hsize⟩
  obtain ⟨_, hg⟩ := hpacked g hsteps
  -- what waits is a part of one object
  rcases hg.first_object with ⟨o, _, more, -, ho, hbuffer, -⟩ | ⟨o, missing, ho, hpack, hne, -⟩
  · obtain ⟨_, hnext', -⟩ := hu.next_object _ o more ho hbuffer
    rw [hnext] at hnext'
    cases hnext'
  · obtain ⟨buffer', hnext', hbuffer⟩ := hu.next_incomplete _ o missing ho hpack hne
    rw [hnext] at hnext'
    cases hnext'
    have hle := hu.nonparsed_le buffer
    have hlength := congrArg List.length hpack
    rw [List.length_append, ← hbuffer] at hlength
    have hlt := hsmall o ho
    omega

end

theorem consumes_parse : Consumes (ByteParser.unpacker Object.parse) where
  consumed _ _ := List.length_append
  object s s' o h := by
    have hfound := Option.some.inj h
    cases hparse : Object.parse s.length s with
    | none =>
        rw [hparse] at hfound
        cases hfound
    | some x =>
        obtain ⟨a, rest⟩ := x
        rw [hparse] at hfound
        cases hfound
        exact Object.parse_takes _ s o s' hparse
  incomplete s s' h := by
    have hfound := Option.some.inj h
    cases hparse : Object.parse s.length s with
    | none =>
        rw [hparse] at hfound
        cases hfound
        exact ⟨le_rfl, h⟩
    | some x =>
        obtain ⟨a, rest⟩ := x
        rw [hparse] at hfound
        cases hfound

/-- A file that ends within a packet. -/
def cutReader : FileReader (ByteParser.unpacker Object.parse) where
  istream :=
    { rest := [0x92, 0x95, 0xcd, 0x01], chunk := fun _ => ⟨9999999, by norm_num⟩, eof := true }
  buffer := []
  version := 5

theorem ends_iff_cut : cutReader.Ends := by
  have hleft : cutReader.left < 10000000 := by
    show List.length [0x92, 0x95, 0xcd, (0x01 : UInt8)] + List.length ([] : List UInt8) < _
    decide
  exact (ends_iff consumes_parse cutReader).mpr (neverStuck_of_left consumes_parse hleft)

/-- An object of 20,000,000 bytes of which the file has `n`. -/
def hugeObject (n : Nat) : List UInt8 := (Head.bin 20000000).pack ++ List.replicate n 0

def hugeReader (n : Nat) : FileReader (ByteParser.unpacker Object.parse) where
  istream := { rest := hugeObject n, chunk := fun _ => ⟨16777215, by norm_num⟩, eof := true }
  buffer := []
  version := 5

theorem length_hugeObject (n : Nat) : (hugeObject n).length = 5 + n := by
  rw [hugeObject, List.length_append, List.length_replicate]
  rfl

theorem next_hugeObject {n : Nat} (h : n < 20000000) :
    (ByteParser.unpacker Object.parse).next (hugeObject n) = some (hugeObject n, none) := by
  have hparse : Object.parse (hugeObject n).length (hugeObject n) = none := by
    have hfits : (Head.bin 20000000).Fits := by norm_num [Head.Fits]
    have hhead := Head.parse_pack hfits (List.replicate n 0)
    rw [length_hugeObject, Nat.add_comm 5 n]
    show ByteParser.andThen Head.parse _ ((Head.bin 20000000).pack ++ _) = none
    rw [ByteParser.andThen_of_eq hhead]
    show ByteParser.andThen (ByteParser.takeBytes 20000000) _ _ = none
    unfold ByteParser.andThen ByteParser.takeBytes
    rw [List.length_replicate, if_neg (Nat.not_le.mpr h)]
  show some _ = _
  rw [hparse]

theorem hugeReader_hangs {n : Nat} (hn : 10000000 ≤ n) (hn' : n ≤ 16777211) (fuel : Nat) :
    (hugeReader n).readPacket fuel (default, default) = .error .outOfFuel := by
  have hlength := length_hugeObject n
  have hfill : (hugeReader n).istream.fill.1 = hugeObject n := by
    have hne : hugeObject n ≠ [] := by
      rw [← List.length_pos_iff]
      omega
    show (IStream.fill { rest := hugeObject n, chunk := _, eof := true }).1 = _
    unfold IStream.fill
    rw [if_neg (by simp), if_neg hne]
    exact List.take_of_length_le (by simp only; omega)
  have hbytes : (hugeReader n).istream.fill.1 ≠ [] := by
    rw [hfill, ← List.length_pos_iff]
    omega
  obtain ⟨k, hk, hsame⟩ := readPacket_filled consumes_parse
    (.empty rfl : (hugeReader n).Short (hugeReader n).buffer) hbytes (default, default)
  have hstuck : ((hugeReader n).filled (hugeReader n).buffer).Stuck := by
    have hbuffer : ((hugeReader n).filled (hugeReader n).buffer).buffer = hugeObject n := hfill
    refine ⟨hugeObject n, ?_, ?_⟩
    · rw [hbuffer]
      exact next_hugeObject (by omega)
    · show 10000000 ≤ (hugeObject n).length
      omega
  cases fuel with
  | zero => rfl
  | succ fuel =>
      obtain ⟨m, hm⟩ : ∃ m, fuel + 1 = m + k := ⟨fuel + 1 - k, by omega⟩
      rw [hm, hsame]
      exact readPacket_stuck consumes_parse hstuck m _

/-- A file that was cut off within a large object: no number of turns is enough to read it. -/
theorem cut_object_hangs :
    ofFile (ByteParser.unpacker Object.parse)
        { rest := headerBytes ++ indexHeaderBytes (Vector.replicate 56 0) ++ hugeObject 10000000,
          chunk := fun _ => ⟨16777215, by norm_num⟩, eof := true } =
      (hugeReader 10000000, true) ∧
    ∀ fuel, (hugeReader 10000000).readPacket fuel (default, default) = .error .outOfFuel :=
  ⟨openFile_written _ _ _ _ _, hugeReader_hangs (by norm_num) (by norm_num)⟩

end FileReader

end BeyondProtocol
