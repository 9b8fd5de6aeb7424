import Mathlib.Algebra.Order.Ring.Star
import BeyondProtocol.Framework.Fallible
import BeyondProtocol.Framework.Msgpack
import BeyondProtocol.Protocol.Packet

/-!
# The file format (`filestream.cpp`, `packetMsgpack.hpp`)

A file starts with a header of fixed size, then come the packets that were
posted, one message each. The reader fills the buffer of an unpacker as it goes
and takes one message out at each call.

The bytes of a message are those of the message pack library: the unpacker and
the packing of objects are parameters here. What an object looks like for a
packet is decided by the source.
-/

namespace BeyondProtocol

open Framework Msgpack

/-! ## §1  Packets as objects -/

/-- `StreamPacketMSGPACK` -/
def StreamPacket.toObject (s : StreamPacket) : Object :=
  .array [.int s.timestamp, .int s.streamID.toNat, .int s.frameNumber.toNat, .int s.channel,
    .int s.flags.toNat]

/-- `PacketMSGPACK` -/
def DataPacket.toObject (p : DataPacket) : Object :=
  .array [.int p.codec.toNat, .int p.reserved.toNat, .int p.frameCount.toNat,
    .int p.bitrate.toNat, .int p.dataFlags.toNat, .bin p.data]

/-- The pair that `post` packs. -/
def Packet.toObject (x : Packet) : Object := .array [x.1.toObject, x.2.toObject]

/-- An integer of a given range; the conversion throws otherwise. -/
def convertInt (lo hi : Int) : Object → Option Int
  | .int i => if lo ≤ i ∧ i ≤ hi then some i else none
  | _ => none

def convertInt64 : Object → Option Int := convertInt (-2 ^ 63) (2 ^ 63 - 1)

def convertInt32 : Object → Option Int := convertInt (-2 ^ 31) (2 ^ 31 - 1)

def convertUInt8 (o : Object) : Option UInt8 :=
  (convertInt 0 255 o).map fun i => UInt8.ofNat i.toNat

def convertBytes : Object → Option (List UInt8)
  | .bin bytes => some bytes
  | _ => none

/-- `MSGPACK_DEFINE`: the items of an array are converted into the fields in turn. A field
without an item keeps its value, items without a field are ignored. -/
def convertArray {α : Type} (fields : List (Object → α → Option α)) (o : Object) (a : α) :
    Option α :=
  match o with
  | .array items => (fields.zip items).foldlM (fun a x => x.1 x.2 a) a
  | _ => none

/-- `StreamPacker` -/
def StreamPacket.fields : List (Object → StreamPacket → Option StreamPacket) :=
  [fun o s => (convertInt64 o).map fun v => { s with timestamp := v },
   fun o s => (convertUInt8 o).map fun v => { s with streamID := v },
   fun o s => (convertUInt8 o).map fun v => { s with frameNumber := v },
   fun o s => (convertInt32 o).map fun v => { s with channel := v },
   fun o s => (convertUInt8 o).map fun v => { s with flags := v }]

/-- `DataPacker` -/
def DataPacket.fields : List (Object → DataPacket → Option DataPacket) :=
  [fun o p => (convertUInt8 o).map fun v => { p with codec := v },
   fun o p => (convertUInt8 o).map fun v => { p with reserved := v },
   fun o p => (convertUInt8 o).map fun v => { p with frameCount := v },
   fun o p => (convertUInt8 o).map fun v => { p with bitrate := v },
   fun o p => (convertUInt8 o).map fun v => { p with dataFlags := v },
   fun o p => (convertBytes o).map fun v => { p with data := v }]

/-- `Packer` -/
def Packet.fields : List (Object → Packet → Option Packet) :=
  [fun o x => (convertArray StreamPacket.fields o x.1).map fun s => (s, x.2),
   fun o x => (convertArray DataPacket.fields o x.2).map fun p => (x.1, p)]

/-- `obj.convert(pack)` -/
def Packet.convert (o : Object) (x : Packet) : Option Packet := convertArray Packet.fields o x

/-- The values the machine types of a stream packet have. -/
structure StreamPacket.Machine (s : StreamPacket) : Prop where
  timestamp : -2 ^ 63 ≤ s.timestamp ∧ s.timestamp ≤ 2 ^ 63 - 1
  channel : (-2 ^ 31 : Int) ≤ s.channel ∧ s.channel ≤ (2 ^ 31 - 1 : Int)

@[simp] theorem convertUInt8_toNat (v : UInt8) : convertUInt8 (.int v.toNat) = some v := by
  have := v.toNat_lt
  simp only [convertUInt8, convertInt]
  rw [if_pos (by omega)]
  simp

theorem StreamPacket.convert_toObject {s : StreamPacket} (h : s.Machine) (s₀ : StreamPacket) :
    convertArray StreamPacket.fields s.toObject s₀ =
      some { s with localTimestamp := s₀.localTimestamp, hintCapability := s₀.hintCapability } := by
  have hts : convertInt64 (.int s.timestamp) = some s.timestamp := if_pos h.timestamp
  have hch : convertInt32 (.int s.channel) = some s.channel := if_pos h.channel
  simp [convertArray, toObject, fields, List.foldlM, hts, hch]

theorem DataPacket.convert_toObject (p p₀ : DataPacket) :
    convertArray DataPacket.fields p.toObject p₀ = some p := by
  simp [convertArray, toObject, fields, List.foldlM, convertBytes]

/-- What the reader converts is what the writer packed; the fields that are not in the file keep
the values they had. -/
theorem Packet.convert_toObject {x : Packet} (h : x.1.Machine) (y : Packet) :
    Packet.convert x.toObject y =
      some ({ x.1 with
        localTimestamp := y.1.localTimestamp, hintCapability := y.1.hintCapability }, x.2) := by
  have hs := StreamPacket.convert_toObject h y.1
  have hp := DataPacket.convert_toObject x.2 y.2
  show (Packet.fields.zip [x.1.toObject, x.2.toObject]).foldlM (fun a x => x.1 x.2 a) y = _
  simp [fields, List.foldlM, hs, hp]

theorem Packet.ints64_toObject {x : Packet} (h : x.1.Machine) : x.toObject.Ints64 := by
  have hbyte : ∀ v : UInt8, (Object.int v.toNat).Ints64 := by
    intro v
    have := v.toNat_lt
    exact .int (by omega) (by omega)
  have hts : (Object.int x.1.timestamp).Ints64 :=
    .int (by have := h.timestamp; omega) (by have := h.timestamp; omega)
  have hch : (Object.int x.1.channel).Ints64 :=
    .int (le_trans (by norm_num) h.channel.1) (lt_of_le_of_lt h.channel.2 (by norm_num))
  refine .array ?_
  simp only [List.mem_cons, List.not_mem_nil, or_false, forall_eq_or_imp, forall_eq]
  constructor
  · refine .array ?_
    simp only [List.mem_cons, List.not_mem_nil, or_false, forall_eq_or_imp, forall_eq]
    exact ⟨hts, hbyte _, hbyte _, hch, hbyte _⟩
  · refine .array ?_
    simp only [List.mem_cons, List.not_mem_nil, or_false, forall_eq_or_imp, forall_eq]
    exact ⟨hbyte _, hbyte _, hbyte _, hbyte _, hbyte _, .bin _⟩

/-! ## §2  Writing -/

/-- `Header`: `magic` and the version. -/
def headerBytes : List UInt8 := [70, 84, 76, 70, 5]

/-- `IndexHeader`. Only the first of its eight words is set. -/
def indexHeaderBytes (unset : Vector UInt8 56) : List UInt8 :=
  List.replicate 8 255 ++ unset.toList

inductive FileMode : Type where
  | read
  | write
  | readWrite
deriving DecidableEq

/-- A file that is written: `ostream_` is what the file holds. -/
structure FileWriter where
  mode : FileMode := .write
  active : Bool := false
  ostream : List UInt8 := []

namespace FileWriter

/-- `begin` for writing; `opens` says that the name is allowed and the file can be opened. -/
def begin (f : FileWriter) (opens : Bool) (unset : Vector UInt8 56) : FileWriter × Bool :=
  if f.active then (f, true)
  else if !opens then (f, false)
  else ({ f with ostream := headerBytes ++ indexHeaderBytes unset, active := true }, true)

/-- `post`. Packets without data are not written. -/
def post (pack : Object → List UInt8) (f : FileWriter) (x : Packet) : FileWriter × Bool :=
  if !f.active then (f, false)
  else if f.mode ≠ .write then (f, false)
  else if x.2.data.length = 0 then (f, true)
  else ({ f with ostream := f.ostream ++ pack x.toObject }, true)

def postAll (pack : Object → List UInt8) (f : FileWriter) (xs : List Packet) : FileWriter :=
  xs.foldl (fun f x => (post pack f x).1) f

end FileWriter

/-! ## §3  Reading -/

/-- `istream_`, with the bytes that were not read yet. A read into the buffer comes back with some
of them, as an `int` counts them: `chunk` says how many less one when so many are left, and `eof`
whether the read that takes the last one also finds the end of the file. -/
structure IStream where
  rest : List UInt8
  good : Bool := true
  chunk : Nat → Fin (2 ^ 31 - 1)
  eof : Bool

namespace IStream

/-- A read of exactly `n` bytes. -/
def read (s : IStream) (n : Nat) : List UInt8 × IStream :=
  if !s.good then ([], s)
  else (s.rest.take n, { s with rest := s.rest.drop n, good := decide (n ≤ s.rest.length) })

/-- A read into the buffer of the unpacker. -/
def fill (s : IStream) : List UInt8 × IStream :=
  if !s.good then ([], s)
  else if s.rest = [] then ([], { s with good := false })
  else
    let n := (s.chunk s.rest.length).val + 1
    (s.rest.take n, { s with rest := s.rest.drop n, good := decide (n < s.rest.length) || !s.eof })

end IStream

/-- A file that is read: `istream_`, `buffer_in_` and `version_`. -/
structure FileReader (u : Unpacker Object) where
  istream : IStream
  buffer : u.State
  version : Nat := 0

namespace FileReader

variable {u : Unpacker Object}

/-- `_open` of a file that can be opened: `istream` is at its start. A header that is cut off
keeps the values it was made with. -/
def openFile (f : FileReader u) (istream : IStream) : FileReader u × Bool :=
  let (bytes, istream) := istream.read 5
  let header := bytes ++ headerBytes.drop bytes.length
  if header.take 4 ≠ [70, 84, 76, 70] then ({ f with istream := istream }, false)
  else
    let version := (header.getD 4 0).toNat
    let istream := if 2 ≤ version then (istream.read 64).2 else istream
    ({ f with istream := istream, version := version }, true)

/-- Take a message from the buffer; `none` if it is not complete. -/
def parseMessage (f : FileReader u) (data : Packet) :
    Except Fault (FileReader u × Option (Packet × Bool)) :=
  match u.next f.buffer with
  | none => .error .thrown
  | some (buffer, none) => .ok ({ f with buffer := buffer }, none)
  | some (buffer, some obj) =>
      let f := { f with buffer := buffer }
      if f.version < 5 then .ok (f, some (data, false))
      else
        match Packet.convert obj data with
        | none => .ok (f, some (data, false))
        | some data => .ok (f, some (data, true))

/-- `readPacket`: the loop of the source, at most `fuel` times. -/
def readPacketLoop : Nat → Bool → FileReader u → Packet →
    Except Fault (FileReader u × Packet × Bool)
  | 0, _, _, _ => .error .outOfFuel
  | fuel + 1, partialMsg, f, data =>
      let size := u.nonparsedSize f.buffer
      if !f.istream.good && size = 0 then .ok (f, data, false)
      else if size = 0 || (partialMsg && size < 10000000) then
        let (bytes, istream) := f.istream.fill
        let f := { f with istream := istream }
        if bytes = [] then .ok (f, data, false)
        else do
          let (f, parsed) ← parseMessage { f with buffer := u.consumed f.buffer bytes } data
          match parsed with
          | none => readPacketLoop fuel true f data
          | some (data, res) => .ok (f, data, res)
      else do
        let (f, parsed) ← parseMessage f data
        match parsed with
        | none => readPacketLoop fuel true f data
        | some (data, res) => .ok (f, data, res)

def readPacket (fuel : Nat) (f : FileReader u) (data : Packet) :
    Except Fault (FileReader u × Packet × Bool) := readPacketLoop fuel false f data

/-- `readPacket` until it returns false, each time into a new packet. -/
def readAll : Nat → FileReader u → Except Fault (List Packet)
  | 0, _ => .error .outOfFuel
  | fuel + 1, f => do
      match ← readPacket fuel f (default, default) with
      | (_, _, false) => return []
      | (f, data, true) => return data :: (← readAll fuel f)

end FileReader

/-! ## §4  What was written is read back -/

namespace IStream

theorem fill_spec {s : IStream} (hrest : s.rest ≠ []) (hgood : s.good = true) :
    ∃ bytes s', s.fill = (bytes, s') ∧ bytes ≠ [] ∧ bytes ++ s'.rest = s.rest ∧
      (s'.rest ≠ [] → s'.good = true) := by
  unfold fill
  rw [if_neg (by simp [hgood]), if_neg hrest]
  refine ⟨_, _, rfl, ?_, List.take_append_drop _ _, ?_⟩
  · simp [List.take_eq_nil_iff, hrest]
  · intro hleft
    have hlt : (s.chunk s.rest.length).val + 1 < s.rest.length := by
      simpa [List.drop_eq_nil_iff] using hleft
    simp [hlt]

end IStream

namespace FileReader

variable {u : Unpacker Object} {pack : Object → List UInt8} {pending : u.State → List UInt8}

/-- Packets whose messages can be unpacked and fit into the buffer at once. -/
structure Readable (pack : Object → List UInt8) (x : Packet) : Prop where
  machine : x.1.Machine
  short : (pack x.toObject).length < 10000000

/-- What is left of the file, in the buffer and in the stream, are the messages of `xs`. -/
structure Holds (pack : Object → List UInt8) (pending : u.State → List UInt8) (f : FileReader u)
    (xs : List Packet) : Prop where
  version : 5 ≤ f.version
  good : f.istream.rest ≠ [] → f.istream.good = true
  bytes : pending f.buffer ++ f.istream.rest = xs.flatMap fun x => pack x.toObject

/-- The message pack library, as far as the reader relies on it. -/
def Unpacks (u : Unpacker Object) (pack : Object → List UInt8) (pending : u.State → List UInt8) :
    Prop :=
  u.Incremental pack (fun o => o.Ints64 ∧ (pack o).length < 2 ^ 32) pending

theorem Readable.fits {x : Packet} (h : Readable pack x) :
    x.toObject.Ints64 ∧ (pack x.toObject).length < 2 ^ 32 :=
  ⟨Packet.ints64_toObject h.machine, h.short.trans (by norm_num)⟩

/-- One attempt to take a message: it is there, or part of it is still in the file. -/
theorem parseMessage_spec (hu : Unpacks u pack pending) {f : FileReader u} {x : Packet}
    {xs : List Packet} (hx : Readable pack x) (h : f.Holds pack pending (x :: xs)) :
    (∃ f', f.parseMessage (default, default) = .ok (f', some ((x.1.onWire, x.2), true)) ∧
      f'.Holds pack pending xs ∧ u.nonparsedSize f'.buffer = (pending f'.buffer).length ∧
      f'.istream = f.istream) ∨
    ∃ f', f.parseMessage (default, default) = .ok (f', none) ∧
      f'.Holds pack pending (x :: xs) ∧ (pending f'.buffer).length < (pack x.toObject).length ∧
      f'.istream = f.istream := by
  have hbytes := h.bytes
  rw [List.flatMap_cons] at hbytes
  rcases List.append_eq_append_iff.mp hbytes with ⟨more, hpack, hrest⟩ | ⟨more, hpend, htail⟩
  · by_cases hmore : more = []
    · -- the message ends where the buffer does
      rw [hmore, List.append_nil] at hpack
      obtain ⟨s', hnext, hpending, hsize⟩ := hu.next_object f.buffer x.toObject [] hx.fits
        (by rw [hpack, List.append_nil])
      refine .inl ⟨{ f with buffer := s' }, ?_, ⟨h.version, h.good, ?_⟩, ?_, rfl⟩
      · unfold parseMessage
        simp only [hnext, if_neg (Nat.not_lt.mpr h.version),
          Packet.convert_toObject hx.machine]
        rfl
      · rw [hpending, hrest, hmore]
        rfl
      · rw [hsize, hpending]
    · obtain ⟨s', hnext, hpending⟩ :=
        hu.next_incomplete f.buffer x.toObject more hx.fits hpack hmore
      refine .inr ⟨{ f with buffer := s' }, ?_, ⟨h.version, h.good, ?_⟩, ?_, rfl⟩
      · unfold parseMessage
        simp only [hnext]
      · rw [hpending]
        exact h.bytes
      · have := List.length_pos_iff.mpr hmore
        rw [hpending, hpack, List.length_append]
        omega
  · obtain ⟨s', hnext, hpending, hsize⟩ := hu.next_object f.buffer x.toObject more hx.fits hpend
    refine .inl ⟨{ f with buffer := s' }, ?_, ⟨h.version, h.good, ?_⟩, ?_, rfl⟩
    · unfold parseMessage
      simp only [hnext, if_neg (Nat.not_lt.mpr h.version), Packet.convert_toObject hx.machine]
      rfl
    · rw [hpending]
      exact htail.symm
    · rw [hsize, hpending]

/-- The head of the loop: after a failed attempt the buffer holds part of a message, before one it
was not looked into. -/
def AtHead (pending : u.State → List UInt8) (f : FileReader u) (size : Nat) : Bool → Prop
  | false => u.nonparsedSize f.buffer = (pending f.buffer).length
  | true => (pending f.buffer).length < size

/-- Before the buffer is filled, there is more in the file. -/
theorem rest_ne_nil (hu : Unpacks u pack pending) {x : Packet} {xs : List Packet}
    (hx : Readable pack x) {f : FileReader u} {partialMsg : Bool}
    (h : f.Holds pack pending (x :: xs))
    (hhead : f.AtHead pending (pack x.toObject).length partialMsg)
    (hempty : u.nonparsedSize f.buffer = 0 ∨ partialMsg = true) : f.istream.rest ≠ [] := by
  intro hnil
  have hne := List.length_pos_iff.mpr (hu.pack_ne_nil x.toObject hx.fits)
  have hbytes := congrArg List.length h.bytes
  rw [hnil, List.append_nil, List.flatMap_cons, List.length_append] at hbytes
  cases partialMsg with
  | false =>
      have hsize : u.nonparsedSize f.buffer = (pending f.buffer).length := hhead
      have := hempty.resolve_right (by simp)
      omega
  | true =>
      have hpart : (pending f.buffer).length < (pack x.toObject).length := hhead
      omega

theorem readPacketLoop_cons (hu : Unpacks u pack pending) {x : Packet} {xs : List Packet}
    (hx : Readable pack x) (fuel : Nat) (partialMsg : Bool) (f : FileReader u)
    (h : f.Holds pack pending (x :: xs))
    (hhead : f.AtHead pending (pack x.toObject).length partialMsg)
    (hfuel : f.istream.rest.length + (if partialMsg then 1 else 2) ≤ fuel) :
    ∃ f', readPacketLoop fuel partialMsg f (default, default) =
        .ok (f', (x.1.onWire, x.2), true) ∧ f'.Holds pack pending xs ∧
      u.nonparsedSize f'.buffer = (pending f'.buffer).length ∧
      f'.istream.rest.length ≤ f.istream.rest.length := by
  induction fuel generalizing partialMsg f with
  | zero => split at hfuel <;> omega
  | succ fuel ih =>
      -- what follows an attempt, with as many bytes read as `f₁` says
      have hattempt : ∀ f₁ : FileReader u, f₁.Holds pack pending (x :: xs) →
          f₁.istream.rest.length + 1 ≤ fuel →
          f₁.istream.rest.length ≤ f.istream.rest.length →
          ∃ f', (do
              let (f, parsed) ← parseMessage f₁ (default, default)
              match parsed with
              | none => readPacketLoop fuel true f (default, default)
              | some (data, res) => .ok (f, data, res)) =
              .ok (f', (x.1.onWire, x.2), true) ∧ f'.Holds pack pending xs ∧
            u.nonparsedSize f'.buffer = (pending f'.buffer).length ∧
            f'.istream.rest.length ≤ f.istream.rest.length := by
        intro f₁ h₁ hf₁ hle
        rcases parseMessage_spec hu hx h₁ with ⟨f', hparse, hholds, hsize, his⟩ |
          ⟨f', hparse, hholds, hpart, his⟩
        · simp only [hparse, ok_bind]
          exact ⟨f', rfl, hholds, hsize, by rw [his]; exact hle⟩
        · simp only [hparse, ok_bind]
          obtain ⟨f'', hloop, hholds', hsize, hle'⟩ :=
            ih true f' hholds hpart (by simpa [his] using hf₁)
          exact ⟨f'', hloop, hholds', hsize, by rw [his] at hle'; omega⟩
      unfold readPacketLoop
      by_cases hfill : u.nonparsedSize f.buffer = 0 ∨
          partialMsg = true ∧ u.nonparsedSize f.buffer < 10000000
      · have hrest := rest_ne_nil hu hx h hhead (hfill.imp_right And.left)
        obtain ⟨bytes, is', hread, hne, hsplit, hgood⟩ := IStream.fill_spec hrest (h.good hrest)
        have hlen : f.istream.rest.length = bytes.length + is'.rest.length := by
          rw [← hsplit, List.length_append]
        have hbytes := List.length_pos_iff.mpr hne
        have hheld : Holds pack pending
            { f with istream := is', buffer := u.consumed f.buffer bytes } (x :: xs) := by
          refine ⟨h.version, hgood, ?_⟩
          rw [hu.pending_consumed, List.append_assoc, hsplit]
          exact h.bytes
        simp only [h.good hrest, hread, hne, Bool.not_true, Bool.false_and, Bool.false_eq_true,
          if_false]
        rw [if_pos (by simpa using hfill)]
        exact hattempt _ hheld (by simp only; split at hfuel <;> omega) (by simp only; omega)
      · -- nothing was looked at in a buffer that is not empty
        have hfresh : partialMsg = false := by
          cases partialMsg with
          | false => rfl
          | true =>
              have hpart : (pending f.buffer).length < (pack x.toObject).length := hhead
              have hsize := hu.nonparsed_le f.buffer
              have hshort := hx.short
              exact absurd (.inr ⟨rfl, by omega⟩) hfill
        subst hfresh
        rw [if_neg (by simp; tauto), if_neg (by simpa using hfill)]
        exact hattempt f h (by simpa using hfuel) le_rfl

/-- At the end of the file there is no packet. -/
theorem readPacketLoop_nil (hu : Unpacks u pack pending) (fuel : Nat) {f : FileReader u}
    (h : f.Holds pack pending []) :
    ∃ f', readPacketLoop (fuel + 1) false f (default, default) =
      .ok (f', (default, default), false) := by
  obtain ⟨hpending, hrest⟩ := List.append_eq_nil_iff.mp h.bytes
  have hsize : u.nonparsedSize f.buffer = 0 := by
    have := hu.nonparsed_le f.buffer
    rwa [hpending, List.length_nil, Nat.le_zero] at this
  unfold readPacketLoop IStream.fill
  cases hgood : f.istream.good with
  | false => exact ⟨f, by simp [hsize]⟩
  | true => exact ⟨{ f with istream := { f.istream with good := false } }, by simp [hsize, hrest]⟩

/-- What a reader returns for a packet of the file. -/
def asRead (x : Packet) : Packet := (x.1.onWire, x.2)

theorem readAll_holds (hu : Unpacks u pack pending) {xs : List Packet}
    (hxs : ∀ x ∈ xs, Readable pack x) (fuel : Nat) (f : FileReader u)
    (h : f.Holds pack pending xs)
    (hsize : u.nonparsedSize f.buffer = (pending f.buffer).length)
    (hfuel : f.istream.rest.length + xs.length + 3 ≤ fuel) :
    readAll fuel f = .ok (xs.map asRead) := by
  induction xs generalizing fuel f with
  | nil =>
      obtain ⟨fuel, rfl⟩ : ∃ n, fuel = n + 2 := ⟨fuel - 2, by omega⟩
      obtain ⟨f', hread⟩ := readPacketLoop_nil hu fuel h
      unfold readAll readPacket
      rw [hread]
      rfl
  | cons x xs ih =>
      obtain ⟨fuel, rfl⟩ : ∃ n, fuel = n + 1 := ⟨fuel - 1, by omega⟩
      rw [List.length_cons] at hfuel
      obtain ⟨f', hread, hholds, hsize', hle⟩ :=
        readPacketLoop_cons hu (hxs x (by simp)) fuel false f h hsize (by simp; omega)
      have hrest := ih (fun y hy => hxs y (by simp [hy])) fuel f' hholds hsize' (by omega)
      unfold readAll readPacket
      rw [hread, ok_bind]
      simp only [hrest, ok_bind]
      rfl

end FileReader

namespace FileWriter

theorem post_active {pack : Object → List UInt8} {f : FileWriter} (hactive : f.active = true)
    (hmode : f.mode = .write) (x : Packet) :
    (post pack f x).1 = if x.2.data = [] then f
      else { f with ostream := f.ostream ++ pack x.toObject } := by
  unfold post
  rw [if_neg (by simp [hactive]), if_neg (by simp [hmode])]
  simp only [List.length_eq_zero_iff]
  split_ifs <;> rfl

theorem ostream_postAll (pack : Object → List UInt8) {f : FileWriter} (hactive : f.active = true)
    (hmode : f.mode = .write) (xs : List Packet) :
    (postAll pack f xs).ostream =
      f.ostream ++ (xs.filter fun x => x.2.data ≠ []).flatMap fun x => pack x.toObject := by
  induction xs generalizing f with
  | nil => simp [postAll]
  | cons x xs ih =>
      show (postAll pack (post pack f x).1 xs).ostream = _
      rw [post_active hactive hmode]
      split_ifs with hdata
      · rw [ih hactive hmode, List.filter_cons_of_neg (by simp [hdata])]
      · have hnext : { f with ostream := f.ostream ++ pack x.toObject }.active = true := hactive
        rw [ih hnext hmode, List.filter_cons_of_pos (by simp [hdata]), List.flatMap_cons,
          List.append_assoc]

/-- The bytes of a file to which `xs` were posted. -/
def written (pack : Object → List UInt8) (unset : Vector UInt8 56) (xs : List Packet) :
    List UInt8 :=
  (postAll pack (begin {} true unset).1 xs).ostream

end FileWriter

namespace FileReader

/-- A file stream that opens a file. -/
def ofFile (u : Unpacker Object) (s : IStream) : FileReader u × Bool :=
  openFile { istream := s, buffer := u.empty } s

variable {u : Unpacker Object} {pack : Object → List UInt8} {pending : u.State → List UInt8}

theorem openFile_written (u : Unpacker Object) (unset : Vector UInt8 56) (body : List UInt8)
    (chunk : Nat → Fin (2 ^ 31 - 1)) (eof : Bool) :
    ofFile u { rest := headerBytes ++ indexHeaderBytes unset ++ body, chunk := chunk, eof := eof } =
      ({ istream := { rest := body, chunk := chunk, eof := eof }, buffer := u.empty,
         version := 5 }, true) := by
  have hindex : (indexHeaderBytes unset).length = 64 := by simp [indexHeaderBytes]
  simp [ofFile, openFile, IStream.read, headerBytes, hindex, List.take_append, List.drop_append]

/-- Every packet that was posted with data is read back in order, and then there are no more,
however the bytes of the file come in. -/
theorem readAll_written (hu : Unpacks u pack pending) (unset : Vector UInt8 56)
    (chunk : Nat → Fin (2 ^ 31 - 1)) (eof : Bool) (xs : List Packet)
    (hxs : ∀ x ∈ xs, x.2.data ≠ [] → Readable pack x) :
    ∃ f, ofFile u { rest := FileWriter.written pack unset xs, chunk := chunk, eof := eof } =
        (f, true) ∧
      ∃ n, ∀ fuel, n ≤ fuel →
        readAll fuel f = .ok ((xs.filter fun x => x.2.data ≠ []).map asRead) := by
  have hbegun : (FileWriter.begin {} true unset).1.active = true := rfl
  have hbody := FileWriter.ostream_postAll pack hbegun rfl xs
  have hreadable : ∀ x ∈ xs.filter fun x => x.2.data ≠ [], Readable pack x := by
    intro x hx
    obtain ⟨hmem, hdata⟩ := List.mem_filter.mp hx
    exact hxs x hmem (by simpa using hdata)
  have hopened := openFile_written u unset
    ((xs.filter fun x => x.2.data ≠ []).flatMap fun x => pack x.toObject) chunk eof
  rw [FileWriter.written, hbody]
  refine ⟨_, hopened, _, fun fuel hfuel => readAll_holds hu hreadable fuel _ ⟨?_, ?_, ?_⟩ ?_ hfuel⟩
  · exact le_rfl
  · exact fun _ => rfl
  · rw [hu.pending_empty]
    rfl
  · rw [hu.nonparsed_empty, hu.pending_empty]
    rfl

/-- A frame of one colour packet and its end, as a real file has them. -/
def smallFile : List Packet :=
  [({ timestamp := 100, streamID := 0, frameNumber := 1, channel := Channel.kColour },
    { codec := 0, dataFlags := 1, data := [1, 2, 3] }),
   ({ timestamp := 100, streamID := 0, frameNumber := 1, channel := Channel.kEndFrame }, {})]

theorem readAll_smallFile :
    ∃ f, ofFile (ByteParser.unpacker Object.parse)
        { rest := FileWriter.written Object.pack (Vector.replicate 56 0) smallFile,
          chunk := fun _ => ⟨9999999, by norm_num⟩, eof := true } = (f, true) ∧
      ∃ n, ∀ fuel, n ≤ fuel → readAll fuel f =
        .ok ((smallFile.filter fun x => x.2.data ≠ []).map asRead) := by
  refine readAll_written Object.unpacker_incremental _ _ _ smallFile fun x hx hdata => ?_
  simp only [smallFile, List.mem_cons, List.not_mem_nil, or_false] at hx
  rcases hx with rfl | rfl
  · exact ⟨⟨by norm_num, by norm_num [Channel.kColour]⟩, by decide⟩
  · exact absurd rfl hdata

end FileReader

end BeyondProtocol
