import Mathlib.Data.List.Basic
import Mathlib.Algebra.Group.Nat.Defs

/-!
# Incremental unpackers

A reader of a byte stream appends what arrives to the buffer of an unpacker and
takes whole objects from the front of it. How far the unpacker has looked into
an object that is not complete is its own affair: what a caller may rely on is
stated with `pending`, the bytes behind the last object that was taken.
-/

namespace Framework

/-- The operations of a buffered unpacker. -/
structure Unpacker (Object : Type) where
  State : Type
  /-- A buffer without bytes. -/
  empty : State
  /-- Bytes were appended to the buffer. -/
  consumed : State → List UInt8 → State
  /-- The number of bytes that were not looked at yet. -/
  nonparsedSize : State → Nat
  /-- Take the next object if it is complete; on malformed bytes an exception is thrown. -/
  next : State → Option (State × Option Object)

variable {Object : Type}

/-- The unpacker yields packed objects in order, each as soon as its last byte is there. -/
structure Unpacker.Incremental (u : Unpacker Object) (pack : Object → List UInt8)
    (fits : Object → Prop) (pending : u.State → List UInt8) : Prop where
  pack_ne_nil : ∀ o, fits o → pack o ≠ []
  pending_empty : pending u.empty = []
  pending_consumed : ∀ s bs, pending (u.consumed s bs) = pending s ++ bs
  nonparsed_empty : u.nonparsedSize u.empty = 0
  nonparsed_consumed : ∀ s bs, u.nonparsedSize (u.consumed s bs) = u.nonparsedSize s + bs.length
  nonparsed_le : ∀ s, u.nonparsedSize s ≤ (pending s).length
  next_object : ∀ s o rest, fits o → pending s = pack o ++ rest →
    ∃ s', u.next s = some (s', some o) ∧ pending s' = rest ∧ u.nonparsedSize s' = rest.length
  next_incomplete : ∀ s o rest, fits o → pack o = pending s ++ rest → rest ≠ [] →
    ∃ s', u.next s = some (s', none) ∧ pending s' = pending s

/-- Where nothing was found, nothing is found before more bytes come. -/
structure Unpacker.Settled (u : Unpacker Object) : Prop where
  empty : ∀ s o, u.next u.empty ≠ some (s, some o)
  again : ∀ s s', u.next s = some (s', none) → ∀ s'' o, u.next s' ≠ some (s'', some o)

/-- A format of messages: how they are packed, and an unpacker for it. -/
structure ObjectCodec (Object : Type) where
  unpacker : Unpacker Object
  pack : Object → List UInt8
  Fits : Object → Prop
  pending : unpacker.State → List UInt8
  incremental : unpacker.Incremental pack Fits pending
  settled : unpacker.Settled
  exists_fits : ∃ o, Fits o

/-! ## Parsers of bytes -/

/-- A parser takes bytes from the front, or fails because there are too few. -/
abbrev ByteParser (α : Type) : Type := List UInt8 → Option (α × List UInt8)

namespace ByteParser

variable {α β : Type}

def andThen (p : ByteParser α) (f : α → ByteParser β) : ByteParser β := fun bs =>
  match p bs with
  | none => none
  | some (a, rest) => f a rest

def result (a : α) : ByteParser α := fun bs => some (a, bs)

def fail : ByteParser α := fun _ => none

def takeBytes (k : Nat) : ByteParser (List UInt8) := fun bs =>
  if k ≤ bs.length then some (bs.take k, bs.drop k) else none

def byte : ByteParser UInt8
  | [] => none
  | b :: bs => some (b, bs)

def many (p : ByteParser α) : Nat → ByteParser (List α)
  | 0 => result []
  | n + 1 => andThen p fun a => andThen (many p n) fun as => result (a :: as)

/-- What `p` finds in some bytes, `q` finds when more bytes follow. -/
def Extends (p q : ByteParser α) : Prop :=
  ∀ bs a rest more, p bs = some (a, rest) → q (bs ++ more) = some (a, rest ++ more)

theorem andThen_eq_some {p : ByteParser α} {f : α → ByteParser β} {bs : List UInt8}
    {x : β × List UInt8} :
    andThen p f bs = some x ↔ ∃ a rest, p bs = some (a, rest) ∧ f a rest = some x := by
  unfold andThen
  cases p bs with
  | none => simp
  | some y =>
      obtain ⟨a, rest⟩ := y
      simp

theorem andThen_of_eq {p : ByteParser α} {bs rest : List UInt8} {a : α} (h : p bs = some (a, rest))
    (f : α → ByteParser β) : andThen p f bs = f a rest := by
  unfold andThen
  rw [h]

theorem takeBytes_append {bs : List UInt8} {k : Nat} (h : bs.length = k) (rest : List UInt8) :
    takeBytes k (bs ++ rest) = some (bs, rest) := by
  subst h
  simp [takeBytes]

namespace Extends

theorem result (a : α) : Extends (result a) (result a) := by
  rintro bs _ _ more ⟨⟩
  rfl

theorem fail (q : ByteParser α) : Extends fail q := nofun

theorem byte : Extends byte byte := by
  rintro (_ | ⟨b, bs⟩) a rest more h
  · cases h
  · cases h
    rfl

theorem takeBytes (k : Nat) : Extends (takeBytes k) (takeBytes k) := by
  intro bs a rest more h
  unfold ByteParser.takeBytes at h
  split_ifs at h with hk
  cases h
  rw [← List.take_append_drop k bs, List.append_assoc]
  simpa using takeBytes_append (by simp [hk]) (bs.drop k ++ more)

theorem andThen {p q : ByteParser α} {f g : α → ByteParser β} (h : Extends p q)
    (hf : ∀ a, Extends (f a) (g a)) : Extends (andThen p f) (andThen q g) := by
  intro bs x rest more hx
  obtain ⟨a, mid, hp, hfa⟩ := andThen_eq_some.mp hx
  exact andThen_eq_some.mpr ⟨a, mid ++ more, h bs a mid more hp, hf a mid x rest more hfa⟩

theorem many {p q : ByteParser α} (h : Extends p q) (n : Nat) : Extends (many p n) (many q n) := by
  induction n with
  | zero => exact result []
  | succ n ih => exact h.andThen fun a => ih.andThen fun as => result (a :: as)

theorem ite {p q p' q' : ByteParser α} (c : Prop) [Decidable c] (h : Extends p q)
    (h' : Extends p' q') : Extends (if c then p else p') (if c then q else q') := by
  split_ifs
  · exact h
  · exact h'

end Extends

/-- What `p` finds takes at least `k` bytes. -/
def Takes (p : ByteParser α) (k : Nat) : Prop :=
  ∀ bs a rest, p bs = some (a, rest) → rest.length + k ≤ bs.length

namespace Takes

theorem result (a : α) : Takes (result a) 0 := by
  rintro bs _ _ ⟨⟩
  exact Nat.le_refl _

theorem fail (k : Nat) : Takes (fail : ByteParser α) k := nofun

theorem byte : Takes byte 1 := by
  rintro (_ | ⟨b, bs⟩) a rest h
  · cases h
  · cases h
    exact Nat.le_refl _

theorem takeBytes (n : Nat) : Takes (takeBytes n) 0 := by
  intro bs a rest h
  unfold ByteParser.takeBytes at h
  split_ifs at h
  cases h
  simp

theorem andThen {p : ByteParser α} {f : α → ByteParser β} {k : Nat} (h : Takes p k)
    (hf : ∀ a, Takes (f a) 0) : Takes (andThen p f) k := by
  intro bs x rest hx
  obtain ⟨a, mid, hp, hfa⟩ := andThen_eq_some.mp hx
  have hmid := h bs a mid hp
  have hrest := hf a mid x rest hfa
  omega

theorem mono {p : ByteParser α} {k l : Nat} (h : Takes p k) (hl : l ≤ k) : Takes p l := by
  intro bs a rest hx
  have hk := h bs a rest hx
  omega

theorem many {p : ByteParser α} (h : Takes p 0) (n : Nat) : Takes (many p n) 0 := by
  induction n with
  | zero => exact result []
  | succ n ih => exact h.andThen fun a => ih.andThen fun as => result (a :: as)

theorem ite {p q : ByteParser α} {k : Nat} (c : Prop) [Decidable c] (h : Takes p k)
    (h' : Takes q k) : Takes (if c then p else q) k := by
  split_ifs
  · exact h
  · exact h'

end Takes

section

variable {p : Nat → ByteParser α} {pack : α → List UInt8}

theorem parse_object (hext : ∀ n m, n ≤ m → Extends (p n) (p m)) {a : α}
    (hinv : p (pack a).length (pack a) = some (a, [])) (rest : List UInt8) :
    p (pack a ++ rest).length (pack a ++ rest) = some (a, rest) := by
  have hle : (pack a).length ≤ (pack a ++ rest).length := by simp
  simpa using hext _ _ hle (pack a) a [] rest hinv

/-- An object found in a part of the bytes would be the whole one. -/
theorem parse_incomplete (hext : ∀ n m, n ≤ m → Extends (p n) (p m)) {a : α}
    (hinv : p (pack a).length (pack a) = some (a, [])) {bs rest : List UInt8}
    (h : pack a = bs ++ rest) (hrest : rest ≠ []) : p bs.length bs = none := by
  cases hparse : p bs.length bs with
  | none => rfl
  | some x =>
      obtain ⟨b, mid⟩ := x
      have hle : bs.length ≤ (bs ++ rest).length := by simp
      have hwhole := hext _ _ hle bs b mid rest hparse
      rw [h] at hinv
      rw [hinv] at hwhole
      simp [hrest] at hwhole

/-- The unpacker that tries a parser on all bytes it has. -/
def unpacker (p : Nat → ByteParser α) : Unpacker α where
  State := List UInt8
  empty := []
  consumed bs more := bs ++ more
  nonparsedSize bs := bs.length
  next bs := some (match p bs.length bs with
    | none => (bs, none)
    | some (a, rest) => (rest, some a))

/-- The parser that has failed would fail again. -/
theorem unpacker_settled (h : ∀ a rest, p 0 [] ≠ some (a, rest)) : (unpacker p).Settled where
  empty s a hnext := by
    simp only [unpacker, List.length_nil] at hnext
    cases hparse : p 0 [] with
    | none =>
        rw [hparse] at hnext
        cases hnext
    | some x => exact h x.1 x.2 hparse
  again bs s' hnone s'' a hnext := by
    simp only [unpacker] at hnone hnext
    cases hparse : p bs.length bs with
    | none =>
        rw [hparse] at hnone
        cases hnone
        rw [hparse] at hnext
        cases hnext
    | some x =>
        rw [hparse] at hnone
        cases hnone

/-- A parser that inverts `pack` makes an incremental unpacker. -/
theorem unpacker_incremental {fits : α → Prop} (hne : ∀ a, pack a ≠ [])
    (hext : ∀ n m, n ≤ m → Extends (p n) (p m))
    (hinv : ∀ a, fits a → p (pack a).length (pack a) = some (a, [])) :
    (unpacker p).Incremental pack fits (fun bs => bs) where
  pack_ne_nil o _ := hne o
  pending_empty := rfl
  pending_consumed _ _ := rfl
  nonparsed_empty := rfl
  nonparsed_consumed _ _ := List.length_append
  nonparsed_le _ := Nat.le_refl _
  next_object s o rest ho := by
    rintro rfl
    refine ⟨rest, ?_, rfl, rfl⟩
    show some (match p (pack o ++ rest).length (pack o ++ rest) with
      | none => _
      | some (a, rest) => _) = _
    rw [parse_object hext (hinv o ho) rest]
    rfl
  next_incomplete s o rest ho hs hrest := by
    refine ⟨s, ?_, rfl⟩
    show some (match p (List.length s) s with
      | none => _
      | some (a, rest) => _) = _
    rw [parse_incomplete hext (hinv o ho) hs hrest]
    rfl

end

end ByteParser

end Framework
