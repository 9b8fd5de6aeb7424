import Mathlib.Tactic
import BeyondProtocol.Framework.Unpacker

/-!
# Message pack: integers, byte strings and arrays

The part of the format that records of numbers and bytes use. An object starts
with a head: an integer is a head alone, the head of a byte string or an array
gives its length. Numbers are written in the shortest form, big endian.
-/

namespace Framework.Msgpack

open ByteParser

/-! ## §1  Numbers -/

/-- The low `k` bytes of a number, the highest first. -/
def bigEndian : Nat → Nat → List UInt8
  | 0, _ => []
  | k + 1, n => bigEndian k (n / 256) ++ [UInt8.ofNat n]

def ofBigEndian (bs : List UInt8) : Nat := bs.foldl (fun n b => n * 256 + b.toNat) 0

@[simp] theorem length_bigEndian (k n : Nat) : (bigEndian k n).length = k := by
  induction k generalizing n with
  | zero => rfl
  | succ k ih => simp [bigEndian, ih]

theorem ofBigEndian_bigEndian (k n : Nat) : ofBigEndian (bigEndian k n) = n % 256 ^ k := by
  induction k generalizing n with
  | zero => simp [bigEndian, ofBigEndian, Nat.mod_one]
  | succ k ih =>
      have hsnoc : ofBigEndian (bigEndian (k + 1) n) =
          ofBigEndian (bigEndian k (n / 256)) * 256 + n % 256 := by
        simp [ofBigEndian, bigEndian, List.foldl_append]
      rw [hsnoc, ih, pow_succ', Nat.mod_mul]
      ring

/-- A number in `k` bytes. -/
def number (k : Nat) : ByteParser Nat := andThen (takeBytes k) fun bs => result (ofBigEndian bs)

theorem number_bigEndian {k n : Nat} (h : n < 256 ^ k) (rest : List UInt8) :
    number k (bigEndian k n ++ rest) = some (n, rest) := by
  rw [number, andThen_of_eq (takeBytes_append (length_bigEndian k n) rest), result,
    ofBigEndian_bigEndian, Nat.mod_eq_of_lt h]

theorem number_extends (k : Nat) : Extends (number k) (number k) :=
  (Extends.takeBytes k).andThen fun bs => Extends.result (ofBigEndian bs)

/-! ## §2  Heads -/

inductive Head : Type where
  | int (i : Int)
  | bin (n : Nat)
  | array (n : Nat)
deriving DecidableEq

namespace Head

/-- The values a head can have. -/
def Fits : Head → Prop
  | .int i => -2 ^ 63 ≤ i ∧ i < 2 ^ 64
  | .bin n => n < 2 ^ 32
  | .array n => n < 2 ^ 32

def packNat (n : Nat) : List UInt8 :=
  if n < 2 ^ 7 then [UInt8.ofNat n]
  else if n < 2 ^ 8 then 0xcc :: bigEndian 1 n
  else if n < 2 ^ 16 then 0xcd :: bigEndian 2 n
  else if n < 2 ^ 32 then 0xce :: bigEndian 4 n
  else 0xcf :: bigEndian 8 n

/-- The negative integer `-n`, in two's complement. -/
def packNeg (n : Nat) : List UInt8 :=
  if n ≤ 2 ^ 5 then [UInt8.ofNat (2 ^ 8 - n)]
  else if n ≤ 2 ^ 7 then 0xd0 :: bigEndian 1 (2 ^ 8 - n)
  else if n ≤ 2 ^ 15 then 0xd1 :: bigEndian 2 (2 ^ 16 - n)
  else if n ≤ 2 ^ 31 then 0xd2 :: bigEndian 4 (2 ^ 32 - n)
  else 0xd3 :: bigEndian 8 (2 ^ 64 - n)

def pack : Head → List UInt8
  | .int i => if 0 ≤ i then packNat i.toNat else packNeg (-i).toNat
  | .bin n =>
      if n < 2 ^ 8 then 0xc4 :: bigEndian 1 n
      else if n < 2 ^ 16 then 0xc5 :: bigEndian 2 n
      else 0xc6 :: bigEndian 4 n
  | .array n =>
      if n < 2 ^ 4 then [UInt8.ofNat (0x90 + n)]
      else if n < 2 ^ 16 then 0xdc :: bigEndian 2 n
      else 0xdd :: bigEndian 4 n

/-- A number of `k` bytes in two's complement. -/
def signed (k n : Nat) : Int := if 2 * n < 256 ^ k then n else n - 256 ^ k

/-- The rest of a head after its first byte. -/
def parseTag (tag : Nat) : ByteParser Head :=
  if tag < 0x80 then result (.int tag)
  else if tag < 0x90 then fail
  else if tag < 0xa0 then result (.array (tag - 0x90))
  else if tag = 0xc4 then andThen (number 1) fun n => result (.bin n)
  else if tag = 0xc5 then andThen (number 2) fun n => result (.bin n)
  else if tag = 0xc6 then andThen (number 4) fun n => result (.bin n)
  else if tag = 0xcc then andThen (number 1) fun n => result (.int n)
  else if tag = 0xcd then andThen (number 2) fun n => result (.int n)
  else if tag = 0xce then andThen (number 4) fun n => result (.int n)
  else if tag = 0xcf then andThen (number 8) fun n => result (.int n)
  else if tag = 0xd0 then andThen (number 1) fun n => result (.int (signed 1 n))
  else if tag = 0xd1 then andThen (number 2) fun n => result (.int (signed 2 n))
  else if tag = 0xd2 then andThen (number 4) fun n => result (.int (signed 4 n))
  else if tag = 0xd3 then andThen (number 8) fun n => result (.int (signed 8 n))
  else if tag = 0xdc then andThen (number 2) fun n => result (.array n)
  else if tag = 0xdd then andThen (number 4) fun n => result (.array n)
  else if tag < 0xe0 then fail
  else result (.int (tag - 256))

def parse : ByteParser Head := andThen byte fun tag => parseTag tag.toNat

theorem parse_extends : Extends parse parse := by
  have hnumber : ∀ k (f : Nat → Head), Extends (andThen (number k) fun n => result (f n))
      (andThen (number k) fun n => result (f n)) :=
    fun k f => (number_extends k).andThen fun n => Extends.result (f n)
  refine Extends.byte.andThen fun tag => ?_
  unfold parseTag
  repeat' apply Extends.ite
  all_goals first
    | exact Extends.result _
    | exact Extends.fail _
    | exact hnumber _ _

theorem parse_takes : Takes parse 1 := by
  have hnumber : ∀ k (f : Nat → Head), Takes (andThen (number k) fun n => result (f n)) 0 :=
    fun k f => ((Takes.takeBytes k).andThen fun bs => Takes.result _).andThen fun n =>
      Takes.result (f n)
  refine Takes.byte.andThen fun tag => ?_
  unfold parseTag
  repeat' apply Takes.ite
  all_goals first
    | exact Takes.result _
    | exact Takes.fail _
    | exact hnumber _ _

/-- A head of a tag and a number. -/
theorem parse_tagged {tag : UInt8} {k n : Nat} {f : Nat → Head}
    (htag : parseTag tag.toNat = andThen (number k) fun n => result (f n)) (h : n < 256 ^ k)
    (rest : List UInt8) : parse (tag :: bigEndian k n ++ rest) = some (f n, rest) := by
  show parseTag tag.toNat (bigEndian k n ++ rest) = _
  rw [htag, andThen_of_eq (number_bigEndian h rest)]
  rfl

theorem parse_packNat {n : Nat} (h : n < 2 ^ 64) (rest : List UInt8) :
    parse (packNat n ++ rest) = some (.int n, rest) := by
  unfold packNat
  split_ifs with h₁ h₂ h₃ h₄
  · have hn : (UInt8.ofNat n).toNat = n := UInt8.toNat_ofNat_of_lt' (by rw [UInt8.size]; omega)
    show parseTag (UInt8.ofNat n).toNat rest = _
    rw [hn, parseTag, if_pos (by omega)]
    rfl
  · exact parse_tagged (f := fun n => .int n) rfl h₂ rest
  · exact parse_tagged (f := fun n => .int n) rfl h₃ rest
  · exact parse_tagged (f := fun n => .int n) rfl h₄ rest
  · exact parse_tagged (f := fun n => .int n) rfl h rest

/-- The head of a negative number in `k` bytes. -/
theorem parse_signed {tag : UInt8} {k n : Nat}
    (htag : parseTag tag.toNat = andThen (number k) fun n => result (.int (signed k n)))
    (hn : 0 < n) (h : 2 * n ≤ 256 ^ k) (rest : List UInt8) :
    parse (tag :: bigEndian k (256 ^ k - n) ++ rest) = some (.int (-n), rest) := by
  rw [parse_tagged htag (by omega) rest, signed, if_neg (by omega),
    Nat.cast_sub (by omega : n ≤ 256 ^ k)]
  simp

theorem parse_packNeg {n : Nat} (hn : 0 < n) (h : n ≤ 2 ^ 63) (rest : List UInt8) :
    parse (packNeg n ++ rest) = some (.int (-n), rest) := by
  unfold packNeg
  split_ifs with h₁ h₂ h₃ h₄
  · have hbyte : (UInt8.ofNat (2 ^ 8 - n)).toNat = 256 - n :=
      UInt8.toNat_ofNat_of_lt' (by rw [UInt8.size]; omega)
    show parseTag (UInt8.ofNat (2 ^ 8 - n)).toNat rest = _
    rw [hbyte]
    unfold parseTag
    repeat rw [if_neg (by omega)]
    simp [result]
    omega
  · exact parse_signed (k := 1) rfl hn (by omega) rest
  · exact parse_signed (k := 2) rfl hn (by omega) rest
  · exact parse_signed (k := 4) rfl hn (by omega) rest
  · exact parse_signed (k := 8) rfl hn (by omega) rest

theorem parse_pack {head : Head} (h : head.Fits) (rest : List UInt8) :
    parse (head.pack ++ rest) = some (head, rest) := by
  cases head with
  | int i =>
      obtain ⟨hlo, hhi⟩ := h
      rw [pack]
      split_ifs with hi
      · rw [parse_packNat (by omega) rest, Int.toNat_of_nonneg hi]
      · rw [parse_packNeg (by omega) (by omega) rest, Int.toNat_of_nonneg (by omega), neg_neg]
  | bin n =>
      rw [pack]
      split_ifs with h₁ h₂
      · exact parse_tagged (f := .bin) rfl h₁ rest
      · exact parse_tagged (f := .bin) rfl h₂ rest
      · exact parse_tagged (f := .bin) rfl h rest
  | array n =>
      rw [pack]
      split_ifs with h₁ h₂
      · have hbyte : (UInt8.ofNat (0x90 + n)).toNat = 0x90 + n :=
          UInt8.toNat_ofNat_of_lt' (by rw [UInt8.size]; omega)
        show parseTag (UInt8.ofNat (0x90 + n)).toNat rest = _
        rw [hbyte, parseTag, if_neg (by omega), if_neg (by omega), if_pos (by omega)]
        simp [result]
      · exact parse_tagged (f := .array) rfl h₂ rest
      · exact parse_tagged (f := .array) rfl h rest

theorem length_pack_pos (head : Head) : 0 < head.pack.length := by
  cases head with
  | int i =>
      rw [pack, packNat, packNeg]
      split_ifs <;> simp
  | bin n =>
      rw [pack]
      split_ifs <;> simp
  | array n =>
      rw [pack]
      split_ifs <;> simp

end Head

/-! ## §3  Objects -/

inductive Object : Type where
  | int (i : Int)
  | bin (bytes : List UInt8)
  | array (items : List Object)

namespace Object

/-- All integers in the object fit into 64 bits. -/
inductive Ints64 : Object → Prop where
  | int {i : Int} : -2 ^ 63 ≤ i → i < 2 ^ 64 → Ints64 (.int i)
  | bin (bytes : List UInt8) : Ints64 (.bin bytes)
  | array {items : List Object} : (∀ o ∈ items, Ints64 o) → Ints64 (.array items)

mutual

def pack : Object → List UInt8
  | .int i => (Head.int i).pack
  | .bin bytes => (Head.bin bytes.length).pack ++ bytes
  | .array items => (Head.array items.length).pack ++ packAll items

def packAll : List Object → List UInt8
  | [] => []
  | o :: items => pack o ++ packAll items

end

/-- An object; `fuel` bounds how deep arrays are nested. -/
def parse : Nat → ByteParser Object
  | 0 => fail
  | fuel + 1 => andThen Head.parse fun
      | .int i => result (.int i)
      | .bin n => andThen (takeBytes n) fun bytes => result (.bin bytes)
      | .array n => andThen (many (parse fuel) n) fun items => result (.array items)

theorem parse_extends (n m : Nat) (h : n ≤ m) : Extends (parse n) (parse m) := by
  induction n generalizing m with
  | zero => exact Extends.fail _
  | succ n ih =>
      obtain ⟨m, rfl⟩ : ∃ k, m = k + 1 := ⟨m - 1, by omega⟩
      refine Head.parse_extends.andThen fun head => ?_
      cases head with
      | int i => exact Extends.result _
      | bin k => exact (Extends.takeBytes k).andThen fun bytes => Extends.result _
      | array k => exact ((ih m (by omega)).many k).andThen fun items => Extends.result _

theorem parse_takes (n : Nat) : Takes (parse n) 1 := by
  induction n with
  | zero => exact Takes.fail 1
  | succ n ih =>
      refine Head.parse_takes.andThen fun head => ?_
      cases head with
      | int i => exact Takes.result _
      | bin k => exact (Takes.takeBytes k).andThen fun bytes => Takes.result _
      | array k => exact ((ih.mono (Nat.zero_le 1)).many k).andThen fun items => Takes.result _

theorem length_pack_pos (o : Object) : 0 < (pack o).length := by
  cases o with
  | int i =>
      rw [pack]
      exact Head.length_pack_pos _
  | bin bytes =>
      have := Head.length_pack_pos (.bin bytes.length)
      rw [pack, List.length_append]
      omega
  | array items =>
      have := Head.length_pack_pos (.array items.length)
      rw [pack, List.length_append]
      omega

theorem length_le_packAll (items : List Object) : items.length ≤ (packAll items).length := by
  induction items with
  | nil => exact Nat.zero_le _
  | cons o items ih =>
      have := length_pack_pos o
      rw [packAll, List.length_cons, List.length_append]
      omega

/-- Items of an array, each of which can be parsed. -/
theorem parseAll_packAll {p : ByteParser Object} {items : List Object}
    (h : ∀ o ∈ items, ∀ rest, p (pack o ++ rest) = some (o, rest)) (rest : List UInt8) :
    many p items.length (packAll items ++ rest) = some (items, rest) := by
  induction items with
  | nil => rfl
  | cons o items ih =>
      rw [packAll, List.append_assoc, List.length_cons, many,
        andThen_of_eq (h o (by simp) _), andThen_of_eq (ih fun o ho => h o (by simp [ho]))]
      rfl

theorem length_pack_le_packAll {o : Object} {items : List Object} (h : o ∈ items) :
    (pack o).length ≤ (packAll items).length := by
  induction items with
  | nil => cases h
  | cons o' items ih =>
      rw [packAll, List.length_append]
      rcases List.mem_cons.mp h with rfl | h
      · omega
      · have := ih h
        omega

/-- An object is parsed back, with at least as much fuel as it has bytes. -/
theorem parse_pack {fuel : Nat} {o : Object} (hints : o.Ints64) (hfuel : (pack o).length ≤ fuel)
    (hshort : (pack o).length < 2 ^ 32) (rest : List UInt8) :
    parse fuel (pack o ++ rest) = some (o, rest) := by
  induction fuel generalizing o rest with
  | zero =>
      have := length_pack_pos o
      omega
  | succ fuel ih =>
      cases hints with
      | @int i hlo hhi =>
          have hhead : (Head.int i).Fits := ⟨hlo, hhi⟩
          rw [pack, parse, andThen_of_eq (Head.parse_pack hhead rest)]
          rfl
      | bin bytes =>
          rw [pack, List.length_append] at hshort
          have hhead : (Head.bin bytes.length).Fits := by
            show bytes.length < 2 ^ 32
            omega
          rw [pack, parse, List.append_assoc, andThen_of_eq (Head.parse_pack hhead _)]
          show andThen (takeBytes bytes.length) _ (bytes ++ rest) = _
          rw [andThen_of_eq (takeBytes_append rfl rest)]
          rfl
      | @array items hitems =>
          rw [pack, List.length_append] at hshort hfuel
          have hcount := length_le_packAll items
          have hpos := Head.length_pack_pos (.array items.length)
          have hhead : (Head.array items.length).Fits := by
            show items.length < 2 ^ 32
            omega
          have hall : ∀ o ∈ items, ∀ rest, parse fuel (pack o ++ rest) = some (o, rest) := by
            intro o ho rest
            have := length_pack_le_packAll ho
            exact ih (hitems o ho) (by omega) (by omega) rest
          rw [pack, parse, List.append_assoc, andThen_of_eq (Head.parse_pack hhead _)]
          show andThen (many (parse fuel) items.length) _ (packAll items ++ rest) = _
          rw [andThen_of_eq (parseAll_packAll hall rest)]
          rfl

/-- Objects that can be packed and unpacked. -/
def Fits (o : Object) : Prop := o.Ints64 ∧ (pack o).length < 2 ^ 32

theorem unpacker_settled : (unpacker parse).Settled :=
  ByteParser.unpacker_settled nofun

theorem unpacker_incremental :
    (unpacker parse).Incremental pack Fits (fun bs => bs) :=
  ByteParser.unpacker_incremental (fun o => List.length_pos_iff.mp (length_pack_pos o))
    parse_extends fun o ho => by simpa using parse_pack ho.1 (Nat.le_refl _) ho.2 []

def codec : ObjectCodec Object where
  unpacker := unpacker parse
  pack := pack
  Fits := Fits
  pending bs := bs
  incremental := unpacker_incremental
  settled := unpacker_settled
  exists_fits := ⟨.int 0, .int (by decide) (by decide), by decide⟩

end Object

end Framework.Msgpack
