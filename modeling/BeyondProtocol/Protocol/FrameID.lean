import Mathlib.Data.Nat.Bitwise
import Mathlib.Tactic

/-!
# Frame identifiers (`frameid.hpp`)

A `FrameID` packs a frameset number and a source number into one 32-bit
integer: the source takes the low eight bits, the frameset the rest.
-/

namespace BeyondProtocol

structure FrameID where
  id : UInt32
deriving DecidableEq, Repr, Inhabited

namespace FrameID

def frameset (f : FrameID) : Nat := f.id.toNat >>> 8

def source (f : FrameID) : Nat := f.id.toNat &&& 0xff

/-- `FrameID(fs, s)`. The arithmetic is that of a 32-bit `unsigned int`, so a
frameset number loses its bits above the 24th. -/
def ofPair (fs s : Nat) : FrameID := ⟨UInt32.ofNat ((fs <<< 8) + (s &&& 0xff))⟩

theorem frameset_eq (f : FrameID) : f.frameset = f.id.toNat / 256 := by
  simp [frameset, Nat.shiftRight_eq_div_pow]

theorem source_eq (f : FrameID) : f.source = f.id.toNat % 256 :=
  Nat.and_two_pow_sub_one_eq_mod f.id.toNat 8

theorem toNat_ofPair (fs s : Nat) :
    (ofPair fs s).id.toNat = (fs * 256 + s % 256) % 2 ^ 32 := by
  have hs : s &&& 0xff = s % 256 := Nat.and_two_pow_sub_one_eq_mod s 8
  simp [ofPair, hs, Nat.shiftLeft_eq]

theorem source_lt (f : FrameID) : f.source < 256 := by
  rw [source_eq]
  omega

@[simp] theorem source_ofPair (fs s : Nat) : (ofPair fs s).source = s % 256 := by
  rw [source_eq, toNat_ofPair]
  omega

theorem frameset_ofPair_mod (fs s : Nat) : (ofPair fs s).frameset = fs % 2 ^ 24 := by
  rw [frameset_eq, toNat_ofPair]
  omega

theorem frameset_ofPair {fs : Nat} (h : fs < 2 ^ 24) (s : Nat) :
    (ofPair fs s).frameset = fs := by
  rw [frameset_ofPair_mod, Nat.mod_eq_of_lt h]

/-- A frame identifier is determined by its frameset and its source. -/
theorem ext_parts {f g : FrameID} (hf : f.frameset = g.frameset)
    (hs : f.source = g.source) : f = g := by
  rw [frameset_eq, frameset_eq] at hf
  rw [source_eq, source_eq] at hs
  have h : f.id.toNat = g.id.toNat := by omega
  cases f
  cases g
  simpa using UInt32.toNat.inj h

end FrameID

end BeyondProtocol
