import BeyondProtocol.Net.Registry

/-!
# The order of UUIDs (`uuid.hpp`)

`operator==` compares all bytes with `memcmp`, `operator<` compares with `strncmp`, which
ends at a zero byte. The order is that of the bytes up to there, so it is total only on
UUIDs that do not differ behind a common zero byte.
-/

namespace BeyondProtocol

/-! ## §1  The comparisons of the C library -/

/-- `strncmp`: bytes as unsigned characters, at most `n`, up to a difference or a zero byte. -/
def strncmp : Nat → List UInt8 → List UInt8 → Int
  | n + 1, a :: s, b :: t =>
      if a ≠ b then (a.toNat : Int) - b.toNat else if a = 0 then 0 else strncmp n s t
  | _, _, _ => 0

/-- `memcmp` -/
def memcmp : Nat → List UInt8 → List UInt8 → Int
  | n + 1, a :: s, b :: t => if a ≠ b then (a.toNat : Int) - b.toNat else memcmp n s t
  | _, _, _ => 0

theorem strncmp_neg_iff {n : Nat} {s t : List UInt8} (hs : s.length = n) (ht : t.length = n) :
    strncmp n s t < 0 ↔ s.takeWhile (· ≠ 0) < t.takeWhile (· ≠ 0) := by
  induction n generalizing s t with
  | zero =>
      rw [List.length_eq_zero_iff.mp hs, List.length_eq_zero_iff.mp ht]
      simp [strncmp]
  | succ n ih =>
      obtain ⟨a, s, rfl⟩ := List.exists_cons_of_length_eq_add_one hs
      obtain ⟨b, t, rfl⟩ := List.exists_cons_of_length_eq_add_one ht
      have ih' := ih (Nat.succ.inj hs) (Nat.succ.inj ht)
      unfold strncmp
      by_cases hab : a = b
      · subst hab
        by_cases ha : a = 0
        · simp [ha]
        · simp only [ne_eq, not_true_eq_false, if_false, ha, not_false_eq_true, decide_true,
            List.takeWhile_cons, if_true, ih', List.cons_lt_cons_iff, true_and]
          exact ⟨.inr, fun h => h.resolve_left (UInt8.lt_irrefl a)⟩
      · rw [if_pos hab, sub_neg, Nat.cast_lt, ← UInt8.lt_iff_toNat_lt]
        by_cases ha : a = 0
        · have hb : b ≠ 0 := fun hb => hab (ha.trans hb.symm)
          have hlt : a < b := ha ▸ UInt8.pos_iff_ne_zero.mpr hb
          refine iff_of_true hlt ?_
          simp [ha, hb]
        · by_cases hb : b = 0
          · simp [hb, ha]
          · simp only [ne_eq, ha, hb, not_false_eq_true, decide_true, List.takeWhile_cons, if_true,
              List.cons_lt_cons_iff, hab, false_and, or_false]

theorem memcmp_eq_zero_iff {n : Nat} {s t : List UInt8} (hs : s.length = n) (ht : t.length = n) :
    memcmp n s t = 0 ↔ s = t := by
  induction n generalizing s t with
  | zero =>
      rw [List.length_eq_zero_iff.mp hs, List.length_eq_zero_iff.mp ht]
      simp [memcmp]
  | succ n ih =>
      obtain ⟨a, s, rfl⟩ := List.exists_cons_of_length_eq_add_one hs
      obtain ⟨b, t, rfl⟩ := List.exists_cons_of_length_eq_add_one ht
      unfold memcmp
      by_cases hab : a = b
      · rw [if_neg (not_not.mpr hab), ih (Nat.succ.inj hs) (Nat.succ.inj ht), hab]
        simp
      · rw [if_pos hab, sub_eq_zero, Nat.cast_inj, UInt8.toNat_inj]
        simp [hab]

/-! ## §2  The operators -/

namespace UUID

/-- `operator==` -/
def equal (a b : UUID) : Bool := decide (memcmp 16 a.bytes.toList b.bytes.toList = 0)

/-- `operator<` -/
def less (a b : UUID) : Bool := decide (strncmp 16 a.bytes.toList b.bytes.toList < 0)

theorem equal_iff (a b : UUID) : a.equal b = true ↔ a = b := by
  rw [equal, decide_eq_true_iff, memcmp_eq_zero_iff (by simp) (by simp), Vector.toList_inj]
  exact ⟨fun h => by cases a; cases b; exact congrArg UUID.mk h, fun h => by rw [h]⟩

/-- Less is less in the bytes up to the first zero byte. -/
theorem less_iff (a b : UUID) : a.less b = true ↔ a.key < b.key := by
  rw [less, decide_eq_true_iff, strncmp_neg_iff (by simp) (by simp), key, key]

theorem less_irrefl (a : UUID) : ¬ a.less a = true := by
  rw [less_iff]
  exact List.lt_irrefl _

theorem less_trans {a b c : UUID} (hab : a.less b = true) (hbc : b.less c = true) :
    a.less c = true := by
  rw [less_iff] at hab hbc ⊢
  exact List.lt_trans hab hbc

/-- UUIDs of which none is less are one key. -/
theorem key_eq_iff (a b : UUID) : a.key = b.key ↔ ¬ a.less b = true ∧ ¬ b.less a = true := by
  rw [less_iff, less_iff]
  constructor
  · intro h
    rw [h]
    exact ⟨List.lt_irrefl _, List.lt_irrefl _⟩
  · rintro ⟨hab, hba⟩
    exact List.le_antisymm (List.not_lt.mp hba) (List.not_lt.mp hab)

/-- Exactly one of the three comparisons holds. -/
def Trichotomous (a b : UUID) : Prop :=
  (a.less b).toNat + (a.equal b).toNat + (b.less a).toNat = 1

theorem trichotomous_iff (a b : UUID) : Trichotomous a b ↔ (a.key = b.key → a = b) := by
  have hequal := equal_iff a b
  have hkey := key_eq_iff a b
  have hasymm : ¬ (a.less b = true ∧ b.less a = true) :=
    fun h => less_irrefl a (less_trans h.1 h.2)
  have hsame : a = b → a.key = b.key := congrArg key
  unfold Trichotomous
  rw [← hequal] at hsame ⊢
  rw [hkey] at hsame ⊢
  revert hsame hasymm
  cases a.less b <;> cases b.less a <;> cases a.equal b <;> simp

/-- `operator<` is a total order on some UUIDs, with `operator==` as its equality. -/
structure TotallyOrdered (ids : List UUID) : Prop where
  irrefl : ∀ a ∈ ids, ¬ a.less a = true
  trans : ∀ a ∈ ids, ∀ b ∈ ids, ∀ c ∈ ids, a.less b = true → b.less c = true → a.less c = true
  trichotomy : ∀ a ∈ ids, ∀ b ∈ ids, Trichotomous a b

end UUID

/-! ## §3  The ids of the peers -/

namespace Universe

/-- `peer_ids_[id] = slot(id)` for some ids in turn. -/
def assignIds (u : Universe) (slot : UUID → Nat) (ids : List UUID) : Universe :=
  ids.foldl (fun u id => { u with peerIds := u.setPeerId id (slot id) }) u

/-- Every id is found with the slot that was assigned to it. -/
def SeparateIds (u : Universe) (slot : UUID → Nat) (ids : List UUID) : Prop :=
  ∀ a ∈ ids, ((u.assignIds slot ids).peerIds a.key).map Prod.snd = some (slot a)

theorem separateIds_of_keys {ids : List UUID}
    (h : ∀ a ∈ ids, ∀ b ∈ ids, a.key = b.key → a = b) (u : Universe) (slot : UUID → Nat) :
    u.SeparateIds slot ids := by
  induction ids using List.reverseRecOn with
  | nil => exact fun a ha => absurd ha List.not_mem_nil
  | append_singleton ids id ih =>
      intro a ha
      have hlast : (u.assignIds slot (ids ++ [id])).peerIds =
          (u.assignIds slot ids).setPeerId id (slot id) := by
        rw [assignIds, List.foldl_append]
        rfl
      rw [hlast]
      by_cases hkey : a.key = id.key
      · obtain rfl := h a ha id (by simp) hkey
        obtain ⟨id', hself, -⟩ := (u.assignIds slot ids).setPeerId_self a (slot a)
        rw [hself]
        rfl
      · rw [setPeerId_ne _ _ _ hkey]
        have ha' : a ∈ ids := by
          rcases List.mem_append.mp ha with ha | ha
          · exact ha
          · exact absurd (congrArg UUID.key (List.mem_singleton.mp ha)) hkey
        exact ih (fun a ha b hb => h a (List.mem_append_left _ ha) b (List.mem_append_left _ hb))
          a ha'

/-- UUIDs are totally ordered, and peers with these ids have separate entries in `peer_ids_`,
exactly if no two of them differ only behind a zero byte. -/
theorem uuids_ordered_iff (ids : List UUID) (u : Universe) {slot : UUID → Nat}
    (hslot : ∀ a ∈ ids, ∀ b ∈ ids, slot a = slot b → a = b) :
    (UUID.TotallyOrdered ids ∧ u.SeparateIds slot ids) ↔
      ∀ a ∈ ids, ∀ b ∈ ids, a.key = b.key → a = b := by
  constructor
  · rintro ⟨-, hseparate⟩ a ha b hb hkey
    refine hslot a ha b hb (Option.some.inj ?_)
    rw [← hseparate a ha, ← hseparate b hb, hkey]
  · intro h
    refine ⟨⟨fun a _ => UUID.less_irrefl a, fun a _ b _ c _ => UUID.less_trans, ?_⟩,
      separateIds_of_keys h u slot⟩
    exact fun a ha b hb => (UUID.trichotomous_iff a b).mpr (h a ha b hb)

theorem uuids_ordered_iff_filled :
    UUID.TotallyOrdered [.fill 1, .fill 2] ∧
      (empty 2 fun _ => ⟨.fill 1, "", .kConnected, true, true, 0⟩).SeparateIds
        (fun id => id.bytes[0].toNat) [.fill 1, .fill 2] :=
  (uuids_ordered_iff _ _ (by decide)).mpr (by decide)

/-- A UUID with a zero byte, and one byte behind it. -/
def behindZero (b : UInt8) : UUID := ⟨#v[1, 0, b, 4, 5, 6, 7, 8, 9, 10, 11, 12, 13, 14, 15, 16]⟩

/-- Two peers with different ids, none of which is less: the second takes the entry of the
first. -/
theorem behindZero_collides :
    (behindZero 2).less (behindZero 3) = false ∧ (behindZero 3).less (behindZero 2) = false ∧
      (behindZero 2).equal (behindZero 3) = false ∧
      (((empty 2 fun _ => ⟨.fill 1, "", .kConnected, true, true, 0⟩).assignIds
        (fun id => id.bytes[2].toNat) [behindZero 2, behindZero 3]).peerIds
          (behindZero 2).key).map Prod.snd = some 3 := by
  decide

end Universe

end BeyondProtocol
