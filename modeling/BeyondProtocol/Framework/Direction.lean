import Mathlib.Data.List.Perm.Subperm

/-!
# One direction of a connection

Messages are handed over by several threads and written in the order in which the threads
come to it; a write may fail. What was written arrives in the order it was written.
Nothing else happens to a message.
-/

namespace Framework

structure Direction (M : Type*) where
  /-- What was handed over, in order. -/
  posted : List M := []
  /-- What is not written yet. -/
  outgoing : List M := []
  wire : List M := []
  lost : List M := []
  /-- What the other end has taken, in order. -/
  taken : List M := []

namespace Direction

variable {M : Type*} (d : Direction M)

def post (ms : List M) : Direction M :=
  { d with posted := d.posted ++ ms, outgoing := d.outgoing ++ ms }

/-- The thread with the message in place `i` writes it. -/
def write (i : ℕ) (through : Bool) : Direction M :=
  match d.outgoing[i]? with
  | none => d
  | some m =>
      if through then { d with outgoing := d.outgoing.eraseIdx i, wire := d.wire ++ [m] }
      else { d with outgoing := d.outgoing.eraseIdx i, lost := d.lost ++ [m] }

/-- The other end takes the first message. -/
def take : Option (M × Direction M) :=
  match d.wire with
  | [] => none
  | m :: rest => some (m, { d with wire := rest, taken := d.taken ++ [m] })

/-- Each message that was handed over is in one place. -/
def Conserved : Prop := d.posted.Perm (d.outgoing ++ d.wire ++ d.lost ++ d.taken)

variable {d}

@[simp] theorem post_posted (ms : List M) : (d.post ms).posted = d.posted ++ ms := rfl

@[simp] theorem post_taken (ms : List M) : (d.post ms).taken = d.taken := rfl

@[simp] theorem write_posted (i : ℕ) (through : Bool) : (d.write i through).posted = d.posted := by
  unfold write
  split
  · rfl
  · split <;> rfl

@[simp] theorem write_taken (i : ℕ) (through : Bool) : (d.write i through).taken = d.taken := by
  unfold write
  split
  · rfl
  · split <;> rfl

theorem take_eq_some {m : M} {d' : Direction M} :
    d.take = some (m, d') ↔
      ∃ rest, d.wire = m :: rest ∧ d' = { d with wire := rest, taken := d.taken ++ [m] } := by
  unfold take
  cases d.wire with
  | nil => simp
  | cons x xs =>
      simp only [Option.some.injEq, Prod.mk.injEq, List.cons.injEq]
      constructor
      · rintro ⟨rfl, rfl⟩
        exact ⟨xs, ⟨rfl, rfl⟩, rfl⟩
      · rintro ⟨rest, ⟨rfl, rfl⟩, rfl⟩
        exact ⟨rfl, rfl⟩

theorem conserved_empty : Conserved ({} : Direction M) := .refl _

theorem Conserved.post (h : d.Conserved) (ms : List M) : (d.post ms).Conserved := by
  show (d.posted ++ ms).Perm (d.outgoing ++ ms ++ d.wire ++ d.lost ++ d.taken)
  refine (h.append_right ms).trans ?_
  simp only [List.append_assoc]
  refine List.Perm.append_left d.outgoing ?_
  rw [← List.append_assoc, ← List.append_assoc]
  exact List.perm_append_comm.trans (by simp)

theorem Conserved.write (h : d.Conserved) (i : ℕ) (through : Bool) :
    (d.write i through).Conserved := by
  unfold Direction.write
  split
  · exact h
  · rename_i m hm
    obtain ⟨hi, rfl⟩ := List.getElem?_eq_some_iff.mp hm
    have herase : d.posted.Perm
        (d.outgoing[i] :: (d.outgoing.eraseIdx i ++ d.wire ++ d.lost ++ d.taken)) := by
      refine h.trans ?_
      simp only [List.append_assoc]
      exact (List.getElem_cons_eraseIdx_perm hi).symm.append_right _
    split
    · refine herase.trans ?_
      simpa only [List.append_assoc, List.cons_append, List.nil_append] using
        (@List.perm_middle M _ (d.outgoing.eraseIdx i ++ d.wire) (d.lost ++ d.taken)).symm
    · refine herase.trans ?_
      simpa only [List.append_assoc, List.singleton_append] using
        (@List.perm_middle M _ (d.outgoing.eraseIdx i ++ d.wire ++ d.lost) d.taken).symm

theorem Conserved.take (h : d.Conserved) {m : M} {d' : Direction M} (ht : d.take = some (m, d')) :
    d'.Conserved := by
  obtain ⟨rest, hwire, rfl⟩ := take_eq_some.mp ht
  show d.posted.Perm (d.outgoing ++ rest ++ d.lost ++ (d.taken ++ [m]))
  refine h.trans ?_
  rw [hwire]
  simp only [List.append_assoc]
  refine List.Perm.append_left d.outgoing ?_
  rw [List.cons_append, ← List.append_assoc rest, ← List.append_assoc rest, ← List.append_assoc]
  exact (List.perm_append_singleton m _).symm

theorem Conserved.taken_subperm (h : d.Conserved) : d.taken.Subperm d.posted :=
  (List.sublist_append_right _ _).subperm.trans h.symm.subperm

/-- Nothing is under way. -/
structure Idle (d : Direction M) : Prop where
  outgoing : d.outgoing = []
  wire : d.wire = []
  lost : d.lost = []

theorem Conserved.perm_taken (h : d.Conserved) (hidle : d.Idle) : d.posted.Perm d.taken := by
  unfold Conserved at h
  rwa [hidle.outgoing, hidle.wire, hidle.lost, List.nil_append, List.nil_append,
    List.nil_append] at h

end Direction

end Framework
