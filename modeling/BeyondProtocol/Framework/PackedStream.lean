import BeyondProtocol.Framework.Unpacker

/-!
# Packed objects in a byte stream

The writer of a byte stream packs objects one after the other; the last one may have been
cut off. Some of the bytes are in the buffer of the reader and the others on their way to
it. An unpacker that is asked for the next object either takes the first one of the stream,
or that object has not arrived.
-/

namespace Framework

variable {Object : Type} {pack : Object → List UInt8} {fits : Object → Prop}

/-- The bytes are those of the objects and of the front of one more. -/
structure PackedStream (pack : Object → List UInt8) (fits : Object → Prop) (bytes : List UInt8)
    (objects : List Object) (cut : List UInt8) : Prop where
  bytes_eq : bytes = objects.flatMap pack ++ cut
  all_fit : ∀ o ∈ objects, fits o
  unfinished : ∃ o missing, fits o ∧ pack o = cut ++ missing ∧ missing ≠ []

namespace PackedStream

variable {bytes cut : List UInt8} {objects : List Object}

theorem nil {o : Object} (ho : fits o) (hne : pack o ≠ []) :
    PackedStream pack fits [] [] [] where
  bytes_eq := rfl
  all_fit := by simp
  unfinished := ⟨o, pack o, ho, rfl, hne⟩

/-- One more object is packed behind the others. -/
theorem snoc (h : PackedStream pack fits bytes objects []) {o : Object} (ho : fits o) :
    PackedStream pack fits (bytes ++ pack o) (objects ++ [o]) [] where
  bytes_eq := by
    rw [h.bytes_eq]
    simp
  all_fit := by
    intro o' ho'
    rcases List.mem_append.mp ho' with ho' | ho'
    · exact h.all_fit o' ho'
    · rwa [List.mem_singleton.mp ho']
  unfinished := h.unfinished

/-- Only the front of one more object gets into the stream. -/
theorem cutOff (h : PackedStream pack fits bytes objects []) {o : Object} (ho : fits o)
    {missing : List UInt8} (hcut : pack o = cut ++ missing) (hne : missing ≠ []) :
    PackedStream pack fits (bytes ++ cut) objects cut where
  bytes_eq := by
    rw [h.bytes_eq]
    simp
  all_fit := h.all_fit
  unfinished := ⟨o, missing, ho, hcut, hne⟩

theorem tail {o : Object} (h : PackedStream pack fits bytes (o :: objects) cut) :
    PackedStream pack fits (objects.flatMap pack ++ cut) objects cut where
  bytes_eq := rfl
  all_fit := fun o' ho' => h.all_fit o' (List.mem_cons_of_mem o ho')
  unfinished := h.unfinished

/-- The object that begins in the buffer: one that has arrived, or one of which something is
missing. -/
theorem first_object {buffer wire : List UInt8}
    (h : PackedStream pack fits (buffer ++ wire) objects cut) :
    (∃ o rest more, objects = o :: rest ∧ fits o ∧ buffer = pack o ++ more ∧
      PackedStream pack fits (more ++ wire) rest cut) ∨
    ∃ o missing, fits o ∧ pack o = buffer ++ missing ∧ missing ≠ [] ∧
      (wire = [] → objects = [] ∧ buffer = cut) := by
  cases objects with
  | nil =>
      -- the buffer is a front of the object that was cut off
      have hbytes : buffer ++ wire = cut := h.bytes_eq
      obtain ⟨o, missing, ho, hcut, hne⟩ := h.unfinished
      refine .inr ⟨o, wire ++ missing, ho, ?_, ?_, ?_⟩
      · rw [hcut, ← hbytes, List.append_assoc]
      · simp [hne]
      · rintro rfl
        exact ⟨rfl, by simpa using hbytes⟩
  | cons o rest =>
      have hbytes : buffer ++ wire = pack o ++ (rest.flatMap pack ++ cut) := by
        rw [h.bytes_eq, List.flatMap_cons, List.append_assoc]
      have ho : fits o := h.all_fit o List.mem_cons_self
      rcases List.append_eq_append_iff.mp hbytes with
        ⟨missing, hpack, hwire⟩ | ⟨more, hbuffer, hrest⟩
      · cases missing with
        | nil =>
            refine .inl ⟨o, rest, [], rfl, ho, by simpa using hpack.symm, ?_⟩
            rw [List.nil_append, hwire, List.nil_append]
            exact h.tail
        | cons b missing =>
            refine .inr ⟨o, b :: missing, ho, hpack, List.cons_ne_nil b missing, ?_⟩
            rintro rfl
            simp at hwire
      · refine .inl ⟨o, rest, more, rfl, ho, hbuffer, ?_⟩
        rw [← hrest]
        exact h.tail

variable {u : Unpacker Object} {pending : u.State → List UInt8}

/-- What the unpacker finds: the first object of the stream, or that it has not arrived. -/
theorem next (hu : u.Incremental pack fits pending) {s : u.State} {wire : List UInt8}
    (h : PackedStream pack fits (pending s ++ wire) objects cut) :
    (∃ o rest s', objects = o :: rest ∧ u.next s = some (s', some o) ∧
      PackedStream pack fits (pending s' ++ wire) rest cut) ∨
    ∃ s', u.next s = some (s', none) ∧ pending s' = pending s ∧
      (wire = [] → objects = [] ∧ pending s = cut) := by
  rcases h.first_object with ⟨o, rest, more, hobjects, ho, hbuffer, hmore⟩ |
    ⟨o, missing, ho, hpack, hne, hwire⟩
  · obtain ⟨s', hnext, hpending, -⟩ := hu.next_object s o more ho hbuffer
    exact .inl ⟨o, rest, s', hobjects, hnext, hpending ▸ hmore⟩
  · obtain ⟨s', hnext, hpending⟩ := hu.next_incomplete s o missing ho hpack hne
    exact .inr ⟨s', hnext, hpending, hwire⟩

end PackedStream

/-- The loop that takes objects until there is none; the fuel bounds the number of objects. -/
def Unpacker.takeAll (u : Unpacker Object) : ℕ → u.State → Option (u.State × List Object)
  | 0, _ => none
  | fuel + 1, s =>
      match u.next s with
      | none => none
      | some (s, none) => some (s, [])
      | some (s, some o) => (u.takeAll fuel s).map fun (s, os) => (s, o :: os)

theorem Unpacker.takeAll_mono {u : Unpacker Object} {fuel more : ℕ} (hle : fuel ≤ more)
    {s : u.State} {x : u.State × List Object} (h : u.takeAll fuel s = some x) :
    u.takeAll more s = some x := by
  induction fuel generalizing more s x with
  | zero => cases h
  | succ fuel ih =>
      obtain ⟨more, rfl⟩ : ∃ k, more = k + 1 := ⟨more - 1, by omega⟩
      rw [Unpacker.takeAll] at h ⊢
      split at h
      · cases h
      · exact h
      · obtain ⟨y, hrest, heq⟩ := Option.map_eq_some_iff.mp h
        rw [ih (Nat.le_of_succ_le_succ hle) hrest, ← heq]
        rfl

/-- The loop ends where the unpacker has found nothing. -/
theorem Unpacker.takeAll_end {u : Unpacker Object} {fuel : ℕ} {s s' : u.State}
    {taken : List Object} (h : u.takeAll fuel s = some (s', taken)) :
    ∃ s₀, u.next s₀ = some (s', none) := by
  induction fuel generalizing s taken with
  | zero => cases h
  | succ fuel ih =>
      rw [Unpacker.takeAll] at h
      split at h
      · cases h
      · rename_i hnext
        cases h
        exact ⟨s, hnext⟩
      · obtain ⟨⟨s₁, taken₁⟩, hrest, heq⟩ := Option.map_eq_some_iff.mp h
        cases heq
        exact ih hrest

namespace PackedStream

variable {bytes cut : List UInt8} {objects : List Object} {u : Unpacker Object}
  {pending : u.State → List UInt8}

/-- The loop takes what has arrived, and leaves the front of an object. -/
theorem takeAll (hu : u.Incremental pack fits pending) {fuel : ℕ} {s : u.State}
    {wire : List UInt8} (hfuel : (pending s).length < fuel)
    (h : PackedStream pack fits (pending s ++ wire) objects cut) :
    ∃ s' taken rest, u.takeAll fuel s = some (s', taken) ∧ objects = taken ++ rest ∧
      PackedStream pack fits (pending s' ++ wire) rest cut ∧
      (wire = [] → rest = [] ∧ pending s' = cut) := by
  induction fuel generalizing s objects with
  | zero => exact absurd hfuel (Nat.not_lt_zero _)
  | succ fuel ih =>
      rcases h.first_object with ⟨o, rest, more, rfl, ho, hbuffer, hmore⟩ |
        ⟨o, missing, ho, hpack, hne, hwire⟩
      · obtain ⟨s', hnext, hpending, -⟩ := hu.next_object s o more ho hbuffer
        rw [← hpending] at hmore
        have hshorter : (pending s').length < fuel := by
          have hlength := congrArg List.length hbuffer
          rw [List.length_append, ← hpending] at hlength
          have hpos := List.length_pos_iff.mpr (hu.pack_ne_nil o ho)
          omega
        obtain ⟨s'', taken, rest', htake, hrest, hstream, hall⟩ := ih hshorter hmore
        refine ⟨s'', o :: taken, rest', ?_, ?_, hstream, hall⟩
        · simp [Unpacker.takeAll, hnext, htake]
        · rw [hrest, List.cons_append]
      · obtain ⟨s', hnext, hpending⟩ := hu.next_incomplete s o missing ho hpack hne
        refine ⟨s', [], objects, ?_, rfl, ?_, ?_⟩
        · simp [Unpacker.takeAll, hnext]
        · rwa [hpending]
        · rwa [hpending]

end PackedStream

end Framework
