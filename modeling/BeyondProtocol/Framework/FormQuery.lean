import BeyondProtocol.Framework.Rfc3986

/-!
# Queries of keys and values

The items of a query are separated by ampersands. Their text is decoded when the query is taken
apart; put together again without encoding, only plain items come back. The reason is one of
length: decoding and separating never make the text longer, and the text of the items has just
the length of the query.
-/

namespace Framework

namespace Rfc3986

variable {p : Char → Bool} {d : Char}

/-- The texts around a delimiter are encoded. -/
theorem encoded_of_glue (hd : d ≠ '%') (hhex : isHex d = false) {x : Text} {y : Option Text}
    (h : encoded p (glue d x y) = true) : encoded p x = true ∧ ∀ z ∈ y, encoded p z = true := by
  cases y with
  | none => exact ⟨h, by simp⟩
  | some y =>
      rw [glue, encoded_append hd hhex, Bool.and_eq_true, Bool.and_eq_true] at h
      refine ⟨h.1, fun z hz => ?_⟩
      cases hz
      exact h.2.2

theorem encoded_of_intercalate (hd : d ≠ '%') (hhex : isHex d = false) {ts : List Text}
    (h : encoded p ([d].intercalate ts) = true) : ∀ t ∈ ts, encoded p t = true := by
  induction ts with
  | nil => simp
  | cons t ts ih =>
      cases ts with
      | nil =>
          rw [List.intercalate_singleton] at h
          simpa using h
      | cons t' ts =>
          rw [List.intercalate_cons_cons, List.append_assoc, List.singleton_append,
            encoded_append hd hhex, Bool.and_eq_true, Bool.and_eq_true] at h
          exact List.forall_mem_cons.mpr ⟨h.1, ih h.2.2⟩

end Rfc3986

namespace FormQuery

open Rfc3986

/-! ## §1  Taking a query apart -/

/-- Decoding; a plus sign stands for a space. -/
def unescape : Text → Text
  | [] => []
  | '+' :: t => ' ' :: unescape t
  | '%' :: a :: b :: t =>
      match hexValue a, hexValue b with
      | some x, some y => Char.ofNat (16 * x + y) :: unescape t
      | _, _ => '%' :: unescape (a :: b :: t)
  | c :: t => c :: unescape t

/-- The texts between ampersands. -/
def pieces (q : Text) : List Text := (q.splitOn '&').filter (· ≠ [])

/-- The key and the value of a text; without an equality sign there is no value. -/
def item (t : Text) : Text × Option Text := (unescape (cut '=' t).1, (cut '=' t).2.map unescape)

def dissect (q : Text) : List (Text × Option Text) := (pieces q).map item

/-! ## §2  Putting a query together -/

def entryText (x : Text × Text) : Text := x.1 ++ '=' :: x.2

def queryText (xs : List (Text × Text)) : Text := ['&'].intercalate (xs.map entryText)

/-- A character of a query that stands for itself. -/
def plainChar (c : Char) : Bool := queryChar c && c != '&' && c != '+'

/-- The item is its own text. -/
def Plain (x : Text × Text) : Prop :=
  (∀ c ∈ x.1, plainChar c = true ∧ c ≠ '=') ∧ ∀ c ∈ x.2, plainChar c = true

/-- The characters are those of the text, not all there are. -/
instance (x : Text × Text) : Decidable (Plain x) :=
  @instDecidableAnd _ _ (List.decidableBAll _ x.1) (List.decidableBAll _ x.2)

theorem plainKey_of_all {t : Text} (h : (t.all fun c => plainChar c && c != '=') = true) :
    ∀ c ∈ t, plainChar c = true ∧ c ≠ '=' := by
  simpa using h

theorem unescape_of_plain {t : Text} (h : ∀ c ∈ t, c ≠ '%' ∧ c ≠ '+') : unescape t = t := by
  induction t with
  | nil => rfl
  | cons c t ih =>
      obtain ⟨⟨hpercent, hplus⟩, ht⟩ := List.forall_mem_cons.mp h
      rw [unescape, ih ht]
      · exact hplus
      · exact fun a b t hc _ => hpercent hc

theorem plainChar_ne {c : Char} (h : plainChar c = true) :
    c ≠ '%' ∧ c ≠ '+' ∧ c ≠ '&' ∧ c ≠ '#' ∧ c.toNat ≠ 0 := by
  refine ⟨?_, ?_, ?_, ?_, ?_⟩
  · rintro rfl
    exact absurd h (by decide)
  · rintro rfl
    exact absurd h (by decide)
  · rintro rfl
    exact absurd h (by decide)
  · rintro rfl
    exact absurd h (by decide)
  · intro hzero
    have hc : c = Char.ofNat 0 := by rw [← hzero, Char.ofNat_toNat]
    rw [hc] at h
    exact absurd h (by decide)

theorem mem_entryText {x : Text × Text} (h : Plain x) :
    ∀ c ∈ entryText x, plainChar c = true := by
  intro c hc
  rw [entryText, List.mem_append, List.mem_cons] at hc
  rcases hc with hc | rfl | hc
  · exact (h.1 c hc).1
  · decide
  · exact h.2 c hc

theorem item_entryText {x : Text × Text} (h : Plain x) : item (entryText x) = (x.1, some x.2) := by
  have hkey : '=' ∉ x.1 := fun hmem => (h.1 '=' hmem).2 rfl
  have hcut : cut '=' (entryText x) = (x.1, some x.2) := cut_glue hkey (some x.2)
  have hplain : ∀ {t : Text}, (∀ c ∈ t, plainChar c = true) → unescape t = t := by
    intro t ht
    exact unescape_of_plain fun c hc => ⟨(plainChar_ne (ht c hc)).1, (plainChar_ne (ht c hc)).2.1⟩
  rw [item, hcut, hplain fun c hc => (h.1 c hc).1]
  exact Prod.ext rfl (congrArg some (hplain h.2))

/-- The texts of items are the texts between the ampersands of their query. -/
theorem pieces_queryText {xs : List (Text × Text)} (h : ∀ x ∈ xs, '&' ∉ entryText x) :
    pieces (queryText xs) = xs.map entryText := by
  cases xs with
  | nil => rfl
  | cons x xs =>
      have hsplit : (queryText (x :: xs)).splitOn '&' = (x :: xs).map entryText := by
        refine List.splitOn_intercalate '&' ?_ (by simp)
        intro t ht
        obtain ⟨y, hy, rfl⟩ := List.mem_map.mp ht
        exact h y hy
      rw [pieces, hsplit, List.filter_eq_self]
      intro t ht
      obtain ⟨y, -, rfl⟩ := List.mem_map.mp ht
      simp [entryText]

/-- Plain items come back. -/
theorem dissect_queryText {xs : List (Text × Text)} (h : ∀ x ∈ xs, Plain x) :
    dissect (queryText xs) = xs.map fun x => (x.1, some x.2) := by
  have hamp : ∀ x ∈ xs, '&' ∉ entryText x :=
    fun x hx hmem => (plainChar_ne (mem_entryText (h x hx) '&' hmem)).2.2.1 rfl
  rw [dissect, pieces_queryText hamp, List.map_map]
  exact List.map_congr_left fun x hx => item_entryText (h x hx)

theorem mem_intercalate {d : Char} {ts : List Text} {c : Char} (h : c ∈ [d].intercalate ts) :
    c = d ∨ ∃ t ∈ ts, c ∈ t := by
  induction ts with
  | nil => cases h
  | cons t ts ih =>
      cases ts with
      | nil =>
          rw [List.intercalate_singleton] at h
          exact .inr ⟨t, List.mem_singleton_self t, h⟩
      | cons t' ts =>
          rw [List.intercalate_cons_cons, List.append_assoc, List.mem_append,
            List.singleton_append, List.mem_cons] at h
          rcases h with h | h | h
          · exact .inr ⟨t, List.mem_cons_self, h⟩
          · exact .inl h
          · exact (ih h).imp_right fun ⟨s, hs, hc⟩ => ⟨s, List.mem_cons_of_mem t hs, hc⟩

/-- The characters of a query of plain items. -/
theorem queryText_chars {xs : List (Text × Text)} (h : ∀ x ∈ xs, Plain x) :
    ∀ c ∈ queryText xs, queryChar c = true ∧ c ≠ '%' ∧ c ≠ '#' ∧ c.toNat ≠ 0 := by
  intro c hc
  rcases mem_intercalate hc with rfl | ⟨t, ht, hc⟩
  · decide
  · obtain ⟨x, hx, rfl⟩ := List.mem_map.mp ht
    have hplain := mem_entryText (h x hx) c hc
    have hne := plainChar_ne hplain
    simp only [plainChar, Bool.and_eq_true] at hplain
    exact ⟨hplain.1.1, hne.1, hne.2.2.2⟩

/-! ## §3  Lengths -/

/-- The length of a list of texts with a character between them, and one more. -/
theorem length_intercalate {d : Char} {ts : List Text} (h : ts ≠ []) :
    ([d].intercalate ts).length + 1 = (ts.map (·.length + 1)).sum := by
  induction ts with
  | nil => exact absurd rfl h
  | cons t ts ih =>
      cases ts with
      | nil => simp
      | cons t' ts =>
          have hrest := ih (List.cons_ne_nil t' ts)
          rw [List.intercalate_cons_cons, List.map_cons, List.sum_cons, ← hrest]
          simp
          omega

/-- What an item adds to the length of a query. -/
def weight (x : Text × Text) : Nat := x.1.length + x.2.length + 2

theorem length_queryText {xs : List (Text × Text)} (h : xs ≠ []) :
    (queryText xs).length + 1 = (xs.map weight).sum := by
  rw [queryText, length_intercalate (by simpa using h), List.map_map]
  congr 2
  funext x
  simp [entryText, weight]
  omega

theorem sum_pieces_le (q : Text) : ((pieces q).map (·.length + 1)).sum ≤ q.length + 1 := by
  have hsplit : (['&'].intercalate (q.splitOn '&')).length + 1 =
      ((q.splitOn '&').map (·.length + 1)).sum := length_intercalate (List.splitOn_ne_nil '&' q)
  rw [List.intercalate_splitOn] at hsplit
  rw [hsplit]
  exact (List.filter_sublist.map _).sum_le_sum fun _ _ => Nat.zero_le _

theorem length_unescape_le (t : Text) : (unescape t).length ≤ t.length := by
  induction t using unescape.induct with
  | case1 => exact le_refl 0
  | case2 t ih => simpa [unescape] using ih
  | case3 a b t x y hx hy ih =>
      simp only [unescape, hx, hy, List.length_cons]
      omega
  | case4 a b t hnone ih =>
      rw [unescape]
      split
      · rename_i x y hx hy
        exact absurd hy (hnone x y hx)
      · simp only [List.length_cons] at ih ⊢
        omega
  | case5 c t hplus hpercent ih =>
      rw [unescape]
      · simpa using ih
      · exact hplus
      · exact hpercent

/-- Decoding makes a text with an encoded character shorter. -/
theorem length_unescape_lt {p : Char → Bool} {t : Text} (henc : encoded p t = true)
    (h : '%' ∈ t) : (unescape t).length < t.length := by
  rw [encoded] at henc
  induction t using unescape.induct with
  | case1 => cases h
  | case2 t ih =>
      have ht : encodedFrom p 0 t = true := by
        rw [encodedFrom, if_neg (by decide), Bool.and_eq_true] at henc
        exact henc.2
      simpa [unescape] using ih ht (by simpa using h)
  | case3 a b t x y hx hy ih =>
      have hle := length_unescape_le t
      simp only [unescape, hx, hy, List.length_cons]
      omega
  | case4 a b t hnone ih =>
      rw [encodedFrom, if_pos rfl, encodedFrom, encodedFrom, Bool.and_eq_true, Bool.and_eq_true]
        at henc
      obtain ⟨x, hx⟩ := Option.isSome_iff_exists.mp henc.1
      obtain ⟨y, hy⟩ := Option.isSome_iff_exists.mp henc.2.1
      exact absurd hy (hnone x y hx)
  | case5 c t hplus hpercent ih =>
      have hc : c ≠ '%' := by
        rintro rfl
        rw [encodedFrom, if_pos rfl] at henc
        cases t with
        | nil => cases henc
        | cons a t =>
            cases t with
            | nil => simp [encodedFrom] at henc
            | cons b t => exact hpercent a b t rfl rfl
      have ht : encodedFrom p 0 t = true := by
        rw [encodedFrom, if_neg hc, Bool.and_eq_true] at henc
        exact henc.2
      have hmem : '%' ∈ t := by
        rcases List.mem_cons.mp h with h | h
        · exact absurd h.symm hc
        · exact h
      rw [unescape]
      · simpa using ih ht hmem
      · exact hplus
      · exact hpercent

/-- Without encoded characters only plus signs are changed. -/
theorem space_mem_unescape {t : Text} (hpercent : '%' ∉ t) (h : '+' ∈ t) : ' ' ∈ unescape t := by
  induction t with
  | nil => cases h
  | cons c t ih =>
      obtain ⟨hc, ht⟩ := not_or.mp (List.mem_cons.not.mp hpercent)
      by_cases hplus : c = '+'
      · rw [hplus]
        exact List.mem_cons_self
      · rw [unescape]
        · exact List.mem_cons_of_mem c (ih ht ((List.mem_cons.mp h).resolve_left (Ne.symm hplus)))
        · exact hplus
        · exact fun a b t h _ => hc h.symm

/-- A text that is decoded to one as long, without spaces, was its own decoding. -/
theorem unescape_eq {p : Char → Bool} {t : Text} (henc : encoded p t = true)
    (hlength : (unescape t).length = t.length) (hspace : ' ' ∉ unescape t) :
    '%' ∉ t ∧ '+' ∉ t ∧ unescape t = t := by
  have hpercent : '%' ∉ t := fun h => (length_unescape_lt henc h).ne hlength
  have hplus : '+' ∉ t := fun h => hspace (space_mem_unescape hpercent h)
  refine ⟨hpercent, hplus, unescape_of_plain fun c hc => ⟨?_, ?_⟩⟩
  · rintro rfl
    exact hpercent hc
  · rintro rfl
    exact hplus hc

/-! ## §4  Only plain items come back -/

theorem notMem_splitOn {d : Char} {q : Text} : ∀ t ∈ q.splitOn d, d ∉ t := by
  induction q with
  | nil => simp [List.splitOn_nil]
  | cons c q ih =>
      rw [List.splitOn_cons_eq_if_modifyHead]
      split_ifs with hc
      · exact List.forall_mem_cons.mpr ⟨List.not_mem_nil, ih⟩
      · have hne : d ≠ c := by
          rintro rfl
          exact hc (beq_self_eq_true d)
        cases hq : q.splitOn d with
        | nil => simp
        | cons x xs =>
            rw [hq] at ih
            obtain ⟨hx, hxs⟩ := List.forall_mem_cons.mp ih
            rw [List.modifyHead_cons]
            exact List.forall_mem_cons.mpr ⟨by simp [hne, hx], hxs⟩

theorem mem_queryText {xs : List (Text × Text)} {x : Text × Text} (hx : x ∈ xs) :
    ∀ c ∈ entryText x, c ∈ queryText xs := by
  intro c hc
  induction xs with
  | nil => cases hx
  | cons y xs ih =>
      cases xs with
      | nil =>
          rw [List.mem_singleton.mp hx] at hc
          simpa [queryText] using hc
      | cons z xs =>
          rw [queryText, List.map_cons, List.map_cons, List.intercalate_cons_cons]
          rcases List.mem_cons.mp hx with rfl | hx
          · exact List.mem_append_left _ (List.mem_append_left _ hc)
          · exact List.mem_append_right _ (ih hx)

variable {q : Text} {xs items : List (Text × Text)} {trim : Text → Text}

/-- The item of a text, as it is kept: both sides trimmed, nothing for a missing value. -/
def keptItem (trim : Text → Text) (t : Text) : Text × Text :=
  (trim (item t).1, trim ((item t).2.getD []))

/-- Where every item has a value, the items are those of the texts around ampersands. -/
theorem items_eq (trim : Text → Text) (h : dissect q = items.map fun x => (x.1, some x.2)) :
    (∀ t ∈ pieces q, '=' ∈ t) ∧
      items.map (fun x => (trim x.1, trim x.2)) = (pieces q).map (keptItem trim) := by
  constructor
  · intro t ht
    have hitem : item t ∈ dissect q := List.mem_map_of_mem ht
    rw [h] at hitem
    obtain ⟨x, -, hx⟩ := List.mem_map.mp hitem
    by_contra hnone
    rw [item, cut_of_notMem hnone] at hx
    exact Option.some_ne_none x.2 (congrArg Prod.snd hx)
  · have hmap := congrArg (List.map fun x : Text × Option Text => (trim x.1, trim (x.2.getD []))) h
    rw [dissect, List.map_map, List.map_map] at hmap
    exact hmap.symm

theorem keptItem_le (htrim : ∀ t, trim t <+: t) {t : Text} (h : '=' ∈ t) :
    weight (keptItem trim t) ≤ t.length + 1 ∧
    (weight (keptItem trim t) = t.length + 1 → ∃ k v, t = entryText (k, v) ∧ '=' ∉ k ∧
      keptItem trim t = (unescape k, unescape v) ∧
      (unescape k).length = k.length ∧ (unescape v).length = v.length) := by
  have ht := glue_cut '=' t
  have hkey := notMem_cut '=' t
  obtain ⟨k, v', hcut⟩ : ∃ k v', cut '=' t = (k, v') := ⟨_, _, rfl⟩
  rw [hcut] at ht hkey
  cases v' with
  | none =>
      rw [← ht] at h
      exact absurd h hkey
  | some v =>
      have hitem : keptItem trim t = (trim (unescape k), trim (unescape v)) := by
        rw [keptItem, item, hcut]
        rfl
      have hlength : t.length = k.length + v.length + 1 := by
        rw [← ht, glue, List.length_append, List.length_cons, Nat.add_assoc]
      have hk := (htrim (unescape k)).length_le
      have hv := (htrim (unescape v)).length_le
      have hk' := length_unescape_le k
      have hv' := length_unescape_le v
      have hweight : weight (keptItem trim t) =
          (trim (unescape k)).length + (trim (unescape v)).length + 2 := by
        rw [hitem]
        rfl
      rw [hweight, hlength]
      refine ⟨by omega, fun heq => ⟨k, v, ht.symm, hkey, ?_, by omega, by omega⟩⟩
      rw [hitem, (htrim (unescape k)).eq_of_length (by omega),
        (htrim (unescape v)).eq_of_length (by omega)]

/-- Items that are found in a part of their own query are plain, and the part is all of it. -/
theorem plain_of_dissect (htrim : ∀ t, trim t <+: t) (hnodup : xs.Nodup) (hne : xs ≠ [])
    (hfront : q <+: queryText xs) (henc : encoded queryChar q = true)
    (hitems : dissect q = items.map fun x => (x.1, some x.2))
    (hsub : xs ⊆ items.map fun x => (trim x.1, trim x.2)) :
    q = queryText xs ∧ ∀ x ∈ xs, Plain x := by
  obtain ⟨hvalue, hkept⟩ := items_eq trim hitems
  rw [hkept] at hsub
  have hle : ∀ t ∈ pieces q, weight (keptItem trim t) ≤ t.length + 1 :=
    fun t ht => (keptItem_le htrim (hvalue t ht)).1
  -- all the lengths on the way from the items to the items are equal
  have hfirst : (xs.map weight).sum ≤ ((pieces q).map fun t => weight (keptItem trim t)).sum := by
    obtain ⟨ys, hperm, hys⟩ := List.subperm_of_subset hnodup hsub
    have hsum := (hys.map weight).sum_le_sum fun _ _ => Nat.zero_le _
    rw [(hperm.map weight).sum_eq, List.map_map] at hsum
    exact hsum
  have hsecond : ((pieces q).map fun t => weight (keptItem trim t)).sum ≤
      ((pieces q).map (·.length + 1)).sum := List.sum_le_sum hle
  have hthird := sum_pieces_le q
  have hlast := length_queryText hne
  have hlength := hfront.length_le
  have hq : q = queryText xs := hfront.eq_of_length (by omega)
  have heq : ∀ t ∈ pieces q, weight (keptItem trim t) = t.length + 1 := by
    intro t ht
    by_contra hlt
    have hstrict : ((pieces q).map fun t => weight (keptItem trim t)).sum <
        ((pieces q).map (·.length + 1)).sum :=
      List.sum_lt_sum _ _ hle ⟨t, ht, lt_of_le_of_ne (hle t ht) hlt⟩
    omega
  refine ⟨hq, fun x hx => ?_⟩
  obtain ⟨t, ht, hxt⟩ := List.mem_map.mp (hsub hx)
  obtain ⟨k, v, htext, hkey, hitem, hk, hv⟩ := (keptItem_le htrim (hvalue t ht)).2 (heq t ht)
  -- the text is a piece of the query: encoded and without an ampersand
  have hmem : t ∈ q.splitOn '&' := List.mem_of_mem_filter ht
  have hamp : '&' ∉ t := notMem_splitOn t hmem
  have htenc : encoded queryChar t = true := by
    refine encoded_of_intercalate (d := '&') (by decide) (by decide) ?_ t hmem
    rw [List.intercalate_splitOn]
    exact henc
  rw [htext] at hamp htenc
  have hparts := encoded_of_glue (d := '=') (y := some v) (by decide) (by decide) htenc
  have hspace : ∀ c ∈ entryText x, c ≠ ' ' := by
    rintro c hc rfl
    have hin := mem_queryText hx ' ' hc
    rw [← hq] at hin
    exact notMem_of_encoded henc (by decide) (by decide) (by decide) hin
  rw [← hxt, hitem] at hspace ⊢
  obtain ⟨hkpercent, hkplus, hkeq⟩ := unescape_eq hparts.1 hk
    fun hmem => hspace ' ' (List.mem_append_left _ hmem) rfl
  obtain ⟨hvpercent, hvplus, hveq⟩ := unescape_eq (hparts.2 v rfl) hv
    fun hmem => hspace ' ' (List.mem_append_right _ (List.mem_cons_of_mem _ hmem)) rfl
  rw [hkeq, hveq]
  have hplain : ∀ {s : Text}, encoded queryChar s = true → '%' ∉ s → '+' ∉ s → '&' ∉ s →
      ∀ c ∈ s, plainChar c = true := by
    intro s hs hpercent hplus hamp c hc
    have hchar : queryChar c = true := by
      rcases encodedFrom_chars hs c hc with h | rfl | h
      · exact h
      · exact absurd hc hpercent
      · rw [queryChar, pathChar_of_isHex h, Bool.true_or]
    have hne₁ : c ≠ '&' := ne_of_mem_of_not_mem hc hamp
    have hne₂ : c ≠ '+' := ne_of_mem_of_not_mem hc hplus
    simp [plainChar, hchar, hne₁, hne₂]
  obtain ⟨hampk, hampv⟩ := not_or.mp (List.mem_append.not.mp hamp)
  refine ⟨fun c hc => ⟨hplain hparts.1 hkpercent hkplus hampk c hc, ?_⟩,
    hplain (hparts.2 v rfl) hvpercent hvplus fun h => hampv (List.mem_cons_of_mem _ h)⟩
  exact ne_of_mem_of_not_mem hc hkey

end FormQuery

end Framework
