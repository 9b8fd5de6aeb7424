import BeyondProtocol.Protocol.UriText

/-!
# The base of a URI with a limited path

`getBaseURI(n)` keeps a number of path segments, counted from the end if it is negative. It mixes
`int` and `size_t`: a negative number of segments is a huge one.
-/

namespace BeyondProtocol

open Framework Rfc3986 FormQuery

namespace URI

variable {literal : Text → Bool} {env : UriEnv}

/-! ## §1  Segments -/

/-- Segments, each behind a slash. -/
def pathText (segs : List Text) : Text := segs.flatMap fun s => '/' :: s

theorem pathText_cases (segs : List Text) : pathText segs = [] ∨ ∃ t, pathText segs = '/' :: t := by
  cases segs with
  | nil => exact .inl rfl
  | cons s segs => exact .inr ⟨s ++ pathText segs, rfl⟩

/-- Segments without slashes are determined by their text. -/
theorem pathText_inj {as bs : List Text} (has : ∀ s ∈ as, '/' ∉ s) (hbs : ∀ s ∈ bs, '/' ∉ s)
    (h : pathText as = pathText bs) : as = bs := by
  induction as generalizing bs with
  | nil =>
      cases bs with
      | nil => rfl
      | cons b bs => cases h
  | cons a as ih =>
      cases bs with
      | nil => cases h
      | cons b bs =>
          obtain ⟨ha, has'⟩ := List.forall_mem_cons.mp has
          obtain ⟨hb, hbs'⟩ := List.forall_mem_cons.mp hbs
          have hrest : a ++ pathText as = b ++ pathText bs := (List.cons.inj h).2
          have hsplit := splitPath_append ha (pathText_cases as)
          rw [hrest, splitPath_append hb (pathText_cases bs)] at hsplit
          obtain ⟨rfl, htail⟩ := Prod.mk.inj hsplit
          rw [ih has' hbs' htail.symm]

theorem count_pathText {segs : List Text} (h : ∀ s ∈ segs, '/' ∉ s) :
    (pathText segs).count '/' = segs.length := by
  induction segs with
  | nil => rfl
  | cons s segs ih =>
      obtain ⟨hs, hsegs⟩ := List.forall_mem_cons.mp h
      show ('/' :: (s ++ pathText segs)).count '/' = _
      rw [List.count_cons_self, List.count_append, List.count_eq_zero_of_not_mem hs, ih hsegs,
        List.length_cons, Nat.zero_add]

/-- The slashes of a path with a slash at its front. -/
theorem pathText_splitOn (t : Text) : pathText (t.splitOn '/') = '/' :: t := by
  have hjoin : ∀ segs : List Text, segs ≠ [] → pathText segs = '/' :: ['/'].intercalate segs := by
    intro segs hne
    induction segs with
    | nil => exact absurd rfl hne
    | cons s segs ih =>
        cases segs with
        | nil => simp [pathText]
        | cons s' segs =>
            show '/' :: (s ++ pathText (s' :: segs)) = _
            rw [ih (List.cons_ne_nil s' segs), List.intercalate_cons_cons, List.append_assoc]
            rfl
  rw [hjoin _ (List.splitOn_ne_nil '/' t), List.intercalate_splitOn]

theorem notMem_segments (c : Components) : ∀ s ∈ c.segments, '/' ∉ s := by
  rcases c.segments_cases with ⟨-, h⟩ | ⟨t, -, h⟩ | ⟨-, -, h⟩
  · rw [h]
    exact fun _ hs => absurd hs List.not_mem_nil
  · rw [h]
    exact notMem_splitOn
  · rw [h]
    exact notMem_splitOn

/-! ## §2  Numbers -/

theorem castInt_le (n : Nat) : castInt n ≤ n := by
  rw [castInt, BitVec.toInt_eq_toNat_cond, BitVec.toNat_ofNat]
  have hmod := Nat.mod_le n (2 ^ 32)
  split_ifs <;> omega

theorem castInt_of_lt {n : Nat} (h : n < 2 ^ 31) : castInt n = n := by
  rw [castInt, BitVec.toInt_eq_toNat_cond, BitVec.toNat_ofNat]
  split_ifs <;> omega

theorem notMem_intText (i : Int) : '/' ∉ intText i := by
  rw [intText, Int.toString_eq_repr, Int.repr_eq_if]
  have hdigits : ∀ n : Nat, '/' ∉ n.repr.toList := by
    intro n hmem
    rw [Nat.toList_repr] at hmem
    exact absurd (Nat.isDigit_of_mem_toDigits (by decide) (by decide) hmem) (by decide)
  split_ifs
  · exact hdigits _
  · rw [String.toList_append, List.mem_append, not_or]
    exact ⟨by decide, hdigits _⟩

/-! ## §3  The base is longer than the segments -/

theorem notMem_hostOf {c : Components} (hvalid : c.Valid literal) : '/' ∉ hostOf c := by
  unfold hostOf
  cases ha : c.authority with
  | none => exact List.not_mem_nil
  | some a =>
      have hhost : '/' ∉ a.host := by
        intro hmem
        refine ((hvalid.authority a ha).chars_ne '/' ?_).2 rfl
        refine List.mem_append_right _ ?_
        cases a.port with
        | none => exact hmem
        | some p => exact List.mem_append_left _ hmem
      show '/' ∉ hostText a.host
      unfold hostText
      split
      · rename_i t heq
        rw [heq] at hhost
        exact fun hmem => hhost (List.mem_cons_of_mem _ (List.mem_of_mem_dropLast hmem))
      · exact hhost

/-- Behind an authority the path is its segments. -/
theorem path_eq {c : Components} (hvalid : c.Valid literal) (hauthority : c.authority ≠ none)
    (hsegments : c.segments ≠ []) : c.path = pathText c.segments := by
  rcases c.segments_cases with ⟨-, hnil⟩ | ⟨t, hpath, hsplit⟩ | ⟨hempty, hhead, -⟩
  · exact absurd hnil hsegments
  · rw [hpath, hsplit, pathText_splitOn]
  · rcases hvalid.absolute hauthority with hpath | ⟨t, hpath⟩
    · exact absurd hpath hempty
    · rw [hpath] at hhead
      exact absurd rfl hhead

/-- The base of a parsed URI is none of its shorter texts. -/
theorem base_ne {c : Components} (hvalid : c.Valid literal) {u : URI}
    (h : ofRanges env c.text (rangesOf c) = .ok u) {segs : List Text}
    (hslash : ∀ s ∈ segs, '/' ∉ s) (hlength : segs.length < u.pathseg.length) :
    u.base ≠ u.originText ++ pathText segs := by
  obtain ⟨port, qmap, base, -, hqmap, hfor, rfl⟩ := (ofRanges_eq_ok c).mp h
  have hquery : 0 < qmap.size → c.query ≠ none := by
    intro hsize hnone
    rw [queryAttributes, hnone] at hqmap
    exact size_pos_iff.mp hsize (Except.ok.inj hqmap).symm
  replace hlength : segs.length < c.segments.length := hlength
  have hnamed : Named c := by
    refine .inr fun hnil => ?_
    rw [hnil] at hlength
    exact absurd hlength (Nat.not_lt_zero _)
  rw [baseFor, if_pos hnamed] at hfor
  have horigin : (made c port qmap base).originText = c.scheme.getD [] ++ ':' :: '/' :: '/' ::
      (hostOf c ++ (if port ≠ 0 then ':' :: intText port else [])) := by
    show c.scheme.getD [] ++ "://".toList ++ hostOf c ++ _ = _
    simp
    rfl
  rw [horigin]
  show base ≠ _
  cases hs : c.scheme with
  | none =>
      rw [baseOf_of_no_scheme c hs hfor]
      simp
  | some s =>
      rw [baseOf_rangesOf c hs hquery] at hfor
      rw [← Except.ok.inj hfor, text_kept, Components.hier]
      have hscheme : (kept c qmap).scheme = some s := hs
      have hpath : (kept c qmap).path = c.path := rfl
      have htail : ∀ x,
          (if 0 < qmap.size then ([] : Text) else glue '?' [] c.query) ≠ '/' :: x := by
        intro x
        split_ifs
        · simp
        · cases c.query <;> simp [glue]
      rw [hscheme, hpath, before]
      generalize (if 0 < qmap.size then ([] : Text) else glue '?' [] c.query) = tail at htail ⊢
      intro heq
      cases ha : c.authority with
      | none =>
          -- the path would begin with two slashes
          have hauthority : (kept c qmap).authorityText = [] := by
            simp [kept, Components.authorityText, ha]
          have hplain := hvalid.plain ha
          rw [hauthority] at heq
          simp only [Option.getD_some, List.append_assoc, List.append_cancel_left_eq,
            List.cons_append, List.nil_append, List.cons.injEq, true_and] at heq
          rcases hp : c.path with - | ⟨d, - | ⟨e, p⟩⟩
          · rw [hp] at heq
            exact htail _ heq
          · rw [hp] at heq
            exact htail _ (List.cons.inj heq).2
          · rw [hp] at heq hplain
            obtain ⟨hd, heq⟩ := List.cons.inj heq
            obtain ⟨he, -⟩ := List.cons.inj heq
            rw [hd, he] at hplain
            exact hplain rfl
      | some a =>
          -- there are too many slashes
          have hpath' := path_eq hvalid (by rw [ha]; exact Option.some_ne_none a)
            (fun hnil => by rw [hnil] at hlength; exact Nat.not_lt_zero _ hlength)
          have hport : '/' ∉ if port ≠ 0 then ':' :: intText port else [] := by
            split_ifs
            · simp [notMem_intText]
            · exact List.not_mem_nil
          obtain ⟨x, hauthority⟩ : ∃ x, (kept c qmap).authorityText = '/' :: '/' :: x := by
            have hkept : (kept c qmap).authority =
                some { a with userinfo := a.userinfo.filter (· = []) } := by simp [kept, ha]
            exact ⟨Authority.text _, by rw [Components.authorityText, hkept]⟩
          have hcount := congrArg (List.count '/') heq
          rw [hauthority, hpath', Option.getD_some] at hcount
          simp only [List.count_append, List.cons_append, List.count_cons,
            count_pathText (notMem_segments c), count_pathText hslash,
            List.count_eq_zero_of_not_mem hport,
            List.count_eq_zero_of_not_mem (notMem_hostOf hvalid)] at hcount
          simp at hcount
          omega

/-! ## §4  A limited path -/

/-- The base, or the origin and a number of segments. -/
def truncated (u : URI) (n : Int) : Text :=
  if u.pathseg.length ≤ n then u.base
  else if 0 ≤ n then u.originText ++ pathText (u.pathseg.take n.toNat)
  else if -u.pathseg.length ≤ n then
    u.originText ++ pathText (u.pathseg.take (u.pathseg.length + n).toNat)
  else []

/-- The arithmetic of the source is that of the numbers: there are as many segments as are to be
left out, and neither their number nor an index of one becomes another as an `int`. -/
structure Truncatable (u : URI) (n : Int) : Prop where
  low : -u.pathseg.length ≤ n
  length : castInt u.pathseg.length ≤ n → u.pathseg.length ≤ n
  index : n < 0 → ∀ i : Nat, i < u.pathseg.length + n →
    u.getPathSegment (castInt i) = u.pathseg.getD i []

theorem originText_ne (u : URI) (t : Text) : u.originText ++ t ≠ [] := by
  simp [originText]

theorem getPathSegment_of_lt (u : URI) {i : Nat} (h : i < u.pathseg.length) :
    u.getPathSegment i = u.pathseg.getD i [] := by
  simp only [getPathSegment, Int.toNat_natCast, if_neg (Int.not_lt.mpr (Int.natCast_nonneg i))]
  exact if_neg (Nat.not_le.mpr h)

theorem getPathSegment_mem (u : URI) (n : Int) :
    u.getPathSegment n = [] ∨ u.getPathSegment n ∈ u.pathseg := by
  rw [getPathSegment]
  generalize (if n < 0 then sizeT (u.pathseg.length + n) else n.toNat) = i
  by_cases h : u.pathseg.length ≤ i
  · exact .inl (if_pos h)
  · refine .inr ?_
    rw [if_neg h, List.getD_eq_getElem _ _ (Nat.not_le.mp h)]
    exact List.getElem_mem _

theorem take_eq_map (segs : List Text) {k : Nat} (h : k ≤ segs.length) :
    segs.take k = (List.range k).map fun i => segs.getD i [] := by
  refine List.ext_getElem (by simp [h]) fun i h₁ h₂ => ?_
  rw [List.length_take] at h₁
  rw [List.getElem_take, List.getElem_map, List.getElem_range,
    List.getD_eq_getElem _ _ (by omega)]

/-- With an index below `2 ^ 31`, as in any text shorter than that. -/
theorem Truncatable.of_lt {u : URI} (h : u.pathseg.length < 2 ^ 31) {n : Int}
    (hn : -u.pathseg.length ≤ n) : u.Truncatable n where
  low := hn
  length := by rw [castInt_of_lt h]; exact id
  index := by
    intro hneg i hi
    rw [castInt_of_lt (by omega)]
    exact u.getPathSegment_of_lt (by omega)

/-- The source, in terms of segments. -/
theorem getBaseURI_eq (u : URI) (n : Int) : u.getBaseURI n =
    if castInt u.pathseg.length ≤ n then u.base
    else if 0 ≤ n then
      u.originText ++ pathText ((List.range n.toNat).map fun i : Nat => u.getPathSegment i)
    else u.originText ++ pathText ((List.range (sizeT (u.pathseg.length + n))).map fun i =>
      u.getPathSegment (castInt i)) := by
  rw [getBaseURI, if_pos (Nat.zero_le _)]
  simp only [pathText, List.flatMap_map]

/-- The text of a limited path is the one asked for exactly if the arithmetic is right. -/
theorem getBaseURI_eq_iff (henv : env.Rfc literal) {puri : Text} {u : URI}
    (h : parse env puri = .ok u) (hlength : u.pathseg.length < 2 ^ 64) {n : Int}
    (hn : -2 ^ 31 ≤ n) : u.getBaseURI n = u.truncated n ↔ u.Truncatable n := by
  have hslash : ∀ s ∈ u.pathseg, '/' ∉ s := by
    rcases parse_cases henv h with ⟨-, rfl⟩ | ⟨c, -, -, h⟩
    · exact fun _ hs => absurd hs List.not_mem_nil
    · obtain ⟨_, _, _, -, -, -, rfl⟩ := (ofRanges_eq_ok c).mp h
      exact notMem_segments c
  have hbase : ∀ k : Nat, k < u.pathseg.length →
      u.base ≠ u.originText ++ pathText (u.pathseg.take k) := by
    intro k hk
    rcases parse_cases henv h with ⟨-, rfl⟩ | ⟨c, hvalid, -, h⟩
    · exact absurd hk (Nat.not_lt_zero k)
    · refine base_ne hvalid h (fun s hs => hslash s (List.mem_of_mem_take hs)) ?_
      rw [List.length_take]
      omega
  have hcast := castInt_le u.pathseg.length
  have hsize : -u.pathseg.length ≤ n → n < 0 →
      sizeT (u.pathseg.length + n) = (u.pathseg.length + n).toNat := by
    intro hlow hneg
    rw [sizeT]
    omega
  constructor
  · intro heq
    have hlow : -u.pathseg.length ≤ n := by
      by_contra hlow
      have hspec : u.truncated n = [] := by
        rw [truncated, if_neg (by omega), if_neg (by omega), if_neg hlow]
      rw [hspec, getBaseURI_eq, castInt_of_lt (by omega), if_neg (by omega),
        if_neg (by omega)] at heq
      exact originText_ne u _ heq
    have hall : castInt u.pathseg.length ≤ n → u.pathseg.length ≤ n := by
      intro hle
      by_contra hlt
      rw [getBaseURI_eq, if_pos hle, truncated, if_neg hlt] at heq
      split_ifs at heq with hpos
      · exact hbase _ (by omega) heq
      · exact hbase _ (by omega) heq
    refine ⟨hlow, hall, fun hneg i hi => ?_⟩
    have hle : ¬ castInt u.pathseg.length ≤ n := fun hle => absurd (hall hle) (by omega)
    rw [getBaseURI_eq, if_neg hle, if_neg (by omega), hsize hlow hneg, truncated,
      if_neg (by omega), if_neg (by omega), if_pos hlow, take_eq_map u.pathseg (by omega)] at heq
    -- the segments can be told apart in the text
    have hmap := pathText_inj (fun s hs => ?_) (fun s hs => ?_) (List.append_cancel_left heq)
    · exact List.map_inj_left.mp hmap i (List.mem_range.mpr (by omega))
    · obtain ⟨j, -, rfl⟩ := List.mem_map.mp hs
      rcases u.getPathSegment_mem (castInt j) with hnil | hmem
      · rw [hnil]
        exact List.not_mem_nil
      · exact hslash _ hmem
    · rw [← take_eq_map u.pathseg (by omega)] at hs
      exact hslash s (List.mem_of_mem_take hs)
  · intro ⟨hlow, hall, hindex⟩
    by_cases hle : castInt u.pathseg.length ≤ n
    · rw [getBaseURI_eq, truncated, if_pos hle, if_pos (hall hle)]
    · have hlt : ¬ u.pathseg.length ≤ n := by omega
      by_cases hpos : 0 ≤ n
      · rw [getBaseURI_eq, if_neg hle, if_pos hpos, truncated, if_neg hlt, if_pos hpos,
          take_eq_map u.pathseg (by omega)]
        refine congrArg (fun segs => _ ++ pathText segs) (List.map_congr_left fun i hi => ?_)
        rw [List.mem_range] at hi
        exact u.getPathSegment_of_lt (by omega)
      · rw [getBaseURI_eq, if_neg hle, if_neg hpos, hsize hlow (by omega), truncated, if_neg hlt,
          if_neg hpos, if_pos hlow, take_eq_map u.pathseg (by omega)]
        refine congrArg (fun segs => _ ++ pathText segs) (List.map_congr_left fun i hi => ?_)
        rw [List.mem_range] at hi
        exact hindex (by omega) i (by omega)

theorem getBaseURI_eq_iff_last : ∃ u, parse rfcEnv "ftl://utu.fi/a".toList = .ok u ∧
    u.getBaseURI (-1) = u.truncated (-1) := by
  have hlength : (made sampleBase 0 ∅ sampleBase.text).pathseg.length = 1 := by decide
  refine ⟨_, parse_sampleBase, (getBaseURI_eq_iff rfcEnv_rfc parse_sampleBase ?_ ?_).mpr ?_⟩
  · rw [hlength]
    decide
  · decide
  · exact .of_lt (by rw [hlength]; decide) (by rw [hlength]; decide)

/-- With more segments left out than there are, there should be no text. -/
theorem getBaseURI_below : ∃ u, parse rfcEnv "ftl://utu.fi/a".toList = .ok u ∧
    u.getBaseURI (-2) ≠ u.truncated (-2) := by
  refine ⟨_, parse_sampleBase, ?_⟩
  have hspec : (made sampleBase 0 ∅ sampleBase.text).truncated (-2) = [] := by decide
  have hcast : ¬ castInt (made sampleBase 0 ∅ sampleBase.text).pathseg.length ≤ -2 := by decide
  rw [hspec, getBaseURI_eq, if_neg hcast, if_neg (by decide)]
  exact originText_ne _ _

end URI

end BeyondProtocol
