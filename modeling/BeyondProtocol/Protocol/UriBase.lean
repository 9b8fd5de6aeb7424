import BeyondProtocol.Protocol.UriText

/-!
# The base, the fragment and the attributes of a URI

What `_parse` makes of the components of a valid URI, against what the components say: the base is
the text without user, query and fragment, and the fragment and the query are those of the text.
-/

namespace BeyondProtocol

open Framework Rfc3986 FormQuery

namespace URI

variable {literal : Text → Bool} {env : UriEnv} {c : Components}

/-! ## §1  Ports -/

/-- Digits alone are a number, if it is an `int`. -/
theorem stoi_of_digits {p : Text} (hne : p ≠ []) (h : p.all Char.isDigit = true) :
    stoi p = if digitsValue p < 2147483648 then .ok (digitsValue p) else .error .outOfRange := by
  cases p with
  | nil => exact absurd rfl hne
  | cons d p =>
      have hdigits := List.all_eq_true.mp h
      have hd := hdigits d List.mem_cons_self
      have hspace : (d :: p).dropWhile (fun c => " \t\n\r".toList.contains c || c.toNat = 11 ||
          c.toNat = 12) = d :: p := by
        refine List.dropWhile_cons_of_neg ?_
        have hlow : 48 ≤ d.toNat := by
          simp only [Char.isDigit, Bool.and_eq_true, decide_eq_true_eq] at hd
          exact hd.1
        have hblank : ∀ s ∈ " \t\n\r".toList, s.isDigit = false := by simp
        have hd' : d ∉ " \t\n\r".toList := by
          intro hmem
          rw [hblank d hmem] at hd
          cases hd
        simp only [Bool.or_eq_true, List.contains_eq_mem, decide_eq_true_eq, not_or]
        exact ⟨⟨hd', by omega⟩, by omega⟩
      have htake : (d :: p).takeWhile Char.isDigit = d :: p :=
        List.takeWhile_eq_self_iff.mpr hdigits
      have hsign : ∀ s : Char, s.isDigit = false → (d :: p).head? ≠ some s := by
        intro s hs heq
        cases heq
        rw [hd] at hs
        cases hs
      have hminus := hsign '-' (by decide)
      have hplus := hsign '+' (by decide)
      rw [stoi]
      simp only [hspace, if_neg (not_or.mpr ⟨hminus, hplus⟩), if_neg hminus, htake]
      rw [if_neg (List.cons_ne_nil d p)]
      generalize digitsValue (d :: p) = n
      by_cases hn : n < 2147483648
      · rw [if_pos hn, if_pos (by omega)]
      · rw [if_neg hn, if_neg (by omega)]

theorem portOf_of_digits {p : Text} (h : p.all Char.isDigit = true) :
    portOf p = if digitsValue p < 65535 then .ok (digitsValue p) else .error .thrown := by
  by_cases hne : p = []
  · subst hne
    rfl
  · rw [portOf, if_neg (by simpa using hne), stoi_of_digits hne h]
    generalize digitsValue p = n
    by_cases hn : n < 65535
    · rw [if_pos hn, if_pos (by omega)]
      exact if_neg (by omega)
    · rw [if_neg hn]
      by_cases hmax : n < 2147483648
      · rw [if_pos hmax]
        exact if_pos (by omega)
      · rw [if_neg hmax]

/-! ## §2  Attributes -/

/-- The items of the query, decoded. -/
def decodedQuery (c : Components) : Attributes :=
  .ofList ((c.query.elim [] dissect).map fun x => (x.1, x.2.getD []))

/-- A C string holds all of the text. -/
def Whole (t : Text) : Prop := Char.ofNat 0 ∉ t

instance (t : Text) : Decidable (Whole t) := inferInstanceAs (Decidable (_ ∉ _))

theorem cString_of_whole {t : Text} (h : Whole t) : cString t = t :=
  cString_eq fun _ hd hzero => h (hzero ▸ hd)

theorem whole_cString (t : Text) : Whole (cString t) := fun hmem => cString_ne t _ hmem rfl

/-- Changing the values of a list changes those of its map. -/
theorem getElem?_insertMany_map (g : Text → Text) {m₀ m₁ : Attributes}
    (h : ∀ k : Text, m₁[k]? = (m₀[k]?).map g) (xs : List (Text × Text)) (k : Text) :
    (m₁.insertMany (xs.map fun x => (x.1, g x.2)))[k]? = ((m₀.insertMany xs)[k]?).map g := by
  induction xs generalizing m₀ m₁ with
  | nil => exact h k
  | cons x xs ih =>
      rw [List.map_cons, Std.ExtTreeMap.insertMany_cons, Std.ExtTreeMap.insertMany_cons]
      refine ih fun k => ?_
      rw [Std.ExtTreeMap.getElem?_insert, Std.ExtTreeMap.getElem?_insert]
      split_ifs
      · rfl
      · exact h k

/-- Made of C strings, the map is the same if there is no zero in it. -/
theorem ofList_cString_iff {xs : List (Text × Text)} :
    (.ofList (xs.map fun x => (cString x.1, cString x.2)) : Attributes) = .ofList xs ↔
      ∀ x ∈ (.ofList xs : Attributes).toList, Whole x.1 ∧ Whole x.2 := by
  constructor
  · intro heq x hx
    rw [← heq] at hx
    obtain ⟨y, -, rfl⟩ := List.mem_map.mp (mem_of_mem_ofList hx)
    exact ⟨whole_cString y.1, whole_cString y.2⟩
  · intro hwhole
    have hkeys : xs.map (fun x => (cString x.1, cString x.2)) =
        xs.map fun x => (x.1, cString x.2) := by
      refine List.map_congr_left fun x hx => ?_
      have hmem : x.1 ∈ (.ofList xs : Attributes) := by
        rw [Std.ExtTreeMap.mem_ofList]
        simpa using ⟨x.2, hx⟩
      have hentry : (x.1, (.ofList xs : Attributes)[x.1]) ∈ (.ofList xs : Attributes).toList := by
        rw [Std.ExtTreeMap.mem_toList_iff_getElem?_eq_some]
        exact Std.ExtTreeMap.getElem?_eq_some_getElem hmem
      rw [cString_of_whole (hwhole _ hentry).1]
    rw [hkeys]
    have hempty : ∀ k : Text, (∅ : Attributes)[k]? = ((∅ : Attributes)[k]?).map cString := by
      intro k
      simp
    refine Std.ExtTreeMap.ext_getElem? fun k => ?_
    rw [Std.ExtTreeMap.ofList_eq_insertMany_empty, Std.ExtTreeMap.ofList_eq_insertMany_empty,
      getElem?_insertMany_map cString hempty]
    cases hk : ((∅ : Attributes).insertMany xs)[k]? with
    | none => rfl
    | some v =>
        rw [← Std.ExtTreeMap.ofList_eq_insertMany_empty] at hk
        have hv := (hwhole (k, v) (Std.ExtTreeMap.mem_toList_iff_getElem?_eq_some.mpr hk)).2
        rw [Option.map_some, cString_of_whole hv]

/-- Every item has a value; the map is made of C strings. -/
theorem queryAttributes_eq_ok (hdissect : env.dissectQuery = dissect) {m : Attributes} :
    queryAttributes env c = .ok m ↔ (∀ x ∈ c.query.elim [] dissect, x.2 ≠ none) ∧
      m = .ofList
        ((c.query.elim [] dissect).map fun x => (cString x.1, cString (x.2.getD []))) := by
  have hitems : ∀ items : List (Text × Option Text), attributesOf items = .ok m ↔
      (∀ x ∈ items, x.2 ≠ none) ∧
        m = .ofList (items.map fun x => (cString x.1, cString (x.2.getD []))) := by
    intro items
    rw [attributesOf_eq_ok]
    constructor
    · rintro ⟨xs, rfl, rfl⟩
      refine ⟨fun x hx => ?_, ?_⟩
      · obtain ⟨y, -, rfl⟩ := List.mem_map.mp hx
        exact Option.some_ne_none y.2
      · rw [List.map_map]
        rfl
    · rintro ⟨hvalue, rfl⟩
      refine ⟨items.map fun x => (x.1, x.2.getD []), ?_, ?_⟩
      · rw [List.map_map, List.map_congr_left (g := id), List.map_id]
        intro x hx
        obtain ⟨v, hv⟩ := Option.ne_none_iff_exists'.mp (hvalue x hx)
        exact Prod.ext rfl (by simp [hv])
      · rw [List.map_map]
        rfl
  unfold queryAttributes
  cases c.query with
  | none => exact hitems []
  | some q =>
      by_cases hq : q = []
      · subst hq
        exact hitems []
      · simp only [if_neg hq, hdissect]
        exact hitems (dissect q)

/-! ## §3  The base -/

/-- Without user, query and fragment. -/
def bare (c : Components) : Components :=
  { c with
    authority := c.authority.map fun a => { a with userinfo := none }
    query := none
    fragment := none }

/-- The base, the fragment and the attributes are those of the text. -/
def Extracted (env : UriEnv) (c : Components) : Prop :=
  ∃ u, parse env c.text = .ok u ∧ u.base = (bare c).text ∧ u.frag = c.fragment.getD [] ∧
    u.qmap = decodedQuery c

/-- What the source asks of a URI. -/
structure Extractable (c : Components) : Prop where
  named : Named c
  port : digitsValue (portText c) < 65535
  user : c.authority.bind (·.userinfo) ≠ some []
  /-- A query has items. -/
  query : ∀ q ∈ c.query, dissect q ≠ []
  value : ∀ x ∈ c.query.elim [] dissect, x.2 ≠ none
  whole : ∀ x ∈ (decodedQuery c).toList, Whole x.1 ∧ Whole x.2
  /-- There is no fragment behind a query. -/
  fragment : c.query ≠ none → c.fragment.getD [] = []

theorem valid_bare (h : c.Valid literal) : (bare c).Valid literal where
  scheme := h.scheme
  authority := by
    intro a ha
    obtain ⟨a₀, ha₀, rfl⟩ := Option.map_eq_some_iff.mp ha
    exact { h.authority a₀ ha₀ with userinfo := by simp }
  path := h.path
  absolute := fun hne => h.absolute fun hnone => hne (by rw [bare, hnone]; rfl)
  plain := fun hnone => h.plain (Option.map_eq_none_iff.mp hnone)
  relative := fun hs hnone => h.relative hs (Option.map_eq_none_iff.mp hnone)
  query := by simp [bare]
  fragment := by simp [bare]

/-- What is kept in the base is what should be, if there is no empty user and no query without
attributes. -/
theorem kept_eq_bare {m : Attributes} : kept c m = bare c ↔
    c.authority.bind (·.userinfo) ≠ some [] ∧ (c.query ≠ none → 0 < m.size) := by
  obtain ⟨scheme, authority, path, query, fragment⟩ := c
  have hauthority : (authority.map fun a : Authority =>
      { a with userinfo := a.userinfo.filter (· = []) }) =
      (authority.map fun a => { a with userinfo := none }) ↔
      authority.bind (·.userinfo) ≠ some [] := by
    cases authority with
    | none => simp
    | some a =>
        obtain ⟨user, host, port⟩ := a
        cases user with
        | none => simp
        | some u => simp
  have hquery : (if 0 < m.size then none else query) = none ↔ (query ≠ none → 0 < m.size) := by
    split_ifs with hsize
    · simp [hsize]
    · simp [hsize]
  rw [← hauthority, ← hquery, kept, bare]
  simp

theorem bare_text_ne {s : Text} (hs : c.scheme = some s) : (bare c).text ≠ [] := by
  have hscheme : (bare c).scheme = some s := hs
  rw [(bare c).text_eq, hscheme, before]
  simp

/-- The text of a URI is parsed as it is. -/
theorem parse_text (henv : env.Rfc literal) (hvalid : c.Valid literal) {s : Text}
    (hs : c.scheme = some s) : parse env c.text = ofRanges env c.text (rangesOf c) := by
  refine parse_some henv hvalid ?_
  rw [cString_text hvalid, c.text_eq, hs, before, List.append_assoc]
  exact fileText_of_scheme env (hvalid.scheme s hs) _

theorem portOf_portText (hvalid : c.Valid literal) :
    portOf (portText c) =
      if digitsValue (portText c) < 65535 then .ok (digitsValue (portText c))
      else .error .thrown := by
  refine portOf_of_digits ?_
  unfold portText
  cases ha : c.authority with
  | none => rfl
  | some a =>
      cases hp : a.port with
      | none => simp [hp]
      | some p => simpa [hp] using (hvalid.authority a ha).port p hp

theorem extractable_of_extracted (henv : env.Rfc literal) (hdissect : env.dissectQuery = dissect)
    (hvalid : c.Valid literal) (hscheme : c.scheme ≠ none) (h : Extracted env c) :
    Extractable c := by
  obtain ⟨s, hs⟩ := Option.ne_none_iff_exists'.mp hscheme
  obtain ⟨u, hu, hbase, hfrag, hqmap⟩ := h
  rw [parse_text henv hvalid hs] at hu
  obtain ⟨port, qmap, base, hport, hattributes, hfor, rfl⟩ := (ofRanges_eq_ok c).mp hu
  replace hbase : base = (bare c).text := hbase
  replace hqmap : qmap = decodedQuery c := hqmap
  replace hfrag : (if c.query = none then c.fragment.getD [] else []) = c.fragment.getD [] := hfrag
  obtain ⟨hvalue, hmap⟩ := (queryAttributes_eq_ok hdissect).mp hattributes
  have hquery : 0 < qmap.size → c.query ≠ none := by
    rintro hsize hnone
    rw [hnone] at hmap
    exact size_pos_iff.mp hsize hmap
  have hnamed : Named c := by
    by_contra hnamed
    rw [baseFor, if_neg hnamed] at hfor
    rw [← Except.ok.inj hfor] at hbase
    exact bare_text_ne hs hbase.symm
  -- a valid text has one reading
  have hkept : kept c qmap = bare c := by
    rw [baseFor, if_pos hnamed, baseOf_rangesOf c hs hquery] at hfor
    exact (valid_kept hvalid).eq_of_text (valid_bare hvalid) ((Except.ok.inj hfor).trans hbase)
  obtain ⟨huser, hsize⟩ := kept_eq_bare.mp hkept
  have hwhole : (.ofList ((c.query.elim [] dissect).map fun x => (cString x.1,
      cString (x.2.getD []))) : Attributes) = decodedQuery c := hmap.symm.trans hqmap
  refine ⟨hnamed, ?_, huser, ?_, hvalue, ?_, ?_⟩
  · rw [portOf_portText hvalid] at hport
    split_ifs at hport with hlow
    exact hlow
  · intro q hq hnil
    have hpos := hsize (by rw [hq]; exact Option.some_ne_none q)
    rw [hmap, hq, Option.elim_some, hnil] at hpos
    exact size_pos_iff.mp hpos rfl
  · refine ofList_cString_iff.mp ?_
    rw [List.map_map]
    exact hwhole
  · intro hne
    rw [if_neg hne] at hfrag
    exact hfrag.symm

theorem extracted_of_extractable (henv : env.Rfc literal) (hdissect : env.dissectQuery = dissect)
    (hvalid : c.Valid literal) (hscheme : c.scheme ≠ none) (h : Extractable c) :
    Extracted env c := by
  obtain ⟨s, hs⟩ := Option.ne_none_iff_exists'.mp hscheme
  have hport : portOf (portText c) = .ok (digitsValue (portText c)) := by
    rw [portOf_portText hvalid, if_pos h.port]
  have hmap : (.ofList ((c.query.elim [] dissect).map fun x => (cString x.1,
      cString (x.2.getD []))) : Attributes) = decodedQuery c := by
    have hwhole := ofList_cString_iff.mpr h.whole
    rw [List.map_map] at hwhole
    exact hwhole
  have hattributes : queryAttributes env c = .ok (decodedQuery c) :=
    (queryAttributes_eq_ok hdissect).mpr ⟨h.value, hmap.symm⟩
  have hsize : c.query ≠ none → 0 < (decodedQuery c).size := by
    intro hne
    obtain ⟨q, hq⟩ := Option.ne_none_iff_exists'.mp hne
    rw [size_pos_iff, decodedQuery, Ne, Std.ExtTreeMap.ofList_eq_empty_iff, List.map_eq_nil_iff, hq]
    exact h.query q hq
  have hquery : 0 < (decodedQuery c).size → c.query ≠ none := by
    rintro hpos hnone
    rw [decodedQuery, hnone] at hpos
    exact size_pos_iff.mp hpos rfl
  have hfor : baseFor c (decodedQuery c) = .ok (bare c).text := by
    rw [baseFor, if_pos h.named, baseOf_rangesOf c hs hquery, kept_eq_bare.mpr ⟨h.user, hsize⟩]
  refine ⟨made c (digitsValue (portText c)) (decodedQuery c) (bare c).text, ?_, rfl, ?_, rfl⟩
  · rw [parse_text henv hvalid hs]
    exact (ofRanges_eq_ok c).mpr ⟨_, _, _, hport, hattributes, hfor, rfl⟩
  · show (if c.query = none then c.fragment.getD [] else []) = c.fragment.getD []
    split_ifs with hnone
    · rfl
    · exact (h.fragment hnone).symm

/-- Parsing gives the base, the fragment and the attributes of the text exactly if the URI names
something, has no empty user, a small port, no fragment behind a query, and a query of items that
all have values, without zeros. -/
theorem extracted_iff (henv : env.Rfc literal) (hdissect : env.dissectQuery = dissect)
    (hvalid : c.Valid literal) (hscheme : c.scheme ≠ none) : Extracted env c ↔ Extractable c :=
  ⟨extractable_of_extracted henv hdissect hvalid hscheme,
    extracted_of_extractable henv hdissect hvalid hscheme⟩

/-- The components of `ftl://nick@utu.fi:9000/a?x=1`. -/
def sampleQuery : Components where
  scheme := some "ftl".toList
  authority := some
    { userinfo := some "nick".toList, host := "utu.fi".toList, port := some "9000".toList }
  path := "/a".toList
  query := some "x=1".toList

theorem extracted_sampleQuery : Extracted rfcEnv sampleQuery :=
  (extracted_iff rfcEnv_rfc rfl (by decide) (by decide)).mpr
    { named := by decide
      port := by decide
      user := by decide
      query := by decide
      value := by decide
      whole := by decide
      fragment := by decide }

/-- The fragment is lost behind a query. -/
theorem fragment_lost : ∃ c : Components, c.Valid (fun _ => false) ∧ c.scheme ≠ none ∧
    c.text = "ftl://utu.fi/a?x=1#part".toList ∧ ¬ Extracted rfcEnv c := by
  refine ⟨{ sampleBase with query := some "x=1".toList, fragment := some "part".toList },
    by decide, by decide, by decide, fun h => ?_⟩
  have hextractable := extractable_of_extracted rfcEnv_rfc rfl
    (by decide) (by decide) h
  exact absurd (hextractable.fragment (by decide)) (by decide)

end URI

end BeyondProtocol
