import BeyondProtocol.Protocol.UriAttributes

/-!
# The text of a URI and parsing it again

`to_string` writes the attributes behind the base, as they are. Parsed again, the base comes back
when it has no query of its own, and the attributes come back when they are plain; both conditions
are necessary.
-/

namespace BeyondProtocol

open Framework Rfc3986 FormQuery

namespace URI

variable {literal : Text → Bool} {env : UriEnv}

/-! ## §1  Components of a base -/

/-- The components that the text of a base is made of. -/
structure IsBase (literal : Text → Bool) (b : Components) : Prop where
  valid : b.Valid literal
  fragment : b.fragment = none
  user : b.authority = b.authority.map fun a => { a with userinfo := a.userinfo.filter (· = []) }
  named : b = {} ∨ b.scheme ≠ none ∧ Named b
  port : ∃ port, portOf (portText b) = .ok port

theorem size_pos_iff {m : Attributes} : 0 < m.size ↔ m ≠ ∅ := by
  rw [← Std.ExtTreeMap.length_toList, List.length_pos_iff, Ne, Std.ExtTreeMap.toList_eq_nil_iff]

theorem empty_valid : ({} : Components).Valid literal where
  scheme := by simp
  authority := by simp
  path := rfl
  absolute := fun h => absurd rfl h
  plain := fun _ => by decide
  relative := fun _ _ => by decide
  query := by simp
  fragment := by simp

/-- Whether there is a host or a path does not depend on the rest. -/
theorem named_kept {c : Components} {m : Attributes} : Named (kept c m) ↔ Named c := by
  have hhost : hostOf (kept c m) = hostOf c := by
    unfold hostOf kept
    cases c.authority <;> rfl
  have hsegments : (kept c m).segments = c.segments :=
    Components.segments_congr rfl Option.map_eq_none_iff
  rw [Named, Named, hhost, hsegments]

theorem portText_kept {c : Components} {m : Attributes} : portText (kept c m) = portText c := by
  unfold portText kept
  cases c.authority <;> rfl

theorem valid_kept {c : Components} {m : Attributes} (h : c.Valid literal) :
    (kept c m).Valid literal where
  scheme := h.scheme
  authority := by
    intro a ha
    obtain ⟨a₀, ha₀, rfl⟩ := Option.map_eq_some_iff.mp ha
    have hvalid := h.authority a₀ ha₀
    exact { hvalid with
      userinfo := fun u hu => hvalid.userinfo u (Option.filter_eq_some_iff.mp hu).1 }
  path := h.path
  absolute := fun hne => h.absolute fun hnone => hne (by rw [kept, hnone]; rfl)
  plain := fun hnone => h.plain (Option.map_eq_none_iff.mp hnone)
  relative := fun hs hnone => h.relative hs (Option.map_eq_none_iff.mp hnone)
  query := by
    intro q hq
    replace hq : (if 0 < m.size then none else c.query) = some q := hq
    split_ifs at hq
    exact h.query q hq
  fragment := by simp [kept]

theorem isBase_empty : IsBase literal {} where
  valid := empty_valid
  fragment := rfl
  user := rfl
  named := .inl rfl
  port := ⟨0, rfl⟩

/-- The base of a parsed URI is the text of components. The query is among them when it gave no
attributes. -/
theorem exists_isBase {c : Components} (hvalid : c.Valid literal) {u : URI}
    (h : ofRanges env c.text (rangesOf c) = .ok u) :
    ∃ b, IsBase literal b ∧ u.base = b.text ∧ (u.qmap ≠ ∅ → b.query = none) ∧
      (u.qmap = ∅ → queryAttributes env b = .ok ∅) := by
  obtain ⟨port, qmap, base, hport, hqmap, hbase, rfl⟩ := (ofRanges_eq_ok c).mp h
  have hquery : 0 < qmap.size → c.query ≠ none := by
    intro hsize hnone
    rw [queryAttributes, hnone] at hqmap
    exact size_pos_iff.mp hsize (Except.ok.inj hqmap).symm
  have hempty : base = [] → ∃ b, IsBase literal b ∧ base = b.text ∧ (qmap ≠ ∅ → b.query = none) ∧
      (qmap = ∅ → queryAttributes env b = .ok ∅) := by
    rintro rfl
    exact ⟨{}, isBase_empty, rfl, fun _ => rfl, fun _ => rfl⟩
  show ∃ b, IsBase literal b ∧ base = b.text ∧ (qmap ≠ ∅ → b.query = none) ∧
    (qmap = ∅ → queryAttributes env b = .ok ∅)
  unfold baseFor at hbase
  split_ifs at hbase with hnamed
  · cases hs : c.scheme with
    | none => exact hempty (baseOf_of_no_scheme c hs hbase)
    | some s =>
        rw [baseOf_rangesOf c hs hquery] at hbase
        refine ⟨kept c qmap, ?_, (Except.ok.inj hbase).symm, ?_, ?_⟩
        · refine ⟨valid_kept hvalid, rfl, ?_, .inr ⟨?_, named_kept.mpr hnamed⟩, port, ?_⟩
          · show c.authority.map _ = (c.authority.map _).map _
            cases c.authority with
            | none => rfl
            | some a => simp [Option.filter_filter]
          · show c.scheme ≠ none
            rw [hs]
            exact Option.some_ne_none s
          · rwa [portText_kept]
        · intro hne
          exact if_pos (size_pos_iff.mpr hne)
        · rintro rfl
          have hsize : ¬ 0 < (∅ : Attributes).size := fun h => size_pos_iff.mp h rfl
          have hq : (kept c ∅).query = c.query := by
            show (if 0 < (∅ : Attributes).size then none else c.query) = _
            rw [if_neg hsize]
          rw [queryAttributes, hq]
          exact hqmap
  · exact hempty (Except.ok.inj hbase).symm

/-- Components with a query that gives attributes, or without one, have the base they are made
from. -/
theorem ofRanges_of_base {b : Components} (hb : IsBase literal b) {q f : Option Text}
    {m : Attributes} (hm : queryAttributes env { b with query := q, fragment := f } = .ok m)
    (hkeep : (if 0 < m.size then none else q) = b.query) :
    ∃ u, ofRanges env ({ b with query := q, fragment := f } : Components).text
        (rangesOf { b with query := q, fragment := f }) = .ok u ∧
      u.base = b.text ∧ u.qmap = m := by
  obtain ⟨port, hport⟩ := hb.port
  have hsegments : ({ b with query := q, fragment := f } : Components).segments = b.segments := rfl
  have hnamed : Named { b with query := q, fragment := f } ↔ Named b := by
    rw [Named, Named, hsegments]
    rfl
  have hbase : baseFor { b with query := q, fragment := f } m = .ok b.text := by
    unfold baseFor
    rcases hb.named with rfl | ⟨hscheme, hb'⟩
    · rw [if_neg (by rw [hnamed]; decide)]
      rfl
    · obtain ⟨s, hs⟩ := Option.ne_none_iff_exists'.mp hscheme
      have hquery : 0 < m.size → q ≠ none := by
        rintro hsize rfl
        exact size_pos_iff.mp hsize (Except.ok.inj hm).symm
      have hbase := baseOf_rangesOf { b with query := q, fragment := f } hs hquery
      have hkept : kept { b with query := q, fragment := f } m = b := by
        unfold kept
        rw [← hb.user, hkeep, ← hb.fragment]
      rw [if_pos (hnamed.mpr hb'), hbase, hkept]
  exact ⟨_, (ofRanges_eq_ok _).mpr ⟨port, m, b.text, hport, hm, hbase, rfl⟩, rfl, rfl⟩

/-! ## §2  Texts -/

theorem cString_append {s t : Text} (h : ∀ d ∈ s, d ≠ Char.ofNat 0) :
    cString (s ++ t) = s ++ cString t :=
  List.takeWhile_append_of_pos (by simpa using h)

theorem cString_ne (t : Text) : ∀ d ∈ cString t, d ≠ Char.ofNat 0 := by
  intro d hd
  simpa using List.mem_takeWhile_imp hd

theorem fileText_ne (env : UriEnv) (t : Text) :
    ∀ d ∈ fileText env (cString t), d ≠ Char.ofNat 0 := by
  have ht := cString_ne t
  have hdrop : ∀ d ∈ (cString t).drop 1, d ≠ Char.ofNat 0 :=
    fun d hd => ht d (List.mem_of_mem_drop hd)
  have hfile : ∀ d ∈ "file://".toList, d ≠ Char.ofNat 0 := by simp
  have happend : ∀ {x y : Text}, (∀ d ∈ x, d ≠ Char.ofNat 0) → (∀ d ∈ y, d ≠ Char.ofNat 0) →
      ∀ d ∈ x ++ y, d ≠ Char.ofNat 0 :=
    fun hx hy d hd => (List.mem_append.mp hd).elim (hx d) (hy d)
  unfold fileText
  split_ifs
  · split
    · exact happend (happend hfile (cString_ne _)) hdrop
    · exact ht
  · exact happend hfile ht
  · exact happend (happend hfile (cString_ne _)) hdrop
  · exact ht

theorem fileText_cases (env : UriEnv) (t : Text) :
    fileText env t = t ∨ ∃ x, fileText env t = "file".toList ++ x := by
  unfold fileText
  split_ifs
  · split
    · exact .inr ⟨_, rfl⟩
    · exact .inl rfl
  · exact .inr ⟨_, rfl⟩
  · exact .inr ⟨_, rfl⟩
  · exact .inl rfl

/-- What was made of a file name is no file name. -/
theorem fileText_fileText (env : UriEnv) (t : Text) :
    fileText env (fileText env t) = fileText env t := by
  rcases fileText_cases env t with h | ⟨x, h⟩
  · rw [h, h]
  · rw [h]
    exact fileText_of_scheme env (by decide) x

/-- A file name and what is behind it. -/
theorem fileText_append (env : UriEnv) {s : Text} (hs : s ≠ []) (t : Text) :
    fileText env (s ++ t) = fileText env s ++ t := by
  have hhead : (s ++ t).head? = s.head? := List.head?_append_of_ne_nil s hs
  have hdrop : (s ++ t).drop 1 = s.drop 1 ++ t :=
    List.drop_append_of_le_length (List.length_pos_iff.mpr hs)
  unfold fileText
  rw [hhead, hdrop]
  split_ifs
  · split
    · exact (List.append_assoc _ _ _).symm
    · rfl
  · exact (List.append_assoc _ _ _).symm
  · exact (List.append_assoc _ _ _).symm
  · rfl

/-- The text that a base starts is not a file name. -/
theorem IsBase.fileText_eq {b : Components} (hb : IsBase literal b) (env : UriEnv) {t : Text}
    (ht : t = [] ∨ t.head? = some '?') : fileText env (b.text ++ t) = b.text ++ t := by
  rcases hb.named with rfl | ⟨hscheme, -⟩
  · refine fileText_eq_self env ?_
    rcases ht with rfl | ht
    · decide
    · show t.head? ≠ _ ∧ t.head? ≠ _ ∧ t.head? ≠ _
      rw [ht]
      decide
  · obtain ⟨s, hs⟩ := Option.ne_none_iff_exists'.mp hscheme
    rw [b.text_eq, hs, before, List.append_assoc, List.append_assoc]
    exact fileText_of_scheme env (hb.valid.scheme s hs) _

theorem IsBase.text_of_query {b : Components} (hb : IsBase literal b) (hq : b.query = none) :
    b.text = b.hier := by
  rw [Components.text, hq, hb.fragment]
  rfl

/-! ## §3  Parsing the text again -/

/-- Calls of `setAttribute`. -/
def setAttributes (u : URI) (xs : List (Text × Text)) : URI :=
  xs.foldl (fun u x => u.setAttribute x.1 x.2) u

theorem setAttributes_eq (u : URI) (xs : List (Text × Text)) :
    u.setAttributes xs = { u with qmap := u.qmap.insertMany xs } := by
  induction xs generalizing u with
  | nil => rfl
  | cons x xs ih =>
      show (u.setAttribute x.1 x.2).setAttributes xs = _
      rw [ih]
      exact congrArg (fun m => { u with qmap := m }) Std.ExtTreeMap.insertMany_cons.symm

/-- The text is parsed to the same base and attributes. -/
def Reparses (env : UriEnv) (u : URI) : Prop :=
  ∃ r, parse env u.toText = .ok r ∧ r.base = u.base ∧ r.qmap = u.qmap

/-- There are no attributes, or they are plain and behind a base that can take them. -/
def Writable (u : URI) : Prop :=
  u.qmap = ∅ ∨ u.proto ≠ .none ∧ '?' ∉ u.base ∧ ∀ x ∈ u.qmap.toList, Plain x

theorem toText_of_empty {u : URI} (h : u.qmap = ∅) : u.toText = u.base := by
  rw [toText, if_neg]
  exact fun hsize => size_pos_iff.mp hsize h

theorem toText_of_ne {u : URI} (h : u.qmap ≠ ∅) :
    u.toText = u.base ++ '?' :: queryText u.qmap.toList := by
  rw [toText, if_pos (size_pos_iff.mpr h), getQuery_eq]

variable (henv : env.Rfc literal) (hdissect : env.dissectQuery = dissect)

include henv in
/-- The text of a base is parsed to itself. -/
theorem parse_base {b : Components} (hb : IsBase literal b)
    (hquery : queryAttributes env b = .ok ∅) :
    ∃ r, parse env b.text = .ok r ∧ r.base = b.text ∧ r.qmap = ∅ := by
  have htext : fileText env (cString b.text) = b.text := by
    have hfile := hb.fileText_eq env (t := []) (.inl rfl)
    rw [List.append_nil] at hfile
    rw [cString_text hb.valid, hfile]
  have hsame : ({ b with query := b.query, fragment := none } : Components) = b := by
    rw [← hb.fragment]
  obtain ⟨r, hr, hbase, hqmap⟩ := ofRanges_of_base hb (q := b.query) (f := none) (m := ∅)
    (by rw [hsame]; exact hquery) (if_neg fun hsize => size_pos_iff.mp hsize rfl)
  rw [hsame] at hr
  rw [parse_some henv hb.valid htext]
  exact ⟨r, hr, hbase, hqmap⟩

include henv in
/-- Without attributes the text is the base, which is parsed to itself. -/
theorem reparse_base {puri : Text} {u : URI} (h : parse env puri = .ok u) (hu : u.qmap = ∅) :
    ∃ r, parse env u.base = .ok r ∧ r.base = u.base ∧ r.qmap = ∅ := by
  rcases parse_cases henv h with ⟨hnone, rfl⟩ | ⟨c, hvalid, -, h⟩
  · have htext : fileText env (cString (fileText env (cString puri))) =
        fileText env (cString puri) := by
      rw [cString_eq (fileText_ne env puri), fileText_fileText]
    have hparse := parse_none henv (htext.symm ▸ hnone)
    rw [htext] at hparse
    exact ⟨_, hparse, rfl, rfl⟩
  · obtain ⟨b, hb, hbase, -, hquery⟩ := exists_isBase hvalid h
    rw [hbase]
    exact parse_base henv hb (hquery hu)

include henv hdissect in
/-- The attributes of a parsed text come from the query of valid components. -/
theorem exists_components {puri : Text} {r : URI} (h : parse env puri = .ok r) (hr : r.qmap ≠ ∅) :
    ∃ c : Components, c.Valid literal ∧ c.text = fileText env (cString puri) ∧
      ∃ q, c.query = some q ∧ attributesOf (dissect q) = .ok r.qmap := by
  rcases parse_cases henv h with ⟨-, rfl⟩ | ⟨c, hvalid, htext, h⟩
  · exact absurd rfl hr
  · obtain ⟨port, qmap, base, -, hqmap, -, rfl⟩ := (ofRanges_eq_ok c).mp h
    refine ⟨c, hvalid, htext, ?_⟩
    unfold queryAttributes at hqmap
    cases hq : c.query with
    | none =>
        rw [hq] at hqmap
        exact absurd (Except.ok.inj hqmap).symm hr
    | some q =>
        rw [hq] at hqmap
        simp only at hqmap
        split_ifs at hqmap
        · exact absurd (Except.ok.inj hqmap).symm hr
        · rw [hdissect] at hqmap
          exact ⟨q, rfl, hqmap⟩

include henv in
/-- A base in front of attributes has no query. -/
theorem notMem_base {puri : Text} {r : URI} (h : parse env puri = .ok r) (hr : r.qmap ≠ ∅) :
    '?' ∉ r.base := by
  rcases parse_cases henv h with ⟨-, rfl⟩ | ⟨c, hvalid, -, h⟩
  · exact absurd rfl hr
  · obtain ⟨b, hb, hbase, hquery, -⟩ := exists_isBase hvalid h
    rw [hbase, hb.text_of_query (hquery hr)]
    exact hb.valid.notMem_hier (by decide)

/-- The query of a valid text behind a base. -/
theorem query_of_append {b c : Components} (hb : b.Valid literal) (hc : c.Valid literal) {t : Text}
    (htext : c.text = b.hier ++ '?' :: t) : c.query = some (cut '#' t).1 := by
  have hcut := hc.cut_fragment
  rw [htext, cut_append (hb.notMem_hier (by decide))] at hcut
  have hquery := hc.cut_query
  rw [← (Prod.mk.inj hcut).1] at hquery
  have hmark : cut '#' ('?' :: t) = ('?' :: (cut '#' t).1, (cut '#' t).2) := if_neg (by decide)
  rw [hmark] at hquery
  exact (Prod.mk.inj ((cut_glue (hb.notMem_hier (by decide)) (some _)).symm.trans hquery)).2.symm

/-- A query behind a base, as it is parsed. -/
theorem IsBase.fileText_query {b : Components} (hb : IsBase literal b) (env : UriEnv) (t : Text) :
    fileText env (cString (b.text ++ '?' :: t)) = b.text ++ '?' :: cString t := by
  have hzero : ∀ d ∈ b.text ++ ['?'], d ≠ Char.ofNat 0 := by
    rintro d hd rfl
    rcases List.mem_append.mp hd with hd | hd
    · rcases hb.valid.text_chars _ hd with h | h | h
      · exact absurd h (by decide)
      · exact absurd h (by decide)
      · exact absurd h (by decide)
    · exact absurd hd (by decide)
  rw [List.append_cons, cString_append hzero, ← List.append_cons]
  exact hb.fileText_eq env (.inr rfl)

include henv hdissect in
/-- Plain items behind a base are its attributes. -/
theorem parse_query {b : Components} (hb : IsBase literal b) (hq : b.query = none)
    {xs : List (Text × Text)} (hne : xs ≠ []) (hplain : ∀ x ∈ xs, Plain x) :
    ∃ r, parse env (b.text ++ '?' :: queryText xs) = .ok r ∧ r.base = b.text ∧
      r.qmap = .ofList xs := by
  have hchars := queryText_chars hplain
  have hattributes := attributesOf_queryText hplain
  have hm : (.ofList xs : Attributes) ≠ ∅ := by
    rwa [Ne, Std.ExtTreeMap.ofList_eq_empty_iff]
  generalize queryText xs = t at hchars hattributes ⊢
  have hnil : t ≠ [] := by
    rintro rfl
    exact hm (Except.ok.inj hattributes).symm
  have hvalid : ({ b with query := some t, fragment := none } : Components).Valid literal := by
    refine hb.valid.withTail ?_ (by simp)
    intro q hq
    cases hq
    exact encoded_of_all fun d hd => ⟨(hchars d hd).1, (hchars d hd).2.1⟩
  have htext : ({ b with query := some t, fragment := none } : Components).text =
      b.text ++ '?' :: t := by
    rw [hb.text_of_query hq]
    rfl
  have hquery : queryAttributes env { b with query := some t, fragment := none } =
      .ok (.ofList xs) := by
    show (if t = [] then _ else attributesOf (env.dissectQuery t)) = _
    rw [if_neg hnil, hdissect, hattributes]
  obtain ⟨r, hr, hbase, hqmap⟩ := ofRanges_of_base hb hquery
    (by rw [if_pos (size_pos_iff.mpr hm), hq])
  have hcstring : cString t = t := by
    refine cString_eq ?_
    rintro d hd rfl
    exact (hchars _ hd).2.2.2 rfl
  refine ⟨r, ?_, hbase, hqmap⟩
  rw [parse_some henv hvalid, hr]
  rw [hb.fileText_query, htext, hcstring]

include henv hdissect in
/-- The text of attributes behind a base, parsed again. -/
theorem reparse_iff {b : Components} (hb : IsBase literal b) (hq : b.query = none) {m : Attributes}
    (hm : m ≠ ∅) :
    (∃ r, parse env (b.text ++ '?' :: queryText m.toList) = .ok r ∧ r.base = b.text ∧ r.qmap = m) ↔
      ∀ x ∈ m.toList, Plain x := by
  constructor
  · rintro ⟨r, hr, -, rfl⟩
    obtain ⟨c, hvalid, htext, q, hquery, hattributes⟩ := exists_components henv hdissect hr hm
    rw [hb.fileText_query, hb.text_of_query hq] at htext
    have hq' := query_of_append hb.valid hvalid htext
    rw [hquery] at hq'
    cases hq'
    exact (plain_of_attributesOf hm ((cut_front '#' _).trans (cString_front _))
      (hvalid.query _ hquery) hattributes).2
  · intro hplain
    have hne : m.toList ≠ [] := by rwa [Ne, Std.ExtTreeMap.toList_eq_nil_iff]
    have hparse := parse_query henv hdissect hb hq hne hplain
    rwa [ofList_toList] at hparse

include henv hdissect in
/-- Behind a text that is no URI no query is read. -/
theorem unparsed_of_query {puri : Text} (hnone : Rfc3986.parse literal
    (fileText env (cString puri)) = none) {t : Text} {r : URI}
    (h : parse env (fileText env (cString puri) ++ '?' :: t) = .ok r) : r.qmap = ∅ := by
  by_contra hr
  obtain ⟨c, hvalid, htext, -⟩ := exists_components henv hdissect h hr
  have hzero : ∀ d ∈ fileText env (cString puri) ++ ['?'], d ≠ Char.ofNat 0 := by
    rintro d hd rfl
    rcases List.mem_append.mp hd with hd | hd
    · exact fileText_ne env puri _ hd rfl
    · exact absurd hd (by decide)
  rw [List.append_cons, cString_append hzero, ← List.append_cons] at htext
  have hfile : fileText env (fileText env (cString puri) ++ '?' :: cString t) =
      fileText env (cString puri) ++ '?' :: cString t := by
    by_cases hempty : fileText env (cString puri) = []
    · rw [hempty]
      exact fileText_eq_self env (by simp)
    · rw [fileText_append env hempty, fileText_fileText]
  obtain ⟨c', hvalid', htext'⟩ := hvalid.exists_of_append (htext.trans hfile)
  rw [parse_eq_some.mpr ⟨hvalid', htext'⟩] at hnone
  cases hnone

include henv in
/-- A parsed URI has a base that can take attributes if there is no question mark in it. -/
theorem exists_isBase_of_notMem {puri : Text} {u : URI} (h : parse env puri = .ok u)
    (hproto : u.proto ≠ .none) (hmark : '?' ∉ u.base) :
    ∃ b, IsBase literal b ∧ u.base = b.text ∧ b.query = none := by
  rcases parse_cases henv h with ⟨-, rfl⟩ | ⟨c, hvalid, -, h⟩
  · exact absurd rfl hproto
  · obtain ⟨b, hb, hbase, -, -⟩ := exists_isBase hvalid h
    refine ⟨b, hb, hbase, ?_⟩
    cases hq : b.query with
    | none => rfl
    | some q =>
        rw [hbase, Components.text, hq, hb.fragment] at hmark
        exact absurd (List.mem_append_right _ List.mem_cons_self) hmark

/-- Parsed, changed and written out, a URI is read back exactly if it has no attributes, or plain
ones behind a base that can take them. -/
theorem toText_reparses_iff (henv : env.Rfc literal) (hdissect : env.dissectQuery = dissect)
    {puri : Text} {u : URI} (h : parse env puri = .ok u) (xs : List (Text × Text)) :
    Reparses env (u.setAttributes xs) ↔ Writable (u.setAttributes xs) := by
  have hmap : u.qmap.insertMany xs = ∅ → u.qmap = ∅ :=
    fun h => (Std.ExtTreeMap.insertMany_list_eq_empty_iff.mp h).1
  rw [setAttributes_eq]
  generalize u.qmap.insertMany xs = m at hmap
  by_cases hm : m = ∅
  · refine ⟨fun _ => .inl hm, fun _ => ?_⟩
    obtain ⟨r, hr, hbase, hqmap⟩ := reparse_base henv h (hmap hm)
    refine ⟨r, ?_, hbase, hqmap.trans hm.symm⟩
    rw [toText_of_empty hm]
    exact hr
  · rw [Reparses, toText_of_ne hm, Writable, or_iff_right hm]
    have hback : u.proto ≠ .none → '?' ∉ u.base →
        ((∃ r, parse env (u.base ++ '?' :: queryText m.toList) = .ok r ∧ r.base = u.base ∧
          r.qmap = m) ↔ ∀ x ∈ m.toList, Plain x) := by
      intro hproto hmark
      obtain ⟨b, hb, hbase, hq⟩ := exists_isBase_of_notMem henv h hproto hmark
      rw [hbase]
      exact reparse_iff henv hdissect hb hq hm
    constructor
    · rintro ⟨r, hr, hbase, hqmap⟩
      have hproto : u.proto ≠ .none := by
        intro hproto
        rcases parse_cases henv h with ⟨hnone, rfl⟩ | ⟨c, hvalid, -, h⟩
        · exact hm (hqmap.symm.trans (unparsed_of_query henv hdissect hnone hr))
        · obtain ⟨port, qmap, base, -, -, -, rfl⟩ := (ofRanges_eq_ok c).mp h
          exact schemeOf_ne_none _ hproto
      have hmark : '?' ∉ u.base := by
        have hmark := notMem_base henv hr (by rw [hqmap]; exact hm)
        rwa [hbase] at hmark
      exact ⟨hproto, hmark, (hback hproto hmark).mp ⟨r, hr, hbase, hqmap⟩⟩
    · rintro ⟨hproto, hmark, hplain⟩
      exact (hback hproto hmark).mpr hplain

/-- The components of `ftl://utu.fi/a`. -/
def sampleBase : Components where
  scheme := some "ftl".toList
  authority := some { host := "utu.fi".toList }
  path := "/a".toList

theorem sampleBase_isBase : IsBase (fun _ => false) sampleBase where
  valid := by decide
  fragment := rfl
  user := rfl
  named := .inr ⟨by decide, by decide⟩
  port := ⟨0, rfl⟩

theorem parse_sampleBase : parse rfcEnv "ftl://utu.fi/a".toList =
    .ok (made sampleBase 0 ∅ sampleBase.text) := by
  have hfile : fileText rfcEnv (cString "ftl://utu.fi/a".toList) = sampleBase.text := by decide
  have hkept : kept sampleBase ∅ = sampleBase := by decide
  have hbase : baseOf sampleBase.text (rangesOf sampleBase) ∅ = .ok (kept sampleBase ∅).text :=
    baseOf_rangesOf sampleBase rfl fun hsize => absurd rfl (size_pos_iff.mp hsize)
  rw [hkept] at hbase
  rw [parse_some rfcEnv_rfc sampleBase_isBase.valid hfile, ofRanges_eq_ok]
  exact ⟨0, ∅, sampleBase.text, rfl, rfl, (if_pos (by decide)).trans hbase, rfl⟩

theorem toText_reparses_iff_group : ∃ u, parse rfcEnv "ftl://utu.fi/a".toList = .ok u ∧
    Reparses rfcEnv (u.setAttributes [("group".toList, "test2".toList)]) := by
  refine ⟨_, parse_sampleBase,
    (toText_reparses_iff rfcEnv_rfc rfl parse_sampleBase _).mpr (.inr ?_)⟩
  have hplain : ∀ x ∈ ((∅ : Attributes).insertMany [("group".toList, "test2".toList)]).toList,
      Plain x := by decide
  rw [setAttributes_eq]
  exact ⟨by decide, by decide, hplain⟩

/-- A value with an ampersand is read back as two attributes. -/
theorem ampersand_not_reparsed : ∃ u, parse rfcEnv "ftl://utu.fi/a".toList = .ok u ∧
    ¬ Reparses rfcEnv (u.setAttributes [("x".toList, "1&y".toList)]) := by
  refine ⟨_, parse_sampleBase, fun h => ?_⟩
  rw [setAttributes_eq] at h
  have hne : (∅ : Attributes).insertMany [("x".toList, "1&y".toList)] ≠ ∅ := by
    rw [Ne, Std.ExtTreeMap.insertMany_list_eq_empty_iff]
    exact fun h => absurd h.2 (by decide)
  rw [Reparses, toText_of_ne hne] at h
  have hplain := (reparse_iff rfcEnv_rfc rfl sampleBase_isBase rfl hne).mp h
  exact absurd (hplain ("x".toList, "1&y".toList) (by decide)) (by decide)

end URI

end BeyondProtocol
