import Mathlib.Data.List.TakeWhile
import BeyondProtocol.Framework.Fallible
import BeyondProtocol.Protocol.Uri

/-!
# What parsing a URI makes of its components

The URI library is assumed to return the component ranges of RFC 3986. The source assembles the
base with pointers into the text; in terms of the components it is the text of the URI without
some of them.
-/

namespace BeyondProtocol

open Framework Rfc3986

/-! ## §1  Component ranges -/

/-- Texts one after the other, with one character between them. -/
def rangesFrom : Nat → List Text → List TextRange
  | _, [] => []
  | first, s :: ss => ⟨first, first + s.length⟩ :: rangesFrom (first + s.length + 1) ss

/-- The host, without square brackets. -/
def hostText (host : Text) : Text :=
  match host with
  | '[' :: t => t.dropLast
  | t => t

/-- The host of a URI. -/
def hostOf (c : Components) : Text := c.authority.elim [] fun a => hostText a.host

def hostRange (first : Nat) (host : Text) : TextRange :=
  match host with
  | '[' :: t => ⟨first + 1, first + 1 + t.dropLast.length⟩
  | t => ⟨first, first + t.length⟩

/-- Where the components are in the text. -/
def rangesOf (c : Components) : UriUriA :=
  let user := (before ':' c.scheme).length + 2
  let host := user + (c.authority.elim [] fun a => before '@' a.userinfo).length
  let path := (before ':' c.scheme).length + c.authorityText.length
  let query := c.hier.length + 1
  let fragment := (glue '?' c.hier c.query).length + 1
  { scheme := c.scheme.map fun s => ⟨0, s.length⟩
    userInfo := (c.authority.bind (·.userinfo)).map fun u => ⟨user, user + u.length⟩
    hostText := c.authority.map fun a => hostRange host a.host
    portText := c.authority.bind fun a => a.port.map fun p =>
      ⟨host + a.host.length + 1, host + a.host.length + 1 + p.length⟩
    path := rangesFrom (if c.path.head? = some '/' then path + 1 else path) c.segments
    query := c.query.map fun q => ⟨query, query + q.length⟩
    fragment := c.fragment.map fun f => ⟨fragment, fragment + f.length⟩ }

/-- The URI library finds the components of RFC 3986. -/
def UriEnv.Rfc (env : UriEnv) (literal : Text → Bool) : Prop :=
  ∀ s, env.parseUri s = (Rfc3986.parse literal s).map rangesOf

/-! ## §2  Texts of the ranges -/

theorem TextRange.of_eq {t x y z : Text} (h : t = x ++ (y ++ z)) {first last : Nat}
    (hfirst : first = x.length) (hlast : last = first + y.length) :
    (TextRange.mk first last).of t = y := by
  subst h hfirst hlast
  simp [TextRange.of]

variable {literal : Text → Bool} (c : Components)

theorem rangeText_scheme : rangeText c.text (rangesOf c).scheme = c.scheme.getD [] := by
  cases hs : c.scheme with
  | none => simp [rangesOf, hs, rangeText]
  | some s =>
      have htext := c.text_eq
      rw [hs, before, List.append_assoc] at htext
      simp only [rangesOf, hs]
      exact TextRange.of_eq (x := []) htext rfl (by simp)

variable {a : Authority}

/-- The text around the authority. -/
theorem text_authority (ha : c.authority = some a) : c.text =
    (before ':' c.scheme ++ "//".toList) ++ (before '@' a.userinfo ++ (a.host ++
      (glue ':' [] a.port ++ (c.path ++ (glue '?' [] c.query ++ glue '#' [] c.fragment))))) := by
  rw [c.text_eq, Components.authorityText, ha]
  cases hp : a.port <;> simp [Authority.text, hp, glue]

theorem rangeText_userInfo : rangeText c.text (rangesOf c).userInfo =
    ((c.authority.bind (·.userinfo)).getD []) := by
  cases ha : c.authority with
  | none => simp [rangesOf, ha, rangeText]
  | some a =>
      cases hu : a.userinfo with
      | none => simp [rangesOf, ha, hu, rangeText]
      | some u =>
          have htext := text_authority c ha
          rw [hu, before, List.append_assoc u] at htext
          simp only [rangesOf, ha, hu, Option.bind_some, Option.map_some, Option.getD_some]
          exact TextRange.of_eq htext (by simp) rfl

theorem rangeText_hostText : rangeText c.text (rangesOf c).hostText = hostOf c := by
  unfold hostOf
  cases ha : c.authority with
  | none => simp [rangesOf, ha, rangeText]
  | some a =>
      have htext := text_authority c ha
      simp only [rangesOf, ha, Option.map_some, Option.elim_some, rangeText]
      unfold hostRange hostText
      split
      · rename_i t hhost
        -- the brackets are not part of the range
        have hsplit : t = t.dropLast ++ t.drop (t.length - 1) := by
          rw [List.dropLast_eq_take, List.take_append_drop]
        rw [hhost, ← List.append_assoc] at htext
        generalize t.drop (t.length - 1) = last at hsplit
        rw [hsplit, List.cons_append, List.append_assoc t.dropLast, ← List.singleton_append,
          ← List.append_assoc _ ['[']] at htext
        exact TextRange.of_eq htext (by simp; omega) rfl
      · rw [← List.append_assoc] at htext
        exact TextRange.of_eq htext (by simp; omega) rfl

theorem rangeText_portText : rangeText c.text (rangesOf c).portText =
    ((c.authority.bind (·.port)).getD []) := by
  cases ha : c.authority with
  | none => simp [rangesOf, ha, rangeText]
  | some a =>
      cases hp : a.port with
      | none => simp [rangesOf, ha, hp, rangeText]
      | some p =>
          have htext := text_authority c ha
          rw [hp, glue, List.nil_append, List.cons_append, ← List.singleton_append,
            ← List.append_assoc a.host, ← List.append_assoc (before '@' a.userinfo),
            ← List.append_assoc (before ':' c.scheme ++ _)] at htext
          simp only [rangesOf, ha, hp, Option.bind_some, Option.map_some, Option.getD_some]
          exact TextRange.of_eq htext (by simp; omega) rfl

theorem rangeText_query : rangeText c.text (rangesOf c).query = c.query.getD [] := by
  cases hq : c.query with
  | none => simp [rangesOf, hq, rangeText]
  | some q =>
      have htext : c.text = (c.hier ++ ['?']) ++ (q ++ glue '#' [] c.fragment) := by
        rw [Components.text, hq]
        cases c.fragment <;> simp [glue]
      simp only [rangesOf, hq, Option.map_some, Option.getD_some]
      exact TextRange.of_eq htext (by simp) rfl

theorem of_rangesFrom {t : Text} {ss : List Text} {x z : Text}
    (h : t = x ++ (['/'].intercalate ss ++ z)) :
    (rangesFrom x.length ss).map (fun r => r.of t) = ss := by
  induction ss generalizing x with
  | nil => rfl
  | cons s ss ih =>
      rw [rangesFrom, List.map_cons]
      cases ss with
      | nil =>
          rw [List.intercalate_singleton] at h
          rw [TextRange.of_eq h rfl rfl]
          rfl
      | cons s' ss =>
          rw [List.intercalate_cons_cons, List.append_assoc, List.append_assoc] at h
          rw [TextRange.of_eq h rfl rfl]
          have hrest := ih (x := x ++ s ++ ['/']) (by rw [h]; simp)
          simp only [List.length_append, List.length_singleton] at hrest
          rw [hrest]

theorem rangeText_path : (rangesOf c).path.map (fun h => h.of c.text) = c.segments := by
  have htext := c.text_eq
  rw [← List.append_assoc] at htext
  show (rangesFrom _ c.segments).map _ = _
  rw [← List.length_append]
  rcases c.segments_cases with ⟨-, hnone⟩ | ⟨t, hpath, hsegments⟩ | ⟨-, hhead, hsegments⟩
  · rw [hnone]
    rfl
  · have hjoin : ['/'].intercalate c.segments = t := by rw [hsegments, List.intercalate_splitOn]
    rw [hpath, ← hjoin, List.cons_append, ← List.singleton_append, ← List.append_assoc _ ['/']]
      at htext
    have hranges := of_rangesFrom htext
    rw [List.length_append, List.length_singleton] at hranges
    rw [if_pos (by rw [hpath]; rfl)]
    exact hranges
  · have hjoin : ['/'].intercalate c.segments = c.path := by
      rw [hsegments, List.intercalate_splitOn]
    rw [← hjoin] at htext
    rw [if_neg hhead]
    exact of_rangesFrom htext

/-! ## §3  The parsed object -/

namespace URI

/-- The attributes of a query. An empty query is not looked at. -/
def queryAttributes (env : UriEnv) (c : Components) : Except Fault Attributes :=
  match c.query with
  | none => .ok ∅
  | some q => if q = [] then .ok ∅ else attributesOf (env.dissectQuery q)

/-- What the source calls valid: there is a host or a path. -/
def Named (c : Components) : Prop := hostOf c ≠ [] ∨ c.segments ≠ []

instance (c : Components) : Decidable (Named c) := inferInstanceAs (Decidable (_ ∨ _))

theorem schemeOf_ne_none (t : Text) : schemeOf t ≠ .none := by
  have hmap : ∀ x ∈ schemeMap, x.2 ≠ .none := by decide
  unfold schemeOf
  split_ifs
  · decide
  · cases h : schemeMap.lookup t with
    | none => decide
    | some s =>
        obtain ⟨l₁, l₂, hsplit, -⟩ := List.lookup_eq_some_iff.mp h
        exact hmap (t, s) (by rw [hsplit]; simp)

theorem qmapOf_rangesOf (env : UriEnv) :
    qmapOf env c.text (rangesOf c).query = queryAttributes env c := by
  have htext := rangeText_query c
  unfold qmapOf queryAttributes
  cases hq : c.query with
  | none => simp [rangesOf, hq]
  | some q =>
      simp only [rangesOf, hq, Option.map_some, rangeText, Option.getD_some] at htext ⊢
      rw [htext]
      cases q with
      | nil => simp
      | cons d q => simp

theorem fragOf_rangesOf : fragOf c.text (rangesOf c).query (rangesOf c).fragment =
    if c.query = none then c.fragment.getD [] else [] := by
  unfold fragOf
  cases hf : c.fragment with
  | none => simp [rangesOf, hf]
  | some f =>
      cases hq : c.query with
      | some q =>
          simp only [rangesOf, hf, hq, Option.map_some, Option.getD_some, glue,
            List.length_append, List.length_cons, reduceCtorEq, if_false]
          exact if_neg (by omega)
      | none =>
          have htext : c.text = (c.hier ++ ['#']) ++ (f ++ []) := by
            rw [Components.text, hf, hq]
            simp [glue]
          simp only [rangesOf, hf, hq, Option.map_some, Option.map_none, Option.getD_none,
            Option.getD_some, if_true, glue]
          split_ifs with hempty
          · exact TextRange.of_eq htext (by simp) rfl
          · exact (List.eq_nil_of_length_eq_zero (by omega)).symm

/-- The port text. -/
def portText (c : Components) : Text := (c.authority.bind (·.port)).getD []

/-- The object made of components. -/
def made (c : Components) (port : Int) (qmap : Attributes) (base : Text) : URI where
  valid := Named c
  host := hostOf c
  path := c.segments.flatMap fun pstr => '/' :: pstr
  frag := if c.query = none then c.fragment.getD [] else []
  base := base
  userinfo := (c.authority.bind (·.userinfo)).getD []
  pathseg := c.segments
  port := port
  proto := schemeOf (c.scheme.getD [])
  protostr := c.scheme.getD []
  qmap := qmap

/-- The base, which only a valid URI has. -/
def baseFor (c : Components) (qmap : Attributes) : Except Fault Text :=
  if Named c then baseOf c.text (rangesOf c) qmap else .ok []

/-- Parsing, in terms of the components. -/
theorem ofRanges_rangesOf (env : UriEnv) : ofRanges env c.text (rangesOf c) = (do
    let port ← portOf (portText c)
    let qmap ← queryAttributes env c
    let base ← baseFor c qmap
    return made c port qmap base) := by
  have hvalid : (schemeOf (c.scheme.getD []) ≠ .none ∧ (0 < (hostOf c).length ∨
      0 < (c.segments.flatMap fun pstr => '/' :: pstr).length)) ↔ Named c := by
    rw [and_iff_right (schemeOf_ne_none _), Named, List.length_pos_iff, List.length_pos_iff]
    refine or_congr_right (not_congr ?_)
    cases c.segments <;> simp
  unfold ofRanges
  simp only [rangeText_hostText, rangeText_scheme, rangeText_portText, rangeText_userInfo,
    rangeText_path, qmapOf_rangesOf, fragOf_rangesOf]
  simp only [hvalid, baseFor]
  by_cases hnamed : Named c
  · simp only [if_pos hnamed]
    rfl
  · simp only [if_neg hnamed]
    rfl

theorem ofRanges_eq_ok {env : UriEnv} {u : URI} : ofRanges env c.text (rangesOf c) = .ok u ↔
    ∃ port qmap base, portOf (portText c) = .ok port ∧ queryAttributes env c = .ok qmap ∧
      baseFor c qmap = .ok base ∧ u = made c port qmap base := by
  rw [ofRanges_rangesOf]
  constructor
  · intro h
    obtain ⟨port, hport, h⟩ := bind_eq_ok.mp h
    obtain ⟨qmap, hqmap, h⟩ := bind_eq_ok.mp h
    obtain ⟨base, hbase, h⟩ := bind_eq_ok.mp h
    cases h
    exact ⟨port, qmap, base, hport, hqmap, hbase, rfl⟩
  · rintro ⟨port, qmap, base, hport, hqmap, hbase, rfl⟩
    rw [hport, ok_bind, hqmap, ok_bind, hbase, ok_bind]
    rfl

/-! ## §4  The base -/

/-- What the base keeps of the components: no user unless it is empty, no fragment, and no query
if it gave attributes. -/
def kept (c : Components) (qmap : Attributes) : Components :=
  { c with
    authority := c.authority.map fun a => { a with userinfo := a.userinfo.filter (· = []) }
    query := if 0 < qmap.size then none else c.query
    fragment := none }

theorem stringAt_append {t x y z : Text} (h : t = x ++ (y ++ z)) {first last : Nat}
    (hfirst : first = x.length) (hlast : last = first + y.length) :
    stringAt t (some first) last = .ok y := by
  have hle : ¬ last < first := by omega
  rw [stringAt, if_neg hle]
  exact congrArg Except.ok (TextRange.of_eq h hfirst hlast)

/-- From a place in the hierarchical part on, the base goes to its end, and over the query if it
gave no attributes. -/
theorem baseFrom_rangesOf {x y : Text} (h : c.hier = x ++ y) {qmap : Attributes}
    (hquery : 0 < qmap.size → c.query ≠ none) :
    baseFrom c.text (rangesOf c) (some x.length) qmap =
      .ok (y ++ if 0 < qmap.size then [] else glue '?' [] c.query) := by
  unfold baseFrom
  split_ifs with hsize
  · obtain ⟨q, hq⟩ := Option.ne_none_iff_exists'.mp (hquery hsize)
    have htext : c.text = x ++ (y ++ ('?' :: q ++ glue '#' [] c.fragment)) := by
      rw [Components.text, h, hq]
      cases c.fragment <;> simp [glue]
    rw [List.append_nil]
    refine stringAt_append htext rfl ?_
    simp [rangesOf, hq, h]
  · cases hf : c.fragment with
    | some f =>
        have htext : c.text = x ++ ((y ++ glue '?' [] c.query) ++ '#' :: f) := by
          rw [Components.text, h, hf]
          cases c.query <;> simp [glue]
        simp only [rangesOf, hf, Option.map_some]
        refine stringAt_append htext rfl ?_
        rw [h]
        cases c.query <;> simp [glue]
    | none =>
        have htext : c.text = x ++ (y ++ glue '?' [] c.query) := by
          rw [Components.text, h, hf]
          cases c.query <;> simp [glue]
        simp only [rangesOf, hf, Option.map_none, Option.elim_some]
        rw [htext, List.drop_left]

theorem text_kept (qmap : Attributes) : (kept c qmap).text =
    (kept c qmap).hier ++ if 0 < qmap.size then [] else glue '?' [] c.query := by
  rw [Components.text]
  show glue '?' (kept c qmap).hier (if 0 < qmap.size then none else c.query) = _
  split_ifs
  · simp [glue]
  · cases c.query <;> simp [glue]

/-- The base of a URI with a scheme. -/
theorem baseOf_rangesOf {s : Text} (hs : c.scheme = some s) {qmap : Attributes}
    (hquery : 0 < qmap.size → c.query ≠ none) :
    baseOf c.text (rangesOf c) qmap = .ok (kept c qmap).text := by
  have hstart : (rangesOf c).scheme.map (·.first) = some ([] : Text).length := by
    simp [rangesOf, hs]
  have hplain : (∀ u, c.authority.bind (·.userinfo) = some u → u = []) →
      (kept c qmap).hier = c.hier := by
    intro hnone
    have hauth : (kept c qmap).authority = c.authority := by
      show c.authority.map _ = _
      cases ha : c.authority with
      | none => rfl
      | some a =>
          obtain ⟨user, host, port⟩ := a
          cases user with
          | none => rfl
          | some u =>
              rw [hnone u (by rw [ha]; rfl)]
              rfl
    rw [Components.hier, Components.hier, Components.authorityText, Components.authorityText,
      hauth]
    rfl
  rw [text_kept]
  unfold baseOf
  have huser := rangeText_userInfo c
  cases hu : c.authority.bind (·.userinfo) with
  | none =>
      have hrange : (rangesOf c).userInfo = none := by simp [rangesOf, hu]
      rw [hrange, hplain (by simp [hu])]
      simp only [hstart]
      exact baseFrom_rangesOf c (x := []) rfl hquery
  | some u =>
      have hrange : (rangesOf c).userInfo = some ⟨(before ':' c.scheme).length + 2,
          (before ':' c.scheme).length + 2 + u.length⟩ := by simp [rangesOf, hu]
      rw [hrange, hu] at huser
      rw [hrange]
      simp only [show (TextRange.mk _ _).of c.text = u from huser, hstart]
      by_cases hempty : u = []
      · rw [if_neg (not_not_intro hempty), hplain]
        · exact baseFrom_rangesOf c (x := []) rfl hquery
        · intro u' hu'
          rw [hu] at hu'
          cases hu'
          exact hempty
      · -- the text is cut before the user and continued behind it
        obtain ⟨a, ha, hau⟩ := Option.bind_eq_some_iff.mp hu
        have hfront : stringAt c.text (some 0) ((before ':' c.scheme).length + 2) =
            .ok (before ':' c.scheme ++ "//".toList) := by
          refine stringAt_append (x := []) (text_authority c ha) rfl (by simp)
        have hhier : c.hier = (before ':' c.scheme ++ "//".toList ++ (u ++ ['@'])) ++
            (glue ':' a.host a.port ++ c.path) := by
          simp [Components.hier, Components.authorityText, ha, Authority.text, hau, before]
        have hrest := baseFrom_rangesOf c hhier hquery
        have hlength : (before ':' c.scheme ++ "//".toList ++ (u ++ ['@'])).length =
            (before ':' c.scheme).length + 2 + u.length + 1 := by
          simp
          omega
        have hdrop : (some u).filter (fun u => decide (u = [])) = none := by
          simp [Option.filter, hempty]
        have hkept : (kept c qmap).hier = before ':' c.scheme ++ "//".toList ++
            (glue ':' a.host a.port ++ c.path) := by
          simp [kept, Components.hier, Components.authorityText, ha, Authority.text, hau, hdrop,
            before]
        rw [hlength] at hrest
        rw [if_pos hempty]
        show (stringAt c.text (some 0) _ >>= _) = _
        rw [hfront, ok_bind, hrest, ok_bind, hkept]
        exact congrArg Except.ok (List.append_assoc _ _ _).symm

/-- Without a scheme there is no place to take the base from. -/
theorem baseOf_of_no_scheme (hs : c.scheme = none) {qmap : Attributes} {base : Text}
    (h : baseOf c.text (rangesOf c) qmap = .ok base) : base = [] := by
  have hstart : (rangesOf c).scheme.map (·.first) = none := by simp [rangesOf, hs]
  have hfrom : baseFrom c.text (rangesOf c) none qmap = .ok base → base = [] := by
    intro h
    unfold baseFrom at h
    split_ifs at h
    · cases h
    · split at h
      · cases h
      · cases h
        rfl
  unfold baseOf at h
  simp only [hstart] at h
  split at h
  · exact hfrom h
  · split_ifs at h
    · cases h
    · exact hfrom h

/-! ## §5  Texts that are parsed -/

/-- What is made of a text that the URI library refuses. -/
def unparsed (suri : Text) : URI := { host := "none".toList, port := -1, base := suri }

variable {env : UriEnv} {c}

theorem parse_none (henv : env.Rfc literal) {puri : Text}
    (h : Rfc3986.parse literal (fileText env (cString puri)) = none) :
    parse env puri = .ok (unparsed (fileText env (cString puri))) := by
  simp only [parse, henv _, h, Option.map_none]
  rfl

theorem parse_some (henv : env.Rfc literal) {puri : Text} (hvalid : c.Valid literal)
    (h : fileText env (cString puri) = c.text) :
    parse env puri = ofRanges env c.text (rangesOf c) := by
  simp only [parse, henv _, h, parse_eq_some.mpr ⟨hvalid, rfl⟩, Option.map_some]

/-- The text that is parsed is refused, or made of components. -/
theorem parse_cases (henv : env.Rfc literal) {puri : Text} {u : URI}
    (h : parse env puri = .ok u) :
    (Rfc3986.parse literal (fileText env (cString puri)) = none ∧
      u = unparsed (fileText env (cString puri))) ∨
    ∃ c : Components, c.Valid literal ∧ c.text = fileText env (cString puri) ∧
      ofRanges env c.text (rangesOf c) = .ok u := by
  cases hc : Rfc3986.parse literal (fileText env (cString puri)) with
  | none =>
      rw [parse_none henv hc] at h
      exact .inl ⟨rfl, (Except.ok.inj h).symm⟩
  | some c =>
      obtain ⟨hvalid, htext⟩ := parse_eq_some.mp hc
      rw [parse_some henv hvalid htext.symm] at h
      exact .inr ⟨c, hvalid, htext, h⟩

theorem cString_eq {t : Text} (h : ∀ d ∈ t, d ≠ Char.ofNat 0) : cString t = t := by
  rw [cString, List.takeWhile_eq_self_iff]
  simpa using h

/-- A valid text has no zero in it. -/
theorem cString_text (hvalid : c.Valid literal) : cString c.text = c.text := by
  refine cString_eq ?_
  rintro d hd rfl
  rcases hvalid.text_chars _ hd with h | h | h
  · exact absurd h (by decide)
  · exact absurd h (by decide)
  · exact absurd h (by decide)

theorem fileText_eq_self (env : UriEnv) {t : Text}
    (h : t.head? ≠ some '.' ∧ t.head? ≠ some '/' ∧ t.head? ≠ some '~') : fileText env t = t := by
  rw [fileText, if_neg h.1, if_neg h.2.1, if_neg h.2.2]

/-- A text with a scheme is no file name. -/
theorem fileText_of_scheme (env : UriEnv) {s : Text} (hs : isScheme s = true) (t : Text) :
    fileText env (s ++ t) = s ++ t := by
  cases s with
  | nil => cases hs
  | cons d s =>
      rw [isScheme, Bool.and_eq_true] at hs
      have hne : ∀ d', d'.isAlpha = false → (d :: s ++ t).head? ≠ some d' := by
        intro d' hd' heq
        cases heq
        rw [hs.1] at hd'
        cases hd'
      exact fileText_eq_self env ⟨hne '.' (by decide), hne '/' (by decide), hne '~' (by decide)⟩

end URI

end BeyondProtocol
