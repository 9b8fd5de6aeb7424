import Mathlib.Tactic

/-!
# The generic syntax of URIs (RFC 3986)

A URI reference is cut into its components at the first delimiters, and each component has
characters of its own. The components of a valid reference are determined by its text: `split`
finds them, and gives back the text of what it is given. Which texts are IP addresses inside
square brackets is left open.
-/

namespace Framework

/-- Text, a `Char` for each byte. -/
abbrev Text : Type := List Char

/-! ## §1  Cutting at a delimiter -/

section Cut

variable {α : Type} [DecidableEq α] {d : α} {s x : List α}

/-- What is before the first `d`, and what is behind it if there is one. -/
def cut (d : α) : List α → List α × Option (List α)
  | [] => ([], none)
  | c :: s => if c = d then ([], some s) else (c :: (cut d s).1, (cut d s).2)

def glue (d : α) (x : List α) : Option (List α) → List α
  | none => x
  | some y => x ++ d :: y

omit [DecidableEq α] in
@[simp] theorem glue_cons (c : α) (y : Option (List α)) : glue d (c :: x) y = c :: glue d x y := by
  cases y <;> rfl

omit [DecidableEq α] in
theorem glue_append (x' : List α) (y : Option (List α)) :
    glue d (x ++ x') y = x ++ glue d x' y := by
  cases y with
  | none => rfl
  | some y => exact List.append_assoc x x' (d :: y)

omit [DecidableEq α] in
theorem mem_glue {y : Option (List α)} {c : α} (h : c ∈ glue d x y) :
    c ∈ x ∨ c = d ∨ ∃ z ∈ y, c ∈ z := by
  cases y with
  | none => exact .inl h
  | some y =>
      rcases List.mem_append.mp h with h | h
      · exact .inl h
      · rcases List.mem_cons.mp h with h | h
        · exact .inr (.inl h)
        · exact .inr (.inr ⟨y, rfl, h⟩)

@[simp] theorem glue_cut (d : α) (s : List α) : glue d (cut d s).1 (cut d s).2 = s := by
  induction s with
  | nil => rfl
  | cons c s ih =>
      unfold cut
      split_ifs with hc
      · rw [hc]
        rfl
      · rw [glue_cons, ih]

theorem cut_front (d : α) (s : List α) : (cut d s).1 <+: s := by
  have hs := glue_cut d s
  cases h : (cut d s).2 with
  | none =>
      rw [h] at hs
      exact ⟨[], (List.append_nil _).trans hs⟩
  | some y =>
      rw [h] at hs
      exact ⟨d :: y, hs⟩

theorem notMem_cut (d : α) (s : List α) : d ∉ (cut d s).1 := by
  induction s with
  | nil => exact List.not_mem_nil
  | cons c s ih =>
      unfold cut
      split_ifs with hc
      · exact List.not_mem_nil
      · simp [Ne.symm hc, ih]

theorem cut_glue (h : d ∉ x) (y : Option (List α)) : cut d (glue d x y) = (x, y) := by
  induction x with
  | nil =>
      cases y with
      | none => rfl
      | some y => exact if_pos rfl
  | cons c x ih =>
      obtain ⟨hc, hx⟩ := not_or.mp (List.mem_cons.not.mp h)
      rw [glue_cons, cut, if_neg (Ne.symm hc), ih hx]

theorem cut_append (h : d ∉ x) (s : List α) : cut d (x ++ s) = (x ++ (cut d s).1, (cut d s).2) := by
  induction x with
  | nil => rfl
  | cons c x ih =>
      obtain ⟨hc, hx⟩ := not_or.mp (List.mem_cons.not.mp h)
      rw [List.cons_append, cut, if_neg (Ne.symm hc), ih hx]
      rfl

theorem cut_of_notMem (h : d ∉ s) : cut d s = (s, none) := cut_glue h none

end Cut

namespace Rfc3986

/-! ## §2  Characters -/

/-- The value of a hexadecimal digit. -/
def hexValue (c : Char) : Option Nat :=
  if c.isDigit then some (c.toNat - '0'.toNat)
  else if c.isLower ∧ c.toNat ≤ 'f'.toNat then some (c.toNat - 'a'.toNat + 10)
  else if c.isUpper ∧ c.toNat ≤ 'F'.toNat then some (c.toNat - 'A'.toNat + 10)
  else none

def isHex (c : Char) : Bool := (hexValue c).isSome

def unreserved (c : Char) : Bool := c.isAlphanum || "-._~".toList.contains c

def subDelim (c : Char) : Bool := "!$&'()*+,;=".toList.contains c

def regNameChar (c : Char) : Bool := unreserved c || subDelim c

def userinfoChar (c : Char) : Bool := regNameChar c || c == ':'

def pchar (c : Char) : Bool := userinfoChar c || c == '@'

def pathChar (c : Char) : Bool := pchar c || c == '/'

/-- The characters before a query and a fragment. -/
def hierChar (c : Char) : Bool := pathChar c || "%[]".toList.contains c

/-- The characters of a query or a fragment. -/
def queryChar (c : Char) : Bool := pathChar c || c == '?'

/-- Characters of one kind and percent-encoded bytes, of which `k` digits are still to come. -/
def encodedFrom (p : Char → Bool) : Nat → Text → Bool
  | k, [] => k == 0
  | 0, c :: t => if c = '%' then encodedFrom p 2 t else p c && encodedFrom p 0 t
  | k + 1, c :: t => isHex c && encodedFrom p k t

/-- Characters of one kind and percent-encoded bytes. -/
def encoded (p : Char → Bool) (t : Text) : Bool := encodedFrom p 0 t

def schemeChar (c : Char) : Bool := c.isAlphanum || "+-.".toList.contains c

def isScheme : Text → Bool
  | [] => false
  | c :: t => c.isAlpha && t.all schemeChar

variable {p : Char → Bool}

theorem encodedFrom_chars {k : Nat} {t : Text} (h : encodedFrom p k t = true) :
    ∀ c ∈ t, p c = true ∨ c = '%' ∨ isHex c = true := by
  induction t generalizing k with
  | nil => simp
  | cons d t ih =>
      rw [List.forall_mem_cons]
      cases k with
      | zero =>
          by_cases hd : d = '%'
          · rw [encodedFrom, if_pos hd] at h
            exact ⟨.inr (.inl hd), ih h⟩
          · rw [encodedFrom, if_neg hd, Bool.and_eq_true] at h
            exact ⟨.inl h.1, ih h.2⟩
      | succ k =>
          rw [encodedFrom, Bool.and_eq_true] at h
          exact ⟨.inr (.inr h.1), ih h.2⟩

/-- A character of another kind does not occur. -/
theorem notMem_of_encoded {t : Text} (h : encoded p t = true) {c : Char} (hp : p c = false)
    (hc : c ≠ '%') (hhex : isHex c = false) : c ∉ t := by
  intro hmem
  rcases encodedFrom_chars h c hmem with h | h | h
  · rw [hp] at h
    cases h
  · exact hc h
  · rw [hhex] at h
    cases h

theorem encodedFrom_append {c : Char} (hc : c ≠ '%') (hhex : isHex c = false) (x y : Text)
    (k : Nat) :
    encodedFrom p k (x ++ c :: y) = (encodedFrom p k x && (p c && encodedFrom p 0 y)) := by
  induction x generalizing k with
  | nil =>
      cases k with
      | zero => simp [encodedFrom, hc]
      | succ k => simp [encodedFrom, hhex]
  | cons d x ih =>
      cases k with
      | zero =>
          rw [List.cons_append, encodedFrom, encodedFrom]
          split_ifs
          · exact ih 2
          · rw [ih 0, Bool.and_assoc]
      | succ k => rw [List.cons_append, encodedFrom, encodedFrom, ih k, Bool.and_assoc]

/-- Encoding is decided on both sides of a character that is no part of an encoded byte. -/
theorem encoded_append {c : Char} (hc : c ≠ '%') (hhex : isHex c = false) (x y : Text) :
    encoded p (x ++ c :: y) = (encoded p x && (p c && encoded p y)) :=
  encodedFrom_append hc hhex x y 0

/-- Without a percent sign there are only characters of the kind. -/
theorem encoded_of_all {t : Text} (h : ∀ c ∈ t, p c = true ∧ c ≠ '%') : encoded p t = true := by
  induction t with
  | nil => rfl
  | cons c t ih =>
      obtain ⟨hc, ht⟩ := List.forall_mem_cons.mp h
      rw [encoded, encodedFrom, if_neg hc.2, hc.1, Bool.true_and]
      exact ih ht

/-! ## §3  Components -/

structure Authority where
  userinfo : Option Text := none
  host : Text
  port : Option Text := none
deriving DecidableEq

structure Components where
  scheme : Option Text := none
  authority : Option Authority := none
  path : Text := []
  query : Option Text := none
  fragment : Option Text := none
deriving DecidableEq

/-- A component that comes with the character behind it. -/
def before (d : Char) : Option Text → Text
  | none => []
  | some x => x ++ [d]

def Authority.text (a : Authority) : Text := before '@' a.userinfo ++ glue ':' a.host a.port

namespace Components

def authorityText (c : Components) : Text :=
  match c.authority with
  | none => []
  | some a => '/' :: '/' :: a.text

/-- The text without query and fragment. -/
def hier (c : Components) : Text := before ':' c.scheme ++ (c.authorityText ++ c.path)

def text (c : Components) : Text := glue '#' (glue '?' c.hier c.query) c.fragment

theorem text_eq (c : Components) :
    c.text = before ':' c.scheme ++ (c.authorityText ++ (c.path ++
      (glue '?' [] c.query ++ glue '#' [] c.fragment))) := by
  rw [text, hier]
  cases c.query <;> cases c.fragment <;> simp [glue]

/-- The segments of the path. A slash alone, without an authority, has none. -/
def segments (c : Components) : List Text :=
  match c.path with
  | [] => []
  | '/' :: t => if t = [] ∧ c.authority = none then [] else t.splitOn '/'
  | t => t.splitOn '/'

/-- The segments depend on the path and on whether there is an authority. -/
theorem segments_congr {c c' : Components} (hpath : c.path = c'.path)
    (hauthority : c.authority = none ↔ c'.authority = none) : c.segments = c'.segments := by
  unfold segments
  simp only [hpath, hauthority]

theorem segments_cases (c : Components) :
    (c.path = [] ∨ c.path = ['/'] ∧ c.authority = none) ∧ c.segments = [] ∨
    (∃ t, c.path = '/' :: t ∧ c.segments = t.splitOn '/') ∨
    c.path ≠ [] ∧ c.path.head? ≠ some '/' ∧ c.segments = c.path.splitOn '/' := by
  unfold segments
  split
  · rename_i hpath
    exact .inl ⟨.inl hpath, rfl⟩
  · rename_i t hpath
    split_ifs with hroot
    · exact .inl ⟨.inr ⟨hroot.1 ▸ hpath, hroot.2⟩, rfl⟩
    · exact .inr (.inl ⟨t, hpath, rfl⟩)
  · rename_i hempty hslash
    refine .inr (.inr ⟨hempty, fun hhead => ?_, rfl⟩)
    obtain ⟨t, ht⟩ := List.head?_eq_some_iff.mp hhead
    exact hslash t ht

end Components

/-- The address in square brackets. -/
def isLiteral (literal : Text → Bool) (h : Text) : Bool :=
  h.getLast? == some ']' && h.dropLast.all (fun c => regNameChar c || c == ':') &&
    literal h.dropLast

def isHost (literal : Text → Bool) (h : Text) : Bool :=
  match h with
  | '[' :: h => isLiteral literal h
  | h => encoded regNameChar h

structure Authority.Valid (literal : Text → Bool) (a : Authority) : Prop where
  userinfo : ∀ u ∈ a.userinfo, encoded userinfoChar u = true
  host : isHost literal a.host = true
  port : ∀ p ∈ a.port, p.all Char.isDigit = true

structure Components.Valid (literal : Text → Bool) (c : Components) : Prop where
  scheme : ∀ s ∈ c.scheme, isScheme s = true
  authority : ∀ a ∈ c.authority, a.Valid literal
  path : encoded pathChar c.path = true
  /-- Behind an authority the path starts with a slash. -/
  absolute : c.authority ≠ none → c.path = [] ∨ ∃ t, c.path = '/' :: t
  /-- Without one it does not look like one. -/
  plain : c.authority = none → c.path.take 2 ≠ "//".toList
  /-- Without a scheme the first segment does not look like one. -/
  relative : c.scheme = none → c.authority = none → ':' ∉ (cut '/' c.path).1
  query : ∀ q ∈ c.query, encoded queryChar q = true
  fragment : ∀ f ∈ c.fragment, encoded queryChar f = true

/-! ## §4  Finding the components -/

def splitScheme (s : Text) : Option Text × Text :=
  match cut ':' s with
  | (_, none) => (none, s)
  | (x, some y) => if '/' ∈ x then (none, s) else (some x, y)

def splitUserinfo (s : Text) : Option Text × Text :=
  match cut '@' s with
  | (_, none) => (none, s)
  | (x, some y) => (some x, y)

/-- A colon in square brackets is part of the host. -/
def splitHost (s : Text) : Text × Option Text :=
  match s with
  | '[' :: t =>
      match cut ']' t with
      | (_, none) => (s, none)
      | (x, some y) => ('[' :: x ++ ']' :: (cut ':' y).1, (cut ':' y).2)
  | s => cut ':' s

def splitAuthority (s : Text) : Authority where
  userinfo := (splitUserinfo s).1
  host := (splitHost (splitUserinfo s).2).1
  port := (splitHost (splitUserinfo s).2).2

/-- The text up to the first slash, and the rest from there on. -/
def splitPath (s : Text) : Text × Text := (s.takeWhile (· ≠ '/'), s.dropWhile (· ≠ '/'))

def splitHier (s : Text) : Option Authority × Text :=
  match s with
  | '/' :: '/' :: t => (some (splitAuthority (splitPath t).1), (splitPath t).2)
  | s => (none, s)

def split (s : Text) : Components :=
  let r := cut '#' s
  let q := cut '?' r.1
  let h := splitScheme q.1
  { scheme := h.1
    authority := (splitHier h.2).1
    path := (splitHier h.2).2
    query := q.2
    fragment := r.2 }

theorem before_splitScheme (s : Text) : before ':' (splitScheme s).1 ++ (splitScheme s).2 = s := by
  have hs := glue_cut ':' s
  unfold splitScheme
  split
  · rfl
  · rename_i x y hcut
    rw [hcut] at hs
    split_ifs
    · rfl
    · simpa [before, glue] using hs

theorem before_splitUserinfo (s : Text) :
    before '@' (splitUserinfo s).1 ++ (splitUserinfo s).2 = s := by
  have hs := glue_cut '@' s
  unfold splitUserinfo
  split
  · rfl
  · rename_i x y hcut
    rw [hcut] at hs
    simpa [before, glue] using hs

theorem glue_splitHost (s : Text) : glue ':' (splitHost s).1 (splitHost s).2 = s := by
  unfold splitHost
  split
  · rename_i t
    have ht := glue_cut ']' t
    split
    · rfl
    · rename_i x y hcut
      rw [hcut] at ht
      have hy : glue ':' ('[' :: x ++ ']' :: (cut ':' y).1) (cut ':' y).2 =
          '[' :: x ++ ']' :: y := by
        rw [glue_append, glue_cons, glue_cut]
      rw [hy, ← ht]
      rfl
  · exact glue_cut ':' s

theorem text_splitAuthority (s : Text) : (splitAuthority s).text = s := by
  show before '@' (splitUserinfo s).1 ++ glue ':' _ _ = s
  rw [splitAuthority, glue_splitHost, before_splitUserinfo]

theorem splitHier_text (s : Text) :
    ({ authority := (splitHier s).1 } : Components).authorityText ++ (splitHier s).2 = s := by
  unfold splitHier
  split
  · rename_i t
    show '/' :: '/' :: (splitAuthority (splitPath t).1).text ++ (splitPath t).2 = _
    rw [text_splitAuthority]
    exact congrArg (fun x => '/' :: '/' :: x) List.takeWhile_append_dropWhile
  · rfl

/-- The components make up the text they were found in. -/
theorem text_split (s : Text) : (split s).text = s := by
  have hhier : (split s).hier = (cut '?' (cut '#' s).1).1 := by
    rw [Components.hier]
    show before ':' (splitScheme (cut '?' (cut '#' s).1).1).1 ++
      (({ authority := (splitHier (splitScheme (cut '?' (cut '#' s).1).1).2).1 } :
        Components).authorityText ++ _) = _
    rw [show (split s).path = (splitHier (splitScheme (cut '?' (cut '#' s).1).1).2).2 from rfl,
      splitHier_text, before_splitScheme]
  rw [Components.text, hhier]
  show glue '#' (glue '?' _ (cut '?' (cut '#' s).1).2) (cut '#' s).2 = s
  rw [glue_cut, glue_cut]

/-! ## §5  Valid components are found -/

variable {literal : Text → Bool} {c : Components}

theorem schemeChar_of_isScheme {x : Text} (h : isScheme x = true) :
    ∀ c ∈ x, schemeChar c = true := by
  cases x with
  | nil => cases h
  | cons d x =>
      rw [isScheme, Bool.and_eq_true, List.all_eq_true] at h
      rw [List.forall_mem_cons]
      exact ⟨by simp [schemeChar, Char.isAlphanum, h.1], h.2⟩

theorem userinfoChar_of_isHex {c : Char} (h : isHex c = true) : userinfoChar c = true := by
  have halnum : c.isAlphanum = true := by
    show (c.isUpper || c.isLower || c.isDigit) = true
    unfold isHex hexValue at h
    split_ifs at h with hdigit hlower hupper
    · rw [hdigit, Bool.or_true]
    · rw [hlower.1, Bool.or_true, Bool.true_or]
    · rw [hupper.1, Bool.true_or, Bool.true_or]
    · cases h
  simp [userinfoChar, regNameChar, unreserved, halnum]

theorem pathChar_of_userinfoChar {c : Char} (h : userinfoChar c = true) : pathChar c = true := by
  rw [pathChar, pchar, h, Bool.true_or, Bool.true_or]

theorem pathChar_of_isHex {c : Char} (h : isHex c = true) : pathChar c = true :=
  pathChar_of_userinfoChar (userinfoChar_of_isHex h)

theorem pathChar_of_schemeChar {c : Char} (h : schemeChar c = true) : pathChar c = true := by
  apply pathChar_of_userinfoChar
  simp only [schemeChar, Bool.or_eq_true] at h
  rcases h with hc | hc
  · simp [userinfoChar, regNameChar, unreserved, hc]
  · simp only [List.contains_eq_mem, decide_eq_true_iff] at hc
    have hall : "+-.".toList.all userinfoChar = true := by decide
    exact List.all_eq_true.mp hall c hc

theorem hierChar_of_pathChar {c : Char} (h : pathChar c = true) : hierChar c = true := by
  rw [hierChar, h, Bool.true_or]

theorem hierChar_of_encoded {t : Text} (h : encoded p t = true)
    (hp : ∀ {c}, p c = true → pathChar c = true) : ∀ c ∈ t, hierChar c = true := by
  intro c hc
  rcases encodedFrom_chars h c hc with hc | rfl | hc
  · exact hierChar_of_pathChar (hp hc)
  · decide
  · exact hierChar_of_pathChar (pathChar_of_isHex hc)

theorem notMem_scheme {x : Text} (h : isScheme x = true) {d : Char} (hd : schemeChar d = false) :
    d ∉ x := by
  intro hmem
  rw [schemeChar_of_isScheme h d hmem] at hd
  cases hd

theorem splitScheme_of_some {x : Text} (h : isScheme x = true) (y : Text) :
    splitScheme (before ':' (some x) ++ y) = (some x, y) := by
  have hcut : cut ':' (x ++ ':' :: y) = (x, some y) :=
    cut_glue (notMem_scheme h (by decide)) (some y)
  rw [before, List.append_assoc, List.singleton_append, splitScheme, hcut]
  exact if_neg (notMem_scheme h (by decide))

theorem splitUserinfo_of_some {x : Text} (h : encoded userinfoChar x = true) (y : Text) :
    splitUserinfo (before '@' (some x) ++ y) = (some x, y) := by
  have hx : '@' ∉ x := notMem_of_encoded h (by decide) (by decide) (by decide)
  have hcut : cut '@' (x ++ '@' :: y) = (x, some y) := cut_glue hx (some y)
  rw [before, List.append_assoc, List.singleton_append, splitUserinfo, hcut]

/-- What stands in square brackets. -/
theorem exists_literal {h : Text} (hh : isLiteral literal h = true) :
    ∃ x, h = x ++ [']'] ∧ ∀ c ∈ x, (regNameChar c || c == ':') = true := by
  simp only [isLiteral, Bool.and_eq_true, beq_iff_eq, List.all_eq_true] at hh
  obtain ⟨⟨hlast, hall⟩, -⟩ := hh
  exact ⟨h.dropLast, (List.dropLast_append_getLast? ']' hlast).symm, hall⟩

theorem isHost_cases {h : Text} (hh : isHost literal h = true) :
    (∃ x, h = '[' :: x ++ [']'] ∧ ∀ c ∈ x, (regNameChar c || c == ':') = true) ∨
      encoded regNameChar h = true := by
  unfold isHost at hh
  split at hh
  · rename_i t
    obtain ⟨x, rfl, hx⟩ := exists_literal hh
    exact .inl ⟨x, rfl, hx⟩
  · exact .inr hh

theorem splitHost_glue {h : Text} (hh : isHost literal h = true) (port : Option Text) :
    splitHost (glue ':' h port) = (h, port) := by
  rcases isHost_cases hh with ⟨x, rfl, hx⟩ | henc
  · have hclose : ']' ∉ x := by
      intro hmem
      exact absurd (hx ']' hmem) (by decide)
    have hcut : cut ']' (x ++ ']' :: glue ':' [] port) = (x, some (glue ':' [] port)) :=
      cut_glue hclose (some _)
    have htext : glue ':' ('[' :: x ++ [']']) port = '[' :: (x ++ ']' :: glue ':' [] port) := by
      rw [List.cons_append, glue_cons, glue_append, glue_cons]
    rw [htext, splitHost, hcut]
    simp only [cut_glue List.not_mem_nil]
  · have hcolon : ':' ∉ h := notMem_of_encoded henc (by decide) (by decide) (by decide)
    have hopen : '[' ∉ h := notMem_of_encoded henc (by decide) (by decide) (by decide)
    have hsplit : splitHost (glue ':' h port) = cut ':' (glue ':' h port) := by
      unfold splitHost
      split
      · rename_i t hs
        cases h with
        | nil => cases port <;> cases hs
        | cons d h =>
            rw [glue_cons] at hs
            cases hs
            exact absurd List.mem_cons_self hopen
      · rfl
    rw [hsplit, cut_glue hcolon]

/-- The characters of a host and a port. -/
theorem Authority.Valid.hostPort_chars {a : Authority} (h : a.Valid literal) :
    ∀ c ∈ glue ':' a.host a.port, userinfoChar c = true ∨ "%[]".toList.contains c = true := by
  intro c hc
  rcases mem_glue hc with hc | rfl | ⟨p, hp, hc⟩
  · rcases isHost_cases h.host with ⟨x, hx, hchars⟩ | henc
    · rw [hx, List.mem_append, List.mem_cons, List.mem_singleton] at hc
      rcases hc with (rfl | hc) | rfl
      · exact .inr (by decide)
      · exact .inl (hchars c hc)
      · exact .inr (by decide)
    · rcases encodedFrom_chars henc c hc with hc | rfl | hc
      · exact .inl (by rw [userinfoChar, hc, Bool.true_or])
      · exact .inr (by decide)
      · exact .inl (userinfoChar_of_isHex hc)
  · exact .inl (by decide)
  · refine .inl ?_
    have hdigit := List.all_eq_true.mp (h.port p hp) c hc
    simp [userinfoChar, regNameChar, unreserved, Char.isAlphanum, hdigit]

/-- The characters of an authority; there is no slash among them. -/
theorem Authority.Valid.chars_ne {a : Authority} (h : a.Valid literal) :
    ∀ c ∈ a.text, hierChar c = true ∧ c ≠ '/' := by
  have huserinfo : ∀ {c : Char}, userinfoChar c = true → hierChar c = true ∧ c ≠ '/' := by
    intro c hc
    refine ⟨hierChar_of_pathChar (pathChar_of_userinfoChar hc), ?_⟩
    rintro rfl
    exact absurd hc (by decide)
  intro c hc
  rcases List.mem_append.mp hc with hc | hc
  · cases hu : a.userinfo with
    | none =>
        rw [hu] at hc
        cases hc
    | some u =>
        rw [hu, before, List.mem_append, List.mem_singleton] at hc
        rcases hc with hc | rfl
        · rcases encodedFrom_chars (h.userinfo u hu) c hc with hc | rfl | hc
          · exact huserinfo hc
          · decide
          · exact huserinfo (userinfoChar_of_isHex hc)
        · decide
  · rcases h.hostPort_chars c hc with hc | hc
    · exact huserinfo hc
    · refine ⟨by rw [hierChar, hc, Bool.or_true], ?_⟩
      rintro rfl
      exact absurd hc (by decide)

theorem Authority.Valid.chars {a : Authority} (h : a.Valid literal) :
    ∀ c ∈ a.text, hierChar c = true := fun c hc => (h.chars_ne c hc).1

theorem splitAuthority_text {a : Authority} (h : a.Valid literal) : splitAuthority a.text = a := by
  have huser : splitUserinfo a.text = (a.userinfo, glue ':' a.host a.port) := by
    rw [Authority.text]
    cases hu : a.userinfo with
    | none =>
        have hat : '@' ∉ glue ':' a.host a.port :=
          fun hmem => absurd (h.hostPort_chars '@' hmem) (by decide)
        show splitUserinfo (glue ':' a.host a.port) = _
        rw [splitUserinfo, cut_of_notMem hat]
    | some u => exact splitUserinfo_of_some (h.userinfo u hu) _
  rw [splitAuthority, huser, splitHost_glue h.host]

theorem splitPath_append {x y : Text} (hx : '/' ∉ x) (hy : y = [] ∨ ∃ t, y = '/' :: t) :
    splitPath (x ++ y) = (x, y) := by
  have hall : ∀ c ∈ x, decide (c ≠ '/') = true := by
    intro c hc
    exact decide_eq_true fun heq => hx (heq ▸ hc)
  rw [splitPath, List.takeWhile_append_of_pos hall, List.dropWhile_append_of_pos hall]
  rcases hy with rfl | ⟨t, rfl⟩
  · simp
  · simp

namespace Components

theorem Valid.splitHier_rest (h : c.Valid literal) :
    splitHier (c.authorityText ++ c.path) = (c.authority, c.path) := by
  rw [authorityText]
  cases ha : c.authority with
  | none =>
      have hplain := h.plain ha
      show splitHier c.path = _
      unfold splitHier
      split
      · rename_i t hpath
        rw [hpath] at hplain
        exact absurd rfl hplain
      · rfl
  | some a =>
      have hvalid := h.authority a ha
      have hpath := h.absolute (by rw [ha]; exact Option.some_ne_none a)
      show splitHier ('/' :: '/' :: (a.text ++ c.path)) = _
      rw [splitHier, splitPath_append (fun hmem => (hvalid.chars_ne '/' hmem).2 rfl) hpath,
        splitAuthority_text hvalid]

/-- A slash comes before any colon. -/
theorem splitScheme_of_slash {s : Text} (h : ∀ x y, cut ':' s = (x, some y) → '/' ∈ x) :
    splitScheme s = (none, s) := by
  unfold splitScheme
  split
  · rfl
  · rename_i x y hcut
    exact if_pos (h x y hcut)

theorem Valid.splitScheme_hier (h : c.Valid literal) :
    splitScheme c.hier = (c.scheme, c.authorityText ++ c.path) := by
  rw [hier]
  cases hs : c.scheme with
  | some s => exact splitScheme_of_some (h.scheme s hs) _
  | none =>
      refine splitScheme_of_slash fun x y hcut => ?_
      rw [authorityText] at hcut
      cases ha : c.authority with
      | some a =>
          rw [ha] at hcut
          obtain ⟨rfl, -⟩ := Prod.mk.inj hcut
          exact List.mem_cons_self
      | none =>
          replace hcut : cut ':' c.path = (x, some y) := by
            rw [ha] at hcut
            exact hcut
          have hpath := glue_cut ':' c.path
          rw [hcut] at hpath
          by_contra hx
          refine h.relative hs ha ?_
          rw [← hpath, glue, cut_append hx]
          exact List.mem_append_right _ List.mem_cons_self

/-- The characters of the hierarchical part. -/
theorem Valid.hier_chars (h : c.Valid literal) : ∀ d ∈ c.hier, hierChar d = true := by
  intro d hd
  rw [hier, List.mem_append, List.mem_append] at hd
  rcases hd with hd | hd | hd
  · cases hs : c.scheme with
    | none =>
        rw [hs] at hd
        cases hd
    | some s =>
        rw [hs, before, List.mem_append, List.mem_singleton] at hd
        rcases hd with hd | rfl
        · exact hierChar_of_pathChar
            (pathChar_of_schemeChar (schemeChar_of_isScheme (h.scheme s hs) d hd))
        · decide
  · rw [authorityText] at hd
    cases ha : c.authority with
    | none =>
        rw [ha] at hd
        cases hd
    | some a =>
        rw [ha] at hd
        simp only [List.mem_cons] at hd
        rcases hd with rfl | rfl | hd
        · decide
        · decide
        · exact (h.authority a ha).chars d hd
  · exact hierChar_of_encoded h.path (fun hd => hd) d hd

/-- A query and a fragment begin outside of the hierarchical part. -/
theorem Valid.notMem_hier (h : c.Valid literal) {d : Char} (hd : hierChar d = false) :
    d ∉ c.hier := by
  intro hmem
  rw [h.hier_chars d hmem] at hd
  cases hd

theorem Valid.text_chars (h : c.Valid literal) :
    ∀ d ∈ c.text, hierChar d = true ∨ d = '?' ∨ d = '#' := by
  have htail : ∀ {t : Text}, encoded queryChar t = true → ∀ d ∈ t, hierChar d = true ∨ d = '?' := by
    intro t ht d hd
    rcases encodedFrom_chars ht d hd with hd | rfl | hd
    · rw [queryChar, Bool.or_eq_true, beq_iff_eq] at hd
      exact hd.imp_left hierChar_of_pathChar
    · exact .inl (by decide)
    · exact .inl (hierChar_of_pathChar (pathChar_of_isHex hd))
  intro d hd
  rcases mem_glue hd with hd | hd | ⟨f, hf, hd⟩
  · rcases mem_glue hd with hd | hd | ⟨q, hq, hd⟩
    · exact .inl (h.hier_chars d hd)
    · exact .inr (.inl hd)
    · exact (htail (h.query q hq) d hd).imp_right .inl
  · exact .inr (.inr hd)
  · exact (htail (h.fragment f hf) d hd).imp_right .inl

/-- There is no fragment mark before the fragment. -/
theorem Valid.cut_fragment (h : c.Valid literal) :
    cut '#' c.text = (glue '?' c.hier c.query, c.fragment) := by
  refine cut_glue (fun hmem => ?_) c.fragment
  rcases mem_glue hmem with hmem | hmem | ⟨q, hq, hmem⟩
  · exact h.notMem_hier (by decide) hmem
  · exact absurd hmem (by decide)
  · exact notMem_of_encoded (h.query q hq) (by decide) (by decide) (by decide) hmem

theorem Valid.cut_query (h : c.Valid literal) :
    cut '?' (glue '?' c.hier c.query) = (c.hier, c.query) :=
  cut_glue (h.notMem_hier (by decide)) c.query

/-- The components of a valid text are found. -/
theorem Valid.split_text (h : c.Valid literal) : split c.text = c := by
  rw [split, h.cut_fragment, h.cut_query, h.splitScheme_hier, h.splitHier_rest]

/-- Query and fragment are valid or not by themselves. -/
theorem Valid.withTail (h : c.Valid literal) {q f : Option Text}
    (hq : ∀ t ∈ q, encoded queryChar t = true) (hf : ∀ t ∈ f, encoded queryChar t = true) :
    ({ c with query := q, fragment := f } : Components).Valid literal :=
  { h with query := hq, fragment := hf }

/-- A valid text is valid up to any question mark. -/
theorem Valid.exists_of_append (h : c.Valid literal) {s t : Text} (htext : c.text = s ++ '?' :: t) :
    ∃ c' : Components, c'.Valid literal ∧ c'.text = s := by
  have hcut := h.cut_fragment
  have hs := glue_cut '#' s
  have hs' := notMem_cut '#' s
  rw [htext] at hcut
  cases hmark : (cut '#' s).2 with
  | some f =>
      -- the question mark is in the fragment
      rw [hmark] at hs
      rw [← hs, glue, List.append_assoc, List.cons_append] at hcut
      obtain ⟨hfront, hfragment⟩ := Prod.mk.inj
        ((cut_glue hs' (some (f ++ '?' :: t))).symm.trans hcut)
      have henc := h.fragment _ hfragment.symm
      rw [encoded_append (by decide) (by decide), Bool.and_eq_true] at henc
      refine ⟨{ c with fragment := some f }, h.withTail h.query ?_, ?_⟩
      · intro t ht
        cases ht
        exact henc.1
      · show glue '#' (glue '?' c.hier c.query) (some f) = s
        rw [← hfront]
        exact hs
  | none =>
      rw [hmark] at hs
      have hnone : '#' ∉ s := hs ▸ hs'
      rw [cut_append hnone] at hcut
      have hfront : s ++ '?' :: (cut '#' t).1 = glue '?' c.hier c.query := (Prod.mk.inj hcut).1
      have hcut' := h.cut_query
      have hq := glue_cut '?' s
      have hq' := notMem_cut '?' s
      rw [← hfront] at hcut'
      cases hmark' : (cut '?' s).2 with
      | some q =>
          -- the question mark is in the query
          rw [hmark'] at hq
          rw [← hq, glue, List.append_assoc, List.cons_append] at hcut'
          obtain ⟨hhier, hquery⟩ := Prod.mk.inj
            ((cut_glue hq' (some (q ++ '?' :: (cut '#' t).1))).symm.trans hcut')
          have henc := h.query _ hquery.symm
          rw [encoded_append (by decide) (by decide), Bool.and_eq_true] at henc
          refine ⟨{ c with query := some q, fragment := none }, h.withTail ?_ (by simp), ?_⟩
          · intro t ht
            cases ht
            exact henc.1
          · show glue '?' c.hier (some q) = s
            rw [← hhier]
            exact hq
      | none =>
          rw [hmark'] at hq
          have hnone' : '?' ∉ s := hq ▸ hq'
          have hhier : s = c.hier :=
            (Prod.mk.inj ((cut_glue hnone' (some (cut '#' t).1)).symm.trans hcut')).1
          exact ⟨{ c with query := none, fragment := none }, h.withTail (by simp) (by simp),
            hhier.symm⟩

/-- A valid text has one reading. -/
theorem Valid.eq_of_text {c' : Components} (h : c.Valid literal) (h' : c'.Valid literal)
    (htext : c.text = c'.text) : c = c' := by
  rw [← h.split_text, htext, h'.split_text]

instance (a : Authority) : Decidable (a.Valid literal) :=
  decidable_of_iff ((∀ u ∈ a.userinfo, encoded userinfoChar u = true) ∧
    isHost literal a.host = true ∧ ∀ p ∈ a.port, p.all Char.isDigit = true)
    ⟨fun ⟨hu, hh, hp⟩ => ⟨hu, hh, hp⟩, fun h => ⟨h.userinfo, h.host, h.port⟩⟩

/-- The path starts with a slash. -/
instance (t : Text) : Decidable (∃ s, t = '/' :: s) :=
  decidable_of_iff (t.head? = some '/') ⟨fun h => by cases t <;> simp_all, by rintro ⟨s, rfl⟩; rfl⟩

instance (c : Components) : Decidable (c.Valid literal) :=
  decidable_of_iff ((∀ s ∈ c.scheme, isScheme s = true) ∧ (∀ a ∈ c.authority, a.Valid literal) ∧
    encoded pathChar c.path = true ∧
    (c.authority ≠ none → c.path = [] ∨ ∃ t, c.path = '/' :: t) ∧
    (c.authority = none → c.path.take 2 ≠ "//".toList) ∧
    (c.scheme = none → c.authority = none → ':' ∉ (cut '/' c.path).1) ∧
    (∀ q ∈ c.query, encoded queryChar q = true) ∧
    ∀ f ∈ c.fragment, encoded queryChar f = true)
    ⟨fun ⟨h₁, h₂, h₃, h₄, h₅, h₆, h₇, h₈⟩ => ⟨h₁, h₂, h₃, h₄, h₅, h₆, h₇, h₈⟩,
      fun h => ⟨h.scheme, h.authority, h.path, h.absolute, h.plain, h.relative, h.query,
        h.fragment⟩⟩

end Components

/-- The components of a URI reference. -/
def parse (literal : Text → Bool) (s : Text) : Option Components :=
  if (split s).Valid literal then some (split s) else none

theorem parse_eq_some {s : Text} : parse literal s = some c ↔ c.Valid literal ∧ c.text = s := by
  unfold parse
  constructor
  · intro h
    split_ifs at h with hvalid
    cases h
    exact ⟨hvalid, text_split s⟩
  · rintro ⟨hvalid, rfl⟩
    rw [hvalid.split_text, if_pos hvalid]

end Rfc3986

end Framework
