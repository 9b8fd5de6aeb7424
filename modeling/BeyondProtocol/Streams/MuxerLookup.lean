import BeyondProtocol.Protocol.UriBase
import BeyondProtocol.Streams.MuxerMaps

/-!
# Looking a frame up by URI (`muxer.cpp`)

The frames of a child stream can be looked up by the stream, by its URI, or by a URI with the frame
in its query. The last looks for a stream with the whole text, query and all, as its URI.
-/

namespace BeyondProtocol

open Framework Rfc3986 FormQuery

namespace Muxer

variable {σ : Type}

/-! ## §1  The source -/

/-- The first entry of a stream with this URI property. -/
def findUri (uriOf : σ → Except Fault Text) (uri : Text) :
    List (StreamEntry σ) → Except Fault (Option (StreamEntry σ))
  | [] => .ok none
  | e :: es => do
      let property ← uriOf e.stream
      if property = uri then return some e else findUri uriOf uri es

/-- `findLocal(uri, remote)` -/
def findLocalUri (m : Muxer σ) (uriOf : σ → Except Fault Text) (uri : Text) (remote : FrameID) :
    Except Fault FrameID := do
  match ← findUri uriOf uri m.streams with
  | some e => m.findInput e remote
  | none => .error .thrown

/-- An `int` as an `unsigned int`. -/
def unsignedInt (i : Int) : Nat := (i % 2 ^ 32).toNat

/-- A number in the query, 0 if it is missing. -/
def component (u : URI) (key : Text) : Except Fault Int :=
  if u.hasAttribute key then (u.getAttributeInt key).mapError fun _ => .thrown else .ok 0

/-- `findLocal(uri)` -/
def findLocalQuery (m : Muxer σ) (uriOf : σ → Except Fault Text) (env : UriEnv) (uri : Text) :
    Except Fault FrameID := do
  let u ← URI.parse env uri
  let fsid ← component u "set".toList
  let fid ← component u "frame".toList
  m.findLocalUri uriOf uri (FrameID.ofPair (unsignedInt fsid) (unsignedInt fid))

/-! ## §2  Queries -/

/-- The text of a number. -/
def numberText (a : Nat) : Text := a.repr.toList

def queryItems (set frame : Option Nat) : List (Text × Text) :=
  set.toList.map (fun a => ("set".toList, numberText a)) ++
    frame.toList.map fun b => ("frame".toList, numberText b)

/-- A base with the given components behind it. -/
def queryUri (base : Text) (set frame : Option Nat) : Text :=
  if queryItems set frame = [] then base else base ++ '?' :: queryText (queryItems set frame)

theorem numberText_digits (a : Nat) : ∀ c ∈ numberText a, c.isDigit = true := by
  intro c hc
  rw [numberText, Nat.toList_repr] at hc
  exact Nat.isDigit_of_mem_toDigits (by decide) (by decide) hc

theorem stoi_numberText {a : Nat} (h : a < 2147483648) : stoi (numberText a) = .ok a := by
  have hvalue : digitsValue (numberText a) = a := by
    rw [numberText, Nat.toList_repr]
    exact Nat.ofDigitChars_toDigits (by decide) (by decide)
  have hne : numberText a ≠ [] := by
    rw [numberText, Nat.toList_repr]
    exact Nat.toDigits_ne_nil
  rw [URI.stoi_of_digits hne (List.all_eq_true.mpr (numberText_digits a)), hvalue, if_pos h]

theorem plain_queryItems (set frame : Option Nat) : ∀ x ∈ queryItems set frame, Plain x := by
  have hnumber : ∀ a, ∀ c ∈ numberText a, plainChar c = true := by
    intro a c hc
    have hdigit := numberText_digits a c hc
    have hne : c ≠ '&' ∧ c ≠ '+' := by
      refine ⟨?_, ?_⟩
      · rintro rfl
        cases hdigit
      · rintro rfl
        cases hdigit
    simp [plainChar, queryChar, pathChar, pchar, userinfoChar, regNameChar, unreserved,
      Char.isAlphanum, hdigit, hne]
  intro x hx
  rw [queryItems, List.mem_append, List.mem_map, List.mem_map] at hx
  rcases hx with ⟨a, -, rfl⟩ | ⟨b, -, rfl⟩
  · have hkey : ∀ c ∈ "set".toList, plainChar c = true ∧ c ≠ '=' := plainKey_of_all (by decide)
    exact ⟨hkey, hnumber a⟩
  · have hkey : ∀ c ∈ "frame".toList, plainChar c = true ∧ c ≠ '=' := plainKey_of_all (by decide)
    exact ⟨hkey, hnumber b⟩

theorem component_eq {u : URI} {key : Text} {v : Option Nat} (h : u.qmap[key]? = v.map numberText)
    (hv : ∀ a ∈ v, a < 2147483648) : component u key = .ok (v.getD 0 : Nat) := by
  have hhas : u.hasAttribute key = v.isSome := by
    rw [URI.hasAttribute, Std.ExtTreeMap.contains_eq_isSome_getElem?, h, Option.isSome_map]
  rw [component, hhas]
  cases v with
  | none => rfl
  | some a =>
      rw [Option.map_some] at h
      rw [Option.isSome_some, if_pos rfl, URI.getAttributeInt, h]
      simp only [stoi_numberText (hv a rfl)]
      rfl

theorem getElem?_ofList_pair {k₁ k₂ : Text} (hne : k₁ ≠ k₂) (x y : Option Text) :
    (.ofList (x.toList.map (k₁, ·) ++ y.toList.map (k₂, ·)) : Attributes)[k₁]? = x ∧
    (.ofList (x.toList.map (k₁, ·) ++ y.toList.map (k₂, ·)) : Attributes)[k₂]? = y := by
  have hcmp : compare k₁ k₂ ≠ .eq := fun h => hne (Std.LawfulEqCmp.eq_of_compare h)
  have hcmp' : compare k₂ k₁ ≠ .eq := fun h => hne (Std.LawfulEqCmp.eq_of_compare h).symm
  cases x with
  | none => cases y <;> simp [hcmp']
  | some v =>
      cases y with
      | none => simp [hcmp]
      | some w =>
          have hmap : (.ofList ((some v).toList.map (k₁, ·) ++ (some w).toList.map (k₂, ·)) :
              Attributes) = ((∅ : Attributes).insert k₁ v).insert k₂ w := by
            rw [Std.ExtTreeMap.ofList_eq_insertMany_empty]
            rfl
          rw [hmap, Std.ExtTreeMap.getElem?_insert, if_neg hcmp']
          exact ⟨Std.ExtTreeMap.getElem?_insert_self, Std.ExtTreeMap.getElem?_insert_self⟩

theorem getElem?_queryItems (set frame : Option Nat) :
    (.ofList (queryItems set frame) : Attributes)["set".toList]? = set.map numberText ∧
    (.ofList (queryItems set frame) : Attributes)["frame".toList]? = frame.map numberText := by
  have hne : "set".toList ≠ "frame".toList := by decide
  have hpair := getElem?_ofList_pair hne (set.map numberText) (frame.map numberText)
  cases set <;> cases frame <;> exact hpair

theorem unsignedInt_of_lt {a : Nat} (h : a < 2147483648) : unsignedInt a = a := by
  rw [unsignedInt]
  omega

variable {literal : Text → Bool} {env : UriEnv} {uriOf : σ → Except Fault Text} {m : Muxer σ}

/-- The components are read from the query, and a stream is looked for by the whole text. -/
theorem findLocalQuery_eq (henv : env.Rfc literal) (hdissect : env.dissectQuery = dissect)
    {puri : Text} {u : URI} (h : URI.parse env puri = .ok u) (hproto : u.proto ≠ .none)
    (hmark : '?' ∉ u.base) {set frame : Option Nat} (hset : ∀ a ∈ set, a < 2147483648)
    (hframe : ∀ b ∈ frame, b < 2147483648) :
    m.findLocalQuery uriOf env (queryUri u.base set frame) =
      m.findLocalUri uriOf (queryUri u.base set frame)
        (FrameID.ofPair (set.getD 0) (frame.getD 0)) := by
  obtain ⟨b, hb, hbase, hq⟩ := URI.exists_isBase_of_notMem henv h hproto hmark
  obtain ⟨r, hr, hmap⟩ : ∃ r, URI.parse env (queryUri u.base set frame) = .ok r ∧
      r.qmap = .ofList (queryItems set frame) := by
    rw [hbase, queryUri]
    split_ifs with hnone
    · obtain ⟨r, hr, -, hmap⟩ := URI.parse_base henv hb
        (by rw [URI.queryAttributes, hq])
      exact ⟨r, hr, by rw [hmap, hnone]; rfl⟩
    · obtain ⟨r, hr, -, hmap⟩ := URI.parse_query henv hdissect hb hq hnone
        (plain_queryItems set frame)
      exact ⟨r, hr, hmap⟩
  obtain ⟨hfirst, hsecond⟩ := getElem?_queryItems set frame
  rw [← hmap] at hfirst hsecond
  rw [findLocalQuery, hr, ok_bind, component_eq hfirst hset, ok_bind, component_eq hsecond hframe,
    ok_bind, unsignedInt_of_lt, unsignedInt_of_lt]
  · cases frame with
    | none => decide
    | some b => exact hframe b rfl
  · cases set with
    | none => decide
    | some a => exact hset a rfl

/-! ## §3  The lookups agree -/

/-- The first entry whose stream has this URI property. Those before it have another one, so that
none of them ends the search with an exception. -/
def FirstWith (uriOf : σ → Except Fault Text) (uri : Text) (es : List (StreamEntry σ))
    (e : StreamEntry σ) : Prop :=
  ∃ pre post, es = pre ++ e :: post ∧ (∀ e' ∈ pre, ∃ t, uriOf e'.stream = .ok t ∧ t ≠ uri) ∧
    uriOf e.stream = .ok uri

theorem FirstWith.mem {uri : Text} {es : List (StreamEntry σ)} {e : StreamEntry σ}
    (h : FirstWith uriOf uri es e) : e ∈ es := by
  obtain ⟨pre, post, rfl, -⟩ := h
  simp

theorem findUri_eq_some {uri : Text} {es : List (StreamEntry σ)} {e : StreamEntry σ} :
    findUri uriOf uri es = .ok (some e) ↔ FirstWith uriOf uri es e := by
  constructor
  · intro h
    induction es with
    | nil => cases h
    | cons e' es ih =>
        obtain ⟨t, ht, h⟩ := bind_eq_ok.mp h
        split_ifs at h with heq
        · cases h
          exact ⟨[], es, rfl, nofun, heq ▸ ht⟩
        · obtain ⟨pre, post, rfl, hpre, he⟩ := ih h
          exact ⟨e' :: pre, post, rfl, List.forall_mem_cons.mpr ⟨⟨t, ht, heq⟩, hpre⟩, he⟩
  · rintro ⟨pre, post, rfl, hpre, he⟩
    induction pre with
    | nil =>
        rw [List.nil_append, findUri, he, ok_bind, if_pos rfl]
        rfl
    | cons e' pre ih =>
        obtain ⟨⟨t, ht, hne⟩, hpre⟩ := List.forall_mem_cons.mp hpre
        rw [List.cons_append, findUri, ht, ok_bind, if_neg hne, ih hpre]

theorem findInput_eq_ok {e : StreamEntry σ} {remote l : FrameID} :
    m.findInput e remote = .ok l ↔ m.imap (iid e.id remote) = some l := by
  unfold findInput
  cases m.imap (iid e.id remote) <;> simp

theorem findLocalUri_eq_ok {uri : Text} {remote l : FrameID} :
    m.findLocalUri uriOf uri remote = .ok l ↔
      ∃ e, FirstWith uriOf uri m.streams e ∧ m.imap (iid e.id remote) = some l := by
  rw [findLocalUri, bind_eq_ok]
  constructor
  · rintro ⟨e, he, h⟩
    cases e with
    | none => cases h
    | some e => exact ⟨e, findUri_eq_some.mp he, findInput_eq_ok.mp h⟩
  · rintro ⟨e, he, h⟩
    exact ⟨some e, findUri_eq_some.mpr he, findInput_eq_ok.mpr h⟩

theorem queryUri_ne {base : Text} (hmark : '?' ∉ base) {set frame : Option Nat}
    (h : ¬ (set = none ∧ frame = none)) : queryUri base set frame ≠ base := by
  have hsome : queryItems set frame ≠ [] := by
    cases set with
    | some a => exact List.cons_ne_nil _ _
    | none =>
        cases frame with
        | some b => exact List.cons_ne_nil _ _
        | none => exact absurd ⟨rfl, rfl⟩ h
  rw [queryUri, if_neg hsome]
  intro heq
  apply hmark
  rw [← heq]
  exact List.mem_append_right _ List.mem_cons_self

variable [DecidableEq σ]

/-- The two lookups by URI give what the lookup by stream gives. -/
def LookupsAgree (m : Muxer σ) (uriOf : σ → Except Fault Text) (env : UriEnv) (base : Text)
    (set frame : Option Nat) (s : σ) : Prop :=
  let remote := FrameID.ofPair (set.getD 0) (frame.getD 0)
  m.findLocalQuery uriOf env (queryUri base set frame) = m.findLocal s remote ∧
    m.findLocalUri uriOf base remote = m.findLocal s remote

/-- A mapped frame of a stream is found by stream, by URI and by the query of the URI alike
exactly if nothing is asked for in the query and no stream listed before has the URI too. That is
so unless another stream has the frame at the same local id; then that one may stand in for it. -/
theorem findLocal_agree_iff (henv : env.Rfc literal) (hdissect : env.dissectQuery = dissect)
    {puri : Text} {u : URI} (h : URI.parse env puri = .ok u) (hproto : u.proto ≠ .none)
    (hmark : '?' ∉ u.base) {set frame : Option Nat} (hset : ∀ a ∈ set, a < 2147483648)
    (hframe : ∀ b ∈ frame, b < 2147483648) {s : σ} {own : StreamEntry σ} {l : FrameID}
    (hentry : m.findEntry s = some own) (huri : uriOf s = .ok u.base)
    (hmapped : m.imap (iid own.id (FrameID.ofPair (set.getD 0) (frame.getD 0))) = some l) :
    ((∀ e ∈ m.streams, e ≠ own →
        m.imap (iid e.id (FrameID.ofPair (set.getD 0) (frame.getD 0))) ≠ some l) →
      (LookupsAgree m uriOf env u.base set frame s ↔
        (set = none ∧ frame = none) ∧ FirstWith uriOf u.base m.streams own)) ∧
    (LookupsAgree m uriOf env u.base set frame s ↔
      (∃ e, FirstWith uriOf u.base m.streams e ∧
        m.imap (iid e.id (FrameID.ofPair (set.getD 0) (frame.getD 0))) = some l) ∧
      (set = none ∧ frame = none ∨
        ∃ e, FirstWith uriOf (queryUri u.base set frame) m.streams e ∧
          m.imap (iid e.id (FrameID.ofPair (set.getD 0) (frame.getD 0))) = some l)) := by
  have hfound : m.findLocal s (FrameID.ofPair (set.getD 0) (frame.getD 0)) = .ok l := by
    rw [findLocal, hentry]
    exact findInput_eq_ok.mpr hmapped
  have hall : LookupsAgree m uriOf env u.base set frame s ↔
      (∃ e, FirstWith uriOf u.base m.streams e ∧
        m.imap (iid e.id (FrameID.ofPair (set.getD 0) (frame.getD 0))) = some l) ∧
      (set = none ∧ frame = none ∨
        ∃ e, FirstWith uriOf (queryUri u.base set frame) m.streams e ∧
          m.imap (iid e.id (FrameID.ofPair (set.getD 0) (frame.getD 0))) = some l) := by
    rw [LookupsAgree, findLocalQuery_eq henv hdissect h hproto hmark hset hframe, hfound,
      findLocalUri_eq_ok, findLocalUri_eq_ok, and_comm]
    refine and_congr_right fun hbase => ⟨.inr, ?_⟩
    rintro (⟨rfl, rfl⟩ | hquery)
    · exact hbase
    · exact hquery
  refine ⟨fun hone => ?_, hall⟩
  -- the only entry that can be met is the stream's own
  have hown : ∀ uri, (∃ e, FirstWith uriOf uri m.streams e ∧
      m.imap (iid e.id (FrameID.ofPair (set.getD 0) (frame.getD 0))) = some l) ↔
        FirstWith uriOf uri m.streams own := by
    intro uri
    constructor
    · rintro ⟨e, he, hmap⟩
      by_contra hnot
      refine hone e he.mem ?_ hmap
      rintro rfl
      exact hnot he
    · exact fun hfirst => ⟨own, hfirst, hmapped⟩
  rw [hall, hown, hown, and_comm]
  refine and_congr_left fun _ => or_iff_left_iff_imp.mpr ?_
  rintro ⟨pre, post, -, -, hquery⟩
  have hstream : own.stream = s := by simpa using List.find?_some hentry
  rw [hstream, huri] at hquery
  by_contra hgiven
  exact queryUri_ne hmark hgiven (Except.ok.inj hquery).symm

/-- No other stream has the frame at the same local id in a run without fixed framesets. -/
theorem mapped_once {es : List (MuxEvent σ)} (run : Runs MuxStep {} es m)
    (hrange : WithinRange es) {own : StreamEntry σ} {remote l : FrameID}
    (hmem : own ∈ m.streams) (hmapped : m.imap (iid own.id remote) = some l) :
    ∀ e ∈ m.streams, e ≠ own → m.imap (iid e.id remote) ≠ some l := by
  intro e he hne hmap
  obtain ⟨h, hids⟩ := mapped_of_run run hrange
  have hsmall : m.streamIds ≤ 2 ^ 15 := by
    rw [hids]
    exact hrange.added.le
  have hsame := (h.bijective hsmall hrange.framesets).distinct e he own hmem remote remote l hmap
    hmapped
  exact hne hsame.1

/-- A muxer with one stream, whose frame 0 of frameset 0 was asked for. -/
def oneStream : Muxer Unit :=
  (({} : Muxer Unit).add () (-1)).mapFromInput ⟨0, (), -1⟩ (FrameID.ofPair 0 0) |>.1

theorem findLocal_agree_first : ∃ u, URI.parse rfcEnv "ftl://utu.fi/a".toList = .ok u ∧
    LookupsAgree oneStream (fun _ => .ok u.base) rfcEnv u.base none none () := by
  have hnone : ∀ a ∈ (none : Option Nat), a < 2147483648 := by simp
  have hone : ∀ e ∈ oneStream.streams, e ≠ ⟨0, (), -1⟩ →
      oneStream.imap (iid e.id (FrameID.ofPair 0 0)) ≠ some (FrameID.ofPair 0 0) := by decide
  have hentry : oneStream.findEntry () = some ⟨0, (), -1⟩ := by decide
  have hmapped : oneStream.imap (iid 0 (FrameID.ofPair 0 0)) = some (FrameID.ofPair 0 0) := by
    decide
  refine ⟨_, URI.parse_sampleBase, ((findLocal_agree_iff rfcEnv_rfc rfl URI.parse_sampleBase
    (by decide) (by decide) hnone hnone hentry rfl hmapped).1 hone).mpr ?_⟩
  exact ⟨⟨rfl, rfl⟩, [], [], rfl, nofun, rfl⟩

/-- A frame asked for in the query is not found. -/
theorem query_finds_no_stream : ∃ u, URI.parse rfcEnv "ftl://utu.fi/a".toList = .ok u ∧
    oneStream.findLocal () (FrameID.ofPair 0 0) = .ok (FrameID.ofPair 0 0) ∧
    oneStream.findLocalQuery (fun _ => .ok u.base) rfcEnv (queryUri u.base (some 0) (some 0)) ≠
      oneStream.findLocal () (FrameID.ofPair 0 0) := by
  have hfound : oneStream.findLocal () (FrameID.ofPair 0 0) = .ok (FrameID.ofPair 0 0) := by decide
  refine ⟨_, URI.parse_sampleBase, hfound, fun heq => ?_⟩
  rw [hfound, findLocalQuery_eq rfcEnv_rfc rfl URI.parse_sampleBase (by decide) (by decide)
    (by simp) (by simp), findLocalUri_eq_ok] at heq
  obtain ⟨e, ⟨pre, post, -, -, hquery⟩, -⟩ := heq
  exact queryUri_ne (by decide) (by simp) (Except.ok.inj hquery).symm

end Muxer

end BeyondProtocol
