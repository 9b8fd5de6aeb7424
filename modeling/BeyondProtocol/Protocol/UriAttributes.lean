import BeyondProtocol.Framework.FormQuery
import BeyondProtocol.Protocol.UriParse

/-!
# The attributes of a URI and its query

The attributes are the items of the query, the last of each key. `getQuery` writes them out
without encoding, so only plain attributes are read back.
-/

namespace BeyondProtocol

open Framework Rfc3986 FormQuery

/-! ## §1  Maps of lists -/

section Maps

variable {α β : Type} {cmp : α → α → Ordering} [Std.TransCmp cmp] [Std.LawfulEqCmp cmp]

theorem nodup_toList (m : Std.ExtTreeMap α β cmp) : m.toList.Nodup := by
  refine m.distinct_keys_toList.imp fun {x y} hne heq => hne ?_
  rw [heq]
  exact Std.ReflCmp.compare_self

theorem mem_toList_of_insertMany {xs : List (α × β)} {m : Std.ExtTreeMap α β cmp} {x : α × β}
    (h : x ∈ (m.insertMany xs).toList) : x ∈ xs ∨ x ∈ m.toList := by
  induction xs generalizing m with
  | nil => exact .inr h
  | cons y xs ih =>
      rw [Std.ExtTreeMap.insertMany_cons] at h
      rcases ih h with hx | hx
      · exact .inl (List.mem_cons_of_mem y hx)
      · rw [Std.ExtTreeMap.mem_toList_iff_getElem?_eq_some, Std.ExtTreeMap.getElem?_insert] at hx
        split_ifs at hx with hkey
        · refine .inl (List.mem_cons.mpr (.inl ?_))
          exact Prod.ext (Std.LawfulEqCmp.eq_of_compare hkey).symm (Option.some.inj hx).symm
        · exact .inr (Std.ExtTreeMap.mem_toList_iff_getElem?_eq_some.mpr hx)

/-- Entries of the map of a list are in the list. -/
theorem mem_of_mem_ofList {xs : List (α × β)} {x : α × β}
    (h : x ∈ (Std.ExtTreeMap.ofList xs cmp).toList) : x ∈ xs := by
  rw [Std.ExtTreeMap.ofList_eq_insertMany_empty] at h
  rcases mem_toList_of_insertMany h with h | h
  · exact h
  · rw [Std.ExtTreeMap.toList_eq_nil_iff.mpr rfl] at h
    cases h

theorem ofList_toList (m : Std.ExtTreeMap α β cmp) : Std.ExtTreeMap.ofList m.toList cmp = m := by
  refine Std.ExtTreeMap.ext_getElem? fun k => ?_
  cases hk : m[k]? with
  | some v =>
      exact Std.ExtTreeMap.getElem?_ofList_of_mem Std.ReflCmp.compare_self m.distinct_keys_toList
        (Std.ExtTreeMap.mem_toList_iff_getElem?_eq_some.mpr hk)
  | none =>
      cases hv : (Std.ExtTreeMap.ofList m.toList cmp)[k]? with
      | none => rfl
      | some v =>
          have hmem := mem_of_mem_ofList (Std.ExtTreeMap.mem_toList_iff_getElem?_eq_some.mpr hv)
          rw [Std.ExtTreeMap.mem_toList_iff_getElem?_eq_some, hk] at hmem
          cases hmem

end Maps

namespace URI

/-! ## §2  From the query -/

theorem foldlM_addItem {items : List (Text × Option Text)} {m₀ m : Attributes} :
    items.foldlM addItem m₀ = .ok m ↔ ∃ xs : List (Text × Text),
      items = xs.map (fun x => (x.1, some x.2)) ∧
      m = m₀.insertMany (xs.map fun x => (cString x.1, cString x.2)) := by
  induction items generalizing m₀ with
  | nil =>
      constructor
      · intro h
        exact ⟨[], rfl, (Except.ok.inj h).symm⟩
      · rintro ⟨xs, hxs, rfl⟩
        rw [List.map_eq_nil_iff.mp hxs.symm]
        rfl
  | cons item items ih =>
      obtain ⟨key, value⟩ := item
      rw [List.foldlM_cons]
      cases value with
      | none =>
          constructor
          · intro h
            cases h
          · rintro ⟨xs, hxs, -⟩
            cases xs with
            | nil => cases hxs
            | cons x xs => exact absurd (congrArg Prod.snd (List.cons.inj hxs).1) (by simp)
      | some value =>
          show List.foldlM _ (m₀.insert (cString key) (cString value)) items = _ ↔ _
          rw [ih]
          constructor
          · rintro ⟨xs, rfl, rfl⟩
            exact ⟨(key, value) :: xs, rfl, (Std.ExtTreeMap.insertMany_cons).symm⟩
          · rintro ⟨xs, hxs, rfl⟩
            cases xs with
            | nil => cases hxs
            | cons x xs =>
                obtain ⟨hx, hrest⟩ := List.cons.inj hxs
                obtain ⟨hkey, hvalue⟩ := Prod.mk.inj hx
                rw [hkey, Option.some.inj hvalue]
                exact ⟨xs, hrest, Std.ExtTreeMap.insertMany_cons⟩

/-- Every item of a query has a value, and the last one of each key counts. -/
theorem attributesOf_eq_ok {items : List (Text × Option Text)} {m : Attributes} :
    attributesOf items = .ok m ↔ ∃ xs : List (Text × Text),
      items = xs.map (fun x => (x.1, some x.2)) ∧
      m = Std.ExtTreeMap.ofList (xs.map fun x => (cString x.1, cString x.2)) := by
  simp only [Std.ExtTreeMap.ofList_eq_insertMany_empty]
  exact foldlM_addItem

/-! ## §3  Back into a query -/

theorem getQuery_eq (u : URI) : u.getQuery = queryText u.qmap.toList := by
  have hfold : ∀ (xs : List (Text × Text)) (q : Text), q ≠ [] →
      xs.foldl (fun (q : Text) x =>
        (if 0 < q.length then q ++ ['&'] else q) ++ (x.1 ++ '=' :: x.2)) q =
      ['&'].intercalate (q :: xs.map entryText) := by
    intro xs
    induction xs with
    | nil => simp
    | cons x xs ih =>
        intro q hq
        rw [List.foldl_cons, if_pos (List.length_pos_iff.mpr hq), ih _ (by simp), List.map_cons]
        cases xs with
        | nil => simp [entryText]
        | cons y xs => simp [entryText]
  rw [getQuery, queryText]
  cases u.qmap.toList with
  | nil => rfl
  | cons x xs =>
      rw [List.foldl_cons]
      exact hfold xs _ (by simp)

theorem cString_front (t : Text) : cString t <+: t := List.takeWhile_prefix _

theorem cString_of_plain {t : Text} (h : ∀ c ∈ t, plainChar c = true) : cString t = t := by
  refine cString_eq fun d hd hzero => ?_
  have hplain := h d hd
  rw [hzero] at hplain
  exact absurd hplain (by decide)

/-- Plain items are read back. -/
theorem attributesOf_queryText {xs : List (Text × Text)} (h : ∀ x ∈ xs, Plain x) :
    attributesOf (dissect (queryText xs)) = .ok (.ofList xs) := by
  rw [attributesOf_eq_ok]
  refine ⟨xs, dissect_queryText h, ?_⟩
  have hsame : xs.map (fun x => (cString x.1, cString x.2)) = xs := by
    rw [List.map_congr_left (g := id), List.map_id]
    intro x hx
    exact Prod.ext (cString_of_plain fun c hc => ((h x hx).1 c hc).1) (cString_of_plain (h x hx).2)
  rw [hsame]

/-- Attributes that are read back from a part of their query are plain. -/
theorem plain_of_attributesOf {m : Attributes} (hm : m ≠ ∅) {q : Text}
    (hfront : q <+: queryText m.toList) (henc : encoded queryChar q = true)
    (h : attributesOf (dissect q) = .ok m) :
    q = queryText m.toList ∧ ∀ x ∈ m.toList, Plain x := by
  obtain ⟨xs, hitems, hmap⟩ := attributesOf_eq_ok.mp h
  refine plain_of_dissect cString_front (nodup_toList m) ?_ hfront henc hitems fun x hx => ?_
  · rwa [Ne, Std.ExtTreeMap.toList_eq_nil_iff]
  · rw [hmap] at hx
    exact mem_of_mem_ofList hx

end URI

/-! ## §4  The library -/

/-- A URI library that does what is assumed of it. No text is an IP address for it. -/
def rfcEnv : UriEnv where
  cwd := none
  home := none
  parseUri s := (Rfc3986.parse (fun _ => false) s).map rangesOf
  dissectQuery := dissect

theorem rfcEnv_rfc : rfcEnv.Rfc fun _ => false := fun _ => rfl

end BeyondProtocol
