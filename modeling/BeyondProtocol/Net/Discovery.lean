import Mathlib.Data.List.Count
import BeyondProtocol.Framework.Runs
import BeyondProtocol.Net.Net

/-!
# Finding a stream (`universe.hpp`, `netstream.cpp`)

A client asks every peer at once who offers a stream (`findOne` with `find_stream`) and
takes the first answer, in the order of the slots, that came in time.

A peer answers from `net_streams`, one list for all universes of the process. A host
adds its URI in `begin`. `end` looks for the URI of the stream that ends and takes it
out, whether or not this stream had put it there.
-/

namespace BeyondProtocol

namespace Discovery

open Framework

/-! ## §1  Asking the peers -/

section FindOne

variable {ρ : Type}

/-- A slot of `peers_`: whether `waitConnection` succeeds, and the future of the call after its
second of waiting: not ready, an exception, or the `optional` that was answered. -/
structure Callee (ρ : Type) where
  connected : Bool
  future : Option (Except String (Option ρ))

/-- The calls that are made. -/
def futures (peers : List (Option (Callee ρ))) : List (Option (Except String (Option ρ))) :=
  (peers.filterMap fun p => p.filter Callee.connected).map Callee.future

/-- The loop over the futures: `get` on the first that is ready. -/
def firstReady : List (Option (Except String (Option ρ))) → Except String (Option ρ)
  | [] => .ok none
  | none :: fs => firstReady fs
  | some r :: _ => r

/-- `findOne` -/
def findOne (peers : List (Option (Callee ρ))) : Except String (Option ρ) :=
  firstReady (futures peers)

/-- What came in time, in the order of the slots. -/
def answers (peers : List (Option (Callee ρ))) : List (Except String (Option ρ)) :=
  (futures peers).filterMap id

/-- A provider is found if there is one, and no error of a peer gets out. -/
def FindsProvider (peers : List (Option (Callee ρ))) : Prop :=
  ((∃ v, findOne peers = .ok (some v)) ↔ ∃ v, .ok (some v) ∈ answers peers) ∧
    ∀ e, findOne peers ≠ .error e

/-- The first answer speaks for all: it is a value, or an empty one and there is no value. -/
def FirstDecides : List (Except String (Option ρ)) → Prop
  | [] => True
  | .ok (some _) :: _ => True
  | .ok none :: rs => ∀ v, .ok (some v) ∉ rs
  | .error _ :: _ => False

theorem firstReady_eq (fs : List (Option (Except String (Option ρ)))) :
    firstReady fs = (fs.filterMap id).head?.getD (.ok none) := by
  induction fs with
  | nil => rfl
  | cons f fs ih =>
      cases f with
      | none => simpa [firstReady] using ih
      | some r => rfl

/-- **`findOne` finds a provider exactly if the first answer that came in time speaks for all.** -/
theorem finds_provider_iff (peers : List (Option (Callee ρ))) :
    FindsProvider peers ↔ FirstDecides (answers peers) := by
  have hfind : findOne peers = (answers peers).head?.getD (.ok none) := firstReady_eq _
  unfold FindsProvider
  rw [hfind]
  cases hans : answers peers with
  | nil => simp [FirstDecides]
  | cons r rs =>
      cases r with
      | error e => simp [FirstDecides]
      | ok o =>
          cases o with
          | none => simp [FirstDecides]
          | some v => simp [FirstDecides]

/-- The first peer to answer does not know the stream, the second offers it. -/
def unknownThenOffered : List (Option (Callee UUID)) :=
  [some ⟨true, some (.ok none)⟩, some ⟨true, some (.ok (some (.fill 2)))⟩]

theorem empty_answer_hides_provider : ¬ FindsProvider unknownThenOffered := by
  intro h
  obtain ⟨v, hv⟩ := h.1.mpr ⟨.fill 2, List.mem_cons_of_mem _ List.mem_cons_self⟩
  cases hv

end FindOne

/-! ## §2  The streams of a process -/

/-- A `Net` object, with its URI and the universe it was made for. -/
structure StreamObject where
  stream : Net
  uri : String
  /-- `net_` -/
  net : Nat

/-- The stream is offered. -/
def StreamObject.isHosting (o : StreamObject) : Bool := o.stream.host && o.stream.active

structure Process where
  /-- The objects ever made; those that are gone are `none`. -/
  objects : List (Option StreamObject) := []
  /-- `net_streams` -/
  netStreams : List String := []
  /-- The names bound in each universe. -/
  bound : Nat → String → Bool := fun _ _ => false

inductive StreamEvent : Type where
  | create (host : Bool) (uri : String) (net : Nat)
  | begin (i : Nat)
  | endStream (i : Nat)
  | destroy (i : Nat)
deriving DecidableEq, Repr

section

variable (baseURI : String → String)

namespace Process

def setBound (s : Process) (o : StreamObject) (b : Bool) : Nat → String → Bool :=
  Function.update s.bound o.net
    (Function.update (s.bound o.net) (baseURI o.uri) b)

/-- `begin` -/
def beginObject (s : Process) (i : Nat) (o : StreamObject) : Process :=
  let isBound := s.bound o.net (baseURI o.uri)
  if o.stream.active || isBound then s
  else
    { objects := s.objects.set i (some { o with stream := o.stream.beginAt isBound })
      netStreams := if o.stream.host then s.netStreams ++ [o.uri] else s.netStreams
      bound := s.setBound baseURI o true }

/-- `end` -/
def endObject (s : Process) (i : Nat) (o : StreamObject) : Process :=
  if o.stream.active then
    { objects := s.objects.set i (some { o with stream := o.stream.endStream })
      netStreams := s.netStreams.erase o.uri
      bound := s.setBound baseURI o false }
  else s

/-- `~Net` -/
def destroyObject (s : Process) (i : Nat) (o : StreamObject) : Process :=
  let s := s.endObject baseURI i o
  { s with objects := s.objects.set i none }

/-- A call needs an object. -/
def onObject (s : Process) (i : Nat) (f : StreamObject → Process) : Process :=
  match s.objects[i]? with
  | some (some o) => f o
  | _ => s

def handle (s : Process) : StreamEvent → Process
  | .create host uri net =>
      { s with objects := s.objects ++ [some { stream := { host := host }, uri, net }] }
  | .begin i => s.onObject i (s.beginObject baseURI i)
  | .endStream i => s.onObject i (s.endObject baseURI i)
  | .destroy i => s.onObject i (s.destroyObject baseURI i)

/-- The binding of `find_stream` in the universe with this id. -/
def findStream (s : Process) (id : UUID) (uri : String) : Option UUID :=
  if s.netStreams.any fun t => baseURI uri = baseURI t then some id else none

/-- The URI of an object, if it is hosting. -/
def hosted (o : Option StreamObject) : Option String :=
  (o.filter StreamObject.isHosting).map StreamObject.uri

/-- The URIs of the hosts that are active. -/
def activeHosts (s : Process) : List String := s.objects.filterMap hosted

/-- What is published is what is hosted. -/
structure Published (s : Process) : Prop where
  streams : s.netStreams.Perm s.activeHosts
  found : ∀ id uri, (s.findStream baseURI id uri).isSome ↔
    ∃ o, some o ∈ s.objects ∧ o.isHosting = true ∧ baseURI o.uri = baseURI uri

/-- A client does not end while there is a host with its URI. -/
def SafeEnd (s : Process) (i : Nat) : Prop :=
  ∀ o, s.objects[i]? = some (some o) → o.stream.active = true → o.stream.host = false →
    o.uri ∉ s.activeHosts

def Safe (s : Process) : StreamEvent → Prop
  | .endStream i => s.SafeEnd i
  | .destroy i => s.SafeEnd i
  | _ => True

/-! ### What a step does to the two lists -/

/-- Replacing one object replaces what it hosts. -/
theorem count_hosted_set {l : List (Option StreamObject)} {i : Nat} {x : Option StreamObject}
    (h : l[i]? = some x) (y : Option StreamObject) (u : String) :
    ((l.set i y).filterMap hosted).count u + (hosted x).toList.count u =
      (l.filterMap hosted).count u + (hosted y).toList.count u := by
  obtain ⟨hi, hx⟩ := List.getElem?_eq_some_iff.mp h
  obtain ⟨l₁, l₂, hl, -, hset⟩ : ∃ l₁ l₂, l = l₁ ++ l[i] :: l₂ ∧ l₁.length = i ∧
      l.set i y = l₁ ++ y :: l₂ := List.exists_of_set hi
  rw [hset, hl, hx]
  simp only [List.filterMap_append, List.filterMap_cons, List.count_append]
  cases hosted x <;> cases hosted y <;> simp [List.count_cons] <;> omega

theorem mem_activeHosts {s : Process} {u : String} :
    u ∈ s.activeHosts ↔ ∃ o, some o ∈ s.objects ∧ o.isHosting = true ∧ o.uri = u := by
  unfold activeHosts hosted
  rw [List.mem_filterMap]
  constructor
  · rintro ⟨o, ho, hu⟩
    obtain ⟨o', ho', rfl⟩ := Option.map_eq_some_iff.mp hu
    obtain ⟨rfl, hhost⟩ := Option.filter_eq_some_iff.mp ho'
    exact ⟨o', ho, hhost, rfl⟩
  · rintro ⟨o, ho, hhost, rfl⟩
    exact ⟨some o, ho, by simp [hhost]⟩

/-- `find_stream` answers from the list. -/
theorem published_iff {s : Process} :
    s.Published baseURI ↔ s.netStreams.Perm s.activeHosts := by
  refine ⟨fun h => h.streams, fun h => ⟨h, ?_⟩⟩
  intro id uri
  have hany : (s.findStream baseURI id uri).isSome ↔
      ∃ t ∈ s.netStreams, baseURI uri = baseURI t := by
    unfold findStream
    split_ifs with hany
    · simpa using hany
    · simpa using hany
  rw [hany]
  constructor
  · rintro ⟨t, ht, hbase⟩
    obtain ⟨o, ho, hhost, rfl⟩ := mem_activeHosts.mp (h.mem_iff.mp ht)
    exact ⟨o, ho, hhost, hbase.symm⟩
  · rintro ⟨o, ho, hhost, hbase⟩
    exact ⟨o.uri, h.mem_iff.mpr (mem_activeHosts.mpr ⟨o, ho, hhost, rfl⟩), hbase.symm⟩

variable {baseURI}

theorem hosted_some (o : StreamObject) :
    hosted (some o) = if o.isHosting then some o.uri else none := by
  unfold hosted
  by_cases h : o.isHosting = true
  · simp [h]
  · simp [h]

theorem published_begin {s : Process} {i : Nat} {o : StreamObject}
    (ho : s.objects[i]? = some (some o)) (hs : s.Published baseURI) :
    (s.beginObject baseURI i o).Published baseURI := by
  by_cases hno : (o.stream.active || s.bound o.net (baseURI o.uri)) = true
  · simpa only [beginObject, hno, if_true] using hs
  simp only [beginObject, hno]
  simp only [Bool.or_eq_true, not_or, Bool.not_eq_true] at hno
  obtain ⟨hidle, hbound⟩ := hno
  obtain ⟨o', ho'⟩ : ∃ o', o' = { o with stream := o.stream.beginAt false } := ⟨_, rfl⟩
  have hnow : o'.isHosting = o.stream.host := by
    simp only [ho', StreamObject.isHosting, Net.beginAt, Net.begin, hidle]
    cases o.stream.host <;> rfl
  have huri : o'.uri = o.uri := by rw [ho']
  have hwas : o.isHosting = false := by rw [StreamObject.isHosting, hidle, Bool.and_false]
  rw [hbound, ← ho', published_iff, List.perm_iff_count]
  intro u
  have hcount := count_hosted_set ho (some o') u
  have hold := (List.perm_iff_count.mp hs.streams) u
  rw [activeHosts] at hold
  simp only [hosted_some, hnow, huri, hwas, Bool.false_eq_true, if_false, Option.toList_none,
    List.count_nil, Nat.add_zero] at hcount
  show List.count u (if o.stream.host then _ else _) =
    List.count u (List.filterMap hosted (s.objects.set i (some o')))
  rw [hcount, ← hold]
  cases o.stream.host with
  | true => simp
  | false => simp

/-- Ending a stream takes its URI out once. A client never put it there. -/
theorem published_end {s : Process} {i : Nat} {o : StreamObject}
    (ho : s.objects[i]? = some (some o)) (hs : s.Published baseURI) :
    (s.endObject baseURI i o).Published baseURI ↔ s.SafeEnd i := by
  have hsafe : s.SafeEnd i ↔
      (o.stream.active = true → o.stream.host = false → o.uri ∉ s.activeHosts) := by
    unfold SafeEnd
    constructor
    · intro h
      exact h o ho
    · intro h o' ho'
      rw [ho] at ho'
      cases ho'
      exact h
  rw [hsafe]
  unfold endObject
  split_ifs with hactive
  · obtain ⟨o', ho'⟩ : ∃ o', o' = { o with stream := o.stream.endStream } := ⟨_, rfl⟩
    have hnow : o'.isHosting = false := by
      rw [ho', StreamObject.isHosting, Net.endStream, Bool.and_false]
    have hmem : o.uri ∈ s.activeHosts ↔ 0 < s.netStreams.count o.uri := by
      rw [← hs.streams.mem_iff, List.count_pos_iff]
    have hcounts : ∀ u, ((s.objects.set i (some o')).filterMap hosted).count u +
        (if o.stream.host then [o.uri] else []).count u = s.netStreams.count u := by
      intro u
      have hcount := count_hosted_set ho (some o') u
      have hold := (List.perm_iff_count.mp hs.streams) u
      rw [activeHosts] at hold
      have hwas : o.isHosting = o.stream.host := by
        rw [StreamObject.isHosting, hactive, Bool.and_true]
      simp only [hosted_some, hnow, hwas, Bool.false_eq_true, if_false, Option.toList_none,
        List.count_nil] at hcount
      rw [hold, ← Nat.add_zero (List.count u (List.filterMap hosted s.objects)), ← hcount]
      cases o.stream.host <;> simp
    rw [← ho', published_iff, List.perm_iff_count]
    show (∀ u, List.count u (s.netStreams.erase o.uri) =
      List.count u (List.filterMap hosted (s.objects.set i (some o')))) ↔ _
    rw [hmem]
    cases hhost : o.stream.host with
    | true =>
        simp only [hhost, if_true] at hcounts
        refine ⟨fun _ _ h => absurd h (by simp), fun _ u => ?_⟩
        rw [List.count_erase]
        have hu := hcounts u
        rw [List.count_cons, List.count_nil] at hu
        split_ifs at hu ⊢ <;> omega
    | false =>
        simp only [hhost, Bool.false_eq_true, if_false, List.count_nil, Nat.add_zero] at hcounts
        constructor
        · intro h _ _ hpos
          have hu := h o.uri
          rw [hcounts, List.count_erase_self] at hu
          omega
        · intro h u
          have hzero := h hactive rfl
          rw [hcounts, List.count_erase]
          split_ifs with hu
          · have : o.uri = u := by simpa using hu
            subst this
            omega
          · rfl
  · exact ⟨fun _ h => absurd h hactive, fun _ => hs⟩

/-- An object that is not hosting goes unnoticed. -/
theorem published_drop {s : Process} {i : Nat} {o : StreamObject}
    (ho : s.objects[i]? = some (some o)) (hidle : o.isHosting = false) :
    ({ s with objects := s.objects.set i none } : Process).Published baseURI ↔
      s.Published baseURI := by
  rw [published_iff, published_iff, List.perm_iff_count, List.perm_iff_count]
  refine forall_congr' fun u => ?_
  have hcount := count_hosted_set ho none u
  rw [hosted_some, hidle] at hcount
  show _ = List.count u (List.filterMap hosted _) ↔ _ = List.count u (List.filterMap hosted _)
  rw [show List.count u (List.filterMap hosted (s.objects.set i none)) =
    List.count u (List.filterMap hosted s.objects) by simpa [hosted] using hcount]

variable (baseURI) in
theorem endObject_idle {s : Process} {i : Nat} {o : StreamObject}
    (ho : s.objects[i]? = some (some o)) :
    ∃ o', (s.endObject baseURI i o).objects[i]? = some (some o') ∧ o'.isHosting = false := by
  unfold endObject
  split_ifs with hactive
  · obtain ⟨hi, -⟩ := List.getElem?_eq_some_iff.mp ho
    refine ⟨{ o with stream := o.stream.endStream }, List.getElem?_set_self hi, ?_⟩
    rw [StreamObject.isHosting, Net.endStream, Bool.and_false]
  · refine ⟨o, ho, ?_⟩
    simp [StreamObject.isHosting, hactive]

theorem published_create {s : Process} (host : Bool) (uri : String) (net : Nat)
    (hs : s.Published baseURI) :
    (s.handle baseURI (.create host uri net)).Published baseURI := by
  have hidle : hosted (some { stream := { host := host }, uri, net }) = none := by
    rw [hosted_some, StreamObject.isHosting, Bool.and_false]
    rfl
  rw [published_iff]
  show s.netStreams.Perm ((s.objects ++ [_]).filterMap hosted)
  rw [List.filterMap_append, List.filterMap_cons_none hidle, List.filterMap_nil, List.append_nil]
  exact hs.streams

theorem onObject_cases (s : Process) (i : Nat) (f : StreamObject → Process) :
    (∃ o, s.objects[i]? = some (some o) ∧ s.onObject i f = f o) ∨
      (∀ o, s.objects[i]? ≠ some (some o)) ∧ s.onObject i f = s := by
  unfold onObject
  match h : s.objects[i]? with
  | none => exact .inr ⟨by simp, rfl⟩
  | some none => exact .inr ⟨by simp, rfl⟩
  | some (some o) => exact .inl ⟨o, rfl, rfl⟩

/-- The steps that keep the list right. -/
theorem published_handle {s : Process} (hs : s.Published baseURI) (e : StreamEvent) :
    (s.handle baseURI e).Published baseURI ↔ s.Safe e := by
  cases e with
  | create host uri net => exact iff_of_true (published_create host uri net hs) trivial
  | begin i =>
      refine iff_of_true ?_ trivial
      rw [handle]
      rcases s.onObject_cases i (s.beginObject baseURI i) with ⟨o, ho, heq⟩ | ⟨-, heq⟩
      · rw [heq]
        exact published_begin ho hs
      · rw [heq]
        exact hs
  | endStream i =>
      rw [handle]
      rcases s.onObject_cases i (s.endObject baseURI i) with ⟨o, ho, heq⟩ | ⟨hnone, heq⟩
      · rw [heq]
        exact published_end ho hs
      · rw [heq]
        exact iff_of_true hs fun o ho => absurd ho (hnone o)
  | destroy i =>
      rw [handle]
      rcases s.onObject_cases i (s.destroyObject baseURI i) with ⟨o, ho, heq⟩ | ⟨hnone, heq⟩
      · rw [heq]
        obtain ⟨o', hat, hidle⟩ := endObject_idle baseURI ho
        exact (published_drop hat hidle).trans (published_end ho hs)
      · rw [heq]
        exact iff_of_true hs fun o ho => absurd ho (hnone o)

variable (baseURI) in
/-- The process after a sequence of events. -/
def after (es : List StreamEvent) : Process := es.foldl (handle baseURI) {}

/-- **The published list is the list of the active hosts all along a run exactly if no client
ends while a host of the process has its URI.** -/
theorem published_streams_iff (es : List StreamEvent) :
    (∀ pre post, es = pre ++ post → (after baseURI pre).Published baseURI) ↔
      ∀ pre e post, es = pre ++ e :: post → (after baseURI pre).Safe e := by
  have hempty : ({} : Process).Published baseURI := by
    rw [published_iff]
    exact List.Perm.refl []
  exact invariant_iff_safe hempty (fun s e hs => published_handle hs e) es

/-- A client in another universe of the process takes the stream of the host off the list. -/
theorem client_end_unpublishes :
    ¬ (after id [.create true "ftl://a" 0, .begin 0, .create false "ftl://a" 1, .begin 1,
      .endStream 1]).Published id := by
  rw [published_iff]
  intro h
  exact absurd h.length_eq (by decide)

end Process

end

end Discovery

end BeyondProtocol
