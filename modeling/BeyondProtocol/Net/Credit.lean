import BeyondProtocol.Framework.Runs
import BeyondProtocol.Net.Clients

/-!
# The credit law of a host

Every entry of a client is worth `txcount` EndFrames: the peer gets the posts of
the frame up to and including that many EndFrames and nothing after them, unless
it asks again. Posts of other frames and requests of other peers do not touch
the entry.
-/

namespace BeyondProtocol.Net

open Framework

/-! ## §1  The host as a transition system -/

inductive HostEvent : Type where
  | request (peerid : Int) (spkt : StreamPacket) (pkt : DataPacket)
  | post (spkt : StreamPacket) (pkt : DataPacket)
  /-- A packet that is no request arrives for the host. -/
  | seen (id : FrameID) (c : Channel)

/-- The steps of a host all of whose sends succeed, labelled with the event and
its effects. -/
inductive HostStep : Net → HostEvent × List Effect → Net → Prop where
  | request {net net' : Net} {fuel : Nat} {peerid : Int} {spkt spkt' : StreamPacket}
      {pkt pkt' : DataPacket} {effects : List Effect}
      (h : processRequest fuel net (some peerid) spkt pkt = .ok (net', spkt', pkt', effects)) :
      HostStep net (.request peerid spkt pkt, effects) net'
  | post {net net' : Net} {spkt : StreamPacket} {pkt : DataPacket} {effects : List Effect}
      (h : net.post (fun _ => .sent) spkt pkt = .ok (net', effects)) :
      HostStep net (.post spkt pkt, effects) net'
  | seen {net : Net} {stream : Stream} {id : FrameID} {c : Channel} {fired : Bool}
      (h : net.stream.seen id c = .ok (stream, fired)) :
      HostStep net (.seen id c, []) { net with stream := stream }

/-- The packets of frame `f` posted along a run, in post order. -/
def posts (f : FrameID) (es : List (HostEvent × List Effect)) : List Packet :=
  es.filterMap fun
    | (.post spkt pkt, _) => if spkt.frame = f then some (spkt, pkt) else none
    | _ => none

/-- The packets of frame `f` a peer is sent along a run. -/
def sentTo (peerid : Int) (f : FrameID) (es : List (HostEvent × List Effect)) : List Packet :=
  es.flatMap fun e => (transmissions (.client peerid) e.2).filter fun x => x.1.frame = f

/-- An event by which a peer asks for frame `f`. -/
def asksFor (peerid : Int) (f : FrameID) : HostEvent → Bool
  | .request p spkt _ => p = peerid && covers spkt f
  | _ => false

/-- The packets up to and including the `k`-th EndFrame. -/
def throughEndFrame : Nat → List Packet → List Packet
  | 0, _ => []
  | _ + 1, [] => []
  | k + 1, x :: xs => x :: throughEndFrame (if x.1.isEndFrame then k else k + 1) xs

def endFrames (xs : List Packet) : Nat := xs.countP fun x => x.1.isEndFrame

/-- What an entry makes of a posted packet. -/
def forClient (c : StreamClientLocal) (x : Packet) : Packet :=
  (x.1, if strips x.1 x.2 c then stripped x.2 else x.2)

@[simp] theorem throughEndFrame_nil (k : Nat) : throughEndFrame k [] = [] := by
  cases k <;> rfl

theorem throughEndFrame_snoc (k : Nat) (xs : List Packet) (x : Packet) :
    throughEndFrame k (xs ++ [x]) =
      throughEndFrame k xs ++ if endFrames xs < k then [x] else [] := by
  induction xs generalizing k with
  | nil => cases k <;> simp [throughEndFrame, endFrames]
  | cons y ys ih =>
      cases k with
      | zero => simp [throughEndFrame]
      | succ k =>
          simp only [List.cons_append, throughEndFrame, ih, endFrames, List.countP_cons]
          by_cases hy : y.1.isEndFrame <;> simp [hy]

theorem endFrames_snoc (xs : List Packet) (x : Packet) :
    endFrames (xs ++ [x]) = endFrames xs + if x.1.isEndFrame then 1 else 0 := by
  simp [endFrames, List.countP_append, List.countP_cons]

/-! ## §2  One peer's entry for one frame -/

theorem grant_peerid (spkt : StreamPacket) (pkt : DataPacket) (c : StreamClientLocal) :
    (grant spkt pkt c).peerid = c.peerid := rfl

theorem sendTo_peerid (outcome : SendOutcome) (spkt : StreamPacket) (c : StreamClientLocal) :
    (Net.sendTo outcome spkt c).peerid = c.peerid := by
  unfold Net.sendTo
  split
  · split_ifs <;> rfl
  · rfl

theorem sendTo_channels (outcome : SendOutcome) (spkt : StreamPacket) (c : StreamClientLocal) :
    (Net.sendTo outcome spkt c).channels = c.channels := by
  unfold Net.sendTo
  split
  · split_ifs <;> rfl
  · rfl

theorem map_peerid_grantClient (spkt : StreamPacket) (pkt : DataPacket) (peerid : Int)
    (cs : List StreamClientLocal) : (grantClient spkt pkt peerid cs).map (·.peerid) =
      cs.map (·.peerid) ++ if cs.any (fun c => c.peerid = peerid) then [] else [peerid] := by
  unfold grantClient
  split_ifs with h
  · rw [List.map_map, List.append_nil]
    refine List.map_congr_left fun c _ => ?_
    simp only [Function.comp]
    split_ifs <;> rfl
  · simp [grant_peerid]

theorem filter_grantClient_of_ne {peerid peerid' : Int} (h : peerid' ≠ peerid)
    (spkt : StreamPacket) (pkt : DataPacket) (cs : List StreamClientLocal) :
    (grantClient spkt pkt peerid' cs).filter (fun c => c.peerid = peerid) =
      cs.filter fun c => c.peerid = peerid := by
  unfold grantClient
  split_ifs
  · have hkeep : ((fun c : StreamClientLocal => decide (c.peerid = peerid)) ∘
        fun c => if c.peerid = peerid' then grant spkt pkt c else c) =
        fun c => decide (c.peerid = peerid) := by
      funext c
      simp only [Function.comp]
      split_ifs <;> rfl
    rw [List.filter_map, hkeep]
    refine (List.map_congr_left fun c hc => ?_).trans (List.map_id _)
    have hc : c.peerid = peerid := by simpa using (List.mem_filter.mp hc).2
    rw [if_neg (by rw [hc]; exact h.symm), id]
  · simp [grant_peerid, h]

/-- Requests of other peers, and requests for other frames, leave an entry alone. -/
theorem entries_registerClient {net : Net} {f : FrameID} {peerid peerid' : Int}
    {spkt : StreamPacket} (h : peerid' ≠ peerid ∨ spkt.frame ≠ f) (pkt : DataPacket) :
    (net.registerClient spkt pkt peerid').entries f peerid = net.entries f peerid := by
  by_cases hf : f = spkt.frame
  · subst hf
    rw [entries, clients_registerClient_self]
    exact filter_grantClient_of_ne (by simpa using h) spkt pkt _
  · rw [entries, clients_registerClient_ne hf, entries]

theorem entries_registerClient_self {net : Net} {peerid : Int} (x : Packet) :
    (net.registerClient x.1 x.2 peerid).entries x.1.frame peerid =
      if net.entries x.1.frame peerid = [] then [grant x.1 x.2 { peerid := peerid, quality := 255 }]
      else (net.entries x.1.frame peerid).map (grant x.1 x.2) := by
  have hany : (net.clients x.1.frame).any (fun c => c.peerid = peerid) =
      !(net.entries x.1.frame peerid).isEmpty := by
    rw [Bool.eq_iff_iff]
    simp [entries, List.filter_eq_nil_iff]
  rw [entries, clients_registerClient_self, grantClient, hany]
  by_cases hnone : net.entries x.1.frame peerid = []
  · have hrest : (net.clients x.1.frame).filter (fun c => c.peerid = peerid) = [] := hnone
    simp [hnone, hrest, grant_peerid]
  · have hkeep : ((fun c : StreamClientLocal => decide (c.peerid = peerid)) ∘
        fun c => if c.peerid = peerid then grant x.1 x.2 c else c) =
        fun c => decide (c.peerid = peerid) := by
      funext c
      simp only [Function.comp]
      split_ifs <;> rfl
    rw [if_pos (by simpa using hnone), if_neg hnone, List.filter_map, hkeep]
    refine List.map_congr_left fun c hc => if_pos ?_
    simpa using (List.mem_filter.mp hc).2

theorem entries_registerAll {f : FrameID} {peerid peerid' : Int} {l : List Packet}
    (h : peerid' ≠ peerid ∨ ∀ x ∈ l, x.1.frame ≠ f) (net : Net) :
    (net.registerAll (some peerid') l).entries f peerid = net.entries f peerid := by
  induction l generalizing net with
  | nil => rfl
  | cons x l ih =>
      have hx : peerid' ≠ peerid ∨ x.1.frame ≠ f := h.imp_right fun h => h x (by simp)
      exact (ih (h.imp_right fun h y hy => h y (by simp [hy])) _).trans
        (entries_registerClient hx x.2)

theorem filter_afterPost (deliver : Destination → SendOutcome) (spkt : StreamPacket)
    (peerid : Int) (cs : List StreamClientLocal) :
    (afterPost deliver spkt cs).filter (fun c => c.peerid = peerid) =
      afterPost deliver spkt (cs.filter fun c => c.peerid = peerid) := by
  have hkeep : ((fun c : StreamClientLocal => decide (c.peerid = peerid)) ∘
      fun c => Net.sendTo (deliver (.client c.peerid)) spkt c) =
      fun c => decide (c.peerid = peerid) := by
    funext c
    simp only [Function.comp, sendTo_peerid]
  rw [afterPost, List.filter_comm, List.filter_map, hkeep, afterPost]

/-- What goes out to a connected peer is what its entries for the frame make of the packet. -/
theorem transmissions_sendEffects {deliver : Destination → SendOutcome} {peerid : Int}
    (h : deliver (.client peerid) ≠ .noPeer) (spkt : StreamPacket) (pkt : DataPacket)
    (cs : List StreamClientLocal) :
    transmissions (.client peerid)
        (cs.flatMap fun c => sendEffects (deliver (.client c.peerid)) spkt pkt c) =
      (cs.filter fun c => c.peerid = peerid).map fun c => forClient c (spkt, pkt) := by
  induction cs with
  | nil => rfl
  | cons c cs ih =>
      rw [List.flatMap_cons, transmissions_append, ih]
      by_cases hc : c.peerid = peerid
      · subst hc
        cases hout : deliver (.client c.peerid) <;>
          simp_all [transmissions, sendEffects, forClient]
      · cases deliver (.client c.peerid) <;> simp [transmissions, sendEffects, hc]

theorem transmissions_flatMap_sendEffects (spkt : StreamPacket) (pkt : DataPacket) (peerid : Int)
    (cs : List StreamClientLocal) :
    transmissions (.client peerid) (cs.flatMap (sendEffects .sent spkt pkt)) =
      (cs.filter fun c => c.peerid = peerid).map fun c => forClient c (spkt, pkt) :=
  @transmissions_sendEffects (fun _ => .sent) peerid (by simp) spkt pkt cs

theorem filter_peerid_eq_singleton {cs : List StreamClientLocal} {c : StreamClientLocal}
    (hnodup : (cs.map (·.peerid)).Nodup) (hc : c ∈ cs) :
    cs.filter (fun d => d.peerid = c.peerid) = [c] := by
  induction cs with
  | nil => cases hc
  | cons d cs ih =>
      rw [List.map_cons, List.nodup_cons] at hnodup
      rcases List.mem_cons.mp hc with rfl | hc
      · have hnone : cs.filter (fun d => d.peerid = c.peerid) = [] := by
          refine List.filter_eq_nil_iff.mpr fun e he heq => hnodup.1 ?_
          exact List.mem_map.mpr ⟨e, he, by simpa using heq⟩
        simp [hnone]
      · have hd : d.peerid ≠ c.peerid :=
          fun heq => hnodup.1 (List.mem_map.mpr ⟨c, hc, heq.symm⟩)
        simp [hd, ih hnodup.2 hc]

/-! ## §3  Steps -/

theorem post_eq_send {net net' : Net} {deliver : Destination → SendOutcome} {spkt : StreamPacket}
    {pkt : DataPacket} {effects : List Effect}
    (h : net.post deliver spkt pkt = .ok (net', effects)) :
    ∃ ok, net.send deliver spkt pkt = .ok (net', effects, ok) := by
  unfold post at h
  obtain ⟨⟨n, es, ok⟩, hsend, hret⟩ := Framework.bind_eq_ok.mp h
  cases hret
  exact ⟨ok, hsend⟩

theorem registerAll_serving {net : Net} (h : net.Serving) (p : Option Int) (l : List Packet) :
    (net.registerAll p l).Serving := by
  cases p with
  | none => exact h
  | some peerid =>
      induction l generalizing net with
      | nil => exact h
      | cons x l ih => exact @ih (net.registerClient x.1 x.2 peerid) ⟨h.1, h.2, h.3⟩

theorem HostStep.serving {net net' : Net} {e : HostEvent × List Effect} (h : HostStep net e net')
    (hs : net.Serving) : net'.Serving := by
  cases h with
  | request h =>
      obtain ⟨-, -, -, l, -, rfl⟩ := processRequest_spec _ h
      exact registerAll_serving hs _ l
  | post h =>
      obtain ⟨ok, hsend⟩ := post_eq_send h
      exact (send_spec hs hsend).1
  | seen _ => exact ⟨hs.1, hs.2, hs.3⟩

/-- Each peer has at most one entry per frame. -/
def OneEntryEach (net : Net) : Prop := ∀ f, ((net.clients f).map (·.peerid)).Nodup

theorem registerClient_oneEntryEach {net : Net} (h : OneEntryEach net) (spkt : StreamPacket)
    (pkt : DataPacket) (peerid : Int) : OneEntryEach (net.registerClient spkt pkt peerid) := by
  intro f
  by_cases hf : f = spkt.frame
  · subst hf
    rw [clients_registerClient_self, map_peerid_grantClient]
    split_ifs with hany
    · simpa using h spkt.frame
    · refine (h spkt.frame).append (List.nodup_singleton _) ?_
      simp only [List.disjoint_singleton, List.mem_map, not_exists, not_and]
      intro c hc hpeer
      exact hany (List.any_eq_true.mpr ⟨c, hc, by simpa using hpeer⟩)
  · rw [clients_registerClient_ne hf]
    exact h f

theorem registerAll_oneEntryEach {net : Net} (h : OneEntryEach net) (p : Option Int)
    (l : List Packet) : OneEntryEach (net.registerAll p l) := by
  cases p with
  | none => exact h
  | some peerid =>
      induction l generalizing net with
      | nil => exact h
      | cons x l ih => exact ih (registerClient_oneEntryEach h x.1 x.2 peerid)

theorem nodup_afterPost {cs : List StreamClientLocal} (h : (cs.map (·.peerid)).Nodup)
    (deliver : Destination → SendOutcome) (spkt : StreamPacket) :
    ((afterPost deliver spkt cs).map (·.peerid)).Nodup := by
  have hmap : (cs.map fun c => Net.sendTo (deliver (.client c.peerid)) spkt c).map (·.peerid) =
      cs.map (·.peerid) := by
    rw [List.map_map]
    exact List.map_congr_left fun c _ => sendTo_peerid _ _ _
  refine List.Nodup.sublist ?_ (hmap ▸ h)
  exact List.filter_sublist.map _

theorem HostStep.oneEntryEach {net net' : Net} {e : HostEvent × List Effect}
    (h : HostStep net e net') (hs : net.Serving) (hone : OneEntryEach net) : OneEntryEach net' := by
  cases h with
  | request h =>
      obtain ⟨-, -, -, l, -, rfl⟩ := processRequest_spec _ h
      exact registerAll_oneEntryEach hone _ l
  | @post _ spkt pkt effects h =>
      obtain ⟨ok, hsend⟩ := post_eq_send h
      obtain ⟨-, -, -, hself, hother⟩ := send_spec hs hsend
      intro f
      by_cases hf : f = spkt.frame
      · subst hf
        rw [hself]
        exact nodup_afterPost (hone _) _ _
      · rcases hother f hf with hsame | hclean
        · rw [hsame]
          exact hone f
        · rw [hclean]
          exact (hone f).sublist (List.filter_sublist.map _)
  | seen _ => exact hone

/-! ## §4  The law -/

theorem posts_snoc (f : FrameID) (es : List (HostEvent × List Effect))
    (e : HostEvent × List Effect) : posts f (es ++ [e]) = posts f es ++ posts f [e] :=
  List.filterMap_append

theorem sentTo_snoc (peerid : Int) (f : FrameID) (es : List (HostEvent × List Effect))
    (e : HostEvent × List Effect) :
    sentTo peerid f (es ++ [e]) = sentTo peerid f es ++ sentTo peerid f [e] :=
  List.flatMap_append

/-- The entry `c` of frame `f`, worth `k` EndFrames, after the events `es`. -/
structure Spent (k : Nat) (c : StreamClientLocal) (f : FrameID)
    (es : List (HostEvent × List Effect)) (net : Net) : Prop where
  serving : net.Serving
  entry : net.entries f c.peerid =
    if endFrames (posts f es) < k then [{ c with txcount := (k : Int) - endFrames (posts f es) }]
    else []
  sent : sentTo c.peerid f es = (throughEndFrame k (posts f es)).map (forClient c)

/-- An entry with credit is not stale, so a clean-up leaves it where it is. -/
theorem Spent.filter_stale {k : Nat} {c : StreamClientLocal} {f : FrameID}
    {es : List (HostEvent × List Effect)} {net : Net} (h : Spent k c f es net) :
    (net.entries f c.peerid).filter (fun c => !isStale c) = net.entries f c.peerid := by
  rw [h.entry]
  split_ifs with hlt
  · simp [isStale]
    omega
  · rfl

/-- An event that neither posts a packet of the frame nor changes the entry. -/
theorem Spent.skip {k : Nat} {c : StreamClientLocal} {f : FrameID}
    {es : List (HostEvent × List Effect)} {net net' : Net} (h : Spent k c f es net)
    {e : HostEvent × List Effect} (hserving : net'.Serving) (hposts : posts f [e] = [])
    (hsent : sentTo c.peerid f [e] = [])
    (hentry : net'.entries f c.peerid = net.entries f c.peerid) : Spent k c f (es ++ [e]) net' where
  serving := hserving
  entry := by rw [hentry, posts_snoc, hposts, List.append_nil, h.entry]
  sent := by rw [sentTo_snoc, posts_snoc, hposts, hsent, List.append_nil, List.append_nil, h.sent]

/-- A post of another frame. -/
theorem Spent.post_ne {k : Nat} {c : StreamClientLocal} {f : FrameID}
    {es : List (HostEvent × List Effect)} {net net' : Net} (h : Spent k c f es net)
    {spkt : StreamPacket} {pkt : DataPacket} {effects : List Effect}
    (hpost : net.post (fun _ => .sent) spkt pkt = .ok (net', effects)) (hf : spkt.frame ≠ f) :
    Spent k c f (es ++ [(.post spkt pkt, effects)]) net' := by
  obtain ⟨ok, hsend⟩ := post_eq_send hpost
  obtain ⟨hserving, -, heffects, -, hother⟩ := send_spec h.serving hsend
  refine h.skip hserving (by simp [posts, hf]) ?_ ?_
  · subst heffects
    simp only [sentTo, List.flatMap_cons, List.flatMap_nil, List.append_nil,
      transmissions_flatMap_sendEffects, List.filter_eq_nil_iff, List.mem_map]
    rintro x ⟨d, -, rfl⟩
    simpa [forClient] using hf
  · rcases hother f (Ne.symm hf) with hsame | hclean
    · rw [entries, hsame, entries]
    · rw [entries, hclean, List.filter_comm]
      exact h.filter_stale

/-- A posted EndFrame takes one frame off the credit, other packets nothing. -/
theorem afterPost_singleton (spkt : StreamPacket) (d : StreamClientLocal) :
    afterPost (fun _ => .sent) spkt [d] =
      if d.txcount ≤ (if spkt.isEndFrame then 1 else 0) then []
      else [{ d with txcount := d.txcount - if spkt.isEndFrame then 1 else 0 }] := by
  by_cases hend : spkt.isEndFrame = true <;>
    by_cases hstale : d.txcount ≤ (if spkt.isEndFrame then 1 else 0) <;>
    simp_all [afterPost, Net.sendTo, isStale]

/-- A post of the frame itself. -/
theorem Spent.post_self {k : Nat} {c : StreamClientLocal} {es : List (HostEvent × List Effect)}
    {net net' : Net} {spkt : StreamPacket} (h : Spent k c spkt.frame es net) {pkt : DataPacket}
    {effects : List Effect}
    (hpost : net.post (fun _ => .sent) spkt pkt = .ok (net', effects)) :
    Spent k c spkt.frame (es ++ [(.post spkt pkt, effects)]) net' := by
  obtain ⟨ok, hsend⟩ := post_eq_send hpost
  obtain ⟨hserving, -, heffects, hself, -⟩ := send_spec h.serving hsend
  have hposts : posts spkt.frame [(HostEvent.post spkt pkt, effects)] = [(spkt, pkt)] := by
    simp [posts]
  have hentry : net'.entries spkt.frame c.peerid =
      afterPost (fun _ => .sent) spkt (net.entries spkt.frame c.peerid) := by
    rw [entries, hself, filter_afterPost, entries]
  have hsent : sentTo c.peerid spkt.frame [(HostEvent.post spkt pkt, effects)] =
      (net.entries spkt.frame c.peerid).map fun d => forClient d (spkt, pkt) := by
    subst heffects
    simp only [sentTo, List.flatMap_cons, List.flatMap_nil, List.append_nil,
      transmissions_flatMap_sendEffects]
    refine List.filter_eq_self.mpr fun x hx => ?_
    obtain ⟨d, -, rfl⟩ := List.mem_map.mp hx
    simp [forClient]
  refine ⟨hserving, ?_, ?_⟩
  · rw [hentry, h.entry, posts_snoc, hposts, endFrames_snoc]
    -- the entry is still there as long as fewer than `k` EndFrames were posted
    by_cases hlt : endFrames (posts spkt.frame es) < k
    · rw [if_pos hlt, afterPost_singleton]
      by_cases hend : spkt.isEndFrame = true
      · simp only [hend, if_true]
        split_ifs
        · omega
        · rfl
        · push_cast
          rw [sub_sub]
        · omega
      · simp only [hend, Bool.false_eq_true, if_false, Nat.add_zero, Int.sub_zero, if_pos hlt]
        exact if_neg (by omega)
    · rw [if_neg hlt, if_neg (by omega)]
      rfl
  · rw [sentTo_snoc, hsent, h.sent, posts_snoc, hposts, throughEndFrame_snoc, List.map_append,
      h.entry]
    split_ifs <;> rfl

theorem Spent.step {k : Nat} {c : StreamClientLocal} {f : FrameID}
    {es : List (HostEvent × List Effect)} {net net' : Net} (h : Spent k c f es net)
    {e : HostEvent × List Effect} (hstep : HostStep net e net')
    (hquiet : asksFor c.peerid f e.1 = false) : Spent k c f (es ++ [e]) net' := by
  have hserving := hstep.serving h.serving
  cases hstep with
  | @request _ fuel peerid spkt spkt' pkt pkt' effects hreq =>
      obtain ⟨-, -, htx, l, hl, rfl⟩ := processRequest_spec _ hreq
      refine h.skip hserving rfl (by simp [sentTo, htx]) (entries_registerAll ?_ _)
      -- what the peer itself asked for does not include this frame
      by_cases hpeer : peerid = c.peerid
      · refine .inr fun x hx hframe => ?_
        have hcov := (hl x hx).1
        simp only [asksFor, hpeer, decide_true, Bool.true_and] at hquiet
        rw [hframe, hquiet] at hcov
        cases hcov
      · exact .inl hpeer
  | @post _ spkt pkt effects hpost =>
      by_cases hf : spkt.frame = f
      · subst hf
        exact h.post_self hpost
      · exact h.post_ne hpost hf
  | seen hseen => exact h.skip hserving rfl rfl rfl

/-- **The credit law.** From a host without clients, along every run: a peer has
at most one entry per frame; after a post no entry of its frame is used up; and an
entry worth `k` frames gets its peer every later post of the frame through the
`k`-th EndFrame and none after it, unless the peer asks for the frame again. -/
theorem host_credit_law {net₀ net : Net} {es : List (HostEvent × List Effect)}
    (hserving : net₀.Serving) (hnone : ∀ f, net₀.clientsLocal f = none)
    (run : Runs HostStep net₀ es net) :
    OneEntryEach net ∧
      (∀ spkt pkt effects net', HostStep net (.post spkt pkt, effects) net' →
        ∀ c ∈ net'.clients spkt.frame, 0 < c.txcount) ∧
      ∀ (f : FrameID) (c : StreamClientLocal) (k : Nat), c ∈ net.clients f → c.txcount = k →
        1 ≤ k → ∀ fs net', Runs HostStep net fs net' →
          (∀ e ∈ fs, asksFor c.peerid f e.1 = false) →
          sentTo c.peerid f fs = (throughEndFrame k (posts f fs)).map (forClient c) ∧
            net'.entries f c.peerid = if endFrames (posts f fs) < k then
              [{ c with txcount := (k : Int) - endFrames (posts f fs) }] else [] := by
  have hone₀ : OneEntryEach net₀ := fun f => by simp [clients, hnone f]
  obtain ⟨hs, hone⟩ := run.invariant (I := fun net => net.Serving ∧ OneEntryEach net)
    ⟨hserving, hone₀⟩
    (fun net e net' h hstep => ⟨hstep.serving h.1, hstep.oneEntryEach h.1 h.2⟩)
  refine ⟨hone, ?_, ?_⟩
  · intro spkt pkt effects net' hstep c hc
    cases hstep with
    | post hpost =>
        obtain ⟨ok, hsend⟩ := post_eq_send hpost
        obtain ⟨-, -, -, hself, -⟩ := send_spec hs hsend
        rw [hself] at hc
        simpa [isStale] using (List.mem_filter.mp hc).2
  · -- `Spent` describes the later run from here, with an empty history
    intro f c k hc htx hk fs net' run' hquiet
    have hentry : net.entries f c.peerid = [c] := filter_peerid_eq_singleton (hone f) hc
    have hstart : Spent k c f [] net :=
      { serving := hs
        entry := by simp [hentry, posts, endFrames, Nat.pos_iff_ne_zero.mp hk, ← htx]
        sent := by simp [sentTo, posts] }
    have hspent := run'.invariant_hist
      (I := fun es net =>
        (∀ e : HostEvent × List Effect, e ∈ es → asksFor c.peerid f e.1 = false) →
          Spent k c f es net)
      (fun _ => hstart)
      (fun es net e net' ih hstep hq =>
        (ih fun e he => hq e (by simp [he])).step hstep (hq e (by simp)))
      hquiet
    exact ⟨hspent.sent, hspent.entry⟩

/-- A request for two frames, then an EndFrame. -/
theorem host_credit_law_one_post : ∃ net, OneEntryEach net ∧ Runs HostStep
    { active := true, host := true }
    [(.request 3 ⟨0, 0, 1, 0, kFlagRequest, 0, 0⟩ { frameCount := 2 },
        [.clientConnect 3, .request ⟨⟨1⟩, 0, 0, 2, 254⟩]),
      (.post ⟨40, 0, 1, Channel.kEndFrame, 0, 0, 0⟩ {},
        [.transmit (.client 3) ⟨40, 0, 1, Channel.kEndFrame, 0, 0, 0⟩ {}])] net := by
  have run : Runs HostStep { active := true, host := true } _ _ :=
    (Runs.init.snoc (.request (show processRequest 1 _ (some 3)
      ⟨0, 0, 1, 0, kFlagRequest, 0, 0⟩ { frameCount := 2 } = .ok _ from rfl))).snoc
      (.post (show post _ _ ⟨40, 0, 1, Channel.kEndFrame, 0, 0, 0⟩ {} = .ok _ from rfl))
  exact ⟨_, (host_credit_law ⟨rfl, rfl, rfl⟩ (fun _ => rfl) run).1, run⟩

end BeyondProtocol.Net
