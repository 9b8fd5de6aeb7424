import BeyondProtocol.Framework.History
import BeyondProtocol.Net.Credit
import BeyondProtocol.Net.FrameSize
import BeyondProtocol.Net.Requests

/-!
# What a client gets of the channels it did not ask for

The entry of a client has one bit for each video channel. Requests set bits, nothing clears
them before the entry goes, and `send` looks at the bit of the channel: a packet nobody asked
for goes out without its data. It goes out nevertheless, so that a client counts as many
packets for a timestamp as were posted.
-/

namespace BeyondProtocol.Net

open Framework

/-! ## §1  The calls on a host -/

inductive HostCall : Type where
  | receive (peerid : Int) (spkt : StreamPacket) (pkt : DataPacket)
  | post (deliver : Destination → SendOutcome) (spkt : StreamPacket) (pkt : DataPacket)
  | setPaused (value : Bool)
  | begin
  | endStream

/-- A call, its effects, and the stream it left. -/
structure HostTurn where
  call : HostCall
  effects : List Effect
  after : Net

inductive TurnStep : Net → HostTurn → Net → Prop where
  /-- The handler is bound to the URI while the stream is active. -/
  | receive {net net' : Net} {fuel : Nat} {peerid now ttimeoff : Int} {spkt : StreamPacket}
      {pkt : DataPacket} {effects : List Effect} (hactive : net.active = true)
      (h : net.receiveHost fuel peerid now ttimeoff spkt pkt = .ok (net', effects)) :
      TurnStep net ⟨.receive peerid spkt pkt, effects, net'⟩ net'
  | post {net net' : Net} {deliver : Destination → SendOutcome} {spkt : StreamPacket}
      {pkt : DataPacket} {effects : List Effect}
      (h : net.post deliver spkt pkt = .ok (net', effects)) :
      TurnStep net ⟨.post deliver spkt pkt, effects, net'⟩ net'
  | setPaused {net : Net} (value : Bool) :
      TurnStep net ⟨.setPaused value, [], net.setPaused value⟩ (net.setPaused value)
  | begin {net : Net} : TurnStep net ⟨.begin, [], net.begin⟩ net.begin
  | endStream {net : Net} : TurnStep net ⟨.endStream, [], net.endStream⟩ net.endStream

/-- A hosting stream that nothing has reached yet. -/
structure FreshHost (net : Net) : Prop where
  host : net.host = true
  clients : ∀ f, net.clientsLocal f = none
  frames : net.stream.frames = []

/-- The peer asks for channel `c` of frame `f`. A request leaves the frames of the stream as
they are, so that it does not matter when a wildcard is looked up. -/
def HostTurn.Asks (p : Int) (f : FrameID) (c : Channel) (t : HostTurn) : Prop :=
  ∃ spkt pkt, t.call = .receive p spkt pkt ∧ isRequest spkt pkt = true ∧ spkt.channel = c ∧
    t.after.Matches spkt f

theorem HostTurn.not_asks {p : Int} {t : HostTurn} (h : ∀ spkt pkt, t.call ≠ .receive p spkt pkt)
    (f : FrameID) (c : Channel) : ¬ t.Asks p f c := by
  rintro ⟨spkt, pkt, hcall, -⟩
  exact h spkt pkt hcall

/-- The peer asked for the channel, and has had its entry for the frame ever since. -/
def AskedFor (p : Int) (f : FrameID) (c : Channel) (es : List HostTurn) : Prop :=
  Since (fun t => t.after.hasClient f p = true) (fun _ t => t.Asks p f c) es

theorem askedFor_snoc {p : Int} {f : FrameID} {c : Channel} {es : List HostTurn} {t : HostTurn} :
    AskedFor p f c (es ++ [t]) ↔
      t.Asks p f c ∨ t.after.hasClient f p = true ∧ AskedFor p f c es := since_snoc

/-! ## §2  The channel mask -/

theorem getLsbD_channelMask {c : Channel} (hc : c.isVideo = true) (i : Nat) :
    (channelMask c).getLsbD i = decide (c.toNat = i) := by
  have hlt : c.toNat < 32 := by
    have hc' : (c : Int) < 32 := by simpa [Channel.isVideo] using hc
    exact (Int.toNat_lt_of_ne_zero (by decide)).mpr hc'
  rw [channelMask, ← BitVec.twoPow_eq, BitVec.getLsbD_twoPow]
  simp [hlt]

theorem channelMask_and_eq_zero {c : Channel} (hc : c.isVideo = true) (mask : BitVec 32) :
    channelMask c &&& mask = 0 ↔ mask.getLsbD c.toNat = false := by
  have hbit := getLsbD_channelMask hc
  constructor
  · intro hzero
    have h := congrArg (fun m => m.getLsbD c.toNat) hzero
    simpa [hbit] using h
  · intro hclear
    refine BitVec.eq_of_getLsbD_eq fun i _ => ?_
    rw [BitVec.getLsbD_and, hbit]
    by_cases hi : c.toNat = i
    · simp [← hi, hclear]
    · simp [hi]

/-- The entry of the peer has the bit of the channel. -/
def Wants (net : Net) (f : FrameID) (p : Int) (c : Channel) : Prop :=
  ∃ e ∈ net.entries f p, e.channels.getLsbD c.toNat = true

theorem hasClient_iff (net : Net) (f : FrameID) (p : Int) :
    net.hasClient f p = true ↔ net.entries f p ≠ [] := by
  rw [hasClient, List.any_eq_true, entries, Ne, List.filter_eq_nil_iff]
  push Not
  rfl

theorem Wants.hasClient {net : Net} {f : FrameID} {p : Int} {c : Channel}
    (h : net.Wants f p c) : net.hasClient f p = true := by
  obtain ⟨e, he, -⟩ := h
  rw [hasClient_iff]
  exact List.ne_nil_of_mem he

theorem getLsbD_grant {spkt : StreamPacket} (h₀ : 0 ≤ spkt.channel) (pkt : DataPacket)
    (e : StreamClientLocal) {c : Channel} (hc₀ : 0 ≤ c) (hc : c.isVideo = true) :
    (grant spkt pkt e).channels.getLsbD c.toNat = true ↔
      spkt.channel = c ∨ e.channels.getLsbD c.toNat = true := by
  have heq : spkt.channel.toNat = c.toNat ↔ spkt.channel = c :=
    ⟨fun h => by rw [← Int.toNat_of_nonneg h₀, h, Int.toNat_of_nonneg hc₀], fun h => by rw [h]⟩
  rw [grant]
  split_ifs with hvideo
  · rw [BitVec.getLsbD_or, getLsbD_channelMask hvideo, Bool.or_eq_true, decide_eq_true_iff, heq,
      or_comm]
  · have hne : spkt.channel ≠ c := by
      rintro rfl
      exact hvideo hc
    simp [hne]

/-- Granting a request sets the bit of its channel in its frame. -/
theorem wants_registerClient {net : Net} {p : Int} {x : Packet} (h₀ : 0 ≤ x.1.channel)
    (f : FrameID) {c : Channel} (hc₀ : 0 ≤ c) (hc : c.isVideo = true) :
    (net.registerClient x.1 x.2 p).Wants f p c ↔
      (x.1.frame = f ∧ x.1.channel = c) ∨ net.Wants f p c := by
  by_cases hf : x.1.frame = f
  · subst hf
    rw [Wants, entries_registerClient_self]
    split_ifs with hnone
    · simp [Wants, hnone, getLsbD_grant h₀ x.2 _ hc₀ hc]
    · simp only [List.mem_map, exists_exists_and_eq_and, getLsbD_grant h₀ x.2 _ hc₀ hc, Wants,
        true_and]
      obtain ⟨e, he⟩ := List.exists_mem_of_ne_nil _ hnone
      constructor
      · rintro ⟨e', he', h | h⟩
        · exact .inl h
        · exact .inr ⟨e', he', h⟩
      · rintro (h | ⟨e', he', h⟩)
        · exact ⟨e, he, .inl h⟩
        · exact ⟨e', he', .inr h⟩
  · rw [Wants, entries_registerClient (.inr hf) x.2]
    simp [hf, Wants]

theorem wants_registerAll {net : Net} {p : Int} {m : List Packet}
    (h₀ : ∀ x ∈ m, 0 ≤ x.1.channel) (f : FrameID) {c : Channel} (hc₀ : 0 ≤ c)
    (hc : c.isVideo = true) : (net.registerAll (some p) m).Wants f p c ↔
      (∃ x ∈ m, x.1.frame = f ∧ x.1.channel = c) ∨ net.Wants f p c := by
  induction m generalizing net with
  | nil => simp [registerAll]
  | cons x m ih =>
      have hrest := @ih (net.registerClient x.1 x.2 p) fun y hy => h₀ y (by simp [hy])
      rw [wants_registerClient (h₀ x (by simp)) f hc₀ hc] at hrest
      refine hrest.trans ?_
      rw [List.exists_mem_cons_iff, or_left_comm, or_assoc]

/-! ## §3  One turn -/

theorem send_idle {net net' : Net} {deliver : Destination → SendOutcome} {spkt : StreamPacket}
    {pkt : DataPacket} {effects : List Effect} {ok : Bool} (hhost : net.host = true)
    (hidle : ¬ net.Serving) (h : net.send deliver spkt pkt = .ok (net', effects, ok)) :
    net' = net ∧ effects = [] := by
  unfold send at h
  cases hactive : net.active with
  | false =>
      rw [hactive] at h
      cases h
      exact ⟨rfl, rfl⟩
  | true =>
      cases hpaused : net.paused with
      | false => exact absurd ⟨hactive, hhost, hpaused⟩ hidle
      | true =>
          rw [hactive, hpaused] at h
          cases h
          exact ⟨rfl, rfl⟩

/-- A post keeps the channels of every client, though it may lose some of the clients. -/
theorem post_clients {net net' : Net} {deliver : Destination → SendOutcome} {spkt : StreamPacket}
    {pkt : DataPacket} {effects : List Effect} (hhost : net.host = true)
    (h : net.post deliver spkt pkt = .ok (net', effects)) :
    net'.host = true ∧ net'.stream = net.stream ∧ ∀ f, ∃ g : StreamClientLocal → StreamClientLocal,
      (∀ e, (g e).peerid = e.peerid ∧ (g e).channels = e.channels) ∧
        (net'.clients f).Sublist ((net.clients f).map g) := by
  obtain ⟨ok, hsend⟩ := post_eq_send h
  by_cases hserving : net.Serving
  · obtain ⟨hs, hstream, -, hself, hother⟩ := send_spec hserving hsend
    refine ⟨hs.host, hstream, fun f => ?_⟩
    by_cases hf : f = spkt.frame
    · subst hf
      refine ⟨fun e => Net.sendTo (deliver (.client e.peerid)) spkt e,
        fun e => ⟨sendTo_peerid _ _ _, sendTo_channels _ _ _⟩, ?_⟩
      rw [hself]
      exact List.filter_sublist
    · refine ⟨id, fun _ => ⟨rfl, rfl⟩, ?_⟩
      rw [List.map_id]
      rcases hother f hf with hsame | hclean
      · rw [hsame]
      · rw [hclean]
        exact List.filter_sublist
  · obtain ⟨rfl, -⟩ := send_idle hhost hserving hsend
    exact ⟨hhost, rfl, fun f => ⟨id, fun _ => ⟨rfl, rfl⟩, by rw [List.map_id]⟩⟩

theorem registerAll_changes (net : Net) (p : Option Int) (m : List Packet) :
    ∃ clients, net.registerAll p m = { net with clientsLocal := clients } := by
  cases p with
  | none => exact ⟨net.clientsLocal, rfl⟩
  | some peerid =>
      induction m generalizing net with
      | nil => exact ⟨net.clientsLocal, rfl⟩
      | cons x m ih => exact ih (net.registerClient x.1 x.2 peerid)

theorem earlyProcessPacket_quiet {net net' : Net} {now : Int} {spkt : StreamPacket}
    {pkt : DataPacket} {effects : List Effect} (hhost : net.host = true)
    (h : net.earlyProcessPacket now spkt pkt = .ok (net', effects)) (dest : Destination) :
    transmissions dest effects = [] := by
  unfold earlyProcessPacket at h
  split_ifs at h
  · cases h
    rfl
  · obtain ⟨⟨net₁, seen⟩, hseen, h⟩ := bind_eq_ok.mp h
    obtain ⟨⟨net₂, requests⟩, hmanage, h⟩ := bind_eq_ok.mp h
    cases h
    have hquiet := noteSeen_quiet hseen dest
    have hhost₁ : net₁.host = true := by
      obtain ⟨stream, rfl⟩ := noteSeen_changes hseen
      exact hhost
    rw [manageRequests_host hhost₁] at hmanage
    cases hmanage
    rw [transmissions_append, hquiet]
    rfl

/-- What a host makes of a packet: a request is granted to its peer in the frames it matches,
any other packet is handed on. -/
theorem receiveHost_spec {net net' : Net} {fuel : Nat} {p now ttimeoff : Int}
    {spkt : StreamPacket} {pkt : DataPacket} {effects : List Effect} (hhost : net.host = true)
    (hactive : net.active = true) (hnamed : net.FramesNamed)
    (h : net.receiveHost fuel p now ttimeoff spkt pkt = .ok (net', effects)) :
    net'.host = true ∧ (∀ dest, transmissions dest effects = []) ∧
      if isRequest spkt pkt then
        net'.stream = net.stream ∧ ∃ m : List Packet,
          (∀ f, (∃ x ∈ m, x.1.frame = f) ↔ net.Matches spkt f) ∧
          (∀ x ∈ m, x.1.channel = spkt.channel ∧ 0 ≤ x.1.channel) ∧
          net' = net.registerAll (some p) m
      else net'.clientsLocal = net.clientsLocal := by
  obtain ⟨⟨net₁, early⟩, hearly, hrest⟩ := bind_eq_ok.mp h
  obtain ⟨⟨net₂, more⟩, hproc, hret⟩ := bind_eq_ok.mp hrest
  cases hret
  unfold processPacket at hproc
  extract_lets spkt' at hproc
  split_ifs with hreq
  · obtain ⟨rfl, rfl⟩ := earlyProcessPacket_request hactive hhost hreq hearly
    have hreq' : isRequest spkt' pkt = true := hreq
    rw [if_neg (by simp [hactive]), if_pos (by simp [hhost, hreq']), bind_eq_ok] at hproc
    obtain ⟨⟨net₃, spkt₃, pkt₃, called⟩, hcall, hret⟩ := hproc
    cases hret
    obtain ⟨-, -, hquiet, -⟩ := processRequest_spec fuel hcall
    obtain ⟨m, hm, hall, rfl⟩ := processRequest_matches hnamed hcall
    obtain ⟨clients, hclients⟩ := registerAll_changes net₁ (some p) m
    refine ⟨by rw [hclients]; exact hhost, fun dest => ?_, stream_registerAll _ _ _, m, hm,
      fun x hx => ⟨(hall x hx).channel, (hall x hx).shift⟩, rfl⟩
    rw [transmissions_append, transmissions_append, hquiet dest]
    rfl
  · obtain ⟨stream, tally, rfl⟩ := earlyProcessPacket_changes hearly
    have hreq' : isRequest spkt' pkt = false := Bool.eq_false_iff.mpr hreq
    rw [if_neg (by simp [hactive]), if_neg (by simp [hreq'])] at hproc
    cases hproc
    refine ⟨hhost, fun dest => ?_, rfl⟩
    rw [transmissions_append, earlyProcessPacket_quiet hhost hearly]
    rfl

/-- What holds of every host whose frames and clients came from its peers. -/
structure Hosting (net : Net) : Prop where
  host : net.host = true
  one : OneEntryEach net
  named : net.FramesNamed

theorem FreshHost.hosting {net : Net} (h : net.FreshHost) : net.Hosting where
  host := h.host
  one f := by
    rw [Net.clients, h.clients f]
    exact List.nodup_nil
  named i hi := by
    rw [h.frames] at hi
    cases hi

theorem begin_host {net : Net} (h : net.host = true) : net.begin = { net with active := true } := by
  unfold Net.begin
  split_ifs with hactive
  · rw [← hactive]
  · rfl

/-- A state with the same clients and frames. -/
theorem Hosting.congr {net net' : Net} (h : net.Hosting) (hhost : net'.host = net.host)
    (hstream : net'.stream = net.stream) (hclients : net'.clientsLocal = net.clientsLocal) :
    net'.Hosting where
  host := hhost.trans h.host
  one f := by
    rw [clients, hclients]
    exact h.one f
  named := by
    rw [FramesNamed, hstream]
    exact h.named

theorem TurnStep.hosting {net net' : Net} {t : HostTurn} (hstep : TurnStep net t net')
    (h : net.Hosting) : net'.Hosting := by
  cases hstep with
  | @receive _ fuel p now ttimeoff spkt pkt effects hactive hrecv =>
      obtain ⟨hhost, -, hcase⟩ := receiveHost_spec h.host hactive h.named hrecv
      have hnamed : net'.FramesNamed :=
        HearsStep.framesNamed (e := (p, spkt, pkt)) ⟨fuel, now, ttimeoff, effects, hrecv⟩ h.named
      refine ⟨hhost, ?_, hnamed⟩
      split_ifs at hcase with hreq
      · obtain ⟨-, m, -, -, rfl⟩ := hcase
        exact registerAll_oneEntryEach h.one _ m
      · intro f
        rw [clients, hcase]
        exact h.one f
  | post hpost =>
      obtain ⟨hhost, hstream, hclients⟩ := post_clients h.host hpost
      refine ⟨hhost, fun f => ?_, ?_⟩
      · obtain ⟨g, hg, hsub⟩ := hclients f
        have hmap : ((net.clients f).map g).map (·.peerid) = (net.clients f).map (·.peerid) := by
          rw [List.map_map]
          exact List.map_congr_left fun e _ => (hg e).1
        exact (hmap ▸ h.one f).sublist (hsub.map _)
      · rw [FramesNamed, hstream]
        exact h.named
  | setPaused value => exact h.congr rfl rfl rfl
  | begin =>
      rw [begin_host h.host]
      exact h.congr rfl rfl rfl
  | endStream => exact h.congr rfl rfl rfl

theorem entries_unique {net : Net} (hone : OneEntryEach net) {f : FrameID} {p : Int}
    {e : StreamClientLocal} (he : e ∈ net.entries f p) : net.entries f p = [e] := by
  obtain ⟨hmem, hpeer⟩ := List.mem_filter.mp he
  have hp : e.peerid = p := by simpa using hpeer
  rw [entries, ← hp]
  exact filter_peerid_eq_singleton (hone f) hmem

/-- Where the calls leave the entries alone, the bits stay as they are. -/
theorem wants_congr {net net' : Net} {f : FrameID} {p : Int}
    (h : net'.entries f p = net.entries f p) (c : Channel) :
    net'.Wants f p c ↔ net'.hasClient f p = true ∧ net.Wants f p c := by
  have hsame : net'.Wants f p c ↔ net.Wants f p c := by rw [Wants, h, Wants]
  rw [hsame]
  refine ⟨fun hw => ⟨?_, hw⟩, And.right⟩
  exact (hsame.mpr hw).hasClient

theorem entries_congr {net net' : Net} (h : net'.clientsLocal = net.clientsLocal) (f : FrameID)
    (p : Int) : net'.entries f p = net.entries f p := by
  rw [entries, clients, h]
  rfl

theorem wants_post {net net' : Net} {deliver : Destination → SendOutcome} {spkt : StreamPacket}
    {pkt : DataPacket} {effects : List Effect} (h : net.Hosting)
    (hpost : net.post deliver spkt pkt = .ok (net', effects)) (f : FrameID) (p : Int)
    (c : Channel) : net'.Wants f p c ↔ net'.hasClient f p = true ∧ net.Wants f p c := by
  obtain ⟨-, -, hclients⟩ := post_clients h.host hpost
  obtain ⟨g, hg, hsub⟩ := hclients f
  have hold : ∀ e' ∈ net'.entries f p, ∃ e ∈ net.entries f p, e'.channels = e.channels := by
    intro e' he'
    obtain ⟨hmem, hpeer⟩ := List.mem_filter.mp he'
    obtain ⟨e, he, rfl⟩ := List.mem_map.mp (hsub.subset hmem)
    rw [(hg e).1] at hpeer
    exact ⟨e, List.mem_filter.mpr ⟨he, hpeer⟩, (hg e).2⟩
  constructor
  · intro hw
    refine ⟨hw.hasClient, ?_⟩
    obtain ⟨e', he', hbit⟩ := hw
    obtain ⟨e, he, hch⟩ := hold e' he'
    exact ⟨e, he, hch ▸ hbit⟩
  · -- the entry that is left is the one entry there was
    rintro ⟨hclient, e₀, he₀, hbit⟩
    obtain ⟨e', he'⟩ := List.exists_mem_of_ne_nil _ ((hasClient_iff _ _ _).mp hclient)
    obtain ⟨e, he, hch⟩ := hold e' he'
    rw [entries_unique h.one he₀, List.mem_singleton] at he
    exact ⟨e', he', by rwa [hch, he]⟩

/-- **One turn and the mask.** A bit is set by a request for the channel, and lasts as long as
the entry does. -/
theorem TurnStep.wants {net net' : Net} {t : HostTurn} (hstep : TurnStep net t net')
    (h : net.Hosting) (f : FrameID) (p : Int) {c : Channel} (hc₀ : 0 ≤ c)
    (hc : c.isVideo = true) : net'.Wants f p c ↔
      t.Asks p f c ∨ t.after.hasClient f p = true ∧ net.Wants f p c := by
  cases hstep with
  | @receive _ fuel p' now ttimeoff spkt pkt effects hactive hrecv =>
      obtain ⟨-, -, hcase⟩ := receiveHost_spec h.host hactive h.named hrecv
      split_ifs at hcase with hreq
      · obtain ⟨hstream, m, hm, hchan, hnet⟩ := hcase
        have hmatch : net'.Matches spkt f ↔ ∃ x ∈ m, x.1.frame = f := by
          rw [hm, Matches, hstream, Matches]
        by_cases hp : p' = p
        · subst hp
          have hasks : HostTurn.Asks p' f c ⟨.receive p' spkt pkt, effects, net'⟩ ↔
              ∃ x ∈ m, x.1.frame = f ∧ x.1.channel = c := by
            constructor
            · rintro ⟨_, _, ⟨⟩, -, hcc, hmatches⟩
              obtain ⟨x, hx, hf⟩ := hmatch.mp hmatches
              exact ⟨x, hx, hf, (hchan x hx).1.trans hcc⟩
            · rintro ⟨x, hx, hf, hcc⟩
              exact ⟨spkt, pkt, rfl, hreq, (hchan x hx).1.symm.trans hcc, hmatch.mpr ⟨x, hx, hf⟩⟩
          have hgrant := @wants_registerAll net p' m (fun x hx => (hchan x hx).2) f c hc₀ hc
          rw [hasks, hnet, hgrant]
          refine or_congr_right ⟨fun hw => ⟨?_, hw⟩, And.right⟩
          have hw' : (net.registerAll (some p') m).Wants f p' c := hgrant.mpr (.inr hw)
          exact hw'.hasClient
        · rw [or_iff_right (HostTurn.not_asks (by simp [hp]) f c)]
          refine wants_congr ?_ c
          rw [hnet]
          exact entries_registerAll (.inl hp) net
      · have hasks : ¬ HostTurn.Asks p f c ⟨.receive p' spkt pkt, effects, net'⟩ := by
          rintro ⟨_, _, ⟨⟩, hreq', -⟩
          exact hreq hreq'
        rw [or_iff_right hasks]
        exact wants_congr (entries_congr hcase f p) c
  | post hpost =>
      rw [or_iff_right (HostTurn.not_asks (by simp) f c)]
      exact wants_post h hpost f p c
  | setPaused value =>
      rw [or_iff_right (HostTurn.not_asks (by simp) f c)]
      exact wants_congr rfl c
  | begin =>
      rw [or_iff_right (HostTurn.not_asks (by simp) f c)]
      refine wants_congr (entries_congr ?_ f p) c
      rw [begin_host h.host]
  | endStream =>
      rw [or_iff_right (HostTurn.not_asks (by simp) f c)]
      exact wants_congr rfl c

/-- **The mask is the history**: the bit of a channel stands exactly if the peer asked for the
channel while it had the entry. -/
theorem wants_iff_askedFor {net₀ net : Net} {es : List HostTurn} (h₀ : net₀.FreshHost)
    (run : Runs TurnStep net₀ es net) : net.Hosting ∧ ∀ f p (c : Channel), 0 ≤ c →
      c.isVideo = true → (net.Wants f p c ↔ AskedFor p f c es) := by
  refine run.invariant_hist
    (I := fun es net => net.Hosting ∧ ∀ f p (c : Channel), 0 ≤ c → c.isVideo = true →
      (net.Wants f p c ↔ AskedFor p f c es)) ⟨h₀.hosting, ?_⟩ ?_
  · intro f p c _ _
    simp [Wants, entries, Net.clients, h₀.clients f, AskedFor]
  · rintro es net t net' ⟨hh, hw⟩ hstep
    refine ⟨hstep.hosting hh, fun f p c hc₀ hc => ?_⟩
    rw [hstep.wants hh f p hc₀ hc, hw f p c hc₀ hc, askedFor_snoc]

/-! ## §4  What goes out -/

/-- A post that concerns the peer: it is connected and has an entry for the frame, and the
stream sends. -/
structure Reaches (net : Net) (p : Int) (deliver : Destination → SendOutcome)
    (spkt : StreamPacket) : Prop where
  serving : net.Serving
  entry : net.hasClient spkt.frame p = true
  connected : deliver (.client p) ≠ .noPeer
  channel : 0 ≤ spkt.channel

theorem post_ok {net : Net} {deliver : Destination → SendOutcome} {spkt : StreamPacket}
    (hs : net.Serving) (hc : 0 ≤ spkt.channel) (pkt : DataPacket) :
    ∃ net' effects, net.post deliver spkt pkt = .ok (net', effects) := by
  have hshift : ¬ spkt.channel < 0 := not_lt.mpr hc
  unfold post send
  simp only [hs.active, hs.host, hs.unpaused, hshift, Bool.not_true, Bool.false_eq_true,
    decide_false, Bool.false_and, if_false, if_true]
  cases net.clientsLocal spkt.frame with
  | none => exact ⟨_, _, rfl⟩
  | some cs => exact ⟨_, _, rfl⟩

/-- A post sends a peer with an entry what the entry makes of the packet, once. -/
theorem post_sends {net net' : Net} {p : Int} {deliver : Destination → SendOutcome}
    {spkt : StreamPacket} {pkt : DataPacket} {effects : List Effect} (h : net.Hosting)
    (hr : net.Reaches p deliver spkt) (hpost : net.post deliver spkt pkt = .ok (net', effects)) :
    ∃ e ∈ net.entries spkt.frame p,
      transmissions (.client p) effects = [forClient e (spkt, pkt)] := by
  obtain ⟨ok, hsend⟩ := post_eq_send hpost
  obtain ⟨-, -, heffects, -⟩ := send_spec hr.serving hsend
  obtain ⟨e, he⟩ := List.exists_mem_of_ne_nil _ ((hasClient_iff _ _ _).mp hr.entry)
  refine ⟨e, he, ?_⟩
  have hsent := transmissions_sendEffects hr.connected spkt pkt (net.clients spkt.frame)
  rw [heffects, hsent]
  exact congrArg (List.map fun c => forClient c (spkt, pkt)) (entries_unique h.one he)

/-- Whatever a post sends has the header of the post. -/
theorem post_header {net net' : Net} {deliver : Destination → SendOutcome} {spkt : StreamPacket}
    {pkt : DataPacket} {effects : List Effect} (hhost : net.host = true)
    (hpost : net.post deliver spkt pkt = .ok (net', effects)) (dest : Destination) :
    ∀ x ∈ transmissions dest effects, x.1 = spkt := by
  obtain ⟨ok, hsend⟩ := post_eq_send hpost
  by_cases hserving : net.Serving
  · obtain ⟨-, -, rfl, -⟩ := send_spec hserving hsend
    intro x hx
    obtain ⟨a, ha, hax⟩ := List.mem_filterMap.mp hx
    obtain ⟨e, -, hae⟩ := List.mem_flatMap.mp ha
    unfold sendEffects at hae
    split at hae
    · cases hae
    · rw [List.mem_singleton.mp hae] at hax
      simp only [Option.ite_none_right_eq_some, Option.some.injEq] at hax
      rw [← hax.2]
  · obtain ⟨-, rfl⟩ := send_idle hhost hserving hsend
    rintro x ⟨⟩

theorem strips_iff {spkt : StreamPacket} {pkt : DataPacket} {e : StreamClientLocal} :
    strips spkt pkt e = true ↔ spkt.channel.isVideo = true ∧ pkt.data ≠ [] ∧
      e.channels.getLsbD spkt.channel.toNat = false := by
  rw [strips, Bool.and_eq_true, Bool.and_eq_true, and_assoc]
  refine and_congr_right fun hvideo => and_congr (by simp) ?_
  rw [beq_iff_eq, channelMask_and_eq_zero hvideo]

/-- What the peer was posted of the frame. -/
def HostTurn.posted (f : FrameID) (t : HostTurn) : List Packet :=
  match t.call with
  | .post _ spkt pkt => if spkt.frame = f then [(spkt, pkt)] else []
  | _ => []

/-- What the peer was sent of the frame. -/
def HostTurn.sent (p : Int) (f : FrameID) (t : HostTurn) : List Packet :=
  (transmissions (.client p) t.effects).filter fun x => x.1.frame = f

/-- A turn in which whatever is posted of the frame concerns the peer. -/
def ReachingStep (p : Int) (f : FrameID) (net : Net) (t : HostTurn) (net' : Net) : Prop :=
  TurnStep net t net' ∧ ∀ deliver spkt pkt, t.call = .post deliver spkt pkt → spkt.frame = f →
    net.Reaches p deliver spkt

/-- What a receiver counts by: the header, and the number that an EndFrame announces. -/
def countedBy (x : Packet) : StreamPacket × UInt8 := (x.1, x.2.dataFlags)

theorem countedBy_forClient (e : StreamClientLocal) (x : Packet) :
    countedBy (forClient e x) = countedBy x := by
  rw [countedBy, forClient]
  split_ifs <;> rfl

theorem ReachingStep.counted {net net' : Net} {p : Int} {f : FrameID} {t : HostTurn}
    (hstep : ReachingStep p f net t net') (h : net.Hosting) :
    (t.sent p f).map countedBy = (t.posted f).map countedBy := by
  obtain ⟨hturn, hreach⟩ := hstep
  cases hturn with
  | @receive _ fuel p' now ttimeoff spkt pkt effects hactive hrecv =>
      obtain ⟨-, hquiet, -⟩ := receiveHost_spec h.host hactive h.named hrecv
      simp [HostTurn.sent, HostTurn.posted, hquiet]
  | @post _ deliver spkt pkt effects hpost =>
      by_cases hf : spkt.frame = f
      · obtain ⟨e, -, hsent⟩ := post_sends h (hreach _ _ _ rfl hf) hpost
        have hkeep : (forClient e (spkt, pkt)).1.frame = f := hf
        simp [HostTurn.sent, HostTurn.posted, hsent, hkeep, hf, countedBy_forClient]
      · have hnone : HostTurn.sent p f ⟨.post deliver spkt pkt, effects, net'⟩ = [] := by
          refine List.filter_eq_nil_iff.mpr fun x hx => ?_
          rw [post_header h.host hpost _ x hx]
          simpa using hf
        simp [hnone, HostTurn.posted, hf]
  | setPaused | begin | endStream => rfl

theorem frameOf_congr {f : FrameID} {t : Int} {n : ℕ} {xs ys : List Packet}
    (heq : ys.map countedBy = xs.map countedBy) (h : FrameOf f t n xs) : FrameOf f t n ys := by
  have hsame : ∀ y ∈ ys, ∃ x ∈ xs, x.1 = y.1 ∧ x.2.dataFlags = y.2.dataFlags := by
    intro y hy
    obtain ⟨x, hx, hxy⟩ := List.mem_map.mp (heq ▸ List.mem_map_of_mem hy)
    exact ⟨x, hx, Prod.mk.inj hxy⟩
  constructor
  · intro y hy
    obtain ⟨x, hx, hhead, -⟩ := hsame y hy
    exact hhead ▸ h.place x hx
  · have hlen := congrArg List.length heq
    rw [List.length_map, List.length_map] at hlen
    exact hlen.trans h.size
  · have hcount := congrArg (List.countP fun a => a.1.isEndFrame) heq
    rw [List.countP_map, List.countP_map] at hcount
    exact hcount.trans h.one
  · intro y hy hend
    obtain ⟨x, hx, hhead, hflags⟩ := hsame y hy
    rw [← hflags]
    exact h.count x hx (by rw [hhead]; exact hend)

/-- Over any further run, each packet posted to the peer is counted once at the peer. -/
theorem counted_run {net net' : Net} {p : Int} {f : FrameID} {fs : List HostTurn}
    (h : net.Hosting) (run : Runs (ReachingStep p f) net fs net') :
    (fs.flatMap (HostTurn.sent p f)).map countedBy =
      (fs.flatMap (HostTurn.posted f)).map countedBy := by
  have hinv := run.invariant_hist
    (I := fun fs net' => net'.Hosting ∧ (fs.flatMap (HostTurn.sent p f)).map countedBy =
      (fs.flatMap (HostTurn.posted f)).map countedBy) ⟨h, rfl⟩ ?_
  · exact hinv.2
  · rintro fs net t net' ⟨hh, heq⟩ hstep
    refine ⟨hstep.1.hosting hh, ?_⟩
    simp only [List.flatMap_append, List.map_append, heq, List.flatMap_singleton,
      hstep.counted hh]

/-- The packets of a timestamp are counted alike, too. -/
theorem counted_at {xs ys : List Packet} (h : ys.map countedBy = xs.map countedBy) (t : Int) :
    (ys.filter fun y => y.1.timestamp = t).map countedBy =
      (xs.filter fun x => x.1.timestamp = t).map countedBy := by
  have hat := congrArg (List.filter fun a : StreamPacket × UInt8 => a.1.timestamp = t) h
  rw [List.filter_map, List.filter_map] at hat
  exact hat

/-! ## §5  Stripped, and never dropped -/

/-- **Channels nobody asked for are stripped, and never dropped.** After any history of a host,
a post that concerns a peer sends it one message under the header posted, with the data left
out exactly if it is video that the peer did not ask for while it had its entry. So over any
further run in which the posts of the frame concern the peer, it gets as many packets for a
timestamp as were posted, and the count on the EndFrame fits them. -/
theorem unrequested_stripped {net₀ net : Net} {es : List HostTurn} (h₀ : net₀.FreshHost)
    (run : Runs TurnStep net₀ es net) (p : Int) (f : FrameID) :
    (∀ deliver spkt pkt, spkt.frame = f → net.Reaches p deliver spkt →
      ∃ net' effects msg, net.post deliver spkt pkt = .ok (net', effects) ∧
        transmissions (.client p) effects = [(spkt, msg)] ∧
        (msg.data = pkt.data ↔
          32 ≤ spkt.channel ∨ pkt.data = [] ∨ AskedFor p f spkt.channel es) ∧
        (msg.data = pkt.data → msg = pkt) ∧
        (msg.data ≠ pkt.data → msg.data = [] ∧ msg.codec = pkt.codec ∧
          msg.bitrate = pkt.bitrate ∧ msg.frameCount = pkt.frameCount ∧
          msg.dataFlags = pkt.dataFlags)) ∧
      ∀ fs net', Runs (ReachingStep p f) net fs net' → ∀ t,
        let posted := (fs.flatMap (HostTurn.posted f)).filter fun x => x.1.timestamp = t
        let sent := (fs.flatMap (HostTurn.sent p f)).filter fun x => x.1.timestamp = t
        sent.length = posted.length ∧ ∀ n, FrameOf f t n posted → FrameOf f t n sent := by
  obtain ⟨hh, hmask⟩ := wants_iff_askedFor h₀ run
  constructor
  · rintro deliver spkt pkt rfl hr
    obtain ⟨net', effects, hpost⟩ := post_ok hr.serving hr.channel pkt
    obtain ⟨e, he, hsent⟩ := post_sends hh hr hpost
    have hstrips : strips spkt pkt e = true ↔
        ¬ (32 ≤ spkt.channel ∨ pkt.data = [] ∨ AskedFor p spkt.frame spkt.channel es) := by
      rw [strips_iff, not_or, not_or, Channel.isVideo, decide_eq_true_iff, not_le]
      refine and_congr_right fun hlt => and_congr_right fun _ => ?_
      rw [← hmask spkt.frame p spkt.channel hr.channel (decide_eq_true hlt), Wants,
        entries_unique hh.one he]
      simp
    refine ⟨net', effects, _, hpost, hsent, ?_⟩
    by_cases hstrip : strips spkt pkt e = true
    · have hdata : pkt.data ≠ [] := (strips_iff.mp hstrip).2.1
      rw [if_pos hstrip]
      exact ⟨iff_of_false hdata.symm (hstrips.mp hstrip), fun heq => absurd heq hdata.symm,
        fun _ => ⟨rfl, rfl, rfl, rfl, rfl⟩⟩
    · rw [if_neg hstrip]
      have hwanted := not_not.mp fun hnot => hstrip (hstrips.mpr hnot)
      exact ⟨iff_of_true rfl hwanted, fun _ => rfl, fun hne => absurd rfl hne⟩
  · intro fs net' run' t
    have hcount := counted_at (counted_run hh run') t
    refine ⟨?_, fun n => frameOf_congr hcount⟩
    have hlen := congrArg List.length hcount
    rwa [List.length_map, List.length_map] at hlen

/-- Peer 3 asks for two frames of the colour channel. -/
theorem askedColour_run : ∃ t net, Runs TurnStep { host := true, active := true } [t] net ∧
    net.Serving ∧ net.hasClient ⟨1⟩ 3 = true ∧ ¬ AskedFor 3 ⟨1⟩ 1 [t] := by
  have hstep : TurnStep { host := true, active := true } ⟨.receive 3
      ⟨0, 0, 1, Channel.kColour, kFlagRequest, 0, 0⟩ { frameCount := 2 }, _, _⟩ _ :=
    .receive rfl (show receiveHost 1 _ 3 7 0 ⟨0, 0, 1, Channel.kColour, kFlagRequest, 0, 0⟩
      { frameCount := 2 } = .ok _ from rfl)
  refine ⟨_, _, Runs.init.snoc hstep, ⟨rfl, rfl, rfl⟩, rfl, ?_⟩
  intro hasked
  rcases askedFor_snoc.mp (show AskedFor 3 ⟨1⟩ 1 ([] ++ [_]) from hasked) with hasks | ⟨-, hnil⟩
  · obtain ⟨_, _, ⟨⟩, -, hchannel, -⟩ := hasks
    exact absurd hchannel (by decide)
  · exact since_nil hnil

/-- Channel 1, which it did not ask for, comes without its data. -/
theorem depth_stripped : ∃ t net effects msg,
    Runs TurnStep { host := true, active := true } [t] net ∧
      transmissions (.client 3) effects = [(⟨40, 0, 1, 1, 0, 0, 0⟩, msg)] ∧
      msg.data ≠ [1, 2, 3] := by
  obtain ⟨t, net, run, hserving, hentry, hnot⟩ := askedColour_run
  have hreaches : net.Reaches 3 (fun _ => .sent) ⟨40, 0, 1, 1, 0, 0, 0⟩ :=
    ⟨hserving, hentry, by simp, by simp⟩
  obtain ⟨-, effects, msg, -, hsent, hiff, -⟩ :=
    (unrequested_stripped ⟨rfl, fun _ => rfl, rfl⟩ run 3 ⟨1⟩).1 (fun _ => .sent)
      ⟨40, 0, 1, 1, 0, 0, 0⟩ { data := [1, 2, 3] } rfl hreaches
  refine ⟨t, net, effects, msg, run, hsent, fun hdata => ?_⟩
  rcases hiff.mp hdata with hlarge | hempty | hasked
  · exact absurd hlarge (by decide)
  · cases hempty
  · exact hnot hasked

/-- A stream that was paused sends nothing, whatever its clients asked for. -/
theorem paused_post_unsent : ∃ es net, Runs TurnStep { host := true, active := true } es net ∧
    net.hasClient ⟨1⟩ 3 = true ∧
    net.post (fun _ => .sent) ⟨40, 0, 1, Channel.kColour, 0, 0, 0⟩ { data := [1, 2, 3] } =
      .ok (net, []) := by
  obtain ⟨t, net, run, hserving, hentry, -⟩ := askedColour_run
  refine ⟨_, net.setPaused true, run.snoc (.setPaused true), hentry, ?_⟩
  have hactive : (net.setPaused true).active = true := hserving.active
  rw [post, send, hactive]
  rfl

end BeyondProtocol.Net
