import BeyondProtocol.Net.Flow
import BeyondProtocol.Net.Requests

/-!
# The size of a request

The application may set how many frames a client asks for at a time. The client counts
that many EndFrames down to half of it, as an `int`; on the way to the host the number
passes through two fields of eight bits. The request has to last until the next one.
-/

namespace BeyondProtocol.Net

open Framework

/-- `setProperty(StreamProperty::kRequestSize, n)` -/
def setRequestSize (net : Net) (n : Int) : Net := { net with framesToRequest := n }

/-! ## §1  The countdown of the client -/

/-- An EndFrame of frameset `i` arrives, and the client asks again or counts it. -/
def CountStep (i : Fin 5) (net : Net) (asks : Bool) (net' : Net) : Prop :=
  (∃ now effects, net.countEndFrame now i = .ok (net', effects)) ∧
    asks = decide (net.tally i ≤ net.framesToRequest.tdiv 2)

/-- The EndFrames that were counted since the client asked last. -/
def countedSince (es : List Bool) : ℕ := (es.reverse.takeWhile fun asks => !asks).length

@[simp] theorem countedSince_ask (es : List Bool) : countedSince (es ++ [true]) = 0 := by
  simp [countedSince]

@[simp] theorem countedSince_count (es : List Bool) :
    countedSince (es ++ [false]) = countedSince es + 1 := by
  simp [countedSince]

theorem CountStep.spec {i : Fin 5} {net net' : Net} {asks : Bool} (h : CountStep i net asks net') :
    net'.framesToRequest = net.framesToRequest ∧
      net'.tally i = if asks then net.framesToRequest else net.tally i - 1 := by
  obtain ⟨⟨now, effects, hcount⟩, rfl⟩ := h
  rw [countEndFrame] at hcount
  split_ifs at hcount with hlow
  · obtain ⟨es, -, hret⟩ := bind_eq_ok.mp hcount
    cases hret
    simp [hlow]
  · cases hcount
    simp [hlow]

/-- The countdown of frameset `i` after the EndFrames `es`, with `n` frames in a request. -/
structure Counting (n : Int) (i : Fin 5) (es : List Bool) (net : Net) : Prop where
  size : net.framesToRequest = n
  tally : net.tally i = n - countedSince es
  half : n.tdiv 2 ≤ net.tally i

theorem counting_begin {n : Int} (hn : 1 ≤ n) (i : Fin 5) {net : Net} (hhost : net.host = false)
    (hactive : net.active = false) : Counting n i [] (net.setRequestSize n).begin := by
  have hbegin : (net.setRequestSize n).begin =
      { net with framesToRequest := n, tally := fun _ => n, active := true } := by
    simp [begin, setRequestSize, hhost, hactive]
  rw [hbegin]
  refine ⟨rfl, by simp [countedSince], ?_⟩
  show n.tdiv 2 ≤ n
  rw [Int.tdiv_eq_ediv_of_nonneg (by omega)]
  omega

theorem Counting.step {n : Int} {i : Fin 5} {es : List Bool} {net net' : Net} {asks : Bool}
    (hn : 1 ≤ n) (h : Counting n i es net) (hstep : CountStep i net asks net') :
    Counting n i (es ++ [asks]) net' := by
  obtain ⟨hsize, htally⟩ := hstep.spec
  have hasks := hstep.2
  rw [h.size] at hsize htally hasks
  have hhalf : n.tdiv 2 = n / 2 := Int.tdiv_eq_ediv_of_nonneg (by omega)
  refine ⟨hsize, ?_, ?_⟩
  · cases asks with
    | true => simpa using htally
    | false =>
        rw [htally, h.tally, countedSince_count]
        push_cast
        ring
  · cases asks with
    | true =>
        rw [htally, hhalf, if_pos rfl]
        omega
    | false =>
        have hhigh : n.tdiv 2 < net.tally i := not_le.mp (of_decide_eq_false hasks.symm)
        rw [htally, if_neg Bool.false_ne_true]
        omega

/-! ## §2  The credit at the host -/

/-- A request of a client with request size `n` that matches frame `f`, and that the host has
granted. -/
inductive Granted (n : Int) (peerid : Int) (f : FrameID) : Net → Net → Prop where
  | mk {client host host' : Net} {hostId : UUID} {c : Channel} {id : FrameID} {doreset : Bool}
      {x : Packet} {fuel : ℕ} {now now' ttimeoff buffering : Int} {effects effects' : List Effect}
      (hsize : client.framesToRequest = n)
      (hsend : client.sendRequest now c id.frameset id.source doreset = .ok effects)
      (hx : transmissions (.host hostId) effects = [x])
      (hrecv : receive fuel host peerid now' ttimeoff buffering x.1.onWire x.2 =
        .ok (host', effects'))
      (hmatch : host.Matches x.1 f) : Granted n peerid f host host'

theorem isRequest_of_send {net : Net} {hostId : UUID} {now : Int} {c : Channel} {id : FrameID}
    {doreset : Bool} {effects : List Effect} {x : Packet}
    (hsend : net.sendRequest now c id.frameset id.source doreset = .ok effects)
    (hx : transmissions (.host hostId) effects = [x]) :
    IsRequest (net.framesToRequest % 256).toNat x := by
  unfold sendRequest at hsend
  split_ifs at hsend
  · cases hsend
    cases hx
  · split at hsend
    · cases hsend
    · rename_i peer _
      cases hsend
      by_cases hpeer : peer = hostId
      · simp only [transmissions, List.filterMap_cons, List.filterMap_nil, hpeer, if_true] at hx
        obtain rfl := List.singleton_inj.mp hx
        exact net.isRequest_requestPacket _ _ _ _ _
      · simp [transmissions, hpeer] at hx

/-- Granting several requests for as many frames each raises the credit of their frames. -/
theorem credit_registerAll {peerid : Int} {f : FrameID} {k : ℕ} {m : List Packet} {net : Net}
    (hcount : ∀ x ∈ m, x.2.frameCount.toNat = k) (hf : ∃ x ∈ m, x.1.frame = f) :
    credit (net.registerAll (some peerid) m) f peerid = max (credit net f peerid) k := by
  induction m generalizing net with
  | nil => simp at hf
  | cons y m ih =>
      have hcount' : ∀ x ∈ m, x.2.frameCount.toNat = k := fun x hx => hcount x (by simp [hx])
      show credit ((net.registerClient y.1 y.2 peerid).registerAll (some peerid) m) f peerid = _
      have hfirst : credit (net.registerClient y.1 y.2 peerid) f peerid =
          if y.1.frame = f then max (credit net f peerid) k else credit net f peerid := by
        split_ifs with hy
        · subst hy
          rw [credit_registerClient_self, hcount y (by simp)]
        · rw [credit_of_entries (entries_registerClient (.inr hy) y.2), credit_of_entries rfl]
      by_cases hm : ∃ x ∈ m, x.1.frame = f
      · rw [ih hcount' hm, hfirst]
        split_ifs
        · rw [max_assoc, max_self]
        · rfl
      · have hy : y.1.frame = f := by
          obtain ⟨x, hx, hxf⟩ := hf
          rcases List.mem_cons.mp hx with rfl | hx
          · exact hxf
          · exact absurd ⟨x, hx, hxf⟩ hm
        rw [credit_of_entries (entries_registerAll (.inr fun x hx heq => hm ⟨x, hx, heq⟩) _),
          ← credit_of_entries rfl, hfirst, if_pos hy]

/-- In every frame that the request matches the host grants what arrives of the request size. -/
theorem Granted.credit {n peerid : Int} {f : FrameID} {host host' : Net}
    (h : Granted n peerid f host host') (hactive : host.active = true)
    (hhost : host.host = true) (hnamed : host.FramesNamed) :
    credit host' f peerid = max (credit host f peerid) (n % 256) := by
  cases h with
  | @mk client host host' hostId c id doreset x fuel now now' ttimeoff buffering effects effects'
      hsize hsend hx hrecv hmatch =>
      have hreq := isRequest_of_send hsend hx
      obtain ⟨spkt, pkt, called, hcall, -⟩ := receive_isRequest hactive hhost hreq hrecv
      obtain ⟨m, hm, hall, rfl⟩ := processRequest_matches hnamed hcall
      have hcount : ∀ y ∈ m, y.2.frameCount.toNat = (n % 256).toNat := by
        intro y hy
        rw [(hall y hy).count, ← hsize]
        exact hreq.count
      rw [credit_registerAll hcount ((hm f).mpr hmatch), Int.toNat_of_nonneg (by omega)]

/-! ## §3  A request lasts until the next one -/

/-- Whatever request of a client with request size `n` is granted, by a host that heard of its
frames in packets, the credit it leaves in a frame is not below the number of EndFrames the
client counts before its next request. -/
def RequestLasts (n : Int) : Prop :=
  ∀ peerid f host host', host.active = true → host.host = true → host.FramesNamed →
    Granted n peerid f host host' → n - n.tdiv 2 + 1 ≤ credit host' f peerid

/-- A client that asks for colour of frame (1, 0). -/
def asker (n : Int) : Net :=
  { host := false, active := true, framesToRequest := n, peer := some (.fill 7) }

/-- Its request, with the count as it travels. -/
def askerRequest (count : UInt8) : Packet :=
  ({ timestamp := 0, streamID := 1, frameNumber := 0, channel := 0, flags := 5 },
    { codec := Codec.kAny, frameCount := count, bitrate := 255 })

/-- A host that has heard of no frame. -/
def newHost : Net := begin { host := true }

theorem newHost_framesNamed : newHost.FramesNamed := by
  intro i hi
  cases hi

theorem receive_askerRequest (count : UInt8) : ∃ r, receive 1 newHost 3 0 0 0
    (askerRequest count).1.onWire (askerRequest count).2 = .ok r := by
  simp only [askerRequest, StreamPacket.onWire]
  exact ⟨_, rfl⟩

theorem granted_asker (n : Int) : ∃ host', Granted n 3 ⟨256⟩ newHost host' ∧
    credit host' ⟨256⟩ 3 = n % 256 := by
  obtain ⟨⟨host', effects'⟩, hrecv⟩ := receive_askerRequest (UInt8.ofInt n)
  have hframe : (⟨256⟩ : FrameID) = FrameID.ofPair 1 0 := by decide
  have h : Granted n 3 ⟨256⟩ newHost host' :=
    @Granted.mk n 3 ⟨256⟩ (asker n) _ _ (.fill 7) 0 ⟨256⟩ true _ 1 0 0 0 0 _ _
      rfl rfl rfl hrecv ((matches_single rfl _ _).mpr hframe)
  refine ⟨host', h, (h.credit rfl rfl newHost_framesNamed).trans ?_⟩
  exact max_eq_right (Int.emod_nonneg n (by decide))

/-- **A request lasts until the next one for request sizes from 2 to 255**, and for no
others. A client whose request size `n` was set before it began asks again at the EndFrame
number `n - n / 2 + 1` since it last asked. -/
theorem requestLasts_iff {n : Int} (hn : 1 ≤ n) :
    (∀ net : Net, net.host = false → net.active = false → ∀ i es net' asks net'',
      Runs (CountStep i) (net.setRequestSize n).begin es net' → CountStep i net' asks net'' →
        (asks = true ↔ (countedSince es : Int) + 1 = n - n.tdiv 2 + 1)) ∧
    (RequestLasts n ↔ 2 ≤ n ∧ n ≤ 255) := by
  have hhalf : n.tdiv 2 = n / 2 := Int.tdiv_eq_ediv_of_nonneg (by omega)
  constructor
  · intro net hhost hactive i es net' asks net'' run hstep
    have hcounting := run.invariant_hist (I := Counting n i) (counting_begin hn i hhost hactive)
      fun es s e t h hcount => h.step hn hcount
    have hlast := hcounting.half
    rw [hstep.2, decide_eq_true_iff, hcounting.size]
    rw [hcounting.tally] at hlast ⊢
    omega
  · rw [RequestLasts, hhalf]
    constructor
    · intro hlasts
      obtain ⟨host', hgranted, hcredit⟩ := granted_asker n
      have h := hlasts 3 ⟨256⟩ _ host' rfl rfl newHost_framesNamed hgranted
      rw [hcredit] at h
      omega
    · rintro ⟨hlow, hhigh⟩ peerid f host host' hactive hhost hnamed hgranted
      rw [hgranted.credit hactive hhost hnamed]
      omega

theorem requestLasts_default : RequestLasts 80 :=
  (requestLasts_iff (by decide)).2.mpr (by decide)

/-- A request for one frame, and one for 256, which arrives as a request for none. -/
theorem request_runs_out :
    (∃ host', Granted 1 3 ⟨256⟩ newHost host' ∧ credit host' ⟨256⟩ 3 = 1) ∧
    ¬ RequestLasts 1 ∧
    (∃ host', Granted 256 3 ⟨256⟩ newHost host' ∧ credit host' ⟨256⟩ 3 = 0) ∧
    ¬ RequestLasts 256 := by
  obtain ⟨host₁, hone, hcredit₁⟩ := granted_asker 1
  obtain ⟨host₂, hmany, hcredit₂⟩ := granted_asker 256
  refine ⟨⟨host₁, hone, hcredit₁⟩, fun hlasts => ?_, ⟨host₂, hmany, hcredit₂⟩, fun hlasts => ?_⟩
  · have h := hlasts 3 ⟨256⟩ _ host₁ rfl rfl newHost_framesNamed hone
    rw [hcredit₁] at h
    exact absurd h (by decide)
  · have h := hlasts 3 ⟨256⟩ _ host₂ rfl rfl newHost_framesNamed hmany
    rw [hcredit₂] at h
    exact absurd h (by decide)

end BeyondProtocol.Net
