import BeyondProtocol.Streams.FileCounters
import BeyondProtocol.Streams.FileTimes

/-!
# The order of a replay

A tick hands the packets that are due to the thread pool, in the order of the
file, and every task calls the callbacks for its own packet. The packets of one
tick may be seen in any order; those of the next tick come behind them.

A tick computes times in 64 bits. It cannot leave them if the timestamps of the
file and the clock keep some distance from their ends: then every tick whose
counters stay in range comes back.
-/

namespace BeyondProtocol.File

open Framework

/-! ## §1  Times that fit -/

/-- A time far enough from the end of 64 bits. -/
def Timely (t : Int) : Prop := 0 ≤ t ∧ t < 2 ^ 62 - 200

/-- No packet of timely timestamps is played later. -/
def latest : Int := 2 ^ 63 - 400

/-- The times of a stream. -/
structure InTime (f : File) : Prop where
  start : Timely f.timestart
  reached : ∀ s, (f.framesets s).timestamp ≤ latest

theorem int64_eq {i : Int} (hlow : -2 ^ 63 ≤ i) (hhigh : i < 2 ^ 63) : int64 i = .ok i :=
  if_pos ⟨hlow, hhigh⟩

theorem Buffers.firstTs_timely {file : List Packet} {f : File} (h : Buffers file f)
    (htimes : ∀ x ∈ file, Timely x.1.timestamp) (s : UInt8) :
    -1 ≤ (f.framesets s).firstTs ∧ (f.framesets s).firstTs < 2 ^ 62 - 200 := by
  rw [h.firstTs]
  cases hfirst : firstTimestamp (probed file 1000 (-1000)) s with
  | none => exact ⟨le_rfl, by decide⟩
  | some first =>
      obtain ⟨x, hx, -, rfl⟩ := firstTimestamp_mem hfirst
      obtain ⟨hlow, hhigh⟩ := htimes x ((probed_front file 1000 (-1000)).subset hx)
      exact ⟨by rw [Option.getD_some]; omega, hhigh⟩

section

variable {f : File} (hstart : Timely f.timestart)
  (hfirst : ∀ s, -1 ≤ (f.framesets s).firstTs ∧ (f.framesets s).firstTs < 2 ^ 62 - 200)

include hstart hfirst

theorem asBuffered_latest {x : Packet} (hx : Timely x.1.timestamp) :
    (f.asBuffered x).1.timestamp ≤ latest := by
  obtain ⟨hlow, -⟩ := hfirst x.1.streamID
  unfold Timely at hstart hx
  show x.1.timestamp - _ + f.timestart ≤ 2 ^ 63 - 400
  omega

theorem adjust_timely {x : Packet} (hx : Timely x.1.timestamp) :
    f.adjust x = .ok (f.asBuffered x) := by
  obtain ⟨hlow, hhigh⟩ := hfirst x.1.streamID
  unfold Timely at hstart hx
  unfold adjust
  rw [int64_eq (by omega) (by omega), ok_bind, int64_eq (by omega) (by omega), ok_bind]
  rfl

theorem readAhead_timely (extended : Int) {xs : List Packet}
    (hxs : ∀ x ∈ xs, Timely x.1.timestamp) : ∃ r, f.readAhead extended xs = .ok r := by
  induction xs with
  | nil => exact ⟨_, rfl⟩
  | cons x xs ih =>
      obtain ⟨hx, hxs⟩ := List.forall_mem_cons.mp hxs
      obtain ⟨r, hr⟩ := ih hxs
      unfold readAhead
      rw [adjust_timely hstart hfirst hx, ok_bind]
      dsimp only
      split_ifs
      · exact ⟨_, rfl⟩
      · rw [hr]
        exact ⟨_, rfl⟩

end

theorem extendedTs_timely {f : File} (h : InTime f) : ∃ extended, f.extendedTs = .ok extended := by
  have hstart := h.start
  unfold Timely at hstart
  refine ⟨_, int64_eq ?_ ?_⟩
  · have hle := (Finset.le_fold_max (-2 ^ 63 : Int) (b := -2 ^ 63) (s := f.known)
      (f := fun s => if (f.framesets s).timestamp ≤ 0 then f.timestart
        else (f.framesets s).timestamp)).mpr (.inl le_rfl)
    omega
  · have hle : f.known.fold max (-2 ^ 63) (fun s => if (f.framesets s).timestamp ≤ 0 then
        f.timestart else (f.framesets s).timestamp) ≤ latest := by
      refine (Finset.fold_max_le _).mpr ⟨by decide, fun s _ => ?_⟩
      split_ifs
      · unfold latest
        omega
      · exact h.reached s
    unfold latest at hle
    omega

/-- Reading ahead comes back. -/
theorem fillData_timely {f : File} (h : InTime f)
    (hfirst : ∀ s, -1 ≤ (f.framesets s).firstTs ∧ (f.framesets s).firstTs < 2 ^ 62 - 200)
    (hunread : ∀ x ∈ f.unread, Timely x.1.timestamp) : ∃ f', f.fillData = .ok f' := by
  obtain ⟨extended, hextended⟩ := extendedTs_timely h
  obtain ⟨r, hr⟩ := readAhead_timely h.start hfirst extended hunread
  unfold fillData
  rw [hextended, ok_bind]
  dsimp only
  split_ifs
  · exact ⟨_, rfl⟩
  · rw [hr]
    exact ⟨_, rfl⟩

/-! ## §2  The loop and the EndFrames -/

theorem endFrames_times (d : FramesetData) (sid : UInt8) :
    Ensures (· = .overflow) (d.endFrames sid) fun r => r.1.timestamp = d.timestamp := by
  unfold FramesetData.endFrames
  split_ifs
  · exact .error (by decide)
  · exact .ok rfl

theorem finishFrame_times (d : FramesetData) (sid : UInt8) :
    Ensures (· = .overflow) (d.finishFrame sid) fun r => r.1.timestamp = d.timestamp := by
  unfold FramesetData.finishFrame
  split_ifs
  · exact endFrames_times d sid
  · exact .ok rfl

theorem reached_update {fs : Framesets} {sid : UInt8} {d : FramesetData}
    (h : ∀ s, (fs s).timestamp ≤ latest) (hd : d.timestamp ≤ latest) (s : UInt8) :
    (Function.update fs sid d s).timestamp ≤ latest := by
  by_cases hs : s = sid
  · rw [hs, Function.update_self]
    exact hd
  · rw [Function.update_of_ne hs]
    exact h s

theorem visit_times {ts : Int} {size complete : Nat} {fs : Framesets} {x : Packet}
    (h : ∀ s, (fs s).timestamp ≤ latest) (hx : x.1.timestamp ≤ latest) :
    Ensures (· = .overflow) (visit ts size complete fs x)
      fun r => ∀ s, (r.1 s).timestamp ≤ latest := by
  have hstarted : ((fs x.1.streamID).started x).timestamp ≤ latest := by
    rcases (started_spec (fs x.1.streamID) x).2 with hts | hts
    · rw [hts]
      exact hx
    · rw [hts]
      exact h _
  unfold visit
  dsimp only
  split_ifs
  · exact .ok (reached_update h hstarted)
  · exact .ok (reached_update h hstarted)
  · exact .ok (reached_update h (by rw [count_timestamp]; exact hstarted))
  · exact (finishFrame_times _ _).bind fun _ _ => .ok (reached_update h hx)
  · refine (finishFrame_times _ _).bind fun _ _ => .ok (reached_update h ?_)
    rw [count_timestamp]
    exact hx

theorem dispatch_times {ts : Int} {size complete : Nat} {fs : Framesets} {data : List Packet}
    (h : ∀ s, (fs s).timestamp ≤ latest) (hdata : ∀ x ∈ data, x.1.timestamp ≤ latest) :
    Ensures (· = .overflow) (dispatch ts size complete fs data)
      fun r => ∀ s, (r.1 s).timestamp ≤ latest := by
  induction data generalizing complete fs with
  | nil => exact .ok h
  | cons x data ih =>
      obtain ⟨hx, hdata⟩ := List.forall_mem_cons.mp hdata
      refine (visit_times h hx).bind ?_
      rintro ⟨fs₁, complete₁, es₁, more⟩ hreached
      cases more with
      | false => exact .ok hreached
      | true => exact (ih hreached hdata).bind fun r hr => .ok hr

theorem staticEndFrames_times (fs : Framesets) (sids : List UInt8) :
    Ensures (· = .overflow) (staticEndFrames fs sids) fun _ => True := by
  induction sids generalizing fs with
  | nil => exact .ok trivial
  | cons sid sids ih =>
      have hone : Ensures (· = .overflow) (staticEndFrame fs sid) fun _ => True := by
        unfold staticEndFrame
        split_ifs
        · exact .ok trivial
        · exact (endFrames_times _ sid).bind fun _ _ => .ok trivial
      exact hone.bind fun r _ => (ih r.1).bind fun _ _ => .ok trivial

theorem finishStatic_times {f : File} {empty : Bool} (h : InTime f) :
    Ensures (· = .overflow) (f.finishStatic empty) fun r => InTime r.1 := by
  have hends : Ensures (· = .overflow) (f.finishStatic empty) fun _ => True := by
    unfold finishStatic
    split_ifs
    · exact (staticEndFrames_times _ _).bind fun _ _ => .ok trivial
    · exact .ok trivial
  refine ⟨fun r hr => ?_, hends.2⟩
  obtain ⟨hsame, -, -, -, hts, -⟩ := finishStatic_spec hr
  exact ⟨by rw [hsame.timestart]; exact h.start, fun s => by rw [hts]; exact h.reached s⟩

/-- **One tick** leaves its times in 64 bits. -/
theorem tick_times {file : List Packet} (htimes : ∀ x ∈ file, Timely x.1.timestamp) {f : File}
    {c : Tick} (hbuffers : Buffers file f) (h : InTime f) (hnow : Timely c.now) :
    Ensures (· = .overflow) (f.tick c) fun r => InTime r.1 := by
  have hfirst := hbuffers.firstTs_timely htimes
  obtain ⟨gone, taken, hfile, hdata⟩ := hbuffers.read
  rw [hfile] at htimes
  simp only [List.mem_append, or_imp, forall_and] at htimes
  obtain ⟨-, htaken, hunread⟩ := htimes
  have hlatest : ∀ x ∈ f.data, x.1.timestamp ≤ latest := by
    intro y hy
    rw [hdata] at hy
    obtain ⟨x, hx, rfl⟩ := List.mem_map.mp hy
    exact asBuffered_latest h.start hfirst (htaken x hx)
  unfold tick
  split_ifs
  · exact .ok h
  · refine (dispatch_times h.reached hlatest).returned.bind ?_
    rintro ⟨fs, es, rest⟩ ⟨hdispatch, hreached⟩
    -- the loop keeps the first timestamps, so what is read ahead fits
    have hfirst₁ := (dispatch_suffix hdispatch).2
    have hin : InTime { f with framesets := fs, data := rest } := ⟨h.start, hreached⟩
    obtain ⟨f₁, hfill⟩ := fillData_timely hin (fun s => by rw [hfirst₁]; exact hfirst s) hunread
    dsimp only
    rw [hfill, ok_bind]
    have hin₁ : InTime f₁ := by
      rcases fillData_cases hfill with ⟨-, rfl⟩ | ⟨_, _, _, _, -, rfl⟩
      · exact hin
      · exact ⟨h.start, hreached⟩
    refine (finishStatic_times hin₁).bind ?_
    rintro ⟨f₂, ends⟩ hin₂
    dsimp only
    split_ifs
    · exact .ok ⟨hnow, fun s => by unfold latest; exact (by decide : (0 : Int) ≤ 2 ^ 63 - 400)⟩
    · exact .ok hin₂

/-! ## §3  The calls of a replay -/

/-- A tick that starts the file again, if it does, at a time that fits, and keeps the counters in
range, if it is not left out. -/
def TickDefined (f : File) (c : Tick) : Prop :=
  Timely c.now ∧ (f.active = true → c.busy = false →
    LoopAnnounced c.ts f.known.card 0 f.framesets f.data)

/-- A step of a stream and of the packets that were shown to the callbacks in the current pass.
The tasks of a tick are done before the next one, in any order. -/
def CallStep (s : File × List Packet) (e : PlayEvent) (s' : File × List Packet) : Prop :=
  match e with
  | .tick c => TickDefined s.1 c ∧ ∃ f out looped calls, s.1.tick c = .ok (f, out, looped) ∧
      calls.Perm (Emission.packets out) ∧ s' = (f, if looped then [] else s.2 ++ calls)
  | .setLooping value => s' = (s.1.setLooping value, s.2)

def ofFrameset (sid : UInt8) (xs : List Packet) : List Packet :=
  xs.filter fun x => x.1.streamID = sid

/-- A stream of a file all of whose ticks come back, with what was called in this pass. -/
structure Playing (file : List Packet) (f : File) (called : List Packet) : Prop where
  buffers : Buffers file f
  inTime : InTime f
  listed : ∀ s, Listed (f.framesets s)
  replays : ∃ log, Replays file f log ∧ called.Perm (Emission.packets log)

theorem Playing.tick_returns {file : List Packet} (htimes : ∀ x ∈ file, Timely x.1.timestamp)
    {f : File} {called : List Packet} (h : Playing file f called) {c : Tick}
    (hc : TickDefined f c) : ∃ f' out looped, f.tick c = .ok (f', out, looped) := by
  cases htick : f.tick c with
  | ok r => exact ⟨_, _, _, rfl⟩
  | error fault =>
      cases fault with
      | overflow => exact absurd rfl ((tick_times htimes h.buffers h.inTime hc.1).2 _ htick)
      | outOfRange => exact absurd rfl ((tick_listed h.listed hc.2).2 _ htick)

theorem Playing.tick {file : List Packet} (htimes : ∀ x ∈ file, Timely x.1.timestamp)
    {f f' : File} {called calls : List Packet} (h : Playing file f called) {c : Tick}
    {out : List Emission} {looped : Bool} (hc : TickDefined f c)
    (htick : f.tick c = .ok (f', out, looped)) (hcalls : calls.Perm (Emission.packets out)) :
    Playing file f' (if looped then [] else called ++ calls) := by
  obtain ⟨log, hreplays, hcalled⟩ := h.replays
  refine ⟨tick_buffers h.buffers htick, (tick_times htimes h.buffers h.inTime hc.1).1 _ htick,
    (tick_listed h.listed hc.2).1 _ htick, _, (tick_replays hreplays htick).2, ?_⟩
  cases looped with
  | true => exact List.Perm.refl _
  | false =>
      rw [if_neg Bool.false_ne_true, if_neg Bool.false_ne_true, Emission.packets_append]
      exact hcalled.append hcalls

theorem runs_playing {file : List Packet} (hord : Ordered file)
    (htimes : ∀ x ∈ file, Timely x.1.timestamp) {looping : Bool} {now : Int} (hnow : Timely now)
    {events : List PlayEvent} {f : File} {called : List Packet}
    (run : Runs CallStep (begin { file := file, looping := looping } now, []) events
      (f, called)) : Playing file f called := by
  have hnonneg : ∀ x ∈ file, 0 ≤ x.1.timestamp := fun x hx => (htimes x hx).1
  have hbegin : InTime (begin { file := file, looping := looping } now) := by
    obtain ⟨-, -, hts⟩ := probe_begin file looping
    exact ⟨hnow, fun s => (hts s).trans_le (by decide)⟩
  refine run.invariant (I := fun s => Playing file s.1 s.2)
    ⟨buffers_begin hnonneg looping now, hbegin, listed_begin file looping now, [],
      replays_begin hord looping now, List.Perm.refl _⟩ ?_
  rintro ⟨f, called⟩ e ⟨f', called'⟩ h hstep
  cases e with
  | tick c =>
      obtain ⟨hc, g, out, looped, calls, htick, hcalls, heq⟩ := hstep
      cases heq
      exact h.tick htimes hc htick hcalls
  | setLooping value =>
      cases hstep
      obtain ⟨log, hreplays, hcalled⟩ := h.replays
      exact ⟨⟨h.buffers.source, h.buffers.firstTs, h.buffers.read⟩,
        ⟨h.inTime.start, h.inTime.reached⟩, h.listed, log,
        ⟨hreplays.source, hreplays.ordered, hreplays.whole, hreplays.due, hreplays.atEnd⟩, hcalled⟩

/-- A file whose timestamps do not go back within a frameset is replayed completely and in its
order. Every tick comes back. When it has handed `pre` to the pool, what was handed over in the
pass (`handed` by the ticks before it) is the beginning of the file, also within each frameset, and
all the rest waits; the callbacks were called for everything that earlier ticks handed over, and
for some of `pre` (`calls`), once for each packet. -/
theorem replay_in_order {file : List Packet} (hord : Ordered file)
    (htimes : ∀ x ∈ file, Timely x.1.timestamp) {looping : Bool} {now : Int} (hnow : Timely now)
    {events : List PlayEvent} {f : File} {called : List Packet}
    (run : Runs CallStep (begin { file := file, looping := looping } now, []) events
      (f, called)) :
    ∃ handed, called.Perm handed ∧ ∀ c, TickDefined f c →
      ∃ f' out looped, f.tick c = .ok (f', out, looped) ∧ ∀ pre post, out = pre ++ post →
        file.map f.shown = (handed ++ Emission.packets pre) ++
          (Emission.packets post ++ if looped then [] else f'.waiting) ∧
        ∀ calls : List Packet, calls.Subperm (Emission.packets pre) → ∀ sid,
          ofFrameset sid (handed ++ Emission.packets pre) <+: ofFrameset sid (file.map f.shown) ∧
            (ofFrameset sid (called ++ calls)).Subperm
              (ofFrameset sid (handed ++ Emission.packets pre)) := by
  have h := runs_playing hord htimes hnow run
  obtain ⟨log, hreplays, hcalled⟩ := h.replays
  refine ⟨Emission.packets log, hcalled, fun c hc => ?_⟩
  obtain ⟨f', out, looped, htick⟩ := h.tick_returns htimes hc
  refine ⟨f', out, looped, htick, ?_⟩
  rintro pre post rfl
  have hwhole := (tick_replays hreplays htick).1
  rw [← List.append_assoc, Emission.packets_append, Emission.packets_append,
    List.append_assoc] at hwhole
  refine ⟨hwhole, fun calls hcalls sid => ⟨?_, ?_⟩⟩
  · rw [hwhole]
    exact (List.prefix_append _ _).filter _
  · exact (hcalled.subperm.append hcalls).filter _

theorem recordingRead_reached : CallStep (begin { file := recording } 1000, [])
    (.tick { ts := 1000, now := 1000 }) (recordingRead, []) :=
  ⟨⟨⟨by decide, by decide⟩, fun _ _ => trivial⟩, _, _, _, _, rfl, List.Perm.nil, rfl⟩

theorem recordingRead_defined : TickDefined recordingRead { ts := 1040, now := 1040 } := by
  have hsingle : ∀ x ∈ recordingRead.data, x.2.frameCount.toNat ≤ 1 := by decide
  exact ⟨⟨by decide, by decide⟩, fun _ _ => loopAnnounced_of_single hsingle⟩

/-- All packets of the recording go out in one tick, each frameset from the start of the stream
on. -/
theorem replay_in_order_recording :
    ∃ f out, recordingRead.tick { ts := 1040, now := 1040 } = .ok (f, out, false) ∧
      (Emission.packets out).map (fun x => x.1.timestamp) = [1000, 1000, 1040] ∧
      recording.map recordingRead.shown = Emission.packets out ++ f.waiting := by
  have hord : Ordered recording := by
    unfold Ordered recording
    decide
  have htimes : ∀ x ∈ recording, Timely x.1.timestamp := by
    unfold Timely recording
    decide
  have hrun : Runs CallStep (begin { file := recording } 1000, [])
      [.tick { ts := 1000, now := 1000 }] (recordingRead, []) :=
    Runs.init.snoc recordingRead_reached
  obtain ⟨handed, hperm, hticks⟩ := replay_in_order hord htimes ⟨by decide, by decide⟩ hrun
  obtain ⟨f, out, looped, htick, hpoints⟩ := hticks _ recordingRead_defined
  obtain ⟨f', out', htick', hts⟩ : ∃ f' out', recordingRead.tick { ts := 1040, now := 1040 } =
      .ok (f', out', false) ∧
        (Emission.packets out').map (fun x => x.1.timestamp) = [1000, 1000, 1040] :=
    ⟨_, _, rfl, rfl⟩
  rw [htick', Except.ok.injEq, Prod.mk.injEq, Prod.mk.injEq] at htick
  obtain ⟨rfl, rfl, rfl⟩ := htick
  have hwhole := (hpoints out' [] (List.append_nil _).symm).1
  rw [← hperm.nil_eq] at hwhole
  exact ⟨f', out', htick', hts, hwhole⟩

/-- A file whose times are within 64 bits and whose play time is not. -/
def farRecording : List Packet :=
  [({ timestamp := 0, streamID := 0, frameNumber := 0, channel := Channel.kColour },
    { data := [1] }),
   ({ timestamp := 2 ^ 63 - 1, streamID := 0, frameNumber := 0, channel := Channel.kColour },
    { data := [2] })]

/-- The third packet of the recording may be the first that is called, although the first packet of
its frameset was handed to the pool before it; and a tick that leaves 64 bits plays nothing. -/
theorem later_packet_called_first :
    (∃ f f' out a b c, Runs CallStep (begin { file := recording } 1000, [])
        [.tick { ts := 1000, now := 1000 }] (f, []) ∧
      f.tick { ts := 1040, now := 1040 } = .ok (f', out, false) ∧
      Emission.packets out = [a, b, c] ∧
      CallStep (f, []) (.tick { ts := 1040, now := 1040 }) (f', [c, b, a]) ∧
      ¬ ofFrameset 0 [c] <+: ofFrameset 0 (recording.map f.shown)) ∧
    Ordered farRecording ∧ (∀ x ∈ farRecording, 0 ≤ x.1.timestamp) ∧
      (begin { file := farRecording } 1000).tick { ts := 1000, now := 1000 } =
        .error .overflow := by
  have hrun : Runs CallStep (begin { file := recording } 1000, [])
      [.tick { ts := 1000, now := 1000 }] (recordingRead, []) :=
    Runs.init.snoc recordingRead_reached
  refine ⟨⟨recordingRead, _, _, _, _, _, hrun, rfl, rfl, ⟨recordingRead_defined, _, _, _, _, rfl,
    ?_, rfl⟩, by decide⟩, ?_, by decide, rfl⟩
  · exact List.reverse_perm [_, _, _]
  · unfold Ordered farRecording
    decide

end BeyondProtocol.File
