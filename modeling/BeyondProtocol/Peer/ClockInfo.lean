import BeyondProtocol.Framework.Mean
import BeyondProtocol.Framework.Ring
import BeyondProtocol.Framework.Sorting

/-!
# The clock of the peer (`time.cpp`)

A peer asks the other end for its time and notes when the call began and returned; the
other end learns from a notification when its reply was received. Either way an end has
the remote time of a message received and the local times before and after, and takes the
remote clock to have been read half way between. What it is off by is half the difference
of the two delays.

The estimate is the mean over the middle half of the last samples, sorted by their round
trip time.
-/

namespace BeyondProtocol

open Framework

/-! ## §1  `ClockInfo` -/

structure SyncEvent where
  offset : Int
  rtt : Int
deriving DecidableEq, Repr, Inhabited

/-- `std::sort` by the round trip time, which is not stable: what is known of the result. -/
structure SortByRtt where
  sort : List SyncEvent → List SyncEvent
  perm : ∀ events, (sort events).Perm events
  sorted : ∀ events, (sort events).Pairwise fun a b => a.rtt ≤ b.rtt

/-- The constructor leaves the estimates uninitialised. -/
structure ClockInfo (nSamples : ℕ) [NeZero nSamples] where
  n : Fin nSamples := 0
  history : Ring nSamples SyncEvent := fun _ => default
  rtt : Int
  rttFastest : Int
  rttSlowest : Int
  offset : Int

/-- The arguments of `__update_time_sync__`. -/
structure TimeSync where
  tRequestLocal : Int
  tReplyRemote : Int
  rttRemote : Int
deriving DecidableEq, Repr

namespace ClockInfo

variable {nSamples : ℕ} [NeZero nSamples] (sorter : SortByRtt) (c : ClockInfo nSamples)

/-- `update_estimate_` -/
def updateEstimate : ClockInfo nSamples :=
  let sorted := sorter.sort (List.ofFn c.history)
  -- exclude the first and the last quartile
  let begin := sorted.length / 4
  let count := sorted.length - begin * 2
  let remaining := (sorted.drop begin).take count
  { c with
    offset := (remaining.map SyncEvent.offset).sum.tdiv count
    rtt := (remaining.map SyncEvent.rtt).sum.tdiv count
    rttFastest := (sorted.headD default).rtt
    rttSlowest := (sorted.getLastD default).rtt }

/-- `update_`: the round trip time is narrowed to the `int32_t` parameter. -/
def update (offset rtt : Int) : ClockInfo nSamples :=
  updateEstimate sorter { c with
    n := if h : c.n + 1 < nSamples then ⟨c.n + 1, h⟩ else 0
    history := Function.update c.history c.n ⟨offset, Int.bmod rtt (2 ^ 32)⟩ }

/-- `updateInfo`, given the local times before and after the call and the time the remote
end replied, with the notification it sends. -/
def updateInfo (tStart tRemote tEnd : Int) : ClockInfo nSamples × TimeSync :=
  let rtt := tEnd - tStart
  let tOffset := tRemote - tStart - rtt.tdiv 2
  (c.update sorter tOffset rtt, ⟨tRemote, tEnd, rtt⟩)

/-- `update_time_sync_`, received when the local clock says `now`. -/
def updateTimeSync (now : Int) (sync : TimeSync) : ClockInfo nSamples :=
  let rttLocal := now - sync.tRequestLocal
  let tOffset := sync.tReplyRemote - sync.tRequestLocal - rttLocal.tdiv 2
  c.update sorter tOffset rttLocal

end ClockInfo

/-! ## §2  Samples -/

/-- How a sample is taken: from the call of `updateInfo`, or when the notification comes. -/
inductive SampledBy : Type where
  | updateInfo
  | updateTimeSync (rttRemote : Int)
deriving DecidableEq, Repr

/-- A message leaves at local time `start`, the remote end reads its clock after `d₁`, and
what it sends then takes `d₂`. -/
structure Sample where
  sampledBy : SampledBy
  start : Int
  d₁ : ℕ
  d₂ : ℕ
deriving DecidableEq, Repr

/-- The delays sum up to an `int32_t` and differ by at most `a`. -/
structure Sample.Within (s : Sample) (a : Int) : Prop where
  int32 : s.d₁ + s.d₂ < 2 ^ 31
  apart : |(s.d₁ : Int) - s.d₂| ≤ a

/-- What is recorded when the remote clock is ahead by `theta`. -/
def Sample.event (theta : Int) (s : Sample) : SyncEvent :=
  ⟨theta + s.d₁ - (s.d₁ + s.d₂ : ℕ) / 2, (s.d₁ + s.d₂ : ℕ)⟩

/-- A sample is taken while the remote clock is ahead by `theta`. -/
def ClockInfo.sample {nSamples : ℕ} [NeZero nSamples] (sorter : SortByRtt) (theta : Int)
    (c : ClockInfo nSamples) (s : Sample) : ClockInfo nSamples :=
  let remote := s.start + s.d₁ + theta
  let stop := s.start + s.d₁ + s.d₂
  match s.sampledBy with
  | .updateInfo => (c.updateInfo sorter s.start remote stop).1
  | .updateTimeSync rttRemote => c.updateTimeSync sorter stop ⟨s.start, remote, rttRemote⟩

namespace ClockInfo

variable {nSamples : ℕ} [NeZero nSamples] {sorter : SortByRtt} {c : ClockInfo nSamples}
  {theta a : Int}

/-- The notification of one end, received `d₃` later, is a sample of the other, for which the
local clock is the remote one. -/
theorem updateTimeSync_updateInfo {remote : ClockInfo nSamples} (start : Int) (d₁ d₂ d₃ : ℕ) :
    remote.updateTimeSync sorter (start + d₁ + d₂ + d₃ + theta)
        (c.updateInfo sorter start (start + d₁ + theta) (start + d₁ + d₂)).2 =
      remote.sample sorter (-theta) ⟨.updateTimeSync (d₁ + d₂), start + d₁ + theta, d₂, d₃⟩ := by
  have hrtt : start + d₁ + d₂ - start = (d₁ + d₂ : Int) := by ring
  have hreply : start + d₁ + theta + d₂ + -theta = start + d₁ + d₂ := by ring
  have hnow : start + d₁ + theta + d₂ + d₃ = start + d₁ + d₂ + d₃ + theta := by ring
  simp only [sample, updateInfo, hrtt, hreply, hnow]

/-- Both formulas record the same. -/
theorem sample_eq (s : Sample) :
    c.sample sorter theta s = c.update sorter (s.event theta).offset (s.event theta).rtt := by
  have hrtt : s.start + s.d₁ + s.d₂ - s.start = ((s.d₁ + s.d₂ : ℕ) : Int) := by
    push_cast
    ring
  have hhalf : ((s.d₁ + s.d₂ : ℕ) : Int).tdiv 2 = ((s.d₁ + s.d₂ : ℕ) : Int) / 2 :=
    Int.tdiv_eq_ediv_of_nonneg (Int.natCast_nonneg _)
  have hoffset : s.start + s.d₁ + theta - s.start - ((s.d₁ + s.d₂ : ℕ) : Int) / 2 =
      (s.event theta).offset := by
    unfold Sample.event
    ring
  unfold sample
  cases s.sampledBy with
  | updateInfo =>
      simp only [updateInfo]
      rw [hrtt, hhalf, hoffset]
      rfl
  | updateTimeSync rttRemote =>
      simp only [updateTimeSync]
      rw [hrtt, hhalf, hoffset]
      rfl

theorem two_mul_abs_event_offset_sub_le {s : Sample} (h : s.Within a) :
    2 * |(s.event theta).offset - theta| ≤ a + 1 := by
  have hapart := abs_le.mp h.apart
  have hoff : |(s.event theta).offset - theta| ≤ (a + 1) / 2 := by
    unfold Sample.event
    rw [abs_le]
    dsimp only
    omega
  omega

/-! ## §3  The history -/

/-- The events are written one after the other, from wherever the first one goes. -/
structure Holds (c₀ : ClockInfo nSamples) (events : List SyncEvent) (c : ClockInfo nSamples) :
    Prop where
  history : c.history = c₀.history.write c₀.n events
  next : c.n = Ring.slot nSamples (c₀.n + events.length)

theorem slot_n (c : ClockInfo nSamples) : c.n = Ring.slot nSamples c.n :=
  Fin.ext (Nat.mod_eq_of_lt c.n.isLt).symm

theorem Holds.sample {c₀ : ClockInfo nSamples} {events : List SyncEvent} {s : Sample}
    (h : Holds c₀ events c) (hs : s.Within a) :
    Holds c₀ (events ++ [s.event theta]) (c.sample sorter theta s) := by
  have hnarrow : Int.bmod (s.event theta).rtt (2 ^ 32) = (s.event theta).rtt := by
    have hrtt : (s.event theta).rtt = (s.d₁ + s.d₂ : ℕ) := rfl
    have := hs.int32
    rw [hrtt]
    exact Int.bmod_eq_of_le (by omega) (by omega)
  rw [sample_eq]
  constructor
  · show Function.update c.history c.n ⟨_, Int.bmod _ _⟩ = _
    rw [hnarrow, h.history, Ring.write_concat, h.next]
    rfl
  · rw [List.length_append, List.length_singleton, ← Nat.add_assoc, Ring.slot_succ h.next]
    rfl

theorem holds_samples (c₀ : ClockInfo nSamples) {samples : List Sample}
    (h : ∀ s ∈ samples, s.Within a) :
    Holds c₀ (samples.map (Sample.event theta)) (samples.foldl (sample sorter theta) c₀) := by
  induction samples using List.reverseRecOn with
  | nil => exact ⟨rfl, slot_n c₀⟩
  | append_singleton samples s ih =>
      rw [List.map_append, List.foldl_append]
      apply Holds.sample
      · exact ih fun t ht => h t (List.mem_append_left [s] ht)
      · exact h s List.mem_concat_self

/-! ## §4  The estimate -/

/-- The events the means are taken of. -/
def remaining (sorter : SortByRtt) (c : ClockInfo nSamples) : List SyncEvent :=
  let sorted := sorter.sort (List.ofFn c.history)
  (sorted.drop (sorted.length / 4)).take (sorted.length - sorted.length / 4 * 2)

theorem mem_sorted {e : SyncEvent} :
    e ∈ sorter.sort (List.ofFn c.history) ↔ e ∈ List.ofFn c.history :=
  (sorter.perm _).mem_iff

theorem mem_of_mem_remaining {e : SyncEvent} (he : e ∈ c.remaining sorter) :
    e ∈ List.ofFn c.history :=
  mem_sorted.mp (List.mem_of_mem_drop (List.mem_of_mem_take he))

theorem length_remaining (sorter : SortByRtt) (c : ClockInfo nSamples) :
    (c.remaining sorter).length = nSamples - nSamples / 4 * 2 := by
  have hlength : (sorter.sort (List.ofFn c.history)).length = nSamples := by
    rw [(sorter.perm _).length_eq, List.length_ofFn]
  rw [remaining, List.length_take, List.length_drop, hlength]
  omega

theorem remaining_ne_nil (sorter : SortByRtt) (c : ClockInfo nSamples) :
    c.remaining sorter ≠ [] := by
  rw [← List.length_pos_iff, length_remaining]
  have := NeZero.pos nSamples
  omega

/-- The count is the number of events that remain. -/
theorem length_sorted_sub (sorter : SortByRtt) (c : ClockInfo nSamples) :
    let sorted := sorter.sort (List.ofFn c.history)
    sorted.length - sorted.length / 4 * 2 = (c.remaining sorter).length := by
  dsimp only
  rw [length_remaining, (sorter.perm _).length_eq, List.length_ofFn]

theorem updateEstimate_offset (sorter : SortByRtt) (c : ClockInfo nSamples) :
    (c.updateEstimate sorter).offset = mean ((c.remaining sorter).map SyncEvent.offset) := by
  rw [mean, List.length_map, ← length_sorted_sub]
  rfl

theorem updateEstimate_rtt (sorter : SortByRtt) (c : ClockInfo nSamples) :
    (c.updateEstimate sorter).rtt = mean ((c.remaining sorter).map SyncEvent.rtt) := by
  rw [mean, List.length_map, ← length_sorted_sub]
  rfl

theorem rttFastest_le (sorter : SortByRtt) (c : ClockInfo nSamples) :
    (c.updateEstimate sorter).rttFastest ≤ (c.updateEstimate sorter).rtt := by
  rw [updateEstimate_rtt]
  apply le_mean
  · simpa using remaining_ne_nil sorter c
  · rw [List.forall_mem_map]
    intro e he
    exact headD_le (sorter.sorted _) (mem_sorted.mpr (mem_of_mem_remaining he)) default

theorem le_rttSlowest (sorter : SortByRtt) (c : ClockInfo nSamples) :
    (c.updateEstimate sorter).rtt ≤ (c.updateEstimate sorter).rttSlowest := by
  rw [updateEstimate_rtt]
  apply mean_le
  · simpa using remaining_ne_nil sorter c
  · rw [List.forall_mem_map]
    intro e he
    exact le_getLastD (sorter.sorted _) (mem_sorted.mpr (mem_of_mem_remaining he)) default

/-- An offset that every event is close to is close to the estimate. -/
theorem two_mul_abs_offset_sub_le {d : Int}
    (h : ∀ e ∈ List.ofFn c.history, 2 * |e.offset - theta| ≤ d) :
    2 * |(c.updateEstimate sorter).offset - theta| ≤ d + 1 := by
  rw [updateEstimate_offset]
  apply two_mul_abs_mean_sub_le
  · simpa using remaining_ne_nil sorter c
  · rw [List.forall_mem_map]
    intro e he
    exact h e (mem_of_mem_remaining he)

/-- The estimate of a state is the one made of its history. -/
theorem updateEstimate_sample (s : Sample) :
    (c.sample sorter theta s).updateEstimate sorter = c.sample sorter theta s := by
  rw [sample_eq]
  rfl

theorem updateEstimate_samples {samples : List Sample} (hne : samples ≠ []) :
    (samples.foldl (sample sorter theta) c).updateEstimate sorter =
      samples.foldl (sample sorter theta) c := by
  obtain ⟨before, s, rfl⟩ := (List.eq_nil_or_concat' samples).resolve_left hne
  rw [List.foldl_append]
  exact updateEstimate_sample s

/-- Whatever state the clock is in, `nSamples` samples later the estimate is theirs and off by
no more than the delays make it. -/
theorem clock_offset_accurate {samples : List Sample} (hlength : nSamples ≤ samples.length)
    (h : ∀ s ∈ samples, s.Within a) :
    let c' := samples.foldl (sample sorter theta) c
    (List.ofFn c'.history).Perm
        ((samples.drop (samples.length - nSamples)).map (Sample.event theta)) ∧
      c'.rttFastest ≤ c'.rtt ∧ c'.rtt ≤ c'.rttSlowest ∧ 2 * |c'.offset - theta| ≤ a + 3 := by
  intro c'
  have hne : samples ≠ [] :=
    List.ne_nil_of_length_pos ((NeZero.pos nSamples).trans_le hlength)
  have hestimate : c'.updateEstimate sorter = c' := updateEstimate_samples hne
  have hperm : (List.ofFn c'.history).Perm
      ((samples.drop (samples.length - nSamples)).map (Sample.event theta)) := by
    rw [(holds_samples c h).history, List.map_drop, ← List.length_map (Sample.event theta)]
    apply Ring.ofFn_write_perm
    rw [List.length_map]
    exact hlength
  have hclose : ∀ e ∈ List.ofFn c'.history, 2 * |e.offset - theta| ≤ a + 1 := by
    intro e he
    obtain ⟨s, hs, rfl⟩ := List.mem_map.mp (hperm.mem_iff.mp he)
    exact two_mul_abs_event_offset_sub_le (h s (List.mem_of_mem_drop hs))
  have hoffset : 2 * |(c'.updateEstimate sorter).offset - theta| ≤ a + 1 + 1 :=
    two_mul_abs_offset_sub_le hclose
  rw [← hestimate]
  refine ⟨?_, rttFastest_le sorter c', le_rttSlowest sorter c', ?_⟩
  · rw [hestimate]
    exact hperm
  · omega

theorem pairwise_insertionSort_rtt (events : List SyncEvent) :
    (events.insertionSort fun a b => a.rtt ≤ b.rtt).Pairwise fun a b => a.rtt ≤ b.rtt := by
  apply pairwise_insertionSort
  · exact fun a b c => le_trans
  · exact fun a b h => h
  · exact fun a b h => (not_le.mp h).le

/-- A stable sort is one of those the estimate may use. -/
def stableSort : SortByRtt where
  sort events := events.insertionSort fun a b => a.rtt ≤ b.rtt
  perm events := List.perm_insertionSort _ events
  sorted := pairwise_insertionSort_rtt

/-- The remote clock is ahead by 100, and the delays differ by at most 3. -/
theorem clock_offset_accurate_two :
    let samples : List Sample :=
      [⟨.updateInfo, 0, 1, 4⟩, ⟨.updateTimeSync 5, 20, 2, 2⟩, ⟨.updateInfo, 30, 6, 3⟩]
    let c : ClockInfo 2 := { rtt := 0, rttFastest := 0, rttSlowest := 0, offset := 0 }
    let c' := samples.foldl (sample stableSort 100) c
    (List.ofFn c'.history).Perm
        ((samples.drop (samples.length - 2)).map (Sample.event 100)) ∧
      c'.rttFastest ≤ c'.rtt ∧ c'.rtt ≤ c'.rttSlowest ∧ 2 * |c'.offset - 100| ≤ 3 + 3 := by
  intro samples c
  have hwithin : ∀ s ∈ samples, s.Within 3 := by
    intro s hs
    have h : s.d₁ + s.d₂ < 2 ^ 31 ∧ |(s.d₁ : Int) - s.d₂| ≤ 3 := by
      revert s
      decide
    exact ⟨h.1, h.2⟩
  exact clock_offset_accurate (by decide) hwithin

end ClockInfo

end BeyondProtocol
