import Mathlib.Algebra.Order.BigOperators.Group.Finset
import AgentBus.Dashboard.App

/-!
# A minute's percentile

The dashboard shows for a minute the greatest percentile of its polls. That is
never less than the percentile of the whole minute. It is more as soon as one
poll has more than a twentieth of its samples above the percentile of the
minute: one slow sample in a quiet second is enough.
-/

namespace AgentBus

open Lib

variable {b cells : List ℕ}

/-! ## Cells of several polls -/

/-- Cell by cell; missing cells are empty. -/
def addCells : List ℕ → List ℕ → List ℕ
  | [], ys => ys
  | x :: xs, [] => x :: xs
  | x :: xs, y :: ys => (x + y) :: addCells xs ys

def cellSum (deltas : List (List ℕ)) : List ℕ := deltas.foldr addCells []

/-- How many samples lie in cells that are shown as at most `ms`. -/
def samplesUpTo (b cells : List ℕ) (ms : ℕ) : ℕ :=
  ∑ i ∈ Finset.range cells.length, if bucketMs b i ≤ ms then cells.getD i 0 else 0

theorem getD_addCells (xs ys : List ℕ) (i : ℕ) :
    (addCells xs ys).getD i 0 = xs.getD i 0 + ys.getD i 0 := by
  induction xs, ys using addCells.induct generalizing i with
  | case1 ys => simp [addCells]
  | case2 x xs => simp [addCells]
  | case3 x xs y ys ih =>
    cases i with
    | zero => simp [addCells]
    | succ i => simpa [addCells] using ih i

theorem length_addCells (xs ys : List ℕ) : (addCells xs ys).length = max xs.length ys.length := by
  induction xs, ys using addCells.induct with
  | case1 ys => simp [addCells]
  | case2 x xs => simp [addCells]
  | case3 x xs y ys ih =>
    rw [addCells, List.length_cons, List.length_cons, List.length_cons, ih]; omega

theorem sum_addCells (xs ys : List ℕ) : (addCells xs ys).sum = xs.sum + ys.sum := by
  induction xs, ys using addCells.induct with
  | case1 ys => simp [addCells]
  | case2 x xs => simp [addCells]
  | case3 x xs y ys ih => rw [addCells, List.sum_cons, List.sum_cons, List.sum_cons, ih]; omega

theorem samplesUpTo_eq {n : ℕ} (h : cells.length ≤ n) (ms : ℕ) : samplesUpTo b cells ms =
    ∑ i ∈ Finset.range n, if bucketMs b i ≤ ms then cells.getD i 0 else 0 := by
  refine Finset.sum_subset (Finset.range_mono h) fun i _ hi => ?_
  rw [Finset.mem_range, Nat.not_lt] at hi
  rw [List.getD_eq_getElem?_getD, List.getElem?_eq_none hi]
  split <;> rfl

theorem samplesUpTo_addCells (xs ys : List ℕ) (ms : ℕ) :
    samplesUpTo b (addCells xs ys) ms = samplesUpTo b xs ms + samplesUpTo b ys ms := by
  have hmax := length_addCells xs ys
  rw [samplesUpTo_eq (Nat.le_of_eq hmax), samplesUpTo_eq (Nat.le_max_left ..),
    samplesUpTo_eq (Nat.le_max_right ..), ← Finset.sum_add_distrib]
  refine Finset.sum_congr rfl fun i _ => ?_
  rw [getD_addCells]
  split <;> rfl

/-! ## Percentiles in milliseconds -/

theorem rank_95 {n : ℕ} (h : n ≠ 0) : rank (19 / 20) n = (19 * n + 19) / 20 := by
  have hceil : ⌈(19 / 20 : ℚ) * n⌉₊ = (19 * n + 19) / 20 := by
    refine eq_of_forall_ge_iff fun k => ?_
    have hcast : (19 / 20 : ℚ) * n ≤ k ↔ 19 * n ≤ 20 * k := by
      have : (19 / 20 : ℚ) * n ≤ k ↔ ((19 * n : ℕ) : ℚ) ≤ (20 * k : ℕ) := by
        push_cast
        constructor <;> intro h <;> linarith
      rw [this, Nat.cast_le]
    rw [Nat.ceil_le, hcast]
    omega
  rw [rank, hceil]
  omega

theorem bucketMs_eq (b : List ℕ) (i : ℕ) : bucketMs b i = (b[min i (b.length - 1)]?).getD 0 := by
  unfold bucketMs
  by_cases hi : i < b.length
  · rw [Nat.min_eq_left (by omega), List.getElem?_eq_getElem hi]
    rfl
  · rw [List.getElem?_eq_none (Nat.le_of_not_lt hi), Nat.min_eq_right (by omega),
      List.getLast?_eq_getElem?]
    rfl

theorem bucketMs_mono (hb : b.Pairwise (· ≤ ·)) : Monotone (bucketMs b) := by
  intro i j hij
  rw [bucketMs_eq, bucketMs_eq]
  by_cases hnil : b.length = 0
  · rw [List.length_eq_zero_iff.mp hnil]
    exact le_rfl
  · have hi : min i (b.length - 1) < b.length := by omega
    have hj : min j (b.length - 1) < b.length := by omega
    rw [List.getElem?_eq_getElem hi, List.getElem?_eq_getElem hj, Option.getD_some,
      Option.getD_some]
    rcases Nat.lt_or_ge (min i (b.length - 1)) (min j (b.length - 1)) with hlt | hge
    · exact List.pairwise_iff_getElem.mp hb _ _ hi hj hlt
    · have heq : min i (b.length - 1) = min j (b.length - 1) := by omega
      simp only [heq, le_refl]

/-- **The percentile is shown as at most `ms` if and only if enough samples are.** -/
theorem p95LatencyMs_le_iff (hb : b.Pairwise (· ≤ ·)) (cells : List ℕ) (ms : ℕ) :
    p95LatencyMs cells b ≤ ms ↔ cells.sum = 0 ∨ rank (19 / 20) cells.sum ≤
      samplesUpTo b cells ms := by
  unfold p95LatencyMs
  by_cases hsum : cells.sum = 0
  · rw [if_pos hsum]
    exact iff_of_true (Nat.zero_le ms) (.inl hsum)
  · rw [if_neg hsum, or_iff_right hsum]
    have hbucket := percentileBucket_le_iff (19 / 20) hsum
    generalize percentileBucket cells (19 / 20) = bucket at hbucket ⊢
    constructor
    · -- the cells up to the percentile's are shown as at most `ms`
      intro hms
      refine ((hbucket bucket).mp le_rfl).trans ?_
      rw [sum_take_eq, samplesUpTo_eq (Nat.le_max_left cells.length (bucket + 1))]
      calc ∑ i ∈ Finset.range (bucket + 1), cells.getD i 0
          = ∑ i ∈ Finset.range (bucket + 1), if bucketMs b i ≤ ms then cells.getD i 0 else 0 := by
            refine Finset.sum_congr rfl fun i hi => (if_pos ?_).symm
            exact (bucketMs_mono hb (Nat.le_of_lt_succ (Finset.mem_range.mp hi))).trans hms
        _ ≤ ∑ i ∈ Finset.range (max cells.length (bucket + 1)),
              if bucketMs b i ≤ ms then cells.getD i 0 else 0 :=
            Finset.sum_le_sum_of_subset (Finset.range_mono (Nat.le_max_right ..))
    · -- the cells from the percentile's on are shown as more
      intro henough
      by_contra hms
      have hfew : samplesUpTo b cells ms ≤ (cells.take bucket).sum := by
        rw [sum_take_eq, samplesUpTo_eq (Nat.le_max_left cells.length bucket)]
        calc ∑ i ∈ Finset.range (max cells.length bucket),
            (if bucketMs b i ≤ ms then cells.getD i 0 else 0)
            ≤ ∑ i ∈ Finset.range bucket, if bucketMs b i ≤ ms then cells.getD i 0 else 0 := by
              refine Finset.sum_le_sum_of_ne_zero fun i _ hi => ?_
              rw [Finset.mem_range]
              by_contra hlt
              refine hi (if_neg fun hshown => hms ?_)
              exact (bucketMs_mono hb (Nat.le_of_not_lt hlt)).trans hshown
          _ ≤ ∑ i ∈ Finset.range bucket, cells.getD i 0 := by
              refine Finset.sum_le_sum fun i _ => ?_
              split
              · exact le_rfl
              · exact Nat.zero_le _
      cases bucket with
      | zero =>
        rw [List.take_zero, List.sum_nil] at hfew
        have := one_le_rank (19 / 20) cells.sum
        omega
      | succ bucket =>
        have hle := (hbucket bucket).mpr (henough.trans hfew)
        omega

/-! ## Minutes -/

/-- **A minute's greatest percentile is the percentile of the minute if and only if no poll has too
many samples above that.** -/
theorem greatest_p95_iff (hb : b.Pairwise (· ≤ ·)) {deltas : List (List ℕ)} {greatest : ℕ}
    (hgreatest : ∀ ms, greatest ≤ ms ↔ ∀ cells ∈ deltas, p95LatencyMs cells b ≤ ms) :
    greatest = p95LatencyMs (cellSum deltas) b ↔ ∀ cells ∈ deltas, cells.sum = 0 ∨
      rank (19 / 20) cells.sum ≤ samplesUpTo b cells (p95LatencyMs (cellSum deltas) b) := by
  have henough := p95LatencyMs_le_iff hb
  have hle : p95LatencyMs (cellSum deltas) b ≤ greatest := by
    have hall := (hgreatest greatest).mp le_rfl
    clear hgreatest
    rw [henough]
    -- ranks add up to at least the rank of the sum
    have hadd : 19 * (cellSum deltas).sum ≤ 20 * samplesUpTo b (cellSum deltas) greatest := by
      induction deltas with
      | nil => simp [cellSum]
      | cons cells deltas ih =>
        have htail := ih fun c hc => hall c (List.mem_cons_of_mem cells hc)
        have hsum : (cellSum (cells :: deltas)).sum = cells.sum + (cellSum deltas).sum :=
          sum_addCells ..
        have hshown : samplesUpTo b (cellSum (cells :: deltas)) greatest =
            samplesUpTo b cells greatest + samplesUpTo b (cellSum deltas) greatest :=
          samplesUpTo_addCells ..
        rcases (henough cells greatest).mp (hall cells List.mem_cons_self) with hzero | hrank
        · omega
        · by_cases hne : cells.sum = 0
          · omega
          · rw [rank_95 hne] at hrank
            omega
    by_cases hne : (cellSum deltas).sum = 0
    · exact .inl hne
    · rw [rank_95 hne]
      exact .inr (by omega)
  rw [le_antisymm_iff, and_iff_left hle, hgreatest]
  exact forall₂_congr fun cells _ => henough cells _

/-- The percentile shown for some polls is the greatest of theirs. -/
def IsGreatestP95 (b : List ℕ) (polls : List Diff) (shown : ℕ) : Prop :=
  ∀ ms, shown ≤ ms ↔ ∀ d ∈ polls, p95LatencyMs d.latencyDelta b ≤ ms

theorem isGreatestP95_nil (b : List ℕ) : IsGreatestP95 b [] 0 := fun ms => by simp

theorem IsGreatestP95.concat {polls : List Diff} {shown : ℕ} {d : Diff}
    (h : IsGreatestP95 b polls shown) (hd : d.p95LatencyMs = p95LatencyMs d.latencyDelta b) :
    IsGreatestP95 b (polls ++ [d]) (max d.p95LatencyMs shown) := by
  intro ms
  rw [Nat.max_le, h ms, hd, List.forall_mem_append, List.forall_mem_singleton, and_comm]

theorem p95LatencyMs_of_diff {prev cur : MetricsReport} {d : Diff}
    (h : Sample.diff prev cur = some d) :
    d.p95LatencyMs = p95LatencyMs d.latencyDelta cur.latencyBucketsMs := by
  unfold Sample.diff at h
  split at h
  · cases h
  · obtain rfl := Option.some.inj h
    rfl

/-- In every run the dashboard shows the greatest percentiles. -/
theorem shows_greatest {polls : List Poll} {c : Chronicle} (h : Exec dashboard polls c)
    (hbuckets : ∀ p ∈ polls, p.report.latencyBucketsMs = b) :
    IsGreatestP95 b c.polls c.app.series.curP95Ms ∧ ∀ m ∈ c.flushed,
      IsGreatestP95 b m.polls m.bucket.p95Ms := by
  revert hbuckets
  refine h.invariant (I := fun polls c => (∀ p ∈ polls, p.report.latencyBucketsMs = b) →
    IsGreatestP95 b c.polls c.app.series.curP95Ms ∧
      ∀ m ∈ c.flushed, IsGreatestP95 b m.polls m.bucket.p95Ms) (fun c hc _ => ?_)
    fun polls c p c' _ ih hstep hbuckets => ?_
  · rw [show c = .new from hc]
    exact ⟨isGreatestP95_nil b, fun m hm => absurd hm List.not_mem_nil⟩
  · obtain ⟨hcurrent, hflushed⟩ := ih fun p hp => hbuckets p (List.mem_append_left _ hp)
    have hb : p.report.latencyBucketsMs = b := hbuckets p (by simp)
    rw [show c' = c.poll p from hstep]
    obtain ⟨-, hpoll⟩ | ⟨prev, d, -, hdiff, -, hpoll⟩ | ⟨prev, d, -, hdiff, -,
      hpoll⟩ | ⟨prev, -, -, hpoll⟩ :=
      c.poll_cases p
    · rw [hpoll]
      exact ⟨hcurrent, hflushed⟩
    · rw [hpoll]
      exact ⟨hcurrent.concat (hb ▸ p95LatencyMs_of_diff hdiff), hflushed⟩
    · rw [hpoll]
      refine ⟨isGreatestP95_nil b, fun m hm => ?_⟩
      rcases List.mem_append.mp hm with hm | hm
      · exact hflushed m hm
      · rw [List.mem_singleton.mp hm]
        exact hcurrent.concat (hb ▸ p95LatencyMs_of_diff hdiff)
    · rw [hpoll]
      exact ⟨isGreatestP95_nil b, hflushed⟩

/-- **In every run the window holds the last of the flushed minutes, and a flushed minute shows the
percentile of all its samples if and only if no poll has too many samples above that.** -/
theorem minute_p95_iff {polls : List Poll} {c : Chronicle} (h : Exec dashboard polls c)
    (hb : b.Pairwise (· ≤ ·)) (hbuckets : ∀ p ∈ polls, p.report.latencyBucketsMs = b) :
    c.app.series.minuteBuckets = lastMinutes (c.flushed.map Minute.bucket) ∧ ∀ m ∈ c.flushed,
      (m.bucket.p95Ms = p95LatencyMs (cellSum (m.polls.map Diff.latencyDelta)) b ↔
        ∀ d ∈ m.polls, d.latencyDelta.sum = 0 ∨ rank (19 / 20) d.latencyDelta.sum ≤
          samplesUpTo b d.latencyDelta
            (p95LatencyMs (cellSum (m.polls.map Diff.latencyDelta)) b)) := by
  refine ⟨window_of_exec h, fun m hm => ?_⟩
  have hgreatest : ∀ ms, m.bucket.p95Ms ≤ ms ↔
      ∀ cells ∈ m.polls.map Diff.latencyDelta, p95LatencyMs cells b ≤ ms := by
    intro ms
    rw [(shows_greatest h hbuckets).2 m hm ms, List.forall_mem_map]
  rw [greatest_p95_iff hb hgreatest, List.forall_mem_map]

/-- A report after deliveries of these latencies, one poll later than the last. -/
def deliveredReport (latencies : List ℕ) (uptimeSecs : ℕ) : MetricsReport :=
  .ofTally 0 latencies.length 0 uptimeSecs 1 (latencies.foldl BusTally.recordDelivery .new)

/-- Three polls that make a minute, between which there were the first and then the other
deliveries. -/
def minutePolls (first second : List ℕ) : List Poll :=
  [⟨deliveredReport [] 0, 1⟩, ⟨deliveredReport first 1, 1⟩,
    ⟨deliveredReport (first ++ second) 61, 60⟩]

theorem p95LatencyMs_eq (cells b : List ℕ) : p95LatencyMs cells b = if cells.sum = 0 then 0 else
    bucketMs b ((reachingCell ((19 * cells.sum + 19) / 20) 0 0 cells).getD (cells.length - 1)) := by
  unfold p95LatencyMs percentileBucket
  split
  · rfl
  · next hne => rw [rank_95 hne]

/-- What the polls of these deliveries fold into their minute. -/
def minuteDeltas (first second : List ℕ) : List (List ℕ) :=
  [histogramDelta (deliveredReport first 1).latencyHistogramMs
    (deliveredReport [] 0).latencyHistogramMs,
    histogramDelta (deliveredReport (first ++ second) 61).latencyHistogramMs
      (deliveredReport first 1).latencyHistogramMs]

theorem exists_minute (first second : List ℕ) : ∃ c m,
    Exec dashboard (minutePolls first second) c ∧
    ((minutePolls first second).map Poll.report).IsChain SameDaemon ∧ m ∈ c.flushed ∧
    m.polls.map Diff.latencyDelta = minuteDeltas first second ∧
    m.bucket.p95Ms = max (p95LatencyMs ((minuteDeltas first second).getD 1 []) latencyBucketsMs)
      (max (p95LatencyMs ((minuteDeltas first second).getD 0 []) latencyBucketsMs) 0) := by
  have hsame : SameDaemon (deliveredReport [] 0) (deliveredReport first 1) := ⟨rfl, Nat.zero_le 1⟩
  have hsame' : SameDaemon (deliveredReport first 1) (deliveredReport (first ++ second) 61) :=
    ⟨rfl, (by decide : 1 ≤ 61)⟩
  exact ⟨_, _, exec_polls _, .cons_cons hsame (.cons_cons hsame' (.singleton _)),
    List.mem_singleton_self _,
    rfl, rfl⟩

/-- A fast delivery in each poll. -/
theorem minute_p95_of_fast_polls : ∃ c m,
    Exec dashboard (minutePolls [5] [5]) c ∧
    ((minutePolls [5] [5]).map Poll.report).IsChain SameDaemon ∧ m ∈ c.flushed ∧
    m.bucket.p95Ms = p95LatencyMs (cellSum (m.polls.map Diff.latencyDelta)) latencyBucketsMs := by
  obtain ⟨c, m, hx, hsame, hm, hdeltas, -⟩ := exists_minute [5] [5]
  have hbuckets : ∀ p ∈ minutePolls [5] [5], p.report.latencyBucketsMs = latencyBucketsMs := by
    simp [minutePolls, deliveredReport, MetricsReport.ofTally]
  refine ⟨c, m, hx, hsame, hm, ((minute_p95_iff hx (by decide) hbuckets).2 m hm).mpr
    fun d hd => .inr ?_⟩
  have hcells : d.latencyDelta ∈ minuteDeltas [5] [5] := hdeltas ▸ List.mem_map_of_mem hd
  have hone : ∀ cells ∈ minuteDeltas [5] [5], cells = 0 :: 1 :: List.replicate 12 0 := by decide
  rw [hdeltas, hone _ hcells, rank_95 (by decide), p95LatencyMs_eq]
  decide

/-- One slow delivery in a quiet second, and nineteen fast ones in the rest of the minute. -/
theorem slow_poll_sets_minute : ∃ c m,
    Exec dashboard (minutePolls [70000] (List.replicate 19 5)) c ∧
    ((minutePolls [70000] (List.replicate 19 5)).map Poll.report).IsChain SameDaemon ∧
    m ∈ c.flushed ∧ m.bucket.p95Ms = 60000 ∧
    p95LatencyMs (cellSum (m.polls.map Diff.latencyDelta)) latencyBucketsMs = 10 := by
  obtain ⟨c, m, hx, hsame, hm, hdeltas, hshown⟩ := exists_minute [70000] (List.replicate 19 5)
  refine ⟨c, m, hx, hsame, hm, ?_, ?_⟩
  · rw [hshown, p95LatencyMs_eq, p95LatencyMs_eq]
    decide
  · rw [hdeltas, p95LatencyMs_eq]
    decide

end AgentBus
