import AgentBus.Daemon.Report
import AgentBus.Lib.Percentile

/-!
# Differences of two reports

The dashboard keeps the previous report and takes the difference to each new
one: how many messages there were in between, and the histograms of just these
messages, from which it reads a percentile and two sums.

Counts of samples stay far below 2^53, as the source says, so their sums and
the product with the quantile are taken exactly; `rank_rounded` says that the
floating point product leads to the same rank.
-/

namespace AgentBus

open Lib

/-! ## Saturating arithmetic -/

def u64Max : ℕ := 2 ^ 64 - 1

def saturatingAdd (a b : ℕ) : ℕ := min (a + b) u64Max

def saturatingMul (a b : ℕ) : ℕ := min (a * b) u64Max

/-! ## Reading a histogram -/

/-- The first cell at which the running total reaches the target. -/
def reachingCell (target : ℕ) : (acc i : ℕ) → List ℕ → Option ℕ
  | _, _, [] => none
  | acc, i, c :: cells =>
    if target ≤ acc + c then some i else reachingCell target (acc + c) (i + 1) cells

/-- The cell with the `q`-th percentile sample, by nearest rank. -/
def percentileBucket (histogram : List ℕ) (q : ℚ) : ℕ :=
  if histogram.sum = 0 then 0
  else (reachingCell (rank q histogram.sum) 0 0 histogram).getD (histogram.length - 1)

/-- The cell's boundaries as the sums read them, and the point between them. -/
def bucketMid (boundaries : List ℕ) (i : ℕ) : ℕ :=
  let lo := boundaries.getD i 0
  let hi := boundaries.getD (i + 1) ((lo * 2 + 1) % 2 ^ 64)
  lo + (hi - lo) / 2

/-- The sum of the cells' points, each weighted by its count. -/
def weightedMidFrom (boundaries : List ℕ) : (sum i : ℕ) → List ℕ → ℕ
  | sum, _, [] => sum
  | sum, i, count :: cells =>
    if count = 0 then weightedMidFrom boundaries sum (i + 1) cells
    else weightedMidFrom boundaries
      (saturatingAdd sum (saturatingMul (bucketMid boundaries i) count)) (i + 1) cells

def weightedMid (histogram boundaries : List ℕ) : ℕ := weightedMidFrom boundaries 0 0 histogram

/-- The milliseconds shown for a cell; the catch-all cell has no boundary of its own. -/
def bucketMs (boundaries : List ℕ) (bucket : ℕ) : ℕ :=
  (boundaries[bucket]?).getD (boundaries.getLast?.getD 0)

/-- The 95th percentile of a histogram, in milliseconds. -/
def p95LatencyMs (latencies boundaries : List ℕ) : ℕ :=
  if latencies.sum = 0 then 0 else bucketMs boundaries (percentileBucket latencies (19 / 20))

/-! ## Samples -/

/-- What happened between two polls. -/
structure Diff where
  postsDelta : ℕ
  deliveriesDelta : ℕ
  bytesDelta : ℕ
  latencyDelta : List ℕ
  sizeDelta : List ℕ
  latencySumMs : ℕ
  sizeSumBytes : ℕ
  p95LatencyMs : ℕ

/-- The cells' growth; no cell shrinks below zero. -/
def histogramDelta (cur prev : List ℕ) : List ℕ := List.zipWith (fun c p => c - p) cur prev

/-- Nothing, if the daemon was restarted in between. -/
def Sample.diff (prev cur : MetricsReport) : Option Diff :=
  if cur.uptimeSecs < prev.uptimeSecs ∨ cur.pid ≠ prev.pid then none
  else
    let latencyDelta := histogramDelta cur.latencyHistogramMs prev.latencyHistogramMs
    let sizeDelta := histogramDelta cur.sizeHistogramBytes prev.sizeHistogramBytes
    some {
      postsDelta := cur.totals.posts - prev.totals.posts
      deliveriesDelta := cur.totals.deliveries - prev.totals.deliveries
      bytesDelta := cur.totals.bytesPosted - prev.totals.bytesPosted
      latencyDelta
      sizeDelta
      latencySumMs := weightedMid latencyDelta cur.latencyBucketsMs
      sizeSumBytes := weightedMid sizeDelta cur.sizeBucketsBytes
      p95LatencyMs := p95LatencyMs latencyDelta cur.latencyBucketsMs }

/-- Neither did the process change nor its uptime shrink. -/
def SameDaemon (prev cur : MetricsReport) : Prop :=
  cur.pid = prev.pid ∧ prev.uptimeSecs ≤ cur.uptimeSecs

instance : DecidableRel SameDaemon :=
  fun prev cur =>
    inferInstanceAs (Decidable (cur.pid = prev.pid ∧ prev.uptimeSecs ≤ cur.uptimeSecs))

theorem diff_eq_none_iff {prev cur : MetricsReport} : Sample.diff prev cur = none ↔
    ¬ SameDaemon prev cur := by
  unfold Sample.diff
  split
  · next hrestart =>
    refine iff_of_true rfl fun hsame => ?_
    exact hrestart.elim (Nat.not_lt.mpr hsame.2) fun hpid => hpid hsame.1
  · next hsame =>
    rw [not_or, not_not] at hsame
    exact iff_of_false (by simp) (not_not_intro ⟨hsame.2, Nat.le_of_not_lt hsame.1⟩)

/-- The report of a daemon with these totals and histograms that has nothing else to show. -/
def MetricsReport.ofTally (posts deliveries bytesPosted uptimeSecs pid : ℕ) (tally : BusTally) :
    MetricsReport where
  pid
  uptimeSecs
  pollAtMs := 0
  totals := ⟨posts, deliveries, bytesPosted, 0, 0, 0, 0, 0⟩
  latencyBucketsMs := AgentBus.latencyBucketsMs
  latencyHistogramMs := tally.latencyHist.cells
  sizeBucketsBytes := AgentBus.sizeBucketsBytes
  sizeHistogramBytes := tally.sizeHist.cells
  activeWaiters := 0
  activeFollowers := 0
  partitions := []
  publishers := []
  topTopics := []
  topConsumers := []

/-! ## Percentiles -/

theorem reachingCell_spec {target : ℕ} (cells : List ℕ) (acc i : ℕ) (hacc : acc < target)
    (hreach : target ≤ acc + cells.sum) : ∃ j, reachingCell target acc i cells = some (i + j) ∧
      ∀ k, j ≤ k ↔ target ≤ acc + (cells.take (k + 1)).sum := by
  induction cells generalizing acc i with
  | nil => simp at hreach; omega
  | cons c cells ih =>
    rw [List.sum_cons] at hreach
    unfold reachingCell
    by_cases hc : target ≤ acc + c
    · refine ⟨0, if_pos hc, fun k => iff_of_true (Nat.zero_le k) ?_⟩
      rw [List.take_succ_cons, List.sum_cons]
      omega
    · obtain ⟨j, hj, hfirst⟩ := ih (acc + c) (i + 1) (Nat.lt_of_not_le hc) (by omega)
      refine ⟨j + 1, ?_, fun k => ?_⟩
      · rw [if_neg hc, hj, Nat.add_assoc, Nat.add_comm 1]
      · cases k with
        | zero => simp [hc]
        | succ k => rw [Nat.add_le_add_iff_right, hfirst k, List.take_succ_cons (i := k + 1),
            List.sum_cons, Nat.add_assoc]

/-- **The percentile's cell lies at or before a cell if and only if enough samples do.** -/
theorem percentileBucket_le_iff {cells : List ℕ} (q : ℚ) (h : cells.sum ≠ 0) (i : ℕ) :
    percentileBucket cells q ≤ i ↔ rank q cells.sum ≤ (cells.take (i + 1)).sum := by
  obtain ⟨j, hj, hfirst⟩ := reachingCell_spec cells 0 0 (one_le_rank q cells.sum)
    (by rw [Nat.zero_add]; exact rank_le q h)
  rw [percentileBucket, if_neg h, hj, Option.getD_some, Nat.zero_add, hfirst i, Nat.zero_add]

/-- **With counts of samples the percentile's cell is the class of the percentile.** -/
theorem percentileBucket_of_tallies {q : ℚ} {f : ℕ → ℕ} {samples cells : List ℕ} (hf : Monotone f)
    (h : Tallies f samples cells) {x : ℕ} (hx : nearestRank q samples = some x) :
    percentileBucket cells q = f x := by
  have hsum : cells.sum ≠ 0 := by
    rw [h.sum_counts]
    intro hnil
    rw [List.length_eq_zero_iff.mp hnil] at hx
    cases hx
  refine eq_of_forall_ge_iff fun i => ?_
  rw [percentileBucket_le_iff q hsum, h.sum_take, h.sum_counts, ← rank_le_countP_iff hf hx]
  simp only [Nat.lt_succ_iff]

/-! ## Sums -/

theorem saturatingAdd_min (a b : ℕ) : saturatingAdd (min a u64Max) (min b u64Max) =
    min (a + b) u64Max := by
  unfold saturatingAdd
  omega

/-- Saturating on the way is saturating at the end. -/
theorem weightedMidFrom_eq (boundaries cells : List ℕ) (sum i : ℕ) :
    weightedMidFrom boundaries (min sum u64Max) i cells = min (sum +
      ∑ j ∈ Finset.range cells.length, bucketMid boundaries (i + j) * cells.getD j 0) u64Max := by
  induction cells generalizing sum i with
  | nil => simp [weightedMidFrom]
  | cons count cells ih =>
    have hshift : ∑ j ∈ Finset.range (count :: cells).length,
          bucketMid boundaries (i + j) * (count :: cells).getD j 0 =
            bucketMid boundaries i * count +
        ∑ j ∈ Finset.range cells.length, bucketMid boundaries (i + 1 + j) * cells.getD j 0 := by
      rw [List.length_cons, Finset.sum_range_succ', Nat.add_comm]
      refine congrArg₂ _ (by simp) (Finset.sum_congr rfl fun j _ => ?_)
      rw [List.getD_cons_succ, Nat.add_assoc, Nat.add_comm 1]
    rw [hshift, weightedMidFrom]
    by_cases hcount : count = 0
    · rw [if_pos hcount, ih, hcount, Nat.mul_zero, Nat.zero_add]
    · rw [if_neg hcount, saturatingMul, saturatingAdd_min, ih, Nat.add_assoc]

/-- **The weighted sum is the sum of the samples' points, as far as it fits.** -/
theorem weightedMid_of_tallies {f : ℕ → ℕ} {samples cells : List ℕ} (h : Tallies f samples cells)
    (boundaries : List ℕ) :
    weightedMid cells boundaries =
      min (samples.map fun x => bucketMid boundaries (f x)).sum u64Max := by
  have heq := weightedMidFrom_eq boundaries cells 0 0
  rw [Nat.zero_min] at heq
  simp only [Nat.zero_add] at heq
  rw [weightedMid, heq, h.sum_range (bucketMid boundaries)]

/-! ## Rounding -/

/-- What the rounding of doubles is relied on for: it keeps the order and whole numbers up to 2^53,
and is off by at most one part in 2^53. -/
structure RoundsToDouble (fl : ℚ → ℚ) : Prop where
  monotone : Monotone fl
  whole : ∀ n : ℕ, n ≤ 2 ^ 53 → fl n = n
  close : ∀ x : ℚ, 1 / 2 ≤ x → x - x / 2 ^ 53 ≤ fl x

/-- The literal `0.95` as a double. -/
def literal95 : ℚ := 8556839292003942 / 2 ^ 53

/-- **The rounded product leads to the same rank.** -/
theorem rank_rounded {fl : ℚ → ℚ} (h : RoundsToDouble fl) {total : ℕ} (hpos : 0 < total)
    (hsmall : total ≤ 2 ^ 48) : ⌈fl (literal95 * fl total)⌉₊ = ⌈(19 / 20 : ℚ) * total⌉₊ := by
  have hn : (1 : ℚ) ≤ total := by exact_mod_cast hpos
  have hn' : (total : ℚ) ≤ 2 ^ 48 := by exact_mod_cast hsmall
  rw [h.whole total (by omega)]
  have hpos' : 0 < ⌈(19 / 20 : ℚ) * total⌉₊ := Nat.ceil_pos.mpr (by positivity)
  obtain ⟨t, ht⟩ : ∃ t, ⌈(19 / 20 : ℚ) * total⌉₊ = t + 1 := ⟨_, (Nat.sub_add_cancel hpos').symm⟩
  have hle : (19 / 20 : ℚ) * total ≤ (t + 1 : ℕ) := ht ▸ Nat.le_ceil _
  have hlt : (t : ℚ) < 19 / 20 * total := by
    by_contra hge
    have := Nat.ceil_le.mpr (not_lt.mp hge)
    omega
  have htsmall : t + 1 ≤ 2 ^ 53 := by
    have : (t : ℚ) < 2 ^ 48 := by linarith
    have : t < 2 ^ 48 := by exact_mod_cast this
    omega
  rw [ht, Nat.ceil_eq_iff (Nat.succ_ne_zero t)]
  constructor
  · -- twenty times the target is a whole number, so the product misses it by a twentieth or more
    have hgap : (20 * t + 1 : ℚ) ≤ 19 * total := by
      have : 20 * t < 19 * total := by
        have : (20 * t : ℚ) < 19 * total := by linarith
        exact_mod_cast this
      exact_mod_cast this
    have hclose := h.close (literal95 * total) (by unfold literal95; linarith)
    rw [Nat.succ_sub_one]
    refine lt_of_lt_of_le ?_ hclose
    unfold literal95
    linarith
  · rw [← h.whole (t + 1) htsmall]
    refine h.monotone (le_trans ?_ hle)
    unfold literal95
    linarith

end AgentBus
