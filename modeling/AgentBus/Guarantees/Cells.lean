import AgentBus.Dashboard.Sample

/-!
# How the dashboard reads the histograms

The daemon's cell `i` lies below boundary `i`, and the last cell catches all.
The dashboard takes boundary `i` for the lower end of cell `i`: it shows the
next bin's lower bound, and sums the next bin's middle. For the catch-all cell
it finds the last boundary where it looks for a percentile, and 0 in the sums.
-/

namespace AgentBus

open Lib

variable {b samples latencies sizes : List ℕ} {prev cur : MetricsReport}

/-! ## Bins -/

/-- Lower bounds of bins, from 0 on. -/
structure Boundaries (b : List ℕ) : Prop where
  increasing : b.Pairwise (· < ·)
  fromZero : b.head? = some 0

/-- The last boundary up to the value. -/
def binLower (b : List ℕ) (x : ℕ) : ℕ := (b.filter (· ≤ x)).getLast?.getD 0

/-- The first boundary above the value; the catch-all bin has none. -/
def binUpper (b : List ℕ) (x : ℕ) : Option ℕ := (b.filter (x < ·)).head?

/-- The middle of the bin after the value's own, with twice its lower bound for the end of the last;
0 in the catch-all bin. -/
def followingMid (b : List ℕ) (x : ℕ) : ℕ :=
  match b.filter (x < ·) with
  | [] => 0
  | [u] => if u < 2 ^ 63 then u + (u + 1) / 2 else u
  | u :: v :: _ => u + (v - u) / 2

/-- The bin after the value's own holds one value, or it is the last and its end overflows. -/
def NarrowAfter (b : List ℕ) (x : ℕ) : Prop :=
  match b.filter (x < ·) with
  | [] => False
  | [u] => 2 ^ 63 ≤ u
  | u :: v :: _ => v = u + 1

theorem filter_append_filter (hb : b.Pairwise (· < ·)) (x : ℕ) :
    b.filter (· ≤ x) ++ b.filter (x < ·) = b := by
  induction b with
  | nil => rfl
  | cons a b ih =>
    obtain ⟨ha, hb⟩ := List.pairwise_cons.mp hb
    by_cases hax : a ≤ x
    · simp only [List.filter_cons, hax, Nat.not_lt.mpr hax, decide_true, decide_false, if_true,
        Bool.false_eq_true, if_false, List.cons_append, ih hb]
    · have hnone : b.filter (· ≤ x) = [] := by
        rw [List.filter_eq_nil_iff]
        intro c hc
        have := ha c hc
        rw [decide_eq_true_eq]
        omega
      have hall : b.filter (x < ·) = b := by
        rw [List.filter_eq_self]
        intro c hc
        have := ha c hc
        rw [decide_eq_true_eq]
        omega
      simp [hax, Nat.lt_of_not_le hax, hnone, hall]

theorem binIndex_mono (b : List ℕ) : Monotone (binIndex b) := by
  intro x y hxy
  refine (List.monotone_filter_right b fun a ha => ?_).length_le
  exact decide_eq_true ((of_decide_eq_true ha).trans hxy)

theorem getElem?_binIndex_add (hb : b.Pairwise (· < ·)) (x k : ℕ) :
    b[binIndex b x + k]? = (b.filter (x < ·))[k]? := by
  have hbelow : (b.filter (· ≤ x)).length = binIndex b x := rfl
  calc b[binIndex b x + k]? = (b.filter (· ≤ x) ++ b.filter (x < ·))[binIndex b x + k]? := by
        rw [filter_append_filter hb x]
    _ = (b.filter (x < ·))[k]? := by
        rw [List.getElem?_append_right (by omega), hbelow, Nat.add_sub_cancel_left]

/-- **The point summed for a sample is the middle of the bin after its own.** -/
theorem bucketMid_binIndex (hb : b.Pairwise (· < ·)) (x : ℕ) :
    bucketMid b (binIndex b x) = followingMid b x := by
  have h₀ := getElem?_binIndex_add hb x 0
  have h₁ := getElem?_binIndex_add hb x 1
  rw [Nat.add_zero] at h₀
  simp only [bucketMid, followingMid, List.getD_eq_getElem?_getD, h₀, h₁]
  match b.filter (x < ·) with
  | [] => simp
  | [u] =>
    simp only [List.getElem?_cons_zero, List.getElem?_cons_succ, List.getElem?_nil,
      Option.getD_some, Option.getD_none]
    split <;> omega
  | u :: v :: rest => simp

/-- **The milliseconds shown for a sample are its bin's upper bound, or the last boundary.** -/
theorem bucketMs_binIndex (hb : b.Pairwise (· < ·)) (x : ℕ) :
    bucketMs b (binIndex b x) = (binUpper b x).getD (b.getLast?.getD 0) := by
  have h₀ := getElem?_binIndex_add hb x 0
  rw [Nat.add_zero] at h₀
  rw [bucketMs, binUpper, h₀, List.head?_eq_getElem?]

/-! ## Reported sums -/

/-- The sum lies between the lower bounds and, without samples in the catch-all bin, the upper
ones. -/
structure SumWithin (b samples : List ℕ) (sum : ℕ) : Prop where
  lower : (samples.map (binLower b)).sum ≤ sum
  upper : (∀ x ∈ samples, binUpper b x ≠ none) →
    sum ≤ (samples.map fun x => (binUpper b x).getD 0).sum

/-- What the samples in the catch-all bin lose, which are read as 0. -/
def lost (b samples : List ℕ) : ℕ :=
  ((samples.filter fun x => binUpper b x = none).map (binLower b)).sum

/-- What the other samples gain, which are read as the middle of the following bin. -/
def gained (b samples : List ℕ) : ℕ := (samples.map fun x => followingMid b x - binLower b x).sum

/-- The lower bounds fit. Without samples in the catch-all bin, every bin is followed by one without
room for a middle, or the upper bounds do not fit; otherwise the other samples gain what those
lose. -/
structure SumSurvives (b samples : List ℕ) : Prop where
  fits : (samples.map (binLower b)).sum ≤ u64Max
  narrow : (∀ x ∈ samples, binUpper b x ≠ none) → (∀ x ∈ samples, NarrowAfter b x) ∨
    u64Max ≤ (samples.map fun x => (binUpper b x).getD 0).sum
  madeUp : lost b samples ≤ gained b samples

theorem binUpper_eq_some {x u : ℕ} (h : binUpper b x = some u) : x < u := by
  have hmem := List.mem_of_head? h
  exact of_decide_eq_true (List.mem_filter.mp hmem).2

theorem binLower_le (b : List ℕ) (x : ℕ) : binLower b x ≤ x := by
  unfold binLower
  cases h : (b.filter (· ≤ x)).getLast? with
  | none => exact Nat.zero_le x
  | some a => exact of_decide_eq_true (List.mem_filter.mp (List.mem_of_getLast? h)).2

theorem le_followingMid {x u : ℕ} (h : binUpper b x = some u) : u ≤ followingMid b x := by
  unfold binUpper at h
  unfold followingMid
  split
  · next heq =>
    rw [heq] at h
    cases h
  · next heq =>
    rw [heq] at h
    obtain rfl := Option.some.inj h
    split <;> omega
  · next heq =>
    rw [heq] at h
    obtain rfl := Option.some.inj h
    omega

/-- What is summed and what is lost are the lower bounds and what is gained. -/
theorem sum_add_lost (b samples : List ℕ) : (samples.map (followingMid b)).sum + lost b samples =
    (samples.map (binLower b)).sum + gained b samples := by
  induction samples with
  | nil => rfl
  | cons x samples ih =>
    unfold lost gained at ih ⊢
    simp only [List.map_cons, List.sum_cons, List.filter_cons]
    cases hu : binUpper b x with
    | none =>
      have hzero : followingMid b x = 0 := by
        rw [followingMid, List.head?_eq_none_iff.mp hu]
      simp only [decide_true, if_true, List.map_cons, List.sum_cons]
      omega
    | some u =>
      have hlt := Nat.lt_of_le_of_lt (binLower_le b x) (binUpper_eq_some hu)
      have hle := le_followingMid hu
      simp only [reduceCtorEq, decide_false, Bool.false_eq_true, if_false]
      omega

theorem followingMid_eq_iff (hb : b.Pairwise (· < ·)) {x u : ℕ} (h : binUpper b x = some u) :
    followingMid b x = u ↔ NarrowAfter b x := by
  have hsorted : (b.filter (x < ·)).Pairwise (· < ·) := hb.sublist List.filter_sublist
  unfold binUpper at h
  unfold followingMid NarrowAfter
  split
  · next heq =>
    rw [heq] at h
    cases h
  · next a heq =>
    rw [heq] at h
    obtain rfl := Option.some.inj h
    have hpos : x < a :=
      of_decide_eq_true (List.mem_filter.mp (heq ▸ List.mem_singleton_self a : a ∈ _)).2
    split <;> omega
  · next a c rest heq =>
    rw [heq] at h hsorted
    obtain rfl := Option.some.inj h
    have hlt := List.rel_of_pairwise_cons hsorted List.mem_cons_self
    omega

theorem eq_of_sum_le {f g : ℕ → ℕ} (hle : ∀ x ∈ samples, f x ≤ g x)
    (hsum : (samples.map g).sum ≤ (samples.map f).sum) : ∀ x ∈ samples, g x = f x := by
  induction samples with
  | nil => simp
  | cons a samples ih =>
    have htail := List.sum_le_sum fun x hx => hle x (List.mem_cons_of_mem a hx)
    have hhead := hle a List.mem_cons_self
    simp only [List.map_cons, List.sum_cons] at hsum
    intro x hx
    rcases List.mem_cons.mp hx with rfl | hx
    · omega
    · exact ih (fun x hx => hle x (List.mem_cons_of_mem a hx)) (by omega) x hx

/-- **The sum that the dashboard forms lies within the bounds if and only if `SumSurvives`.** -/
theorem sumWithin_iff (hb : b.Pairwise (· < ·)) :
    SumWithin b samples (min (samples.map (followingMid b)).sum u64Max) ↔
    SumSurvives b samples := by
  have hupper : ∀ x ∈ samples, binUpper b x ≠ none → (binUpper b x).getD 0 ≤ followingMid b x := by
    intro x _ hx
    obtain ⟨u, hu⟩ := Option.ne_none_iff_exists'.mp hx
    rw [hu]
    exact le_followingMid hu
  have hbalance := sum_add_lost b samples
  constructor
  · rintro ⟨hlower, hbelow⟩
    refine ⟨by omega, fun hreal => ?_, by omega⟩
    have hle := hbelow hreal
    by_cases hfits : u64Max ≤ (samples.map fun x => (binUpper b x).getD 0).sum
    · exact .inr hfits
    · refine .inl fun x hx => ?_
      have hsame := eq_of_sum_le (fun x hx => hupper x hx (hreal x hx)) (by omega) x hx
      obtain ⟨u, hu⟩ := Option.ne_none_iff_exists'.mp (hreal x hx)
      rw [hu] at hsame
      exact (followingMid_eq_iff hb hu).mp hsame
  · rintro ⟨hfits, hnarrow, hmade⟩
    refine ⟨by omega, fun hreal => ?_⟩
    rcases hnarrow hreal with hall | hlarge
    · have hsame : (samples.map (followingMid b)).sum =
          (samples.map fun x => (binUpper b x).getD 0).sum := by
        refine congrArg List.sum (List.map_congr_left fun x hx => ?_)
        obtain ⟨u, hu⟩ := Option.ne_none_iff_exists'.mp (hreal x hx)
        rw [hu]
        exact (followingMid_eq_iff hb hu).mpr (hall x hx)
      omega
    · omega

/-! ## Reports -/

/-- What a daemon recorded between two of its reports. -/
structure RecordedBetween (prev cur : MetricsReport) (latencies sizes : List ℕ) : Prop where
  samePid : cur.pid = prev.pid
  uptime : prev.uptimeSecs ≤ cur.uptimeSecs
  latency : ∃ h : Histogram cur.latencyBucketsMs, prev.latencyHistogramMs = h.cells ∧
    cur.latencyHistogramMs = (latencies.foldl Histogram.record h).cells
  size : ∃ h : Histogram cur.sizeBucketsBytes, prev.sizeHistogramBytes = h.cells ∧
    cur.sizeHistogramBytes = (sizes.foldl Histogram.record h).cells

theorem tallies_histogramDelta (h : Histogram b) (samples : List ℕ) :
    Tallies (binIndex b) samples
      (histogramDelta (samples.foldl Histogram.record h).cells h.cells) := by
  have hlength : (samples.foldl Histogram.record h).cells.length = h.cells.length := by
    rw [Histogram.length_cells, Histogram.length_cells]
  constructor
  · intro i
    have hcell := h.getD_cells_foldl samples i
    simp only [histogramDelta, List.getD_eq_getElem?_getD, List.getElem?_zipWith] at hcell ⊢
    by_cases hi : i < h.cells.length
    · rw [List.getElem?_eq_getElem hi, List.getElem?_eq_getElem (hlength ▸ hi)] at hcell ⊢
      simp only [Option.getD_some] at hcell ⊢
      omega
    · rw [List.getElem?_eq_none (Nat.le_of_not_lt hi)] at hcell ⊢
      rw [List.getElem?_eq_none (hlength ▸ Nat.le_of_not_lt hi)] at hcell ⊢
      simpa using hcell
  · intro x _
    rw [histogramDelta, List.length_zipWith, hlength, Nat.min_self]
    exact h.binIndex_lt x

/-- The difference shows the lower bound of the percentile's bin, and sums within the bins'
bounds. -/
structure ReadsAsWritten (cur : MetricsReport) (latencies sizes : List ℕ) (d : Diff) : Prop where
  percentile : ∀ x, nearestRank (19 / 20) latencies = some x →
    d.p95LatencyMs = binLower cur.latencyBucketsMs x
  latencySum : SumWithin cur.latencyBucketsMs latencies d.latencySumMs
  sizeSum : SumWithin cur.sizeBucketsBytes sizes d.sizeSumBytes

theorem p95LatencyMs_of_tallies {cells : List ℕ} (h : Tallies (binIndex b) samples cells) {x : ℕ}
    (hx : nearestRank (19 / 20) samples = some x) :
    p95LatencyMs cells b = bucketMs b (binIndex b x) := by
  have hsum : cells.sum ≠ 0 := by
    rw [h.sum_counts]
    intro hnil
    rw [List.length_eq_zero_iff.mp hnil] at hx
    cases hx
  rw [p95LatencyMs, if_neg hsum, percentileBucket_of_tallies (binIndex_mono b) h hx]

/-- The percentile is right in the catch-all bin only. -/
theorem percentile_iff (hb : Boundaries b) {x : ℕ} :
    bucketMs b (binIndex b x) = binLower b x ↔ binUpper b x = none := by
  rw [bucketMs_binIndex hb.increasing]
  cases hu : binUpper b x with
  | none =>
    have hall := filter_append_filter hb.increasing x
    rw [List.head?_eq_none_iff.mp hu, List.append_nil] at hall
    simp [binLower, hall]
  | some u =>
    refine iff_of_false (fun heq => ?_) (by simp)
    have := binLower_le b x
    have := binUpper_eq_some hu
    rw [Option.getD_some] at heq
    omega

/-- **Between two reports of one daemon the dashboard reads the cells as they were written if and
only if the percentile lies in the catch-all bin and the sums survive.** -/
theorem cells_read_iff (hlat : Boundaries cur.latencyBucketsMs)
    (hsize : Boundaries cur.sizeBucketsBytes) (hrec : RecordedBetween prev cur latencies sizes) :
    ∃ d, Sample.diff prev cur = some d ∧ (ReadsAsWritten cur latencies sizes d ↔
      (∀ x, nearestRank (19 / 20) latencies = some x → binUpper cur.latencyBucketsMs x = none) ∧
      SumSurvives cur.latencyBucketsMs latencies ∧ SumSurvives cur.sizeBucketsBytes sizes) := by
  obtain ⟨h, hprev, hcur⟩ := hrec.latency
  obtain ⟨h', hprev', hcur'⟩ := hrec.size
  have htally := tallies_histogramDelta h latencies
  have htally' := tallies_histogramDelta h' sizes
  rw [← hprev, ← hcur] at htally
  rw [← hprev', ← hcur'] at htally'
  have hsame : ¬ (cur.uptimeSecs < prev.uptimeSecs ∨ cur.pid ≠ prev.pid) := by
    rw [not_or, not_not]
    exact ⟨Nat.not_lt.mpr hrec.uptime, hrec.samePid⟩
  refine ⟨_, if_neg hsame, ?_⟩
  have hlatSum := weightedMid_of_tallies htally cur.latencyBucketsMs
  have hsizeSum := weightedMid_of_tallies htally' cur.sizeBucketsBytes
  simp only [bucketMid_binIndex hlat.increasing] at hlatSum
  simp only [bucketMid_binIndex hsize.increasing] at hsizeSum
  have hpercentile : ∀ x, nearestRank (19 / 20) latencies = some x →
      (p95LatencyMs (histogramDelta cur.latencyHistogramMs prev.latencyHistogramMs)
        cur.latencyBucketsMs = binLower cur.latencyBucketsMs x ↔
        binUpper cur.latencyBucketsMs x = none) := by
    intro x hx
    rw [p95LatencyMs_of_tallies htally hx, percentile_iff hlat]
  constructor
  · rintro ⟨hp, hl, hs⟩
    rw [hlatSum] at hl
    rw [hsizeSum] at hs
    exact ⟨fun x hx => (hpercentile x hx).mp (hp x hx), (sumWithin_iff hlat.increasing).mp hl,
      (sumWithin_iff hsize.increasing).mp hs⟩
  · rintro ⟨hp, hl, hs⟩
    refine ⟨fun x hx => (hpercentile x hx).mpr (hp x hx), ?_, ?_⟩
    · rw [hlatSum]
      exact (sumWithin_iff hlat.increasing).mpr hl
    · rw [hsizeSum]
      exact (sumWithin_iff hsize.increasing).mpr hs

theorem boundaries_latencyBucketsMs : Boundaries latencyBucketsMs := ⟨by decide, rfl⟩

theorem boundaries_sizeBucketsBytes : Boundaries sizeBucketsBytes := ⟨by decide, rfl⟩

/-- The first report of a daemon, and the one after it delivered messages of these latencies. -/
def deliveredBetween (latencies : List ℕ) : MetricsReport × MetricsReport :=
  (.ofTally 0 0 0 1 1 .new, .ofTally 0 latencies.length 0 2 1
    (latencies.foldl BusTally.recordDelivery .new))

theorem recordedBetween_delivered (latencies : List ℕ) :
    RecordedBetween (deliveredBetween latencies).1 (deliveredBetween latencies).2 latencies [] := by
  have hfold : ∀ t : BusTally, (latencies.foldl BusTally.recordDelivery t).latencyHist =
      latencies.foldl Histogram.record t.latencyHist ∧
      (latencies.foldl BusTally.recordDelivery t).sizeHist = t.sizeHist := by
    induction latencies with
    | nil => exact fun t => ⟨rfl, rfl⟩
    | cons x latencies ih => exact fun t => ih (t.recordDelivery x)
  obtain ⟨hlatency, hsize⟩ := hfold .new
  exact ⟨rfl, Nat.le_succ 1, ⟨_, rfl, congrArg Histogram.cells hlatency⟩,
    ⟨_, rfl, congrArg Histogram.cells hsize⟩⟩

/-- One delivery took 40 seconds and one 70. -/
theorem cells_read_slow_deliveries : ∃ d,
    Sample.diff (deliveredBetween [40000, 70000]).1 (deliveredBetween [40000, 70000]).2 = some d ∧
    ReadsAsWritten (deliveredBetween [40000, 70000]).2 [40000, 70000] [] d := by
  obtain ⟨d, hd, hiff⟩ := cells_read_iff boundaries_latencyBucketsMs boundaries_sizeBucketsBytes
    (recordedBetween_delivered [40000, 70000])
  refine ⟨d, hd, hiff.mpr ⟨fun x hx => ?_, ⟨?_, ?_, ?_⟩, ⟨?_, ?_, ?_⟩⟩⟩
  · have hrank : rank (19 / 20) 2 = 2 := by
      have : ⌈(19 / 20 : ℚ) * (2 : ℕ)⌉₊ = 2 := (Nat.ceil_eq_iff (by decide)).mpr (by norm_num)
      rw [rank, this]
      rfl
    rw [nearestRank, List.length_cons, List.length_singleton, hrank] at hx
    obtain rfl : 70000 = x := Option.some.inj ((by decide :
      some 70000 = ([40000, 70000].insertionSort (· ≤ ·))[2 - 1]?).trans hx)
    decide
  · decide
  · exact fun hall => absurd rfl (hall 70000 (by decide))
  · decide
  · decide
  · exact fun _ => .inl fun x hx => absurd hx List.not_mem_nil
  · decide

/-- One delivery took 5 milliseconds, and the dashboard shows 10. -/
theorem percentile_above_sample : ∃ d,
    Sample.diff (deliveredBetween [5]).1 (deliveredBetween [5]).2 = some d ∧
    nearestRank (19 / 20) [5] = some 5 ∧ d.p95LatencyMs = 10 ∧
    ¬ ReadsAsWritten (deliveredBetween [5]).2 [5] [] d := by
  have hnearest : nearestRank (19 / 20) [5] = some 5 := by
    have hrank : rank (19 / 20) 1 = 1 := by
      unfold rank
      omega
    rw [nearestRank, List.length_singleton, hrank]
    rfl
  have htally := tallies_histogramDelta (Histogram.new : Histogram latencyBucketsMs) [5]
  have hp := (p95LatencyMs_of_tallies htally hnearest).trans (by decide :
    bucketMs latencyBucketsMs (binIndex latencyBucketsMs 5) = 10)
  refine ⟨_, if_neg (by decide), hnearest, hp, fun hreads => ?_⟩
  have hzero := (hreads.percentile 5 hnearest).symm.trans hp
  exact absurd hzero (by decide)

end AgentBus
