import AgentBus.Dashboard.App

/-!
# The dashboard's traffic

What the minutes show is what the daemon's counters grew by. A difference is
folded into one minute and flushed with it or discarded with it, and the
difference across a restart is folded into none. No sum saturates: within one
daemon's life the current minute is at most its latest counter.
-/

namespace AgentBus

open Lib

/-! ## Counters -/

/-- What the series show of the traffic. -/
inductive Counter where
  | posts
  | deliveries
  | bytes

namespace Counter

def ofTotals (k : Counter) (t : MetricsTotals) : ℕ :=
  match k with
  | posts => t.posts
  | deliveries => t.deliveries
  | bytes => t.bytesPosted

def ofDiff (k : Counter) (d : Diff) : ℕ :=
  match k with
  | posts => d.postsDelta
  | deliveries => d.deliveriesDelta
  | bytes => d.bytesDelta

def ofBucket (k : Counter) (b : MinuteBucket) : ℕ :=
  match k with
  | posts => b.posts
  | deliveries => b.deliveries
  | bytes => b.bytes

end Counter

/-- The growth between consecutive reports of one daemon, in sum. -/
def growth (k : Counter) : List MetricsReport → ℕ
  | prev :: cur :: reports =>
    (if SameDaemon prev cur then k.ofTotals cur.totals - k.ofTotals prev.totals else 0) +
      growth k (cur :: reports)
  | _ => 0

/-- No counter of a daemon decreases. -/
def NonDecreasing (reports : List MetricsReport) : Prop :=
  reports.IsChain fun prev cur => SameDaemon prev cur → ∀ k : Counter, k.ofTotals prev.totals ≤
    k.ofTotals cur.totals

/-- All counters fit. -/
def Fits (reports : List MetricsReport) : Prop :=
  ∀ r ∈ reports, ∀ k : Counter, k.ofTotals r.totals < 2 ^ 64

theorem growth_concat (k : Counter) (reports : List MetricsReport) (prev cur : MetricsReport) :
    growth k (reports ++ [prev, cur]) = growth k (reports ++ [prev]) +
      if SameDaemon prev cur then k.ofTotals cur.totals - k.ofTotals prev.totals else 0 := by
  induction reports with
  | nil => simp [growth]
  | cons r reports ih =>
    cases reports with
    | nil => simp [growth]
    | cons r' reports =>
      simp only [List.cons_append, growth] at ih ⊢
      rw [ih, Nat.add_assoc]

/-! ## Differences -/

theorem of_diff_eq_some {prev cur : MetricsReport} {d : Diff} (h : Sample.diff prev cur = some d) :
    SameDaemon prev cur ∧ ∀ k : Counter, k.ofDiff d =
      k.ofTotals cur.totals - k.ofTotals prev.totals := by
  constructor
  · by_contra hnot
    rw [diff_eq_none_iff.mpr hnot] at h
    cases h
  · unfold Sample.diff at h
    split at h
    · cases h
    · obtain rfl := Option.some.inj h
      intro k
      cases k <;> rfl

theorem ofBucket_accumulate (k : Counter) (s : Series) (d : Diff) (elapsedSecs : ℕ) :
    k.ofBucket (s.accumulate d elapsedSecs).bucket = saturatingAdd (k.ofBucket s.bucket)
    (k.ofDiff d) := by
  cases k <;> rfl

theorem ofBucket_new (k : Counter) (buckets : List MinuteBucket) :
    k.ofBucket (Series.bucket { Series.new with minuteBuckets := buckets }) = 0 := by
  cases k <;> rfl

/-! ## Accounts -/

/-- Everything the chronicle has of a counter: flushed, current and discarded. -/
def Chronicle.total (k : Counter) (c : Chronicle) : ℕ :=
  (c.flushed.map fun m => k.ofBucket m.bucket).sum + k.ofBucket c.app.series.bucket +
    (c.discarded.map k.ofBucket).sum

/-- The chronicle accounts for the reports. -/
structure Accounts (reports : List MetricsReport) (c : Chronicle) : Prop where
  latest : c.app.prev = reports.getLast?
  balanced : ∀ k : Counter, c.total k = growth k reports
  /-- The current minute is part of the latest counter. -/
  within : ∀ (k : Counter) (r : MetricsReport), c.app.prev = some r →
    k.ofBucket c.app.series.bucket ≤ k.ofTotals r.totals
  unstarted : c.app.prev = none → ∀ k : Counter, k.ofBucket c.app.series.bucket = 0
  unfilled : c.app.series.secsIntoMinute < minuteSecs

theorem growth_step (k : Counter) {reports : List MetricsReport} {prev : MetricsReport}
    (h : reports.getLast? = some prev) (cur : MetricsReport) :
    growth k (reports ++ [cur]) = growth k reports +
      if SameDaemon prev cur then k.ofTotals cur.totals - k.ofTotals prev.totals else 0 := by
  obtain ⟨older, rfl⟩ := List.getLast?_eq_some_iff.mp h
  rw [List.append_assoc]
  exact growth_concat k older prev cur

/-- What is folded into the minute is the counter's growth; nothing saturates. -/
theorem Accounts.accumulate {reports : List MetricsReport} {c : Chronicle} (h : Accounts reports c)
    {p : Poll} {prev : MetricsReport} {d : Diff} (hprev : c.app.prev = some prev)
    (hdiff : Sample.diff prev p.report = some d) (hmono : NonDecreasing (reports ++ [p.report]))
    (hfits : Fits (reports ++ [p.report])) (k : Counter) :
    k.ofBucket (c.app.series.accumulate d p.elapsedSecs).bucket ≤ k.ofTotals p.report.totals ∧
      growth k (reports ++ [p.report]) + k.ofBucket c.app.series.bucket =
        growth k reports + k.ofBucket (c.app.series.accumulate d p.elapsedSecs).bucket := by
  obtain ⟨hsame, hcount⟩ := of_diff_eq_some hdiff
  have hlast : reports.getLast? = some prev := h.latest ▸ hprev
  have hle : k.ofTotals prev.totals ≤ k.ofTotals p.report.totals :=
    (List.isChain_append.mp hmono).2.2 prev hlast p.report rfl hsame k
  have hfit := hfits p.report (by simp) k
  have hwithin := h.within k prev hprev
  rw [growth_step k hlast, if_pos hsame, ofBucket_accumulate, hcount, saturatingAdd, u64Max]
  omega

/-- **A poll keeps the accounts.** -/
theorem Accounts.poll {reports : List MetricsReport} {c : Chronicle}
    (h : Accounts reports c) (p : Poll) (hmono : NonDecreasing (reports ++ [p.report]))
    (hfits : Fits (reports ++ [p.report])) : Accounts (reports ++ [p.report]) (c.poll p) := by
  have hlatest : some p.report = (reports ++ [p.report]).getLast? := by simp
  obtain ⟨hprev, hpoll⟩ | ⟨prev, d, hprev, hdiff, hsecs, hpoll⟩ | ⟨prev, d, hprev, hdiff,
    hsecs, hpoll⟩ | ⟨prev, hprev, hdiff, hpoll⟩ := c.poll_cases p
  · -- the first report
    have hnil : reports = [] := List.getLast?_eq_none_iff.mp (h.latest ▸ hprev)
    rw [hpoll]
    refine ⟨hlatest, fun k => ?_, fun k r _ => ?_, fun hnone => absurd hnone (by simp), h.unfilled⟩
    · have hbalanced := h.balanced k
      rw [hnil] at hbalanced ⊢
      exact hbalanced
    · exact (h.unstarted hprev k).trans_le (Nat.zero_le _)
  · -- folded into the minute
    have haccumulate := h.accumulate hprev hdiff hmono hfits
    rw [hpoll]
    refine ⟨hlatest, fun k => ?_, fun k r hr => ?_, fun hnone => absurd hnone (by simp), hsecs⟩
    · have hbalanced := h.balanced k
      have hgrowth := (haccumulate k).2
      unfold Chronicle.total at hbalanced ⊢
      dsimp only
      omega
    · obtain rfl := Option.some.inj hr
      exact (haccumulate k).1
  · -- folded into the minute and flushed with it
    have haccumulate := h.accumulate hprev hdiff hmono hfits
    rw [hpoll]
    refine ⟨hlatest, fun k => ?_, fun k r _ => ?_, fun hnone => absurd hnone (by simp),
      (by decide : 0 < 60)⟩
    · have hbalanced := h.balanced k
      have hgrowth := (haccumulate k).2
      unfold Chronicle.total at hbalanced ⊢
      rw [ofBucket_new, List.map_append, List.sum_append, List.map_singleton, List.sum_singleton]
      dsimp only
      omega
    · rw [ofBucket_new]
      exact Nat.zero_le _
  · -- discarded with the minute
    have hlast : reports.getLast? = some prev := h.latest ▸ hprev
    have hrestart := diff_eq_none_iff.mp hdiff
    rw [hpoll]
    refine ⟨hlatest, fun k => ?_, fun k r _ => ?_, fun hnone => absurd hnone (by simp),
      (by decide : 0 < 60)⟩
    · have hbalanced := h.balanced k
      rw [growth_step k hlast, if_neg hrestart]
      unfold Chronicle.total at hbalanced ⊢
      dsimp only
      rw [Series.clear, ofBucket_new, List.map_append, List.sum_append, List.map_singleton,
        List.sum_singleton]
      omega
    · dsimp only
      rw [Series.clear, ofBucket_new]
      exact Nat.zero_le _

/-- **Everything flushed, current and discarded is what the counters grew by, the minute is not
full, and the window holds the most recent minutes.** -/
theorem series_account_for_growth {polls : List Poll} {c : Chronicle} (h : Exec dashboard polls c)
    (hmono : NonDecreasing (polls.map Poll.report)) (hfits : Fits (polls.map Poll.report)) :
    c.app = polls.foldl (fun app p => app.tick p.report p.elapsedSecs) .new ∧
    (∀ k : Counter, (c.flushed.map fun m => k.ofBucket m.bucket).sum +
      k.ofBucket c.app.series.bucket + (c.discarded.map k.ofBucket).sum =
        growth k (polls.map Poll.report)) ∧
    c.app.series.secsIntoMinute < minuteSecs ∧
    c.app.series.minuteBuckets = lastMinutes (c.flushed.map Minute.bucket) := by
  have haccounts : Accounts (polls.map Poll.report) c := by
    revert hmono hfits
    refine h.invariant (I := fun polls c => NonDecreasing (polls.map Poll.report) →
      Fits (polls.map Poll.report) → Accounts (polls.map Poll.report) c) (fun c hc _ _ => ?_)
      fun polls c p c' _ ih hstep hmono hfits => ?_
    · rw [show c = .new from hc]
      refine ⟨rfl, fun k => ?_, fun k r hr => absurd hr (by simp [Chronicle.new, App.new]),
        fun _ k => ?_, by decide⟩
      · cases k <;> rfl
      · cases k <;> rfl
    · rw [show c' = c.poll p from hstep]
      rw [List.map_append, List.map_singleton] at hmono hfits ⊢
      refine (ih hmono.left_of_append fun r hr => hfits r ?_).poll p hmono hfits
      exact List.mem_append_left _ hr
  exact ⟨app_of_exec h, haccounts.balanced, haccounts.unfilled, window_of_exec h⟩

/-- A minute of two differences, one that a restart discards, and one of the next daemon. -/
def restartPolls : List Poll :=
  [⟨.ofTally 10 8 1000 100 1 .new, 1⟩, ⟨.ofTally 13 9 1300 101 1 .new, 1⟩,
    ⟨.ofTally 20 9 2000 161 1 .new, 60⟩, ⟨.ofTally 22 9 2200 162 1 .new, 1⟩,
    ⟨.ofTally 1 0 100 1 2 .new, 1⟩, ⟨.ofTally 4 2 400 2 2 .new, 1⟩]

theorem series_account_across_restart : ∃ c, Exec dashboard restartPolls c ∧
    (c.flushed.map fun m => m.bucket.posts).sum + c.app.series.curPosts +
      (c.discarded.map MinuteBucket.posts).sum = 15 ∧
    c.app.series.secsIntoMinute < minuteSecs ∧
    c.app.series.minuteBuckets = lastMinutes (c.flushed.map Minute.bucket) := by
  have hmono : NonDecreasing (restartPolls.map Poll.report) := by
    have hrestart : ¬ SameDaemon (.ofTally 22 9 2200 162 1 .new)
      (.ofTally 1 0 100 1 2 .new) := by decide
    refine .cons_cons (fun _ k => ?_) (.cons_cons (fun _ k => ?_) (.cons_cons (fun _ k => ?_)
      (.cons_cons (fun hsame => absurd hsame hrestart)
        (.cons_cons (fun _ k => ?_) (.singleton _)))))
    all_goals cases k <;> decide
  have hfits : Fits (restartPolls.map Poll.report) := by
    intro r hr k
    have hsmall : ∀ r ∈ restartPolls.map Poll.report, r.totals.posts < 2 ^ 64 ∧
        r.totals.deliveries < 2 ^ 64 ∧ r.totals.bytesPosted < 2 ^ 64 := by decide
    obtain ⟨hposts, hdeliveries, hbytes⟩ := hsmall r hr
    cases k with
    | posts => exact hposts
    | deliveries => exact hdeliveries
    | bytes => exact hbytes
  have hx := exec_polls restartPolls
  obtain ⟨-, hbalanced, hsecs, hwindow⟩ := series_account_for_growth hx hmono hfits
  exact ⟨_, hx, (hbalanced .posts).trans (by decide), hsecs, hwindow⟩

end AgentBus
