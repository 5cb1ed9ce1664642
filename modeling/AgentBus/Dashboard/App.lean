import AgentBus.Dashboard.Sample
import AgentBus.Lib.Runs

/-!
# The dashboard's rolling hour

`App.tick` folds the difference of two polls into the current minute, moves a
full minute into the window of buckets and starts over after a restart of the
daemon. A `Chronicle` is the dashboard together with what it does not keep:
the differences folded into each minute, the buckets that left the window and
the minutes that restarts discarded.
-/

namespace AgentBus

open Lib

def minuteSecs : ℕ := 60

/-- One hour. -/
def maxMinutes : ℕ := 60

/-- A finished minute. -/
structure MinuteBucket where
  posts : ℕ
  deliveries : ℕ
  bytes : ℕ
  sampleCount : ℕ
  latencySumMs : ℕ
  p95Ms : ℕ
  sizeSum : ℕ

/-- The buckets of the last hour and the current minute. -/
structure Series where
  minuteBuckets : List MinuteBucket
  curPosts : ℕ
  curDeliveries : ℕ
  curBytes : ℕ
  curLatencySumMs : ℕ
  curLatencySamples : ℕ
  curP95Ms : ℕ
  curSizeSum : ℕ
  curSizeSamples : ℕ
  secsIntoMinute : ℕ

namespace Series

def new : Series := ⟨[], 0, 0, 0, 0, 0, 0, 0, 0, 0⟩

/-- The current minute as a bucket. -/
def bucket (s : Series) : MinuteBucket where
  posts := s.curPosts
  deliveries := s.curDeliveries
  bytes := s.curBytes
  sampleCount := max s.curLatencySamples s.curSizeSamples
  latencySumMs := s.curLatencySumMs
  p95Ms := s.curP95Ms
  sizeSum := s.curSizeSum

/-- The same window with nothing in the current minute. -/
def clear (s : Series) : Series := { new with minuteBuckets := s.minuteBuckets }

/-- The window with one more bucket; past the cap the oldest goes. -/
def pushBucket (buckets : List MinuteBucket) (bucket : MinuteBucket) : List MinuteBucket :=
  let pushed := buckets ++ [bucket]
  if pushed.length > maxMinutes then pushed.tail else pushed

def flushBucket (s : Series) : Series :=
  if s.secsIntoMinute = 0 then s
  else { s.clear with minuteBuckets := pushBucket s.minuteBuckets s.bucket }

/-- Fold one poll's difference into the current minute. -/
def accumulate (s : Series) (diff : Diff) (elapsedSecs : ℕ) : Series :=
  { s with
    curPosts := saturatingAdd s.curPosts diff.postsDelta
    curDeliveries := saturatingAdd s.curDeliveries diff.deliveriesDelta
    curBytes := saturatingAdd s.curBytes diff.bytesDelta
    curLatencySamples := saturatingAdd s.curLatencySamples diff.latencyDelta.sum
    curLatencySumMs := saturatingAdd s.curLatencySumMs diff.latencySumMs
    curP95Ms := max diff.p95LatencyMs s.curP95Ms
    curSizeSamples := saturatingAdd s.curSizeSamples diff.sizeDelta.sum
    curSizeSum := saturatingAdd s.curSizeSum diff.sizeSumBytes
    secsIntoMinute := saturatingAdd s.secsIntoMinute elapsedSecs }

end Series

structure App where
  series : Series
  /-- The report the next poll is compared with. -/
  prev : Option MetricsReport
  hadRestart : Bool
  lastRestartMs : ℕ

namespace App

def new : App := ⟨.new, none, false, 0⟩

/-- The first poll has nothing to compare with. -/
def tick (app : App) (report : MetricsReport) (elapsedSecs : ℕ) : App :=
  let app := match app.prev with
    | none => app
    | some prev =>
      match Sample.diff prev report with
      | some diff =>
        let series := app.series.accumulate diff elapsedSecs
        { app with
          series := if series.secsIntoMinute ≥ minuteSecs then series.flushBucket else series }
      | none =>
        { app with
          hadRestart := true
          lastRestartMs := report.pollAtMs
          series := app.series.clear }
  { app with prev := some report }

end App

/-! ## Everything that was shown -/

/-- One call of `tick`. -/
structure Poll where
  report : MetricsReport
  elapsedSecs : ℕ

/-- A bucket and the differences that were folded into it. -/
structure Minute where
  polls : List Diff
  bucket : MinuteBucket

structure Chronicle where
  app : App
  /-- What was folded into the current minute. -/
  polls : List Diff
  /-- All minutes ever flushed, oldest first. -/
  flushed : List Minute
  /-- The unfinished minutes that restarts discarded. -/
  discarded : List MinuteBucket

namespace Chronicle

def new : Chronicle := ⟨.new, [], [], []⟩

/-- A poll, with what it adds to the records. -/
def poll (c : Chronicle) (p : Poll) : Chronicle :=
  let app := c.app.tick p.report p.elapsedSecs
  match c.app.prev with
  | none => { c with app }
  | some prev =>
    match Sample.diff prev p.report with
    | some diff =>
      let series := c.app.series.accumulate diff p.elapsedSecs
      if series.secsIntoMinute ≥ minuteSecs then
        { c with app, polls := [], flushed := c.flushed ++ [⟨c.polls ++ [diff], series.bucket⟩] }
      else { c with app, polls := c.polls ++ [diff] }
    | none => { c with app, polls := [], discarded := c.discarded ++ [c.app.series.bucket] }

/-- What a poll does: the first is only remembered, later ones are folded into the minute, which may
be full then, and a restart discards the minute. -/
theorem poll_cases (c : Chronicle) (p : Poll) :
    (c.app.prev = none ∧ c.poll p = { c with app := { c.app with prev := some p.report } }) ∨
    (∃ prev diff, c.app.prev = some prev ∧ Sample.diff prev p.report = some diff ∧
      (c.app.series.accumulate diff p.elapsedSecs).secsIntoMinute < minuteSecs ∧
      c.poll p = { c with
        app := { c.app with
          series := c.app.series.accumulate diff p.elapsedSecs
          prev := some p.report }
        polls := c.polls ++ [diff] }) ∨
    (∃ prev diff, c.app.prev = some prev ∧ Sample.diff prev p.report = some diff ∧
      minuteSecs ≤ (c.app.series.accumulate diff p.elapsedSecs).secsIntoMinute ∧
      c.poll p = { c with
        app := { c.app with
          series := { Series.new with
            minuteBuckets := Series.pushBucket c.app.series.minuteBuckets
              (c.app.series.accumulate diff p.elapsedSecs).bucket }
          prev := some p.report }
        polls := []
        flushed :=
          c.flushed ++
            [⟨c.polls ++ [diff], (c.app.series.accumulate diff p.elapsedSecs).bucket⟩] }) ∨
    ∃ prev, c.app.prev = some prev ∧ Sample.diff prev p.report = none ∧
      c.poll p = { c with
        app := ⟨c.app.series.clear, some p.report, true, p.report.pollAtMs⟩
        polls := []
        discarded := c.discarded ++ [c.app.series.bucket] } := by
  cases hprev : c.app.prev with
  | none => exact .inl ⟨rfl, by simp only [poll, App.tick, hprev]⟩
  | some prev =>
    right
    cases hdiff : Sample.diff prev p.report with
    | none => exact .inr (.inr ⟨prev, rfl, hdiff, by simp only [poll, App.tick, hprev, hdiff]⟩)
    | some diff =>
      by_cases hfull : minuteSecs ≤ (c.app.series.accumulate diff p.elapsedSecs).secsIntoMinute
      · refine .inr (.inl ⟨prev, diff, rfl, hdiff, hfull, ?_⟩)
        have hpos : (c.app.series.accumulate diff p.elapsedSecs).secsIntoMinute ≠ 0 := by
          unfold minuteSecs at hfull
          omega
        simp only [poll, App.tick, hprev, hdiff, if_pos hfull, Series.flushBucket, if_neg hpos]
        rfl
      · refine .inl ⟨prev, diff, rfl, hdiff, Nat.lt_of_not_le hfull, ?_⟩
        simp only [poll, App.tick, hprev, hdiff, if_neg hfull]

end Chronicle

/-- Polls one after the other, from a new dashboard on. -/
def dashboard : System Chronicle Poll where
  init c := c = .new
  step _ c p c' := c' = c.poll p

theorem Chronicle.app_poll (c : Chronicle) (p : Poll) :
    (c.poll p).app = c.app.tick p.report p.elapsedSecs := by
  unfold poll
  dsimp only
  split
  · rfl
  · split
    · split <;> rfl
    · rfl

theorem app_of_exec {polls : List Poll} {c : Chronicle} (h : Exec dashboard polls c) :
    c.app = polls.foldl (fun app p => app.tick p.report p.elapsedSecs) .new := by
  refine h.invariant (I := fun polls c =>
    c.app = polls.foldl (fun app p => app.tick p.report p.elapsedSecs) .new) (fun c hc => ?_)
    fun polls c p c' _ ih hstep => ?_
  · rw [show c = .new from hc]
    rfl
  · rw [show c' = c.poll p from hstep, c.app_poll, ih, List.foldl_append]
    rfl

/-! ## The window -/

/-- The most recent buckets, at most sixty. -/
def lastMinutes (buckets : List MinuteBucket) : List MinuteBucket :=
  buckets.drop (buckets.length - maxMinutes)

theorem pushBucket_lastMinutes (buckets : List MinuteBucket) (bucket : MinuteBucket) :
    Series.pushBucket (lastMinutes buckets) bucket = lastMinutes (buckets ++ [bucket]) := by
  unfold Series.pushBucket lastMinutes
  have hlength : (buckets.drop (buckets.length - maxMinutes) ++ [bucket]).length =
      buckets.length - (buckets.length - maxMinutes) + 1 := by
    rw [List.length_append, List.length_drop, List.length_singleton]
  dsimp only
  rw [hlength, List.length_append, List.length_singleton]
  by_cases hfull : maxMinutes ≤ buckets.length
  · have hdrop : buckets.length + 1 - maxMinutes = buckets.length - maxMinutes + 1 := by omega
    have hone : 1 ≤ (buckets.drop (buckets.length - maxMinutes)).length := by
      rw [List.length_drop]
      unfold maxMinutes at hfull ⊢
      omega
    have hle : buckets.length - maxMinutes + 1 ≤ buckets.length := by
      unfold maxMinutes at hfull ⊢
      omega
    rw [if_pos (by omega), hdrop, ← List.drop_one, List.drop_append_of_le_length hone,
      List.drop_drop, List.drop_append_of_le_length hle]
  · rw [if_neg (by omega), Nat.sub_eq_zero_of_le (by omega), Nat.sub_eq_zero_of_le (by omega)]
    rfl

/-- **The window holds the last sixty of the flushed buckets.** -/
theorem window_of_exec {polls : List Poll} {c : Chronicle} (h : Exec dashboard polls c) :
    c.app.series.minuteBuckets = lastMinutes (c.flushed.map Minute.bucket) := by
  refine h.invariant (I := fun _ c => c.app.series.minuteBuckets =
    lastMinutes (c.flushed.map Minute.bucket))
    (fun c hc => ?_) fun _ c p c' _ ih hstep => ?_
  · rw [show c = .new from hc]
    rfl
  · rw [show c' = c.poll p from hstep]
    obtain ⟨-, hpoll⟩ | ⟨prev, d, -, -, -, hpoll⟩ | ⟨prev, d, -, -, -, hpoll⟩ |
      ⟨prev, -, -, hpoll⟩ := c.poll_cases p
    · rw [hpoll]
      exact ih
    · rw [hpoll]
      exact ih
    · rw [hpoll]
      dsimp only
      rw [ih, pushBucket_lastMinutes, List.map_append, List.map_singleton]
    · rw [hpoll]
      exact ih

theorem exec_polls (polls : List Poll) :
    Exec dashboard polls (polls.foldl Chronicle.poll .new) := by
  induction polls using List.reverseRecOn with
  | nil => exact .init rfl
  | append_singleton polls p ih =>
    rw [List.foldl_append]
    exact ih.step rfl

end AgentBus
