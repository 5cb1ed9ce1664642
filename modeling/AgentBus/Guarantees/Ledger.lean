import AgentBus.Daemon.Acts
import AgentBus.Guarantees.Cells
import AgentBus.Guarantees.Histograms

/-!
# What the reports count

A daemon's counters start at zero with the process and only grow. What they
show is what happened: every message that was handed out is counted once, every
post that was acknowledged too, and of the posts that failed those whose record
was to be appended. So the difference of two reports of one daemon is the
traffic in between (`diff_shows_traffic`). All this is said of counters that
stay below `2 ^ 64`, where the source's `u64` do not overflow.
-/

namespace AgentBus

open Lib

/-! ## Partitions -/

/-- The same partition with counters that are no smaller. -/
structure Partition.Grows (p p' : Partition) : Prop where
  name : p'.name = p.name
  skipped : p'.log.skippedRecords = p.log.skippedRecords
  tally : p.tally.Le p'.tally

namespace Partition

variable {F : Formats} {p p' p'' : Partition} {w : World}

theorem Grows.refl (p : Partition) : p.Grows p := ⟨rfl, rfl, .refl _⟩

theorem Grows.trans (h : p.Grows p') (h' : p'.Grows p'') : p.Grows p'' :=
  ⟨h'.name.trans h.name, h'.skipped.trans h.skipped, h.tally.trans h'.tally⟩

theorem skippedRecords_write (log : PartitionLog) (disk : Disk) (bytes : Bytes) :
    (log.write disk bytes).1.skippedRecords = log.skippedRecords := by
  unfold PartitionLog.write
  split <;> rfl

theorem skippedRecords_append {fault : Option PartitionLog.AppendFault} {log log' : PartitionLog}
    {disk disk' : Disk} {m : Message} {r : Except Failure Unit}
    (h : log.append F fault disk m = (r, log', disk')) :
    log'.skippedRecords = log.skippedRecords := by
  cases PartitionLog.append_effect h with
  | stored | failed => exact skippedRecords_write ..

theorem skippedRecords_prune {fault : Option PartitionLog.PruneFault} {log log' : PartitionLog}
    {disk disk' : Disk} {policy : RetentionPolicy} {now : ℕ} {r : Except Failure PruneOutcome}
    (h : log.prune F fault disk policy now = (r, log', disk')) :
    log'.skippedRecords = log.skippedRecords := by
  cases PartitionLog.prune_effect h with
  | kept | rewritten | failed => rfl
  | detached =>
    unfold PartitionLog.unlink
    split <;> rfl

/-- A post is counted whether or not it reaches the file. -/
theorem grows_publish {fault : Option PartitionLog.AppendFault} {disk : Disk} {m : Message}
    {r : Except Failure Ulid} (h : p.publish F fault disk m = (r, w)) :
    w.partition.tally = p.tally.recordPost m.body.utf8ByteSize (m.priority == .high) m.broadcast ∧
      p.Grows w.partition := by
  unfold publish at h
  have hle := p.tally.le_recordPost m.body.utf8ByteSize (m.priority == .high) m.broadcast
  split at h
  all_goals
    next happend =>
    obtain ⟨-, rfl⟩ := Prod.mk.inj h
    exact ⟨rfl, rfl, skippedRecords_append happend, hle⟩

theorem grows_deliver {fault : Option PersistFault} {disk : Disk} {pattern : Pattern}
    {label : String} {limit : UInt64} {r : Except Failure (List Message)}
    (h : p.deliver F fault disk pattern label limit = (r, w)) :
    w.partition.tally = p.tally.recordDeliveries (r.toOption.getD []).length ∧
    p.Grows w.partition := by
  unfold deliver at h
  simp only at h
  split at h
  · obtain ⟨rfl, rfl⟩ := Prod.mk.inj h
    exact ⟨rfl, rfl, rfl, .refl _⟩
  · obtain ⟨rfl, rfl⟩ := Prod.mk.inj h
    exact ⟨rfl, rfl, rfl, p.tally.le_recordDeliveries _⟩

/-- A prune that succeeds counts what it removes. -/
theorem grows_prune {fault : Option PruneFault} {disk : Disk} {policy : RetentionPolicy} {now : ℕ}
    {r : Except Failure ℕ} (h : p.prune F fault disk policy now = (r, w)) :
    (∃ removed snapped, w.partition.tally = p.tally.recordPrune removed snapped) ∧
    p.Grows w.partition := by
  unfold prune at h
  split at h
  · next hlog =>
    obtain ⟨-, rfl⟩ := Prod.mk.inj h
    exact ⟨⟨0, 0, rfl⟩, rfl, skippedRecords_prune hlog, .refl _⟩
  · next hlog =>
    split at h
    · obtain ⟨-, rfl⟩ := Prod.mk.inj h
      exact ⟨⟨_, 0, rfl⟩, rfl, skippedRecords_prune hlog, p.tally.le_recordPrune ..⟩
    · simp only at h
      split at h
      all_goals obtain ⟨-, rfl⟩ := Prod.mk.inj h
      · exact ⟨⟨0, 0, rfl⟩, rfl, skippedRecords_prune hlog, .refl _⟩
      · exact ⟨⟨_, _, rfl⟩, rfl, skippedRecords_prune hlog, p.tally.le_recordPrune ..⟩

end Partition

namespace Bus

variable {F : Formats} {b b' b'' : Bus} {ms ms' : List Message} {ds ds' : List Handing}

/-! ## Growth -/

/-- No open partition is closed, and no counter shrinks. -/
structure Grows (b b' : Bus) : Prop where
  started : b'.state.started = b.state.started
  partitions : ∀ (n : String) p, b.state.partitions[n]? = some p →
    ∃ p', b'.state.partitions[n]? = some p' ∧ p.Grows p'
  tally : b.state.busTally.Le b'.state.busTally

theorem Grows.refl (b : Bus) : b.Grows b := ⟨rfl, fun _ p hp => ⟨p, hp, .refl p⟩, .refl _⟩

theorem Grows.trans (h : b.Grows b') (h' : b'.Grows b'') : b.Grows b'' := by
  refine ⟨h'.started.trans h.started, fun n p hp => ?_, h.tally.trans h'.tally⟩
  obtain ⟨p', hp', hgrows⟩ := h.partitions n p hp
  obtain ⟨p'', hp'', hgrows'⟩ := h'.partitions n p' hp'
  exact ⟨p'', hp'', hgrows.trans hgrows'⟩

theorem Same.grows (h : b.Same b') : b.Grows b' :=
  ⟨h.started, fun n p hp => ⟨p, by rw [h.partitions, hp], .refl p⟩, h.tally⟩

theorem exists_of_deliver {fault : Option Partition.PersistFault} {name : PartitionName}
    {p : Partition} {pattern : Pattern} {label : String} {limit : UInt64}
    {r : Except Failure (List Message)}
    (h : b.deliver F fault name p pattern label limit = (r, b')) :
    ∃ w, p.deliver F fault b.disk pattern label limit = (r, w) ∧ b' = b.put name.asStr w := by
  obtain ⟨hr, rfl⟩ := Prod.mk.inj h
  exact ⟨_, Prod.ext hr rfl, rfl⟩

theorem exists_of_pruneOne {fault : Option Partition.PruneFault} {now : ℕ} {n : String}
    {r : Except Failure ℕ} (h : b.pruneOne F fault now n = (r, b')) :
    b' = b ∨ ∃ p w, b.state.partitions[n]? = some p ∧
      p.prune F fault b.disk b.state.policy now = (r, w) ∧ b' = b.put n w := by
  unfold pruneOne at h
  split at h
  · obtain ⟨-, rfl⟩ := Prod.mk.inj h
    exact .inl rfl
  · next p hp =>
    obtain ⟨hr, rfl⟩ := Prod.mk.inj h
    exact .inr ⟨p, _, hp, Prod.ext hr rfl, rfl⟩

theorem grows_put {n : String} {w : World}
    (h : ∀ p, b.state.partitions[n]? = some p → p.Grows w.partition) : b.Grows (b.put n w) := by
  refine ⟨rfl, fun n' p hp => ?_, .refl _⟩
  by_cases hn : n = n'
  · subst hn
    exact ⟨w.partition, by simp [put], h p hp⟩
  · exact ⟨p, by simp [put, Std.ExtTreeMap.getElem?_insert, hn, hp], .refl p⟩

theorem grows_partitionMut {fault : Option Partition.OpenFault} {name : PartitionName}
    {r : Except Failure Partition} (h : b.partitionMut F fault name = (r, b')) : b.Grows b' := by
  rcases partitionMut_cases (F := F) fault b name with
    ⟨p, -, heq⟩ | ⟨hnone, ⟨p, disk, -, heq⟩ | ⟨e, disk, -, heq⟩⟩
  all_goals obtain ⟨-, rfl⟩ := Prod.mk.inj (heq.symm.trans h)
  · exact .refl b
  · refine grows_put fun p hp => ?_
    cases hnone.symm.trans hp
  · exact ⟨rfl, fun _ p hp => ⟨p, hp, .refl p⟩, .refl _⟩

theorem Act.grows {sweep : Option Nat} (h : Act F sweep b ms ds b') : b.Grows b' := by
  -- one partition is written back
  have hput : ∀ {n : String} {p : Partition} {w : World}, b.state.partitions[n]? = some p →
      p.Grows w.partition → b.Grows (b.put n w) := fun hp hgrows =>
    grows_put fun q hq => Option.some.inj (hp.symm.trans hq) ▸ hgrows
  cases h with
  | quiet hsame => exact hsame.grows
  | opened hopen => exact grows_partitionMut hopen
  | posted hp _ hpublish => exact hput hp (Partition.grows_publish hpublish).2
  | delivered hp hdeliver | undelivered hp hdeliver =>
    obtain ⟨w, hw, rfl⟩ := exists_of_deliver hdeliver
    exact hput hp (Partition.grows_deliver hw).2
  | pruned _ hprune =>
    obtain rfl | ⟨p, w, hp, hw, rfl⟩ := exists_of_pruneOne hprune
    · exact .refl b'
    · exact hput hp (Partition.grows_prune hw).2

/-- **Nothing that a daemon counts shrinks.** -/
theorem Acts.grows {sweep : Option Nat} (h : Acts F sweep b ms ds b') : b.Grows b' := by
  induction h with
  | refl => exact .refl b
  | act _ hact ih => exact ih.trans hact.grows

/-! ## Counters -/

/-- One counter of all partitions. -/
def total (f : PartitionTally → ℕ) (b : Bus) : ℕ := sumOver (fun p => f p.tally) b.state.partitions

def bodyBytes (m : Message) : ℕ := m.body.utf8ByteSize

/-- The counters count the messages posted and those handed out. -/
structure Counts (ms : List Message) (ds : List Handing) (b b' : Bus) : Prop where
  posts : b'.total PartitionTally.posts = b.total PartitionTally.posts + ms.length
  bytes : b'.total PartitionTally.bytes = b.total PartitionTally.bytes + (ms.map bodyBytes).sum
  postsHigh : b'.total PartitionTally.postsHigh =
    b.total PartitionTally.postsHigh + ms.countP fun m => m.priority == .high
  postsBroadcast : b'.total PartitionTally.postsBroadcast =
    b.total PartitionTally.postsBroadcast + ms.countP fun m => m.broadcast
  deliveries : b'.total PartitionTally.deliveries = b.total PartitionTally.deliveries + ds.length

theorem Counts.trans (h : Counts ms ds b b') (h' : Counts ms' ds' b' b'') :
    Counts (ms ++ ms') (ds ++ ds') b b'' := by
  constructor
  · rw [h'.posts, h.posts, List.length_append, Nat.add_assoc]
  · rw [h'.bytes, h.bytes, List.map_append, List.sum_append, Nat.add_assoc]
  · rw [h'.postsHigh, h.postsHigh, List.countP_append, Nat.add_assoc]
  · rw [h'.postsBroadcast, h.postsBroadcast, List.countP_append, Nat.add_assoc]
  · rw [h'.deliveries, h.deliveries, List.length_append, Nat.add_assoc]

theorem counts_of_same (h : ∀ f : PartitionTally → ℕ, f .new = 0 → b'.total f = b.total f) :
    Counts [] [] b b' :=
  ⟨h _ rfl, h _ rfl, h _ rfl, h _ rfl, h _ rfl⟩

theorem total_put {n : String} {p : Partition} {w : World} {f : PartitionTally → ℕ} {k : ℕ}
    (hp : b.state.partitions[n]? = some p) (h : f w.partition.tally = f p.tally + k) :
    (b.put n w).total f = b.total f + k := by
  have hsum := sumOver_insert_of_some (f := fun p => f p.tally) (v := w.partition) hp
  simp only [total, put]
  omega

theorem counts_partitionMut {fault : Option Partition.OpenFault} {name : PartitionName}
    {r : Except Failure Partition} (h : b.partitionMut F fault name = (r, b')) :
    Counts [] [] b b' := by
  refine counts_of_same fun f hzero => ?_
  rcases partitionMut_cases (F := F) fault b name with
    ⟨p, -, heq⟩ | ⟨hnone, ⟨p, disk, hopen, heq⟩ | ⟨e, disk, -, heq⟩⟩
  all_goals obtain ⟨-, rfl⟩ := Prod.mk.inj (heq.symm.trans h)
  · rfl
  · rw [total, put, sumOver_insert_of_none hnone, Partition.tally_of_open hopen, hzero]
    rfl
  · rfl

theorem Act.counts {sweep : Option Nat} (h : Act F sweep b ms ds b') : Counts ms ds b b' := by
  cases h with
  | quiet hsame =>
    refine counts_of_same fun f _ => ?_
    rw [total, hsame.partitions]
    rfl
  | opened hopen => exact counts_partitionMut hopen
  | @posted _ _ p m _ w hp _ hpublish =>
    have htally := (Partition.grows_publish hpublish).1
    constructor
    all_goals refine total_put hp ?_
    all_goals rw [htally]
    · rfl
    · rfl
    · cases hhigh : m.priority == .high <;> simp [PartitionTally.recordPost, hhigh]
    · cases hbroadcast : m.broadcast <;> simp [PartitionTally.recordPost, hbroadcast]
    · rfl
  | @delivered _ _ p pattern label _ batch _ hp hdeliver =>
    obtain ⟨w, hw, rfl⟩ := exists_of_deliver hdeliver
    have htally := (Partition.grows_deliver hw).1
    constructor
    all_goals refine total_put hp ?_
    all_goals rw [htally]
    · rfl
    · rfl
    · rfl
    · rfl
    · simp [PartitionTally.recordDeliveries, handings, Except.toOption]
  | undelivered hp hdeliver =>
    obtain ⟨w, hw, rfl⟩ := exists_of_deliver hdeliver
    have htally := (Partition.grows_deliver hw).1
    exact counts_of_same fun f _ => total_put (k := 0) hp (by rw [htally]; rfl)
  | pruned _ hprune =>
    obtain rfl | ⟨p, w, hp, hw, rfl⟩ := exists_of_pruneOne hprune
    · exact counts_of_same fun _ _ => rfl
    · obtain ⟨removed, snapped, htally⟩ := (Partition.grows_prune hw).1
      constructor
      all_goals exact total_put (k := 0) hp (by rw [htally]; rfl)

/-- **The counters count what happens.** -/
theorem Acts.counts {sweep : Option Nat} (h : Acts F sweep b ms ds b') : Counts ms ds b b' := by
  induction h with
  | refl => exact counts_of_same fun _ _ => rfl
  | act _ hact ih => exact ih.trans hact.counts

/-! ## Sizes -/

def sizeHist (b : Bus) : Histogram sizeBucketsBytes := b.state.busTally.sizeHist

theorem sizeHist_partitionMut {fault : Option Partition.OpenFault} {name : PartitionName}
    {r : Except Failure Partition} (h : b.partitionMut F fault name = (r, b')) :
    b'.sizeHist = b.sizeHist := by
  rcases partitionMut_cases (F := F) fault b name with
    ⟨p, -, heq⟩ | ⟨-, ⟨p, disk, -, heq⟩ | ⟨e, disk, -, heq⟩⟩
  all_goals
    obtain ⟨-, rfl⟩ := Prod.mk.inj (heq.symm.trans h)
    rfl

theorem sizeHist_deliver {fault : Option Partition.PersistFault} {name : PartitionName}
    {p : Partition} {pattern : Pattern} {label : String} {limit : UInt64}
    {r : Except Failure (List Message)}
    (h : b.deliver F fault name p pattern label limit = (r, b')) : b'.sizeHist = b.sizeHist := by
  obtain ⟨w, -, rfl⟩ := exists_of_deliver h
  rfl

theorem sizeHist_recordLatency (b : Bus) (millis : ℕ → ℕ) (batch : List Message) :
    (b.recordLatency millis batch).sizeHist = b.sizeHist :=
  (latencies_recordLatency b.state millis batch).2.1

theorem sizeHist_pruneEach (faults : String → Option Partition.PruneFault) (now : ℕ)
    (names : List String) (b : Bus) : (pruneEach F faults now names b).2.sizeHist = b.sizeHist := by
  induction names generalizing b with
  | nil => rfl
  | cons n names ih =>
    have hone : ∀ r b', b.pruneOne F (faults n) now n = (r, b') → b'.sizeHist = b.sizeHist := by
      intro r b' hprune
      obtain rfl | ⟨p, w, -, -, rfl⟩ := exists_of_pruneOne hprune <;> rfl
    rw [pruneEach]
    rcases hprune : b.pruneOne F (faults n) now n with ⟨e | removed, b'⟩
    · exact hone _ _ hprune
    · exact (ih b').trans (hone _ _ hprune)

theorem sizeHist_post (faults : Faults) (r : Readings) (b : Bus) (topic body : String)
    (priority : Priority) («from» : Option String) (broadcast : Bool) :
    (b.post F faults r topic body priority «from» broadcast).2.sizeHist =
      (((Request.post topic body priority «from» broadcast).acknowledged r
        (b.post F faults r topic body priority «from» broadcast).1).map bodyBytes).foldl .record
          b.sizeHist := by
  simp only [post]
  split
  · rfl
  · next t hparsed =>
    split
    · rfl
    · next name hname =>
      rcases hopen : b.partitionMut F faults.openFault name with ⟨e | p, b₁⟩
      · exact sizeHist_partitionMut hopen
      · simp only
        have hopened := sizeHist_partitionMut hopen
        rcases p.publish F faults.append b₁.disk _ with ⟨e | id, w⟩
        · exact hopened
        · -- the one message that is acknowledged
          have hbody : ((Request.post topic body priority «from» broadcast).acknowledged r
              (.reply (.posted id r.ts))).map bodyBytes = [body.utf8ByteSize] := by
            simp only [Request.acknowledged, Request.message, hparsed, hname]
            cases broadcast <;> rfl
          rw [hbody, ← hopened]
          rfl

theorem sizeHist_work {faults : Faults} {r : Readings} {q : Request} {name : PartitionName}
    {p : Partition} {d : Dispatch} (hq : q.drawsId = false) (h : Work F faults r q name p b d b') :
    b'.sizeHist = b.sizeHist := by
  cases h with
  | ensured | followed | replayed => rfl
  | unposted hdraws | posted hdraws => cases hq.symm.trans hdraws
  | undelivered hdeliver | waiting hdeliver => exact sizeHist_deliver hdeliver
  | delivered hdeliver => exact (sizeHist_recordLatency ..).trans (sizeHist_deliver hdeliver)

theorem sizeHist_handled {faults : Faults} {r : Readings} {q : Request} {d : Dispatch}
    (hq : q.drawsId = false) (h : Handled F faults r b q d b') : b'.sizeHist = b.sizeHist := by
  cases h with
  | refused | status | metrics | shutdown => rfl
  | unopened _ hopen => exact sizeHist_partitionMut hopen
  | worked _ hopen hwork => exact (sizeHist_work hq hwork).trans (sizeHist_partitionMut hopen)

/-- **The sizes are those of the acknowledged messages.** -/
theorem sizeHist_dispatch {faults : Faults} {r : Readings} {q : Request} {d : Dispatch}
    (h : b.dispatch F faults r q = (d, b')) :
    b'.sizeHist = ((q.acknowledged r d).map bodyBytes).foldl .record b.sizeHist := by
  have hother : q.message r = none → q.drawsId = false →
      b'.sizeHist = ((q.acknowledged r d).map bodyBytes).foldl .record b.sizeHist := by
    intro hnone hdraws
    rw [acknowledged_of_not_post hnone]
    have hhandled := sizeHist_handled hdraws (handled_of_dispatch h)
    exact hhandled
  cases q with
  | post topic body priority «from» broadcast =>
    obtain ⟨rfl, rfl⟩ := Prod.ext_iff.mp h
    exact sizeHist_post faults r _ topic body priority «from» broadcast
  | _ => exact hother rfl rfl

end Bus

/-! ## Steps -/

/-- What an observer of the daemon sees of a step. -/
structure Traffic where
  acknowledged : List Message
  handed : List Handing

/-- A daemon whose traffic is observed. -/
def traffic (F : Formats) (threshold : ℕ) (stateDir : Path) :
    System Service (ServiceEvent × Traffic) :=
  (service F threshold stateDir).watched fun s e s' => ⟨s.acknowledged e s', s.handed e s'⟩

/-- The messages that were requested to be posted, those acknowledged and those handed out. -/
def requestedIn (es : List (ServiceEvent × Traffic)) : List Message :=
  es.flatMap fun e => e.1.message.toList

def acknowledgedIn (es : List (ServiceEvent × Traffic)) : List Message :=
  es.flatMap fun e => e.2.acknowledged

def handedIn (es : List (ServiceEvent × Traffic)) : List Handing := es.flatMap fun e => e.2.handed

section Steps

variable {F : Formats} {threshold : ℕ} {stateDir : Path} {sh sh' : Shared} {c c' : Connection}

theorem sizeHist_subscribed {p : Parked} {b b' : Bus} {fault : Option Partition.OpenFault} {now : ℕ}
    (h : Parked.Subscribed F fault now p b c b') : b'.sizeHist = b.sizeHist := by
  cases h with
  | unnamed => rfl
  | unopened _ hopen | subscribed _ hopen => exact Bus.sizeHist_partitionMut hopen

theorem sizeHist_checked {p : Parked} {place : Subscription} {b b' : Bus} {faults : Faults}
    (h : Parked.Checked F faults p place b c b') : b'.sizeHist = b.sizeHist := by
  cases h with
  | unopened hopen => exact Bus.sizeHist_partitionMut hopen
  | missed _ hopen hdeliver | broken _ hopen hdeliver | idle hopen hdeliver
  | waited _ hopen hdeliver
  | followed _ hopen hdeliver =>
    exact (Bus.sizeHist_deliver hdeliver).trans (Bus.sizeHist_partitionMut hopen)

theorem sizeHist_connection {e : ConnectionEvent} (h : c.Step F sh e sh' c') :
    sh'.bus.sizeHist = ((c.acknowledged e c').map Bus.bodyBytes).foldl .record sh.bus.sizeHist := by
  cases h with
  | @request q faults r d b hdispatch =>
    have hsizes := Bus.sizeHist_dispatch hdispatch
    rw [(handed_handle ..).2]
    exact hsizes
  | subscribe hsub => exact sizeHist_subscribed (Parked.subscribed_of_subscribe hsub)
  | check hcheck => exact sizeHist_checked (Parked.checked_of_check hcheck)
  | record => exact Bus.sizeHist_recordLatency ..
  | enter => rw [Shared.bus_enter]; rfl
  | leave => rw [Shared.bus_leave]; rfl
  | _ => rfl

theorem sizeHist_step {s s' : Service} {e : ServiceEvent} (h : s.Step F threshold e s') :
    s'.shared.bus.sizeHist = ((s.acknowledged e s').map Bus.bodyBytes).foldl .record
      s.shared.bus.sizeHist := by
  cases h with
  | accept _ => rfl
  | @connection i c c' e sh hc hstep =>
    simpa only [Service.acknowledged, hc, Std.ExtTreeMap.getElem?_insert_self]
      using sizeHist_connection hstep
  | @sweep e sh w hstep =>
    generalize s.sweeper = v at hstep
    cases hstep with
    | @prune faults now instant r b hprune =>
      have hsizes := Bus.sizeHist_pruneEach (F := F) faults now
        s.shared.bus.state.partitions.keys s.shared.bus
      rwa [show Bus.pruneEach F faults now s.shared.bus.state.partitions.keys
        s.shared.bus = (r, b) from
        hprune] at hsizes
    | loadWaiters | loadFollowers | idle _ _ | busy | signal => rfl

end Steps

/-! ## Runs -/

/-- From `b` to `b'` the counters grew by the traffic. -/
structure Bus.Shows (es : List (ServiceEvent × Traffic)) (b b' : Bus) : Prop where
  counts : ∃ posted, (acknowledgedIn es).Sublist posted ∧ posted.Sublist (requestedIn es) ∧
    Bus.Counts posted (handedIn es) b b'
  sizes : b'.sizeHist = ((acknowledgedIn es).map Bus.bodyBytes).foldl .record b.sizeHist
  grows : b.Grows b'

section Runs

variable {F : Formats} {threshold : ℕ} {stateDir : Path} {s s' : Service}

theorem Bus.shows_refl (b : Bus) : Bus.Shows [] b b :=
  ⟨⟨[], List.Sublist.refl _, List.Sublist.refl _, counts_of_same fun _ _ => rfl⟩, rfl, .refl b⟩

/-- **A step adds its traffic to the counters.** -/
theorem shows_step {es fs : List (ServiceEvent × Traffic)} {e : ServiceEvent × Traffic} {b : Bus}
    (h : Bus.Shows es b s.shared.bus) (hstep : (traffic F threshold stateDir).step fs s e s') :
    Bus.Shows (es ++ [e]) b s'.shared.bus := by
  obtain ⟨e, seen⟩ := e
  obtain ⟨hnext, hseen⟩ := hstep
  obtain rfl : seen = ⟨s.acknowledged e s', s.handed e s'⟩ := hseen
  have hone := Service.step_of_next hnext
  obtain ⟨ms, hacts, hms, hacked⟩ := acts_of_step hone
  obtain ⟨posted, hsub, hrequested, hcounts⟩ := h.counts
  have happend : ∀ {α : Type} (f : ServiceEvent × Traffic → List α) (x : ServiceEvent × Traffic),
      (es ++ [x]).flatMap f = es.flatMap f ++ f x := by simp
  refine ⟨⟨posted ++ ms, ?_, ?_, ?_⟩, ?_, h.grows.trans hacts.grows⟩
  · rw [acknowledgedIn, happend]
    exact hsub.append hacked
  · rw [requestedIn, happend]
    exact hrequested.append hms
  · rw [handedIn, happend]
    exact hcounts.trans hacts.counts
  · rw [acknowledgedIn, happend, List.map_append, List.foldl_append, sizeHist_step hone, h.sizes]
    rfl

theorem shows_onward {es fs : List (ServiceEvent × Traffic)}
    (h : Exec ((traffic F threshold stateDir).onward es s) fs s') :
    Bus.Shows fs s.shared.bus s'.shared.bus := by
  induction h with
  | init hi =>
    rw [show _ = s from hi]
    exact Bus.shows_refl _
  | step _ hstep ih => exact shows_step ih hstep

end Runs

/-! ## Reports -/

/-- No total is smaller. -/
structure MetricsTotals.Le (t t' : MetricsTotals) : Prop where
  posts : t.posts ≤ t'.posts
  deliveries : t.deliveries ≤ t'.deliveries
  bytesPosted : t.bytesPosted ≤ t'.bytesPosted
  postsHigh : t.postsHigh ≤ t'.postsHigh
  postsBroadcast : t.postsBroadcast ≤ t'.postsBroadcast
  pruned : t.pruned ≤ t'.pruned
  skipped : t.skipped ≤ t'.skipped
  snapped : t.snapped ≤ t'.snapped

/-- A later row about the same partition. -/
structure PartitionMetrics.Le (p p' : PartitionMetrics) : Prop where
  name : p'.name = p.name
  posts : p.posts ≤ p'.posts
  deliveries : p.deliveries ≤ p'.deliveries
  bytes : p.bytes ≤ p'.bytes
  pruned : p.pruned ≤ p'.pruned
  skipped : p'.skipped = p.skipped
  snapped : p.snapped ≤ p'.snapped

/-- No total, no cell and no partition's counter is smaller, and no partition is missing. -/
structure MetricsReport.Le (r r' : MetricsReport) : Prop where
  totals : r.totals.Le r'.totals
  latencies : ∀ i, r.latencyHistogramMs.getD i 0 ≤ r'.latencyHistogramMs.getD i 0
  sizes : ∀ i, r.sizeHistogramBytes.getD i 0 ≤ r'.sizeHistogramBytes.getD i 0
  partitions : ∀ p ∈ r.partitions, ∃ p' ∈ r'.partitions, p.Le p'

theorem PartitionMetrics.le_of_grows {p p' : Partition} (h : p.Grows p') (now now' : ℕ) :
    (partitionMetrics now p).Le (partitionMetrics now' p') where
  name := congrArg PartitionName.asStr h.name
  posts := h.tally.posts
  deliveries := h.tally.deliveries
  bytes := h.tally.bytes
  pruned := h.tally.pruned
  skipped := h.skipped
  snapped := h.tally.snapped

theorem Bus.Grows.sum_le {b b' : Bus} (h : b.Grows b') {f : Partition → ℕ}
    (hf : ∀ p p' : Partition, p.Grows p' → f p ≤ f p') :
    sumOver f b.state.partitions ≤ sumOver f b'.state.partitions := by
  refine sumOver_mono fun n p hp => ?_
  obtain ⟨p', hp', hgrows⟩ := h.partitions n p hp
  exact ⟨p', hp', hf p p' hgrows⟩

/-- **Reports grow with the daemon's counters.** -/
theorem MetricsReport.le_of_grows {b b' : Bus} (h : b.Grows b') (r r' : ReportReadings) :
    (buildMetrics b.state r).Le (buildMetrics b'.state r') where
  totals := by
    constructor
    all_goals refine h.sum_le fun p p' hgrows => ?_
    · exact hgrows.tally.posts
    · exact hgrows.tally.deliveries
    · exact hgrows.tally.bytes
    · exact hgrows.tally.postsHigh
    · exact hgrows.tally.postsBroadcast
    · exact hgrows.tally.pruned
    · exact hgrows.skipped.ge
    · exact hgrows.tally.snapped
  latencies := h.tally.latencies
  sizes := h.tally.sizes
  partitions q hq := by
    obtain ⟨p, hp, rfl⟩ := List.mem_map.mp hq
    obtain ⟨n, hn⟩ := mem_values.mp hp
    obtain ⟨p', hp', hgrows⟩ := h.partitions n p hn
    exact ⟨_, List.mem_map_of_mem (mem_values.mpr ⟨n, hp'⟩), PartitionMetrics.le_of_grows hgrows ..⟩

/-- The report that a metrics request is answered with. -/
def Service.reported (_ : Service) (e : ServiceEvent) (s' : Service) : Option MetricsReport :=
  match e with
  | .connection i (.request .metrics _ _) =>
    match s'.connections[i]? with
    | some (.answering (.response (.metrics report)) _) => some report
    | _ => none
  | _ => none

section Reports

variable {F : Formats} {threshold : ℕ} {stateDir : Path} {s s' : Service}

theorem exists_of_reported {e : ServiceEvent} {report : MetricsReport} (h : s.Step F threshold e s')
    (hreported : s.reported e s' = some report) :
    ∃ r, report = buildMetrics s'.shared.bus.state r := by
  unfold Service.reported at hreported
  split at hreported
  · cases h with
    | @connection i c c' e sh hc hstep =>
      cases hstep with
      | request hdispatch =>
        obtain ⟨rfl, rfl⟩ := Prod.ext_iff.mp hdispatch
        simp only [Std.ExtTreeMap.getElem?_insert_self] at hreported
        exact ⟨_, (Option.some.inj hreported).symm⟩
  · cases hreported

/-- The reports grow, and the counters have grown since each of them. -/
structure Reported (reports : List MetricsReport) (b : Bus) : Prop where
  grow : reports.Pairwise MetricsReport.Le
  made : ∀ report ∈ reports, ∃ (b' : Bus) (r : ReportReadings),
    report = buildMetrics b'.state r ∧ b'.Grows b

theorem Reported.onward {reports : List MetricsReport} {b b' : Bus} (h : Reported reports b)
    (hgrows : b.Grows b') : Reported reports b' := by
  refine ⟨h.grow, fun report hmem => ?_⟩
  obtain ⟨b₀, r, rfl, hgrown⟩ := h.made report hmem
  exact ⟨b₀, r, rfl, hgrown.trans hgrows⟩

theorem Reported.report {reports : List MetricsReport} {b : Bus} (h : Reported reports b)
    (r : ReportReadings) : Reported (reports ++ [buildMetrics b.state r]) b := by
  constructor
  · refine List.pairwise_append.mpr ⟨h.grow, List.pairwise_singleton ..,
      fun old hold new hnew => ?_⟩
    obtain rfl := List.mem_singleton.mp hnew
    obtain ⟨b', r', rfl, hgrown⟩ := h.made old hold
    exact MetricsReport.le_of_grows hgrown ..
  · intro report hmem
    rcases List.mem_append.mp hmem with hold | hnew
    · exact h.made report hold
    · exact ⟨b, r, List.mem_singleton.mp hnew, .refl b⟩

/-- Reports before and after Alice posts and reads her own message. -/
def meteredRead : List ServiceEvent :=
  .accept 0 :: [.request .metrics noFaults (readingsAt 1), .sent,
    .request (.post "iot_base/dev_01" "hello" .high none false) noFaults (readingsAt 2), .sent,
    .request (.read "iot_base/*" "alice") noFaults (readingsAt 3), .sent,
    .request .metrics noFaults (readingsAt 4), .sent].map (.connection 0)

theorem exec_meteredRead : ∃ s, Exec (service .reference idleShutdownSecs "/state")
    meteredRead s := by
  obtain ⟨s, hx, -⟩ := exec_of_freshService idleShutdownSecs (fun _ _ => true) meteredRead
    (fun _ => true) (by decide +kernel)
  exact ⟨s, hx.of_restrict⟩

theorem exec_traffic_read : ∃ es s, Exec (traffic .reference idleShutdownSecs "/state") es s ∧
    es.map Prod.fst = meteredRead := by
  obtain ⟨s, hx⟩ := exec_meteredRead
  obtain ⟨es, hes, hevents⟩ := Exec.exists_watched
    (fun s e s' => (⟨s.acknowledged e s', s.handed e s'⟩ : Traffic)) hx
  exact ⟨es, s, hes, hevents⟩

/-- **Every metrics report of a daemon is at least as large as all earlier ones**, in counters below
`2 ^ 64`. -/
theorem reports_grow {es : List (ServiceEvent × Option MetricsReport)}
    (h : Exec ((service F threshold stateDir).watched Service.reported) es s) :
    (es.filterMap Prod.snd).Pairwise MetricsReport.Le := by
  have hreported : Reported (es.filterMap Prod.snd) s.shared.bus := by
    refine h.invariant (I := fun es s => Reported (es.filterMap Prod.snd) s.shared.bus)
      (fun _ _ => ⟨List.Pairwise.nil, nofun⟩) ?_
    rintro es s ⟨e, seen⟩ s' _ ih ⟨hnext, hseen⟩
    have hone := Service.step_of_next hnext
    obtain ⟨ms, hacts, -⟩ := acts_of_step hone
    have honward := ih.onward hacts.grows
    rw [List.filterMap_append]
    cases seen with
    | none => simpa using honward
    | some report =>
      obtain ⟨r, rfl⟩ := exists_of_reported hone hseen.symm
      exact honward.report r
  exact hreported.grow

theorem reports_grow_read : ∃ es s,
    Exec ((service .reference idleShutdownSecs "/state").watched Service.reported) es s ∧
      es.map Prod.fst = meteredRead ∧ (es.filterMap Prod.snd).Pairwise MetricsReport.Le := by
  obtain ⟨s, hx⟩ := exec_meteredRead
  obtain ⟨es, hes, hevents⟩ := Exec.exists_watched Service.reported hx
  exact ⟨es, s, hes, hevents, reports_grow hes⟩

theorem tallies_foldl_new {b : List ℕ} (values : List ℕ) :
    Tallies (binIndex b) values (values.foldl Histogram.record (.new : Histogram b)).cells := by
  constructor
  · intro i
    rw [Histogram.getD_cells_foldl, Histogram.new, List.getD_eq_getElem?_getD,
      List.getElem?_replicate]
    split <;> simp
  · exact fun x _ => Histogram.binIndex_lt _ x

/-- **What a report shows is what has happened since the daemon's start**, in counters below
`2 ^ 64`. -/
theorem reports_account {es : List (ServiceEvent × Traffic)}
    (h : Exec (traffic F threshold stateDir) es s) (r : ReportReadings) :
    let report := buildMetrics s.shared.bus.state r
    ∃ posted, (acknowledgedIn es).Sublist posted ∧ posted.Sublist (requestedIn es) ∧
      report.totals.posts = posted.length ∧ report.totals.bytesPosted =
        (posted.map Bus.bodyBytes).sum ∧
      report.totals.postsHigh = (posted.countP fun m => m.priority == .high) ∧
      report.totals.postsBroadcast = (posted.countP fun m => m.broadcast) ∧
      report.totals.deliveries = (handedIn es).length ∧
      Tallies (binIndex sizeBucketsBytes) ((acknowledgedIn es).map Bus.bodyBytes)
        report.sizeHistogramBytes := by
  obtain ⟨b, hnew, hshows⟩ : ∃ b, (∃ disk now, b = ⟨.new stateDir now, disk⟩) ∧
      Bus.Shows es b s.shared.bus := by
    refine h.invariant (I := fun es s => ∃ b, (∃ disk now, b = ⟨.new stateDir now, disk⟩) ∧
      Bus.Shows es b s.shared.bus) ?_ ?_
    · rintro _ ⟨disk, now, rfl⟩
      exact ⟨_, ⟨disk, now, rfl⟩, Bus.shows_refl _⟩
    · rintro es s e s' _ ⟨b, hnew, ih⟩ hstep
      exact ⟨b, hnew, shows_step ih hstep⟩
  obtain ⟨disk, now, rfl⟩ := hnew
  obtain ⟨posted, hacked, hrequested, hcounts⟩ := hshows.counts
  -- every counter starts at zero
  have hzero : ∀ f, Bus.total f ⟨.new stateDir now, disk⟩ = 0 := fun _ => sumOver_empty _
  refine ⟨posted, hacked, hrequested, ?_, ?_, ?_, ?_, ?_, ?_⟩
  · exact hcounts.posts.trans (by rw [hzero, Nat.zero_add])
  · exact hcounts.bytes.trans (by rw [hzero, Nat.zero_add])
  · exact hcounts.postsHigh.trans (by rw [hzero, Nat.zero_add])
  · exact hcounts.postsBroadcast.trans (by rw [hzero, Nat.zero_add])
  · exact hcounts.deliveries.trans (by rw [hzero, Nat.zero_add])
  · rw [show (buildMetrics s.shared.bus.state r).sizeHistogramBytes =
      s.shared.bus.sizeHist.cells from rfl,
      hshows.sizes]
    exact tallies_foldl_new _

theorem reports_account_read : ∃ es s, Exec (traffic .reference idleShutdownSecs "/state") es s ∧
    es.map Prod.fst = meteredRead ∧ ∀ r, (buildMetrics s.shared.bus.state r).totals.deliveries =
      (handedIn es).length := by
  obtain ⟨es, s, hx, hevents⟩ := exec_traffic_read
  refine ⟨es, s, hx, hevents, fun r => ?_⟩
  obtain ⟨-, -, -, -, -, -, -, hdeliveries, -⟩ := reports_account hx r
  exact hdeliveries

/-- **The difference of two reports of one daemon is the traffic in between**, in counters below
`2 ^ 64`. -/
theorem diff_shows_traffic {es fs : List (ServiceEvent × Traffic)}
    (h : Exec ((traffic F threshold stateDir).onward es s) fs s') {r r' : ReportReadings}
    (hpid : r'.pid = r.pid) (hclock : r.instant ≤ r'.instant) :
    ∃ posted d, (acknowledgedIn fs).Sublist posted ∧ posted.Sublist (requestedIn fs) ∧
      Sample.diff (buildMetrics s.shared.bus.state r) (buildMetrics s'.shared.bus.state r') =
        some d ∧
      d.postsDelta = posted.length ∧ d.bytesDelta = (posted.map Bus.bodyBytes).sum ∧
      d.deliveriesDelta = (handedIn fs).length ∧
      Tallies (binIndex sizeBucketsBytes) ((acknowledgedIn fs).map Bus.bodyBytes) d.sizeDelta ∧
      d.sizeSumBytes = min ((acknowledgedIn fs).map fun m =>
        bucketMid sizeBucketsBytes (binIndex sizeBucketsBytes (Bus.bodyBytes m))).sum u64Max := by
  have hshows := shows_onward h
  obtain ⟨posted, hacked, hrequested, hcounts⟩ := hshows.counts
  -- it is the same daemon, and its uptime has not shrunk
  have hsame : ¬ ((buildMetrics s'.shared.bus.state r').uptimeSecs <
        (buildMetrics s.shared.bus.state r).uptimeSecs ∨
      (buildMetrics s'.shared.bus.state r').pid ≠ (buildMetrics s.shared.bus.state r).pid) := by
    rw [not_or, not_not, Nat.not_lt]
    refine ⟨?_, hpid⟩
    simp only [buildMetrics, BusState.uptimeSecs, hshows.grows.started, elapsedSecs]
    exact Nat.div_le_div_right (by omega)
  have htally := tallies_histogramDelta s.shared.bus.sizeHist
    ((acknowledgedIn fs).map Bus.bodyBytes)
  rw [← hshows.sizes] at htally
  have hsum := weightedMid_of_tallies htally sizeBucketsBytes
  rw [List.map_map] at hsum
  refine ⟨posted, _, hacked, hrequested, if_neg hsame, ?_, ?_, ?_, htally, hsum⟩
  · exact Nat.sub_eq_of_eq_add' hcounts.posts
  · exact Nat.sub_eq_of_eq_add' hcounts.bytes
  · exact Nat.sub_eq_of_eq_add' hcounts.deliveries

theorem diff_shows_read : ∃ es fs s s', Exec (traffic .reference idleShutdownSecs "/state") es s ∧
    Exec ((traffic .reference idleShutdownSecs "/state").onward es s) fs s' ∧
    (es ++ fs).map Prod.fst = meteredRead ∧ es.length = 3 ∧ ∀ r, ∃ d,
      Sample.diff (buildMetrics s.shared.bus.state r) (buildMetrics s'.shared.bus.state r) =
        some d ∧
      d.deliveriesDelta = (handedIn fs).length := by
  obtain ⟨es, s', hx, hevents⟩ := exec_traffic_read
  rw [← List.take_append_drop 3 es] at hx
  obtain ⟨s, hs, honward⟩ := hx.exists_onward
  have hlength : es.length = 9 := by simpa [meteredRead] using congrArg List.length hevents
  refine ⟨_, _, s, s', hs, honward, by rwa [List.take_append_drop], by simp [hlength], fun r => ?_⟩
  obtain ⟨-, d, -, -, hdiff, -, -, hdeliveries, -⟩ :=
    diff_shows_traffic honward (rfl : r.pid = r.pid) (Nat.le_refl _)
  exact ⟨d, hdiff, hdeliveries⟩

end Reports

end AgentBus
