import AgentBus.Daemon.Replay
import AgentBus.Daemon.Report
import AgentBus.Daemon.Steps

/-!
# Counting messages under failures

Messages come with posts and go with prunes. `publish` counts a post before
the append that may fail, and `prune` counts what it removed only after it has
written the cursor file, so a failure in either place leaves the counters
ahead of the messages for good: no later call makes up for it. The counters are
taken to stay below `2 ^ 64`, where the source's `u64` do not overflow.
-/

namespace AgentBus

open Lib PartitionLog

variable {F : Formats} {stateDir : Path} {name : PartitionName} {disk : Disk} {w₀ w w' : World}

/-! ## Calls that may fail -/

/-- A call, the faults that struck it and what came of it. -/
structure Attempt where
  call : Call
  faults : Faults
  result : Except Failure Reply

/-- Publishes, deliveries and prunes on an opened partition, each struck by its faults. -/
def attempts (F : Formats) (stateDir : Path) (w₀ : World) : System World Attempt where
  init w := w = w₀
  step _ w e w' := e.call.isOnline ∧ w.call F stateDir e.faults e.call = (e.result, w')

/-- What was there at the start or posted since is there or was pruned. -/
def Partition.Conserved (loaded : Nat) (p : Partition) : Prop :=
  p.messageCount + p.tally.pruned = loaded + p.tally.posts

/-- The call counts a post that it does not store, or removes messages that it does not count. -/
def Miscounts (w : World) (faults : Faults) : Call → Prop
  | .publish _ => faults.append ≠ none ∨ usizeMax.toNat ≤ w.partition.log.messages.length
  | .prune policy now => (∃ fault, faults.prune = some (.persist fault)) ∧
      w.partition.log.messages.filter (policy.keeps now) ≠ [] ∧
      (w.partition.log.messages.filter (policy.keeps now)).length < w.partition.log.messages.length
  | _ => False

/-! ## Single calls -/

/-- The call leaves the counters `short` messages further ahead, which is some exactly if `lost`. -/
def Shortens (p p' : Partition) (lost : Prop) : Prop :=
  ∃ short, p'.messageCount + p'.tally.pruned + short + p.tally.posts =
    p.messageCount + p.tally.pruned + p'.tally.posts ∧ (0 < short ↔ lost)

theorem publish_shortens {p : Partition} {fault : Option AppendFault} {m : Message}
    {r : Except Failure Ulid} (h : p.publish F fault disk m = (r, w')) :
    Shortens p w'.partition (fault ≠ none ∨ usizeMax.toNat ≤ p.log.messages.length) := by
  unfold Partition.publish at h
  obtain ⟨r, log, disk', happend⟩ : ∃ r log disk', p.log.append F fault disk m = (r, log, disk') :=
    ⟨_, _, _, rfl⟩
  rw [happend] at h
  cases append_effect happend with
  | stored hroom =>
    obtain ⟨-, rfl⟩ := Prod.mk.inj h
    refine ⟨0, ?_, ?_⟩
    · simp only [Partition.messageCount, List.length_append, List.length_singleton,
        PartitionTally.recordPost]
      omega
    · simp only [Nat.lt_irrefl, false_iff, not_or]
      exact ⟨fun h => h rfl, Nat.not_le.mpr hroom⟩
  | failed _ _ hcause =>
    obtain ⟨-, rfl⟩ := Prod.mk.inj h
    refine ⟨1, ?_, iff_of_true Nat.one_pos hcause⟩
    simp only [Partition.messageCount, write_messages, PartitionTally.recordPost]
    omega

theorem deliver_shortens {p : Partition} {fault : Option Partition.PersistFault} {pattern : Pattern}
    {label : String} {limit : UInt64} {r : Except Failure (List Message)}
    (h : p.deliver F fault disk pattern label limit = (r, w')) : Shortens p w'.partition False := by
  refine ⟨0, ?_, by simp⟩
  simp only [Partition.deliver] at h
  split at h
  · obtain ⟨-, rfl⟩ := Prod.mk.inj h
    rfl
  · obtain ⟨-, rfl⟩ := Prod.mk.inj h
    rfl

theorem bind_persistFault_eq_some_iff {fault : Option Partition.PruneFault}
    {f : Partition.PersistFault} :
    fault.bind Partition.PruneFault.persistFault = some f ↔ fault = some (.persist f) := by
  rcases fault with _ | _ | g <;> simp [Partition.PruneFault.persistFault]

theorem prune_shortens {p : Partition} {fault : Option Partition.PruneFault}
    {policy : RetentionPolicy} {now : Nat} {r : Except Failure Nat}
    (h : p.prune F fault disk policy now = (r, w')) :
    Shortens p w'.partition ((∃ f, fault = some (.persist f)) ∧
      p.log.messages.filter (policy.keeps now) ≠ [] ∧
      (p.log.messages.filter (policy.keeps now)).length < p.log.messages.length) := by
  simp only [Partition.prune] at h
  generalize hlogFault : fault.bind Partition.PruneFault.logFault = logFault at h
  obtain ⟨r, log, disk', hlog⟩ : ∃ r log disk', p.log.prune F logFault disk policy now =
    (r, log, disk') :=
    ⟨_, _, _, rfl⟩
  rw [hlog] at h
  -- the fault of a rewrite that failed is not in the cursor file
  have hrewrite : ∀ f, logFault = some f → ¬ ∃ f, fault = some (.persist f) := by
    rintro f rfl ⟨f, rfl⟩
    cases hlogFault
  cases prune_effect hlog with
  | kept _ hall =>
    obtain ⟨-, rfl⟩ := Prod.mk.inj h
    refine ⟨0, ?_, iff_of_false (Nat.lt_irrefl 0) fun hlost => ?_⟩
    · simp only [Partition.messageCount, PartitionTally.recordPrune]
      omega
    · rw [hall] at hlost
      exact Nat.lt_irrefl _ hlost.2.2
  | failed f _ _ =>
    obtain ⟨-, rfl⟩ := Prod.mk.inj h
    exact ⟨0, rfl, iff_of_false (Nat.lt_irrefl 0) fun hlost => hrewrite _ rfl hlost.1⟩
  | detached =>
    obtain ⟨-, rfl⟩ := Prod.mk.inj h
    refine ⟨0, ?_, iff_of_false (Nat.lt_irrefl 0) fun hlost => hrewrite _ rfl hlost.1⟩
    simp only [Partition.messageCount, unlink_messages]
    omega
  | rewritten hlt =>
    have hremoved :
      p.log.messages.length - (p.log.messages.filter (policy.keeps now)).length > 0 := by omega
    dsimp only at h
    rw [if_pos hremoved] at h
    cases hkept : p.log.messages.filter (policy.keeps now) with
    | nil =>
      simp only [hkept, List.head?_nil, Option.map_none, List.length_nil] at h
      obtain ⟨-, rfl⟩ := Prod.mk.inj h
      refine ⟨0, ?_, by simp⟩
      simp only [Partition.messageCount, PartitionTally.recordPrune, List.length_nil]
      omega
    | cons m rest =>
      simp only [hkept, List.head?_cons, Option.map_some] at h hlt
      cases hpersist : fault.bind Partition.PruneFault.persistFault with
      | none =>
        simp only [hpersist, Partition.persistCursors, CursorStore.toJson] at h
        obtain ⟨-, rfl⟩ := Prod.mk.inj h
        refine ⟨0, ?_, iff_of_false (Nat.lt_irrefl 0) ?_⟩
        · simp only [Partition.messageCount, PartitionTally.recordPrune]
          omega
        · rintro ⟨⟨f, rfl⟩, -⟩
          cases hpersist
      | some f =>
        refine ⟨p.log.messages.length - (m :: rest).length, ?_,
          iff_of_true (by omega) ⟨⟨f, bind_persistFault_eq_some_iff.mp hpersist⟩, by simp, hlt⟩⟩
        cases f <;>
          simp only [hpersist, Partition.persistCursors, CursorStore.toJson] at h <;>
          obtain ⟨-, rfl⟩ := Prod.mk.inj h <;>
          simp only [Partition.messageCount] <;> omega

/-! ## Runs -/

/-- What one call does to the counters. -/
theorem call_shortens {e : Attempt} (hallowed : e.call.isOnline)
    (h : w.call F stateDir e.faults e.call = (e.result, w')) :
    Shortens w.partition w'.partition (Miscounts w e.faults e.call) := by
  obtain ⟨call, faults, result⟩ := e
  cases call with
  | publish m =>
    obtain ⟨-, rfl⟩ := Prod.mk.inj h
    exact publish_shortens rfl
  | deliver pattern label limit =>
    obtain ⟨-, rfl⟩ := Prod.mk.inj h
    exact deliver_shortens rfl
  | prune policy now =>
    obtain ⟨-, rfl⟩ := Prod.mk.inj h
    exact prune_shortens rfl
  | history | reopen => exact absurd hallowed id

theorem tally_of_open {fault : Option Partition.OpenFault}
    (hopen : World.open F fault stateDir name disk = .ok w₀) : w₀.partition.tally = .new := by
  unfold World.open Partition.open at hopen
  split at hopen
  · next hpartition =>
    obtain rfl := Except.ok.inj hopen
    split at hpartition
    · cases hpartition
    · dsimp only at hpartition
      split at hpartition
      · cases hpartition
      · obtain ⟨hpartition, -⟩ := Prod.mk.inj hpartition
        obtain rfl := Except.ok.inj hpartition
        rfl
  · cases hopen

section Runs

variable {fault : Option Partition.OpenFault} {es : List Attempt}

theorem conserved_of_open (hopen : World.open F fault stateDir name disk = .ok w₀) :
    w₀.partition.Conserved w₀.partition.messageCount := by
  rw [Partition.Conserved, tally_of_open hopen]
  rfl

/-- The counters never fall behind. -/
theorem count_le (hopen : World.open F fault stateDir name disk = .ok w₀)
    (h : Exec (attempts F stateDir w₀) es w) :
    w.partition.messageCount + w.partition.tally.pruned ≤
      w₀.partition.messageCount + w.partition.tally.posts := by
  refine h.invariant (I := fun _ w => w.partition.messageCount + w.partition.tally.pruned ≤
    w₀.partition.messageCount + w.partition.tally.posts) (fun w hw => ?_)
      fun _ w e w' _ ih hstep => ?_
  · rw [show w = w₀ from hw]
    exact Nat.le_of_eq (conserved_of_open hopen)
  · obtain ⟨short, hcount, -⟩ := call_shortens hstep.1 hstep.2
    omega

/-- **After any calls, whatever struck them, the messages are conserved if and only if no call
miscounted**, in counters below `2 ^ 64`. -/
theorem count_conserved_iff (hopen : World.open F fault stateDir name disk = .ok w₀)
    (h : Exec (attempts F stateDir w₀) es w) :
    w.partition.Conserved w₀.partition.messageCount ↔
      Exec ((attempts F stateDir w₀).restrict fun w e => ¬ Miscounts w e.faults e.call) es w := by
  constructor
  · intro hconserved
    refine (h.restrict_or (B := fun _ w => w.partition.messageCount + w.partition.tally.pruned <
      w₀.partition.messageCount + w.partition.tally.posts) (fun _ w e w' hx hstep hmiscounts => ?_)
      fun _ w e w' _ hlt hstep => ?_).resolve_right (Nat.not_lt.mpr (Nat.le_of_eq hconserved.symm))
    · have hle := count_le hopen hx
      obtain ⟨short, hcount, hshort⟩ := call_shortens hstep.1 hstep.2
      have hpos := hshort.mpr (not_not.mp hmiscounts)
      omega
    · obtain ⟨short, hcount, -⟩ := call_shortens hstep.1 hstep.2
      omega
  · intro hr
    refine hr.invariant (I := fun _ w => w.partition.Conserved w₀.partition.messageCount)
      (fun w hw => ?_) fun _ w e w' _ ih hstep => ?_
    · rw [show w = w₀ from hw]
      exact conserved_of_open hopen
    · obtain ⟨hcounts, hallowed, hcall⟩ := hstep
      obtain ⟨short, hcount, hshort⟩ := call_shortens hallowed hcall
      have hnone : ¬ 0 < short := fun hpos => hcounts (hshort.mp hpos)
      unfold Partition.Conserved at ih ⊢
      omega

end Runs

theorem exists_open_empty (F : Formats) (stateDir : Path) (name : PartitionName) :
    ∃ w, World.open F none stateDir name ∅ = .ok w ∧ w.partition.log.messages = [] := by
  have hcursor : (touch ∅ (logPath stateDir name))[cursorPath stateDir name]? = none := by
    simp [touch, logPath_ne_cursorPath]
  have hempty : contentAt ∅ (logPath stateDir name) = [] := by simp [contentAt]
  simp only [World.open, Partition.open, Option.bind_none, PartitionLog.open, hempty, readLines,
    readLinesFrom, List.isEmpty_nil, if_true, loadLines, Partition.readCursors, hcursor]
  exact ⟨_, rfl, rfl⟩

/-- A call made with these faults. -/
def World.attempt (F : Formats) (stateDir : Path) (w : World) (faults : Faults)
    (call : Call) : Attempt :=
  ⟨call, faults, (w.call F stateDir faults call).1⟩

theorem exists_publish_deliver (F : Formats) (stateDir : Path) (faults : Faults) (pattern : Pattern)
    (label : String) (limit : UInt64) {m : Message} (h : ¬ Miscounts w₀ noFaults (.publish m)) :
    ∃ es w, Exec ((attempts F stateDir w₀).restrict fun w e => ¬ Miscounts w e.faults e.call) es w ∧
      es.map (fun e => (e.call, e.faults)) = [(.publish m, noFaults),
        (.deliver pattern label limit, faults)] := by
  have hinit : Exec ((attempts F stateDir w₀).restrict fun w e => ¬ Miscounts w e.faults e.call)
    [] w₀ :=
    .init rfl
  have hpublish := hinit.step (e := w₀.attempt F stateDir noFaults (.publish m)) ⟨h, trivial, rfl⟩
  exact ⟨_, _, hpublish.step (e := World.attempt F stateDir _ faults (.deliver pattern label limit))
    ⟨id, trivial, rfl⟩, rfl⟩

theorem exists_failed_publish (F : Formats) (stateDir : Path) (w₀ : World) (fault : AppendFault)
    (m : Message) :
    ∃ e w, Exec (attempts F stateDir w₀) [e] w ∧ e.call = .publish m ∧
      e.faults = { noFaults with append := some fault } ∧
      w.partition.messageCount + w.partition.tally.pruned + w₀.partition.tally.posts <
        w₀.partition.messageCount + w₀.partition.tally.pruned + w.partition.tally.posts := by
  have hstep : (attempts F stateDir w₀).step [] w₀
      (w₀.attempt F stateDir { noFaults with append := some fault } (.publish m))
      (w₀.call F stateDir { noFaults with append := some fault } (.publish m)).2 := ⟨trivial, rfl⟩
  obtain ⟨short, hcount, hshort⟩ := call_shortens hstep.1 hstep.2
  have hpos := hshort.mpr (.inl (by simp [World.attempt]))
  refine ⟨_, _, (Exec.init rfl).step hstep, rfl, rfl, ?_⟩
  omega

/-- A delivery whose cursor file cannot be written leaves the messages conserved. -/
theorem count_conserved_unwritten_cursors : ∃ w₀ es w,
    World.open .reference none "/state" sampleName ∅ = .ok w₀ ∧
    Exec (attempts .reference "/state" w₀) es w ∧
    es.map (fun e => (e.call, e.faults)) = [(.publish (sampleMessage 1 devTopic), noFaults),
      (.deliver devPattern "alice" usizeMax, { noFaults with persist := some .write })] ∧
    w.partition.Conserved w₀.partition.messageCount := by
  obtain ⟨w₀, hopen, hnil⟩ := exists_open_empty .reference "/state" sampleName
  have hpublish : ¬ Miscounts w₀ noFaults (.publish (sampleMessage 1 devTopic)) := by
    rintro (hfault | hfull)
    · exact hfault rfl
    · rw [hnil] at hfull
      exact absurd hfull (by decide)
  obtain ⟨es, w, hrun, hcalls⟩ := exists_publish_deliver .reference "/state"
    { noFaults with persist := some .write } devPattern "alice" usizeMax hpublish
  exact ⟨w₀, es, w, hopen, hrun.of_restrict, hcalls,
    (count_conserved_iff hopen hrun.of_restrict).mpr hrun⟩

/-- A post whose message does not reach the disk is counted all the same. -/
theorem failed_post_counted : ∃ w₀ e w,
    World.open .reference none "/state" sampleName ∅ = .ok w₀ ∧
    Exec (attempts .reference "/state" w₀) [e] w ∧
    e.call = .publish (sampleMessage 1 devTopic) ∧
    e.faults = { noFaults with append := some .sync } ∧
    ¬ w.partition.Conserved w₀.partition.messageCount := by
  obtain ⟨w₀, hopen, -⟩ := exists_open_empty .reference "/state" sampleName
  obtain ⟨e, w, hx, hcall, hfaults, hshort⟩ := exists_failed_publish .reference "/state" w₀ .sync
    (sampleMessage 1 devTopic)
  refine ⟨w₀, e, w, hopen, hx, hcall, hfaults, fun hconserved => ?_⟩
  have hstart := conserved_of_open hopen
  unfold Partition.Conserved at hconserved hstart
  omega

end AgentBus
