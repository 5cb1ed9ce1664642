import AgentBus.Daemon.Replay
import AgentBus.Daemon.Server

/-!
# No task sleeps through a message

A task that is blocked and owed no signal has nothing to deliver, as long as
every posted id is at least the ids of the log (`no_lost_wakeup`). Below an id
that was loaded from the file it need not be: `message_behind_blocked_wait`
drops the record that a message was delivered while the message survives.
-/

namespace AgentBus

open Lib PartitionLog

variable {F : Formats} {stateDir : Path} {name : PartitionName} {as : List Action} {s : Server}
  {ok : Server → Action → Prop}

/-- The action posts no message below one of the log. -/
def Server.PostsAbove (s : Server) (a : Action) : Prop :=
  ∀ e, a = .call e → e.call.PostsAbove s.world

theorem awake_of_exec (h : Exec ((serving F stateDir name).restrict Server.PostsAbove) as s) :
    s.Awake := by
  refine h.invariant (I := fun _ s => s.Awake) (fun s hs => ?_) fun as s a s' _ ih hstep => ?_
  · obtain ⟨⟨disk, hopen⟩, hnone⟩ := hs
    exact ⟨served_of_open hopen, fun i t ht => by rw [hnone i] at ht; cases ht⟩
  · exact ih.step hstep.1 hstep.2

/-- **A blocked task with no signal pending has nothing to deliver.** -/
theorem no_lost_wakeup (h : Exec ((serving F stateDir name).restrict Server.PostsAbove) as s)
    {i : Nat} {t : Task} (ht : s.tasks i = some t) (hblocked : t.phase = .blocked)
    (hpending : t.pending s.world = 0) :
    (s.world.partition.deliver F none s.world.disk t.pattern t.label 1).1 = .ok [] := by
  have hawake := awake_of_exec h
  obtain ⟨hle, hidle⟩ := hawake.alert i t ht
  have hreceived : t.received = s.world.partition.notify := by
    have hle : t.received ≤ s.world.partition.notify := hle
    unfold Task.pending at hpending
    omega
  rw [Partition.deliver_none]
  exact congrArg Except.ok
    ((idle_iff hawake.served.ascending (by decide) _ _).mp (hidle hblocked hreceived))

/-! ## Calls of other clients -/

theorem exec_of_replay_calls {cond : World → Call → Bool}
    (hcond : ∀ s e, cond s.world e.call = true → ok s (.call e)) {calls : List Call}
    {es : List Event} {w : World} (h : Exec ((serving F stateDir name).restrict ok) as s)
    (hr : s.world.replay F stateDir cond calls = some (es, w)) (honline : ∀ c ∈ calls, c.isOnline) :
    Exec ((serving F stateDir name).restrict ok) (as ++ es.map .call) { s with world := w } ∧
      es.map Event.call = calls := by
  induction calls generalizing es as s with
  | nil =>
    obtain ⟨rfl, rfl⟩ := Prod.mk.inj (Option.some.inj hr)
    exact ⟨by simpa using h, rfl⟩
  | cons c calls ih =>
    simp only [World.replay] at hr
    split at hr
    · next hc =>
      split at hr
      · cases hr
      · next reply w₁ hcall =>
        obtain ⟨⟨ds, w₂⟩, hr', heq⟩ := Option.map_eq_some_iff.mp hr
        obtain ⟨rfl, rfl⟩ := Prod.mk.inj heq
        have hstep : (serving F stateDir name).step as s (.call ⟨c, reply⟩)
          { s with world := w₁ } :=
          .call (e := ⟨c, reply⟩) (honline c List.mem_cons_self) hcall
        obtain ⟨hx, hcalls⟩ := ih (h.step ⟨hcond s ⟨c, reply⟩ hc, hstep⟩) hr' fun c hc =>
          honline c (List.mem_cons_of_mem _ hc)
        exact ⟨by simpa using hx, by simp [hcalls]⟩
    · cases hr

/-- A task that finds nothing when it first checks blocks. -/
theorem exec_subscribe_block (hok : ∀ s a, (∀ e, a ≠ .call e) → ok s a)
    (h : Exec ((serving F stateDir name).restrict ok) as s) {i : Nat} (hfree : s.tasks i = none)
    (kind : TaskKind) (pattern : Pattern) (label : String)
    (hnil : s.world.partition.merged pattern label kind.limit = []) :
    ∃ s', Exec ((serving F stateDir name).restrict ok)
        (as ++ [.subscribe i kind pattern label, .check i []]) s' ∧
      s'.world = (s.world.partition.deliver F none s.world.disk pattern label kind.limit).2 ∧
      s'.tasks i = some ⟨kind, pattern, label, s.world.partition.notify, .blocked⟩ := by
  let t : Task := ⟨kind, pattern, label, s.world.partition.notify, .checking⟩
  have hsub : (serving F stateDir name).step as s (.subscribe i kind pattern label)
      (s.setTask i (some t)) := .subscribe kind pattern label hfree
  have ht : (s.setTask i (some t)).tasks i = some t := by simp [Server.setTask]
  have hdel : s.world.partition.deliver F none s.world.disk pattern label kind.limit =
      (.ok [], (s.world.partition.deliver F none s.world.disk pattern label kind.limit).2) := by
    rw [Partition.deliver_none, hnil]
  have hcheck : (serving F stateDir name).step (as ++ [.subscribe i kind pattern label])
      (s.setTask i (some t)) (.check i [])
      { (s.setTask i (some t)).setTask i (t.afterCheck []) with
        world := (s.world.partition.deliver F none s.world.disk pattern label kind.limit).2 } :=
    .check ht rfl hdel
  have hrun := (h.step ⟨hok _ _ fun _ => Action.noConfusion, hsub⟩).step
    ⟨hok _ _ fun _ => Action.noConfusion, hcheck⟩
  rw [List.append_assoc] at hrun
  exact ⟨_, hrun, rfl, by simp [Server.setTask, Task.afterCheck, t]⟩

/-! ## Loaded partitions -/

/-- A partition that is opened from a log with these messages, and its disk. -/
def loadedWorld (F : Formats) (stateDir : Path) (name : PartitionName)
    (ms : List Message) : World :=
  ⟨.loaded stateDir name ms,
    touch (Std.ExtTreeMap.insert ∅ (logPath stateDir name) (ms.flatMap (recordOf F)))
      (logPath stateDir name)⟩

theorem serving_loaded (hF : F.Faithful) {ms : List Message}
    (hsorted : ms.Pairwise fun a b => a.id < b.id) :
    Exec ((serving F stateDir name).restrict ok)
    [] ⟨loadedWorld F stateDir name ms, fun _ => none⟩ := by
  let disk : Disk := Std.ExtTreeMap.insert ∅ (logPath stateDir name) (ms.flatMap (recordOf F))
  have hcontent : contentAt disk (logPath stateDir name) = ms.flatMap (recordOf F) :=
    contentAt_insert_self ..
  have hopen := open_of_records hF hcontent (by simp [disk, logPath_ne_cursorPath]) hsorted
  refine .init ⟨⟨disk, ?_⟩, fun _ => rfl⟩
  rw [World.open, hopen]
  rfl

/-! ## A wait between other calls -/

/-- Where a message was loaded: alice begins to wait under `devPattern` after the calls `before`,
finds nothing and blocks; `P` is observed after the calls `after`, of the signals she received and
the world. -/
def observeWait (cond : World → Call → Bool) (before after : List Call)
    (P : Nat → World → Bool) : Bool :=
  ((loadedWorld .reference "/state" sampleName [sampleMessage 10 plannerTopic]).replay .reference
    "/state" cond before).any fun r =>
      decide (r.2.partition.merged devPattern "alice" 1 = []) &&
        ((r.2.partition.deliver .reference none r.2.disk devPattern "alice" 1).2.replay .reference
          "/state" cond after).any fun r' => P r.2.partition.notify r'.2

theorem exec_of_observeWait (ok : Server → Action → Prop) {cond : World → Call → Bool}
    {before after : List Call} {P : Nat → World → Bool}
    (hobs : observeWait cond before after P = true)
    (hcond : ∀ s e, cond s.world e.call = true → ok s (.call e))
    (hok : ∀ s a, (∀ e, a ≠ .call e) → ok s a) (hbefore : ∀ c ∈ before, c.isOnline)
    (hafter : ∀ c ∈ after, c.isOnline) : ∃ (es fs : List Event) (s : Server) (n : Nat),
      Exec ((serving .reference "/state" sampleName).restrict ok)
        (es.map .call ++ [.subscribe 0 .wait devPattern "alice", .check 0 []] ++ fs.map .call) s ∧
      es.map Event.call = before ∧ fs.map Event.call = after ∧
      s.tasks 0 = some ⟨.wait, devPattern, "alice", n, .blocked⟩ ∧ P n s.world = true := by
  obtain ⟨⟨es, w⟩, hr, hobs⟩ := (Option.any_eq_true _ _).mp hobs
  obtain ⟨hnil, hobs⟩ := Bool.and_eq_true_iff.mp hobs
  obtain ⟨⟨fs, w'⟩, hr', hP⟩ := (Option.any_eq_true _ _).mp hobs
  have hinit : Exec ((serving .reference "/state" sampleName).restrict ok) [] _ :=
    serving_loaded Formats.reference_faithful
      (List.pairwise_singleton (fun a b : Message => a.id < b.id)
      (sampleMessage 10 plannerTopic))
  obtain ⟨hbegun, hes⟩ := exec_of_replay_calls hcond hinit hr hbefore
  obtain ⟨s, hblocked, hworld, htask⟩ := exec_subscribe_block hok hbegun
    (i := 0) rfl .wait devPattern "alice" (of_decide_eq_true hnil)
  obtain ⟨hrun, hfs⟩ := exec_of_replay_calls hcond hblocked (hworld ▸ hr') hafter
  exact ⟨es, fs, _, _, hrun, hes, hfs, htask, hP⟩

/-- A message above the loaded one is read under another pattern; the loaded one expires. -/
theorem no_lost_wakeup_read_elsewhere : ∃ (es fs : List Event) (s : Server) (t : Task),
    Exec ((serving .reference "/state" sampleName).restrict Server.PostsAbove)
      (es.map .call ++ [.subscribe 0 .wait devPattern "alice", .check 0 []] ++ fs.map .call) s ∧
    es.map Event.call =
      [.publish (sampleMessage 11 devTopic), .deliver anyPattern "alice" usizeMax] ∧
    fs.map Event.call = [.prune .default 3610] ∧
    s.tasks 0 = some t ∧ s.world.partition.log.messages = [sampleMessage 11 devTopic] ∧
    (s.world.partition.deliver .reference none s.world.disk t.pattern t.label 1).1 = .ok [] := by
  have hobs : observeWait (fun w c => decide (c.PostsAbove w))
      [.publish (sampleMessage 11 devTopic), .deliver anyPattern "alice" usizeMax]
      [.prune .default 3610]
      (fun n w => decide (w.partition.notify = n ∧
        w.partition.log.messages = [sampleMessage 11 devTopic])) = true := by decide +kernel
  obtain ⟨es, fs, s, n, hx, hes, hfs, htask, hP⟩ := exec_of_observeWait Server.PostsAbove hobs
    (fun s e h e' he => Action.call.inj he ▸ of_decide_eq_true h)
      (fun s a h e he => absurd he (h e))
    (by simp [Call.isOnline]) (by simp [Call.isOnline])
  obtain ⟨hnotify, hlog⟩ := of_decide_eq_true hP
  exact ⟨es, fs, s, _, hx, hes, hfs, htask, hlog,
    no_lost_wakeup hx htask rfl (Nat.sub_eq_zero_of_le (Nat.le_of_eq hnotify))⟩

/-- Ids restart below a loaded message. A delivered message outlives the record of its delivery,
which is below the id of the log's first message, and is unread again without a signal. -/
theorem message_behind_blocked_wait : ∃ (es fs : List Event) (s : Server) (t : Task),
    Exec (serving .reference "/state" sampleName)
      (es.map .call ++ [.subscribe 0 .wait devPattern "alice", .check 0 []] ++ fs.map .call) s ∧
    es.map Event.call = [.publish (sampleMessage 1 devTopic), .publish (sampleMessage 2 devTopic),
      .deliver anyPattern "alice" usizeMax] ∧
    fs.map Event.call = [.prune .default 3601] ∧
    s.tasks 0 = some t ∧ t.phase = .blocked ∧ t.pending s.world = 0 ∧
    (s.world.partition.deliver .reference none s.world.disk t.pattern t.label 1).1 =
      .ok [sampleMessage 2 devTopic] := by
  have hobs : observeWait (fun _ _ => true)
      [.publish (sampleMessage 1 devTopic), .publish (sampleMessage 2 devTopic),
        .deliver anyPattern "alice" usizeMax] [.prune .default 3601]
      (fun n w => decide (w.partition.notify = n ∧
        w.partition.merged devPattern "alice" 1 = [sampleMessage 2 devTopic])) = true := by
    decide +kernel
  obtain ⟨es, fs, s, n, hx, hes, hfs, htask, hP⟩ := exec_of_observeWait (fun _ _ => True) hobs
    (fun _ _ _ => trivial) (fun _ _ _ => trivial) (by simp [Call.isOnline])
      (by simp [Call.isOnline])
  obtain ⟨hnotify, hmerged⟩ := of_decide_eq_true hP
  refine ⟨es, fs, s, _, hx.of_restrict, hes, hfs, htask, rfl,
    Nat.sub_eq_zero_of_le (Nat.le_of_eq hnotify), ?_⟩
  rw [Partition.deliver_none]
  exact congrArg Except.ok hmerged

end AgentBus
