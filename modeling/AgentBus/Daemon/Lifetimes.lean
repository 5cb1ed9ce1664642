import AgentBus.Daemon.Delivery
import AgentBus.Daemon.Torn

/-!
# Daemon processes over one state directory

A partition outlives the processes that serve it: each process opens it when
it is first touched, and posts to it with ids of its own generator. `lifetimes`
runs any number of processes one after the other, each ended at any moment,
with any fault in any call.
-/

namespace AgentBus

open Lib PartitionLog

/-- What a client asks to be posted. -/
structure Draft where
  ts : String
  topic : Topic
  body : String
  priority : Priority
  «from» : Option String
  broadcast : Bool

def Draft.message (d : Draft) (id : Ulid) : Message :=
  let m := Message.new id d.ts d.topic d.body d.priority d.from
  if d.broadcast then m.asBroadcast else m

/-- The process of the moment and the disk under it. -/
structure Daemon (G : IdSource) where
  source : G.State
  /-- Whether this process has posted to the partition. -/
  hasPosted : Bool
  /-- The partition, once it is open. -/
  partition : Option Partition
  disk : Disk

inductive DaemonEvent where
  /-- The process ends, in whatever way, and the next one starts. -/
  | restart
  | «open» (fault : Option Partition.OpenFault)
  /-- A post to another partition. -/
  | elsewhere (clockMs random : Nat)
  | post (clockMs random : Nat) (draft : Draft) (fault : Option AppendFault)
  /-- A delivery, a sweep or a replay. -/
  | call (faults : Faults) (c : Call)

/-- Neither a publish nor a reopening: those are events of their own. -/
def Call.isUpkeep : Call → Prop
  | .deliver _ _ _ => True
  | .history _ _ _ => True
  | .prune _ _ => True
  | _ => False

namespace Daemon

variable {G : IdSource} (F : Formats) (stateDir : Path) (name : PartitionName)

inductive Step (s : Daemon G) : DaemonEvent → Daemon G → Prop where
  | restart : Step s .restart ⟨G.fresh, false, none, s.disk⟩
  | opened {fault : Option Partition.OpenFault} {p : Partition} {disk : Disk} : s.partition = none →
      Partition.open F fault stateDir name s.disk = (.ok p, disk) →
      Step s (.open fault) { s with partition := some p, disk }
  | openFailed {fault : Option Partition.OpenFault} {e : Failure} {disk : Disk} :
      s.partition = none → Partition.open F fault stateDir name s.disk = (.error e, disk) →
      Step s (.open fault) { s with disk }
  | elsewhere {clockMs random : Nat} {id : Ulid} {source : G.State} :
      G.generate s.source clockMs random = some (id, source) →
      Step s (.elsewhere clockMs random) { s with source }
  | post {clockMs random : Nat} {draft : Draft} {fault : Option AppendFault}
      {p : Partition} {id : Ulid} {source : G.State} {r : Except Failure Ulid} {w : World} :
      s.partition = some p → G.generate s.source clockMs random = some (id, source) →
      p.publish F fault s.disk (draft.message id) = (r, w) →
      Step s (.post clockMs random draft fault) ⟨source, true, some w.partition, w.disk⟩
  | call {faults : Faults} {c : Call} {p : Partition} {r : Except Failure Reply} {w : World} :
      s.partition = some p → c.isUpkeep → World.call F stateDir faults ⟨p, s.disk⟩ c = (r, w) →
      Step s (.call faults c) { s with partition := some w.partition, disk := w.disk }

end Daemon

/-- From a directory without the partition's files. -/
def lifetimes (G : IdSource) (F : Formats) (stateDir : Path) (name : PartitionName) :
    System (Daemon G) DaemonEvent where
  init s := s.source = G.fresh ∧ s.hasPosted = false ∧ s.partition = none ∧
    Fresh stateDir name s.disk
  step _ s e s' := s.Step F stateDir name e s'

@[simp] theorem Draft.id_message (d : Draft) (id : Ulid) : (d.message id).id = id := by
  unfold Draft.message
  split <;> rfl

/-! ## Calls with faults -/

/-- The id is one of the stored positions. -/
def CursorStore.Holds (s : CursorStore) (q : Ulid) : Prop :=
  (∃ pattern, s.exclusivePosition pattern = some q) ∨ ∃ label, s.broadcastPosition label = some q

variable {F : Formats} {p : Partition} {disk : Disk} {w w' : World}

theorem holds_recordBatch {store : CursorStore} {pattern label : String}
    {batch : List Message} {q : Ulid}
    (h : (Partition.recordBatch store pattern label batch).Holds q) :
    store.Holds q ∨ ∃ m ∈ batch, m.id = q := by
  obtain ⟨hx, hb, -⟩ := Partition.markAll_spec
    (Partition.advanceTo store pattern label batch) label batch
  obtain ⟨hx', hb', -⟩ := Partition.advanceTo_spec store pattern label batch
  have hlast : ∀ (sel : Message → Bool) (pos : Option Ulid),
      (batch.filter sel).getLast?.elim pos (fun m => advance m.id pos) = some q →
        pos = some q ∨ ∃ m ∈ batch, m.id = q := by
    intro sel pos hq
    cases hl : (batch.filter sel).getLast? with
    | none => rw [hl] at hq; exact .inl hq
    | some m =>
      rw [hl] at hq
      exact (advance_eq_some hq).imp_right fun heq =>
        ⟨m, List.mem_of_mem_filter (List.mem_of_getLast? hl), heq⟩
  rcases h with ⟨pattern', h⟩ | ⟨label', h⟩
  · rw [Partition.recordBatch, hx, hx'] at h
    split at h
    · exact (hlast _ _ h).imp_left fun heq => .inl ⟨pattern, heq⟩
    · exact .inl (.inl ⟨pattern', h⟩)
  · rw [Partition.recordBatch, hb, hb'] at h
    split at h
    · exact (hlast _ _ h).imp_left fun heq => .inr ⟨label, heq⟩
    · exact .inl (.inr ⟨label', h⟩)

/-- Pruning moves positions to the oldest survivor only. -/
theorem holds_pruneCursors {store : CursorStore} {oldest q : Ulid}
    (h : (Partition.pruneCursors store oldest).Holds q) : store.Holds q ∨ oldest = q := by
  rcases h with ⟨pattern, h⟩ | ⟨label, h⟩
  · rw [Partition.pruneCursors, CursorStore.exclusivePosition_pruneDelivered,
      CursorStore.exclusivePosition_snapForward] at h
    exact (map_snap_eq_some h).imp_left fun heq => .inl ⟨pattern, heq⟩
  · rw [Partition.pruneCursors, CursorStore.broadcastPosition_pruneDelivered,
      CursorStore.broadcastPosition_snapForward] at h
    exact (map_snap_eq_some h).imp_left fun heq => .inr ⟨label, heq⟩

/-- What a call that posts nothing leaves of a world: messages of the log, with positions that were
there or are ids of the log. Whenever the file changes, it is rewritten from messages that are
left. -/
structure Kept (F : Formats) (w w' : World) : Prop where
  path : w'.partition.log.path = w.partition.log.path
  cursorFile : w'.partition.cursorFile = w.partition.cursorFile
  messages : w'.partition.log.messages.Sublist w.partition.log.messages
  content : w'.partition.log.messages = w.partition.log.messages ∧
      contentAt w'.disk w.partition.log.path = contentAt w.disk w.partition.log.path ∨
    ∃ ms : List Message, ms.Sublist w'.partition.log.messages ∧
      contentAt w'.disk w.partition.log.path = ms.flatMap (recordOf F)
  positions : ∀ q, w'.partition.cursors.Holds q →
    w.partition.cursors.Holds q ∨ ∃ m ∈ w.partition.log.messages, m.id = q

/-- What an append writes is a beginning of the record. -/
theorem append_writes {log log' : PartitionLog} {disk disk' : Disk} {fault : Option AppendFault}
    {m : Message} {r : Except Failure Unit} (h : log.append F fault disk m = (r, log', disk')) :
    log'.path = log.path ∧ (log'.messages = log.messages ∨ log'.messages = log.messages ++ [m]) ∧
      ∃ bs, bs <+: recordOf F m ∧
        contentAt disk' log.path = contentAt disk log.path ++ bs := by
  have hwrite : ∀ bs, bs <+: recordOf F m → ∃ bs', bs' <+: recordOf F m ∧
      contentAt (log.write disk bs).2 log.path = contentAt disk log.path ++ bs' := by
    intro bs hbs
    unfold write
    split
    · exact ⟨bs, hbs, contentAt_insert_self ..⟩
    · exact ⟨[], List.nil_prefix, by simp⟩
  cases append_effect h with
  | stored => exact ⟨write_path .., .inr rfl, hwrite _ (written_beginning m none)⟩
  | failed => exact ⟨write_path .., .inl (write_messages ..), hwrite _ (written_beginning m fault)⟩

theorem contentAt_persistCursors (p : Partition) (disk : Disk) {path : Path}
    (hpath : p.cursorFile ≠ path) (fault : Option Partition.PersistFault) :
    contentAt (p.persistCursors F fault disk).2 path = contentAt disk path := by
  rcases fault with _ | _ | _
  · exact contentAt_insert_of_ne disk hpath _
  · rfl
  · rfl

theorem kept_deliver (hpath : p.cursorFile ≠ p.log.path) (fault : Option Partition.PersistFault)
    (pattern : Pattern) (label : String) (limit : UInt64) :
    Kept F ⟨p, disk⟩ (p.deliver F fault disk pattern label limit).2 := by
  have hpositions : ∀ q, (Partition.recordBatch p.cursors pattern.asStr label
      (p.merged pattern label limit)).Holds q → p.cursors.Holds q ∨
      ∃ m ∈ p.log.messages, m.id = q :=
    fun q hq => (holds_recordBatch hq).imp_right fun ⟨m, hm, heq⟩ =>
      ⟨m, Partition.mem_of_mem_merged hm, heq⟩
  unfold Partition.deliver
  cases hnil : (p.merged pattern label limit).isEmpty with
  | true =>
    simp only [hnil, if_true]
    exact ⟨rfl, rfl, List.Sublist.refl _, .inl ⟨rfl, rfl⟩, hpositions⟩
  | false =>
    simp only [hnil, Bool.false_eq_true, if_false]
    let p' : Partition := { p with cursors :=
      (Partition.recordBatch p.cursors pattern.asStr label (p.merged pattern label limit)) }
    have hcontent := contentAt_persistCursors (F := F) p' disk hpath fault
    split
    · exact ⟨rfl, rfl, List.Sublist.refl _, .inl ⟨rfl, hcontent⟩, hpositions⟩
    · exact ⟨rfl, rfl, List.Sublist.refl _, .inl ⟨rfl, hcontent⟩, hpositions⟩

theorem log_of_deliver (hpath : p.cursorFile ≠ p.log.path) {fault : Option Partition.PersistFault}
    {pattern : Pattern} {label : String} {limit : UInt64} {r : Except Failure (List Message)}
    (h : p.deliver F fault disk pattern label limit = (r, w)) :
    w.partition.log = p.log ∧ contentAt w.disk p.log.path = contentAt disk p.log.path := by
  unfold Partition.deliver at h
  cases hnil : (p.merged pattern label limit).isEmpty with
  | true =>
    simp only [hnil, if_true] at h
    obtain ⟨-, rfl⟩ := Prod.mk.inj h
    exact ⟨rfl, rfl⟩
  | false =>
    simp only [hnil, Bool.false_eq_true, if_false] at h
    let p' : Partition := { p with cursors :=
      (Partition.recordBatch p.cursors pattern.asStr label (p.merged pattern label limit)) }
    have hcontent := contentAt_persistCursors (F := F) p' disk hpath fault
    split at h
    · obtain ⟨-, rfl⟩ := Prod.mk.inj h
      exact ⟨rfl, hcontent⟩
    · obtain ⟨-, rfl⟩ := Prod.mk.inj h
      exact ⟨rfl, hcontent⟩

theorem prune_log_kept {log log' : PartitionLog} {disk disk' : Disk} {fault : Option PruneFault}
    {policy : RetentionPolicy} {now : Nat} {r : Except Failure PruneOutcome}
    (h : log.prune F fault disk policy now = (r, log', disk')) :
    log'.path = log.path ∧ log'.messages.Sublist log.messages ∧
      (log'.messages = log.messages ∧ contentAt disk' log.path = contentAt disk log.path ∨
        ∃ ms : List Message, ms.Sublist log'.messages ∧
          contentAt disk' log.path = ms.flatMap (recordOf F)) ∧
      ∀ outcome, r = .ok outcome → ∀ u ∈ outcome.oldestSurviving, ∃ m ∈ log.messages, m.id = u := by
  have hold : ∀ ms : List Message, ms.Sublist log.messages → ∀ u ∈ ms.head?.map Message.id,
      ∃ m ∈ log.messages, m.id = u := by
    intro ms hms u hu
    obtain ⟨m, hm, rfl⟩ := Option.map_eq_some_iff.mp hu
    exact ⟨m, hms.subset (List.mem_of_head? hm), rfl⟩
  have hkept : (log.messages.filter (policy.keeps now)).Sublist log.messages := List.filter_sublist
  cases prune_effect h with
  | kept =>
    refine ⟨rfl, List.Sublist.refl _, .inl ⟨rfl, rfl⟩, fun outcome ho => ?_⟩
    obtain rfl := Except.ok.inj ho
    exact hold _ (List.Sublist.refl _)
  | rewritten =>
    refine ⟨rfl, hkept, .inr ⟨_, List.Sublist.refl _, contentAt_insert_self ..⟩,
      fun outcome ho => ?_⟩
    obtain rfl := Except.ok.inj ho
    exact hold _ hkept
  | failed => exact ⟨rfl, List.Sublist.refl _, .inl ⟨rfl, rfl⟩, nofun⟩
  | detached =>
    refine ⟨unlink_path .., by simp, .inr ⟨_, ?_, contentAt_insert_self ..⟩, nofun⟩
    rw [unlink_messages]
    exact hkept

/-- A prune takes no message that the policy keeps, neither from memory nor from the file. -/
theorem log_of_prune (hpath : p.cursorFile ≠ p.log.path) {fault : Option Partition.PruneFault}
    {policy : RetentionPolicy} {now : Nat} {r : Except Failure Nat}
    (h : p.prune F fault disk policy now = (r, w)) :
    (w.partition.log.messages = p.log.messages ∨
        w.partition.log.messages = p.log.messages.filter (policy.keeps now)) ∧
      (contentAt w.disk p.log.path = contentAt disk p.log.path ∨
        contentAt w.disk p.log.path = (p.log.messages.filter (policy.keeps now)).flatMap
          (recordOf F)) := by
  have heffect : ∀ logFault r' log disk', p.log.prune F logFault disk policy now =
      (r', log, disk') →
      (log.messages = p.log.messages ∨ log.messages = p.log.messages.filter (policy.keeps now)) ∧
      (contentAt disk' p.log.path = contentAt disk p.log.path ∨
        contentAt disk' p.log.path = (p.log.messages.filter (policy.keeps now)).flatMap
          (recordOf F)) := by
    intro logFault r' log disk' hprune
    cases prune_effect hprune with
    | kept | failed => exact ⟨.inl rfl, .inl rfl⟩
    | rewritten => exact ⟨.inr rfl, .inr (contentAt_insert_self ..)⟩
    | detached => exact ⟨.inl (unlink_messages ..), .inr (contentAt_insert_self ..)⟩
  rcases hprune : p.log.prune F (fault.bind Partition.PruneFault.logFault) disk policy now with
    ⟨r', log, disk'⟩
  have hlog := heffect _ _ _ _ hprune
  simp only [Partition.prune, hprune] at h
  cases r' with
  | error e =>
    obtain ⟨-, rfl⟩ := Prod.mk.inj h
    exact hlog
  | ok outcome =>
    simp only at h
    split at h
    · obtain ⟨-, rfl⟩ := Prod.mk.inj h
      exact hlog
    · next oldest _ =>
      let p' : Partition := { p with
        log := log
        cursors := Partition.pruneCursors p.cursors oldest
        snapped := Partition.recordSnapped p.snapped (p.cursors.snapForward oldest).2 }
      have hpersist := contentAt_persistCursors (F := F) p' disk' hpath
        (fault.bind Partition.PruneFault.persistFault)
      rw [← hpersist] at hlog
      split at h
      · next e disk'' hp =>
        obtain ⟨-, rfl⟩ := Prod.mk.inj h
        rwa [show (p'.persistCursors F _ disk').2 = disk'' from congrArg Prod.snd hp] at hlog
      · next disk'' hp =>
        obtain ⟨-, rfl⟩ := Prod.mk.inj h
        rwa [show (p'.persistCursors F _ disk').2 = disk'' from congrArg Prod.snd hp] at hlog

theorem kept_prune (hpath : p.cursorFile ≠ p.log.path) (fault : Option Partition.PruneFault)
    (policy : RetentionPolicy) (now : Nat) :
    Kept F ⟨p, disk⟩ (p.prune F fault disk policy now).2 := by
  rcases hprune : p.log.prune F (fault.bind Partition.PruneFault.logFault) disk policy now with
    ⟨r, log, disk'⟩
  obtain ⟨hlog, hsub, hcontent, hold⟩ := prune_log_kept hprune
  simp only [Partition.prune, hprune]
  cases r with
  | error e => exact ⟨hlog, rfl, hsub, hcontent, fun q hq => .inl hq⟩
  | ok outcome =>
    simp only
    split
    · exact ⟨hlog, rfl, hsub, hcontent, fun q hq => .inl hq⟩
    · next oldest holdest =>
      have hmem : oldest ∈ outcome.oldestSurviving := by
        split at holdest
        · exact holdest
        · cases holdest
      have hpositions : ∀ q, (Partition.pruneCursors p.cursors oldest).Holds q →
          p.cursors.Holds q ∨ ∃ m ∈ p.log.messages, m.id = q := fun q hq =>
        (holds_pruneCursors hq).imp_right fun (heq : oldest = q) =>
          heq ▸ hold outcome rfl oldest hmem
      let p' : Partition := { p with
        log := log
        cursors := Partition.pruneCursors p.cursors oldest
        snapped := Partition.recordSnapped p.snapped (p.cursors.snapForward oldest).2 }
      have hpersist := contentAt_persistCursors (F := F) p' disk' hpath
        (fault.bind Partition.PruneFault.persistFault)
      rw [← hpersist] at hcontent
      split
      · next e disk'' hp =>
        rw [show (p'.persistCursors F _ disk').2 = disk'' from congrArg Prod.snd hp] at hcontent
        exact ⟨hlog, rfl, hsub, hcontent, hpositions⟩
      · next disk'' hp =>
        rw [show (p'.persistCursors F _ disk').2 = disk'' from congrArg Prod.snd hp] at hcontent
        exact ⟨hlog, rfl, hsub, hcontent, hpositions⟩

theorem kept_of_call {faults : Faults} {c : Call} {stateDir : Path} {r : Except Failure Reply}
    (hpath : w.partition.cursorFile ≠ w.partition.log.path) (hc : c.isUpkeep)
    (h : w.call F stateDir faults c = (r, w')) : Kept F w w' := by
  cases c with
  | deliver pattern label limit =>
    obtain ⟨-, rfl⟩ := Prod.mk.inj h
    exact kept_deliver hpath faults.persist pattern label limit
  | prune policy now =>
    obtain ⟨-, rfl⟩ := Prod.mk.inj h
    exact kept_prune hpath faults.prune policy now
  | history pattern sinceSecs now =>
    obtain ⟨-, rfl⟩ := Prod.mk.inj h
    exact ⟨rfl, rfl, List.Sublist.refl _, .inl ⟨rfl, rfl⟩, fun q hq => .inl hq⟩
  | publish _ | reopen => exact absurd hc id

/-- A publish writes a beginning of the record and leaves the positions alone. -/
theorem publish_writes {fault : Option AppendFault} {m : Message} {r : Except Failure Ulid}
    (h : p.publish F fault disk m = (r, w)) :
    w.partition.log.path = p.log.path ∧ w.partition.cursorFile = p.cursorFile ∧
      w.partition.cursors = p.cursors ∧
      (w.partition.log.messages = p.log.messages ∨ w.partition.log.messages =
        p.log.messages ++ [m]) ∧
      ∃ bs, bs <+: recordOf F m ∧ contentAt w.disk p.log.path =
        contentAt disk p.log.path ++ bs := by
  rcases happ : p.log.append F fault disk m with ⟨r', log, disk'⟩
  obtain ⟨hpath, hmessages, hcontent⟩ := append_writes happ
  simp only [Partition.publish, happ] at h
  cases r' with
  | error e =>
    obtain ⟨-, rfl⟩ := Prod.mk.inj h
    exact ⟨hpath, rfl, rfl, hmessages, hcontent⟩
  | ok _ =>
    obtain ⟨-, rfl⟩ := Prod.mk.inj h
    exact ⟨hpath, rfl, rfl, hmessages, hcontent⟩

/-! ## Opening -/

theorem contentAt_touch (disk : Disk) (path : Path) :
    contentAt (touch disk path) path = contentAt disk path := contentAt_insert_self ..

theorem open_log_loads {fault : Option OpenFault} {path : Path} {disk disk' : Disk}
    {r : Except Failure PartitionLog} (h : PartitionLog.open F fault path disk = (r, disk')) :
    contentAt disk' path = contentAt disk path ∧ ∀ log, r = .ok log →
      log.path = path ∧ log.messages = sortById (loadable F (contentAt disk path)) := by
  unfold PartitionLog.open at h
  split at h
  case h_5 =>
    split at h
    · obtain ⟨rfl, rfl⟩ := Prod.mk.inj h
      exact ⟨contentAt_touch .., nofun⟩
    · next messages skipped hload =>
      obtain ⟨rfl, rfl⟩ := Prod.mk.inj h
      refine ⟨contentAt_touch .., fun log hlog => ?_⟩
      obtain rfl := Except.ok.inj hlog
      exact ⟨rfl, congrArg sortById (loadLines_eq hload)⟩
  all_goals
    obtain ⟨rfl, rfl⟩ := Prod.mk.inj h
    exact ⟨by first | rfl | exact contentAt_touch .., nofun⟩

/-- A partition is opened with the messages its file holds. -/
theorem open_loads {fault : Option Partition.OpenFault} {stateDir : Path} {name : PartitionName}
    {disk disk' : Disk} {r : Except Failure Partition}
    (h : Partition.open F fault stateDir name disk = (r, disk')) :
    contentAt disk' (logPath stateDir name) = contentAt disk (logPath stateDir name) ∧
      ∀ p, r = .ok p → p.log.path = logPath stateDir name ∧
        p.cursorFile = cursorPath stateDir name ∧
        p.log.messages = sortById (loadable F (contentAt disk (logPath stateDir name))) := by
  rcases hopen : PartitionLog.open F (fault.bind Partition.OpenFault.logFault)
    (logPath stateDir name) disk with ⟨r', disk''⟩
  obtain ⟨hcontent, hlog⟩ := open_log_loads hopen
  simp only [Partition.open, hopen] at h
  cases r' with
  | error e =>
    obtain ⟨rfl, rfl⟩ := Prod.mk.inj h
    exact ⟨hcontent, fun p hp => absurd hp (by simp)⟩
  | ok log =>
    simp only at h
    split at h
    · obtain ⟨rfl, rfl⟩ := Prod.mk.inj h
      exact ⟨hcontent, fun p hp => absurd hp (by simp)⟩
    · obtain ⟨rfl, rfl⟩ := Prod.mk.inj h
      refine ⟨hcontent, fun p hp => ?_⟩
      obtain rfl := Except.ok.inj hp
      exact ⟨(hlog log rfl).1, rfl, (hlog log rfl).2⟩

theorem pairwise_sortById {ms : List Message} (h : (ms.map Message.id).Nodup) :
    (sortById ms).Pairwise fun a b => a.id < b.id := by
  have hle : (sortById ms).Pairwise fun a b => a.id ≤ b.id :=
    List.pairwise_insertionSort (fun a b : Message => a.id ≤ b.id) ms
  have hperm : ((sortById ms).map Message.id).Perm (ms.map Message.id) :=
    (List.perm_insertionSort _ ms).map _
  have hne : (sortById ms).Pairwise fun a b => a.id ≠ b.id :=
    List.pairwise_map.mp (hperm.nodup_iff.mpr h)
  exact (hle.and hne).imp fun h => lt_of_le_of_ne h.1 h.2

end AgentBus
