import AgentBus.Daemon.Handler
import AgentBus.Daemon.Lifetimes
import AgentBus.Lib.Footprint

/-!
# What an operation on a partition touches

Every operation of a partition reads and writes its two files only.
-/

namespace AgentBus

open Lib PartitionLog

variable {F : Formats}

/-! ## Disks -/

def Disk.look (disk : Disk) (path : Path) : Option Bytes := disk[path]?

/-- An operation on a disk that touches files of `S` only. -/
abbrev OnDisk (S : Set Path) {α : Type} (f : Disk → α × Disk) : Prop :=
  Local Disk.look (fun _ => True) S f

section Disk

variable {S : Set Path} {path : Path}

theorem contentAt_congr {disk disk' : Disk} (h : Agree Disk.look S disk disk') (hp : path ∈ S) :
    contentAt disk path = contentAt disk' path := by
  have hlook : disk[path]? = disk'[path]? := h path hp
  rw [contentAt, contentAt, hlook]

theorem onDisk_insert (hp : path ∈ S) {α : Type} (a : α) (bytes : Bytes) :
    OnDisk S fun disk => (a, disk.insert path bytes) where
  keeps _ := trivial
  result _ _ _ := rfl
  agree {disk disk'} _ _ h k hk := by
    have hlook : disk[k]? = disk'[k]? := h k hk
    simp only [Disk.look, Std.ExtTreeMap.getElem?_insert, hlook]
  frame {disk} _ k hk := by
    have hne : path ≠ k := fun heq => hk (heq ▸ hp)
    simp [Disk.look, Std.ExtTreeMap.getElem?_insert, hne]

theorem onDisk_contentAt (hp : path ∈ S) {α : Type} {g : Bytes → Disk → α × Disk}
    (hg : ∀ bytes, OnDisk S (g bytes)) : OnDisk S fun disk => g (contentAt disk path) disk :=
  Local.read (fun _ _ h => contentAt_congr h hp) fun _ => hg _

theorem onDisk_touch (hp : path ∈ S) {α : Type} (a : α) :
    OnDisk S fun disk => (a, touch disk path) :=
  onDisk_contentAt hp fun bytes => onDisk_insert hp a bytes

end Disk

/-! ## Logs -/

namespace PartitionLog

/-- An operation that leaves a log. -/
abbrev InLog (S : Set Path) {α : Type} (f : Disk → α × PartitionLog × Disk) : Prop :=
  OnDisk S fun disk => (((f disk).1, (f disk).2.1), (f disk).2.2)

section

variable {S : Set Path}

theorem InLog.pure {α : Type} (a : α) (log : PartitionLog) : InLog S fun disk => (a, log, disk) :=
  Local.pure (a, log)

theorem InLog.insert {path : Path} (hp : path ∈ S) {α : Type} (a : α) (log : PartitionLog)
    (bytes : Bytes) : InLog S fun disk => (a, log, disk.insert path bytes) :=
  onDisk_insert hp (a, log) bytes

variable {log : PartitionLog} (hp : log.path ∈ S)
include hp

theorem onDisk_write (bytes : Bytes) : OnDisk S fun disk => log.write disk bytes := by
  cases hfile : log.file with
  | attached =>
    simp only [PartitionLog.write, hfile]
    exact onDisk_contentAt hp fun content => onDisk_insert hp log (content ++ bytes)
  | unlinked content =>
    simp only [PartitionLog.write, hfile]
    exact .pure _

theorem inLog_append (fault : Option AppendFault) (m : Message) :
    InLog S fun disk => log.append F fault disk m := by
  have hwrite := fun bytes => onDisk_write hp bytes
  cases fault with
  | none =>
    refine ((hwrite (record (F.toString (m.toJson F)))).map fun log =>
      if log.messages.length < usizeMax.toNat then
        (.ok (), { log with messages := log.messages ++ [m] })
      else (.error .capacityOverflow, log)).congr fun disk _ => ?_
    simp only [PartitionLog.append, Message.toJsonl]
    split <;> rfl
  | some fault =>
    cases fault with
    | write n => exact (hwrite _).map fun log => (_, log)
    | sync => exact (hwrite _).map fun log => (_, log)

theorem inLog_prune (fault : Option PruneFault) (policy : RetentionPolicy) (now : Nat) :
    InLog S fun disk => log.prune F fault disk policy now := by
  simp only [PartitionLog.prune, rewritten_eq]
  split
  · exact .pure _ _
  · rcases fault with _ | _ | _ | _ | _ | _
    · exact .insert hp _ _ _
    · exact .pure _ _
    · exact .pure _ _
    · exact .pure _ _
    · exact .pure _ _
    · cases hfile : log.file with
      | attached =>
        simp only [PartitionLog.unlink, hfile]
        exact (onDisk_contentAt hp fun content => onDisk_insert hp
          ((.error (.error ("reopening " ++ log.path)) : Except Failure PruneOutcome),
            { log with file := .unlinked content }) _).congr fun _ _ => rfl
      | unlinked content =>
        simp only [PartitionLog.unlink, hfile]
        exact .insert hp _ _ _

end

end PartitionLog

/-! ## Partitions -/

namespace Partition

/-- An operation that leaves a world. -/
abbrev InWorld (S : Set Path) {α : Type} (f : Disk → α × World) : Prop :=
  OnDisk S fun disk => (((f disk).1, (f disk).2.partition), (f disk).2.disk)

theorem InWorld.pure {S : Set Path} {α : Type} (a : α) (p : Partition) :
    InWorld S fun disk => (a, ⟨p, disk⟩) := Local.pure (a, p)

theorem InWorld.insert {S : Set Path} {path : Path} (hp : path ∈ S) {α : Type} (a : α)
    (p : Partition) (bytes : Bytes) : InWorld S fun disk => (a, ⟨p, disk.insert path bytes⟩) :=
  onDisk_insert hp (a, p) bytes

/-- The files of a partition. -/
def owns (p : Partition) : Set Path := {p.log.path, p.cursorFile}

variable {p : Partition}

theorem log_mem_owns : p.log.path ∈ p.owns := .inl rfl

theorem cursorFile_mem_owns : p.cursorFile ∈ p.owns := .inr rfl

theorem inWorld_publish (fault : Option AppendFault) (m : Message) :
    InWorld p.owns fun disk => p.publish F fault disk m := by
  let tally := p.tally.recordPost m.body.utf8ByteSize (m.priority == .high) m.broadcast
  refine ((inLog_append (F := F) p.log_mem_owns fault m).map fun r =>
    r.1.casesOn (motive := fun _ => Except Failure Ulid × Partition)
      (fun e => (.error e, { p with tally, log := r.2 }))
      fun _ => (.ok m.id, { p with tally, log := r.2, notify := p.notify + 1 })).congr
        fun disk _ => ?_
  simp only [publish]
  rcases p.log.append F fault disk m with ⟨_ | _, log, disk'⟩ <;> rfl

/-- Writing the cursors, and then something that depends on whether this failed. -/
theorem inWorld_persistCursors {S : Set Path} (hp : p.cursorFile ∈ S) (fault : Option PersistFault)
    {α : Type} {g : Except Failure Unit → α × Partition} {f : Disk → α × World}
    (hf : ∀ disk, f disk = ((g (p.persistCursors F fault disk).1).1,
      ⟨(g (p.persistCursors F fault disk).1).2, (p.persistCursors F fault disk).2⟩)) :
      InWorld S f := by
  have hpersist : OnDisk S fun disk => p.persistCursors F fault disk := by
    rcases fault with _ | _ | _
    · exact onDisk_insert hp _ _
    · exact .pure _
    · exact .pure _
  refine (hpersist.map g).congr fun disk _ => ?_
  rw [hf]

theorem inWorld_deliver (fault : Option PersistFault) (pattern : Pattern) (label : String)
    (limit : UInt64) : InWorld p.owns fun disk => p.deliver F fault disk pattern label limit := by
  let batch := p.merged pattern label limit
  let q := { p with cursors := markAll (advanceTo p.cursors pattern.asStr label batch) label batch }
  let done := { q with
    labels := q.labels.insert pattern.asStr label
    tally := q.tally.recordDeliveries batch.length }
  cases hempty : batch.isEmpty with
  | true =>
    refine (InWorld.pure (Except.ok batch) done).congr fun disk _ => ?_
    simp only [deliver, show (p.merged pattern label limit).isEmpty = true from hempty, if_true]
    rfl
  | false =>
    refine inWorld_persistCursors (F := F) (p := q) p.cursorFile_mem_owns fault
      (g := fun r => r.casesOn (motive := fun _ => Except Failure (List Message) × Partition)
        (fun e => (.error e, q)) fun _ => (.ok batch, done)) fun disk => ?_
    simp only [deliver, show (p.merged pattern label limit).isEmpty = false from hempty,
      Bool.false_eq_true, if_false]
    rcases q.persistCursors F fault disk with ⟨_ | _, disk'⟩ <;> rfl

/-- What is left to do once the log is pruned. -/
def afterPrune (F : Formats) (fault : Option PruneFault) (p : Partition) :
    Except Failure PruneOutcome → Disk → Except Failure Nat × World
  | .error e, disk => (.error e, ⟨p, disk⟩)
  | .ok ⟨removed, oldestSurviving⟩, disk =>
    match if removed > 0 then oldestSurviving else none with
    | none => (.ok removed, ⟨{ p with tally := p.tally.recordPrune removed 0 }, disk⟩)
    | some oldest =>
      let (cursors, keys) := p.cursors.snapForward oldest
      let p := { p with
        cursors := cursors.pruneDelivered oldest
        snapped := recordSnapped p.snapped keys }
      match p.persistCursors F (fault.bind PruneFault.persistFault) disk with
      | (.error e, disk) => (.error e, ⟨p, disk⟩)
      | (.ok _, disk) =>
        (.ok removed, ⟨{ p with tally := p.tally.recordPrune removed keys.length }, disk⟩)

theorem inWorld_afterPrune {S : Set Path} (hp : p.cursorFile ∈ S) (fault : Option PruneFault)
    (r : Except Failure PruneOutcome) : InWorld S fun disk => p.afterPrune F fault r disk := by
  rcases r with e | ⟨removed, oldestSurviving⟩
  · exact .pure _ _
  · simp only [afterPrune]
    split
    · exact .pure _ _
    · next oldest _ =>
      let q := { p with
        cursors := (p.cursors.snapForward oldest).1.pruneDelivered oldest
        snapped := recordSnapped p.snapped (p.cursors.snapForward oldest).2 }
      refine inWorld_persistCursors (F := F) (p := q) hp (fault.bind PruneFault.persistFault)
        (g := fun r => r.casesOn (motive := fun _ => Except Failure Nat × Partition)
          (fun e => (.error e, q)) fun _ => (.ok removed,
            { q with
              tally := q.tally.recordPrune removed (p.cursors.snapForward oldest).2.length }))
        fun disk => ?_
      rcases q.persistCursors F (fault.bind PruneFault.persistFault) disk
          with ⟨_ | _, disk'⟩ <;> rfl

theorem inWorld_prune (fault : Option PruneFault) (policy : RetentionPolicy) (now : Nat) :
    InWorld p.owns fun disk => p.prune F fault disk policy now := by
  have hafter : ∀ r : Except Failure PruneOutcome × PartitionLog,
      InWorld p.owns fun disk => { p with log := r.2 }.afterPrune F fault r.1 disk := fun r =>
    inWorld_afterPrune (p := { p with log := r.2 }) p.cursorFile_mem_owns fault r.1
  refine ((inLog_prune (F := F) p.log_mem_owns (fault.bind PruneFault.logFault) policy now).bind
    (g := fun r disk => ((({ p with log := r.2 }.afterPrune F fault r.1 disk).1,
      ({ p with log := r.2 }.afterPrune F fault r.1 disk).2.partition),
      ({ p with log := r.2 }.afterPrune F fault r.1 disk).2.disk)) fun _ => hafter _).congr
        fun disk _ => ?_
  simp only [prune]
  rcases p.log.prune F (fault.bind PruneFault.logFault) disk policy now with
    ⟨_ | ⟨removed, oldestSurviving⟩, log, disk'⟩ <;> rfl

theorem onDisk_open (fault : Option OpenFault) (stateDir : Path) (name : PartitionName) :
    OnDisk {logPath stateDir name, cursorPath stateDir name}
      fun disk => Partition.open F fault stateDir name disk := by
  have hlog : logPath stateDir name ∈
    ({logPath stateDir name, cursorPath stateDir name} : Set Path) := .inl rfl
  have hcursor : cursorPath stateDir name ∈
    ({logPath stateDir name, cursorPath stateDir name} : Set Path) := .inr rfl
  have hopen : OnDisk {logPath stateDir name, cursorPath stateDir name}
      fun disk => PartitionLog.open F (fault.bind OpenFault.logFault)
        (logPath stateDir name) disk := by
    rcases fault.bind OpenFault.logFault with _ | _ | _ | _ | _
    · refine (onDisk_contentAt hlog (g := fun content disk =>
        ((loadLines F (readLines content)).elim
          (.error (.error ("reading " ++ logPath stateDir name)))
          fun loaded => .ok { path := logPath stateDir name, file := .attached,
                              messages := sortById loaded.1, skippedRecords := loaded.2 },
          touch disk (logPath stateDir name)))
        fun content => onDisk_touch hlog _).congr fun disk _ => ?_
      rw [PartitionLog.open]
      cases loadLines F (readLines (contentAt disk (logPath stateDir name))) <;> rfl
    · exact .pure _
    · exact .pure _
    · exact onDisk_touch hlog _
    · exact onDisk_touch hlog _
  have hread : ∀ log, OnDisk {logPath stateDir name, cursorPath stateDir name}
      fun disk => (readCursors F fault log (cursorPath stateDir name) disk, disk) := fun log =>
    Local.read (v := fun disk => readCursors F fault log (cursorPath stateDir name) disk)
      (fun {disk disk'} _ _ h => by
        have hlook : disk[cursorPath stateDir name]? = disk'[cursorPath stateDir name]? :=
          h _ hcursor
        simp only [readCursors, hlook])
      (g := fun r disk => (r, disk)) fun _ => .pure _
  let opened (log : PartitionLog) (cursors : CursorStore) : Partition :=
    { name, log, cursors, cursorFile := cursorPath stateDir name, snapped := [], labels := ∅,
      tally := .new, notify := 0 }
  refine (hopen.andThen (e := .error)
    (g := fun log disk =>
      ((readCursors F fault log (cursorPath stateDir name) disk).map (opened log), disk))
    fun {_ log} _ _ => (hread log).map fun r => r.map (opened log)).congr fun disk _ => ?_
  simp only [Partition.open, andThen]
  rcases PartitionLog.open F (fault.bind OpenFault.logFault) (logPath stateDir name) disk with
    ⟨_ | log, disk'⟩
  · rfl
  · simp only [handled]
    cases readCursors F fault log (cursorPath stateDir name) disk' <;> rfl

end Partition

end AgentBus
