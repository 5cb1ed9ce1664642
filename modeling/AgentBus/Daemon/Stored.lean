import AgentBus.Daemon.Lifetimes
import AgentBus.Daemon.Locality

/-!
# What calls leave of the records

The cursors of a partition are in memory and in its cursor file, and a call
that fails may change the one and not the other. One lemma for each call says
what it leaves of both.
-/

namespace AgentBus

open Lib PartitionLog

variable {F : Formats} {stateDir : Path} {name : PartitionName} {p : Partition} {disk disk' : Disk}

/-- The file holds these cursors. -/
def Stored (F : Formats) (disk : Disk) (path : Path) (c : CursorStore) : Prop :=
  disk[path]? = none ∧ c = CursorStore.default ∨
    disk[path]? = some (utf8 (F.toString (c.toValue F)).toList)

theorem Stored.congr {path : Path} {c : CursorStore} (h : Stored F disk path c)
    (heq : disk'[path]? = disk[path]?) : Stored F disk' path c := by
  rwa [Stored, heq]

theorem stored_insert (disk : Disk) (path : Path) (c : CursorStore) :
    Stored F (disk.insert path (utf8 (F.toString (c.toValue F)).toList)) path c := .inr (by simp)

theorem disk_of_open {fault : Option Partition.OpenFault} {r : Except Failure Partition}
    (h : Partition.open F fault stateDir name disk = (r, disk')) :
    disk'[cursorPath stateDir name]? = disk[cursorPath stateDir name]? := by
  have htouch : ∀ disk : Disk, (touch disk (logPath stateDir name))[cursorPath stateDir name]? =
      disk[cursorPath stateDir name]? := fun disk => by
    simp [touch, Std.ExtTreeMap.getElem?_insert, logPath_ne_cursorPath]
  have hlog : ∀ {r : Except Failure PartitionLog} {disk₁ : Disk},
      PartitionLog.open F (fault.bind Partition.OpenFault.logFault) (logPath stateDir name)
        disk = (r, disk₁) →
      disk₁[cursorPath stateDir name]? = disk[cursorPath stateDir name]? := by
    intro r disk₁ hopen
    unfold PartitionLog.open at hopen
    split at hopen
    case h_1 | h_2 =>
      obtain ⟨-, rfl⟩ := Prod.mk.inj hopen
      rfl
    case h_5 =>
      split at hopen <;>
      · obtain ⟨-, rfl⟩ := Prod.mk.inj hopen
        exact htouch disk
    all_goals
      obtain ⟨-, rfl⟩ := Prod.mk.inj hopen
      exact htouch disk
  rcases hopen : PartitionLog.open F (fault.bind Partition.OpenFault.logFault)
    (logPath stateDir name) disk with ⟨r', disk₁⟩
  simp only [Partition.open, hopen] at h
  cases r' with
  | error e =>
    obtain ⟨-, rfl⟩ := Prod.mk.inj h
    exact hlog hopen
  | ok log =>
    simp only at h
    split at h
    all_goals
      obtain ⟨-, rfl⟩ := Prod.mk.inj h
      exact hlog hopen

theorem cursors_of_open (hF : F.Faithful) {c : CursorStore}
    (hc : Stored F disk (cursorPath stateDir name) c) {fault : Option Partition.OpenFault}
    (h : Partition.open F fault stateDir name disk = (.ok p, disk')) : p.cursors = c := by
  have hcursor := disk_of_open h
  rcases hopen : PartitionLog.open F (fault.bind Partition.OpenFault.logFault)
    (logPath stateDir name) disk with ⟨r', disk₁⟩
  simp only [Partition.open, hopen] at h
  cases r' with
  | error e => cases h
  | ok log =>
    simp only at h
    split at h
    · cases h
    · next cursors hread =>
      obtain ⟨hp, rfl⟩ := Prod.mk.inj h
      have hnone := readCursors_of_synced hF (hc.congr hcursor) log
      rcases fault with _ | fault | _
      · rw [hnone] at hread
        rw [← Except.ok.inj hp, ← Except.ok.inj hread]
      · have : Partition.readCursors F (some (.log fault)) log (cursorPath stateDir name) disk₁ =
            Partition.readCursors F none log (cursorPath stateDir name) disk₁ := by
          unfold Partition.readCursors
          cases disk₁[cursorPath stateDir name]? <;> rfl
        rw [this, hnone] at hread
        rw [← Except.ok.inj hp, ← Except.ok.inj hread]
      · cases hread

theorem cursorFile_of_publish {fault : Option AppendFault} {m : Message}
    {r : Except Failure Ulid} {w : World} (h : p.publish F fault disk m = (r, w)) {path : Path}
    (hne : path ≠ p.log.path) : w.disk[path]? = disk[path]? := by
  have hframe : (p.log.append F fault disk m).2.2[path]? = disk[path]? :=
    (inLog_append (F := F) (S := {p.log.path}) rfl fault m).frame (s := disk) trivial path hne
  rcases happend : p.log.append F fault disk m with ⟨r', log, disk₁⟩
  rw [happend] at hframe
  simp only [Partition.publish, happend] at h
  cases r' with
  | error e =>
    obtain ⟨-, rfl⟩ := Prod.mk.inj h
    exact hframe
  | ok _ =>
    obtain ⟨-, rfl⟩ := Prod.mk.inj h
    exact hframe

/-- What a delivery leaves of the records: in memory they know the batch, and in the file if it is
handed out. -/
theorem records_of_deliver {fault : Option Partition.PersistFault} {pattern : Pattern}
    {label : String} {limit : UInt64} {r : Except Failure (List Message)} {w : World}
    (h : p.deliver F fault disk pattern label limit = (r, w)) :
    w.partition.cursors = Partition.recordBatch p.cursors pattern.asStr label
      (p.merged pattern label limit) ∧ (w.disk = disk ∧ (r = .ok [] ∨ ∃ e, r = .error e) ∨
        r = .ok (p.merged pattern label limit) ∧
          w.disk =
            disk.insert p.cursorFile
              (utf8 (F.toString (w.partition.cursors.toValue F)).toList)) := by
  unfold Partition.deliver at h
  cases hnil : (p.merged pattern label limit).isEmpty with
  | true =>
    simp only [hnil, if_true] at h
    obtain ⟨rfl, rfl⟩ := Prod.mk.inj h
    exact ⟨rfl, .inl ⟨rfl, .inl (congrArg _ (List.isEmpty_iff.mp hnil))⟩⟩
  | false =>
    simp only [hnil, Bool.false_eq_true, if_false] at h
    rcases fault with _ | _ | _
    · obtain ⟨rfl, rfl⟩ := Prod.mk.inj h
      exact ⟨rfl, .inr ⟨rfl, rfl⟩⟩
    · obtain ⟨rfl, rfl⟩ := Prod.mk.inj h
      exact ⟨rfl, .inl ⟨rfl, .inr ⟨_, rfl⟩⟩⟩
    · obtain ⟨rfl, rfl⟩ := Prod.mk.inj h
      exact ⟨rfl, .inl ⟨rfl, .inr ⟨_, rfl⟩⟩⟩

/-- What a prune leaves of the records: nothing changed, or they were trimmed to the oldest of the
messages left in memory and in the log's file, in memory and perhaps in the cursor file. -/
theorem records_of_prune {fault : Option Partition.PruneFault}
    {policy : RetentionPolicy} {now : Nat} {r : Except Failure Nat} {w : World}
    (hpath : p.cursorFile ≠ p.log.path) (h : p.prune F fault disk policy now = (r, w)) :
    (w.partition.cursors = p.cursors ∧ w.disk[p.cursorFile]? = disk[p.cursorFile]?) ∨
      ∃ m ms, p.log.messages.filter (policy.keeps now) = m :: ms ∧
        w.partition.log.messages = m :: ms ∧ contentAt w.disk p.log.path =
          (m :: ms).flatMap (recordOf F) ∧
        w.partition.cursors = Partition.pruneCursors p.cursors m.id ∧
        (w.disk[p.cursorFile]? = disk[p.cursorFile]? ∨
          w.disk[p.cursorFile]? =
            some (utf8 (F.toString (w.partition.cursors.toValue F)).toList)) := by
  have hinsert : ∀ bytes, (disk.insert p.log.path bytes)[p.cursorFile]? = disk[p.cursorFile]? :=
      fun bytes => by
    simp [Std.ExtTreeMap.getElem?_insert, hpath.symm]
  rcases hlog : p.log.prune F (fault.bind Partition.PruneFault.logFault) disk policy now
      with ⟨r', log, disk₁⟩
  simp only [Partition.prune, hlog] at h
  generalize fault.bind Partition.PruneFault.logFault = logFault at hlog
  cases prune_effect hlog with
  | kept =>
    obtain ⟨-, rfl⟩ := Prod.mk.inj h
    exact .inl ⟨rfl, rfl⟩
  | failed =>
    obtain ⟨-, rfl⟩ := Prod.mk.inj h
    exact .inl ⟨rfl, rfl⟩
  | detached =>
    obtain ⟨-, rfl⟩ := Prod.mk.inj h
    exact .inl ⟨rfl, hinsert _⟩
  | rewritten hlt =>
    have hpos : 0 <
      p.log.messages.length - (p.log.messages.filter (policy.keeps now)).length := by omega
    cases hkept : p.log.messages.filter (policy.keeps now) with
    | nil =>
      simp only [hkept, List.head?_nil, Option.map_none, ite_self] at h
      obtain ⟨-, rfl⟩ := Prod.mk.inj h
      exact .inl ⟨rfl, hinsert _⟩
    | cons m ms =>
      rw [hkept] at hpos
      simp only [hkept, List.head?_cons, Option.map_some, if_pos hpos] at h
      refine .inr ⟨m, ms, rfl, ?_⟩
      have hcontent : ∀ bytes,
          contentAt ((disk.insert p.log.path ((m :: ms).flatMap (recordOf F))).insert
          p.cursorFile bytes) p.log.path = (m :: ms).flatMap (recordOf F) := fun bytes => by
        rw [contentAt_insert_of_ne _ hpath, contentAt_insert_self]
      generalize fault.bind Partition.PruneFault.persistFault = persistFault at h
      rcases persistFault with _ | _ | _
      · obtain ⟨-, rfl⟩ := Prod.mk.inj h
        exact ⟨rfl, hcontent _, rfl, .inr (by simp)⟩
      · obtain ⟨-, rfl⟩ := Prod.mk.inj h
        exact ⟨rfl, contentAt_insert_self .., rfl, .inl (hinsert _)⟩
      · obtain ⟨-, rfl⟩ := Prod.mk.inj h
        exact ⟨rfl, contentAt_insert_self .., rfl, .inl (hinsert _)⟩

end AgentBus
