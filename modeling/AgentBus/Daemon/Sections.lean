import AgentBus.Daemon.Locality

/-!
# What a section under the lock touches

Every section of the daemon that is about one partition reads and writes this
partition and its two files only. The other data of the state, such as the time
of the last activity and the histograms, is in no cell: sections are compared
by their results and by what they leave of the partitions and on the disk.
-/

namespace AgentBus

open Lib

/-! ## Cells -/

/-- What a daemon's state is made of, as far as partitions go. -/
inductive Cell where
  | partition (name : String)
  | file (path : Path)

def Cell.Content : Cell → Type
  | partition _ => Option Partition
  | file _ => Option Bytes

namespace Bus

def look (b : Bus) : ∀ c : Cell, c.Content
  | .partition name => b.state.partitions[name]?
  | .file path => b.disk[path]?

/-- Every open partition keeps to its own files. -/
structure Placed (stateDir : Path) (policy : RetentionPolicy) (b : Bus) : Prop where
  root : b.state.stateDir = stateDir
  retention : b.state.policy = policy
  named : ∀ n p, b.state.partitions[n]? = some p → ∃ name : PartitionName, name.asStr = n
  files : ∀ (name : PartitionName) p, b.state.partitions[name.asStr]? = some p →
    p.log.path = logPath stateDir name ∧ p.cursorFile = cursorPath stateDir name

theorem placed_new (stateDir : Path) (instant : Nat) (disk : Disk) :
    (⟨.new stateDir instant, disk⟩ : Bus).Placed stateDir .default := by
  have hnone : ∀ (n : String) (p : Partition),
      (BusState.new stateDir instant).partitions[n]? ≠ some p := by
    simp [BusState.new]
  exact ⟨rfl, rfl, fun n p hp => absurd hp (hnone n p),
    fun name p hp => absurd hp (hnone name.asStr p)⟩

/-- A partition and its files. -/
def cells (stateDir : Path) (name : PartitionName) : Set Cell :=
  {.partition name.asStr, .file (logPath stateDir name), .file (cursorPath stateDir name)}

variable {stateDir : Path} {policy : RetentionPolicy} {name : PartitionName}

/-- A section that touches one partition only. -/
abbrev Section (stateDir : Path) (policy : RetentionPolicy) (name : PartitionName) {α : Type}
    (f : Bus → α × Bus) : Prop :=
  Local look (Placed stateDir policy) (cells stateDir name) f

theorem file_mem_cells {path : Path} : Cell.file path ∈ cells stateDir name ↔
    path = logPath stateDir name ∨ path = cursorPath stateDir name := by
  simp [cells]

theorem asStr_injective : Function.Injective PartitionName.asStr := by
  rintro ⟨raw, _⟩ ⟨raw', _⟩ rfl
  rfl

theorem partition_mem_cells {name' : PartitionName} :
    Cell.partition name'.asStr ∈ cells stateDir name ↔ name' = name := by
  simp [cells, asStr_injective.eq_iff]

theorem cells_disjoint {name' : PartitionName} (hne : name' ≠ name) :
    ∀ c ∈ cells stateDir name, c ∉ cells stateDir name' := by
  have hfiles : ∀ (n : PartitionName) (path : Path), Cell.file path ∈ cells stateDir n →
      path ∈ filesOf stateDir 0 n := by
    intro n path hpath
    rcases file_mem_cells.mp hpath with rfl | rfl <;> simp [filesOf]
  rintro (other | path) hc hc'
  · obtain rfl : other = name.asStr := by simpa [cells] using hc
    exact hne (partition_mem_cells.mp hc').symm
  · exact hne (eq_of_components_eq (hfiles _ _ hc') (hfiles _ _ hc) rfl)

theorem local_quiet {S : Set Cell} {α : Type} {a : α} {f : Bus → Bus}
    (hstate : ∀ b, (f b).state.stateDir = b.state.stateDir ∧ (f b).state.policy = b.state.policy ∧
      (f b).state.partitions = b.state.partitions ∧ (f b).disk = b.disk) :
    Local look (Placed stateDir policy) S fun b => (a, f b) := by
  have hlook : ∀ b, (f b).look = b.look := by
    intro b
    obtain ⟨-, -, hpartitions, hdisk⟩ := hstate b
    funext c
    cases c with
    | partition name => exact congrArg (·[name]?) hpartitions
    | file path => exact congrArg (·[path]?) hdisk
  constructor
  · intro b hb
    obtain ⟨hroot, hpolicy, hpartitions, -⟩ := hstate b
    exact ⟨hroot.trans hb.root, hpolicy.trans hb.retention,
      fun n p hp => hb.named n p (hpartitions ▸ hp),
      fun n p hp => hb.files n p (hpartitions ▸ hp)⟩
  · exact fun _ _ _ => rfl
  · intro b b' _ _ h c hc
    simp only [hlook]
    exact h c hc
  · intro b _ c _
    simp only [hlook]

theorem section_disk {α : Type} {f : Disk → α × Disk}
    (hf : OnDisk {logPath stateDir name, cursorPath stateDir name} f) :
    Section stateDir policy name fun b => ((f b.disk).1, { b with disk := (f b.disk).2 }) := by
  have hagree : ∀ {b b' : Bus}, Agree look (cells stateDir name) b b' →
      Agree Disk.look {logPath stateDir name, cursorPath stateDir name} b.disk b'.disk :=
    fun h path hpath => h (.file path) (file_mem_cells.mpr hpath)
  constructor
  · exact fun hb => ⟨hb.root, hb.retention, hb.named, hb.files⟩
  · exact fun _ _ h => hf.result trivial trivial (hagree h)
  · rintro b b' - - h (other | path) hc
    · exact h (.partition other) hc
    · exact hf.agree trivial trivial (hagree h) path (file_mem_cells.mp hc)
  · rintro b - (other | path) hc
    · rfl
    · exact hf.frame trivial path fun hpath => hc (file_mem_cells.mpr hpath)

theorem section_insert {α : Type} (a : α) {p : Partition}
    (hp : p.log.path = logPath stateDir name ∧ p.cursorFile = cursorPath stateDir name) :
    Section stateDir policy name fun b =>
      (a,
        { b with state :=
      { b.state with partitions := b.state.partitions.insert name.asStr p } }) := by
  constructor
  · refine fun hb => ⟨hb.root, hb.retention, fun n q hq => ?_, fun n q hq => ?_⟩
    all_goals
      simp only [Std.ExtTreeMap.getElem?_insert] at hq
      split at hq
    · next heq => exact ⟨name, Std.LawfulEqCmp.compare_eq_iff_eq.mp heq⟩
    · exact hb.named n q hq
    · next heq =>
      obtain rfl := Option.some.inj hq
      rw [Std.LawfulEqCmp.compare_eq_iff_eq, asStr_injective.eq_iff] at heq
      exact heq ▸ hp
    · exact hb.files n q hq
  · exact fun _ _ _ => rfl
  · rintro b b' - - h (other | path) hc
    · simp only [look, Std.ExtTreeMap.getElem?_insert]
      split
      · rfl
      · exact h (.partition other) hc
    · exact h (.file path) hc
  · rintro b - (other | path) hc
    · have hne : name.asStr ≠ other := by
        rintro rfl
        exact hc (partition_mem_cells.mpr rfl)
      simp only [look, Std.ExtTreeMap.getElem?_insert]
      rw [if_neg (by simpa using hne)]
    · rfl

/-! ## Sections -/

variable {F : Formats} {p : Partition}

/-- The partition's paths stay what they are. -/
def Stays (p : Partition) {α : Type} (g : Disk → α × World) : Prop :=
  ∀ disk, (g disk).2.partition.log.path = p.log.path ∧
    (g disk).2.partition.cursorFile = p.cursorFile

theorem section_put {α : Type} {g : Disk → α × World}
    (hp : p.log.path = logPath stateDir name ∧ p.cursorFile = cursorPath stateDir name)
    (hg : Partition.InWorld p.owns g) (hstays : Stays p g) :
    Section stateDir policy name fun b => ((g b.disk).1, b.put name.asStr (g b.disk).2) := by
  rw [Partition.owns, hp.1, hp.2] at hg
  refine ((section_disk hg).bind (g := fun r b =>
    (r.1,
      { b with state := { b.state with partitions := b.state.partitions.insert name.asStr r.2 } }))
    fun {b} _ => section_insert _ ?_).congr fun _ _ => rfl
  obtain ⟨hlog, hcursor⟩ := hstays b.disk
  exact ⟨hlog.trans hp.1, hcursor.trans hp.2⟩

theorem files_ne (hp : p.log.path = logPath stateDir name ∧
    p.cursorFile = cursorPath stateDir name) :
    p.cursorFile ≠ p.log.path := by
  rw [hp.1, hp.2]
  exact (logPath_ne_cursorPath stateDir name).symm

theorem section_partitionMut (fault : Option Partition.OpenFault) :
    Section stateDir policy name fun b => b.partitionMut F fault name := by
  let opened : Bus → Except Failure Partition × Bus :=
    andThen (fun b => ((Partition.open F fault stateDir name b.disk).1,
      { b with disk := (Partition.open F fault stateDir name b.disk).2 })) .error fun p b =>
      (.ok p,
        { b with state := { b.state with partitions := b.state.partitions.insert name.asStr p } })
  have hopened : Section stateDir policy name opened := by
    refine (section_disk (Partition.onDisk_open (F := F) fault stateDir name)).andThen
      fun {b p} _ hr => ?_
    obtain ⟨hlog, hcursor, -⟩ :=
      (open_loads (show Partition.open F fault stateDir name b.disk = (_, _) from rfl)).2 p hr
    exact section_insert _ ⟨hlog, hcursor⟩
  refine (Local.read (v := fun b : Bus => b.state.partitions[name.asStr]?)
    (fun _ _ h => h (.partition name.asStr) (partition_mem_cells.mpr rfl))
    (g := fun q b => q.elim (opened b) fun p => (.ok p, b)) fun {b} _ => ?_).congr fun b hb => ?_
  · cases b.state.partitions[name.asStr]? with
    | some p => exact .pure _
    | none => exact hopened
  · rw [partitionMut, hb.root]
    cases b.state.partitions[name.asStr]? with
    | some p => rfl
    | none =>
      simp only [Option.elim_none, opened, andThen]
      rcases Partition.open F fault stateDir name b.disk with ⟨_ | p, disk⟩ <;> rfl

/-- What a section leaves alone. -/
theorem Placed.within {α : Type} {b b' : Bus} (h : b.Placed stateDir policy) {f : Bus → α × Bus}
    (hsection : Section stateDir policy name f) {r : α} (hf : f b = (r, b')) :
    b'.Placed stateDir policy ∧ ∀ c, c ∉ cells stateDir name → b'.look c = b.look c := by
  have hplaced := hsection.keeps h
  have hframe := hsection.frame h
  rw [hf] at hplaced hframe
  exact ⟨hplaced, hframe⟩

/-- Another partition is left alone, with its files. -/
theorem look_elsewhere {b b' : Bus} {other : PartitionName} (hname : other ≠ name)
    (hframe : ∀ c, c ∉ cells stateDir other → b'.look c = b.look c) :
    b'.state.partitions[name.asStr]? = b.state.partitions[name.asStr]? ∧
      b'.disk[logPath stateDir name]? = b.disk[logPath stateDir name]? ∧
      b'.disk[cursorPath stateDir name]? = b.disk[cursorPath stateDir name]? := by
  have hcell : ∀ c ∈ cells stateDir name, b'.look c = b.look c := fun c hc =>
    hframe c (cells_disjoint hname c hc)
  exact ⟨hcell (.partition name.asStr) (partition_mem_cells.mpr rfl),
    hcell (.file _) (file_mem_cells.mpr (.inl rfl)),
    hcell (.file _) (file_mem_cells.mpr (.inr rfl))⟩

theorem placed_of_partitionMut {fault : Option Partition.OpenFault} {b : Bus}
    (hb : b.Placed stateDir policy) (h : (b.partitionMut F fault name).1 = .ok p) :
    p.log.path = logPath stateDir name ∧ p.cursorFile = cursorPath stateDir name := by
  unfold partitionMut at h
  split at h
  · next q hq =>
    obtain rfl := Except.ok.inj h
    exact hb.files name q hq
  · rw [hb.root] at h
    split at h
    · next q disk hopen =>
      obtain rfl := Except.ok.inj h
      obtain ⟨hlog, hcursor, -⟩ := (open_loads hopen).2 q rfl
      exact ⟨hlog, hcursor⟩
    · cases h

theorem section_onPartition (fault : Option Partition.OpenFault) {α : Type} {e : Failure → α}
    {g : Partition → Bus → α × Bus}
    (hg : ∀ p, p.log.path = logPath stateDir name ∧ p.cursorFile = cursorPath stateDir name →
      Section stateDir policy name (g p)) :
    Section stateDir policy name (andThen (fun b => b.partitionMut F fault name) e g) :=
  (section_partitionMut fault).andThen fun hb hp => hg _ (placed_of_partitionMut hb hp)

theorem section_publish (hp : p.log.path = logPath stateDir name ∧
    p.cursorFile = cursorPath stateDir name)
    (fault : Option PartitionLog.AppendFault) (m : Message) :
    Section stateDir policy name fun b =>
      ((p.publish F fault b.disk m).1, b.put name.asStr (p.publish F fault b.disk m).2) := by
  refine section_put hp (Partition.inWorld_publish fault m) fun disk => ?_
  obtain ⟨hlog, hcursor, -⟩ := publish_writes (show p.publish F fault disk m = (_, _) from rfl)
  exact ⟨hlog, hcursor⟩

theorem section_deliver (hp : p.log.path = logPath stateDir name ∧
    p.cursorFile = cursorPath stateDir name)
    (fault : Option Partition.PersistFault) (pattern : Pattern) (label : String) (limit : UInt64) :
    Section stateDir policy name fun b => b.deliver F fault name p pattern label limit := by
  refine section_put hp (Partition.inWorld_deliver fault pattern label limit) fun disk => ?_
  have hkept : Kept F ⟨p, disk⟩ (p.deliver F fault disk pattern label limit).2 :=
    kept_deliver (files_ne hp) fault pattern label limit
  exact ⟨hkept.path, hkept.cursorFile⟩

theorem section_pruneOne (fault : Option Partition.PruneFault) (now : Nat) :
    Section stateDir policy name fun b => b.pruneOne F fault now name.asStr := by
  refine (Local.read (v := fun b : Bus => b.state.partitions[name.asStr]?)
    (fun _ _ h => h (.partition name.asStr) (partition_mem_cells.mpr rfl))
    (g := fun q b => q.elim (.ok 0, b) fun p =>
      ((p.prune F fault b.disk policy now).1, b.put name.asStr
        (p.prune F fault b.disk policy now).2))
    fun {b} hb => ?_).congr fun b hb => ?_
  · cases hq : b.state.partitions[name.asStr]? with
    | none => exact .pure _
    | some p =>
      have hp := hb.files name p hq
      refine section_put hp (Partition.inWorld_prune fault policy now) fun disk => ?_
      have hkept : Kept F ⟨p, disk⟩ (p.prune F fault disk policy now).2 :=
        kept_prune (files_ne hp) fault policy now
      exact ⟨hkept.path, hkept.cursorFile⟩
  · rw [pruneOne, hb.retention]
    cases b.state.partitions[name.asStr]? <;> rfl

end Bus

end AgentBus
