import AgentBus.Daemon.Lifetimes

/-!
# Client-supplied names

Whatever name a client supplies, the files of its partition lie directly in
the state directory, and are no other partition's and none of the daemon's own.
Paths are compared by their components, as `Path` does.
-/

namespace AgentBus

open Lib

/-- The daemon's own files. -/
def reservedPaths (stateDir : Path) (macos : Bool) (homeDir : Option Path) : List Path :=
  [socketPath stateDir, lockPath stateDir,
    resolveDaemonLogPath macos (some stateDir) homeDir stateDir,
    resolveDaemonLogPath macos none none stateDir]

/-- What an open partition writes to. -/
def Partition.files (pid : Nat) (p : Partition) : List Path :=
  [p.log.path, p.cursorFile, p.log.tempPath pid, p.tempCursorPath pid]

theorem Partition.files_of_open {F : Formats} {fault : Option OpenFault} {stateDir : Path}
    {name : PartitionName} {disk disk' : Disk} {p : Partition}
    (h : Partition.open F fault stateDir name disk = (.ok p, disk')) (pid : Nat) :
    p.files pid = filesOf stateDir pid name := by
  obtain ⟨-, hopen⟩ := open_loads h
  obtain ⟨hlog, hcursor, -⟩ := hopen p rfl
  simp only [Partition.files, filesOf, PartitionLog.tempPath, Partition.tempCursorPath,
    hlog, hcursor]

/-! ## File names -/

theorem getLast?_append (s : String) {suffix : String} {c : Char}
    (h : suffix.toList.getLast? = some c) : (s ++ suffix).toList.getLast? = some c := by
  rw [String.toList_append, List.getLast?_append, h]
  rfl

theorem ne_of_getLast? {s s' : String} {c c' : Char} (h : s.toList.getLast? = some c)
    (h' : s'.toList.getLast? = some c') (hne : c ≠ c') : s ≠ s' := by
  rintro rfl
  exact hne (Option.some.inj (h.symm.trans h'))

theorem nodup_fileNames (pid : Nat) (name : PartitionName) : (fileNames pid name).Nodup := by
  have hlog : (name.asStr ++ ".jsonl").toList.getLast? = some 'l' := getLast?_append _ rfl
  have hcursors : (name.asStr ++ ".cursors.json").toList.getLast? = some 'n' :=
    getLast?_append _ rfl
  have htemp : ∀ s : String, (s ++ ".tmp").toList.getLast? = some 'p' :=
    fun s => getLast?_append s rfl
  have htemps : name.asStr ++ ".jsonl" ++ "." ++ toString pid ++ ".tmp" ≠
      name.asStr ++ ".cursors.json" ++ "." ++ toString pid ++ ".tmp" := by
    intro heq
    have htarget := congrArg (fun s : String => scratchTarget s.toList) heq
    simp only [scratchTarget_append, String.toList_inj] at htarget
    exact ne_of_getLast? hlog hcursors (by decide) htarget
  rw [fileNames]
  simp only [List.nodup_cons, List.mem_cons, List.not_mem_nil, or_false, not_or, not_false_eq_true,
    List.nodup_nil, and_true]
  exact ⟨⟨ne_of_getLast? hlog hcursors (by decide), ne_of_getLast? hlog (htemp _) (by decide),
    ne_of_getLast? hlog (htemp _) (by decide)⟩, ⟨ne_of_getLast? hcursors (htemp _) (by decide),
    ne_of_getLast? hcursors (htemp _) (by decide)⟩, htemps⟩

theorem getLast?_of_mem_fileNames {pid : Nat} {name : PartitionName} {file : String}
    (h : file ∈ fileNames pid name) : ∃ c ∈ ['l', 'n', 'p'], file.toList.getLast? = some c := by
  simp only [fileNames, List.mem_cons, List.not_mem_nil, or_false] at h
  rcases h with rfl | rfl | rfl | rfl
  · exact ⟨'l', by decide, getLast?_append _ rfl⟩
  · exact ⟨'n', by decide, getLast?_append _ rfl⟩
  · exact ⟨'p', by decide, getLast?_append _ rfl⟩
  · exact ⟨'p', by decide, getLast?_append _ rfl⟩

theorem components_reservedPaths {stateDir : Path} {macos : Bool}
    {homeDir : Option Path} {path : Path} (h : path ∈ reservedPaths stateDir macos homeDir) :
    ∃ file ∈ ["agent-bus.sock", "agent-bus.lock", "daemon.log"],
      components path = components stateDir ++ [.normal file] := by
  have hchild : ∀ file ∈ ["agent-bus.sock", "agent-bus.lock", "daemon.log"],
      components (joinPath stateDir file) = components stateDir ++ [.normal file] := by
    intro file hfile
    refine (isFileName_of_long ?_ ?_).components_joinPath stateDir
    all_goals
      simp only [List.mem_cons, List.not_mem_nil, or_false] at hfile
      rcases hfile with rfl | rfl | rfl <;> decide
  have hlog : resolveDaemonLogPath macos none none stateDir = joinPath stateDir "daemon.log" := by
    cases macos <;> rfl
  simp only [reservedPaths, List.mem_cons, List.not_mem_nil, or_false] at h
  rcases h with rfl | rfl | rfl | rfl
  · exact ⟨_, by decide, hchild "agent-bus.sock" (by decide)⟩
  · exact ⟨_, by decide, hchild "agent-bus.lock" (by decide)⟩
  · exact ⟨_, by decide, hchild "daemon.log" (by decide)⟩
  · rw [hlog]
    exact ⟨_, by decide, hchild "daemon.log" (by decide)⟩

theorem notMem_fileNames {file : String}
    (h : file ∈ ["agent-bus.sock", "agent-bus.lock", "daemon.log"]) (pid : Nat)
    (name : PartitionName) : file ∉ fileNames pid name := by
  intro hmem
  obtain ⟨c, hc, hlast⟩ := getLast?_of_mem_fileNames hmem
  simp only [List.mem_cons, List.not_mem_nil, or_false] at h hc
  rcases h with rfl | rfl | rfl <;> rcases hc with rfl | rfl | rfl <;>
    exact absurd hlast (by decide)

/-- **Names neither escape nor collide.** -/
theorem names_stay_apart (stateDir : Path) :
    (∀ (name : PartitionName) (pid : Nat), ∀ path ∈ filesOf stateDir pid name,
      ∃ file, components path = components stateDir ++ [.normal file]) ∧
    (∀ a b : PartitionName, a ≠ b → ∀ pid pid' : Nat, ∀ path ∈ filesOf stateDir pid a,
      ∀ path' ∈ filesOf stateDir pid' b, components path ≠ components path') ∧
    (∀ (name : PartitionName) (pid : Nat), ((filesOf stateDir pid name).map components).Nodup) ∧
    ∀ (name : PartitionName) (pid : Nat) (macos : Bool) (homeDir : Option Path),
      ∀ path ∈ filesOf stateDir pid name, ∀ path' ∈ reservedPaths stateDir macos homeDir,
        components path ≠ components path' := by
  refine ⟨fun name pid path hpath => ?_, fun a b hne pid pid' path hpath path' hpath' heq => ?_,
    fun name pid => ?_, fun name pid macos homeDir path hpath path' hpath' heq => ?_⟩
  · obtain ⟨file, -, hfile⟩ := exists_fileName name hpath
    exact ⟨file, hfile⟩
  · exact hne (eq_of_components_eq hpath hpath' heq)
  · rw [components_filesOf]
    exact (nodup_fileNames pid name).map fun f f' hff => by simpa using hff
  · obtain ⟨file, hmem, hfile⟩ := exists_fileName name hpath
    obtain ⟨file', hmem', hfile'⟩ := components_reservedPaths hpath'
    rw [hfile, hfile'] at heq
    obtain rfl : file = file' := by simpa using heq
    exact notMem_fileNames hmem' pid name hmem

end AgentBus
