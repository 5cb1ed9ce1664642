import AgentBus.Core.Topic
import AgentBus.Lib.UnixPath

/-!
# Where a partition's files live

A `PartitionName` is a string that passed every check, so only a checked name
can become a path. Every file of a partition is a direct child of the state
directory, and its file name gives the partition's name back.
-/

namespace AgentBus

open Lib

/-! ## Partition names -/

namespace PartitionName

def reservedStems : List String := ["agent-bus"]

/-- Why a string cannot name a partition. -/
def reason (input : String) : Option String :=
  if input.isEmpty then some "must not be empty"
  else if input.toList.contains '/' || input.toList.contains '\\' then
    some "must not contain a path separator"
  else if input == "." || input == ".." then some "must not be a relative path component"
  else if input.toList.any isWhitespace then some "must not contain whitespace"
  else if input.toList.contains '\x00' then some "must not contain a NUL byte"
  else if reservedStems.contains input then some "collides with a file name the daemon reserves"
  else if components input = [.normal input] then none
  else some "must be a single path component"

end PartitionName

structure PartitionName where
  raw : String
  accepted : PartitionName.reason raw = none
  deriving DecidableEq

namespace PartitionName

def parse (input : String) : Except CoreError PartitionName :=
  match h : reason input with
  | some why => .error (.invalidPartition input why)
  | none => .ok ⟨input, h⟩

def asStr (p : PartitionName) : String := p.raw

theorem parse_asStr (p : PartitionName) : parse p.asStr = .ok p := by
  unfold parse
  split
  · next why h => exact absurd (p.accepted.symm.trans h) (by simp)
  · rfl

theorem asStr_of_parse {input : String} {p : PartitionName} (h : parse input = .ok p) :
    p.asStr = input := by
  unfold parse at h
  split at h
  · cases h
  · obtain rfl := Except.ok.inj h
    rfl

end PartitionName

def logPath (stateDir : Path) (partition : PartitionName) : Path :=
  joinPath stateDir (partition.asStr ++ ".jsonl")

def cursorPath (stateDir : Path) (partition : PartitionName) : Path :=
  joinPath stateDir (partition.asStr ++ ".cursors.json")

def socketPath (stateDir : Path) : Path := joinPath stateDir "agent-bus.sock"

def lockPath (stateDir : Path) : Path := joinPath stateDir "agent-bus.lock"

def resolveDaemonLogPath (macos : Bool) (overrideDir homeDir : Option Path)
    (fallbackStateDir : Path) :
    Path :=
  match overrideDir with
  | some dir => joinPath dir "daemon.log"
  | none =>
    match macos, homeDir with
    | true, some home => joinPath (joinPath (joinPath home "Library") "Logs") "agent-bus-daemon.log"
    | _, _ => joinPath fallbackStateDir "daemon.log"

/-- Scratch file next to `path`, named after the process. -/
def tempPath (pid : Nat) (path : Path) : Path :=
  withFileName path ((fileName path).getD "" ++ "." ++ toString pid ++ ".tmp")

/-- Everything a daemon process writes for a partition. -/
def filesOf (stateDir : Path) (pid : Nat) (partition : PartitionName) : List Path :=
  [logPath stateDir partition, cursorPath stateDir partition,
    tempPath pid (logPath stateDir partition),
    tempPath pid (cursorPath stateDir partition)]

/-! ## File names -/

def fileNames (pid : Nat) (partition : PartitionName) : List String :=
  [partition.asStr ++ ".jsonl", partition.asStr ++ ".cursors.json",
    partition.asStr ++ ".jsonl" ++ "." ++ toString pid ++ ".tmp",
    partition.asStr ++ ".cursors.json" ++ "." ++ toString pid ++ ".tmp"]

/-- What a scratch file is for. -/
def scratchTarget (file : List Char) : List Char :=
  if file.getLast? = some 'p' then ((file.rdrop 4).rdropWhile Char.isDigit).dropLast else file

/-- The partition that a file belongs to. -/
def ownerOf (file : List Char) : List Char :=
  let target := scratchTarget file
  if target.getLast? = some 'l' then target.rdrop 6 else target.rdrop 13

theorem isFileName_of_long {file : String} (hslash : '/' ∉ file.toList)
    (hlong : 2 < file.toList.length) : IsFileName file where
  ne_empty := by rintro rfl; simp at hlong
  ne_dot := by rintro rfl; simp at hlong
  ne_dotdot := by rintro rfl; simp at hlong
  noSlash := hslash

namespace PartitionName

theorem noSlash (name : PartitionName) : '/' ∉ name.asStr.toList := by
  intro hmem
  have hok := name.accepted
  unfold reason at hok
  split at hok
  · cases hok
  · split at hok
    · cases hok
    · next h => exact h (by simp [show '/' ∈ name.raw.toList from hmem])

theorem isFileName_append (name : PartitionName) {suffix : String} (hslash : '/' ∉ suffix.toList)
    (hlong : 2 < suffix.toList.length) : IsFileName (name.asStr ++ suffix) := by
  refine isFileName_of_long ?_ ?_
  · simp [name.noSlash, hslash]
  · rw [String.toList_append, List.length_append]
    omega

end PartitionName

theorem digits_of_toString (n : Nat) : ∀ c ∈ (toString n).toList, c.isDigit = true := by
  intro c hc
  rw [Nat.toString_eq_repr, Nat.repr, String.toList_ofList] at hc
  exact Nat.isDigit_of_mem_toDigits (by decide) (by decide) hc

theorem rdropWhile_append_of_forall {α : Type*} {p : α → Bool} (l : List α) {ds : List α}
    (h : ∀ d ∈ ds, p d = true) : (l ++ ds).rdropWhile p = l.rdropWhile p := by
  rw [List.rdropWhile, List.reverse_append, List.dropWhile_append_of_pos (by simpa using h)]
  rfl

theorem scratchTarget_append (file : String) (pid : Nat) :
    scratchTarget (file ++ "." ++ toString pid ++ ".tmp").toList = file.toList := by
  have hlast : (file ++ "." ++ toString pid ++ ".tmp").toList.getLast? = some 'p' := by
    rw [String.toList_append, List.getLast?_append]
    rfl
  have hcut : (file ++ "." ++ toString pid ++ ".tmp").toList.rdrop 4 =
      (file ++ "." ++ toString pid).toList := by
    rw [String.toList_append, List.rdrop, List.length_append]
    exact List.take_left' rfl
  have hdot : (file ++ "." ++ toString pid).toList = file.toList ++ ['.'] ++
      (toString pid).toList := by
    rw [String.toList_append, String.toList_append]
    rfl
  rw [scratchTarget, if_pos hlast, hcut, hdot,
    rdropWhile_append_of_forall _ (digits_of_toString pid),
    List.rdropWhile_concat_neg _ _ _ (by decide), List.dropLast_concat]

theorem ownerOf_of_mem {name : PartitionName} {pid : Nat} {file : String}
    (h : file ∈ fileNames pid name) : ownerOf file.toList = name.asStr.toList := by
  have hself : ∀ suffix : String, suffix.toList.getLast? = some 'l' ∨
      suffix.toList.getLast? = some 'n' →
      scratchTarget (name.asStr ++ suffix).toList = (name.asStr ++ suffix).toList := by
    intro suffix hsuffix
    rw [scratchTarget, String.toList_append, List.getLast?_append]
    rcases hsuffix with hl | hn
    · simp [hl]
    · simp [hn]
  have hlog : ownerOf (name.asStr ++ ".jsonl").toList = name.asStr.toList := by
    rw [ownerOf, hself _ (.inl (by decide))]
    simp [List.rdrop]
  have hcursors : ownerOf (name.asStr ++ ".cursors.json").toList = name.asStr.toList := by
    rw [ownerOf, hself _ (.inr (by decide))]
    simp [List.rdrop]
  simp only [fileNames, List.mem_cons, List.not_mem_nil, or_false] at h
  rcases h with rfl | rfl | rfl | rfl
  · exact hlog
  · exact hcursors
  · rw [ownerOf, scratchTarget_append, ← hlog, ownerOf, hself _ (.inl (by decide))]
  · rw [ownerOf, scratchTarget_append, ← hcursors, ownerOf, hself _ (.inr (by decide))]

theorem eq_of_mem_fileNames {a b : PartitionName} {pid pid' : Nat} {file : String}
    (ha : file ∈ fileNames pid a) (hb : file ∈ fileNames pid' b) : a = b := by
  have howner := (ownerOf_of_mem ha).symm.trans (ownerOf_of_mem hb)
  obtain ⟨raw, _⟩ := a
  obtain ⟨raw', _⟩ := b
  obtain rfl : raw = raw' := String.toList_inj.mp howner
  rfl

/-! ## Components -/

section Components

variable (stateDir : Path) (name : PartitionName)

theorem components_logPath :
    components (logPath stateDir name) = components stateDir ++
      [.normal (name.asStr ++ ".jsonl")] :=
  (name.isFileName_append (by decide) (by decide)).components_joinPath stateDir

theorem components_cursorPath : components (cursorPath stateDir name) =
    components stateDir ++ [.normal (name.asStr ++ ".cursors.json")] :=
  (name.isFileName_append (by decide) (by decide)).components_joinPath stateDir

theorem components_tempPath {suffix : String} (hslash : '/' ∉ suffix.toList)
    (hlong : 2 < suffix.toList.length) (pid : Nat) :
    components (tempPath pid (joinPath stateDir (name.asStr ++ suffix))) =
      components stateDir ++ [.normal (name.asStr ++ suffix ++ "." ++ toString pid ++ ".tmp")] := by
  have hfile := name.isFileName_append hslash hlong
  have htemp : IsFileName (name.asStr ++ suffix ++ "." ++ toString pid ++ ".tmp") := by
    have hdigits : '/' ∉ (toString pid).toList := fun hmem =>
      absurd (digits_of_toString pid _ hmem) (by decide)
    refine isFileName_of_long ?_ (by simp only [String.toList_append, List.length_append]; omega)
    simp only [String.toList_append, List.mem_append, not_or]
    exact ⟨⟨⟨⟨name.noSlash, hslash⟩, by decide⟩, hdigits⟩, by decide⟩
  rw [tempPath, hfile.fileName_joinPath, Option.getD_some, hfile.components_withFileName htemp]

theorem components_filesOf (pid : Nat) : (filesOf stateDir pid name).map components =
    (fileNames pid name).map fun file => components stateDir ++ [.normal file] := by
  simp only [filesOf, fileNames, List.map_cons, List.map_nil, components_logPath,
    components_cursorPath]
  rw [logPath, cursorPath, components_tempPath stateDir name (by decide) (by decide),
    components_tempPath stateDir name (by decide) (by decide)]

variable {stateDir}

theorem exists_fileName {pid : Nat} {path : Path} (h : path ∈ filesOf stateDir pid name) :
    ∃ file ∈ fileNames pid name, components path = components stateDir ++ [.normal file] := by
  have hmem : components path ∈ (filesOf stateDir pid name).map components := List.mem_map_of_mem h
  rw [components_filesOf] at hmem
  obtain ⟨file, hfile, heq⟩ := List.mem_map.mp hmem
  exact ⟨file, hfile, heq.symm⟩

variable {name}

/-- Files of two partitions differ, however their paths are written. -/
theorem eq_of_components_eq {name' : PartitionName} {pid pid' : Nat} {path path' : Path}
    (h : path ∈ filesOf stateDir pid name) (h' : path' ∈ filesOf stateDir pid' name')
    (heq : components path = components path') : name = name' := by
  obtain ⟨file, hmem, hfile⟩ := exists_fileName name h
  obtain ⟨file', hmem', hfile'⟩ := exists_fileName name' h'
  rw [hfile, hfile'] at heq
  obtain rfl : file = file' := by simpa using heq
  exact eq_of_mem_fileNames hmem hmem'

end Components

/-! ## The two files differ -/

theorem getLast?_joinPath {file : String} {c : Char} (h : file.toList.getLast? = some c)
    (dir : Path) : (joinPath dir file).toList.getLast? = some c := by
  unfold joinPath
  split
  · exact h
  · split
    · simp [h]
    · simp [List.getLast?_cons, h]

theorem logPath_ne_cursorPath (stateDir : Path) (partition : PartitionName) :
    logPath stateDir partition ≠ cursorPath stateDir partition := by
  intro h
  have hl : (logPath stateDir partition).toList.getLast? = some 'l' :=
    getLast?_joinPath (by simp) _
  have hn : (cursorPath stateDir partition).toList.getLast? = some 'n' :=
    getLast?_joinPath (by simp) _
  rw [h, hn] at hl
  cases hl

end AgentBus
