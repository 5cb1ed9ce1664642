import AgentBus.Core.Message
import AgentBus.Core.Paths
import AgentBus.Lib.BinarySearch
import AgentBus.Lib.Lines
import Mathlib.Data.List.Sort

/-!
# The log of one partition

A log is a file of one JSON record a line and its mirror in memory. `Disk`
maps paths to contents. Every operation takes the fault that strikes it, or
`none` when all its I/O succeeds, and gives back the state it leaves behind
also when it fails. Scratch files are not kept on the disk: nothing reads one
before it is renamed.
-/

namespace AgentBus

open Lib

abbrev Disk := Std.ExtTreeMap Path Bytes

/-- Why a call did not return normally. -/
inductive Failure where
  /-- An error, under the text of its outermost context. -/
  | error (context : String)
  /-- An error on the scratch file for `path`. -/
  | scratch (action : String) (path : Path)
  /-- A vector outgrew `usize` and the process panicked. -/
  | capacityOverflow
  deriving DecidableEq, Repr

/-- The text of an error, once the scratch file's name is known. -/
def Failure.text (pid : Nat) : Failure → String
  | error context => context
  | scratch action path => action ++ tempPath pid path
  | capacityOverflow => "capacity overflow"

def usizeMax : UInt64 := 0xFFFFFFFFFFFFFFFF

theorem toNat_le_usizeMax (n : UInt64) : n.toNat ≤ usizeMax.toNat :=
  Nat.le_of_lt_succ n.toNat_lt

/-! ## Loading -/

/-- The records of a file's lines and the number of corrupt ones; `none` if a line is not UTF-8. -/
def loadLines (F : Formats) : List Bytes → Option (List Message × Nat)
  | [] => some ([], 0)
  | bytes :: lines =>
    match decodeUtf8 bytes with
    | none => none
    | some cs =>
      let line := String.ofList cs
      if (trim line).isEmpty then loadLines F lines
      else
        match Message.fromJsonl F line with
        | .ok message => (loadLines F lines).map fun r => (message :: r.1, r.2)
        | .error _ => (loadLines F lines).map fun r => (r.1, r.2 + 1)

/-- The sort on load; stable. -/
def sortById (messages : List Message) : List Message :=
  messages.insertionSort fun a b => a.id ≤ b.id

/-! ## The log -/

/-- What the append handle writes to. -/
inductive Handle where
  | attached
  /-- A file that no path names any more. -/
  | unlinked (content : Bytes)

structure PartitionLog where
  path : Path
  file : Handle
  messages : List Message
  skippedRecords : Nat

structure PruneOutcome where
  removed : Nat
  oldestSurviving : Option Ulid

namespace PartitionLog

inductive OpenFault where
  | createDir
  | openFile
  | openReader
  | readLine

inductive AppendFault where
  /-- The write stops after `n` bytes. -/
  | write (n : Nat)
  | sync

inductive PruneFault where
  | create
  | write
  | sync
  | rename
  | reopen

variable (F : Formats)

def tempPath (pid : Nat) (log : PartitionLog) : Path := AgentBus.tempPath pid log.path

/-- The content of a file, empty if there is none. -/
def contentAt (disk : Disk) (path : Path) : Bytes := (disk[path]?).getD []

/-- Create the file if it is absent. -/
def touch (disk : Disk) (path : Path) : Disk := disk.insert path (contentAt disk path)

def «open» (fault : Option OpenFault) (path : Path) (disk : Disk) :
    Except Failure PartitionLog × Disk :=
  match fault with
  | some .createDir =>
    (.error (.error ("creating state directory " ++ (parentPath path).getD "")), disk)
  | some .openFile => (.error (.error ("opening partition log " ++ path)), disk)
  | some .openReader => (.error (.error ("reading partition log " ++ path)), touch disk path)
  | some .readLine => (.error (.error ("reading " ++ path)), touch disk path)
  | none =>
    match loadLines F (readLines (contentAt disk path)) with
    | none => (.error (.error ("reading " ++ path)), touch disk path)
    | some (messages, skippedRecords) =>
      (.ok { path, file := .attached, messages := sortById messages, skippedRecords },
        touch disk path)

/-- Bytes written through the append handle. -/
def write (log : PartitionLog) (disk : Disk) (bytes : Bytes) : PartitionLog × Disk :=
  match log.file with
  | .attached => (log, disk.insert log.path (contentAt disk log.path ++ bytes))
  | .unlinked content => ({ log with file := .unlinked (content ++ bytes) }, disk)

@[simp] theorem write_path (log : PartitionLog) (disk : Disk) (bytes : Bytes) :
    (log.write disk bytes).1.path = log.path := by
  unfold write
  split <;> rfl

@[simp] theorem write_messages (log : PartitionLog) (disk : Disk) (bytes : Bytes) :
    (log.write disk bytes).1.messages = log.messages := by
  unfold write
  split <;> rfl

def record (line : String) : Bytes := utf8 line.toList ++ [newline]

def append (fault : Option AppendFault) (log : PartitionLog) (disk : Disk) (message : Message) :
    Except Failure Unit × PartitionLog × Disk :=
  match message.toJsonl F with
  | .error _ => (.error (.error "serializing message"), log, disk)
  | .ok line =>
    match fault with
    | some (.write n) =>
      (.error (.error ("appending to " ++ log.path)), log.write disk ((record line).take n))
    | some .sync => (.error (.error ("fsync on " ++ log.path)), log.write disk (record line))
    | none =>
      let (log, disk) := log.write disk (record line)
      if log.messages.length < usizeMax.toNat then
        (.ok (), { log with messages := log.messages ++ [message] }, disk)
      else (.error .capacityOverflow, log, disk)

/-- Every message strictly newer than `cursor`, by binary search. -/
def messagesAfter (log : PartitionLog) (cursor : Option Ulid) : List Message :=
  let start := match cursor with
    | none => 0
    | some id => partitionPoint (fun m => decide (m.id ≤ id)) log.messages
  log.messages.drop start

/-- Every message no older than `sinceSecs`, ignoring cursors. -/
def messagesSince (log : PartitionLog) (sinceSecs : Option Nat) (now : Nat) : List Message :=
  log.messages.filter fun m => sinceSecs.all fun window => decide (m.ageSecs now ≤ window)

/-- The content of a rewritten log. -/
def rewritten : List Message → Except CoreError Bytes
  | [] => .ok []
  | message :: messages => do
    let line ← message.toJsonl F
    let rest ← rewritten messages
    .ok (record line ++ rest)

/-- A rename leaves the old append handle on a file without a name. -/
def unlink (log : PartitionLog) (disk : Disk) : PartitionLog :=
  match log.file with
  | .attached => { log with file := .unlinked (contentAt disk log.path) }
  | .unlinked _ => log

@[simp] theorem unlink_path (log : PartitionLog) (disk : Disk) :
    (log.unlink disk).path = log.path := by
  unfold unlink
  split <;> rfl

@[simp] theorem unlink_messages (log : PartitionLog) (disk : Disk) :
    (log.unlink disk).messages = log.messages := by
  unfold unlink
  split <;> rfl

def prune (fault : Option PruneFault) (log : PartitionLog) (disk : Disk) (policy : RetentionPolicy)
    (now : Nat) : Except Failure PruneOutcome × PartitionLog × Disk :=
  let retained := log.messages.filter fun m => policy.retains (m.ageSecs now)
  let removed := log.messages.length - retained.length
  if removed = 0 then (.ok ⟨0, log.messages.head?.map Message.id⟩, log, disk)
  else
    match rewritten F retained with
    | .error _ => (.error (.error "serializing during prune"), log, disk)
    | .ok content =>
      match fault with
      | some .create => (.error (.scratch "creating " log.path), log, disk)
      | some .write => (.error (.scratch "writing " log.path), log, disk)
      | some .sync => (.error (.scratch "fsync on " log.path), log, disk)
      | some .rename => (.error (.error ("replacing " ++ log.path)), log, disk)
      | some .reopen =>
        (.error (.error ("reopening " ++ log.path)), log.unlink disk, disk.insert log.path content)
      | none =>
        (.ok ⟨removed, retained.head?.map Message.id⟩,
          { log with file := .attached, messages := retained }, disk.insert log.path content)

end PartitionLog

end AgentBus
