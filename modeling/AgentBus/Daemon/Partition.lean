import AgentBus.Core.CursorFile
import AgentBus.Daemon.Log
import AgentBus.Daemon.Metrics
import AgentBus.Lib.Merge

/-!
# One partition: its log, its positions, its wake-ups

`deliver` selects the unread messages of both kinds, merges them by id, moves
the positions and persists them, all in one call; `prune` applies retention
and drags stale positions forward. A `World` is a partition and the disk under
it, so a call is a function of the world.
-/

namespace AgentBus

open Lib

structure Partition where
  name : PartitionName
  log : PartitionLog
  cursors : CursorStore
  cursorFile : Path
  /-- Keys whose positions pruning dragged forward. -/
  snapped : List String
  /-- The label most recently used with each pattern. -/
  labels : Std.ExtTreeMap String String
  tally : PartitionTally
  /-- Signals sent on the wake-up channel so far. -/
  notify : Nat

structure World where
  partition : Partition
  disk : Disk

namespace Partition

inductive OpenFault where
  | log (fault : PartitionLog.OpenFault)
  | readCursors

inductive PersistFault where
  | write
  | rename

inductive PruneFault where
  | log (fault : PartitionLog.PruneFault)
  | persist (fault : PersistFault)

variable (F : Formats)

/-! ## Opening -/

/-- Mark what one legacy subscriber consumed under one pattern. -/
def seedDelivered (log : PartitionLog) (store : CursorStore) :
    String × String × Ulid → CursorStore
  | (subscriber, pattern, id) =>
    match Pattern.parse pattern with
    | .error _ => store
    | .ok pattern =>
      log.messages.foldl (fun store m =>
        if m.id ≤ id ∧ pattern.matchesTopic m.topic then store.markDelivered subscriber m.id
        else store) store

def loadCursors (log : PartitionLog) (raw : String) : CursorStore :=
  let (store, reason) := CursorStore.fromJsonOrReset F raw
  if reason.isSome then store
  else
    match CursorStore.legacyTriples F raw with
    | some triples => triples.foldl (seedDelivered log) store
    | none => store

/-- The cursors a cursor file holds; a missing file is an empty store. -/
def readCursors (fault : Option OpenFault) (log : PartitionLog) (cursorFile : Path)
    (disk : Disk) : Except Failure CursorStore :=
  match fault, disk[cursorFile]? with
  | some .readCursors, _ => .error (.error ("reading " ++ cursorFile))
  | _, none => .ok CursorStore.default
  | _, some bytes =>
    match decodeUtf8 bytes with
    | none => .error (.error ("reading " ++ cursorFile))
    | some cs => .ok (loadCursors F log (String.ofList cs))

def OpenFault.logFault : OpenFault → Option PartitionLog.OpenFault
  | log fault => some fault
  | readCursors => none

def «open» (fault : Option OpenFault) (stateDir : Path) (name : PartitionName) (disk : Disk) :
    Except Failure Partition × Disk :=
  match PartitionLog.open F (fault.bind OpenFault.logFault) (logPath stateDir name) disk with
  | (.error e, disk) => (.error e, disk)
  | (.ok log, disk) =>
    let cursorFile := cursorPath stateDir name
    match readCursors F fault log cursorFile disk with
    | .error e => (.error e, disk)
    | .ok cursors =>
      (.ok { name, log, cursors, cursorFile, snapped := [], labels := ∅, tally := .new,
             notify := 0 }, disk)

/-! ## Publishing -/

/-- The signal follows the append, so a woken waiter finds the message. -/
def publish (fault : Option PartitionLog.AppendFault) (p : Partition) (disk : Disk)
    (message : Message) : Except Failure Ulid × World :=
  let tally := p.tally.recordPost message.body.utf8ByteSize (message.priority == .high)
    message.broadcast
  match p.log.append F fault disk message with
  | (.error e, log, disk) => (.error e, ⟨{ p with tally, log }, disk⟩)
  | (.ok _, log, disk) => (.ok message.id, ⟨{ p with tally, log, notify := p.notify + 1 }, disk⟩)

/-! ## Delivering -/

/-- One kind's unread messages, at most `limit`. -/
def stream (p : Partition) (broadcast : Bool) (cursor : Option Ulid) (pattern : Pattern)
    (label : String) (limit : UInt64) : List Message :=
  ((p.log.messagesAfter cursor).filter fun m =>
    m.broadcast == broadcast && !p.cursors.isDelivered label m.id &&
      pattern.matchesTopic m.topic).take limit.toNat

/-- What a delivery hands out: the two streams merged by id and truncated. -/
def merged (p : Partition) (pattern : Pattern) (label : String) (limit : UInt64) : List Message :=
  let exclusive := p.stream false (p.cursors.exclusivePosition pattern.asStr) pattern label limit
  let broadcast := p.stream true (p.cursors.broadcastPosition label) pattern label limit
  (mergeLoop (fun e b => decide (e.id < b.id)) (exclusive.length + broadcast.length) exclusive
    broadcast []).take limit.toNat

/-- Advance each position to the last message of its kind. -/
def advanceTo (store : CursorStore) (pattern label : String) (merged : List Message) :
    CursorStore :=
  let store := match merged.reverse.find? fun m => !m.broadcast with
    | some last => store.advanceExclusive pattern last.id
    | none => store
  match merged.reverse.find? fun m => m.broadcast with
  | some last => store.advanceBroadcast label last.id
  | none => store

def markAll (store : CursorStore) (label : String) (merged : List Message) : CursorStore :=
  merged.foldl (fun store m => store.markDelivered label m.id) store

def tempCursorPath (pid : Nat) (p : Partition) : Path := tempPath pid p.cursorFile

/-- Write the cursor file through a scratch file and a rename. -/
def persistCursors (fault : Option PersistFault) (p : Partition) (disk : Disk) :
    Except Failure Unit × Disk :=
  match p.cursors.toJson F with
  | .error _ => (.error (.error "serializing cursors"), disk)
  | .ok json =>
    match fault with
    | some .write => (.error (.scratch "writing " p.cursorFile), disk)
    | some .rename => (.error (.error ("replacing " ++ p.cursorFile)), disk)
    | none => (.ok (), disk.insert p.cursorFile (utf8 json.toList))

def deliver (fault : Option PersistFault) (p : Partition) (disk : Disk) (pattern : Pattern)
    (label : String) (limit : UInt64) : Except Failure (List Message) × World :=
  let merged := p.merged pattern label limit
  let p := { p with
    cursors := markAll (advanceTo p.cursors pattern.asStr label merged) label merged }
  let (persisted, disk) := if merged.isEmpty then (.ok (), disk) else p.persistCursors F fault disk
  match persisted with
  | .error e => (.error e, ⟨p, disk⟩)
  | .ok _ =>
    (.ok merged,
      ⟨{ p with
          labels := p.labels.insert pattern.asStr label
          tally := p.tally.recordDeliveries merged.length }, disk⟩)

/-- Replay a time window, ignoring positions. -/
def history (p : Partition) (pattern : Pattern) (sinceSecs : Option Nat) (now : Nat) :
    List Message :=
  (p.log.messagesSince sinceSecs now).filter fun m => pattern.matchesTopic m.topic

/-! ## Pruning -/

def PruneFault.logFault : PruneFault → Option PartitionLog.PruneFault
  | log fault => some fault
  | persist _ => none

def PruneFault.persistFault : PruneFault → Option PersistFault
  | log _ => none
  | persist fault => some fault

/-- Keys are remembered once. -/
def recordSnapped (snapped keys : List String) : List String :=
  keys.foldl (fun snapped key => if snapped.contains key then snapped else snapped ++ [key]) snapped

def prune (fault : Option PruneFault) (p : Partition) (disk : Disk) (policy : RetentionPolicy)
    (now : Nat) : Except Failure Nat × World :=
  match p.log.prune F (fault.bind PruneFault.logFault) disk policy now with
  | (.error e, log, disk) => (.error e, ⟨{ p with log }, disk⟩)
  | (.ok ⟨removed, oldestSurviving⟩, log, disk) =>
    let p := { p with log }
    match if removed > 0 then oldestSurviving else none with
    | none => (.ok removed, ⟨{ p with tally := p.tally.recordPrune removed 0 }, disk⟩)
    | some oldest =>
      let (cursors, keys) := p.cursors.snapForward oldest
      let p := { p with
        cursors := cursors.pruneDelivered oldest
        snapped := recordSnapped p.snapped keys }
      match p.persistCursors F (fault.bind PruneFault.persistFault) disk with
      | (.error e, disk) => (.error e, ⟨p, disk⟩)
      | (.ok _, disk) =>
        (.ok removed, ⟨{ p with tally := p.tally.recordPrune removed keys.length }, disk⟩)

end Partition

end AgentBus
