import AgentBus.Daemon.Partition

/-!
# All partitions of a daemon

A partition is opened when a request first names it. `Bus` is the daemon's
state and the disk under it; each operation is one section under the lock.
Instants are nanoseconds.
-/

namespace AgentBus

open Lib

structure BusState where
  stateDir : Path
  partitions : Std.ExtTreeMap String Partition
  policy : RetentionPolicy
  started : Nat
  /-- When a client last did anything. -/
  lastActivity : Nat
  busTally : BusTally

structure Bus where
  state : BusState
  disk : Disk

/-- Whole seconds from one instant to a later one. -/
def elapsedSecs (since now : Nat) : Nat := (now - since) / 1000000000

namespace BusState

def new (stateDir : Path) (now : Nat) : BusState where
  stateDir
  partitions := ∅
  policy := .default
  started := now
  lastActivity := now
  busTally := .new

def partitionExists (s : BusState) (name : String) : Bool := s.partitions.contains name

def touch (s : BusState) (now : Nat) : BusState := { s with lastActivity := now }

def idleSecs (s : BusState) (now : Nat) : Nat := elapsedSecs s.lastActivity now

def uptimeSecs (s : BusState) (now : Nat) : Nat := elapsedSecs s.started now

def recordDeliveryLatency (s : BusState) (nowMs postMs : Nat) : BusState :=
  { s with busTally := s.busTally.recordDelivery (nowMs - postMs) }

end BusState

namespace Bus

variable (F : Formats)

/-- The world of an open partition is written back. -/
def put (b : Bus) (name : String) (w : World) : Bus :=
  { state := { b.state with partitions := b.state.partitions.insert name w.partition },
    disk := w.disk }

/-- The partition, opened from disk the first time it is touched. -/
def partitionMut (fault : Option Partition.OpenFault) (b : Bus) (name : PartitionName) :
    Except Failure Partition × Bus :=
  match b.state.partitions[name.asStr]? with
  | some p => (.ok p, b)
  | none =>
    match Partition.open F fault b.state.stateDir name b.disk with
    | (.ok p, disk) => (.ok p, b.put name.asStr ⟨p, disk⟩)
    | (.error e, disk) => (.error e, { b with disk })

/-- The partition of this name, if it is open. -/
def pruneOne (fault : Option Partition.PruneFault) (now : Nat) (b : Bus) (name : String) :
    Except Failure Nat × Bus :=
  match b.state.partitions[name]? with
  | none => (.ok 0, b)
  | some p =>
    let (result, w) := p.prune F fault b.disk b.state.policy now
    (result, b.put name w)

/-- One after the other, up to the first failure. -/
def pruneEach (faults : String → Option Partition.PruneFault) (now : Nat) :
    List String → Bus → Except Failure Nat × Bus
  | [], b => (.ok 0, b)
  | name :: names, b =>
    match b.pruneOne F (faults name) now name with
    | (.error e, b) => (.error e, b)
    | (.ok removed, b) =>
      let (rest, b) := pruneEach faults now names b
      (rest.map (removed + ·), b)

def pruneAll (faults : String → Option Partition.PruneFault) (b : Bus) (now : Nat) :
    Except Failure Nat × Bus :=
  pruneEach F faults now b.state.partitions.keys b

end Bus

end AgentBus
