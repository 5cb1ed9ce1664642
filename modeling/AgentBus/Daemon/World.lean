import AgentBus.Daemon.Partition
import AgentBus.Lib.Runs

/-!
# Calls on a partition and their runs

`World.call` is one call with the faults that strike it. `runs` is the system
of successful calls on one partition, from a directory without its files, in
which every published id is greater than all earlier ones; `allowed` says
which calls may occur.
-/

namespace AgentBus

open Lib

inductive Call where
  | publish (message : Message)
  | deliver (pattern : Pattern) (label : String) (limit : UInt64)
  | history (pattern : Pattern) (sinceSecs : Option Nat) (now : Nat)
  | prune (policy : RetentionPolicy) (now : Nat)
  /-- Drop the partition and open it again. -/
  | reopen

inductive Reply where
  | published (id : Ulid)
  | messages (ms : List Message)
  | removed (count : Nat)
  | opened

/-- The fault that strikes each kind of call, if any. -/
structure Faults where
  append : Option PartitionLog.AppendFault
  persist : Option Partition.PersistFault
  prune : Option Partition.PruneFault
  openFault : Option Partition.OpenFault

def noFaults : Faults := ⟨none, none, none, none⟩

/-- A directory's partition as it is opened. -/
def World.open (F : Formats) (fault : Option Partition.OpenFault) (stateDir : Path)
    (name : PartitionName) (disk : Disk) : Except Failure World :=
  match Partition.open F fault stateDir name disk with
  | (.ok partition, disk) => .ok ⟨partition, disk⟩
  | (.error e, _) => .error e

/-- A reopening that fails leaves the caller without a partition; the world is then the old one. -/
def World.call (F : Formats) (stateDir : Path) (faults : Faults) (w : World) :
    Call → Except Failure Reply × World
  | .publish message =>
    let (result, w) := w.partition.publish F faults.append w.disk message
    (result.map .published, w)
  | .deliver pattern label limit =>
    let (result, w) := w.partition.deliver F faults.persist w.disk pattern label limit
    (result.map .messages, w)
  | .history pattern sinceSecs now =>
    (.ok (.messages (w.partition.history pattern sinceSecs now)), w)
  | .prune policy now =>
    let (result, w) := w.partition.prune F faults.prune w.disk policy now
    (result.map .removed, w)
  | .reopen =>
    match World.open F faults.openFault stateDir w.partition.name w.disk with
    | .ok w => (.ok .opened, w)
    | .error e => (.error e, w)

section Inversion

variable {F : Formats} {stateDir : Path} {faults : Faults} {w w' : World} {reply : Reply}

theorem result_of_map {α β : Type*} {f : α → β} {r : Except Failure α} {b : β}
    (h : r.map f = .ok b) : ∃ a, r = .ok a ∧ b = f a := by
  cases r with
  | error e => cases h
  | ok a => exact ⟨a, rfl, (Except.ok.inj h).symm⟩

theorem publish_of_call {m : Message}
    (h : w.call F stateDir faults (.publish m) = (.ok reply, w')) :
    ∃ id, w.partition.publish F faults.append w.disk m = (.ok id, w') ∧ reply = .published id := by
  obtain ⟨hr, hw⟩ := Prod.mk.inj h
  obtain ⟨id, hid, rfl⟩ := result_of_map hr
  exact ⟨id, Prod.ext hid hw, rfl⟩

theorem deliver_of_call {pattern : Pattern} {label : String} {limit : UInt64}
    (h : w.call F stateDir faults (.deliver pattern label limit) = (.ok reply, w')) :
    ∃ ms, w.partition.deliver F faults.persist w.disk pattern label limit = (.ok ms, w') ∧
      reply = .messages ms := by
  obtain ⟨hr, hw⟩ := Prod.mk.inj h
  obtain ⟨ms, hms, rfl⟩ := result_of_map hr
  exact ⟨ms, Prod.ext hms hw, rfl⟩

theorem prune_of_call {policy : RetentionPolicy} {now : Nat}
    (h : w.call F stateDir faults (.prune policy now) = (.ok reply, w')) :
    ∃ count, w.partition.prune F faults.prune w.disk policy now = (.ok count, w') ∧
      reply = .removed count := by
  obtain ⟨hr, hw⟩ := Prod.mk.inj h
  obtain ⟨count, hcount, rfl⟩ := result_of_map hr
  exact ⟨count, Prod.ext hcount hw, rfl⟩

theorem open_of_call (h : w.call F stateDir faults .reopen = (.ok reply, w')) :
    World.open F faults.openFault stateDir w.partition.name w.disk = .ok w' ∧ reply = .opened := by
  simp only [World.call] at h
  split at h
  · obtain ⟨hr, rfl⟩ := Prod.mk.inj h
    exact ⟨‹_›, (Except.ok.inj hr).symm⟩
  · cases h

end Inversion

/-! ## Runs -/

/-- A successful call. -/
structure Event where
  call : Call
  reply : Reply

def Call.posts : Call → List Message
  | .publish message => [message]
  | _ => []

namespace Event

def posts (e : Event) : List Message := e.call.posts

/-- What a delivery handed out. -/
def handed (e : Event) : List Message :=
  match e.call, e.reply with
  | .deliver _ _ _, .messages ms => ms
  | _, _ => []

/-- What a delivery under such a pattern and label handed out. -/
def handedWhen (q : Pattern → String → Bool) (e : Event) : List Message :=
  match e.call with
  | .deliver pattern label _ => if q pattern label then e.handed else []
  | _ => []

end Event

def posted (es : List Event) : List Message := es.flatMap Event.posts

/-- Everything handed out to a label, call by call. -/
def returnedTo (label : String) (es : List Event) : List Message :=
  es.flatMap (Event.handedWhen fun _ label' => decide (label' = label))

/-- Everything handed out under a pattern string, call by call. -/
def returnedUnder (pattern : String) (es : List Event) : List Message :=
  es.flatMap (Event.handedWhen fun pattern' _ => decide (pattern'.asStr = pattern))

/-- Everything handed out, call by call. -/
def returned (es : List Event) : List Message := es.flatMap Event.handed

/-- Neither of the partition's files exists. -/
def Fresh (stateDir : Path) (name : PartitionName) (disk : Disk) : Prop :=
  disk[logPath stateDir name]? = none ∧ disk[cursorPath stateDir name]? = none

def runs (F : Formats) (stateDir : Path) (name : PartitionName) (allowed : Call → Prop) :
    System World Event where
  init w := ∃ disk, Fresh stateDir name disk ∧ World.open F none stateDir name disk = .ok w
  step es w e w' := allowed e.call ∧ (∀ m ∈ e.posts, ∀ m' ∈ posted es, m'.id < m.id) ∧
    w.call F stateDir noFaults e.call = (.ok e.reply, w')

/-- Publish and deliver calls only. -/
def Call.isPublishOrDeliver : Call → Prop
  | .publish _ => True
  | .deliver _ _ _ => True
  | _ => False

/-- Publish, deliver and prune calls only. -/
def Call.isOnline : Call → Prop
  | .publish _ => True
  | .deliver _ _ _ => True
  | .prune _ _ => True
  | _ => False

end AgentBus
