import AgentBus.Daemon.Handler
import AgentBus.Daemon.Server

/-!
# Connection tasks

A connection reads requests and has them dispatched. A wait or a follow that
`dispatch` leaves to it is served by a function of its own, whose guard counts
the client as parked from the call to the return. A step of a connection is one
section under the lock, one change of a counter, or one await that ends.
-/

namespace AgentBus

open Lib

deriving instance DecidableEq for TaskKind

def defaultWaitTimeoutSecs : Nat := 1800

def maxWaitTimeoutSecs : Nat := 48 * 60 * 60

/-- A wait or a follow that `dispatch` accepted. -/
structure Parked where
  kind : TaskKind
  partition : String
  pattern : Pattern
  label : String
  /-- How long a wait may take. -/
  timeoutSecs : Option Nat

/-- A place on a partition's signal channel. -/
structure Subscription where
  name : PartitionName
  /-- How many of the partition's signals lie behind the receiver. -/
  received : Nat
  /-- When a wait gives up. -/
  deadline : Option Nat

/-- What is written to the client. -/
inductive Answer where
  | response (r : Response)
  /-- The line was no request. -/
  | malformed
  /-- A stream that broke, for an error of the domain or because the client is gone. -/
  | followFailed (e : Option BusError)

inductive Connection where
  /-- Waiting for a line. -/
  | reading
  /-- Writing an answer, which ends the parked request of this kind, if any. -/
  | answering (answer : Answer) (ends : Option TaskKind)
  /-- Writing the answer to a stop request. -/
  | stopping
  /-- Sending the shutdown signal. -/
  | signalling
  /-- `dispatch` has accepted a request that is not parked yet. -/
  | accepted (p : Parked)
  /-- Counted, but not subscribed yet. -/
  | entered (p : Parked)
  | checking (p : Parked) (place : Subscription)
  | blocked (p : Parked) (place : Subscription)
  /-- A follow whose batch has no latencies recorded yet. -/
  | delivered (p : Parked) (place : Subscription) (batch : List Message)
  /-- A follow that writes a batch. -/
  | streaming (p : Parked) (place : Subscription) (batch : List Message)
  /-- Returning, still counted. -/
  | leaving (kind : TaskKind) (answer : Answer)
  | closed

/-- What the tasks of a daemon share. -/
structure Shared where
  bus : Bus
  activeWaiters : Nat
  activeFollowers : Nat
  /-- Shutdown signals sent. -/
  shutdowns : Nat

namespace Shared

/-- The guard of a parked request is created. -/
def enter (sh : Shared) : TaskKind → Shared
  | .wait => { sh with activeWaiters := sh.activeWaiters + 1 }
  | .follow => { sh with activeFollowers := sh.activeFollowers + 1 }

/-- The guard is dropped. -/
def leave (sh : Shared) : TaskKind → Shared
  | .wait => { sh with activeWaiters := sh.activeWaiters - 1 }
  | .follow => { sh with activeFollowers := sh.activeFollowers - 1 }

@[simp] theorem bus_enter (sh : Shared) (kind : TaskKind) : (sh.enter kind).bus = sh.bus := by
  cases kind <;> rfl

@[simp] theorem bus_leave (sh : Shared) (kind : TaskKind) : (sh.leave kind).bus = sh.bus := by
  cases kind <;> rfl

/-- Clock readings together with the counters as they are. -/
def readings (sh : Shared) (r : Readings) : Readings :=
  { r with activeWaiters := sh.activeWaiters, activeFollowers := sh.activeFollowers }

end Shared

/-- The server fills in its socket. -/
def Response.withSocket (socket : Path) : Response → Response
  | .status report => .status { report with socketPath := socket }
  | response => response

namespace Parked

/-- The call ends with an error. -/
def fail (p : Parked) (e : BusError) : Connection :=
  match p.kind with
  | .wait => .leaving .wait (.response (.error e))
  | .follow => .leaving .follow (.followFailed (some e))

variable (F : Formats)

/-- The section that takes a place on the signal channel. -/
def subscribe (fault : Option Partition.OpenFault) (now : Nat) (p : Parked) (b : Bus) :
    Connection × Bus :=
  match PartitionName.parse p.partition with
  | .error e => (p.fail (.core e), b)
  | .ok name =>
    match b.partitionMut F fault name with
    | (.error e, b) => (p.fail (.failure e), b)
    | (.ok q, b) =>
      (.checking p ⟨name, q.notify, p.timeoutSecs.map fun t => now + t * 1000000000⟩, b)

/-- The check of a wait: a delivery that fails is taken for one that finds nothing. -/
def waitForMessage (faults : Faults) (p : Parked) (place : Subscription) (b : Bus) :
    Connection × Bus :=
  match b.partitionMut F faults.openFault place.name with
  | (.error e, b) => (p.fail (.failure e), b)
  | (.ok q, b) =>
    match b.deliver F faults.persist place.name q p.pattern p.label TaskKind.wait.limit with
    | (.ok (m :: _), b) => (.leaving .wait (.response (.messages [m])), b)
    | (_, b) => (.blocked p place, b)

/-- The check of a follow. -/
def follow (faults : Faults) (p : Parked) (place : Subscription) (b : Bus) : Connection × Bus :=
  match b.partitionMut F faults.openFault place.name with
  | (.error e, b) => (p.fail (.failure e), b)
  | (.ok q, b) =>
    match b.deliver F faults.persist place.name q p.pattern p.label TaskKind.follow.limit with
    | (.error e, b) => (p.fail (.failure e), b)
    | (.ok [], b) => (.blocked p place, b)
    | (.ok batch, b) => (.delivered p place batch, b)

def check (faults : Faults) (p : Parked) (place : Subscription) (b : Bus) : Connection × Bus :=
  match p.kind with
  | .wait => p.waitForMessage F faults place b
  | .follow => p.follow F faults place b

end Parked

namespace Connection

/-- What a connection does with the outcome of its request. -/
def handle (socket : Path) : Dispatch → Connection
  | .reply response => .answering (.response (response.withSocket socket)) none
  | .shutdown => .stopping
  | .waitPending partition pattern label timeoutSecs =>
    .accepted ⟨.wait, partition, pattern, label,
      some (min (timeoutSecs.getD defaultWaitTimeoutSecs) maxWaitTimeoutSecs)⟩
  | .followPending partition pattern label => .accepted ⟨.follow, partition, pattern, label, none⟩

/-- Once an answer is written. A follow ends its connection. -/
def afterAnswer : Option TaskKind → Connection
  | some .follow => .closed
  | _ => .reading

/-- Signals that `recv` would return for. -/
def pending (b : Bus) (place : Subscription) : Nat :=
  (b.state.partitions[place.name.asStr]?).elim 0 fun q => q.notify - place.received

end Connection

inductive ConnectionEvent where
  /-- The client closes the connection, or reading from it fails. -/
  | hangUp
  | malformed
  | request (q : Request) (faults : Faults) (r : Readings)
  /-- What was being written is written. -/
  | sent
  /-- The write fails. Some bytes of the line may have gone out; the frames of a session leave them
  out. -/
  | sendFailed
  | signal
  | enter
  | subscribe (fault : Option Partition.OpenFault) (now : Nat)
  | check (faults : Faults)
  /-- The latencies of a followed batch are recorded. -/
  | record (millis : Nat → Nat)
  /-- `recv` returns: a signal, or a lag over `signals` of them. -/
  | wake (signals : Nat)
  | elapse (now : Nat)
  | leave

/-- One step of a connection, if it is possible, and what it leaves of what the tasks share. -/
def Connection.next (F : Formats) (sh : Shared) : Connection → ConnectionEvent →
    Option (Shared × Connection)
  | .reading, .hangUp => some (sh, .closed)
  | .reading, .malformed => some (sh, .answering .malformed none)
  | .reading, .request q faults r =>
    let (d, b) := sh.bus.dispatch F faults (sh.readings r) q
    some ({ sh with bus := b }, .handle (socketPath b.state.stateDir) d)
  | .answering _ ends, .sent => some (sh, .afterAnswer ends)
  | .answering _ _, .sendFailed => some (sh, .closed)
  | .stopping, .sent => some (sh, .signalling)
  | .stopping, .sendFailed => some (sh, .closed)
  | .signalling, .signal => some ({ sh with shutdowns := sh.shutdowns + 1 }, .closed)
  | .accepted p, .enter => some (sh.enter p.kind, .entered p)
  | .entered p, .subscribe fault now =>
    let (c, b) := p.subscribe F fault now sh.bus
    some ({ sh with bus := b }, c)
  | .checking p place, .check faults =>
    let (c, b) := p.check F faults place sh.bus
    some ({ sh with bus := b }, c)
  | .delivered p place batch, .record millis =>
    some ({ sh with bus := sh.bus.recordLatency millis batch }, .streaming p place batch)
  | .streaming p place _, .sent => some (sh, .checking p place)
  | .streaming p _ _, .sendFailed => some (sh, .leaving p.kind (.followFailed none))
  | .blocked p place, .wake k =>
    if 0 < k ∧ k ≤ pending sh.bus place then
      some (sh, .checking p { place with received := place.received + k })
    else none
  | .blocked p place, .elapse now =>
    if place.deadline.any (· ≤ now) then some (sh, .leaving p.kind (.response .timeout)) else none
  | .leaving kind a, .leave => some (sh.leave kind, .answering a (some kind))
  | _, _ => none

/-! ## Steps -/

/-- What one step can do. -/
inductive Connection.Step (F : Formats) (sh : Shared) :
    Connection → ConnectionEvent → Shared → Connection → Prop where
  | hangUp : Step F sh .reading .hangUp sh .closed
  | malformed : Step F sh .reading .malformed sh (.answering .malformed none)
  | request {q : Request} {faults : Faults} {r : Readings} {d : Dispatch} {b : Bus} :
      sh.bus.dispatch F faults (sh.readings r) q = (d, b) →
      Step F sh .reading (.request q faults r) { sh with bus := b }
        (.handle (socketPath b.state.stateDir) d)
  | answered {a : Answer} {ends : Option TaskKind} :
      Step F sh (.answering a ends) .sent sh (.afterAnswer ends)
  | unanswered {a : Answer} {ends : Option TaskKind} :
      Step F sh (.answering a ends) .sendFailed sh .closed
  | stopAnswered : Step F sh .stopping .sent sh .signalling
  | stopUnanswered : Step F sh .stopping .sendFailed sh .closed
  | signal : Step F sh .signalling .signal { sh with shutdowns := sh.shutdowns + 1 } .closed
  | enter {p : Parked} : Step F sh (.accepted p) .enter (sh.enter p.kind) (.entered p)
  | subscribe {p : Parked} {fault : Option Partition.OpenFault} {now : Nat}
      {c : Connection} {b : Bus} :
      p.subscribe F fault now sh.bus = (c, b) →
      Step F sh (.entered p) (.subscribe fault now) { sh with bus := b } c
  | check {p : Parked} {place : Subscription} {faults : Faults} {c : Connection} {b : Bus} :
      p.check F faults place sh.bus = (c, b) →
      Step F sh (.checking p place) (.check faults) { sh with bus := b } c
  | record {p : Parked} {place : Subscription} {batch : List Message} {millis : Nat → Nat} :
      Step F sh (.delivered p place batch) (.record millis)
        { sh with bus := sh.bus.recordLatency millis batch } (.streaming p place batch)
  | streamed {p : Parked} {place : Subscription} {batch : List Message} :
      Step F sh (.streaming p place batch) .sent sh (.checking p place)
  | unstreamed {p : Parked} {place : Subscription} {batch : List Message} :
      Step F sh (.streaming p place batch) .sendFailed sh (.leaving p.kind (.followFailed none))
  | wake {p : Parked} {place : Subscription} {k : Nat} :
      Step F sh (.blocked p place) (.wake k) sh
        (.checking p { place with received := place.received + k })
  | elapse {p : Parked} {place : Subscription} {now : Nat} :
      Step F sh (.blocked p place) (.elapse now) sh (.leaving p.kind (.response .timeout))
  | leave {kind : TaskKind} {a : Answer} :
      Step F sh (.leaving kind a) .leave (sh.leave kind) (.answering a (some kind))

theorem Connection.step_of_next {F : Formats} {sh sh' : Shared} {c c' : Connection}
    {e : ConnectionEvent} (h : c.next F sh e = some (sh', c')) : c.Step F sh e sh' c' := by
  unfold next at h
  split at h
  case h_15 | h_16 =>
    split at h
    · obtain ⟨rfl, rfl⟩ := Prod.mk.inj (Option.some.inj h)
      first | exact .wake | exact .elapse
    · cases h
  case h_18 => cases h
  all_goals
    obtain ⟨rfl, rfl⟩ := Prod.mk.inj (Option.some.inj h)
    constructor
  all_goals rfl

end AgentBus
