import AgentBus.Daemon.Report
import AgentBus.Daemon.World

/-!
# Requests

`dispatch` handles one request against the daemon's state, under the lock. A
`wait` that finds nothing, and a `follow`, are left to the connection.
-/

namespace AgentBus

open Lib

inductive Request where
  | ensure (pattern : String)
  | post (topic body : String) (priority : Priority) («from» : Option String) (broadcast : Bool)
  | wait (pattern label : String) (timeoutSecs : Option Nat)
  | read (pattern label : String)
  | follow (pattern label : String)
  | history (pattern : String) (sinceSecs : Option Nat)
  | status
  | metrics
  | stop

/-- An error of the domain or of a partition's files; a response carries its text. -/
inductive BusError where
  | core (e : CoreError)
  | failure (e : Failure)

inductive Response where
  | ok
  | ensured (partition : String) (alreadyRunning : Bool)
  | posted (id : Ulid) (ts : String)
  | messages (ms : List Message)
  | timeout
  | status (report : StatusReport)
  | metrics (report : MetricsReport)
  | error (e : BusError)

inductive Dispatch where
  | reply (response : Response)
  | waitPending (partition : String) (pattern : Pattern) (label : String) (timeoutSecs : Option Nat)
  | followPending (partition : String) (pattern : Pattern) (label : String)
  | shutdown

/-- What the clocks and the id generator give while a request is handled. -/
structure Readings where
  /-- The monotonic clock, on each reading. -/
  instant : Nat → Nat
  id : Ulid
  ts : String
  secs : Nat
  /-- The wall clock in milliseconds, on each reading. -/
  millis : Nat → Nat
  pid : Nat
  activeWaiters : Nat
  activeFollowers : Nat
  hashOrder : List TopicCount → List TopicCount

/-- Each message of a batch, at its own reading of the clock. -/
def BusState.recordLatency (s : BusState) (millis : Nat → Nat) : List Message → BusState
  | [] => s
  | m :: ms => (s.recordDeliveryLatency (millis 0) m.id.timestampMs).recordLatency
      (fun n => millis (n + 1)) ms

namespace Bus

variable (F : Formats)

/-- Parse a pattern and open the partition it names. -/
def resolve (fault : Option Partition.OpenFault) (b : Bus) (pattern : String) :
    Except BusError (Pattern × PartitionName × Partition) × Bus :=
  match Pattern.parse pattern with
  | .error e => (.error (.core e), b)
  | .ok parsed =>
    match PartitionName.parse parsed.partition with
    | .error e => (.error (.core e), b)
    | .ok name =>
      match b.partitionMut F fault name with
      | (.error e, b) => (.error (.failure e), b)
      | (.ok p, b) => (.ok (parsed, name, p), b)

/-- A delivery from a partition of the bus. -/
def deliver (fault : Option Partition.PersistFault) (b : Bus) (name : PartitionName) (p : Partition)
    (pattern : Pattern) (label : String) (limit : UInt64) : Except Failure (List Message) × Bus :=
  let (result, w) := p.deliver F fault b.disk pattern label limit
  (result, b.put name.asStr w)

def recordLatency (b : Bus) (millis : Nat → Nat) (batch : List Message) : Bus :=
  { b with state := b.state.recordLatency millis batch }

def recordPost (b : Bus) (bodyBytes : Nat) : Bus :=
  { b with state := { b.state with busTally := b.state.busTally.recordPost bodyBytes } }

def ensure (faults : Faults) (b : Bus) (pattern : String) : Dispatch × Bus :=
  match Pattern.parse pattern with
  | .error e => (.reply (.error (.core e)), b)
  | .ok parsed =>
    match PartitionName.parse parsed.partition with
    | .error e => (.reply (.error (.core e)), b)
    | .ok name =>
      -- sampled before the partition is created
      let alreadyRunning := b.state.partitionExists name.asStr
      match b.partitionMut F faults.openFault name with
      | (.error e, b) => (.reply (.error (.failure e)), b)
      | (.ok _, b) => (.reply (.ensured name.asStr alreadyRunning), b)

def post (faults : Faults) (r : Readings) (b : Bus) (topic body : String) (priority : Priority)
    («from» : Option String) (broadcast : Bool) : Dispatch × Bus :=
  match Topic.parse topic with
  | .error e => (.reply (.error (.core e)), b)
  | .ok topic =>
    match PartitionName.parse topic.partition with
    | .error e => (.reply (.error (.core e)), b)
    | .ok name =>
      let message := Message.new r.id r.ts topic body priority «from»
      let message := if broadcast then message.asBroadcast else message
      match b.partitionMut F faults.openFault name with
      | (.error e, b) => (.reply (.error (.failure e)), b)
      | (.ok p, b) =>
        match p.publish F faults.append b.disk message with
        | (.error e, w) => (.reply (.error (.failure e)), b.put name.asStr w)
        | (.ok id, w) =>
          (.reply (.posted id r.ts), (b.put name.asStr w).recordPost body.utf8ByteSize)

/-- A message may have been posted before the wait began. -/
def wait (faults : Faults) (r : Readings) (b : Bus) (pattern label : String)
    (timeoutSecs : Option Nat) : Dispatch × Bus :=
  match b.resolve F faults.openFault pattern with
  | (.error e, b) => (.reply (.error e), b)
  | (.ok (pattern, name, p), b) =>
    match b.deliver F faults.persist name p pattern label 1 with
    | (.error e, b) => (.reply (.error (.failure e)), b)
    | (.ok [], b) => (.waitPending p.name.asStr pattern label timeoutSecs, b)
    | (.ok batch, b) => (.reply (.messages batch), b.recordLatency r.millis batch)

def read (faults : Faults) (r : Readings) (b : Bus) (pattern label : String) : Dispatch × Bus :=
  match b.resolve F faults.openFault pattern with
  | (.error e, b) => (.reply (.error e), b)
  | (.ok (pattern, name, p), b) =>
    match b.deliver F faults.persist name p pattern label usizeMax with
    | (.error e, b) => (.reply (.error (.failure e)), b)
    | (.ok batch, b) => (.reply (.messages batch), b.recordLatency r.millis batch)

def follow (faults : Faults) (b : Bus) (pattern label : String) : Dispatch × Bus :=
  match b.resolve F faults.openFault pattern with
  | (.error e, b) => (.reply (.error e), b)
  | (.ok (pattern, _, p), b) => (.followPending p.name.asStr pattern label, b)

def history (faults : Faults) (r : Readings) (b : Bus) (pattern : String) (sinceSecs : Option Nat) :
    Dispatch × Bus :=
  match b.resolve F faults.openFault pattern with
  | (.error e, b) => (.reply (.error e), b)
  | (.ok (pattern, _, p), b) => (.reply (.messages (p.history pattern sinceSecs r.secs)), b)

/-- What each kind of request does. -/
def arm (faults : Faults) (r : Readings) (b : Bus) : Request → Dispatch × Bus
  | .ensure pattern => b.ensure F faults pattern
  | .post topic body priority «from» broadcast =>
    b.post F faults r topic body priority «from» broadcast
  | .wait pattern label timeoutSecs => b.wait F faults r pattern label timeoutSecs
  | .read pattern label => b.read F faults r pattern label
  | .follow pattern label => b.follow F faults pattern label
  | .history pattern sinceSecs => b.history F faults r pattern sinceSecs
  | .status => (.reply (.status (buildStatus b.state r.pid r.secs (r.instant 1))), b)
  | .metrics =>
    (.reply (.metrics (buildMetrics b.state
      ⟨r.pid, r.instant 1, r.secs, r.millis 0, r.activeWaiters, r.activeFollowers, r.hashOrder⟩)),
      b)
  | .stop => (.shutdown, b)

def touch (b : Bus) (now : Nat) : Bus := { b with state := b.state.touch now }

/-- Any request counts as activity. -/
def dispatch (faults : Faults) (r : Readings) (b : Bus) (q : Request) : Dispatch × Bus :=
  (b.touch (r.instant 0)).arm F faults r q

end Bus

end AgentBus
