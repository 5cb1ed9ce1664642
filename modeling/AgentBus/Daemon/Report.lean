import Mathlib.Data.String.Basic
import AgentBus.Daemon.State

/-!
# Status and metrics reports

What `status` and `metrics` show of a daemon's state. Ids stand for their text.
-/

namespace AgentBus

open Lib

/-! ## One partition -/

/-- One delivery position. -/
structure PatternReport where
  key : String
  label : String
  broadcast : Bool
  cursor : Ulid
  lag : Nat
  snapped : Bool

namespace Partition

def messageCount (p : Partition) : Nat := p.log.messages.length

def oldestAgeSecs (p : Partition) (now : Nat) : Option Nat :=
  p.log.messages.head?.map fun m => m.ageSecs now

/-- The exclusive positions, then the broadcast ones. A stored pattern that no longer parses has no
lag. -/
def patternSnapshots (p : Partition) : List PatternReport :=
  (p.cursors.exclusive.toList.map fun (pattern, cursor) => {
    key := pattern
    label := (p.labels[pattern]?).getD ""
    broadcast := false
    cursor
    lag := match Pattern.parse pattern with
      | .error _ => 0
      | .ok parsed => ((p.log.messagesAfter (some cursor)).filter fun m =>
          !m.broadcast && parsed.matchesTopic m.topic).length
    snapped := p.snapped.contains ("exclusive:" ++ pattern) }) ++
  p.cursors.broadcast.toList.map fun (label, cursor) => {
    key := label
    label
    broadcast := true
    cursor
    lag := ((p.log.messagesAfter (some cursor)).filter fun m => m.broadcast).length
    snapped := p.snapped.contains ("broadcast:" ++ label) }

end Partition

/-! ## Status -/

structure PartitionReport where
  name : String
  messageCount : Nat
  oldestAgeSecs : Option Nat
  patterns : List PatternReport
  skippedRecords : Nat

structure StatusReport where
  pid : Nat
  uptimeSecs : Nat
  /-- Filled in by the server. -/
  socketPath : Path
  partitions : List PartitionReport

def buildStatus (s : BusState) (pid now instant : Nat) : StatusReport where
  pid
  uptimeSecs := s.uptimeSecs instant
  socketPath := ""
  partitions := s.partitions.values.map fun p => {
    name := p.name.asStr
    messageCount := p.messageCount
    oldestAgeSecs := p.oldestAgeSecs now
    patterns := p.patternSnapshots
    skippedRecords := p.log.skippedRecords }

/-! ## Metrics -/

/-- Sums over the partitions, `u64` in the source, and assumed to stay below `2 ^ 64`. -/
structure MetricsTotals where
  posts : Nat
  deliveries : Nat
  bytesPosted : Nat
  postsHigh : Nat
  postsBroadcast : Nat
  pruned : Nat
  skipped : Nat
  snapped : Nat

structure PartitionMetrics where
  name : String
  messageCount : Nat
  oldestAgeSecs : Option Nat
  undeliveredLag : Nat
  participants : Nat
  posts : Nat
  deliveries : Nat
  bytes : Nat
  pruned : Nat
  skipped : Nat
  snapped : Nat

structure TopicCount where
  topic : String
  count : Nat
  totalBytes : Nat

structure ConsumerLag where
  label : String
  partition : String
  pattern : String
  broadcast : Bool
  lag : Nat

structure MetricsReport where
  pid : Nat
  uptimeSecs : Nat
  pollAtMs : Nat
  totals : MetricsTotals
  latencyBucketsMs : List Nat
  latencyHistogramMs : List Nat
  sizeBucketsBytes : List Nat
  sizeHistogramBytes : List Nat
  activeWaiters : Nat
  activeFollowers : Nat
  partitions : List PartitionMetrics
  publishers : List String
  topTopics : List TopicCount
  topConsumers : List ConsumerLag

/-- What a report reads besides the state. -/
structure ReportReadings where
  pid : Nat
  instant : Nat
  secs : Nat
  millis : Nat
  activeWaiters : Nat
  activeFollowers : Nat
  /-- The order in which the hash map of topics is walked. -/
  hashOrder : List TopicCount → List TopicCount

def metricsTotals (ps : List Partition) : MetricsTotals where
  posts := (ps.map fun p => p.tally.posts).sum
  deliveries := (ps.map fun p => p.tally.deliveries).sum
  bytesPosted := (ps.map fun p => p.tally.bytes).sum
  postsHigh := (ps.map fun p => p.tally.postsHigh).sum
  postsBroadcast := (ps.map fun p => p.tally.postsBroadcast).sum
  pruned := (ps.map fun p => p.tally.pruned).sum
  skipped := (ps.map fun p => p.log.skippedRecords).sum
  snapped := (ps.map fun p => p.tally.snapped).sum

/-- The distinct senders. -/
def publishersOf (ms : List Message) : Finset String := (ms.map fun m => m.from).toFinset

def partitionMetrics (now : Nat) (p : Partition) : PartitionMetrics where
  name := p.name.asStr
  messageCount := p.messageCount
  oldestAgeSecs := p.oldestAgeSecs now
  undeliveredLag := (p.patternSnapshots.map PatternReport.lag).sum
  participants := (publishersOf p.log.messages).card
  posts := p.tally.posts
  deliveries := p.tally.deliveries
  bytes := p.tally.bytes
  pruned := p.tally.pruned
  skipped := p.log.skippedRecords
  snapped := p.tally.snapped

def topicCounts (ms : List Message) : List TopicCount :=
  (ms.map fun m => m.topic.asStr).dedup.map fun topic =>
    let posted := ms.filter fun m => m.topic.asStr == topic
    { topic, count := posted.length, totalBytes := (posted.map fun m => m.body.utf8ByteSize).sum }

/-- By count, then by bytes; the first ten. -/
def topTopics (counts : List TopicCount) : List TopicCount :=
  (counts.insertionSort fun a b =>
    b.count < a.count ∨ b.count = a.count ∧ b.totalBytes ≤ a.totalBytes).take 10

def consumerLags (p : Partition) : List ConsumerLag :=
  p.patternSnapshots.map fun snap => {
    label := snap.label
    partition := p.name.asStr
    pattern := snap.key
    broadcast := snap.broadcast
    lag := snap.lag }

/-- By lag; the first ten. -/
def topConsumers (ps : List Partition) : List ConsumerLag :=
  ((ps.flatMap consumerLags).insertionSort fun a b => b.lag ≤ a.lag).take 10

def buildMetrics (s : BusState) (r : ReportReadings) : MetricsReport :=
  let ps := s.partitions.values
  let messages := ps.flatMap fun p => p.log.messages
  { pid := r.pid
    uptimeSecs := s.uptimeSecs r.instant
    pollAtMs := r.millis
    totals := metricsTotals ps
    latencyBucketsMs
    latencyHistogramMs := s.busTally.latencyHist.cells
    sizeBucketsBytes
    sizeHistogramBytes := s.busTally.sizeHist.cells
    activeWaiters := r.activeWaiters
    activeFollowers := r.activeFollowers
    partitions := ps.map (partitionMetrics r.secs)
    publishers := (publishersOf messages).sort (· ≤ ·)
    topTopics := topTopics (r.hashOrder (topicCounts messages))
    topConsumers := topConsumers ps }

end AgentBus
