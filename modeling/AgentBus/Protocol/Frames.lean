import AgentBus.Core.Reference
import AgentBus.Daemon.Handler
import AgentBus.Lib.JsonCodec

/-!
# The frames between the daemon and its clients

Requests and responses are enumerations that name their variant in the member
`type`. Numbers of the daemon are 64 bits wide, process ids 32. Responses carry
texts where the daemon has ids and errors.
-/

namespace AgentBus.Protocol

open Lib

/-! ## Requests -/

def priority : Codec Priority where
  encode p := .string p.name
  decode j := j.asUnitVariant.bind Priority.ofName
  Fits _ := True
  depth := 0
  printable _ := .string _
  decode_encode {p} _ := Priority.ofName_name p

def optionalString : Codec (Option String) := Codec.string.nullable nofun

def optionalSecs : Codec (Option Nat) := (Codec.unsigned 64 (by decide)).nullable nofun

def patternAndLabel : Fields (String × String × Unit) :=
  .cons "pattern" .string .refused (.cons "label" .string .refused .nil)

namespace RequestVariant

def «ensure» : Variant Request :=
  ⟨"ensure", _, .cons "pattern" .string .refused .nil, fun (pattern, _) => .ensure pattern⟩

/-- Older clients do not say whether a message is a broadcast. -/
def post : Variant Request :=
  ⟨"post", _, .cons "topic" .string .refused <| .cons "body" .string .refused <|
      .cons "priority" priority .refused <| .cons "from" optionalString (.optional none) <|
      .cons "broadcast" .bool (.defaulted false) .nil,
    fun (topic, body, priority, sender, broadcast, _) => .post topic body priority sender broadcast⟩

def wait : Variant Request :=
  ⟨"wait", _, .cons "pattern" .string .refused <| .cons "label" .string .refused <|
      .cons "timeout_secs" optionalSecs (.optional none) .nil,
    fun (pattern, label, timeoutSecs, _) => .wait pattern label timeoutSecs⟩

def read : Variant Request :=
  ⟨"read", _, patternAndLabel, fun (pattern, label, _) => .read pattern label⟩

def follow : Variant Request :=
  ⟨"follow", _, patternAndLabel, fun (pattern, label, _) => .follow pattern label⟩

def history : Variant Request :=
  ⟨"history", _, .cons "pattern" .string .refused <|
    .cons "since_secs" optionalSecs (.optional none) .nil,
    fun (pattern, sinceSecs, _) => .history pattern sinceSecs⟩

def status : Variant Request := ⟨"status", _, .nil, fun _ => .status⟩

def metrics : Variant Request := ⟨"metrics", _, .nil, fun _ => .metrics⟩

def stop : Variant Request := ⟨"stop", _, .nil, fun _ => .stop⟩

def all : List (Variant Request) :=
  [«ensure», post, wait, read, follow, history, status, metrics, stop]

def unpack : Request → Σ v : Variant Request, v.ρ
  | .ensure pattern => ⟨«ensure», pattern, ()⟩
  | .post topic body priority sender broadcast =>
    ⟨post, topic, body, priority, sender, broadcast, ()⟩
  | .wait pattern label timeoutSecs => ⟨wait, pattern, label, timeoutSecs, ()⟩
  | .read pattern label => ⟨read, pattern, label, ()⟩
  | .follow pattern label => ⟨follow, pattern, label, ()⟩
  | .history pattern sinceSecs => ⟨history, pattern, sinceSecs, ()⟩
  | .status => ⟨status, ()⟩
  | .metrics => ⟨metrics, ()⟩
  | .stop => ⟨stop, ()⟩

end RequestVariant

def requests : Tagged Request where
  tag := "type"
  variants := RequestVariant.all
  unpack := RequestVariant.unpack
  names := by decide
  fields := by decide
  mem q := by cases q <;> simp [RequestVariant.all, RequestVariant.unpack]
  pack_unpack q := by cases q <;> rfl

def request : Codec Request := requests.codec 0 (by decide)

/-! ## Reports -/

/-- `usize`, too, is 64 bits wide. -/
def number : Codec Nat := .unsigned 64 (by decide)

structure PatternReport where
  key : String
  label : String
  broadcast : Bool
  cursor : String
  lag : Nat
  snapped : Bool

structure PartitionReport where
  name : String
  messageCount : Nat
  oldestAgeSecs : Option Nat
  patterns : List PatternReport
  skippedRecords : Nat

structure StatusReport where
  pid : Nat
  uptimeSecs : Nat
  socketPath : String
  partitions : List PartitionReport

def patternReport : Codec PatternReport :=
  .record (.cons "key" .string .refused <| .cons "label" .string .refused <|
    .cons "broadcast" .bool .refused <| .cons "cursor" .string .refused <|
    .cons "lag" number .refused <| .cons "snapped" .bool .refused .nil)
    (by decide) (fun p => (p.key, p.label, p.broadcast, p.cursor, p.lag, p.snapped, ()))
    (fun (key, label, broadcast, cursor, lag, snapped, _) =>
      { key, label, broadcast, cursor, lag, snapped })
    fun _ => rfl

def partitionReport : Codec PartitionReport :=
  .record (.cons "name" .string .refused <| .cons "message_count" number .refused <|
      .cons "oldest_age_secs" optionalSecs (.optional none) <|
      .cons "patterns" patternReport.list .refused <|
      .cons "skipped_records" number .refused .nil)
    (by decide)
    (fun p => (p.name, p.messageCount, p.oldestAgeSecs, p.patterns, p.skippedRecords, ()))
    (fun (name, messageCount, oldestAgeSecs, patterns, skippedRecords, _) =>
      { name, messageCount, oldestAgeSecs, patterns, skippedRecords })
    fun _ => rfl

def statusReport : Codec StatusReport :=
  .record (.cons "pid" (.unsigned 32 (by decide)) .refused <| .cons "uptime_secs" number .refused <|
      .cons "socket_path" .string .refused <|
      .cons "partitions" partitionReport.list .refused .nil)
    (by decide) (fun s => (s.pid, s.uptimeSecs, s.socketPath, s.partitions, ()))
    (fun (pid, uptimeSecs, socketPath, partitions, _) =>
      { pid, uptimeSecs, socketPath, partitions })
    fun _ => rfl

def metricsTotals : Codec MetricsTotals :=
  .record (.cons "posts" number .refused <| .cons "deliveries" number .refused <|
      .cons "bytes_posted" number .refused <| .cons "posts_high" number .refused <|
      .cons "posts_broadcast" number .refused <| .cons "pruned" number .refused <|
      .cons "skipped" number .refused <| .cons "snapped" number .refused .nil)
    (by decide)
    (fun t => (t.posts, t.deliveries, t.bytesPosted, t.postsHigh, t.postsBroadcast, t.pruned,
      t.skipped, t.snapped, ()))
    (fun (posts, deliveries, bytesPosted, postsHigh, postsBroadcast, pruned, skipped, snapped, _) =>
      { posts, deliveries, bytesPosted, postsHigh, postsBroadcast, pruned, skipped, snapped })
    fun _ => rfl

def partitionMetrics : Codec PartitionMetrics :=
  .record (.cons "name" .string .refused <| .cons "message_count" number .refused <|
      .cons "oldest_age_secs" optionalSecs (.optional none) <|
      .cons "undelivered_lag" number .refused <| .cons "participants" number .refused <|
      .cons "posts" number .refused <| .cons "deliveries" number .refused <|
      .cons "bytes" number .refused <| .cons "pruned" number .refused <|
      .cons "skipped" number .refused <| .cons "snapped" number .refused .nil)
    (by decide)
    (fun p => (p.name, p.messageCount, p.oldestAgeSecs, p.undeliveredLag, p.participants,
      p.posts, p.deliveries, p.bytes, p.pruned, p.skipped, p.snapped, ()))
    (fun (name, messageCount, oldestAgeSecs, undeliveredLag, participants, posts, deliveries, bytes,
        pruned, skipped, snapped, _) =>
      { name, messageCount, oldestAgeSecs, undeliveredLag, participants, posts, deliveries, bytes,
        pruned, skipped, snapped })
    fun _ => rfl

def topicCount : Codec TopicCount :=
  .record (.cons "topic" .string .refused <| .cons "count" number .refused <|
      .cons "total_bytes" number .refused .nil)
    (by decide) (fun t => (t.topic, t.count, t.totalBytes, ()))
    (fun (topic, count, totalBytes, _) => { topic, count, totalBytes }) fun _ => rfl

def consumerLag : Codec ConsumerLag :=
  .record (.cons "label" .string .refused <| .cons "partition" .string .refused <|
      .cons "pattern" .string .refused <| .cons "broadcast" .bool .refused <|
      .cons "lag" number .refused .nil)
    (by decide) (fun c => (c.label, c.partition, c.pattern, c.broadcast, c.lag, ()))
    (fun (label, partition, pattern, broadcast, lag, _) =>
      { label, partition, pattern, broadcast, lag })
    fun _ => rfl

def metricsReport : Codec MetricsReport :=
  .record (.cons "pid" (.unsigned 32 (by decide)) .refused <| .cons "uptime_secs" number .refused <|
      .cons "poll_at_ms" number .refused <| .cons "totals" metricsTotals .refused <|
      .cons "latency_buckets_ms" number.list .refused <|
      .cons "latency_histogram_ms" number.list .refused <|
      .cons "size_buckets_bytes" number.list .refused <|
      .cons "size_histogram_bytes" number.list .refused <| .cons "active_waiters" number .refused <|
      .cons "active_followers" number .refused <|
      .cons "partitions" partitionMetrics.list .refused <|
      .cons "publishers" Codec.string.list .refused <|
      .cons "top_topics" topicCount.list .refused <|
      .cons "top_consumers" consumerLag.list .refused .nil)
    (by decide)
    (fun m => (m.pid, m.uptimeSecs, m.pollAtMs, m.totals, m.latencyBucketsMs, m.latencyHistogramMs,
      m.sizeBucketsBytes, m.sizeHistogramBytes, m.activeWaiters, m.activeFollowers,
      m.partitions, m.publishers, m.topTopics, m.topConsumers, ()))
    (fun (pid, uptimeSecs, pollAtMs, totals, latencyBucketsMs, latencyHistogramMs, sizeBucketsBytes,
        sizeHistogramBytes, activeWaiters, activeFollowers, partitions, publishers, topTopics,
        topConsumers, _) =>
      { pid, uptimeSecs, pollAtMs, totals, latencyBucketsMs, latencyHistogramMs, sizeBucketsBytes,
        sizeHistogramBytes, activeWaiters, activeFollowers, partitions, publishers, topTopics,
        topConsumers })
    fun _ => rfl

/-! ## Responses -/

inductive Response where
  | ok
  | ensured (partition : String) (alreadyRunning : Bool)
  | posted (id ts : String)
  | messages (messages : List Message)
  | timeout
  | status (status : StatusReport)
  | metrics (metrics : MetricsReport)
  | error (message : String)

section Messages

variable (F : Formats) (hF : F.Faithful)

/-- Messages travel as the log records do. -/
def message : Codec Message where
  encode m := m.toJson F
  decode := Message.ofJson F
  Fits _ := True
  depth := 1
  printable {m} _ := (m.toJson_plain F 0).printable
  decode_encode {m} _ := Message.ofMembers_members hF.ulidFromString_ulidToString m

namespace ResponseVariant

def ok : Variant Response := ⟨"ok", _, .nil, fun _ => .ok⟩

def ensured : Variant Response :=
  ⟨"ensured", _, .cons "partition" .string .refused <| .cons "already_running" .bool .refused .nil,
    fun (partition, alreadyRunning, _) => .ensured partition alreadyRunning⟩

/-- Older daemons do not say when a message was stamped. -/
def posted : Variant Response :=
  ⟨"posted", _, .cons "id" .string .refused <| .cons "ts" .string (.defaulted "") .nil,
    fun (id, ts, _) => .posted id ts⟩

def messages : Variant Response :=
  ⟨"messages", _, .cons "messages" (message F hF).list .refused .nil, fun (ms, _) => .messages ms⟩

def timeout : Variant Response := ⟨"timeout", _, .nil, fun _ => .timeout⟩

def status : Variant Response :=
  ⟨"status", _, .cons "status" statusReport .refused .nil, fun (s, _) => .status s⟩

def metrics : Variant Response :=
  ⟨"metrics", _, .cons "metrics" metricsReport .refused .nil, fun (m, _) => .metrics m⟩

def error : Variant Response :=
  ⟨"error", _, .cons "message" .string .refused .nil, fun (message, _) => .error message⟩

def all : List (Variant Response) :=
  [ok, ensured, posted, messages F hF, timeout, status, metrics, error]

def unpack : Response → Σ v : Variant Response, v.ρ
  | .ok => ⟨ok, ()⟩
  | .ensured partition alreadyRunning => ⟨ensured, partition, alreadyRunning, ()⟩
  | .posted id ts => ⟨posted, id, ts, ()⟩
  | .messages ms => ⟨messages F hF, ms, ()⟩
  | .timeout => ⟨timeout, ()⟩
  | .status s => ⟨status, s, ()⟩
  | .metrics m => ⟨metrics, m, ()⟩
  | .error message => ⟨error, message, ()⟩

end ResponseVariant

theorem ResponseVariant.forall_all {P : Variant Response → Prop} (hok : P ok) (hensured : P ensured)
    (hposted : P posted) (hmessages : P (messages F hF)) (htimeout : P timeout) (hstatus : P status)
    (hmetrics : P metrics) (herror : P error) : ∀ v ∈ all F hF, P v := by
  simp [all, hok, hensured, hposted, hmessages, htimeout, hstatus, hmetrics, herror]

def responses : Tagged Response where
  tag := "type"
  variants := ResponseVariant.all F hF
  unpack := ResponseVariant.unpack F hF
  names := (by decide :
    ["ok", "ensured", "posted", "messages", "timeout", "status", "metrics", "error"].Nodup)
  fields := ResponseVariant.forall_all F hF (by decide) (by decide) (by decide)
    (by decide : ["type", "messages"].Nodup) (by decide) (by decide) (by decide) (by decide)
  mem q := by cases q <;> simp [ResponseVariant.all, ResponseVariant.unpack]
  pack_unpack q := by cases q <;> rfl

/-- A status is nested deepest. -/
theorem responses_depth : ∀ v ∈ (responses F hF).variants, v.fields.depth ≤ 5 :=
  ResponseVariant.forall_all F hF (by decide) (by decide) (by decide)
    (by decide : max 2 0 ≤ 5) (by decide)
    (by decide) (by decide) (by decide)

def response : Codec Response := (responses F hF).codec 5 (responses_depth F hF)

end Messages

end AgentBus.Protocol
