import AgentBus.Daemon.Acts
import AgentBus.Lib.Dialogue

/-!
# What is said on a connection

`sessions` is the daemon with the frames that pass over one of its connections:
lines that the client sent, once they are read, and answers, once they are
written. `Request.Answered` says what may be answered to a request, and
`dialogue` what passes between a line and the next.
-/

namespace AgentBus

open Lib

inductive Frame where
  /-- A request, with what the clocks gave while it was handled. -/
  | request (q : Request) (r : Readings)
  /-- A line that is no request. -/
  | malformed
  | answer (a : Answer)
  /-- A batch of a stream. -/
  | batch (ms : List Message)

/-- What a step of a connection reads or writes. -/
def Connection.frames : Connection → ConnectionEvent → List Frame
  | .reading, .request q _ r => [.request q r]
  | .reading, .malformed => [.malformed]
  | .answering a _, .sent => [.answer a]
  | .stopping, .sent => [.answer (.response .ok)]
  | .streaming _ _ batch, .sent => [.batch batch]
  | _, _ => []

/-- What a step of the daemon reads or writes on connection `i`. -/
def Service.frames (i : Nat) (s : Service) : ServiceEvent → List Frame
  | .connection j e => if j = i then (s.connections[i]?).elim [] fun c => c.frames e else []
  | _ => []

def sessions (F : Formats) (threshold : Nat) (stateDir : Path) (i : Nat) :
    System Service (ServiceEvent × List Frame) :=
  (service F threshold stateDir).watched fun s e _ => s.frames i e

/-- All frames so far. -/
def transcript (es : List (ServiceEvent × List Frame)) : List Frame := es.flatMap Prod.snd

@[simp] theorem transcript_concat (es : List (ServiceEvent × List Frame))
    (e : ServiceEvent × List Frame) : transcript (es ++ [e]) = transcript es ++ e.2 := by
  simp [transcript]

/-! ## Requests and their answers -/

/-- These requests are refused or fail only with an error of their partition. -/
def Request.mayFail : Request → Bool
  | .status => false
  | .metrics => false
  | .stop => false
  | _ => true

/-- The messages are of topics that the pattern selects. -/
def Selected (pattern : String) (ms : List Message) : Prop :=
  ∃ parsed, Pattern.parse pattern = .ok parsed ∧ ∀ m ∈ ms, parsed.matchesTopic m.topic = true

/-- No message is older than asked for. -/
def Within (sinceSecs : Option Nat) (now : Nat) (ms : List Message) : Prop :=
  ∀ since ∈ sinceSecs, ∀ m ∈ ms, m.ageSecs now ≤ since

/-- What may be answered to a request. -/
inductive Request.Answered (socket : Path) (r : Readings) : Request → Response → Prop where
  | ensured {pattern : String} {parsed : Pattern} {alreadyRunning : Bool} :
      Pattern.parse pattern = .ok parsed →
      Answered socket r (.ensure pattern) (.ensured parsed.partition alreadyRunning)
  | posted {topic body : String} {priority : Priority} {sender : Option String}
      {broadcast : Bool} {t : Topic} :
      Topic.parse topic = .ok t →
      Answered socket r (.post topic body priority sender broadcast) (.posted r.id r.ts)
  | waited {pattern label : String} {timeoutSecs : Option Nat} {m : Message} :
      Selected pattern [m] → Answered socket r (.wait pattern label timeoutSecs) (.messages [m])
  | timeout {pattern label : String} {timeoutSecs : Option Nat} :
      Answered socket r (.wait pattern label timeoutSecs) .timeout
  | read {pattern label : String} {ms : List Message} : Selected pattern ms →
      Answered socket r (.read pattern label) (.messages ms)
  | history {pattern : String} {sinceSecs : Option Nat} {ms : List Message} : Selected pattern ms →
      Within sinceSecs r.secs ms → Answered socket r (.history pattern sinceSecs) (.messages ms)
  | status {report : StatusReport} : report.pid = r.pid → report.socketPath = socket →
      Answered socket r .status (.status report)
  | metrics {report : MetricsReport} : report.pid = r.pid →
      Answered socket r .metrics (.metrics report)
  | failed {q : Request} {e : BusError} : q.mayFail = true → Answered socket r q (.error e)

/-- Batches of a stream: none is empty. -/
def Streamed (pattern : String) (batches : List (List Message)) : Prop :=
  ∀ batch ∈ batches, batch ≠ [] ∧ Selected pattern batch

/-- A line and all that is written in return. -/
inductive Exchange (socket : Path) : List Frame → Prop where
  | malformed : Exchange socket [.malformed, .answer .malformed]
  | answered {q : Request} {r : Readings} {response : Response} : q.Answered socket r response →
      Exchange socket [.request q r, .answer (.response response)]

/-- The exchanges that close their connection. -/
inductive Closing : List Frame → Prop where
  | stopped {r : Readings} : Closing [.request .stop r, .answer (.response .ok)]
  | followed {pattern label : String} {r : Readings} {batches : List (List Message)}
      {e : Option BusError} :
      Streamed pattern batches →
      Closing (.request (.follow pattern label) r :: batches.map .batch ++
        [.answer (.followFailed e)])

def dialogue (socket : Path) : Dialogue Frame := ⟨Exchange socket, Closing⟩

end AgentBus
