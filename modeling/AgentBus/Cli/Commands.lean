import Mathlib.Data.List.DropRight
import AgentBus.Protocol.Answers

/-!
# Commands of the command line

A command sends one request and makes of the response what it prints and the code
it exits with. A `follow` goes on reading until its stream ends, which is an error
in any case. `wait` is here one attempt of it.
-/

namespace AgentBus.Cli

open Lib

inductive ExitCode where
  | success
  | usage
  /-- A wait expired with nothing delivered. -/
  | timeout
  /-- The daemon is unreachable and could not be started. -/
  | unavailable
  deriving DecidableEq

def ExitCode.code : ExitCode → Nat
  | success => 0
  | usage => 1
  | timeout => 2
  | unavailable => 3

/-- Why a command fails. -/
inductive Error where
  | unavailable
  /-- There is no message to post. -/
  | body (reason : String)
  | writing
  | reading (e : Protocol.ReadError)
  /-- The daemon closed the connection without responding. -/
  | closed
  /-- The daemon's own error. -/
  | reported (message : String)
  | unexpected (response : Protocol.Response)
  | followClosed

/-- What the process exits with. -/
def exitCode : Except Error ExitCode → ExitCode
  | .ok code => code
  | .error .unavailable => .unavailable
  | .error _ => .usage

/-! ## Requests -/

inductive Command where
  | daemon (pattern : String)
  | post (topic : String) (message : Option String) (priority : String) («from» : Option String)
      (broadcast : Bool)
  | wait (pattern : String) (asId : Option String) (remainingSecs : Nat)
  | read (pattern : String) (asId : Option String)
  | follow (pattern : String) (asId : Option String)
  | history (pattern : String) (sinceSecs : Option Nat)
  | status
  | stop

def subscriberId (asId : Option String) (pattern : String) : String := asId.getD pattern

/-- What standard input says, if it is text. -/
def bodyFromStdin (stdin : Option String) : Except Error String :=
  match stdin with
  | none => .error (.body "stream did not contain valid UTF-8")
  | some buffer =>
    let trimmed := String.ofList (buffer.toList.rdropWhile (· == '\n'))
    if trimmed.isEmpty then
      .error (.body "no message body: pass it as an argument or pipe it on stdin")
    else .ok trimmed

def postBody (stdin message : Option String) : Except Error String :=
  match message with
  | some body => if body.isEmpty then .error (.body "message body must not be empty") else .ok body
  | none => bodyFromStdin stdin

/-- The body of a post is checked before anything is sent. -/
def Command.request (stdin : Option String) : Command → Except Error Request
  | daemon pattern => .ok (.ensure pattern)
  | post topic message priority sender broadcast =>
    match postBody stdin message with
    | .error e => .error e
    | .ok body =>
      .ok (.post topic body (if priority == "high" then .high else .normal) sender broadcast)
  | wait pattern asId remainingSecs =>
    .ok (.wait pattern (subscriberId asId pattern) (some remainingSecs))
  | read pattern asId => .ok (.read pattern (subscriberId asId pattern))
  | follow pattern asId => .ok (.follow pattern (subscriberId asId pattern))
  | history pattern sinceSecs => .ok (.history pattern sinceSecs)
  | status => .ok .status
  | stop => .ok .stop

/-! ## Output -/

/-- How output is rendered. -/
structure Output where
  json : Bool
  /-- An indented document. -/
  pretty : Json → String
  /-- Where the daemon writes its diagnostics. -/
  daemonLogPath : Path

/-- The lines on standard output, and how the command ends. -/
structure Outcome where
  printed : List String
  result : Except Error ExitCode

def Outcome.stdout (o : Outcome) : Bytes := o.printed.flatMap fun l => utf8 l.toList ++ [newline]

def Outcome.failed (e : Error) : Outcome := ⟨[], .error e⟩

/-- After these lines. -/
def Outcome.after (printed : List String) (o : Outcome) : Outcome :=
  { o with printed := printed ++ o.printed }

def formatMessage (m : Message) : String :=
  let marker := match m.priority with
    | .high => "!"
    | .normal => " "
  marker ++ "[" ++ m.ts ++ "] " ++ m.topic.asStr ++ " <" ++ m.from ++ ">\n" ++ m.body

section Printing

variable (F : Formats) (out : Output)

def printMessages (ms : List Message) : List String :=
  ms.map fun m => if out.json then F.toString (m.toJson F) else formatMessage m

def formatPattern (p : Protocol.PatternReport) : String :=
  let flag := if p.snapped then "  (missed messages: pruned past cursor)" else ""
  let kind := if p.broadcast then "bcast" else "excl"
  "  - " ++ p.label ++ " [" ++ p.key ++ " | " ++ kind ++ "] lag=" ++ p.lag.repr ++ flag

def formatPartition (p : Protocol.PartitionReport) : List String :=
  ["\npartition " ++ p.name, "  messages: " ++ p.messageCount.repr] ++
    p.oldestAgeSecs.toList.map (fun age => "  oldest:   " ++ age.repr ++ "s ago") ++
    (if 0 < p.skippedRecords then
      ["  WARNING: " ++ p.skippedRecords.repr ++ " corrupt record(s) skipped"] else []) ++
    p.patterns.map formatPattern

def printStatus (status : Protocol.StatusReport) : List String :=
  if out.json then [out.pretty (Protocol.statusReport.encode status)]
  else
    ["agent-bus daemon", "  pid:    " ++ status.pid.repr,
      "  uptime: " ++ status.uptimeSecs.repr ++ "s",
      "  socket: " ++ status.socketPath] ++
      if status.partitions.isEmpty then ["  no partitions yet"]
      else status.partitions.flatMap formatPartition

def printEnsured (partition : String) (alreadyRunning : Bool) : List String :=
  if out.json then
    [F.toString
      (.object [("already_running", .bool alreadyRunning), ("partition", .string partition)])]
  else if alreadyRunning then ["partition " ++ partition ++ " already running"]
  else ["partition " ++ partition ++ " ready"]

def printPosted (id ts : String) : List String :=
  if out.json then [F.toString (.object [("id", .string id), ("ts", .string ts)])]
  else ["posted " ++ id ++ " at " ++ ts]

/-- A person is told on standard error. -/
def printTimeout : List String :=
  if out.json then [F.toString (.object [("timeout", .bool true)])] else []

def printStopped : List String :=
  if out.json then [F.toString (.object [("stopped", .bool true)])] else ["daemon stopped"]

/-! ## Responses -/

/-- A response that the command has no use for. -/
def unexpected : Protocol.Response → Error
  | .error message => .reported message
  | other => .unexpected other

/-- What a command makes of its response. -/
def conclude : Command → Protocol.Response → Outcome
  | .daemon _, .ensured partition alreadyRunning =>
    ⟨printEnsured F out partition alreadyRunning, .ok .success⟩
  | .post .., .posted id ts => ⟨printPosted F out id ts, .ok .success⟩
  | .wait .., .messages ms => ⟨printMessages F out ms, .ok .success⟩
  | .wait .., .timeout => ⟨printTimeout F out, .ok .timeout⟩
  | .read .., .messages ms => ⟨printMessages F out ms, .ok .success⟩
  | .history .., .messages ms => ⟨printMessages F out ms, .ok .success⟩
  | .status, .status status =>
    ⟨printStatus out status ++ (if out.json then [] else ["  log:    " ++ out.daemonLogPath]),
      .ok .success⟩
  | .stop, .ok => ⟨printStopped F out, .ok .success⟩
  | _, other => .failed (unexpected other)

end Printing

section Running

variable (F : Formats) (hF : F.Faithful) (out : Output)

/-- The response to a request, and what else is on the connection. -/
def response (ls : List Bytes) : Except Error Protocol.Response × List Bytes :=
  match Protocol.readOptional F hF ls with
  | (.error e, ls) => (.error (.reading e), ls)
  | (.ok none, ls) => (.error .closed, ls)
  | (.ok (some r), ls) => (.ok r, ls)

theorem length_of_readOptional {ls rest : List Bytes} {r : Protocol.Response}
    (h : Protocol.readOptional F hF ls = (.ok (some r), rest)) : rest.length < ls.length := by
  induction ls with
  | nil => cases h
  | cons l ls ih =>
    have hlen : ls.length < (l :: ls).length := Nat.lt_succ_self _
    unfold Protocol.readOptional at h
    split at h
    · cases h
    · split at h
      · exact (ih h).trans hlen
      · split at h
        · cases h
          exact hlen
        · cases h

/-- Print what comes, until the stream ends. -/
def followFrom (r : Protocol.Response) (ls : List Bytes) : Outcome :=
  match r with
  | .messages ms =>
    match _h : Protocol.readOptional F hF ls with
    | (.error e, _) => ⟨printMessages F out ms, .error (.reading e)⟩
    | (.ok none, _) => ⟨printMessages F out ms, .error .followClosed⟩
    | (.ok (some r), rest) => (followFrom r rest).after (printMessages F out ms)
  | .error message => .failed (.reported message)
  | other => .failed (unexpected other)
termination_by ls.length
decreasing_by exact length_of_readOptional F hF _h

variable {F hF out} {ms : List Message} {ls rest : List Bytes}

theorem followFrom_end (h : Protocol.readOptional F hF ls = (.ok none, rest)) :
    followFrom F hF out (.messages ms) ls = ⟨printMessages F out ms, .error .followClosed⟩ := by
  rw [followFrom]
  split
  · next h' => cases h.symm.trans h'
  · rfl
  · next h' => cases h.symm.trans h'

theorem followFrom_next {r : Protocol.Response}
    (h : Protocol.readOptional F hF ls = (.ok (some r), rest)) :
    followFrom F hF out (.messages ms) ls = (followFrom F hF out r rest).after
      (printMessages F out ms) := by
  rw [followFrom]
  split
  · next h' => cases h.symm.trans h'
  · next h' => cases h.symm.trans h'
  · next h' =>
    cases h.symm.trans h'
    rfl

@[simp] theorem followFrom_error (message : String) :
    followFrom F hF out (.error message) ls = .failed (.reported message) := by
  rw [followFrom]

variable (F hF out)

/-- A command, given what the daemon writes on its connection. -/
def run (command : Command) (ls : List Bytes) : Outcome :=
  match response F hF ls with
  | (.error e, _) => .failed e
  | (.ok r, rest) =>
    match command with
    | .follow .. => followFrom F hF out r rest
    | _ => conclude F out command r

end Running

end AgentBus.Cli
