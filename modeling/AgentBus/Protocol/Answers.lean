import AgentBus.Daemon.Sessions
import AgentBus.Protocol.Stream

/-!
# What the daemon writes

The daemon's answers as they go over the wire: ids, paths and errors become
texts. `Transcribed` says which responses are written in the course of a session.
-/

namespace AgentBus

open Lib

variable (F : Formats)

/-! ## Reports -/

def PatternReport.wire (p : PatternReport) : Protocol.PatternReport where
  key := p.key
  label := p.label
  broadcast := p.broadcast
  cursor := F.ulidToString p.cursor
  lag := p.lag
  snapped := p.snapped

def PartitionReport.wire (p : PartitionReport) : Protocol.PartitionReport where
  name := p.name
  messageCount := p.messageCount
  oldestAgeSecs := p.oldestAgeSecs
  patterns := p.patterns.map fun pattern => pattern.wire F
  skippedRecords := p.skippedRecords

def StatusReport.wire (s : StatusReport) : Protocol.StatusReport where
  pid := s.pid
  uptimeSecs := s.uptimeSecs
  socketPath := s.socketPath
  partitions := s.partitions.map fun p => p.wire F

/-! ## Answers -/

/-- Errors are shown by `text`. -/
def Response.wire (text : BusError → String) : Response → Protocol.Response
  | ok => .ok
  | ensured partition alreadyRunning => .ensured partition alreadyRunning
  | posted id ts => .posted (F.ulidToString id) ts
  | messages ms => .messages ms
  | timeout => .timeout
  | status report => .status (report.wire F)
  | metrics report => .metrics report
  | error e => .error (text e)

/-- What is wrong with a line, or with a stream, is said in words that the answer does not
determine. -/
inductive Answer.Written (text : BusError → String) : Answer → Protocol.Response → Prop where
  | response (r : Response) : Written text (.response r) (r.wire F text)
  | malformed (reason : String) : Written text .malformed (.error ("malformed request: " ++ reason))
  | followFailed (e : Option BusError) (reason : String) :
      Written text (.followFailed e) (.error ("follow failed: " ++ reason))

/-- The responses that are written in the course of these frames: whole lines. A session that breaks
off while a line is being written ends with the line before. -/
inductive Transcribed (text : BusError → String) : List Frame → List Protocol.Response → Prop where
  | nil : Transcribed text [] []
  | request {q : Request} {r : Readings} {fs : List Frame} {rs : List Protocol.Response} :
      Transcribed text fs rs → Transcribed text (.request q r :: fs) rs
  | malformed {fs : List Frame} {rs : List Protocol.Response} :
      Transcribed text fs rs → Transcribed text (.malformed :: fs) rs
  | answer {a : Answer} {r : Protocol.Response} {fs : List Frame} {rs : List Protocol.Response} :
      a.Written F text r → Transcribed text fs rs → Transcribed text (.answer a :: fs) (r :: rs)
  | batch {ms : List Message} {fs : List Frame} {rs : List Protocol.Response} :
      Transcribed text fs rs → Transcribed text (.batch ms :: fs) (.messages ms :: rs)

/-- What a frame is to the reader of the connection, if it was read there. -/
def Frame.inbound : Frame → Option Protocol.Inbound
  | request q _ => some (.request q)
  | malformed => some .malformed
  | answer _ => none
  | batch _ => none

end AgentBus
