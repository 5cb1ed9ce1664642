import AgentBus.Daemon.Sessions
import AgentBus.Daemon.Succession

/-!
# What the clients receive

`clients` is the succession of daemons together with the frames that pass over
their connections. A client is a connection of one of the processes. It receives
the messages that are written to it in answer to its waits and reads, and in the
batches of its follow; `Connection.owes` are those that it has been handed and
that are not written yet.
-/

namespace AgentBus

open Lib

/-! ## Frames of a client -/

/-- Who a stream is for. -/
def Request.follower : Request → Option (Pattern × String)
  | .follow pattern label => (Pattern.parse pattern).toOption.map (·, label)
  | _ => none

/-- Messages for a reader, if there is one. -/
def addressed (reader : Option (Pattern × String)) (ms : List Message) : List Handing :=
  reader.elim [] fun (pattern, label) => handings pattern label ms

/-- The request that is answered from here on. -/
def Frame.serving (q : Option Request) : Frame → Option Request
  | request q' _ => some q'
  | malformed => none
  | answer _ => q
  | batch _ => q

/-- The messages that a frame brings to the client whose request is answered. -/
def Frame.brings (q : Option Request) : Frame → List Handing
  | answer (.response (.messages ms)) => addressed (q.bind Request.reader) ms
  | batch ms => addressed (q.bind Request.follower) ms
  | _ => []

def servingAfter (q : Option Request) (fs : List Frame) : Option Request := fs.foldl Frame.serving q

/-- What a client receives with these frames. -/
def received : Option Request → List Frame → List Handing
  | _, [] => []
  | q, f :: fs => f.brings q ++ received (f.serving q) fs

theorem received_append (q : Option Request) (fs gs : List Frame) :
    received q (fs ++ gs) = received q fs ++ received (servingAfter q fs) gs := by
  induction fs generalizing q with
  | nil => rfl
  | cons f fs ih =>
    rw [List.cons_append, received, received, ih, List.append_assoc]
    rfl

theorem servingAfter_append (q : Option Request) (fs gs : List Frame) :
    servingAfter q (fs ++ gs) = servingAfter (servingAfter q fs) gs := List.foldl_append

/-- What a connection has been handed and has still to write. -/
def Connection.owes (q : Option Request) : Connection → List Handing
  | answering (.response (.messages ms)) _ => addressed (q.bind Request.reader) ms
  | leaving _ (.response (.messages ms)) => addressed (q.bind Request.reader) ms
  | delivered p _ batch => handings p.pattern p.label batch
  | streaming p _ batch => handings p.pattern p.label batch
  | _ => []

/-! ## All clients -/

/-- A connection of one process. -/
structure Client where
  process : Nat
  connection : Nat
  deriving DecidableEq

/-- What is tagged with this client. -/
def Client.part {α : Type} (c : Client) (l : List (Client × α)) : List α :=
  (l.filter fun p => p.1 = c).map Prod.snd

/-- What an event reads or writes on its connection. -/
def SuccessionEvent.frames (s : Service) : SuccessionEvent → List Frame
  | step (.connection i e) => (s.connections[i]?).elim [] fun c => c.frames e
  | _ => []

abbrev Sighting := Observed × List Frame

def clients (F : Formats) (threshold : Nat) (stateDir : Path) : System Service Sighting :=
  (succession F threshold stateDir).watched fun s o _ => o.event.frames s

/-- What passed over the connections of all processes, and what was handed to them. -/
structure Journal where
  process : Nat
  frames : List (Client × Frame)
  handed : List (Client × Handing)

def Journal.add (t : Journal) (x : Sighting) : Journal :=
  match x.1.event with
  | .restart _ => { t with process := t.process + 1 }
  | .step (.connection i _) =>
    { t with
      frames := t.frames ++ x.2.map (⟨t.process, i⟩, ·)
      handed := t.handed ++ x.1.handed.map (⟨t.process, i⟩, ·) }
  | .step _ => t

def journal (xs : List Sighting) : Journal := xs.foldl Journal.add ⟨0, [], []⟩

@[simp] theorem journal_concat (xs : List Sighting) (x : Sighting) :
    journal (xs ++ [x]) = (journal xs).add x := by
  simp [journal]

/-- What a client has received so far. -/
def Client.received (c : Client) (xs : List Sighting) : List Handing :=
  AgentBus.received none (c.part (journal xs).frames)

namespace Client

variable {α : Type} {c : Client}

@[simp] theorem part_append (l l' : List (Client × α)) :
    c.part (l ++ l') = c.part l ++ c.part l' := by
  simp [part]

@[simp] theorem part_map_self (l : List α) : c.part (l.map (c, ·)) = l := by
  rw [part, List.filter_eq_self.mpr (by simp), List.map_map]
  exact List.map_id l

theorem part_map_ne {c' : Client} (h : c' ≠ c) (l : List α) : c.part (l.map (c', ·)) = [] := by
  rw [part, List.filter_eq_nil_iff.mpr (by simpa using fun _ _ => h), List.map_nil]

theorem mem_part {l : List (Client × α)} {a : α} : a ∈ c.part l ↔ (c, a) ∈ l := by
  simp [part]

end Client

end AgentBus
