import AgentBus.Daemon.Replay
import AgentBus.Daemon.Simulation

/-!
# A restart changes nothing a call can see

Opening the directory of a reached world gives its messages and cursors back
(`open_of_synced`). Two worlds that agree on these are `Alike`: every call,
whatever strikes it, returns the same from both and leaves alike worlds.
-/

namespace AgentBus

open Lib PartitionLog

variable {F : Formats} {stateDir : Path} {name : PartitionName} {es : List Event} {w w' : World}

namespace PartitionLog

/-- The same as far as results go. -/
structure Alike (log log' : PartitionLog) : Prop where
  path : log'.path = log.path
  messages : log'.messages = log.messages

theorem append_alike {log log' : PartitionLog} (h : Alike log log') (fault : Option AppendFault)
    (disk disk' : Disk) (m : Message) :
    (log'.append F fault disk' m).1 = (log.append F fault disk m).1 ∧
      Alike (log.append F fault disk m).2.1 (log'.append F fault disk' m).2.1 := by
  have hwrite : ∀ bytes, Alike (log.write disk bytes).1 (log'.write disk' bytes).1 := fun bytes =>
    ⟨by simp [h.path], by simp [h.messages]⟩
  cases fault with
  | none =>
    simp only [append, Message.toJsonl, write_messages, h.messages]
    split
    · exact ⟨rfl, by simp [h.path], rfl⟩
    · exact ⟨rfl, hwrite _⟩
  | some fault =>
    cases fault with
    | write n | sync => exact ⟨by simp only [append, Message.toJsonl, h.path], hwrite _⟩

theorem prune_alike {log log' : PartitionLog} (h : Alike log log') (fault : Option PruneFault)
    (disk disk' : Disk) (policy : RetentionPolicy) (now : Nat) :
    (log'.prune F fault disk' policy now).1 = (log.prune F fault disk policy now).1 ∧
      Alike (log.prune F fault disk policy now).2.1 (log'.prune F fault disk' policy now).2.1 := by
  simp only [PartitionLog.prune, rewritten_eq, h.messages]
  split
  · exact ⟨rfl, h⟩
  · cases fault with
    | none => exact ⟨rfl, h.path, rfl⟩
    | some fault =>
      cases fault with
      | create | write | sync | rename => exact ⟨by simp only [h.path], h⟩
      | reopen => exact ⟨by simp only [h.path], by simp [h.path], by simp [h.messages]⟩

end PartitionLog

structure World.Alike (w w' : World) : Prop where
  log : w.partition.log.Alike w'.partition.log
  cursors : w'.partition.cursors = w.partition.cursors
  cursorFile : w'.partition.cursorFile = w.partition.cursorFile

namespace World.Alike

def persistResult (fault : Option Partition.PersistFault) (cursorFile : Path) :
    Except Failure Unit :=
  match fault with
  | some .write => .error (.scratch "writing " cursorFile)
  | some .rename => .error (.error ("replacing " ++ cursorFile))
  | none => .ok ()

/-- Whether the cursors are persisted depends on the fault alone. -/
theorem persistCursors_result (fault : Option Partition.PersistFault) (p : Partition)
    (disk : Disk) :
    p.persistCursors F fault disk = (persistResult fault p.cursorFile,
      if fault.isNone then disk.insert p.cursorFile (utf8 (F.toString (p.cursors.toValue F)).toList)
      else disk) := by
  unfold Partition.persistCursors persistResult
  rcases fault with _ | _ | _ <;> rfl

theorem merged (h : w.Alike w') (P : Pattern) (label : String) (limit : UInt64) :
    w'.partition.merged P label limit = w.partition.merged P label limit := by
  simp only [Partition.merged, Partition.stream, messagesAfter, h.cursors, h.log.messages]

theorem deliver (h : w.Alike w') (faults : Faults) (P : Pattern) (label : String) (limit : UInt64) :
    (w'.call F stateDir faults (.deliver P label limit)).1 =
        (w.call F stateDir faults (.deliver P label limit)).1 ∧
      (w.call F stateDir faults (.deliver P label limit)).2.Alike
        (w'.call F stateDir faults (.deliver P label limit)).2 := by
  simp only [World.call, Partition.deliver, h.merged, h.cursors]
  cases (w.partition.merged P label limit).isEmpty with
  | true => exact ⟨rfl, h.log, rfl, h.cursorFile⟩
  | false =>
    simp only [Bool.false_eq_true, if_false, persistCursors_result, h.cursorFile]
    split <;> exact ⟨rfl, h.log, rfl, rfl⟩

theorem prune (h : w.Alike w') (faults : Faults) (policy : RetentionPolicy) (now : Nat) :
    (w'.call F stateDir faults (.prune policy now)).1 =
        (w.call F stateDir faults (.prune policy now)).1 ∧
      (w.call F stateDir faults (.prune policy now)).2.Alike
        (w'.call F stateDir faults (.prune policy now)).2 := by
  obtain ⟨hr, hlog⟩ := prune_alike (F := F) h.log (faults.prune.bind Partition.PruneFault.logFault)
    w.disk w'.disk policy now
  simp only [World.call, Partition.prune]
  rcases hp : w.partition.log.prune F (faults.prune.bind Partition.PruneFault.logFault) w.disk
    policy now with ⟨r, log, disk⟩
  rcases hp' : w'.partition.log.prune F (faults.prune.bind Partition.PruneFault.logFault) w'.disk
    policy now with ⟨r', log', disk'⟩
  rw [hp, hp'] at hr hlog
  obtain rfl : r' = r := hr
  cases r' with
  | error e => exact ⟨rfl, hlog, h.cursors, h.cursorFile⟩
  | ok outcome =>
    obtain ⟨removed, oldestSurviving⟩ := outcome
    simp only [h.cursors, persistCursors_result, h.cursorFile]
    cases if removed > 0 then oldestSurviving else none with
    | none => exact ⟨rfl, hlog, rfl, rfl⟩
    | some oldest =>
      cases persistResult (faults.prune.bind Partition.PruneFault.persistFault)
        w.partition.cursorFile <;>
        exact ⟨rfl, hlog, rfl, rfl⟩

/-- **A call on alike worlds returns the same and leaves them alike.** -/
theorem call (h : w.Alike w') (faults : Faults) {c : Call} (hc : c ≠ .reopen) :
    (w'.call F stateDir faults c).1 = (w.call F stateDir faults c).1 ∧
      (w.call F stateDir faults c).2.Alike (w'.call F stateDir faults c).2 := by
  cases c with
  | publish m =>
    obtain ⟨hr, hlog⟩ := append_alike (F := F) h.log faults.append w.disk w'.disk m
    rcases happ : w.partition.log.append F faults.append w.disk m with ⟨r, log, disk⟩
    rcases happ' : w'.partition.log.append F faults.append w'.disk m with ⟨r', log', disk'⟩
    rw [happ, happ'] at hr hlog
    obtain rfl : r' = r := hr
    simp only [World.call, Partition.publish, happ, happ']
    cases r' <;> exact ⟨rfl, hlog, h.cursors, h.cursorFile⟩
  | deliver P label limit => exact h.deliver faults P label limit
  | history P sinceSecs now =>
    refine ⟨?_, h⟩
    simp only [World.call, Partition.history, messagesSince, h.log.messages]
  | prune policy now => exact h.prune faults policy now
  | reopen => exact absurd rfl hc

end World.Alike

/-- The replies to a list of calls, each with the faults that strike it. -/
def World.replies (F : Formats) (stateDir : Path) :
    World → List (Faults × Call) → List (Except Failure Reply)
  | _, [] => []
  | w, (faults, c) :: calls =>
    (w.call F stateDir faults c).1 :: (w.call F stateDir faults c).2.replies F stateDir calls

theorem World.Alike.replies (h : w.Alike w') {calls : List (Faults × Call)}
    (hcalls : ∀ c ∈ calls, c.2 ≠ .reopen) :
    w'.replies F stateDir calls = w.replies F stateDir calls := by
  induction calls generalizing w w' with
  | nil => rfl
  | cons c calls ih =>
    obtain ⟨hr, halike⟩ := h.call c.1 (hcalls c List.mem_cons_self)
    rw [World.replies, World.replies, hr, ih halike fun c hc =>
      hcalls c (List.mem_cons_of_mem _ hc)]

/-- **Opening the directory again gives the messages and cursors back, and every later call returns
what it would have returned.** -/
theorem restart_transparent (hF : F.Faithful)
    (h : Exec (runs F stateDir name Call.isOnline) es w) :
    ∃ w', World.open F none stateDir name w.disk = .ok w' ∧
      w'.partition.log.messages = w.partition.log.messages ∧
      w'.partition.cursors = w.partition.cursors ∧
      ∀ calls : List (Faults × Call), (∀ c ∈ calls, c.2 ≠ .reopen) →
        w'.replies F stateDir calls = w.replies F stateDir calls := by
  obtain ⟨hsync, hx⟩ := simulates hF h
  have hopen := open_of_synced hF hsync (Mailbox.wellPosted_of_exec hx).sorted
  refine ⟨_, hopen, rfl, rfl, fun calls hcalls => World.Alike.replies ?_ hcalls⟩
  exact ⟨⟨hsync.path.symm, rfl⟩, rfl, hsync.cursorFile.symm⟩

/-- A restart between two reads of one label under overlapping patterns. -/
theorem restart_transparent_between_reads : ∃ es w w',
    Exec (runs .reference "/state" sampleName Call.isOnline) es w ∧
    es.map Event.call = [.publish (sampleMessage 1 devTopic), .deliver devPattern "alice" usizeMax,
      .publish (sampleMessage 2 devTopic)] ∧
    World.open .reference none "/state" sampleName w.disk = .ok w' ∧
    w'.partition.log.messages = [sampleMessage 1 devTopic, sampleMessage 2 devTopic] ∧
    w'.replies .reference "/state" [(noFaults, .deliver anyPattern "alice" usizeMax)] =
      w.replies .reference "/state" [(noFaults, .deliver anyPattern "alice" usizeMax)] := by
  obtain ⟨es, w, hx, hcalls, hobs⟩ := exec_of_sampleRun Call.isOnline (fun _ _ => true)
    [.publish (sampleMessage 1 devTopic), .deliver devPattern "alice" usizeMax,
      .publish (sampleMessage 2 devTopic)]
    (fun _ w => decide (w.partition.log.messages =
      [sampleMessage 1 devTopic, sampleMessage 2 devTopic]))
    (by decide) (by simp [Call.isOnline]) (by decide)
  obtain ⟨w', hopen, hmessages, -, hreplies⟩ :=
    restart_transparent Formats.reference_faithful hx.of_restrict
  exact ⟨es, w, w', hx.of_restrict, hcalls, hopen, hmessages.trans (of_decide_eq_true hobs),
    hreplies _ (by simp)⟩

end AgentBus
