import AgentBus.Daemon.Requests
import AgentBus.Daemon.Sections

/-!
# Partitions do not interfere

Taking the requests to all other partitions out of a history changes no reply
to a request that names a partition, and nothing in this partition's files.
-/

namespace AgentBus

open Lib

inductive Input where
  | request (q : Request) (r : Readings)
  | sweep (now : Nat)

namespace Input

def partition : Input → Option String
  | request q _ => q.partition
  | sweep _ => none

def isTo (name : PartitionName) (i : Input) : Bool := i.partition == some name.asStr

def isElsewhere (name : PartitionName) (i : Input) : Bool := i.partition.any (· != name.asStr)

/-- A request is answered, a sweep is not. All I/O succeeds. -/
def handle (F : Formats) (i : Input) (b : Bus) : Option Dispatch × Bus :=
  match i with
  | request q r => ((some (b.dispatch F noFaults r q).1), (b.dispatch F noFaults r q).2)
  | sweep now => (none, (b.pruneAll F (fun _ => none) now).2)

end Input

variable {F : Formats} {stateDir : Path} {policy : RetentionPolicy} {name : PartitionName}

theorem of_toOption_map {ε α : Type} {x : Except ε α} {f : α → String} {part : String}
    (h : x.toOption.map f = some part) : ∃ a, x = .ok a ∧ f a = part := by
  cases x with
  | error e => cases h
  | ok a => exact ⟨a, rfl, Option.some.inj h⟩

/-- What names no possible partition does not parse, or its first segment is no partition's name. -/
theorem unnamed_cases {ε α : Type} {x : Except ε α} {f : α → String}
    (h : ∀ name : PartitionName, x.toOption.map f ≠ some name.asStr) :
    (∃ e, x = .error e) ∨ ∃ a e, x = .ok a ∧ PartitionName.parse (f a) = .error e := by
  cases x with
  | error e => exact .inl ⟨e, rfl⟩
  | ok a =>
    cases hname : PartitionName.parse (f a) with
    | error e => exact .inr ⟨a, e, rfl, hname⟩
    | ok name => exact absurd (congrArg some (PartitionName.asStr_of_parse hname).symm) (h name)

namespace Bus

/-! ## Requests -/

section Requests

variable (faults : Faults) (r : Readings) {pattern : String} {parsed : Pattern}

theorem section_recordLatency {α : Type} (a : α) (batch : List Message) :
    Section stateDir policy name fun b => (a, b.recordLatency r.millis batch) :=
  local_quiet fun b =>
    let h := fields_recordLatency b.state r.millis batch
    ⟨h.1, h.2.1, h.2.2, rfl⟩

theorem section_delivered {p : Partition}
    (hp : p.log.path = logPath stateDir name ∧ p.cursorFile = cursorPath stateDir name)
    (pattern : Pattern) (label : String) (limit : UInt64) {g : List Message → Bus → Dispatch × Bus}
    (hg : ∀ batch, Section stateDir policy name (g batch)) :
    Section stateDir policy name
      (andThen (fun b => b.deliver F faults.persist name p pattern label limit)
        (fun x => .reply (.error (.failure x))) g) :=
  (section_deliver hp faults.persist pattern label limit).andThen fun _ _ => hg _

variable (hpattern : Pattern.parse pattern = .ok parsed) (hname : parsed.partition = name.asStr)
include hpattern hname

theorem section_resolved {e : BusError → Dispatch}
    {g : Pattern × PartitionName × Partition → Bus → Dispatch × Bus}
    (hg : ∀ p, p.log.path = logPath stateDir name ∧ p.cursorFile = cursorPath stateDir name →
      Section stateDir policy name (g (parsed, name, p))) :
    Section stateDir policy name (andThen (fun b => b.resolve F faults.openFault pattern) e g) := by
  refine (section_onPartition (F := F) faults.openFault (e := fun x => e (.failure x)) hg).congr
    fun b _ => ?_
  simp only [andThen, resolve, hpattern, hname, PartitionName.parse_asStr]
  rcases b.partitionMut F faults.openFault name with ⟨_ | _, b'⟩ <;> rfl

theorem section_ensure : Section stateDir policy name fun b => b.ensure F faults pattern := by
  refine (Local.read (v := fun b : Bus => b.state.partitionExists name.asStr)
    (fun {b b'} _ _ h => ?_) (g := fun alreadyRunning b =>
      (Except.casesOn (motive := fun _ => Dispatch)
        (b.partitionMut F faults.openFault name).1 (fun x => .reply (.error (.failure x)))
        fun _ => .reply (.ensured name.asStr alreadyRunning),
          (b.partitionMut F faults.openFault name).2))
    fun _ => (section_partitionMut faults.openFault).map _).congr fun b _ => ?_
  · have hlook : b.state.partitions[name.asStr]? = b'.state.partitions[name.asStr]? :=
      h (.partition name.asStr) (partition_mem_cells.mpr rfl)
    simp only [BusState.partitionExists, Std.ExtTreeMap.contains_eq_isSome_getElem?, hlook]
  · rcases hopen : b.partitionMut F faults.openFault name with ⟨_ | _, b'⟩ <;>
      simp only [ensure, hpattern, hname, PartitionName.parse_asStr, hopen]

theorem section_wait (label : String) (timeoutSecs : Option Nat) :
    Section stateDir policy name fun b => b.wait F faults r pattern label timeoutSecs := by
  let found (parsed : Pattern) (p : Partition) (batch : List Message) (b : Bus) : Dispatch × Bus :=
    if batch.isEmpty then (.waitPending p.name.asStr parsed label timeoutSecs, b)
    else (.reply (.messages batch), b.recordLatency r.millis batch)
  have hfound : ∀ p batch, Section stateDir policy name (found parsed p batch) := by
    intro p batch
    cases batch with
    | nil => exact .pure _
    | cons m ms => exact section_recordLatency r _ _
  refine (section_resolved faults hpattern hname (F := F) (e := fun x => .reply (.error x))
    (g := fun a => andThen (fun b => b.deliver F faults.persist a.2.1 a.2.2 a.1 label 1)
      (fun x => .reply (.error (.failure x))) (found a.1 a.2.2))
    fun p hp => section_delivered faults hp parsed label 1 (hfound p)).congr fun b _ => ?_
  simp only [wait, andThen]
  rcases b.resolve F faults.openFault pattern with ⟨_ | ⟨parsed, name, p⟩, b'⟩
  · rfl
  · simp only [handled, andThen]
    rcases b'.deliver F faults.persist name p parsed label 1 with ⟨_ | _ | _, b''⟩ <;> rfl

theorem section_read (label : String) :
    Section stateDir policy name fun b => b.read F faults r pattern label := by
  refine (section_resolved faults hpattern hname (F := F) (e := fun x => .reply (.error x))
    (g := fun a => andThen (fun b => b.deliver F faults.persist a.2.1 a.2.2 a.1 label usizeMax)
      (fun x => .reply (.error (.failure x)))
      fun batch b => (.reply (.messages batch), b.recordLatency r.millis batch))
    fun p hp => section_delivered faults hp parsed label usizeMax fun batch =>
      section_recordLatency r _ batch).congr fun b _ => ?_
  simp only [read, andThen]
  rcases b.resolve F faults.openFault pattern with ⟨_ | ⟨parsed, name, p⟩, b'⟩
  · rfl
  · simp only [handled, andThen]
    rcases b'.deliver F faults.persist name p parsed label usizeMax with ⟨_ | _, b''⟩ <;> rfl

theorem section_follow (label : String) :
    Section stateDir policy name fun b => b.follow F faults pattern label := by
  refine (section_resolved faults hpattern hname (F := F) (e := fun x => .reply (.error x))
    (g := fun a b => (.followPending a.2.2.name.asStr a.1 label, b)) fun p _ =>
      .pure _).congr fun b _ => ?_
  simp only [follow, andThen]
  rcases b.resolve F faults.openFault pattern with ⟨_ | _, b'⟩ <;> rfl

theorem section_history (sinceSecs : Option Nat) :
    Section stateDir policy name fun b => b.history F faults r pattern sinceSecs := by
  refine (section_resolved faults hpattern hname (F := F) (e := fun x => .reply (.error x))
    (g := fun a b => (.reply (.messages (a.2.2.history a.1 sinceSecs r.secs)), b)) fun p _ =>
    .pure _).congr fun b _ => ?_
  simp only [history, andThen]
  rcases b.resolve F faults.openFault pattern with ⟨_ | _, b'⟩ <;> rfl

end Requests

section Post

variable (faults : Faults) (r : Readings)

theorem section_post {topic : String} {parsed : Topic} (htopic : Topic.parse topic = .ok parsed)
    (hname : parsed.partition = name.asStr) (body : String) (priority : Priority)
    («from» : Option String) (broadcast : Bool) : Section stateDir policy name fun b =>
      b.post F faults r topic body priority «from» broadcast := by
  let message := if broadcast then (Message.new r.id r.ts parsed body priority «from»).asBroadcast
    else Message.new r.id r.ts parsed body priority «from»
  refine (section_onPartition (F := F) faults.openFault (e := fun x => .reply (.error (.failure x)))
    (g := fun p => andThen (fun b => ((p.publish F faults.append b.disk message).1,
        b.put name.asStr (p.publish F faults.append b.disk message).2))
      (fun x => .reply (.error (.failure x)))
      fun id b => (.reply (.posted id r.ts), b.recordPost body.utf8ByteSize))
    fun p hp => (section_publish hp faults.append message).andThen fun _ _ =>
      local_quiet (f := fun b => b.recordPost body.utf8ByteSize) fun _ =>
        ⟨rfl, rfl, rfl, rfl⟩).congr
    fun b _ => ?_
  simp only [post, htopic, hname, PartitionName.parse_asStr, andThen]
  rcases b.partitionMut F faults.openFault name with ⟨_ | p, b'⟩
  · rfl
  · simp only [handled, andThen]
    rcases p.publish F faults.append b'.disk message with ⟨_ | _, w⟩ <;> rfl

end Post

theorem section_arm (faults : Faults) (r : Readings) {q : Request}
    (h : q.partition = some name.asStr) :
    Section stateDir policy name fun b => b.arm F faults r q := by
  cases q with
  | ensure pattern =>
    obtain ⟨parsed, hparsed, hname⟩ := of_toOption_map h
    exact section_ensure faults hparsed hname
  | post topic body priority «from» broadcast =>
    obtain ⟨parsed, hparsed, hname⟩ := of_toOption_map h
    exact section_post faults r hparsed hname body priority «from» broadcast
  | wait pattern label timeoutSecs =>
    obtain ⟨parsed, hparsed, hname⟩ := of_toOption_map h
    exact section_wait faults r hparsed hname label timeoutSecs
  | read pattern label =>
    obtain ⟨parsed, hparsed, hname⟩ := of_toOption_map h
    exact section_read faults r hparsed hname label
  | follow pattern label =>
    obtain ⟨parsed, hparsed, hname⟩ := of_toOption_map h
    exact section_follow faults hparsed hname label
  | history pattern sinceSecs =>
    obtain ⟨parsed, hparsed, hname⟩ := of_toOption_map h
    exact section_history faults r hparsed hname sinceSecs
  | status | metrics | stop => cases h

theorem section_dispatch (faults : Faults) (r : Readings) {q : Request}
    (h : q.partition = some name.asStr) :
    Section stateDir policy name fun b => b.dispatch F faults r q :=
  (local_quiet (a := ()) (f := fun b => b.touch (r.instant 0)) fun _ => ⟨rfl, rfl, rfl, rfl⟩).bind
    (g := fun _ b => b.arm F faults r q) fun _ => section_arm faults r h

theorem dispatch_of_unnamed (faults : Faults) (r : Readings) {q : Request}
    (h : ∀ name : PartitionName, q.partition ≠ some name.asStr) (b : Bus) :
    (b.dispatch F faults r q).2 = b.touch (r.instant 0) := by
  have hresolve : ∀ pattern, (∀ name : PartitionName, patternPartition pattern ≠ some name.asStr) →
      ∀ (fault : Option Partition.OpenFault) (b : Bus),
        ∃ e, b.resolve F fault pattern = (.error e, b) := by
    intro pattern hnone fault b
    rcases unnamed_cases hnone with ⟨e, hparse⟩ | ⟨parsed, e, hparse, hname⟩
    · exact ⟨.core e, by simp only [resolve, hparse]⟩
    · exact ⟨.core e, by simp only [resolve, hparse, hname]⟩
  cases q with
  | ensure pattern =>
    rcases unnamed_cases h with ⟨e, hparse⟩ | ⟨parsed, e, hparse, hname⟩
    · simp only [dispatch, arm, ensure, hparse]
    · simp only [dispatch, arm, ensure, hparse, hname]
  | post topic body priority «from» broadcast =>
    rcases unnamed_cases h with ⟨e, hparse⟩ | ⟨parsed, e, hparse, hname⟩
    · simp only [dispatch, arm, post, hparse]
    · simp only [dispatch, arm, post, hparse, hname]
  | wait pattern label _ | read pattern label | follow pattern label | history pattern _ =>
    obtain ⟨e, he⟩ := hresolve pattern h faults.openFault (b.touch (r.instant 0))
    simp only [dispatch, arm, wait, read, follow, history, he]
  | status | metrics | stop => rfl

/-! ## Sweeps -/

theorem placed_pruneOne {b : Bus} (hb : b.Placed stateDir policy) (now : Nat) (n : String) :
    (b.pruneOne F none now n).2.Placed stateDir policy := by
  cases hopen : b.state.partitions[n]? with
  | none => rwa [pruneOne, hopen]
  | some p =>
    obtain ⟨other, rfl⟩ := hb.named n p hopen
    exact (section_pruneOne none now).keeps hb

/-- Sweeping does to a partition what pruning it alone does. -/
theorem agree_pruneEach (name : PartitionName) (now : Nat) {names : List String}
    (hnodup : names.Nodup) {b : Bus} (hb : b.Placed stateDir policy) :
    (pruneEach F (fun _ => none) now names b).2.Placed stateDir policy ∧
      Agree look (cells stateDir name) (pruneEach F (fun _ => none) now names b).2
        (if name.asStr ∈ names then (b.pruneOne F none now name.asStr).2 else b) := by
  induction names generalizing b with
  | nil => exact ⟨hb, fun _ _ => rfl⟩
  | cons n names ih =>
    obtain ⟨hn, hnodup⟩ := List.nodup_cons.mp hnodup
    obtain ⟨hplaced, hagree⟩ := ih hnodup (placed_pruneOne (F := F) hb now n)
    rw [pruneEach_cons]
    refine ⟨hplaced, hagree.trans ?_⟩
    by_cases heq : n = name.asStr
    · subst heq
      rw [if_neg hn, if_pos List.mem_cons_self]
      exact fun _ _ => rfl
    · have hsame : Agree look (cells stateDir name) (b.pruneOne F none now n).2 b := by
        cases hopen : b.state.partitions[n]? with
        | none =>
          rw [pruneOne, hopen]
          exact fun _ _ => rfl
        | some p =>
          obtain ⟨other, rfl⟩ := hb.named n p hopen
          exact (section_pruneOne none now).agree_of_disjoint
            (cells_disjoint fun h => heq (congrArg _ h)) hb
      have hmem : name.asStr ∈ n :: names ↔ name.asStr ∈ names := by simp [Ne.symm heq]
      simp only [hmem]
      split
      · exact (section_pruneOne none now).agree (placed_pruneOne hb now n) hb hsame
      · exact hsame

theorem agree_pruneAll (name : PartitionName) {b : Bus}
    (hb : b.Placed stateDir policy) (now : Nat) :
    (b.pruneAll F (fun _ => none) now).2.Placed stateDir policy ∧
      Agree look (cells stateDir name) (b.pruneAll F (fun _ => none) now).2
        (b.pruneOne F none now name.asStr).2 := by
  obtain ⟨hplaced, hagree⟩ := agree_pruneEach (F := F) name now
    (Std.ExtTreeMap.nodup_keys (t := b.state.partitions)) hb
  refine ⟨hplaced, hagree.trans ?_⟩
  split
  · exact fun _ _ => rfl
  · next hclosed =>
    have hnone : b.state.partitions[name.asStr]? = none := by
      rw [Std.ExtTreeMap.mem_keys] at hclosed
      exact Std.ExtTreeMap.getElem?_eq_none hclosed
    rw [pruneOne, hnone]
    exact fun _ _ => rfl

end Bus

/-! ## Histories -/

theorem isolated (name : PartitionName) : Isolated Bus.look (Bus.Placed stateDir policy)
    (Bus.cells stateDir name) (Input.handle F) (Input.isElsewhere name) (Input.isTo name) := by
  -- a request to a possible partition, or one that touches none
  have hcases : ∀ q : Request, (∃ other : PartitionName, q.partition = some other.asStr) ∨
      ∀ other : PartitionName, q.partition ≠ some other.asStr := fun q => by
    rw [← not_exists]
    exact em _
  have htouch : ∀ (S : Set Cell) (r : Readings),
      Local Bus.look (Bus.Placed stateDir policy) S fun b => ((), b.touch (r.instant 0)) :=
    fun _ _ => Bus.local_quiet fun _ => ⟨rfl, rfl, rfl, rfl⟩
  constructor
  case keeps =>
    rintro (⟨q, r⟩ | now) b hb
    · rcases hcases q with ⟨other, hother⟩ | hnone
      · exact (Bus.section_dispatch noFaults r hother).keeps hb
      · rw [Input.handle, Bus.dispatch_of_unnamed noFaults r hnone]
        exact (htouch ∅ r).keeps hb
    · exact (Bus.agree_pruneAll name hb now).1
  case unseen =>
    intro i hi
    simp only [Input.isElsewhere, Input.isTo] at hi ⊢
    cases hpart : i.partition with
    | none => rfl
    | some part =>
      rw [hpart] at hi
      simpa using hi
  case frame =>
    rintro (⟨q, r⟩ | now) hi b hb
    · rcases hcases q with ⟨other, hother⟩ | hnone
      · have hne : other ≠ name := by
          rintro rfl
          simp [Input.isElsewhere, Input.partition, hother] at hi
        exact (Bus.section_dispatch noFaults r hother).agree_of_disjoint (Bus.cells_disjoint hne) hb
      · rw [Input.handle, Bus.dispatch_of_unnamed noFaults r hnone]
        exact (htouch ∅ r).agree_of_disjoint (fun _ _ h => h) hb
    · cases hi
  case agree =>
    rintro (⟨q, r⟩ | now) hi b b' hb hb' h
    · rcases hcases q with ⟨other, hother⟩ | hnone
      · obtain rfl : other = name := by
          simpa [Input.isElsewhere, Input.partition, hother, Bus.asStr_injective.eq_iff] using hi
        exact (Bus.section_dispatch noFaults r hother).agree hb hb' h
      · rw [Input.handle, Input.handle, Bus.dispatch_of_unnamed noFaults r hnone,
          Bus.dispatch_of_unnamed noFaults r hnone]
        exact (htouch _ r).agree hb hb' h
    · exact ((Bus.agree_pruneAll name hb now).2.trans
        ((Bus.section_pruneOne none now).agree hb hb' h)).trans
        (Bus.agree_pruneAll name hb' now).2.symm
  case result =>
    rintro (⟨q, r⟩ | now) hi b b' hb hb' h
    · have hname : q.partition = some name.asStr := by simpa [Input.isTo, Input.partition] using hi
      exact congrArg some ((Bus.section_dispatch noFaults r hname).result hb hb' h)
    · cases hi

/-- The replies to the requests that name a partition. -/
def repliesTo (name : PartitionName) (outs : List (Input × Option Dispatch)) :
    List (Input × Option Dispatch) :=
  outs.filter fun out => out.1.isTo name

/-- **Partitions do not interfere.** -/
theorem partitions_isolated (F : Formats) (stateDir : Path) (disk : Disk) (started : Nat)
    (name : PartitionName) (inputs : List Input) :
    let b : Bus := ⟨.new stateDir started, disk⟩
    let all := runAll (Input.handle F) inputs b
    let purged := runAll (Input.handle F) (inputs.filter fun i => !i.isElsewhere name) b
    repliesTo name all.1 = repliesTo name purged.1 ∧
      all.2.disk[logPath stateDir name]? = purged.2.disk[logPath stateDir name]? ∧
      all.2.disk[cursorPath stateDir name]? = purged.2.disk[cursorPath stateDir name]? := by
  intro b all purged
  have hnew : b.Placed stateDir .default := by
    refine ⟨rfl, rfl, fun n p hp => ?_, fun n p hp => ?_⟩
    all_goals exact absurd hp (by simp [b, BusState.new])
  obtain ⟨hreplies, hcells⟩ := (isolated (F := F) name).run_purge inputs hnew hnew fun _ _ => rfl
  exact ⟨hreplies, hcells (.file (logPath stateDir name)) (Bus.file_mem_cells.mpr (.inl rfl)),
    hcells (.file (cursorPath stateDir name)) (Bus.file_mem_cells.mpr (.inr rfl))⟩

end AgentBus
