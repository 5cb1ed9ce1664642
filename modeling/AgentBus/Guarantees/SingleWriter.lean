import AgentBus.Daemon.Processes
import AgentBus.Daemon.Requests

/-!
# One writer per state directory

`main` holds the lock from before it touches the socket until `serve` has
returned, and gives it up before it drops the runtime. `single_writer` says
that every write is the holder's as long as no task writes in between.
-/

namespace AgentBus

open Lib PartitionLog

/-! ## Writes -/

/-- A delivery that hands something out replaces the cursor file, unless it fails. -/
def Partition.replacesCursors (fault : Option Partition.PersistFault) (p : Partition)
    (pattern : Pattern) (label : String) (limit : UInt64) : Bool :=
  fault.isNone && !(p.merged pattern label limit).isEmpty

def appendsNothing : Option AppendFault → Bool
  | some (.write 0) => true
  | _ => false

/-- The request appends to a log or replaces a cursor file. -/
def Bus.writes (F : Formats) (faults : Faults) (b : Bus) : Request → Bool
  | .post topic _ _ _ _ =>
    match Topic.parse topic with
    | .error _ => false
    | .ok topic =>
      match PartitionName.parse topic.partition with
      | .error _ => false
      | .ok name =>
        match (b.partitionMut F faults.openFault name).1 with
        | .error _ => false
        | .ok _ => !appendsNothing faults.append
  | .wait pattern label _ =>
    match (b.resolve F faults.openFault pattern).1 with
    | .error _ => false
    | .ok (pattern, _, p) => p.replacesCursors faults.persist pattern label 1
  | .read pattern label =>
    match (b.resolve F faults.openFault pattern).1 with
    | .error _ => false
    | .ok (pattern, _, p) => p.replacesCursors faults.persist pattern label usizeMax
  | _ => false

def Connection.writes (F : Formats) (b : Bus) : Connection → ConnectionEvent → Bool
  | .reading, .request q faults r => (b.touch (r.instant 0)).writes F faults q
  | .checking p place, .check faults =>
    match (b.partitionMut F faults.openFault place.name).1 with
    | .error _ => false
    | .ok q => q.replacesCursors faults.persist p.pattern p.label p.kind.limit
  | _, _ => false

def Service.writes (F : Formats) (s : Service) : ServiceEvent → Bool
  | .accept _ => false
  | .connection i e => (s.connections[i]?).any fun c => c.writes F s.shared.bus e
  | .sweep e => !(s.rewritten F (.sweep e)).isEmpty

/-- The step unlinks or binds the socket, writes to a log or replaces a cursor file. -/
def Directory.writes (F : Formats) (d : Directory) : Nat × ProcessEvent → Bool
  | (_, .removeSocket fails) => !fails && d.socket.isSome
  | (_, .bind fails _) => !fails && d.socket.isNone
  | (i, .task e) => (d.processes[i]?).any fun p => p.tasks.any fun s => (s.on d.disk).writes F e
  | _ => false

/-- A step that writes is taken by the process that holds the lock. -/
def Directory.ByHolder (F : Formats) (d : Directory) (e : Nat × ProcessEvent) : Prop :=
  d.writes F e = true → d.lock = some e.1

/-- A step that writes is not taken by a process that has given up the lock and still has its
runtime. -/
def Directory.BeforeUnlock (F : Formats) (d : Directory) (e : Nat × ProcessEvent) : Prop :=
  d.writes F e = true → ∀ p, d.processes[e.1]? = some p → p.main ≠ .unlocked

/-! ## Everything else leaves the files alone -/

/-- The files have the same contents; a log that is opened may have come into being. -/
def SameFiles (disk disk' : Disk) : Prop := ∀ path, contentAt disk' path = contentAt disk path

section Files

variable {F : Formats} {disk disk' : Disk} {p : Partition} {b : Bus}

theorem SameFiles.refl (disk : Disk) : SameFiles disk disk := fun _ => rfl

theorem SameFiles.trans {disk'' : Disk} (h : SameFiles disk disk') (h' : SameFiles disk' disk'') :
    SameFiles disk disk'' := fun path => (h' path).trans (h path)

theorem sameFiles_insert {path : Path} {bytes : Bytes} (h : bytes = contentAt disk path) :
    SameFiles disk (disk.insert path bytes) := by
  intro path'
  by_cases hpath : path = path'
  · rw [← hpath, contentAt_insert_self, h]
  · exact contentAt_insert_of_ne disk hpath bytes

theorem sameFiles_open {fault : Option Partition.OpenFault} {stateDir : Path} {name : PartitionName}
    {r : Except Failure Partition} (h : Partition.open F fault stateDir name disk = (r, disk')) :
    SameFiles disk disk' := by
  have htouch : ∀ path, SameFiles disk (touch disk path) := fun path => sameFiles_insert rfl
  have hlog : SameFiles disk (PartitionLog.open F (fault.bind Partition.OpenFault.logFault)
      (logPath stateDir name) disk).2 := by
    unfold PartitionLog.open
    split
    case h_5 => split <;> exact htouch _
    all_goals first | exact .refl disk | exact htouch _
  unfold Partition.open at h
  split at h
  · next heq =>
    obtain ⟨-, rfl⟩ := Prod.mk.inj h
    rwa [heq] at hlog
  · next heq =>
    rw [heq] at hlog
    simp only at h
    split at h
    · obtain ⟨-, rfl⟩ := Prod.mk.inj h
      exact hlog
    · obtain ⟨-, rfl⟩ := Prod.mk.inj h
      exact hlog

theorem sameFiles_partitionMut {fault : Option Partition.OpenFault} {name : PartitionName}
    {r : Except Failure Partition} {b' : Bus} (h : b.partitionMut F fault name = (r, b')) :
    SameFiles b.disk b'.disk := by
  rcases Bus.partitionMut_cases (F := F) fault b name with
    ⟨p, -, heq⟩ | ⟨-, ⟨p, disk, hopen, heq⟩ | ⟨e, disk, hopen, heq⟩⟩ <;>
    obtain ⟨-, rfl⟩ := Prod.mk.inj (heq.symm.trans h)
  · exact .refl _
  · exact sameFiles_open hopen
  · exact sameFiles_open hopen

theorem sameFiles_publish {fault : Option AppendFault}
    (hnothing : appendsNothing fault = true) {m : Message} {r : Except Failure Ulid} {w : World}
    (h : p.publish F fault disk m = (r, w)) : SameFiles disk w.disk := by
  have hfault : fault = some (.write 0) := by
    unfold appendsNothing at hnothing
    split at hnothing
    · rfl
    · cases hnothing
  obtain rfl : _ = w := congrArg Prod.snd h
  rw [hfault]
  simp only [Partition.publish, append, Message.toJsonl, write, List.take_zero, List.append_nil]
  split
  · exact sameFiles_insert rfl
  · exact .refl disk

theorem disk_deliver {fault : Option Partition.PersistFault} {pattern : Pattern} {label : String}
    {limit : UInt64} (h : p.replacesCursors fault pattern label limit = false) :
    (p.deliver F fault disk pattern label limit).2.disk = disk := by
  unfold Partition.deliver
  cases hnil : (p.merged pattern label limit).isEmpty with
  | true => simp only [hnil, if_true]
  | false =>
    simp only [Partition.replacesCursors, hnil, Bool.not_false, Bool.and_true] at h
    simp only [hnil, Bool.false_eq_true, if_false]
    cases fault with
    | none => cases h
    | some fault => cases fault <;> rfl

theorem sameFiles_deliver {fault : Option Partition.PersistFault} {pattern : Pattern}
    {label : String} {limit : UInt64} (hnot : p.replacesCursors fault pattern label limit = false)
    {name : PartitionName} {r : Except Failure (List Message)} {b' : Bus}
    (h : b.deliver F fault name p pattern label limit = (r, b')) : SameFiles b.disk b'.disk := by
  obtain rfl : _ = b' := congrArg Prod.snd h
  show SameFiles b.disk (p.deliver F fault b.disk pattern label limit).2.disk
  rw [disk_deliver hnot]
  exact .refl _

theorem disk_prune {fault : Option Partition.PruneFault} {policy : RetentionPolicy} {now : Nat}
    (h : p.rewrites fault policy now = false) :
    (p.prune F fault disk policy now).2.disk = disk := by
  have hexpired : (p.log.messages.filter (policy.keeps now)).length < p.log.messages.length →
      (p.log.messages.any fun m => !policy.retains (m.ageSecs now)) = true := by
    intro hlt
    obtain ⟨m, hm, hkeeps⟩ := List.length_filter_lt_length_iff_exists.mp hlt
    exact List.any_eq_true.mpr ⟨m, hm, by simpa [RetentionPolicy.keeps] using hkeeps⟩
  unfold Partition.rewrites at h
  unfold Partition.prune
  generalize fault.bind Partition.PruneFault.logFault = logFault at h ⊢
  rcases hlog : p.log.prune F logFault disk policy now with ⟨r, log, disk'⟩
  cases prune_effect hlog with
  | kept => rfl
  | failed => rfl
  | rewritten hlt => simp [hexpired hlt] at h
  | detached _ hlt => simp [hexpired hlt] at h

theorem sameFiles_resolve {fault : Option Partition.OpenFault} {pattern : String}
    {r : Except BusError (Pattern × PartitionName × Partition)} {b' : Bus}
    (h : b.resolve F fault pattern = (r, b')) : SameFiles b.disk b'.disk := by
  rcases Bus.resolve_cases (F := F) fault b pattern with
    ⟨e, heq⟩ | ⟨parsed, name, -, ⟨e, b'', hopen, heq⟩ | ⟨q, b'', hopen, heq⟩⟩ <;>
    obtain ⟨-, rfl⟩ := Prod.mk.inj (heq.symm.trans h)
  · exact .refl _
  · exact sameFiles_partitionMut hopen
  · exact sameFiles_partitionMut hopen

theorem sameFiles_ensure (faults : Faults) (b : Bus) (pattern : String) :
    SameFiles b.disk (b.ensure F faults pattern).2.disk := by
  simp only [Bus.ensure]
  split
  · exact .refl _
  · split
    · exact .refl _
    · next name _ =>
      rcases hopen : b.partitionMut F faults.openFault name with ⟨e | p, b'⟩
      · exact sameFiles_partitionMut hopen
      · exact sameFiles_partitionMut hopen

theorem sameFiles_post {faults : Faults} {r : Readings} {b : Bus} {topic body : String}
    {priority : Priority} {«from» : Option String} {broadcast : Bool}
    (h : b.writes F faults (.post topic body priority «from» broadcast) = false) :
    SameFiles b.disk (b.post F faults r topic body priority «from» broadcast).2.disk := by
  simp only [Bus.writes] at h
  simp only [Bus.post]
  cases htopic : Topic.parse topic with
  | error e => exact .refl _
  | ok t =>
    simp only [htopic] at h
    simp only
    cases hname : PartitionName.parse t.partition with
    | error e => exact .refl _
    | ok name =>
      simp only [hname] at h
      simp only
      rcases hopen : b.partitionMut F faults.openFault name with ⟨e | p, b'⟩
      · exact sameFiles_partitionMut hopen
      · simp only [hopen, Bool.not_eq_false'] at h
        simp only
        generalize (if broadcast = true then _ else _ : Message) = m
        rcases hpublish : p.publish F faults.append b'.disk m with ⟨e | id, w⟩
        · exact (sameFiles_partitionMut hopen).trans (sameFiles_publish h hpublish)
        · exact (sameFiles_partitionMut hopen).trans (sameFiles_publish h hpublish)

/-- **A request that does not write leaves the files alone.** -/
theorem sameFiles_arm (faults : Faults) (r : Readings) (b : Bus) (q : Request)
    (h : b.writes F faults q = false) : SameFiles b.disk (b.arm F faults r q).2.disk := by
  cases q with
  | ensure pattern => exact sameFiles_ensure faults b pattern
  | post topic body priority «from» broadcast => exact sameFiles_post h
  | wait pattern label timeoutSecs =>
    simp only [Bus.writes] at h
    simp only [Bus.arm, Bus.wait]
    rcases hresolve : b.resolve F faults.openFault pattern with ⟨e | ⟨parsed, name, p⟩, b'⟩
    · exact sameFiles_resolve hresolve
    · rw [hresolve] at h
      simp only
      rcases hdeliver : b'.deliver F faults.persist name p parsed label 1 with ⟨e | _ | _, b''⟩
      all_goals
        have hdelivered := (sameFiles_resolve hresolve).trans (sameFiles_deliver h hdeliver)
        exact hdelivered
  | read pattern label =>
    simp only [Bus.writes] at h
    simp only [Bus.arm, Bus.read]
    rcases hresolve : b.resolve F faults.openFault pattern with ⟨e | ⟨parsed, name, p⟩, b'⟩
    · exact sameFiles_resolve hresolve
    · rw [hresolve] at h
      simp only
      rcases hdeliver : b'.deliver F faults.persist name p parsed label usizeMax with ⟨e | _, b''⟩
      all_goals
        have hdelivered := (sameFiles_resolve hresolve).trans (sameFiles_deliver h hdeliver)
        exact hdelivered
  | follow pattern label =>
    simp only [Bus.arm, Bus.follow]
    rcases hresolve : b.resolve F faults.openFault pattern with ⟨e | ⟨parsed, name, p⟩, b'⟩
    · exact sameFiles_resolve hresolve
    · exact sameFiles_resolve hresolve
  | history pattern sinceSecs =>
    simp only [Bus.arm, Bus.history]
    rcases hresolve : b.resolve F faults.openFault pattern with ⟨e | ⟨parsed, name, p⟩, b'⟩
    · exact sameFiles_resolve hresolve
    · exact sameFiles_resolve hresolve
  | status | metrics | stop => exact .refl _

theorem sameFiles_check {faults : Faults} {p : Parked} {place : Subscription}
    {c : Connection} {b' : Bus}
    (hnot : (Connection.checking p place).writes F b (.check faults) = false)
    (h : p.check F faults place b = (c, b')) : SameFiles b.disk b'.disk := by
  have hdelivered : ∀ q b₁ r b₂, b.partitionMut F faults.openFault place.name = (.ok q, b₁) →
      b₁.deliver F faults.persist place.name q p.pattern p.label p.kind.limit = (r, b₂) →
      SameFiles b.disk b₂.disk := by
    intro q b₁ r b₂ hopen hdeliver
    simp only [Connection.writes, hopen] at hnot
    exact (sameFiles_partitionMut hopen).trans (sameFiles_deliver hnot hdeliver)
  cases Parked.checked_of_check h with
  | unopened hopen => exact sameFiles_partitionMut hopen
  | idle hopen hdeliver => exact hdelivered _ _ _ _ hopen hdeliver
  | missed _ hopen hdeliver | broken _ hopen hdeliver | waited _ hopen hdeliver
  | followed _ hopen hdeliver =>
    exact hdelivered _ _ _ _ hopen hdeliver

theorem sameFiles_connection {sh sh' : Shared} {c c' : Connection} {e : ConnectionEvent}
    (hstep : c.Step F sh e sh' c') (h : c.writes F sh.bus e = false) :
    SameFiles sh.bus.disk sh'.bus.disk := by
  cases hstep with
  | @request q faults r d b hdispatch =>
    have harm := sameFiles_arm faults (sh.readings r) (sh.bus.touch (r.instant 0)) q h
    rwa [show (sh.bus.touch (r.instant 0)).arm F faults (sh.readings r) q =
      (d, b) from hdispatch] at harm
  | subscribe hsub =>
    cases Parked.subscribed_of_subscribe hsub with
    | unnamed => exact .refl _
    | unopened _ hopen | subscribed _ hopen => exact sameFiles_partitionMut hopen
  | check hcheck => exact sameFiles_check h hcheck
  | enter => rw [Shared.bus_enter]; exact .refl _
  | leave => rw [Shared.bus_leave]; exact .refl _
  | _ => exact .refl _

theorem sameFiles_pruneOne {fault : Option Partition.PruneFault} {now : Nat} (b : Bus) (n : String)
    (h : ((b.state.partitions[n]?).any fun p => p.rewrites fault b.state.policy now) = false) :
    SameFiles b.disk (b.pruneOne F fault now n).2.disk := by
  unfold Bus.pruneOne
  split
  · exact .refl _
  · next p hp =>
    rw [hp] at h
    show SameFiles b.disk (p.prune F fault b.disk b.state.policy now).2.disk
    rw [disk_prune h]
    exact .refl _

theorem sameFiles_pruneEach (faults : String → Option Partition.PruneFault) (now : Nat)
    (names : List String) (b : Bus) (h : b.rewritten F faults now names = []) :
    SameFiles b.disk (Bus.pruneEach F faults now names b).2.disk := by
  induction names generalizing b with
  | nil => exact .refl _
  | cons n names ih =>
    rw [Bus.rewritten] at h
    have hhere : ((b.state.partitions[n]?).any fun p => p.rewrites (faults n) b.state.policy now) =
        false := by
      rw [Bool.eq_false_iff]
      intro hany
      rw [if_pos hany] at h
      split at h <;> cases h
    have hone := sameFiles_pruneOne (F := F) b n hhere
    rw [hhere] at h
    rw [Bus.pruneEach]
    split
    · next e b' heq => rwa [heq] at hone
    · next removed b' heq =>
      rw [heq] at hone h
      exact hone.trans (ih b' h)

theorem sameFiles_service {threshold : Nat} {s s' : Service} {e : ServiceEvent}
    (hstep : s.Step F threshold e s') (h : s.writes F e = false) :
    SameFiles s.shared.bus.disk s'.shared.bus.disk := by
  cases hstep with
  | accept _ => exact .refl _
  | connection hc hconn =>
    simp only [Service.writes, hc, Option.any_some] at h
    exact sameFiles_connection hconn h
  | @sweep e sh w hsweep =>
    simp only [Service.writes, Bool.not_eq_false', List.isEmpty_iff] at h
    generalize s.sweeper = v at hsweep
    cases hsweep with
    | @prune faults now instant r b hprune =>
      have hpruned := sameFiles_pruneEach faults now s.shared.bus.state.partitions.keys
        s.shared.bus h
      rwa [show Bus.pruneEach F faults now _ s.shared.bus = (r, b) from hprune] at hpruned
    | loadWaiters | loadFollowers | idle _ _ | busy | signal => exact .refl _

/-- **What does not write leaves the socket and the contents of all files alone.** -/
theorem Directory.unchanged_of_not_writes {threshold : Nat} {stateDir : Path}
    {d d' : Directory} {i : Nat} {e : ProcessEvent} (hstep : d.Step F threshold stateDir i e d')
    (h : d.writes F (i, e) = false) : d'.socket = d.socket ∧ SameFiles d.disk d'.disk := by
  cases hstep with
  | launch | acquired | refused | found | clear | stale | unbound | shutDown | interrupt | unlock
    | dropRuntime | crash => exact ⟨rfl, .refl _⟩
  | removed _ =>
    simp only [writes, Bool.not_false, Bool.true_and, Option.isSome_eq_false_iff,
      Option.isNone_iff_eq_none] at h
    exact ⟨h.symm, .refl _⟩
  | @closed tasks fails _ =>
    refine ⟨?_, .refl _⟩
    cases fails with
    | true => rfl
    | false =>
      simp only [writes, Bool.not_false, Bool.true_and, Option.isSome_eq_false_iff,
        Option.isNone_iff_eq_none] at h
      exact h.symm
  | bound _ hfree =>
    rw [writes, hfree] at h
    cases h
  | task hp htask =>
    simp only [writes, hp, Option.any_some] at h
    exact ⟨rfl, sameFiles_service htask h⟩

end Files

/-! ## Who holds the lock -/

/-- From `try_lock_exclusive` to `unlock`. -/
def Main.holdsLock : Main → Bool
  | .starting => false
  | .unlocked => false
  | .ended => false
  | _ => true

/-- Where a process is, and whether it has tasks. -/
def Process.place (p : Process) : Main × Bool := (p.main, p.tasks.isSome)

namespace Directory

variable {F : Formats} {threshold : Nat} {stateDir : Path} {d d' : Directory} {i : Nat}

def place (d : Directory) (i : Nat) : Option (Main × Bool) := (d.processes[i]?).map Process.place

/-- The lock is held from `try_lock_exclusive` to `unlock`, and tasks run under it or right after
it. -/
structure Locked (d : Directory) : Prop where
  lock : ∀ i, d.lock = some i ↔ (d.place i).any (fun m => m.1.holdsLock) = true
  tasks : ∀ i main, d.place i = some (main, true) → main.holdsLock = true ∨ main = .unlocked

theorem Locked.move (main : Main) (tasks : Bool) (h : d.Locked)
    (hself : d'.place i = some (main, tasks)) (hothers : ∀ j, j ≠ i → d'.place j = d.place j)
    (hlock : d'.lock = some i ↔ main.holdsLock = true)
    (hlocks : ∀ j, j ≠ i → (d'.lock = some j ↔ d.lock = some j))
    (htasks : tasks = true → main.holdsLock = true ∨ main = .unlocked) : d'.Locked := by
  constructor
  · intro j
    by_cases hj : j = i
    · rw [hj, hself]
      exact hlock
    · rw [hothers j hj]
      exact (hlocks j hj).trans (h.lock j)
  · intro j main' hplace
    by_cases hj : j = i
    · rw [hj, hself] at hplace
      obtain ⟨rfl, rfl⟩ := Prod.mk.inj (Option.some.inj hplace)
      exact htasks rfl
    · rw [hothers j hj] at hplace
      exact h.tasks j main' hplace

theorem place_insert (processes : Std.ExtTreeMap Nat Process) (lock socket : Option Nat)
    (disk : Disk) (i j : Nat) (p : Process) : place ⟨lock, socket, disk, processes.insert i p⟩ j =
      if i = j then some p.place else (processes[j]?).map Process.place := by
  rw [place, Std.ExtTreeMap.getElem?_insert]
  by_cases hij : i = j
  · rw [if_pos hij, if_pos (by rw [hij]; exact Std.ReflCmp.compare_self)]
    rfl
  · rw [if_neg hij, if_neg (fun heq => hij (Std.LawfulEqCmp.eq_of_compare heq))]

theorem Locked.stay {p : Process} {main : Main} {tasks : Option Service}
    {socket : Option Nat} {disk : Disk} (h : d.Locked) (hp : d.processes[i]? = some p)
    (hholds : main.holdsLock = p.main.holdsLock)
    (htasks : tasks.isSome = true → main.holdsLock = true ∨ main = .unlocked) :
    Locked ⟨d.lock, socket, disk, d.processes.insert i ⟨main, tasks⟩⟩ := by
  have hplace : d.place i = some p.place := by rw [place, hp]; rfl
  refine h.move (i := i) main tasks.isSome ?_ (fun j hj => ?_) ?_ (fun _ _ => Iff.rfl) htasks
  · rw [place_insert, if_pos rfl]
    rfl
  · rw [place_insert, if_neg (Ne.symm hj)]
    rfl
  · rw [hholds, h.lock i, hplace]
    rfl

theorem Locked.pass {main : Main} {tasks : Option Service} {lock : Option Nat} (h : d.Locked)
    (hlock : lock = some i ↔ main.holdsLock = true)
    (hlocks : ∀ j, j ≠ i → (lock = some j ↔ d.lock = some j))
    (htasks : tasks.isSome = true → main.holdsLock = true ∨ main = .unlocked) :
    Locked ⟨lock, d.socket, d.disk, d.processes.insert i ⟨main, tasks⟩⟩ := by
  refine h.move (i := i) main tasks.isSome ?_ (fun j hj => ?_) hlock hlocks htasks
  · rw [place_insert, if_pos rfl]
    rfl
  · rw [place_insert, if_neg (Ne.symm hj)]
    rfl

theorem Locked.holds {p : Process} (h : d.Locked) (hp : d.processes[i]? = some p) :
    d.lock = some i ↔ p.main.holdsLock = true := by
  rw [h.lock i, place, hp]
  rfl

theorem Locked.hasTasks {p : Process} (h : d.Locked) (hp : d.processes[i]? = some p)
    (htasks : p.tasks.isSome = true) : p.main.holdsLock = true ∨ p.main = .unlocked := by
  refine h.tasks i p.main ?_
  rw [place, hp, Option.map_some, Process.place, htasks]

theorem place_detach (disk : Disk) (names : List String) (p : Process) :
    (p.detach disk names).place = p.place := by
  rw [Process.place, Process.detach, Option.isSome_map]
  rfl

/-- **A step keeps the lock with the processes that are between `try_lock_exclusive` and
`unlock`.** -/
theorem Locked.step {e : ProcessEvent} (h : d.Locked) (hstep : d.Step F threshold stateDir i e d') :
    d'.Locked := by
  cases hstep with
  | launch hfree =>
    have hnot : d.lock ≠ some i := by
      rw [Ne, h.lock i, place, hfree]
      exact Bool.false_ne_true
    exact h.pass ⟨fun heq => absurd heq hnot, nofun⟩ (fun _ _ => Iff.rfl) nofun
  | acquired hp hlock =>
    refine h.pass ⟨fun _ => rfl, fun _ => rfl⟩ (fun j hj => ?_) fun _ => .inl rfl
    rw [hlock]
    exact ⟨fun heq => absurd (Option.some.inj heq).symm hj, nofun⟩
  | refused hp hlock =>
    refine h.stay hp rfl fun htasks => ?_
    rcases h.hasTasks hp htasks with hholds | hmain
    · cases hholds
    · cases hmain
  | found hp _ | clear hp _ | stale hp | removed hp | closed hp | unbound hp _ | bound hp _
  | shutDown hp | interrupt hp => exact h.stay hp rfl fun _ => .inl rfl
  | @task main s s' e hp _ =>
    refine h.move (i := i) main true ?_ (fun j hj => ?_) (h.holds hp) (fun _ _ => Iff.rfl)
      fun _ => h.hasTasks hp rfl
    · rw [place_insert, if_pos rfl]
      rfl
    · rw [place_insert, if_neg (Ne.symm hj), Std.ExtTreeMap.getElem?_map, Option.map_map, place]
      congr 1
      exact funext fun q => place_detach ..
  | unlock hp =>
    have hheld := (h.holds hp).mpr rfl
    refine h.pass ⟨nofun, nofun⟩ (fun j hj => ?_) fun _ => .inr rfl
    rw [hheld]
    exact ⟨nofun, fun heq => absurd (Option.some.inj heq).symm hj⟩
  | dropRuntime hp => exact h.stay hp rfl nofun
  | crash hp _ =>
    refine h.pass ?_ (fun j hj => ?_) nofun
    · split
      · exact ⟨nofun, nofun⟩
      · next hnot => exact ⟨fun heq => absurd heq hnot, nofun⟩
    · split
      · next hheld =>
        rw [hheld]
        exact ⟨nofun, fun heq => absurd (Option.some.inj heq).symm hj⟩
      · exact Iff.rfl

theorem locked_of_exec {es : List (Nat × ProcessEvent)}
    (h : Exec (directory F threshold stateDir) es d) :
    d.Locked := by
  refine h.invariant (I := fun _ d => d.Locked) ?_ ?_
  · rintro d ⟨hlock, hprocesses⟩
    have hplace : ∀ i, d.place i = none := fun i => by
      rw [place, hprocesses, Std.ExtTreeMap.getElem?_empty]
      rfl
    constructor
    · intro i
      rw [hlock, hplace]
      exact ⟨nofun, nofun⟩
    · intro i main hmain
      rw [hplace] at hmain
      cases hmain
  · rintro es d ⟨i, e⟩ d' - hlocked hnext
    exact hlocked.step (step_of_next hnext)

/-- **A writer holds the lock exactly if it has not given it up.** -/
theorem Locked.writer {e : ProcessEvent} (h : d.Locked) (hstep : d.Step F threshold stateDir i e d')
    (hwrites : d.writes F (i, e) = true) :
    d.lock = some i ↔ ∀ p, d.processes[i]? = some p → p.main ≠ .unlocked := by
  have hother : ∀ main tasks, d.processes[i]? = some ⟨main, tasks⟩ → main.holdsLock = true →
      (d.lock = some i ↔ ∀ p, d.processes[i]? = some p → p.main ≠ .unlocked) := by
    intro main tasks hp hholds
    refine ⟨fun _ p hp' hunlocked => ?_, fun _ => (h.holds hp).mpr hholds⟩
    obtain rfl := Option.some.inj (hp.symm.trans hp')
    obtain rfl : main = .unlocked := hunlocked
    cases hholds
  cases hstep with
  | launch _ | acquired _ _ | refused _ _ | found _ _ | clear _ _ | shutDown _ | interrupt _
  | unlock _ | dropRuntime _ | crash _ _ => cases hwrites
  | stale hp | removed hp | closed hp | unbound hp _ | bound hp _ => exact hother _ _ hp rfl
  | task hp _ =>
    rcases h.hasTasks hp rfl with hholds | hunlocked
    · exact hother _ _ hp hholds
    · refine ⟨fun hheld => ?_, fun hnot => absurd hunlocked (hnot _ hp)⟩
      rw [h.holds hp, hunlocked] at hheld
      cases hheld

end Directory

/-- **Every write is the lock holder's, exactly as long as no process writes after it has given up
the lock.** -/
theorem single_writer {F : Formats} {threshold : Nat} {stateDir : Path}
    {es : List (Nat × ProcessEvent)} {d : Directory} :
    Exec ((directory F threshold stateDir).restrict (Directory.ByHolder F)) es d ↔
      Exec ((directory F threshold stateDir).restrict (Directory.BeforeUnlock F)) es d := by
  refine Exec.restrict_congr ?_
  rintro es d ⟨i, e⟩ d' hx hnext
  have hwriter := fun hwrites => (Directory.locked_of_exec hx).writer
    (Directory.step_of_next hnext) hwrites
  exact ⟨fun h hwrites => (hwriter hwrites).mp (h hwrites),
    fun h hwrites => (hwriter hwrites).mpr (h hwrites)⟩

/-! ## A daemon that is stopped while a client is connected -/

def stopRequest : ServiceEvent := .connection 1 (.request .stop noFaults (readingsAt 1))

def latePost : ServiceEvent :=
  .connection 0 (.request (.post "iot_base/dev_01" "hello" .normal none false) noFaults
    (readingsAt 2))

/-- One client stops the daemon, another one stays connected, and a second daemon takes over. -/
def takeover : List (Nat × ProcessEvent) :=
  [(0, .launch), (0, .tryLock), (0, .lookForSocket), (0, .bind false 0), (0, .task (.accept 0)),
    (0, .task (.accept 1)), (0, .task stopRequest), (0, .task (.connection 1 .sent)),
    (0, .task (.connection 1 .signal)), (0, .shutDown), (0, .removeSocket false), (0, .unlock),
    (1, .launch), (1, .tryLock), (1, .lookForSocket), (1, .bind false 0)]

/-- The first daemon can append while the second one holds the lock. -/
def Directory.appendsUnlocked (d : Directory) : Bool :=
  (d.next .reference idleShutdownSecs "/state" (0, .task latePost)).isSome &&
    d.writes .reference (0, .task latePost) && decide (d.lock = some 1)

/-- A connection that the first daemon has not dropped yet appends while the second one serves. -/
theorem late_post_unlocked : ∃ d d',
    Exec (directory .reference idleShutdownSecs "/state") (takeover ++ [(0, .task latePost)]) d' ∧
    Exec (directory .reference idleShutdownSecs "/state") takeover d ∧
    d.next .reference idleShutdownSecs "/state" (0, .task latePost) = some d' ∧
    d.writes .reference (0, .task latePost) = true ∧ d.lock = some 1 := by
  have hinit : (directory .reference idleShutdownSecs "/state").init ⟨none, none, ∅, ∅⟩ :=
    ⟨rfl, rfl⟩
  obtain ⟨d, hx, hP⟩ := Exec.exists_of_replay (fun _ _ => true) takeover Directory.appendsUnlocked
    (fun _ _ _ _ hs => hs) hinit (by decide)
  obtain ⟨hP, hlock⟩ := Bool.and_eq_true_iff.mp hP
  obtain ⟨hnext, hwrites⟩ := Bool.and_eq_true_iff.mp hP
  obtain ⟨d', hd'⟩ := Option.isSome_iff_exists.mp hnext
  exact ⟨d, d', hx.of_restrict.step hd', hx.of_restrict, hd', hwrites, of_decide_eq_true hlock⟩

end AgentBus
