import AgentBus.Daemon.Service

/-!
# Processes over one state directory

Any number of processes run `main` over one state directory: each takes the
lock or exits, replaces a stale socket, serves, removes its socket, gives up
the lock and drops its runtime. The tasks run from the moment the socket is
bound until the runtime is dropped.
-/

namespace AgentBus

open Lib

/-- Where a process is in `main` and `serve`. -/
inductive Main where
  | starting
  /-- Holding the lock. -/
  | locked
  /-- There is a socket to remove. -/
  | removing
  | binding
  | serving
  /-- The accept loop has ended. -/
  | stopping
  /-- `serve` has returned. -/
  | returned
  /-- The lock is given up, the runtime is not dropped. -/
  | unlocked
  | ended
  deriving DecidableEq

structure Process where
  main : Main
  /-- The tasks on the runtime, once there are any. -/
  tasks : Option Service

/-- A state directory and the processes over it. -/
structure Directory where
  /-- Who holds the lock. -/
  lock : Option Nat
  /-- Who bound the socket. -/
  socket : Option Nat
  disk : Disk
  processes : Std.ExtTreeMap Nat Process

inductive ProcessEvent where
  | launch
  | tryLock
  | lookForSocket
  | removeSocket (fails : Bool)
  | bind (fails : Bool) (instant : Nat)
  | task (e : ServiceEvent)
  /-- The accept loop receives a shutdown signal. -/
  | shutDown
  | interrupt
  | unlock
  | dropRuntime
  /-- The process dies, or `main` returns early. -/
  | crash

/-! ## Renamed logs -/

/-- Does pruning rename a new file over the log? -/
def Partition.rewrites (fault : Option Partition.PruneFault) (p : Partition)
    (policy : RetentionPolicy) (now : Nat) : Bool :=
  (p.log.messages.any fun m => !policy.retains (m.ageSecs now)) &&
    match fault.bind Partition.PruneFault.logFault with
    | none => true
    | some .reopen => true
    | some _ => false

/-- The partitions of these whose logs a sweep renames over. -/
def Bus.rewritten (F : Formats) (faults : String → Option Partition.PruneFault) (now : Nat) :
    List String → Bus → List String
  | [], _ => []
  | n :: names, b =>
    let here :=
      if (b.state.partitions[n]?).any fun p => p.rewrites (faults n) b.state.policy now then [n]
      else []
    match b.pruneOne F (faults n) now n with
    | (.error _, _) => here
    | (.ok _, b) => here ++ b.rewritten F faults now names

def Service.rewritten (F : Formats) (s : Service) : ServiceEvent → List String
  | .sweep (.prune faults now _) =>
    s.shared.bus.rewritten F faults now s.shared.bus.state.partitions.keys
  | _ => []

/-- A log that another process renames over leaves this one's handle on a file without a name. -/
def BusState.detach (disk : Disk) (names : List String) (s : BusState) : BusState :=
  let unlink (q : Partition) : Partition := { q with log := q.log.unlink disk }
  { s with partitions := names.foldl (fun partitions n => partitions.modify n unlink) s.partitions }

def Process.detach (disk : Disk) (names : List String) (p : Process) : Process :=
  { p with tasks := p.tasks.map fun s =>
    { s with shared.bus.state := s.shared.bus.state.detach disk names } }

/-! ## Steps -/

/-- The tasks see the disk as it is. -/
def Service.on (disk : Disk) (s : Service) : Service := { s with shared.bus.disk := disk }

def ServiceEvent.isAccept : ServiceEvent → Bool
  | .accept _ => true
  | _ => false

namespace Directory

variable (F : Formats) (threshold : Nat) (stateDir : Path)

def put (d : Directory) (i : Nat) (p : Process) : Directory :=
  { d with processes := d.processes.insert i p }

/-- A step of the tasks of one process. -/
def task (d : Directory) (i : Nat) (p : Process) (e : ServiceEvent) : Option Directory :=
  p.tasks.bind fun s =>
    ((s.on d.disk).next F threshold e).map fun s' =>
      let names := (s.on d.disk).rewritten F e
      { d with
          disk := s'.shared.bus.disk
          processes := (d.processes.map fun _ q => q.detach d.disk names).insert i
            { p with tasks := some s' } }

/-- A step of a process that runs. -/
def act (d : Directory) (i : Nat) (p : Process) : ProcessEvent → Option Directory
  | .launch => none
  | .tryLock =>
    if p.main = .starting then
      match d.lock with
      | none => some ({ d with lock := some i }.put i { p with main := .locked })
      | some _ => some (d.put i { p with main := .ended })
    else none
  | .lookForSocket =>
    if p.main = .locked then
      some (d.put i { p with main := if d.socket.isSome then .removing else .binding })
    else none
  | .removeSocket fails =>
    match p.main with
    | .removing =>
      if fails then some (d.put i { p with main := .returned })
      else some ({ d with socket := none }.put i { p with main := .binding })
    | .stopping =>
      -- the result is not looked at
      some ({ d with socket := if fails then d.socket else none }.put i
        { p with main := .returned })
    | _ => none
  | .bind fails instant =>
    if p.main = .binding then
      if fails || d.socket.isSome then some (d.put i { p with main := .returned })
      else
        some ({ d with socket := some i }.put i
          ⟨.serving, some (.start ⟨.new stateDir instant, d.disk⟩)⟩)
    else none
  | .task e => if e.isAccept && p.main ≠ .serving then none else d.task F threshold i p e
  | .shutDown =>
    if p.main = .serving ∧ p.tasks.any (fun s => decide (0 < s.shared.shutdowns)) = true then
      some (d.put i { p with main := .stopping })
    else none
  | .interrupt => if p.main = .serving then some (d.put i { p with main := .stopping }) else none
  | .unlock =>
    if p.main = .returned then some ({ d with lock := none }.put i { p with main := .unlocked })
    else none
  | .dropRuntime => if p.main = .unlocked then some (d.put i ⟨.ended, none⟩) else none
  | .crash =>
    if p.main = .ended then none
    else some ({ d with lock := if d.lock = some i then none else d.lock }.put i ⟨.ended, none⟩)

def next (d : Directory) : Nat × ProcessEvent → Option Directory
  | (i, e) =>
    match d.processes[i]?, e with
    | none, .launch => some (d.put i ⟨.starting, none⟩)
    | none, _ => none
    | some p, e => d.act F threshold stateDir i p e

end Directory

/-- From a directory without processes, whatever earlier ones left in it. -/
def directory (F : Formats) (threshold : Nat) (stateDir : Path) :
    System Directory (Nat × ProcessEvent) where
  init d := d.lock = none ∧ d.processes = ∅
  step _ d e d' := d.next F threshold stateDir e = some d'

/-- What one step of the process `i` can do. -/
inductive Directory.Step (F : Formats) (threshold : Nat) (stateDir : Path)
    (d : Directory) (i : Nat) : ProcessEvent → Directory → Prop where
  | launch : d.processes[i]? = none →
      Step F threshold stateDir d i .launch (d.put i ⟨.starting, none⟩)
  | acquired {tasks : Option Service} : d.processes[i]? = some ⟨.starting, tasks⟩ → d.lock = none →
      Step F threshold stateDir d i .tryLock ({ d with lock := some i }.put i ⟨.locked, tasks⟩)
  | refused {tasks : Option Service} {j : Nat} : d.processes[i]? = some ⟨.starting, tasks⟩ →
      d.lock = some j → Step F threshold stateDir d i .tryLock (d.put i ⟨.ended, tasks⟩)
  | found {tasks : Option Service} : d.processes[i]? = some ⟨.locked, tasks⟩ →
      d.socket.isSome = true → Step F threshold stateDir d i .lookForSocket
        (d.put i ⟨.removing, tasks⟩)
  | clear {tasks : Option Service} : d.processes[i]? = some ⟨.locked, tasks⟩ →
      d.socket.isSome = false → Step F threshold stateDir d i .lookForSocket
        (d.put i ⟨.binding, tasks⟩)
  | stale {tasks : Option Service} : d.processes[i]? = some ⟨.removing, tasks⟩ →
      Step F threshold stateDir d i (.removeSocket true) (d.put i ⟨.returned, tasks⟩)
  | removed {tasks : Option Service} : d.processes[i]? = some ⟨.removing, tasks⟩ →
      Step F threshold stateDir d i (.removeSocket false)
        ({ d with socket := none }.put i ⟨.binding, tasks⟩)
  | closed {tasks : Option Service} {fails : Bool} : d.processes[i]? = some ⟨.stopping, tasks⟩ →
      Step F threshold stateDir d i (.removeSocket fails)
        ({ d with socket := if fails then d.socket else none }.put i ⟨.returned, tasks⟩)
  | unbound {tasks : Option Service} {fails : Bool} {instant : Nat} :
      d.processes[i]? = some ⟨.binding, tasks⟩ → (fails || d.socket.isSome) = true →
      Step F threshold stateDir d i (.bind fails instant) (d.put i ⟨.returned, tasks⟩)
  | bound {tasks : Option Service} {instant : Nat} :
      d.processes[i]? = some ⟨.binding, tasks⟩ → d.socket = none →
      Step F threshold stateDir d i (.bind false instant)
        ({ d with socket := some i }.put i ⟨.serving,
          some (.start ⟨.new stateDir instant, d.disk⟩)⟩)
  | task {main : Main} {s s' : Service} {e : ServiceEvent} : d.processes[i]? = some ⟨main, some s⟩ →
      (s.on d.disk).Step F threshold e s' →
      Step F threshold stateDir d i (.task e)
        { d with
            disk := s'.shared.bus.disk
            processes :=
              (d.processes.map fun _ q => q.detach d.disk ((s.on d.disk).rewritten F e)).insert i
              ⟨main, some s'⟩ }
  | shutDown {tasks : Option Service} : d.processes[i]? = some ⟨.serving, tasks⟩ →
      Step F threshold stateDir d i .shutDown (d.put i ⟨.stopping, tasks⟩)
  | interrupt {tasks : Option Service} : d.processes[i]? = some ⟨.serving, tasks⟩ →
      Step F threshold stateDir d i .interrupt (d.put i ⟨.stopping, tasks⟩)
  | unlock {tasks : Option Service} : d.processes[i]? = some ⟨.returned, tasks⟩ →
      Step F threshold stateDir d i .unlock ({ d with lock := none }.put i ⟨.unlocked, tasks⟩)
  | dropRuntime {tasks : Option Service} : d.processes[i]? = some ⟨.unlocked, tasks⟩ →
      Step F threshold stateDir d i .dropRuntime (d.put i ⟨.ended, none⟩)
  | crash {p : Process} : d.processes[i]? = some p → p.main ≠ .ended →
      Step F threshold stateDir d i .crash
        ({ d with lock := if d.lock = some i then none else d.lock }.put i ⟨.ended, none⟩)

theorem Directory.step_of_next {F : Formats} {threshold : Nat} {stateDir : Path}
    {d d' : Directory} {i : Nat} {e : ProcessEvent}
    (h : d.next F threshold stateDir (i, e) = some d') : d.Step F threshold stateDir i e d' := by
  rcases hp : d.processes[i]? with _ | ⟨main, tasks⟩
  · simp only [next, hp] at h
    cases e with
    | launch =>
      obtain rfl := Option.some.inj h
      exact .launch hp
    | _ => cases h
  · simp only [next, hp] at h
    cases e with
    | launch => cases h
    | tryLock =>
      obtain ⟨rfl, h⟩ := Option.ite_none_right_eq_some.mp h
      split at h
      · next hlock =>
        obtain rfl := Option.some.inj h
        exact .acquired hp hlock
      · next hlock =>
        obtain rfl := Option.some.inj h
        exact .refused hp hlock
    | lookForSocket =>
      obtain ⟨rfl, h⟩ := Option.ite_none_right_eq_some.mp h
      obtain rfl := Option.some.inj h
      cases hsocket : d.socket.isSome with
      | true => exact .found hp hsocket
      | false => exact .clear hp hsocket
    | removeSocket fails =>
      cases main with
      | removing =>
        cases fails with
        | true =>
          obtain rfl := Option.some.inj h
          exact .stale hp
        | false =>
          obtain rfl := Option.some.inj h
          exact .removed hp
      | stopping =>
        obtain rfl := Option.some.inj h
        exact .closed hp
      | _ => cases h
    | bind fails instant =>
      obtain ⟨rfl, hbind⟩ := Option.ite_none_right_eq_some.mp h
      split at hbind
      · next hfails =>
        obtain rfl := Option.some.inj hbind
        exact .unbound hp hfails
      · next hfree =>
        obtain rfl := Option.some.inj hbind
        obtain ⟨rfl, hsocket⟩ := Bool.or_eq_false_iff.mp (Bool.eq_false_iff.mpr hfree)
        exact .bound hp (Option.isNone_iff_eq_none.mp (Option.isSome_eq_false_iff.mp hsocket))
    | task e =>
      obtain ⟨-, h⟩ := Option.ite_none_left_eq_some.mp h
      obtain ⟨s, rfl, h⟩ := Option.bind_eq_some_iff.mp h
      obtain ⟨s', hnext, rfl⟩ := Option.map_eq_some_iff.mp h
      exact .task hp (Service.step_of_next hnext)
    | shutDown =>
      obtain ⟨⟨rfl, -⟩, h⟩ := Option.ite_none_right_eq_some.mp h
      obtain rfl := Option.some.inj h
      exact .shutDown hp
    | interrupt =>
      obtain ⟨rfl, h⟩ := Option.ite_none_right_eq_some.mp h
      obtain rfl := Option.some.inj h
      exact .interrupt hp
    | unlock =>
      obtain ⟨rfl, h⟩ := Option.ite_none_right_eq_some.mp h
      obtain rfl := Option.some.inj h
      exact .unlock hp
    | dropRuntime =>
      obtain ⟨rfl, h⟩ := Option.ite_none_right_eq_some.mp h
      obtain rfl := Option.some.inj h
      exact .dropRuntime hp
    | crash =>
      obtain ⟨hmain, h⟩ := Option.ite_none_left_eq_some.mp h
      obtain rfl := Option.some.inj h
      exact .crash hp hmain

end AgentBus
