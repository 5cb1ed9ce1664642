import AgentBus.Core.Reference
import AgentBus.Daemon.Connection
import AgentBus.Lib.Runs
import AgentBus.Lib.TreeMaps

/-!
# A daemon's tasks

A running daemon is any number of connections and one sweep, which prunes every
minute and decides whether the daemon is idle. `service` interleaves their
steps in every order.
-/

namespace AgentBus

open Lib

/-! ## The sweep -/

def idleShutdownSecs : Nat := 5400

/-- Should the daemon exit for idleness? -/
def shouldShutdown (idleSecs parkedClients thresholdSecs : Nat) : Bool :=
  parkedClients == 0 && decide (thresholdSecs ≤ idleSecs)

inductive Sweeper where
  | sleeping
  /-- The partitions are pruned, and the lock is released. -/
  | pruned (idleSecs : Nat)
  /-- The waiters are loaded, the followers are not. -/
  | waitersLoaded (idleSecs waiters : Nat)
  | parkedLoaded (idleSecs parked : Nat)
  /-- Sending the shutdown signal. -/
  | signalling
  | finished

inductive SweepEvent where
  /-- One section under the lock, which ends with a look at the clock. -/
  | prune (faults : String → Option Partition.PruneFault) (now instant : Nat)
  | loadWaiters
  | loadFollowers
  | decide
  | signal

/-- One step of the sweep. A prune that fails is logged only. -/
def Sweeper.next (F : Formats) (threshold : Nat) (sh : Shared) : Sweeper → SweepEvent →
    Option (Shared × Sweeper)
  | .sleeping, .prune faults now instant =>
    let (_, b) := sh.bus.pruneAll F faults now
    some ({ sh with bus := b }, .pruned (b.state.idleSecs instant))
  | .pruned idleSecs, .loadWaiters => some (sh, .waitersLoaded idleSecs sh.activeWaiters)
  | .waitersLoaded idleSecs waiters, .loadFollowers =>
    some (sh, .parkedLoaded idleSecs (waiters + sh.activeFollowers))
  | .parkedLoaded idleSecs parked, .decide =>
    some (sh, if shouldShutdown idleSecs parked threshold then .signalling else .sleeping)
  | .signalling, .signal => some ({ sh with shutdowns := sh.shutdowns + 1 }, .finished)
  | _, _ => none

/-! ## All tasks -/

structure Service where
  shared : Shared
  connections : Std.ExtTreeMap Nat Connection
  sweeper : Sweeper

inductive ServiceEvent where
  /-- A client connects. -/
  | accept (i : Nat)
  | connection (i : Nat) (e : ConnectionEvent)
  | sweep (e : SweepEvent)

namespace Service

def start (b : Bus) : Service := ⟨⟨b, 0, 0, 0⟩, ∅, .sleeping⟩

def next (F : Formats) (threshold : Nat) (s : Service) : ServiceEvent → Option Service
  | .accept i =>
    match s.connections[i]? with
    | none => some { s with connections := s.connections.insert i .reading }
    | some _ => none
  | .connection i e =>
    match s.connections[i]? with
    | none => none
    | some c => (c.next F s.shared e).map fun r =>
      { s with shared := r.1, connections := s.connections.insert i r.2 }
  | .sweep e =>
    (s.sweeper.next F threshold s.shared e).map fun r => { s with shared := r.1, sweeper := r.2 }

end Service

/-- A daemon that starts on any disk. -/
def service (F : Formats) (threshold : Nat) (stateDir : Path) : System Service ServiceEvent where
  init s := ∃ disk now, s = .start ⟨.new stateDir now, disk⟩
  step _ s e s' := s.next F threshold e = some s'

variable {F : Formats} {threshold : Nat}

/-! ## Steps -/

/-- What one step of the sweep can do. -/
inductive Sweeper.Step (F : Formats) (threshold : Nat) (sh : Shared) :
    Sweeper → SweepEvent → Shared → Sweeper → Prop where
  | prune {faults : String → Option Partition.PruneFault} {now instant : Nat}
      {r : Except Failure Nat} {b : Bus} : sh.bus.pruneAll F faults now = (r, b) →
      Step F threshold sh .sleeping (.prune faults now instant) { sh with bus := b }
        (.pruned (b.state.idleSecs instant))
  | loadWaiters {idleSecs : Nat} :
      Step F threshold sh (.pruned idleSecs) .loadWaiters sh
        (.waitersLoaded idleSecs sh.activeWaiters)
  | loadFollowers {idleSecs waiters : Nat} :
      Step F threshold sh (.waitersLoaded idleSecs waiters) .loadFollowers sh
        (.parkedLoaded idleSecs (waiters + sh.activeFollowers))
  | idle {idleSecs parked : Nat} : parked = 0 → threshold ≤ idleSecs →
      Step F threshold sh (.parkedLoaded idleSecs parked) .decide sh .signalling
  | busy {idleSecs parked : Nat} :
      Step F threshold sh (.parkedLoaded idleSecs parked) .decide sh .sleeping
  | signal :
      Step F threshold sh .signalling .signal { sh with shutdowns := sh.shutdowns + 1 } .finished

theorem Sweeper.step_of_next {sh sh' : Shared} {w w' : Sweeper} {e : SweepEvent}
    (h : w.next F threshold sh e = some (sh', w')) : w.Step F threshold sh e sh' w' := by
  unfold next at h
  split at h
  case h_4 =>
    obtain ⟨rfl, rfl⟩ := Prod.mk.inj (Option.some.inj h)
    split
    · next hidle =>
      obtain ⟨hparked, hthreshold⟩ := Bool.and_eq_true_iff.mp hidle
      exact .idle (beq_iff_eq.mp hparked) (of_decide_eq_true hthreshold)
    · exact .busy
  case h_6 => cases h
  all_goals
    obtain ⟨rfl, rfl⟩ := Prod.mk.inj (Option.some.inj h)
    constructor
  rfl

/-- What one step of a daemon can do. -/
inductive Service.Step (F : Formats) (threshold : Nat) (s : Service) :
    ServiceEvent → Service → Prop where
  | accept {i : Nat} : s.connections[i]? = none →
      Step F threshold s (.accept i) { s with connections := s.connections.insert i .reading }
  | connection {i : Nat} {c c' : Connection} {e : ConnectionEvent} {sh : Shared} :
      s.connections[i]? = some c → c.Step F s.shared e sh c' →
      Step F threshold s (.connection i e)
        { s with shared := sh, connections := s.connections.insert i c' }
  | sweep {e : SweepEvent} {sh : Shared} {sweeper : Sweeper} :
      s.sweeper.Step F threshold s.shared e sh sweeper →
      Step F threshold s (.sweep e) { s with shared := sh, sweeper }

theorem Service.step_of_next {s s' : Service} {e : ServiceEvent}
    (h : s.next F threshold e = some s') : s.Step F threshold e s' := by
  unfold next at h
  split at h
  · split at h
    · next hfree =>
      obtain rfl := Option.some.inj h
      exact .accept hfree
    · cases h
  · split at h
    · cases h
    · next hc =>
      obtain ⟨⟨sh, c'⟩, hstep, rfl⟩ := Option.map_eq_some_iff.mp h
      exact .connection hc (Connection.step_of_next hstep)
  · obtain ⟨⟨sh, sweeper⟩, hstep, rfl⟩ := Option.map_eq_some_iff.mp h
    exact .sweep (Sweeper.step_of_next hstep)

/-! ## A fresh daemon -/

/-- A daemon on an empty disk, started at instant zero. -/
def freshService : Service := .start ⟨.new "/state" 0, ∅⟩

/-- The clocks some seconds after the start. -/
def readingsAt (secs : Nat) : Readings where
  instant _ := secs * 1000000000
  id := .fromParts (secs * 1000) 0
  ts := ""
  secs
  millis _ := secs * 1000
  pid := 1
  activeWaiters := 0
  activeFollowers := 0
  hashOrder := id

/-- What a replay of a fresh daemon shows. -/
theorem exec_of_freshService (threshold : Nat) (cond : Service → ServiceEvent → Bool)
    (es : List ServiceEvent) (P : Service → Bool)
    (h : (replay (Service.next .reference threshold) cond freshService es).any P = true) :
    ∃ s, Exec ((service .reference threshold "/state").restrict fun s e => cond s e = true) es s ∧
      P s = true := by
  have hinit : (service .reference threshold "/state").init freshService := ⟨∅, 0, rfl⟩
  exact Exec.exists_of_replay cond es P (fun _ _ _ _ hs => hs) hinit h

end AgentBus
