import AgentBus.Core.Ulid
import AgentBus.Daemon.Requests
import AgentBus.Daemon.Service

/-!
# Daemons over time

One daemon after the other over one state directory, with one clock that never
goes back. A daemon's sweep runs within a minute of its start and of the sweep
before, and succeeds; everything else may fail.
-/

namespace AgentBus

open Lib

def sweepIntervalSecs : Nat := 60

/-- A daemon and its clock. -/
structure Timeline (G : IdSource) where
  service : Service
  source : G.State
  /-- The wall clock in milliseconds. -/
  now : Nat
  /-- When the partitions were last swept; at first, when the daemon started. -/
  swept : Nat

inductive TimelineEvent where
  /-- The process ends, however it does, and another one starts. -/
  | restart (now instant : Nat)
  /-- A step of the daemon, and the random bits for an id. -/
  | step (now random : Nat) (e : ServiceEvent)

/-- A request's clock readings. -/
def Readings.at (now : Nat) (r : Readings) : Readings :=
  { r with secs := now / 1000, millis := fun _ => now }

namespace Timeline

variable {G : IdSource}

/-- The step with what the clock and the generator give. -/
def stamp (now random : Nat) (t : Timeline G) : ServiceEvent → Option (ServiceEvent × G.State)
  | .connection i (.request q faults r) =>
    if q.drawsId then
      (G.generate t.source now random).map fun (id, source) =>
        (.connection i (.request q faults { r.at now with id }), source)
    else some (.connection i (.request q faults (r.at now)), t.source)
  | .sweep (.prune _ _ instant) =>
    some (.sweep (.prune (fun _ => none) (now / 1000) instant), t.source)
  | e => some (e, t.source)

def sweptAfter (now swept : Nat) : ServiceEvent → Nat
  | .sweep (.prune _ _ _) => now
  | _ => swept

def start (G : IdSource) (stateDir : Path) (now instant : Nat) (disk : Disk) : Timeline G :=
  ⟨.start ⟨.new stateDir instant, disk⟩, G.fresh, now, now⟩

def next (F : Formats) (threshold : Nat) (stateDir : Path) (t : Timeline G) :
    TimelineEvent → Option (Timeline G)
  | .restart now instant =>
    if t.now ≤ now then some (start G stateDir now instant t.service.shared.bus.disk) else none
  | .step now random e =>
    if t.now ≤ now ∧ now ≤ t.swept + sweepIntervalSecs * 1000 then
      (t.stamp now random e).bind fun (e, source) =>
        (t.service.next F threshold e).map fun service =>
          ⟨service, source, now, sweptAfter now t.swept e⟩
    else none

end Timeline

/-- Any number of daemons, from any disk on. -/
def timeline (G : IdSource) (F : Formats) (threshold : Nat) (stateDir : Path) :
    System (Timeline G) TimelineEvent where
  init t := ∃ now instant disk, t = .start G stateDir now instant disk
  step _ t e t' := t.next F threshold stateDir e = some t'

/-! ## Steps -/

/-- What the clock and the generator give. -/
inductive Timeline.Stamped {G : IdSource} (t : Timeline G) (now random : Nat) :
    ServiceEvent → ServiceEvent → G.State → Prop where
  | drawn {i : Nat} {q : Request} {faults : Faults} {r : Readings} {id : Ulid} {source : G.State} :
      G.generate t.source now random = some (id, source) →
      Stamped t now random (.connection i (.request q faults r))
        (.connection i (.request q faults { r.at now with id })) source
  | request {i : Nat} {q : Request} {faults : Faults} {r : Readings} : q.drawsId = false →
      Stamped t now random (.connection i (.request q faults r))
        (.connection i (.request q faults (r.at now))) t.source
  | prune {faults : String → Option Partition.PruneFault} {secs instant : Nat} :
      Stamped t now random (.sweep (.prune faults secs instant))
        (.sweep (.prune (fun _ => none) (now / 1000) instant)) t.source
  | other {e : ServiceEvent} : (∀ i q faults r, e ≠ .connection i (.request q faults r)) →
      (∀ faults secs instant, e ≠ .sweep (.prune faults secs instant)) →
      Stamped t now random e e t.source

/-- What one step of a timeline can do. -/
inductive Timeline.Step {G : IdSource} (F : Formats) (threshold : Nat) (stateDir : Path)
    (t : Timeline G) : TimelineEvent → Timeline G → Prop where
  | restart {now instant : Nat} : t.now ≤ now →
      Step F threshold stateDir t (.restart now instant)
        (start G stateDir now instant t.service.shared.bus.disk)
  | step {now random : Nat} {e e' : ServiceEvent} {source : G.State}
      {service : Service} : t.now ≤ now →
      now ≤ t.swept + sweepIntervalSecs * 1000 → t.Stamped now random e e' source →
      t.service.Step F threshold e' service →
      Step F threshold stateDir t (.step now random e)
        ⟨service, source, now, sweptAfter now t.swept e'⟩

namespace Timeline

variable {G : IdSource} {F : Formats} {threshold : Nat} {stateDir : Path} {t t' : Timeline G}

theorem stamped_of_stamp {now random : Nat} {e e' : ServiceEvent} {source : G.State}
    (h : t.stamp now random e = some (e', source)) : t.Stamped now random e e' source := by
  unfold stamp at h
  split at h
  · split at h
    · obtain ⟨⟨id, source'⟩, hdraw, heq⟩ := Option.map_eq_some_iff.mp h
      obtain ⟨rfl, rfl⟩ := Prod.mk.inj heq
      exact .drawn hdraw
    · next hdraws =>
      obtain ⟨rfl, rfl⟩ := Prod.mk.inj (Option.some.inj h)
      exact .request (Bool.eq_false_iff.mpr hdraws)
  · obtain ⟨rfl, rfl⟩ := Prod.mk.inj (Option.some.inj h)
    exact .prune
  · next hrequest hprune =>
    obtain ⟨rfl, rfl⟩ := Prod.mk.inj (Option.some.inj h)
    exact .other hrequest hprune

theorem step_of_next {e : TimelineEvent} (h : t.next F threshold stateDir e = some t') :
    t.Step F threshold stateDir e t' := by
  unfold next at h
  split at h
  · split at h
    · next hnow =>
      obtain rfl := Option.some.inj h
      exact .restart hnow
    · cases h
  · split at h
    · next htimes =>
      obtain ⟨⟨e', source⟩, hstamp, h⟩ := Option.bind_eq_some_iff.mp h
      obtain ⟨service, hnext, rfl⟩ := Option.map_eq_some_iff.mp h
      exact .step htimes.1 htimes.2 (stamped_of_stamp hstamp) (Service.step_of_next hnext)
    · cases h

end Timeline

end AgentBus
