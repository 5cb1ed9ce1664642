import AgentBus.Daemon.Acts
import AgentBus.Daemon.World

/-!
# Daemons in succession

Any number of daemon processes over one state directory, one after the other,
each ended at any moment, with any fault in any input or output. A process that
dies inside a section is one whose section met a fault there, and then a
restart. `lineage` keeps what every step hands out beside the event;
`succession` is such a lineage in which the ids of posts increase.
-/

namespace AgentBus

open Lib

inductive SuccessionEvent where
  /-- The process ends, in whatever way, and the next one starts. -/
  | restart (instant : Nat)
  | step (e : ServiceEvent)

/-- An event and what it hands out. -/
structure Observed where
  event : SuccessionEvent
  handed : List Handing

namespace SuccessionEvent

def message : SuccessionEvent → Option Message
  | restart _ => none
  | step e => e.message

def handed (s : Service) (e : SuccessionEvent) (s' : Service) : List Handing :=
  match e with
  | restart _ => []
  | step e => s.handed e s'

def acknowledged (s : Service) (e : SuccessionEvent) (s' : Service) : List Message :=
  match e with
  | restart _ => []
  | step e => s.acknowledged e s'

/-- A sweep that finds the message older than the window. -/
def expires (m : Message) : SuccessionEvent → Bool
  | restart _ => false
  | step e => e.pruneSecs.any fun now => !RetentionPolicy.default.keeps now m

end SuccessionEvent

/-- The messages of the posts so far, whether they were stored or not. -/
def requested (es : List Observed) : List Message := es.flatMap fun o => o.event.message.toList

/-- Everything handed out so far. -/
def handedOut (es : List Observed) : List Handing := es.flatMap Observed.handed

@[simp] theorem requested_concat (es : List Observed) (o : Observed) :
    requested (es ++ [o]) = requested es ++ o.event.message.toList := by
  simp [requested]

@[simp] theorem handedOut_concat (es : List Observed) (o : Observed) :
    handedOut (es ++ [o]) = handedOut es ++ o.handed := by
  simp [handedOut]

def Service.advance (F : Formats) (threshold : Nat) (stateDir : Path) (s : Service) :
    SuccessionEvent → Option Service
  | .restart instant => some (.start ⟨.new stateDir instant, s.shared.bus.disk⟩)
  | .step e => s.next F threshold e

/-- From a directory without any partition's files. -/
def lineage (F : Formats) (threshold : Nat) (stateDir : Path) : System Service Observed where
  init s := ∃ instant disk, (∀ name, Fresh stateDir name disk) ∧
    s = .start ⟨.new stateDir instant, disk⟩
  step _ s o s' := s.advance F threshold stateDir o.event = some s' ∧ o.handed = o.event.handed s s'

/-- Every post has a greater id than the posts before it. -/
def succession (F : Formats) (threshold : Nat) (stateDir : Path) : System Service Observed where
  init s := ∃ instant disk, (∀ name, Fresh stateDir name disk) ∧
    s = .start ⟨.new stateDir instant, disk⟩
  step es s o s' := (∀ m ∈ o.event.message, ∀ m' ∈ requested es, m'.id < m.id) ∧
    s.advance F threshold stateDir o.event = some s' ∧ o.handed = o.event.handed s s'

variable {F : Formats} {threshold : Nat} {stateDir : Path} {es os : List Observed} {s s' : Service}

/-- A lineage is a succession if the ids of its posts increase. -/
theorem succession_of_lineage (h : Exec ((lineage F threshold stateDir).onward es s) os s')
    (hids : (requested (es ++ os)).Pairwise fun a b => a.id < b.id) :
    Exec ((succession F threshold stateDir).onward es s) os s' := by
  induction h with
  | init hi => exact .init hi
  | step _ hs ih =>
    rw [← List.append_assoc, requested_concat] at hids
    obtain ⟨hbefore, -, hlast⟩ := List.pairwise_append.mp hids
    exact (ih hbefore).step ⟨fun m hm m' hm' => hlast m' hm' m (Option.mem_toList.mpr hm), hs⟩

/-! ## Replays -/

/-- Events one after the other, as long as each is possible, with what they hand out. -/
def observe (F : Formats) (threshold : Nat) (stateDir : Path) :
    Service → List SuccessionEvent → Option (List Observed × Service)
  | s, [] => some ([], s)
  | s, e :: es => (s.advance F threshold stateDir e).bind fun s' =>
      (observe F threshold stateDir s' es).map fun r => (⟨e, e.handed s s'⟩ :: r.1, r.2)

theorem onward_of_observe {events : List SuccessionEvent}
    (hr : observe F threshold stateDir s events = some (os, s')) :
    Exec ((lineage F threshold stateDir).onward es s) os s' ∧ os.map Observed.event = events := by
  induction events generalizing es os s with
  | nil =>
    obtain ⟨rfl, rfl⟩ := Prod.mk.inj (Option.some.inj hr)
    exact ⟨.init rfl, rfl⟩
  | cons e events ih =>
    obtain ⟨s₁, hnext, hr⟩ := Option.bind_eq_some_iff.mp hr
    obtain ⟨⟨os', s₂⟩, hrest, heq⟩ := Option.map_eq_some_iff.mp hr
    obtain ⟨rfl, rfl⟩ := Prod.mk.inj heq
    have hstep : (lineage F threshold stateDir).step es s ⟨e, e.handed s s₁⟩ s₁ := ⟨hnext, rfl⟩
    obtain ⟨hx, hevents⟩ := ih hrest
    exact ⟨hx.cons hstep, by simp [hevents]⟩

theorem exec_of_observe {events : List SuccessionEvent}
    (h : Exec (succession F threshold stateDir) es s)
    (hr : observe F threshold stateDir s events = some (os, s'))
    (hids : (requested es ++ events.flatMap fun e => e.message.toList).Pairwise fun a b =>
      a.id < b.id) :
    Exec (succession F threshold stateDir) (es ++ os) s' ∧ os.map Observed.event = events := by
  obtain ⟨hx, hevents⟩ := onward_of_observe hr
  have hposts : requested os = events.flatMap fun e => e.message.toList := by
    rw [← hevents, List.flatMap_map, requested]
  refine ⟨h.onward (succession_of_lineage hx ?_), hevents⟩
  rwa [requested, List.flatMap_append, ← requested, ← requested, hposts]

/-! ## Samples -/

/-- A step of the first connection. -/
def SuccessionEvent.first (e : ConnectionEvent) : SuccessionEvent := .step (.connection 0 e)

/-- A post, some seconds after the epoch. -/
def SuccessionEvent.samplePost (secs : Nat) (broadcast : Bool) : SuccessionEvent :=
  .first (.request (.post "iot_base/dev_01" "" .normal none broadcast) noFaults (readingsAt secs))

def SuccessionEvent.sampleRead (label : String) (faults : Faults) : SuccessionEvent :=
  .first (.request (.read "iot_base/dev_01" label) faults (readingsAt 9))

/-- A message is read once its cursors are stored: not before the crash, but after it, and once. -/
def sampleSuccession : List SuccessionEvent :=
  [.step (.accept 0), .samplePost 1 true, .first .sent,
    .sampleRead "alice" { noFaults with persist := some .rename }, .restart 0, .step (.accept 0),
    .sampleRead "alice" noFaults, .first .sent, .samplePost 2 false, .first .sent,
    .sampleRead "alice" noFaults]

theorem init_freshService (threshold : Nat) :
    (succession .reference threshold "/state").init freshService :=
  ⟨0, ∅, fun _ => ⟨Std.ExtTreeMap.getElem?_empty, Std.ExtTreeMap.getElem?_empty⟩, rfl⟩

theorem exec_of_sampleSuccession (threshold : Nat) (events : List SuccessionEvent)
    (P : List Observed → Bool)
    (hr : (observe .reference threshold "/state" freshService events).any (fun r => P r.1) = true)
    (hids : (events.flatMap fun e => e.message.toList).Pairwise fun a b => a.id < b.id) :
    ∃ es s, Exec (succession .reference threshold "/state") es s ∧ es.map Observed.event = events ∧
      P es = true := by
  obtain ⟨⟨es, s⟩, heq, hP⟩ := (Option.any_eq_true _ _).mp hr
  obtain ⟨hx, hevents⟩ := exec_of_observe (.init (init_freshService threshold)) heq
    (by simpa [requested] using hids)
  exact ⟨es, s, by simpa using hx, hevents, hP⟩

end AgentBus
