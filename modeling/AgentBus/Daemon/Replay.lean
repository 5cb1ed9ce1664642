import AgentBus.Core.Reference
import AgentBus.Daemon.World

/-!
# Replaying calls

`World.replay` carries out a list of calls, checking a condition before each;
a replay that gets to the end, with increasing ids, is a run. The sample topics
and patterns are those of the repository's own tests.
-/

namespace AgentBus

open Lib

/-- Calls one after the other, as long as each succeeds and meets the condition. -/
def World.replay (F : Formats) (stateDir : Path) (cond : World → Call → Bool) :
    World → List Call → Option (List Event × World)
  | w, [] => some ([], w)
  | w, call :: calls =>
    if cond w call then
      match w.call F stateDir noFaults call with
      | (.error _, _) => none
      | (.ok reply, w) => (w.replay F stateDir cond calls).map fun r => (⟨call, reply⟩ :: r.1, r.2)
    else none

variable {F : Formats} {stateDir : Path} {name : PartitionName} {cond : World → Call → Bool}

/-- A replayed run is a run if its posted ids increase. -/
theorem exec_of_replay {allowed : Call → Prop} {calls : List Call} {es es' : List Event}
    {w w' : World}
    (h : Exec ((runs F stateDir name allowed).restrict fun w e => cond w e.call = true) es w)
    (hr : w.replay F stateDir cond calls = some (es', w')) (hallowed : ∀ call ∈ calls, allowed call)
    (hids : (posted es ++ calls.flatMap Call.posts).Pairwise fun a b => a.id < b.id) :
    Exec ((runs F stateDir name allowed).restrict fun w e => cond w e.call = true) (es ++ es') w' ∧
      es'.map Event.call = calls := by
  induction calls generalizing es es' w with
  | nil =>
    obtain ⟨rfl, rfl⟩ := Prod.mk.inj (Option.some.inj hr)
    exact ⟨by simpa using h, rfl⟩
  | cons call calls ih =>
    simp only [World.replay] at hr
    split at hr
    · next hcond =>
      split at hr
      · cases hr
      · next reply w₁ hcall =>
        obtain ⟨⟨ds, w₂⟩, hr', heq⟩ := Option.map_eq_some_iff.mp hr
        obtain ⟨rfl, rfl⟩ := Prod.mk.inj heq
        have hpost : ∀ m ∈ call.posts, ∀ m' ∈ posted es, m'.id < m.id := fun m hm m' hm' =>
          (List.pairwise_append.mp hids).2.2 m' hm' m (by simp [hm])
        have hstep : (runs F stateDir name allowed).step es w ⟨call, reply⟩ w₁ :=
          ⟨hallowed call List.mem_cons_self, hpost, hcall⟩
        have hposted : posted (es ++ [⟨call, reply⟩]) ++ calls.flatMap Call.posts =
            posted es ++ (call :: calls).flatMap Call.posts := by
          simp [posted, Event.posts]
        obtain ⟨hx, hcalls⟩ := ih (h.step ⟨hcond, hstep⟩) hr'
          (fun c hc => hallowed c (List.mem_cons_of_mem _ hc)) (hposted ▸ hids)
        exact ⟨by simpa using hx, by simp [hcalls]⟩
    · cases hr

/-- Calls from an empty disk on. -/
def replayFresh (F : Formats) (stateDir : Path) (name : PartitionName)
    (cond : World → Call → Bool) (calls : List Call) : Option (List Event × World) :=
  match World.open F none stateDir name ∅ with
  | .ok w => w.replay F stateDir cond calls
  | .error _ => none

theorem exec_of_replayFresh (allowed : Call → Prop) {calls : List Call}
    {es : List Event} {w : World} (hr : replayFresh F stateDir name cond calls = some (es, w))
    (hallowed : ∀ call ∈ calls, allowed call)
    (hids : (calls.flatMap Call.posts).Pairwise fun a b => a.id < b.id) :
    Exec ((runs F stateDir name allowed).restrict fun w e => cond w e.call = true) es w ∧
      es.map Event.call = calls := by
  unfold replayFresh at hr
  split at hr
  · next w₀ hopen =>
    have hinit : Exec ((runs F stateDir name allowed).restrict fun w e => cond w e.call = true)
        [] w₀ :=
      .init ⟨∅, ⟨Std.ExtTreeMap.getElem?_empty, Std.ExtTreeMap.getElem?_empty⟩, hopen⟩
    simpa using exec_of_replay hinit hr hallowed (by simpa [posted] using hids)
  · cases hr

theorem exists_last_of_calls {es : List Event} (calls : List Call) {call : Call}
    (h : es.map Event.call = calls ++ [call]) :
    ∃ ds reply, es = ds ++ [⟨call, reply⟩] ∧ ds.map Event.call = calls := by
  obtain ⟨ds, fs, rfl, hds, hfs⟩ := List.map_eq_append_iff.mp h
  obtain ⟨⟨_, reply⟩, rfl, rfl⟩ := List.map_eq_singleton_iff.mp hfs
  exact ⟨ds, reply, rfl, hds⟩

/-! ## Samples -/

def sampleName : PartitionName := ⟨"iot_base", by decide⟩

def devTopic : Topic := ⟨"iot_base/dev_01", 8, by decide⟩

def plannerTopic : Topic := ⟨"iot_base/planner", 8, by decide⟩

/-- `iot_base/dev_01` -/
def devPattern : Pattern :=
  ⟨⟨"iot_base", [.literal "iot_base", .literal "dev_01"], false⟩, "iot_base/dev_01", by decide⟩

/-- `iot_base/planner` -/
def plannerPattern : Pattern :=
  ⟨⟨"iot_base", [.literal "iot_base", .literal "planner"], false⟩, "iot_base/planner", by decide⟩

/-- `iot_base/*` -/
def anyPattern : Pattern :=
  ⟨⟨"iot_base", [.literal "iot_base", .one], false⟩, "iot_base/*", by decide⟩

/-- A message posted `secs` seconds after the epoch. -/
def sampleMessage (secs : Nat) (topic : Topic) : Message :=
  .new (.fromParts (secs * 1000) 0) "" topic "" .normal none

/-- The sample partition's run of some calls. -/
def sampleRun (cond : World → Call → Bool) (calls : List Call) : Option (List Event × World) :=
  replayFresh .reference "/state" sampleName cond calls

theorem exec_of_sampleRun (allowed : Call → Prop) (cond : World → Call → Bool) (calls : List Call)
    (P : List Event → World → Bool)
    (hr : (sampleRun cond calls).any (fun r => P r.1 r.2) = true)
    (hallowed : ∀ call ∈ calls, allowed call)
    (hids : (calls.flatMap Call.posts).Pairwise fun a b => a.id < b.id) :
    ∃ es w, Exec ((runs .reference "/state" sampleName allowed).restrict
      fun w e => cond w e.call = true) es w ∧ es.map Event.call = calls ∧ P es w = true := by
  obtain ⟨⟨es, w⟩, heq, hP⟩ := (Option.any_eq_true _ _).mp hr
  obtain ⟨hx, hcalls⟩ := exec_of_replayFresh allowed heq hallowed hids
  exact ⟨es, w, hx, hcalls, hP⟩

end AgentBus
