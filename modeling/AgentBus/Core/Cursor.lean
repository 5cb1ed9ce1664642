import AgentBus.Core.Formats
import AgentBus.Lib.Position
import Mathlib.Data.Finset.Sort

/-!
# Read positions of one partition

Exclusive positions are keyed by pattern string and shared by every consumer
of the pattern; broadcast positions are keyed by consumer label. The delivered
sets record, per label, every id that label has received.
-/

namespace AgentBus

open Lib

abbrev Positions := Std.ExtTreeMap String Ulid

structure CursorStore where
  exclusive : Positions
  broadcast : Positions
  delivered : Std.ExtTreeMap String (Finset Ulid)

namespace CursorStore

/-- The store of a partition nobody has read. -/
def default : CursorStore := ⟨∅, ∅, ∅⟩

/-! ## Positions -/

/-- Move one key's position forward. -/
def advancePosition (positions : Positions) (key : String) (id : Ulid) : Positions :=
  positions.alter key fun current => advance id current

def exclusivePosition (s : CursorStore) (pattern : String) : Option Ulid := s.exclusive[pattern]?

def advanceExclusive (s : CursorStore) (pattern : String) (id : Ulid) : CursorStore :=
  { s with exclusive := advancePosition s.exclusive pattern id }

def broadcastPosition (s : CursorStore) (label : String) : Option Ulid := s.broadcast[label]?

def advanceBroadcast (s : CursorStore) (label : String) (id : Ulid) : CursorStore :=
  { s with broadcast := advancePosition s.broadcast label id }

theorem getElem?_advancePosition (positions : Positions) (key key' : String) (id : Ulid) :
    (advancePosition positions key id)[key']? =
      if key = key' then advance id positions[key]? else positions[key']? := by
  simp [advancePosition, Std.ExtTreeMap.getElem?_alter]

/-! ## Delivered ids -/

def isDelivered (s : CursorStore) (label : String) (id : Ulid) : Bool :=
  s.delivered[label]?.any fun ids => decide (id ∈ ids)

def markDelivered (s : CursorStore) (label : String) (id : Ulid) : CursorStore :=
  { s with delivered := s.delivered.alter label fun ids => some (insert id (ids.getD ∅)) }

/-- Drop delivered records below the oldest surviving id, and empty sets. -/
def pruneDelivered (s : CursorStore) (oldestSurviving : Ulid) : CursorStore :=
  { s with delivered := s.delivered.filterMap fun _ ids =>
      let kept := ids.filter fun id => oldestSurviving ≤ id
      if kept = ∅ then none else some kept }

/-! ## Snapping -/

/-- The keys whose positions lie below `oldestSurviving`. -/
def staleKeys (positions : Positions) (oldestSurviving : Ulid) : List String :=
  (positions.toList.filter fun p => decide (p.2 < oldestSurviving)).map Prod.fst

/-- Drag stale positions forward to `oldestSurviving`, and report which they were. -/
def snapForward (s : CursorStore) (oldestSurviving : Ulid) : CursorStore × List String :=
  ({ s with
      exclusive := s.exclusive.map fun _ position => snap oldestSurviving position
      broadcast := s.broadcast.map fun _ position => snap oldestSurviving position },
    (staleKeys s.exclusive oldestSurviving).map ("exclusive:" ++ ·) ++
      (staleKeys s.broadcast oldestSurviving).map ("broadcast:" ++ ·))

section Spec

@[simp] theorem exclusivePosition_default (pattern : String) :
    default.exclusivePosition pattern = none := by simp [default, exclusivePosition]

@[simp] theorem broadcastPosition_default (label : String) :
    default.broadcastPosition label = none := by simp [default, broadcastPosition]

@[simp] theorem isDelivered_default (label : String) (id : Ulid) :
    default.isDelivered label id = false := by simp [default, isDelivered]

variable (s : CursorStore)

@[simp] theorem exclusivePosition_advanceExclusive (pattern pattern' : String) (id : Ulid) :
    (s.advanceExclusive pattern id).exclusivePosition pattern' =
      if pattern = pattern' then advance id (s.exclusivePosition pattern)
      else s.exclusivePosition pattern' :=
  getElem?_advancePosition ..

@[simp] theorem broadcastPosition_advanceExclusive (pattern label : String) (id : Ulid) :
    (s.advanceExclusive pattern id).broadcastPosition label = s.broadcastPosition label := rfl

@[simp] theorem isDelivered_advanceExclusive (pattern label : String) (id id' : Ulid) :
    (s.advanceExclusive pattern id).isDelivered label id' = s.isDelivered label id' := rfl

@[simp] theorem broadcastPosition_advanceBroadcast (label label' : String) (id : Ulid) :
    (s.advanceBroadcast label id).broadcastPosition label' =
      if label = label' then advance id (s.broadcastPosition label)
      else s.broadcastPosition label' :=
  getElem?_advancePosition ..

@[simp] theorem exclusivePosition_advanceBroadcast (label pattern : String) (id : Ulid) :
    (s.advanceBroadcast label id).exclusivePosition pattern = s.exclusivePosition pattern := rfl

@[simp] theorem isDelivered_advanceBroadcast (label label' : String) (id id' : Ulid) :
    (s.advanceBroadcast label id).isDelivered label' id' = s.isDelivered label' id' := rfl

@[simp] theorem exclusivePosition_markDelivered (label pattern : String) (id : Ulid) :
    (s.markDelivered label id).exclusivePosition pattern = s.exclusivePosition pattern := rfl

@[simp] theorem broadcastPosition_markDelivered (label label' : String) (id : Ulid) :
    (s.markDelivered label id).broadcastPosition label' = s.broadcastPosition label' := rfl

@[simp] theorem isDelivered_markDelivered (label label' : String) (id id' : Ulid) :
    (s.markDelivered label id).isDelivered label' id' =
      (s.isDelivered label' id' || (decide (label = label') && decide (id = id'))) := by
  by_cases h : label = label'
  · subst h
    cases hd : s.delivered[label]? with
    | none => simp [isDelivered, markDelivered, hd, eq_comm]
    | some ids => simp [isDelivered, markDelivered, hd, Bool.or_comm, eq_comm]
  · simp [isDelivered, markDelivered, Std.ExtTreeMap.getElem?_alter, h]

@[simp] theorem exclusivePosition_pruneDelivered (oldest : Ulid) (pattern : String) :
    (s.pruneDelivered oldest).exclusivePosition pattern = s.exclusivePosition pattern := rfl

@[simp] theorem broadcastPosition_pruneDelivered (oldest : Ulid) (label : String) :
    (s.pruneDelivered oldest).broadcastPosition label = s.broadcastPosition label := rfl

@[simp] theorem isDelivered_pruneDelivered (oldest : Ulid) (label : String) (id : Ulid) :
    (s.pruneDelivered oldest).isDelivered label id =
      (s.isDelivered label id && decide (oldest ≤ id)) := by
  cases hd : s.delivered[label]? with
  | none => simp [isDelivered, pruneDelivered, hd]
  | some ids =>
    simp only [isDelivered, pruneDelivered, Std.ExtTreeMap.getElem?_filterMap', hd,
      Option.bind_some, Option.any_some]
    split
    · next h =>
      have : ¬ (id ∈ ids ∧ oldest ≤ id) := by
        rw [← Finset.mem_filter, h]
        exact Finset.notMem_empty _
      simpa using this
    · simp

@[simp] theorem exclusivePosition_snapForward (oldest : Ulid) (pattern : String) :
    (s.snapForward oldest).1.exclusivePosition pattern =
      (s.exclusivePosition pattern).map (snap oldest) :=
  Std.ExtTreeMap.getElem?_map

@[simp] theorem broadcastPosition_snapForward (oldest : Ulid) (label : String) :
    (s.snapForward oldest).1.broadcastPosition label =
      (s.broadcastPosition label).map (snap oldest) :=
  Std.ExtTreeMap.getElem?_map

@[simp] theorem isDelivered_snapForward (oldest : Ulid) (label : String) (id : Ulid) :
    (s.snapForward oldest).1.isDelivered label id = s.isDelivered label id := rfl

end Spec

end CursorStore

end AgentBus
