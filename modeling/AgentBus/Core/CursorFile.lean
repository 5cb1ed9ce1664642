import AgentBus.Core.Cursor
import AgentBus.Core.Topic

/-!
# The cursor file

The store is kept as one JSON document with the members `exclusive`,
`broadcast` and `delivered`. Two older shapes are still read: a file without
`delivered`, and a nested map `subscriber → pattern → id`.
-/

namespace AgentBus

open Lib

namespace CursorStore

variable (F : Formats)

/-! ## Encoding -/

def idsJson (ids : Finset Ulid) : Json := .array ((ids.sort (· ≤ ·)).map F.ulidJson)

def members (s : CursorStore) : List (String × Json) :=
  [("exclusive", Json.ofMap F.ulidJson s.exclusive),
    ("broadcast", Json.ofMap F.ulidJson s.broadcast),
    ("delivered", Json.ofMap (idsJson F) s.delivered)]

def toValue (s : CursorStore) : Json := .object (s.members F)

def toJson (s : CursorStore) : Except CoreError String := .ok (F.toString (s.toValue F))

/-! ## Decoding -/

def fieldNames : List String := ["exclusive", "broadcast", "delivered"]

def idsOfJson (j : Json) : Option (Finset Ulid) := (j.asArray F.ulidOfJson).map List.toFinset

def ofMembers (members : List (String × Json)) : Option CursorStore := do
  let exclusive ← Json.required members "exclusive" (Json.asMap F.ulidOfJson)
  let broadcast ← Json.required members "broadcast" (Json.asMap F.ulidOfJson)
  let delivered ← Json.defaulted members "delivered" (Json.asMap (idsOfJson F)) ∅
  pure { exclusive, broadcast, delivered }

def ofValue (j : Json) : Option CursorStore :=
  (Json.recordMembers fieldNames j).bind (ofMembers F)

/-- The nested shape: subscriber, pattern, id. -/
def legacyOfValue : Json → Option (Std.ExtTreeMap String Positions) :=
  Json.asMap (Json.asMap F.ulidOfJson)

/-- Fold one subscriber's positions into the per-pattern positions. -/
def advanceAll (s : CursorStore) (patterns : Positions) : CursorStore :=
  patterns.toList.foldl (fun s p => s.advanceExclusive p.1 p.2) s

def fromJson (input : String) : Except CoreError CursorStore :=
  if (trim input).isEmpty then .ok default
  else
    match (F.fromStr input).bind (ofValue F) with
    | some store => .ok store
    | none =>
      match (F.fromStr input).bind (legacyOfValue F) with
      | some legacy => .ok (legacy.toList.foldl (fun s p => s.advanceAll p.2) default)
      | none =>
        .error (.malformedRecord (some "not the current or the legacy cursor file format"))

/-- An unreadable file resets the store; the reason is handed back. -/
def fromJsonOrReset (input : String) : CursorStore × Option CoreError :=
  match fromJson F input with
  | .ok store => (store, none)
  | .error e => (default, some e)

/-- The `(subscriber, pattern, id)` triples of a legacy file. -/
def legacyTriples (input : String) : Option (List (String × String × Ulid)) :=
  let trimmed := trim input
  if trimmed.isEmpty then none
  else if trimmed.toList.head? = some '{' &&
      (contains trimmed "\"exclusive\"" || contains trimmed "\"broadcast\"") then none
  else
    ((F.fromStr trimmed).bind (legacyOfValue F)).bind fun triples =>
      if triples.isEmpty then none
      else some (triples.toList.flatMap fun p => p.2.toList.map fun q => (p.1, q.1, q.2))

/-! ## Round trip -/

variable {F}

theorem asArray_map {α : Type*} {encode : α → Json} {decode : Json → Option α}
    (h : ∀ a, decode (encode a) = some a) (l : List α) :
    Json.asArray decode (.array (l.map encode)) = some l := by
  rw [Json.asArray]
  induction l with
  | nil => rfl
  | cons a l ih => simp [h, ih]

theorem idsOfJson_idsJson (hF : F.Faithful) (ids : Finset Ulid) :
    idsOfJson F (idsJson F ids) = some ids := by
  rw [idsOfJson, idsJson, asArray_map hF.ulidOfJson_ulidJson, Option.map_some,
    Finset.sort_toFinset]

theorem idsJson_plain (depth : Nat) (ids : Finset Ulid) : (idsJson F ids).Plain (depth + 1) := by
  refine .array fun j hj => ?_
  obtain ⟨u, -, rfl⟩ := List.mem_map.mp hj
  exact F.ulidJson_plain depth u

theorem toValue_plain (depth : Nat) (s : CursorStore) : (s.toValue F).Plain (depth + 3) := by
  refine .object fun p hp => ?_
  simp only [members, List.mem_cons, List.not_mem_nil, or_false] at hp
  rcases hp with rfl | rfl | rfl
  · exact Json.ofMap_plain (F.ulidJson_plain (depth + 1)) _
  · exact Json.ofMap_plain (F.ulidJson_plain (depth + 1)) _
  · exact Json.ofMap_plain (idsJson_plain depth) _

theorem ofMembers_members (hF : F.Faithful) (s : CursorStore) :
    ofMembers F (s.members F) = some s := by
  have hn : ((s.members F).map Prod.fst).Nodup := by
    rw [show (s.members F).map Prod.fst = fieldNames from rfl]
    decide
  rw [ofMembers,
    Json.required_of_mem _ hn (v := Json.ofMap F.ulidJson s.exclusive) (by simp [members]),
    Json.required_of_mem _ hn (v := Json.ofMap F.ulidJson s.broadcast) (by simp [members]),
    Json.defaulted_of_mem _ hn (v := Json.ofMap (idsJson F) s.delivered) (by simp [members]),
    Json.asMap_ofMap hF.ulidOfJson_ulidJson, Json.asMap_ofMap hF.ulidOfJson_ulidJson,
    Json.asMap_ofMap (idsOfJson_idsJson hF)]
  rfl

/-- A printed store starts with `{` and ends with `}`, so trimming leaves it alone. -/
theorem trim_toString_toValue (hF : F.Faithful) (s : CursorStore) :
    trim (F.toString (s.toValue F)) = F.toString (s.toValue F) ∧
      (F.toString (s.toValue F)).toList.head? = some '{' := by
  obtain ⟨cs, hcs⟩ := hF.braces (s.members F)
  rw [← toValue] at hcs
  refine ⟨trim_eq_self ?_ ?_, by rw [hcs]; rfl⟩
  · intro c hc
    rw [hcs] at hc
    cases hc
    decide
  · intro c hc
    rw [hcs, List.getLast?_append] at hc
    cases hc
    decide

theorem toString_toValue_ne_empty (hF : F.Faithful) (s : CursorStore) :
    (F.toString (s.toValue F)).isEmpty = false := by
  obtain ⟨-, hhead⟩ := trim_toString_toValue hF s
  rw [Bool.eq_false_iff, ne_eq, String.isEmpty_iff]
  intro he
  rw [he] at hhead
  cases hhead

/-- **A stored cursor file reads back as the store it was written from.** -/
theorem fromJson_toValue (hF : F.Faithful) (s : CursorStore) :
    fromJson F (F.toString (s.toValue F)) = .ok s := by
  rw [fromJson, (trim_toString_toValue hF s).1, if_neg (by simp [toString_toValue_ne_empty hF s]),
    hF.fromStr_toString (s.toValue_plain 124), Option.bind_some, toValue, ofValue,
    Json.recordMembers, Option.bind_some, ofMembers_members hF]

/-- A stored cursor file is never taken for a legacy one. -/
theorem legacyTriples_toValue (hF : F.Faithful) (s : CursorStore) :
    legacyTriples F (F.toString (s.toValue F)) = none := by
  obtain ⟨htrim, hhead⟩ := trim_toString_toValue hF s
  have hkey : contains (F.toString (s.toValue F)) "\"exclusive\"" = true := by
    have hmem : ("exclusive", Json.ofMap F.ulidJson s.exclusive) ∈ s.members F := by simp [members]
    have hquoted : "\"" ++ "exclusive" ++ "\"" = "\"exclusive\"" := by decide
    rw [← hquoted]
    exact hF.quotedKey hmem (by simp)
  simp only [legacyTriples, htrim, toString_toValue_ne_empty hF s, hhead, hkey]
  rfl

end CursorStore

end AgentBus
