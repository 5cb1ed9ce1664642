import AgentBus.Lib.Lines
import Mathlib.Algebra.Group.Nat.Defs
import Mathlib.Data.List.Basic

/-!
# JSON values and derived decoding

`Json` is a JSON document as a parser reports it: objects keep the order and
the duplicates of their members, numbers keep their spelling. The second half
is the decoding that a derived deserializer performs: a record is read from an
object (each field at most once, unknown members ignored) or from an array of
its fields in order, and a fieldless variant from its name.
-/

namespace AgentBus.Lib

inductive Json where
  | null
  | bool (b : Bool)
  | number (spelling : String)
  | string (s : String)
  | array (xs : List Json)
  | object (members : List (String × Json))

namespace Json

/-- White space between the tokens of a document. -/
def isBlank (c : Char) : Bool := c == ' ' || c == '\t' || c == '\r' || c == '\n'

/-- No number occurs in the document and it is nested at most `depth` deep. -/
inductive Plain : Nat → Json → Prop where
  | null {depth : Nat} : Plain depth null
  | bool {depth : Nat} (b : Bool) : Plain depth (bool b)
  | string {depth : Nat} (s : String) : Plain depth (string s)
  | array {depth : Nat} {xs : List Json} : (∀ x ∈ xs, Plain depth x) →
      Plain (depth + 1) (array xs)
  | object {depth : Nat} {members : List (String × Json)} : (∀ p ∈ members, Plain depth p.2) →
      Plain (depth + 1) (object members)

/-- A natural number, in decimal. -/
def ofNat (n : Nat) : Json := number n.repr

/-- The numbers that occur in the document are natural and fit in 64 bits, and it is nested at most
`depth` deep. -/
inductive Printable : Nat → Json → Prop where
  | null {depth : Nat} : Printable depth null
  | bool {depth : Nat} (b : Bool) : Printable depth (bool b)
  | natural {depth n : Nat} : n < 2 ^ 64 → Printable depth (ofNat n)
  | string {depth : Nat} (s : String) : Printable depth (string s)
  | array {depth : Nat} {xs : List Json} : (∀ x ∈ xs, Printable depth x) →
      Printable (depth + 1) (array xs)
  | object {depth : Nat} {members : List (String × Json)} : (∀ p ∈ members, Printable depth p.2) →
      Printable (depth + 1) (object members)

theorem Plain.printable {depth : Nat} {j : Json} (h : j.Plain depth) : j.Printable depth := by
  induction h with
  | null => exact .null
  | bool b => exact .bool b
  | string s => exact .string s
  | array _ ih => exact .array ih
  | object _ ih => exact .object ih

theorem Printable.mono {depth depth' : Nat} {j : Json} (h : j.Printable depth)
    (hle : depth ≤ depth') : j.Printable depth' := by
  induction h generalizing depth' with
  | null => exact .null
  | bool b => exact .bool b
  | natural hn => exact .natural hn
  | string s => exact .string s
  | array _ ih =>
    obtain ⟨d, rfl⟩ : ∃ d, depth' = d + 1 := ⟨depth' - 1, by omega⟩
    exact .array fun x hx => ih x hx (by omega)
  | object _ ih =>
    obtain ⟨d, rfl⟩ : ∃ d, depth' = d + 1 := ⟨depth' - 1, by omega⟩
    exact .object fun p hp => ih p hp (by omega)

/-- A document that can be printed and parsed, an object with a first key that starts with a
letter. -/
inductive Named : Json → Prop where
  | mk {c : Char} {key : List Char} {v : Json} {members : List (String × Json)} : c.isAlpha = true →
      Plain 127 (object ((String.ofList (c :: key), v) :: members)) →
      Named (object ((String.ofList (c :: key), v) :: members))

/-- Some of the first bytes of a document of this kind, as `text` prints it. -/
def Piece (text : Json → List Char) (bs : Bytes) : Prop :=
  bs ≠ [] ∧ ∃ j, Named j ∧ bs <+: utf8 (text j)

/-! ## Derived decoding -/

/-- The members a record with these fields is read from. -/
def recordMembers (names : List String) : Json → Option (List (String × Json))
  | object members => some members
  | array xs => if xs.length ≤ names.length then some (names.zip xs) else none
  | _ => none

/-- A field's value: `none` for a duplicate, `some none` for an absent field. -/
def member (members : List (String × Json)) (name : String) : Option (Option Json) :=
  match members.filter fun p => p.1 == name with
  | [] => some none
  | [p] => some (some p.2)
  | _ => none

section
variable {α : Type*} (members : List (String × Json)) (name : String) (decode : Json → Option α)

/-- A field without a default. -/
def required : Option α :=
  match member members name with
  | some (some v) => decode v
  | _ => none

/-- A field with a default. -/
def defaulted (default : α) : Option α :=
  match member members name with
  | some (some v) => decode v
  | some none => some default
  | none => none

end

theorem filter_key_of_nodup {members : List (String × Json)} (hn : (members.map Prod.fst).Nodup)
    {name : String} {v : Json} (h : (name, v) ∈ members) :
    members.filter (fun p => p.1 == name) = [(name, v)] := by
  induction members with
  | nil => cases h
  | cons p ms ih =>
    rw [List.map_cons, List.nodup_cons] at hn
    rcases List.mem_cons.mp h with rfl | h
    · have : ms.filter (fun q => q.1 == name) = [] := by
        rw [List.filter_eq_nil_iff]
        intro q hq he
        exact hn.1 (List.mem_map.mpr ⟨q, hq, beq_iff_eq.mp he⟩)
      simp [this]
    · have hne : p.1 ≠ name := fun he => hn.1 (he ▸ List.mem_map_of_mem (f := Prod.fst) h)
      rw [List.filter_cons_of_neg (by simpa using hne), ih hn.2 h]

theorem member_of_mem {members : List (String × Json)} (hn : (members.map Prod.fst).Nodup)
    {name : String} {v : Json} (h : (name, v) ∈ members) : member members name = some (some v) := by
  rw [member, filter_key_of_nodup hn h]

theorem member_of_notMem {members : List (String × Json)} {name : String}
    (h : name ∉ members.map Prod.fst) : member members name = some none := by
  have : members.filter (fun p => p.1 == name) = [] := by
    rw [List.filter_eq_nil_iff]
    intro p hp he
    exact h (List.mem_map.mpr ⟨p, hp, beq_iff_eq.mp he⟩)
  rw [member, this]

section
variable {α : Type*} {members : List (String × Json)} {name : String} {v : Json}
  (decode : Json → Option α)

theorem required_of_mem (hn : (members.map Prod.fst).Nodup) (h : (name, v) ∈ members) :
    required members name decode = decode v := by
  rw [required, member_of_mem hn h]

theorem defaulted_of_mem (hn : (members.map Prod.fst).Nodup) (h : (name, v) ∈ members)
    (default : α) : defaulted members name decode default = decode v := by
  rw [defaulted, member_of_mem hn h]

theorem defaulted_of_notMem (h : name ∉ members.map Prod.fst) (default : α) :
    defaulted members name decode default = some default := by
  rw [defaulted, member_of_notMem h]

end

/-! ## Members left out -/

section
variable {α : Type*} {name : String} {v : Json} {decode : Json → Option α}

theorem member_filter (keep : String → Bool) (members : List (String × Json)) (name : String) :
    member (members.filter fun p => keep p.1) name =
      if keep name then member members name else some none := by
  unfold member
  rw [List.filter_filter]
  by_cases hkeep : keep name = true
  · rw [if_pos hkeep]
    have hsame : members.filter (fun p => (p.1 == name) && keep p.1) =
        members.filter (fun p => p.1 == name) := by
      refine List.filter_congr fun p _ => ?_
      by_cases hp : p.1 = name
      · simp [hp, hkeep]
      · simp [hp]
    rw [hsame]
  · have hnone : members.filter (fun p => (p.1 == name) && keep p.1) = [] := by
      rw [List.filter_eq_nil_iff]
      intro p _ hp
      rw [Bool.and_eq_true, beq_iff_eq] at hp
      exact hkeep (hp.1 ▸ hp.2)
    rw [if_neg hkeep, hnone]

theorem required_filter {keep : String → Bool} (h : keep name = true)
    (members : List (String × Json)) (decode : Json → Option α) :
    required (members.filter fun p => keep p.1) name decode = required members name decode := by
  rw [required, member_filter, if_pos h, required]

theorem defaulted_filter (keep : String → Bool) (members : List (String × Json)) (name : String)
    (decode : Json → Option α) (default : α) :
    defaulted (members.filter fun p => keep p.1) name decode default =
      if keep name then defaulted members name decode default else some default := by
  rw [defaulted, member_filter]
  by_cases hkeep : keep name = true
  · rw [if_pos hkeep, if_pos hkeep, defaulted]
  · rw [if_neg hkeep, if_neg hkeep]

theorem decode_of_required {members : List (String × Json)} {a : α}
    (h : required members name decode = some a) (hmem : (name, v) ∈ members) :
    decode v = some a := by
  have hin : (name, v) ∈ members.filter fun p => p.1 == name := by simpa using hmem
  unfold required member at h
  split at h
  · next w hw =>
    split at hw
    · cases hw
    · next p hp =>
      rw [hp, List.mem_singleton] at hin
      obtain rfl := Option.some.inj (Option.some.inj hw)
      rw [← h, ← hin]
    · cases hw
  · cases h

end

/-! ## Values -/

def asString : Json → Option String
  | string s => some s
  | _ => none

def asBool : Json → Option Bool
  | bool b => some b
  | _ => none

/-- A fieldless variant: its name, or an object mapping its name to `null`. -/
def asUnitVariant : Json → Option String
  | string s => some s
  | object [(s, null)] => some s
  | _ => none

def asNullable {α : Type*} (decode : Json → Option α) : Json → Option (Option α)
  | null => some none
  | j => (decode j).map some

def asArray {α : Type*} (decode : Json → Option α) : Json → Option (List α)
  | array xs => xs.mapM decode
  | _ => none

/-! ## String-keyed maps -/

section Map

variable {α : Type*}

def ofMap (encode : α → Json) (m : Std.ExtTreeMap String α) : Json :=
  object (m.toList.map fun p => (p.1, encode p.2))

/-- Of two members with one key the later counts. -/
def asMap (decode : Json → Option α) : Json → Option (Std.ExtTreeMap String α)
  | object members => members.foldlM (fun m p => (decode p.2).map (m.insert p.1)) ∅
  | _ => none

theorem foldlM_insert {encode : α → Json} {decode : Json → Option α}
    (h : ∀ a, decode (encode a) = some a) (l : List (String × α)) (m : Std.ExtTreeMap String α) :
    (l.map fun p => (p.1, encode p.2)).foldlM (fun m p => (decode p.2).map (m.insert p.1)) m =
      some (l.foldl (fun m p => m.insert p.1 p.2) m) := by
  induction l generalizing m with
  | nil => rfl
  | cons p l ih => simp [h, ih]

theorem foldl_insert_toList (m : Std.ExtTreeMap String α) :
    m.toList.foldl (fun m p => m.insert p.1 p.2) ∅ = m := by
  refine Std.ExtTreeMap.ext_getElem? fun k => ?_
  rw [← Std.ExtTreeMap.ofList_eq_foldl]
  cases hk : m[k]? with
  | some v =>
    rw [Std.ExtTreeMap.getElem?_ofList_of_mem Std.ReflCmp.compare_self
      Std.ExtTreeMap.distinct_keys_toList (Std.ExtTreeMap.mem_toList_iff_getElem?_eq_some.mpr hk)]
  | none =>
    refine Std.ExtTreeMap.getElem?_ofList_of_contains_eq_false ?_
    rw [List.contains_eq_mem, decide_eq_false_iff_not]
    intro hmem
    obtain ⟨⟨k', v⟩, hp, rfl⟩ := List.mem_map.mp hmem
    rw [Std.ExtTreeMap.mem_toList_iff_getElem?_eq_some.mp hp] at hk
    cases hk

theorem asMap_ofMap {encode : α → Json} {decode : Json → Option α}
    (h : ∀ a, decode (encode a) = some a) (m : Std.ExtTreeMap String α) :
    asMap decode (ofMap encode m) = some m := by
  rw [ofMap, asMap, foldlM_insert h, foldl_insert_toList]

theorem ofMap_plain {encode : α → Json} {depth : Nat} (h : ∀ a, (encode a).Plain depth)
    (m : Std.ExtTreeMap String α) : (ofMap encode m).Plain (depth + 1) := by
  refine .object fun p hp => ?_
  obtain ⟨q, -, rfl⟩ := List.mem_map.mp hp
  exact h _

end Map

end Json

end AgentBus.Lib
