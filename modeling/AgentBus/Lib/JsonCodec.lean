import Mathlib.Algebra.Group.Nat.Defs
import AgentBus.Lib.Json

/-!
# Codecs that a derived serializer builds

A `Codec` writes the values of a type as JSON and reads them back; the law comes
with it. `Fields` describes a record: it is written as an object with its fields
in order, and read from such an object, with unknown members ignored, or from an
array. `Tagged` describes an enumeration whose variant is named by one member of
its object, the tag.
-/

namespace AgentBus.Lib

/-- A type's values as JSON, and back. -/
structure Codec (α : Type) where
  encode : α → Json
  decode : Json → Option α
  /-- The values that are in the range of their type. -/
  Fits : α → Prop
  /-- No value is nested deeper. -/
  depth : Nat
  printable : ∀ {a : α}, Fits a → (encode a).Printable depth
  decode_encode : ∀ {a : α}, Fits a → decode (encode a) = some a

namespace Json

/-- A natural number below the bound, spelled without a sign, a fraction or an exponent. -/
def asNatBelow (bound : Nat) : Json → Option Nat
  | number spelling =>
    if spelling.toList.all Char.isDigit then
      let n := Nat.ofDigitChars 10 spelling.toList 0
      if n < bound then some n else none
    else none
  | _ => none

theorem asNatBelow_ofNat {bound n : Nat} (h : n < bound) : asNatBelow bound (ofNat n) = some n := by
  have hdigits : (Nat.toDigits 10 n).all Char.isDigit = true :=
    List.all_eq_true.mpr fun c => Nat.isDigit_of_mem_toDigits (by decide) (by decide)
  rw [ofNat, asNatBelow, Nat.toList_repr, if_pos hdigits, Nat.ofDigitChars_ten_toDigits]
  exact if_pos h

end Json

namespace Codec

/-! ## Values -/

def string : Codec String where
  encode := .string
  decode := Json.asString
  Fits _ := True
  depth := 0
  printable _ := .string _
  decode_encode _ := rfl

def bool : Codec Bool where
  encode := .bool
  decode := Json.asBool
  Fits _ := True
  depth := 0
  printable _ := .bool _
  decode_encode _ := rfl

/-- An unsigned integer of so many bits. -/
def unsigned (bits : Nat) (hbits : bits ≤ 64) : Codec Nat where
  encode := .ofNat
  decode := Json.asNatBelow (2 ^ bits)
  Fits n := n < 2 ^ bits
  depth := 0
  printable h := .natural (Nat.lt_of_lt_of_le h (Nat.pow_le_pow_right (by decide) hbits))
  decode_encode h := Json.asNatBelow_ofNat h

variable {α : Type}

/-- An optional value, absent as `null`. -/
def nullable (c : Codec α) (hnull : ∀ a, c.encode a ≠ .null) : Codec (Option α) where
  encode o := o.elim .null c.encode
  decode := Json.asNullable c.decode
  Fits o := ∀ a ∈ o, c.Fits a
  depth := c.depth
  printable {o} h := by
    cases o with
    | none => exact .null
    | some a => exact c.printable (h a rfl)
  decode_encode {o} h := by
    cases o with
    | none => rfl
    | some a =>
      have hdecode := c.decode_encode (h a rfl)
      have hne := hnull a
      simp only [Option.elim_some]
      unfold Json.asNullable
      split
      · next heq => exact absurd heq hne
      · rw [hdecode]; rfl

theorem mapM_encode (c : Codec α) {l : List α} (h : ∀ a ∈ l, c.Fits a) :
    (l.map c.encode).mapM c.decode = some l := by
  induction l with
  | nil => rfl
  | cons a l ih =>
    have ha := c.decode_encode (h a List.mem_cons_self)
    have hl := ih fun b hb => h b (List.mem_cons_of_mem _ hb)
    simp [ha, hl]

def list (c : Codec α) : Codec (List α) where
  encode l := .array (l.map c.encode)
  decode := Json.asArray c.decode
  Fits l := ∀ a ∈ l, c.Fits a
  depth := c.depth + 1
  printable h := .array fun x hx => by
    obtain ⟨a, ha, rfl⟩ := List.mem_map.mp hx
    exact c.printable (h a ha)
  decode_encode h := c.mapM_encode h

end Codec

/-! ## Records -/

/-- What an absent field stands for. -/
inductive Absence (α : Type) where
  | refused
  | defaulted (a : α)
  /-- It may be absent from an object only. -/
  | optional (a : α)

/-- The fields of a record, in order. -/
inductive Fields : Type → Type 1 where
  | nil : Fields Unit
  | cons {α ρ : Type} (name : String) (codec : Codec α) (absence : Absence α) (rest : Fields ρ) :
      Fields (α × ρ)

namespace Fields

def names {ρ : Type} : Fields ρ → List String
  | nil => []
  | cons name _ _ rest => name :: rest.names

def encode {ρ : Type} : Fields ρ → ρ → List (String × Json)
  | nil, _ => []
  | cons name c _ rest, (a, r) => (name, c.encode a) :: rest.encode r

def Fits {ρ : Type} : Fields ρ → ρ → Prop
  | nil, _ => True
  | cons _ c _ rest, (a, r) => c.Fits a ∧ rest.Fits r

def depth {ρ : Type} : Fields ρ → Nat
  | nil => 0
  | cons _ c _ rest => max c.depth rest.depth

/-- One field of an object. -/
def field {α : Type} (members : List (String × Json)) (name : String) (c : Codec α) :
    Absence α → Option α
  | .refused => Json.required members name c.decode
  | .defaulted a => Json.defaulted members name c.decode a
  | .optional a => Json.defaulted members name c.decode a

def ofMembers {ρ : Type} : Fields ρ → List (String × Json) → Option ρ
  | nil, _ => some ()
  | cons name c absence rest, members =>
    (field members name c absence).bind fun a => (rest.ofMembers members).map (a, ·)

/-- The elements of an array are the first fields, and the others are absent. -/
def ofElems {ρ : Type} : Fields ρ → List Json → Option ρ
  | nil, [] => some ()
  | nil, _ :: _ => none
  | cons _ _ absence rest, [] =>
    match absence with
    | .defaulted a => (rest.ofElems []).map (a, ·)
    | _ => none
  | cons _ c _ rest, x :: xs => (c.decode x).bind fun a => (rest.ofElems xs).map (a, ·)

def decode {ρ : Type} (fields : Fields ρ) : Json → Option ρ
  | .object members => fields.ofMembers members
  | .array xs => fields.ofElems xs
  | _ => none

variable {ρ : Type}

theorem keys_encode (fields : Fields ρ) (r : ρ) :
    (fields.encode r).map Prod.fst = fields.names := by
  induction fields with
  | nil => rfl
  | cons name c absence rest ih => rw [encode, List.map_cons, ih, names]

/-- Each field has one member, with its value, or none, where the value is what an absent field
stands for. -/
def Readable {ρ : Type} : Fields ρ → ρ → List (String × Json) → Prop
  | nil, _, _ => True
  | cons name c absence rest, (a, r), members =>
    (Json.member members name = some (some (c.encode a)) ∨
      Json.member members name = some none ∧ (absence = .defaulted a ∨ absence = .optional a)) ∧
      rest.Readable r members

/-- **A record is read from every object that has its fields.** -/
theorem ofMembers_of_readable (fields : Fields ρ) {r : ρ} (hfits : fields.Fits r)
    {members : List (String × Json)} (h : fields.Readable r members) :
    fields.ofMembers members = some r := by
  induction fields with
  | nil => rfl
  | cons name c absence rest ih =>
    obtain ⟨a, r⟩ := r
    obtain ⟨hmember, hrest⟩ := h
    have ha : field members name c absence = some a := by
      have hdecode := c.decode_encode hfits.1
      rcases hmember with hmember | ⟨hmember, rfl | rfl⟩
      · cases absence <;> simp only [field, Json.required, Json.defaulted, hmember, hdecode]
      · simp only [field, Json.defaulted, hmember]
      · simp only [field, Json.defaulted, hmember]
    rw [ofMembers, ha, ih hfits.2 hrest]
    rfl

/-- The members as they are written are such an object. -/
theorem readable_of_mem (fields : Fields ρ) {r : ρ} {members : List (String × Json)}
    (hn : (members.map Prod.fst).Nodup) (hmem : ∀ p ∈ fields.encode r, p ∈ members) :
    fields.Readable r members := by
  induction fields with
  | nil => trivial
  | cons name c absence rest ih =>
    obtain ⟨a, r⟩ := r
    exact ⟨.inl (Json.member_of_mem hn (hmem _ List.mem_cons_self)),
      ih fun p hp => hmem p (List.mem_cons_of_mem _ hp)⟩

theorem Readable.filter {fields : Fields ρ} {r : ρ} {members : List (String × Json)}
    (h : fields.Readable r members) {keep : String → Bool}
    (hkeep : ∀ name ∈ fields.names, keep name = true) :
    fields.Readable r (members.filter fun p => keep p.1) := by
  induction fields with
  | nil => trivial
  | cons name c absence rest ih =>
    obtain ⟨a, r⟩ := r
    obtain ⟨hmember, hrest⟩ := h
    refine ⟨?_, ih hrest fun name' hname => hkeep name' (List.mem_cons_of_mem _ hname)⟩
    rwa [Json.member_filter, if_pos (hkeep name List.mem_cons_self)]

theorem printable_encode (fields : Fields ρ) {r : ρ} (hfits : fields.Fits r) :
    ∀ p ∈ fields.encode r, p.2.Printable fields.depth := by
  induction fields with
  | nil => exact fun p hp => absurd hp List.not_mem_nil
  | cons name c absence rest ih =>
    obtain ⟨a, r⟩ := r
    intro p hp
    rcases List.mem_cons.mp hp with rfl | hp
    · exact (c.printable hfits.1).mono (Nat.le_max_left ..)
    · exact (ih hfits.2 p hp).mono (Nat.le_max_right ..)

end Fields

/-- A record with these fields. -/
def Codec.record {α ρ : Type} (fields : Fields ρ) (hnames : fields.names.Nodup) (unpack : α → ρ)
    (pack : ρ → α) (hpack : ∀ a, pack (unpack a) = a) : Codec α where
  encode a := .object (fields.encode (unpack a))
  decode j := (fields.decode j).map pack
  Fits a := fields.Fits (unpack a)
  depth := fields.depth + 1
  printable h := .object (fields.printable_encode h)
  decode_encode {a} h := by
    have hread : fields.Readable (unpack a) (fields.encode (unpack a)) :=
      fields.readable_of_mem (by rwa [fields.keys_encode]) fun _ hp => hp
    have hmembers := fields.ofMembers_of_readable h hread
    rw [Fields.decode, hmembers, Option.map_some, hpack]

/-! ## Enumerations -/

/-- A variant and its fields. -/
structure Variant (α : Type) where
  name : String
  ρ : Type
  fields : Fields ρ
  pack : ρ → α

/-- An enumeration whose variant is named by one member. -/
structure Tagged (α : Type) where
  tag : String
  variants : List (Variant α)
  /-- The variant that a value is of, and its fields. -/
  unpack : α → Σ v : Variant α, v.ρ
  names : (variants.map Variant.name).Nodup
  fields : ∀ v ∈ variants, (tag :: v.fields.names).Nodup
  mem : ∀ a, (unpack a).1 ∈ variants
  pack_unpack : ∀ a, (unpack a).1.pack (unpack a).2 = a

namespace Tagged

variable {α : Type} (t : Tagged α)

/-- The tag comes first. -/
def members (a : α) : List (String × Json) :=
  (t.tag, .string (t.unpack a).1.name) :: (t.unpack a).1.fields.encode (t.unpack a).2

def variant (name : String) : Option (Variant α) := t.variants.find? fun v => v.name == name

/-- The tag may stand anywhere in an object, and only first in an array. -/
def decode : Json → Option α
  | .object members =>
    (Json.required members t.tag Json.asString).bind fun name => (t.variant name).bind fun v =>
      (v.fields.ofMembers (members.filter fun p => p.1 != t.tag)).map v.pack
  | .array (.string name :: xs) => (t.variant name).bind fun v => (v.fields.ofElems xs).map v.pack
  | _ => none

theorem variant_name {v : Variant α} (h : v ∈ t.variants) : t.variant v.name = some v := by
  have hnames := t.names
  unfold variant
  generalize t.variants = vs at h hnames
  induction vs with
  | nil => cases h
  | cons w vs ih =>
    rw [List.map_cons, List.nodup_cons] at hnames
    rcases List.mem_cons.mp h with rfl | h
    · rw [List.find?_cons_of_pos (by simp)]
    · have hne : w.name ≠ v.name := fun heq => hnames.1 (heq ▸ List.mem_map_of_mem h)
      rw [List.find?_cons_of_neg (by simpa using hne), ih h hnames.2]

/-- The tag names the variant, and the fields are there. -/
def Readable (a : α) (members : List (String × Json)) : Prop :=
  Json.member members t.tag = some (some (.string (t.unpack a).1.name)) ∧
    (t.unpack a).1.fields.Readable (t.unpack a).2 members

/-- Its fields are in range. -/
def Fits (a : α) : Prop := (t.unpack a).1.fields.Fits (t.unpack a).2

/-- **A value is read from every object with its tag and its fields.** -/
theorem decode_of_readable {a : α} (hfits : t.Fits a)
    {members : List (String × Json)} (h : t.Readable a members) :
    t.decode (.object members) = some a := by
  obtain ⟨htag, hfields⟩ := h
  have hname : Json.required members t.tag Json.asString = some (t.unpack a).1.name := by
    rw [Json.required, htag]
    rfl
  -- no field is named like the tag
  have hne : ∀ name ∈ (t.unpack a).1.fields.names, (name != t.tag) = true := fun name hmem => by
    rw [bne_iff_ne]
    rintro rfl
    exact (List.nodup_cons.mp (t.fields _ (t.mem a))).1 hmem
  have hread := Fields.ofMembers_of_readable _ hfits (hfields.filter hne)
  rw [decode, hname, Option.bind_some, t.variant_name (t.mem a), Option.bind_some, hread,
    Option.map_some, t.pack_unpack]

theorem readable_members (a : α) : t.Readable a (t.members a) := by
  have hn : ((t.members a).map Prod.fst).Nodup := by
    rw [members, List.map_cons, Fields.keys_encode]
    exact t.fields _ (t.mem a)
  exact ⟨Json.member_of_mem hn List.mem_cons_self,
    Fields.readable_of_mem _ hn fun p hp => List.mem_cons_of_mem _ hp⟩

theorem printable_members {depth : Nat} (hdepth : ∀ v ∈ t.variants, v.fields.depth ≤ depth) {a : α}
    (h : t.Fits a) : (Json.object (t.members a)).Printable (depth + 1) :=
  .object fun p hp => by
    rcases List.mem_cons.mp hp with rfl | hp
    · exact .string _
    · exact ((Fields.printable_encode _ h) p hp).mono (hdepth _ (t.mem a))

/-- As a codec, given a bound on how deep the variants are nested. -/
def codec (depth : Nat) (hdepth : ∀ v ∈ t.variants, v.fields.depth ≤ depth) : Codec α where
  encode a := .object (t.members a)
  decode := t.decode
  Fits := t.Fits
  depth := depth + 1
  printable h := t.printable_members hdepth h
  decode_encode {a} h := t.decode_of_readable h (t.readable_members a)

end Tagged

end AgentBus.Lib
