import AgentBus.Core.Formats
import AgentBus.Core.Topic

/-!
# Messages and their log records

A record is one line of JSON. Fields that an old log may lack have a default,
and the default role and absent addresses are not written at all.
-/

namespace AgentBus

open Lib

inductive Priority where
  | normal
  | high
  deriving DecidableEq, Repr

/-- The coordination role a message plays. -/
inductive MessageKind where
  | instruction
  | request
  | answer
  | ack
  | state
  | event
  | decisionRequest
  | decisionResponse
  deriving DecidableEq, Repr

structure Message where
  id : Ulid
  ts : String
  topic : Topic
  priority : Priority
  «from» : String
  body : String
  broadcast : Bool
  kind : MessageKind
  «to» : Option String
  inReplyTo : Option String
  ack : Option String
  deriving DecidableEq

/-! ## Variant names -/

namespace Priority

def name : Priority → String
  | normal => "normal"
  | high => "high"

def ofName : String → Option Priority
  | "normal" => some normal
  | "high" => some high
  | _ => none

@[simp] theorem ofName_name (p : Priority) : ofName p.name = some p := by cases p <;> rfl

end Priority

namespace MessageKind

def name : MessageKind → String
  | instruction => "instruction"
  | request => "request"
  | answer => "answer"
  | ack => "ack"
  | state => "state"
  | event => "event"
  | decisionRequest => "decision_request"
  | decisionResponse => "decision_response"

def ofName : String → Option MessageKind
  | "instruction" => some instruction
  | "request" => some request
  | "answer" => some answer
  | "ack" => some ack
  | "state" => some state
  | "event" => some event
  | "decision_request" => some decisionRequest
  | "decision_response" => some decisionResponse
  | _ => none

@[simp] theorem ofName_name (k : MessageKind) : ofName k.name = some k := by cases k <;> rfl

def isInstruction (k : MessageKind) : Bool := k == .instruction

end MessageKind

namespace Message

/-- A message as it is posted; the sender defaults to the last segment of the topic. -/
def new (id : Ulid) (ts : String) (topic : Topic) (body : String) (priority : Priority)
    («from» : Option String) : Message where
  id
  ts
  topic
  priority
  «from» := from.getD (topic.segments.getLastD topic.asStr)
  body
  broadcast := false
  kind := .instruction
  «to» := none
  inReplyTo := none
  ack := none

def asBroadcast (m : Message) : Message := { m with broadcast := true }

/-! ## Encoding -/

/-- An absent address is left out. -/
def optionalMember (name : String) : Option String → List (String × Json)
  | none => []
  | some s => [(name, .string s)]

def members (F : Formats) (m : Message) : List (String × Json) :=
  [("id", F.ulidJson m.id), ("ts", .string m.ts), ("topic", .string m.topic.asStr),
    ("priority", .string m.priority.name), ("from", .string m.from), ("body", .string m.body),
    ("broadcast", .bool m.broadcast)] ++
  (if m.kind.isInstruction then [] else [("kind", .string m.kind.name)]) ++
  optionalMember "to" m.to ++ optionalMember "in_reply_to" m.inReplyTo ++
  optionalMember "ack" m.ack

def toJson (F : Formats) (m : Message) : Json := .object (m.members F)

def toJsonl (F : Formats) (m : Message) : Except CoreError String := .ok (F.toString (m.toJson F))

/-! ## Decoding -/

def fieldNames : List String :=
  ["id", "ts", "topic", "priority", "from", "body", "broadcast", "kind", "to", "in_reply_to", "ack"]

def topicOfJson (j : Json) : Option Topic := j.asString.bind fun s => (Topic.parse s).toOption

def ofMembers (F : Formats) (members : List (String × Json)) : Option Message := do
  let id ← Json.required members "id" F.ulidOfJson
  let ts ← Json.required members "ts" Json.asString
  let topic ← Json.required members "topic" topicOfJson
  let priority ← Json.defaulted members "priority"
    (fun j => j.asUnitVariant.bind Priority.ofName) .normal
  let «from» ← Json.required members "from" Json.asString
  let body ← Json.required members "body" Json.asString
  let broadcast ← Json.defaulted members "broadcast" Json.asBool false
  let kind ← Json.defaulted members "kind"
    (fun j => j.asUnitVariant.bind MessageKind.ofName) .instruction
  let «to» ← Json.defaulted members "to" (Json.asNullable Json.asString) none
  let inReplyTo ← Json.defaulted members "in_reply_to" (Json.asNullable Json.asString) none
  let ack ← Json.defaulted members "ack" (Json.asNullable Json.asString) none
  pure { id, ts, topic, priority, «from», body, broadcast, kind, «to», inReplyTo, ack }

def ofJson (F : Formats) (j : Json) : Option Message :=
  (Json.recordMembers fieldNames j).bind (ofMembers F)

def fromJsonl (F : Formats) (line : String) : Except CoreError Message :=
  match (F.fromStr line).bind (ofJson F) with
  | some m => .ok m
  | none => .error (.malformedRecord none)

/-! ## Round trip -/

@[simp] theorem topicOfJson_string (t : Topic) : topicOfJson (.string t.asStr) = some t := by
  simp [topicOfJson, Json.asString, Topic.asStr, Topic.parse_raw, Except.toOption]

theorem toJson_plain (F : Formats) (depth : Nat) (m : Message) :
    (m.toJson F).Plain (depth + 1) := by
  refine .object fun p hp => ?_
  have hopt : ∀ {name : String} {o : Option String},
      p ∈ optionalMember name o → p.2.Plain depth := by
    intro name o h
    cases o with
    | none => cases h
    | some s => rw [optionalMember, List.mem_singleton] at h; subst h; exact .string s
  simp only [members, List.mem_append] at hp
  obtain (((hp | hp) | hp) | hp) | hp := hp
  · simp only [List.mem_cons, List.not_mem_nil, or_false] at hp
    rcases hp with rfl | rfl | rfl | rfl | rfl | rfl | rfl <;> constructor
  · split at hp
    · cases hp
    · rw [List.mem_singleton] at hp; subst hp; exact .string _
  all_goals exact hopt hp

variable {F : Formats}

theorem ofMembers_eq_some_iff {members : List (String × Json)} {m : Message} :
    ofMembers F members = some m ↔
      Json.required members "id" F.ulidOfJson = some m.id ∧
      Json.required members "ts" Json.asString = some m.ts ∧
      Json.required members "topic" topicOfJson = some m.topic ∧
      Json.defaulted members "priority" (fun j => j.asUnitVariant.bind Priority.ofName) .normal =
        some m.priority ∧
      Json.required members "from" Json.asString = some m.from ∧
      Json.required members "body" Json.asString = some m.body ∧
      Json.defaulted members "broadcast" Json.asBool false = some m.broadcast ∧
      Json.defaulted members "kind" (fun j => j.asUnitVariant.bind MessageKind.ofName)
        .instruction = some m.kind ∧
      Json.defaulted members "to" (Json.asNullable Json.asString) none = some m.to ∧
      Json.defaulted members "in_reply_to" (Json.asNullable Json.asString) none = some m.inReplyTo ∧
      Json.defaulted members "ack" (Json.asNullable Json.asString) none = some m.ack := by
  constructor
  · intro h
    simp only [ofMembers, Option.bind_eq_bind, Option.bind_eq_some_iff, Option.pure_def] at h
    obtain ⟨id, hid, ts, hts, topic, htopic, priority, hpriority, sender, hfrom, body,
      hbody, broadcast, hbroadcast, kind, hkind, addressee, hto, inReplyTo, hreply,
      ack, hack, h⟩ := h
    obtain rfl := Option.some.inj h
    exact ⟨hid, hts, htopic, hpriority, hfrom, hbody, hbroadcast, hkind, hto, hreply, hack⟩
  · rintro ⟨hid, hts, htopic, hpriority, hfrom, hbody, hbroadcast, hkind, hto, hreply, hack⟩
    simp only [ofMembers, hid, hts, htopic, hpriority, hfrom, hbody, hbroadcast, hkind,
      hto, hreply, hack]
    rfl

theorem optionalMember_keys (name : String) (o : Option String) :
    (optionalMember name o).map Prod.fst = if o.isSome then [name] else [] := by
  cases o <;> rfl

/-- The keys of a record, by which of the four skippable members it has. -/
def keys (kind «to» inReplyTo ack : Bool) : List String :=
  ["id", "ts", "topic", "priority", "from", "body", "broadcast"] ++
    (if kind then ["kind"] else []) ++ (if «to» then ["to"] else []) ++
    (if inReplyTo then ["in_reply_to"] else []) ++ (if ack then ["ack"] else [])

theorem members_keys (m : Message) : (m.members F).map Prod.fst =
    keys (!m.kind.isInstruction) m.to.isSome m.inReplyTo.isSome m.ack.isSome := by
  simp only [members, List.map_append, optionalMember_keys, keys]
  cases m.kind.isInstruction <;> rfl

theorem members_keys_nodup (m : Message) : ((m.members F).map Prod.fst).Nodup := by
  have h : ∀ k t r a, (keys k t r a).Nodup := by decide
  rw [members_keys]
  exact h ..

theorem defaulted_optionalMember {members : List (String × Json)}
    (hn : (members.map Prod.fst).Nodup) (name : String) (o : Option String)
    (hmem : ∀ p ∈ optionalMember name o, p ∈ members)
    (habs : o = none → name ∉ members.map Prod.fst) :
    Json.defaulted members name (Json.asNullable Json.asString) none = some o := by
  cases o with
  | none => exact Json.defaulted_of_notMem _ (habs rfl) _
  | some s => exact Json.defaulted_of_mem _ hn (hmem _ (List.mem_singleton_self _)) _

theorem ofMembers_members (hulid : ∀ u : Ulid, F.ulidFromString (F.ulidToString u) = some u)
    (m : Message) : ofMembers F (m.members F) = some m := by
  have hn := m.members_keys_nodup (F := F)
  have hkind : Json.defaulted (m.members F) "kind"
      (fun j => j.asUnitVariant.bind MessageKind.ofName) .instruction = some m.kind := by
    cases hk : m.kind.isInstruction with
    | true =>
      have habs : ∀ t r a, "kind" ∉ keys false t r a := by decide
      rw [Json.defaulted_of_notMem _ (by rw [members_keys, hk]; exact habs _ _ _)]
      rw [MessageKind.isInstruction, beq_iff_eq] at hk
      rw [hk]
    | false =>
      rw [Json.defaulted_of_mem _ hn (v := .string m.kind.name) (by simp [members, hk])]
      simp [Json.asUnitVariant]
  have hto' : ∀ k r a, "to" ∉ keys k false r a := by decide
  have hreply' : ∀ k t a, "in_reply_to" ∉ keys k t false a := by decide
  have hack' : ∀ k t r, "ack" ∉ keys k t r false := by decide
  have hto := defaulted_optionalMember hn "to" m.to (by simp +contextual [members])
    (fun h => by rw [members_keys, h]; exact hto' _ _ _)
  have hreply := defaulted_optionalMember hn "in_reply_to" m.inReplyTo
    (by simp +contextual [members])
    (fun h => by rw [members_keys, h]; exact hreply' _ _ _)
  have hack := defaulted_optionalMember hn "ack" m.ack
    (by simp +contextual [members])
    (fun h => by rw [members_keys, h]; exact hack' _ _ _)
  refine ofMembers_eq_some_iff.mpr ⟨?_, ?_, ?_, ?_, ?_, ?_, ?_, hkind, hto, hreply, hack⟩
  · rw [Json.required_of_mem _ hn (v := F.ulidJson m.id) (by simp [members])]
    exact hulid m.id
  · rw [Json.required_of_mem _ hn (v := .string m.ts) (by simp [members])]
    rfl
  · rw [Json.required_of_mem _ hn (v := .string m.topic.asStr) (by simp [members])]
    exact topicOfJson_string m.topic
  · rw [Json.defaulted_of_mem _ hn (v := .string m.priority.name) (by simp [members])]
    exact Priority.ofName_name m.priority
  · rw [Json.required_of_mem _ hn (v := .string m.from) (by simp [members])]
    rfl
  · rw [Json.required_of_mem _ hn (v := .string m.body) (by simp [members])]
    rfl
  · rw [Json.defaulted_of_mem _ hn (v := .bool m.broadcast) (by simp [members])]
    rfl

theorem fromJsonl_of_ofMembers {record : String} {members : List (String × Json)} {m : Message}
    (hrecord : F.fromStr record = some (.object members)) (h : ofMembers F members = some m) :
    fromJsonl F record = .ok m := by
  simp only [fromJsonl, hrecord, Option.bind_some, ofJson, Json.recordMembers, h]

theorem fromJsonl_toJsonl (hF : F.Faithful) (m : Message) :
    fromJsonl F (F.toString (m.toJson F)) = .ok m :=
  fromJsonl_of_ofMembers (hF.fromStr_toString (m.toJson_plain F 126))
    (ofMembers_members hF.ulidFromString_ulidToString m)

/-! ## Age -/

/-- Age in seconds, zero for a message from the future. -/
def ageSecs (m : Message) (nowUnixSecs : Nat) : Nat := nowUnixSecs - m.id.timestampMs / 1000

end Message

/-- Messages strictly younger than this are kept. -/
structure RetentionPolicy where
  maxAgeSecs : Nat

namespace RetentionPolicy

def default : RetentionPolicy := ⟨3600⟩

def retains (policy : RetentionPolicy) (ageSecs : Nat) : Bool :=
  decide (ageSecs < policy.maxAgeSecs)

end RetentionPolicy

end AgentBus
