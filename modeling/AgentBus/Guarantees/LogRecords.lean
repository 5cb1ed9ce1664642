import AgentBus.Daemon.Replay

/-!
# Log records

A field that an old log may lack has a default, and a field that is not
written has the same one, so a record means what it meant when it was written.
The topic is parsed again whenever a record is read.
-/

namespace AgentBus

open Lib

variable {F : Formats}

/-! ## Optional fields -/

/-- The fields that a record may lack. -/
inductive OptionalField where
  | priority
  | broadcast
  | kind
  | «to»
  | inReplyTo
  | ack
  deriving DecidableEq

namespace OptionalField

def name : OptionalField → String
  | priority => "priority"
  | broadcast => "broadcast"
  | kind => "kind"
  | «to» => "to"
  | inReplyTo => "in_reply_to"
  | ack => "ack"

theorem name_injective {f g : OptionalField} (h : f.name = g.name) : f = g := by
  cases f <;> cases g <;> first | rfl | exact absurd h (by decide)

/-- Members with this name stay. -/
def keeps (dropped : Finset OptionalField) (name : String) : Bool :=
  decide (∀ field ∈ dropped, field.name ≠ name)

theorem keeps_name (dropped : Finset OptionalField) (field : OptionalField) :
    keeps dropped field.name = decide (field ∉ dropped) := by
  refine decide_eq_decide.mpr ⟨fun h hmem => h field hmem rfl, fun h f hf hname => ?_⟩
  exact h (name_injective hname ▸ hf)

theorem keeps_required (dropped : Finset OptionalField) {name : String}
    (h : name ∈ ["id", "ts", "topic", "from", "body"]) : keeps dropped name = true := by
  refine decide_eq_true fun field _ => ?_
  revert name
  cases field <;> decide

end OptionalField

namespace Message

/-- The members of a record from which these fields were deleted. -/
def withoutFields (dropped : Finset OptionalField) (members : List (String × Json)) :
    List (String × Json) :=
  members.filter fun p => OptionalField.keeps dropped p.1

/-- These fields have their defaults. -/
def resetFields (dropped : Finset OptionalField) (m : Message) : Message := { m with
  priority := if .priority ∈ dropped then .normal else m.priority
  broadcast := if .broadcast ∈ dropped then false else m.broadcast
  kind := if .kind ∈ dropped then .instruction else m.kind
  «to» := if .«to» ∈ dropped then none else m.to
  inReplyTo := if .inReplyTo ∈ dropped then none else m.inReplyTo
  ack := if .ack ∈ dropped then none else m.ack }

theorem defaulted_withoutFields {α : Type} {members : List (String × Json)}
    {decode : Json → Option α} {default value : α} (field : OptionalField)
    (h : Json.defaulted members field.name decode default = some value)
    (dropped : Finset OptionalField) :
    Json.defaulted (withoutFields dropped members) field.name decode default =
      some (if field ∈ dropped then default else value) := by
  rw [withoutFields, Json.defaulted_filter, OptionalField.keeps_name]
  by_cases hmem : field ∈ dropped
  · simp [hmem]
  · simp [hmem, h]

theorem ofMembers_withoutFields {members : List (String × Json)} {m : Message}
    (h : ofMembers F members = some m) (dropped : Finset OptionalField) :
    ofMembers F (withoutFields dropped members) = some (m.resetFields dropped) := by
  have hrequired : ∀ {α : Type} {name : String} (decode : Json → Option α),
      name ∈ ["id", "ts", "topic", "from", "body"] →
      Json.required (withoutFields dropped members) name decode =
        Json.required members name decode :=
    fun decode hname => Json.required_filter (OptionalField.keeps_required dropped hname)
      members decode
  obtain ⟨hid, hts, htopic, hpriority, hfrom, hbody, hbroadcast, hkind, hto, hreply, hack⟩ :=
    ofMembers_eq_some_iff.mp h
  refine ofMembers_eq_some_iff.mpr ⟨?_, ?_, ?_, ?_, ?_, ?_, ?_, ?_, ?_, ?_, ?_⟩
  · exact (hrequired _ (by decide)).trans hid
  · exact (hrequired _ (by decide)).trans hts
  · exact (hrequired _ (by decide)).trans htopic
  · exact defaulted_withoutFields .priority hpriority dropped
  · exact (hrequired _ (by decide)).trans hfrom
  · exact (hrequired _ (by decide)).trans hbody
  · exact defaulted_withoutFields .broadcast hbroadcast dropped
  · exact defaulted_withoutFields .kind hkind dropped
  · exact defaulted_withoutFields .«to» hto dropped
  · exact defaulted_withoutFields .inReplyTo hreply dropped
  · exact defaulted_withoutFields .ack hack dropped

theorem withoutFields_plain (dropped : Finset OptionalField) (m : Message) :
    (Json.object (withoutFields dropped (m.members F))).Plain 127 := by
  cases m.toJson_plain F 126 with
  | object h => exact .object fun p hp => h p (List.mem_of_mem_filter hp)

/-- A record with a topic that does not parse is no record. -/
theorem ofMembers_of_rejected {members : List (String × Json)} {topic : String}
    (hmem : ("topic", .string topic) ∈ members) (h : (Topic.parse topic).isOk = false) :
    ofMembers F members = none := by
  rw [Option.eq_none_iff_forall_ne_some]
  intro m hm
  obtain ⟨-, -, htopic, -⟩ := ofMembers_eq_some_iff.mp hm
  have hdecoded := Json.decode_of_required htopic hmem
  simp only [topicOfJson, Json.asString, Option.bind_some] at hdecoded
  cases hparse : Topic.parse topic with
  | ok _ => rw [hparse] at h; cases h
  | error _ => rw [hparse] at hdecoded; cases hdecoded

end Message

/-! ## Records -/

/-- **A message is written on one line that reads back as the message. Without optional fields the
record reads back with their defaults. A record with a topic that does not parse is never
accepted.** -/
theorem log_records_round_trip (hF : F.CompactJson) (m : Message) :
    (∃ line, m.toJsonl F = .ok line ∧ '\n' ∉ line.toList ∧ '\r' ∉ line.toList ∧
      Message.fromJsonl F line = .ok m) ∧
    (∀ dropped : Finset OptionalField,
      F.fromStr (F.toString (.object (Message.withoutFields dropped (m.members F)))) =
        some (.object (Message.withoutFields dropped (m.members F))) ∧
      ∀ record, F.fromStr record = some (.object (Message.withoutFields dropped (m.members F))) →
        Message.fromJsonl F record = .ok (m.resetFields dropped)) ∧
    ∀ record j members topic, F.fromStr record = some j →
      Json.recordMembers Message.fieldNames j = some members → ("topic", .string topic) ∈ members →
      (Topic.parse topic).isOk = false → ∃ e, Message.fromJsonl F record = .error e := by
  have hmembers := Message.ofMembers_members hF.ulidFromString_ulidToString m
  have hplain := m.toJson_plain F 126
  obtain ⟨hnewline, hreturn⟩ := hF.oneLine hplain
  refine ⟨⟨F.toString (m.toJson F), rfl, hnewline, hreturn, ?_⟩,
    fun dropped => ⟨?_, fun record hrecord => ?_⟩, ?_⟩
  · exact Message.fromJsonl_of_ofMembers (hF.fromStr_toString hplain) hmembers
  · exact hF.fromStr_toString (Message.withoutFields_plain dropped m)
  · exact Message.fromJsonl_of_ofMembers hrecord (Message.ofMembers_withoutFields hmembers dropped)
  · intro record j members topic hrecord hread hmem hreject
    refine ⟨.malformedRecord none, ?_⟩
    simp only [Message.fromJsonl, hrecord, Option.bind_some, Message.ofJson, hread,
      Message.ofMembers_of_rejected hmem hreject]

/-- A request with a line break in its body. -/
def sampleRequest : Message := { sampleMessage 1 devTopic with
  body := "hello\nworld"
  priority := .high
  kind := .request
  «to» := some "dev_01" }

/-- The request is one line, and without its role and its priority it is an ordinary message. -/
theorem log_records_round_trip_request :
    (∃ line, sampleRequest.toJsonl .reference = .ok line ∧ '\n' ∉ line.toList ∧
      Message.fromJsonl .reference line = .ok sampleRequest) ∧
    ∃ record, Message.fromJsonl .reference record =
      .ok { sampleRequest with priority := .normal, kind := .instruction } := by
  obtain ⟨⟨line, hline, hnewline, -, hback⟩, hdropped, -⟩ :=
    log_records_round_trip Formats.reference_compactJson sampleRequest
  obtain ⟨hprinted, hread⟩ := hdropped {.priority, .kind}
  exact ⟨⟨line, hline, hnewline, hback⟩, _, hread _ hprinted⟩

end AgentBus
