import AgentBus.Daemon.Replay
import AgentBus.Daemon.Simulation

/-!
# Who gets every message

Runs of publishes and deliveries. A pattern's position passes an exclusive
message only after somebody got it (`exclusive_complete`). It may pass one
that only the reader of another pattern got, and a label's broadcast position
may pass a broadcast message that the pattern being read does not match:
`broadcast_complete` and `suppression_hides_nothing` hold of the runs in which
no delivery does that, and the examples after them show that some runs do.
-/

namespace AgentBus

open Lib

variable {F : Formats} {stateDir : Path} {name : PartitionName} {allowed : Call → Prop}
  {es : List Event} {w : World} {label : String} {reply : Reply} {P : Pattern} {m : Message}

theorem mem_returnedTo : m ∈ returnedTo label es ↔
    ∃ d ∈ Mail.deliveries (es.map Event.mail), d.label = label ∧ d.message = m := by
  simp only [returnedTo, flatMap_handedWhen, List.mem_map, List.mem_filter, decide_eq_true_eq,
    and_assoc]

theorem mem_returnedUnder : m ∈ returnedUnder P.asStr es ↔
    ∃ d ∈ Mail.deliveries (es.map Event.mail), d.pattern.asStr = P.asStr ∧ d.message = m := by
  simp only [returnedUnder, flatMap_handedWhen, List.mem_map, List.mem_filter, decide_eq_true_eq,
    and_assoc]

theorem exists_call_of_delivery {d : Delivery Message Pattern String}
    (h : d ∈ Mail.deliveries (es.map Event.mail)) :
    ∃ e ∈ es, ∃ limit, e.call = .deliver d.pattern d.label limit := by
  obtain ⟨_, hmail, hd⟩ := List.mem_flatMap.mp h
  obtain ⟨e, he, rfl⟩ := List.mem_map.mp hmail
  refine ⟨e, he, ?_⟩
  obtain ⟨call, reply⟩ := e
  cases call with
  | deliver Q label limit =>
    cases reply with
    | messages ms =>
      obtain ⟨m, -, rfl⟩ := List.mem_map.mp hd
      exact ⟨limit, rfl⟩
    | published | removed | opened => cases hd
  | publish | history | prune | reopen => cases reply <;> cases hd

theorem isUnread_of_full (hF : F.Faithful)
    (h : Exec (runs F stateDir name allowed) (es ++ [⟨.deliver P label usizeMax, reply⟩]) w)
    (hm : m ∈ w.partition.log.messages) : w.partition.mailbox.isUnread scheme P label
      m = false := by
  obtain ⟨w₀, hx, -, hpost, hcall⟩ := h.last_step
  obtain ⟨hsync, hmail⟩ := simulates hF hx
  obtain ⟨-, hen, happ⟩ := simulates_step hF hsync
    (Mailbox.wellPosted_of_exec hmail).sorted hpost hcall
  obtain ⟨ms, -, rfl⟩ := deliver_of_call hcall
  obtain rfl : ms = _ := hen
  have hfits : (w₀.partition.mailbox.unread scheme P label).length ≤ usizeMax.toNat :=
    Nat.le_trans (List.length_filter_le ..) hsync.fits
  have hlog : m ∈ w₀.partition.mailbox.log := by
    have : w.partition.log.messages = w₀.partition.mailbox.log := congrArg Mailbox.log happ
    exact this ▸ hm
  rw [happ]
  exact Mailbox.isUnread_handOut_all hfits hlog

/-- A run of publishes and deliveries meets what publishes meet and its deliveries do. -/
theorem restrict_of_run (hF : F.Faithful) {cond : World → Event → Prop}
    {ok : Mailbox Message Ulid Pattern String → Mail Message Pattern String → Prop}
    (hpost : ∀ s m, ok s (.post m)) (hidle : ∀ s, ok s .idle)
    (hout : ∀ w P label limit ms, cond w ⟨.deliver P label limit, .messages ms⟩ →
      ok w.partition.mailbox (.handOut P label limit.toNat ms))
    (h : Exec ((runs F stateDir name Call.isPublishOrDeliver).restrict cond) es w) :
    Exec ((Mailbox.system scheme).restrict ok) (es.map Event.mail) w.partition.mailbox := by
  refine simulates_restrict hF (fun w e _ hallowed hcond => ?_) h
  obtain ⟨call, reply⟩ := e
  cases call with
  | publish m => exact hpost _ m
  | deliver P label limit =>
    cases reply with
    | messages ms => exact hout w P label limit ms hcond
    | published | removed | opened => exact hidle _
  | history | prune | reopen => cases hallowed

theorem noExpiry_of_run (hF : F.Faithful)
    (h : Exec (runs F stateDir name Call.isPublishOrDeliver) es w) :
    Exec ((Mailbox.system scheme).restrict Mailbox.NoExpiry) (es.map Event.mail)
      w.partition.mailbox := by
  have hx : Exec ((runs F stateDir name Call.isPublishOrDeliver).restrict fun _ _ => True) es w :=
    h.to_restrict fun _ _ _ _ _ => trivial
  exact restrict_of_run hF (fun _ _ => trivial) (fun _ => trivial) (fun _ _ _ _ _ _ => trivial) hx

/-! ## Exclusive messages -/

/-- The exclusive messages that match a pattern. -/
def exclusiveMatching (log : List Message) (P : Pattern) : List Message :=
  log.filter fun m => !m.broadcast && P.matchesTopic m.topic

/-- **After a full delivery somebody has every exclusive message that matches; a pattern used
alone hands them out in order, each once.** -/
theorem exclusive_complete (hF : F.Faithful)
    (h : Exec (runs F stateDir name Call.isPublishOrDeliver) es w) (P : Pattern) :
    (∀ ds label reply, es = ds ++ [⟨.deliver P label usizeMax, reply⟩] →
      ∀ m ∈ exclusiveMatching w.partition.log.messages P, ∃ label', m ∈ returnedTo label' es) ∧
    ((∀ e ∈ es, ∀ Q label limit, e.call = .deliver Q label limit → Q.asStr = P.asStr) →
      ((returned es).filter (!·.broadcast)).Pairwise (fun a b => a.id < b.id) ∧
      (returned es).filter (!·.broadcast) <+: exclusiveMatching w.partition.log.messages P ∧
      ∀ ds label reply, es = ds ++ [⟨.deliver P label usizeMax, reply⟩] →
        (returned es).filter (!·.broadcast) = exclusiveMatching w.partition.log.messages P) := by
  obtain ⟨-, hx⟩ := simulates hF h
  have hw := Mailbox.wellPosted_of_exec hx
  have hr := Mailbox.recorded_of_exec hx
  constructor
  · rintro ds label reply rfl m hm
    obtain ⟨hm, hc⟩ := List.mem_filter.mp hm
    rw [Bool.and_eq_true, Bool.not_eq_true'] at hc
    rcases Mailbox.passed_or_delivered hw hr hm hc.2 (isUnread_of_full hF h hm)
        with hb | ⟨d, hd, -, hdm⟩
    · obtain ⟨d, hd, -, hdm⟩ := Mailbox.claims_settled (noExpiry_of_run hF h) P label m hm hc hb
      exact ⟨d.label, mem_returnedTo.mpr ⟨d, hd, rfl, hdm⟩⟩
    · exact ⟨d.label, mem_returnedTo.mpr ⟨d, hd, rfl, hdm⟩⟩
  · intro honly
    have honly : ∀ d ∈ Mail.deliveries (es.map Event.mail), d.pattern = P := by
      intro d hd
      obtain ⟨e, he, limit, hcall⟩ := exists_call_of_delivery hd
      exact Pattern.ext_raw (honly e he d.pattern d.label limit hcall)
    have hclaims : (returned es).filter (!·.broadcast) =
        (exclusiveMatching w.partition.log.messages P).filter fun m =>
          !isBeyond (w.partition.cursors.exclusivePosition P.asStr) m.id := by
      rw [returned_eq, List.filter_map]
      exact Mailbox.claims_of_only (fun _ _ => id) (noExpiry_of_run hF h) honly
    refine ⟨?_, ?_, ?_⟩
    · rw [hclaims]
      exact hw.sorted.sublist (List.filter_sublist.trans List.filter_sublist)
    · rw [hclaims]
      exact ⟨_, (Mailbox.claimable_split hw.sorted P _).symm⟩
    · rintro ds label reply rfl
      rw [hclaims]
      exact Mailbox.filter_claimable_of_full hw hr honly fun m hm => isUnread_of_full hF h hm

/-- Two labels share a pattern; the second call is a full one. -/
theorem exclusive_complete_shared_pattern : ∃ es w,
    Exec (runs .reference "/state" sampleName Call.isPublishOrDeliver) es w ∧
    es.map Event.call = [.publish (sampleMessage 1 devTopic), .publish (sampleMessage 2 devTopic),
      .deliver devPattern "alice" 1, .deliver devPattern "bob" usizeMax] ∧
    (returned es).filter (!·.broadcast) = exclusiveMatching w.partition.log.messages
      devPattern := by
  obtain ⟨es, w, hx, hcalls, -⟩ := exec_of_sampleRun Call.isPublishOrDeliver (fun _ _ => true)
    [.publish (sampleMessage 1 devTopic), .publish (sampleMessage 2 devTopic),
      .deliver devPattern "alice" 1, .deliver devPattern "bob" usizeMax] (fun _ _ => true)
    (by decide) (by simp [Call.isPublishOrDeliver]) (by decide)
  have honly : ∀ e ∈ es, ∀ Q label limit, e.call = .deliver Q label limit →
      Q.asStr = devPattern.asStr := by
    intro e he Q label limit hcall
    have hmem := List.mem_map_of_mem (f := Event.call) he
    rw [hcalls, hcall] at hmem
    simp only [List.mem_cons, Call.deliver.injEq, reduceCtorEq, List.not_mem_nil, false_or,
      or_false] at hmem
    rcases hmem with ⟨rfl, -⟩ | ⟨rfl, -⟩ <;> rfl
  obtain ⟨ds, reply, hes, -⟩ := exists_last_of_calls [_, _, _] hcalls
  exact ⟨es, w, hx.of_restrict, hcalls,
    ((exclusive_complete Formats.reference_faithful hx.of_restrict devPattern).2 honly).2.2 ds "bob"
      reply hes⟩

/-! ## Broadcast messages -/

/-- The delivery moves its label's broadcast position across a broadcast message that its pattern
does not match. -/
def PassesBroadcast (w : World) : Call → Prop
  | .deliver pattern label limit =>
    w.partition.mailbox.HidesShared scheme pattern label limit.toNat
  | _ => False

instance (w : World) : DecidablePred (PassesBroadcast w)
  | .deliver pattern label limit =>
    inferInstanceAs (Decidable (w.partition.mailbox.HidesShared scheme pattern label limit.toNat))
  | .publish _ | .history _ _ _ | .prune _ _ | .reopen => inferInstanceAs (Decidable False)

theorem noHiddenShared_of_run (hF : F.Faithful)
    (h : Exec ((runs F stateDir name Call.isPublishOrDeliver).restrict
      fun w e => ¬ PassesBroadcast w e.call) es w) :
    Exec ((Mailbox.system scheme).restrict (Mailbox.NoHiddenShared scheme)) (es.map Event.mail)
      w.partition.mailbox := by
  exact restrict_of_run hF (fun _ _ => trivial) (fun _ => trivial) (fun _ _ _ _ _ hcond => hcond) h

/-- **As long as no position passes a broadcast message that the pattern being read does not match,
a full delivery leaves its label with every broadcast message that matches.** -/
theorem broadcast_complete (hF : F.Faithful)
    (h : Exec ((runs F stateDir name Call.isPublishOrDeliver).restrict
      fun w e => ¬ PassesBroadcast w e.call) (es ++ [⟨.deliver P label usizeMax, reply⟩]) w)
    (hm : m ∈ w.partition.log.messages) (hshared : m.broadcast = true)
    (hmatch : P.matchesTopic m.topic = true) :
    m ∈ returnedTo label (es ++ [⟨.deliver P label usizeMax, reply⟩]) := by
  obtain ⟨-, hx⟩ := simulates hF h.of_restrict
  refine mem_returnedTo.mpr ?_
  rcases Mailbox.passed_or_delivered (Mailbox.wellPosted_of_exec hx) (Mailbox.recorded_of_exec hx)
    hm hmatch (isUnread_of_full hF h.of_restrict hm) with hb | hd
  · exact Mailbox.shared_settled (noHiddenShared_of_run hF h) P label m hm hshared hb
  · exact hd

/-- A label that reads everything under one pattern. -/
theorem broadcast_complete_one_pattern : ∃ es w reply,
    Exec (runs .reference "/state" sampleName Call.isPublishOrDeliver)
      (es ++ [⟨.deliver anyPattern "alice" usizeMax, reply⟩]) w ∧
    ∀ m ∈ w.partition.log.messages, m.broadcast = true → anyPattern.matchesTopic m.topic = true →
      m ∈ returnedTo "alice" (es ++ [⟨.deliver anyPattern "alice" usizeMax, reply⟩]) := by
  obtain ⟨es, w, hx, hcalls, -⟩ := exec_of_sampleRun Call.isPublishOrDeliver
    (fun w call => decide (¬ PassesBroadcast w call))
    [.publish (sampleMessage 1 plannerTopic).asBroadcast,
      .publish (sampleMessage 2 devTopic).asBroadcast, .deliver anyPattern "alice" 1,
      .deliver anyPattern "alice" usizeMax] (fun _ _ => true)
    (by decide) (by simp [Call.isPublishOrDeliver]) (by decide)
  obtain ⟨ds, reply, rfl, -⟩ := exists_last_of_calls [_, _, _] hcalls
  have hx := hx.restrict_mono fun w e h => of_decide_eq_true h
  exact ⟨ds, w, reply, hx.of_restrict, fun m => broadcast_complete Formats.reference_faithful hx⟩

/-- A label that reads a second pattern misses the broadcast that its first read passed. -/
theorem broadcast_passed_over : ∃ es w reply,
    Exec (runs .reference "/state" sampleName Call.isPublishOrDeliver)
      (es ++ [⟨.deliver plannerPattern "alice" usizeMax, reply⟩]) w ∧
    es.map Event.call = [.publish (sampleMessage 1 plannerTopic).asBroadcast,
      .publish (sampleMessage 2 devTopic).asBroadcast, .deliver devPattern "alice" usizeMax] ∧
    ∃ m ∈ w.partition.log.messages, m.broadcast = true ∧
      plannerPattern.matchesTopic m.topic = true ∧
      m ∉ returnedTo "alice" (es ++ [⟨.deliver plannerPattern "alice" usizeMax, reply⟩]) := by
  obtain ⟨es, w, hx, hcalls, hmiss⟩ := exec_of_sampleRun Call.isPublishOrDeliver (fun _ _ => true)
    [.publish (sampleMessage 1 plannerTopic).asBroadcast,
      .publish (sampleMessage 2 devTopic).asBroadcast, .deliver devPattern "alice" usizeMax,
      .deliver plannerPattern "alice" usizeMax]
    (fun es w => decide (∃ m ∈ w.partition.log.messages, m.broadcast = true ∧
      plannerPattern.matchesTopic m.topic = true ∧ m ∉ returnedTo "alice" es))
    (by decide) (by simp [Call.isPublishOrDeliver]) (by decide)
  obtain ⟨ds, reply, rfl, hds⟩ := exists_last_of_calls [_, _, _] hcalls
  exact ⟨ds, w, reply, hx.of_restrict, hds, of_decide_eq_true hmiss⟩

/-! ## Suppressed duplicates -/

/-- The delivery moves its pattern's position across an exclusive message that its label got under
another pattern. -/
def PassesSuppressed (w : World) : Call → Prop
  | .deliver pattern label limit =>
    w.partition.mailbox.HidesClaim scheme pattern label limit.toNat
  | _ => False

instance (w : World) : DecidablePred (PassesSuppressed w)
  | .deliver pattern label limit =>
    inferInstanceAs (Decidable (w.partition.mailbox.HidesClaim scheme pattern label limit.toNat))
  | .publish _ | .history _ _ _ | .prune _ _ | .reopen => inferInstanceAs (Decidable False)

theorem noHiddenClaim_of_run (hF : F.Faithful)
    (h : Exec ((runs F stateDir name Call.isPublishOrDeliver).restrict
      fun w e => ¬ PassesSuppressed w e.call) es w) :
    Exec ((Mailbox.system scheme).restrict (Mailbox.NoHiddenClaim scheme)) (es.map Event.mail)
      w.partition.mailbox := by
  exact restrict_of_run hF (fun _ _ => trivial) (fun _ => trivial) (fun _ _ _ _ _ hcond => hcond) h

/-- **As long as no position passes a message suppressed for the reading label, an exclusive message
not yet handed out under a pattern is there for every label that does not have it.** -/
theorem suppression_hides_nothing (hF : F.Faithful)
    (h : Exec ((runs F stateDir name Call.isPublishOrDeliver).restrict
      fun w e => ¬ PassesSuppressed w e.call) es w)
    (hm : m ∈ w.partition.log.messages) (hexcl : m.broadcast = false)
    (hmatch : P.matchesTopic m.topic = true) (hunder : m ∉ returnedUnder P.asStr es)
    (hlabel : m ∉ returnedTo label es) :
    ∃ ms w', w.call F stateDir noFaults (.deliver P label usizeMax) = (.ok (.messages ms), w') ∧
      m ∈ ms := by
  obtain ⟨hsync, hx⟩ := simulates hF h.of_restrict
  have hw := Mailbox.wellPosted_of_exec hx
  have hr := Mailbox.recorded_of_exec hx
  refine ⟨_, _, Partition.call_deliver P label usizeMax, ?_⟩
  rw [Partition.merged_max hw.sorted hsync.fits, Mailbox.mem_unread]
  refine ⟨hm, Mailbox.isUnread_iff.mpr ⟨hmatch, ?_, ?_⟩⟩
  · -- a recorded id is the id of a message the label got
    rw [Bool.eq_false_iff]
    intro hseen
    obtain ⟨d, hd, hdl, hk⟩ := hr.delivered label _ hseen
    exact hlabel (mem_returnedTo.mpr ⟨d, hd, hdl, hw.message_eq hr hd hm hk⟩)
  · by_contra hb
    obtain ⟨d, hd, hdp, hdm⟩ := Mailbox.claims_settled_pattern (noHiddenClaim_of_run hF h) P label m
      hm ⟨hexcl, hmatch⟩ (Bool.eq_false_iff.mpr hb)
    exact hunder (mem_returnedUnder.mpr ⟨d, hd, congrArg Pattern.asStr hdp, hdm⟩)

/-- A message one label got through its inbox is there for another under the wildcard. -/
theorem suppression_hides_nothing_other_label : ∃ es w,
    Exec (runs .reference "/state" sampleName Call.isPublishOrDeliver) es w ∧
    es.map Event.call = [.publish (sampleMessage 1 devTopic), .deliver devPattern "dev" usizeMax] ∧
    ∃ ms w', w.call .reference "/state" noFaults (.deliver anyPattern "hook" usizeMax) =
      (.ok (.messages ms), w') ∧ sampleMessage 1 devTopic ∈ ms := by
  obtain ⟨es, w, hx, hcalls, hobs⟩ := exec_of_sampleRun Call.isPublishOrDeliver
    (fun w call => decide (¬ PassesSuppressed w call))
    [.publish (sampleMessage 1 devTopic), .deliver devPattern "dev" usizeMax]
    (fun es w => decide (sampleMessage 1 devTopic ∈ w.partition.log.messages ∧
      sampleMessage 1 devTopic ∉ returnedUnder anyPattern.asStr es ∧
      sampleMessage 1 devTopic ∉ returnedTo "hook" es))
    (by decide) (by simp [Call.isPublishOrDeliver]) (by decide)
  obtain ⟨hm, hunder, hlabel⟩ := of_decide_eq_true hobs
  have hx := hx.restrict_mono fun w e h => of_decide_eq_true h
  exact ⟨es, w, hx.of_restrict, hcalls,
    suppression_hides_nothing Formats.reference_faithful hx hm rfl (by decide) hunder hlabel⟩

/-- Once the label with the first message reads the wildcard past it, nobody else gets it there. -/
theorem suppressed_for_everybody : ∃ es w,
    Exec (runs .reference "/state" sampleName Call.isPublishOrDeliver) es w ∧
    es.map Event.call = [.publish (sampleMessage 1 devTopic), .deliver devPattern "alice" usizeMax,
      .publish (sampleMessage 2 devTopic), .deliver anyPattern "alice" usizeMax] ∧
    ∃ m ∈ w.partition.log.messages, m.broadcast = false ∧
      anyPattern.matchesTopic m.topic = true ∧ m ∉ returnedUnder anyPattern.asStr es ∧
      m ∉ returnedTo "bob" es ∧ ∃ w', w.call .reference "/state" noFaults
        (.deliver anyPattern "bob" usizeMax) = (.ok (.messages []), w') := by
  obtain ⟨es, w, hx, hcalls, hobs⟩ := exec_of_sampleRun Call.isPublishOrDeliver (fun _ _ => true)
    [.publish (sampleMessage 1 devTopic), .deliver devPattern "alice" usizeMax,
      .publish (sampleMessage 2 devTopic), .deliver anyPattern "alice" usizeMax]
    (fun es w => decide (∃ m ∈ w.partition.log.messages, m.broadcast = false ∧
      anyPattern.matchesTopic m.topic = true ∧ m ∉ returnedUnder anyPattern.asStr es ∧
      m ∉ returnedTo "bob" es ∧ w.partition.merged anyPattern "bob" usizeMax = []))
    (by decide) (by simp [Call.isPublishOrDeliver]) (by decide)
  obtain ⟨m, hm, hexcl, hmatch, hunder, hlabel, hnil⟩ := of_decide_eq_true hobs
  exact ⟨es, w, hx.of_restrict, hcalls, m, hm, hexcl, hmatch, hunder, hlabel, _,
    hnil ▸ Partition.call_deliver anyPattern "bob" usizeMax⟩

end AgentBus
