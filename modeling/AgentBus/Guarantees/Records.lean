import AgentBus.Daemon.Replay
import AgentBus.Daemon.Simulation
import AgentBus.Lib.MailExpiry

/-!
# Delivered ids and the messages of the log

`prune` trims the delivered ids below the oldest surviving message. Where
nothing survives there is no such message and nothing is trimmed: the ids of
messages that are gone stay, in memory and in the cursor file, until a later
prune leaves a survivor.
-/

namespace AgentBus

open Lib

variable {F : Formats} {stateDir : Path} {name : PartitionName} {es : List Event} {w : World}

/-- Every delivered id is the id of a message in the log. -/
def Partition.RecordsInLog (p : Partition) : Prop :=
  ∀ label id, p.cursors.isDelivered label id = true → ∃ m ∈ p.log.messages, m.id = id

/-- The prune empties a log although ids are on record. -/
def StrandsRecords (w : World) : Call → Prop
  | .prune policy now => w.partition.log.messages ≠ [] ∧
      (∀ m ∈ w.partition.log.messages, policy.keeps now m = false) ∧
      ∃ label id, w.partition.cursors.isDelivered label id = true
  | _ => False

theorem dropsOldest_keeps (p : Partition) (policy : RetentionPolicy) (now : Nat) :
    p.mailbox.DropsOldest scheme (policy.keeps now) :=
  fun _ _ _ _ h => policy.keeps_mono now h

theorem seenBelow_of_run (hF : F.Faithful) {allowed : Call → Prop}
    (h : Exec (runs F stateDir name allowed) es w) : w.partition.mailbox.SeenBelow scheme := by
  have hr : Exec ((runs F stateDir name allowed).restrict fun _ _ => True) es w :=
    h.to_restrict fun _ _ _ _ _ => trivial
  refine Mailbox.seenBelow_of_exec (simulates_restrict hF (fun w e _ _ _ => ?_) hr)
  obtain ⟨call, reply⟩ := e
  cases call with
  | prune policy now => exact dropsOldest_keeps w.partition policy now
  | deliver _ _ _ => cases reply <;> exact trivial
  | publish _ | history _ _ _ | reopen => exact trivial

/-- A label has at most as many records as the log has messages. -/
theorem card_delivered_le {p : Partition} (h : p.RecordsInLog) {label : String} {ids : Finset Ulid}
    (hids : p.cursors.delivered[label]? = some ids) : ids.card ≤ p.log.messages.length := by
  have hsub : ids ⊆ (p.log.messages.map Message.id).toFinset := by
    intro id hid
    obtain ⟨m, hm, hk⟩ := h label id (by simp [CursorStore.isDelivered, hids, hid])
    exact List.mem_toFinset.mpr (List.mem_map.mpr ⟨m, hm, hk⟩)
  calc ids.card ≤ (p.log.messages.map Message.id).toFinset.card := Finset.card_le_card hsub
    _ ≤ (p.log.messages.map Message.id).length := List.toFinset_card_le _
    _ = p.log.messages.length := List.length_map ..

/-- **Delivered records stay within the log exactly where no prune strands them.** -/
theorem records_within_log (hF : F.Faithful) (h : Exec (runs F stateDir name Call.isOnline) es w) :
    (∀ policy now, (∃ m ∈ w.partition.log.messages, policy.keeps now m = false) →
      ∃ count w', w.call F stateDir noFaults (.prune policy now) = (.ok (.removed count), w') ∧
        (w'.partition.RecordsInLog ↔ ¬ StrandsRecords w (.prune policy now))) ∧
    (Exec ((runs F stateDir name Call.isOnline).restrict fun w e => ¬ StrandsRecords w e.call) es
      w → ∀ (label : String) (ids : Finset Ulid), w.partition.cursors.delivered[label]? = some ids →
        ids.card ≤ w.partition.log.messages.length) := by
  constructor
  · rintro policy now ⟨m, hm, hdrop⟩
    obtain ⟨hsync, -⟩ := simulates hF h
    obtain ⟨count, w', hprune, hcall⟩ :=
      Partition.exists_call_prune (F := F) hsync.attached stateDir policy now
    have hmail := (hsync.prune hprune).2
    have hiff := Mailbox.seenInLog_expire_iff (seenBelow_of_run hF h)
      (dropsOldest_keeps w.partition policy now) hm hdrop
    refine ⟨count, w', hcall, ?_⟩
    have hrecords : w'.partition.RecordsInLog ↔ w'.partition.mailbox.SeenInLog scheme := Iff.rfl
    rw [hrecords, hmail, hiff]
    constructor
    · rintro (⟨a, ha, hkeep⟩ | hnone) ⟨-, hall, label, id, hseen⟩
      · exact absurd ((hall a ha).symm.trans hkeep) (by decide)
      · exact absurd (hseen.symm.trans (hnone label id)) (by decide)
    · intro hnot
      by_contra hcon
      push Not at hcon
      obtain ⟨hall, label, id, hseen⟩ := hcon
      exact hnot ⟨List.ne_nil_of_mem hm, fun a ha => Bool.eq_false_iff.mpr (hall a ha), label, id,
        Bool.of_not_eq_false hseen⟩
  · intro hr label ids hids
    refine card_delivered_le
      (Mailbox.seenInLog_of_exec (simulates_restrict hF (fun w e _ _ hok => ?_) hr)) hids
    obtain ⟨call, reply⟩ := e
    cases call with
    | prune policy now =>
      refine ⟨dropsOldest_keeps w.partition policy now, ?_⟩
      by_contra hcon
      push Not at hcon
      obtain ⟨hall, hne, label, id, hseen⟩ := hcon
      exact hok ⟨hne, fun a ha => Bool.eq_false_iff.mpr (hall a ha), label, id,
        Bool.of_not_eq_false hseen⟩
    | deliver _ _ _ => cases reply <;> exact trivial
    | publish _ | history _ _ _ | reopen => exact trivial

/-- Alice has read the first message, and the second outlives it. -/
theorem records_within_log_survivor : ∃ es w count w',
    Exec (runs .reference "/state" sampleName Call.isOnline) es w ∧
    es.map Event.call = [.publish (sampleMessage 1 devTopic), .deliver devPattern "alice" 1,
      .publish (sampleMessage 9 devTopic)] ∧
    w.call .reference "/state" noFaults (.prune ⟨10⟩ 11) = (.ok (.removed count), w') ∧
    w'.partition.RecordsInLog := by
  obtain ⟨es, w, hx, hcalls, hobs⟩ := exec_of_sampleRun Call.isOnline (fun _ _ => true)
    [.publish (sampleMessage 1 devTopic), .deliver devPattern "alice" 1,
      .publish (sampleMessage 9 devTopic)]
    (fun _ w => decide (w.partition.log.messages =
      [sampleMessage 1 devTopic, sampleMessage 9 devTopic])) (by decide)
        (by simp [Call.isOnline]) (by decide)
  have hlog := of_decide_eq_true hobs
  obtain ⟨hprune, -⟩ := records_within_log Formats.reference_faithful hx.of_restrict
  obtain ⟨count, w', hcall, hiff⟩ :=
    hprune ⟨10⟩ 11 ⟨sampleMessage 1 devTopic, by simp [hlog], by decide⟩
  refine ⟨es, w, count, w', hx.of_restrict, hcalls, hcall, hiff.mpr ?_⟩
  rintro ⟨-, hall, -⟩
  exact absurd (hall (sampleMessage 9 devTopic) (by simp [hlog])) (by decide)

/-- The only message expires, and the record that alice has it stays. -/
theorem record_outlives_log : ∃ es w count w',
    Exec (runs .reference "/state" sampleName Call.isOnline) es w ∧
    es.map Event.call = [.publish (sampleMessage 1 devTopic), .deliver devPattern "alice" 1] ∧
    w.call .reference "/state" noFaults (.prune ⟨10⟩ 11) = (.ok (.removed count), w') ∧
    0 < count ∧ w'.partition.log.messages = [] ∧
    w'.partition.cursors.isDelivered "alice" (sampleMessage 1 devTopic).id = true := by
  obtain ⟨es, w, hx, hcalls, hobs⟩ := exec_of_sampleRun Call.isOnline (fun _ _ => true)
    [.publish (sampleMessage 1 devTopic), .deliver devPattern "alice" 1]
    (fun _ w => decide (w.partition.log.messages = [sampleMessage 1 devTopic] ∧
      w.partition.cursors.isDelivered "alice" (sampleMessage 1 devTopic).id = true))
    (by decide) (by simp [Call.isOnline]) (by decide)
  obtain ⟨hlog, hseen⟩ := of_decide_eq_true hobs
  obtain ⟨hsync, -⟩ := simulates Formats.reference_faithful hx.of_restrict
  have hnil : w.partition.log.messages.filter (RetentionPolicy.keeps ⟨10⟩ 11) = [] := by
    rw [hlog]
    decide
  have hprune : w.partition.prune .reference none w.disk ⟨10⟩ 11 = _ :=
    Partition.prune_of_none_kept (by simp [hlog]) hsync.attached hnil
  have hcall : w.call .reference "/state" noFaults (.prune ⟨10⟩ 11) = _ :=
    congrArg (fun r => (r.1.map Reply.removed, r.2)) hprune
  exact ⟨es, w, _, _, hx.of_restrict, hcalls, hcall, by simp [hlog], rfl, hseen⟩

end AgentBus
