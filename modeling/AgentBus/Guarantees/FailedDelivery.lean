import AgentBus.Daemon.Replay
import AgentBus.Daemon.Simulation

/-!
# A delivery whose cursors could not be persisted

`deliver` moves the positions and marks the delivered ids before it persists
them, and keeps both when persisting fails: the caller gets an error, and the
selected messages are never handed to it again.
-/

namespace AgentBus

open Lib

variable {F : Formats} {w w' : World} {fault : Option Partition.PersistFault} {P : Pattern}
  {label : String} {limit : UInt64} {e : Failure}

/-- **No failed delivery leaves what everybody is owed as it was.** -/
theorem failed_delivery_forgets
    (h : w.partition.deliver F fault w.disk P label limit = (.error e, w')) :
    ¬ ∀ Q label', w'.owed F Q label' = w.owed F Q label' := by
  intro hsame
  obtain ⟨hne, hw'⟩ := Partition.of_deliver_error h
  obtain ⟨m, hm⟩ := List.exists_mem_of_ne_nil _ hne
  have howed : w'.partition.merged P label usizeMax = w.partition.merged P label usizeMax := by
    simpa only [World.owed_eq, Except.ok.injEq] using hsame P label
  -- what the call selected, a full delivery would have selected before it
  have hbefore : m ∈ w.partition.merged P label usizeMax := by
    obtain ⟨ms, htake, -⟩ := Partition.exists_merged_eq_take w.partition P label
    rw [htake] at hm ⊢
    exact List.take_subset_take_left ms (toNat_le_usizeMax limit) hm
  -- but not after it, since it is marked as delivered
  have hafter : w'.partition.cursors.isDelivered label m.id = false := by
    obtain ⟨ms, htake, hnew⟩ := Partition.exists_merged_eq_take w'.partition P label
    rw [← howed, htake] at hbefore
    exact (hnew m (List.mem_of_mem_take hbefore)).2
  rw [hw', Partition.recordBatch, (Partition.markAll_spec _ _ _).2.2, decide_eq_true rfl,
    Bool.true_and, Bool.or_eq_false_iff] at hafter
  exact List.any_eq_false.mp hafter.2 m hm (decide_eq_true rfl)

/-- One message, and a rename that fails. -/
theorem failed_delivery_forgets_one : ∃ es w e w',
    Exec (runs .reference "/state" sampleName Call.isOnline) es w ∧
    es.map Event.call = [.publish (sampleMessage 1 devTopic)] ∧
    w.partition.deliver .reference (some .rename) w.disk devPattern "alice" 1 = (.error e, w') ∧
    ¬ ∀ Q label, w'.owed .reference Q label = w.owed .reference Q label := by
  obtain ⟨es, w, hx, hcalls, hobs⟩ := exec_of_sampleRun Call.isOnline (fun _ _ => true)
    [.publish (sampleMessage 1 devTopic)]
    (fun _ w => decide (w.partition.merged devPattern "alice" 1 ≠ [])) (by decide)
    (by simp [Call.isOnline]) (by decide)
  obtain ⟨e, w', hdel⟩ := Partition.exists_deliver_error .reference w.disk .rename
    (of_decide_eq_true hobs)
  exact ⟨es, w, e, w', hx.of_restrict, hcalls, hdel, failed_delivery_forgets hdel⟩

/-- The message the failed call selected is owed to nobody who reads like it any more. -/
theorem selected_message_lost : ∃ es w e w',
    Exec (runs .reference "/state" sampleName Call.isOnline) es w ∧
    es.map Event.call = [.publish (sampleMessage 1 devTopic)] ∧
    w.partition.deliver .reference (some .rename) w.disk devPattern "alice" 1 = (.error e, w') ∧
    w.owed .reference devPattern "alice" = .ok [sampleMessage 1 devTopic] ∧
    w'.owed .reference devPattern "alice" = .ok [] ∧
    w'.owed .reference devPattern "bob" = .ok [] := by
  obtain ⟨es, w, hx, hcalls, hobs⟩ := exec_of_sampleRun Call.isOnline (fun _ _ => true)
    [.publish (sampleMessage 1 devTopic)]
    (fun _ w => decide (w.partition.merged devPattern "alice" 1 ≠ [] ∧
      w.partition.merged devPattern "alice" usizeMax = [sampleMessage 1 devTopic] ∧
      ∀ label ∈ ["alice", "bob"], (w.partition.deliver .reference (some .rename) w.disk devPattern
        "alice" 1).2.partition.merged devPattern label usizeMax = [])) (by decide)
    (by simp [Call.isOnline]) (by decide)
  obtain ⟨hne, hbefore, hafter⟩ := of_decide_eq_true hobs
  obtain ⟨e, w', hdel⟩ := Partition.exists_deliver_error .reference w.disk .rename hne
  rw [hdel] at hafter
  exact ⟨es, w, e, w', hx.of_restrict, hcalls, hdel, by rw [World.owed_eq, hbefore],
    by rw [World.owed_eq, hafter "alice" (by decide)],
    by rw [World.owed_eq, hafter "bob" (by decide)]⟩

end AgentBus
