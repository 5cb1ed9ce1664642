import AgentBus.Daemon.Replay
import AgentBus.Daemon.Simulation

/-!
# At most once

Over publishes, deliveries, prunes and reopenings in any order.
-/

namespace AgentBus

open Lib

variable {F : Formats} {stateDir : Path} {name : PartitionName} {allowed : Call → Prop}
  {es : List Event} {w : World}

/-- **No message is returned twice to a label, nor, unless broadcast, under a pattern string.** -/
theorem at_most_once (hF : F.Faithful) (h : Exec (runs F stateDir name fun _ => True) es w)
    (label pattern : String) : ((returnedTo label es).map Message.id).Nodup ∧
      (((returnedUnder pattern es).filter (!·.broadcast)).map Message.id).Nodup := by
  obtain ⟨-, hx⟩ := simulates hF h
  constructor
  · have := Mailbox.nodup_label hx label
    rw [returnedTo, flatMap_handedWhen, List.map_map]
    exact this
  · rw [returnedUnder, flatMap_handedWhen, List.filter_map, List.filter_filter, List.map_map]
    by_cases hp : ∃ p : Pattern, p.asStr = pattern
    · obtain ⟨p, rfl⟩ := hp
      refine (Mailbox.nodup_pattern hx p).sublist (List.Sublist.map _ ?_)
      refine List.monotone_filter_right _ fun d hd => ?_
      simp only [Function.comp_apply, Bool.and_eq_true, decide_eq_true_eq] at hd
      simpa [scheme, Pattern.ext_raw hd.2] using hd.1
    · -- no pattern has this string
      rw [List.filter_eq_nil_iff.mpr]
      · exact .nil
      · intro d _ hd
        simp only [Bool.and_eq_true, decide_eq_true_eq] at hd
        exact hp ⟨d.pattern, hd.2⟩

/-- One message, asked for twice by one label under overlapping patterns. -/
theorem at_most_once_overlapping : ∃ es w,
    Exec (runs .reference "/state" sampleName fun _ => True) es w ∧
    es.map Event.call = [.publish (sampleMessage 1 devTopic), .deliver devPattern "alice" usizeMax,
      .deliver anyPattern "alice" usizeMax] ∧ returnedTo "alice" es ≠ [] ∧
    ((returnedTo "alice" es).map Message.id).Nodup ∧
      (((returnedUnder "iot_base/*" es).filter (!·.broadcast)).map Message.id).Nodup := by
  obtain ⟨es, w, hx, hcalls, hne⟩ := exec_of_sampleRun (fun _ => True) (fun _ _ => true)
    [.publish (sampleMessage 1 devTopic), .deliver devPattern "alice" usizeMax,
      .deliver anyPattern "alice" usizeMax] (fun es _ => decide (returnedTo "alice" es ≠ []))
    (by decide) (by simp) (by decide)
  exact ⟨es, w, hx.of_restrict, hcalls, of_decide_eq_true hne,
    at_most_once Formats.reference_faithful hx.of_restrict "alice" "iot_base/*"⟩

end AgentBus
