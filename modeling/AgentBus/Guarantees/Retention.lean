import AgentBus.Daemon.Replay
import AgentBus.Daemon.Simulation

/-!
# What a prune leaves to be delivered

`snapForward` sets a stale position to the oldest surviving id, which marks
that message as delivered. `prune_keeps_unread` says that this is the only
change a prune makes to what a reader is owed.
-/

namespace AgentBus

open Lib

variable {F : Formats} {stateDir : Path} {name : PartitionName} {es : List Event} {w : World}

/-- The prune from `w` to `w'` passes over this message: it is the oldest survivor of a prune that
removed something, and the position it is judged by was set. -/
def isPassedOver (w w' : World) (P : Pattern) (label : String) (m : Message) : Bool :=
  decide (w'.partition.log.messages.length < w.partition.log.messages.length) &&
    decide (w'.partition.log.messages.head?.map Message.id = some m.id) &&
    (if m.broadcast then w.partition.cursors.broadcastPosition label
      else w.partition.cursors.exclusivePosition P.asStr).isSome

/-- **A prune keeps what every reader is owed, as far as it survives and is not passed over.** -/
theorem prune_keeps_unread (hF : F.Faithful)
    (h : Exec (runs F stateDir name Call.isOnline) es w) (policy : RetentionPolicy) (now : Nat) :
    ∃ count w', w.call F stateDir noFaults (.prune policy now) = (.ok (.removed count), w') ∧
      ∀ P label, w'.owed F P label = (w.owed F P label).map (List.filter fun m =>
        decide (m ∈ w'.partition.log.messages) && !isPassedOver w w' P label m) := by
  obtain ⟨hsync, hx⟩ := simulates hF h
  obtain ⟨count, w', hprune, hcall⟩ :=
    Partition.exists_call_prune (F := F) hsync.attached stateDir policy now
  obtain ⟨hsync', hmail⟩ := hsync.prune hprune
  have hs := (Mailbox.wellPosted_of_exec hx).sorted
  have hlog : w'.partition.log.messages = w.partition.log.messages.filter (policy.keeps now) :=
    (congrArg Mailbox.log hmail).trans (Mailbox.log_expire _)
  have hs' : w'.partition.mailbox.Sorted scheme := by
    rw [Mailbox.Sorted, show w'.partition.mailbox.log = _ from hlog]
    exact hs.sublist List.filter_sublist
  refine ⟨count, w', hcall, fun P label => ?_⟩
  rw [World.owed_eq, World.owed_eq, Partition.merged_max hs' hsync'.fits,
    Partition.merged_max hs hsync.fits, hmail, Mailbox.unread_expire hs]
  refine congrArg Except.ok (List.filter_congr fun m hm => ?_)
  have hm : m ∈ w.partition.log.messages := (Mailbox.mem_unread.mp hm).1
  have hkeep : decide (m ∈ w'.partition.log.messages) = policy.keeps now m := by
    rw [hlog, Bool.eq_iff_iff, decide_eq_true_iff, List.mem_filter, and_iff_right hm]
  have hskip : isPassedOver w w' P label m =
      w.partition.mailbox.isSkipped scheme (policy.keeps now) P label m := by
    have hpos : w.partition.mailbox.position scheme P label m =
        if m.broadcast then w.partition.cursors.broadcastPosition label
        else w.partition.cursors.exclusivePosition P.asStr := rfl
    rw [isPassedOver, Mailbox.isSkipped, Mailbox.oldestSurvivor, hlog, hpos]
    by_cases hlt : (w.partition.log.messages.filter (policy.keeps now)).length <
      w.partition.log.messages.length
    · cases hhead : (w.partition.log.messages.filter (policy.keeps now)).head? with
      | none => simp [Partition.mailbox, hlt, hhead]
      | some a =>
        by_cases hid : a.id = m.id <;> simp [Partition.mailbox, scheme, hlt, hhead, hid]
    · simp [Partition.mailbox, hlt]
  rw [hkeep, hskip]

/-- The second message outlives the first and is delivered, to a reader that never read before. -/
theorem prune_keeps_unread_first_read : ∃ es w count w',
    Exec (runs .reference "/state" sampleName Call.isOnline) es w ∧
    es.map Event.call = [.publish (sampleMessage 1 devTopic), .publish (sampleMessage 2 devTopic)] ∧
    w.call .reference "/state" noFaults (.prune ⟨10⟩ 11) = (.ok (.removed count), w') ∧
    w'.owed .reference devPattern "alice" = (w.owed .reference devPattern "alice").map
      (List.filter fun m => decide (m ∈ w'.partition.log.messages) &&
        !isPassedOver w w' devPattern "alice" m) := by
  obtain ⟨es, w, hx, hcalls, -⟩ := exec_of_sampleRun Call.isOnline (fun _ _ => true)
    [.publish (sampleMessage 1 devTopic), .publish (sampleMessage 2 devTopic)]
    (fun _ _ => true) (by decide) (by simp [Call.isOnline]) (by decide)
  obtain ⟨count, w', hcall, hkeeps⟩ :=
    prune_keeps_unread Formats.reference_faithful hx.of_restrict ⟨10⟩ 11
  exact ⟨es, w, count, w', hx.of_restrict, hcalls, hcall, hkeeps devPattern "alice"⟩

/-- Alice has read the first message. The prune removes it, keeps the second, and she is not handed
the second any more. -/
theorem unread_survivor_lost : ∃ es w count w',
    Exec (runs .reference "/state" sampleName Call.isOnline) es w ∧
    es.map Event.call = [.publish (sampleMessage 1 devTopic), .publish (sampleMessage 2 devTopic),
      .deliver devPattern "alice" 1] ∧
    w.call .reference "/state" noFaults (.prune ⟨10⟩ 11) = (.ok (.removed count), w') ∧
    sampleMessage 2 devTopic ∈ w'.partition.log.messages ∧
    w.owed .reference devPattern "alice" = .ok [sampleMessage 2 devTopic] ∧
    w'.owed .reference devPattern "alice" = .ok [] := by
  obtain ⟨es, w, hx, hcalls, hobs⟩ := exec_of_sampleRun Call.isOnline (fun _ _ => true)
    [.publish (sampleMessage 1 devTopic), .publish (sampleMessage 2 devTopic),
      .deliver devPattern "alice" 1]
    (fun _ w =>
      decide (w.partition.merged devPattern "alice" usizeMax = [sampleMessage 2 devTopic] ∧
      sampleMessage 2 devTopic ∈ (w.call .reference "/state" noFaults
        (.prune ⟨10⟩ 11)).2.partition.log.messages ∧
      (w.call .reference "/state" noFaults (.prune ⟨10⟩ 11)).2.partition.merged devPattern "alice"
        usizeMax = [])) (by decide) (by simp [Call.isOnline]) (by decide)
  obtain ⟨hbefore, hsurvives, hafter⟩ := of_decide_eq_true hobs
  obtain ⟨hsync, -⟩ := simulates Formats.reference_faithful hx.of_restrict
  obtain ⟨count, w', -, hcall⟩ :=
    Partition.exists_call_prune (F := .reference) hsync.attached "/state" ⟨10⟩ 11
  rw [hcall] at hsurvives hafter
  exact ⟨es, w, count, w', hx.of_restrict, hcalls, hcall, hsurvives, by rw [World.owed_eq, hbefore],
    by rw [World.owed_eq, hafter]⟩

end AgentBus
