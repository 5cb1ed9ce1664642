import AgentBus.Daemon.Report
import AgentBus.Guarantees.Records

/-!
# What the snapped flag says

`prune` flags the positions that lie below the oldest surviving message. It
looks at ids only: a position may lie below the survivor although its reader
had read everything that was removed, and where nothing survives there is no
id to compare with, so what is lost then is not flagged.
-/

namespace AgentBus

open Lib PartitionLog

variable {F : Formats} {stateDir : Path} {name : PartitionName} {es : List Event} {w : World}

/-! ## Keys of snapped positions -/

theorem exclusiveKey_inj {a b : String} (h : "exclusive:" ++ a = "exclusive:" ++ b) : a = b := by
  have hchars := congrArg String.toList h
  rw [String.toList_append, String.toList_append, List.append_cancel_left_eq] at hchars
  exact String.toList_inj.mp hchars

theorem exclusiveKey_ne_broadcastKey (a b : String) : "exclusive:" ++ a ≠ "broadcast:" ++ b := by
  intro h
  have hchars := congrArg String.toList h
  rw [String.toList_append, String.toList_append] at hchars
  exact absurd (List.append_inj_left hchars (by decide)) (by decide)

theorem mem_staleKeys {positions : Positions} {oldest : Ulid} {key : String} :
    key ∈ CursorStore.staleKeys positions oldest ↔ ∃ pos, positions[key]? = some pos ∧
      pos < oldest := by
  simp only [CursorStore.staleKeys, List.mem_map, List.mem_filter, decide_eq_true_eq]
  constructor
  · rintro ⟨⟨k, pos⟩, ⟨hmem, hlt⟩, rfl⟩
    exact ⟨pos, Std.ExtTreeMap.mem_toList_iff_getElem?_eq_some.mp hmem, hlt⟩
  · rintro ⟨pos, hpos, hlt⟩
    exact ⟨(key, pos), ⟨Std.ExtTreeMap.mem_toList_iff_getElem?_eq_some.mpr hpos, hlt⟩, rfl⟩

theorem exclusiveKey_mem_snapForward {store : CursorStore} {oldest : Ulid} {key : String} :
    "exclusive:" ++ key ∈ (store.snapForward oldest).2 ↔
      ∃ pos, store.exclusivePosition key = some pos ∧ pos < oldest := by
  rw [CursorStore.exclusivePosition, ← mem_staleKeys, CursorStore.snapForward, List.mem_append]
  constructor
  · rintro (h | h)
    · obtain ⟨k, hk, heq⟩ := List.mem_map.mp h
      exact exclusiveKey_inj heq ▸ hk
    · obtain ⟨k, -, heq⟩ := List.mem_map.mp h
      exact absurd heq.symm (exclusiveKey_ne_broadcastKey key k)
  · exact fun h => .inl (List.mem_map_of_mem h)

theorem mem_recordSnapped {snapped keys : List String} {key : String} :
    key ∈ Partition.recordSnapped snapped keys ↔ key ∈ snapped ∨ key ∈ keys := by
  induction keys generalizing snapped with
  | nil => simp [Partition.recordSnapped]
  | cons k keys ih =>
    rw [Partition.recordSnapped, List.foldl_cons, ← Partition.recordSnapped, ih, List.mem_cons]
    by_cases hk : snapped.contains k = true
    · rw [if_pos hk]
      have hmem : k ∈ snapped := List.contains_iff_mem.mp hk
      constructor
      · rintro (h | h)
        · exact .inl h
        · exact .inr (.inr h)
      · rintro (h | rfl | h)
        · exact .inl h
        · exact .inl hmem
        · exact .inr h
    · rw [if_neg hk, List.mem_append, List.mem_singleton, or_assoc]

/-! ## Flags and losses -/

namespace Partition

/-- The line of the pattern's exclusive position says that it was snapped. -/
def Flagged (p : Partition) (P : Pattern) : Prop :=
  ∃ r ∈ p.patternSnapshots, r.key = P.asStr ∧ r.broadcast = false ∧ r.snapped = true

/-- Retention removes an exclusive message that the pattern selects and that lies beyond the
position. -/
def Loses (p : Partition) (policy : RetentionPolicy) (now : Nat) (P : Pattern)
    (pos : Ulid) : Prop :=
  ∃ m ∈ p.log.messages, policy.keeps now m = false ∧ m.broadcast = false ∧
    P.matchesTopic m.topic = true ∧ pos < m.id

/-- From `p` to `p'` exactly the stored patterns that lost a message came to be flagged. -/
def FlagsLosses (policy : RetentionPolicy) (now : Nat) (p p' : Partition) : Prop :=
  ∀ P pos, p.cursors.exclusivePosition P.asStr = some pos →
    (¬ p.Flagged P → p'.Flagged P → p.Loses policy now P pos) ∧
      (p.Loses policy now P pos → p'.Flagged P)

/-- Of the patterns not flagged yet, those below the oldest survivor lose a message, and none does
if nothing survives. -/
def SnapsLosses (policy : RetentionPolicy) (now : Nat) (p : Partition) : Prop :=
  ∀ P pos, p.cursors.exclusivePosition P.asStr = some pos → ¬ p.Flagged P →
    match p.log.messages.filter (policy.keeps now) with
    | [] => ¬ p.Loses policy now P pos
    | m :: rest =>
      (m :: rest).length < p.log.messages.length → pos < m.id → p.Loses policy now P pos

variable {p : Partition} {P : Pattern} {pos : Ulid}

theorem flagged_iff (h : p.cursors.exclusivePosition P.asStr = some pos) :
    p.Flagged P ↔ "exclusive:" ++ P.asStr ∈ p.snapped := by
  constructor
  · rintro ⟨r, hr, hkey, hkind, hsnapped⟩
    rcases List.mem_append.mp hr with hr | hr
    · obtain ⟨⟨pattern, cursor⟩, -, rfl⟩ := List.mem_map.mp hr
      obtain rfl : pattern = P.asStr := hkey
      exact List.contains_iff_mem.mp hsnapped
    · obtain ⟨⟨label, cursor⟩, -, rfl⟩ := List.mem_map.mp hr
      cases hkind
  · intro hmem
    have hentry : (P.asStr, pos) ∈ p.cursors.exclusive.toList :=
      Std.ExtTreeMap.mem_toList_iff_getElem?_eq_some.mpr h
    exact ⟨_, List.mem_append_left _ (List.mem_map_of_mem hentry), rfl, rfl,
      List.contains_iff_mem.mpr hmem⟩

theorem flagged_congr {p' : Partition} (hcursors : p'.cursors = p.cursors)
    (hsnapped : p'.snapped = p.snapped) (h : p.cursors.exclusivePosition P.asStr = some pos) :
    p'.Flagged P ↔ p.Flagged P := by
  rw [flagged_iff (hcursors ▸ h), flagged_iff h, hsnapped]

/-- What a prune with a survivor does to a stored pattern's flag. -/
theorem flagged_of_survivor {policy : RetentionPolicy} {now : Nat} {disk : Disk} {m : Message}
    {rest : List Message} (hfile : p.log.file = .attached)
    (hkept : p.log.messages.filter (policy.keeps now) = m :: rest)
    (hlt : (m :: rest).length < p.log.messages.length)
    (h : p.cursors.exclusivePosition P.asStr = some pos) :
    (p.prune F none disk policy now).2.partition.Flagged P ↔ p.Flagged P ∨ pos < m.id := by
  have hstored : (pruneCursors p.cursors m.id).exclusivePosition P.asStr =
      some (snap m.id pos) := by
    simp [pruneCursors, h]
  rw [prune_of_survivor hfile hkept hlt, flagged_iff hstored, mem_recordSnapped, flagged_iff h,
    exclusiveKey_mem_snapForward, h]
  simp

/-- **A prune flags exactly the losses where comparing with the oldest survivor tells them.** -/
theorem flagsLosses_iff {policy : RetentionPolicy} {now : Nat} {disk : Disk}
    {count : Nat} {w' : World} (hfile : p.log.file = .attached)
    (hprune : p.prune F none disk policy now = (.ok count, w')) :
    FlagsLosses policy now p w'.partition ↔ p.SnapsLosses policy now := by
  rcases prune_cases policy now p.log.messages with hall | ⟨hne, hnil⟩ | ⟨m, rest, hkept, hlt⟩
  · -- nothing is removed: no flag and no loss
    have hlost : ∀ P pos, ¬ p.Loses policy now P pos := by
      rintro P pos ⟨a, ha, hdrop, -⟩
      exact absurd ((hall a ha).symm.trans hdrop) (by decide)
    rw [prune_of_kept hall] at hprune
    obtain ⟨-, rfl⟩ := Prod.mk.inj hprune
    refine iff_of_true
      (fun P pos _ => ⟨fun hnot hflag => absurd hflag hnot, fun h => absurd h (hlost P pos)⟩)
      fun P pos _ _ => ?_
    rw [List.filter_eq_self.mpr hall]
    split
    · exact hlost P pos
    · next heq => exact fun hlt => absurd hlt (by rw [heq]; exact Nat.lt_irrefl _)
  · -- nothing survives: no flag is set
    have hsame : w'.partition.cursors = p.cursors ∧ w'.partition.snapped = p.snapped := by
      rw [prune_of_none_kept hne hfile hnil] at hprune
      obtain ⟨-, rfl⟩ := Prod.mk.inj hprune
      exact ⟨rfl, rfl⟩
    unfold FlagsLosses SnapsLosses
    simp only [hnil]
    refine forall_congr' fun P => forall_congr' fun pos => forall_congr' fun h => ?_
    rw [flagged_congr hsame.1 hsame.2 h]
    constructor
    · exact fun hflags hnot hlost => hnot (hflags.2 hlost)
    · intro hsnaps
      refine ⟨fun hnot hflag => absurd hflag hnot, fun hlost => ?_⟩
      by_contra hnot
      exact hsnaps hnot hlost
  · -- a survivor: what is lost lies below it
    have hbelow : ∀ P pos, p.Loses policy now P pos → pos < m.id := by
      rintro P pos ⟨a, ha, hdrop, -, -, hpos⟩
      exact lt_trans hpos (Mailbox.lt_of_dropped (dropsOldest_keeps p policy now)
        (oldestSurvivor_mailbox hkept hlt) ha hdrop)
    have hw' : w' = (p.prune F none disk policy now).2 := by rw [hprune]
    unfold FlagsLosses SnapsLosses
    simp only [hkept, hw']
    refine forall_congr' fun P => forall_congr' fun pos => forall_congr' fun h => ?_
    rw [flagged_of_survivor hfile hkept hlt h]
    constructor
    · exact fun hflags hnot _ hpos => hflags.1 hnot (.inr hpos)
    · intro hsnaps
      refine ⟨fun hnot hflag => ?_, fun hlost => .inr (hbelow P pos hlost)⟩
      rcases hflag with hflag | hpos
      · exact absurd hflag hnot
      · exact hsnaps hnot hlt hpos

end Partition

/-! ## Runs -/

/-- **In every reached state a prune flags exactly the losses where comparing with the oldest
survivor tells them.** -/
theorem prune_flags_losses_iff (hF : F.Faithful)
    (h : Exec (runs F stateDir name Call.isOnline) es w) (policy : RetentionPolicy) (now : Nat) :
    ∃ count w', w.call F stateDir noFaults (.prune policy now) = (.ok (.removed count), w') ∧
      (Partition.FlagsLosses policy now w.partition w'.partition ↔
        w.partition.SnapsLosses policy now) := by
  obtain ⟨hsync, -⟩ := simulates hF h
  obtain ⟨count, w', hprune, hcall⟩ :=
    Partition.exists_call_prune (F := F) hsync.attached stateDir policy now
  exact ⟨count, w', hcall, Partition.flagsLosses_iff hsync.attached hprune⟩

/-- Alice has read the first of three messages, and the last outlives the others. -/
theorem prune_flags_losses_of_dev : ∃ es w count w',
    Exec (runs .reference "/state" sampleName Call.isOnline) es w ∧
    es.map Event.call = [.publish (sampleMessage 1 devTopic), .publish (sampleMessage 2 devTopic),
      .deliver devPattern "alice" 1, .publish (sampleMessage 9 devTopic)] ∧
    w.call .reference "/state" noFaults (.prune ⟨10⟩ 12) = (.ok (.removed count), w') ∧
    w.partition.cursors.exclusivePosition devPattern.asStr = some (sampleMessage 1 devTopic).id ∧
    Partition.FlagsLosses ⟨10⟩ 12 w.partition w'.partition := by
  obtain ⟨es, w, hx, hcalls, hobs⟩ := exec_of_sampleRun Call.isOnline (fun _ _ => true)
    [.publish (sampleMessage 1 devTopic), .publish (sampleMessage 2 devTopic),
      .deliver devPattern "alice" 1, .publish (sampleMessage 9 devTopic)]
    (fun _ w =>
      decide (w.partition.log.messages = [sampleMessage 1 devTopic, sampleMessage 2 devTopic,
      sampleMessage 9 devTopic] ∧ w.partition.cursors.exclusive.toList =
        [(devPattern.asStr, (sampleMessage 1 devTopic).id)])) (by decide)
          (by simp [Call.isOnline]) (by decide)
  obtain ⟨hlog, hstored⟩ := of_decide_eq_true hobs
  obtain ⟨count, w', hcall, hiff⟩ := prune_flags_losses_iff Formats.reference_faithful
    hx.of_restrict ⟨10⟩ 12
  have hpos : w.partition.cursors.exclusivePosition devPattern.asStr =
      some (sampleMessage 1 devTopic).id := by
    refine Std.ExtTreeMap.mem_toList_iff_getElem?_eq_some.mp ?_
    rw [hstored]
    exact List.mem_singleton_self _
  refine ⟨es, w, count, w', hx.of_restrict, hcalls, hcall, hpos, hiff.mpr fun P pos hP _ => ?_⟩
  -- only this pattern has a position
  have hmem := Std.ExtTreeMap.mem_toList_iff_getElem?_eq_some.mpr hP
  rw [hstored, List.mem_singleton] at hmem
  obtain ⟨hkey, rfl⟩ := Prod.mk.inj hmem
  obtain rfl : P = devPattern := Pattern.ext_raw hkey
  have hkept : w.partition.log.messages.filter (RetentionPolicy.keeps ⟨10⟩ 12) =
      [sampleMessage 9 devTopic] := by
    rw [hlog]
    decide
  rw [hkept]
  exact fun _ _ =>
    ⟨sampleMessage 2 devTopic, by simp [hlog], by decide, by decide, by decide, by decide⟩

/-- Alice has read everything that expires, and her pattern is flagged all the same. -/
theorem caught_up_flagged : ∃ es w count w',
    Exec (runs .reference "/state" sampleName Call.isOnline) es w ∧
    es.map Event.call = [.publish (sampleMessage 1 devTopic), .deliver devPattern "alice" usizeMax,
      .publish (sampleMessage 9 devTopic)] ∧
    w.call .reference "/state" noFaults (.prune ⟨10⟩ 11) = (.ok (.removed count), w') ∧
    w.partition.cursors.exclusivePosition devPattern.asStr = some (sampleMessage 1 devTopic).id ∧
    ¬ w.partition.Flagged devPattern ∧ w'.partition.Flagged devPattern ∧
    ¬ w.partition.Loses ⟨10⟩ 11 devPattern (sampleMessage 1 devTopic).id := by
  obtain ⟨es, w, hx, hcalls, hobs⟩ := exec_of_sampleRun Call.isOnline (fun _ _ => true)
    [.publish (sampleMessage 1 devTopic), .deliver devPattern "alice" usizeMax,
      .publish (sampleMessage 9 devTopic)]
    (fun _ w =>
      decide (w.partition.log.messages = [sampleMessage 1 devTopic, sampleMessage 9 devTopic] ∧
      w.partition.cursors.exclusivePosition devPattern.asStr = some (sampleMessage 1 devTopic).id ∧
      w.partition.snapped = [])) (by decide) (by simp [Call.isOnline]) (by decide)
  obtain ⟨hlog, hpos, hsnapped⟩ := of_decide_eq_true hobs
  obtain ⟨hsync, -⟩ := simulates Formats.reference_faithful hx.of_restrict
  have hkept : w.partition.log.messages.filter (RetentionPolicy.keeps ⟨10⟩ 11) =
      [sampleMessage 9 devTopic] := by
    rw [hlog]
    decide
  have hlt : [sampleMessage 9 devTopic].length < w.partition.log.messages.length := by simp [hlog]
  have hflag : (w.partition.prune .reference none w.disk ⟨10⟩ 11).2.partition.Flagged devPattern ↔
    _ :=
    Partition.flagged_of_survivor hsync.attached hkept hlt hpos
  have hprune : w.partition.prune .reference none w.disk ⟨10⟩ 11 = _ :=
    Partition.prune_of_survivor hsync.attached hkept hlt
  have hcall : w.call .reference "/state" noFaults (.prune ⟨10⟩ 11) = _ :=
    congrArg (fun r => (r.1.map Reply.removed, r.2)) hprune
  refine ⟨es, w, _, _, hx.of_restrict, hcalls, hcall, hpos, ?_, ?_, ?_⟩
  · rw [Partition.flagged_iff hpos, hsnapped]
    exact List.not_mem_nil
  · rw [hprune] at hflag
    exact hflag.mpr (.inr (by decide))
  · rintro ⟨m, hm, hdrop, -, -, hbeyond⟩
    rw [hlog] at hm
    rcases List.mem_cons.mp hm with rfl | hm
    · exact absurd hbeyond (lt_irrefl _)
    · rw [List.mem_singleton.mp hm] at hdrop
      exact absurd hdrop (by decide)

end AgentBus
