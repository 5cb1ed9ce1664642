import AgentBus.Daemon.State
import AgentBus.Guarantees.Restart

/-!
# A sweep in which prunes fail

`pruneAll` prunes the open partitions in the order of their names and stops at
the first whose prune fails. A partition is swept exactly if no prune before
it fails, whatever its own does.
-/

namespace AgentBus

open Lib PartitionLog

variable {F : Formats}

/-! ## Prunes that succeed -/

namespace Partition

variable {p : Partition} {disk : Disk} {fault : Option PruneFault}
  {policy : RetentionPolicy} {now : Nat}

theorem messages_of_prune_ok {count : Nat} {w : World}
    (h : p.prune F fault disk policy now = (.ok count, w)) :
    w.partition.log.messages = p.log.messages.filter (policy.keeps now) := by
  rcases hlog : p.log.prune F (fault.bind PruneFault.logFault) disk policy now
      with ⟨e | outcome, log, disk'⟩
  · simp only [prune, hlog] at h
    cases h
  · have hmessages : log.messages = p.log.messages.filter (policy.keeps now) := by
      generalize fault.bind PruneFault.logFault = logFault at hlog
      cases prune_effect hlog with
      | kept _ hall => exact hall.symm
      | rewritten => rfl
    simp only [prune, hlog] at h
    split at h
    · obtain ⟨-, rfl⟩ := Prod.mk.inj h
      exact hmessages
    · split at h
      · cases h
      · obtain ⟨-, rfl⟩ := Prod.mk.inj h
        exact hmessages

/-- Whether a prune fails does not depend on the disk. -/
theorem prune_error_congr {e : Failure} (h : (p.prune F fault disk policy now).1 = .error e)
    (disk' : Disk) : (p.prune F fault disk' policy now).1 = .error e := by
  have halike : World.Alike ⟨p, disk⟩ ⟨p, disk'⟩ := ⟨⟨rfl, rfl⟩, rfl, rfl⟩
  have hmap : (World.call F "" ⟨none, none, fault, none⟩ ⟨p, disk'⟩ (.prune policy now)).1 =
      (World.call F "" ⟨none, none, fault, none⟩ ⟨p, disk⟩ (.prune policy now)).1 :=
    (halike.prune _ policy now).1
  simp only [World.call, h] at hmap
  cases hr : (p.prune F fault disk' policy now).1 with
  | ok count => rw [hr] at hmap; cases hmap
  | error e' =>
    rw [hr] at hmap
    exact congrArg _ (Except.error.inj hmap)

end Partition

/-! ## One partition after the other -/

namespace Bus

variable {faults : String → Option Partition.PruneFault} {now : Nat} {b : Bus} {n name : String}
  {p : Partition}

/-- The partition's own prune fails. -/
def FailsPrune (F : Formats) (faults : String → Option Partition.PruneFault) (now : Nat) (b : Bus)
    (name : String) : Prop :=
  ∃ p e, b.state.partitions[name]? = some p ∧
    (p.prune F (faults name) b.disk b.state.policy now).1 = .error e

theorem pruneOne_frame (fault : Option Partition.PruneFault) (now : Nat) (b : Bus) (n : String) :
    (b.pruneOne F fault now n).2.state.policy = b.state.policy ∧
      (∀ name, name ≠ n → (b.pruneOne F fault now n).2.state.partitions[name]? =
        b.state.partitions[name]?) ∧
      (b.state.partitions[n]? = none → (b.pruneOne F fault now n).2.state.partitions[n]? =
        none) := by
  unfold pruneOne
  cases hopen : b.state.partitions[n]? with
  | none => exact ⟨rfl, fun _ _ => rfl, fun _ => hopen⟩
  | some q =>
    refine ⟨rfl, fun name hne => ?_, nofun⟩
    simp [put, Std.ExtTreeMap.getElem?_insert, Ne.symm hne]

theorem failsPrune_congr {b' : Bus} (hpolicy : b'.state.policy = b.state.policy)
    (hsame : b'.state.partitions[name]? = b.state.partitions[name]?) :
    b'.FailsPrune F faults now name ↔ b.FailsPrune F faults now name := by
  unfold FailsPrune
  rw [hsame, hpolicy]
  constructor
  · rintro ⟨p, e, hp, he⟩
    exact ⟨p, e, hp, Partition.prune_error_congr he _⟩
  · rintro ⟨p, e, hp, he⟩
    exact ⟨p, e, hp, Partition.prune_error_congr he _⟩

theorem pruneOne_error_iff : (∃ e, (b.pruneOne F (faults n) now n).1 = .error e) ↔
    b.FailsPrune F faults now n := by
  unfold pruneOne FailsPrune
  cases hopen : b.state.partitions[n]? with
  | none => simp
  | some p => simp

theorem pruneEach_cons_of_fails (h : b.FailsPrune F faults now n) (names : List String) :
    (pruneEach F faults now (n :: names) b).2 = (b.pruneOne F (faults n) now n).2 := by
  obtain ⟨e, he⟩ := pruneOne_error_iff.mpr h
  rw [pruneEach]
  split
  · next h => rw [h]
  · next h => rw [h] at he; cases he

theorem pruneEach_cons_of_succeeds (h : ¬ b.FailsPrune F faults now n) (names : List String) :
    (pruneEach F faults now (n :: names) b).2 =
      (pruneEach F faults now names (b.pruneOne F (faults n) now n).2).2 := by
  rw [pruneEach]
  split
  · next e b' he => exact absurd (pruneOne_error_iff.mp ⟨e, by rw [he]⟩) h
  · next he => rw [he]

theorem pruneEach_frame (names : List String) (b : Bus) :
    (pruneEach F faults now names b).2.state.policy = b.state.policy ∧
      (∀ name, name ∉ names → (pruneEach F faults now names b).2.state.partitions[name]? =
        b.state.partitions[name]?) ∧
      ∀ name : String, b.state.partitions[name]? = none →
        (pruneEach F faults now names b).2.state.partitions[name]? = none := by
  induction names generalizing b with
  | nil => exact ⟨rfl, fun _ _ => rfl, fun _ h => h⟩
  | cons n names ih =>
    obtain ⟨hpolicy, hother, hnone⟩ := pruneOne_frame (F := F) (faults n) now b n
    have hclosed : ∀ name : String, b.state.partitions[name]? = none →
        (b.pruneOne F (faults n) now n).2.state.partitions[name]? = none := by
      intro name h
      by_cases heq : name = n
      · exact heq ▸ hnone (heq ▸ h)
      · exact (hother name heq).trans h
    by_cases hfails : b.FailsPrune F faults now n
    · rw [pruneEach_cons_of_fails hfails]
      exact ⟨hpolicy, fun name h => hother name (List.ne_of_not_mem_cons h), hclosed⟩
    · rw [pruneEach_cons_of_succeeds hfails]
      obtain ⟨hpolicy', hother', hnone'⟩ := ih (b.pruneOne F (faults n) now n).2
      refine ⟨hpolicy'.trans hpolicy, fun name h => ?_, fun name h => hnone' name (hclosed name h)⟩
      rw [hother' name (List.not_mem_of_not_mem_cons h), hother name (List.ne_of_not_mem_cons h)]

/-- A partition that no failure precedes is swept. -/
theorem messages_of_reached {ds es : List String} (hnodup : (ds ++ name :: es).Nodup)
    (hp : b.state.partitions[name]? = some p) (hok : ¬ b.FailsPrune F faults now name)
    (hds : ∀ d ∈ ds, ¬ b.FailsPrune F faults now d) :
    ∃ p', (pruneEach F faults now (ds ++ name :: es) b).2.state.partitions[name]? = some p' ∧
      p'.log.messages = p.log.messages.filter (b.state.policy.keeps now) := by
  induction ds generalizing b with
  | nil =>
    have hes : name ∉ es := (List.nodup_cons.mp hnodup).1
    rw [List.nil_append, pruneEach_cons_of_succeeds hok, (pruneEach_frame es _).2.1 name hes]
    rcases hprune : p.prune F (faults name) b.disk b.state.policy now with ⟨e | count, w⟩
    · exact absurd ⟨p, e, hp, by rw [hprune]⟩ hok
    · refine ⟨w.partition, ?_, Partition.messages_of_prune_ok hprune⟩
      simp [pruneOne, hp, hprune, put]
  | cons d ds ih =>
    obtain ⟨hd, hnodup⟩ := List.nodup_cons.mp hnodup
    obtain ⟨hpolicy, hother, -⟩ := pruneOne_frame (F := F) (faults d) now b d
    have hne : name ≠ d := fun heq => hd (heq ▸ List.mem_append_right _ List.mem_cons_self)
    rw [List.cons_append, pruneEach_cons_of_succeeds (hds d List.mem_cons_self), ← hpolicy]
    refine ih hnodup ((hother name hne).trans hp) ?_ fun c hc => ?_
    · rwa [failsPrune_congr hpolicy (hother name hne)]
    · have hcd : c ≠ d := fun heq => hd (heq ▸ List.mem_append_left _ hc)
      rw [failsPrune_congr hpolicy (hother c hcd)]
      exact hds c (List.mem_cons_of_mem _ hc)

/-- A partition that a failure precedes is left as it was. -/
theorem getElem?_of_unreached {ds es : List String} (hnodup : (ds ++ name :: es).Nodup) {d : String}
    (hd : d ∈ ds) (hfails : b.FailsPrune F faults now d) :
    (pruneEach F faults now (ds ++ name :: es) b).2.state.partitions[name]? =
      b.state.partitions[name]? := by
  induction ds generalizing b with
  | nil => cases hd
  | cons c ds ih =>
    obtain ⟨hc, hnodup⟩ := List.nodup_cons.mp hnodup
    obtain ⟨hpolicy, hother, -⟩ := pruneOne_frame (F := F) (faults c) now b c
    have hne : name ≠ c := fun heq => hc (heq ▸ List.mem_append_right _ List.mem_cons_self)
    rw [List.cons_append]
    by_cases hfirst : b.FailsPrune F faults now c
    · rw [pruneEach_cons_of_fails hfirst, hother name hne]
    · have hdc : d ≠ c := fun heq => hfirst (heq ▸ hfails)
      have hmem : d ∈ ds := (List.mem_cons.mp hd).resolve_left hdc
      rw [pruneEach_cons_of_succeeds hfirst, ih hnodup hmem, hother name hne]
      rwa [failsPrune_congr hpolicy (hother d hdc)]

theorem exists_keys_split (hp : b.state.partitions[name]? = some p) :
    ∃ ds es, b.state.partitions.keys = ds ++ name :: es ∧ (ds ++ name :: es).Nodup ∧
      ∀ d : String, d ∈ ds ↔ d ∈ b.state.partitions ∧ compare d name = .lt := by
  have hmem : name ∈ b.state.partitions.keys := by
    rw [Std.ExtTreeMap.mem_keys, Std.ExtTreeMap.mem_iff_isSome_getElem?, hp]
    rfl
  obtain ⟨ds, es, hkeys⟩ := List.append_of_mem hmem
  have hordered := Std.ExtTreeMap.ordered_keys (t := b.state.partitions)
  have hnodup := Std.ExtTreeMap.nodup_keys (t := b.state.partitions)
  rw [hkeys] at hordered hnodup
  obtain ⟨-, hes, hds⟩ := List.pairwise_append.mp hordered
  refine ⟨ds, es, hkeys, hnodup, fun d => ⟨fun hd => ⟨?_, hds d hd name List.mem_cons_self⟩, ?_⟩⟩
  · rw [← Std.ExtTreeMap.mem_keys, hkeys]
    exact List.mem_append_left _ hd
  · rintro ⟨hd, hlt⟩
    rw [← Std.ExtTreeMap.mem_keys, hkeys] at hd
    rcases List.mem_append.mp hd with hd | hd
    · exact hd
    · rcases List.mem_cons.mp hd with rfl | hd
      · have hself : compare d d = .eq := Std.ReflCmp.compare_self
        rw [hself] at hlt
        cases hlt
      · have hgt := (List.pairwise_cons.mp hes).1 d hd
        exact absurd (Std.OrientedCmp.gt_of_lt hgt) (by rw [hlt]; decide)

/-- **A sweep leaves no expired message in a partition whose own prune succeeds, if none whose prune
fails comes before one that holds an expired message.** -/
theorem sweep_prunes_elsewhere_iff (faults : String → Option Partition.PruneFault)
    (now : Nat) (b : Bus) :
    (∀ name p', (b.pruneAll F faults now).2.state.partitions[name]? = some p' →
        ¬ b.FailsPrune F faults now name → ∀ m ∈ p'.log.messages, m.ageSecs now <
          b.state.policy.maxAgeSecs) ↔
      ∀ name p, b.state.partitions[name]? = some p → ¬ b.FailsPrune F faults now name →
        (∃ m ∈ p.log.messages, b.state.policy.maxAgeSecs ≤ m.ageSecs now) →
        ∀ earlier : String, compare earlier name = .lt → ¬ b.FailsPrune F faults now earlier := by
  constructor
  · rintro hyoung name p hp hok ⟨m, hm, hold⟩ earlier hlt hfails
    obtain ⟨ds, es, hkeys, hnodup, hds⟩ := exists_keys_split hp
    have hopen : earlier ∈ b.state.partitions := by
      obtain ⟨q, -, hq, -⟩ := hfails
      rw [Std.ExtTreeMap.mem_iff_isSome_getElem?, hq]
      rfl
    have hsame := getElem?_of_unreached (F := F) hnodup ((hds earlier).mpr ⟨hopen, hlt⟩) hfails
    rw [← hkeys, hp] at hsame
    exact absurd (hyoung name p hsame hok m hm) (Nat.not_lt_of_le hold)
  · intro hcond name p' hp' hok m hm
    cases hp : b.state.partitions[name]? with
    | none =>
      have hnone : (pruneAll F faults b now).2.state.partitions[name]? = none :=
        (pruneEach_frame b.state.partitions.keys b).2.2 name hp
      rw [hnone] at hp'
      cases hp'
    | some p =>
      obtain ⟨ds, es, hkeys, hnodup, hds⟩ := exists_keys_split hp
      by_cases hclear : ∀ d ∈ ds, ¬ b.FailsPrune F faults now d
      · obtain ⟨q, hq, hmessages⟩ := messages_of_reached hnodup hp hok hclear
        rw [← hkeys] at hq
        obtain rfl := Option.some.inj (hq.symm.trans hp')
        rw [hmessages] at hm
        exact of_decide_eq_true (List.mem_filter.mp hm).2
      · -- nothing was pruned, and nothing had to be
        push Not at hclear
        obtain ⟨d, hd, hfails⟩ := hclear
        have hsame := getElem?_of_unreached (F := F) hnodup hd hfails
        rw [← hkeys, hp] at hsame
        obtain rfl := Option.some.inj (hsame.symm.trans hp')
        by_contra hold
        exact hcond name p hp hok ⟨m, hm, Nat.le_of_not_lt hold⟩ d ((hds d).mp hd).2 hfails

end Bus

/-! ## Two partitions -/

def planningName : PartitionName := ⟨"planning", by decide⟩

/-- Two open partitions, each with one message of second 1. -/
def twoPartitions : Bus where
  state := { BusState.new "/state" 0 with
    partitions :=
      (Std.ExtTreeMap.insert ∅ "iot_base"
        (.loaded "/state" sampleName [sampleMessage 1 devTopic])).insert
      "planning" (.loaded "/state" planningName [sampleMessage 1 devTopic]) }
  disk := ∅

/-- The first prune cannot create its scratch file. -/
def createFails (name : String) : Option Partition.PruneFault :=
  if name = "iot_base" then some (.log .create) else none

/-- The first prune fails, and the second partition keeps its expired message. -/
theorem sweep_stops_at_failure : ∃ p',
    (twoPartitions.pruneAll .reference createFails 10000).2.state.partitions["planning"]? =
      some p' ∧
    ¬ twoPartitions.FailsPrune .reference createFails 10000 "planning" ∧
    ∃ m ∈ p'.log.messages, twoPartitions.state.policy.maxAgeSecs ≤ m.ageSecs 10000 := by
  have hfirst : twoPartitions.state.partitions["iot_base"]? =
      some (.loaded "/state" sampleName [sampleMessage 1 devTopic]) := by
    rw [twoPartitions, Std.ExtTreeMap.getElem?_insert, if_neg (by decide)]
    exact Std.ExtTreeMap.getElem?_insert_self
  have hsecond : twoPartitions.state.partitions["planning"]? =
      some (.loaded "/state" planningName [sampleMessage 1 devTopic]) :=
    Std.ExtTreeMap.getElem?_insert_self
  have hfails : twoPartitions.FailsPrune .reference createFails 10000 "iot_base" :=
    ⟨_, _, hfirst, rfl⟩
  obtain ⟨ds, es, hkeys, hnodup, hds⟩ := Bus.exists_keys_split hsecond
  have hbefore : "iot_base" ∈ ds := (hds "iot_base").mpr
    ⟨by rw [Std.ExtTreeMap.mem_iff_isSome_getElem?, hfirst]; rfl, by decide⟩
  have hsame := Bus.getElem?_of_unreached hnodup hbefore hfails
  rw [← hkeys, hsecond] at hsame
  refine ⟨_, hsame, ?_, _, List.mem_singleton_self _, by decide⟩
  rintro ⟨p, e, -, he⟩
  obtain ⟨count, w, hprune, -⟩ := p.exists_prune_none (F := .reference) twoPartitions.disk
    twoPartitions.state.policy 10000
  have hnone : createFails "planning" = none := by decide
  rw [hnone, hprune] at he
  cases he

end AgentBus
