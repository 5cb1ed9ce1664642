import AgentBus.Daemon.Delivery
import AgentBus.Daemon.Replay

/-!
# What a delivery selects and what it leaves alone

`deliver_plain`: a delivery filters the whole log once, takes the first of what
is left, and moves nothing but the positions and the delivered set it is about.
`deliver_frames`: it consumes nothing that another pattern is owed.
-/

namespace AgentBus

open Lib

variable {F : Formats}

/-! ## The plain specification -/

/-- The unread messages of the log in order, both kinds in one list, at most `limit`. -/
def Partition.plainDelivery (p : Partition) (pattern : Pattern) (label : String) (limit : UInt64) :
    List Message :=
  (p.log.messages.filter fun m =>
    pattern.matchesTopic m.topic && !p.cursors.isDelivered label m.id &&
      (if m.broadcast then p.cursors.broadcastPosition label
        else p.cursors.exclusivePosition pattern.asStr).all fun position =>
          decide (position < m.id)).take
    limit.toNat

/-- The largest of a position and some ids. -/
def furthest (position : Option Ulid) (ids : List Ulid) : Option Ulid :=
  (position.toList ++ ids).max?

/-- The ids a label has received. -/
def CursorStore.deliveredIds (s : CursorStore) (label : String) : Finset Ulid :=
  (s.delivered[label]?).getD ∅

/-- What handing `ms` to `label` under `pattern` does to the cursors, and what it leaves alone. -/
structure Handed (before after : CursorStore) (pattern label : String)
    (ms : List Message) : Prop where
  exclusive : after.exclusivePosition pattern =
    furthest (before.exclusivePosition pattern) ((ms.filter (!·.broadcast)).map Message.id)
  broadcast : after.broadcastPosition label =
    furthest (before.broadcastPosition label) ((ms.filter (·.broadcast)).map Message.id)
  delivered : after.deliveredIds label = before.deliveredIds label ∪ (ms.map Message.id).toFinset
  otherExclusive : ∀ pattern', pattern' ≠ pattern →
    after.exclusivePosition pattern' = before.exclusivePosition pattern'
  otherBroadcast : ∀ label', label' ≠ label →
    after.broadcastPosition label' = before.broadcastPosition label'
  otherDelivered : ∀ label', label' ≠ label → after.delivered[label']? = before.delivered[label']?
  nothing : ms = [] → after = before

namespace Partition

variable {p : Partition}

theorem merged_eq_plain (h : p.log.messages.Pairwise fun a b => a.id < b.id) (pattern : Pattern)
    (label : String) (limit : UInt64) :
    p.merged pattern label limit = p.plainDelivery pattern label limit := by
  rw [merged_eq (show p.mailbox.Sorted scheme from h), plainDelivery, Mailbox.unread]
  congr 1
  refine List.filter_congr fun m _ => ?_
  have hbeyond : ∀ position : Option Ulid,
      isBeyond position m.id = position.all fun q => decide (q < m.id) := by rintro (_ | q) <;> rfl
  rw [← hbeyond]
  rfl

theorem delivered_markAll (store : CursorStore) (label : String) (ms : List Message) :
    (markAll store label ms).deliveredIds label =
        store.deliveredIds label ∪ (ms.map Message.id).toFinset ∧
      ∀ label', label' ≠ label → (markAll store label ms).delivered[label']? =
        store.delivered[label']? := by
  induction ms generalizing store with
  | nil => simp [markAll]
  | cons m ms ih =>
    obtain ⟨hself, hother⟩ := ih (store.markDelivered label m.id)
    have hmark : (store.markDelivered label m.id).deliveredIds label =
        insert m.id (store.deliveredIds label) := by
      simp [CursorStore.deliveredIds, CursorStore.markDelivered]
    refine ⟨?_, fun label' hne => (hother label' hne).trans ?_⟩
    · refine hself.trans ?_
      rw [hmark, List.map_cons, List.toFinset_cons, Finset.insert_union, Finset.union_insert]
    · simp [CursorStore.markDelivered, Std.ExtTreeMap.getElem?_alter, Ne.symm hne]

theorem delivered_advanceTo (store : CursorStore) (pattern label : String) (ms : List Message) :
    (advanceTo store pattern label ms).delivered = store.delivered := by
  unfold advanceTo
  split <;> split <;> rfl

theorem handed_recordBatch (store : CursorStore) (pattern label : String) {ms : List Message}
    (h : ms.Pairwise fun a b => a.id < b.id) :
    Handed store (recordBatch store pattern label ms) pattern label ms := by
  obtain ⟨hx, hb, -⟩ := markAll_spec (advanceTo store pattern label ms) label ms
  obtain ⟨hx', hb', -⟩ := advanceTo_spec store pattern label ms
  obtain ⟨hself, hother⟩ := delivered_markAll (advanceTo store pattern label ms) label ms
  have hmax : ∀ (sel : Message → Bool) (position : Option Ulid),
      ((ms.filter sel).getLast?.elim position fun m => advance m.id position) =
        furthest position ((ms.filter sel).map Message.id) := by
    intro sel position
    have hsorted : ((ms.filter sel).map Message.id).Pairwise (· ≤ ·) :=
      List.pairwise_map.mpr ((h.sublist List.filter_sublist).imp fun hlt => le_of_lt hlt)
    rw [furthest, max?_eq_advance hsorted, List.getLast?_map]
    cases (ms.filter sel).getLast? <;> rfl
  constructor
  · rw [recordBatch, hx, hx', if_pos rfl, hmax]
  · rw [recordBatch, hb, hb', if_pos rfl, hmax]
  · rw [recordBatch, hself, CursorStore.deliveredIds, delivered_advanceTo]
    rfl
  · intro pattern' hne
    rw [recordBatch, hx, hx', if_neg (Ne.symm hne)]
  · intro label' hne
    rw [recordBatch, hb, hb', if_neg (Ne.symm hne)]
  · intro label' hne
    rw [recordBatch, hother label' hne, delivered_advanceTo]
  · rintro rfl
    rfl

end Partition

/-- **A delivery is one pass over the log.** -/
theorem deliver_plain {p : Partition} (h : p.log.messages.Pairwise fun a b => a.id < b.id)
    (disk : Disk) (pattern : Pattern) (label : String) (limit : UInt64) :
    ∃ w, p.deliver F none disk pattern label limit =
      (.ok (p.plainDelivery pattern label limit), w) ∧
      Handed p.cursors w.partition.cursors pattern.asStr label
        (p.plainDelivery pattern label limit) := by
  have hsub : (p.plainDelivery pattern label limit).Sublist p.log.messages :=
    (List.take_sublist ..).trans List.filter_sublist
  refine ⟨(p.deliver F none disk pattern label limit).2, ?_, ?_⟩
  · rw [Partition.deliver_none, Partition.merged_eq_plain h]
  · rw [Partition.deliver_none, Partition.merged_eq_plain h]
    exact Partition.handed_recordBatch p.cursors pattern.asStr label (h.sublist hsub)

/-- Two messages are unread and one is asked for. -/
theorem deliver_plain_limit_one : ∃ w,
    (Partition.loaded "/state" sampleName [sampleMessage 1 devTopic,
      sampleMessage 2 plannerTopic]).deliver
      .reference none ∅ anyPattern "alice" 1 = (.ok [sampleMessage 1 devTopic], w) ∧
    Handed .default w.partition.cursors "iot_base/*" "alice" [sampleMessage 1 devTopic] := by
  have hplain : (Partition.loaded "/state" sampleName
      [sampleMessage 1 devTopic, sampleMessage 2 plannerTopic]).plainDelivery anyPattern "alice" 1 =
        [sampleMessage 1 devTopic] := by decide +kernel
  have hdeliver := deliver_plain (F := .reference) (p := .loaded "/state" sampleName
    [sampleMessage 1 devTopic, sampleMessage 2 plannerTopic]) (by decide) ∅ anyPattern "alice" 1
  rw [hplain] at hdeliver
  exact hdeliver

/-! ## Other patterns -/

/-- **A delivery takes nothing from other patterns but what it handed to the same label.** -/
theorem deliver_frames {w w' : World} (h : w.partition.log.messages.Pairwise fun a b => a.id < b.id)
    (hfits : w.partition.log.messages.length ≤ usizeMax.toNat)
    {fault : Option Partition.PersistFault} {pattern : Pattern} {label : String} {limit : UInt64}
    {ms : List Message}
    (hcall : w.partition.deliver F fault w.disk pattern label limit = (.ok ms, w'))
    (other : Pattern) (hother : other.asStr ≠ pattern.asStr) (reader : String) : ∃ before after,
      w.owed F other reader = .ok before ∧ w'.owed F other reader = .ok after ∧
      (after.filter fun m => !m.broadcast) =
        ((before.filter fun m => !m.broadcast).filter fun m =>
          !(decide (reader = label) && decide (m ∈ ms))) ∧
      (reader ≠ label → (after.filter fun m => m.broadcast) = before.filter fun m =>
        m.broadcast) := by
  obtain ⟨hms, hlog, hcursors⟩ := Partition.of_deliver_ok hcall
  have hsorted : w.partition.mailbox.Sorted scheme := h
  have hsub : ms.Sublist w.partition.log.messages := by
    rw [hms, Partition.merged_eq hsorted]
    exact (List.take_sublist ..).trans List.filter_sublist
  have hmail : w'.partition.mailbox = w.partition.mailbox.handOut scheme pattern label ms := by
    rw [← Partition.mailbox_recordBatch ((h.sublist hsub).imp fun hlt => le_of_lt hlt)]
    simp only [Partition.mailbox, hlog, hcursors]
  have hsorted' : w'.partition.mailbox.Sorted scheme := by rw [hmail]; exact hsorted
  have hne : other ≠ pattern := fun heq => hother (congrArg Pattern.asStr heq)
  -- a message whose position stays is unread unless the reader was just handed it
  have hunread : ∀ m ∈ w.partition.log.messages, (m.broadcast = true → reader ≠ label) →
      w'.partition.mailbox.isUnread scheme other reader m =
        (w.partition.mailbox.isUnread scheme other reader m &&
          !(decide (reader = label) && decide (m ∈ ms))) := by
    intro m hm hreader
    have hstays : ¬ if scheme.shared m then reader = label else other = pattern := by
      split
      · exact hreader ‹_›
      · exact hne
    have hmem : (ms.any fun x => decide (scheme.key x = scheme.key m)) = decide (m ∈ ms) := by
      rw [Bool.eq_iff_iff, List.any_eq_true, decide_eq_true_eq]
      constructor
      · rintro ⟨x, hx, hkey⟩
        rwa [← hsorted.key_inj (hsub.subset hx) hm (of_decide_eq_true hkey)]
      · exact fun hmem => ⟨m, hmem, decide_eq_true rfl⟩
    rw [hmail, Mailbox.isUnread_handOut_of_unmoved hstays, hmem]
  have howed : ∀ sel : Message →
      Bool, (w'.partition.mailbox.unread scheme other reader).filter sel =
      w.partition.log.messages.filter fun m => sel m &&
        w'.partition.mailbox.isUnread scheme other reader m := by
    intro sel
    rw [Mailbox.unread, List.filter_filter, hmail]
    rfl
  refine ⟨_, _, w.owed_eq other reader, w'.owed_eq other reader, ?_, fun hreader => ?_⟩
  all_goals
    rw [Partition.merged_max hsorted hfits, Partition.merged_max hsorted' (hlog ▸ hfits), howed,
      Mailbox.unread]
    simp only [List.filter_filter]
    refine List.filter_congr fun m hm => ?_
    cases hb : m.broadcast <;> simp_all [Bool.and_comm]

/-- alice reads under one pattern; bob is still owed the message under another. -/
theorem deliver_frames_other_label : ∃ w' after,
    (Partition.loaded "/state" sampleName [sampleMessage 1 devTopic]).deliver .reference
      none ∅ devPattern "alice" 1 = (.ok [sampleMessage 1 devTopic], w') ∧
    World.owed .reference w' anyPattern "bob" = .ok after ∧
    (after.filter fun m => !m.broadcast) = [sampleMessage 1 devTopic] := by
  let p : Partition := .loaded "/state" sampleName [sampleMessage 1 devTopic]
  have hdeliver : p.deliver .reference none ∅ devPattern "alice" 1 =
      (.ok (p.merged devPattern "alice" 1),
      (p.deliver .reference none ∅ devPattern "alice" 1).2) := by
    rw [Partition.deliver_none]
  have hmerged : p.merged devPattern "alice" 1 = [sampleMessage 1 devTopic] ∧
      p.merged anyPattern "bob" usizeMax = [sampleMessage 1 devTopic] := by decide +kernel
  rw [hmerged.1] at hdeliver
  obtain ⟨before, after, hbefore, hafter, hexclusive, -⟩ := deliver_frames (w := ⟨p, ∅⟩)
    (List.pairwise_singleton ..) (by decide) hdeliver anyPattern (by decide) "bob"
  rw [World.owed_eq, hmerged.2] at hbefore
  obtain rfl := Except.ok.inj hbefore
  refine ⟨_, after, hdeliver, hafter, ?_⟩
  have hlabel : ("bob" = "alice") = False := by decide
  rw [hexclusive]
  simp only [hlabel, decide_false, Bool.false_and, Bool.not_false, List.filter_true]
  rfl

end AgentBus
