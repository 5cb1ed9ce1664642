import AgentBus.Daemon.Delivery
import AgentBus.Daemon.Replay
import AgentBus.Lib.MailBatches

/-!
# Reading in pieces

A reader that takes its messages a few at a time, as one that waits for them
one by one does, is handed the same messages in the same order as one that
reads them all at once, and leaves the same partition and the same files behind.
-/

namespace AgentBus

open Lib

/-! ## Records -/

namespace Partition

theorem deliveredIds_markAll {s s' : CursorStore} (h : s.delivered = s'.delivered) (label : String)
    (ms : List Message) : (markAll s label ms).delivered = (markAll s' label ms).delivered := by
  induction ms generalizing s s' with
  | nil => exact h
  | cons m ms ih => exact ih (by simp only [CursorStore.markDelivered, h])

theorem deliveredIds_advanceTo (s : CursorStore) (pattern label : String) (ms : List Message) :
    (advanceTo s pattern label ms).delivered = s.delivered := by
  unfold advanceTo
  split <;> split <;> rfl

theorem last_append {b₁ b₂ : List Message} (h : (b₁ ++ b₂).Pairwise fun a b => a.id ≤ b.id)
    (q : Message → Bool) (pos : Option Ulid) :
    ((b₁ ++ b₂).filter q).getLast?.elim pos (fun m => advance m.id pos) =
      (b₂.filter q).getLast?.elim ((b₁.filter q).getLast?.elim pos fun m => advance m.id pos)
        fun m => advance m.id ((b₁.filter q).getLast?.elim pos fun m => advance m.id pos) := by
  rw [List.filter_append, List.getLast?_append]
  cases h₂ : (b₂.filter q).getLast? with
  | none => rfl
  | some m₂ =>
    cases h₁ : (b₁.filter q).getLast? with
    | none => rfl
    | some m₁ =>
      have hle : m₁.id ≤ m₂.id := (List.pairwise_append.mp h).2.2 m₁
        (List.mem_of_mem_filter (List.mem_of_getLast? h₁)) m₂
          (List.mem_of_mem_filter (List.mem_of_getLast? h₂))
      exact (advance_advance hle pos).symm

/-- **Two batches are recorded as one.** -/
theorem recordBatch_recordBatch {b₁ b₂ : List Message}
    (h : (b₁ ++ b₂).Pairwise fun a b => a.id ≤ b.id) (store : CursorStore)
    (pattern label : String) :
    recordBatch (recordBatch store pattern label b₁) pattern label b₂ =
      recordBatch store pattern label (b₁ ++ b₂) := by
  have hx : ∀ (s : CursorStore) (b : List Message) (k : String),
      (recordBatch s pattern label b).exclusive[k]? =
      if pattern = k then (b.filter (!·.broadcast)).getLast?.elim (s.exclusivePosition pattern)
        fun m => advance m.id (s.exclusivePosition pattern) else s.exclusive[k]? := fun s b k =>
    ((markAll_spec (advanceTo s pattern label b) label b).1 k).trans
      ((advanceTo_spec s pattern label b).1 k)
  have hb : ∀ (s : CursorStore) (b : List Message) (k : String),
      (recordBatch s pattern label b).broadcast[k]? =
      if label = k then (b.filter (·.broadcast)).getLast?.elim (s.broadcastPosition label)
        fun m => advance m.id (s.broadcastPosition label) else s.broadcast[k]? := fun s b k =>
    ((markAll_spec (advanceTo s pattern label b) label b).2.1 k).trans
      ((advanceTo_spec s pattern label b).2.1 k)
  have hd : ∀ (s : CursorStore) (b : List Message), (recordBatch s pattern label b).delivered =
      (markAll s label b).delivered := fun s b =>
        deliveredIds_markAll (deliveredIds_advanceTo ..) label b
  have hexclusive : (recordBatch (recordBatch store pattern label b₁) pattern label b₂).exclusive =
      (recordBatch store pattern label (b₁ ++ b₂)).exclusive := by
    refine Std.ExtTreeMap.ext_getElem? fun k => ?_
    rw [hx, hx, hx, CursorStore.exclusivePosition, hx, if_pos rfl, last_append h]
    split <;> rfl
  have hbroadcast : (recordBatch (recordBatch store pattern label b₁) pattern label b₂).broadcast =
      (recordBatch store pattern label (b₁ ++ b₂)).broadcast := by
    refine Std.ExtTreeMap.ext_getElem? fun k => ?_
    rw [hb, hb, hb, CursorStore.broadcastPosition, hb, if_pos rfl, last_append h]
    split <;> rfl
  have hdelivered : (recordBatch (recordBatch store pattern label b₁) pattern label b₂).delivered =
      (recordBatch store pattern label (b₁ ++ b₂)).delivered := by
    rw [hd, hd, deliveredIds_markAll (hd store b₁) label b₂, markAll, markAll, markAll,
      List.foldl_append]
  calc
    recordBatch (recordBatch store pattern label b₁) pattern label b₂ =
        ⟨(recordBatch (recordBatch store pattern label b₁) pattern label b₂).exclusive,
          (recordBatch (recordBatch store pattern label b₁) pattern label b₂).broadcast,
          (recordBatch (recordBatch store pattern label b₁) pattern label b₂).delivered⟩ := rfl
    _ = recordBatch store pattern label (b₁ ++ b₂) := by rw [hexclusive, hbroadcast, hdelivered]

end Partition

/-! ## Deliveries -/

namespace World

variable (F : Formats)

/-- A delivery without faults. -/
def deliver (w : World) (pattern : Pattern) (label : String) (limit : UInt64) :
    Except Failure (List Message) × World :=
  w.partition.deliver F none w.disk pattern label limit

/-- One delivery after the other, with the batches put together. -/
def deliverEach (pattern : Pattern) (label : String) : List UInt64 → World →
    Except Failure (List Message) × World
  | [], w => (.ok [], w)
  | limit :: limits, w =>
    match w.deliver F pattern label limit with
    | (.error e, w) => (.error e, w)
    | (.ok batch, w) =>
      let (rest, w) := deliverEach pattern label limits w
      (rest.map (batch ++ ·), w)

/-- The world after a batch was handed out. -/
def record (w : World) (pattern : Pattern) (label : String) (batch : List Message) : World where
  partition := { w.partition with
    cursors := Partition.recordBatch w.partition.cursors pattern.asStr label batch
    labels := w.partition.labels.insert pattern.asStr label
    tally := w.partition.tally.recordDeliveries batch.length }
  disk := if batch.isEmpty then w.disk
    else w.disk.insert w.partition.cursorFile
      (utf8
        (F.toString
          ((Partition.recordBatch w.partition.cursors pattern.asStr label batch).toValue F)).toList)

variable {F} {w : World}

theorem deliver_eq (w : World) (pattern : Pattern) (label : String) (limit : UInt64) :
    w.deliver F pattern label limit = (.ok (w.partition.merged pattern label limit),
      w.record F pattern label (w.partition.merged pattern label limit)) :=
  Partition.deliver_none ..

theorem insert_insert_self {β : Type} (t : Std.ExtTreeMap String β) (k : String) (v v' : β) :
    (t.insert k v).insert k v' = t.insert k v' := by
  refine Std.ExtTreeMap.ext_getElem? fun k' => ?_
  simp only [Std.ExtTreeMap.getElem?_insert]
  split <;> rfl

/-- **Two batches leave what one leaves.** -/
theorem record_record {b₁ b₂ : List Message}
    (h : (b₁ ++ b₂).Pairwise fun a b => a.id ≤ b.id) (w : World) (pattern : Pattern)
    (label : String) :
    (w.record F pattern label b₁).record F pattern label b₂ =
      w.record F pattern label (b₁ ++ b₂) := by
  have hcursors := Partition.recordBatch_recordBatch h w.partition.cursors pattern.asStr label
  have hlabels := insert_insert_self w.partition.labels pattern.asStr label label
  have htally : (w.partition.tally.recordDeliveries b₁.length).recordDeliveries b₂.length =
      w.partition.tally.recordDeliveries (b₁ ++ b₂).length := by
    simp only [PartitionTally.recordDeliveries, List.length_append, Nat.add_assoc]
  simp only [record, hcursors, hlabels, htally]
  congr 1
  cases b₁ with
  | nil => rfl
  | cons m ms => cases b₂ with
    | nil => simp
    | cons m' ms' => simp [insert_insert_self]

variable (hs : w.partition.mailbox.Sorted scheme) (pattern : Pattern) (label : String)
include hs

theorem pairwise_merged (limit : UInt64) :
    (w.partition.merged pattern label limit).Pairwise fun a b => a.id ≤ b.id := by
  rw [Partition.merged_eq hs]
  exact ((hs.unread pattern label).sublist (List.take_sublist ..)).imp fun hlt => le_of_lt hlt

theorem merged_record {i j k : UInt64} (hk : i.toNat + j.toNat = k.toNat) :
    w.partition.merged pattern label i ++
        (w.record F pattern label (w.partition.merged pattern label i)).partition.merged
          pattern label j =
      w.partition.merged pattern label k := by
  have hmailbox :
      (w.record F pattern label (w.partition.merged pattern label i)).partition.mailbox =
      w.partition.mailbox.handOut scheme pattern label (w.partition.merged pattern label i) :=
    Partition.mailbox_recordBatch (pairwise_merged hs pattern label i) pattern label
  have hs' :
    (w.record F pattern label (w.partition.merged pattern label i)).partition.mailbox.Sorted
      scheme := hs
  rw [Partition.merged_eq hs', hmailbox, Partition.merged_eq hs, Mailbox.unread_handOut_take hs,
    Partition.merged_eq hs, ← hk, List.take_add]

/-- **Any number of deliveries are one, with the sum of their limits.** -/
theorem reads_compose {limits : List UInt64} (hne : limits ≠ []) {total : UInt64}
    (htotal : (limits.map UInt64.toNat).sum = total.toNat) :
    w.deliverEach F pattern label limits = w.deliver F pattern label total := by
  induction limits generalizing w total with
  | nil => exact absurd rfl hne
  | cons limit limits ih =>
    rw [List.map_cons, List.sum_cons] at htotal
    rw [deliverEach, deliver_eq, deliver_eq]
    by_cases hlast : limits = []
    · subst hlast
      obtain rfl : limit = total := UInt64.toNat_inj.mp (by simpa using htotal)
      simp [deliverEach, Except.map]
    · -- the others are one delivery from what the first leaves
      have hrest : (limits.map UInt64.toNat).sum < 2 ^ 64 := by
        have := total.toNat_lt
        omega
      have hsum : (limits.map UInt64.toNat).sum =
          (UInt64.ofNat (limits.map UInt64.toNat).sum).toNat := by
        rw [UInt64.toNat_ofNat', Nat.mod_eq_of_lt hrest]
      have hs' :
          (w.record F pattern label
            (w.partition.merged pattern label limit)).partition.mailbox.Sorted
          scheme := hs
      rw [hsum] at htotal
      have hmerged := merged_record (F := F) hs pattern label htotal
      have hsorted := pairwise_merged hs pattern label total
      rw [← hmerged] at hsorted
      simp only [ih hs' hlast hsum, deliver_eq, Except.map]
      rw [record_record hsorted, hmerged]

omit hs in
theorem reads_compose_two : ∃ w : World, (w.partition.merged devPattern "alice" 2).length = 2 ∧
    w.deliverEach .reference devPattern "alice" [1, 0, 1] =
      w.deliver .reference devPattern "alice" 2 := by
  let w : World :=
    ⟨.loaded "/state" sampleName [sampleMessage 1 devTopic, sampleMessage 2 devTopic], ∅⟩
  refine ⟨w, by decide, reads_compose (w := w) ?_ devPattern "alice" (by decide) (by decide)⟩
  show List.Pairwise (fun a b : Message => a.id < b.id)
    [sampleMessage 1 devTopic, sampleMessage 2 devTopic]
  decide

end World

end AgentBus
