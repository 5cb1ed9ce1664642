import AgentBus.Daemon.Steps
import AgentBus.Lib.MailComplete

/-!
# A partition as a mailbox

`Partition.mailbox` forgets how a partition stores its log and its records.
On a log sorted by id, a delivery hands out the first unread messages of the
mailbox (`merged_eq`) and leaves the mailbox of that hand-out; a prune is an
expiry.
-/

namespace AgentBus

open Lib

/-- Messages are ordered by id; broadcast messages are shared. -/
def scheme : Scheme Message Ulid Pattern where
  key := Message.id
  shared := Message.broadcast
  selects pattern m := pattern.matchesTopic m.topic

def Partition.mailbox (p : Partition) : Mailbox Message Ulid Pattern String where
  log := p.log.messages
  claimed pattern := p.cursors.exclusivePosition pattern.asStr
  heard := p.cursors.broadcastPosition
  seen := p.cursors.isDelivered

namespace Partition

variable {p : Partition}

/-- No id decreases along the log. -/
def Ascending (p : Partition) : Prop := p.log.messages.Pairwise fun a b => a.id ≤ b.id

/-! ## Selection -/

theorem messagesAfter_eq (h : p.Ascending) (cursor : Option Ulid) :
    p.log.messagesAfter cursor = p.log.messages.filter fun m => isBeyond cursor m.id := by
  cases cursor with
  | none => simp [PartitionLog.messagesAfter]
  | some id =>
    have hpart : Partitioned (fun m : Message => decide (m.id ≤ id)) p.log.messages := by
      refine h.imp fun {a b} hab hb => ?_
      exact decide_eq_true (le_trans hab (of_decide_eq_true hb))
    rw [PartitionLog.messagesAfter, drop_partitionPoint hpart]
    refine List.filter_congr fun m _ => ?_
    simp [← not_le]

theorem stream_eq (h : p.Ascending) (pattern : Pattern) (label : String) (limit : UInt64)
    (broadcast : Bool) (cursor : Option Ulid)
    (hc : cursor = if broadcast then p.cursors.broadcastPosition label
      else p.cursors.exclusivePosition pattern.asStr) :
    p.stream broadcast cursor pattern label limit =
      (p.log.messages.filter fun m => m.broadcast == broadcast &&
        p.mailbox.isUnread scheme pattern label m).take limit.toNat := by
  rw [stream, messagesAfter_eq h, List.filter_filter]
  congr 1
  refine List.filter_congr fun m _ => ?_
  subst hc
  unfold Mailbox.isUnread Mailbox.position
  cases broadcast <;> cases hm : m.broadcast <;>
    simp [scheme, mailbox, hm, Bool.and_comm, Bool.and_left_comm]

theorem merged_eq_take_merge (h : p.Ascending) (pattern : Pattern) (label : String)
    (limit : UInt64) :
    p.merged pattern label limit = (List.merge
      (p.log.messages.filter fun m => m.broadcast == false &&
        p.mailbox.isUnread scheme pattern label m)
      (p.log.messages.filter fun m => m.broadcast == true &&
        p.mailbox.isUnread scheme pattern label m)
      fun e b => decide (e.id < b.id)).take limit.toNat := by
  simp only [merged]
  rw [stream_eq h _ _ _ false (p.cursors.exclusivePosition pattern.asStr) rfl,
    stream_eq h _ _ _ true (p.cursors.broadcastPosition label) rfl,
    mergeLoop_eq_merge _ (Nat.le_refl _), List.nil_append,
    take_merge_take _ _ _ (Nat.le_refl _) (Nat.le_refl _)]

theorem mem_merge_kinds {q : Message → Bool} {lt : Message → Message → Bool} {ms : List Message}
    {m : Message} : m ∈ List.merge (ms.filter fun m => m.broadcast == false && q m)
      (ms.filter fun m => m.broadcast == true && q m) lt ↔ m ∈ ms ∧ q m = true := by
  rw [List.mem_merge, List.mem_filter, List.mem_filter]
  cases m.broadcast <;> simp

theorem length_merge_kinds_le {q : Message → Bool} {lt : Message → Message → Bool}
    {ms : List Message} :
    (List.merge (ms.filter fun m => m.broadcast == false && q m)
      (ms.filter fun m => m.broadcast == true && q m) lt).length ≤ ms.length := by
  rw [List.length_merge]
  induction ms with
  | nil => exact Nat.le_refl _
  | cons m ms ih => cases hb : m.broadcast <;> cases hq : q m <;> simp [hb, hq] at ih ⊢ <;> omega

/-- **A delivery selects the first unread messages.** -/
theorem merged_eq (h : p.mailbox.Sorted scheme) (pattern : Pattern) (label : String)
    (limit : UInt64) :
    p.merged pattern label limit = (p.mailbox.unread scheme pattern label).take limit.toNat := by
  have hle : p.Ascending := h.imp fun hlt => le_of_lt hlt
  have hord : Ordered (fun e b : Message => decide (e.id < b.id)) p.log.messages := by
    refine h.imp fun {a b} hlt => ⟨decide_eq_true hlt, decide_eq_false (not_lt.mpr (le_of_lt hlt))⟩
  rw [merged_eq_take_merge hle, merge_filter_filter hord fun m _ hm => by
    revert hm; cases m.broadcast <;> simp]
  congr 1
  refine List.filter_congr fun m _ => ?_
  cases m.broadcast <;> simp

theorem isUnread_of_mem_merged (h : p.Ascending) {pattern : Pattern} {label : String}
    {limit : UInt64} {m : Message} (hm : m ∈ p.merged pattern label limit) :
    m ∈ p.log.messages ∧ p.mailbox.isUnread scheme pattern label m = true := by
  rw [merged_eq_take_merge h] at hm
  exact mem_merge_kinds.mp (List.mem_of_mem_take hm)

theorem mem_merged_max (h : p.Ascending) (hfits : p.log.messages.length ≤ usizeMax.toNat)
    {pattern : Pattern} {label : String} {m : Message} (hm : m ∈ p.log.messages)
    (hunread : p.mailbox.isUnread scheme pattern label m = true) :
    m ∈ p.merged pattern label usizeMax := by
  rw [merged_eq_take_merge h, List.take_of_length_le]
  · exact mem_merge_kinds.mpr ⟨hm, hunread⟩
  · exact Nat.le_trans length_merge_kinds_le hfits

theorem merged_eq_nil_iff (h : p.Ascending) {limit : UInt64} (hlimit : 0 < limit.toNat)
    (pattern : Pattern) (label : String) : p.merged pattern label limit = [] ↔
      ∀ m ∈ p.log.messages, p.mailbox.isUnread scheme pattern label m = false := by
  rw [merged_eq_take_merge h, List.take_eq_nil_iff, or_iff_right (Nat.ne_of_gt hlimit),
    List.eq_nil_iff_forall_not_mem]
  constructor
  · intro hnil m hm
    rw [Bool.eq_false_iff]
    exact fun hunread => hnil m (mem_merge_kinds.mpr ⟨hm, hunread⟩)
  · intro hall m hm
    obtain ⟨hm, hunread⟩ := mem_merge_kinds.mp hm
    rw [hall m hm] at hunread
    cases hunread

theorem merged_max (h : p.mailbox.Sorted scheme) (hfits : p.log.messages.length ≤ usizeMax.toNat)
    (pattern : Pattern) (label : String) :
    p.merged pattern label usizeMax = p.mailbox.unread scheme pattern label := by
  rw [merged_eq h, List.take_of_length_le]
  exact Nat.le_trans (List.length_filter_le ..) hfits

/-- Whatever its limit, a delivery selects from the front of one list of messages new to the
label. -/
theorem exists_merged_eq_take (p : Partition) (pattern : Pattern) (label : String) :
    ∃ ms : List Message, (∀ limit, p.merged pattern label limit = ms.take limit.toNat) ∧
      ∀ m ∈ ms, m ∈ p.log.messages ∧ p.cursors.isDelivered label m.id = false := by
  let unread (broadcast : Bool) (cursor : Option Ulid) :=
      (p.log.messagesAfter cursor).filter fun m =>
    m.broadcast == broadcast && !p.cursors.isDelivered label m.id && pattern.matchesTopic m.topic
  have hnew : ∀ broadcast cursor, ∀ m ∈ unread broadcast cursor,
      m ∈ p.log.messages ∧ p.cursors.isDelivered label m.id = false := by
    intro broadcast cursor m hm
    obtain ⟨hmem, hsel⟩ := List.mem_filter.mp hm
    simp only [Bool.and_eq_true, Bool.not_eq_true'] at hsel
    exact ⟨List.mem_of_mem_drop hmem, hsel.1.2⟩
  refine ⟨(unread false (p.cursors.exclusivePosition pattern.asStr)).merge
    (unread true (p.cursors.broadcastPosition label)) fun e b => decide (e.id < b.id), ?_, ?_⟩
  · intro limit
    simp only [merged, stream]
    rw [mergeLoop_eq_merge _ (Nat.le_refl _), List.nil_append,
      take_merge_take _ _ _ (Nat.le_refl _) (Nat.le_refl _)]
  · intro m hm
    rcases List.mem_merge.mp hm with hm | hm
    · exact hnew _ _ m hm
    · exact hnew _ _ m hm

theorem mem_of_mem_merged {pattern : Pattern} {label : String} {limit : UInt64} {m : Message}
    (h : m ∈ p.merged pattern label limit) : m ∈ p.log.messages := by
  obtain ⟨ms, htake, hmem⟩ := p.exists_merged_eq_take pattern label
  rw [htake] at h
  exact (hmem m (List.mem_of_mem_take h)).1

theorem matchesTopic_of_mem_merged {pattern : Pattern} {label : String}
    {limit : UInt64} {m : Message} (h : m ∈ p.merged pattern label limit) :
    pattern.matchesTopic m.topic = true := by
  simp only [merged] at h
  rw [mergeLoop_eq_merge _ (Nat.le_refl _), List.nil_append] at h
  rcases List.mem_merge.mp (List.mem_of_mem_take h) with hm | hm
  all_goals
    have hsel := (List.mem_filter.mp (List.mem_of_mem_take hm)).2
    simp only [Bool.and_eq_true] at hsel
    exact hsel.2

/-! ## Records -/

theorem find?_reverse_eq (q : Message → Bool) (ms : List Message) :
    ms.reverse.find? q = (ms.filter q).getLast? := by
  rw [List.getLast?_eq_head?_reverse, ← List.filter_reverse, List.head?_filter]

theorem markAll_spec (store : CursorStore) (label : String) (ms : List Message) :
    (∀ pattern, (markAll store label ms).exclusivePosition pattern =
      store.exclusivePosition pattern) ∧
      (∀ label', (markAll store label ms).broadcastPosition label' =
        store.broadcastPosition label') ∧
      ∀ label' id, (markAll store label ms).isDelivered label' id =
        (store.isDelivered label' id || decide (label = label') && ms.any fun m =>
          decide (m.id = id)) := by
  induction ms generalizing store with
  | nil => simp [markAll]
  | cons m ms ih =>
    obtain ⟨hx, hb, hd⟩ := ih (store.markDelivered label m.id)
    refine ⟨fun pattern => (hx pattern).trans (by simp), fun label' => (hb label').trans (by simp),
      fun label' id => (hd label' id).trans ?_⟩
    by_cases hl : label = label' <;> simp [hl, Bool.or_assoc]

theorem advanceTo_spec (store : CursorStore) (pattern label : String) (ms : List Message) :
    (∀ pattern', (advanceTo store pattern label ms).exclusivePosition pattern' =
        if pattern = pattern' then (ms.filter (!·.broadcast)).getLast?.elim
          (store.exclusivePosition pattern) fun m => advance m.id (store.exclusivePosition pattern)
        else store.exclusivePosition pattern') ∧
      (∀ label', (advanceTo store pattern label ms).broadcastPosition label' =
        if label = label' then (ms.filter (·.broadcast)).getLast?.elim
          (store.broadcastPosition label) fun m => advance m.id (store.broadcastPosition label)
        else store.broadcastPosition label') ∧
      ∀ label' id, (advanceTo store pattern label ms).isDelivered label' id =
        store.isDelivered label' id := by
  unfold advanceTo
  rw [find?_reverse_eq, find?_reverse_eq]
  cases (ms.filter (!·.broadcast)).getLast? <;> cases (ms.filter (·.broadcast)).getLast? <;>
    simp +contextual [Option.elim]

/-- Recording a batch makes nothing unread, whatever is in it. -/
theorem isUnread_of_recordBatch {batch : List Message} {pattern : Pattern} {label : String}
    {P : Pattern} {L : String} {m : Message}
    (h :
      (Partition.mailbox
        { p with cursors := recordBatch p.cursors pattern.asStr label batch }).isUnread
      scheme P L m = true) : p.mailbox.isUnread scheme P L m = true := by
  obtain ⟨hx, hb, hd⟩ := markAll_spec (advanceTo p.cursors pattern.asStr label batch) label batch
  obtain ⟨hx', hb', hd'⟩ := advanceTo_spec p.cursors pattern.asStr label batch
  have hback : ∀ (last : Option Message) (pos : Option Ulid),
      isBeyond (last.elim pos fun a => advance a.id pos) m.id = true →
        isBeyond pos m.id = true := by
    rintro (_ | a) pos hbeyond
    · exact hbeyond
    · rw [Option.elim_some, isBeyond_advance, Bool.and_eq_true] at hbeyond
      exact hbeyond.1
  obtain ⟨hsel, hseen, hbeyond⟩ := Mailbox.isUnread_iff.mp h
  refine Mailbox.isUnread_iff.mpr ⟨hsel, ?_, ?_⟩
  · have : (p.cursors.isDelivered L m.id || decide (label = L) && batch.any fun a =>
      decide (a.id = m.id)) =
        false := by rw [← hd', ← hd]; exact hseen
    exact (Bool.or_eq_false_iff.mp this).1
  · have hpos : ∀ q : Partition, q.mailbox.position scheme P L m = if m.broadcast then
        q.cursors.broadcastPosition L else q.cursors.exclusivePosition P.asStr := fun _ => rfl
    rw [hpos] at hbeyond ⊢
    simp only [recordBatch, hx, hb, hx', hb'] at hbeyond
    by_cases hm : m.broadcast = true
    · rw [if_pos hm] at hbeyond ⊢
      split at hbeyond
      · next hl => exact hl ▸ hback _ _ hbeyond
      · exact hbeyond
    · rw [if_neg hm] at hbeyond ⊢
      split at hbeyond
      · next hp => exact hp ▸ hback _ _ hbeyond
      · exact hbeyond

/-- **Recording a batch is handing it out.** -/
theorem mailbox_recordBatch {batch : List Message} (h : batch.Pairwise fun a b => a.id ≤ b.id)
    (pattern : Pattern) (label : String) :
    Partition.mailbox { p with cursors := recordBatch p.cursors pattern.asStr label batch } =
      p.mailbox.handOut scheme pattern label batch := by
  obtain ⟨hx, hb, hd⟩ := markAll_spec (advanceTo p.cursors pattern.asStr label batch) label batch
  obtain ⟨hx', hb', hd'⟩ := advanceTo_spec p.cursors pattern.asStr label batch
  have hpass : ∀ q pos, Mailbox.pass scheme (batch.filter q) pos =
      (batch.filter q).getLast?.elim pos fun m => advance m.id pos := fun q pos =>
    Mailbox.pass_eq (S := scheme) (h.sublist List.filter_sublist) pos
  unfold Partition.mailbox Mailbox.handOut recordBatch
  congr 1
  · funext pattern'
    rw [hx, hx', Function.update_apply, hpass]
    by_cases hp : pattern' = pattern
    · subst hp
      simp [scheme]
    · have hne : pattern.asStr ≠ pattern'.asStr := fun heq => hp (Pattern.ext_raw heq).symm
      simp [hp, hne]
  · funext label'
    rw [hb, hb', Function.update_apply, hpass]
    by_cases hl : label' = label
    · subst hl
      simp [scheme]
    · simp [hl, Ne.symm hl]
  · funext label' id
    rw [hd, hd', Function.update_apply]
    by_cases hl : label' = label
    · rw [if_pos hl, decide_eq_true hl.symm, Bool.true_and, hl]
      rfl
    · rw [if_neg hl, decide_eq_false (Ne.symm hl), Bool.false_and, Bool.or_false]

/-! ## Expiry -/

theorem expire_of_kept {keep : Message → Bool} (h : ∀ m ∈ p.log.messages, keep m = true) :
    p.mailbox.expire scheme keep = p.mailbox := by
  have hkept : p.mailbox.log.filter keep = p.mailbox.log := List.filter_eq_self.mpr h
  simp only [Mailbox.expire, Mailbox.oldestSurvivor, hkept, lt_irrefl, if_false]

theorem expire_of_none_kept {keep : Message → Bool} (h : p.log.messages.filter keep = []) :
    p.mailbox.expire scheme keep = { p.mailbox with log := [] } := by
  have hkept : p.mailbox.log.filter keep = [] := h
  simp [Mailbox.expire, Mailbox.oldestSurvivor, hkept]

theorem oldestSurvivor_mailbox {keep : Message → Bool} {m : Message} {ms : List Message}
    (h : p.log.messages.filter keep = m :: ms) (hlt : (m :: ms).length < p.log.messages.length) :
    p.mailbox.oldestSurvivor keep = some m := by
  have hkept : p.mailbox.log.filter keep = m :: ms := h
  have hlt : (m :: ms).length < p.mailbox.log.length := hlt
  rw [Mailbox.oldestSurvivor, hkept, if_pos hlt, List.head?_cons]

/-- **Pruning the cursors is expiry.** -/
theorem expire_of_survivor {keep : Message → Bool} {m : Message} {ms : List Message}
    (h : p.log.messages.filter keep = m :: ms) (hlt : (m :: ms).length < p.log.messages.length) :
    p.mailbox.expire scheme keep = Partition.mailbox { p with
      log := { p.log with messages := m :: ms }
      cursors := pruneCursors p.cursors m.id } := by
  have hkept : p.mailbox.log.filter keep = m :: ms := h
  simp only [Mailbox.expire, oldestSurvivor_mailbox h hlt, hkept]
  unfold Partition.mailbox pruneCursors
  congr 1
  · funext pattern
    simp [scheme]
  · funext label
    simp [scheme]
  · funext label id
    rw [CursorStore.isDelivered_pruneDelivered, CursorStore.isDelivered_snapForward]
    rfl

/-- **A prune is an expiry.** It sends no signal. -/
theorem mailbox_of_prune {F : Formats} {disk : Disk} {policy : RetentionPolicy} {now count : Nat}
    {w' : World} (hfile : p.log.file = .attached)
    (h : p.prune F none disk policy now = (.ok count, w')) :
    w'.partition.mailbox = p.mailbox.expire scheme (policy.keeps now) ∧
      w'.partition.log.file = .attached ∧ w'.partition.notify = p.notify := by
  rcases prune_cases policy now p.log.messages with hall | ⟨hne, hnil⟩ | ⟨m, ms, hkept, hlt⟩
  · rw [prune_of_kept hall] at h
    obtain ⟨-, rfl⟩ := Prod.mk.inj h
    exact ⟨(expire_of_kept hall).symm, hfile, rfl⟩
  · rw [prune_of_none_kept hne hfile hnil] at h
    obtain ⟨-, rfl⟩ := Prod.mk.inj h
    exact ⟨(expire_of_none_kept hnil).symm, hfile, rfl⟩
  · rw [prune_of_survivor hfile hkept hlt] at h
    obtain ⟨-, rfl⟩ := Prod.mk.inj h
    exact ⟨(expire_of_survivor hkept hlt).symm, hfile, rfl⟩

end Partition

end AgentBus
