import AgentBus.Daemon.Replay
import AgentBus.Daemon.Server

/-!
# Opening a partition with a legacy cursor file

A legacy file maps subscribers to patterns to ids. Opening it folds the ids
into one position a pattern, and marks what each subscriber consumed as
delivered to the label of that name. The first is decided by parsing, the
second by looking for the member names of the current shape in the text. A
legacy file with such a subscriber gets its positions folded and nothing
marked: its labels are protected only where a pattern's own position covers a
message.
-/

namespace AgentBus

open Lib CursorStore

variable {F : Formats} {stateDir : Path} {name : PartitionName} {disk : Disk} {w : World}
  {raw : String} {legacy : Std.ExtTreeMap String Positions}

/-! ## Legacy files -/

/-- The text is in the nested shape and not in the current one. -/
structure IsLegacy (F : Formats) (raw : String)
    (legacy : Std.ExtTreeMap String Positions) : Prop where
  nested : (F.fromStr raw).bind (legacyOfValue F) = some legacy
  notCurrent : (F.fromStr raw).bind (ofValue F) = none

/-- The file has the id under this subscriber and pattern. -/
def LegacyEntry (legacy : Std.ExtTreeMap String Positions) (subscriber : String) (pattern : Pattern)
    (id : Ulid) : Prop :=
  ∃ patterns, legacy[subscriber]? = some patterns ∧ patterns[pattern.asStr]? = some id

/-- The file says that the subscriber consumed the message. -/
def Consumed (legacy : Std.ExtTreeMap String Positions) (subscriber : String)
    (m : Message) : Prop :=
  ∃ pattern id, LegacyEntry legacy subscriber pattern id ∧ m.id ≤ id ∧
    pattern.matchesTopic m.topic = true

/-- The test by which a text is taken for a current file. -/
def namesCurrent (raw : String) : Bool :=
  (trim raw).toList.head? = some '{' &&
    (contains (trim raw) "\"exclusive\"" || contains (trim raw) "\"broadcast\"")

/-! ## Folded positions -/

theorem isBeyond_foldl_advanceExclusive (s : CursorStore) (l : List (String × Ulid))
    (pattern : String) (id : Ulid) :
    isBeyond ((l.foldl (fun s p => s.advanceExclusive p.1 p.2) s).exclusivePosition pattern) id =
      true ↔ isBeyond (s.exclusivePosition pattern) id = true ∧ ∀ p ∈ l, p.1 = pattern →
        p.2 < id := by
  induction l generalizing s with
  | nil => simp
  | cons p l ih =>
    rw [List.foldl_cons, ih, exclusivePosition_advanceExclusive, List.forall_mem_cons]
    by_cases hp : p.1 = pattern
    · rw [if_pos hp, isBeyond_advance, hp, Bool.and_eq_true, decide_eq_true_eq, and_assoc]
      simp
    · simp [hp]

/-- An id is beyond a folded position if it is beyond every id of the file under the pattern. -/
theorem isBeyond_foldl_advanceAll (s : CursorStore) (l : List (String × Positions))
    (pattern : String) (id : Ulid) :
    isBeyond ((l.foldl (fun s p => s.advanceAll p.2) s).exclusivePosition pattern) id = true ↔
      isBeyond (s.exclusivePosition pattern) id = true ∧
        ∀ p ∈ l, ∀ id', p.2[pattern]? = some id' → id' < id := by
  induction l generalizing s with
  | nil => simp
  | cons p l ih =>
    have hone : ∀ id, (∀ q ∈ p.2.toList, q.1 = pattern → q.2 < id) ↔
        ∀ id', p.2[pattern]? = some id' → id' < id := by
      intro id
      constructor
      · exact fun h id' hid => h _ (Std.ExtTreeMap.mem_toList_iff_getElem?_eq_some.mpr hid) rfl
      · rintro h ⟨key, id'⟩ hq rfl
        exact h id' (Std.ExtTreeMap.mem_toList_iff_getElem?_eq_some.mp hq)
    rw [List.foldl_cons, ih, advanceAll, isBeyond_foldl_advanceExclusive, hone,
      List.forall_mem_cons, and_assoc]

theorem foldl_advanceAll_frame (s : CursorStore) (l : List (String × Positions)) :
    (l.foldl (fun s p => s.advanceAll p.2) s).broadcast = s.broadcast ∧
      (l.foldl (fun s p => s.advanceAll p.2) s).delivered = s.delivered := by
  have hone : ∀ (s : CursorStore) (q : List (String × Ulid)),
      (q.foldl (fun s p => s.advanceExclusive p.1 p.2) s).broadcast = s.broadcast ∧
        (q.foldl (fun s p => s.advanceExclusive p.1 p.2) s).delivered = s.delivered := by
    intro s q
    induction q generalizing s with
    | nil => exact ⟨rfl, rfl⟩
    | cons p q ih => exact ih _
  induction l generalizing s with
  | nil => exact ⟨rfl, rfl⟩
  | cons p l ih =>
    obtain ⟨hb, hd⟩ := hone s p.2.toList
    obtain ⟨hb', hd'⟩ := ih (s.advanceAll p.2)
    exact ⟨hb'.trans hb, hd'.trans hd⟩

/-- The positions of a legacy file, folded. -/
def foldLegacy (legacy : Std.ExtTreeMap String Positions) : CursorStore :=
  legacy.toList.foldl (fun s p => s.advanceAll p.2) CursorStore.default

theorem isBeyond_foldLegacy (legacy : Std.ExtTreeMap String Positions)
    (pattern : Pattern) (id : Ulid) :
    isBeyond ((foldLegacy legacy).exclusivePosition pattern.asStr) id = true ↔
      ∀ subscriber id', LegacyEntry legacy subscriber pattern id' → id' < id := by
  rw [foldLegacy, isBeyond_foldl_advanceAll, exclusivePosition_default, isBeyond_none,
    and_iff_right rfl]
  constructor
  · rintro h subscriber id' ⟨patterns, hp, hid⟩
    exact h _ (Std.ExtTreeMap.mem_toList_iff_getElem?_eq_some.mpr hp) id' hid
  · rintro h ⟨subscriber, patterns⟩ hp id' hid
    exact h subscriber id' ⟨patterns, Std.ExtTreeMap.mem_toList_iff_getElem?_eq_some.mp hp, hid⟩

theorem foldLegacy_frame (legacy : Std.ExtTreeMap String Positions) :
    (∀ label, (foldLegacy legacy).broadcastPosition label = none) ∧
      ∀ label id, (foldLegacy legacy).isDelivered label id = false := by
  obtain ⟨hb, hd⟩ := foldl_advanceAll_frame CursorStore.default legacy.toList
  constructor
  · intro label
    rw [foldLegacy, broadcastPosition, hb]
    exact broadcastPosition_default label
  · intro label id
    rw [foldLegacy, isDelivered, hd]
    exact isDelivered_default label id

/-! ## Marked ids -/

theorem isDelivered_foldl_mark (store : CursorStore) (label : String) (q : Message → Prop)
    [DecidablePred q] (ms : List Message) (label' : String) (id : Ulid) :
    (ms.foldl (fun store m => if q m then store.markDelivered label m.id else store)
      store).isDelivered
        label' id = true ↔
      store.isDelivered label' id = true ∨ label = label' ∧ ∃ m ∈ ms, q m ∧ m.id = id := by
  induction ms generalizing store with
  | nil => simp
  | cons m ms ih =>
    rw [List.foldl_cons, ih]
    by_cases hq : q m
    · simp [hq, or_assoc, and_or_left]
    · simp [hq]

theorem isDelivered_seedDelivered (log : PartitionLog) (store : CursorStore)
    (t : String × String × Ulid) (label : String) (id : Ulid) :
    (Partition.seedDelivered log store t).isDelivered label id = true ↔
      store.isDelivered label id = true ∨ t.1 = label ∧
      ∃ pattern, Pattern.parse t.2.1 = .ok pattern ∧
        ∃ m ∈ log.messages, (m.id ≤ t.2.2 ∧ pattern.matchesTopic m.topic = true) ∧ m.id = id := by
  obtain ⟨subscriber, pattern, bound⟩ := t
  rw [Partition.seedDelivered]
  split
  · next e he => simp [he]
  · next P hP =>
    rw [isDelivered_foldl_mark]
    simp [hP]

theorem isDelivered_foldl_seedDelivered (log : PartitionLog) (store : CursorStore)
    (ts : List (String × String × Ulid)) {t : String × String × Ulid} (ht : t ∈ ts)
    {pattern : Pattern} (hparse : Pattern.parse t.2.1 = .ok pattern) {m : Message}
    (hm : m ∈ log.messages) (hle : m.id ≤ t.2.2) (hmatch : pattern.matchesTopic m.topic = true) :
    (ts.foldl (Partition.seedDelivered log) store).isDelivered t.1 m.id = true := by
  have hkeep : ∀ (ts : List (String × String × Ulid)) (store : CursorStore),
      store.isDelivered t.1 m.id = true →
        (ts.foldl (Partition.seedDelivered log) store).isDelivered t.1 m.id = true := by
    intro ts
    induction ts with
    | nil => exact fun _ h => h
    | cons u ts ih =>
      exact fun store h => ih _ ((isDelivered_seedDelivered log store u _ _).mpr (.inl h))
  obtain ⟨ds, es, rfl⟩ := List.append_of_mem ht
  rw [List.foldl_append, List.foldl_cons]
  exact hkeep es _ ((isDelivered_seedDelivered log _ t _ _).mpr
    (.inr ⟨rfl, pattern, hparse, m, hm, ⟨hle, hmatch⟩, rfl⟩))

/-! ## What an opened partition holds -/

theorem fromJsonOrReset_legacy (hblank : F.RejectsBlank) (h : IsLegacy F raw legacy) :
    fromJsonOrReset F raw = (foldLegacy legacy, none) := by
  have hne : (trim raw).isEmpty = false := by
    rw [Bool.eq_false_iff, ne_eq, trim_isEmpty_iff]
    intro hall
    have := h.nested
    rw [hblank raw hall] at this
    cases this
  rw [fromJsonOrReset, fromJson, hne, if_neg Bool.false_ne_true, h.notCurrent, h.nested]
  rfl

/-- The legacy triples of a file that is not taken for a current one are its entries. -/
theorem mem_legacyTriples (htrim : F.fromStr (trim raw) = F.fromStr raw) (hblank : F.RejectsBlank)
    (h : IsLegacy F raw legacy) (hnames : namesCurrent raw = false) {subscriber : String}
    {pattern : Pattern} {id : Ulid} (he : LegacyEntry legacy subscriber pattern id) :
    ∃ ts, legacyTriples F raw = some ts ∧ (subscriber, pattern.asStr, id) ∈ ts := by
  obtain ⟨patterns, hp, hid⟩ := he
  have hne : (trim raw).isEmpty = false := by
    rw [Bool.eq_false_iff, ne_eq, trim_isEmpty_iff]
    intro hall
    have := h.nested
    rw [hblank raw hall] at this
    cases this
  have hlegacy : legacy.isEmpty = false := by
    rw [Bool.eq_false_iff, ne_eq, Std.ExtTreeMap.isEmpty_iff]
    rintro rfl
    cases hp
  have hp := Std.ExtTreeMap.mem_toList_iff_getElem?_eq_some.mpr hp
  have hid := Std.ExtTreeMap.mem_toList_iff_getElem?_eq_some.mpr hid
  unfold namesCurrent at hnames
  simp only [legacyTriples, hne, hnames, Bool.false_eq_true, if_false, htrim, h.nested,
    Option.bind_some, hlegacy]
  exact ⟨_, rfl, List.mem_flatMap.mpr ⟨_, hp, List.mem_map.mpr ⟨_, hid, rfl⟩⟩⟩

theorem of_open_legacy (hblank : F.RejectsBlank) (h : IsLegacy F raw legacy)
    (hfile : disk[cursorPath stateDir name]? = some (utf8 raw.toList))
    (hopen : World.open F none stateDir name disk = .ok w) :
    w.partition.cursors = match legacyTriples F raw with
      | some triples => triples.foldl (Partition.seedDelivered w.partition.log) (foldLegacy legacy)
      | none => foldLegacy legacy := by
  have hcursors : (PartitionLog.touch disk (logPath stateDir name))[cursorPath stateDir name]? =
      some (utf8 raw.toList) := by
    simp [PartitionLog.touch, Std.ExtTreeMap.getElem?_insert, logPath_ne_cursorPath, hfile]
  simp only [World.open, Partition.open, PartitionLog.open, Option.bind_none] at hopen
  cases hload : loadLines F (readLines (PartitionLog.contentAt disk (logPath stateDir name))) with
  | none => simp only [hload] at hopen; cases hopen
  | some r =>
    simp only [hload, Partition.readCursors, hcursors, decodeUtf8_utf8, String.ofList_toList,
      Partition.loadCursors, fromJsonOrReset_legacy hblank h] at hopen
    obtain rfl := Except.ok.inj hopen
    cases legacyTriples F raw <;> rfl

theorem exists_open_of_files (hF : F.Faithful) {ms : List Message}
    (hcontent : PartitionLog.contentAt disk (logPath stateDir name) =
      ms.flatMap (PartitionLog.recordOf F))
    (hfile : disk[cursorPath stateDir name]? = some (utf8 raw.toList))
    (hs : ms.Pairwise fun a b => a.id < b.id) :
    ∃ w, World.open F none stateDir name disk = .ok w ∧ w.partition.log.messages = ms := by
  have hcursors : (PartitionLog.touch disk (logPath stateDir name))[cursorPath stateDir name]? =
      some (utf8 raw.toList) := by
    simp [PartitionLog.touch, Std.ExtTreeMap.getElem?_insert, logPath_ne_cursorPath, hfile]
  simp only [World.open, Partition.open, Option.bind_none, open_log_of_records hF hcontent,
    Partition.readCursors, hcursors, decodeUtf8_utf8]
  exact ⟨_, rfl, sortById_eq hs⟩

/-! ## Deliveries -/

/-- Deliveries only. -/
def Call.isDeliver : Call → Prop
  | .deliver _ _ _ => True
  | _ => False

/-- What a list of calls, each with the faults that strike it, hands to a label. -/
def World.handedTo (F : Formats) (stateDir : Path) (label : String) :
    World → List (Faults × Call) → List Message
  | _, [] => []
  | w, (faults, c) :: calls =>
    (match (w.call F stateDir faults c).1 with
      | .ok reply => Event.handedWhen (fun _ label' => decide (label' = label)) ⟨c, reply⟩
      | .error _ => []) ++ (w.call F stateDir faults c).2.handedTo F stateDir label calls

/-- A delivery, whatever strikes it, keeps the log and makes nothing unread. -/
theorem call_deliver_recedes (F : Formats) (stateDir : Path) (w : World)
    (faults : Faults) (P : Pattern) (label : String) (limit : UInt64) :
    (w.call F stateDir faults (.deliver P label limit)).2.partition.log = w.partition.log ∧
      ∀ Q l m, (w.call F stateDir faults (.deliver P label limit)).2.partition.mailbox.isUnread
        scheme Q l m = true → w.partition.mailbox.isUnread scheme Q l m = true := by
  rcases hd : w.partition.deliver F faults.persist w.disk P label limit with ⟨e | ms, w'⟩
  · have hcall : (w.call F stateDir faults (.deliver P label limit)).2 =
      w' := by simp only [World.call, hd]
    obtain ⟨-, hw'⟩ := Partition.of_deliver_error hd
    rw [hcall, hw']
    exact ⟨rfl, fun Q l m h => Partition.isUnread_of_recordBatch h⟩
  · have hcall : (w.call F stateDir faults (.deliver P label limit)).2 =
      w' := by simp only [World.call, hd]
    obtain ⟨rfl, hlog, hcursors⟩ := Partition.of_deliver_ok hd
    have hmail : w'.partition.mailbox = Partition.mailbox { w.partition with
        cursors := Partition.recordBatch w.partition.cursors P.asStr label
          (w.partition.merged P label limit) } := by
      simp only [Partition.mailbox, hlog, hcursors]
    rw [hcall, hmail]
    exact ⟨hlog, fun Q l m h => Partition.isUnread_of_recordBatch h⟩

/-- What deliveries hand to a label was unread for it at first. -/
theorem unread_of_mem_handedTo {calls : List (Faults × Call)} (hcalls : ∀ c ∈ calls, c.2.isDeliver)
    (hs : w.partition.Ascending) {label : String} {m : Message}
    (hm : m ∈ w.handedTo F stateDir label calls) :
    m ∈ w.partition.log.messages ∧ ∃ Q, w.partition.mailbox.isUnread scheme Q label m = true := by
  induction calls generalizing w with
  | nil => cases hm
  | cons c calls ih =>
    obtain ⟨faults, c⟩ := c
    obtain ⟨hc, hrest⟩ := List.forall_mem_cons.mp hcalls
    cases c with
    | deliver P l limit =>
      obtain ⟨hlog, hback⟩ := call_deliver_recedes F stateDir w faults P l limit
      rcases List.mem_append.mp hm with hm | hm
      · split at hm
        · next reply hreply =>
          obtain ⟨ms, hms, rfl⟩ := deliver_of_call (Prod.ext hreply rfl)
          obtain ⟨rfl, -, -⟩ := Partition.of_deliver_ok hms
          simp only [Event.handedWhen, Event.handed] at hm
          split at hm
          · next hl =>
            obtain ⟨hmem, hunread⟩ := Partition.isUnread_of_mem_merged hs hm
            exact ⟨hmem, P, of_decide_eq_true hl ▸ hunread⟩
          · cases hm
        · cases hm
      · obtain ⟨hmem, Q, hunread⟩ := ih hrest (by rw [Partition.Ascending, hlog]; exact hs) hm
        exact ⟨hlog ▸ hmem, Q, hback _ _ _ hunread⟩
    | publish _ | history _ _ _ | prune _ _ | reopen => exact absurd hc id

theorem mem_handedTo_of_unread (hs : w.partition.Ascending)
    (hfits : w.partition.log.messages.length ≤ usizeMax.toNat) {Q : Pattern}
    {label : String} {m : Message} (hm : m ∈ w.partition.log.messages)
    (hunread : w.partition.mailbox.isUnread scheme Q label m = true) :
    m ∈ w.handedTo F stateDir label [(noFaults, .deliver Q label usizeMax)] := by
  have hmem := Partition.mem_merged_max hs hfits hm hunread
  simp only [World.handedTo, Partition.call_deliver, Event.handedWhen, Event.handed,
    decide_true, if_true, List.append_nil]
  exact hmem

/-! ## Upgrading -/

/-- What a consumer is owed where the positions are folded and nothing is marked. -/
theorem isUnread_iff_of_foldLegacy (hc : w.partition.cursors = foldLegacy legacy) (Q : Pattern)
    (label : String) (m : Message) : w.partition.mailbox.isUnread scheme Q label m = true ↔
      Q.matchesTopic m.topic = true ∧
        (m.broadcast = false → ∀ S id, LegacyEntry legacy S Q id → id < m.id) := by
  obtain ⟨hb, hd⟩ := foldLegacy_frame legacy
  have hseen : w.partition.mailbox.seen label (scheme.key m) = false := by
    simp only [Partition.mailbox, hc, hd]
  rw [Mailbox.isUnread_iff, and_iff_right hseen, ← isBeyond_foldLegacy]
  cases hm : m.broadcast with
  | true => simp [Mailbox.position, Partition.mailbox, scheme, hm, hc, hb]
  | false => simp [Mailbox.position, Partition.mailbox, scheme, hm, hc]

theorem legacyTriples_of_namesCurrent (h : namesCurrent raw = true) :
    legacyTriples F raw = none := by
  unfold namesCurrent at h
  simp only [legacyTriples, h, if_true, ite_self]

/-- **Opening with a legacy file never re-delivers, as long as the text is not taken for a current
file or every consumed message is covered by the positions of all the patterns that match it.** -/
theorem upgrade_redelivers_nothing_iff (hblank : F.RejectsBlank)
    (htrim : F.fromStr (trim raw) = F.fromStr raw) (h : IsLegacy F raw legacy)
    (hfile : disk[cursorPath stateDir name]? = some (utf8 raw.toList))
    (hopen : World.open F none stateDir name disk = .ok w)
    (hfits : w.partition.log.messages.length ≤ usizeMax.toNat) :
    (∀ S m, m ∈ w.partition.log.messages → Consumed legacy S m → ∀ calls : List (Faults × Call),
        (∀ c ∈ calls, c.2.isDeliver) → m ∉ w.handedTo F stateDir S calls) ↔
      (namesCurrent raw = true → ∀ S m, m ∈ w.partition.log.messages → Consumed legacy S m →
        m.broadcast = false ∧ ∀ Q : Pattern, Q.matchesTopic m.topic = true →
          ∃ S' id, LegacyEntry legacy S' Q id ∧ m.id ≤ id) := by
  have hs : w.partition.Ascending := (served_of_open hopen).ascending
  have hcursors := of_open_legacy hblank h hfile hopen
  constructor
  · intro hnever hnames S m hm hconsumed
    have hfold : w.partition.cursors = foldLegacy legacy := by
      rw [hcursors, legacyTriples_of_namesCurrent hnames]
    have hread : ∀ Q, ¬ w.partition.mailbox.isUnread scheme Q S m = true := fun Q hunread =>
      hnever S m hm hconsumed _ (by simp [Call.isDeliver])
        (mem_handedTo_of_unread hs hfits hm hunread)
    simp only [isUnread_iff_of_foldLegacy hfold, not_and] at hread
    constructor
    · -- nothing covers a broadcast message
      obtain ⟨P, -, -, -, hmatch⟩ := hconsumed
      rw [Bool.eq_false_iff]
      exact fun hb => hread P hmatch fun hb' => absurd (hb.symm.trans hb') (by decide)
    · intro Q hmatch
      by_contra hnone
      push Not at hnone
      exact hread Q hmatch fun _ => hnone
  · intro hcond S m hm hconsumed calls hcalls hmem
    obtain ⟨-, Q, hunread⟩ := unread_of_mem_handedTo hcalls hs hmem
    cases hnames : namesCurrent raw with
    | true =>
      have hfold : w.partition.cursors = foldLegacy legacy := by
        rw [hcursors, legacyTriples_of_namesCurrent hnames]
      obtain ⟨hmatch, hbeyond⟩ := (isUnread_iff_of_foldLegacy hfold Q S m).mp hunread
      obtain ⟨hb, hcovered⟩ := hcond hnames S m hm hconsumed
      obtain ⟨S', id, hentry, hle⟩ := hcovered Q hmatch
      exact absurd (hbeyond hb S' id hentry) (not_lt.mpr hle)
    | false =>
      -- the message is marked
      obtain ⟨P, id, hentry, hle, hmatch⟩ := hconsumed
      obtain ⟨ts, hts, hmem⟩ := mem_legacyTriples htrim hblank h hnames hentry
      have hmarked : w.partition.cursors.isDelivered S m.id = true := by
        rw [hcursors, hts]
        exact isDelivered_foldl_seedDelivered _ _ ts hmem P.parse_raw hm hle hmatch
      have hseen := (Mailbox.isUnread_iff.mp hunread).2.1
      exact absurd (hmarked.symm.trans hseen) (by decide)

/-! ## Samples -/

/-- One subscriber that consumed the sample message. -/
def legacyText (subscriber : String) : String :=
  "\x7b\"" ++ subscriber ++ "\":\x7b\"iot_base/dev_01\":\"00000000Z80000000000000000\"\x7d\x7d"

def legacyMap (subscriber : String) : Std.ExtTreeMap String Positions :=
  Std.ExtTreeMap.insert ∅ subscriber (Std.ExtTreeMap.insert ∅ "iot_base/dev_01" (.fromParts 1000 0))

/-- A log with the sample message, and that cursor file. -/
def legacyDisk (subscriber : String) : Disk :=
  (Std.ExtTreeMap.insert ∅ (logPath "/state" sampleName)
    (PartitionLog.recordOf .reference (sampleMessage 1 devTopic))).insert
      (cursorPath "/state" sampleName) (utf8 (legacyText subscriber).toList)

theorem getElem?_legacyDisk (subscriber : String) :
    (legacyDisk subscriber)[cursorPath "/state" sampleName]? =
      some (utf8 (legacyText subscriber).toList) := Std.ExtTreeMap.getElem?_insert_self

theorem exists_open_legacyDisk (subscriber : String) : ∃ w,
    World.open .reference none "/state" sampleName (legacyDisk subscriber) = .ok w ∧
      w.partition.log.messages = [sampleMessage 1 devTopic] := by
  have hcontent : PartitionLog.contentAt (legacyDisk subscriber) (logPath "/state" sampleName) =
      [sampleMessage 1 devTopic].flatMap (PartitionLog.recordOf .reference) := by
    rw [legacyDisk, contentAt_insert_of_ne _ (logPath_ne_cursorPath _ _).symm,
      contentAt_insert_self, List.flatMap_singleton]
  exact exists_open_of_files Formats.reference_faithful hcontent (getElem?_legacyDisk subscriber)
    (List.pairwise_singleton ..)

theorem isLegacy_legacyText {subscriber : String} (h : subscriber ∈ ["alice", "broadcast"]) :
    IsLegacy .reference (legacyText subscriber) (legacyMap subscriber) := by
  rcases List.mem_cons.mp h with rfl | h
  · exact ⟨rfl, rfl⟩
  · rw [List.mem_singleton.mp h]
    exact ⟨rfl, rfl⟩

theorem consumed_legacyMap (subscriber : String) :
    Consumed (legacyMap subscriber) subscriber (sampleMessage 1 devTopic) :=
  ⟨devPattern, .fromParts 1000 0, ⟨_, Std.ExtTreeMap.getElem?_insert_self,
    Std.ExtTreeMap.getElem?_insert_self⟩, by decide, by decide⟩

/-- A subscriber with another name. -/
theorem upgrade_redelivers_nothing_to_alice : ∃ w,
    World.open .reference none "/state" sampleName (legacyDisk "alice") = .ok w ∧
    sampleMessage 1 devTopic ∈ w.partition.log.messages ∧
    Consumed (legacyMap "alice") "alice" (sampleMessage 1 devTopic) ∧
    ∀ calls : List (Faults × Call), (∀ c ∈ calls, c.2.isDeliver) →
      sampleMessage 1 devTopic ∉ w.handedTo .reference "/state" "alice" calls := by
  obtain ⟨w, hopen, hlog⟩ := exists_open_legacyDisk "alice"
  have hmem : sampleMessage 1 devTopic ∈ w.partition.log.messages := by simp [hlog]
  have hiff := upgrade_redelivers_nothing_iff Formats.reference_rejectsBlank
    (congrArg Formats.reference.fromStr (by decide : trim (legacyText "alice") =
      legacyText "alice"))
    (isLegacy_legacyText (by simp)) (getElem?_legacyDisk "alice") hopen (by rw [hlog]; decide)
  have hnames : namesCurrent (legacyText "alice") = false := by decide
  exact ⟨w, hopen, hmem, consumed_legacyMap "alice",
    hiff.mpr (fun h => absurd (hnames.symm.trans h) (by decide))
    "alice" _ hmem (consumed_legacyMap "alice")⟩

/-- A subscriber named like a member of the current shape reads the message again under another
pattern. -/
theorem upgrade_redelivers_to_broadcast : ∃ w,
    World.open .reference none "/state" sampleName (legacyDisk "broadcast") = .ok w ∧
    IsLegacy .reference (legacyText "broadcast") (legacyMap "broadcast") ∧
    sampleMessage 1 devTopic ∈ w.partition.log.messages ∧
    Consumed (legacyMap "broadcast") "broadcast" (sampleMessage 1 devTopic) ∧
    sampleMessage 1 devTopic ∈ w.handedTo .reference "/state" "broadcast"
      [(noFaults, .deliver anyPattern "broadcast" usizeMax)] := by
  obtain ⟨w, hopen, hlog⟩ := exists_open_legacyDisk "broadcast"
  have hmem : sampleMessage 1 devTopic ∈ w.partition.log.messages := by simp [hlog]
  have hlegacy : IsLegacy .reference (legacyText "broadcast") (legacyMap "broadcast") :=
    isLegacy_legacyText (by simp)
  have hcursors := of_open_legacy Formats.reference_rejectsBlank hlegacy
    (getElem?_legacyDisk _) hopen
  rw [legacyTriples_of_namesCurrent (by decide)] at hcursors
  refine ⟨w, hopen, hlegacy, hmem, consumed_legacyMap "broadcast", mem_handedTo_of_unread
    (served_of_open hopen).ascending (by rw [hlog]; decide) hmem ?_⟩
  refine (isUnread_iff_of_foldLegacy hcursors anyPattern "broadcast" _).mpr
    ⟨by decide, fun _ S id hentry => ?_⟩
  -- the file has no entry for the other pattern
  obtain ⟨patterns, hp, hid⟩ := hentry
  rw [legacyMap, Std.ExtTreeMap.getElem?_insert] at hp
  split at hp
  · obtain rfl := Option.some.inj hp
    rw [Std.ExtTreeMap.getElem?_insert, if_neg (by decide)] at hid
    cases hid
  · cases hp

end AgentBus
