import AgentBus.Daemon.Recovery

/-!
# What a call without faults does

One lemma for each call says what world it leaves behind, and from it that the
world stays synced.
-/

namespace AgentBus

open Lib PartitionLog

variable {F : Formats}

/-- What retention keeps. -/
def RetentionPolicy.keeps (policy : RetentionPolicy) (now : Nat) (m : Message) : Bool :=
  policy.retains (m.ageSecs now)

theorem RetentionPolicy.keeps_mono (policy : RetentionPolicy) (now : Nat) {m m' : Message}
    (h : m.id ≤ m'.id) (hkeeps : policy.keeps now m = true) : policy.keeps now m' = true := by
  have hsecs : m.id.timestampMs / 1000 ≤ m'.id.timestampMs / 1000 :=
    Nat.div_le_div_right (Ulid.timestampMs_mono h)
  have hyoung : m.ageSecs now < policy.maxAgeSecs := of_decide_eq_true hkeeps
  have hyoung' : m'.ageSecs now < policy.maxAgeSecs := by
    unfold Message.ageSecs at hyoung ⊢
    omega
  exact decide_eq_true hyoung'

/-! ## Appending to the log -/

/-- The bytes an append writes. -/
def written (F : Formats) (m : Message) : Option AppendFault → Bytes
  | some (.write n) => (recordOf F m).take n
  | some .sync => recordOf F m
  | none => recordOf F m

theorem written_beginning (m : Message) (fault : Option AppendFault) :
    written F m fault <+: recordOf F m := by
  rcases fault with _ | n | _
  · exact List.prefix_refl _
  · exact List.take_prefix n _
  · exact List.prefix_refl _

namespace PartitionLog

/-- What an append does to the log, by the fault that strikes it. -/
inductive AppendEffect (F : Formats) (log : PartitionLog) (disk : Disk) (m : Message) :
    Option AppendFault → Except Failure Unit → PartitionLog → Disk → Prop where
  | stored (hroom : log.messages.length < usizeMax.toNat) :
      AppendEffect F log disk m none (.ok ())
        { (log.write disk (written F m none)).1 with messages := log.messages ++ [m] }
        (log.write disk (written F m none)).2
  | failed (fault : Option AppendFault) (e : Failure)
      (hcause : fault ≠ none ∨ usizeMax.toNat ≤ log.messages.length) :
      AppendEffect F log disk m fault (.error e) (log.write disk (written F m fault)).1
        (log.write disk (written F m fault)).2

theorem append_effect {log log' : PartitionLog} {disk disk' : Disk} {fault : Option AppendFault}
    {m : Message} {r : Except Failure Unit} (h : log.append F fault disk m = (r, log', disk')) :
    AppendEffect F log disk m fault r log' disk' := by
  cases fault with
  | none =>
    simp only [append, Message.toJsonl, write_messages] at h
    split at h
    · next hroom =>
      obtain ⟨rfl, rfl, rfl⟩ := h
      exact .stored hroom
    · next hroom =>
      obtain ⟨rfl, rfl, rfl⟩ := h
      exact .failed none _ (.inr (Nat.le_of_not_lt hroom))
  | some fault =>
    cases fault with
    | write n =>
      obtain ⟨rfl, hlog⟩ := Prod.mk.inj h
      obtain ⟨rfl, rfl⟩ := Prod.ext_iff.mp hlog
      exact .failed (some (.write n)) _ (.inl (by simp))
    | sync =>
      obtain ⟨rfl, hlog⟩ := Prod.mk.inj h
      obtain ⟨rfl, rfl⟩ := Prod.ext_iff.mp hlog
      exact .failed (some .sync) _ (.inl (by simp))

end PartitionLog

theorem append_of_room {log : PartitionLog} {disk : Disk}
    (hfile : log.file = .attached) (m : Message) (hroom : log.messages.length < usizeMax.toNat) :
    log.append F none disk m =
      (.ok (), { log with messages := log.messages ++ [m] },
        disk.insert log.path (contentAt disk log.path ++ recordOf F m)) := by
  simp only [append, Message.toJsonl, write, hfile, if_pos hroom]
  rfl

/-! ## Rewriting the log -/

namespace PartitionLog

/-- What a prune does to the log, by the fault that strikes it. -/
inductive PruneEffect (F : Formats) (policy : RetentionPolicy) (now : Nat) (log : PartitionLog)
    (disk : Disk) :
    Option PruneFault → Except Failure PruneOutcome → PartitionLog → Disk → Prop where
  | kept (fault : Option PruneFault)
      (hall : log.messages.filter (policy.keeps now) = log.messages) :
      PruneEffect F policy now log disk fault (.ok ⟨0, log.messages.head?.map Message.id⟩) log disk
  | rewritten (hlt : (log.messages.filter (policy.keeps now)).length < log.messages.length) :
      PruneEffect F policy now log disk none
        (.ok ⟨log.messages.length - (log.messages.filter (policy.keeps now)).length,
          (log.messages.filter (policy.keeps now)).head?.map Message.id⟩)
        { log with file := .attached, messages := log.messages.filter (policy.keeps now) }
        (disk.insert log.path ((log.messages.filter (policy.keeps now)).flatMap (recordOf F)))
  | failed (fault : PruneFault) (e : Failure) (hfault : fault ≠ .reopen)
      (hlt : (log.messages.filter (policy.keeps now)).length < log.messages.length) :
      PruneEffect F policy now log disk (some fault) (.error e) log disk
  | detached (e : Failure)
      (hlt : (log.messages.filter (policy.keeps now)).length < log.messages.length) :
      PruneEffect F policy now log disk (some .reopen) (.error e) (log.unlink disk)
        (disk.insert log.path ((log.messages.filter (policy.keeps now)).flatMap (recordOf F)))

theorem prune_effect {log log' : PartitionLog} {disk disk' : Disk} {fault : Option PruneFault}
    {policy : RetentionPolicy} {now : Nat} {r : Except Failure PruneOutcome}
    (h : log.prune F fault disk policy now = (r, log', disk')) :
    PruneEffect F policy now log disk fault r log' disk' := by
  have hle := List.length_filter_le (policy.keeps now) log.messages
  unfold PartitionLog.prune at h
  simp only [rewritten_eq] at h
  split at h
  · next hnone =>
    obtain ⟨rfl, rfl, rfl⟩ := h
    change log.messages.length - (log.messages.filter (policy.keeps now)).length = 0 at hnone
    exact .kept fault (List.filter_eq_self.mpr (List.length_filter_eq_length_iff.mp (by omega)))
  · next hsome =>
    change ¬ log.messages.length - (log.messages.filter (policy.keeps now)).length = 0 at hsome
    have hlt : (log.messages.filter (policy.keeps now)).length < log.messages.length := by omega
    cases fault with
    | none =>
      obtain ⟨rfl, rfl, rfl⟩ := h
      exact .rewritten hlt
    | some fault =>
      cases fault with
      | create | write | sync | rename =>
        obtain ⟨rfl, rfl, rfl⟩ := h
        exact .failed _ _ (by simp) hlt
      | reopen =>
        obtain ⟨rfl, rfl, rfl⟩ := h
        exact .detached _ hlt

end PartitionLog

namespace Partition

variable {p : Partition} {disk : Disk}

/-! ## Publish -/

theorem publish_of_room (hfile : p.log.file = .attached) (m : Message)
    (hroom : p.log.messages.length < usizeMax.toNat) :
    p.publish F none disk m = (.ok m.id,
      ⟨{ p with
          tally := p.tally.recordPost m.body.utf8ByteSize (m.priority == .high) m.broadcast
          log := { p.log with messages := p.log.messages ++ [m] }
          notify := p.notify + 1 },
        disk.insert p.log.path (contentAt disk p.log.path ++ recordOf F m)⟩) := by
  rw [publish, append_of_room hfile m hroom]

theorem room_of_publish (hfile : p.log.file = .attached) {m : Message} {id : Ulid} {w' : World}
    (h : p.publish F none disk m = (.ok id, w')) : p.log.messages.length < usizeMax.toNat := by
  by_contra hroom
  simp only [publish, append, Message.toJsonl, write, hfile, if_neg hroom] at h
  cases h

/-! ## Deliver -/

/-- The cursors after a batch was handed out. -/
def recordBatch (store : CursorStore) (pattern label : String) (batch : List Message) :
    CursorStore :=
  markAll (advanceTo store pattern label batch) label batch

theorem deliver_none (pattern : Pattern) (label : String) (limit : UInt64) :
    p.deliver F none disk pattern label limit = (.ok (p.merged pattern label limit),
      ⟨{ p with
          cursors := recordBatch p.cursors pattern.asStr label (p.merged pattern label limit)
          labels := p.labels.insert pattern.asStr label
          tally := p.tally.recordDeliveries (p.merged pattern label limit).length },
        if (p.merged pattern label limit).isEmpty then disk
        else disk.insert p.cursorFile (utf8 (F.toString ((recordBatch p.cursors pattern.asStr label
          (p.merged pattern label limit)).toValue F)).toList)⟩) := by
  cases h : (p.merged pattern label limit).isEmpty with
  | true => simp only [deliver, recordBatch, h, if_true]
  | false =>
    simp only [deliver, recordBatch, h, persistCursors, CursorStore.toJson, Bool.false_eq_true,
      if_false]

theorem exists_deliver_error (F : Formats) (disk : Disk) (fault : PersistFault) {pattern : Pattern}
    {label : String} {limit : UInt64} (h : p.merged pattern label limit ≠ []) :
    ∃ e w', p.deliver F (some fault) disk pattern label limit = (.error e, w') := by
  have hne : (p.merged pattern label limit).isEmpty = false := by simpa using h
  cases fault with
  | write | rename =>
    simp only [deliver, hne, persistCursors, CursorStore.toJson, Bool.false_eq_true, if_false]
    exact ⟨_, _, rfl⟩

/-- A delivery that fails has selected something, and has recorded it. -/
theorem of_deliver_error {fault : Option PersistFault} {pattern : Pattern} {label : String}
    {limit : UInt64} {e : Failure} {w' : World}
    (h : p.deliver F fault disk pattern label limit = (.error e, w')) :
    p.merged pattern label limit ≠ [] ∧ w'.partition =
      { p with
        cursors := recordBatch p.cursors pattern.asStr label (p.merged pattern label limit) } := by
  cases hnil : (p.merged pattern label limit).isEmpty with
  | true => simp [deliver, hnil] at h
  | false =>
    refine ⟨fun heq => by simp [heq] at hnil, ?_⟩
    simp only [deliver, hnil, Bool.false_eq_true, if_false] at h
    split at h
    · obtain ⟨-, rfl⟩ := Prod.mk.inj h
      rfl
    · cases h

/-- A delivery that succeeds has recorded what it hands out. -/
theorem of_deliver_ok {fault : Option PersistFault} {pattern : Pattern} {label : String}
    {limit : UInt64} {ms : List Message} {w' : World}
    (h : p.deliver F fault disk pattern label limit = (.ok ms, w')) :
    ms = p.merged pattern label limit ∧ w'.partition.log = p.log ∧
      w'.partition.cursors = recordBatch p.cursors pattern.asStr label ms := by
  simp only [deliver] at h
  split at h
  · cases h
  · obtain ⟨hms, rfl⟩ := Prod.mk.inj h
    obtain rfl := Except.ok.inj hms
    exact ⟨rfl, rfl, rfl⟩

theorem call_deliver {w : World} {stateDir : Path} (pattern : Pattern) (label : String)
    (limit : UInt64) : w.call F stateDir noFaults (.deliver pattern label limit) =
      (.ok (.messages (w.partition.merged pattern label limit)),
        (w.partition.deliver F none w.disk pattern label limit).2) := by
  simp only [World.call, noFaults, deliver_none, Except.map]

/-! ## Prune -/

/-- The cursors after a prune that left `oldest` the oldest message. -/
def pruneCursors (store : CursorStore) (oldest : Ulid) : CursorStore :=
  (store.snapForward oldest).1.pruneDelivered oldest

theorem prune_log_none (log : PartitionLog) (policy : RetentionPolicy) (now : Nat) :
    log.prune F none disk policy now =
      if log.messages.length - (log.messages.filter (policy.keeps now)).length = 0 then
        (.ok ⟨0, log.messages.head?.map Message.id⟩, log, disk)
      else
        (.ok ⟨log.messages.length - (log.messages.filter (policy.keeps now)).length,
            (log.messages.filter (policy.keeps now)).head?.map Message.id⟩,
          { log with file := .attached, messages := log.messages.filter (policy.keeps now) },
          disk.insert log.path
            ((log.messages.filter (policy.keeps now)).flatMap (recordOf F))) := by
  simp only [PartitionLog.prune, rewritten_eq]
  rfl

/-- A prune removes nothing, or everything, or leaves an oldest message of more. -/
theorem prune_cases (policy : RetentionPolicy) (now : Nat) (ms : List Message) :
    (∀ m ∈ ms, policy.keeps now m = true) ∨ ms ≠ [] ∧ ms.filter (policy.keeps now) = [] ∨
      ∃ m rest, ms.filter (policy.keeps now) = m :: rest ∧ (m :: rest).length < ms.length := by
  by_cases hall : ∀ m ∈ ms, policy.keeps now m = true
  · exact .inl hall
  · have hlt : (ms.filter (policy.keeps now)).length < ms.length :=
      List.length_filter_lt_length_iff_exists.mpr (by simpa using hall)
    cases hkept : ms.filter (policy.keeps now) with
    | nil => exact .inr (.inl ⟨List.ne_nil_of_length_pos (Nat.zero_lt_of_lt hlt), rfl⟩)
    | cons m rest => exact .inr (.inr ⟨m, rest, rfl, hkept ▸ hlt⟩)

theorem prune_of_kept {policy : RetentionPolicy} {now : Nat}
    (h : ∀ m ∈ p.log.messages, policy.keeps now m = true) :
    p.prune F none disk policy now =
      (.ok 0, ⟨{ p with tally := p.tally.recordPrune 0 0 }, disk⟩) := by
  have hkept : p.log.messages.filter (policy.keeps now) = p.log.messages :=
    List.filter_eq_self.mpr h
  simp only [prune, Option.bind_none, prune_log_none, hkept, Nat.sub_self, if_true]
  rfl

theorem prune_of_none_kept {policy : RetentionPolicy} {now : Nat} (hne : p.log.messages ≠ [])
    (hfile : p.log.file = .attached) (h : p.log.messages.filter (policy.keeps now) = []) :
    p.prune F none disk policy now = (.ok p.log.messages.length,
      ⟨{ p with log := { p.log with messages := [] },
                tally := p.tally.recordPrune p.log.messages.length 0 },
        disk.insert p.log.path []⟩) := by
  have hpos : p.log.messages.length ≠ 0 := fun h => hne (List.length_eq_zero_iff.mp h)
  simp only [prune, Option.bind_none, prune_log_none, h, List.length_nil, Nat.sub_zero,
    if_neg hpos, ← hfile]
  simp

theorem prune_of_survivor {policy : RetentionPolicy} {now : Nat} {m : Message} {ms : List Message}
    (hfile : p.log.file = .attached)
    (h : p.log.messages.filter (policy.keeps now) = m :: ms)
    (hlt : (m :: ms).length < p.log.messages.length) :
    p.prune F none disk policy now = (.ok (p.log.messages.length - (m :: ms).length),
      ⟨{ p with
          log := { p.log with messages := m :: ms }
          cursors := pruneCursors p.cursors m.id
          snapped := recordSnapped p.snapped (p.cursors.snapForward m.id).2
          tally := p.tally.recordPrune (p.log.messages.length - (m :: ms).length)
            (p.cursors.snapForward m.id).2.length },
        (disk.insert p.log.path ((m :: ms).flatMap (recordOf F))).insert p.cursorFile
          (utf8 (F.toString ((pruneCursors p.cursors m.id).toValue F)).toList)⟩) := by
  have hpos : p.log.messages.length - (m :: ms).length ≠ 0 := by omega
  have hpos' : p.log.messages.length - (m :: ms).length > 0 := by omega
  simp only [prune, Option.bind_none, prune_log_none, h, if_neg hpos, if_pos hpos', ← hfile,
    List.head?_cons, Option.map_some, persistCursors, CursorStore.toJson]
  rfl

/-- A prune that meets no fault succeeds, and leaves what retention keeps. -/
theorem exists_prune_none (p : Partition) (disk : Disk) (policy : RetentionPolicy) (now : Nat) :
    ∃ count w, p.prune F none disk policy now = (.ok count, w) ∧
      w.partition.log.messages = p.log.messages.filter (policy.keeps now) ∧
      w.partition.tally.posts = p.tally.posts ∧ w.partition.tally.deliveries =
        p.tally.deliveries := by
  by_cases hall : ∀ m ∈ p.log.messages, policy.keeps now m = true
  · exact ⟨_, _, prune_of_kept hall, (List.filter_eq_self.mpr hall).symm, rfl, rfl⟩
  · have hlt : (p.log.messages.filter (policy.keeps now)).length < p.log.messages.length :=
      List.length_filter_lt_length_iff_exists.mpr (by simpa using hall)
    have hpos :
      p.log.messages.length - (p.log.messages.filter (policy.keeps now)).length > 0 := by omega
    simp only [prune, Option.bind_none, prune_log_none, if_neg (Nat.ne_of_gt hpos), if_pos hpos]
    cases (p.log.messages.filter (policy.keeps now)).head?.map Message.id with
    | none => exact ⟨_, _, rfl, rfl, rfl, rfl⟩
    | some oldest => exact ⟨_, _, rfl, rfl, rfl, rfl⟩

theorem exists_call_prune {w : World} (hfile : w.partition.log.file = .attached) (stateDir : Path)
    (policy : RetentionPolicy) (now : Nat) : ∃ count w',
      w.partition.prune F none w.disk policy now = (.ok count, w') ∧
      w.call F stateDir noFaults (.prune policy now) = (.ok (.removed count), w') := by
  have hcall : ∀ count w', w.partition.prune F none w.disk policy now = (.ok count, w') →
      w.call F stateDir noFaults (.prune policy now) = (.ok (.removed count), w') := by
    intro count w' h
    simp only [World.call, noFaults, h]
    rfl
  rcases prune_cases policy now w.partition.log.messages
      with hall | ⟨hne, hnil⟩ | ⟨m, ms, hkept, hlt⟩
  · exact ⟨_, _, prune_of_kept hall, hcall _ _ (prune_of_kept hall)⟩
  · exact ⟨_, _, prune_of_none_kept hne hfile hnil, hcall _ _ (prune_of_none_kept hne hfile hnil)⟩
  · exact ⟨_, _, prune_of_survivor hfile hkept hlt, hcall _ _ (prune_of_survivor hfile hkept hlt)⟩

end Partition

/-- What a full delivery would hand out. -/
def World.owed (F : Formats) (w : World) (pattern : Pattern) (label : String) :
    Except Failure (List Message) :=
  (w.partition.deliver F none w.disk pattern label usizeMax).1

theorem World.owed_eq (w : World) (pattern : Pattern) (label : String) :
    w.owed F pattern label = .ok (w.partition.merged pattern label usizeMax) := by
  rw [owed, Partition.deliver_none]

end AgentBus
