import AgentBus.Daemon.Replay
import AgentBus.Daemon.Simulation
import AgentBus.Daemon.Stored
import AgentBus.Guarantees.Isolation

/-!
# Consumers do not interfere

Consumers that share neither a pattern string nor a label do not notice each
other: taking all deliveries of the others out of a history of calls on a
partition changes no other reply, whether to a delivery of these consumers or to
a post, a replay, a sweep or a reopening.
-/

namespace AgentBus

open Lib PartitionLog

/-- Some consumers: their pattern strings and their labels. -/
structure Group where
  patterns : String → Bool
  labels : String → Bool

namespace Call

/-- A delivery to somebody else. -/
def isTheirs (g : Group) : Call → Bool
  | .deliver _ label _ => !g.labels label
  | _ => false

/-- The group shares no pattern string and no label with the others. -/
def Apart (g : Group) : Call → Prop
  | .deliver pattern label _ => g.patterns pattern.asStr = g.labels label
  | _ => True

end Call

/-- What the group can tell of a world. -/
structure View (g : Group) where
  log : PartitionLog
  file : Bytes
  claimed : {pattern : String // g.patterns pattern = true} → Option Ulid
  heard : {label : String // g.labels label = true} → Option Ulid
  seen : {label : String // g.labels label = true} → Ulid → Bool

def World.view (g : Group) (w : World) : View g where
  log := w.partition.log
  file := contentAt w.disk w.partition.log.path
  claimed pattern := w.partition.cursors.exclusivePosition pattern
  heard label := w.partition.cursors.broadcastPosition label
  seen label := w.partition.cursors.isDelivered label

/-- The group can tell no difference. -/
structure Alike (g : Group) (w w' : World) : Prop where
  log : w.partition.log = w'.partition.log
  file : contentAt w.disk w.partition.log.path = contentAt w'.disk w'.partition.log.path
  claimed : ∀ pattern, g.patterns pattern = true →
    w.partition.cursors.exclusivePosition pattern = w'.partition.cursors.exclusivePosition pattern
  heard : ∀ label, g.labels label = true →
    w.partition.cursors.broadcastPosition label = w'.partition.cursors.broadcastPosition label
  seen : ∀ label, g.labels label = true →
    w.partition.cursors.isDelivered label = w'.partition.cursors.isDelivered label

/-- A partition on its own files, with its cursors stored. -/
structure Tidy (F : Formats) (stateDir : Path) (name : PartitionName) (w : World) : Prop where
  sameName : w.partition.name = name
  path : w.partition.log.path = logPath stateDir name
  attached : w.partition.log.file = .attached
  cursorFile : w.partition.cursorFile = cursorPath stateDir name
  stored : Stored F w.disk (cursorPath stateDir name) w.partition.cursors

variable {F : Formats} {stateDir : Path} {name : PartitionName} {g : Group} {w w' : World}

theorem view_eq_iff : w.view g = w'.view g ↔ Alike g w w' := by
  constructor
  · intro h
    refine ⟨congrArg View.log h, congrArg View.file h, fun pattern hp => ?_, fun label hl => ?_,
      fun label hl => ?_⟩
    · exact congrFun (congrArg View.claimed h) ⟨pattern, hp⟩
    · exact congrFun (congrArg View.heard h) ⟨label, hl⟩
    · exact congrFun (congrArg View.seen h) ⟨label, hl⟩
  · intro h
    have hclaimed : (w.view g).claimed = (w'.view g).claimed := funext fun pattern =>
      h.claimed pattern pattern.2
    have hheard : (w.view g).heard = (w'.view g).heard := funext fun label => h.heard label label.2
    have hseen : (w.view g).seen = (w'.view g).seen := funext fun label => h.seen label label.2
    calc
      w.view g = ⟨(w.view g).log, (w.view g).file, (w.view g).claimed, (w.view g).heard,
        (w.view g).seen⟩ := rfl
      _ = w'.view g := by
        rw [hclaimed, hheard, hseen, show (w.view g).log = (w'.view g).log from h.log,
          show (w.view g).file = (w'.view g).file from h.file]

/-! ## One call -/

theorem Tidy.files_ne (h : Tidy F stateDir name w) :
    w.partition.cursorFile ≠ w.partition.log.path := by
  rw [h.path, h.cursorFile]
  exact (logPath_ne_cursorPath stateDir name).symm

theorem publish_none {p : Partition} {disk : Disk} (hfile : p.log.file = .attached) (m : Message) :
    p.publish F none disk m = if p.log.messages.length < usizeMax.toNat then
      (.ok m.id, ⟨{ p with
        tally := p.tally.recordPost m.body.utf8ByteSize (m.priority == .high) m.broadcast
        log := { p.log with messages := p.log.messages ++ [m] }
        notify := p.notify + 1 }, disk.insert p.log.path
          (contentAt disk p.log.path ++ recordOf F m)⟩)
    else (.error .capacityOverflow, ⟨{ p with
        tally := p.tally.recordPost m.body.utf8ByteSize (m.priority == .high) m.broadcast },
      disk.insert p.log.path (contentAt disk p.log.path ++ recordOf F m)⟩) := by
  split
  · next hroom => exact Partition.publish_of_room hfile m hroom
  · next hfull =>
    simp only [Partition.publish, append, Message.toJsonl, write, hfile, if_neg hfull]
    rfl

theorem Tidy.publish (h : Tidy F stateDir name w) (m : Message) :
    Tidy F stateDir name (w.call F stateDir noFaults (.publish m)).2 := by
  have hstored : ∀ bytes, Stored F (w.disk.insert w.partition.log.path bytes)
      (cursorPath stateDir name)
      w.partition.cursors := fun bytes => h.stored.congr (by
    rw [h.path]
    simp [Std.ExtTreeMap.getElem?_insert, logPath_ne_cursorPath])
  simp only [World.call, noFaults, publish_none h.attached]
  split <;> exact ⟨h.sameName, h.path, h.attached, h.cursorFile, hstored _⟩

theorem Alike.publish (hw : Tidy F stateDir name w) (hw' : Tidy F stateDir name w')
    (h : Alike g w w') (m : Message) :
    (w.call F stateDir noFaults (.publish m)).1 = (w'.call F stateDir noFaults (.publish m)).1 ∧
      Alike g (w.call F stateDir noFaults (.publish m)).2
        (w'.call F stateDir noFaults (.publish m)).2 := by
  have hfile := h.file
  rw [h.log] at hfile
  simp only [World.call, noFaults, publish_none hw.attached,
    publish_none hw'.attached, h.log, hfile]
  split
  · refine ⟨rfl, rfl, ?_, h.claimed, h.heard, h.seen⟩
    simp only [contentAt_insert_self]
  · refine ⟨rfl, rfl, ?_, h.claimed, h.heard, h.seen⟩
    simp only [contentAt_insert_self]

theorem merged_congr {p p' : Partition} (hlog : p.log = p'.log) {pattern : Pattern} {label : String}
    (hclaimed : p.cursors.exclusivePosition pattern.asStr =
      p'.cursors.exclusivePosition pattern.asStr)
    (hheard : p.cursors.broadcastPosition label = p'.cursors.broadcastPosition label)
    (hseen : p.cursors.isDelivered label = p'.cursors.isDelivered label) (limit : UInt64) :
    p.merged pattern label limit = p'.merged pattern label limit := by
  simp only [Partition.merged, Partition.stream, hlog, hclaimed, hheard, hseen]

theorem Tidy.deliver (h : Tidy F stateDir name w) (pattern : Pattern) (label : String)
    (limit : UInt64) :
    Tidy F stateDir name (w.call F stateDir noFaults (.deliver pattern label limit)).2 := by
  rw [Partition.call_deliver, Partition.deliver_none]
  refine ⟨h.sameName, h.path, h.attached, h.cursorFile, ?_⟩
  cases hbatch : w.partition.merged pattern label limit with
  | nil => exact h.stored
  | cons m ms =>
    simp only [List.isEmpty_cons, Bool.false_eq_true, if_false, h.cursorFile]
    exact stored_insert ..

theorem cursors_recordBatch (store : CursorStore) (pattern label : String) (batch : List Message) :
    (∀ pattern', pattern ≠ pattern' →
      (Partition.recordBatch store pattern label batch).exclusivePosition pattern' =
        store.exclusivePosition pattern') ∧
      ∀ label', label ≠ label' →
        (Partition.recordBatch store pattern label batch).broadcastPosition label' =
          store.broadcastPosition label' ∧
        (Partition.recordBatch store pattern label batch).isDelivered label' =
          store.isDelivered label' := by
  obtain ⟨hx, hb, hd⟩ := Partition.markAll_spec
    (Partition.advanceTo store pattern label batch) label batch
  obtain ⟨hx', hb', hd'⟩ := Partition.advanceTo_spec store pattern label batch
  refine ⟨fun pattern' hne => ?_, fun label' hne => ⟨?_, funext fun id => ?_⟩⟩
  · rw [Partition.recordBatch, hx, hx', if_neg hne]
  · rw [Partition.recordBatch, hb, hb', if_neg hne]
  · rw [Partition.recordBatch, hd, hd', decide_eq_false hne, Bool.false_and, Bool.or_false]

/-- What it does to what its reader can tell depends on nothing else. -/
theorem cursors_recordBatch_congr {store store' : CursorStore} {pattern label : String}
    (batch : List Message)
    (hclaimed : store.exclusivePosition pattern = store'.exclusivePosition pattern)
    (hheard : store.broadcastPosition label = store'.broadcastPosition label)
    (hseen : store.isDelivered label = store'.isDelivered label) :
    (Partition.recordBatch store pattern label batch).exclusivePosition pattern =
        (Partition.recordBatch store' pattern label batch).exclusivePosition pattern ∧
      (Partition.recordBatch store pattern label batch).broadcastPosition label =
        (Partition.recordBatch store' pattern label batch).broadcastPosition label ∧
      (Partition.recordBatch store pattern label batch).isDelivered label =
        (Partition.recordBatch store' pattern label batch).isDelivered label := by
  have hspec := fun s => Partition.markAll_spec
    (Partition.advanceTo s pattern label batch) label batch
  have hspec' := fun s => Partition.advanceTo_spec s pattern label batch
  refine ⟨?_, ?_, funext fun id => ?_⟩
  · rw [Partition.recordBatch, Partition.recordBatch, (hspec _).1, (hspec _).1,
      (hspec' _).1, (hspec' _).1, if_pos rfl, if_pos rfl, hclaimed]
  · rw [Partition.recordBatch, Partition.recordBatch, (hspec _).2.1, (hspec _).2.1, (hspec' _).2.1,
      (hspec' _).2.1, if_pos rfl, if_pos rfl, hheard]
  · rw [Partition.recordBatch, Partition.recordBatch, (hspec _).2.2, (hspec _).2.2, (hspec' _).2.2,
      (hspec' _).2.2, hseen]

theorem Alike.deliver (h : Alike g w w') {pattern : Pattern} {label : String}
    (hpattern : g.patterns pattern.asStr = true) (hlabel : g.labels label = true) (limit : UInt64)
    (hw : Tidy F stateDir name w) (hw' : Tidy F stateDir name w') :
    (w.call F stateDir noFaults (.deliver pattern label limit)).1 =
        (w'.call F stateDir noFaults (.deliver pattern label limit)).1 ∧
      Alike g (w.call F stateDir noFaults (.deliver pattern label limit)).2
        (w'.call F stateDir noFaults (.deliver pattern label limit)).2 := by
  have hmerged := merged_congr h.log (h.claimed _ hpattern) (h.heard _ hlabel)
    (h.seen _ hlabel) limit
  have hcontent : ∀ v : World, Tidy F stateDir name v →
      contentAt (v.partition.deliver F none v.disk pattern label limit).2.disk
        v.partition.log.path = contentAt v.disk v.partition.log.path := by
    intro v hv
    rw [Partition.deliver_none]
    cases (v.partition.merged pattern label limit).isEmpty with
    | true => rfl
    | false => exact contentAt_insert_of_ne _ hv.files_ne _
  have hfile := h.file
  rw [← hcontent w hw, ← hcontent w' hw'] at hfile
  rw [Partition.call_deliver, Partition.call_deliver, hmerged]
  refine ⟨rfl, ?_⟩
  rw [Partition.deliver_none, Partition.deliver_none] at hfile ⊢
  rw [hmerged] at hfile ⊢
  obtain ⟨hx, hb⟩ := cursors_recordBatch w.partition.cursors pattern.asStr label
    (w'.partition.merged pattern label limit)
  obtain ⟨hx', hb'⟩ := cursors_recordBatch w'.partition.cursors pattern.asStr label
    (w'.partition.merged pattern label limit)
  obtain ⟨hown, hown', hown''⟩ := cursors_recordBatch_congr
    (w'.partition.merged pattern label limit)
    (h.claimed _ hpattern) (h.heard _ hlabel) (h.seen _ hlabel)
  refine ⟨h.log, hfile, fun pattern' hp => ?_, fun label' hl => ?_, fun label' hl => ?_⟩
  · by_cases heq : pattern.asStr = pattern'
    · exact heq ▸ hown
    · exact (hx _ heq).trans ((h.claimed _ hp).trans (hx' _ heq).symm)
  · by_cases heq : label = label'
    · exact heq ▸ hown'
    · exact (hb _ heq).1.trans ((h.heard _ hl).trans (hb' _ heq).1.symm)
  · by_cases heq : label = label'
    · exact heq ▸ hown''
    · exact (hb _ heq).2.trans ((h.seen _ hl).trans (hb' _ heq).2.symm)

theorem alike_deliver {pattern : Pattern} {label : String}
    (hpattern : g.patterns pattern.asStr = false) (hlabel : g.labels label = false) (limit : UInt64)
    (hw : Tidy F stateDir name w) :
    Alike g (w.call F stateDir noFaults (.deliver pattern label limit)).2 w := by
  rw [Partition.call_deliver, Partition.deliver_none]
  obtain ⟨hx, hb⟩ := cursors_recordBatch w.partition.cursors pattern.asStr label
    (w.partition.merged pattern label limit)
  have hp : ∀ pattern', g.patterns pattern' = true → pattern.asStr ≠ pattern' := by
    rintro _ hp rfl
    rw [hpattern] at hp
    cases hp
  have hl : ∀ label', g.labels label' = true → label ≠ label' := by
    rintro _ hl rfl
    rw [hlabel] at hl
    cases hl
  refine ⟨rfl, ?_, fun pattern' hpattern' => hx _ (hp _ hpattern'),
    fun label' hlabel' => (hb _ (hl _ hlabel')).1,
    fun label' hlabel' => (hb _ (hl _ hlabel')).2⟩
  cases (w.partition.merged pattern label limit).isEmpty with
  | true => rfl
  | false => exact contentAt_insert_of_ne _ hw.files_ne _

theorem Tidy.prune (h : Tidy F stateDir name w) (policy : RetentionPolicy) (now : Nat) :
    Tidy F stateDir name (w.call F stateDir noFaults (.prune policy now)).2 := by
  have hcursor : ∀ bytes, (w.disk.insert w.partition.log.path bytes)[cursorPath stateDir name]? =
      w.disk[cursorPath stateDir name]? := fun bytes => by
    rw [h.path]
    simp [Std.ExtTreeMap.getElem?_insert, logPath_ne_cursorPath]
  simp only [World.call, noFaults]
  rcases Partition.prune_cases policy now w.partition.log.messages
      with hall | ⟨hne, hnil⟩ | ⟨m, ms, hkept, hlt⟩
  · rw [Partition.prune_of_kept hall]
    exact ⟨h.sameName, h.path, h.attached, h.cursorFile, h.stored⟩
  · rw [Partition.prune_of_none_kept hne h.attached hnil]
    exact ⟨h.sameName, h.path, h.attached, h.cursorFile, h.stored.congr (hcursor _)⟩
  · rw [Partition.prune_of_survivor h.attached hkept hlt]
    refine ⟨h.sameName, h.path, h.attached, h.cursorFile, ?_⟩
    simp only [h.cursorFile]
    exact stored_insert ..

theorem Alike.prune (h : Alike g w w') (policy : RetentionPolicy) (now : Nat)
    (hw : Tidy F stateDir name w) (hw' : Tidy F stateDir name w') :
    (w.call F stateDir noFaults (.prune policy now)).1 =
      (w'.call F stateDir noFaults (.prune policy now)).1 ∧
      Alike g (w.call F stateDir noFaults (.prune policy now)).2
        (w'.call F stateDir noFaults (.prune policy now)).2 := by
  have hfile := h.file
  have hcontent : ∀ v : World, Tidy F stateDir name v → ∀ bytes bytes',
      contentAt ((v.disk.insert v.partition.log.path bytes).insert v.partition.cursorFile bytes')
        v.partition.log.path = bytes := fun v hv bytes bytes' => by
    rw [contentAt_insert_of_ne _ hv.files_ne, contentAt_insert_self]
  have hmessages := congrArg PartitionLog.messages h.log
  simp only [World.call, noFaults]
  rcases Partition.prune_cases policy now w'.partition.log.messages
      with hall | ⟨hne, hnil⟩ | ⟨m, ms, hkept, hlt⟩
  · rw [Partition.prune_of_kept hall, Partition.prune_of_kept (hmessages ▸ hall)]
    exact ⟨rfl, h.log, hfile, h.claimed, h.heard, h.seen⟩
  · rw [Partition.prune_of_none_kept hne hw'.attached hnil,
      Partition.prune_of_none_kept (hmessages ▸ hne) hw.attached (hmessages ▸ hnil), hmessages]
    refine ⟨rfl, ?_, ?_, h.claimed, h.heard, h.seen⟩
    · simp only [h.log]
    · simp only [contentAt_insert_self]
  · rw [Partition.prune_of_survivor hw'.attached hkept hlt,
      Partition.prune_of_survivor hw.attached (hmessages ▸ hkept) (hmessages ▸ hlt), hmessages]
    refine ⟨rfl, ?_, ?_, fun pattern hp => ?_, fun label hl => ?_,
      fun label hl => funext fun id => ?_⟩
    · simp only [h.log]
    · simp only [hcontent w hw, hcontent w' hw']
    · simp [Partition.pruneCursors, h.claimed pattern hp]
    · simp [Partition.pruneCursors, h.heard label hl]
    · simp [Partition.pruneCursors, h.seen label hl]

theorem call_reopen (hF : F.Faithful) (h : Tidy F stateDir name w) :
    w.call F stateDir noFaults .reopen =
      match loadLines F (readLines (contentAt w.disk (logPath stateDir name))) with
      | none => (.error (.error ("reading " ++ logPath stateDir name)), w)
      | some (messages, skipped) => (.ok .opened,
          ⟨⟨name, ⟨logPath stateDir name, .attached, sortById messages, skipped⟩,
            w.partition.cursors, cursorPath stateDir name, [], ∅, .new, 0⟩,
            touch w.disk (logPath stateDir name)⟩) := by
  have hcursors : Stored F (touch w.disk (logPath stateDir name)) (cursorPath stateDir name)
      w.partition.cursors := h.stored.congr (by
    simp [touch, Std.ExtTreeMap.getElem?_insert, logPath_ne_cursorPath])
  simp only [World.call, World.open, Partition.open, noFaults, PartitionLog.open,
    Option.bind_none, h.sameName]
  cases loadLines F (readLines (contentAt w.disk (logPath stateDir name))) with
  | none => rfl
  | some r => simp only [readCursors_of_synced hF hcursors]

theorem Tidy.reopen (hF : F.Faithful) (h : Tidy F stateDir name w) :
    Tidy F stateDir name (w.call F stateDir noFaults .reopen).2 := by
  rw [call_reopen hF h]
  cases loadLines F (readLines (contentAt w.disk (logPath stateDir name))) with
  | none => exact h
  | some r =>
    refine ⟨rfl, rfl, rfl, rfl, h.stored.congr ?_⟩
    simp [touch, Std.ExtTreeMap.getElem?_insert, logPath_ne_cursorPath]

theorem Alike.reopen (hF : F.Faithful) (h : Alike g w w') (hw : Tidy F stateDir name w)
    (hw' : Tidy F stateDir name w') :
    (w.call F stateDir noFaults .reopen).1 = (w'.call F stateDir noFaults .reopen).1 ∧
      Alike g (w.call F stateDir noFaults .reopen).2 (w'.call F stateDir noFaults .reopen).2 := by
  have hfile : contentAt w.disk (logPath stateDir name) =
      contentAt w'.disk (logPath stateDir name) := by
    simpa only [hw.path, hw'.path] using h.file
  rw [call_reopen hF hw, call_reopen hF hw', hfile]
  cases loadLines F (readLines (contentAt w'.disk (logPath stateDir name))) with
  | none => exact ⟨rfl, h⟩
  | some r =>
    refine ⟨rfl, rfl, ?_, h.claimed, h.heard, h.seen⟩
    simp only [touch, contentAt_insert_self, hfile]

/-! ## All calls -/

/-- A call that sets the group apart, without faults. -/
def World.answer (F : Formats) (stateDir : Path) (c : {c : Call // c.Apart g}) (w : World) :
    Except Failure Reply × World :=
  w.call F stateDir noFaults c

/-- What the group can tell decides every answer that is not a delivery to others. -/
theorem Alike.answer (hF : F.Faithful) {c : {c : Call // c.Apart g}} (hc : c.1.isTheirs g = false)
    (h : Alike g w w') (hw : Tidy F stateDir name w) (hw' : Tidy F stateDir name w') :
    (World.answer F stateDir c w).1 = (World.answer F stateDir c w').1 ∧
      Alike g (World.answer F stateDir c w).2 (World.answer F stateDir c w').2 := by
  obtain ⟨c, hapart⟩ := c
  cases c with
  | publish m => exact h.publish hw hw' m
  | deliver pattern label limit =>
    have hlabel : g.labels label = true := by simpa [Call.isTheirs] using hc
    exact h.deliver (hapart.trans hlabel) hlabel limit hw hw'
  | history pattern sinceSecs now =>
    refine ⟨?_, h⟩
    simp only [World.answer, World.call, Partition.history, h.log]
  | prune policy now => exact h.prune policy now hw hw'
  | reopen => exact h.reopen hF hw hw'

theorem Tidy.answer (hF : F.Faithful) (h : Tidy F stateDir name w) (c : {c : Call // c.Apart g}) :
    Tidy F stateDir name (World.answer F stateDir c w).2 := by
  obtain ⟨c, -⟩ := c
  cases c with
  | publish m => exact h.publish m
  | deliver pattern label limit => exact h.deliver pattern label limit
  | history pattern sinceSecs now => exact h
  | prune policy now => exact h.prune policy now
  | reopen => exact h.reopen hF

theorem isolated_answer (hF : F.Faithful) (g : Group) :
    Isolated (fun w (_ : Unit) => World.view g w) (Tidy F stateDir name) Set.univ
      (World.answer (g := g) F stateDir) (fun c => c.1.isTheirs g) fun c => !c.1.isTheirs g where
  keeps c _ h := h.answer hF c
  unseen _ h := by rw [h, Bool.not_true]
  frame c hc w hw _ _ := by
    obtain ⟨c, hapart⟩ := c
    cases c with
    | deliver pattern label limit =>
      have hlabel : g.labels label = false := by simpa [Call.isTheirs] using hc
      exact view_eq_iff.mpr (alike_deliver (hapart.trans hlabel) hlabel limit hw)
    | publish _ | history _ _ _ | prune _ _ | reopen => cases hc
  agree c hc w w' hw hw' h _ _ :=
    view_eq_iff.mpr ((view_eq_iff.mp (h () trivial)).answer hF hc hw hw').2
  result c hc w w' hw hw' h :=
    ((view_eq_iff.mp (h () trivial)).answer hF (by simpa using hc) hw hw').1

/-- **Deliveries to others tell the group nothing**: they change no other answer and nothing of what
the group can tell afterwards. -/
theorem consumers_isolated (hF : F.Faithful) {disk : Disk} (hfresh : Fresh stateDir name disk)
    (hopen : World.open F none stateDir name disk = .ok w) (g : Group)
    (calls : List {c : Call // c.Apart g}) :
    (runAll (World.answer F stateDir) calls w).1.filter (fun r => !r.1.1.isTheirs g) =
        (runAll (World.answer F stateDir) (calls.filter fun c => !c.1.isTheirs g) w).1 ∧
      (runAll (World.answer F stateDir) calls w).2.view g =
        (runAll (World.answer F stateDir) (calls.filter fun c => !c.1.isTheirs g) w).2.view g := by
  obtain ⟨hsync, -⟩ := synced_of_fresh hfresh hopen
  have htidy : Tidy F stateDir name w :=
    ⟨hsync.sameName, hsync.path, hsync.attached, hsync.cursorFile, hsync.cursors.symm.symm⟩
  obtain ⟨hanswers, hview⟩ := (isolated_answer hF g).run_purge calls htidy htidy fun _ _ => rfl
  refine ⟨hanswers.trans (List.filter_eq_self.mpr fun r hr => ?_), hview () trivial⟩
  have hin : r.1 ∈ calls.filter fun c => !c.1.isTheirs g := by
    have hinputs := runAll_inputs (World.answer (g := g) F stateDir)
      (calls.filter fun c => !c.1.isTheirs g) w
    exact hinputs ▸ List.mem_map_of_mem hr
  exact (List.mem_filter.mp hin).2

/-- Alice, under the one pattern of a device. -/
def aliceOnly : Group :=
  ⟨fun pattern => pattern == "iot_base/dev_01", fun label => label == "alice"⟩

/-- A post, and a delivery each to Bob and to Alice. -/
def aliceAndBob : List {c : Call // c.Apart aliceOnly} :=
  [⟨.publish (sampleMessage 1 devTopic), trivial⟩,
    ⟨.deliver anyPattern "bob" 1, show _ = _ by decide⟩,
    ⟨.deliver devPattern "alice" 1, show _ = _ by decide⟩]

theorem consumers_isolated_alice : ∃ w, World.open .reference none "/state" sampleName ∅ = .ok w ∧
    (runAll (World.answer .reference "/state") aliceAndBob w).1.filter
      (fun r => !r.1.1.isTheirs aliceOnly) =
        (runAll (World.answer .reference "/state")
          (aliceAndBob.filter fun c => !c.1.isTheirs aliceOnly) w).1 := by
  have hcontent : contentAt ∅ (logPath "/state" sampleName) =
      List.flatMap (recordOf .reference) [] := by
    simp [contentAt]
  have hopen : World.open .reference none "/state" sampleName ∅ =
      .ok ⟨.loaded "/state" sampleName [], touch ∅ (logPath "/state" sampleName)⟩ := by
    rw [World.open, open_of_records Formats.reference_faithful hcontent (by simp) .nil]
  have hfresh : Fresh "/state" sampleName ∅ := by simp [Fresh]
  exact ⟨_, hopen,
    (consumers_isolated Formats.reference_faithful hfresh hopen aliceOnly aliceAndBob).1⟩

end AgentBus
