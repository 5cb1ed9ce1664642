import AgentBus.Daemon.Delivery

/-!
# Every run of a partition is a run of a mailbox

`simulates` carries a run of successful calls over to the mailbox, reopenings
included, together with the fact that the files stay in step with the memory.
-/

namespace AgentBus

open Lib PartitionLog

variable {F : Formats} {stateDir : Path} {name : PartitionName} {allowed : Call → Prop}
  {es : List Event} {w w' : World}

/-- What a successful call is to the mailbox. -/
def Event.mail : Event → Mail Message Pattern String
  | ⟨.publish m, _⟩ => .post m
  | ⟨.deliver pattern label limit, .messages ms⟩ => .handOut pattern label limit.toNat ms
  | ⟨.prune policy now, _⟩ => .expire (policy.keeps now)
  | _ => .idle

theorem posts_mail (e : Event) : e.mail.posts = e.posts := by
  obtain ⟨call, reply⟩ := e
  cases call <;> cases reply <;> rfl

theorem posted_mail (es : List Event) : Mail.posted (es.map Event.mail) = posted es := by
  simp only [Mail.posted, posted, List.flatMap_map, posts_mail]

/-- What was handed out is a selection of the mailbox's deliveries. -/
theorem flatMap_handedWhen (q : Pattern → String → Bool) (es : List Event) :
    es.flatMap (Event.handedWhen q) =
      ((Mail.deliveries (es.map Event.mail)).filter fun d => q d.pattern d.label).map
        (·.message) := by
  simp only [Mail.deliveries, List.flatMap_map, List.filter_flatMap, List.map_flatMap]
  refine List.flatMap_congr fun e _ => ?_
  obtain ⟨call, reply⟩ := e
  cases call with
  | deliver pattern label limit =>
    cases reply <;> cases hq : q pattern label <;>
      simp [Event.mail, Event.handed, Event.handedWhen, hq, List.filter_map, Function.comp_def]
  | publish _ | history _ _ _ | prune _ _ | reopen => cases reply <;> rfl

theorem returned_eq (es : List Event) : returned es =
    (Mail.deliveries (es.map Event.mail)).map (·.message) := by
  simp only [returned, Mail.deliveries, List.flatMap_map, List.map_flatMap]
  refine List.flatMap_congr fun e _ => ?_
  obtain ⟨call, reply⟩ := e
  cases call <;> cases reply <;> simp [Event.mail, Event.handed, Function.comp_def]

/-! ## Single calls -/

theorem Synced.publish (h : Synced F stateDir name w) {m : Message} {id : Ulid}
    (hcall : w.partition.publish F none w.disk m = (.ok id, w')) :
    Synced F stateDir name w' ∧ w'.partition.mailbox = w.partition.mailbox.post m := by
  have hroom := Partition.room_of_publish h.attached hcall
  rw [Partition.publish_of_room h.attached m hroom] at hcall
  obtain ⟨-, rfl⟩ := Prod.mk.inj hcall
  refine ⟨⟨h.sameName, h.path, h.attached,
    h.cursorFile, by simpa using Nat.succ_le_of_lt hroom, ?_, ?_⟩,
    rfl⟩
  · simp only [h.path, contentAt_insert_self, h.records, List.flatMap_append,
      List.flatMap_singleton]
  · have := h.cursors
    simpa [Std.ExtTreeMap.getElem?_insert, h.path, logPath_ne_cursorPath] using this

theorem Synced.deliver (h : Synced F stateDir name w) (pattern : Pattern) (label : String)
    (limit : UInt64) :
    Synced F stateDir name (w.partition.deliver F none w.disk pattern label limit).2 := by
  rw [Partition.deliver_none]
  cases hb : w.partition.merged pattern label limit with
  | nil =>
    refine ⟨h.sameName, h.path, h.attached, h.cursorFile, h.fits, h.records, ?_⟩
    simpa [Partition.recordBatch, Partition.advanceTo, Partition.markAll] using h.cursors
  | cons m ms =>
    refine ⟨h.sameName, h.path, h.attached, h.cursorFile, h.fits, ?_, .inr ?_⟩
    · simp only [List.isEmpty_cons, Bool.false_eq_true, if_false, h.cursorFile]
      rw [contentAt_insert_of_ne _ (logPath_ne_cursorPath _ _).symm, h.records]
    · simp [h.cursorFile]

theorem Synced.prune (h : Synced F stateDir name w) {policy : RetentionPolicy} {now count : Nat}
    (hcall : w.partition.prune F none w.disk policy now = (.ok count, w')) :
    Synced F stateDir name w' ∧
      w'.partition.mailbox = w.partition.mailbox.expire scheme (policy.keeps now) := by
  refine ⟨?_, (Partition.mailbox_of_prune h.attached hcall).1⟩
  rcases Partition.prune_cases policy now w.partition.log.messages with
    hall | ⟨hne, hnil⟩ | ⟨m, ms, hkept, hlt⟩
  · rw [Partition.prune_of_kept hall] at hcall
    obtain ⟨-, rfl⟩ := Prod.mk.inj hcall
    exact ⟨h.sameName, h.path, h.attached, h.cursorFile, h.fits, h.records, h.cursors⟩
  · rw [Partition.prune_of_none_kept hne h.attached hnil] at hcall
    obtain ⟨-, rfl⟩ := Prod.mk.inj hcall
    refine ⟨h.sameName, h.path, h.attached, h.cursorFile, Nat.zero_le _, ?_, ?_⟩
    · simp [h.path, contentAt_insert_self]
    · simpa [Std.ExtTreeMap.getElem?_insert, h.path, logPath_ne_cursorPath] using h.cursors
  · rw [Partition.prune_of_survivor h.attached hkept hlt] at hcall
    obtain ⟨-, rfl⟩ := Prod.mk.inj hcall
    refine ⟨h.sameName, h.path, h.attached, h.cursorFile,
      Nat.le_trans (Nat.le_of_lt hlt) h.fits, ?_, .inr ?_⟩
    · simp only [h.cursorFile, h.path]
      rw [contentAt_insert_of_ne _ (logPath_ne_cursorPath _ _).symm, contentAt_insert_self]
    · simp [h.cursorFile]

theorem Synced.reopen (hF : F.Faithful) (h : Synced F stateDir name w)
    (hs : w.partition.mailbox.Sorted scheme)
    (hcall : World.open F none stateDir name w.disk = .ok w') :
    Synced F stateDir name w' ∧ w'.partition.mailbox = w.partition.mailbox := by
  rw [open_of_synced hF h hs] at hcall
  obtain rfl := Except.ok.inj hcall
  refine ⟨⟨rfl, rfl, rfl, rfl, h.fits, ?_, ?_⟩, rfl⟩
  · simp only [touch, contentAt_insert_self, h.records]
  · simpa [touch, Std.ExtTreeMap.getElem?_insert, logPath_ne_cursorPath] using h.cursors

theorem synced_of_fresh {disk : Disk} (h : Fresh stateDir name disk)
    (hopen : World.open F none stateDir name disk = .ok w) :
    Synced F stateDir name w ∧ w.partition.mailbox = Mailbox.empty := by
  obtain ⟨hlog, hcursor⟩ := h
  have hcursor' : (touch disk (logPath stateDir name))[cursorPath stateDir name]? = none := by
    simp [touch, Std.ExtTreeMap.getElem?_insert, logPath_ne_cursorPath, hcursor]
  have hempty : contentAt disk (logPath stateDir name) = [] := by simp [contentAt, hlog]
  simp only [World.open, Partition.open, Option.bind_none, PartitionLog.open, hempty, readLines,
    readLinesFrom, List.isEmpty_nil, if_true, loadLines, Partition.readCursors, hcursor'] at hopen
  obtain rfl := Except.ok.inj hopen
  refine ⟨⟨rfl, rfl, rfl, rfl, Nat.zero_le _, ?_, .inl ⟨hcursor', rfl⟩⟩, ?_⟩
  · simp [touch, contentAt_insert_self, hempty, sortById]
  · rfl

/-! ## Runs -/

/-- A successful call is a step of the mailbox. -/
theorem simulates_step (hF : F.Faithful) (hsync : Synced F stateDir name w)
    (hs : w.partition.mailbox.Sorted scheme) {e : Event}
    (hpost : ∀ m ∈ e.posts, ∀ m' ∈ posted es, m'.id < m.id)
    (hcall : w.call F stateDir noFaults e.call = (.ok e.reply, w')) :
    Synced F stateDir name w' ∧
      w.partition.mailbox.Enabled scheme (es.map Event.mail) e.mail ∧
      w'.partition.mailbox = w.partition.mailbox.apply scheme e.mail := by
  obtain ⟨call, reply⟩ := e
  cases call with
  | publish m =>
    obtain ⟨id, hpub, -⟩ := publish_of_call hcall
    obtain ⟨hsync', hmail⟩ := hsync.publish hpub
    refine ⟨hsync', ?_, hmail⟩
    intro m' hm'
    rw [posted_mail] at hm'
    exact hpost m (List.mem_singleton_self m) m' hm'
  | deliver pattern label limit =>
    obtain ⟨ms, hdel, rfl⟩ := deliver_of_call hcall
    have hsync' := hsync.deliver pattern label limit
    rw [show noFaults.persist = none from rfl] at hdel
    rw [hdel] at hsync'
    rw [Partition.deliver_none] at hdel
    obtain ⟨hms, rfl⟩ := Prod.mk.inj hdel
    obtain rfl := Except.ok.inj hms
    refine ⟨hsync', Partition.merged_eq hs pattern label limit, ?_⟩
    refine Partition.mailbox_recordBatch ?_ pattern label
    rw [Partition.merged_eq hs]
    exact ((hs.unread pattern label).sublist (List.take_sublist ..)).imp fun hlt => le_of_lt hlt
  | history pattern sinceSecs now =>
    cases hcall
    exact ⟨hsync, trivial, rfl⟩
  | prune policy now =>
    obtain ⟨count, hprune, -⟩ := prune_of_call hcall
    obtain ⟨hsync', hmail⟩ := hsync.prune hprune
    exact ⟨hsync', trivial, hmail⟩
  | reopen =>
    obtain ⟨hopen, -⟩ := open_of_call hcall
    rw [hsync.sameName] at hopen
    obtain ⟨hsync', hmail⟩ := hsync.reopen hF hs hopen
    exact ⟨hsync', trivial, hmail⟩

/-- **Simulation.** A run keeps the files in step and is a run of the mailbox. -/
theorem simulates (hF : F.Faithful) (h : Exec (runs F stateDir name allowed) es w) :
    Synced F stateDir name w ∧
      Exec (Mailbox.system scheme) (es.map Event.mail) w.partition.mailbox := by
  refine h.invariant (I := fun es w => Synced F stateDir name w ∧
    Exec (Mailbox.system scheme) (es.map Event.mail) w.partition.mailbox) (fun w hw => ?_)
    fun es w e w' _ ih hstep => ?_
  · obtain ⟨disk, hfresh, hopen⟩ := hw
    obtain ⟨hsync, hempty⟩ := synced_of_fresh hfresh hopen
    exact ⟨hsync, hempty ▸ .init rfl⟩
  · obtain ⟨-, hpost, hcall⟩ := hstep
    have hs := (Mailbox.wellPosted_of_exec ih.2).sorted
    obtain ⟨hsync, hmain⟩ := simulates_step hF ih.1 hs hpost hcall
    rw [List.map_append]
    exact ⟨hsync, ih.2.step hmain⟩

/-- A condition on the steps of a run carries over to the mailbox. -/
theorem simulates_restrict (hF : F.Faithful) {cond : World → Event → Prop}
    {ok : Mailbox Message Ulid Pattern String → Mail Message Pattern String → Prop}
    (hok : ∀ w e, w.partition.mailbox.Sorted scheme → allowed e.call → cond w e →
      ok w.partition.mailbox e.mail)
    (h : Exec ((runs F stateDir name allowed).restrict cond) es w) :
    Exec ((Mailbox.system scheme).restrict ok) (es.map Event.mail) w.partition.mailbox := by
  refine h.invariant (I := fun es w => Exec ((Mailbox.system scheme).restrict ok)
    (es.map Event.mail) w.partition.mailbox) (fun w hw => ?_) fun es w e w' hx ih hstep => ?_
  · obtain ⟨disk, hfresh, hopen⟩ := hw
    obtain ⟨-, hempty⟩ := synced_of_fresh hfresh hopen
    exact hempty ▸ .init rfl
  · obtain ⟨hcond, hallowed, hpost, hcall⟩ := hstep
    have hs := (Mailbox.wellPosted_of_exec ih.of_restrict).sorted
    obtain ⟨-, hmain⟩ := simulates_step hF (simulates hF hx.of_restrict).1 hs hpost hcall
    rw [List.map_append]
    exact ih.step ⟨hok w e hs hallowed hcond, hmain⟩

end AgentBus
