import AgentBus.Daemon.Stored
import AgentBus.Daemon.Succession
import AgentBus.Lib.MailMemory

/-!
# What is handed out, whatever fails

The records of a partition are twice there: in the memory of the daemon that
has it open and in its cursor file, and either may fall behind. `Custody` says
that both remember every delivery made so far, by whatever process, of the
messages that are left in memory or on the disk. From this, nothing is handed out
twice, nothing is handed out of order, and nothing but what was posted.
-/

namespace AgentBus

open Lib PartitionLog

variable {F : Formats} {stateDir : Path} {name : PartitionName} {p : Partition} {disk disk' : Disk}

/-! ## The invariant of one partition -/

/-- The records of a store, as a mailbox without messages. -/
def CursorStore.records (c : CursorStore) : Mailbox Message Ulid Pattern String where
  log := []
  claimed pattern := c.exclusivePosition pattern.asStr
  heard := c.broadcastPosition
  seen := c.isDelivered

/-- A message that is in memory or in the file of the log. -/
def Held (F : Formats) (stateDir : Path) (name : PartitionName) (o : Option Partition) (disk : Disk)
    (m : Message) : Prop :=
  (∃ p, o = some p ∧ m ∈ p.log.messages) ∨ m ∈ loadable F (contentAt disk (logPath stateDir name))

/-- The ids of these messages. -/
def HeldId (F : Formats) (stateDir : Path) (name : PartitionName)
    (o : Option Partition) (disk : Disk) (id : Ulid) : Prop :=
  ∃ m, Held F stateDir name o disk m ∧ m.id = id

/-- What holds of the messages: all of them were posted to the partition. -/
structure Shelf (F : Formats) (stateDir : Path) (name : PartitionName) (posted : List Message)
    (o : Option Partition) (disk : Disk) : Prop where
  scraps : Scraps F (contentAt disk (logPath stateDir name))
  distinct : ((loadable F (contentAt disk (logPath stateDir name))).map Message.id).Nodup
  placed : ∀ p, o = some p → p.log.path = logPath stateDir name ∧
    p.cursorFile = cursorPath stateDir name
  increasing : ∀ p, o = some p → p.log.messages.Pairwise fun a b => a.id < b.id
  posted : ∀ m, Held F stateDir name o disk m → m ∈ posted ∧ m.topic.partition = name.asStr

/-- **Both records know of every delivery.** -/
structure Custody (F : Formats) (stateDir : Path) (name : PartitionName) (posted : List Message)
    (ds : List Handing) (o : Option Partition) (disk : Disk) : Prop
    extends Shelf F stateDir name posted o disk where
  stored : ∃ c, Stored F disk (cursorPath stateDir name) c ∧
    c.records.Remembers scheme (HeldId F stateDir name o disk) ds
  inMemory : ∀ p, o = some p → p.cursors.records.Remembers scheme (HeldId F stateDir name o disk) ds

variable {posted : List Message} {ds : List Handing} {o : Option Partition}

theorem Held.of_sub {o' : Option Partition} {m : Message}
    (hmemory : ∀ p', o' = some p' → ∀ m ∈ p'.log.messages, Held F stateDir name o disk m)
    (hfile : ∀ m ∈ loadable F (contentAt disk' (logPath stateDir name)),
      Held F stateDir name o disk m)
    (h : Held F stateDir name o' disk' m) : Held F stateDir name o disk m := by
  rcases h with ⟨p', hp', hm⟩ | hm
  · exact hmemory p' hp' m hm
  · exact hfile m hm

theorem Custody.congr (h : Custody F stateDir name posted ds o disk)
    (hlog : disk'[logPath stateDir name]? = disk[logPath stateDir name]?)
    (hcursor : disk'[cursorPath stateDir name]? = disk[cursorPath stateDir name]?) :
    Custody F stateDir name posted ds o disk' := by
  have hcontent : contentAt disk' (logPath stateDir name) =
      contentAt disk (logPath stateDir name) := by
    rw [contentAt, contentAt, hlog]
  have hheld : Held F stateDir name o disk' = Held F stateDir name o disk := by
    funext m
    rw [Held, Held, hcontent]
  have hid : HeldId F stateDir name o disk' = HeldId F stateDir name o disk := by
    funext k
    rw [HeldId, HeldId, hheld]
  obtain ⟨c, hc, hstored⟩ := h.stored
  refine ⟨⟨hcontent ▸ h.scraps, hcontent ▸ h.distinct, h.placed, h.increasing, hheld ▸ h.posted⟩,
    ⟨c, hc.congr hcursor, hid ▸ hstored⟩, hid ▸ h.inMemory⟩

theorem Custody.more (h : Custody F stateDir name posted ds o disk) (ms : List Message) :
    Custody F stateDir name (posted ++ ms) ds o disk :=
  ⟨⟨h.scraps, h.distinct, h.placed, h.increasing, fun m hm =>
    ⟨List.mem_append_left _ (h.posted m hm).1, (h.posted m hm).2⟩⟩, h.stored, h.inMemory⟩

theorem Custody.restart (h : Custody F stateDir name posted ds o disk) :
    Custody F stateDir name posted ds none disk := by
  have hsub : ∀ m, Held F stateDir name none disk m → Held F stateDir name o disk m := fun m hm =>
    hm.of_sub (by simp) fun m hm => .inr hm
  obtain ⟨c, hc, hstored⟩ := h.stored
  refine ⟨⟨h.scraps, h.distinct, by simp, by simp, fun m hm => h.posted m (hsub m hm)⟩,
    ⟨c, hc, ?_⟩, by simp⟩
  exact hstored.mono fun d _ ⟨m, hm, heq⟩ => ⟨m, hsub m hm, heq⟩

theorem Custody.open (hF : F.Faithful) (h : Custody F stateDir name posted ds none disk)
    {fault : Option Partition.OpenFault} {r : Except Failure Partition}
    (hopen : Partition.open F fault stateDir name disk = (r, disk')) :
    Custody F stateDir name posted ds r.toOption disk' := by
  obtain ⟨hcontent, hall⟩ := open_loads hopen
  have hcursor := disk_of_open hopen
  have hsub : ∀ m, Held F stateDir name r.toOption disk' m → Held F stateDir name none disk m :=
      fun m hm => by
    refine hm.of_sub (fun p hp m hm => ?_) fun m hm => .inr (hcontent ▸ hm)
    cases r with
    | error e => cases hp
    | ok q =>
      obtain rfl : q = p := Option.some.inj hp
      rw [(hall q rfl).2.2] at hm
      exact .inr ((List.mem_insertionSort _).mp hm)
  obtain ⟨c, hc, hstored⟩ := h.stored
  have hstored' : c.records.Remembers scheme (HeldId F stateDir name r.toOption disk') ds :=
    hstored.mono fun d _ ⟨m, hm, heq⟩ => ⟨m, hsub m hm, heq⟩
  have hopened : ∀ p, r.toOption = some p → r = .ok p := fun p hp => by
    cases r with
    | error e => cases hp
    | ok q => exact congrArg _ (Option.some.inj hp)
  refine ⟨⟨hcontent ▸ h.scraps, hcontent ▸ h.distinct, fun p hp => ?_, fun p hp => ?_, fun m hm =>
    h.posted m (hsub m hm)⟩, ⟨c, hc.congr hcursor, hstored'⟩, fun p hp => ?_⟩
  · exact ⟨(hall p (hopened p hp)).1, (hall p (hopened p hp)).2.1⟩
  · rw [(hall p (hopened p hp)).2.2]
    exact pairwise_sortById h.distinct
  · rw [hopened p hp] at hopen
    rw [cursors_of_open hF hc hopen]
    exact hstored'

/-! ## Calls on an open partition -/

variable {w : World}

theorem Shelf.kept (hF : F.Faithful) (h : Shelf F stateDir name posted (some p) disk)
    (hkept : Kept F ⟨p, disk⟩ w) :
    Shelf F stateDir name posted (some w.partition) w.disk ∧
      ∀ m, Held F stateDir name (some w.partition) w.disk m →
        Held F stateDir name (some p) disk m := by
  obtain ⟨hpath, hcursor⟩ := h.placed p rfl
  have hincreasing := h.increasing p rfl
  have hcontent := hkept.content
  rw [show (World.mk p disk).partition.log.path = _ from hpath] at hcontent
  have hmemory : ∀ m ∈ w.partition.log.messages, m ∈ p.log.messages :=
    fun m hm => hkept.messages.subset hm
  have hdisk : Scraps F (contentAt w.disk (logPath stateDir name)) ∧
      ((loadable F (contentAt w.disk (logPath stateDir name))).map Message.id).Nodup ∧
      ∀ m ∈ loadable F (contentAt w.disk (logPath stateDir name)),
        Held F stateDir name (some p) disk m := by
    rcases hcontent with ⟨-, heq⟩ | ⟨ms, hms, heq⟩
    · rw [heq]
      exact ⟨h.scraps, h.distinct, fun m hm => .inr hm⟩
    · rw [heq, loadable_records hF]
      exact ⟨scraps_records ms, List.pairwise_map.mpr
        ((hincreasing.sublist (hms.trans hkept.messages)).imp
        fun hlt => ne_of_lt hlt), fun m hm => .inl ⟨p, rfl, hmemory m (hms.subset hm)⟩⟩
  have hsub : ∀ m, Held F stateDir name (some w.partition) w.disk m →
    Held F stateDir name (some p) disk m :=
    fun m hm => hm.of_sub (fun p' hp' m hm => by
      obtain rfl := Option.some.inj hp'
      exact .inl ⟨p, rfl, hmemory m hm⟩) hdisk.2.2
  refine ⟨⟨hdisk.1, hdisk.2.1, fun p' hp' => ?_, fun p' hp' => ?_,
    fun m hm => h.posted m (hsub m hm)⟩, hsub⟩
  · obtain rfl := Option.some.inj hp'
    exact ⟨hkept.path.trans hpath, hkept.cursorFile.trans hcursor⟩
  · obtain rfl := Option.some.inj hp'
    exact hincreasing.sublist hkept.messages

theorem Custody.files_ne (h : Custody F stateDir name posted ds (some p) disk) :
    p.cursorFile ≠ p.log.path := by
  obtain ⟨hpath, hcursor⟩ := h.placed p rfl
  rw [hpath, hcursor]
  exact (logPath_ne_cursorPath stateDir name).symm

theorem Custody.publish (hF : F.Faithful) (hT : F.RejectsTorn)
    (h : Custody F stateDir name posted ds (some p) disk) {m : Message}
    (hm : m.topic.partition = name.asStr) (hds : ∀ d ∈ ds, d.message ∈ posted)
    (hfresh : ∀ m' ∈ posted, m'.id < m.id) {fault : Option AppendFault} {r : Except Failure Ulid}
    (hpub : p.publish F fault disk m = (r, w)) :
    Custody F stateDir name (posted ++ [m]) ds (some w.partition) w.disk := by
  obtain ⟨hpath, hcursor⟩ := h.placed p rfl
  obtain ⟨hpath', hcursor', hcursors, hmessages, bs, hbs, hcontent⟩ := publish_writes hpub
  have hne : cursorPath stateDir name ≠ p.log.path := by
    rw [hpath]
    exact (logPath_ne_cursorPath stateDir name).symm
  have hfile := cursorFile_of_publish hpub hne
  rw [hpath] at hcontent
  have hload := loadable_append hF hT h.scraps hbs
  rw [← hcontent] at hload
  -- what is there was there, or is the new message
  have hsub : ∀ m', Held F stateDir name (some w.partition) w.disk m' →
      Held F stateDir name (some p) disk m' ∨ m' = m := by
    rintro m' (⟨p', hp', hm'⟩ | hm')
    · obtain rfl := Option.some.inj hp'
      rcases hmessages with heq | heq <;> rw [heq] at hm'
      · exact .inl (.inl ⟨p, rfl, hm'⟩)
      · exact (List.mem_append.mp hm').imp (fun hm' => .inl ⟨p, rfl, hm'⟩) List.mem_singleton.mp
    · exact (List.mem_append.mp (hload.subset hm')).imp .inr List.mem_singleton.mp
  have hbelow : ∀ m', Held F stateDir name (some p) disk m' → m'.id < m.id := fun m' hm' =>
    hfresh m' (h.posted m' hm').1
  have hheld : ∀ d ∈ ds, HeldId F stateDir name (some w.partition) w.disk (scheme.key d.message) →
      HeldId F stateDir name (some p) disk (scheme.key d.message) := by
    rintro d hd ⟨m', hm', heq⟩
    rcases hsub m' hm' with hm' | rfl
    · exact ⟨m', hm', heq⟩
    · exact absurd heq (ne_of_gt (hfresh d.message (hds d hd)))
  have hincreasing : ∀ ms : List Message, (ms.map Message.id).Nodup →
      (∀ m' ∈ ms, Held F stateDir name (some p) disk m') → ((ms ++ [m]).map Message.id).Nodup := by
    intro ms hms hin
    rw [List.map_append, List.nodup_append]
    refine ⟨hms, by simp, fun u hu v hv => ?_⟩
    obtain ⟨m', hm', rfl⟩ := List.mem_map.mp hu
    rw [List.map_singleton, List.mem_singleton] at hv
    exact hv ▸ ne_of_lt (hbelow m' (hin m' hm'))
  obtain ⟨c, hc, hstored⟩ := h.stored
  refine ⟨⟨hcontent ▸ h.scraps.append hbs, ?_, fun p' hp' => ?_, fun p' hp' => ?_,
    fun m' hm' => ?_⟩, ⟨c, hc.congr hfile, hstored.mono hheld⟩, fun p' hp' => ?_⟩
  · exact (hincreasing _ h.distinct fun m' hm' => .inr hm').sublist (hload.map _)
  · obtain rfl := Option.some.inj hp'
    exact ⟨hpath'.trans hpath, hcursor'.trans hcursor⟩
  · obtain rfl := Option.some.inj hp'
    rcases hmessages with heq | heq <;> rw [heq]
    · exact h.increasing p rfl
    · refine List.pairwise_append.mpr ⟨h.increasing p rfl, List.pairwise_singleton ..,
        fun a ha b hb => ?_⟩
      rw [List.mem_singleton.mp hb]
      exact hbelow a (.inl ⟨p, rfl, ha⟩)
  · rcases hsub m' hm' with hm' | rfl
    · exact ⟨List.mem_append_left _ (h.posted m' hm').1, (h.posted m' hm').2⟩
    · exact ⟨List.mem_append_right _ (List.mem_singleton_self _), hm⟩
  · obtain rfl := Option.some.inj hp'
    rw [hcursors]
    exact (h.inMemory p rfl).mono hheld

theorem Shelf.records (h : Shelf F stateDir name posted (some p) disk) (pattern : Pattern)
    (label : String) (limit : UInt64) :
    (p.merged pattern label limit).Pairwise (fun a b => a.id < b.id) ∧
      (Partition.recordBatch p.cursors pattern.asStr label (p.merged pattern label limit)).records =
        p.cursors.records.handOut scheme pattern label (p.merged pattern label limit) := by
  have hsorted : p.mailbox.Sorted scheme := h.increasing p rfl
  have hbatch : (p.merged pattern label limit).Pairwise fun a b => a.id < b.id := by
    rw [Partition.merged_eq hsorted]
    exact (hsorted.unread pattern label).sublist (List.take_sublist ..)
  refine ⟨hbatch, ?_⟩
  have hmailbox := Partition.mailbox_recordBatch (p := p)
    (hbatch.imp fun hlt => le_of_lt hlt) pattern label
  -- records are a mailbox whose log is forgotten
  exact congrArg (fun s : Mailbox Message Ulid Pattern String =>
    { s with log := ([] : List Message) }) hmailbox

/-- A delivery that fails is remembered in memory. -/
theorem Custody.undelivered (hF : F.Faithful) (h : Custody F stateDir name posted ds (some p) disk)
    {fault : Option Partition.PersistFault} {pattern : Pattern} {label : String}
    {limit : UInt64} {e : Failure}
    (hdeliver : p.deliver F fault disk pattern label limit = (.error e, w)) :
    Custody F stateDir name posted ds (some w.partition) w.disk := by
  have hkept : Kept F ⟨p, disk⟩ w := by
    rw [show w = (p.deliver F fault disk pattern label limit).2 by rw [hdeliver]]
    exact kept_deliver h.files_ne fault pattern label limit
  obtain ⟨hcursors, ⟨hdisk, -⟩ | ⟨hr, -⟩⟩ := records_of_deliver hdeliver
  · obtain ⟨hshelf, hsub⟩ := h.kept hF hkept
    have hheld : ∀ d ∈ ds, HeldId F stateDir name (some w.partition) w.disk (scheme.key d.message) →
        HeldId F stateDir name (some p) disk (scheme.key d.message) := fun d _ ⟨m, hm, heq⟩ =>
          ⟨m, hsub m hm, heq⟩
    obtain ⟨c, hc, hstored⟩ := h.stored
    refine ⟨hshelf, ⟨c, hc.congr (by rw [hdisk]), hstored.mono hheld⟩, fun p' hp' => ?_⟩
    obtain rfl := Option.some.inj hp'
    rw [hcursors, (h.toShelf.records pattern label limit).2]
    exact ((h.inMemory p rfl).mono hheld).handOut ..
  · cases hr

/-- **A delivery that succeeds is remembered in memory and in the file.** -/
theorem Custody.delivered (hF : F.Faithful) (h : Custody F stateDir name posted ds (some p) disk)
    {fault : Option Partition.PersistFault} {pattern : Pattern} {label : String} {limit : UInt64}
    {batch : List Message}
    (hdeliver : p.deliver F fault disk pattern label limit = (.ok batch, w)) :
    Custody F stateDir name posted (ds ++ handings pattern label batch)
    (some w.partition) w.disk := by
  have hkept : Kept F ⟨p, disk⟩ w := by
    rw [show w = (p.deliver F fault disk pattern label limit).2 by rw [hdeliver]]
    exact kept_deliver h.files_ne fault pattern label limit
  obtain ⟨hshelf, hsub⟩ := h.kept hF hkept
  have hheld : ∀ d ∈ ds, HeldId F stateDir name (some w.partition) w.disk (scheme.key d.message) →
      HeldId F stateDir name (some p) disk (scheme.key d.message) := fun d _ ⟨m, hm, heq⟩ =>
        ⟨m, hsub m hm, heq⟩
  have hbatch := (Partition.of_deliver_ok hdeliver).1
  obtain ⟨hcursors, hcase⟩ := records_of_deliver hdeliver
  have hmemory : w.partition.cursors.records.Remembers scheme
      (HeldId F stateDir name (some w.partition) w.disk)
      (ds ++ handings pattern label batch) := by
    rw [hcursors, (h.toShelf.records pattern label limit).2, hbatch]
    exact ((h.inMemory p rfl).mono hheld).delivered ..
  refine ⟨hshelf, ?_, fun p' hp' => Option.some.inj hp' ▸ hmemory⟩
  rcases hcase with ⟨hdisk, hnil | ⟨e, he⟩⟩ | ⟨-, hdisk⟩
  · obtain rfl : batch = [] := Except.ok.inj hnil
    obtain ⟨c, hc, hstored⟩ := h.stored
    refine ⟨c, hc.congr (by rw [hdisk]), ?_⟩
    simpa [handings] using hstored.mono hheld
  · cases he
  · refine ⟨w.partition.cursors, ?_, hmemory⟩
    rw [hdisk, (h.placed p rfl).2]
    exact stored_insert ..

/-- A prune, whether it succeeds or not. -/
theorem Custody.prune (hF : F.Faithful) (h : Custody F stateDir name posted ds (some p) disk)
    {fault : Option Partition.PruneFault} {policy : RetentionPolicy} {now : Nat}
    {r : Except Failure Nat} (hprune : p.prune F fault disk policy now = (r, w)) :
    Custody F stateDir name posted ds (some w.partition) w.disk := by
  have hkept : Kept F ⟨p, disk⟩ w := by
    rw [show w = (p.prune F fault disk policy now).2 by rw [hprune]]
    exact kept_prune h.files_ne fault policy now
  obtain ⟨hpath, hcursor⟩ := h.placed p rfl
  obtain ⟨hshelf, hsub⟩ := h.kept hF hkept
  have hheld : ∀ k, HeldId F stateDir name (some w.partition) w.disk k →
    HeldId F stateDir name (some p) disk k :=
    fun k ⟨m, hm, heq⟩ => ⟨m, hsub m hm, heq⟩
  obtain ⟨c, hc, hstored⟩ := h.stored
  rcases records_of_prune h.files_ne hprune with
    ⟨hcursors, hfile⟩ | ⟨m, ms, hfilter, hmessages, hcontent, hcursors, hfile⟩
  · rw [hcursor] at hfile
    refine ⟨hshelf, ⟨c, hc.congr hfile, hstored.mono fun d _ => hheld _⟩, fun p' hp' => ?_⟩
    obtain rfl := Option.some.inj hp'
    rw [hcursors]
    exact (h.inMemory p rfl).mono fun d _ => hheld _
  · rw [hpath] at hcontent
    -- the oldest survivor is the oldest of all that is left
    have holdest : ∀ k, HeldId F stateDir name (some w.partition) w.disk k → m.id ≤ k := by
      have hsorted : (m :: ms).Pairwise fun a b => a.id < b.id :=
        hfilter ▸ (h.increasing p rfl).sublist List.filter_sublist
      have hle : ∀ m' ∈ m :: ms, m.id ≤ m'.id := fun m' hm' => by
        rcases List.mem_cons.mp hm' with rfl | hm'
        · exact le_refl _
        · exact le_of_lt ((List.pairwise_cons.mp hsorted).1 m' hm')
      rintro k ⟨m', ⟨p', hp', hm'⟩ | hm', rfl⟩
      · obtain rfl := Option.some.inj hp'
        exact hle m' (hmessages ▸ hm')
      · rw [hcontent, loadable_records hF] at hm'
        exact hle m' hm'
    have hmemory : w.partition.cursors.records.Remembers scheme
        (HeldId F stateDir name (some w.partition) w.disk) ds := by
      refine (h.inMemory p rfl).trim (fun k hk =>
        (⟨hheld k hk, holdest k hk⟩ : _ ∧ m.id ≤ k)) ?_ ?_ ?_
      all_goals
        intros
        simp [hcursors, Partition.pruneCursors, CursorStore.records]
    refine ⟨hshelf, ?_, fun p' hp' => Option.some.inj hp' ▸ hmemory⟩
    rw [hcursor] at hfile
    rcases hfile with hfile | hfile
    · exact ⟨c, hc.congr hfile, hstored.mono fun d _ => hheld _⟩
    · exact ⟨w.partition.cursors, .inr hfile, hmemory⟩

/-! ## The invariant of a daemon -/

/-- The message is of this partition. -/
def Handing.isIn (name : PartitionName) (d : Handing) : Bool :=
  d.message.topic.partition == name.asStr

/-- One message of a partition may be handed out after another. -/
def InOrder (d d' : Handing) : Prop :=
  d.message.topic.partition = d'.message.topic.partition → Follows scheme d d'

namespace Bus

/-- Everything handed out so far was posted, went to readers that asked for it, and in order; every
partition remembers what was handed out of it. -/
structure Accounted (F : Formats) (stateDir : Path) (posted : List Message)
    (ds : List Handing) (b : Bus) : Prop where
  placed : b.Placed stateDir .default
  increasing : posted.Pairwise fun a b => a.id < b.id
  authentic : ∀ d ∈ ds, d.message ∈ posted ∧ d.pattern.matchesTopic d.message.topic = true
  ordered : ds.Pairwise InOrder
  custody : ∀ name : PartitionName, Custody F stateDir name posted (ds.filter (Handing.isIn name))
    b.state.partitions[name.asStr]? b.disk

variable {b b' : Bus} {ms : List Message} {ds' : List Handing}

theorem Accounted.more (h : b.Accounted F stateDir posted ds)
    (hposted : (posted ++ ms).Pairwise fun a b => a.id < b.id) :
    b.Accounted F stateDir (posted ++ ms) ds :=
  ⟨h.placed, hposted, fun d hd => ⟨List.mem_append_left _ (h.authentic d hd).1,
    (h.authentic d hd).2⟩, h.ordered, fun name => (h.custody name).more ms⟩

theorem Accounted.same (h : b.Accounted F stateDir posted ds) (hsame : b.Same b') :
    b'.Accounted F stateDir posted ds := by
  refine ⟨h.placed.same hsame, h.increasing, h.authentic, h.ordered, fun name => ?_⟩
  rw [hsame.partitions, hsame.disk]
  exact h.custody name

/-- Within one partition the order is total. -/
theorem Accounted.orderedIn (h : b.Accounted F stateDir posted ds) (name : PartitionName) :
    (ds.filter (Handing.isIn name)).Pairwise (Follows scheme) := by
  refine List.Pairwise.imp_of_mem ?_ (h.ordered.sublist List.filter_sublist)
  intro d d' hd hd' hin
  exact hin ((beq_iff_eq.mp (List.mem_filter.mp hd).2).trans
    (beq_iff_eq.mp (List.mem_filter.mp hd').2).symm)

/-- **What happens to one partition is no concern of the others.** -/
theorem Accounted.section (h : b.Accounted F stateDir posted ds)
    (hplaced : b'.Placed stateDir .default)
    (hframe : ∀ c, c ∉ cells stateDir name → b'.look c = b.look c)
    (hposted : (posted ++ ms).Pairwise fun a b => a.id < b.id)
    (hds : ∀ d ∈ ds', d.message ∈ posted ∧ d.pattern.matchesTopic d.message.topic = true ∧
      d.isIn name = true)
    (hordered : (ds.filter (Handing.isIn name) ++ ds').Pairwise (Follows scheme))
    (hcustody : Custody F stateDir name (posted ++ ms) (ds.filter (Handing.isIn name) ++ ds')
      b'.state.partitions[name.asStr]? b'.disk) : b'.Accounted F stateDir (posted ++ ms)
      (ds ++ ds') := by
  refine ⟨hplaced, hposted, fun d hd => ?_, ?_, fun other => ?_⟩
  · rcases List.mem_append.mp hd with hd | hd
    · exact ⟨List.mem_append_left _ (h.authentic d hd).1, (h.authentic d hd).2⟩
    · exact ⟨List.mem_append_left _ (hds d hd).1, (hds d hd).2.1⟩
  · obtain ⟨-, hnew, hold⟩ := List.pairwise_append.mp hordered
    have hwithin : ds'.Pairwise InOrder := List.Pairwise.imp (S := InOrder)
      (fun hfollows _ => hfollows) hnew
    refine List.pairwise_append.mpr ⟨h.ordered, hwithin, fun d hd d' hd' heq => ?_⟩
    refine hold d (List.mem_filter.mpr ⟨hd, ?_⟩) d' hd'
    rw [Handing.isIn, heq]
    exact (hds d' hd').2.2
  · rw [List.filter_append]
    by_cases hname : other = name
    · subst hname
      rwa [List.filter_eq_self.mpr fun d hd => (hds d hd).2.2]
    · have hnone : ds'.filter (Handing.isIn other) = [] := by
        refine List.filter_eq_nil_iff.mpr fun d hd hin => hname ?_
        exact asStr_injective ((beq_iff_eq.mp hin).symm.trans (beq_iff_eq.mp (hds d hd).2.2))
      obtain ⟨hpartition, hlog, hcursor⟩ := look_elsewhere (Ne.symm hname) hframe
      rw [hnone, List.append_nil, hpartition]
      exact ((h.custody other).more ms).congr hlog hcursor

theorem Accounted.upkeep (h : b.Accounted F stateDir posted ds)
    (hplaced : b'.Placed stateDir .default)
    (hframe : ∀ c, c ∉ cells stateDir name → b'.look c = b.look c)
    (hcustody : Custody F stateDir name posted (ds.filter (Handing.isIn name))
      b'.state.partitions[name.asStr]? b'.disk) : b'.Accounted F stateDir posted ds := by
  have hnothing : b'.Accounted F stateDir (posted ++ []) (ds ++ []) := by
    refine h.section hplaced hframe ?_ (by simp) ?_ ?_
    · simpa using h.increasing
    · simpa using h.orderedIn name
    · simpa using hcustody
  simpa using hnothing

theorem Accounted.opened (hF : F.Faithful) (h : b.Accounted F stateDir posted ds)
    {fault : Option Partition.OpenFault} {r : Except Failure Partition}
    (hopen : b.partitionMut F fault name = (r, b')) : b'.Accounted F stateDir posted ds := by
  obtain ⟨hplaced, hframe⟩ := h.placed.within (section_partitionMut fault) hopen
  refine h.upkeep hplaced hframe ?_
  have hcustody := h.custody name
  rcases partitionMut_cases (F := F) fault b name with
    ⟨p, hp, heq⟩ | ⟨hnone, ⟨p, disk, hloaded, heq⟩ | ⟨e, disk, hfailed, heq⟩⟩ <;>
    obtain ⟨-, rfl⟩ := Prod.mk.inj (heq.symm.trans hopen)
  · exact hcustody
  · rw [hnone] at hcustody
    rw [h.placed.root] at hloaded
    have := hcustody.open hF hloaded
    simpa [Bus.put, Except.toOption] using this
  · rw [hnone] at hcustody
    rw [h.placed.root] at hfailed
    have := hcustody.open hF hfailed
    simpa [hnone, Except.toOption] using this

theorem Accounted.published (hF : F.Faithful) (hT : F.RejectsTorn)
    (h : b.Accounted F stateDir posted ds) {m : Message}
    (hp : b.state.partitions[name.asStr]? = some p) (hm : m.topic.partition = name.asStr)
    (hposted : (posted ++ [m]).Pairwise fun a b => a.id < b.id) {fault : Option AppendFault}
    {r : Except Failure Ulid} {w : World} (hpub : p.publish F fault b.disk m = (r, w)) :
    (b.put name.asStr w).Accounted F stateDir (posted ++ [m]) ds := by
  have hbus : ((p.publish F fault b.disk m).1, b.put name.asStr (p.publish F fault b.disk m).2) =
      (r, b.put name.asStr w) := by rw [hpub]
  obtain ⟨hplaced, hframe⟩ :=
    h.placed.within (section_publish (h.placed.files name p hp) fault m) hbus
  have hcustody := h.custody name
  rw [hp] at hcustody
  have hfresh : ∀ m' ∈ posted, m'.id < m.id := fun m' hm' =>
    (List.pairwise_append.mp hposted).2.2 m' hm' m (List.mem_singleton_self m)
  have hpublished := hcustody.publish hF hT hm
    (fun d hd => (h.authentic d (List.mem_of_mem_filter hd)).1) hfresh hpub
  refine (h.more hposted).upkeep hplaced hframe ?_
  simpa [Bus.put] using hpublished

theorem Accounted.undelivered (hF : F.Faithful) (h : b.Accounted F stateDir posted ds)
    (hp : b.state.partitions[name.asStr]? = some p) {fault : Option Partition.PersistFault}
    {pattern : Pattern} {label : String} {limit : UInt64} {e : Failure}
    (hdeliver : b.deliver F fault name p pattern label limit = (.error e, b')) :
    b'.Accounted F stateDir posted ds := by
  have hfiles := h.placed.files name p hp
  obtain ⟨hplaced, hframe⟩ :=
    h.placed.within (section_deliver hfiles fault pattern label limit) hdeliver
  refine h.upkeep hplaced hframe ?_
  have hcustody := h.custody name
  rw [hp] at hcustody
  rcases hpartition : p.deliver F fault b.disk pattern label limit with ⟨r, w⟩
  rw [Bus.deliver, hpartition] at hdeliver
  obtain ⟨rfl, rfl⟩ := Prod.mk.inj hdeliver
  have := hcustody.undelivered hF hpartition
  simpa [Bus.put] using this

theorem Accounted.delivered (hF : F.Faithful) (h : b.Accounted F stateDir posted ds)
    (hp : b.state.partitions[name.asStr]? = some p) {fault : Option Partition.PersistFault}
    {pattern : Pattern} {label : String} {limit : UInt64} {batch : List Message}
    (hdeliver : b.deliver F fault name p pattern label limit = (.ok batch, b')) :
    b'.Accounted F stateDir posted (ds ++ handings pattern label batch) := by
  have hfiles := h.placed.files name p hp
  obtain ⟨hplaced, hframe⟩ :=
    h.placed.within (section_deliver hfiles fault pattern label limit) hdeliver
  have hcustody := h.custody name
  rw [hp] at hcustody
  rcases hpartition : p.deliver F fault b.disk pattern label limit with ⟨r, w⟩
  rw [Bus.deliver, hpartition] at hdeliver
  obtain ⟨rfl, rfl⟩ := Prod.mk.inj hdeliver
  have hbatch := (Partition.of_deliver_ok hpartition).1
  obtain ⟨hincreasing, -⟩ := hcustody.toShelf.records pattern label limit
  rw [← hbatch] at hincreasing
  -- what is handed out was unread in memory
  have hunread : ∀ m ∈ batch, m ∈ p.log.messages ∧
      p.mailbox.isUnread scheme pattern label m = true := by
    intro m hm
    rw [hbatch] at hm
    exact Partition.isUnread_of_mem_merged ((hcustody.increasing p rfl).imp fun hlt =>
      le_of_lt hlt) hm
  have hheld : ∀ m ∈ batch, Held F stateDir name (some p) b.disk m :=
    fun m hm => .inl ⟨p, rfl, (hunread m hm).1⟩
  have hposted : (b.put name.asStr w).Accounted F stateDir (posted ++ [])
      (ds ++ handings pattern label batch) := by
    refine h.section hplaced hframe ?_ (fun d hd => ?_) ?_ ?_
    · simpa using h.increasing
    · obtain ⟨m, hm, rfl⟩ := List.mem_map.mp hd
      obtain ⟨hmem, htopic⟩ := hcustody.posted m (hheld m hm)
      exact ⟨hmem, (Mailbox.isUnread_iff.mp (hunread m hm).2).1, beq_iff_eq.mpr htopic⟩
    · exact (hcustody.inMemory p rfl).append (h.orderedIn name) hincreasing fun m hm =>
        ⟨⟨m, hheld m hm, rfl⟩, (hunread m hm).2⟩
    · have hdelivered := hcustody.delivered hF hpartition
      simpa [Bus.put] using hdelivered
  simpa using hposted

theorem Accounted.pruned (hF : F.Faithful) (h : b.Accounted F stateDir posted ds)
    {fault : Option Partition.PruneFault} {now : Nat} {n : String} {r : Except Failure Nat}
    (hprune : b.pruneOne F fault now n = (r, b')) : b'.Accounted F stateDir posted ds := by
  cases hp : b.state.partitions[n]? with
  | none =>
    rw [pruneOne, hp] at hprune
    obtain ⟨-, rfl⟩ := Prod.mk.inj hprune
    exact h
  | some p =>
    obtain ⟨name, rfl⟩ := h.placed.named n p hp
    obtain ⟨hplaced, hframe⟩ := h.placed.within (section_pruneOne fault now) hprune
    refine h.upkeep hplaced hframe ?_
    have hcustody := h.custody name
    rw [hp] at hcustody
    rcases hpartition : p.prune F fault b.disk b.state.policy now with ⟨r', w⟩
    simp only [pruneOne, hp, hpartition] at hprune
    obtain ⟨-, rfl⟩ := Prod.mk.inj hprune
    have := hcustody.prune hF hpartition
    simpa [Bus.put] using this

/-- **What any action keeps.** -/
theorem Accounted.act (hF : F.Faithful) (hT : F.RejectsTorn) (h : b.Accounted F stateDir posted ds)
    {sweep : Option Nat} (hact : Act F sweep b ms ds' b')
    (hposted : (posted ++ ms).Pairwise fun a b => a.id < b.id) :
    b'.Accounted F stateDir (posted ++ ms) (ds ++ ds') := by
  cases hact with
  | quiet hsame => simpa using h.same hsame
  | opened hopen => simpa using h.opened hF hopen
  | posted hp hm hpub => simpa using h.published hF hT hp hm hposted hpub
  | delivered hp hdeliver => simpa using h.delivered hF hp hdeliver
  | undelivered hp hdeliver => simpa using h.undelivered hF hp hdeliver
  | pruned _ hprune => simpa using h.pruned hF hprune

theorem Accounted.acts (hF : F.Faithful) (hT : F.RejectsTorn) (h : b.Accounted F stateDir posted ds)
    {sweep : Option Nat} (hacts : Acts F sweep b ms ds' b')
    (hposted : (posted ++ ms).Pairwise fun a b => a.id < b.id) :
    b'.Accounted F stateDir (posted ++ ms) (ds ++ ds') := by
  induction hacts with
  | refl => simpa using h
  | act _ hact ih =>
    rw [← List.append_assoc] at hposted ⊢
    rw [← List.append_assoc]
    exact (ih (List.pairwise_append.mp hposted).1).act hF hT hact hposted

theorem Accounted.restart (h : b.Accounted F stateDir posted ds) (instant : Nat) :
    (⟨.new stateDir instant, b.disk⟩ : Bus).Accounted F stateDir posted ds := by
  have hnone : ∀ n : String, (BusState.new stateDir instant).partitions[n]? = none := fun n => by
    simp [BusState.new]
  refine ⟨placed_new stateDir instant b.disk, h.increasing, h.authentic, h.ordered, fun name => ?_⟩
  rw [hnone]
  exact (h.custody name).restart

theorem accounted_fresh {disk : Disk} (hdisk : ∀ name, Fresh stateDir name disk) (instant : Nat) :
    (⟨.new stateDir instant, disk⟩ : Bus).Accounted F stateDir [] [] := by
  have hnone : ∀ n : String, (BusState.new stateDir instant).partitions[n]? = none := fun n => by
    simp [BusState.new]
  have hempty : ∀ name, contentAt disk (logPath stateDir name) = [] := fun name => by
    simp [contentAt, (hdisk name).1]
  refine ⟨placed_new stateDir instant disk, .nil, by simp, .nil, fun name => ?_⟩
  rw [hnone]
  refine ⟨⟨(hempty name).symm ▸ scraps_records [], ?_, by simp, by simp, ?_⟩,
    ⟨.default, .inl ⟨(hdisk name).2, rfl⟩, Mailbox.remembers_nil ..⟩, by simp⟩
  · rw [hempty]
    exact List.nodup_nil
  · rintro m (⟨p, hp, -⟩ | hm)
    · cases hp
    · rw [hempty] at hm
      cases hm

end Bus

/-! ## Runs -/

variable {threshold : Nat} {es : List Observed} {s s' : Service} {o₁ : Observed}

theorem accounted_of_exec (hF : F.Faithful) (hT : F.RejectsTorn)
    (h : Exec (succession F threshold stateDir) es s) :
    s.shared.bus.Accounted F stateDir (requested es) (handedOut es) := by
  refine h.invariant (I := fun es s => s.shared.bus.Accounted F stateDir (requested es)
    (handedOut es)) ?_ ?_
  · rintro s ⟨instant, disk, hdisk, rfl⟩
    exact Bus.accounted_fresh hdisk instant
  · rintro es s ⟨e, handed⟩ s' - ih ⟨hfresh, hnext, hhanded⟩
    obtain rfl : handed = e.handed s s' := hhanded
    have hposted : (requested es ++ e.message.toList).Pairwise fun a b => a.id < b.id := by
      refine List.pairwise_append.mpr ⟨ih.increasing, ?_, fun m' hm' m hm => ?_⟩
      · cases e.message <;> simp
      · exact hfresh m (Option.mem_toList.mp hm) m' hm'
    rw [requested_concat, handedOut_concat]
    cases e with
    | restart instant =>
      obtain rfl := Option.some.inj hnext
      simpa [SuccessionEvent.message, SuccessionEvent.handed, Service.start]
        using ih.restart instant
    | step e =>
      obtain ⟨ms, hacts, hms, -⟩ := acts_of_step (Service.step_of_next hnext)
      have hsub : ms = [] ∨ ms = e.message.toList := by
        cases hm : e.message with
        | none => exact .inl (by simpa [hm] using hms)
        | some m =>
          rw [hm, Option.toList_some] at hms
          rcases List.sublist_cons_iff.mp hms with hms | ⟨ms', rfl, hms'⟩
          · exact .inl (List.sublist_nil.mp hms)
          · exact .inr (by rw [List.sublist_nil.mp hms', Option.toList_some])
      rcases hsub with rfl | rfl
      · have := ih.acts hF hT hacts (by simpa using ih.increasing)
        rw [List.append_nil] at this
        exact this.more hposted
      · exact ih.acts hF hT hacts hposted

/-- What was handed out is distinct and in order, by id. -/
theorem Bus.Accounted.inOrder {posted : List Message} {ds : List Handing} {b : Bus}
    (hall : b.Accounted F stateDir posted ds) :
    ds.Pairwise fun d d' =>
      (d.label = d'.label → d.message.id ≠ d'.message.id) ∧
      (d.pattern = d'.pattern → d.message.broadcast = false → d'.message.broadcast = false →
        d.message.id < d'.message.id) ∧
      (d.label = d'.label → d.message.topic.partition = d'.message.topic.partition →
        d.message.broadcast = true → d'.message.broadcast = true →
        d.message.id < d'.message.id) := by
  refine List.Pairwise.imp_of_mem (fun {d d'} hd hd' horder => ?_) hall.ordered
  obtain ⟨hd, hsel⟩ := hall.authentic d hd
  obtain ⟨hd', hsel'⟩ := hall.authentic d' hd'
  refine ⟨fun hlabel hid => ?_, fun hpattern hx hx' => ?_, fun hlabel heq hb hb' => ?_⟩
  · -- an id belongs to one message
    have hsame : d.message = d'.message :=
      Mailbox.Sorted.key_inj (S := scheme)
        (s := (⟨posted, fun _ => none, fun _ => none, fun _ _ => false⟩ :
          Mailbox Message Ulid Pattern String)) hall.increasing hd hd' hid
    exact (horder (by rw [hsame])).label hlabel hid
  · refine (horder ?_).pattern hpattern hx hx'
    rw [Pattern.partition_of_matchesTopic hsel, Pattern.partition_of_matchesTopic hsel', hpattern]
  · exact (horder heq).shared hlabel hb hb'

/-- **Whatever fails and whoever dies, nothing is handed out twice to a label, exclusive messages go
out under a pattern in the order of their ids, and so do a partition's broadcasts to a label.** -/
theorem handed_out_in_order (hF : F.Faithful) (hT : F.RejectsTorn)
    (h : Exec (succession F threshold stateDir) es s) :
    (handedOut es).Pairwise fun d d' =>
      (d.label = d'.label → d.message.id ≠ d'.message.id) ∧
      (d.pattern = d'.pattern → d.message.broadcast = false → d'.message.broadcast = false →
        d.message.id < d'.message.id) ∧
      (d.label = d'.label → d.message.topic.partition = d'.message.topic.partition →
        d.message.broadcast = true → d'.message.broadcast = true → d.message.id < d'.message.id) :=
  (accounted_of_exec hF hT h).inOrder

theorem exec_sampleSuccession : ∃ es o s, Exec (succession .reference 5400 "/state") (es ++ [o]) s ∧
    (es ++ [o]).map Observed.event = sampleSuccession ∧ (handedOut (es ++ [o])).length = 2 ∧
    o.handed.length = 1 := by
  obtain ⟨es, s, hx, hevents, hobserved⟩ := exec_of_sampleSuccession 5400 sampleSuccession
    (fun es => decide ((handedOut es).length = 2) && es.getLast?.any fun o : Observed =>
      decide (o.handed.length = 1))
    (by decide +kernel) (by decide +kernel)
  obtain ⟨htwo, hlast⟩ := Bool.and_eq_true_iff.mp hobserved
  obtain ⟨o, ho, hone⟩ := (Option.any_eq_true _ _).mp hlast
  obtain ⟨es, rfl⟩ := List.getLast?_eq_some_iff.mp ho
  exact ⟨es, o, s, hx, hevents, of_decide_eq_true htwo, of_decide_eq_true hone⟩

theorem exists_handed_out_in_order : ∃ es s, Exec (succession .reference 5400 "/state") es s ∧
    es.map Observed.event = sampleSuccession ∧ (handedOut es).length = 2 ∧
    (handedOut es).Pairwise fun d d' =>
      (d.label = d'.label → d.message.id ≠ d'.message.id) ∧
      (d.pattern = d'.pattern → d.message.broadcast = false → d'.message.broadcast = false →
        d.message.id < d'.message.id) ∧
      (d.label = d'.label → d.message.topic.partition = d'.message.topic.partition →
        d.message.broadcast = true → d'.message.broadcast = true →
        d.message.id < d'.message.id) := by
  obtain ⟨es, o, s, hx, hevents, htwo, -⟩ := exec_sampleSuccession
  exact ⟨es ++ [o], s, hx, hevents, htwo,
    handed_out_in_order Formats.reference_faithful Formats.reference_rejectsTorn hx⟩

/-- **Nothing is handed out but what was posted before, to readers whose pattern matches its
topic.** -/
theorem handed_out_authentic (hF : F.Faithful) (hT : F.RejectsTorn) {o : Observed}
    (h : Exec (succession F threshold stateDir) (es ++ [o]) s) :
    ∀ d ∈ o.handed, d.message ∈ requested es ∧ d.pattern.matchesTopic d.message.topic = true := by
  intro d hd
  obtain ⟨hmem, hsel⟩ := (accounted_of_exec hF hT h).authentic d (by
    rw [handedOut_concat]
    exact List.mem_append_right _ hd)
  refine ⟨?_, hsel⟩
  -- a step that hands something out posts nothing
  have hnone : o.event.message = none := by
    obtain ⟨s₀, -, -, -, hhanded⟩ := h.last_step
    rw [hhanded] at hd
    cases hevent : o.event with
    | restart instant => rfl
    | step e =>
      rw [hevent] at hd
      exact message_of_handed hd
  rwa [requested_concat, hnone, Option.toList_none, List.append_nil] at hmem

theorem exists_handed_out_authentic : ∃ es o s, Exec (succession .reference 5400 "/state")
    (es ++ [o]) s ∧ o.handed.length = 1 ∧
    ∀ d ∈ o.handed, d.message ∈ requested es ∧ d.pattern.matchesTopic d.message.topic = true := by
  obtain ⟨es, o, s, hx, -, -, hone⟩ := exec_sampleSuccession
  exact ⟨es, o, s, hx, hone,
    handed_out_authentic Formats.reference_faithful Formats.reference_rejectsTorn hx⟩

/-! ## Replays -/

/-- **Whoever replays a partition sees what was posted, each message once and by id**: what a
history answers, in whatever state of whatever process, was posted before, matches the pattern and
is young enough. -/
theorem histories_in_order (hF : F.Faithful) (hT : F.RejectsTorn)
    (h : Exec (succession F threshold stateDir) es s) {faults : Faults} {r : Readings}
    {pattern : String} {sinceSecs : Option Nat} {ms : List Message} {b : Bus}
    (hreply : s.shared.bus.dispatch F faults r (.history pattern sinceSecs) =
      (.reply (.messages ms), b)) :
    ms.Pairwise (fun m m' => m.id < m'.id) ∧ ∃ parsed, Pattern.parse pattern = .ok parsed ∧
      ∀ m ∈ ms, m ∈ requested es ∧ parsed.matchesTopic m.topic = true ∧
        ∀ window ∈ sinceSecs, m.ageSecs r.secs ≤ window := by
  obtain ⟨parsed, name, p, hparsed, -, hopen, rfl⟩ := Bus.of_history hreply
  have hall := ((accounted_of_exec hF hT h).same (Bus.same_touch _ (r.instant 0))).opened hF hopen
  have hp := Bus.getElem?_partitionMut hopen
  have hshelf := (hall.custody name).toShelf
  rw [hp] at hshelf
  refine ⟨(hshelf.increasing p rfl).sublist (List.filter_sublist.trans List.filter_sublist),
    parsed, hparsed, ?_⟩
  intro m hm
  obtain ⟨hm, hmatch⟩ := List.mem_filter.mp hm
  obtain ⟨hm, hsince⟩ := List.mem_filter.mp hm
  refine ⟨(hshelf.posted m (.inl ⟨p, rfl, hm⟩)).1, hmatch, fun window hwindow => ?_⟩
  rw [Option.all_eq_true] at hsince
  exact of_decide_eq_true (hsince window hwindow)

/-- A crash, a torn write and another crash. -/
def sampleReplay : List SuccessionEvent :=
  [.step (.accept 0), .samplePost 1 true, .restart 0, .step (.accept 0), .first (.request
    (.post "iot_base/dev_01" "torn" .normal none false) { noFaults with append := some (.write 5) }
      (readingsAt 2)),
    .restart 0]

def Dispatch.isOneMessage : Dispatch → Bool
  | .reply (.messages [_]) => true
  | _ => false

theorem of_isOneMessage {d : Dispatch} (h : d.isOneMessage = true) :
    ∃ m, d = .reply (.messages [m]) := by
  unfold Dispatch.isOneMessage at h
  split at h
  · next m => exact ⟨m, rfl⟩
  · cases h

/-- What was acknowledged is replayed, what was torn is not. -/
theorem histories_in_order_torn : ∃ es s m b, Exec (succession .reference 5400 "/state") es s ∧
    es.map Observed.event = sampleReplay ∧
    s.shared.bus.dispatch .reference noFaults (readingsAt 9) (.history "iot_base/*" none) =
      (.reply (.messages [m]), b) ∧ m ∈ requested es := by
  have hreplay : (observe .reference 5400 "/state" freshService sampleReplay).any (fun r =>
      (r.2.shared.bus.dispatch .reference noFaults (readingsAt 9)
        (.history "iot_base/*" none)).1.isOneMessage) =
        true := by
    decide +kernel
  obtain ⟨⟨es, s⟩, hobserve, hone⟩ := (Option.any_eq_true _ _).mp hreplay
  obtain ⟨m, hm⟩ := of_isOneMessage hone
  have hids : (requested [] ++ sampleReplay.flatMap fun e => e.message.toList).Pairwise fun a b =>
      a.id < b.id := by
    decide +kernel
  obtain ⟨hx, hevents⟩ := exec_of_observe (.init (init_freshService 5400)) hobserve hids
  rw [List.nil_append] at hx
  have hreply : s.shared.bus.dispatch .reference noFaults (readingsAt 9)
      (.history "iot_base/*" none) = (.reply (.messages [m]), _) := Prod.ext hm rfl
  obtain ⟨-, parsed, -, hall⟩ :=
    histories_in_order Formats.reference_faithful Formats.reference_rejectsTorn hx hreply
  exact ⟨es, s, m, _, hx, hevents, hreply, (hall m (List.mem_singleton_self m)).1⟩

end AgentBus
