import AgentBus.Daemon.Lifetimes
import AgentBus.Daemon.Replay

/-!
# Ids across daemon processes

A generator counts up within one process and knows nothing of the ids that an
earlier process gave out. `lifetimes_ordered` says that the log is increasing
and new messages lie beyond every position, if the clock has moved on since
the ids that a process finds when it first posts. `second_lifetime_behind` is
a clock that was set back between two processes.
-/

namespace AgentBus

open Lib PartitionLog

variable {G : IdSource} {F : Formats} {stateDir : Path} {name : PartitionName}
  {es : List DaemonEvent} {s s' : Daemon G} {p : Partition}

/-! ## The condition -/

/-- When a process posts for the first time, the clock reads later, in milliseconds, than the time
parts of all ids in the log and of all stored positions. -/
def Daemon.StartsLater (s : Daemon G) : DaemonEvent → Prop
  | .post clockMs _ _ _ => s.hasPosted = false → ∀ p, s.partition = some p →
      clockMs < 2 ^ 48 ∧ (∀ m ∈ p.log.messages, m.id.timestampMs < clockMs) ∧
        ∀ q, p.cursors.Holds q → q.timestampMs < clockMs
  | _ => True

/-- The id is greater than every id in the log and every stored position. -/
def IsAhead (p : Partition) (id : Ulid) : Prop :=
  (∀ m ∈ p.log.messages, m.id < id) ∧ ∀ q, p.cursors.Holds q → q < id

/-- Whatever its generator, a clock that reads later gives such an id. -/
theorem isAhead_of_clock {source source' : G.State} {clockMs random : Nat} {id : Ulid}
    (hid : G.generate source clockMs random = some (id, source')) (hclock : clockMs < 2 ^ 48)
    (hlog : ∀ m ∈ p.log.messages, m.id.timestampMs < clockMs)
    (hpositions : ∀ q, p.cursors.Holds q → q.timestampMs < clockMs) : IsAhead p id := by
  have hle : clockMs ≤ id.timestampMs := G.clock_le hid hclock
  exact ⟨fun m hm => Ulid.lt_of_timestampMs_lt (Nat.lt_of_lt_of_le (hlog m hm) hle),
    fun q hq => Ulid.lt_of_timestampMs_lt (Nat.lt_of_lt_of_le (hpositions q hq) hle)⟩

/-! ## The invariant -/

/-- An id that the process has generated, or below one. -/
def Below (source : G.State) (u : Ulid) : Prop := ∃ v ∈ G.last source, u ≤ v

theorem Below.lt {source source' : G.State} {u id : Ulid} (h : Below source u)
    {clockMs random : Nat} (hid : G.generate source clockMs random = some (id, source')) :
    u < id := by
  obtain ⟨v, hv, hle⟩ := h
  exact lt_of_le_of_lt hle (G.increasing hid v hv)

theorem below_of_generate {source source' : G.State} {u id : Ulid} {clockMs random : Nat}
    (hid : G.generate source clockMs random = some (id, source')) (h : u ≤ id) : Below source' u :=
  ⟨id, G.last_generate hid, h⟩

/-- What holds of an open partition. -/
structure Opened (F : Formats) (stateDir : Path) (name : PartitionName) (s : Daemon G)
    (p : Partition) : Prop where
  path : p.log.path = logPath stateDir name
  cursorFile : p.cursorFile = cursorPath stateDir name
  increasing : p.log.messages.Pairwise fun a b => a.id < b.id
  /-- What the file holds is in the log, or was posted by this process and failed. -/
  onDisk : ∀ d ∈ loadable F (contentAt s.disk (logPath stateDir name)),
    d ∈ p.log.messages ∨ Below s.source d.id
  behind : s.hasPosted = true →
    (∀ m ∈ p.log.messages, Below s.source m.id) ∧ ∀ q, p.cursors.Holds q → Below s.source q

structure Orderly (F : Formats) (stateDir : Path) (name : PartitionName) (s : Daemon G) : Prop where
  scraps : Scraps F (contentAt s.disk (logPath stateDir name))
  distinct : ((loadable F (contentAt s.disk (logPath stateDir name))).map Message.id).Nodup
  closed : s.partition = none → s.hasPosted = false
  opened : ∀ p, s.partition = some p → Opened F stateDir name s p

/-- **The next id of a process is ahead of the partition.** -/
theorem Opened.isAhead (h : Opened F stateDir name s p) (hp : s.partition = some p)
    {clockMs random : Nat} {draft : Draft} {fault : Option AppendFault}
    (hok : s.StartsLater (.post clockMs random draft fault)) {id : Ulid} {source : G.State}
    (hid : G.generate s.source clockMs random = some (id, source)) : IsAhead p id := by
  cases hposted : s.hasPosted with
  | false =>
    obtain ⟨hclock, hlog, hpositions⟩ := hok hposted p hp
    exact isAhead_of_clock hid hclock hlog hpositions
  | true =>
    obtain ⟨hlog, hpositions⟩ := h.behind hposted
    exact ⟨fun m hm => (hlog m hm).lt hid, fun q hq => (hpositions q hq).lt hid⟩

/-! ## Steps -/

theorem Orderly.restart (h : Orderly F stateDir name s) :
    Orderly F stateDir name (⟨G.fresh, false, none, s.disk⟩ : Daemon G) :=
  ⟨h.scraps, h.distinct, fun _ => rfl, nofun⟩

theorem Orderly.openFailed (h : Orderly F stateDir name s)
    (hclosed : s.partition = none) {disk : Disk}
    (hcontent : contentAt disk (logPath stateDir name) = contentAt s.disk (logPath stateDir name)) :
    Orderly F stateDir name { s with disk } :=
  ⟨hcontent ▸ h.scraps, hcontent ▸ h.distinct, h.closed,
    fun p hp => by rw [hclosed] at hp; cases hp⟩

theorem Orderly.open (h : Orderly F stateDir name s) (hclosed : s.partition = none)
    {fault : Option Partition.OpenFault} {disk : Disk}
    (hopen : Partition.open F fault stateDir name s.disk = (.ok p, disk)) :
    Orderly F stateDir name { s with partition := some p, disk } := by
  obtain ⟨hcontent, hall⟩ := open_loads hopen
  obtain ⟨hpath, hcursor, hmessages⟩ := hall p rfl
  refine ⟨hcontent ▸ h.scraps, hcontent ▸ h.distinct, nofun, fun p' hp' => ?_⟩
  obtain rfl := Option.some.inj hp'
  refine ⟨hpath, hcursor, hmessages ▸ pairwise_sortById h.distinct, fun d hd => ?_,
    fun hposted => ?_⟩
  · rw [hcontent] at hd
    rw [hmessages]
    exact .inl ((List.mem_insertionSort _).mpr hd)
  · rw [h.closed hclosed] at hposted
    cases hposted

theorem Orderly.elsewhere (h : Orderly F stateDir name s) {clockMs random : Nat} {id : Ulid}
    {source : G.State} (hid : G.generate s.source clockMs random = some (id, source)) :
    Orderly F stateDir name { s with source } := by
  have hbelow : ∀ {u}, Below s.source u → Below source u := fun hu =>
    below_of_generate hid (le_of_lt (hu.lt hid))
  refine ⟨h.scraps, h.distinct, h.closed, fun p hp => ?_⟩
  obtain ⟨hpath, hcursor, hincreasing, hdisk, hbehind⟩ := h.opened p hp
  exact ⟨hpath, hcursor, hincreasing, fun d hd => (hdisk d hd).imp_right hbelow, fun hposted =>
    ⟨fun m hm => hbelow ((hbehind hposted).1 m hm), fun q hq => hbelow ((hbehind hposted).2 q hq)⟩⟩

theorem Orderly.post (hF : F.Faithful) (hT : F.RejectsTorn) (h : Orderly F stateDir name s)
    (hp : s.partition = some p) {clockMs random : Nat} {draft : Draft} {fault : Option AppendFault}
    (hok : s.StartsLater (.post clockMs random draft fault)) {id : Ulid} {source : G.State}
    (hid : G.generate s.source clockMs random = some (id, source))
    {r : Except Failure Ulid} {w : World}
    (hpub : p.publish F fault s.disk (draft.message id) = (r, w)) :
    Orderly F stateDir name (⟨source, true, some w.partition, w.disk⟩ : Daemon G) := by
  have hopened := h.opened p hp
  obtain ⟨hlog, hpositions⟩ := hopened.isAhead hp hok hid
  obtain ⟨hpath, hcursor, hcursors, hmessages, bs, hbs, hcontent⟩ := publish_writes hpub
  rw [hopened.path] at hpath hcontent
  -- everything the file holds is below the new id
  have hloadable : ∀ d ∈ loadable F (contentAt s.disk (logPath stateDir name)), d.id < id := by
    intro d hd
    rcases hopened.onDisk d hd with hd | hd
    · exact hlog d hd
    · exact hd.lt hid
  have hsub := loadable_append hF hT h.scraps hbs
  have hdistinct :
      ((loadable F (contentAt s.disk (logPath stateDir name)) ++ [draft.message id]).map
      Message.id).Nodup := by
    rw [List.map_append, List.nodup_append]
    refine ⟨h.distinct, by simp, fun u hu v hv => ?_⟩
    obtain ⟨d, hd, rfl⟩ := List.mem_map.mp hu
    rw [List.map_singleton, List.mem_singleton, Draft.id_message] at hv
    exact hv ▸ ne_of_lt (hloadable d hd)
  have hnew : ∀ m ∈ w.partition.log.messages, m.id ≤ id := by
    intro m hm
    rcases hmessages with heq | heq <;> rw [heq] at hm
    · exact le_of_lt (hlog m hm)
    · rcases List.mem_append.mp hm with hm | hm
      · exact le_of_lt (hlog m hm)
      · rw [List.mem_singleton.mp hm, Draft.id_message]
  refine ⟨hcontent ▸ h.scraps.append hbs, hcontent ▸ hdistinct.sublist (hsub.map _), nofun,
    fun p' hp' => ?_⟩
  obtain rfl := Option.some.inj hp'
  refine ⟨hpath, hcursor.trans hopened.cursorFile, ?_, fun d hd => .inr ?_,
    fun _ => ⟨fun m hm => ?_, fun q hq => ?_⟩⟩
  · rcases hmessages with heq | heq <;> rw [heq]
    · exact hopened.increasing
    · refine List.pairwise_append.mpr ⟨hopened.increasing, List.pairwise_singleton ..,
        fun a ha b hb => ?_⟩
      rw [List.mem_singleton.mp hb, Draft.id_message]
      exact hlog a ha
  · have hd : d ∈ loadable F (contentAt s.disk (logPath stateDir name) ++ bs) := hcontent ▸ hd
    refine below_of_generate hid ?_
    rcases List.mem_append.mp (hsub.subset hd) with hd | hd
    · exact le_of_lt (hloadable d hd)
    · rw [List.mem_singleton.mp hd, Draft.id_message]
  · exact below_of_generate hid (hnew m hm)
  · exact below_of_generate hid (le_of_lt (hpositions q (hcursors ▸ hq)))

theorem Orderly.call (hF : F.Faithful) (h : Orderly F stateDir name s) (hp : s.partition = some p)
    {w : World} (hkept : Kept F ⟨p, s.disk⟩ w) :
    Orderly F stateDir name { s with partition := some w.partition, disk := w.disk } := by
  have hopened := h.opened p hp
  have hmem : ∀ m ∈ w.partition.log.messages, m ∈ p.log.messages :=
    fun m hm => hkept.messages.subset hm
  have hcontent := hkept.content
  rw [show (World.mk p s.disk).partition.log.path = _ from hopened.path] at hcontent
  have hdisk : Scraps F (contentAt w.disk (logPath stateDir name)) ∧
      ((loadable F (contentAt w.disk (logPath stateDir name))).map Message.id).Nodup ∧
      ∀ d ∈ loadable F (contentAt w.disk (logPath stateDir name)),
        d ∈ w.partition.log.messages ∨ Below s.source d.id := by
    rcases hcontent with ⟨hmessages, heq⟩ | ⟨ms, hms, heq⟩
    · rw [heq, hmessages]
      exact ⟨h.scraps, h.distinct, hopened.onDisk⟩
    · rw [heq, loadable_records hF]
      have hincreasing := hopened.increasing.sublist (hms.trans hkept.messages)
      exact ⟨scraps_records ms, List.pairwise_map.mpr (hincreasing.imp fun hlt => ne_of_lt hlt),
        fun d hd => .inl (hms.subset hd)⟩
  refine ⟨hdisk.1, hdisk.2.1, nofun, fun p' hp' => ?_⟩
  obtain rfl := Option.some.inj hp'
  refine ⟨hkept.path.trans hopened.path, hkept.cursorFile.trans hopened.cursorFile,
    hopened.increasing.sublist hkept.messages, hdisk.2.2, fun hposted => ?_⟩
  obtain ⟨hlog, hpositions⟩ := hopened.behind hposted
  refine ⟨fun m hm => hlog m (hmem m hm), fun q hq => ?_⟩
  rcases hkept.positions q hq with hq | ⟨m, hm, rfl⟩
  · exact hpositions q hq
  · exact hlog m hm

/-- **What one step keeps.** -/
theorem Orderly.step (hF : F.Faithful) (hT : F.RejectsTorn) (h : Orderly F stateDir name s)
    {e : DaemonEvent} (hok : s.StartsLater e) (hstep : s.Step F stateDir name e s') :
    Orderly F stateDir name s' := by
  cases hstep with
  | restart => exact h.restart
  | opened hclosed hopen => exact h.open hclosed hopen
  | openFailed hclosed hopen => exact h.openFailed hclosed (open_loads hopen).1
  | elsewhere hid => exact h.elsewhere hid
  | post hp hid hpub => exact h.post hF hT hp hok hid hpub
  | @call faults c p r w hp hc hcall =>
    have hopened := h.opened p hp
    have hpath : p.cursorFile ≠ p.log.path := by
      rw [hopened.path, hopened.cursorFile]
      exact (logPath_ne_cursorPath _ _).symm
    exact h.call hF hp (kept_of_call hpath hc hcall)

theorem orderly_of_exec (hF : F.Faithful) (hT : F.RejectsTorn)
    (h : Exec ((lifetimes G F stateDir name).restrict Daemon.StartsLater) es s) :
    Orderly F stateDir name s := by
  refine h.invariant (I := fun _ s => Orderly F stateDir name s) (fun s hs => ?_)
    fun es s e s' _ ih hstep => ?_
  · obtain ⟨-, hposted, hnone, hfresh, -⟩ := hs
    have hempty : contentAt s.disk (logPath stateDir name) = [] := by simp [contentAt, hfresh]
    refine ⟨hempty ▸ scraps_records [], ?_, fun _ => hposted,
      fun p hp => by rw [hnone] at hp; cases hp⟩
    rw [hempty]
    exact List.nodup_nil
  · exact ih.step hF hT hstep.1 hstep.2

/-- **The log is increasing, and new messages lie beyond every position.** -/
theorem lifetimes_ordered (hF : F.Faithful) (hT : F.RejectsTorn)
    (h : Exec ((lifetimes G F stateDir name).restrict Daemon.StartsLater) es s)
    (hp : s.partition = some p) :
    (p.log.messages.Pairwise fun a b => a.id < b.id) ∧
      ∀ clockMs random draft fault, s.StartsLater (.post clockMs random draft fault) →
        ∀ id source, G.generate s.source clockMs random = some (id, source) →
          ∀ q, p.cursors.Holds q → q < (draft.message id).id := by
  have hopened := (orderly_of_exec hF hT h).opened p hp
  refine ⟨hopened.increasing, fun clockMs random draft fault hok id source hid q hq => ?_⟩
  rw [Draft.id_message]
  exact (hopened.isAhead hp hok hid).2 q hq

/-! ## Two processes -/

theorem exists_post_loaded {ms : List Message} {disk : Disk}
    (hcontent : contentAt disk (logPath stateDir name) = ms.flatMap (recordOf F))
    (hcursor : disk[cursorPath stateDir name]? = none) (hroom : ms.length < usizeMax.toNat)
    {source source' : G.State} {clockMs random : Nat} {id : Ulid}
    (hid : G.generate source clockMs random = some (id, source')) (draft : Draft) : ∃ p disk',
      Daemon.Step F stateDir name ⟨source, false, some (.loaded stateDir name ms), disk⟩
        (.post clockMs random draft none) ⟨source', true, some p, disk'⟩ ∧
      p.log.messages = ms ++ [draft.message id] ∧
      contentAt disk' (logPath stateDir name) = (ms ++ [draft.message id]).flatMap (recordOf F) ∧
      disk'[cursorPath stateDir name]? = none := by
  refine ⟨_, _, .post rfl hid (Partition.publish_of_room rfl (draft.message id) hroom), rfl, ?_, ?_⟩
  · show contentAt (disk.insert (logPath stateDir name) _) (logPath stateDir name) = _
    rw [contentAt_insert_self, List.flatMap_append, List.flatMap_singleton]
    exact congrArg (· ++ recordOf F (draft.message id)) hcontent
  · show (disk.insert (logPath stateDir name) _)[cursorPath stateDir name]? = none
    rw [Std.ExtTreeMap.getElem?_insert, if_neg (by simp [logPath_ne_cursorPath]), hcursor]

theorem getElem?_touch {disk : Disk} (h : disk[cursorPath stateDir name]? = none) :
    (touch disk (logPath stateDir name))[cursorPath stateDir name]? = none := by
  simp [touch, Std.ExtTreeMap.getElem?_insert, logPath_ne_cursorPath, h]

theorem exists_two_lifetimes (hF : F.Faithful) (ok : Daemon G → DaemonEvent → Prop)
    (stateDir : Path) (name : PartitionName) (c₁ c₂ : Nat) {id₁ id₂ : Ulid}
    {source₁ source₂ : G.State} (draft : Draft)
    (hid₁ : G.generate G.fresh c₁ 0 = some (id₁, source₁))
    (hid₂ : G.generate G.fresh c₂ 0 = some (id₂, source₂)) (hopen : ∀ s, ok s (.open none))
    (hrestart : ∀ s, ok s .restart)
    (hok₁ : ∀ disk, ok ⟨G.fresh, false, some (.loaded stateDir name []), disk⟩
      (.post c₁ 0 draft none))
      (hok₂ : ∀ disk, ok ⟨G.fresh, false, some (.loaded stateDir name [draft.message id₁]), disk⟩
        (.post c₂ 0 draft none)) : ∃ s p,
      Exec ((lifetimes G F stateDir name).restrict ok) [.open none, .post c₁ 0 draft none, .restart,
        .open none, .post c₂ 0 draft none] s ∧
      s.partition = some p ∧ p.log.messages = [draft.message id₁, draft.message id₂] := by
  have hempty : contentAt ∅ (logPath stateDir name) = [].flatMap (recordOf F) := by simp [contentAt]
  have hopen₁ := open_of_records hF hempty (by simp) .nil
  have hcontent : contentAt (touch ∅ (logPath stateDir name)) (logPath stateDir name) =
      [].flatMap (recordOf F) := by
    rw [contentAt_touch, hempty]
  obtain ⟨p₁, disk₁, hpost₁, -, hcontent₁, hcursor₁⟩ := exists_post_loaded hcontent
    (getElem?_touch (by simp)) (by decide) hid₁ draft
  have hopen₂ := open_of_records hF hcontent₁ hcursor₁ (List.pairwise_singleton ..)
  have hcontent' : contentAt (touch disk₁ (logPath stateDir name)) (logPath stateDir name) =
      [draft.message id₁].flatMap (recordOf F) := by
    rw [contentAt_touch]
    exact hcontent₁
  obtain ⟨p₂, disk₂, hpost₂, hmessages, -, -⟩ :=
    exists_post_loaded hcontent' (getElem?_touch hcursor₁)
    (show 1 < usizeMax.toNat by decide) hid₂ draft
  have hinit : Exec ((lifetimes G F stateDir name).restrict ok) [] ⟨G.fresh, false, none, ∅⟩ :=
    .init ⟨rfl, rfl, rfl, by simp, by simp⟩
  have hstep₁ := hinit.step ⟨hopen _, .opened rfl hopen₁⟩
  have hstep₂ := hstep₁.step ⟨hok₁ _, hpost₁⟩
  have hstep₃ := hstep₂.step ⟨hrestart _, .restart⟩
  have hstep₄ := hstep₃.step ⟨hopen _, .opened rfl hopen₂⟩
  exact ⟨_, p₂, hstep₄.step ⟨hok₂ _, hpost₂⟩, rfl, hmessages⟩

def sampleDraft : Draft := ⟨"", devTopic, "", .normal, none, false⟩

/-- The clock reads later in the second process, which goes on to post again. -/
theorem lifetimes_ordered_later_clock : ∃ es s p,
    Exec ((lifetimes .monotonic .reference "/state" sampleName).restrict Daemon.StartsLater) es s ∧
    es = [.open none, .post 5000 0 sampleDraft none, .restart, .open none,
      .post 10000 0 sampleDraft none] ∧
    s.partition = some p ∧
    p.log.messages = [sampleDraft.message (.fromParts 5000 0),
      sampleDraft.message (.fromParts 10000 0)] ∧
    (p.log.messages.Pairwise fun a b => a.id < b.id) := by
  have hlater : ∀ ms : List Message, ∀ clockMs < 2 ^ 48, (∀ m ∈ ms, m.id.timestampMs < clockMs) →
      ∀ disk, Daemon.StartsLater
        (⟨none, false, some (.loaded "/state" sampleName ms), disk⟩ : Daemon .monotonic)
        (.post clockMs 0 sampleDraft none) := by
    intro ms clockMs hclock hms disk _ p hp
    obtain rfl := Option.some.inj hp
    exact ⟨hclock, hms, fun q hq => absurd hq (by simp [Partition.loaded, CursorStore.Holds])⟩
  obtain ⟨s, p, hx, hp, hmessages⟩ := exists_two_lifetimes (G := .monotonic)
    Formats.reference_faithful Daemon.StartsLater "/state" sampleName 5000 10000 sampleDraft rfl rfl
    (fun _ => trivial) (fun _ => trivial)
    (hlater [] 5000 (by decide) fun _ hm => absurd hm List.not_mem_nil)
    (hlater _ 10000 (by decide) fun m hm => by
      rw [List.mem_singleton.mp hm, Draft.id_message, Ulid.timestampMs_fromParts (by decide)]
      decide)
  exact ⟨_, s, p, hx, rfl, hp, hmessages,
    (lifetimes_ordered Formats.reference_faithful Formats.reference_rejectsTorn hx hp).1⟩

/-- The clock is set back by five seconds between two processes. -/
theorem second_lifetime_behind : ∃ es s p,
    Exec (lifetimes .monotonic .reference "/state" sampleName) es s ∧
    es = [.open none, .post 10000 0 sampleDraft none, .restart, .open none,
      .post 5000 0 sampleDraft none] ∧
    s.partition = some p ∧ ¬ p.log.messages.Pairwise fun a b => a.id < b.id := by
  obtain ⟨s, p, hx, hp, hmessages⟩ := exists_two_lifetimes (G := .monotonic)
    Formats.reference_faithful (fun _ _ => True) "/state" sampleName 10000 5000 sampleDraft rfl rfl
      (fun _ => trivial) (fun _ => trivial)
    (fun _ => trivial) (fun _ => trivial)
  refine ⟨_, s, p, hx.of_restrict, rfl, hp, ?_⟩
  rw [hmessages]
  decide

end AgentBus
