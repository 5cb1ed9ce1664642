import AgentBus.Daemon.Delivery
import AgentBus.Lib.Wakeup

/-!
# Waiting and following tasks

A connection that waits or follows is a task: it subscribes to the partition's
signals, then delivers again and again under the state lock, and blocks on the
signal channel whenever there was nothing to deliver. `serving` interleaves any
number of such tasks with the calls of other clients, one locked section a
step.
-/

namespace AgentBus

open Lib

inductive TaskKind where
  /-- `wait_for_message`: one message, then the connection gets its response. -/
  | wait
  /-- `follow`: every batch, until the client goes away. -/
  | follow

def TaskKind.limit : TaskKind → UInt64
  | wait => 1
  | follow => usizeMax

structure Task where
  kind : TaskKind
  pattern : Pattern
  label : String
  /-- How many of the partition's signals lie behind its receiver. -/
  received : Nat
  phase : Phase

structure Server where
  world : World
  tasks : Nat → Option Task

inductive Action where
  /-- Another client's call. -/
  | call (event : Event)
  | subscribe (task : Nat) (kind : TaskKind) (pattern : Pattern) (label : String)
  /-- One locked delivery, and the batch it found. -/
  | check (task : Nat) (batch : List Message)
  /-- `recv` returns: a signal, or a lag over `signals` of them. -/
  | recv (task : Nat) (signals : Nat)
  /-- The timeout expires, or the client goes away. -/
  | leave (task : Nat)

namespace Task

/-- Signals that `recv` would return for. -/
def pending (t : Task) (w : World) : Nat := w.partition.notify - t.received

/-- Nothing found: block. Something found: a wait responds, a follow sends it and checks again. -/
def afterCheck (t : Task) (batch : List Message) : Option Task :=
  if batch.isEmpty then some { t with phase := .blocked }
  else
    match t.kind with
    | .wait => none
    | .follow => some t

end Task

def Server.setTask (s : Server) (i : Nat) (t : Option Task) : Server :=
  { s with tasks := Function.update s.tasks i t }

inductive Server.Step (F : Formats) (stateDir : Path) (s : Server) : Action → Server → Prop where
  | call {e : Event} {w : World} : e.call.isOnline →
      s.world.call F stateDir noFaults e.call = (.ok e.reply, w) →
      Step F stateDir s (.call e) { s with world := w }
  | subscribe {i : Nat} (kind : TaskKind) (pattern : Pattern) (label : String) : s.tasks i = none →
      Step F stateDir s (.subscribe i kind pattern label)
        (s.setTask i (some ⟨kind, pattern, label, s.world.partition.notify, .checking⟩))
  | check {i : Nat} {t : Task} {batch : List Message} {w : World} : s.tasks i = some t →
      t.phase = .checking →
      s.world.partition.deliver F none s.world.disk t.pattern t.label t.kind.limit =
        (.ok batch, w) →
      Step F stateDir s (.check i batch) { s.setTask i (t.afterCheck batch) with world := w }
  | recv {i : Nat} {t : Task} {k : Nat} : s.tasks i = some t → t.phase = .blocked → 0 < k →
      k ≤ t.pending s.world →
      Step F stateDir s (.recv i k)
        (s.setTask i (some { t with received := t.received + k, phase := .checking }))
  | leave {i : Nat} {t : Task} : s.tasks i = some t →
      Step F stateDir s (.leave i) (s.setTask i none)

/-- A partition of any state directory, opened, with its tasks. -/
def serving (F : Formats) (stateDir : Path) (name : PartitionName) : System Server Action where
  init s := (∃ disk, World.open F none stateDir name disk = .ok s.world) ∧ ∀ i, s.tasks i = none
  step _ s a s' := s.Step F stateDir a s'

/-! ## Tasks as waiters -/

/-- What a task watches a partition for. -/
def watch : Watch Partition (Pattern × String) where
  signals := Partition.notify
  idle p i := ∀ m ∈ p.log.messages, p.mailbox.isUnread scheme i.1 i.2 m = false

def Task.waiter (t : Task) : Waiter (Pattern × String) :=
  ⟨(t.pattern, t.label), t.received, t.phase⟩

variable {F : Formats} {stateDir : Path} {name : PartitionName} {w w' : World}

theorem idle_iff (h : w.partition.Ascending) {limit : UInt64} (hlimit : 0 < limit.toNat)
    (pattern : Pattern) (label : String) : watch.idle w.partition (pattern, label) ↔
      w.partition.merged pattern label limit = [] :=
  (Partition.merged_eq_nil_iff h hlimit pattern label).symm

theorem TaskKind.limit_pos (kind : TaskKind) : 0 < kind.limit.toNat := by
  cases kind <;> decide

/-- A posted message lies below no message of the log. -/
def Call.PostsAbove (w : World) (c : Call) : Prop :=
  ∀ m ∈ c.posts, ∀ m' ∈ w.partition.log.messages, m'.id ≤ m.id

instance (w : World) (c : Call) : Decidable (c.PostsAbove w) :=
  inferInstanceAs (Decidable (∀ m ∈ c.posts, ∀ m' ∈ w.partition.log.messages, m'.id ≤ m.id))

/-- What every step of a server keeps of its partition. -/
structure Served (w : World) : Prop where
  attached : w.partition.log.file = .attached
  ascending : w.partition.Ascending

theorem served_of_open {disk : Disk} (h : World.open F none stateDir name disk = .ok w) :
    Served w := by
  simp only [World.open, Partition.open, Option.bind_none, PartitionLog.open] at h
  cases hload : loadLines F (readLines (PartitionLog.contentAt disk (logPath stateDir name))) with
  | none => rw [hload] at h; cases h
  | some r =>
    simp only [hload] at h
    split at h
    · next hopen =>
      split at hopen
      · cases hopen
      · obtain ⟨hp, rfl⟩ := Prod.mk.inj hopen
        obtain rfl := Except.ok.inj hp
        obtain rfl := Except.ok.inj h
        exact ⟨rfl, List.pairwise_insertionSort (fun a b : Message => a.id ≤ b.id) r.1⟩
    · cases h

theorem Served.deliver (h : Served w) (pattern : Pattern) (label : String) (limit : UInt64) :
    Served (w.partition.deliver F none w.disk pattern label limit).2 ∧ watch.Announced w.partition
      (w.partition.deliver F none w.disk pattern label limit).2.partition := by
  rw [Partition.deliver_none]
  refine ⟨⟨h.attached, h.ascending⟩, .of_quiet rfl fun i hidle m hm => ?_⟩
  rw [Bool.eq_false_iff]
  exact fun hunread => Bool.eq_false_iff.mp (hidle m hm) (Partition.isUnread_of_recordBatch hunread)

/-- **A call announces what it brings up.** -/
theorem Served.call (h : Served w) {c : Call} {reply : Reply} (honline : c.isOnline)
    (habove : c.PostsAbove w) (hcall : w.call F stateDir noFaults c = (.ok reply, w')) :
    Served w' ∧ watch.Announced w.partition w'.partition := by
  cases c with
  | publish m =>
    obtain ⟨id, hpub, -⟩ := publish_of_call hcall
    have hroom := Partition.room_of_publish h.attached hpub
    rw [show noFaults.append = none from rfl, Partition.publish_of_room h.attached m hroom] at hpub
    obtain ⟨-, rfl⟩ := Prod.mk.inj hpub
    refine ⟨⟨h.attached, ?_⟩, .of_signal rfl⟩
    refine List.pairwise_append.mpr ⟨h.ascending, List.pairwise_singleton .., fun a ha b hb => ?_⟩
    rw [List.mem_singleton.mp hb]
    exact habove m (List.mem_singleton_self m) a ha
  | deliver pattern label limit =>
    obtain ⟨ms, hdel, -⟩ := deliver_of_call hcall
    have hdeliver := h.deliver (F := F) pattern label limit
    rw [show noFaults.persist = none from rfl] at hdel
    rw [hdel] at hdeliver
    exact hdeliver
  | prune policy now =>
    obtain ⟨count, hprune, -⟩ := prune_of_call hcall
    obtain ⟨hmail, hfile, hnotify⟩ := Partition.mailbox_of_prune h.attached hprune
    have hlog : w'.partition.log.messages = w.partition.log.messages.filter (policy.keeps now) :=
      (congrArg Mailbox.log hmail).trans (Mailbox.log_expire _)
    refine ⟨⟨hfile, ?_⟩, .of_quiet hnotify fun i hidle m hm => ?_⟩
    · rw [Partition.Ascending, hlog]
      exact h.ascending.sublist List.filter_sublist
    · rw [hlog] at hm
      have hexpire := Mailbox.isUnread_expire (S := scheme) (s := w.partition.mailbox) (p := i.1)
        (l := i.2) h.ascending hm
      rw [hmail, hexpire, hidle m (List.mem_of_mem_filter hm), Bool.false_and]
  | history _ _ _ | reopen => exact absurd honline id

/-! ## Runs -/

/-- The partition is in order and no task sleeps through anything. -/
structure Server.Awake (s : Server) : Prop where
  served : Served s.world
  alert : ∀ i t, s.tasks i = some t → watch.Alert s.world.partition t.waiter

namespace Server

variable {s s' : Server}

theorem Awake.setTask (h : s.Awake) (i : Nat) {t : Option Task}
    (ht : ∀ t', t = some t' → watch.Alert s.world.partition t'.waiter) : (s.setTask i t).Awake := by
  refine ⟨h.served, fun j t' hj => ?_⟩
  simp only [Server.setTask, Function.update_apply] at hj
  split at hj
  · exact ht t' hj
  · exact h.alert j t' hj

theorem Awake.setWorld (h : s.Awake) (hw : Served w)
    (hchange : watch.Announced s.world.partition w.partition) : ({ s with world := w }).Awake :=
  ⟨hw, fun i t ht => (h.alert i t ht).of_announced hchange⟩

/-- **What one step keeps.** -/
theorem Awake.step (h : s.Awake) {a : Action}
    (habove : ∀ e, a = .call e → e.call.PostsAbove s.world) (hstep : s.Step F stateDir a s') :
    s'.Awake := by
  cases hstep with
  | call honline hcall =>
    obtain ⟨hserved, hchange⟩ := h.served.call honline (habove _ rfl) hcall
    exact h.setWorld hserved hchange
  | subscribe kind pattern label hfree =>
    refine h.setTask _ fun t ht => ?_
    obtain rfl := Option.some.inj ht
    exact Watch.alert_subscribe _
  | @check i t batch w ht hphase hdel =>
    obtain ⟨hserved, hchange⟩ := h.served.deliver (F := F) t.pattern t.label t.kind.limit
    rw [hdel] at hserved hchange
    refine (h.setTask i fun t' ht' => ?_).setWorld hserved hchange
    rw [Partition.deliver_none] at hdel
    have hbatch : w.partition.notify = s.world.partition.notify ∧
        s.world.partition.merged t.pattern t.label t.kind.limit = batch := by
      obtain ⟨hbatch, rfl⟩ := Prod.mk.inj hdel
      exact ⟨rfl, Except.ok.inj hbatch⟩
    unfold Task.afterCheck at ht'
    split at ht'
    · next hnil =>
      obtain rfl := Option.some.inj ht'
      refine (h.alert i t ht).block ((idle_iff h.served.ascending t.kind.limit_pos _ _).mpr ?_)
      rw [hbatch.2]
      exact List.isEmpty_iff.mp hnil
    · split at ht'
      · cases ht'
      · obtain rfl := Option.some.inj ht'
        exact h.alert i t ht
  | @recv i t k ht hphase hpos hk =>
    refine h.setTask _ fun t' ht' => ?_
    obtain rfl := Option.some.inj ht'
    exact (h.alert i t ht).recv hk
  | leave ht => exact h.setTask _ nofun

end Server

end AgentBus
