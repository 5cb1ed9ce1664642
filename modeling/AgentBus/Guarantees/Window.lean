import AgentBus.Daemon.Lifetimes
import AgentBus.Daemon.Replay
import AgentBus.Daemon.Requests
import AgentBus.Daemon.Timeline

/-!
# The retention window

A sweep prunes the partitions that are open, and a partition is opened when a
request names it, with all that its file holds. `window_bounds_readers` says
that nobody is given a message older than the window and a sweep interval, as
long as no file is opened that holds an expired message.
-/

namespace AgentBus

open Lib PartitionLog

/-! ## Who is given what -/

def Dispatch.messages : Dispatch → List Message
  | .reply (.messages ms) => ms
  | _ => []

/-- The messages that a connection holds for its client. -/
def Connection.given : Connection → List Message
  | .answering (.response (.messages ms)) _ => ms
  | .leaving _ (.response (.messages ms)) => ms
  | .delivered _ _ batch => batch
  | _ => []

/-- What `deliver` or `history` returned in the step that led to this state. -/
def Service.returned (s : Service) : ServiceEvent → List Message
  | .connection i (.request _ _ _) => (s.connections[i]?).elim [] Connection.given
  | .connection i (.check _) => (s.connections[i]?).elim [] Connection.given
  | _ => []

/-- The partition that the section under the lock is about. -/
def Connection.partition : Connection → ConnectionEvent → Option String
  | .reading, .request q _ _ => q.partition
  | .entered p, .subscribe _ _ => some p.partition
  | .checking _ place, .check _ => some place.name.asStr
  | _, _ => none

/-- The partition whose files a section about this one reads. -/
def Bus.opens (b : Bus) (n : String) : Option PartitionName :=
  (PartitionName.parse n).toOption.filter fun name => (b.state.partitions[name.asStr]?).isNone

/-- The partition whose files a step reads. -/
def Service.opens (s : Service) : ServiceEvent → Option PartitionName
  | .connection i e => ((s.connections[i]?).bind fun c => c.partition e).bind s.shared.bus.opens
  | _ => none

/-- Not expired at that second. -/
def Message.Young (secs : Nat) (m : Message) : Prop :=
  m.ageSecs secs < RetentionPolicy.default.maxAgeSecs

instance (secs : Nat) (m : Message) : Decidable (m.Young secs) := Nat.decLt _ _

/-- A file that is opened held no expired message at the last sweep. -/
def Timeline.OpensYoung (F : Formats) {G : IdSource} (t : Timeline G) : TimelineEvent → Prop
  | .restart _ _ => True
  | .step now _ e => now < 2 ^ 48 ∧ ∀ name ∈ t.service.opens e,
      ∀ m ∈ loadable F (contentAt t.service.shared.bus.disk
        (logPath t.service.shared.bus.state.stateDir name)), m.Young (t.swept / 1000)

/-! ## Messages in memory -/

namespace Bus

/-- Every message in memory meets `Q`. -/
structure Holds (Q : Message → Prop) (b : Bus) : Prop where
  policy : b.state.policy = .default
  messages : ∀ (n : String) (p : Partition), b.state.partitions[n]? = some p →
    ∀ m ∈ p.log.messages, Q m

/-- So does every message that a section about this partition reads from its file. -/
def Loads (F : Formats) (Q : Message → Prop) (b : Bus) (n : String) : Prop :=
  ∀ name ∈ b.opens n, ∀ m ∈ loadable F (contentAt b.disk (logPath b.state.stateDir name)), Q m

variable {F : Formats} {Q : Message → Prop} {b b' : Bus} {name : PartitionName} {p : Partition}

theorem Holds.imp {Q' : Message → Prop} (h : b.Holds Q) (himp : ∀ m, Q m → Q' m) : b.Holds Q' :=
  ⟨h.policy, fun n p hp m hm => himp m (h.messages n p hp m hm)⟩

theorem Holds.put (h : b.Holds Q) {n : String} {w : World}
    (hw : ∀ m ∈ w.partition.log.messages, Q m) : (b.put n w).Holds Q := by
  refine ⟨h.policy, fun k p hp => ?_⟩
  rw [Bus.put, Std.ExtTreeMap.getElem?_insert] at hp
  split at hp
  · obtain rfl := Option.some.inj hp
    exact hw
  · exact h.messages k p hp

theorem Holds.partitionMut (h : b.Holds Q) (hloads : b.Loads F Q name.asStr)
    {fault : Option Partition.OpenFault} {r : Except Failure Partition}
    (hopen : b.partitionMut F fault name = (r, b')) : b'.Holds Q := by
  rcases partitionMut_cases (F := F) fault b name with
    ⟨p, -, heq⟩ | ⟨hnone, ⟨p, disk, hloaded, heq⟩ | ⟨e, disk, -, heq⟩⟩ <;>
    obtain ⟨-, rfl⟩ := Prod.mk.inj (heq.symm.trans hopen)
  · exact h
  · obtain ⟨-, hp⟩ := open_loads hloaded
    have hmem : name ∈ b.opens name.asStr := by
      rw [opens, PartitionName.parse_asStr, Option.mem_def, Option.filter_eq_some_iff]
      exact ⟨rfl, by rw [hnone]; rfl⟩
    refine h.put fun m hm => hloads name hmem m ?_
    rw [(hp p rfl).2.2] at hm
    exact (List.mem_insertionSort _).mp hm
  · exact ⟨h.policy, h.messages⟩

theorem Holds.deliver (h : b.Holds Q) (hp : b.state.partitions[name.asStr]? = some p)
    {fault : Option Partition.PersistFault} {pattern : Pattern} {label : String} {limit : UInt64}
    {r : Except Failure (List Message)}
    (hdeliver : b.deliver F fault name p pattern label limit = (r, b')) :
    b'.Holds Q ∧ ∀ batch, r = .ok batch → ∀ m ∈ batch, Q m := by
  have hmessages := h.messages _ p hp
  obtain ⟨w, hlog, -, ⟨e, heq, -⟩ | ⟨heq, -⟩⟩ :=
    deliver_cases (F := F) fault b name p pattern label limit <;>
    obtain ⟨rfl, rfl⟩ := Prod.mk.inj (heq.symm.trans hdeliver)
  · exact ⟨h.put (by rwa [hlog]), nofun⟩
  · refine ⟨h.put (by rwa [hlog]), fun batch hbatch m hm => ?_⟩
    obtain rfl := Except.ok.inj hbatch
    exact hmessages m (Partition.mem_of_mem_merged hm)

theorem Holds.publish (h : b.Holds Q) (hp : b.state.partitions[name.asStr]? = some p)
    {fault : Option AppendFault} {m : Message} {r : Except Failure Ulid} {w : World}
    (hpublish : p.publish F fault b.disk m = (r, w)) (hm : Q m) : (b.put name.asStr w).Holds Q := by
  have hmessages := h.messages _ p hp
  obtain ⟨-, -, -, heq | heq, -⟩ := publish_writes hpublish
  · exact h.put (by rwa [heq])
  · refine h.put fun m' hm' => ?_
    rw [heq, List.mem_append, List.mem_singleton] at hm'
    rcases hm' with hm' | rfl
    · exact hmessages m' hm'
    · exact hm

theorem Holds.recordLatency (h : b.Holds Q) (millis : Nat → Nat) (batch : List Message) :
    (b.recordLatency millis batch).Holds Q := by
  obtain ⟨-, hpolicy, hpartitions⟩ := fields_recordLatency b.state millis batch
  exact ⟨hpolicy.trans h.policy, fun n p hp => h.messages n p (hpartitions ▸ hp)⟩

theorem Holds.recordPost (h : b.Holds Q) (bodyBytes : Nat) : (b.recordPost bodyBytes).Holds Q :=
  ⟨h.policy, h.messages⟩

theorem forall_messages {d : Dispatch} (h : d.messages = []) : ∀ m ∈ d.messages, Q m := by
  rw [h]
  exact List.forall_mem_nil Q

/-- **A request hands out messages in memory, those of the file it opens included.** -/
theorem Holds.dispatch (h : b.Holds Q) {q : Request} {r : Readings} {faults : Faults} {d : Dispatch}
    (hloads : ∀ n, q.partition = some n → b.Loads F Q n)
    (hid : q.drawsId = true → ∀ m, m.id = r.id → Q m)
    (hdispatch : b.dispatch F faults r q = (d, b')) : b'.Holds Q ∧ ∀ m ∈ d.messages, Q m := by
  have htouched : (b.touch (r.instant 0)).Holds Q := ⟨h.policy, h.messages⟩
  cases handled_of_dispatch hdispatch with
  | refused | status | metrics | shutdown => exact ⟨htouched, forall_messages rfl⟩
  | unopened hname hopen =>
    exact ⟨htouched.partitionMut (hloads _ hname) hopen, forall_messages rfl⟩
  | @worked name p b₁ b₂ d hname hopen hwork =>
    have hopened : b₁.Holds Q := htouched.partitionMut (hloads _ hname) hopen
    have hp := getElem?_partitionMut hopen
    cases hwork with
    | ensured | followed => exact ⟨hopened, forall_messages rfl⟩
    | replayed =>
      refine ⟨hopened, fun m hm => hopened.messages _ p hp m ?_⟩
      exact List.mem_of_mem_filter (List.mem_of_mem_filter hm)
    | unposted hdraws hm hpublish =>
      exact ⟨hopened.publish hp hpublish (hid hdraws _ hm), forall_messages rfl⟩
    | posted hdraws hm hpublish =>
      exact ⟨(hopened.publish hp hpublish (hid hdraws _ hm)).recordPost _, forall_messages rfl⟩
    | undelivered hdeliver | waiting hdeliver =>
      exact ⟨(hopened.deliver hp hdeliver).1, forall_messages rfl⟩
    | delivered hdeliver =>
      obtain ⟨hdelivered, hbatch⟩ := hopened.deliver hp hdeliver
      exact ⟨hdelivered.recordLatency _ _, hbatch _ rfl⟩

/-! ## Sweeps -/

/-- What a prune may leave of a partition, and does leave of the ones it has got to. -/
def Pruned (now : Nat) (done : String → Prop) (b b' : Bus) : Prop :=
  b'.state.policy = b.state.policy ∧ ∀ (n : String) (p' : Partition),
    b'.state.partitions[n]? = some p' → ∃ p, b.state.partitions[n]? = some p ∧
      ∀ m ∈ p'.log.messages, m ∈ p.log.messages ∧
      (done n → b.state.policy.keeps now m = true)

theorem pruned_pruneOne (b : Bus) (now : Nat) (n : String) :
    Pruned now (· = n) b (b.pruneOne F none now n).2 := by
  unfold pruneOne
  split
  · next hnone =>
    refine ⟨rfl, fun k p' hp' => ⟨p', hp', fun m hm => ⟨hm, fun hk => ?_⟩⟩⟩
    rw [hk, hnone] at hp'
    cases hp'
  · next p hp =>
    obtain ⟨count, w, hprune, hmessages, -⟩ :=
      p.exists_prune_none (F := F) b.disk b.state.policy now
    rw [hprune]
    refine ⟨rfl, fun k p' hp' => ?_⟩
    simp only [Bus.put, Std.ExtTreeMap.getElem?_insert] at hp'
    split at hp'
    · next hk =>
      obtain rfl := Option.some.inj hp'
      refine ⟨p, by rw [← Std.LawfulEqCmp.eq_of_compare hk]; exact hp, fun m hm => ?_⟩
      rw [hmessages, List.mem_filter] at hm
      exact ⟨hm.1, fun _ => hm.2⟩
    · next hk =>
      refine ⟨p', hp', fun m hm => ⟨hm, fun heq => absurd ?_ hk⟩⟩
      rw [heq]
      exact Std.ReflCmp.compare_self

theorem pruned_pruneEach (now : Nat) (names : List String) (b : Bus) :
    Pruned now (· ∈ names) b (pruneEach F (fun _ => none) now names b).2 := by
  induction names generalizing b with
  | nil =>
    exact ⟨rfl, fun k p' hp' => ⟨p', hp', fun m hm => ⟨hm, fun hk => absurd hk List.not_mem_nil⟩⟩⟩
  | cons n names ih =>
    obtain ⟨hpolicy, hone⟩ := pruned_pruneOne (F := F) b now n
    obtain ⟨hpolicy', hrest⟩ := ih (b.pruneOne F none now n).2
    rw [pruneEach_cons]
    refine ⟨hpolicy'.trans hpolicy, fun k p' hp' => ?_⟩
    obtain ⟨p₁, hp₁, hmessages₁⟩ := hrest k p' hp'
    obtain ⟨p, hp, hmessages⟩ := hone k p₁ hp₁
    refine ⟨p, hp, fun m hm => ?_⟩
    obtain ⟨hm₁, hkeeps₁⟩ := hmessages₁ m hm
    obtain ⟨hm, hkeeps⟩ := hmessages m hm₁
    refine ⟨hm, fun hk => ?_⟩
    rcases List.mem_cons.mp hk with rfl | hk
    · exact hkeeps rfl
    · rw [← hpolicy]
      exact hkeeps₁ hk

/-- **After a sweep every message in memory is retained.** -/
theorem Holds.pruneAll (h : b.Holds Q) (now : Nat) :
    (b.pruneAll F (fun _ => none) now).2.Holds fun m => Q m ∧ m.Young now := by
  obtain ⟨hpolicy, hpruned⟩ := pruned_pruneEach (F := F) now b.state.partitions.keys b
  refine ⟨hpolicy.trans h.policy, fun n p' hp' m hm => ?_⟩
  obtain ⟨p, hp, hmessages⟩ := hpruned n p' hp'
  refine ⟨h.messages n p hp m (hmessages m hm).1, ?_⟩
  have hkeys : n ∈ b.state.partitions.keys := by
    rw [Std.ExtTreeMap.mem_keys, Std.ExtTreeMap.mem_iff_isSome_getElem?, hp]
    rfl
  have hkeeps := (hmessages m hm).2 hkeys
  rw [h.policy] at hkeeps
  exact of_decide_eq_true hkeeps

end Bus

/-! ## Steps -/

section Steps

variable {F : Formats} {Q : Message → Prop} {sh sh' : Shared} {c c' : Connection}

theorem given_handle (socket : Path) (d : Dispatch) :
    (Connection.handle socket d).given = d.messages := by
  cases d with
  | reply r => cases r <;> rfl
  | _ => rfl

theorem given_fail (p : Parked) (e : BusError) : (p.fail e).given = [] := by
  cases hkind : p.kind <;> simp only [Parked.fail, hkind, Connection.given]

theorem Bus.Holds.subscribe {b b' : Bus} (h : b.Holds Q) {p : Parked}
    (hloads : b.Loads F Q p.partition) {fault : Option Partition.OpenFault} {now : Nat}
    (hsub : p.subscribe F fault now b = (c, b')) : b'.Holds Q := by
  cases Parked.subscribed_of_subscribe hsub with
  | unnamed => exact h
  | unopened hpartition hopen | subscribed hpartition hopen =>
    exact h.partitionMut (hpartition ▸ hloads) hopen

theorem Bus.Holds.check {b b' : Bus} (h : b.Holds Q) {p : Parked} {place : Subscription}
    (hloads : b.Loads F Q place.name.asStr) {faults : Faults}
    (hcheck : p.check F faults place b = (c, b')) : b'.Holds Q ∧ ∀ m ∈ c.given, Q m := by
  have hdelivered : ∀ q b₁ r b₂, b.partitionMut F faults.openFault place.name = (.ok q, b₁) →
      b₁.deliver F faults.persist place.name q p.pattern p.label p.kind.limit = (r, b₂) →
      b₂.Holds Q ∧ ∀ batch, r = .ok batch → ∀ m ∈ batch, Q m := by
    intro q b₁ r b₂ hopen hdeliver
    exact (h.partitionMut hloads hopen).deliver (Bus.getElem?_partitionMut hopen) hdeliver
  cases Parked.checked_of_check hcheck with
  | unopened hopen =>
    rw [given_fail]
    exact ⟨h.partitionMut hloads hopen, List.forall_mem_nil Q⟩
  | broken _ hopen hdeliver =>
    rw [given_fail]
    exact ⟨(hdelivered _ _ _ _ hopen hdeliver).1, List.forall_mem_nil Q⟩
  | missed _ hopen hdeliver => exact ⟨(hdelivered _ _ _ _ hopen hdeliver).1, List.forall_mem_nil Q⟩
  | idle hopen hdeliver => exact ⟨(hdelivered _ _ _ _ hopen hdeliver).1, List.forall_mem_nil Q⟩
  | waited _ hopen hdeliver =>
    obtain ⟨hholds, hbatch⟩ := hdelivered _ _ _ _ hopen hdeliver
    refine ⟨hholds, fun m hm => hbatch _ rfl m ?_⟩
    rw [List.mem_singleton.mp hm]
    exact List.mem_cons_self
  | followed _ hopen hdeliver =>
    obtain ⟨hholds, hbatch⟩ := hdelivered _ _ _ _ hopen hdeliver
    exact ⟨hholds, hbatch _ rfl⟩

/-- **A step keeps messages in memory that meet `Q`, and returns such messages.** -/
theorem Bus.Holds.connection {e : ConnectionEvent} (h : sh.bus.Holds Q)
    (hstep : c.Step F sh e sh' c') (hloads : ∀ n, c.partition e = some n → sh.bus.Loads F Q n)
    (hid : ∀ q faults r, e = .request q faults r → q.drawsId = true → ∀ m, m.id = r.id → Q m) :
    sh'.bus.Holds Q ∧ ((∃ q faults r, e = .request q faults r) ∨ (∃ faults, e = .check faults) →
      ∀ m ∈ c'.given, Q m) := by
  cases hstep with
  | @request q faults r d b hdispatch =>
    -- the id of a request is drawn for the step, whatever else it reads comes from the shared state
    have hdrawn : q.drawsId = true → ∀ m, m.id = (sh.readings r).id → Q m := hid q faults r rfl
    obtain ⟨hholds, hmessages⟩ := h.dispatch hloads hdrawn hdispatch
    refine ⟨hholds, fun _ => ?_⟩
    rw [given_handle]
    exact hmessages
  | subscribe hsub => exact ⟨h.subscribe (hloads _ rfl) hsub, by simp⟩
  | check hcheck =>
    obtain ⟨hholds, hgiven⟩ := h.check (hloads _ rfl) hcheck
    exact ⟨hholds, fun _ => hgiven⟩
  | record => exact ⟨h.recordLatency _ _, by simp⟩
  | enter => exact ⟨by rwa [Shared.bus_enter], by simp⟩
  | leave => exact ⟨by rwa [Shared.bus_leave], by simp⟩
  | _ => exact ⟨h, by simp⟩

/-- Any step of a daemon, as long as the sweeps meet no fault. -/
theorem Bus.Holds.service {threshold : Nat} {s s' : Service} {e : ServiceEvent}
    (h : s.shared.bus.Holds Q) (hstep : s.Step F threshold e s')
    (hloads : ∀ name ∈ s.opens e, ∀ m ∈ loadable F (contentAt s.shared.bus.disk
      (logPath s.shared.bus.state.stateDir name)), Q m)
    (hid : ∀ i q faults r, e = .connection i (.request q faults r) → q.drawsId = true →
      ∀ m, m.id = r.id → Q m)
    (hprune : ∀ faults now instant, e = .sweep (.prune faults now instant) →
      faults = fun _ => none) :
    s'.shared.bus.Holds Q ∧ ∀ m ∈ s'.returned e, Q m := by
  cases hstep with
  | accept _ => exact ⟨h, List.forall_mem_nil Q⟩
  | @connection i c c' e sh hc hconn =>
    have hopens : ∀ n, c.partition e = some n → s.shared.bus.Loads F Q n := by
      intro n hn name hname
      refine hloads name ?_
      simp only [Service.opens, hc, Option.bind_some, hn]
      exact hname
    obtain ⟨hholds, hgiven⟩ := h.connection hconn hopens fun q faults r heq =>
      hid i q faults r (by rw [heq])
    refine ⟨hholds, ?_⟩
    cases e with
    | request q faults r =>
      simp only [Service.returned, Std.ExtTreeMap.getElem?_insert_self, Option.elim_some]
      exact hgiven (.inl ⟨q, faults, r, rfl⟩)
    | check faults =>
      simp only [Service.returned, Std.ExtTreeMap.getElem?_insert_self, Option.elim_some]
      exact hgiven (.inr ⟨faults, rfl⟩)
    | _ => exact List.forall_mem_nil Q
  | @sweep e sh w hsweep =>
    generalize s.sweeper = v at hsweep
    cases hsweep with
    | @prune faults now instant r b hpruned =>
      have hholds := h.pruneAll (F := F) now
      rw [← hprune faults now instant rfl, hpruned] at hholds
      exact ⟨hholds.imp fun _ hm => hm.1, List.forall_mem_nil Q⟩
    | loadWaiters | loadFollowers | idle _ _ | busy | signal => exact ⟨h, List.forall_mem_nil Q⟩

/-- After a prune. -/
theorem Bus.Holds.swept {threshold now instant : Nat} {s s' : Service} (h : s.shared.bus.Holds Q)
    (hstep : s.Step F threshold (.sweep (.prune (fun _ => none) now instant)) s') :
    s'.shared.bus.Holds (Message.Young now) := by
  cases hstep with
  | sweep hsweep =>
    generalize s.sweeper = v at hsweep
    cases hsweep with
    | prune hpruned =>
      have hholds := h.pruneAll (F := F) now
      rw [hpruned] at hholds
      exact hholds.imp fun _ hm => hm.2

end Steps

/-! ## Runs -/

namespace Timeline

variable {G : IdSource} {F : Formats} {threshold : Nat} {stateDir : Path} {t t' : Timeline G}

/-- A message whose id is drawn now is young. -/
theorem young_of_clock_le {now secs : Nat} {m : Message} (h : now ≤ m.id.timestampMs)
    (hsecs : secs ≤ now / 1000) : m.Young secs := by
  have hle : now / 1000 ≤ m.id.timestampMs / 1000 := Nat.div_le_div_right h
  simp only [Message.Young, Message.ageSecs, RetentionPolicy.default]
  omega

/-- No message in memory had expired at the last sweep. -/
def Fresh (t : Timeline G) : Prop := t.swept ≤ t.now ∧
    t.service.shared.bus.Holds (Message.Young (t.swept / 1000))

theorem fresh_start (G : IdSource) (stateDir : Path) (now instant : Nat) (disk : Disk) :
    (start G stateDir now instant disk).Fresh := by
  refine ⟨le_rfl, rfl, fun n p hp => ?_⟩
  rw [start, Service.start, BusState.new, Std.ExtTreeMap.getElem?_empty] at hp
  cases hp

section Stamped

variable {now random : Nat} {e e' : ServiceEvent} {source : G.State}

theorem opens_of_stamped (h : t.Stamped now random e e' source) (s : Service) :
    s.opens e' = s.opens e := by
  cases h with
  | drawn _ | request _ =>
    have hpartition : ∀ (c : Connection) q faults r r',
        c.partition (.request q faults r) = c.partition (.request q faults r') := by
      intro c q faults r r'
      cases c <;> rfl
    simp only [Service.opens]
    congr 2
    exact funext fun c => hpartition c ..
  | prune | other _ _ => rfl

theorem returned_of_stamped (h : t.Stamped now random e e' source) (s : Service) :
    s.returned e' = s.returned e := by
  cases h <;> rfl

theorem drawn_of_stamped {i : Nat} {q : Request} {faults : Faults} {r : Readings}
    (h : t.Stamped now random e (.connection i (.request q faults r)) source)
    (hdraws : q.drawsId = true) : G.generate t.source now random = some (r.id, source) := by
  cases h with
  | drawn hdraw => exact hdraw
  | request hnone => rw [hnone] at hdraws; cases hdraws
  | other hrequest _ => exact absurd rfl (hrequest i q faults r)

theorem pruned_of_stamped {faults : String → Option Partition.PruneFault} {secs instant : Nat}
    (h : t.Stamped now random e (.sweep (.prune faults secs instant)) source) :
    faults = (fun _ => none) ∧ secs = now / 1000 := by
  cases h with
  | prune => exact ⟨rfl, rfl⟩
  | other _ hprune => exact absurd rfl (hprune faults secs instant)

theorem sweptAfter_cases (now swept : Nat) (e : ServiceEvent) : sweptAfter now swept e = swept ∨
    ∃ faults secs instant, e = .sweep (.prune faults secs instant) ∧
      sweptAfter now swept e = now := by
  unfold sweptAfter
  split
  · exact .inr ⟨_, _, _, rfl, rfl⟩
  · exact .inl rfl

end Stamped

/-- **A step keeps the messages in memory fresh, and returns messages that were fresh at the last
sweep.** -/
theorem Fresh.step {e : TimelineEvent} (h : t.Fresh) (hopens : t.OpensYoung F e)
    (hstep : t.Step F threshold stateDir e t') :
    t'.Fresh ∧ ∀ now random e', e = .step now random e' →
      now ≤ t.swept + sweepIntervalSecs * 1000 ∧ ∀ m ∈ t'.service.returned e',
        m.Young (t.swept / 1000) := by
  cases hstep with
  | restart hnow => exact ⟨fresh_start .., fun _ _ _ heq => by cases heq⟩
  | @step now random e e' source service hnow hlimit hstamped hstep =>
    obtain ⟨hswept, hholds⟩ := h
    obtain ⟨hclock, hopens⟩ := hopens
    have hle : t.swept ≤ now := hswept.trans hnow
    rw [← opens_of_stamped hstamped] at hopens
    have hdrawn : ∀ i q faults r, e' = .connection i (.request q faults r) → q.drawsId = true →
        ∀ m : Message, m.id = r.id → m.Young (t.swept / 1000) := by
      rintro i q faults r rfl hdraws m hm
      refine young_of_clock_le ?_ (Nat.div_le_div_right hle)
      rw [hm]
      exact G.clock_le (drawn_of_stamped hstamped hdraws) hclock
    have hprune : ∀ faults secs instant, e' = .sweep (.prune faults secs instant) →
        faults = fun _ => none := by
      rintro faults secs instant rfl
      exact (pruned_of_stamped hstamped).1
    obtain ⟨hkept, hreturned⟩ := hholds.service hstep hopens hdrawn hprune
    refine ⟨?_, ?_⟩
    · rcases sweptAfter_cases now t.swept e' with heq | ⟨faults, secs, instant, rfl, heq⟩
      · refine ⟨heq.trans_le hle, ?_⟩
        rw [heq]
        exact hkept
      · obtain ⟨rfl, rfl⟩ := pruned_of_stamped hstamped
        refine ⟨heq.le, ?_⟩
        rw [heq]
        exact hholds.swept hstep
    · rintro _ _ _ ⟨⟩
      rw [← returned_of_stamped hstamped]
      exact ⟨hlimit, hreturned⟩

/-- In a run that opens no file with an expired message, memory is fresh. -/
theorem fresh_of_exec {es : List TimelineEvent}
    (h : Exec ((timeline G F threshold stateDir).restrict (OpensYoung F)) es t) : t.Fresh := by
  refine h.invariant (I := fun _ t => t.Fresh) ?_ ?_
  · rintro t ⟨now, instant, disk, rfl⟩
    exact fresh_start ..
  · rintro es t e t' - hfresh ⟨hopens, hnext⟩
    exact (hfresh.step hopens (step_of_next hnext)).1

end Timeline

/-- **Nobody is given a message older than the window and a sweep interval.** -/
theorem window_bounds_readers {G : IdSource} {F : Formats} {threshold : Nat} {stateDir : Path}
    {es : List TimelineEvent} {now random : Nat} {e : ServiceEvent} {t : Timeline G}
    (h : Exec ((timeline G F threshold stateDir).restrict (Timeline.OpensYoung F))
      (es ++ [.step now random e]) t) :
    ∀ m ∈ t.service.returned e,
      m.ageSecs (now / 1000) < RetentionPolicy.default.maxAgeSecs + sweepIntervalSecs := by
  obtain ⟨t₀, hx, hopens, hnext⟩ := h.last_step
  obtain ⟨-, hreturned⟩ := (Timeline.fresh_of_exec hx).step hopens (Timeline.step_of_next hnext)
  obtain ⟨hlimit, hyoung⟩ := hreturned now random e rfl
  intro m hm
  have hage : m.ageSecs (t₀.swept / 1000) < RetentionPolicy.default.maxAgeSecs := hyoung m hm
  simp only [Message.ageSecs, sweepIntervalSecs] at hage hlimit ⊢
  omega

/-! ## A message that a later daemon reads -/

def postRequest : ServiceEvent :=
  .connection 0 (.request (.post "iot_base/dev_01" "" .normal none false) noFaults (readingsAt 1))

def readRequest : ServiceEvent :=
  .connection 0 (.request (.read "iot_base/dev_01" "alice") noFaults (readingsAt 0))

/-- Alice posts and the daemon stops; another one starts at second `secs`, and she reads. -/
def readAfterStop (secs : Nat) : List TimelineEvent :=
  [.step (0 * 1000) 0 (.accept 0), .step 1000 0 postRequest, .restart (secs * 1000) 0,
    .step (secs * 1000) 0 (.accept 0), .step (secs * 1000) 0 readRequest]

/-- Her message. -/
def oldMessage : Message := sampleMessage 1 devTopic

/-- The only file is the log that holds it. -/
structure HoldsOld (disk : Disk) : Prop where
  content : contentAt disk (logPath "/state" sampleName) =
    [oldMessage].flatMap (recordOf .reference)
  cursor : disk[cursorPath "/state" sampleName]? = none

theorem holdsOld_of_post (now : Nat) {r : Readings} (hid : r.id = .fromParts 1000 0)
    (hts : r.ts = "") :
    HoldsOld ((⟨.new "/state" now, ∅⟩ : Bus).dispatch .reference noFaults r
      (.post "iot_base/dev_01" "" .normal none false)).2.disk := by
  have hparse : Topic.parse "iot_base/dev_01" = .ok devTopic := by rfl
  have hname : PartitionName.parse devTopic.partition = .ok sampleName := by rfl
  have hempty : contentAt ∅ (logPath "/state" sampleName) = [].flatMap (recordOf .reference) := by
    simp [contentAt]
  have hopen := open_of_records Formats.reference_faithful hempty Std.ExtTreeMap.getElem?_empty .nil
  have hroom : (Partition.loaded "/state" sampleName []).log.messages.length <
    usizeMax.toNat := by decide
  simp only [Bus.dispatch, Bus.arm, Bus.post, hparse, hname, Bus.partitionMut, Bus.touch,
    BusState.touch, BusState.new, Std.ExtTreeMap.getElem?_empty, noFaults, hopen, Bus.put,
    Bus.recordPost, Partition.publish_of_room rfl _ hroom, hid, hts, Bool.false_eq_true, if_false]
  constructor
  · rw [show (Partition.loaded "/state" sampleName []).log.path =
      logPath "/state" sampleName from rfl,
      contentAt_insert_self, contentAt_touch, hempty, List.flatMap_nil, List.nil_append,
      List.flatMap_singleton]
    exact congrArg (recordOf .reference) rfl
  · rw [Std.ExtTreeMap.getElem?_insert, if_neg (by simp [Partition.loaded, logPath_ne_cursorPath])]
    simp [touch, logPath_ne_cursorPath]

theorem read_of_holdsOld {disk : Disk} (h : HoldsOld disk) (now : Nat) (r : Readings) :
    ((⟨.new "/state" now, disk⟩ : Bus).dispatch .reference noFaults r
      (.read "iot_base/dev_01" "alice")).1 =
      .reply (.messages [oldMessage]) := by
  have hopen := open_of_records Formats.reference_faithful h.content h.cursor
    (List.pairwise_singleton ..)
  have hparse : Pattern.parse "iot_base/dev_01" = .ok devPattern := by rfl
  have hname : PartitionName.parse devPattern.partition = .ok sampleName := by rfl
  have hmerged : (Partition.loaded "/state" sampleName [oldMessage]).merged devPattern
      "alice" usizeMax = [oldMessage] := by decide
  simp only [Bus.dispatch, Bus.arm, Bus.read, Bus.resolve, hparse, hname,
    Bus.partitionMut, Bus.touch, BusState.touch, BusState.new, Std.ExtTreeMap.getElem?_empty,
    noFaults, hopen, Bus.deliver, Partition.deliver_none, hmerged]

/-- A new daemon to which one client has connected. -/
def connectedAt (secs : Nat) (disk : Disk) : Timeline .monotonic :=
  let t := Timeline.start .monotonic "/state" (secs * 1000) 0 disk
  { t with service := { t.service with connections := t.service.connections.insert 0 .reading } }

theorem next_accept (secs : Nat) (disk : Disk) :
    (Timeline.start .monotonic "/state" (secs * 1000) 0 disk).next .reference
      idleShutdownSecs "/state" (.step (secs * 1000) 0 (.accept 0)) =
        some (connectedAt secs disk) := by
  have hinTime : secs * 1000 ≤ secs * 1000 ∧
    secs * 1000 ≤ secs * 1000 + sweepIntervalSecs * 1000 := by omega
  simp only [Timeline.next, Timeline.start, if_pos hinTime, Timeline.stamp,
    Option.bind_some, Service.next, Service.start, Std.ExtTreeMap.getElem?_empty, Option.map_some]
  rfl

theorem exists_next_post : ∃ t, (connectedAt 0 ∅).next .reference idleShutdownSecs "/state"
    (.step 1000 0 postRequest) = some t ∧ t.now = 1000 ∧ HoldsOld t.service.shared.bus.disk := by
  have hinTime : 0 * 1000 ≤ 1000 ∧ 1000 ≤ 0 * 1000 + sweepIntervalSecs * 1000 := by decide
  have hdraws : Request.drawsId (.post "iot_base/dev_01" "" .normal none false) = true := by rfl
  have hid : IdSource.monotonic.generate IdSource.monotonic.fresh 1000 0 =
      some (.fromParts 1000 0, some (.fromParts 1000 0)) := rfl
  simp only [Timeline.next, connectedAt, Timeline.start, if_pos hinTime,
    Timeline.stamp, postRequest, if_pos hdraws, hid, Service.next, Service.start, Connection.next]
  exact ⟨_, rfl, rfl, holdsOld_of_post 0 rfl rfl⟩

theorem exists_next_read (secs : Nat) {disk : Disk} (h : HoldsOld disk) : ∃ t,
    (connectedAt secs disk).next .reference idleShutdownSecs "/state"
      (.step (secs * 1000) 0 readRequest) = some t ∧
      oldMessage ∈ t.service.returned readRequest := by
  have hinTime : secs * 1000 ≤ secs * 1000 ∧
    secs * 1000 ≤ secs * 1000 + sweepIntervalSecs * 1000 := by omega
  simp only [Timeline.next, connectedAt, Timeline.start, if_pos hinTime,
    Timeline.stamp, readRequest, Request.drawsId, Option.bind_some, Service.next, Service.start,
    Std.ExtTreeMap.getElem?_insert_self,
    Option.map_some, Connection.next, Service.returned, Bool.false_eq_true, if_false,
    read_of_holdsOld h 0]
  exact ⟨_, rfl, List.mem_singleton_self _⟩

theorem exists_read_after_stop (ok : Timeline .monotonic → TimelineEvent → Prop) (secs : Nat)
    (hsecs : 1 ≤ secs)
    (haccept : ∀ secs' ≤ secs, ∀ disk, ok (.start .monotonic "/state" (secs' * 1000) 0 disk)
      (.step (secs' * 1000) 0 (.accept 0)))
    (hpost : ok (connectedAt 0 ∅) (.step 1000 0 postRequest))
    (hrestart : ∀ t, ok t (.restart (secs * 1000) 0))
    (hread : ∀ disk, HoldsOld disk → ok (connectedAt secs disk)
      (.step (secs * 1000) 0 readRequest)) :
    ∃ t, Exec ((timeline .monotonic .reference idleShutdownSecs "/state").restrict ok)
    (readAfterStop secs) t ∧
      oldMessage ∈ t.service.returned readRequest := by
  obtain ⟨t, hposted, hnow, hdisk⟩ := exists_next_post
  have hrestarted : t.next .reference idleShutdownSecs "/state" (.restart (secs * 1000) 0) =
      some (.start .monotonic "/state" (secs * 1000) 0 t.service.shared.bus.disk) := by
    rw [Timeline.next, if_pos (by omega)]
  obtain ⟨t', hanswered, hmem⟩ := exists_next_read secs hdisk
  have hinit : Exec ((timeline .monotonic .reference idleShutdownSecs "/state").restrict ok) []
      (.start .monotonic "/state" (0 * 1000) 0 ∅) := .init ⟨0, 0, ∅, rfl⟩
  have hstep₁ := hinit.step ⟨haccept 0 (Nat.zero_le _) ∅, next_accept 0 ∅⟩
  have hstep₂ := hstep₁.step ⟨hpost, hposted⟩
  have hstep₃ := hstep₂.step ⟨hrestart t, hrestarted⟩
  have hstep₄ := hstep₃.step ⟨haccept secs le_rfl _, next_accept secs _⟩
  exact ⟨t', hstep₄.step ⟨hread _ hdisk, hanswered⟩, hmem⟩

/-- The second daemon starts after half a minute. -/
theorem window_bounds_readers_next_daemon : ∃ t : Timeline .monotonic,
    Exec ((timeline .monotonic .reference idleShutdownSecs "/state").restrict
      (Timeline.OpensYoung .reference)) (readAfterStop 30) t ∧
      oldMessage ∈ t.service.returned readRequest ∧
    oldMessage.ageSecs (30 * 1000 / 1000) < RetentionPolicy.default.maxAgeSecs +
      sweepIntervalSecs := by
  have haccept : ∀ secs ≤ 30, ∀ disk,
      (Timeline.start .monotonic "/state" (secs * 1000) 0 disk).OpensYoung
      .reference (.step (secs * 1000) 0 (.accept 0)) := fun secs hsecs disk => ⟨by omega, nofun⟩
  have hpost : (connectedAt 0 ∅).OpensYoung .reference (.step 1000 0 postRequest) := by
    refine ⟨by decide, fun name _ m hm => ?_⟩
    rw [show contentAt (connectedAt 0 ∅).service.shared.bus.disk _ = [] from rfl] at hm
    cases hm
  have hread : ∀ disk, HoldsOld disk →
      (connectedAt 30 disk).OpensYoung .reference (.step (30 * 1000) 0 readRequest) := by
    intro disk hdisk
    refine ⟨by decide, fun name hname m hm => ?_⟩
    have hopens : (connectedAt 30 disk).service.opens readRequest = some sampleName := by rfl
    obtain rfl := Option.some.inj (hopens.symm.trans hname)
    have hloaded : m ∈ loadable .reference (contentAt disk (logPath "/state" sampleName)) := hm
    rw [hdisk.content, loadable_records Formats.reference_faithful, List.mem_singleton] at hloaded
    rw [hloaded, show (connectedAt 30 disk).swept = 30 * 1000 from rfl]
    decide
  obtain ⟨t, hx, hmem⟩ := exists_read_after_stop _ 30 (by decide) haccept hpost
    (fun _ => trivial) hread
  have hlast : Exec ((timeline .monotonic .reference idleShutdownSecs "/state").restrict
      (Timeline.OpensYoung .reference))
        ((readAfterStop 30).dropLast ++ [.step (30 * 1000) 0 readRequest]) t := hx
  exact ⟨t, hx, hmem, window_bounds_readers hlast oldMessage hmem⟩

/-- The second daemon starts after three hours: sweeps would have removed the message by then. -/
theorem old_message_returned : ∃ t : Timeline .monotonic,
    Exec (timeline .monotonic .reference idleShutdownSecs "/state") (readAfterStop 10800) t ∧
    oldMessage ∈ t.service.returned readRequest ∧
    oldMessage.ageSecs (10800 * 1000 / 1000) = 10799 := by
  obtain ⟨t, hx, hmem⟩ := exists_read_after_stop (fun _ _ => True) 10800 (by decide)
    (fun _ _ _ => trivial) trivial (fun _ => trivial) (fun _ _ => trivial)
  exact ⟨t, hx.of_restrict, hmem, by decide⟩

end AgentBus
