import AgentBus.Daemon.Requests
import AgentBus.Daemon.Service

/-!
# The histograms and the counters

A partition counts its posts and deliveries, the bus keeps the histograms, and
the callers of a partition see to it that both move together. The one that does
not is the check of a parked wait: `histograms_agree` says that the latencies
add up to the deliveries as long as no such check finds a message. Counters and
cells are taken to stay below `2 ^ 64`, where the source's `u64` do not overflow.
-/

namespace AgentBus

open Lib

/-! ## Accounts -/

namespace Bus

def posts (b : Bus) : ℕ := sumOver (fun p => p.tally.posts) b.state.partitions

def deliveries (b : Bus) : ℕ := sumOver (fun p => p.tally.deliveries) b.state.partitions

def sizes (b : Bus) : ℕ := b.state.busTally.sizeHist.total

def latencies (b : Bus) : ℕ := b.state.busTally.latencyHist.total

/-- The posts that are added are in the sizes; of the deliveries, all but `k` are in the
latencies. -/
structure Adds (k : ℕ) (b b' : Bus) : Prop where
  posts : b'.posts + b.sizes = b.posts + b'.sizes
  deliveries : b'.deliveries + b.latencies = b.deliveries + b'.latencies + k

end Bus

def Faults.isNone (faults : Faults) : Bool :=
  faults.append.isNone && faults.persist.isNone && faults.prune.isNone && faults.openFault.isNone

theorem Faults.eq_of_isNone {faults : Faults} (h : faults.isNone = true) : faults = noFaults := by
  obtain ⟨append, persist, prune, openFault⟩ := faults
  simp only [isNone, Bool.and_eq_true, Option.isNone_iff_eq_none] at h
  obtain ⟨⟨⟨rfl, rfl⟩, rfl⟩, rfl⟩ := h
  rfl

/-- The request met a failed I/O operation. -/
def Dispatch.failed : Dispatch → Bool
  | .reply (.error (.failure _)) => true
  | _ => false

theorem Partition.tally_prune (F : Formats) (fault : Option PruneFault)
    (p : Partition) (disk : Disk) (policy : RetentionPolicy) (now : ℕ) :
    (p.prune F fault disk policy now).2.partition.tally.posts = p.tally.posts ∧
      (p.prune F fault disk policy now).2.partition.tally.deliveries = p.tally.deliveries := by
  unfold Partition.prune
  split
  · exact ⟨rfl, rfl⟩
  · split
    · exact ⟨rfl, rfl⟩
    · simp only
      split <;> exact ⟨rfl, rfl⟩

theorem Partition.tally_of_open {F : Formats} {fault : Option Partition.OpenFault} {stateDir : Path}
    {name : PartitionName} {disk disk' : Disk} {p : Partition}
    (h : Partition.open F fault stateDir name disk = (.ok p, disk')) : p.tally = .new := by
  unfold Partition.open at h
  split at h
  · cases h
  · simp only at h
    split at h
    · cases h
    · obtain ⟨hp, -⟩ := Prod.mk.inj h
      rw [← Except.ok.inj hp]

namespace Bus

variable {F : Formats} {b b' b'' : Bus} {j k : ℕ} {name : PartitionName} {p : Partition} {w : World}

theorem Adds.refl (b : Bus) : Adds 0 b b := ⟨rfl, rfl⟩

theorem Adds.trans (h : Adds j b b') (h' : Adds k b' b'') : Adds (j + k) b b'' := by
  obtain ⟨hposts, hdeliveries⟩ := h
  obtain ⟨hposts', hdeliveries'⟩ := h'
  exact ⟨by omega, by omega⟩

theorem adds_partitionMut {fault : Option Partition.OpenFault} {r : Except Failure Partition}
    (h : b.partitionMut F fault name = (r, b')) : Adds 0 b b' := by
  rcases partitionMut_cases (F := F) fault b name with
    ⟨p, -, heq⟩ | ⟨hnone, ⟨p, disk, hopen, heq⟩ | ⟨e, disk, -, heq⟩⟩ <;>
    obtain ⟨-, rfl⟩ := Prod.mk.inj (heq.symm.trans h)
  · exact .refl b
  · have htally : p.tally = .new := Partition.tally_of_open hopen
    constructor
    · rw [posts, put, sumOver_insert_of_none hnone, htally]
      rfl
    · rw [deliveries, put, sumOver_insert_of_none hnone, htally]
      rfl
  · exact ⟨rfl, rfl⟩

theorem put_counts {n : String} (hp : b.state.partitions[n]? = some p)
    (hposts : w.partition.tally.posts = p.tally.posts + j)
    (hdeliveries : w.partition.tally.deliveries = p.tally.deliveries + k) :
    (b.put n w).posts = b.posts + j ∧ (b.put n w).deliveries = b.deliveries + k := by
  have hsum := sumOver_insert_of_some (f := fun p => p.tally.posts) (v := w.partition) hp
  have hsum' := sumOver_insert_of_some (f := fun p => p.tally.deliveries) (v := w.partition) hp
  simp only [posts, deliveries, put]
  omega

theorem latencies_recordLatency (s : BusState) (millis : ℕ → ℕ) (batch : List Message) :
    (s.recordLatency millis batch).busTally.latencyHist.total =
        s.busTally.latencyHist.total + batch.length ∧
      (s.recordLatency millis batch).busTally.sizeHist = s.busTally.sizeHist ∧
      (s.recordLatency millis batch).partitions = s.partitions := by
  induction batch generalizing s millis with
  | nil => exact ⟨rfl, rfl, rfl⟩
  | cons m ms ih =>
    obtain ⟨htotal, hsizes, hpartitions⟩ := ih (s.recordDeliveryLatency (millis 0) m.id.timestampMs)
        fun n =>
      millis (n + 1)
    refine ⟨?_, hsizes, hpartitions⟩
    rw [BusState.recordLatency, htotal, List.length_cons]
    simp only [BusState.recordDeliveryLatency, BusTally.recordDelivery, Histogram.total_record]
    omega

theorem adds_put {n : String} (hp : b.state.partitions[n]? = some p)
    (hposts : w.partition.tally.posts = p.tally.posts)
    (hdeliveries : w.partition.tally.deliveries = p.tally.deliveries + k) :
    Adds k b (b.put n w) := by
  obtain ⟨hp, hd⟩ := put_counts (j := 0) hp hposts hdeliveries
  exact ⟨by rw [hp]; rfl, by rw [hd, Nat.add_right_comm]; rfl⟩

theorem adds_deliver (hp : b.state.partitions[name.asStr]? = some p)
    (fault : Option Partition.PersistFault) (pattern : Pattern) (label : String) (limit : UInt64)
    {batch : List Message} (h : b.deliver F fault name p pattern label limit = (.ok batch, b')) :
    Adds batch.length b b' := by
  obtain ⟨w, -, -, ⟨e, hdeliver, -⟩ | ⟨hdeliver, htally⟩⟩ :=
    deliver_cases (F := F) fault b name p pattern label limit
  · cases hdeliver.symm.trans h
  · obtain ⟨hbatch, rfl⟩ := Prod.mk.inj (hdeliver.symm.trans h)
    obtain rfl := Except.ok.inj hbatch
    exact adds_put hp (by rw [htally]; rfl) (by rw [htally]; rfl)

theorem adds_open_deliver {openFault : Option Partition.OpenFault}
    {persist : Option Partition.PersistFault} {pattern : Pattern} {label : String} {limit : UInt64}
    {batch : List Message} (hopen : b.partitionMut F openFault name = (.ok p, b'))
    (hdeliver : b'.deliver F persist name p pattern label limit = (.ok batch, b'')) :
    Adds batch.length b b'' := by
  have hadds := (adds_partitionMut hopen).trans
    (adds_deliver (getElem?_partitionMut hopen) persist pattern label limit hdeliver)
  rwa [Nat.zero_add] at hadds

/-- Recording a batch makes up for its delivery. -/
theorem Adds.recordLatency {batch : List Message} (h : Adds (batch.length + k) b b')
    (millis : ℕ → ℕ) : Adds k b (b'.recordLatency millis batch) := by
  obtain ⟨hlatencies, hsizes, hpartitions⟩ := latencies_recordLatency b'.state millis batch
  obtain ⟨hposts, hdeliveries⟩ := h
  simp only [Bus.posts, Bus.deliveries, sizes, latencies] at hposts hdeliveries
  constructor
  · simp only [Bus.posts, sizes, Bus.recordLatency, hsizes, hpartitions]
    exact hposts
  · simp only [Bus.deliveries, latencies, Bus.recordLatency, hlatencies, hpartitions]
    omega

theorem adds_posted (hp : b.state.partitions[name.asStr]? = some p)
    {fault : Option PartitionLog.AppendFault} {m : Message} {id : Ulid}
    (h : p.publish F fault b.disk m = (.ok id, w)) (bodyBytes : ℕ) :
    Adds 0 b ((b.put name.asStr w).recordPost bodyBytes) := by
  have htally : w.partition.tally =
      p.tally.recordPost m.body.utf8ByteSize (m.priority == .high) m.broadcast := by
    unfold Partition.publish at h
    split at h
    · cases h
    · obtain ⟨-, rfl⟩ := Prod.mk.inj h
      rfl
  obtain ⟨hposts, hdeliveries⟩ := put_counts (j := 1) (k := 0) (w := w) hp (by rw [htally]; rfl)
    (by rw [htally]; rfl)
  have hsizes : ((b.put name.asStr w).recordPost bodyBytes).sizes = b.sizes + 1 :=
    Histogram.total_record ..
  constructor
  · rw [show ((b.put name.asStr w).recordPost bodyBytes).posts =
      (b.put name.asStr w).posts from rfl,
      hposts, hsizes]
    omega
  · rw [show ((b.put name.asStr w).recordPost bodyBytes).deliveries =
      (b.put name.asStr w).deliveries from rfl, hdeliveries]
    rfl

/-- **A request that meets no failure leaves the histograms in step.** -/
theorem adds_dispatch {faults : Faults} {r : Readings} {q : Request} {d : Dispatch}
    (h : b.dispatch F faults r q = (d, b')) (hok : (!d.failed) = true) : Adds 0 b b' := by
  cases handled_of_dispatch h with
  | refused | status | metrics | shutdown => exact ⟨rfl, rfl⟩
  | unopened _ _ => cases hok
  | @worked name p b₁ b₂ d _ hopen hwork =>
    have htouched : Adds 0 b (b.touch (r.instant 0)) := ⟨rfl, rfl⟩
    have hopened : Adds 0 b b₁ := htouched.trans (adds_partitionMut hopen)
    have hp := getElem?_partitionMut hopen
    cases hwork with
    | ensured | followed | replayed => exact hopened
    | unposted | undelivered => cases hok
    | posted _ _ hpublish => exact hopened.trans (adds_posted hp hpublish _)
    | waiting hdeliver => exact hopened.trans (adds_deliver hp _ _ _ _ hdeliver)
    | delivered hdeliver =>
      have hdelivered := hopened.trans (adds_deliver hp _ _ _ _ hdeliver)
      rw [Nat.zero_add] at hdelivered
      exact hdelivered.recordLatency (k := 0) r.millis

/-! ## Sweeps -/

theorem adds_pruneOne (fault : Option Partition.PruneFault) (b : Bus) (now : ℕ) (n : String) :
    Adds 0 b (b.pruneOne F fault now n).2 := by
  unfold pruneOne
  split
  · exact .refl b
  · next p hp =>
    obtain ⟨hposts, hdeliveries⟩ := Partition.tally_prune F fault p b.disk b.state.policy now
    exact adds_put hp hposts hdeliveries

theorem adds_pruneEach (faults : String → Option Partition.PruneFault) (now : ℕ)
    (names : List String) (b : Bus) : Adds 0 b (pruneEach F faults now names b).2 := by
  induction names generalizing b with
  | nil => exact .refl b
  | cons n names ih =>
    have hone := adds_pruneOne (F := F) (faults n) b now n
    rw [pruneEach]
    split
    · next h =>
      rw [h] at hone
      exact hone
    · next b' h =>
      rw [h] at hone
      exact hone.trans (ih b')

end Bus

/-! ## Tasks -/

/-- A followed batch whose latencies are to be recorded. -/
def Connection.unrecorded : Connection → List Message
  | .delivered _ _ batch => batch
  | _ => []

/-- There is something unread for a parked wait. -/
def Parked.finds (F : Formats) (p : Parked) (place : Subscription) (b : Bus) : Bool :=
  match (b.partitionMut F none place.name).1 with
  | .error _ => false
  | .ok q => !(q.merged p.pattern p.label TaskKind.wait.limit).isEmpty

/-- A parked wait is about to check, and there is something unread for it. -/
def Connection.finds (F : Formats) (b : Bus) : Connection → ConnectionEvent → Bool
  | .checking p place, .check _ => p.kind == .wait && p.finds F place b
  | _, _ => false

/-- All I/O of the step succeeds. -/
def Shared.succeeds (F : Formats) (sh : Shared) : ConnectionEvent → Bool
  | .request q faults r => faults.isNone && !(sh.bus.dispatch F faults (sh.readings r) q).1.failed
  | .subscribe fault _ => fault.isNone
  | .check faults => faults.isNone
  | _ => true

/-- What a step of a connection adds, with `k` deliveries that nobody will record. -/
structure Connection.Adds (k : ℕ) (sh : Shared) (c : Connection) (sh' : Shared)
    (c' : Connection) : Prop where
  posts : sh'.bus.posts + sh.bus.sizes = sh.bus.posts + sh'.bus.sizes
  deliveries : sh'.bus.deliveries + sh.bus.latencies + c.unrecorded.length =
    sh.bus.deliveries + sh'.bus.latencies + c'.unrecorded.length + k

section Connections

variable {F : Formats} {sh sh' : Shared} {c c' : Connection}

theorem Connection.adds_of_bus {k : ℕ} (h : sh.bus.Adds (c'.unrecorded.length + k) sh'.bus)
    (hc : c.unrecorded = []) : c.Adds k sh sh' c' := by
  obtain ⟨hposts, hdeliveries⟩ := h
  refine ⟨hposts, ?_⟩
  rw [hc, List.length_nil]
  omega

theorem Parked.unrecorded_fail (p : Parked) (e : BusError) : (p.fail e).unrecorded = [] := by
  cases hkind : p.kind <;> simp only [Parked.fail, hkind, Connection.unrecorded]

theorem deliver_none_eq {b b' : Bus} {name : PartitionName} {p : Partition} {pattern : Pattern}
    {label : String} {limit : UInt64} {r : Except Failure (List Message)}
    (h : b.deliver F none name p pattern label limit = (r, b')) :
    r = .ok (p.merged pattern label limit) := by
  simp only [Bus.deliver, Partition.deliver_none] at h
  exact (congrArg Prod.fst h).symm

theorem Parked.finds_of_open {p : Parked} {place : Subscription} {b b' : Bus} {q : Partition}
    (h : b.partitionMut F none place.name = (.ok q, b')) :
    p.finds F place b = !(q.merged p.pattern p.label TaskKind.wait.limit).isEmpty := by
  rw [finds, h]

theorem Parked.adds_of_subscribed {p : Parked} {now : ℕ} {b b' : Bus} {c : Connection}
    (h : Subscribed F none now p b c b') : b.Adds c.unrecorded.length b' := by
  cases h with
  | unnamed =>
    rw [unrecorded_fail]
    exact .refl b
  | unopened _ hopen =>
    rw [unrecorded_fail]
    exact Bus.adds_partitionMut hopen
  | subscribed _ hopen => exact Bus.adds_partitionMut hopen

/-- A check that delivers leaves the batch to be recorded, unless a wait is to be answered with
it. -/
theorem Parked.adds_of_checked {p : Parked} {place : Subscription} {b b' : Bus} {c : Connection}
    (h : Checked F noFaults p place b c b') :
    ∃ k, b.Adds (c.unrecorded.length + k) b' ∧
      (k = 0 ↔ (p.kind == .wait && p.finds F place b) = false) := by
  cases h with
  | unopened hopen =>
    refine ⟨0, ?_, by simp [finds, show b.partitionMut F none place.name = _ from hopen]⟩
    rw [unrecorded_fail]
    exact Bus.adds_partitionMut hopen
  | missed _ _ hdeliver | broken _ _ hdeliver => cases deliver_none_eq hdeliver
  | @idle q b₁ b₂ hopen hdeliver =>
    refine ⟨0, Bus.adds_open_deliver hopen hdeliver, iff_of_true rfl ?_⟩
    have hnothing := Except.ok.inj (deliver_none_eq hdeliver)
    cases hkind : p.kind with
    | follow => rfl
    | wait =>
      rw [hkind] at hnothing
      rw [finds_of_open hopen, ← hnothing]
      rfl
  | @waited q b₁ b₂ m ms hkind hopen hdeliver =>
    have hadds : b.Adds (0 + (m :: ms).length) b' := by
      rw [Nat.zero_add]
      exact Bus.adds_open_deliver hopen hdeliver
    refine ⟨(m :: ms).length, hadds, iff_of_false (Nat.succ_ne_zero _) ?_⟩
    have hfound := Except.ok.inj (deliver_none_eq hdeliver)
    rw [hkind] at hfound
    simp [hkind, finds_of_open hopen, ← hfound]
  | @followed q b₁ b₂ batch hkind hopen hdeliver =>
    refine ⟨0, Bus.adds_open_deliver hopen hdeliver, iff_of_true rfl ?_⟩
    rw [hkind]
    rfl

/-- **Only the check of a parked wait hands out what is not recorded.** -/
theorem Connection.adds_of_step {e : ConnectionEvent} (h : c.Step F sh e sh' c')
    (hok : sh.succeeds F e = true) :
    ∃ k, c.Adds k sh sh' c' ∧ (k = 0 ↔ c.finds F sh.bus e = false) := by
  cases h with
  | @request q faults r d b hdispatch =>
    rw [Shared.succeeds, hdispatch, Bool.and_eq_true] at hok
    have hadds : sh.bus.Adds 0 b := Bus.adds_dispatch hdispatch hok.2
    refine ⟨0, adds_of_bus ?_ rfl, by simp [finds]⟩
    cases d <;> exact hadds
  | @subscribe p fault now _ b hsub =>
    obtain rfl := Option.isNone_iff_eq_none.mp hok
    have hadds := Parked.adds_of_subscribed (Parked.subscribed_of_subscribe hsub)
    exact ⟨0, adds_of_bus hadds rfl, by simp [finds]⟩
  | @check p place faults c b hcheck =>
    obtain rfl := Faults.eq_of_isNone hok
    obtain ⟨k, hadds, hfinds⟩ := Parked.adds_of_checked (Parked.checked_of_check hcheck)
    exact ⟨k, adds_of_bus hadds rfl, hfinds⟩
  | @record p place batch millis =>
    obtain ⟨hlatencies, hsizes, hpartitions⟩ :=
      Bus.latencies_recordLatency sh.bus.state millis batch
    refine ⟨0, ⟨?_, ?_⟩, by simp [finds]⟩
    · simp only [Bus.posts, Bus.sizes, Bus.recordLatency, hsizes, hpartitions]
    · simp only [Bus.deliveries, Bus.latencies, Bus.recordLatency, hlatencies,
        hpartitions, unrecorded, List.length_nil]
      omega
  | enter => exact ⟨0, ⟨by rw [Shared.bus_enter], by rw [Shared.bus_enter]; rfl⟩, by simp [finds]⟩
  | leave => exact ⟨0, ⟨by rw [Shared.bus_leave], by rw [Shared.bus_leave]; rfl⟩, by simp [finds]⟩
  | @answered a ends =>
    refine ⟨0, ⟨rfl, ?_⟩, by simp [finds]⟩
    cases ends with
    | none => rfl
    | some kind => cases kind <;> rfl
  | _ => exact ⟨0, ⟨rfl, rfl⟩, by simp [finds]⟩

end Connections

/-! ## Runs -/

namespace Service

/-- All I/O of a request succeeds. -/
def succeeds (F : Formats) (s : Service) : ServiceEvent → Bool
  | .connection _ e => s.shared.succeeds F e
  | _ => true

/-- A daemon whose I/O succeeds. -/
def faultless (F : Formats) (threshold : ℕ) (stateDir : Path) : System Service ServiceEvent :=
  (service F threshold stateDir).restrict fun s e => s.succeeds F e = true

/-- No parked wait checks while there is something unread for it. -/
def FindsNothing (F : Formats) (s : Service) : ServiceEvent → Prop
  | .connection i e => ∀ c, s.connections[i]? = some c → c.finds F s.shared.bus e = false
  | _ => True

/-- How much of all deliveries a follow is about to record. -/
def unrecorded (s : Service) : ℕ := sumOver (fun c => c.unrecorded.length) s.connections

variable {F : Formats} {threshold : ℕ} {stateDir : Path} {s s' : Service} {es : List ServiceEvent}

/-- What a step adds to the deliveries that are neither recorded nor about to be. -/
theorem adds_of_step {e : ServiceEvent} (h : s.Step F threshold e s')
    (hok : s.succeeds F e = true) :
    s'.shared.bus.posts + s.shared.bus.sizes = s.shared.bus.posts + s'.shared.bus.sizes ∧
      ∃ k, s'.shared.bus.deliveries + s.shared.bus.latencies + s.unrecorded =
          s.shared.bus.deliveries + s'.shared.bus.latencies + s'.unrecorded + k ∧
        (k = 0 ↔ s.FindsNothing F e) := by
  cases h with
  | @accept i hfree =>
    refine ⟨rfl, 0, ?_, by simp [FindsNothing]⟩
    simp only [unrecorded, sumOver_insert_of_none hfree]
    rfl
  | @connection i c c' e sh hc hstep =>
    obtain ⟨k, ⟨hposts, hdeliveries⟩, hfinds⟩ := Connection.adds_of_step hstep hok
    have hsum := sumOver_insert_of_some (f := fun c => c.unrecorded.length) (v := c') hc
    refine ⟨hposts, k, ?_, ?_⟩
    · simp only [unrecorded] at hsum ⊢
      omega
    · rw [hfinds]
      refine ⟨fun h d hd => ?_, fun h => h c hc⟩
      rw [hc] at hd
      rwa [← Option.some.inj hd]
  | @sweep e sh w hstep =>
    have hadds : s.shared.bus.Adds 0 sh.bus := by
      generalize s.sweeper = v at hstep
      cases hstep with
      | @prune faults now instant r b hprune =>
        have hadds := Bus.adds_pruneEach (F := F) faults now
          s.shared.bus.state.partitions.keys s.shared.bus
        rwa [show Bus.pruneEach F faults now _ s.shared.bus = (r, b) from hprune] at hadds
      | loadWaiters | loadFollowers | idle _ _ | busy | signal => exact ⟨rfl, rfl⟩
    obtain ⟨hposts, hdeliveries⟩ := hadds
    exact ⟨hposts, 0, congrArg (· + s.unrecorded) hdeliveries, by simp [FindsNothing]⟩

theorem counts_start (stateDir : Path) (now : ℕ) (disk : Disk) :
    let s := start ⟨.new stateDir now, disk⟩
    s.shared.bus.posts = 0 ∧ s.shared.bus.sizes = 0 ∧ s.shared.bus.deliveries = 0 ∧
      s.shared.bus.latencies = 0 ∧ s.unrecorded = 0 :=
  ⟨sumOver_empty (α := String) _, rfl, sumOver_empty (α := String) _, rfl, sumOver_empty (α := ℕ) _⟩

theorem accounts_of_exec (h : Exec (faultless F threshold stateDir) es s) :
    s.shared.bus.posts = s.shared.bus.sizes ∧
      s.shared.bus.latencies + s.unrecorded ≤ s.shared.bus.deliveries := by
  refine h.invariant (I := fun _ s => s.shared.bus.posts = s.shared.bus.sizes ∧
    s.shared.bus.latencies + s.unrecorded ≤ s.shared.bus.deliveries) ?_ ?_
  · rintro s ⟨disk, now, rfl⟩
    obtain ⟨hposts, hsizes, hdeliveries, hlatencies, hunrecorded⟩ := counts_start stateDir now disk
    omega
  · rintro es s e s' - ⟨hsizes, hle⟩ ⟨hok, hnext⟩
    obtain ⟨hposts, k, hdeliveries, -⟩ := adds_of_step (step_of_next hnext) hok
    exact ⟨by omega, by omega⟩

theorem recorded_of_exec
    (h : Exec ((faultless F threshold stateDir).restrict (FindsNothing F)) es s) :
    s.shared.bus.latencies + s.unrecorded = s.shared.bus.deliveries := by
  refine h.invariant (I := fun _ s => s.shared.bus.latencies + s.unrecorded =
    s.shared.bus.deliveries) ?_ ?_
  · rintro s ⟨disk, now, rfl⟩
    obtain ⟨-, -, hdeliveries, hlatencies, hunrecorded⟩ := counts_start stateDir now disk
    omega
  · rintro es s e s' - heq ⟨hnothing, hok, hnext⟩
    obtain ⟨-, k, hdeliveries, hfinds⟩ := adds_of_step (step_of_next hnext) hok
    have hzero := hfinds.mpr hnothing
    omega

/-- Once a parked wait has found something, there is a delivery that nobody records. -/
theorem recorded_or_missed (h : Exec (faultless F threshold stateDir) es s) :
    Exec ((faultless F threshold stateDir).restrict (FindsNothing F)) es s ∨
      s.shared.bus.latencies + s.unrecorded < s.shared.bus.deliveries := by
  refine h.restrict_or (B := fun _ s => s.shared.bus.latencies + s.unrecorded <
    s.shared.bus.deliveries) ?_ ?_
  · rintro es s e s' hx ⟨hok, hnext⟩ hsomething
    obtain ⟨-, hle⟩ := accounts_of_exec hx
    obtain ⟨-, k, hdeliveries, hfinds⟩ := adds_of_step (step_of_next hnext) hok
    have hpos : k ≠ 0 := fun hzero => hsomething (hfinds.mp hzero)
    omega
  · rintro es s e s' - hlt ⟨hok, hnext⟩
    obtain ⟨-, k, hdeliveries, -⟩ := adds_of_step (step_of_next hnext) hok
    omega

end Service

/-- **The histograms agree with the counters exactly as long as no parked wait finds anything**, all
below `2 ^ 64`. -/
theorem histograms_agree {F : Formats} {threshold : ℕ} {stateDir : Path}
    {es : List ServiceEvent} {s : Service} (h : Exec (Service.faultless F threshold stateDir) es s)
    (hrecorded : ∀ c ∈ s.connections.values, c.unrecorded = []) (r : ReportReadings) :
    let report := buildMetrics s.shared.bus.state r
    report.sizeHistogramBytes.sum = report.totals.posts ∧
      (report.latencyHistogramMs.sum = report.totals.deliveries ↔
        Exec ((Service.faultless F threshold stateDir).restrict
          (Service.FindsNothing F)) es s) := by
  have hzero : s.unrecorded = 0 := List.sum_eq_zero fun n hn => by
    obtain ⟨c, hc, rfl⟩ := List.mem_map.mp hn
    rw [hrecorded c hc, List.length_nil]
  refine ⟨(Service.accounts_of_exec h).1.symm, fun heq => ?_, fun hrun => ?_⟩
  · rcases Service.recorded_or_missed h with hrun | hlt
    · exact hrun
    · rw [hzero, Nat.add_zero] at hlt
      exact absurd heq (Nat.ne_of_lt hlt)
  · have hall := Service.recorded_of_exec hrun
    rwa [hzero, Nat.add_zero] at hall

/-! ## A wait answered at once, and one answered later -/

/-- No task is between a delivery and the end of its request. -/
def Service.isQuiet (s : Service) : Bool :=
  s.connections.values.all fun c => match c with
    | .reading => true
    | _ => false

theorem unrecorded_of_isQuiet {s : Service} (h : s.isQuiet = true) :
    ∀ c ∈ s.connections.values, c.unrecorded = [] := by
  intro c hc
  have hreading := List.all_eq_true.mp h c hc
  cases c with
  | reading => rfl
  | _ => cases hreading

/-- Alice posts, then waits for her own message. -/
def promptWait : List ServiceEvent :=
  [.accept 0, .connection 0 (.request (.post "iot_base/dev_01" "hello" .normal none false) noFaults
      (readingsAt 1)), .connection 0 .sent,
    .connection 0 (.request (.wait "iot_base/dev_01" "alice" none) noFaults (readingsAt 2)),
    .connection 0 .sent]

theorem histograms_agree_prompt_wait : ∃ s,
    Exec (Service.faultless .reference idleShutdownSecs "/state") promptWait s ∧ s.isQuiet = true ∧
    ∀ r, let report := buildMetrics s.shared.bus.state r
      report.sizeHistogramBytes.sum = report.totals.posts ∧
        (report.latencyHistogramMs.sum = report.totals.deliveries ↔
          Exec ((Service.faultless .reference idleShutdownSecs "/state").restrict
            (Service.FindsNothing .reference)) promptWait s) := by
  obtain ⟨s, hx, hquiet⟩ := exec_of_freshService idleShutdownSecs
    (fun s e => s.succeeds .reference e)
    promptWait Service.isQuiet (by decide)
  exact ⟨s, hx, hquiet, histograms_agree hx (unrecorded_of_isQuiet hquiet)⟩

/-- A wait that blocks is answered with a message posted meanwhile. -/
def parkedWait : List ServiceEvent :=
  [.accept 0,
    .connection 0 (.request (.wait "iot_base/dev_01" "alice" none) noFaults (readingsAt 1)),
    .connection 0 .enter, .connection 0 (.subscribe none 1000000000),
    .connection 0 (.check noFaults), .accept 1,
    .connection 1 (.request (.post "iot_base/dev_01" "hello" .normal none false) noFaults
      (readingsAt 2)), .connection 1 .sent,
    .connection 0 (.wake 1), .connection 0 (.check noFaults), .connection 0 .leave,
    .connection 0 .sent]

/-- The message that ends a blocked wait is counted as delivered, and its latency is not
recorded. -/
theorem parked_wait_unrecorded : ∃ s,
    Exec (Service.faultless .reference idleShutdownSecs "/state") parkedWait s ∧ s.isQuiet = true ∧
    ∀ r, let report := buildMetrics s.shared.bus.state r
      report.latencyHistogramMs.sum = 0 ∧ report.totals.deliveries = 1 := by
  obtain ⟨s, hx, hP⟩ := exec_of_freshService idleShutdownSecs (fun s e => s.succeeds .reference e)
    parkedWait
      (fun s => s.isQuiet && decide (s.shared.bus.latencies = 0 ∧ s.shared.bus.deliveries = 1))
    (by decide)
  obtain ⟨hquiet, hcounts⟩ := Bool.and_eq_true_iff.mp hP
  exact ⟨s, hx, hquiet, fun _ => of_decide_eq_true hcounts⟩

end AgentBus
