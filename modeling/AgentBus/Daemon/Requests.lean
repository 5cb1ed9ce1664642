import AgentBus.Daemon.Connection
import AgentBus.Daemon.Steps

/-!
# What a request or a sweep does

A request is refused, or reports, or does one thing to the partition that it
names: `Bus.Handled` is the case analysis of `dispatch` that the proofs about
requests share, and `Parked.Checked` that of the checks which a parked request
makes later.
-/

namespace AgentBus

open Lib

def patternPartition (pattern : String) : Option String :=
  (Pattern.parse pattern).toOption.map fun parsed => parsed.partition

/-- The partition that a request names. -/
def Request.partition : Request → Option String
  | ensure pattern => patternPartition pattern
  | post topic _ _ _ _ => (Topic.parse topic).toOption.map Topic.partition
  | wait pattern _ _ => patternPartition pattern
  | read pattern _ => patternPartition pattern
  | follow pattern _ => patternPartition pattern
  | history pattern _ => patternPartition pattern
  | status => none
  | metrics => none
  | stop => none

/-- A post gets its id once its topic is parsed. -/
def Request.drawsId : Request → Bool
  | .post topic _ _ _ _ =>
    (Topic.parse topic).toOption.any fun topic =>
      (PartitionName.parse topic.partition).toOption.isSome
  | _ => false

namespace Bus

variable {F : Formats}

/-! ## One partition -/

theorem partitionMut_cases (fault : Option Partition.OpenFault) (b : Bus) (name : PartitionName) :
    (∃ p, b.state.partitions[name.asStr]? = some p ∧ b.partitionMut F fault name = (.ok p, b)) ∨
      b.state.partitions[name.asStr]? = none ∧
        ((∃ p disk, Partition.open F fault b.state.stateDir name b.disk = (.ok p, disk) ∧
            b.partitionMut F fault name = (.ok p, b.put name.asStr ⟨p, disk⟩)) ∨
          ∃ e disk, Partition.open F fault b.state.stateDir name b.disk = (.error e, disk) ∧
            b.partitionMut F fault name = (.error e, { b with disk })) := by
  unfold partitionMut
  split
  · next p hp => exact .inl ⟨p, hp, rfl⟩
  · next hnone =>
    refine .inr ⟨hnone, ?_⟩
    split
    · next p disk hopen => exact .inl ⟨p, disk, hopen, rfl⟩
    · next e disk hopen => exact .inr ⟨e, disk, hopen, rfl⟩

theorem getElem?_partitionMut {fault : Option Partition.OpenFault} {b b' : Bus}
    {name : PartitionName} {p : Partition} (h : b.partitionMut F fault name = (.ok p, b')) :
    b'.state.partitions[name.asStr]? = some p := by
  rcases partitionMut_cases (F := F) fault b name with
    ⟨q, hq, heq⟩ | ⟨-, ⟨q, disk, -, heq⟩ | ⟨e, disk, -, heq⟩⟩
  · obtain ⟨hp, rfl⟩ := Prod.mk.inj (heq.symm.trans h)
    exact hq.trans (congrArg some (Except.ok.inj hp))
  · obtain ⟨hp, rfl⟩ := Prod.mk.inj (heq.symm.trans h)
    simp [put, Except.ok.inj hp]
  · cases heq.symm.trans h

/-- A delivery hands out what is unread, or fails if there is something. -/
theorem deliver_cases (fault : Option Partition.PersistFault) (b : Bus) (name : PartitionName)
    (p : Partition) (pattern : Pattern) (label : String) (limit : UInt64) :
    ∃ w, w.partition.log = p.log ∧ w.partition.notify = p.notify ∧
      ((∃ e, b.deliver F fault name p pattern label limit = (.error e, b.put name.asStr w) ∧
          p.merged pattern label limit ≠ [] ∧ w.partition.tally = p.tally) ∨
        b.deliver F fault name p pattern label limit =
            (.ok (p.merged pattern label limit), b.put name.asStr w) ∧
          w.partition.tally = p.tally.recordDeliveries (p.merged pattern label limit).length) := by
  rcases hdeliver : p.deliver F fault b.disk pattern label limit with ⟨e | ms, w⟩
  · obtain ⟨hmerged, hw⟩ := Partition.of_deliver_error hdeliver
    refine ⟨w, by rw [hw], by rw [hw], .inl ⟨e, ?_, hmerged, by rw [hw]⟩⟩
    simp only [deliver, hdeliver]
  · have hms := (Partition.of_deliver_ok hdeliver).1
    refine ⟨w, ?_⟩
    rw [show b.deliver F fault name p pattern label limit = (.ok ms, b.put name.asStr w) by
      simp only [deliver, hdeliver], ← hms]
    unfold Partition.deliver at hdeliver
    simp only at hdeliver
    split at hdeliver
    · cases hdeliver
    · obtain ⟨hms, rfl⟩ := Prod.mk.inj hdeliver
      obtain rfl := Except.ok.inj hms
      exact ⟨rfl, rfl, .inr ⟨rfl, rfl⟩⟩

theorem fields_recordLatency (s : BusState) (millis : Nat → Nat) (batch : List Message) :
    (s.recordLatency millis batch).stateDir = s.stateDir ∧
      (s.recordLatency millis batch).policy = s.policy ∧
      (s.recordLatency millis batch).partitions = s.partitions := by
  induction batch generalizing s millis with
  | nil => exact ⟨rfl, rfl, rfl⟩
  | cons m ms ih => exact ih ..

/-! ## Requests -/

/-- What a request does to the open partition that it names. -/
inductive Work (F : Formats) (faults : Faults) (r : Readings) (q : Request) (name : PartitionName)
    (p : Partition) (b : Bus) : Dispatch → Bus → Prop where
  | ensured {alreadyRunning : Bool} :
      Work F faults r q name p b (.reply (.ensured name.asStr alreadyRunning)) b
  | followed {pattern : Pattern} {label : String} :
      Work F faults r q name p b (.followPending p.name.asStr pattern label) b
  | replayed {pattern : Pattern} {sinceSecs : Option Nat} :
      Work F faults r q name p b (.reply (.messages (p.history pattern sinceSecs r.secs))) b
  | unposted {m : Message} {e : Failure} {w : World} : q.drawsId = true →
      m.id = r.id →
      p.publish F faults.append b.disk m = (.error e, w) →
      Work F faults r q name p b (.reply (.error (.failure e))) (b.put name.asStr w)
  | posted {m : Message} {id : Ulid} {w : World} : q.drawsId = true →
      m.id = r.id →
      p.publish F faults.append b.disk m = (.ok id, w) →
      Work F faults r q name p b (.reply (.posted id r.ts))
        ((b.put name.asStr w).recordPost m.body.utf8ByteSize)
  | undelivered {pattern : Pattern} {label : String} {limit : UInt64} {e : Failure} {b' : Bus} :
      b.deliver F faults.persist name p pattern label limit = (.error e, b') →
      Work F faults r q name p b (.reply (.error (.failure e))) b'
  | waiting {pattern : Pattern} {label : String} {timeoutSecs : Option Nat} {b' : Bus} :
      b.deliver F faults.persist name p pattern label 1 = (.ok [], b') →
      Work F faults r q name p b (.waitPending p.name.asStr pattern label timeoutSecs) b'
  | delivered {pattern : Pattern} {label : String} {limit : UInt64}
      {batch : List Message} {b' : Bus} :
      b.deliver F faults.persist name p pattern label limit = (.ok batch, b') →
      Work F faults r q name p b (.reply (.messages batch)) (b'.recordLatency r.millis batch)

/-- What a request does. -/
inductive Handled (F : Formats) (faults : Faults) (r : Readings) (b : Bus) (q : Request) :
    Dispatch → Bus → Prop where
  | refused {e : CoreError} : Handled F faults r b q (.reply (.error (.core e))) b
  | status {report : StatusReport} : Handled F faults r b q (.reply (.status report)) b
  | metrics {report : MetricsReport} : Handled F faults r b q (.reply (.metrics report)) b
  | shutdown : Handled F faults r b q .shutdown b
  | unopened {name : PartitionName} {e : Failure} {b' : Bus} : q.partition = some name.asStr →
      b.partitionMut F faults.openFault name = (.error e, b') →
      Handled F faults r b q (.reply (.error (.failure e))) b'
  | worked {name : PartitionName} {p : Partition} {b' b'' : Bus} {d : Dispatch} :
      q.partition = some name.asStr → b.partitionMut F faults.openFault name = (.ok p, b') →
      Work F faults r q name p b' d b'' → Handled F faults r b q d b''

theorem named_of_parse {pattern : String} {parsed : Pattern} {name : PartitionName}
    (hparsed : Pattern.parse pattern = .ok parsed)
    (hname : PartitionName.parse parsed.partition = .ok name) :
    patternPartition pattern = some name.asStr := by
  rw [patternPartition, hparsed, PartitionName.asStr_of_parse hname]
  rfl

theorem resolve_cases (fault : Option Partition.OpenFault) (b : Bus) (pattern : String) :
    (∃ e, b.resolve F fault pattern = (.error (.core e), b)) ∨
      ∃ parsed name, patternPartition pattern = some name.asStr ∧
        ((∃ e b', b.partitionMut F fault name = (.error e, b') ∧
          b.resolve F fault pattern = (.error (.failure e), b')) ∨
        ∃ p b', b.partitionMut F fault name = (.ok p, b') ∧
          b.resolve F fault pattern = (.ok (parsed, name, p), b')) := by
  unfold resolve
  split
  · next e _ => exact .inl ⟨e, rfl⟩
  · next parsed hparsed =>
    split
    · next e _ => exact .inl ⟨e, rfl⟩
    · next name hname =>
      refine .inr ⟨parsed, name, named_of_parse hparsed hname, ?_⟩
      rcases hopen : b.partitionMut F fault name with ⟨e | p, b'⟩
      · exact .inl ⟨e, b', rfl, rfl⟩
      · exact .inr ⟨p, b', rfl, rfl⟩

theorem handled_of_resolve {faults : Faults} {r : Readings} {b b' : Bus} {q : Request}
    {d : Dispatch} {pattern : String} (hq : q.partition = patternPartition pattern)
    (herror : ∀ e b₁, b.resolve F faults.openFault pattern = (.error e, b₁) →
      d = .reply (.error e) ∧ b' = b₁)
    (hok : ∀ parsed name p b₁, b.resolve F faults.openFault pattern = (.ok (parsed, name, p), b₁) →
      Work F faults r q name p b₁ d b') : Handled F faults r b q d b' := by
  rcases resolve_cases (F := F) faults.openFault b pattern with
    ⟨e, hresolve⟩ | ⟨parsed, name, hname, ⟨e, b₁, hopen, hresolve⟩ | ⟨p, b₁, hopen, hresolve⟩⟩
  · obtain ⟨rfl, rfl⟩ := herror _ _ hresolve
    exact .refused
  · obtain ⟨rfl, rfl⟩ := herror _ _ hresolve
    exact .unopened (hq.trans hname) hopen
  · exact .worked (hq.trans hname) hopen (hok _ _ _ _ hresolve)

theorem handled_ensure (faults : Faults) (r : Readings) (b : Bus) (pattern : String) :
    Handled F faults r b (.ensure pattern) (b.ensure F faults pattern).1
      (b.ensure F faults pattern).2 := by
  simp only [ensure]
  split
  · exact .refused
  · next parsed hparsed =>
    split
    · exact .refused
    · next name hparse =>
      have hname := named_of_parse hparsed hparse
      rcases hopen : b.partitionMut F faults.openFault name with ⟨e | p, b'⟩
      · exact .unopened hname hopen
      · exact .worked hname hopen .ensured

theorem handled_post (faults : Faults) (r : Readings) (b : Bus) (topic body : String)
    (priority : Priority) («from» : Option String) (broadcast : Bool) :
    Handled F faults r b (.post topic body priority «from» broadcast)
      (b.post F faults r topic body priority «from» broadcast).1
      (b.post F faults r topic body priority «from» broadcast).2 := by
  simp only [post]
  split
  · exact .refused
  · next t htopic =>
    split
    · exact .refused
    · next name hparse =>
      have hname : Request.partition (.post topic body priority «from» broadcast) =
          some name.asStr := by
        rw [Request.partition, htopic, PartitionName.asStr_of_parse hparse]
        rfl
      have hdraws : Request.drawsId (.post topic body priority «from» broadcast) = true := by
        rw [Request.drawsId, htopic, Except.toOption, Option.any_some, hparse]
        rfl
      rcases hopen : b.partitionMut F faults.openFault name with ⟨e | p, b'⟩
      · exact .unopened hname hopen
      · have hmessage : ∀ m : Message, m = (if broadcast = true then
            (Message.new r.id r.ts t body priority «from»).asBroadcast
            else Message.new r.id r.ts t body priority «from») →
            m.id = r.id ∧ m.body = body := by
          rintro m rfl
          split <;> exact ⟨rfl, rfl⟩
        obtain ⟨hid, hbody⟩ := hmessage _ rfl
        simp only
        rcases hpublish : p.publish F faults.append b'.disk _ with ⟨e | id, w⟩
        · exact .worked hname hopen (.unposted hdraws hid hpublish)
        · refine .worked hname hopen ?_
          rw [← hbody]
          exact .posted hdraws hid hpublish

theorem handled_arm (faults : Faults) (r : Readings) (b : Bus) (q : Request) :
    Handled F faults r b q (b.arm F faults r q).1 (b.arm F faults r q).2 := by
  cases q with
  | ensure pattern => exact handled_ensure faults r b pattern
  | post topic body priority «from» broadcast =>
    exact handled_post faults r b topic body priority «from» broadcast
  | wait pattern label timeoutSecs =>
    refine handled_of_resolve rfl ?_ ?_
    · intro e b₁ hresolve
      simp only [arm, wait, hresolve, and_self]
    · intro parsed name p b₁ hresolve
      simp only [arm, wait, hresolve]
      rcases hdeliver : b₁.deliver F faults.persist name p parsed label 1 with ⟨e | _ | _, b₂⟩
      · exact .undelivered hdeliver
      · exact .waiting hdeliver
      · exact .delivered hdeliver
  | read pattern label =>
    refine handled_of_resolve rfl ?_ ?_
    · intro e b₁ hresolve
      simp only [arm, read, hresolve, and_self]
    · intro parsed name p b₁ hresolve
      simp only [arm, read, hresolve]
      rcases hdeliver : b₁.deliver F faults.persist name p parsed label usizeMax
          with ⟨e | batch, b₂⟩
      · exact .undelivered hdeliver
      · exact .delivered hdeliver
  | follow pattern label =>
    refine handled_of_resolve rfl ?_ ?_
    · intro e b₁ hresolve
      simp only [arm, follow, hresolve, and_self]
    · intro parsed name p b₁ hresolve
      simp only [arm, follow, hresolve]
      exact .followed
  | history pattern sinceSecs =>
    refine handled_of_resolve rfl ?_ ?_
    · intro e b₁ hresolve
      simp only [arm, history, hresolve, and_self]
    · intro parsed name p b₁ hresolve
      simp only [arm, history, hresolve]
      exact .replayed
  | status => exact .status
  | metrics => exact .metrics
  | stop => exact .shutdown

theorem handled_of_dispatch {faults : Faults} {r : Readings} {b b' : Bus} {q : Request}
    {d : Dispatch} (h : b.dispatch F faults r q = (d, b')) :
    Handled F faults r (b.touch (r.instant 0)) q d b' := by
  have hhandled := handled_arm (F := F) faults r (b.touch (r.instant 0)) q
  rwa [show (b.touch (r.instant 0)).arm F faults r q = (d, b') from h] at hhandled

/-! ## Sweeps -/

theorem exists_pruneOne_ok (b : Bus) (now : Nat) (n : String) :
    ∃ count, (b.pruneOne F none now n).1 = .ok count := by
  unfold pruneOne
  split
  · exact ⟨0, rfl⟩
  · next p _ =>
    obtain ⟨count, w, hprune, -⟩ := p.exists_prune_none (F := F) b.disk b.state.policy now
    exact ⟨count, congrArg Prod.fst hprune⟩

theorem pruneEach_cons (b : Bus) (now : Nat) (n : String) (names : List String) :
    (pruneEach F (fun _ => none) now (n :: names) b).2 =
      (pruneEach F (fun _ => none) now names (b.pruneOne F none now n).2).2 := by
  obtain ⟨count, hcount⟩ := exists_pruneOne_ok (F := F) b now n
  rw [pruneEach]
  split
  · next e b' h => rw [h] at hcount; cases hcount
  · next removed b' h => rw [h]

end Bus

/-! ## Parked requests -/

namespace Parked

variable {F : Formats} {p : Parked} {place : Subscription} {b b' : Bus} {c : Connection}

/-- What taking a place on the signal channel does. -/
inductive Subscribed (F : Formats) (fault : Option Partition.OpenFault) (now : Nat)
    (p : Parked) (b : Bus) : Connection → Bus → Prop where
  | unnamed {e : CoreError} : Subscribed F fault now p b (p.fail (.core e)) b
  | unopened {name : PartitionName} {e : Failure} {b' : Bus} : p.partition = name.asStr →
      b.partitionMut F fault name = (.error e, b') →
      Subscribed F fault now p b (p.fail (.failure e)) b'
  | subscribed {name : PartitionName} {q : Partition} {b' : Bus} : p.partition = name.asStr →
      b.partitionMut F fault name = (.ok q, b') →
      Subscribed F fault now p b
        (.checking p ⟨name, q.notify, p.timeoutSecs.map fun t => now + t * 1000000000⟩) b'

theorem subscribed_of_subscribe {fault : Option Partition.OpenFault} {now : Nat}
    (h : p.subscribe F fault now b = (c, b')) : Subscribed F fault now p b c b' := by
  obtain ⟨rfl, rfl⟩ : _ = c ∧ _ = b' := Prod.ext_iff.mp h
  unfold subscribe
  split
  · exact .unnamed
  · next name hname =>
    have hpartition := (PartitionName.asStr_of_parse hname).symm
    rcases hopen : b.partitionMut F fault name with ⟨e | q, b'⟩
    · exact .unopened hpartition hopen
    · exact .subscribed hpartition hopen

/-- What a check does. A wait takes a delivery that fails for one that finds nothing. -/
inductive Checked (F : Formats) (faults : Faults) (p : Parked) (place : Subscription) (b : Bus) :
    Connection → Bus → Prop where
  | unopened {e : Failure} {b' : Bus} : b.partitionMut F faults.openFault place.name =
      (.error e, b') → Checked F faults p place b (p.fail (.failure e)) b'
  | missed {q : Partition} {b' b'' : Bus} {e : Failure} : p.kind = .wait →
      b.partitionMut F faults.openFault place.name = (.ok q, b') →
      b'.deliver F faults.persist place.name q p.pattern p.label p.kind.limit = (.error e, b'') →
      Checked F faults p place b (.blocked p place) b''
  | broken {q : Partition} {b' b'' : Bus} {e : Failure} : p.kind = .follow →
      b.partitionMut F faults.openFault place.name = (.ok q, b') →
      b'.deliver F faults.persist place.name q p.pattern p.label p.kind.limit = (.error e, b'') →
      Checked F faults p place b (p.fail (.failure e)) b''
  | idle {q : Partition} {b' b'' : Bus} :
      b.partitionMut F faults.openFault place.name = (.ok q, b') →
      b'.deliver F faults.persist place.name q p.pattern p.label p.kind.limit = (.ok [], b'') →
      Checked F faults p place b (.blocked p place) b''
  | waited {q : Partition} {b' b'' : Bus} {m : Message} {ms : List Message} : p.kind = .wait →
      b.partitionMut F faults.openFault place.name = (.ok q, b') →
      b'.deliver F faults.persist place.name q p.pattern p.label p.kind.limit =
        (.ok (m :: ms), b'') →
      Checked F faults p place b (.leaving .wait (.response (.messages [m]))) b''
  | followed {q : Partition} {b' b'' : Bus} {batch : List Message} : p.kind = .follow →
      b.partitionMut F faults.openFault place.name = (.ok q, b') →
      b'.deliver F faults.persist place.name q p.pattern p.label p.kind.limit = (.ok batch, b'') →
      Checked F faults p place b (.delivered p place batch) b''

theorem checked_of_check {faults : Faults} (h : p.check F faults place b = (c, b')) :
    Checked F faults p place b c b' := by
  obtain ⟨rfl, rfl⟩ : _ = c ∧ _ = b' := Prod.ext_iff.mp h
  unfold check
  split
  · next hkind =>
    unfold waitForMessage
    rcases hopen : b.partitionMut F faults.openFault place.name with ⟨e | q, b'⟩
    · exact .unopened hopen
    · simp only
      rcases hdeliver : b'.deliver F faults.persist place.name q p.pattern p.label
          TaskKind.wait.limit with
        ⟨e | _ | _, b''⟩
      all_goals rw [← hkind] at hdeliver
      · exact .missed hkind hopen hdeliver
      · exact .idle hopen hdeliver
      · exact .waited hkind hopen hdeliver
  · next hkind =>
    unfold follow
    rcases hopen : b.partitionMut F faults.openFault place.name with ⟨e | q, b'⟩
    · exact .unopened hopen
    · simp only
      rcases hdeliver : b'.deliver F faults.persist place.name q p.pattern p.label
          TaskKind.follow.limit with
        ⟨e | _ | _, b''⟩
      all_goals rw [← hkind] at hdeliver
      · exact .broken hkind hopen hdeliver
      · exact .idle hopen hdeliver
      · exact .followed hkind hopen hdeliver

end Parked

end AgentBus
