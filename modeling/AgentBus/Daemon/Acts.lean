import AgentBus.Daemon.Requests
import AgentBus.Daemon.Sections
import AgentBus.Daemon.Service
import AgentBus.Lib.MailRuns

/-!
# What happens to the partitions

Whatever a daemon does under its lock, it does to the partitions by opening
one, posting to one, delivering from one or pruning one. `Bus.Act` is one such
action, with the message that it posts and the messages that it hands out;
`Bus.Acts` is any number of them. Every step of a daemon is some (`acts_of_step`).
-/

namespace AgentBus

open Lib

/-- A message handed to a reader, with the pattern and the label it reads under. -/
abbrev Handing := Delivery Message Pattern String

def handings (pattern : Pattern) (label : String) (ms : List Message) : List Handing :=
  ms.map (⟨pattern, label, ·⟩)

/-! ## Observations -/

/-- Who a request reads for. -/
def Request.reader : Request → Option (Pattern × String)
  | .wait pattern label _ => (Pattern.parse pattern).toOption.map (·, label)
  | .read pattern label => (Pattern.parse pattern).toOption.map (·, label)
  | _ => none

/-- The message that a post is about. -/
def Request.message (r : Readings) : Request → Option Message
  | .post topic body priority «from» broadcast =>
    match Topic.parse topic with
    | .error _ => none
    | .ok topic =>
      match PartitionName.parse topic.partition with
      | .error _ => none
      | .ok _ =>
        let message := Message.new r.id r.ts topic body priority «from»
        some (if broadcast then message.asBroadcast else message)
  | _ => none

/-- What is handed out by answering a request. -/
def Request.handed (q : Request) : Dispatch → List Handing
  | .reply (.messages ms) => q.reader.elim [] fun (pattern, label) => handings pattern label ms
  | _ => []

/-- The message that an answer acknowledges. -/
def Request.acknowledged (r : Readings) (q : Request) : Dispatch → List Message
  | .reply (.posted _ _) => (q.message r).toList
  | _ => []

/-- What a step of a connection hands out. -/
def Connection.handed : Connection → ConnectionEvent → Connection → List Handing
  | .reading, .request q _ _, .answering (.response (.messages ms)) _ =>
    q.reader.elim [] fun (pattern, label) => handings pattern label ms
  | .checking p _, .check _, .leaving _ (.response (.messages ms)) => handings p.pattern p.label ms
  | .checking p _, .check _, .delivered _ _ batch => handings p.pattern p.label batch
  | _, _, _ => []

/-- What a step of a connection acknowledges. -/
def Connection.acknowledged : Connection → ConnectionEvent → Connection → List Message
  | .reading, .request q _ r, .answering (.response (.posted _ _)) _ => (q.message r).toList
  | _, _, _ => []

/-- What a step from `s` to `s'` hands out. -/
def Service.handed (s : Service) (e : ServiceEvent) (s' : Service) : List Handing :=
  match e with
  | .connection i e =>
    match s.connections[i]?, s'.connections[i]? with
    | some c, some c' => c.handed e c'
    | _, _ => []
  | _ => []

/-- What a step from `s` to `s'` acknowledges. -/
def Service.acknowledged (s : Service) (e : ServiceEvent) (s' : Service) : List Message :=
  match e with
  | .connection i e =>
    match s.connections[i]?, s'.connections[i]? with
    | some c, some c' => c.acknowledged e c'
    | _, _ => []
  | _ => []

/-- The message that an event posts, if it comes to that. -/
def ServiceEvent.message : ServiceEvent → Option Message
  | .connection _ (.request q _ r) => q.message r
  | _ => none

/-- The second at which an event prunes. -/
def ServiceEvent.pruneSecs : ServiceEvent → Option Nat
  | .sweep (.prune _ now _) => some now
  | _ => none

/-- A step that hands something out posts nothing. -/
theorem message_of_handed {s s' : Service} {e : ServiceEvent} {d : Handing}
    (h : d ∈ s.handed e s') : e.message = none := by
  unfold Service.handed at h
  split at h
  · next i e =>
    split at h
    · next c c' _ _ =>
      unfold Connection.handed at h
      split at h
      · next q _ _ _ _ _ _ =>
        cases q with
        | post _ _ _ _ _ => cases h
        | _ => rfl
      · rfl
      · rfl
      · cases h
    · cases h
  · cases h

namespace Bus

/-! ## Actions -/

/-- The same partitions and the same files, and histograms in which no cell shrinks. -/
structure Same (b b' : Bus) : Prop where
  stateDir : b'.state.stateDir = b.state.stateDir
  policy : b'.state.policy = b.state.policy
  started : b'.state.started = b.state.started
  partitions : b'.state.partitions = b.state.partitions
  disk : b'.disk = b.disk
  tally : b.state.busTally.Le b'.state.busTally

/-- One action, where only a sweep prunes, and at its second. -/
inductive Act (F : Formats) (sweep : Option Nat) (b : Bus) : List Message → List Handing →
    Bus → Prop where
  | quiet {b' : Bus} : b.Same b' → Act F sweep b [] [] b'
  | opened {fault : Option Partition.OpenFault} {name : PartitionName}
      {r : Except Failure Partition} {b' : Bus} :
      b.partitionMut F fault name = (r, b') → Act F sweep b [] [] b'
  | posted {fault : Option PartitionLog.AppendFault} {name : PartitionName}
      {p : Partition} {m : Message} {r : Except Failure Ulid} {w : World} :
      b.state.partitions[name.asStr]? = some p →
      m.topic.partition = name.asStr → p.publish F fault b.disk m = (r, w) →
      Act F sweep b [m] [] (b.put name.asStr w)
  | delivered {fault : Option Partition.PersistFault} {name : PartitionName} {p : Partition}
      {pattern : Pattern} {label : String} {limit : UInt64} {batch : List Message} {b' : Bus} :
      b.state.partitions[name.asStr]? = some p →
      b.deliver F fault name p pattern label limit = (.ok batch, b') →
      Act F sweep b [] (handings pattern label batch) b'
  | undelivered {fault : Option Partition.PersistFault} {name : PartitionName} {p : Partition}
      {pattern : Pattern} {label : String} {limit : UInt64} {e : Failure} {b' : Bus} :
      b.state.partitions[name.asStr]? = some p →
      b.deliver F fault name p pattern label limit = (.error e, b') → Act F sweep b [] [] b'
  | pruned {fault : Option Partition.PruneFault} {now : Nat} {n : String}
      {r : Except Failure Nat} {b' : Bus} :
      sweep = some now → b.pruneOne F fault now n = (r, b') → Act F sweep b [] [] b'

inductive Acts (F : Formats) (sweep : Option Nat) (b : Bus) : List Message → List Handing →
    Bus → Prop where
  | refl : Acts F sweep b [] [] b
  | act {ms ms' : List Message} {ds ds' : List Handing} {b' b'' : Bus} :
      Acts F sweep b ms ds b' → Act F sweep b' ms' ds' b'' →
      Acts F sweep b (ms ++ ms') (ds ++ ds') b''

variable {F : Formats} {sweep : Option Nat} {b b' b'' : Bus} {ms ms' : List Message}
  {ds ds' : List Handing}

theorem Acts.single (h : Act F sweep b ms ds b') : Acts F sweep b ms ds b' := Acts.act .refl h

theorem Acts.trans (h : Acts F sweep b ms ds b') (h' : Acts F sweep b' ms' ds' b'') :
    Acts F sweep b (ms ++ ms') (ds ++ ds') b'' := by
  induction h' with
  | refl => simpa using h
  | act _ hact ih =>
    rw [← List.append_assoc, ← List.append_assoc]
    exact ih.act hact

theorem Acts.quiet (h : Acts F sweep b ms ds b') (hsame : b'.Same b'') :
    Acts F sweep b ms ds b'' := by
  simpa using h.act (.quiet hsame)

theorem Same.refl (b : Bus) : b.Same b := ⟨rfl, rfl, rfl, rfl, rfl, .refl _⟩

theorem Same.trans (h : b.Same b') (h' : b'.Same b'') : b.Same b'' :=
  ⟨h'.stateDir.trans h.stateDir, h'.policy.trans h.policy, h'.started.trans h.started,
    h'.partitions.trans h.partitions, h'.disk.trans h.disk, h.tally.trans h'.tally⟩

theorem Placed.same {stateDir : Path} {policy : RetentionPolicy} (h : b.Placed stateDir policy)
    (hsame : b.Same b') : b'.Placed stateDir policy := by
  obtain ⟨hroot, hpolicy, -, hpartitions, -, -⟩ := hsame
  exact ⟨hroot.trans h.root, hpolicy.trans h.retention,
    fun n p hp => h.named n p (hpartitions ▸ hp),
    fun name p hp => h.files name p (hpartitions ▸ hp)⟩

theorem same_touch (b : Bus) (now : Nat) : b.Same (b.touch now) :=
  ⟨rfl, rfl, rfl, rfl, rfl, .refl _⟩

theorem same_recordPost (b : Bus) (bodyBytes : Nat) : b.Same (b.recordPost bodyBytes) :=
  ⟨rfl, rfl, rfl, rfl, rfl, b.state.busTally.le_recordPost bodyBytes⟩

theorem same_recordLatency (b : Bus) (millis : Nat → Nat) (batch : List Message) :
    b.Same (b.recordLatency millis batch) := by
  induction batch generalizing b millis with
  | nil => exact .refl b
  | cons m ms ih =>
    have hone :
      b.Same { b with state := b.state.recordDeliveryLatency (millis 0) m.id.timestampMs } :=
      ⟨rfl, rfl, rfl, rfl, rfl, b.state.busTally.le_recordDelivery _⟩
    exact hone.trans (ih ..)

/-- Open partitions keep to their own files. -/
theorem Placed.act {stateDir : Path} {policy : RetentionPolicy} (h : b.Placed stateDir policy)
    (hact : Act F sweep b ms ds b') : b'.Placed stateDir policy := by
  cases hact with
  | quiet hsame => exact h.same hsame
  | opened hopen => exact (h.within (section_partitionMut _) hopen).1
  | posted hp _ hpub =>
    exact (h.within (section_publish (F := F) (h.files _ _ hp) _ _) (by rw [hpub])).1
  | delivered hp hdeliver | undelivered hp hdeliver =>
    exact (h.within (section_deliver (h.files _ _ hp) _ _ _ _) hdeliver).1
  | @pruned fault now n r _ _ hprune =>
    cases hp : b.state.partitions[n]? with
    | none =>
      rw [pruneOne, hp] at hprune
      obtain ⟨-, rfl⟩ := Prod.mk.inj hprune
      exact h
    | some p =>
      obtain ⟨name, rfl⟩ := h.named n p hp
      exact (h.within (section_pruneOne _ _) hprune).1

theorem Placed.acts {stateDir : Path} {policy : RetentionPolicy} (h : b.Placed stateDir policy)
    (hacts : Acts F sweep b ms ds b') : b'.Placed stateDir policy := by
  induction hacts with
  | refl => exact h
  | act _ hact ih => exact ih.act hact

/-! ## Requests -/

theorem act_of_resolve {fault : Option Partition.OpenFault} {pattern : String}
    {r : Except BusError (Pattern × PartitionName × Partition)}
    (h : b.resolve F fault pattern = (r, b')) : Act F sweep b [] [] b' := by
  rcases resolve_cases (F := F) fault b pattern with
    ⟨e, heq⟩ | ⟨parsed, name, -, ⟨e, b₁, hopen, heq⟩ | ⟨p, b₁, hopen, heq⟩⟩ <;>
    obtain ⟨-, rfl⟩ := Prod.mk.inj (heq.symm.trans h)
  · exact .quiet (.refl b)
  · exact .opened hopen
  · exact .opened hopen

theorem of_resolve_ok {fault : Option Partition.OpenFault} {pattern : String} {parsed : Pattern}
    {name : PartitionName} {p : Partition}
    (h : b.resolve F fault pattern = (.ok (parsed, name, p), b')) :
    Pattern.parse pattern = .ok parsed ∧ parsed.partition = name.asStr ∧
      b.partitionMut F fault name = (.ok p, b') := by
  unfold resolve at h
  split at h
  · cases h
  · next parsed' hparsed =>
    split at h
    · cases h
    · next name' hname =>
      rcases hopen : b.partitionMut F fault name' with ⟨e | p', b₁⟩
      · rw [hopen] at h
        cases h
      · rw [hopen] at h
        obtain ⟨heq, rfl⟩ := Prod.mk.inj h
        obtain ⟨rfl, rfl, rfl⟩ : parsed' = parsed ∧ name' = name ∧ p' = p := by simpa using heq
        exact ⟨hparsed, (PartitionName.asStr_of_parse hname).symm, hopen⟩

theorem of_history {faults : Faults} {r : Readings} {pattern : String} {sinceSecs : Option Nat}
    {ms' : List Message}
    (h : b.dispatch F faults r (.history pattern sinceSecs) = (.reply (.messages ms'), b')) :
    ∃ (parsed : Pattern) (name : PartitionName) (p : Partition),
      Pattern.parse pattern = .ok parsed ∧ parsed.partition = name.asStr ∧
      (b.touch (r.instant 0)).partitionMut F faults.openFault name = (.ok p, b') ∧
      ms' = p.history parsed sinceSecs r.secs := by
  simp only [dispatch, arm, history] at h
  rcases hresolve : (b.touch (r.instant 0)).resolve F faults.openFault pattern
      with ⟨e | ⟨parsed, name, p⟩, b₁⟩
  · rw [hresolve] at h
    cases h
  · rw [hresolve] at h
    obtain ⟨hms, rfl⟩ := Prod.mk.inj h
    obtain ⟨hparsed, hpartition, hopen⟩ := of_resolve_ok hresolve
    exact ⟨parsed, name, p, hparsed, hpartition, hopen, by simpa using hms.symm⟩

/-- What a delivery does to the partitions. -/
theorem acts_of_deliver {fault : Option Partition.PersistFault} {name : PartitionName}
    {p : Partition} {pattern : Pattern} {label : String} {limit : UInt64}
    {r : Except Failure (List Message)} (hp : b.state.partitions[name.asStr]? = some p)
    (h : b.deliver F fault name p pattern label limit = (r, b')) :
    Acts F sweep b [] (handings pattern label (r.toOption.getD [])) b' := by
  cases r with
  | error e => exact .single (.undelivered hp h)
  | ok batch => exact .single (.delivered hp h)

theorem acts_post (faults : Faults) (r : Readings) (b : Bus) (topic body : String)
    (priority : Priority) («from» : Option String) (broadcast : Bool) :
    ∃ ms, Acts F sweep b ms (Request.handed (.post topic body priority «from» broadcast)
        (b.post F faults r topic body priority «from» broadcast).1)
        (b.post F faults r topic body priority «from» broadcast).2 ∧
      ms.Sublist (Request.message r (.post topic body priority «from» broadcast)).toList ∧
      ((Request.post topic body priority «from» broadcast).acknowledged r
        (b.post F faults r topic body priority «from» broadcast).1).Sublist ms := by
  simp only [post]
  split
  · exact ⟨[], .refl, List.nil_sublist _, List.nil_sublist _⟩
  · next t hparsed =>
    split
    · exact ⟨[], .refl, List.nil_sublist _, List.nil_sublist _⟩
    · next name hname =>
      have hmessage : Request.message r (.post topic body priority «from» broadcast) =
          some (if broadcast = true then (Message.new r.id r.ts t body priority «from»).asBroadcast
            else Message.new r.id r.ts t body priority «from») := by
        simp only [Request.message, hparsed, hname]
      rw [hmessage]
      generalize hm :
        (if broadcast = true then (Message.new r.id r.ts t body priority «from»).asBroadcast
        else Message.new r.id r.ts t body priority «from») = m
      have htopic : m.topic.partition = name.asStr := by
        rw [PartitionName.asStr_of_parse hname, ← hm]
        split <;> rfl
      rcases hopen : b.partitionMut F faults.openFault name with ⟨e | p, b₁⟩
      · exact ⟨[], .single (.opened hopen), List.nil_sublist _, List.nil_sublist _⟩
      · have hopened : Acts F sweep b [] [] b₁ := .single (.opened hopen)
        simp only
        rcases hpublish : p.publish F faults.append b₁.disk m with ⟨e | id, w⟩
        all_goals have hacts := hopened.act (.posted (getElem?_partitionMut hopen) htopic hpublish)
        · exact ⟨[m], hacts, List.Sublist.refl _, List.nil_sublist _⟩
        · refine ⟨[m], hacts.quiet (same_recordPost ..), List.Sublist.refl _, ?_⟩
          rw [Request.acknowledged, hmessage, hm]
          exact List.Sublist.refl _

theorem acts_wait (faults : Faults) (r : Readings) (b : Bus) (pattern label : String)
    (timeoutSecs : Option Nat) :
    Acts F sweep b []
      (Request.handed (.wait pattern label timeoutSecs)
        (b.wait F faults r pattern label timeoutSecs).1)
      (b.wait F faults r pattern label timeoutSecs).2 := by
  simp only [wait]
  rcases hresolve : b.resolve F faults.openFault pattern with ⟨e | ⟨parsed, name, p⟩, b₁⟩
  · exact .single (act_of_resolve hresolve)
  · have hact : Act F sweep b [] [] b₁ := act_of_resolve hresolve
    obtain ⟨hparsed, -, hopen⟩ := of_resolve_ok hresolve
    have hp := getElem?_partitionMut hopen
    simp only
    rcases hdeliver : b₁.deliver F faults.persist name p parsed label 1 with ⟨e | _ | ⟨m, ms⟩, b₂⟩
    all_goals have hacts : Acts F sweep b [] _ b₂ :=
      (Acts.single hact).trans (acts_of_deliver hp hdeliver)
    · exact hacts
    · exact hacts
    · rw [Request.handed, Request.reader, hparsed]
      exact hacts.quiet (same_recordLatency ..)

theorem acts_read (faults : Faults) (r : Readings) (b : Bus) (pattern label : String) :
    Acts F sweep b [] (Request.handed (.read pattern label) (b.read F faults r pattern label).1)
      (b.read F faults r pattern label).2 := by
  simp only [read]
  rcases hresolve : b.resolve F faults.openFault pattern with ⟨e | ⟨parsed, name, p⟩, b₁⟩
  · exact .single (act_of_resolve hresolve)
  · have hact : Act F sweep b [] [] b₁ := act_of_resolve hresolve
    obtain ⟨hparsed, -, hopen⟩ := of_resolve_ok hresolve
    have hp := getElem?_partitionMut hopen
    simp only
    rcases hdeliver : b₁.deliver F faults.persist name p parsed label usizeMax with ⟨e | batch, b₂⟩
    all_goals have hacts : Acts F sweep b [] _ b₂ :=
      (Acts.single hact).trans (acts_of_deliver hp hdeliver)
    · exact hacts
    · rw [Request.handed, Request.reader, hparsed]
      exact hacts.quiet (same_recordLatency ..)

/-- What every other request does is to open its partition. -/
theorem acts_follow (faults : Faults) (b : Bus) (pattern label : String) :
    Acts F sweep b [] [] (b.follow F faults pattern label).2 := by
  simp only [follow]
  rcases hresolve : b.resolve F faults.openFault pattern with ⟨e | ⟨parsed, name, p⟩, b₁⟩
  · exact .single (act_of_resolve hresolve)
  · exact .single (act_of_resolve hresolve)

theorem acts_history (faults : Faults) (r : Readings) (b : Bus) (pattern : String)
    (sinceSecs : Option Nat) : Acts F sweep b [] [] (b.history F faults r pattern sinceSecs).2 := by
  simp only [history]
  rcases hresolve : b.resolve F faults.openFault pattern with ⟨e | ⟨parsed, name, p⟩, b₁⟩
  · exact .single (act_of_resolve hresolve)
  · exact .single (act_of_resolve hresolve)

theorem acts_ensure (faults : Faults) (b : Bus) (pattern : String) :
    Acts F sweep b [] [] (b.ensure F faults pattern).2 := by
  simp only [ensure]
  split
  · exact .refl
  · split
    · exact .refl
    · next name _ =>
      rcases hopen : b.partitionMut F faults.openFault name with ⟨e | p, b₁⟩
      · exact .single (.opened hopen)
      · exact .single (.opened hopen)

theorem handed_of_not_reader {q : Request} (h : q.reader = none) (d : Dispatch) :
    q.handed d = [] := by
  unfold Request.handed
  split
  · rw [h]; rfl
  · rfl

theorem acknowledged_of_not_post {q : Request} {r : Readings} (h : q.message r = none)
    (d : Dispatch) : q.acknowledged r d = [] := by
  unfold Request.acknowledged
  split
  · rw [h]; rfl
  · rfl

/-- **What a request does to the partitions**: what is acknowledged is posted, and what is posted
was requested. -/
theorem acts_of_dispatch {faults : Faults} {r : Readings} {q : Request} {d : Dispatch}
    (h : b.dispatch F faults r q = (d, b')) :
    ∃ ms, Acts F sweep b ms (q.handed d) b' ∧ ms.Sublist (q.message r).toList ∧
      (q.acknowledged r d).Sublist ms := by
  obtain ⟨rfl, rfl⟩ := Prod.ext_iff.mp h
  have htouch : Acts F sweep b [] [] (b.touch (r.instant 0)) := .single (.quiet (same_touch ..))
  -- a request that posts nothing
  have hnothing : ∀ {d : Dispatch} {b' : Bus}, q.message r = none →
      Acts F sweep b [] (q.handed d) b' →
      ∃ ms, Acts F sweep b ms (q.handed d) b' ∧ ms.Sublist (q.message r).toList ∧
        (q.acknowledged r d).Sublist ms := by
    intro d b' hnone hacts
    refine ⟨[], hacts, List.nil_sublist _, ?_⟩
    rw [acknowledged_of_not_post hnone]
  cases q with
  | ensure pattern =>
    refine hnothing rfl ?_
    rw [handed_of_not_reader rfl]
    exact htouch.trans (acts_ensure faults _ pattern)
  | post topic body priority «from» broadcast =>
    obtain ⟨ms, hacts, hms, hacked⟩ :=
      acts_post (F := F) faults r (b.touch (r.instant 0)) topic body priority «from» broadcast
    exact ⟨ms, htouch.trans hacts, hms, hacked⟩
  | wait pattern label timeoutSecs =>
    exact hnothing rfl (htouch.trans (acts_wait faults r _ pattern label timeoutSecs))
  | read pattern label => exact hnothing rfl (htouch.trans (acts_read faults r _ pattern label))
  | follow pattern label =>
    refine hnothing rfl ?_
    rw [handed_of_not_reader rfl]
    exact htouch.trans (acts_follow faults _ pattern label)
  | history pattern sinceSecs =>
    refine hnothing rfl ?_
    rw [handed_of_not_reader rfl]
    exact htouch.trans (acts_history faults r _ pattern sinceSecs)
  | status | metrics | stop => exact hnothing rfl htouch

/-! ## Sweeps -/

theorem acts_pruneEach (faults : String → Option Partition.PruneFault) (now : Nat)
    (names : List String) (b : Bus) :
    Acts F (some now) b [] [] (pruneEach F faults now names b).2 := by
  induction names generalizing b with
  | nil => exact .refl
  | cons n names ih =>
    rw [pruneEach]
    rcases hprune : b.pruneOne F (faults n) now n with ⟨e | removed, b₁⟩
    · exact .single (.pruned rfl hprune)
    · exact (Acts.single (.pruned rfl hprune)).trans (ih b₁)

end Bus

/-! ## Steps -/

section Steps

variable {F : Formats} {threshold : Nat} {sweep : Option Nat} {sh sh' : Shared} {c c' : Connection}

theorem acts_of_subscribe {b b' : Bus} {p : Parked} {fault : Option Partition.OpenFault} {now : Nat}
    (h : p.subscribe F fault now b = (c, b')) : Bus.Acts F sweep b [] [] b' := by
  cases Parked.subscribed_of_subscribe h with
  | unnamed => exact .refl
  | unopened _ hopen | subscribed _ hopen => exact .single (.opened hopen)

theorem length_of_deliver {b b' : Bus} {fault : Option Partition.PersistFault}
    {name : PartitionName} {p : Partition} {pattern : Pattern} {label : String} {limit : UInt64}
    {batch : List Message} (h : b.deliver F fault name p pattern label limit = (.ok batch, b')) :
    batch.length ≤ limit.toNat := by
  obtain ⟨w, -, -, ⟨e, heq, -⟩ | ⟨heq, -⟩⟩ :=
    Bus.deliver_cases (F := F) fault b name p pattern label limit
  · cases heq.symm.trans h
  · obtain ⟨hbatch, -⟩ := Prod.mk.inj (heq.symm.trans h)
    obtain rfl := Except.ok.inj hbatch
    exact List.length_take_le ..

theorem handed_fail (p : Parked) (place : Subscription) (faults : Faults) (e : BusError) :
    Connection.handed (.checking p place) (.check faults) (p.fail e) = [] := by
  cases hkind : p.kind <;> simp only [Parked.fail, hkind, Connection.handed]

theorem acts_of_check {b b' : Bus} {p : Parked} {place : Subscription} {faults : Faults}
    (h : p.check F faults place b = (c, b')) :
    Bus.Acts F sweep b [] (Connection.handed (.checking p place) (.check faults) c) b' := by
  have hdelivered : ∀ q b₁ r b₂, b.partitionMut F faults.openFault place.name = (.ok q, b₁) →
      b₁.deliver F faults.persist place.name q p.pattern p.label p.kind.limit = (r, b₂) →
      Bus.Acts F sweep b [] (handings p.pattern p.label (r.toOption.getD [])) b₂ :=
    fun q b₁ r b₂ hopen hdeliver =>
    (Bus.Acts.single (.opened hopen)).trans
      (Bus.acts_of_deliver (Bus.getElem?_partitionMut hopen) hdeliver)
  cases Parked.checked_of_check h with
  | unopened hopen =>
    rw [handed_fail]
    exact .single (.opened hopen)
  | broken _ hopen hdeliver =>
    rw [handed_fail]
    exact hdelivered _ _ _ _ hopen hdeliver
  | missed _ hopen hdeliver | idle hopen hdeliver => exact hdelivered _ _ _ _ hopen hdeliver
  | @waited q b₁ b₂ m ms hkind hopen hdeliver =>
    -- a wait asks for one message
    have hlength := length_of_deliver hdeliver
    rw [hkind, show (TaskKind.wait.limit).toNat = 1 from rfl, List.length_cons] at hlength
    obtain rfl : ms = [] := List.length_eq_zero_iff.mp (by omega)
    exact hdelivered _ _ _ _ hopen hdeliver
  | followed _ hopen hdeliver => exact hdelivered _ _ _ _ hopen hdeliver

theorem handed_handle (q : Request) (faults : Faults) (r : Readings) (socket : Path)
    (d : Dispatch) :
    Connection.handed .reading (.request q faults r) (.handle socket d) = q.handed d ∧
      Connection.acknowledged .reading (.request q faults r) (.handle socket d) =
        q.acknowledged r d := by
  cases d with
  | reply response => cases response <;> exact ⟨rfl, rfl⟩
  | waitPending _ _ _ _ | followPending _ _ _ | shutdown => exact ⟨rfl, rfl⟩

theorem acts_of_connection {e : ConnectionEvent} (h : c.Step F sh e sh' c') :
    ∃ ms, Bus.Acts F sweep sh.bus ms (c.handed e c') sh'.bus ∧
      (∀ i, ms.Sublist (ServiceEvent.message (.connection i e)).toList) ∧
      (c.acknowledged e c').Sublist ms := by
  have hquiet : Bus.Acts F sweep sh.bus [] (c.handed e c') sh'.bus → c.acknowledged e c' = [] →
      ∃ ms, Bus.Acts F sweep sh.bus ms (c.handed e c') sh'.bus ∧
        (∀ i, ms.Sublist (ServiceEvent.message (.connection i e)).toList) ∧
        (c.acknowledged e c').Sublist ms :=
    fun hacts hnone => ⟨[], hacts, fun _ => List.nil_sublist _, by rw [hnone]⟩
  cases h with
  | @request q faults r d b hdispatch =>
    obtain ⟨hhanded, hacked⟩ := handed_handle q faults r (socketPath b.state.stateDir) d
    rw [hhanded, hacked]
    obtain ⟨ms, hacts, hms, hsub⟩ := Bus.acts_of_dispatch hdispatch
    exact ⟨ms, hacts, fun _ => hms, hsub⟩
  | subscribe hsub => exact hquiet (acts_of_subscribe hsub) rfl
  | check hcheck => exact hquiet (acts_of_check hcheck) rfl
  | record => exact hquiet (.single (.quiet (Bus.same_recordLatency ..))) rfl
  | enter => exact hquiet (by rw [Shared.bus_enter]; exact .refl) rfl
  | leave => exact hquiet (by rw [Shared.bus_leave]; exact .refl) rfl
  | _ => exact hquiet .refl rfl

/-- **What a step of a daemon does to the partitions.** -/
theorem acts_of_step {s s' : Service} {e : ServiceEvent} (h : s.Step F threshold e s') :
    ∃ ms, Bus.Acts F e.pruneSecs s.shared.bus ms (s.handed e s') s'.shared.bus ∧
      ms.Sublist e.message.toList ∧ (s.acknowledged e s').Sublist ms := by
  cases h with
  | accept _ => exact ⟨[], .refl, List.nil_sublist _, List.nil_sublist _⟩
  | @connection i c c' e sh hc hstep =>
    obtain ⟨ms, hacts, hms, hacked⟩ := acts_of_connection hstep
    refine ⟨ms, ?_, hms i, ?_⟩
    · simpa only [Service.handed, hc, Std.ExtTreeMap.getElem?_insert_self] using hacts
    · simpa only [Service.acknowledged, hc, Std.ExtTreeMap.getElem?_insert_self] using hacked
  | @sweep e sh w hstep =>
    generalize s.sweeper = v at hstep
    cases hstep with
    | @prune faults now instant r b hprune =>
      have hacts := Bus.acts_pruneEach (F := F) faults now
        s.shared.bus.state.partitions.keys s.shared.bus
      rw [show Bus.pruneEach F faults now s.shared.bus.state.partitions.keys s.shared.bus = (r, b)
        from hprune] at hacts
      exact ⟨[], hacts, List.nil_sublist _, List.nil_sublist _⟩
    | loadWaiters | loadFollowers | idle _ _ | busy | signal =>
      exact ⟨[], .refl, List.nil_sublist _, List.nil_sublist _⟩

end Steps

end AgentBus
