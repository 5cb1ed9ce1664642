import AgentBus.Daemon.Delivery
import AgentBus.Daemon.Sessions

/-!
# Every connection's session is well formed

Whatever the clients do, and in whatever order the tasks of the daemon take
their steps, what passes over each connection is a line, its answer, the next
line and so on, and every answer fits its request.
-/

namespace AgentBus

open Lib

variable {F : Formats} {threshold : Nat} {stateDir socket : Path} {r : Readings} {b b' : Bus}

/-! ## Where a connection is in its session -/

/-- What was said since the request of a parked client. -/
inductive Parked.Serving : Parked → List Frame → Prop where
  | wait {partition pattern label : String} {parsed : Pattern} {timeoutSecs secs : Option Nat}
      {r : Readings} :
      Pattern.parse pattern = .ok parsed →
      Serving ⟨.wait, partition, parsed, label, secs⟩ [.request (.wait pattern label timeoutSecs) r]
  | follow {partition pattern label : String} {parsed : Pattern} {r : Readings}
      {batches : List (List Message)} :
      Pattern.parse pattern = .ok parsed → Streamed pattern batches →
      Serving ⟨.follow, partition, parsed, label, none⟩
        (.request (.follow pattern label) r :: batches.map .batch)

/-- With its place on the signal channel: a follow has no deadline. -/
structure Parked.Placed (p : Parked) (place : Subscription) (rest : List Frame) : Prop where
  serving : p.Serving rest
  patient : p.kind = .follow → place.deadline = none

/-- What was said before the answer that ends a parked request. -/
inductive Answer.Ends (socket : Path) : Answer → TaskKind → List Frame → Prop where
  | wait {pattern label : String} {timeoutSecs : Option Nat} {r : Readings} {response : Response} :
      (Request.wait pattern label timeoutSecs).Answered socket r response →
      Ends socket (.response response) .wait [.request (.wait pattern label timeoutSecs) r]
  | follow {pattern label : String} {r : Readings} {batches : List (List Message)}
      {e : Option BusError} :
      Streamed pattern batches →
      Ends socket (.followFailed e) .follow
        (.request (.follow pattern label) r :: batches.map .batch)

/-- What was said since the last complete exchange. -/
inductive Connection.Said (socket : Path) : Connection → List Frame → Prop where
  | reading : Said socket .reading []
  | misread : Said socket (.answering .malformed none) [.malformed]
  | answering {q : Request} {r : Readings} {response : Response} : q.Answered socket r response →
      Said socket (.answering (.response response) none) [.request q r]
  | stopping {r : Readings} : Said socket .stopping [.request .stop r]
  | signalling {r : Readings} : Said socket .signalling [.request .stop r, .answer (.response .ok)]
  | accepted {p : Parked} {rest : List Frame} : p.Serving rest → Said socket (.accepted p) rest
  | entered {p : Parked} {rest : List Frame} : p.Serving rest → Said socket (.entered p) rest
  | checking {p : Parked} {place : Subscription} {rest : List Frame} : p.Placed place rest →
      Said socket (.checking p place) rest
  | blocked {p : Parked} {place : Subscription} {rest : List Frame} : p.Placed place rest →
      Said socket (.blocked p place) rest
  | delivered {p : Parked} {place : Subscription} {batch : List Message} {rest : List Frame} :
      p.Serving rest → p.Placed place (rest ++ [.batch batch]) →
      Said socket (.delivered p place batch) rest
  | streaming {p : Parked} {place : Subscription} {batch : List Message} {rest : List Frame} :
      p.Serving rest → p.Placed place (rest ++ [.batch batch]) →
      Said socket (.streaming p place batch) rest
  | leaving {kind : TaskKind} {a : Answer} {rest : List Frame} : a.Ends socket kind rest →
      Said socket (.leaving kind a) rest
  | ending {kind : TaskKind} {a : Answer} {rest : List Frame} : a.Ends socket kind rest →
      Said socket (.answering a (some kind)) rest
  | closed {rest : List Frame} : rest = [] ∨ (dialogue socket).Begins rest →
      Said socket .closed rest

theorem Answer.Ends.begins {a : Answer} {kind : TaskKind} {rest : List Frame}
    (h : a.Ends socket kind rest) : (dialogue socket).Begins rest := by
  cases h with
  | wait hanswered =>
    exact Dialogue.begins_of_exchange (D := dialogue socket) (Exchange.answered hanswered)
  | follow hstreamed =>
    exact Dialogue.begins_of_closing (D := dialogue socket) (Closing.followed (e := none) hstreamed)

theorem Parked.Serving.fail {p : Parked} {rest : List Frame} (h : p.Serving rest) (e : BusError) :
    (p.fail e).Said socket rest := by
  cases h with
  | wait _ => exact .leaving (.wait (.failed rfl))
  | follow _ hstreamed => exact .leaving (.follow hstreamed)

/-- What a connection has said at any time is the beginning of an exchange. -/
theorem Connection.Said.begins {c : Connection} {rest : List Frame} (h : c.Said socket rest) :
    rest = [] ∨ (dialogue socket).Begins rest := by
  have hserving : ∀ {p : Parked} {rest}, p.Serving rest → (dialogue socket).Begins rest := by
    intro p rest hserving
    cases hserving with
    | wait _ => exact (Answer.Ends.wait .timeout).begins
    | follow _ hstreamed => exact (Answer.Ends.follow (e := none) hstreamed).begins
  cases h with
  | reading => exact .inl rfl
  | misread => exact .inr (Dialogue.begins_of_exchange (D := dialogue socket) Exchange.malformed)
  | answering hanswered =>
    exact .inr (Dialogue.begins_of_exchange (D := dialogue socket) (Exchange.answered hanswered))
  | stopping => exact .inr (Dialogue.begins_of_closing (D := dialogue socket) Closing.stopped)
  | signalling => exact .inr (Dialogue.begins_of_closed (D := dialogue socket) Closing.stopped)
  | accepted hp | entered hp | delivered hp _ | streaming hp _ => exact .inr (hserving hp)
  | checking hp | blocked hp => exact .inr (hserving hp.serving)
  | leaving hends | ending hends => exact .inr hends.begins
  | closed hrest => exact hrest

/-! ## Requests -/

theorem selected_of_deliver {fault : Option Partition.PersistFault} {name : PartitionName}
    {p : Partition} {pattern : String} {parsed : Pattern} {label : String} {limit : UInt64}
    {batch : List Message} (hparsed : Pattern.parse pattern = .ok parsed)
    (h : b.deliver F fault name p parsed label limit = (.ok batch, b')) :
    Selected pattern batch := by
  refine ⟨parsed, hparsed, fun m hm => ?_⟩
  obtain ⟨w, -, -, ⟨e, heq, -⟩ | ⟨heq, -⟩⟩ :=
    Bus.deliver_cases (F := F) fault b name p parsed label limit
  · cases heq.symm.trans h
  · obtain ⟨hbatch, -⟩ := Prod.mk.inj (heq.symm.trans h)
    rw [← Except.ok.inj hbatch] at hm
    exact Partition.matchesTopic_of_mem_merged hm

theorem id_of_publish {p : Partition} {disk : Disk}
    {fault : Option PartitionLog.AppendFault} {m : Message} {id : Ulid} {w : World}
    (h : p.publish F fault disk m = (.ok id, w)) : id = m.id := by
  unfold Partition.publish at h
  rcases hpublish : p.log.append F fault disk m with ⟨e | _, log, disk'⟩
  · simp only [hpublish] at h
    cases h
  · simp only [hpublish] at h
    exact (Except.ok.inj (Prod.mk.inj h).1).symm

/-- **What a connection does with any request is a beginning of an answer that fits.** -/
theorem said_of_dispatch {sh : Shared} {faults : Faults} {q : Request} {d : Dispatch}
    (h : b.dispatch F faults (sh.readings r) q = (d, b')) :
    (Connection.handle socket d).Said socket [.request q r] := by
  obtain ⟨rfl, rfl⟩ := Prod.ext_iff.mp h
  have herror : ∀ e, q.mayFail = true → (Connection.handle socket (.reply (.error e))).Said socket
    [.request q r] :=
    fun e hfail => .answering (.failed hfail)
  simp only [Bus.dispatch]
  generalize b.touch ((sh.readings r).instant 0) = b
  cases q with
  | ensure pattern =>
    simp only [Bus.arm, Bus.ensure]
    split
    · exact herror _ rfl
    · next parsed hparsed =>
      split
      · exact herror _ rfl
      · next name hname =>
        rcases b.partitionMut F faults.openFault name with ⟨e | p, b₁⟩
        · exact herror _ rfl
        · rw [PartitionName.asStr_of_parse hname]
          exact .answering (.ensured hparsed)
  | post topic body priority sender broadcast =>
    simp only [Bus.arm, Bus.post]
    split
    · exact herror _ rfl
    · next t htopic =>
      split
      · exact herror _ rfl
      · next name hname =>
        rcases b.partitionMut F faults.openFault name with ⟨e | p, b₁⟩
        · exact herror _ rfl
        · simp only
          rcases hpublish : p.publish F faults.append b₁.disk _ with ⟨e | id, w⟩
          · exact herror _ rfl
          · obtain rfl : id = r.id := by
              rw [id_of_publish hpublish]
              split <;> rfl
            exact .answering (.posted htopic)
  | wait pattern label timeoutSecs =>
    simp only [Bus.arm, Bus.wait]
    rcases hresolve : b.resolve F faults.openFault pattern with ⟨e | ⟨parsed, name, p⟩, b₁⟩
    · exact herror _ rfl
    · have hparsed := (Bus.of_resolve_ok hresolve).1
      simp only
      rcases hdeliver : b₁.deliver F faults.persist name p parsed label 1 with ⟨e | _ | ⟨m, ms⟩, b₂⟩
      · exact herror _ rfl
      · exact .accepted (.wait hparsed)
      · have hlength := length_of_deliver hdeliver
        have hone : (1 : UInt64).toNat = 1 := rfl
        rw [hone, List.length_cons] at hlength
        obtain rfl : ms = [] := List.length_eq_zero_iff.mp (by omega)
        exact .answering (.waited (selected_of_deliver hparsed hdeliver))
  | read pattern label =>
    simp only [Bus.arm, Bus.read]
    rcases hresolve : b.resolve F faults.openFault pattern with ⟨e | ⟨parsed, name, p⟩, b₁⟩
    · exact herror _ rfl
    · have hparsed := (Bus.of_resolve_ok hresolve).1
      simp only
      rcases hdeliver : b₁.deliver F faults.persist name p parsed label usizeMax
          with ⟨e | batch, b₂⟩
      · exact herror _ rfl
      · exact .answering (.read (selected_of_deliver hparsed hdeliver))
  | follow pattern label =>
    simp only [Bus.arm, Bus.follow]
    rcases hresolve : b.resolve F faults.openFault pattern with ⟨e | ⟨parsed, name, p⟩, b₁⟩
    · exact herror _ rfl
    · have hparsed := (Bus.of_resolve_ok hresolve).1
      have hnone : Streamed pattern [] := by simp [Streamed]
      exact .accepted (.follow hparsed hnone)
  | history pattern sinceSecs =>
    simp only [Bus.arm, Bus.history]
    rcases hresolve : b.resolve F faults.openFault pattern with ⟨e | ⟨parsed, name, p⟩, b₁⟩
    · exact herror _ rfl
    · have hparsed := (Bus.of_resolve_ok hresolve).1
      refine .answering (.history ⟨parsed, hparsed, fun m hm => (List.mem_filter.mp hm).2⟩
        fun since hs m hm => ?_)
      have hsince := (List.mem_filter.mp (List.mem_filter.mp hm).1).2
      rw [Option.mem_def.mp hs] at hsince
      exact of_decide_eq_true hsince
  | status => exact .answering (.status rfl rfl)
  | metrics => exact .answering (.metrics rfl)
  | stop => exact .stopping

/-! ## Parked requests -/

theorem said_of_subscribe {p : Parked} {fault : Option Partition.OpenFault} {now : Nat}
    {c : Connection} {rest : List Frame} (h : p.subscribe F fault now b = (c, b'))
    (hp : p.Serving rest) : c.Said socket rest := by
  cases Parked.subscribed_of_subscribe h with
  | unnamed | unopened _ _ => exact hp.fail _
  | subscribed _ _ =>
    refine .checking ⟨hp, fun hkind => ?_⟩
    cases hp with
    | wait _ => cases hkind
    | follow _ _ => rfl

theorem ne_nil_of_follow {p : Parked} {place : Subscription} {faults : Faults}
    {batch : List Message} (h : p.follow F faults place b = (.delivered p place batch, b')) :
    batch ≠ [] := by
  have hfail : ∀ e, p.fail e ≠ .delivered p place batch := by
    intro e heq
    unfold Parked.fail at heq
    split at heq <;> cases heq
  unfold Parked.follow at h
  rcases hopen : b.partitionMut F faults.openFault place.name with ⟨e | q, b₁⟩
  · rw [hopen] at h
    exact absurd (Prod.mk.inj h).1 (hfail _)
  · rcases hdeliver : b₁.deliver F faults.persist place.name q p.pattern p.label
        TaskKind.follow.limit with
      ⟨e | _ | ⟨m, ms⟩, b₂⟩
    all_goals simp only [hopen, hdeliver] at h
    · exact absurd (Prod.mk.inj h).1 (hfail _)
    · cases h
    · cases h
      exact List.cons_ne_nil m ms

theorem said_of_check {p : Parked} {place : Subscription} {faults : Faults} {c : Connection}
    {rest : List Frame} (h : p.check F faults place b = (c, b')) (hp : p.Placed place rest) :
    c.Said socket rest := by
  obtain ⟨hserving, hpatient⟩ := hp
  cases Parked.checked_of_check h with
  | unopened _ | broken _ _ _ => exact hserving.fail _
  | missed _ _ _ | idle _ _ => exact .blocked ⟨hserving, hpatient⟩
  | @waited q b₁ b₂ m ms hkind _ hdeliver =>
    cases hserving with
    | wait hparsed =>
      have hlength := length_of_deliver hdeliver
      have hone : (TaskKind.wait.limit).toNat = 1 := rfl
      rw [hone, List.length_cons] at hlength
      obtain rfl : ms = [] := List.length_eq_zero_iff.mp (by omega)
      exact .leaving (.wait (.waited (selected_of_deliver hparsed hdeliver)))
    | follow _ _ => cases hkind
  | @followed q b₁ b₂ batch hkind _ hdeliver =>
    cases hserving with
    | wait _ => cases hkind
    | @follow partition pattern label parsed r batches hparsed hstreamed =>
      have hmore : Streamed pattern (batches ++ [batch]) := by
        intro batch' hmem
        rcases List.mem_append.mp hmem with hmem | hmem
        · exact hstreamed batch' hmem
        · rw [List.mem_singleton.mp hmem]
          exact ⟨ne_nil_of_follow h, selected_of_deliver hparsed hdeliver⟩
      refine .delivered (.follow hparsed hstreamed) ⟨?_, hpatient⟩
      simpa using Parked.Serving.follow hparsed hmore

/-! ## Steps -/

theorem root_of_acts {sweep : Option Nat} {ms : List Message} {ds : List Handing}
    (h : Bus.Acts F sweep b ms ds b') :
    b'.state.stateDir = b.state.stateDir := by
  induction h with
  | refl => rfl
  | @act ms ms' ds ds' b₁ b₂ _ hact ih =>
    refine Eq.trans ?_ ih
    cases hact with
    | quiet hsame => exact hsame.stateDir
    | @opened fault name r _ hopen =>
      rcases Bus.partitionMut_cases (F := F) fault b₁ name with
        ⟨p, -, heq⟩ | ⟨-, ⟨p, disk, -, heq⟩ | ⟨e, disk, -, heq⟩⟩
      all_goals
        rw [heq] at hopen
        obtain ⟨-, rfl⟩ := Prod.mk.inj hopen
        rfl
    | posted _ _ _ => rfl
    | delivered _ hdeliver | undelivered _ hdeliver =>
      obtain rfl : _ = b₂ := congrArg Prod.snd hdeliver
      rfl
    | @pruned fault now n r _ _ hprune =>
      obtain rfl : _ = b₂ := congrArg Prod.snd hprune
      unfold Bus.pruneOne
      split <;> rfl

/-- **What a step of a connection leaves said.** -/
theorem said_of_connection {sh sh' : Shared} {c c' : Connection} {e : ConnectionEvent}
    {fs rest : List Frame} (hnext : c.next F sh e = some (sh', c'))
    (hsocket : socketPath sh'.bus.state.stateDir = socket) (hfs : (dialogue socket).Amid fs rest)
    (h : c.Said socket rest) :
    ∃ rest', (dialogue socket).Amid (fs ++ c.frames e) rest' ∧ c'.Said socket rest' := by
  -- nothing is said
  have hquiet : c.frames e = [] → c'.Said socket rest →
      ∃ rest', (dialogue socket).Amid (fs ++ c.frames e) rest' ∧ c'.Said socket rest' := by
    intro hnil hsaid
    rw [hnil, List.append_nil]
    exact ⟨rest, hfs, hsaid⟩
  cases Connection.step_of_next hnext with
  | hangUp => exact hquiet rfl (.closed h.begins)
  | malformed =>
    cases h with
    | reading => exact ⟨_, hfs.append _, .misread⟩
  | request hdispatch =>
    cases h with
    | reading =>
      refine ⟨_, hfs.append _, ?_⟩
      rw [hsocket]
      exact said_of_dispatch hdispatch
  | @answered a ends =>
    cases h with
    | misread => exact ⟨[], (hfs.append [.answer .malformed]).finish .malformed, .reading⟩
    | answering hanswered => exact ⟨[], (hfs.append _).finish (.answered hanswered), .reading⟩
    | ending hends =>
      cases hends with
      | wait hanswered => exact ⟨[], (hfs.append _).finish (.answered hanswered), .reading⟩
      | follow hstreamed =>
        exact ⟨_, hfs.append _, .closed (.inr (Dialogue.begins_of_closed (.followed hstreamed)))⟩
  | stopAnswered =>
    cases h with
    | stopping => exact ⟨_, hfs.append _, .signalling⟩
  | unanswered | stopUnanswered => exact hquiet rfl (.closed h.begins)
  | signal => exact hquiet rfl (.closed h.begins)
  | enter =>
    cases h with
    | accepted hp => exact hquiet rfl (.entered hp)
  | subscribe hsub =>
    cases h with
    | entered hp => exact hquiet rfl (said_of_subscribe hsub hp)
  | check hcheck =>
    cases h with
    | checking hp => exact hquiet rfl (said_of_check hcheck hp)
  | record =>
    cases h with
    | delivered hp hnext => exact hquiet rfl (.streaming hp hnext)
  | streamed =>
    cases h with
    | streaming _ hnext => exact ⟨_, hfs.append _, .checking hnext⟩
  | unstreamed =>
    cases h with
    | @streaming p _ _ _ hp hmore =>
      refine hquiet rfl (.leaving ?_)
      cases hp with
      | wait _ =>
        obtain ⟨hwait, -⟩ := hmore
        cases hwait
      | follow _ hstreamed => exact .follow hstreamed
  | wake =>
    cases h with
    | blocked hp => exact hquiet rfl (.checking ⟨hp.serving, hp.patient⟩)
  | elapse =>
    cases h with
    | @blocked p place _ hp =>
      refine hquiet rfl (.leaving ?_)
      obtain ⟨hserving, hpatient⟩ := hp
      cases hserving with
      | wait _ => exact .wait .timeout
      | follow _ _ =>
        rw [Connection.next, hpatient rfl, Option.any_none, if_neg Bool.false_ne_true] at hnext
        cases hnext
  | leave =>
    cases h with
    | leaving hends => exact hquiet rfl (.ending hends)

/-! ## Runs -/

/-- The state of connection `i`, and what was said on it. -/
structure Conforms (stateDir : Path) (i : Nat) (fs : List Frame) (s : Service) : Prop where
  root : s.shared.bus.state.stateDir = stateDir
  said : ∀ c, s.connections[i]? = some c →
    ∃ rest, (dialogue (socketPath stateDir)).Amid fs rest ∧ c.Said (socketPath stateDir) rest
  unused : s.connections[i]? = none → fs = []

theorem Conforms.step {i : Nat} {fs : List Frame} {s s' : Service} {e : ServiceEvent}
    (h : Conforms stateDir i fs s) (hnext : s.next F threshold e = some s') :
    Conforms stateDir i (fs ++ s.frames i e) s' := by
  obtain ⟨ms, hacts, -⟩ := acts_of_step (Service.step_of_next hnext)
  have hroot := (root_of_acts hacts).trans h.root
  -- nothing happens to the connection
  have hquiet : s.frames i e = [] → s'.connections[i]? = s.connections[i]? →
      Conforms stateDir i (fs ++ s.frames i e) s' := by
    intro hnil hsame
    rw [hnil, List.append_nil]
    exact ⟨hroot, fun c hc => h.said c (hsame.symm.trans hc),
      fun hnone => h.unused (hsame.symm.trans hnone)⟩
  cases e with
  | accept j =>
    cases hfree : s.connections[j]? with
    | some _ => simp [Service.next, hfree] at hnext
    | none =>
      obtain rfl : { s with connections := s.connections.insert j .reading } = s' := by
        simpa [Service.next, hfree] using hnext
      by_cases hj : j = i
      · subst hj
        have hnil : s.frames j (.accept j) = [] := rfl
        rw [hnil, List.append_nil, h.unused hfree]
        refine ⟨hroot, fun c hc => ?_, fun _ => rfl⟩
        obtain rfl : .reading = c := by simpa using hc
        exact ⟨[], Dialogue.amid_nil _, .reading⟩
      · exact hquiet rfl (by simp [Std.ExtTreeMap.getElem?_insert, hj])
  | connection j e =>
    cases hc : s.connections[j]? with
    | none => simp [Service.next, hc] at hnext
    | some c =>
      simp only [Service.next, hc] at hnext
      obtain ⟨⟨sh, c'⟩, hconnection, rfl⟩ := Option.map_eq_some_iff.mp hnext
      by_cases hj : j = i
      · subst hj
        obtain ⟨rest, hfs, hsaid⟩ := h.said c hc
        obtain ⟨rest', hfs', hsaid'⟩ := said_of_connection hconnection (by rw [hroot]) hfs hsaid
        simp only [Service.frames, if_true, hc, Option.elim_some]
        refine ⟨hroot, fun c'' hc'' => ?_, fun hnone => ?_⟩
        · obtain rfl : c' = c'' := by simpa using hc''
          exact ⟨rest', hfs', hsaid'⟩
        · simp at hnone
      · exact hquiet (by simp [Service.frames, hj]) (by simp [Std.ExtTreeMap.getElem?_insert, hj])
  | sweep e =>
    obtain ⟨r, -, rfl⟩ := Option.map_eq_some_iff.mp hnext
    exact hquiet rfl rfl

theorem conforms_of_exec {i : Nat} {es : List (ServiceEvent × List Frame)} {s : Service}
    (h : Exec (sessions F threshold stateDir i) es s) : Conforms stateDir i (transcript es) s := by
  refine h.invariant (I := fun es s => Conforms stateDir i (transcript es) s) ?_ ?_
  · rintro _ ⟨disk, now, rfl⟩
    refine ⟨rfl, fun c hc => ?_, fun _ => rfl⟩
    rw [Service.start, Std.ExtTreeMap.getElem?_empty] at hc
    cases hc
  · intro es s e s' _ ih ⟨hnext, hframes⟩
    rw [transcript_concat, hframes]
    exact ih.step hnext

theorem Conforms.session {i : Nat} {fs : List Frame} {s : Service} (h : Conforms stateDir i fs s) :
    (dialogue (socketPath stateDir)).Session fs := by
  cases hc : s.connections[i]? with
  | none =>
    rw [h.unused hc]
    exact ⟨[], Dialogue.amid_nil _, .inl rfl⟩
  | some c =>
    obtain ⟨rest, hamid, hsaid⟩ := h.said c hc
    exact ⟨rest, hamid, hsaid.begins⟩

/-- **Every connection's session is well formed**, whatever the clients and the other tasks do. -/
theorem sessions_conform {i : Nat} {es : List (ServiceEvent × List Frame)} {s : Service}
    (h : Exec (sessions F threshold stateDir i) es s) :
    (dialogue (socketPath stateDir)).Session (transcript es) :=
  (conforms_of_exec h).session

/-- A client sends nonsense, posts, and follows what it posted. -/
theorem sessions_conform_follow : ∃ es s, Exec (sessions .reference 5400 "/state" 0) es s ∧
    es.length = 11 ∧ (dialogue (socketPath "/state")).Session (transcript es) := by
  let events : List ServiceEvent := .accept 0 :: [.malformed, .sent,
    .request (.post "iot_base/dev_01" "" .normal none false) noFaults (readingsAt 1), .sent,
    .request (.follow "iot_base/*" "alice") noFaults (readingsAt 2), .enter, .subscribe none 2,
    .check noFaults, .record fun _ => 2000, .sent].map (.connection 0)
  obtain ⟨s, hx, -⟩ := exec_of_freshService 5400 (fun _ _ => true) events (fun _ => true)
    (by decide +kernel)
  obtain ⟨es, hes, hevents⟩ := Exec.exists_watched (fun s e _ => s.frames 0 e) hx.of_restrict
  refine ⟨es, s, hes, ?_, sessions_conform hes⟩
  simpa [events] using congrArg List.length hevents

end AgentBus
