import AgentBus.Daemon.Requests
import AgentBus.Daemon.Service

/-!
# Idle shutdown and parked clients

The sweep looks at the clock under the lock and at the counters after it, and a
request is accepted under the lock and counted after it. `idle_shutdown_spares`
says what has to hold at the moments in between for the sweep to send the
shutdown signal only when no accepted request is left.
-/

namespace AgentBus

open Lib

/-! ## Accepted requests -/

/-- The connection is inside the guard of such a request. -/
def Connection.guards (kind : TaskKind) : Connection → Bool
  | .entered p => p.kind == kind
  | .checking p _ => p.kind == kind
  | .blocked p _ => p.kind == kind
  | .delivered p _ _ => p.kind == kind
  | .streaming p _ _ => p.kind == kind
  | .leaving kind' _ => kind' == kind
  | _ => false

/-- The connection has a request of this kind that was accepted and is not finished. -/
def Connection.serves (kind : TaskKind) : Connection → Bool
  | .accepted p => p.kind == kind
  | .answering _ (some kind') => kind' == kind
  | c => c.guards kind

/-- The kind of request that was accepted. -/
def Dispatch.accepted : Dispatch → Option TaskKind
  | .waitPending _ _ _ _ => some .wait
  | .followPending _ _ _ => some .follow
  | _ => none

/-- The kind of request that this one is accepted as: a wait that finds nothing unread, or a
follow. -/
def Request.parks (F : Formats) (fault : Option Partition.OpenFault) (b : Bus) :
    Request → Option TaskKind
  | .wait pattern label _ =>
    match (b.resolve F fault pattern).1 with
    | .error _ => none
    | .ok (pattern, _, p) => if (p.merged pattern label 1).isEmpty then some .wait else none
  | .follow pattern _ =>
    match (b.resolve F fault pattern).1 with
    | .error _ => none
    | .ok _ => some .follow
  | _ => none

def Shared.active (sh : Shared) : TaskKind → Nat
  | .wait => sh.activeWaiters
  | .follow => sh.activeFollowers

/-- How many connections are inside such a guard. -/
def Service.guarded (s : Service) (kind : TaskKind) : Nat :=
  sumOver (fun c => (c.guards kind).toNat) s.connections

/-! ## What the sweep relies on -/

/-- The sweep has found the daemon idle and nobody of this kind counted. -/
def Sweeper.relies (threshold : Nat) (kind : TaskKind) : Sweeper → Prop
  | .waitersLoaded idleSecs waiters => kind = .wait ∧ waiters = 0 ∧ threshold ≤ idleSecs
  | .parkedLoaded idleSecs parked => parked = 0 ∧ threshold ≤ idleSecs
  | .signalling => True
  | _ => False

/-- A counter that an idle daemon's sweep loads as zero misses no accepted request of its kind, and
no request is accepted while the sweep relies on the counter. -/
def Service.Covered (F : Formats) (threshold : Nat) (s : Service) : ServiceEvent → Prop
  | .sweep .loadWaiters =>
    ∀ idleSecs, s.sweeper = .pruned idleSecs → threshold ≤ idleSecs →
      s.shared.activeWaiters = 0 →
      ∀ c ∈ s.connections.values, c.serves .wait = true → c.guards .wait = true
  | .sweep .loadFollowers =>
    ∀ idleSecs, s.sweeper = .waitersLoaded idleSecs 0 → threshold ≤ idleSecs →
      s.shared.activeFollowers = 0 →
      ∀ c ∈ s.connections.values, c.serves .follow = true → c.guards .follow = true
  | .connection _ (.request q faults r) => ∀ kind, s.sweeper.relies threshold kind →
      q.parks F faults.openFault (s.shared.bus.touch (r.instant 0)) ≠ some kind
  | _ => True

variable {F : Formats} {threshold : Nat} {stateDir : Path} {sh sh' : Shared} {c c' : Connection}
  {kind : TaskKind}

/-! ## One connection -/

/-- The connection is inside the guard of a request of this kind. -/
def Connection.Inside (kind : TaskKind) (c : Connection) : Prop :=
  ∀ kind', c.guards kind' = (kind == kind') ∧ c.serves kind' = (kind == kind')

theorem inside_fail (p : Parked) (e : BusError) : (p.fail e).Inside p.kind := by
  intro kind'
  cases hkind : p.kind <;> simp only [Parked.fail, hkind, Connection.guards,
    Connection.serves, and_self]

theorem inside_subscribe {p : Parked} {fault : Option Partition.OpenFault} {now : Nat} {b b' : Bus}
    (h : p.subscribe F fault now b = (c, b')) : c.Inside p.kind := by
  cases Parked.subscribed_of_subscribe h with
  | unnamed => exact inside_fail p _
  | unopened => exact inside_fail p _
  | subscribed => exact fun _ => ⟨rfl, rfl⟩

theorem inside_check {p : Parked} {faults : Faults} {place : Subscription} {b b' : Bus}
    (h : p.check F faults place b = (c, b')) : c.Inside p.kind := by
  cases Parked.checked_of_check h with
  | unopened => exact inside_fail p _
  | broken => exact inside_fail p _
  | missed | idle | followed => exact fun _ => ⟨rfl, rfl⟩
  | waited hkind _ _ =>
    rw [hkind]
    exact fun _ => ⟨rfl, rfl⟩

theorem accepted_dispatch (faults : Faults) (r : Readings) (b : Bus) (q : Request) :
    (b.dispatch F faults r q).1.accepted = q.parks F faults.openFault (b.touch (r.instant 0)) := by
  cases q with
  | ensure pattern =>
    simp only [Bus.dispatch, Bus.arm, Bus.ensure, Request.parks]
    split
    · rfl
    · split
      · rfl
      · split <;> rfl
  | post topic body priority «from» broadcast =>
    simp only [Bus.dispatch, Bus.arm, Bus.post, Request.parks]
    split
    · rfl
    · split
      · rfl
      · split
        · rfl
        · split <;> rfl
  | wait pattern label timeoutSecs =>
    simp only [Bus.dispatch, Bus.arm, Bus.wait, Request.parks]
    rcases (b.touch (r.instant 0)).resolve F faults.openFault pattern
        with ⟨_ | ⟨pattern, name, p⟩, b'⟩
    · rfl
    · obtain ⟨w, -, -, ⟨e, hdeliver, hne, -⟩ | ⟨hdeliver, -⟩⟩ :=
        Bus.deliver_cases (F := F) faults.persist b' name p pattern label 1
      · simp only [hdeliver, List.isEmpty_iff, if_neg hne]
        rfl
      · simp only [hdeliver]
        cases p.merged pattern label 1 <;> rfl
  | read pattern label =>
    simp only [Bus.dispatch, Bus.arm, Bus.read, Request.parks]
    split
    · rfl
    · split <;> rfl
  | follow pattern label =>
    simp only [Bus.dispatch, Bus.arm, Bus.follow, Request.parks]
    rcases (b.touch (r.instant 0)).resolve F faults.openFault pattern with ⟨_ | _, b'⟩ <;> rfl
  | history pattern sinceSecs =>
    simp only [Bus.dispatch, Bus.arm, Bus.history, Request.parks]
    split <;> rfl
  | status | metrics | stop => rfl

theorem guards_handle (socket : Path) (d : Dispatch) :
    (Connection.handle socket d).guards kind = false := by
  cases d <;> rfl

theorem serves_handle (socket : Path) (d : Dispatch) :
    (Connection.handle socket d).serves kind = (d.accepted == some kind) := by
  cases d <;> rfl

theorem active_of_step {e : ConnectionEvent} (h : c.Step F sh e sh' c')
    (hcounted : c.guards kind = true → 0 < sh.active kind) :
    sh'.active kind + (c.guards kind).toNat = sh.active kind + (c'.guards kind).toNat := by
  cases h with
  | request _ => rw [guards_handle]; rfl
  | @answered a ends => cases ends with
    | none => rfl
    | some kind' => cases kind' <;> rfl
  | @enter p =>
    rw [show Connection.guards kind (.accepted p) = false from rfl]
    cases hkind : p.kind <;> cases kind <;>
      simp [Connection.guards, Shared.enter, Shared.active, hkind]
  | @subscribe p fault now c b hsub =>
    rw [(inside_subscribe hsub kind).1]
    rfl
  | @check p place faults c b hcheck =>
    rw [(inside_check hcheck kind).1]
    rfl
  | @leave kind' a =>
    rw [show Connection.guards kind (.answering a (some kind')) = false from rfl]
    cases kind' <;> cases kind <;> simp_all [Connection.guards, Shared.leave, Shared.active] <;>
      omega
  | _ => rfl

/-- A connection comes to serve a request by having it accepted. -/
theorem serves_of_step {e : ConnectionEvent} (h : c.Step F sh e sh' c')
    (hserves : c'.serves kind = true) :
    c.serves kind = true ∨ ∃ q faults r, e = .request q faults r ∧
      q.parks F faults.openFault (sh.bus.touch (r.instant 0)) = some kind := by
  cases h with
  | @request q faults r d b hdispatch =>
    have haccepted := accepted_dispatch (F := F) faults (sh.readings r) sh.bus q
    rw [hdispatch] at haccepted
    rw [serves_handle, beq_iff_eq] at hserves
    exact .inr ⟨q, faults, r, rfl, haccepted.symm.trans hserves⟩
  | @answered a ends => cases ends with
    | none => cases hserves
    | some kind' => cases kind' <;> cases hserves
  | @subscribe p fault now c b hsub =>
    exact .inl ((inside_subscribe hsub kind).2.symm.trans hserves)
  | @check p place faults c b hcheck =>
    exact .inl ((inside_check hcheck kind).2.symm.trans hserves)
  | hangUp | malformed | unanswered | stopAnswered | stopUnanswered | signal => cases hserves
  | enter | record | streamed | unstreamed | wake | elapse | leave => exact .inl hserves

/-! ## The sweep -/

variable {w w' : Sweeper} {e : SweepEvent}

theorem active_of_sweep (h : w.Step F threshold sh e sh' w') :
    sh'.active kind = sh.active kind := by
  cases h with
  | prune _ | signal => cases kind <;> rfl
  | loadWaiters | loadFollowers | idle _ _ | busy => rfl

/-- The sweep comes to rely on a counter by loading it as zero. -/
theorem relies_of_sweep (h : w.Step F threshold sh e sh' w') (hrelies : w'.relies threshold kind) :
    w.relies threshold kind ∨ sh.active kind = 0 ∧ ∃ idleSecs, threshold ≤ idleSecs ∧
      (kind = .wait ∧ e = .loadWaiters ∧ w = .pruned idleSecs ∨
        kind = .follow ∧ e = .loadFollowers ∧ w = .waitersLoaded idleSecs 0) := by
  cases h with
  | prune _ | busy | signal => exact hrelies.elim
  | @loadWaiters idleSecs =>
    obtain ⟨rfl, hzero, hidle⟩ := hrelies
    exact .inr ⟨hzero, idleSecs, hidle, .inl ⟨rfl, rfl, rfl⟩⟩
  | @loadFollowers idleSecs waiters =>
    obtain ⟨hparked, hidle⟩ := hrelies
    obtain ⟨rfl, hzero⟩ := Nat.add_eq_zero_iff.mp hparked
    cases kind with
    | wait => exact .inl ⟨rfl, rfl, hidle⟩
    | follow => exact .inr ⟨hzero, idleSecs, hidle, .inr ⟨rfl, rfl, rfl⟩⟩
  | idle hparked hidle => exact .inl ⟨hparked, hidle⟩

/-! ## Runs -/

namespace Service

variable {s s' : Service} {es : List ServiceEvent}

/-- The counters count the clients inside the guards. -/
def Counted (s : Service) : Prop := ∀ kind, s.shared.active kind = s.guarded kind

theorem Counted.connection (h : s.Counted) {i : Nat} {e : ConnectionEvent}
    (hc : s.connections[i]? = some c) (hstep : c.Step F s.shared e sh' c') :
    Counted { s with shared := sh', connections := s.connections.insert i c' } := by
  intro kind
  have hle : (c.guards kind).toNat ≤ s.guarded kind :=
    le_sumOver (f := fun c => (c.guards kind).toNat) hc
  have hpos : c.guards kind = true → 0 < s.shared.active kind := fun hguards => by
    rw [hguards, Bool.toNat_true] at hle
    rw [h kind]
    omega
  have hactive := active_of_step hstep hpos
  have hsum := sumOver_insert_of_some (f := fun c => (c.guards kind).toNat) (v := c') hc
  have hcounted := h kind
  simp only [guarded] at hcounted ⊢
  omega

theorem Counted.step {e : ServiceEvent} (h : s.Counted) (hstep : s.Step F threshold e s') :
    s'.Counted := by
  cases hstep with
  | accept hfree =>
    intro kind
    rw [guarded, sumOver_insert_of_none hfree]
    exact h kind
  | connection hc hstep => exact h.connection hc hstep
  | sweep hstep => exact fun kind => (active_of_sweep hstep).trans (h kind)

/-- While the sweep relies on it, there is no accepted request of the kind. -/
def Spared (threshold : Nat) (s : Service) : Prop :=
  ∀ kind, s.sweeper.relies threshold kind → ∀ c ∈ s.connections.values, c.serves kind = false

theorem Counted.guards_eq_false (h : s.Counted) (hzero : s.shared.active kind = 0)
    (hc : c ∈ s.connections.values) : c.guards kind = false := by
  obtain ⟨i, hi⟩ := mem_values.mp hc
  have hle : (c.guards kind).toNat ≤ s.guarded kind :=
    le_sumOver (f := fun c => (c.guards kind).toNat) hi
  rw [← h kind, hzero] at hle
  cases hguards : c.guards kind with
  | false => rfl
  | true => rw [hguards] at hle; cases hle

theorem Spared.step {e : ServiceEvent} (h : s.Spared threshold) (hcounted : s.Counted)
    (hcovered : s.Covered F threshold e) (hstep : s.Step F threshold e s') :
    s'.Spared threshold := by
  cases hstep with
  | @accept i hfree =>
    intro kind hrelies c hc
    obtain ⟨j, hj⟩ := mem_values.mp hc
    rw [Std.ExtTreeMap.getElem?_insert] at hj
    split at hj
    · obtain rfl := Option.some.inj hj
      rfl
    · exact h kind hrelies c (mem_values.mpr ⟨j, hj⟩)
  | @connection i c c' e sh hc hstep =>
    intro kind hrelies d hd
    obtain ⟨j, hj⟩ := mem_values.mp hd
    rw [Std.ExtTreeMap.getElem?_insert] at hj
    split at hj
    · obtain rfl := Option.some.inj hj
      rw [Bool.eq_false_iff]
      intro hserves
      rcases serves_of_step hstep hserves with hbefore | ⟨q, faults, r, rfl, hparks⟩
      · rw [h kind hrelies c (mem_values.mpr ⟨i, hc⟩)] at hbefore
        cases hbefore
      · exact hcovered kind hrelies hparks
    · exact h kind hrelies d (mem_values.mpr ⟨j, hj⟩)
  | @sweep e sh w hstep =>
    intro kind hrelies c hc
    rcases relies_of_sweep hstep hrelies with hbefore | ⟨hzero, idleSecs, hidle, hload⟩
    · exact h kind hbefore c hc
    · have hguards := hcounted.guards_eq_false hzero hc
      rw [Bool.eq_false_iff]
      intro hserves
      have hguarded : c.guards kind = true := by
        rcases hload with ⟨rfl, rfl, hw⟩ | ⟨rfl, rfl, hw⟩
        · exact hcovered idleSecs hw hidle hzero c hc hserves
        · exact hcovered idleSecs hw hidle hzero c hc hserves
      rw [hguards] at hguarded
      cases hguarded

theorem counted_and_spared
    (h : Exec ((service F threshold stateDir).restrict (Covered F threshold)) es s) :
    s.Counted ∧ s.Spared threshold := by
  refine h.invariant (I := fun _ s => s.Counted ∧ s.Spared threshold) ?_ ?_
  · rintro s ⟨disk, now, rfl⟩
    refine ⟨fun kind => ?_, fun kind hrelies => hrelies.elim⟩
    rw [guarded, start, sumOver_empty]
    cases kind <;> rfl
  · rintro es s e s' - ⟨hcounted, hspared⟩ ⟨hcovered, hnext⟩
    have hstep := step_of_next hnext
    exact ⟨hcounted.step hstep, hspared.step hcounted hcovered hstep⟩

end Service

/-- **The idle shutdown spares every accepted request.** -/
theorem idle_shutdown_spares {s s' : Service} {es : List ServiceEvent}
    (h : Exec ((service F threshold stateDir).restrict (Service.Covered F threshold)) es s)
    (hsignal : s.next F threshold (.sweep .signal) = some s') (i : Nat) (c : Connection)
    (hc : s.connections[i]? = some c) (kind : TaskKind) : c.serves kind = false := by
  refine (Service.counted_and_spared h).2 kind ?_ c (mem_values.mpr ⟨i, hc⟩)
  cases hw : s.sweeper with
  | signalling => trivial
  | _ => rw [Service.next, hw] at hsignal; cases hsignal

/-! ## A daemon of its own -/

/-- A check that suffices for `Covered`: requests while the sweep sleeps, and loads while none is
served. -/
def Service.isCovered (s : Service) : ServiceEvent → Bool
  | .sweep .loadWaiters => s.connections.values.all fun c => !c.serves .wait
  | .sweep .loadFollowers => s.connections.values.all fun c => !c.serves .follow
  | .connection _ (.request _ _ _) =>
    match s.sweeper with
    | .sleeping => true
    | _ => false
  | _ => true

theorem Service.covered_of_isCovered {s : Service} {e : ServiceEvent} (h : s.isCovered e = true) :
    s.Covered F threshold e := by
  have hnone : ∀ kind, (s.connections.values.all fun c => !c.serves kind) = true →
      ∀ c ∈ s.connections.values, c.serves kind = true → c.guards kind = true := by
    intro kind hall c hc hserves
    have hfree := List.all_eq_true.mp hall c hc
    rw [hserves] at hfree
    cases hfree
  unfold isCovered at h
  split at h
  · exact fun _ _ _ _ => hnone .wait h
  · exact fun _ _ _ _ => hnone .follow h
  · split at h
    · next hw =>
      intro kind hrelies
      rw [hw] at hrelies
      exact hrelies.elim
    · cases h
  · next hwaiters hfollowers hrequest =>
    unfold Covered
    split
    · exact absurd rfl hwaiters
    · exact absurd rfl hfollowers
    · exact absurd rfl (hrequest _ _ _ _)
    · trivial

/-- The sweep can send the shutdown signal, and the connection meets `P`. -/
def Service.stopsWhile (i : Nat) (P : Connection → Bool) (s : Service) : Bool :=
  (s.next .reference idleShutdownSecs (.sweep .signal)).isSome && (s.connections[i]?).any P

theorem of_stopsWhile {s : Service} {i : Nat} {P : Connection → Bool}
    (h : s.stopsWhile i P = true) :
    ∃ s' c, s.next .reference idleShutdownSecs (.sweep .signal) = some s' ∧
      s.connections[i]? = some c ∧ P c = true := by
  obtain ⟨hsignal, hc⟩ := Bool.and_eq_true_iff.mp h
  obtain ⟨s', hs'⟩ := Option.isSome_iff_exists.mp hsignal
  obtain ⟨c, hc, hP⟩ := (Option.any_eq_true _ _).mp hc
  exact ⟨s', c, hs', hc, hP⟩

/-- A wait times out after half an hour, its client stays connected, and the daemon is idle for as
long again as it takes. -/
def quietWait : List ServiceEvent :=
  [.accept 0,
    .connection 0 (.request (.wait "iot_base/dev_01" "alice" none) noFaults (readingsAt 0)),
    .connection 0 .enter, .connection 0 (.subscribe none 0), .connection 0 (.check noFaults),
    .connection 0 (.elapse (1800 * 1000000000)), .connection 0 .leave, .connection 0 .sent,
    .sweep (.prune (fun _ => none) 7200 (7200 * 1000000000)), .sweep .loadWaiters,
    .sweep .loadFollowers, .sweep .decide]

theorem idle_shutdown_spares_quiet_wait : ∃ s s' c,
    Exec ((service .reference idleShutdownSecs "/state").restrict
      (Service.Covered .reference idleShutdownSecs)) quietWait s ∧
    s.next .reference idleShutdownSecs (.sweep .signal) = some s' ∧ s.connections[0]? = some c ∧
    c.serves .wait = false := by
  obtain ⟨s, hx, hP⟩ := exec_of_freshService idleShutdownSecs Service.isCovered quietWait
    (Service.stopsWhile 0 fun _ => true) (by decide)
  obtain ⟨s', c, hsignal, hc, -⟩ := of_stopsWhile hP
  have hcovered : Exec ((service .reference idleShutdownSecs "/state").restrict
      (Service.Covered .reference idleShutdownSecs)) quietWait s :=
    hx.restrict_mono fun _ _ => Service.covered_of_isCovered
  exact ⟨s, s', c, hcovered, hsignal, hc, idle_shutdown_spares hcovered hsignal 0 c hc .wait⟩

/-- A wait is accepted after the sweep has loaded the waiters. -/
def lateWait : List ServiceEvent :=
  [.accept 0, .sweep (.prune (fun _ => none) 5400 (5400 * 1000000000)), .sweep .loadWaiters,
    .connection 0 (.request (.wait "iot_base/dev_01" "alice" none) noFaults (readingsAt 5401)),
    .sweep .loadFollowers, .sweep .decide]

/-- The daemon shuts down on a client whose wait it has just accepted. -/
theorem late_wait_dropped : ∃ s s' c,
    Exec (service .reference idleShutdownSecs "/state") lateWait s ∧
    s.next .reference idleShutdownSecs (.sweep .signal) = some s' ∧ s.connections[0]? = some c ∧
    c.serves .wait = true := by
  obtain ⟨s, hx, hP⟩ := exec_of_freshService idleShutdownSecs (fun _ _ => true) lateWait
    (Service.stopsWhile 0 fun c => c.serves .wait) (by decide)
  obtain ⟨s', c, hsignal, hc, hserves⟩ := of_stopsWhile hP
  exact ⟨s, s', c, hx.of_restrict, hsignal, hc, hserves⟩

end AgentBus
