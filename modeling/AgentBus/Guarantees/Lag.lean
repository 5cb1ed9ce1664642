import AgentBus.Daemon.Report
import AgentBus.Guarantees.Completeness

/-!
# What the reported lag counts

`pattern_snapshots` counts the messages beyond a position. Delivery also looks
at the patterns and at what a label got already, so a position may pass a
message that was not delivered at it; from then on the line shows one message
less than is outstanding. The lag is exact as long as no delivery does that.
-/

namespace AgentBus

open Lib

variable {F : Formats} {stateDir : Path} {name : PartitionName} {es : List Event} {w w' : World}

/-! ## Outstanding messages -/

/-- The exclusive messages that match the pattern and that no call under it has returned. -/
def outstandingUnder (P : Pattern) (es : List Event) (log : List Message) : List Message :=
  (exclusiveMatching log P).filter fun m => !decide (m ∈ returnedUnder P.asStr es)

/-- The broadcast messages that were never delivered to the label. -/
def outstandingTo (label : String) (es : List Event) (log : List Message) : List Message :=
  (log.filter fun m => m.broadcast).filter fun m => !decide (m ∈ returnedTo label es)

/-- Every line's lag is the number of its outstanding messages. -/
def Partition.LagExact (es : List Event) (p : Partition) : Prop :=
  ∀ r ∈ p.patternSnapshots,
    (r.broadcast = false → ∀ P : Pattern, P.asStr = r.key →
      r.lag = (outstandingUnder P es p.log.messages).length) ∧
    (r.broadcast = true → r.lag = (outstandingTo r.label es p.log.messages).length)

/-- The delivery moves a position across a message that is not delivered at it. -/
def PassesUndelivered (w : World) (call : Call) : Prop := PassesSuppressed w call ∨
    PassesBroadcast w call

instance (w : World) : DecidablePred (PassesUndelivered w) :=
  fun call => inferInstanceAs (Decidable (PassesSuppressed w call ∨ PassesBroadcast w call))

/-! ## Lines and positions -/

namespace Partition

variable {p : Partition}

theorem lag_eq (h : p.Ascending) (pos : Ulid) (q : Message → Bool) :
    ((p.log.messagesAfter (some pos)).filter q).length =
      ((p.log.messages.filter q).filter fun m => isBeyond (some pos) m.id).length := by
  rw [messagesAfter_eq h, List.filter_comm]

/-- Of the messages of a line's kind, the delivered ones lie at or below its position. So the line
counts the outstanding ones exactly if no other does. -/
theorem length_beyond_eq_iff (ms : List Message) (position : Option Ulid)
    (delivered : Message → Bool)
    (hpassed : ∀ m ∈ ms, delivered m = true → isBeyond position m.id = false) :
    (∀ pos, position = some pos →
      (ms.filter fun m => isBeyond (some pos) m.id).length =
        (ms.filter fun m => !delivered m).length) ↔
      ∀ m ∈ ms, isBeyond position m.id = false → delivered m = true := by
  have hsub : ms.filter (fun m => isBeyond position m.id) =
      (ms.filter fun m => !delivered m).filter fun m => isBeyond position m.id := by
    rw [List.filter_filter]
    refine List.filter_congr fun m hm => ?_
    cases hd : delivered m with
    | true => rw [hpassed m hm hd, Bool.false_and]
    | false => rw [Bool.not_false, Bool.and_true]
  cases position with
  | none => simp
  | some pos =>
    simp only [Option.some.injEq, forall_eq']
    rw [hsub, List.length_filter_eq_length_iff]
    constructor
    · intro h m hm hb
      by_contra hd
      have hbeyond := h m (List.mem_filter.mpr ⟨hm, by simpa using hd⟩)
      rw [hb] at hbeyond
      cases hbeyond
    · intro h m hm
      obtain ⟨hm, hd⟩ := List.mem_filter.mp hm
      by_contra hb
      rw [h m hm (Bool.eq_false_iff.mpr hb)] at hd
      cases hd

theorem lagExact_iff (h : p.Ascending) : p.LagExact es ↔
    (∀ P : Pattern, ∀ pos, p.cursors.exclusivePosition P.asStr = some pos →
      ((exclusiveMatching p.log.messages P).filter fun m => isBeyond (some pos) m.id).length =
        (outstandingUnder P es p.log.messages).length) ∧
    (∀ label pos, p.cursors.broadcastPosition label = some pos →
      ((p.log.messages.filter fun m => m.broadcast).filter fun m =>
        isBeyond (some pos) m.id).length =
        (outstandingTo label es p.log.messages).length) := by
  constructor
  · refine fun hlines => ⟨fun P pos hpos => ?_, fun label pos hpos => ?_⟩
    · have hentry : (P.asStr, pos) ∈ p.cursors.exclusive.toList :=
        Std.ExtTreeMap.mem_toList_iff_getElem?_eq_some.mpr hpos
      have hlag := (hlines _ (List.mem_append_left _ (List.mem_map_of_mem hentry))).1 rfl P rfl
      simp only [Pattern.asStr, Pattern.parse_raw, lag_eq h] at hlag
      exact hlag
    · have hentry : (label, pos) ∈ p.cursors.broadcast.toList :=
        Std.ExtTreeMap.mem_toList_iff_getElem?_eq_some.mpr hpos
      have hlag := (hlines _ (List.mem_append_right _ (List.mem_map_of_mem hentry))).2 rfl
      simp only [lag_eq h] at hlag
      exact hlag
  · rintro ⟨hunder, hto⟩ r hr
    rcases List.mem_append.mp hr with hr | hr
    · obtain ⟨⟨key, pos⟩, hentry, rfl⟩ := List.mem_map.mp hr
      refine ⟨?_, fun hkind => absurd hkind Bool.false_ne_true⟩
      rintro - P rfl
      have hlag := hunder P pos (Std.ExtTreeMap.mem_toList_iff_getElem?_eq_some.mp hentry)
      simp only [Pattern.asStr, Pattern.parse_raw, lag_eq h]
      exact hlag
    · obtain ⟨⟨label, pos⟩, hentry, rfl⟩ := List.mem_map.mp hr
      refine ⟨fun hkind => absurd hkind.symm Bool.false_ne_true, fun _ => ?_⟩
      have hlag := hto label pos (Std.ExtTreeMap.mem_toList_iff_getElem?_eq_some.mp hentry)
      simp only [lag_eq h]
      exact hlag

end Partition

/-! ## Runs -/

theorem mem_exclusiveMatching {log : List Message} {P : Pattern} {m : Message} :
    m ∈ exclusiveMatching log P ↔ m ∈ log ∧ m.broadcast = false ∧
    P.matchesTopic m.topic = true := by
  simp [exclusiveMatching]

theorem position_exclusive {p : Partition} {P : Pattern} (label : String) {m : Message}
    (h : m.broadcast = false) :
    p.mailbox.position scheme P label m = p.cursors.exclusivePosition P.asStr := by
  rw [Mailbox.position, if_neg (by simp [scheme, h])]
  rfl

theorem position_broadcast {p : Partition} (P : Pattern) {label : String} {m : Message}
    (h : m.broadcast = true) :
    p.mailbox.position scheme P label m = p.cursors.broadcastPosition label := by
  rw [Mailbox.position, if_pos (by simp [scheme, h])]
  rfl

/-- In a run the lag is exact if and only if every position passed only what was delivered at it. -/
theorem lagExact_iff_settled (hF : F.Faithful)
    (h : Exec (runs F stateDir name Call.isPublishOrDeliver) es w) :
    w.partition.LagExact es ↔
      Mailbox.ClaimsSettled scheme (es.map Event.mail) w.partition.mailbox ∧
      Mailbox.SharedSettled scheme (es.map Event.mail) w.partition.mailbox := by
  obtain ⟨-, hx⟩ := simulates hF h
  have hsorted := (Mailbox.wellPosted_of_exec hx).sorted
  have hpassed := Mailbox.passed_of_delivery hx
  rw [Partition.lagExact_iff (hsorted.imp fun hlt => le_of_lt hlt)]
  refine and_congr ?_ ?_
  · have hline := fun P : Pattern => Partition.length_beyond_eq_iff
      (exclusiveMatching w.partition.log.messages P) (w.partition.cursors.exclusivePosition P.asStr)
      (fun m => decide (m ∈ returnedUnder P.asStr es)) fun m hm hret => by
        obtain ⟨d, hd, hdp, rfl⟩ := mem_returnedUnder.mp (of_decide_eq_true hret)
        have hpos := hpassed d hd
        rw [position_exclusive d.label (mem_exclusiveMatching.mp hm).2.1, hdp] at hpos
        exact hpos
    refine (forall_congr' hline).trans ⟨fun hdelivered P label m hm hc hb => ?_,
      fun hsettled P m hm hb => ?_⟩
    · rw [position_exclusive label hc.1] at hb
      have hret := hdelivered P m (mem_exclusiveMatching.mpr ⟨hm, hc⟩) hb
      obtain ⟨d, hd, hdp, hdm⟩ := mem_returnedUnder.mp (of_decide_eq_true hret)
      exact ⟨d, hd, Pattern.ext_raw hdp, hdm⟩
    · obtain ⟨hlog, hc⟩ := mem_exclusiveMatching.mp hm
      rw [← position_exclusive "" hc.1] at hb
      obtain ⟨d, hd, hdp, hdm⟩ := hsettled P "" m hlog hc hb
      exact decide_eq_true (mem_returnedUnder.mpr ⟨d, hd, congrArg Pattern.asStr hdp, hdm⟩)
  · have hline := fun label : String => Partition.length_beyond_eq_iff
      (w.partition.log.messages.filter fun m => m.broadcast)
        (w.partition.cursors.broadcastPosition label)
      (fun m => decide (m ∈ returnedTo label es)) fun m hm hret => by
        obtain ⟨d, hd, hdl, rfl⟩ := mem_returnedTo.mp (of_decide_eq_true hret)
        have hpos := hpassed d hd
        rw [position_broadcast d.pattern (List.mem_filter.mp hm).2, hdl] at hpos
        exact hpos
    refine (forall_congr' hline).trans ⟨fun hdelivered P label m hm hc hb => ?_,
      fun hsettled label m hm hb => ?_⟩
    · rw [position_broadcast P hc] at hb
      have hret := hdelivered label m (List.mem_filter.mpr ⟨hm, hc⟩) hb
      exact mem_returnedTo.mp (of_decide_eq_true hret)
    · obtain ⟨hlog, hc⟩ := List.mem_filter.mp hm
      rw [← position_broadcast anyPattern hc] at hb
      exact decide_eq_true (mem_returnedTo.mpr (hsettled anyPattern label m hlog hc hb))

theorem mail_of_deliver {pattern : Pattern} {label : String} {limit : UInt64} {e : Event}
    (hcall : e.call = .deliver pattern label limit)
    (hstep : w.call F stateDir noFaults e.call = (.ok e.reply, w')) :
    ∃ batch, e.mail = .handOut pattern label limit.toNat batch := by
  obtain ⟨call, reply⟩ := e
  obtain rfl : call = _ := hcall
  obtain ⟨ms, -, rfl⟩ := deliver_of_call hstep
  exact ⟨ms, rfl⟩

/-- A delivery that passes something undelivered leaves the lag inexact. -/
theorem not_lagExact_of_passes (hF : F.Faithful)
    (h : Exec (runs F stateDir name Call.isPublishOrDeliver) es w) {e : Event}
    (hstep : (runs F stateDir name Call.isPublishOrDeliver).step es w e w')
    (hpasses : PassesUndelivered w e.call) : ¬ w'.partition.LagExact (es ++ [e]) := by
  rw [lagExact_iff_settled hF (h.step hstep), List.map_append, List.map_singleton]
  obtain ⟨hsync, hx⟩ := simulates hF h
  obtain ⟨hallowed, hpost, hcall⟩ := hstep
  obtain ⟨-, hen, happ⟩ := simulates_step hF hsync
    (Mailbox.wellPosted_of_exec hx).sorted hpost hcall
  obtain ⟨P, label, limit, hdeliver⟩ : ∃ P label limit, e.call = .deliver P label limit := by
    cases hc : e.call with
    | deliver P label limit => exact ⟨P, label, limit, rfl⟩
    | publish | history | prune | reopen =>
      rw [hc] at hpasses
      exact absurd hpasses (by simp [PassesUndelivered, PassesSuppressed, PassesBroadcast])
  obtain ⟨batch, hmail⟩ := mail_of_deliver hdeliver hcall
  rw [hmail] at hen happ ⊢
  rw [hdeliver] at hpasses
  obtain rfl : batch = _ := hen
  rw [happ]
  rintro ⟨hclaims, hshared⟩
  rcases hpasses with hhide | hhide
  · exact Mailbox.not_claimsSettled_of_hides hx hhide hclaims
  · exact Mailbox.not_sharedSettled_of_hides hx hhide hshared

/-- No later publish or delivery makes up for it. -/
theorem not_lagExact_step (hF : F.Faithful)
    (h : Exec (runs F stateDir name Call.isPublishOrDeliver) es w) {e : Event}
    (hstep : (runs F stateDir name Call.isPublishOrDeliver).step es w e w')
    (hn : ¬ w.partition.LagExact es) : ¬ w'.partition.LagExact (es ++ [e]) := by
  rw [lagExact_iff_settled hF (h.step hstep), List.map_append, List.map_singleton]
  rw [lagExact_iff_settled hF h] at hn
  obtain ⟨hsync, hx⟩ := simulates hF h
  obtain ⟨hallowed, hpost, hcall⟩ := hstep
  obtain ⟨-, hen, happ⟩ := simulates_step hF hsync
    (Mailbox.wellPosted_of_exec hx).sorted hpost hcall
  have hexp : ∀ keep, e.mail ≠ .expire keep := by
    obtain ⟨call, reply⟩ := e
    intro keep heq
    cases call with
    | publish | deliver => cases reply <;> cases heq
    | history | prune | reopen => exact hallowed
  rw [happ]
  rintro ⟨hclaims, hshared⟩
  refine hn ⟨?_, ?_⟩
  · by_contra hc
    exact Mailbox.not_settled_step Mailbox.claims_madeAtPosition hen hexp hc hclaims
  · by_contra hs
    exact Mailbox.not_settled_step Mailbox.shared_madeAtPosition hen hexp hs hshared

/-- **In every run of publishes and deliveries the lag is exact if and only if no delivery moved a
position across a message that was not delivered at it.** -/
theorem lag_exact_iff (hF : F.Faithful)
    (h : Exec (runs F stateDir name Call.isPublishOrDeliver) es w) :
    w.partition.LagExact es ↔ Exec ((runs F stateDir name Call.isPublishOrDeliver).restrict
      fun w e => ¬ PassesUndelivered w e.call) es w := by
  constructor
  · intro hexact
    refine (h.restrict_or (B := fun es w => ¬ w.partition.LagExact es)
      (fun es w e w' hx hstep hpasses => ?_) fun es w e w' hx hn hstep => ?_).resolve_right
      (not_not_intro hexact)
    · exact not_lagExact_of_passes hF hx hstep (not_not.mp hpasses)
    · exact not_lagExact_step hF hx hstep hn
  · intro hr
    refine (lagExact_iff_settled hF h).mpr ⟨?_, ?_⟩
    · exact Mailbox.claims_settled_pattern (noHiddenClaim_of_run hF
        (hr.restrict_mono fun w e hno hhide => hno (.inl hhide)))
    · exact Mailbox.shared_settled (noHiddenShared_of_run hF
        (hr.restrict_mono fun w e hno hhide => hno (.inr hhide)))

/-- Alice has read two of three messages, one of them a broadcast. -/
theorem lag_exact_of_alice : ∃ es w,
    Exec (runs .reference "/state" sampleName Call.isPublishOrDeliver) es w ∧
    es.map Event.call = [.publish (sampleMessage 1 devTopic),
      .publish (sampleMessage 2 devTopic).asBroadcast, .publish (sampleMessage 3 devTopic),
      .deliver devPattern "alice" 2] ∧
    w.partition.LagExact es := by
  obtain ⟨es, w, hx, hcalls, -⟩ := exec_of_sampleRun Call.isPublishOrDeliver
    (fun w call => decide (¬ PassesUndelivered w call))
    [.publish (sampleMessage 1 devTopic), .publish (sampleMessage 2 devTopic).asBroadcast,
      .publish (sampleMessage 3 devTopic), .deliver devPattern "alice" 2] (fun _ _ => true)
    (by decide) (by simp [Call.isPublishOrDeliver]) (by decide)
  have hr := hx.restrict_mono fun w e h => of_decide_eq_true h
  exact ⟨es, w, hx.of_restrict, hcalls,
    (lag_exact_iff Formats.reference_faithful hx.of_restrict).mpr hr⟩

/-- Alice reads her own pattern and then the wildcard, whose line shows nothing outstanding although
the wildcard never returned the first message. -/
theorem lag_hides_suppressed : ∃ es w,
    Exec (runs .reference "/state" sampleName Call.isPublishOrDeliver) es w ∧
    es.map Event.call = [.publish (sampleMessage 1 devTopic), .deliver devPattern "alice" usizeMax,
      .publish (sampleMessage 2 devTopic), .deliver anyPattern "alice" usizeMax] ∧
    ¬ w.partition.LagExact es := by
  obtain ⟨es, w, hx, hcalls, hobs⟩ := exec_of_sampleRun Call.isPublishOrDeliver (fun _ _ => true)
    [.publish (sampleMessage 1 devTopic), .deliver devPattern "alice" usizeMax,
      .publish (sampleMessage 2 devTopic), .deliver anyPattern "alice" usizeMax]
    (fun es w => decide (∃ r ∈ w.partition.patternSnapshots, r.broadcast = false ∧
      anyPattern.asStr = r.key ∧ r.lag = 0 ∧
      (outstandingUnder anyPattern es w.partition.log.messages).length = 1))
    (by decide) (by simp [Call.isPublishOrDeliver]) (by decide)
  obtain ⟨r, hr, hkind, hkey, hlag, hout⟩ := of_decide_eq_true hobs
  refine ⟨es, w, hx.of_restrict, hcalls, fun hexact => ?_⟩
  have hline := (hexact r hr).1 hkind anyPattern hkey
  omega

end AgentBus
