import AgentBus.Daemon.Receipts
import AgentBus.Guarantees.Custody
import AgentBus.Guarantees.Sessions

/-!
# Clients receive every message once

A connection writes at most what it has been handed, and in that order. So what
holds of all that is handed out holds of what the clients see, whichever
connection of whichever process they read from.
-/

namespace AgentBus

open Lib

variable {F : Formats} {threshold : Nat} {stateDir : Path}

/-! ## One connection -/

/-- A parked client is one that asked for it. -/
def Parked.Asked (q : Option Request) (p : Parked) : Prop :=
  match p.kind with
  | .wait => q.bind Request.reader = some (p.pattern, p.label)
  | .follow => q.bind Request.follower = some (p.pattern, p.label)

/-- What a connection knows of the request that it answers. -/
def Connection.Knows (q : Option Request) : Connection → Prop
  | accepted p => p.Asked q
  | entered p => p.Asked q
  | checking p _ => p.Asked q
  | blocked p _ => p.Asked q
  | delivered p _ _ => p.kind = .follow ∧ p.Asked q
  | streaming p _ _ => p.kind = .follow ∧ p.Asked q
  | _ => True

theorem Parked.Serving.asked {p : Parked} {q : Request} {r : Readings} {rest : List Frame}
    (h : p.Serving (.request q r :: rest)) : p.Asked (some q) := by
  cases h with
  | wait hparsed => simp [Parked.Asked, Request.reader, hparsed, Except.toOption]
  | follow hparsed _ => simp [Parked.Asked, Request.follower, hparsed, Except.toOption]

/-- A request that `dispatch` leaves to the connection is parked for who asked. -/
theorem knows_of_dispatch {sh : Shared} {faults : Faults} {q : Request} {r : Readings}
    {d : Dispatch} {b : Bus} (h : sh.bus.dispatch F faults (sh.readings r) q = (d, b))
    (socket : Path) : (Connection.handle socket d).Knows (some q) := by
  have hsaid : (Connection.handle socket d).Said socket [.request q r] := said_of_dispatch h
  cases d with
  | reply response => trivial
  | shutdown => trivial
  | waitPending partition pattern label timeoutSecs =>
    cases hsaid with
    | accepted hserving => exact hserving.asked
  | followPending partition pattern label =>
    cases hsaid with
    | accepted hserving => exact hserving.asked

/-- What the answer brings is what was owed. -/
theorem brings_answer (q : Option Request) (a : Answer) (ends : Option TaskKind) :
    (Frame.answer a).brings q = Connection.owes q (.answering a ends) := by
  cases a with
  | response response => cases response <;> rfl
  | malformed => rfl
  | followFailed _ => rfl

theorem owes_leaving (q : Option Request) (kind : TaskKind) (a : Answer) (ends : Option TaskKind) :
    Connection.owes q (.leaving kind a) = Connection.owes q (.answering a ends) := by
  cases a with
  | response response => cases response <;> rfl
  | malformed => rfl
  | followFailed _ => rfl

theorem knows_fail (q : Option Request) (p : Parked) (e : BusError) :
    (p.fail e).Knows q ∧ Connection.owes q (p.fail e) = [] := by
  unfold Parked.fail
  split <;> exact ⟨trivial, rfl⟩

theorem owes_afterAnswer (q : Option Request) (ends : Option TaskKind) :
    (Connection.afterAnswer ends).Knows q ∧ Connection.owes q (.afterAnswer ends) = [] := by
  unfold Connection.afterAnswer
  split <;> exact ⟨trivial, rfl⟩

/-- **A connection writes what it owes**, and then owes what it is handed. -/
theorem owes_of_step {sh sh' : Shared} {c c' : Connection} {e : ConnectionEvent}
    (h : c.Step F sh e sh' c') {q : Option Request} (hq : c.Knows q) :
    c'.Knows (servingAfter q (c.frames e)) ∧
      (received q (c.frames e) ++ c'.owes (servingAfter q (c.frames e))).Sublist
        (c.owes q ++ c.handed e c') := by
  cases h with
  | hangUp => exact ⟨trivial, List.Sublist.refl _⟩
  | malformed => exact ⟨trivial, List.Sublist.refl _⟩
  | @request q' faults r d b hdispatch =>
    refine ⟨knows_of_dispatch hdispatch _, ?_⟩
    cases d with
    | reply response => cases response <;> exact List.Sublist.refl _
    | _ => exact List.nil_sublist _
  | @answered a ends =>
    obtain ⟨hknows, howes⟩ := owes_afterAnswer q ends
    refine ⟨hknows, ?_⟩
    show ((Frame.answer a).brings q ++ [] ++ Connection.owes q (.afterAnswer ends)).Sublist
      (Connection.owes q (.answering a ends) ++ [])
    rw [howes, brings_answer q a ends]
    simp only [List.append_nil, List.Sublist.refl]
  | unanswered => exact ⟨trivial, List.nil_sublist _⟩
  | stopAnswered => exact ⟨trivial, List.Sublist.refl _⟩
  | stopUnanswered => exact ⟨trivial, List.Sublist.refl _⟩
  | signal => exact ⟨trivial, List.Sublist.refl _⟩
  | enter => exact ⟨hq, List.Sublist.refl _⟩
  | @subscribe p fault now _ _ hsub =>
    cases Parked.subscribed_of_subscribe hsub with
    | unnamed | unopened _ _ =>
      obtain ⟨hknows, howes⟩ := knows_fail q p _
      refine ⟨hknows, ?_⟩
      show ([] ++ Connection.owes q (p.fail _)).Sublist _
      rw [howes]
      exact List.nil_sublist _
    | subscribed _ _ => exact ⟨hq, List.nil_sublist _⟩
  | @check p place faults _ _ hcheck =>
    cases Parked.checked_of_check hcheck with
    | unopened _ | broken _ _ _ =>
      obtain ⟨hknows, howes⟩ := knows_fail q p _
      refine ⟨hknows, ?_⟩
      show ([] ++ Connection.owes q (p.fail _)).Sublist _
      rw [howes]
      exact List.nil_sublist _
    | missed _ _ _ | idle _ _ => exact ⟨hq, List.nil_sublist _⟩
    | waited hkind _ _ =>
      refine ⟨trivial, ?_⟩
      have hreader : q.bind Request.reader = some (p.pattern, p.label) := by
        simpa [Connection.Knows, Parked.Asked, hkind] using hq
      show (addressed (q.bind Request.reader) _).Sublist _
      rw [hreader]
      exact List.Sublist.refl _
    | followed hkind _ _ => exact ⟨⟨hkind, hq⟩, List.Sublist.refl _⟩
  | record => exact ⟨hq, List.sublist_append_left _ []⟩
  | @streamed p place batch =>
    obtain ⟨hkind, hasked⟩ := hq
    have hfollower : q.bind Request.follower = some (p.pattern, p.label) := by
      simpa [Parked.Asked, hkind] using hasked
    refine ⟨hasked, ?_⟩
    show (addressed (q.bind Request.follower) batch ++ [] ++ []).Sublist
      (handings p.pattern p.label batch ++ [])
    rw [hfollower, List.append_nil]
    exact List.Sublist.refl _
  | unstreamed => exact ⟨trivial, List.nil_sublist _⟩
  | wake => exact ⟨hq, List.Sublist.refl _⟩
  | elapse => exact ⟨trivial, List.Sublist.refl _⟩
  | @leave kind a =>
    refine ⟨trivial, ?_⟩
    show (Connection.owes q (.answering a (some kind))).Sublist
      (Connection.owes q (.leaving kind a) ++ [])
    rw [owes_leaving q kind a (some kind), List.append_nil]

/-! ## All connections -/

/-- Where connection `i` of the present process is. -/
structure Connection.Served (conn : Connection) (fs : List Frame) (ds : List Handing) : Prop where
  knows : conn.Knows (servingAfter none fs)
  written : (received none fs ++ conn.owes (servingAfter none fs)).Sublist ds

/-- What the clients have received, and what they will. -/
structure Journal.Served (t : Journal) (s : Service) : Prop where
  /-- Processes that are to come have no clients. -/
  frames : ∀ p ∈ t.frames, p.1.process ≤ t.process
  handed : ∀ p ∈ t.handed, p.1.process ≤ t.process
  received : ∀ c : Client, (AgentBus.received none (c.part t.frames)).Sublist (c.part t.handed)
  connections : ∀ (i : Nat) (conn : Connection), s.connections[i]? = some conn →
    conn.Served (Client.part ⟨t.process, i⟩ t.frames) (Client.part ⟨t.process, i⟩ t.handed)
  unused : ∀ i : Nat, s.connections[i]? = none →
    Client.part ⟨t.process, i⟩ t.frames = [] ∧ Client.part ⟨t.process, i⟩ t.handed = []

theorem Connection.Served.received {conn : Connection} {fs : List Frame} {ds : List Handing}
    (h : conn.Served fs ds) : (AgentBus.received none fs).Sublist ds :=
  (List.sublist_append_left ..).trans h.written

theorem Connection.Served.step {sh sh' : Shared} {conn conn' : Connection} {e : ConnectionEvent}
    {fs : List Frame} {ds : List Handing} (h : conn.Served fs ds)
    (hstep : conn.Step F sh e sh' conn') :
    conn'.Served (fs ++ conn.frames e) (ds ++ conn.handed e conn') := by
  obtain ⟨hknows, howes⟩ := owes_of_step hstep h.knows
  refine ⟨by rwa [servingAfter_append], ?_⟩
  rw [servingAfter_append, received_append, List.append_assoc]
  refine (howes.append_left _).trans ?_
  rw [← List.append_assoc]
  exact h.written.append_right _

theorem journal_nil (s : Service) (h : s.connections = ∅) : (journal []).Served s where
  frames := List.forall_mem_nil _
  handed := List.forall_mem_nil _
  received _ := List.Sublist.refl _
  connections i conn hconn := by
    rw [h, Std.ExtTreeMap.getElem?_empty] at hconn
    cases hconn
  unused _ _ := ⟨rfl, rfl⟩

theorem Journal.Served.restart {t : Journal} {s s' : Service} (h : t.Served s)
    (hs' : s'.connections = ∅) : ({ t with process := t.process + 1 } : Journal).Served s' where
  frames p hp := (h.frames p hp).trans (Nat.le_succ _)
  handed p hp := (h.handed p hp).trans (Nat.le_succ _)
  received := h.received
  connections i conn hconn := by
    rw [hs', Std.ExtTreeMap.getElem?_empty] at hconn
    cases hconn
  unused i _ := by
    have hnone : ∀ {α : Type} (l : List (Client × α)), (∀ p ∈ l, p.1.process ≤ t.process) →
        Client.part ⟨t.process + 1, i⟩ l = [] := by
      intro α l hl
      refine List.eq_nil_iff_forall_not_mem.mpr fun a ha => ?_
      have hle : t.process + 1 ≤ t.process := hl _ (Client.mem_part.mp ha)
      omega
    exact ⟨hnone _ h.frames, hnone _ h.handed⟩

theorem Journal.Served.accept {t : Journal} {s s' : Service} (h : t.Served s) {i : Nat}
    (hfree : s.connections[i]? = none) (hs' : s'.connections = s.connections.insert i .reading) :
    t.Served s' where
  frames := h.frames
  handed := h.handed
  received := h.received
  connections j conn hconn := by
    rw [hs', Std.ExtTreeMap.getElem?_insert] at hconn
    split at hconn
    · next heq =>
      obtain rfl : i = j := by simpa using heq
      obtain rfl := Option.some.inj hconn
      obtain ⟨hframes, hhanded⟩ := h.unused i hfree
      rw [hframes, hhanded]
      exact ⟨trivial, List.Sublist.refl _⟩
    · exact h.connections j conn hconn
  unused j hnone := by
    rw [hs', Std.ExtTreeMap.getElem?_insert] at hnone
    split at hnone
    · cases hnone
    · exact h.unused j hnone

theorem Journal.Served.connection {t : Journal} {s s' : Service} (h : t.Served s)
    {i : Nat} {sh : Shared} {conn conn' : Connection} {e : ConnectionEvent}
    (hconn : s.connections[i]? = some conn) (hstep : conn.Step F s.shared e sh conn')
    (hs' : s'.connections = s.connections.insert i conn') :
    ({ t with
      frames := t.frames ++ (conn.frames e).map (⟨t.process, i⟩, ·)
      handed := t.handed ++ (conn.handed e conn').map (⟨t.process, i⟩, ·) } :
      Journal).Served s' := by
  have hserved := (h.connections i conn hconn).step hstep
  -- the other clients see nothing of it
  have hother : ∀ {α : Type} {c : Client} (l : List (Client × α)) (l' : List α),
      (⟨t.process, i⟩ : Client) ≠ c → c.part (l ++ l'.map (⟨t.process, i⟩, ·)) = c.part l := by
    intro α c l l' hne
    rw [Client.part_append, Client.part_map_ne hne, List.append_nil]
  refine ⟨?_, ?_, fun c => ?_, fun j conn'' hconn'' => ?_, fun j hnone => ?_⟩
  · intro p hp
    rcases List.mem_append.mp hp with hp | hp
    · exact h.frames p hp
    · obtain ⟨f, -, rfl⟩ := List.mem_map.mp hp
      exact Nat.le_refl _
  · intro p hp
    rcases List.mem_append.mp hp with hp | hp
    · exact h.handed p hp
    · obtain ⟨d, -, rfl⟩ := List.mem_map.mp hp
      exact Nat.le_refl _
  · by_cases hc : (⟨t.process, i⟩ : Client) = c
    · subst hc
      simpa using hserved.received
    · simp only [hother _ _ hc]
      exact h.received c
  · rw [hs', Std.ExtTreeMap.getElem?_insert] at hconn''
    split at hconn''
    · next heq =>
      obtain rfl : i = j := by simpa using heq
      obtain rfl := Option.some.inj hconn''
      simpa using hserved
    · next hne =>
      have hc : (⟨t.process, i⟩ : Client) ≠ ⟨t.process, j⟩ := by simpa using hne
      simp only [hother _ _ hc]
      exact h.connections j conn'' hconn''
  · rw [hs', Std.ExtTreeMap.getElem?_insert] at hnone
    split at hnone
    · cases hnone
    · next hne =>
      have hc : (⟨t.process, i⟩ : Client) ≠ ⟨t.process, j⟩ := by simpa using hne
      simp only [hother _ _ hc]
      exact h.unused j hnone

/-- **The clients receive what they are handed, and in that order.** -/
theorem served_of_exec {xs : List Sighting} {s : Service}
    (h : Exec (clients F threshold stateDir) xs s) : (journal xs).Served s := by
  refine h.invariant (I := fun xs s => (journal xs).Served s) ?_ ?_
  · rintro s ⟨instant, disk, -, rfl⟩
    exact journal_nil _ rfl
  · rintro xs s ⟨⟨e, handed⟩, frames⟩ s' - ih ⟨⟨-, hnext, hhanded⟩, hframes⟩
    obtain rfl : handed = e.handed s s' := hhanded
    obtain rfl : frames = e.frames s := hframes
    rw [journal_concat]
    cases e with
    | restart instant =>
      obtain rfl := Option.some.inj hnext
      exact ih.restart rfl
    | step e =>
      cases Service.step_of_next hnext with
      | accept hfree => exact ih.accept hfree rfl
      | @connection i conn conn' e sh hconn hstep =>
        have hframes : (SuccessionEvent.step (.connection i e)).frames s = conn.frames e := by
          rw [SuccessionEvent.frames, hconn, Option.elim_some]
        have hhanded : (SuccessionEvent.step (.connection i e)).handed s
            { s with shared := sh, connections := s.connections.insert i conn' } =
              conn.handed e conn' := by
          simp only [SuccessionEvent.handed, Service.handed, hconn,
            Std.ExtTreeMap.getElem?_insert_self]
        rw [hframes, hhanded]
        exact Journal.Served.connection ih hconn hstep rfl
      | sweep _ => exact ⟨ih.frames, ih.handed, ih.received, ih.connections, ih.unused⟩

theorem handed_journal {xs : List Sighting} {s : Service}
    (h : Exec (clients F threshold stateDir) xs s) :
    (journal xs).handed.map Prod.snd = handedOut (xs.map Prod.fst) := by
  refine h.invariant (I := fun xs _ => (journal xs).handed.map Prod.snd =
    handedOut (xs.map Prod.fst)) ?_ ?_
  · rintro s -
    rfl
  · rintro xs s ⟨⟨e, handed⟩, frames⟩ s' - ih ⟨⟨-, -, hhanded⟩, -⟩
    obtain rfl : handed = e.handed s s' := hhanded
    rw [journal_concat, List.map_append, List.map_singleton, handedOut_concat, ← ih]
    cases e with
    | restart instant => exact (List.append_nil _).symm
    | step e =>
      cases e with
      | accept i => exact (List.append_nil _).symm
      | sweep e => exact (List.append_nil _).symm
      | connection i e =>
        simp only [Journal.add, List.map_append, List.map_map]
        exact congrArg _ (List.map_id _)

/-- Neither of two hand-outs repeats the other. -/
def Apart (d d' : Handing) : Prop :=
  d.message.id = d'.message.id →
    d.label ≠ d'.label ∧ (d.pattern = d'.pattern → d.message.broadcast = true ∨
      d'.message.broadcast = true)

theorem Apart.symm {d d' : Handing} (h : Apart d d') : Apart d' d := by
  intro hid
  obtain ⟨hlabel, hpattern⟩ := h hid.symm
  exact ⟨hlabel.symm, fun heq => (hpattern heq.symm).symm⟩

/-- **No client sees a message twice, and none sees one that another saw**: whatever fails, whoever
dies and wherever a connection is cut off, what a client receives was posted and asked for, it is
distinct for a label and in order, and what two clients receive under one label, or of exclusive
messages under one pattern, is disjoint. -/
theorem clients_read_once (hF : F.Faithful) (hT : F.RejectsTorn) {xs : List Sighting} {s : Service}
    (h : Exec (clients F threshold stateDir) xs s) :
    (∀ c : Client, ∀ d ∈ c.received xs,
      d.message ∈ requested (xs.map Prod.fst) ∧ d.pattern.matchesTopic d.message.topic = true) ∧
    (∀ c : Client, (c.received xs).Pairwise fun d d' =>
      (d.label = d'.label → d.message.id ≠ d'.message.id) ∧
      (d.pattern = d'.pattern → d.message.broadcast = false → d'.message.broadcast = false →
        d.message.id < d'.message.id) ∧
      (d.label = d'.label → d.message.topic.partition = d'.message.topic.partition →
        d.message.broadcast = true → d'.message.broadcast = true → d.message.id < d'.message.id)) ∧
    ∀ c c' : Client, c ≠ c' → ∀ d ∈ c.received xs, ∀ d' ∈ c'.received xs, d.message.id =
      d'.message.id → d.label ≠ d'.label ∧ (d.pattern = d'.pattern → d.message.broadcast = true ∨
        d'.message.broadcast = true) := by
  have hserved := served_of_exec h
  have hall := accounted_of_exec hF hT h.of_watched
  have horder := hall.inOrder
  rw [← handed_journal h, List.pairwise_map] at horder
  refine ⟨fun c d hd => ?_, fun c => ?_, fun c c' hne d hd d' hd' hid => ?_⟩
  · have hmem := Client.mem_part.mp ((hserved.received c).subset hd)
    refine hall.authentic d ?_
    rw [← handed_journal h]
    exact List.mem_map_of_mem hmem
  · have hpart := (horder.filter fun p => p.1 = c)
    exact (List.pairwise_map.mpr hpart).sublist (hserved.received c)
  · have hmem := Client.mem_part.mp ((hserved.received c).subset hd)
    have hmem' := Client.mem_part.mp ((hserved.received c').subset hd')
    have hapart : (journal xs).handed.Pairwise fun p p' => Apart p.2 p'.2 := by
      refine horder.imp fun {p p'} hp heq => ⟨fun hlabel => hp.1 hlabel heq, fun hpattern => ?_⟩
      by_contra hexclusive
      simp only [not_or, Bool.not_eq_true] at hexclusive
      exact absurd heq (ne_of_lt (hp.2.1 hpattern hexclusive.1 hexclusive.2))
    have : Std.Symm fun p p' : Client × Handing => Apart p.2 p'.2 := ⟨fun _ _ happ => happ.symm⟩
    exact hapart.forall hmem hmem' (fun heq => hne (congrArg Prod.fst heq)) hid

/-- A message that is read after a crash, and another one. -/
theorem clients_read_once_sample : ∃ xs s, Exec (clients .reference 5400 "/state") xs s ∧
    (xs.map Prod.fst).map Observed.event = sampleSuccession ∧
    ∀ c c' : Client, c ≠ c' → ∀ d ∈ c.received xs, ∀ d' ∈ c'.received xs, d.message.id =
      d'.message.id → d.label ≠ d'.label ∧ (d.pattern = d'.pattern → d.message.broadcast = true ∨
        d'.message.broadcast = true) := by
  obtain ⟨es, o, s, hx, hevents, -, -⟩ := exec_sampleSuccession
  obtain ⟨xs, hxs, heq⟩ := Exec.exists_watched (fun s o _ => o.event.frames s) hx
  exact ⟨xs, s, hxs, by rw [heq, hevents],
    (clients_read_once Formats.reference_faithful Formats.reference_rejectsTorn hxs).2.2⟩

end AgentBus
