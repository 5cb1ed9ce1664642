import AgentBus.Lib.Mailbox
import AgentBus.Lib.Runs

/-!
# Runs of a mailbox

Posts, hand-outs and expiries in any order, with keys growing from post to
post. `deliveries` lists what was handed out, to whom and under what.

`Recorded` says that the records of a mailbox never forget a delivery that
still matters; so nothing is handed out twice to a label (`nodup_label`), and
nothing unshared twice under a pattern (`nodup_pattern`).
-/

namespace AgentBus.Lib

variable {α ι π κ : Type*}

inductive Mail (α π κ : Type*) where
  | post (m : α)
  | handOut (p : π) (l : κ) (limit : ℕ) (batch : List α)
  | expire (keep : α → Bool)
  | idle

structure Delivery (α π κ : Type*) where
  pattern : π
  label : κ
  message : α

namespace Mail

@[simp] def posts : Mail α π κ → List α
  | post m => [m]
  | _ => []

@[simp] def delivers : Mail α π κ → List (Delivery α π κ)
  | handOut p l _ batch => batch.map (⟨p, l, ·⟩)
  | _ => []

def posted (es : List (Mail α π κ)) : List α := es.flatMap posts

def deliveries (es : List (Mail α π κ)) : List (Delivery α π κ) := es.flatMap delivers

@[simp] theorem posted_concat (es : List (Mail α π κ)) (e : Mail α π κ) :
    posted (es ++ [e]) = posted es ++ e.posts := by
  simp [posted]

@[simp] theorem deliveries_concat (es : List (Mail α π κ)) (e : Mail α π κ) :
    deliveries (es ++ [e]) = deliveries es ++ e.delivers := by
  simp [deliveries]

end Mail

namespace Mailbox

open Mail

variable [LinearOrder ι] [DecidableEq π] [DecidableEq κ] (S : Scheme α ι π)

/-- The effect of an event. -/
def apply (s : Mailbox α ι π κ) : Mail α π κ → Mailbox α ι π κ
  | .post m => s.post m
  | .handOut p l _ batch => s.handOut S p l batch
  | .expire keep => s.expire S keep
  | .idle => s

/-- When an event can happen: a post needs a key above all posted ones, a hand-out takes the
first unread messages. -/
def Enabled (es : List (Mail α π κ)) (s : Mailbox α ι π κ) : Mail α π κ → Prop
  | .post m => ∀ m' ∈ posted es, S.key m' < S.key m
  | .handOut p l limit batch => batch = (s.unread S p l).take limit
  | _ => True

def system : System (Mailbox α ι π κ) (Mail α π κ) where
  init s := s = empty
  step es s e s' := s.Enabled S es e ∧ s' = s.apply S e

/-! ## The log -/

/-- Keys increase from post to post, and the log holds posted messages in order. -/
structure WellPosted (es : List (Mail α π κ)) (s : Mailbox α ι π κ) : Prop where
  increasing : (posted es).Pairwise fun a b => S.key a < S.key b
  sublist : s.log.Sublist (posted es)

variable {S} {es : List (Mail α π κ)} {s : Mailbox α ι π κ}

omit [DecidableEq π] [DecidableEq κ] in
theorem WellPosted.sorted (h : WellPosted S es s) : s.Sorted S := h.increasing.sublist h.sublist

theorem wellPosted_of_exec (h : Exec (system S) es s) : WellPosted S es s := by
  refine h.invariant (fun s hs => ?_) fun es s e s' _ ih hstep => ?_
  · rw [show s = empty from hs]
    exact ⟨.nil, .slnil⟩
  · obtain ⟨hen, rfl⟩ := hstep
    cases e with
    | post m =>
      constructor
      · rw [posted_concat, List.pairwise_append]
        refine ⟨ih.increasing, List.pairwise_singleton .., fun a ha b hb => ?_⟩
        rw [List.mem_singleton.mp hb]
        exact hen a ha
      · rw [posted_concat]
        exact ih.sublist.append (.refl _)
    | expire keep =>
      constructor
      · simpa using ih.increasing
      · simpa [apply] using List.filter_sublist.trans ih.sublist
    | handOut p l limit batch | idle =>
      constructor
      · simpa using ih.increasing
      · simpa [apply] using ih.sublist

/-! ## What the records say -/

/-- The positions and the seen keys record every delivery, for as long as it matters. -/
structure Recorded (S : Scheme α ι π) (es : List (Mail α π κ)) (s : Mailbox α ι π κ) : Prop where
  posted : ∀ d ∈ deliveries es, d.message ∈ posted es
  seen : ∀ d ∈ deliveries es, s.seen d.label (S.key d.message) = true ∨
    ∀ m ∈ s.log, S.key m ≠ S.key d.message
  claimed : ∀ d ∈ deliveries es, S.shared d.message = false →
    isBeyond (s.claimed d.pattern) (S.key d.message) = false
  /-- Nothing else is recorded as seen. -/
  delivered : ∀ l k, s.seen l k = true → ∃ d ∈ deliveries es, d.label = l ∧ S.key d.message = k

omit [DecidableEq π] [DecidableEq κ] in
theorem Recorded.post {m : α} (h : Recorded S es s)
    (hm : ∀ m' ∈ Mail.posted es, S.key m' < S.key m) : Recorded S (es ++ [.post m]) (s.post m) := by
  constructor
  · intro d hd
    rw [posted_concat]
    exact List.mem_append_left _ (h.posted d (by simpa using hd))
  · intro d hd
    have hd : d ∈ deliveries es := by simpa using hd
    rcases h.seen d hd with hs | hs
    · exact .inl hs
    · refine .inr fun m' hm' => ?_
      rcases List.mem_append.mp hm' with hm' | hm'
      · exact hs m' hm'
      · rw [List.mem_singleton.mp hm']
        exact (ne_of_lt (hm _ (h.posted d hd))).symm
  · intro d hd
    exact h.claimed d (by simpa using hd)
  · intro l k hk
    simpa using h.delivered l k hk

theorem Recorded.handOut {p : π} {l : κ} {limit : ℕ} {batch : List α} (h : Recorded S es s)
    (hw : WellPosted S es s) (hb : ∀ m ∈ batch, m ∈ s.log) :
    Recorded S (es ++ [.handOut p l limit batch]) (s.handOut S p l batch) := by
  have hsplit : ∀ d ∈ deliveries (es ++ [.handOut p l limit batch]),
      d ∈ deliveries es ∨ ∃ m ∈ batch, d = ⟨p, l, m⟩ := by
    intro d hd
    rw [deliveries_concat, List.mem_append] at hd
    rcases hd with hd | hd
    · exact .inl hd
    · obtain ⟨m, hm, rfl⟩ := List.mem_map.mp hd
      exact .inr ⟨m, hm, rfl⟩
  constructor
  · intro d hd
    rw [posted_concat]
    refine List.mem_append_left _ ?_
    rcases hsplit d hd with hd | ⟨m, hm, rfl⟩
    · exact h.posted d hd
    · exact hw.sublist.subset (hb m hm)
  · intro d hd
    rcases hsplit d hd with hd | ⟨m, hm, rfl⟩
    · exact (h.seen d hd).imp (fun hs => seen_handOut.mpr (.inl hs)) id
    · exact .inl (seen_handOut.mpr (.inr ⟨rfl, m, hm, rfl⟩))
  · intro d hd hns
    have hpos : ∀ t : Mailbox α ι π κ, t.position S d.pattern d.label d.message =
      t.claimed d.pattern :=
      fun t => by simp [position, hns]
    rw [← hpos, Bool.eq_false_iff]
    intro hbeyond
    obtain ⟨hold, hnew⟩ := isBeyond_position_handOut.mp hbeyond
    rcases hsplit d hd with hd | ⟨m, hm, rfl⟩
    · rw [hpos, h.claimed d hd hns] at hold
      cases hold
    · have := hnew (by simp [hns]) m hm rfl
      exact lt_irrefl _ this
  · intro l' k hk
    rw [deliveries_concat]
    rcases seen_handOut.mp hk with hk | ⟨rfl, m, hm, rfl⟩
    · obtain ⟨d, hd, hdl⟩ := h.delivered l' k hk
      exact ⟨d, List.mem_append_left _ hd, hdl⟩
    · exact ⟨⟨p, l', m⟩, List.mem_append_right _ (List.mem_map.mpr ⟨m, hm, rfl⟩), rfl, rfl⟩

omit [DecidableEq π] [DecidableEq κ] in
theorem Recorded.expire {keep : α → Bool} (h : Recorded S es s) (hw : WellPosted S es s) :
    Recorded S (es ++ [.expire keep]) (s.expire S keep) := by
  have hle : s.log.Pairwise fun a b => S.key a ≤ S.key b := hw.sorted.imp fun h => le_of_lt h
  constructor
  · intro d hd
    simpa using h.posted d (by simpa using hd)
  · intro d hd
    rcases h.seen d (by simpa using hd) with hs | hs
    · cases h₀ : s.oldestSurvivor keep with
      | none => exact .inl (by simpa [Mailbox.expire, h₀] using hs)
      | some m₀ =>
        by_cases hk : S.key m₀ ≤ S.key d.message
        · exact .inl (by simp [Mailbox.expire, h₀, hs, hk])
        · refine .inr fun m hm heq => hk ?_
          rw [log_expire] at hm
          exact heq ▸ le_of_oldestSurvivor hle h₀ hm
    · refine .inr fun m hm => hs m ?_
      rw [log_expire] at hm
      exact List.mem_of_mem_filter hm
  · intro d hd hns
    have hold := h.claimed d (by simpa using hd) hns
    cases h₀ : s.oldestSurvivor keep with
    | none => simpa [Mailbox.expire, h₀] using hold
    | some m₀ => simp [Mailbox.expire, h₀, isBeyond_snap, hold]
  · intro l k hk
    have hold : s.seen l k = true := by
      cases h₀ : s.oldestSurvivor keep with
      | none => simpa [Mailbox.expire, h₀] using hk
      | some m₀ =>
        simp only [Mailbox.expire, h₀, Bool.and_eq_true] at hk
        exact hk.1
    simpa using h.delivered l k hold

omit [DecidableEq π] [DecidableEq κ] in
theorem enabled_batch {p : π} {l : κ} {limit : ℕ} {batch : List α}
    (h : s.Enabled S es (.handOut p l limit batch)) : batch.Sublist s.log ∧
      ∀ m ∈ batch, s.isUnread S p l m = true := by
  rw [show batch = _ from h]
  exact ⟨(List.take_sublist ..).trans List.filter_sublist,
    fun m hm => (mem_unread.mp (List.mem_of_mem_take hm)).2⟩

theorem recorded_of_exec (h : Exec (system S) es s) : Recorded S es s := by
  refine h.invariant (fun s hs => ?_) fun es s e s' hx ih hstep => ?_
  · rw [show s = empty from hs]
    constructor <;> simp [deliveries, empty]
  · obtain ⟨hen, rfl⟩ := hstep
    have hw := wellPosted_of_exec hx
    cases e with
    | post m => exact ih.post hen
    | handOut p l limit batch => exact ih.handOut hw fun m hm => (enabled_batch hen).1.subset hm
    | expire keep => exact ih.expire hw
    | idle =>
      constructor
      · simpa using ih.posted
      · simpa [apply] using ih.seen
      · simpa [apply] using ih.claimed
      · simpa [apply] using ih.delivered

/-- Every key that the position has passed is at most the key of one of these messages. -/
def Covers (S : Scheme α ι π) (ms : List α) (pos : Option ι) : Prop :=
  ∀ k, isBeyond pos k = false → ∃ x ∈ ms, k ≤ S.key x

omit [DecidableEq π] in
theorem Covers.mono {ms ms' : List α} {pos : Option ι} (h : Covers S ms pos) (hms : ms ⊆ ms') :
    Covers S ms' pos := by
  intro k hk
  obtain ⟨x, hx, hle⟩ := h k hk
  exact ⟨x, hms hx, hle⟩

omit [DecidableEq π] in
theorem Covers.pass {ms batch : List α} {pos : Option ι} (h : Covers S ms pos)
    (hbatch : ∀ m ∈ batch, m ∈ ms) : Covers S ms (pass S batch pos) := by
  intro k hk
  rw [isBeyond_pass, Bool.and_eq_false_iff] at hk
  rcases hk with hk | hk
  · exact h k hk
  · obtain ⟨x, hx, hle⟩ := List.all_eq_false.mp hk
    exact ⟨x, hbatch x hx, by simpa using hle⟩

omit [DecidableEq π] in
theorem Covers.snap {ms : List α} {pos : Option ι} {m : α} (h : Covers S ms pos) (hm : m ∈ ms) :
    Covers S ms (pos.map (snap (S.key m))) := by
  intro k hk
  rw [isBeyond_snap, Bool.and_eq_false_iff, Bool.or_eq_false_iff] at hk
  rcases hk with hk | ⟨-, hlt⟩
  · exact h k hk
  · exact ⟨m, hm, not_lt.mp (of_decide_eq_false hlt)⟩

theorem covers_apply {ms : List α} (hen : s.Enabled S es e) (hlog : s.log ⊆ ms)
    (hclaimed : ∀ p, Covers S ms (s.claimed p)) (hheard : ∀ l, Covers S ms (s.heard l)) :
    (∀ p, Covers S ms ((s.apply S e).claimed p)) ∧ ∀ l, Covers S ms ((s.apply S e).heard l) := by
  cases e with
  | post m => exact ⟨hclaimed, hheard⟩
  | handOut p l limit batch =>
    have hbatch : ∀ (q : α → Bool), ∀ m ∈ batch.filter q, m ∈ ms := fun q m hm =>
      hlog ((enabled_batch hen).1.subset (List.mem_of_mem_filter hm))
    constructor
    · intro p'
      by_cases hp : p' = p
      · subst hp
        simpa [apply, handOut] using (hclaimed p').pass (hbatch _)
      · simpa [apply, handOut, hp] using hclaimed p'
    · intro l'
      by_cases hl : l' = l
      · subst hl
        simpa [apply, handOut] using (hheard l').pass (hbatch _)
      · simpa [apply, handOut, hl] using hheard l'
  | expire keep =>
    cases h₀ : s.oldestSurvivor keep with
    | none => simpa [apply, expire, h₀] using ⟨hclaimed, hheard⟩
    | some m =>
      have hm : m ∈ ms :=
        hlog (List.mem_of_mem_filter (List.mem_of_mem_head? (oldestSurvivor_eq_some h₀).2))
      simpa [apply, expire, h₀] using
        And.intro (fun p => (hclaimed p).snap hm) fun l => (hheard l).snap hm
  | idle => exact ⟨hclaimed, hheard⟩

/-- No position lies above every posted key. -/
structure Bounded (S : Scheme α ι π) (es : List (Mail α π κ)) (s : Mailbox α ι π κ) : Prop where
  claimed : ∀ p k, isBeyond (s.claimed p) k = false → ∃ x ∈ posted es, k ≤ S.key x
  heard : ∀ l k, isBeyond (s.heard l) k = false → ∃ x ∈ posted es, k ≤ S.key x

omit [DecidableEq π] [DecidableEq κ] in
theorem Bounded.position (h : Bounded S es s) {p : π} {l : κ} {m : α} {k : ι}
    (hk : isBeyond (s.position S p l m) k = false) : ∃ x ∈ Mail.posted es, k ≤ S.key x := by
  unfold Mailbox.position at hk
  split at hk
  · exact h.heard l k hk
  · exact h.claimed p k hk

theorem bounded_of_exec (h : Exec (system S) es s) : Bounded S es s := by
  refine h.invariant (fun s hs => ?_) fun es s e s' hx ih hstep => ?_
  · rw [show s = empty from hs]
    constructor <;> intro _ _ hk <;> cases hk
  · obtain ⟨hen, rfl⟩ := hstep
    have hposted : posted es ⊆ posted (es ++ [e]) := by
      rw [posted_concat]
      exact List.subset_append_left ..
    have hlog : s.log ⊆ posted (es ++ [e]) :=
      List.Subset.trans (wellPosted_of_exec hx).sublist.subset hposted
    obtain ⟨hclaimed, hheard⟩ := covers_apply hen hlog (fun p => Covers.mono (ih.claimed p) hposted)
      fun l => Covers.mono (ih.heard l) hposted
    exact ⟨hclaimed, hheard⟩

/-! ## At most once -/

/-- The keys of the deliveries of some kind. -/
def keysOf (S : Scheme α ι π) (es : List (Mail α π κ)) (kind : Delivery α π κ → Bool) : List ι :=
  ((deliveries es).filter kind).map fun d => S.key d.message

/-- Deliveries of one kind have distinct keys if unread messages were never delivered in it. -/
theorem keysOf_nodup (kind : Delivery α π κ → Bool)
    (hfresh : ∀ {es : List (Mail α π κ)} {s : Mailbox α ι π κ}, Recorded S es s →
      ∀ {p l m}, m ∈ s.log → s.isUnread S p l m = true → kind ⟨p, l, m⟩ = true →
        ∀ d ∈ deliveries es, kind d = true → S.key d.message ≠ S.key m)
    (h : Exec (system S) es s) : (keysOf S es kind).Nodup := by
  refine h.invariant (I := fun es _ => (keysOf S es kind).Nodup) (fun s _ => .nil)
    fun es s e s' hx ih hstep => ?_
  have hsplit : keysOf S (es ++ [e]) kind =
      keysOf S es kind ++ (e.delivers.filter kind).map fun d => S.key d.message := by
    simp [keysOf]
  rw [hsplit]
  cases e with
  | handOut p l limit batch =>
    obtain ⟨hsub, hun⟩ := enabled_batch hstep.1
    refine List.nodup_append.mpr ⟨ih, ?_, ?_⟩
    · have hkeys : (batch.map S.key).Nodup :=
        List.pairwise_map.mpr (((wellPosted_of_exec hx).sorted.sublist hsub).imp
          fun h => ne_of_lt h)
      refine hkeys.sublist ?_
      rw [show batch.map S.key = (delivers (.handOut p l limit batch)).map
        fun d => S.key d.message by simp]
      exact List.filter_sublist.map _
    · rintro k hk k' hk' rfl
      obtain ⟨d, hd, rfl⟩ := List.mem_map.mp hk
      obtain ⟨d', hd', heq⟩ := List.mem_map.mp hk'
      obtain ⟨hd, hkind⟩ := List.mem_filter.mp hd
      obtain ⟨hd', hkind'⟩ := List.mem_filter.mp hd'
      obtain ⟨m, hm, rfl⟩ := List.mem_map.mp hd'
      exact hfresh (recorded_of_exec hx) (hsub.subset hm) (hun m hm) hkind' d hd hkind heq.symm
  | post m | expire keep | idle => simpa using ih

/-- **Nothing is handed out twice to one label.** -/
theorem nodup_label (h : Exec (system S) es s) (l : κ) :
    (keysOf S es fun d => decide (d.label = l)).Nodup := by
  refine keysOf_nodup _ (fun {es s} hr {p l' m} hm hun hl d hd hdl => ?_) h
  have hdl : d.label = l' := (of_decide_eq_true hdl).trans (of_decide_eq_true hl).symm
  intro heq
  rcases hr.seen d hd with hs | hs
  · rw [hdl, heq, (isUnread_iff.mp hun).2.1] at hs
    cases hs
  · exact hs m hm heq.symm

/-- **Nothing unshared is handed out twice under one pattern.** -/
theorem nodup_pattern (h : Exec (system S) es s) (p : π) :
    (keysOf S es fun d => decide (d.pattern = p) && !S.shared d.message).Nodup := by
  refine keysOf_nodup _ (fun {es s} hr {p' l m} hm hun hk d hd hdk => ?_) h
  simp only [Bool.and_eq_true, decide_eq_true_eq, Bool.not_eq_true'] at hk hdk
  obtain ⟨rfl, hns⟩ := hk
  intro heq
  have hbeyond := (isUnread_iff.mp hun).2.2
  rw [position, hns, if_neg Bool.false_ne_true, ← hdk.1, ← heq, hr.claimed d hd hdk.2] at hbeyond
  cases hbeyond

end Mailbox

end AgentBus.Lib
