import AgentBus.Lib.BinarySearch
import AgentBus.Lib.MailRuns

/-!
# What the positions of a mailbox pass over

In a run without expiries every message a position has passed was handed out.
To whom depends on why the hand-out that moved the position left the message
out: `passed_handOut` says that it was not unread for that reader, who had
seen it already or, for a shared message, does not select it.

`Settled P` says that every message at or below the position that decides
about it meets `P`, a property of the deliveries; `settled_of_exec` is the
induction for the properties that every hand-out establishes. What a position
skipped once it never gets back to: `not_settled_step`.
-/

namespace AgentBus.Lib.Mailbox

open Mail

variable {α ι π κ : Type*} [LinearOrder ι] {S : Scheme α ι π} {es : List (Mail α π κ)}
  {s : Mailbox α ι π κ}

/-! ## Truncated hand-outs -/

/-- `x` is unread for the reader, and fewer than `limit` unread messages precede it. -/
def Reaches (S : Scheme α ι π) (s : Mailbox α ι π κ) (p : π) (l : κ) (limit : ℕ) (x : α) : Prop :=
  s.isUnread S p l x = true ∧
    ((s.unread S p l).filter fun y => decide (S.key y < S.key x)).length < limit

theorem mem_take_iff {l : List α} (hs : l.Pairwise fun a b => S.key a < S.key b) (n : ℕ) (x : α) :
    x ∈ l.take n ↔ x ∈ l ∧ (l.filter fun y => decide (S.key y < S.key x)).length < n := by
  induction l generalizing n with
  | nil => simp
  | cons a l ih =>
    obtain ⟨ha, hl⟩ := List.pairwise_cons.mp hs
    cases n with
    | zero => simp
    | succ n =>
      rw [List.take_succ_cons, List.mem_cons, List.mem_cons, ih hl]
      by_cases hx : x ∈ l
      · have hlt := ha x hx
        have hne : x ≠ a := fun h => absurd (h ▸ hlt) (lt_irrefl _)
        simp [hx, hne, hlt]
      · rcases eq_or_ne x a with rfl | hne
        · have : l.filter (fun y => decide (S.key y < S.key x)) = [] := by
            rw [List.filter_eq_nil_iff]
            intro y hy
            simpa using le_of_lt (ha y hy)
          simp [this]
        · simp [hx, hne]

theorem Sorted.unread (hs : s.Sorted S) (p : π) (l : κ) :
    (s.unread S p l).Pairwise fun a b => S.key a < S.key b := hs.sublist List.filter_sublist

theorem mem_take_unread (hs : s.Sorted S) {p : π} {l : κ} {limit : ℕ} {x : α} :
    x ∈ (s.unread S p l).take limit ↔ x ∈ s.log ∧ Reaches S s p l limit x := by
  rw [mem_take_iff (hs.unread p l), mem_unread, Reaches, and_assoc]

/-! ## Passing a message -/

variable [DecidableEq π] [DecidableEq κ]

/-- **Why a position passed a message.** -/
theorem passed_handOut (hs : s.Sorted S) {p p' : π} {l l' : κ} {limit : ℕ} {m : α} (hm : m ∈ s.log)
    (hbefore : isBeyond (s.position S p' l' m) (S.key m) = true)
    (hafter : isBeyond ((s.handOut S p l ((s.unread S p l).take limit)).position S p' l' m)
      (S.key m) = false) :
    (if S.shared m then l' = l else p' = p) ∧
      (m ∈ (s.unread S p l).take limit ∨ s.isUnread S p l m = false ∧
        ∃ x ∈ s.log, Reaches S s p l limit x ∧ S.shared x = S.shared m ∧ S.key m < S.key x) := by
  have hnot : ¬ ((if S.shared m then l' = l else p' = p) →
      ∀ x ∈ (s.unread S p l).take limit, S.shared x = S.shared m → S.key x < S.key m) := by
    intro h
    rw [isBeyond_position_handOut.mpr ⟨hbefore, h⟩] at hafter
    cases hafter
  push Not at hnot
  obtain ⟨hpos, x, hx, hkind, hle⟩ := hnot
  refine ⟨hpos, ?_⟩
  obtain ⟨hxlog, hreach⟩ := (mem_take_unread hs).mp hx
  rcases lt_or_eq_of_le hle with hlt | heq
  · cases hun : s.isUnread S p l m with
    | false => exact .inr ⟨rfl, x, hxlog, hreach, hkind, hlt⟩
    | true =>
      -- an unread message before a reached one is reached too
      refine .inl ((mem_take_unread hs).mpr ⟨hm, hun, Nat.lt_of_le_of_lt ?_ hreach.2⟩)
      refine (List.monotone_filter_right _ fun y hy => ?_).length_le
      exact decide_eq_true (lt_trans (of_decide_eq_true hy) hlt)
  · rw [hs.key_inj hm hxlog heq]
    exact .inl hx

/-! ## Settled positions -/

/-- The hand-out to `l` under `p` moves the position that decides about `m` for `l'` under `p'`. -/
abbrev Moves (S : Scheme α ι π) (p : π) (l : κ) (p' : π) (l' : κ) (m : α) : Prop :=
  if S.shared m then l' = l else p' = p

omit [LinearOrder ι] [DecidableEq π] [DecidableEq κ] in
theorem position_of_moves {p p' : π} {l l' : κ} {m : α} (h : Moves S p l p' l' m) :
    s.position S p' l' m = s.position S p l m := by
  unfold Moves at h
  unfold position
  split at h
  · rw [if_pos ‹_›, if_pos ‹_›, h]
  · rw [if_neg ‹_›, if_neg ‹_›, h]

/-- Every concerned message at or below its position was delivered in the right way. -/
def Settled (S : Scheme α ι π) (concerns : π → α → Prop) (kind : π → κ → Delivery α π κ → Prop)
    (es : List (Mail α π κ)) (s : Mailbox α ι π κ) : Prop :=
  ∀ p l, ∀ m ∈ s.log, concerns p m → isBeyond (s.position S p l m) (S.key m) = false →
    ∃ d ∈ deliveries es, kind p l d ∧ d.message = m

/-- A hand-out `ok` allows leaves no gap: it passes a concerned message that is not unread for its
reader only if that message was delivered in the right way before. -/
def Gapless (S : Scheme α ι π) (concerns : π → α → Prop) (kind : π → κ → Delivery α π κ → Prop)
    (ok : Mailbox α ι π κ → Mail α π κ → Prop) : Prop :=
  ∀ es s p l limit batch, WellPosted S es s → Recorded S es s → ok s (.handOut p l limit batch) →
    ∀ p' l', ∀ m ∈ s.log, concerns p' m → Moves S p l p' l' m →
      isBeyond (s.position S p l m) (S.key m) = true → s.isUnread S p l m = false →
      ∀ x ∈ s.log, Reaches S s p l limit x → S.shared x = S.shared m → S.key m < S.key x →
        ∃ d ∈ deliveries es, kind p' l' d ∧ d.message = m

/-- **Without gaps every position stays settled.** -/
theorem settled_of_exec {concerns : π → α → Prop} {kind : π → κ → Delivery α π κ → Prop}
    {ok : Mailbox α ι π κ → Mail α π κ → Prop} (hexp : ∀ s keep, ¬ ok s (.expire keep))
    (hkind : ∀ p l p' l' m, Moves S p l p' l' m → concerns p' m → kind p' l' ⟨p, l, m⟩)
    (hgap : Gapless S concerns kind ok) (h : Exec ((system S).restrict ok) es s) :
    Settled S concerns kind es s := by
  refine h.invariant (fun s hs => ?_) fun es s e s' hx ih hstep => ?_
  · rw [show s = empty from hs]
    intro p l m hm
    cases hm
  · obtain ⟨hok, hen, rfl⟩ := hstep
    have hx := hx.of_restrict
    have hw := wellPosted_of_exec hx
    have hold : ∀ {p l m}, m ∈ s.log → concerns p m →
        isBeyond (s.position S p l m) (S.key m) = false →
        ∃ d ∈ deliveries (es ++ [e]), kind p l d ∧ d.message = m := by
      intro p l m hm hc hb
      obtain ⟨d, hd, h⟩ := ih p l m hm hc hb
      exact ⟨d, by rw [deliveries_concat]; exact List.mem_append_left _ hd, h⟩
    intro p' l' m hm hc hb
    cases e with
    | post m' =>
      rcases List.mem_append.mp hm with hm | hm
      · exact hold hm hc hb
      · -- no position has reached a message that was just posted
        obtain ⟨x, hxp, hle⟩ := (bounded_of_exec hx).position hb
        rw [List.mem_singleton.mp hm] at hle
        exact absurd (hen x hxp) (not_lt.mpr hle)
    | handOut p l limit batch =>
      obtain rfl : batch = _ := hen
      by_cases hbefore : isBeyond (s.position S p' l' m) (S.key m) = true
      · obtain ⟨hmoves, hwhy⟩ := passed_handOut hw.sorted hm hbefore hb
        rw [deliveries_concat]
        rcases hwhy with hbatch | ⟨hnot, x, hxlog, hreach, hshared, hlt⟩
        · exact ⟨⟨p, l, m⟩, List.mem_append_right _ (List.mem_map.mpr ⟨m, hbatch, rfl⟩),
            hkind _ _ _ _ _ hmoves hc, rfl⟩
        · rw [position_of_moves hmoves] at hbefore
          obtain ⟨d, hd, h⟩ := hgap es s p l limit _ hw (recorded_of_exec hx) hok p' l' m hm hc
            hmoves hbefore hnot x hxlog hreach hshared hlt
          exact ⟨d, List.mem_append_left _ hd, h⟩
      · exact hold hm hc (Bool.eq_false_iff.mpr hbefore)
    | expire keep => exact absurd hok (hexp s keep)
    | idle => exact hold hm hc hb

/-! ## Skipped messages -/

/-- The deliveries of the kind are made at the position that decides about the message. -/
abbrev MadeAtPosition (S : Scheme α ι π) (concerns : π → α → Prop)
    (kind : π → κ → Delivery α π κ → Prop) : Prop :=
  ∀ d p l, concerns p d.message → kind p l d → Moves S d.pattern d.label p l d.message

theorem passed_of_delivery (h : Exec (system S) es s) : ∀ d ∈ deliveries es,
    isBeyond (s.position S d.pattern d.label d.message) (S.key d.message) = false := by
  induction h with
  | init _ => simp [deliveries]
  | @step es s s' e hx hstep ih =>
    obtain ⟨hen, rfl⟩ := hstep
    intro d hd
    rw [deliveries_concat, List.mem_append] at hd
    cases e with
    | post m =>
      exact ih d (hd.resolve_right (List.not_mem_nil))
    | handOut p l limit batch =>
      rw [Bool.eq_false_iff]
      intro hb
      obtain ⟨hold, hnew⟩ := isBeyond_position_handOut.mp hb
      rcases hd with hd | hd
      · rw [ih d hd] at hold
        cases hold
      · obtain ⟨m, hm, rfl⟩ := List.mem_map.mp hd
        exact lt_irrefl _ (hnew (by split <;> rfl) m hm rfl)
    | expire keep =>
      have hold := ih d (hd.resolve_right (List.not_mem_nil))
      cases h₀ : s.oldestSurvivor keep with
      | none => simpa [apply, Mailbox.expire, h₀, position] using hold
      | some m₀ =>
        rw [apply, position_expire h₀, isBeyond_snap, hold]
        rfl
    | idle => exact ih d (hd.resolve_right (List.not_mem_nil))

theorem not_delivered_of_beyond {concerns : π → α → Prop} {kind : π → κ → Delivery α π κ → Prop}
    (hkind : MadeAtPosition S concerns kind) (h : Exec (system S) es s) {p : π} {l : κ} {m : α}
    (hc : concerns p m) (hb : isBeyond (s.position S p l m) (S.key m) = true) :
    ∀ d ∈ deliveries es, kind p l d → d.message ≠ m := by
  rintro d hd hk rfl
  rw [position_of_moves (hkind d p l hc hk), passed_of_delivery h d hd] at hb
  cases hb

/-- **A hand-out that passes a concerned message its reader is not owed leaves its position
unsettled.** -/
theorem not_settled_of_passed {concerns : π → α → Prop} {kind : π → κ → Delivery α π κ → Prop}
    (hkind : MadeAtPosition S concerns kind) (h : Exec (system S) es s) {p : π} {l : κ} {limit : ℕ}
    {m x : α} (hm : m ∈ s.log) (hc : concerns p m)
    (hb : isBeyond (s.position S p l m) (S.key m) = true) (hun : s.isUnread S p l m = false)
    (hx : x ∈ s.log) (hreach : Reaches S s p l limit x) (hsame : S.shared x = S.shared m)
    (hlt : S.key m < S.key x) :
    ¬ Settled S concerns kind (es ++ [.handOut p l limit ((s.unread S p l).take limit)])
      (s.handOut S p l ((s.unread S p l).take limit)) := by
  intro hsettled
  have hs := (wellPosted_of_exec h).sorted
  have hpassed : isBeyond ((s.handOut S p l ((s.unread S p l).take limit)).position S p l m)
      (S.key m) = false := by
    rw [Bool.eq_false_iff]
    intro hbeyond
    have hall := (isBeyond_position_handOut.mp hbeyond).2 (by split <;> rfl)
    exact absurd (hall x ((mem_take_unread hs).mpr ⟨hx, hreach⟩) hsame) (not_lt.mpr (le_of_lt hlt))
  obtain ⟨d, hd, hk, hdm⟩ := hsettled p l m hm hc hpassed
  rw [deliveries_concat, List.mem_append] at hd
  rcases hd with hd | hd
  · exact not_delivered_of_beyond hkind h hc hb d hd hk hdm
  · obtain ⟨a, ha, rfl⟩ := List.mem_map.mp hd
    obtain rfl : a = m := hdm
    rw [(mem_take_unread hs).mp ha |>.2.1] at hun
    cases hun

/-- **What was skipped once stays skipped.** -/
theorem not_settled_step {concerns : π → α → Prop} {kind : π → κ → Delivery α π κ → Prop}
    (hkind : MadeAtPosition S concerns kind) {e : Mail α π κ} (hen : s.Enabled S es e)
    (hexp : ∀ keep, e ≠ .expire keep) (hn : ¬ Settled S concerns kind es s) :
    ¬ Settled S concerns kind (es ++ [e]) (s.apply S e) := by
  refine fun hsettled => hn fun p l m hm hc hb => ?_
  cases e with
  | post m' =>
    obtain ⟨d, hd, hk, hdm⟩ := hsettled p l m (List.mem_append_left _ hm) hc hb
    exact ⟨d, by simpa using hd, hk, hdm⟩
  | handOut p' l' limit batch =>
    have hpassed : isBeyond ((s.handOut S p' l' batch).position S p l m) (S.key m) = false := by
      rw [Bool.eq_false_iff] at hb ⊢
      exact fun h => hb (isBeyond_position_handOut.mp h).1
    obtain ⟨d, hd, hk, hdm⟩ := hsettled p l m hm hc hpassed
    rw [deliveries_concat, List.mem_append] at hd
    rcases hd with hd | hd
    · exact ⟨d, hd, hk, hdm⟩
    · -- the batch holds only what lies beyond the position it moves
      obtain ⟨a, ha, rfl⟩ := List.mem_map.mp hd
      obtain rfl : a = m := hdm
      rw [position_of_moves (hkind _ p l hc hk),
        (isUnread_iff.mp ((enabled_batch hen).2 a ha)).2.2] at hb
      cases hb
  | expire keep => exact absurd rfl (hexp keep)
  | idle =>
    obtain ⟨d, hd, hk, hdm⟩ := hsettled p l m hm hc hb
    exact ⟨d, by simpa using hd, hk, hdm⟩

/-! ## Kinds of completeness -/

/-- Expiries would forget messages. -/
def NoExpiry (_ : Mailbox α ι π κ) : Mail α π κ → Prop
  | .expire _ => False
  | _ => True

/-- The hand-out moves its pattern's position across a selected message that only its reader has
been handed. -/
def HidesClaim (S : Scheme α ι π) (s : Mailbox α ι π κ) (p : π) (l : κ) (limit : ℕ) : Prop :=
  ∃ m ∈ s.log, (S.shared m = false ∧ S.selects p m = true ∧ s.seen l (S.key m) = true ∧
    isBeyond (s.claimed p) (S.key m) = true) ∧
    ∃ x ∈ s.log, Reaches S s p l limit x ∧ S.shared x = false ∧ S.key m < S.key x

/-- The hand-out moves its reader's position across a shared message that its pattern does not
select. -/
def HidesShared (S : Scheme α ι π) (s : Mailbox α ι π κ) (p : π) (l : κ) (limit : ℕ) : Prop :=
  ∃ m ∈ s.log, (S.shared m = true ∧ S.selects p m = false ∧
    isBeyond (s.heard l) (S.key m) = true) ∧
    ∃ x ∈ s.log, Reaches S s p l limit x ∧ S.shared x = true ∧ S.key m < S.key x

instance (s : Mailbox α ι π κ) (p : π) (l : κ) (limit : ℕ) (x : α) :
    Decidable (Reaches S s p l limit x) :=
  inferInstanceAs (Decidable (_ ∧ _))

instance (s : Mailbox α ι π κ) (p : π) (l : κ) (limit : ℕ) : Decidable (HidesClaim S s p l limit) :=
  inferInstanceAs (Decidable (∃ m ∈ s.log, _ ∧ _))

instance (s : Mailbox α ι π κ) (p : π) (l : κ) (limit : ℕ) :
    Decidable (HidesShared S s p l limit) :=
  inferInstanceAs (Decidable (∃ m ∈ s.log, _ ∧ _))

def NoHiddenClaim (S : Scheme α ι π) (s : Mailbox α ι π κ) : Mail α π κ → Prop
  | .handOut p l limit _ => ¬ HidesClaim S s p l limit
  | .expire _ => False
  | _ => True

def NoHiddenShared (S : Scheme α ι π) (s : Mailbox α ι π κ) : Mail α π κ → Prop
  | .handOut p l limit _ => ¬ HidesShared S s p l limit
  | .expire _ => False
  | _ => True

omit [DecidableEq π] [DecidableEq κ] in
theorem WellPosted.message_eq (hw : WellPosted S es s) (hr : Recorded S es s) {d : Delivery α π κ}
    (hd : d ∈ deliveries es) {m : α} (hm : m ∈ s.log) (hk : S.key d.message = S.key m) :
    d.message = m :=
  Sorted.key_inj (s := ⟨posted es, s.claimed, s.heard, s.seen⟩) hw.increasing (hr.posted d hd)
    (hw.sublist.subset hm) hk

omit [DecidableEq π] [DecidableEq κ] in
theorem delivered_of_not_unread (hw : WellPosted S es s) (hr : Recorded S es s) {p : π} {l : κ}
    {m : α} (hm : m ∈ s.log) (hsel : S.selects p m = true) (hun : s.isUnread S p l m = false)
    (hb : isBeyond (s.position S p l m) (S.key m) = true) :
    s.seen l (S.key m) = true ∧ ∃ d ∈ deliveries es, d.label = l ∧ d.message = m := by
  have hseen : s.seen l (S.key m) = true := by
    by_contra hs
    rw [isUnread_iff.mpr ⟨hsel, Bool.eq_false_iff.mpr hs, hb⟩] at hun
    cases hun
  obtain ⟨d, hd, hl, hk⟩ := hr.delivered l _ hseen
  exact ⟨hseen, d, hd, hl, hw.message_eq hr hd hm hk⟩

/-- **Every claimable message a position passed was handed to somebody.** -/
theorem claims_settled (h : Exec ((system S).restrict (NoExpiry (κ := κ))) es s) :
    Settled S (fun p m => S.shared m = false ∧ S.selects p m = true) (fun _ _ _ => True) es s := by
  refine settled_of_exec (fun _ _ => id) (fun _ _ _ _ _ _ _ => trivial) ?_ h
  intro es s p l limit batch hw hr _ p' l' m hm hc hmoves hb hun x _ _ _ _
  rw [Moves, hc.1, if_neg Bool.false_ne_true] at hmoves
  obtain ⟨-, d, hd, -, hdm⟩ := delivered_of_not_unread hw hr hm (hmoves ▸ hc.2) hun hb
  exact ⟨d, hd, trivial, hdm⟩

/-- **Without hidden claims a pattern's position passes only what the pattern handed out.** -/
theorem claims_settled_pattern (h : Exec ((system S).restrict (NoHiddenClaim S (κ := κ))) es s) :
    Settled S (fun p m => S.shared m = false ∧ S.selects p m = true) (fun p _ d => d.pattern = p)
      es s := by
  refine settled_of_exec (fun _ _ => id) (fun p l p' l' m hmoves hc => ?_) ?_ h
  · rw [Moves, hc.1, if_neg Bool.false_ne_true] at hmoves
    exact hmoves.symm
  · intro es s p l limit batch hw hr hok p' l' m hm hc hmoves hb hun x hx hreach hkind hlt
    rw [Moves, hc.1, if_neg Bool.false_ne_true] at hmoves
    subst hmoves
    obtain ⟨hseen, -⟩ := delivered_of_not_unread hw hr hm hc.2 hun hb
    rw [position, hc.1, if_neg Bool.false_ne_true] at hb
    exact absurd ⟨m, hm, ⟨hc.1, hc.2, hseen, hb⟩, x, hx, hreach, hkind.trans hc.1, hlt⟩ hok

/-- **Without hidden shared messages a label's position passes only what the label was handed.** -/
theorem shared_settled (h : Exec ((system S).restrict (NoHiddenShared S (κ := κ))) es s) :
    Settled S (fun _ m => S.shared m = true) (fun _ l d => d.label = l) es s := by
  refine settled_of_exec (fun _ _ => id) (fun p l p' l' m hmoves hc => ?_) ?_ h
  · rw [Moves, hc, if_pos rfl] at hmoves
    exact hmoves.symm
  · intro es s p l limit batch hw hr hok p' l' m hm hc hmoves hb hun x hx hreach hkind hlt
    rw [Moves, hc, if_pos rfl] at hmoves
    subst hmoves
    cases hsel : S.selects p m with
    | true =>
      obtain ⟨-, d, hd, hl, hdm⟩ := delivered_of_not_unread hw hr hm hsel hun hb
      exact ⟨d, hd, hl, hdm⟩
    | false =>
      rw [position, hc, if_pos rfl] at hb
      exact absurd ⟨m, hm, ⟨hc, hsel, hb⟩, x, hx, hreach, hkind.trans hc, hlt⟩ hok

/-- What a pattern's position passed was handed out under it. -/
abbrev ClaimsSettled (S : Scheme α ι π) : List (Mail α π κ) → Mailbox α ι π κ → Prop :=
  Settled S (fun p m => S.shared m = false ∧ S.selects p m = true) fun p _ d => d.pattern = p

/-- What a label's position passed was handed to it. -/
abbrev SharedSettled (S : Scheme α ι π) : List (Mail α π κ) → Mailbox α ι π κ → Prop :=
  Settled S (fun _ m => S.shared m = true) fun _ l d => d.label = l

omit [LinearOrder ι] [DecidableEq π] [DecidableEq κ] in
theorem claims_madeAtPosition : MadeAtPosition (κ := κ) S
    (fun p m => S.shared m = false ∧ S.selects p m = true) fun p _ d => d.pattern = p := by
  rintro d p l ⟨hc, -⟩ rfl
  rw [Moves, if_neg (by simp [hc])]

omit [LinearOrder ι] [DecidableEq π] [DecidableEq κ] in
theorem shared_madeAtPosition : MadeAtPosition (κ := κ) S
    (fun _ m => S.shared m = true) fun _ l d => d.label = l := by
  rintro d p l hc rfl
  rw [Moves, if_pos hc]

theorem not_claimsSettled_of_hides (h : Exec (system S) es s) {p : π} {l : κ} {limit : ℕ}
    (hhide : HidesClaim S s p l limit) :
    ¬ ClaimsSettled S (es ++ [.handOut p l limit ((s.unread S p l).take limit)])
      (s.handOut S p l ((s.unread S p l).take limit)) := by
  obtain ⟨m, hm, ⟨hc, hsel, hseen, hb⟩, x, hx, hreach, hkind, hlt⟩ := hhide
  have hun : s.isUnread S p l m = false := by simp [isUnread, hseen]
  have hpos : isBeyond (s.position S p l m) (S.key m) = true := by simpa [position, hc] using hb
  exact not_settled_of_passed claims_madeAtPosition h hm ⟨hc, hsel⟩ hpos hun hx hreach
    (hkind.trans hc.symm) hlt

theorem not_sharedSettled_of_hides (h : Exec (system S) es s) {p : π} {l : κ} {limit : ℕ}
    (hhide : HidesShared S s p l limit) :
    ¬ SharedSettled S (es ++ [.handOut p l limit ((s.unread S p l).take limit)])
      (s.handOut S p l ((s.unread S p l).take limit)) := by
  obtain ⟨m, hm, ⟨hc, hsel, hb⟩, x, hx, hreach, hkind, hlt⟩ := hhide
  have hun : s.isUnread S p l m = false := by simp [isUnread, hsel]
  have hpos : isBeyond (s.position S p l m) (S.key m) = true := by simpa [position, hc] using hb
  exact not_settled_of_passed shared_madeAtPosition h hm hc hpos hun hx hreach
    (hkind.trans hc.symm) hlt

/-! ## Full hand-outs -/

theorem isUnread_handOut_all {p : π} {l : κ} {limit : ℕ} (hlimit : (s.unread S p l).length ≤ limit)
    {m : α} (hm : m ∈ s.log) :
    (s.handOut S p l ((s.unread S p l).take limit)).isUnread S p l m = false := by
  rw [Bool.eq_false_iff, List.take_of_length_le hlimit]
  intro hun
  have hmem := mem_unread.mpr ⟨hm, isUnread_of_handOut hun⟩
  have hseen := (isUnread_iff.mp hun).2.1
  rw [seen_handOut.mpr (.inr ⟨rfl, m, hmem, rfl⟩)] at hseen
  cases hseen

omit [DecidableEq π] [DecidableEq κ] in
theorem passed_or_delivered (hw : WellPosted S es s) (hr : Recorded S es s) {p : π} {l : κ} {m : α}
    (hm : m ∈ s.log) (hsel : S.selects p m = true) (hun : s.isUnread S p l m = false) :
    isBeyond (s.position S p l m) (S.key m) = false ∨
      ∃ d ∈ deliveries es, d.label = l ∧ d.message = m := by
  by_cases hb : isBeyond (s.position S p l m) (S.key m) = true
  · exact .inr (delivered_of_not_unread hw hr hm hsel hun hb).2
  · exact .inl (Bool.eq_false_iff.mpr hb)

/-! ## One pattern -/

/-- The unshared messages a pattern selects. -/
def claimable (S : Scheme α ι π) (s : Mailbox α ι π κ) (p : π) : List α :=
  s.log.filter fun m => !S.shared m && S.selects p m

omit [DecidableEq π] [DecidableEq κ] in
theorem claimable_split (hs : s.Sorted S) (p : π) (pos : Option ι) :
    s.claimable S p = (s.claimable S p).filter (fun m => !isBeyond pos (S.key m)) ++
      (s.claimable S p).filter fun m => isBeyond pos (S.key m) := by
  have hpart : Partitioned (fun m => !isBeyond pos (S.key m)) (s.claimable S p) := by
    refine (hs.sublist List.filter_sublist).imp fun {a b} hab hb => ?_
    rw [Bool.not_eq_true', Bool.eq_false_iff] at hb ⊢
    exact fun ha => hb (isBeyond_of_le (le_of_lt hab) ha)
  obtain ⟨xs, ys, heq, hx, hy⟩ := hpart.exists_append
  have hy' : ∀ y ∈ ys, isBeyond pos (S.key y) = true := by simpa using hy
  rw [heq, List.filter_append, List.filter_append, List.filter_eq_self.mpr hx,
    List.filter_eq_nil_iff.mpr (by simpa using hy'), List.append_nil,
    List.filter_eq_nil_iff.mpr (by simpa using hx), List.nil_append, List.filter_eq_self.mpr hy']

omit [DecidableEq π] [DecidableEq κ] in
theorem filter_unread_of_only (hw : WellPosted S es s) (hr : Recorded S es s) {p : π}
    (honly : ∀ d ∈ deliveries es, d.pattern = p) (l : κ) :
    (s.unread S p l).filter (fun m => !S.shared m) =
      (s.claimable S p).filter fun m => isBeyond (s.claimed p) (S.key m) := by
  rw [unread, claimable, List.filter_filter, List.filter_filter]
  refine List.filter_congr fun m hm => ?_
  cases hsh : S.shared m with
  | true => simp
  | false =>
    cases hb : isBeyond (s.claimed p) (S.key m) with
    | false => simp [isUnread, position, hsh, hb]
    | true =>
      have hseen : s.seen l (S.key m) = false := by
        rw [Bool.eq_false_iff]
        intro hs
        obtain ⟨d, hd, -, hk⟩ := hr.delivered l _ hs
        have hcl := hr.claimed d hd (by rw [hw.message_eq hr hd hm hk, hsh])
        rw [honly d hd, hk, hb] at hcl
        cases hcl
      simp [isUnread, position, hsh, hb, hseen]

/-- What was handed out and not shared, in order. -/
def claims (S : Scheme α ι π) (es : List (Mail α π κ)) : List α :=
  ((deliveries es).filter fun d => !S.shared d.message).map (·.message)

omit [LinearOrder ι] [DecidableEq π] [DecidableEq κ] in
theorem claims_handOut (p : π) (l : κ) (limit : ℕ) (batch : List α) :
    claims S (es ++ [.handOut p l limit batch]) = claims S es ++ batch.filter fun m =>
      !S.shared m := by
  rw [claims, deliveries_concat, List.filter_append, List.map_append, ← claims, delivers,
    List.filter_map, List.map_map]
  simp [Function.comp_def]

/-- A hand-out under the only pattern in use claims the next claimable messages. -/
theorem claimed_handOut_of_only (hw : WellPosted S es s) (hr : Recorded S es s) {p : π}
    (honly : ∀ d ∈ deliveries es, d.pattern = p) (l : κ) (limit : ℕ) :
    (s.claimable S p).filter (fun m => !isBeyond
        ((s.handOut S p l ((s.unread S p l).take limit)).claimed p) (S.key m)) =
      (s.claimable S p).filter (fun m => !isBeyond (s.claimed p) (S.key m)) ++
        ((s.unread S p l).take limit).filter fun m => !S.shared m := by
  have hs := hw.sorted
  obtain ⟨rest, hrest⟩ := (List.take_prefix limit (s.unread S p l)).filter fun m => !S.shared m
  rw [filter_unread_of_only hw hr honly l] at hrest
  have hclaimed : ∀ k, isBeyond ((s.handOut S p l ((s.unread S p l).take limit)).claimed p) k =
      (isBeyond (s.claimed p) k && (((s.unread S p l).take limit).filter fun m => !S.shared m).all
        fun m => decide (S.key m < k)) := fun k => by simp [handOut, isBeyond_pass]
  have hsplit := claimable_split hs p (s.claimed p)
  have hsorted : (s.claimable S p).Pairwise fun a b => S.key a < S.key b :=
    hs.sublist List.filter_sublist
  simp only [hclaimed]
  generalize ((s.unread S p l).take limit).filter (fun m => !S.shared m) = batch at hrest ⊢
  have hold : ∀ m ∈ (s.claimable S p).filter (fun m => !isBeyond (s.claimed p) (S.key m)),
      isBeyond (s.claimed p) (S.key m) = false := fun m hm => by
    simpa using (List.mem_filter.mp hm).2
  have hnew : ∀ m ∈ batch ++ rest, isBeyond (s.claimed p) (S.key m) = true := fun m hm => by
    rw [hrest] at hm
    exact (List.mem_filter.mp hm).2
  rw [← hrest] at hsplit
  generalize (s.claimable S p).filter (fun m => !isBeyond (s.claimed p) (S.key m)) =
    old at hsplit hold ⊢
  rw [hsplit] at hsorted ⊢
  have hlater := (List.pairwise_append.mp (List.pairwise_append.mp hsorted).2.1).2.2
  rw [List.filter_append, List.filter_append, List.filter_eq_self.mpr, List.filter_eq_self.mpr,
    List.filter_eq_nil_iff.mpr, List.append_nil]
  · intro m hm
    have hall : batch.all (fun x => decide (S.key x < S.key m)) = true :=
      List.all_eq_true.mpr fun x hx => decide_eq_true (hlater x hx m hm)
    simp [hnew m (List.mem_append_right _ hm), hall]
  · intro m hm
    have hself : batch.all (fun x => decide (S.key x < S.key m)) = false :=
      List.all_eq_false.mpr ⟨m, hm, by simp⟩
    simp [hself]
  · intro m hm
    simp [hold m hm]

/-- **With one pattern the claims are the claimable messages up to its position, in order.** -/
theorem claims_of_only {ok : Mailbox α ι π κ → Mail α π κ → Prop}
    (hexp : ∀ s keep, ¬ ok s (.expire keep)) {p : π} (h : Exec ((system S).restrict ok) es s)
    (honly : ∀ d ∈ deliveries es, d.pattern = p) :
    claims S es = (s.claimable S p).filter fun m => !isBeyond (s.claimed p) (S.key m) := by
  revert honly
  refine h.invariant (I := fun es s => (∀ d ∈ deliveries es, d.pattern = p) → claims S es =
    (s.claimable S p).filter fun m => !isBeyond (s.claimed p) (S.key m)) (fun s hs _ => ?_)
    fun es s e s' hx ih hstep honly => ?_
  · rw [show s = empty from hs]
    rfl
  · obtain ⟨hok, hen, rfl⟩ := hstep
    have hx := hx.of_restrict
    have hw := wellPosted_of_exec hx
    have hr := recorded_of_exec hx
    simp only [deliveries_concat, List.mem_append] at honly
    have ih := ih fun d hd => honly d (.inl hd)
    cases e with
    | post m =>
      have hnew : isBeyond (s.claimed p) (S.key m) = true := by
        by_contra hb
        obtain ⟨x, hxp, hle⟩ := (bounded_of_exec hx).claimed p _ (Bool.eq_false_iff.mpr hb)
        exact absurd (hen x hxp) (not_lt.mpr hle)
      have hclaims : claims S (es ++ [.post m]) = claims S es := by simp [claims]
      rw [hclaims, ih]
      simp [apply, post, claimable, hnew]
    | handOut p' l limit batch =>
      obtain rfl : batch = _ := hen
      rw [claims_handOut, ih]
      by_cases hp : p' = p
      · subst hp
        exact (claimed_handOut_of_only hw hr (fun d hd => honly d (.inl hd)) l limit).symm
      · have hnil : (s.unread S p' l).take limit = [] := by
          rw [List.eq_nil_iff_forall_not_mem]
          intro m hm
          exact hp (honly ⟨p', l, m⟩ (.inr (List.mem_map.mpr ⟨m, hm, rfl⟩)))
        simp [hnil, apply, handOut, claimable, Ne.symm hp]
    | expire keep => exact absurd hok (hexp s keep)
    | idle => simpa [claims, apply] using ih

omit [DecidableEq π] [DecidableEq κ] in
theorem filter_claimable_of_full (hw : WellPosted S es s) (hr : Recorded S es s) {p : π} {l : κ}
    (honly : ∀ d ∈ deliveries es, d.pattern = p) (hfull : ∀ m ∈ s.log, s.isUnread S p l m = false) :
    (s.claimable S p).filter (fun m => !isBeyond (s.claimed p) (S.key m)) = s.claimable S p := by
  rw [List.filter_eq_self]
  intro m hm
  obtain ⟨hm, hc⟩ := List.mem_filter.mp hm
  rw [Bool.and_eq_true, Bool.not_eq_true'] at hc
  have hpos : s.position S p l m = s.claimed p := by simp [position, hc.1]
  rw [Bool.not_eq_true']
  rcases passed_or_delivered hw hr hm hc.2 (hfull m hm) with hb | ⟨d, hd, -, rfl⟩
  · exact hpos ▸ hb
  · exact honly d hd ▸ hr.claimed d hd hc.1

end AgentBus.Lib.Mailbox
