import AgentBus.Lib.Position
import Mathlib.Data.List.Basic
import Mathlib.Data.List.Induction
import Mathlib.Logic.Function.Basic

/-!
# Mailboxes with two delivery modes

A mailbox holds messages in the order of their keys. A reader has a pattern,
which selects messages, and a label, which names the reader. A message that is
not shared is claimed for a pattern: the pattern has one position, whoever
reads under it. A shared message is heard by labels: every label has one
position, whatever it reads under. Whatever else happens, a label is not
handed what it has seen.

`unread` is what a reader is still owed; `handOut` is the effect of giving it
a batch; `expire` drops old messages and drags the positions they leave
behind up to the oldest survivor.
-/

namespace AgentBus.Lib

variable {α ι π κ : Type*}

/-- How messages are ordered, shared and selected. -/
structure Scheme (α ι π : Type*) where
  key : α → ι
  shared : α → Bool
  selects : π → α → Bool

structure Mailbox (α ι π κ : Type*) where
  log : List α
  claimed : π → Option ι
  heard : κ → Option ι
  seen : κ → ι → Bool

namespace Mailbox

/-! ## Operations -/

def empty : Mailbox α ι π κ := ⟨[], fun _ => none, fun _ => none, fun _ _ => false⟩

def post (s : Mailbox α ι π κ) (m : α) : Mailbox α ι π κ := { s with log := s.log ++ [m] }

/-- The oldest survivor, if something was dropped and something is left. -/
def oldestSurvivor (s : Mailbox α ι π κ) (keep : α → Bool) : Option α :=
  if (s.log.filter keep).length < s.log.length then (s.log.filter keep).head? else none

theorem oldestSurvivor_eq_some {s : Mailbox α ι π κ} {keep : α → Bool} {m : α}
    (h : s.oldestSurvivor keep = some m) :
    (s.log.filter keep).length < s.log.length ∧ (s.log.filter keep).head? = some m := by
  unfold oldestSurvivor at h
  split at h
  · exact ⟨‹_›, h⟩
  · cases h

variable [LinearOrder ι] (S : Scheme α ι π)

/-- The position that decides about a message. -/
def position (s : Mailbox α ι π κ) (p : π) (l : κ) (m : α) : Option ι :=
  if S.shared m then s.heard l else s.claimed p

def isUnread (s : Mailbox α ι π κ) (p : π) (l : κ) (m : α) : Bool :=
  S.selects p m && !s.seen l (S.key m) && isBeyond (s.position S p l m) (S.key m)

/-- What the reader `l` of the pattern `p` is owed. -/
def unread (s : Mailbox α ι π κ) (p : π) (l : κ) : List α := s.log.filter (s.isUnread S p l)

/-- A position that has passed these messages. -/
def pass (ms : List α) (pos : Option ι) : Option ι :=
  ms.foldl (fun pos m => advance (S.key m) pos) pos

def handOut [DecidableEq π] [DecidableEq κ] (s : Mailbox α ι π κ) (p : π) (l : κ)
    (batch : List α) : Mailbox α ι π κ where
  log := s.log
  claimed := Function.update s.claimed p (pass S (batch.filter (!S.shared ·)) (s.claimed p))
  heard := Function.update s.heard l (pass S (batch.filter S.shared) (s.heard l))
  seen := Function.update s.seen l fun k => s.seen l k || batch.any fun m => decide (S.key m = k)

def expire (s : Mailbox α ι π κ) (keep : α → Bool) : Mailbox α ι π κ :=
  match s.oldestSurvivor keep with
  | none => { s with log := s.log.filter keep }
  | some m =>
    { log := s.log.filter keep
      claimed := fun p => (s.claimed p).map (snap (S.key m))
      heard := fun l => (s.heard l).map (snap (S.key m))
      seen := fun l k => s.seen l k && decide (S.key m ≤ k) }

/-- Keys increase along the log. -/
def Sorted (s : Mailbox α ι π κ) : Prop := s.log.Pairwise fun a b => S.key a < S.key b

variable {S} {s : Mailbox α ι π κ} {p : π} {l : κ} {m : α}

theorem isUnread_iff : s.isUnread S p l m = true ↔ S.selects p m = true ∧
    s.seen l (S.key m) = false ∧ isBeyond (s.position S p l m) (S.key m) = true := by
  simp only [isUnread, Bool.and_eq_true, Bool.not_eq_true', and_assoc]

theorem mem_unread : m ∈ s.unread S p l ↔ m ∈ s.log ∧ s.isUnread S p l m = true :=
  List.mem_filter

theorem Sorted.key_inj (h : s.Sorted S) {a b : α} (ha : a ∈ s.log) (hb : b ∈ s.log)
    (hk : S.key a = S.key b) : a = b := by
  have hne : s.log.Pairwise fun a b => S.key a = S.key b → a = b :=
    h.imp fun hlt he => absurd he (ne_of_lt hlt)
  exact hne.forall_of_forall_of_flip (fun _ _ _ => rfl)
    (hne.imp fun hab he => (hab he.symm).symm) ha hb hk

/-! ## Handing out -/

theorem isBeyond_pass (ms : List α) (pos : Option ι) (k : ι) :
    isBeyond (pass S ms pos) k = (isBeyond pos k && ms.all fun m => decide (S.key m < k)) := by
  induction ms generalizing pos with
  | nil => simp [pass]
  | cons m ms ih =>
    have := ih (advance (S.key m) pos)
    simp only [pass] at this
    simp [pass, this, isBeyond_advance, Bool.and_assoc]

theorem pass_eq {ms : List α} (h : ms.Pairwise fun a b => S.key a ≤ S.key b) (pos : Option ι) :
    pass S ms pos = ms.getLast?.elim pos fun m => advance (S.key m) pos := by
  induction ms using List.reverseRecOn with
  | nil => rfl
  | append_singleton ms m ih =>
    obtain ⟨hms, -, hm⟩ := List.pairwise_append.mp h
    have hpass : pass S (ms ++ [m]) pos = advance (S.key m) (pass S ms pos) := by simp [pass]
    rw [hpass, ih hms, List.getLast?_concat]
    cases hl : ms.getLast? with
    | none => rfl
    | some a =>
      exact advance_advance (hm a (List.mem_of_getLast? hl) m (List.mem_singleton_self m)) pos

section HandOut

variable [DecidableEq π] [DecidableEq κ] {batch : List α} {p' : π} {l' : κ}

@[simp] theorem log_handOut : (s.handOut S p l batch).log = s.log := rfl

/-- A key is beyond a position after a hand-out if it was before and, where the batch moved that
position, every message of its kind in the batch has a smaller key. -/
theorem isBeyond_position_handOut {k : ι} :
    isBeyond ((s.handOut S p l batch).position S p' l' m) k = true ↔
      isBeyond (s.position S p' l' m) k = true ∧
      ((if S.shared m then l' = l else p' = p) →
        ∀ x ∈ batch, S.shared x = S.shared m → S.key x < k) := by
  unfold position handOut
  cases hm : S.shared m with
  | true =>
    by_cases hl : l' = l
    · subst hl
      simp only [if_true, Function.update_self, isBeyond_pass, Bool.and_eq_true, List.all_eq_true,
        List.mem_filter, decide_eq_true_eq, and_imp, true_implies]
    · simp [hl]
  | false =>
    by_cases hp : p' = p
    · subst hp
      simp only [Bool.false_eq_true, if_false, Function.update_self, isBeyond_pass,
        Bool.and_eq_true, List.all_eq_true, List.mem_filter, Bool.not_eq_true', decide_eq_true_eq,
        and_imp, true_implies]
    · simp [hp]

theorem seen_handOut {k : ι} : (s.handOut S p l batch).seen l' k = true ↔
    s.seen l' k = true ∨ l' = l ∧ ∃ x ∈ batch, S.key x = k := by
  by_cases hl : l' = l
  · subst hl
    simp [handOut]
  · simp [handOut, hl]

/-- A hand-out that leaves the position of a message alone only takes it from a reader who was
handed it. -/
theorem isUnread_handOut_of_unmoved (h : ¬ if S.shared m then l' = l else p' = p) :
    (s.handOut S p l batch).isUnread S p' l' m = (s.isUnread S p' l' m &&
      !(decide (l' = l) && batch.any fun x => decide (S.key x = S.key m))) := by
  have hseen : (s.handOut S p l batch).seen l' (S.key m) = (s.seen l' (S.key m) ||
      (decide (l' = l) && batch.any fun x => decide (S.key x = S.key m))) := by
    rw [Bool.eq_iff_iff, seen_handOut]
    simp
  have hbeyond : isBeyond ((s.handOut S p l batch).position S p' l' m) (S.key m) =
      isBeyond (s.position S p' l' m) (S.key m) := by
    rw [Bool.eq_iff_iff, isBeyond_position_handOut]
    exact and_iff_left fun hmoved => absurd hmoved h
  rw [isUnread, isUnread, hseen, hbeyond, Bool.not_or]
  simp only [Bool.and_assoc, Bool.and_comm]

theorem isUnread_of_handOut (h : (s.handOut S p l batch).isUnread S p' l' m = true) :
    s.isUnread S p' l' m = true := by
  obtain ⟨hsel, hseen, hbeyond⟩ := isUnread_iff.mp h
  refine isUnread_iff.mpr ⟨hsel, ?_, (isBeyond_position_handOut.mp hbeyond).1⟩
  rw [Bool.eq_false_iff] at hseen ⊢
  exact fun hs => hseen (seen_handOut.mpr (.inl hs))

end HandOut

/-! ## Expiring -/

@[simp] theorem log_expire (keep : α → Bool) : (s.expire S keep).log = s.log.filter keep := by
  unfold expire
  split <;> rfl

theorem le_of_oldestSurvivor (hs : s.log.Pairwise fun a b => S.key a ≤ S.key b)
    {keep : α → Bool} {m₀ : α} (h₀ : s.oldestSurvivor keep = some m₀) (hm : m ∈ s.log.filter keep) :
    S.key m₀ ≤ S.key m := by
  obtain ⟨-, hhead⟩ := oldestSurvivor_eq_some h₀
  obtain ⟨ms, hms⟩ := List.head?_eq_some_iff.mp hhead
  have hp := hs.sublist (List.filter_sublist (p := keep))
  rw [hms] at hp hm
  rcases List.mem_cons.mp hm with rfl | hm
  · exact le_refl _
  · exact (List.pairwise_cons.mp hp).1 m hm

theorem position_expire {keep : α → Bool} {m₀ : α} (h₀ : s.oldestSurvivor keep = some m₀) :
    (s.expire S keep).position S p l m = (s.position S p l m).map (snap (S.key m₀)) := by
  simp only [position, expire, h₀]
  split <;> rfl

/-- The oldest survivor is passed over where it is not the first message its position meets. -/
def isSkipped (S : Scheme α ι π) (s : Mailbox α ι π κ) (keep : α → Bool) (p : π) (l : κ) (m : α) :
    Bool :=
  ((s.oldestSurvivor keep).any fun m₀ => decide (S.key m₀ = S.key m)) &&
    (s.position S p l m).isSome

/-- Expiry keeps every survivor as unread as it was, except those it skips. -/
theorem isUnread_expire (hs : s.log.Pairwise fun a b => S.key a ≤ S.key b) {keep : α → Bool}
    (hm : m ∈ s.log.filter keep) : (s.expire S keep).isUnread S p l m =
      (s.isUnread S p l m && !s.isSkipped S keep p l m) := by
  cases h₀ : s.oldestSurvivor keep with
  | none => simp [isUnread, isSkipped, position, expire, h₀]
  | some m₀ =>
    have hle := le_of_oldestSurvivor hs h₀ hm
    have hseen : (s.expire S keep).seen l (S.key m) = s.seen l (S.key m) := by
      simp [expire, h₀, hle]
    rw [isUnread, isUnread, hseen, position_expire h₀, isBeyond_snap, isSkipped, h₀,
      Option.any_some]
    rcases lt_or_eq_of_le hle with hlt | heq
    · simp [hlt, ne_of_lt hlt]
    · cases hpos : s.position S p l m with
      | none => simp
      -- no position is both below the survivor and at or above it
      | some q => simp [heq]

/-- **What a reader is owed after an expiry.** -/
theorem unread_expire (hs : s.Sorted S) (keep : α → Bool) :
    (s.expire S keep).unread S p l =
      (s.unread S p l).filter fun m => keep m && !s.isSkipped S keep p l m := by
  have hle : s.log.Pairwise fun a b => S.key a ≤ S.key b := hs.imp fun h => le_of_lt h
  rw [unread, unread, log_expire, List.filter_congr fun m hm => isUnread_expire hle hm,
    List.filter_filter, List.filter_filter]
  refine List.filter_congr fun m _ => ?_
  cases keep m <;> simp [Bool.and_comm]

end Mailbox

end AgentBus.Lib
