import AgentBus.Lib.MailComplete

/-!
# Hand-outs in pieces

Handing out the first unread messages leaves the others unread, in their order.
-/

namespace AgentBus.Lib.Mailbox

variable {α ι π κ : Type*} [LinearOrder ι] {S : Scheme α ι π} {s : Mailbox α ι π κ}

theorem drop_eq_filter {l : List α} (hl : l.Pairwise fun a b => S.key a < S.key b) (n : ℕ) :
    l.drop n = l.filter fun m => (l.take n).all fun x => decide (S.key x < S.key m) := by
  have hsplit := (List.take_append_drop n l).symm
  have hp := hl
  rw [hsplit] at hp
  obtain ⟨-, -, hlt⟩ := List.pairwise_append.mp hp
  have hfilter : ∀ q : α → Bool, l.filter q = (l.take n).filter q ++ (l.drop n).filter q :=
      fun q => by
    rw [← List.filter_append, ← hsplit]
  rw [hfilter, List.filter_eq_nil_iff.mpr, List.nil_append, List.filter_eq_self.mpr]
  · intro m hm
    exact List.all_eq_true.mpr fun x hx => decide_eq_true (hlt x hx m hm)
  · intro m hm hall
    exact lt_irrefl _ (of_decide_eq_true (List.all_eq_true.mp hall m hm))

variable [DecidableEq π] [DecidableEq κ]

/-- **Once the first unread messages are handed out, the others are unread.** -/
theorem unread_handOut_take (hs : s.Sorted S) (p : π) (l : κ) (n : ℕ) :
    (s.handOut S p l ((s.unread S p l).take n)).unread S p l = (s.unread S p l).drop n := by
  have hu : (s.unread S p l).Pairwise fun a b => S.key a < S.key b := hs.sublist List.filter_sublist
  rw [drop_eq_filter hu, unread, unread, log_handOut, List.filter_filter]
  refine List.filter_congr fun m hm => ?_
  rw [Bool.eq_iff_iff, Bool.and_eq_true, List.all_eq_true]
  constructor
  · intro hun
    have hbefore := isUnread_of_handOut hun
    refine ⟨fun x hx => decide_eq_true ?_, hbefore⟩
    obtain ⟨-, hseen, -⟩ := isUnread_iff.mp hun
    -- a message after the batch, as it is not in it
    have hmem : m ∈ (s.unread S p l).take n ++ (s.unread S p l).drop n := by
      rw [List.take_append_drop]
      exact mem_unread.mpr ⟨hm, hbefore⟩
    rcases List.mem_append.mp hmem with hin | hafter
    · have hnow : (s.handOut S p l ((s.unread S p l).take n)).seen l (S.key m) = true :=
        seen_handOut.mpr (.inr ⟨rfl, m, hin, rfl⟩)
      exact absurd (hseen.symm.trans hnow) (by simp)
    · rw [← List.take_append_drop n (s.unread S p l)] at hu
      exact (List.pairwise_append.mp hu).2.2 x hx m hafter
  · rintro ⟨hall, hbefore⟩
    obtain ⟨hsel, hseen, hbeyond⟩ := isUnread_iff.mp hbefore
    have hlt : ∀ x ∈ (s.unread S p l).take n, S.key x < S.key m :=
      fun x hx => of_decide_eq_true (hall x hx)
    refine isUnread_iff.mpr
      ⟨hsel, ?_, isBeyond_position_handOut.mpr ⟨hbeyond, fun _ x hx _ => hlt x hx⟩⟩
    rw [Bool.eq_false_iff]
    intro hs
    rcases seen_handOut.mp hs with hs | ⟨-, x, hx, heq⟩
    · rw [hseen] at hs
      cases hs
    · exact absurd heq (ne_of_lt (hlt x hx))

end AgentBus.Lib.Mailbox
