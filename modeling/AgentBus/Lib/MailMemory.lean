import AgentBus.Lib.MailRuns

/-!
# Records that outlive their mailbox

A mailbox's records may be stored, lost in part, and read back. `Remembers`
says of any state of them, in memory or in a file, that they are enough never
to repeat a delivery: whatever is handed out by them next `Follows` every
delivery made so far. It survives hand-outs, the loss of messages, new messages
with fresh keys, and the trimming of records below the oldest message.
-/

namespace AgentBus.Lib

variable {α ι π κ : Type*} [LinearOrder ι]

/-- A later delivery may come after an earlier one: a label is not handed the same key again, and
both under a pattern and to a label messages of its kind come in the order of their keys. -/
structure Follows (S : Scheme α ι π) (d d' : Delivery α π κ) : Prop where
  label : d.label = d'.label → S.key d.message ≠ S.key d'.message
  pattern : d.pattern = d'.pattern → S.shared d.message = false → S.shared d'.message = false →
    S.key d.message < S.key d'.message
  shared : d.label = d'.label → S.shared d.message = true → S.shared d'.message = true →
    S.key d.message < S.key d'.message

namespace Mailbox

/-- The records know of every delivery that can still be repeated: `held` are the keys of the
messages that there still are. -/
structure Remembers (S : Scheme α ι π) (held : ι → Prop) (ds : List (Delivery α π κ))
    (s : Mailbox α ι π κ) : Prop where
  seen : ∀ d ∈ ds, s.seen d.label (S.key d.message) = true ∨ ¬ held (S.key d.message)
  claimed : ∀ d ∈ ds, S.shared d.message = false →
    isBeyond (s.claimed d.pattern) (S.key d.message) = false
  heard : ∀ d ∈ ds, S.shared d.message = true → isBeyond (s.heard d.label) (S.key d.message) = false

variable {S : Scheme α ι π} {held held' : ι → Prop} {ds : List (Delivery α π κ)}
  {s : Mailbox α ι π κ} {p : π} {l : κ} {m : α} {batch : List α}

theorem remembers_nil (S : Scheme α ι π) (held : ι → Prop) (s : Mailbox α ι π κ) :
    Remembers S held [] s := by
  constructor <;> intro d hd <;> cases hd

theorem Remembers.mono (h : Remembers S held ds s)
    (hheld : ∀ d ∈ ds, held' (S.key d.message) → held (S.key d.message)) : Remembers S held' ds s :=
  ⟨fun d hd => (h.seen d hd).imp_right fun hnot hnow => hnot (hheld d hd hnow), h.claimed, h.heard⟩

/-- **What is unread follows every delivery made.** -/
theorem Remembers.follows (h : Remembers S held ds s) (hm : held (S.key m))
    (hun : s.isUnread S p l m = true) : ∀ d ∈ ds, Follows S d ⟨p, l, m⟩ := by
  obtain ⟨-, hseen, hbeyond⟩ := isUnread_iff.mp hun
  -- a position that has passed one key and not another lies between them
  have hbetween : ∀ {pos : Option ι} {k : ι}, isBeyond pos k = false →
      isBeyond pos (S.key m) = true → k < S.key m := by
    intro pos k hk hkm
    rw [← not_le]
    intro hle
    rw [isBeyond_of_le hle hkm] at hk
    cases hk
  intro d hd
  constructor
  · intro (hl : d.label = l) (hkey : S.key d.message = S.key m)
    rcases h.seen d hd with hs | hs
    · rw [hl, hkey, hseen] at hs
      cases hs
    · exact hs (hkey ▸ hm)
  · intro (hp : d.pattern = p) hd' (hm' : S.shared m = false)
    rw [position, hm', if_neg Bool.false_ne_true, ← hp] at hbeyond
    exact hbetween (h.claimed d hd hd') hbeyond
  · intro (hl : d.label = l) hd' (hm' : S.shared m = true)
    rw [position, hm', if_pos rfl, ← hl] at hbeyond
    exact hbetween (h.heard d hd hd') hbeyond

theorem pairwise_follows (h : batch.Pairwise fun a b => S.key a < S.key b) (p : π) (l : κ) :
    (batch.map fun m => (⟨p, l, m⟩ : Delivery α π κ)).Pairwise (Follows S) := by
  rw [List.pairwise_map]
  exact h.imp fun hlt => ⟨fun _ => ne_of_lt hlt, fun _ _ _ => hlt, fun _ _ _ => hlt⟩

/-- **A batch of unread messages goes on with the deliveries in order.** -/
theorem Remembers.append (h : Remembers S held ds s) (hds : ds.Pairwise (Follows S))
    (hbatch : batch.Pairwise fun a b => S.key a < S.key b)
    (hun : ∀ m ∈ batch, held (S.key m) ∧ s.isUnread S p l m = true) :
    (ds ++ batch.map fun m => (⟨p, l, m⟩ : Delivery α π κ)).Pairwise (Follows S) := by
  refine List.pairwise_append.mpr ⟨hds, pairwise_follows hbatch p l, fun d hd d' hd' => ?_⟩
  obtain ⟨m, hm, rfl⟩ := List.mem_map.mp hd'
  exact h.follows (hun m hm).1 (hun m hm).2 d hd

section HandOut

variable [DecidableEq π] [DecidableEq κ]

theorem Remembers.handOut (h : Remembers S held ds s) (p : π) (l : κ) (batch : List α) :
    Remembers S held ds (s.handOut S p l batch) := by
  have hpos : ∀ d : Delivery α π κ, isBeyond (s.position S d.pattern d.label d.message)
      (S.key d.message) = false →
      isBeyond ((s.handOut S p l batch).position S d.pattern d.label d.message)
        (S.key d.message) = false := by
    intro d hd
    rw [Bool.eq_false_iff] at hd ⊢
    exact fun hbeyond => hd (isBeyond_position_handOut.mp hbeyond).1
  refine ⟨fun d hd => (h.seen d hd).imp_left fun hs => seen_handOut.mpr (.inl hs),
    fun d hd hm => ?_, fun d hd hm => ?_⟩
  · have := hpos d
    simp only [position, hm, Bool.false_eq_true, if_false] at this
    exact this (h.claimed d hd hm)
  · have := hpos d
    simp only [position, hm, if_true] at this
    exact this (h.heard d hd hm)

/-- **They know of the batch that was handed out.** -/
theorem Remembers.delivered (h : Remembers S held ds s) (p : π) (l : κ) (batch : List α) :
    Remembers S held (ds ++ batch.map fun m => ⟨p, l, m⟩) (s.handOut S p l batch) := by
  have hold := h.handOut p l batch
  have hpos : ∀ m ∈ batch, isBeyond ((s.handOut S p l batch).position S p l m)
      (S.key m) = false := by
    intro m hm
    rw [Bool.eq_false_iff]
    intro hbeyond
    exact lt_irrefl _ ((isBeyond_position_handOut.mp hbeyond).2 (by split <;> rfl) m hm rfl)
  have hsplit : ∀ d ∈ ds ++ batch.map (fun m => (⟨p, l, m⟩ : Delivery α π κ)),
      d ∈ ds ∨ ∃ m ∈ batch, (⟨p, l, m⟩ : Delivery α π κ) = d := fun d hd =>
    (List.mem_append.mp hd).imp_right List.mem_map.mp
  refine ⟨fun d hd => ?_, fun d hd hns => ?_, fun d hd hsh => ?_⟩
  · rcases hsplit d hd with hd | ⟨m, hm, rfl⟩
    · exact hold.seen d hd
    · exact .inl (seen_handOut.mpr (.inr ⟨rfl, m, hm, rfl⟩))
  · rcases hsplit d hd with hd | ⟨m, hm, rfl⟩
    · exact hold.claimed d hd hns
    · have := hpos m hm
      rwa [position, hns, if_neg Bool.false_ne_true] at this
  · rcases hsplit d hd with hd | ⟨m, hm, rfl⟩
    · exact hold.heard d hd hsh
    · have := hpos m hm
      rwa [position, hsh, if_pos rfl] at this

end HandOut

/-- **Records below every message that is left may be dropped, and positions dragged up to it.** -/
theorem Remembers.trim (h : Remembers S held ds s) {bound : ι} {s' : Mailbox α ι π κ}
    (hheld : ∀ k, held' k → held k ∧ bound ≤ k)
    (hclaimed : ∀ p, s'.claimed p = (s.claimed p).map (snap bound))
    (hheard : ∀ l, s'.heard l = (s.heard l).map (snap bound))
    (hseen : ∀ l k, s'.seen l k = (s.seen l k && decide (bound ≤ k))) :
    Remembers S held' ds s' := by
  refine ⟨fun d hd => ?_, fun d hd hm => ?_, fun d hd hm => ?_⟩
  · by_cases hnow : held' (S.key d.message)
    · obtain ⟨hbefore, hle⟩ := hheld _ hnow
      rcases h.seen d hd with hs | hs
      · exact .inl (by rw [hseen, hs, decide_eq_true hle, Bool.true_and])
      · exact absurd hbefore hs
    · exact .inr hnow
  · rw [hclaimed, isBeyond_snap, h.claimed d hd hm, Bool.false_and]
  · rw [hheard, isBeyond_snap, h.heard d hd hm, Bool.false_and]

end Mailbox

end AgentBus.Lib
