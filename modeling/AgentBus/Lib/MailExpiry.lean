import AgentBus.Lib.MailRuns

/-!
# Expiry by age

An expiry that drops nothing before something older removes a beginning of the
log. Seen keys are trimmed below the oldest survivor, so after such an expiry
they are keys of the log, except where nothing survives: then nothing is
trimmed, and the keys stay until the next expiry that leaves a survivor.
-/

namespace AgentBus.Lib

variable {α ι π κ : Type*} [LinearOrder ι]

namespace Mailbox

open Mail

/-- Nothing is dropped before something older. -/
def DropsOldest (S : Scheme α ι π) (s : Mailbox α ι π κ) (keep : α → Bool) : Prop :=
  ∀ a ∈ s.log, ∀ b ∈ s.log, S.key a ≤ S.key b → keep a = true → keep b = true

/-- Every seen key is one of the log's. -/
def SeenInLog (S : Scheme α ι π) (s : Mailbox α ι π κ) : Prop :=
  ∀ l k, s.seen l k = true → ∃ m ∈ s.log, S.key m = k

/-- Every seen key is one of the log's or lies below them all. -/
def SeenBelow (S : Scheme α ι π) (s : Mailbox α ι π κ) : Prop :=
  ∀ l k, s.seen l k = true → (∃ m ∈ s.log, S.key m = k) ∨ ∀ m ∈ s.log, k < S.key m

variable {S : Scheme α ι π} {s : Mailbox α ι π κ} {keep : α → Bool} {m m₀ : α}

/-! ## One expiry -/

omit [LinearOrder ι] in
theorem mem_of_oldestSurvivor (h₀ : s.oldestSurvivor keep = some m₀) :
    m₀ ∈ s.log ∧ keep m₀ = true :=
  List.mem_filter.mp (List.mem_of_head? (oldestSurvivor_eq_some h₀).2)

theorem lt_of_dropped (hd : DropsOldest S s keep) (h₀ : s.oldestSurvivor keep = some m₀)
    (hm : m ∈ s.log) (hdrop : keep m = false) : S.key m < S.key m₀ := by
  obtain ⟨hmem, hkeep⟩ := mem_of_oldestSurvivor h₀
  rw [← not_le]
  intro hle
  rw [hd m₀ hmem m hm hle hkeep] at hdrop
  cases hdrop

omit [LinearOrder ι] in
theorem oldestSurvivor_eq_none_iff (hm : m ∈ s.log) (hdrop : keep m = false) :
    s.oldestSurvivor keep = none ↔ ∀ a ∈ s.log, keep a = false := by
  have hlt : (s.log.filter keep).length < s.log.length :=
    List.length_filter_lt_length_iff_exists.mpr ⟨m, hm, by simp [hdrop]⟩
  rw [oldestSurvivor, if_pos hlt, List.head?_eq_none_iff, List.filter_eq_nil_iff]
  simp

theorem seen_expire_of_some (h₀ : s.oldestSurvivor keep = some m₀) (l : κ) (k : ι) :
    (s.expire S keep).seen l k = (s.seen l k && decide (S.key m₀ ≤ k)) := by
  simp only [expire, h₀]

theorem seen_expire_of_none (h₀ : s.oldestSurvivor keep = none) (l : κ) (k : ι) :
    (s.expire S keep).seen l k = s.seen l k := by
  simp only [expire, h₀]

theorem seenInLog_expire (hb : SeenBelow S s) (hd : DropsOldest S s keep)
    (h₀ : s.oldestSurvivor keep = some m₀) : SeenInLog S (s.expire S keep) := by
  intro l k hseen
  rw [seen_expire_of_some h₀, Bool.and_eq_true, decide_eq_true_eq] at hseen
  obtain ⟨hmem, hkeep⟩ := mem_of_oldestSurvivor h₀
  rcases hb l k hseen.1 with ⟨m, hm, rfl⟩ | hbelow
  · exact ⟨m, by rw [log_expire]; exact List.mem_filter.mpr ⟨hm, hd m₀ hmem m hm hseen.2 hkeep⟩,
      rfl⟩
  · exact absurd (hbelow m₀ hmem) (not_lt.mpr hseen.2)

/-- **After an expiry that drops something the seen keys are the log's exactly if something survives
or nothing was seen.** -/
theorem seenInLog_expire_iff (hb : SeenBelow S s) (hd : DropsOldest S s keep) (hm : m ∈ s.log)
    (hdrop : keep m = false) :
    SeenInLog S (s.expire S keep) ↔ (∃ a ∈ s.log, keep a = true) ∨ ∀ l k, s.seen l k = false := by
  cases h₀ : s.oldestSurvivor keep with
  | some m₀ => exact iff_of_true (seenInLog_expire hb hd h₀) (.inl ⟨m₀, mem_of_oldestSurvivor h₀⟩)
  | none =>
    have hall := (oldestSurvivor_eq_none_iff hm hdrop).mp h₀
    constructor
    · refine fun hin => .inr fun l k => Bool.eq_false_iff.mpr fun hseen => ?_
      obtain ⟨a, ha, -⟩ := hin l k (by rwa [seen_expire_of_none h₀])
      rw [log_expire, List.mem_filter] at ha
      exact absurd ((hall a ha.1).symm.trans ha.2) (by decide)
    · rintro (⟨a, ha, hkeep⟩ | hnone) l k hseen
      · exact absurd ((hall a ha).symm.trans hkeep) (by decide)
      · rw [seen_expire_of_none h₀, hnone l k] at hseen
        cases hseen

theorem SeenBelow.expire (hb : SeenBelow S s) (hd : DropsOldest S s keep) :
    SeenBelow S (s.expire S keep) := by
  cases h₀ : s.oldestSurvivor keep with
  | some m₀ => exact fun l k hseen => .inl (seenInLog_expire hb hd h₀ l k hseen)
  | none =>
    intro l k hseen
    rw [seen_expire_of_none h₀] at hseen
    rw [log_expire]
    by_cases hall : ∀ a ∈ s.log, keep a = true
    · rw [List.filter_eq_self.mpr hall]
      exact hb l k hseen
    · push Not at hall
      obtain ⟨a, ha, hdrop⟩ := hall
      have hnone := (oldestSurvivor_eq_none_iff ha (Bool.eq_false_iff.mpr hdrop)).mp h₀
      refine .inr fun b hbmem => ?_
      obtain ⟨hbmem, hkeep⟩ := List.mem_filter.mp hbmem
      exact absurd ((hnone b hbmem).symm.trans hkeep) (by decide)

/-! ## Runs -/

variable [DecidableEq π] [DecidableEq κ] {es : List (Mail α π κ)}

/-- Expiries by age, and every other event. -/
def ExpiresByAge (S : Scheme α ι π) (s : Mailbox α ι π κ) : Mail α π κ → Prop
  | .expire keep => DropsOldest S s keep
  | _ => True

theorem seen_handOut_cases {p : π} {l l' : κ} {limit : ℕ} {k : ι}
    (h : (s.handOut S p l ((s.unread S p l).take limit)).seen l' k = true) :
    s.seen l' k = true ∨ ∃ m ∈ s.log, S.key m = k := by
  rcases seen_handOut.mp h with h | ⟨-, x, hx, rfl⟩
  · exact .inl h
  · exact .inr ⟨x, (mem_unread.mp (List.mem_of_mem_take hx)).1, rfl⟩

/-- **Seen keys never lie between the keys of the log.** -/
theorem seenBelow_of_exec (h : Exec ((system S).restrict (ExpiresByAge S)) es s) :
    SeenBelow S s := by
  refine h.invariant (I := fun _ s => SeenBelow S s) (fun s hs => ?_)
    fun es s e s' hx ih hstep => ?_
  · rw [show s = empty from hs]
    exact nofun
  · obtain ⟨hok, hen, rfl⟩ := hstep
    cases e with
    | post m =>
      intro l k hseen
      rcases ih l k hseen with ⟨a, ha, hk⟩ | hbelow
      · exact .inl ⟨a, List.mem_append_left _ ha, hk⟩
      · refine .inr fun a ha => ?_
        rcases List.mem_append.mp ha with ha | ha
        · exact hbelow a ha
        · -- a seen key was posted, and the new one is above it
          have hr := recorded_of_exec hx.of_restrict
          obtain ⟨d, hd, -, rfl⟩ := hr.delivered l k hseen
          rw [List.mem_singleton.mp ha]
          exact hen _ (hr.posted d hd)
    | handOut p l limit batch =>
      obtain rfl : batch = _ := hen
      intro l' k hseen
      rcases seen_handOut_cases hseen with hseen | hmem
      · exact ih l' k hseen
      · exact .inl hmem
    | expire keep => exact ih.expire hok
    | idle => exact ih

/-- Expiries by age that leave a survivor, drop nothing or meet nothing seen, and every other
event. -/
def TrimsSeen (S : Scheme α ι π) (s : Mailbox α ι π κ) : Mail α π κ → Prop
  | .expire keep => DropsOldest S s keep ∧ ((∃ a ∈ s.log, keep a = true) ∨ s.log = [] ∨
      ∀ l k, s.seen l k = false)
  | _ => True

/-- **Where every expiry trims what was seen, the seen keys are the log's throughout.** -/
theorem seenInLog_of_exec (h : Exec ((system S).restrict (TrimsSeen S)) es s) : SeenInLog S s := by
  refine h.invariant (I := fun _ s => SeenInLog S s) (fun s hs => ?_)
    fun es s e s' hx ih hstep => ?_
  · rw [show s = empty from hs]
    exact nofun
  · obtain ⟨hok, hen, rfl⟩ := hstep
    cases e with
    | post m =>
      intro l k hseen
      obtain ⟨a, ha, hk⟩ := ih l k hseen
      exact ⟨a, List.mem_append_left _ ha, hk⟩
    | handOut p l limit batch =>
      obtain rfl : batch = _ := hen
      intro l' k hseen
      rcases seen_handOut_cases hseen with hseen | hmem
      · exact ih l' k hseen
      · exact hmem
    | expire keep =>
      obtain ⟨hd, hkept⟩ := hok
      by_cases hall : ∀ a ∈ s.log, keep a = true
      · have hnone : s.oldestSurvivor keep = none := by
          rw [oldestSurvivor, List.filter_eq_self.mpr hall, if_neg (lt_irrefl _)]
        intro l k hseen
        rw [apply, seen_expire_of_none hnone] at hseen
        rw [apply, log_expire, List.filter_eq_self.mpr hall]
        exact ih l k hseen
      · push Not at hall
        obtain ⟨a, ha, hdrop⟩ := hall
        have hb : SeenBelow S s := fun l k hseen => .inl (ih l k hseen)
        refine (seenInLog_expire_iff hb hd ha (Bool.eq_false_iff.mpr hdrop)).mpr ?_
        rcases hkept with hkept | hnil | hnone
        · exact .inl hkept
        · rw [hnil] at ha
          cases ha
        · exact .inr hnone
    | idle => exact ih

end Mailbox

end AgentBus.Lib
