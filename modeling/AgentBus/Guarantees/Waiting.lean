import AgentBus.Cli.Wait

/-!
# A wait ends

Each failed attempt takes a second at least, so the rounds of a wait are bounded
by its time limit, however often the daemon goes away.
-/

namespace AgentBus.Cli

open Lib

variable {F : Formats} {hF : F.Faithful} {out : Output} {pattern : String} {asId : Option String}
  {deadline : Nat}

/-- The clock goes on by a second at least from one attempt to the next. -/
def Slept (as : List Attempt) : Prop := as.IsChain fun a b => a.now + nanosPerSec ≤ b.now

variable (F hF out pattern asId deadline) in
/-- How a wait ends with the attempt `a`, after the others failed. -/
inductive Ends (tried : List Attempt) (a : Attempt) : Outcome → Prop where
  | answered {r : Protocol.Response} : (tried = [] ∨ a.now < deadline) →
      a.ask F hF deadline = .ok r → Ends tried a (concludeAttempt F out pattern asId deadline a r)
  | gaveUp {b : Attempt} {e : Error} : tried.getLast? = some b → b.ask F hF deadline = .error e →
      deadline ≤ a.now → Ends tried a (.failed e)

theorem Slept.le_now {as : List Attempt} (h : Slept as) {start : Nat}
    (hstart : ∀ a ∈ as.head?, start ≤ a.now) {k : Nat} (hk : k < as.length) :
    start + k * nanosPerSec ≤ as[k].now := by
  induction as generalizing start k with
  | nil => exact absurd hk (Nat.not_lt_zero k)
  | cons a as ih =>
    have ha := hstart a rfl
    cases k with
    | zero => simpa using ha
    | succ k =>
      cases as with
      | nil => simp at hk
      | cons b as =>
        obtain ⟨hab, htail⟩ := List.isChain_cons_cons.mp h
        have hb : ∀ c ∈ (b :: as).head?, start + nanosPerSec ≤ c.now := by
          intro c hc
          obtain rfl : b = c := by simpa using hc
          omega
        have hle := ih htail hb (Nat.lt_of_succ_lt_succ hk)
        rw [List.getElem_cons_succ]
        have hmul : (k + 1) * nanosPerSec = nanosPerSec +
          k * nanosPerSec := by rw [Nat.succ_mul, Nat.add_comm]
        omega

variable (out pattern asId) in
/-- Once an attempt has failed, the loop ends where the time is over, or before. -/
theorem exists_ends {as prev : List Attempt} {b : Attempt} {e : Error}
    (hprev : prev.getLast? = some b) (hb : b.ask F hF deadline = .error e)
    (hover : ∃ c ∈ as, deadline ≤ c.now) :
    ∃ tried a rest o, as = tried ++ a :: rest ∧
      waitFrom F hF out pattern asId deadline (some e) as = some o ∧
      (∀ c ∈ tried, c.now < deadline ∧ ∃ e, c.ask F hF deadline = .error e) ∧
        Ends F hF out pattern asId deadline (prev ++ tried) a o := by
  induction as generalizing prev b e with
  | nil =>
    obtain ⟨c, hc, -⟩ := hover
    cases hc
  | cons c as ih =>
    by_cases hc : deadline ≤ c.now
    · refine ⟨[], c, as, _, rfl, waitFrom_over hc, List.forall_mem_nil _, ?_⟩
      rw [List.append_nil]
      exact .gaveUp hprev hb hc
    · rw [Nat.not_le] at hc
      rw [waitFrom_asked (.inr hc)]
      cases hask : c.ask F hF deadline with
      | ok r => exact ⟨[], c, as, _, rfl, rfl, List.forall_mem_nil _, .answered (.inr hc) hask⟩
      | error e' =>
        have hover' : ∃ d ∈ as, deadline ≤ d.now := by
          obtain ⟨d, hd, hle⟩ := hover
          rcases List.mem_cons.mp hd with rfl | hd
          · omega
          · exact ⟨d, hd, hle⟩
        obtain ⟨tried, a, rest, o, rfl, ho, htried, hends⟩ := ih List.getLast?_concat hask hover'
        refine ⟨c :: tried, a, rest, o, rfl, ho, ?_, by rwa [List.append_cons]⟩
        intro d hd
        rcases List.mem_cons.mp hd with rfl | hd
        · exact ⟨hc, e', hask⟩
        · exact htried d hd

/-- **A wait ends** with the first attempt that is answered, or with the last error once its time is
over. It makes one attempt in any case, and never more than one for each second of its time
limit. -/
theorem wait_ends {timeoutSecs : Option Nat} {start : Nat} {as : List Attempt} (hslept : Slept as)
    (hstart : ∀ a ∈ as.head?, start ≤ a.now)
    (henough : max (budgetSecs timeoutSecs) 1 < as.length) :
    ∃ tried a rest o, as = tried ++ a :: rest ∧
      wait F hF out pattern asId timeoutSecs start as = some o ∧
      tried.length ≤ max (budgetSecs timeoutSecs) 1 ∧
      (∀ b ∈ tried, ∃ e, b.ask F hF (Cli.deadline timeoutSecs start) = .error e) ∧
        (∀ b ∈ tried.tail, b.now < Cli.deadline timeoutSecs start) ∧
      Ends F hF out pattern asId (Cli.deadline timeoutSecs start) tried a o := by
  have hdeadline : Cli.deadline timeoutSecs start ≤ as[max (budgetSecs timeoutSecs) 1].now :=
    le_trans (Nat.add_le_add_left (Nat.mul_le_mul_right _ (le_max_left ..)) _)
      (hslept.le_now hstart henough)
  obtain ⟨k, hk⟩ : ∃ k, max (budgetSecs timeoutSecs) 1 = k + 1 :=
    Nat.exists_eq_add_of_le' (le_max_right ..)
  cases as with
  | nil => exact absurd henough (Nat.not_lt_zero _)
  | cons c as =>
    simp only [hk, List.getElem_cons_succ] at hdeadline ⊢
    rw [wait, waitFrom_asked (.inl rfl)]
    cases hask : c.ask F hF (Cli.deadline timeoutSecs start) with
    | ok r =>
        exact ⟨[], c, as, _, rfl, rfl, Nat.zero_le _, List.forall_mem_nil _, List.forall_mem_nil _,
        .answered (.inl rfl) hask⟩
    | error e =>
      have hlast : [c].getLast? = some c := rfl
      obtain ⟨tried, a, rest, o, rfl, ho, htried, hends⟩ :=
        exists_ends out pattern asId hlast hask ⟨_, List.getElem_mem _, hdeadline⟩
      refine ⟨c :: tried, a, rest, o, rfl, ho, ?_, ?_, fun b hb => (htried b hb).1, hends⟩
      · -- the time is over after `k` more attempts
        by_contra hlen
        have hlt : k < tried.length := by simpa using hlen
        rw [List.getElem_append_left hlt] at hdeadline
        exact absurd (htried _ (List.getElem_mem hlt)).1 (Nat.not_lt.mpr hdeadline)
      · intro b hb
        rcases List.mem_cons.mp hb with rfl | hb
        · exact ⟨e, hask⟩
        · exact (htried b hb).2

/-- The daemon cannot be started, and then it closes the connection again and again. -/
theorem wait_ends_closed :
    let as : List Attempt := ⟨0, fun _ => .unavailable⟩ ::
      (List.range 3).map fun k => ⟨(k + 1) * nanosPerSec, fun _ => .connected []⟩
    let pretty := Formats.reference.toString
    ∃ tried a rest o, as = tried ++ a :: rest ∧
      wait .reference Formats.reference_faithful ⟨false, pretty, ""⟩ "iot_base/*" none
        (some 3) 0 as = some o ∧
      tried.length ≤ 3 ∧
      (∀ b ∈ tried, ∃ e, b.ask .reference Formats.reference_faithful
        (Cli.deadline (some 3) 0) = .error e) ∧
      (∀ b ∈ tried.tail, b.now < Cli.deadline (some 3) 0) ∧
      Ends .reference Formats.reference_faithful ⟨false, pretty, ""⟩ "iot_base/*" none
        (Cli.deadline (some 3) 0) tried a o := by
  intro as pretty
  have hslept : Slept as := by unfold Slept; decide
  have hstart : ∀ a ∈ as.head?, 0 ≤ a.now := fun a _ => Nat.zero_le a.now
  exact wait_ends hslept hstart (by decide : max (budgetSecs (some 3)) 1 < 4)

end AgentBus.Cli
