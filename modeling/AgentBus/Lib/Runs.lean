import Mathlib.Data.List.Induction

/-!
# Runs of an event system

A `System` has states and events; whether a step is possible may depend on the
events that happened before it. `Exec M es s`: from some initial state, the
events `es` happened in this order and led to `s`.

`Exec.invariant` is the induction every safety proof uses, for predicates over
the history as well as the state. `System.restrict` keeps the steps that meet
a condition; `Exec.restrict_or` splits a run into one whose steps all meet it
and one that once broke it and has carried the consequence ever since. A step
function's runs can be replayed.
-/

namespace AgentBus.Lib

variable {σ ε : Type*}

structure System (σ ε : Type*) where
  init : σ → Prop
  /-- `step es s e s'`: after the events `es`, the event `e` leads from `s` to `s'`. -/
  step : List ε → σ → ε → σ → Prop

inductive Exec (M : System σ ε) : List ε → σ → Prop where
  | init {s : σ} : M.init s → Exec M [] s
  | step {es : List ε} {s s' : σ} {e : ε} : Exec M es s → M.step es s e s' → Exec M (es ++ [e]) s'

namespace Exec

variable {M : System σ ε}

/-- **Invariants of history and state.** -/
theorem invariant {I : List ε → σ → Prop} (h0 : ∀ s, M.init s → I [] s)
    (hstep : ∀ es s e s', Exec M es s → I es s → M.step es s e s' → I (es ++ [e]) s')
    {es : List ε} {s : σ} (h : Exec M es s) : I es s := by
  induction h with
  | init hi => exact h0 _ hi
  | step hx hs ih => exact hstep _ _ _ _ hx ih hs

/-- A run of at least one event ends with a step. -/
theorem last_step {es : List ε} {e : ε} {s' : σ} (h : Exec M (es ++ [e]) s') :
    ∃ s, Exec M es s ∧ M.step es s e s' := by
  generalize hx : es ++ [e] = xs at h
  cases h with
  | init _ => simp at hx
  | @step es' s _ e' hx' hs =>
    obtain ⟨rfl, he⟩ := List.append_inj' hx rfl
    cases he
    exact ⟨s, hx', hs⟩

end Exec

/-- The system whose steps also meet `ok`. -/
def System.restrict (M : System σ ε) (ok : σ → ε → Prop) : System σ ε where
  init := M.init
  step es s e s' := ok s e ∧ M.step es s e s'

namespace Exec

variable {M : System σ ε} {ok : σ → ε → Prop}

theorem of_restrict {es : List ε} {s : σ} (h : Exec (M.restrict ok) es s) : Exec M es s := by
  induction h with
  | init hi => exact .init hi
  | step _ hs ih => exact .step ih hs.2

theorem to_restrict (hok : ∀ es s e s', M.step es s e s' → ok s e) {es : List ε} {s : σ}
    (h : Exec M es s) : Exec (M.restrict ok) es s := by
  induction h with
  | init hi => exact .init hi
  | step _ hs ih => exact .step ih ⟨hok _ _ _ _ hs, hs⟩

theorem restrict_mono {ok' : σ → ε → Prop} (himp : ∀ s e, ok s e → ok' s e) {es : List ε} {s : σ}
    (h : Exec (M.restrict ok) es s) : Exec (M.restrict ok') es s := by
  induction h with
  | init hi => exact .init hi
  | step _ hs ih => exact .step ih ⟨himp _ _ hs.1, hs.2⟩

/-- Conditions that agree wherever a run gets restrict it in the same way. -/
theorem restrict_congr {ok' : σ → ε → Prop}
    (hiff : ∀ es s e s', Exec M es s → M.step es s e s' → (ok s e ↔ ok' s e))
    {es : List ε} {s : σ} : Exec (M.restrict ok) es s ↔ Exec (M.restrict ok') es s := by
  constructor
  · intro h
    induction h with
    | init hi => exact .init hi
    | step hx hs ih => exact .step ih ⟨(hiff _ _ _ _ hx.of_restrict hs.2).mp hs.1, hs.2⟩
  · intro h
    induction h with
    | init hi => exact .init hi
    | step hx hs ih => exact .step ih ⟨(hiff _ _ _ _ hx.of_restrict hs.2).mpr hs.1, hs.2⟩

/-- **A run meets the condition throughout, or carries what breaking it left behind.** -/
theorem restrict_or {B : List ε → σ → Prop}
    (hbreak : ∀ es s e s', Exec M es s → M.step es s e s' → ¬ ok s e → B (es ++ [e]) s')
    (hkeep : ∀ es s e s', Exec M es s → B es s → M.step es s e s' → B (es ++ [e]) s')
    {es : List ε} {s : σ} (h : Exec M es s) : Exec (M.restrict ok) es s ∨ B es s := by
  induction h with
  | init hi => exact .inl (.init hi)
  | @step es s s' e hx hs ih =>
    rcases ih with hr | hb
    · by_cases hok : ok s e
      · exact .inl (.step hr ⟨hok, hs⟩)
      · exact .inr (hbreak _ _ _ _ hx hs hok)
    · exact .inr (hkeep _ _ _ _ hx hb hs)

end Exec

/-! ## Later runs and observers -/

/-- The runs that go on from `s`, where `es` led. -/
def System.onward (M : System σ ε) (es : List ε) (s : σ) : System σ ε where
  init s' := s' = s
  step fs := M.step (es ++ fs)

/-- The same system with what an observer sees of each step. -/
def System.watched {o : Type*} (M : System σ ε) (look : σ → ε → σ → o) : System σ (ε × o) where
  init := M.init
  step es s e s' := M.step (es.map Prod.fst) s e.1 s' ∧ e.2 = look s e.1 s'

namespace Exec

variable {M : System σ ε}

theorem onward {es fs : List ε} {s s' : σ} (h : Exec M es s) (h' : Exec (M.onward es s) fs s') :
    Exec M (es ++ fs) s' := by
  induction h' with
  | init hi => rwa [List.append_nil, show _ = s from hi]
  | step _ hs ih =>
    rw [← List.append_assoc]
    exact ih.step hs

theorem cons {es fs : List ε} {e : ε} {s s₁ s' : σ} (hs : M.step es s e s₁)
    (h : Exec (M.onward (es ++ [e]) s₁) fs s') : Exec (M.onward es s) (e :: fs) s' := by
  induction h with
  | init hi =>
    rw [show _ = s₁ from hi]
    have hfirst : M.step (es ++ []) s e s₁ := by rwa [List.append_nil]
    exact .step (.init rfl : Exec (M.onward es s) [] s) hfirst
  | @step fs s₂ s' f _ hf ih =>
    have hnext : M.step (es ++ [e] ++ fs) s₂ f s' := hf
    rw [List.append_assoc] at hnext
    exact ih.step hnext

/-- A run passes through a state after each of its events. -/
theorem exists_onward {es fs : List ε} {s' : σ} (h : Exec M (es ++ fs) s') :
    ∃ s, Exec M es s ∧ Exec (M.onward es s) fs s' := by
  induction fs using List.reverseRecOn generalizing s' with
  | nil => exact ⟨s', by rwa [List.append_nil] at h, .init rfl⟩
  | append_singleton fs e ih =>
    rw [← List.append_assoc] at h
    obtain ⟨s₁, hrun, hstep⟩ := h.last_step
    obtain ⟨s, hs, honward⟩ := ih hrun
    exact ⟨s, hs, honward.step hstep⟩

/-- Watching changes no run. -/
theorem of_watched {o : Type*} {look : σ → ε → σ → o} {os : List (ε × o)} {s : σ}
    (h : Exec (M.watched look) os s) : Exec M (os.map Prod.fst) s := by
  induction h with
  | init hi => exact .init hi
  | step _ hs ih =>
    rw [List.map_append]
    exact ih.step hs.1

theorem exists_watched {o : Type*} (look : σ → ε → σ → o) {es : List ε} {s : σ} (h : Exec M es s) :
    ∃ os : List (ε × o), Exec (M.watched look) os s ∧ os.map Prod.fst = es := by
  induction h with
  | init hi => exact ⟨[], .init hi, rfl⟩
  | @step es s s' e _ hs ih =>
    obtain ⟨os, hx, rfl⟩ := ih
    have hnext : (M.watched look).step os s (e, look s e s') s' := ⟨hs, rfl⟩
    exact ⟨_, hx.step hnext, by simp⟩

end Exec

/-! ## Executable systems -/

/-- Events one after the other, as long as each is possible and meets the condition. -/
def replay (next : σ → ε → Option σ) (cond : σ → ε → Bool) : σ → List ε → Option σ
  | s, [] => some s
  | s, e :: es => if cond s e then (next s e).bind fun s => replay next cond s es else none

/-- What an observer sees of a replay, up to where it gets stuck. -/
def watchReplay {o : Type*} (next : σ → ε → Option σ) (look : σ → ε → σ → o) :
    σ → List ε → List (ε × o)
  | _, [] => []
  | s, e :: es => (next s e).elim [] fun s' => (e, look s e s') :: watchReplay next look s' es

namespace Exec

variable {M : System σ ε} {next : σ → ε → Option σ} {cond : σ → ε → Bool}

theorem append_replay (hnext : ∀ es s e s', next s e = some s' → M.step es s e s') {es ds : List ε}
    {s s' : σ} (h : Exec (M.restrict fun s e => cond s e = true) es s)
    (hr : replay next cond s ds = some s') :
    Exec (M.restrict fun s e => cond s e = true) (es ++ ds) s' := by
  induction ds generalizing es s with
  | nil =>
    obtain rfl := Option.some.inj hr
    rwa [List.append_nil]
  | cons e ds ih =>
    rw [replay] at hr
    split at hr
    · next hcond =>
      obtain ⟨s₁, hs, hr⟩ := Option.bind_eq_some_iff.mp hr
      rw [List.append_cons]
      exact ih (h.step ⟨hcond, hnext _ _ _ _ hs⟩) hr
    · cases hr

theorem exists_of_replay (cond : σ → ε → Bool) (es : List ε) (P : σ → Bool)
    (hnext : ∀ es s e s', next s e = some s' → M.step es s e s') {s : σ} (hinit : M.init s)
    (h : (replay next cond s es).any P = true) :
    ∃ s', Exec (M.restrict fun s e => cond s e = true) es s' ∧ P s' = true := by
  obtain ⟨s', hr, hP⟩ := (Option.any_eq_true _ _).mp h
  exact ⟨s', append_replay hnext (.init hinit) hr, hP⟩

theorem append_watchReplay {o : Type*} (look : σ → ε → σ → o)
    (hnext : ∀ es s e s', next s e = some s' → M.step es s e s')
    (es : List ε) {os : List (ε × o)} {s : σ} (h : Exec (M.watched look) os s) :
    ∃ s', Exec (M.watched look) (os ++ watchReplay next look s es) s' := by
  induction es generalizing os s with
  | nil => exact ⟨s, by rwa [watchReplay, List.append_nil]⟩
  | cons e es ih =>
    rw [watchReplay]
    cases hs : next s e with
    | none => exact ⟨s, by rwa [Option.elim_none, List.append_nil]⟩
    | some s' =>
      have hstep : (M.watched look).step os s (e, look s e s') s' := ⟨hnext _ _ _ _ hs, rfl⟩
      rw [Option.elim_some, List.append_cons]
      exact ih (h.step hstep)

end Exec

end AgentBus.Lib
