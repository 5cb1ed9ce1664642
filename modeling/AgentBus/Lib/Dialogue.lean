import Mathlib.Data.List.Basic

/-!
# Sessions of exchanges

What passes over a connection is one exchange after the other. Any exchange may
be broken off, and then it is the last; one that closes the session is the last
in any case.
-/

namespace AgentBus.Lib

/-- The exchanges after which a session goes on, and those that close it. -/
structure Dialogue (φ : Type*) where
  exchange : List φ → Prop
  closing : List φ → Prop

namespace Dialogue

variable {φ : Type*} {D : Dialogue φ} {fs rest : List φ}

/-- The beginning of an exchange. -/
def Begins (D : Dialogue φ) (rest : List φ) : Prop := ∃ x, (D.exchange x ∨ D.closing x) ∧ rest <+: x

/-- Complete exchanges, and then `rest`. -/
def Amid (D : Dialogue φ) (fs rest : List φ) : Prop :=
  ∃ done : List (List φ), (∀ x ∈ done, D.exchange x) ∧ fs = done.flatten ++ rest

/-- **A session**: complete exchanges, and the beginning of one more. -/
def Session (D : Dialogue φ) (fs : List φ) : Prop := ∃ rest, D.Amid fs rest ∧
    (rest = [] ∨ D.Begins rest)

theorem amid_nil (D : Dialogue φ) : D.Amid [] [] := ⟨[], by simp, rfl⟩

theorem Amid.append (h : D.Amid fs rest) (gs : List φ) : D.Amid (fs ++ gs) (rest ++ gs) := by
  obtain ⟨done, hdone, rfl⟩ := h
  exact ⟨done, hdone, List.append_assoc ..⟩

theorem Amid.finish (h : D.Amid fs rest) (hrest : D.exchange rest) : D.Amid fs [] := by
  obtain ⟨done, hdone, rfl⟩ := h
  refine ⟨done ++ [rest], fun x hx => ?_, by simp⟩
  rcases List.mem_append.mp hx with hx | hx
  · exact hdone x hx
  · rwa [List.mem_singleton.mp hx]

theorem begins_of_exchange {gs : List φ} (h : D.exchange (rest ++ gs)) : D.Begins rest :=
  ⟨_, .inl h, List.prefix_append ..⟩

theorem begins_of_closing {gs : List φ} (h : D.closing (rest ++ gs)) : D.Begins rest :=
  ⟨_, .inr h, List.prefix_append ..⟩

theorem begins_of_closed (h : D.closing rest) : D.Begins rest := ⟨rest, .inr h, List.prefix_refl _⟩

/-- A session that has been opened once at most is the beginning of one exchange. -/
theorem Session.single {opens : φ → Bool}
    (hopens : ∀ x, D.exchange x ∨ D.closing x → ∃ o tail, x = o :: tail ∧ opens o = true)
    (h : D.Session fs) (hone : fs.countP opens ≤ 1) : fs = [] ∨ D.Begins fs := by
  obtain ⟨rest, ⟨done, hdone, rfl⟩, hrest⟩ := h
  cases done with
  | nil => exact hrest
  | cons x done =>
    have hx := hdone x List.mem_cons_self
    obtain ⟨o, tail, rfl, ho⟩ := hopens x (.inl hx)
    simp only [List.flatten_cons, List.cons_append, List.append_assoc, List.countP_cons_of_pos ho,
      List.countP_append] at hone
    -- nothing follows the exchange, for it would be opened too
    have hdone' : done = [] := by
      cases done with
      | nil => rfl
      | cons y done =>
        obtain ⟨o', tail', rfl, ho'⟩ := hopens y (.inl (hdone y (by simp)))
        simp only [List.flatten_cons, List.cons_append, List.countP_cons_of_pos ho'] at hone
        omega
    have hrest' : rest = [] := by
      rcases hrest with rfl | ⟨y, hy, hprefix⟩
      · rfl
      · obtain ⟨o', tail', rfl, ho'⟩ := hopens y hy
        rcases List.prefix_cons_iff.mp hprefix with rfl | ⟨rest', rfl, -⟩
        · rfl
        · simp only [List.countP_cons_of_pos ho'] at hone
          omega
    subst hdone' hrest'
    rw [List.flatten_singleton, List.append_nil]
    exact .inr ⟨o :: tail, .inl hx, List.prefix_refl _⟩

end Dialogue

end AgentBus.Lib
