import Mathlib.Data.Set.Basic

/-!
# Footprints and non-interference

`look s k` is the content of cell `k` in state `s`. An operation is `Local` to
a set of cells if its result and what it leaves in them depend on these cells
alone, and it leaves all other cells as they were. `run_purge` is about a
sequence of operations: dropping those that leave an observer's cells alone
changes neither these cells nor the results the observer sees, if the others
respect the cells.
-/

namespace AgentBus.Lib

section Local

variable {σ κ α β : Type*} {ω : κ → Type*} (look : σ → ∀ k, ω k)

/-- What is done with a result. -/
def handled {ε γ : Type*} (e : ε → γ) (g : α → σ → γ × σ) : Except ε α → σ → γ × σ
  | .error x, s => (e x, s)
  | .ok a, s => g a s

/-- An operation that may fail, and what is done if it does not. -/
def andThen {ε γ : Type*} (f : σ → Except ε α × σ) (e : ε → γ) (g : α → σ → γ × σ)
    (s : σ) : γ × σ :=
  handled e g (f s).1 (f s).2

/-- The same in the cells of `S`. -/
def Agree (S : Set κ) (s s' : σ) : Prop := ∀ k ∈ S, look s k = look s' k

/-- Among the states of `I`, `f` reads and writes cells of `S` only. -/
structure Local (I : σ → Prop) (S : Set κ) (f : σ → α × σ) : Prop where
  keeps : ∀ {s}, I s → I (f s).2
  result : ∀ {s s'}, I s → I s' → Agree look S s s' → (f s).1 = (f s').1
  agree : ∀ {s s'}, I s → I s' → Agree look S s s' → Agree look S (f s).2 (f s').2
  frame : ∀ {s}, I s → ∀ k, k ∉ S → look (f s).2 k = look s k

variable {look} {I : σ → Prop} {S : Set κ} {s s' : σ} {f : σ → α × σ}

theorem Agree.trans {s'' : σ} (h : Agree look S s s') (h' : Agree look S s' s'') :
    Agree look S s s'' :=
  fun k hk => (h k hk).trans (h' k hk)

theorem Agree.symm (h : Agree look S s s') : Agree look S s' s := fun k hk => (h k hk).symm

namespace Local

theorem pure (a : α) : Local look I S fun s => (a, s) where
  keeps h := h
  result _ _ _ := rfl
  agree _ _ h := h
  frame _ _ _ := rfl

theorem congr {f' : σ → α × σ} (hf : Local look I S f) (h : ∀ s, I s → f' s = f s) :
    Local look I S f' where
  keeps hs := h _ hs ▸ hf.keeps hs
  result hs hs' ha := by
    rw [h _ hs, h _ hs']
    exact hf.result hs hs' ha
  agree hs hs' ha := by
    rw [h _ hs, h _ hs']
    exact hf.agree hs hs' ha
  frame hs k hk := by
    rw [h _ hs]
    exact hf.frame hs k hk

theorem bind {g : α → σ → β × σ} (hf : Local look I S f)
    (hg : ∀ {s}, I s → Local look I S (g (f s).1)) : Local look I S fun s => g (f s).1 (f s).2 where
  keeps h := (hg h).keeps (hf.keeps h)
  result h h' ha := by
    rw [hf.result h h' ha]
    exact (hg h').result (hf.keeps h) (hf.keeps h') (hf.agree h h' ha)
  agree h h' ha := by
    rw [hf.result h h' ha]
    exact (hg h').agree (hf.keeps h) (hf.keeps h') (hf.agree h h' ha)
  frame h k hk := ((hg h).frame (hf.keeps h) k hk).trans (hf.frame h k hk)

theorem map (hf : Local look I S f) (g : α → β) : Local look I S fun s => (g (f s).1, (f s).2) :=
  hf.bind (g := fun a s => (g a, s)) fun _ => .pure _

/-- What the cells of `S` determine may be read first. -/
theorem read {v : σ → α} (hv : ∀ {s s'}, I s → I s' → Agree look S s s' → v s = v s')
    {g : α → σ → β × σ} (hg : ∀ {s}, I s → Local look I S (g (v s))) :
    Local look I S fun s => g (v s) s where
  keeps h := (hg h).keeps h
  result h h' ha := by
    rw [hv h h' ha]
    exact (hg h').result h h' ha
  agree h h' ha := by
    rw [hv h h' ha]
    exact (hg h').agree h h' ha
  frame h k hk := (hg h).frame h k hk

theorem andThen {ε γ : Type*} {f : σ → Except ε α × σ} {e : ε → γ} {g : α → σ → γ × σ}
    (hf : Local look I S f) (hg : ∀ {s a}, I s → (f s).1 = .ok a → Local look I S (g a)) :
    Local look I S (Lib.andThen f e g) := by
  refine (hf.bind (g := handled e g) fun {s} hs => ?_).congr fun _ _ => rfl
  cases hr : (f s).1 with
  | error x => exact .pure (e x)
  | ok a => exact hg hs hr

theorem mono {T : Set κ} (hf : Local look I S f) (hST : S ⊆ T) : Local look I T f where
  keeps := hf.keeps
  result h h' ha := hf.result h h' fun k hk => ha k (hST hk)
  agree {s s'} h h' ha k hk := by
    by_cases hS : k ∈ S
    · exact hf.agree h h' (fun k hk => ha k (hST hk)) k hS
    · rw [hf.frame h k hS, hf.frame h' k hS]
      exact ha k hk
  frame h k hk := hf.frame h k fun hS => hk (hST hS)

theorem agree_of_disjoint {T : Set κ} (hf : Local look I S f) (hST : ∀ k ∈ T, k ∉ S) (h : I s) :
    Agree look T (f s).2 s :=
  fun k hk => hf.frame h k (hST k hk)

end Local

end Local

/-! ## Sequences of operations -/

section Purge

variable {σ κ ι o : Type*} {ω : κ → Type*} {look : σ → ∀ k, ω k}

/-- Each input with its result, and the state at the end. -/
def runAll (handle : ι → σ → o × σ) : List ι → σ → List (ι × o) × σ
  | [], s => ([], s)
  | i :: is, s =>
    let (out, s) := handle i s
    let (outs, s) := runAll handle is s
    ((i, out) :: outs, s)

theorem runAll_inputs (handle : ι → σ → o × σ) (is : List ι) (s : σ) :
    (runAll handle is s).1.map Prod.fst = is := by
  induction is generalizing s with
  | nil => rfl
  | cons i is ih => rw [runAll, List.map_cons, ih]

/-- What an observer of the cells `S` is told: nothing by the dropped inputs, and by the others
nothing but what these cells determine. -/
structure Isolated (look : σ → ∀ k, ω k) (I : σ → Prop) (S : Set κ) (handle : ι → σ → o × σ)
    (dropped seen : ι → Bool) : Prop where
  keeps : ∀ i {s}, I s → I (handle i s).2
  unseen : ∀ i, dropped i = true → seen i = false
  frame : ∀ i, dropped i = true → ∀ {s}, I s → Agree look S (handle i s).2 s
  agree : ∀ i, dropped i = false → ∀ {s s'}, I s → I s' → Agree look S s s' →
    Agree look S (handle i s).2 (handle i s').2
  result : ∀ i, seen i = true → ∀ {s s'}, I s → I s' → Agree look S s s' →
    (handle i s).1 = (handle i s').1

variable {I : σ → Prop} {S : Set κ} {handle : ι → σ → o × σ} {dropped seen : ι → Bool}

/-- **Dropped inputs make no difference to the observer.** -/
theorem Isolated.run_purge (h : Isolated look I S handle dropped seen) (is : List ι) {s s' : σ}
    (hs : I s) (hs' : I s') (ha : Agree look S s s') :
    (runAll handle is s).1.filter (fun p => seen p.1) =
        (runAll handle (is.filter fun i => !dropped i) s').1.filter (fun p => seen p.1) ∧
      Agree look S (runAll handle is s).2 (runAll handle (is.filter fun i => !dropped i) s').2 := by
  induction is generalizing s s' with
  | nil => exact ⟨rfl, ha⟩
  | cons i is ih =>
    cases hd : dropped i with
    | true =>
      obtain ⟨houts, hstate⟩ := ih (h.keeps i hs) hs' ((h.frame i hd hs).trans ha)
      rw [List.filter_cons_of_neg (by simp [hd])]
      refine ⟨?_, hstate⟩
      rw [runAll, List.filter_cons_of_neg (by simp [h.unseen i hd])]
      exact houts
    | false =>
      obtain ⟨houts, hstate⟩ := ih (h.keeps i hs) (h.keeps i hs') (h.agree i hd hs hs' ha)
      rw [List.filter_cons_of_pos (by simp [hd])]
      refine ⟨?_, hstate⟩
      simp only [runAll, List.filter_cons]
      cases hseen : seen i with
      | true => rw [if_pos rfl, if_pos rfl, houts, h.result i hseen hs hs' ha]
      | false => rw [if_neg Bool.false_ne_true, if_neg Bool.false_ne_true, houts]

end Purge

end AgentBus.Lib
