import Mathlib.Data.List.Basic

/-!
# Partition points by binary search

`partitionPoint p l` is the index a branch-free binary search stops at: the
loop keeps `size` candidates from `base` on and halves them. The answer means
something only when `l` is *partitioned* by `p` (every element satisfying `p`
comes before every element that does not); then it is the number of elements
satisfying `p`, so dropping that many keeps exactly the others.
-/

namespace AgentBus.Lib

variable {α : Type*}

/-- The search loop. `fuel` bounds the rounds; the number of candidates is enough. -/
def searchLoop (p : α → Bool) (l : List α) : Nat → Nat → Nat → Nat
  | 0, base, _ => base
  | fuel + 1, base, size =>
    if size ≤ 1 then base
    else
      let mid := base + size / 2
      searchLoop p l fuel (if l[mid]?.any p then mid else base) (size - size / 2)

/-- Index of the first element not satisfying `p`, for a partitioned list. -/
def partitionPoint (p : α → Bool) (l : List α) : Nat :=
  if l.isEmpty then 0
  else
    let base := searchLoop p l l.length 0 l.length
    if l[base]?.any p then base + 1 else base

/-- Every element satisfying `p` comes before every element that does not. -/
def Partitioned (p : α → Bool) (l : List α) : Prop :=
  l.Pairwise fun a b => p b = true → p a = true

/-- `k` splits `l` by `p`. -/
def SplitsAt (p : α → Bool) (l : List α) (k : Nat) : Prop :=
  ∀ i, i < l.length → (l[i]?.any p = true ↔ i < k)

/-- The loop keeps the split inside its window and ends on a window of one. -/
theorem searchLoop_spec {p : α → Bool} {l : List α} {k : Nat} (hk : SplitsAt p l k) :
    ∀ {fuel base size : Nat}, size ≤ fuel → 0 < size → base + size ≤ l.length →
      (base = 0 ∨ base < k) → k ≤ base + size →
      ∃ b, searchLoop p l fuel base size = b ∧ b < l.length ∧ (b = 0 ∨ b < k) ∧ k ≤ b + 1
  | 0, _, _, hf, hs, _, _, _ => by omega
  | fuel + 1, base, size, hf, hs, hl, hb, hw => by
    unfold searchLoop
    split
    · next h1 => exact ⟨base, rfl, by omega, hb, by omega⟩
    · next h1 =>
      simp only
      have hmid := hk (base + size / 2) (by omega)
      split
      · next hp =>
        exact searchLoop_spec hk (by omega) (by omega) (by omega) (.inr (hmid.mp hp)) (by omega)
      · next hp =>
        have : k ≤ base + size / 2 := Nat.le_of_not_lt fun h => hp (hmid.mpr h)
        exact searchLoop_spec hk (by omega) (by omega) (by omega) hb (by omega)

theorem partitionPoint_of_splitsAt {p : α → Bool} {l : List α} {k : Nat} (hk : SplitsAt p l k)
    (hle : k ≤ l.length) : partitionPoint p l = k := by
  unfold partitionPoint
  split
  · next h =>
    rw [List.isEmpty_iff] at h
    subst h
    simp_all
  · next h =>
    have hpos : 0 < l.length := List.length_pos_iff.mpr (by simpa using h)
    obtain ⟨b, hb, hlt, h0, hk1⟩ :=
      searchLoop_spec hk (Nat.le_refl _) hpos (by omega) (.inl rfl) (by omega)
    simp only [hb]
    have hat := hk b hlt
    split
    · next hp => have := hat.mp hp; omega
    · next hp => have : ¬ b < k := fun h => hp (hat.mpr h); omega

theorem Partitioned.exists_append {p : α → Bool} {l : List α} (h : Partitioned p l) :
    ∃ xs ys, l = xs ++ ys ∧ (∀ x ∈ xs, p x = true) ∧ ∀ y ∈ ys, p y = false := by
  induction l with
  | nil => exact ⟨[], [], rfl, by simp, by simp⟩
  | cons a l ih =>
    obtain ⟨ha, hl⟩ := List.pairwise_cons.mp h
    cases hp : p a with
    | true =>
      obtain ⟨xs, ys, rfl, hx, hy⟩ := ih hl
      refine ⟨a :: xs, ys, rfl, fun x hmem => ?_, hy⟩
      rcases List.mem_cons.mp hmem with rfl | hmem
      · exact hp
      · exact hx x hmem
    | false =>
      refine ⟨[], a :: l, rfl, by simp, fun y hmem => ?_⟩
      rcases List.mem_cons.mp hmem with rfl | hmem
      · exact hp
      · exact Bool.eq_false_iff.mpr fun hy => by simp [ha y hmem hy] at hp

theorem splitsAt_append {p : α → Bool} {xs ys : List α} (hx : ∀ x ∈ xs, p x = true)
    (hy : ∀ y ∈ ys, p y = false) : SplitsAt p (xs ++ ys) xs.length := by
  intro i hi
  rw [List.length_append] at hi
  rcases Nat.lt_or_ge i xs.length with hlt | hge
  · rw [List.getElem?_append_left hlt, List.getElem?_eq_getElem hlt]
    simp [hx _ (List.getElem_mem hlt), hlt]
  · have hj : i - xs.length < ys.length := by omega
    rw [List.getElem?_append_right hge, List.getElem?_eq_getElem hj]
    simp [hy _ (List.getElem_mem hj), hge]

/-- On a partitioned list, dropping up to the partition point is filtering. -/
theorem drop_partitionPoint {p : α → Bool} {l : List α} (h : Partitioned p l) :
    l.drop (partitionPoint p l) = l.filter fun a => !p a := by
  obtain ⟨xs, ys, rfl, hx, hy⟩ := h.exists_append
  rw [partitionPoint_of_splitsAt (splitsAt_append hx hy) (by simp), List.drop_left,
    List.filter_append, List.filter_eq_nil_iff.mpr (by simpa using hx),
    List.filter_eq_self.mpr (by simpa using hy), List.nil_append]

example : partitionPoint (· ≤ 4) [1, 3, 4, 4, 8] = 4 := by decide

end AgentBus.Lib
