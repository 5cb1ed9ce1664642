import Mathlib.Data.List.Basic

/-!
# Two-way merge of streams

`mergeLoop lt` is a merge written as a loop over two streams and an output
buffer; `lt x y` lets the first stream go ahead of the second. It computes
`List.merge`. Two facts let a merge of truncated, filtered streams be read as
one filter: truncating the inputs does not change a truncated merge
(`take_merge_take`), and merging two disjoint selections of an ordered list
gives the joint selection (`merge_filter_filter`).
-/

namespace AgentBus.Lib

variable {α : Type*}

/-- The merge loop. One round per element is enough `fuel`. -/
def mergeLoop (lt : α → α → Bool) : Nat → List α → List α → List α → List α
  | fuel + 1, x :: xs, y :: ys, out =>
    if lt x y then mergeLoop lt fuel xs (y :: ys) (out ++ [x])
    else mergeLoop lt fuel (x :: xs) ys (out ++ [y])
  | _, xs, ys, out => out ++ xs ++ ys

theorem mergeLoop_eq_merge (lt : α → α → Bool) :
    ∀ {fuel : Nat} {xs ys out : List α}, xs.length + ys.length ≤ fuel →
      mergeLoop lt fuel xs ys out = out ++ xs.merge ys lt
  | fuel, [], ys, out, _ => by simp [mergeLoop]
  | fuel, x :: xs, [], out, _ => by simp [mergeLoop]
  | 0, x :: xs, y :: ys, out, h => by simp at h
  | fuel + 1, x :: xs, y :: ys, out, h => by
    simp only [List.length_cons] at h
    rw [mergeLoop, List.cons_merge_cons]
    split
    · rw [mergeLoop_eq_merge lt (by simp only [List.length_cons]; omega), List.append_assoc]
      rfl
    · rw [mergeLoop_eq_merge lt (by simp only [List.length_cons]; omega), List.append_assoc]
      rfl

theorem take_merge_take (lt : α → α → Bool) :
    ∀ {n i j : Nat} (xs ys : List α), n ≤ i → n ≤ j →
      ((xs.take i).merge (ys.take j) lt).take n = (xs.merge ys lt).take n
  | 0, _, _, _, _, _, _ => by simp
  | n + 1, i, j, [], ys, _, hj => by simp [List.take_take, Nat.min_eq_left hj]
  | n + 1, i, j, x :: xs, [], hi, _ => by simp only [List.take_nil, List.merge_right,
      List.take_take, Nat.min_eq_left hi]
  | n + 1, i + 1, j + 1, x :: xs, y :: ys, hi, hj => by
    have hx := take_merge_take lt (n := n) (i := i) (j := j + 1) xs (y :: ys) (by omega) (by omega)
    have hy := take_merge_take lt (n := n) (i := i + 1) (j := j) (x :: xs) ys (by omega) (by omega)
    simp only [List.take_succ_cons, List.cons_merge_cons] at hx hy ⊢
    split
    · rw [List.take_succ_cons, List.take_succ_cons, hx]
    · rw [List.take_succ_cons, List.take_succ_cons, hy]

/-- Every element of `l` goes ahead of every later one. -/
def Ordered (lt : α → α → Bool) (l : List α) : Prop :=
  l.Pairwise fun a b => lt a b = true ∧ lt b a = false

theorem merge_cons_left {lt : α → α → Bool} {x : α} {ys : List α} (xs : List α)
    (h : ∀ y ∈ ys, lt x y = true) : (x :: xs).merge ys lt = x :: xs.merge ys lt := by
  cases ys with
  | nil => simp
  | cons y ys => rw [List.cons_merge_cons_pos _ _ _ (h y List.mem_cons_self)]

theorem merge_cons_right {lt : α → α → Bool} {y : α} {xs : List α} (ys : List α)
    (h : ∀ x ∈ xs, lt x y = false) : xs.merge (y :: ys) lt = y :: xs.merge ys lt := by
  cases xs with
  | nil => simp
  | cons x xs => rw [List.cons_merge_cons_neg _ _ _ (by simp [h x List.mem_cons_self])]

/-- Merging two disjoint selections of an ordered list is selecting both. -/
theorem merge_filter_filter {lt : α → α → Bool} {p q : α → Bool} :
    ∀ {l : List α}, Ordered lt l → (∀ a ∈ l, p a = true → q a = false) →
      (l.filter p).merge (l.filter q) lt = l.filter fun a => p a || q a
  | [], _, _ => by simp
  | a :: l, ho, hd => by
    obtain ⟨ha, hl⟩ := List.pairwise_cons.mp ho
    have ih := merge_filter_filter hl fun b hb => hd b (List.mem_cons_of_mem _ hb)
    cases hp : p a with
    | true =>
      have hq := hd a List.mem_cons_self hp
      rw [List.filter_cons_of_pos hp, List.filter_cons_of_neg (by simp [hq]),
        merge_cons_left _ fun y hy => (ha y (List.mem_of_mem_filter hy)).1, ih]
      simp [hp]
    | false =>
      cases hq : q a with
      | true =>
        rw [List.filter_cons_of_neg (by simp [hp]), List.filter_cons_of_pos hq,
          merge_cons_right _ fun x hx => (ha x (List.mem_of_mem_filter hx)).2, ih]
        simp [hq]
      | false => simp [hp, hq, ih]

end AgentBus.Lib
