import AgentBus.Dashboard.Sample

/-!
# The cell of a percentile

`percentile_bucket` adds up the counts until they reach the nearest rank. The
cell it stops at is the value at that rank of the indices spread out, each as
often as its cell counts.
-/

namespace AgentBus

open Lib

variable {counts : List ℕ} {q : ℚ}

theorem reachingCell_rank (q : ℚ) (h : counts.sum ≠ 0) :
    reachingCell (rank q counts.sum) 0 0 counts = some (percentileBucket counts q) := by
  obtain ⟨j, hj, -⟩ := reachingCell_spec counts 0 0 (one_le_rank q counts.sum)
    (by rw [Nat.zero_add]; exact rank_le q h)
  rw [percentileBucket, if_neg h, hj, Option.getD_some]

theorem percentileBucket_mono {q' : ℚ} (h : q ≤ q') :
    percentileBucket counts q ≤ percentileBucket counts q' := by
  by_cases hsum : counts.sum = 0
  · rw [percentileBucket, if_pos hsum]
    exact Nat.zero_le _
  · rw [percentileBucket_le_iff q hsum]
    exact (rank_mono h counts.sum).trans ((percentileBucket_le_iff q' hsum _).mp (Nat.le_refl _))

/-- **The percentile's cell is the element at the nearest rank of the indices spread out.** It is
not empty, the loop returns it, and a higher quantile has no lower cell. -/
theorem percentile_bucket_nearest_rank (hcounts : counts.sum ≠ 0) (hpos : 0 < q) (hle : q ≤ 1) :
    (repeated counts)[⌈q * counts.sum⌉₊ - 1]? = some (percentileBucket counts q) ∧
    0 < counts.getD (percentileBucket counts q) 0 ∧
    reachingCell (rank q counts.sum) 0 0 counts = some (percentileBucket counts q) ∧
    ∀ q', q ≤ q' → percentileBucket counts q ≤ percentileBucket counts q' := by
  have htallies := tallies_repeated counts
  have hne : repeated counts ≠ [] := by
    intro hnil
    rw [htallies.sum_counts, hnil] at hcounts
    exact hcounts rfl
  obtain ⟨x, hx, hrank⟩ := exists_nearestRank q hne
  have hcell : percentileBucket counts q = x :=
    percentileBucket_of_tallies monotone_id htallies hrank
  rw [nearestRank_of_sorted (sorted_repeated counts), ← htallies.sum_counts,
    rank_eq_ceil hpos hle hcounts] at hrank
  refine ⟨hcell ▸ hrank, ?_, reachingCell_rank q hcounts, fun q' h => percentileBucket_mono h⟩
  rw [hcell, ← count_repeated]
  exact List.count_pos_iff.mpr hx

/-- The median of nine samples is the fifth. -/
theorem percentile_bucket_nearest_rank_median : percentileBucket [4, 0, 3, 2] (1 / 2) = 2 := by
  have hrank : ⌈(1 / 2 : ℚ) * ([4, 0, 3, 2] : List ℕ).sum⌉₊ = 5 := by
    rw [Nat.ceil_eq_iff (by decide)]
    norm_num
  have hcounts : ([4, 0, 3, 2] : List ℕ).sum ≠ 0 := by decide
  obtain ⟨hcell, -⟩ := percentile_bucket_nearest_rank hcounts
    (by norm_num : (0 : ℚ) < 1 / 2) (by norm_num)
  rw [hrank] at hcell
  exact Option.some.inj (hcell.symm.trans (by decide))

end AgentBus
