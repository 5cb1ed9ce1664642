import Mathlib.Algebra.BigOperators.Group.List.Basic
import Mathlib.Algebra.Ring.Nat
import Mathlib.Data.List.Nodup
import Std.Data.ExtTreeMap

/-!
# Sums over the values of a map

`sumOver f m` adds `f v` for every value `v` of `m`. Replacing one value
replaces one summand.
-/

namespace AgentBus.Lib

open Std

section Lists

variable {α β : Type*} [Ord α] [TransOrd α]

theorem values_eq_map_snd (m : ExtTreeMap α β) : m.values = m.toList.map Prod.snd := by
  have hfoldr : m.values = m.foldr (fun _ v vs => v :: vs) [] := by
    obtain ⟨⟨q⟩⟩ := m
    induction q using Quotient.inductionOn with
    | h t => rfl
  rw [hfoldr, ExtTreeMap.foldr_eq_foldr_toList]
  induction m.toList with
  | nil => rfl
  | cons x xs ih => rw [List.foldr_cons, ih, List.map_cons]

theorem nodup_toList (m : ExtTreeMap α β) : m.toList.Nodup := by
  refine ExtTreeMap.distinct_keys_toList.imp fun {a b} hne heq => hne ?_
  rw [heq]
  exact ReflCmp.compare_self

variable [LawfulEqOrd α]

theorem toList_perm_erase {m : ExtTreeMap α β} {k : α} {v : β} (h : m[k]? = some v) :
    m.toList.Perm ((k, v) :: (m.erase k).toList) := by
  have hnew : (k, v) ∉ (m.erase k).toList := by
    rw [ExtTreeMap.mem_toList_iff_getElem?_eq_some, ExtTreeMap.getElem?_erase_self]
    exact Option.some_ne_none v ∘ Eq.symm
  refine (List.perm_ext_iff_of_nodup (nodup_toList m) ((nodup_toList _).cons hnew)).mpr ?_
  rintro ⟨k', v'⟩
  rw [List.mem_cons, ExtTreeMap.mem_toList_iff_getElem?_eq_some,
    ExtTreeMap.mem_toList_iff_getElem?_eq_some,
    ExtTreeMap.getElem?_erase, Prod.mk.injEq]
  by_cases hk : k = k'
  · subst hk
    simp [h, eq_comm]
  · simp [hk, Ne.symm hk]

theorem mem_values {m : ExtTreeMap α β} {v : β} : v ∈ m.values ↔ ∃ k : α, m[k]? = some v := by
  rw [values_eq_map_snd, List.mem_map]
  constructor
  · rintro ⟨⟨k, v⟩, hmem, rfl⟩
    exact ⟨k, ExtTreeMap.mem_toList_iff_getElem?_eq_some.mp hmem⟩
  · rintro ⟨k, h⟩
    exact ⟨(k, v), ExtTreeMap.mem_toList_iff_getElem?_eq_some.mpr h, rfl⟩

end Lists

variable {α β : Type*} [Ord α] [TransOrd α]

def sumOver (f : β → ℕ) (m : ExtTreeMap α β) : ℕ := (m.values.map f).sum

@[simp] theorem sumOver_empty (f : β → ℕ) : sumOver f (∅ : ExtTreeMap α β) = 0 := by
  rw [sumOver, values_eq_map_snd]
  rfl

variable [LawfulEqOrd α] {f : β → ℕ} {m : ExtTreeMap α β} {k : α} {v w : β}

theorem sumOver_eq (h : m[k]? = some v) : sumOver f m = f v + sumOver f (m.erase k) := by
  simp only [sumOver, values_eq_map_snd, List.map_map]
  exact (((toList_perm_erase h).map _).sum_eq).trans List.sum_cons

theorem erase_insert_self (m : ExtTreeMap α β) (k : α) (v : β) :
    (m.insert k v).erase k = m.erase k := by
  refine ExtTreeMap.ext_getElem? fun {k'} => ?_
  simp only [ExtTreeMap.getElem?_erase, ExtTreeMap.getElem?_insert]
  split <;> rfl

/-- **One value is replaced.** -/
theorem sumOver_insert_of_some (h : m[k]? = some w) :
    sumOver f (m.insert k v) + f w = sumOver f m + f v := by
  rw [sumOver_eq h, sumOver_eq (ExtTreeMap.getElem?_insert_self (t := m)), erase_insert_self]
  omega

theorem sumOver_insert_of_none (h : m[k]? = none) :
    sumOver f (m.insert k v) = sumOver f m + f v := by
  have hsame : m.erase k = m := by
    refine ExtTreeMap.ext_getElem? fun {k'} => ?_
    rw [ExtTreeMap.getElem?_erase]
    split
    · next heq => rw [← LawfulEqCmp.compare_eq_iff_eq.mp heq, h]
    · rfl
  rw [sumOver_eq (ExtTreeMap.getElem?_insert_self (t := m)), erase_insert_self, hsame, Nat.add_comm]

theorem le_sumOver (h : m[k]? = some v) : f v ≤ sumOver f m := by
  rw [sumOver_eq h]
  exact Nat.le_add_right ..

theorem sum_le_sumOver {l : List (α × β)}
    (hdistinct : l.Pairwise fun a b => ¬ compare a.1 b.1 = .eq) {m : ExtTreeMap α β}
    (h : ∀ kv ∈ l, ∃ w, m[kv.1]? = some w ∧ f kv.2 ≤ f w) :
    (l.map fun kv => f kv.2).sum ≤ sumOver f m := by
  induction l generalizing m with
  | nil => exact Nat.zero_le _
  | cons kv l ih =>
    obtain ⟨hkv, hl⟩ := List.pairwise_cons.mp hdistinct
    obtain ⟨w, hw, hle⟩ := h kv List.mem_cons_self
    rw [List.map_cons, List.sum_cons, sumOver_eq hw]
    refine Nat.add_le_add hle (ih hl fun kv' hmem => ?_)
    rw [ExtTreeMap.getElem?_erase, if_neg (hkv kv' hmem)]
    exact h kv' (List.mem_cons_of_mem _ hmem)

/-- **Every value is kept or replaced by one that adds more.** -/
theorem sumOver_mono {m' : ExtTreeMap α β}
    (h : ∀ (k : α) v, m[k]? = some v → ∃ w, m'[k]? = some w ∧ f v ≤ f w) :
    sumOver f m ≤ sumOver f m' := by
  rw [sumOver, values_eq_map_snd, List.map_map]
  refine sum_le_sumOver ExtTreeMap.distinct_keys_toList fun kv hkv => h kv.1 kv.2 ?_
  exact ExtTreeMap.mem_toList_iff_getElem?_eq_some.mp hkv

end AgentBus.Lib
