import Mathlib.Algebra.BigOperators.Group.Finset.Basic
import Mathlib.Algebra.Order.BigOperators.Group.Finset

/-! Counting over finitely many parties: the sum of a weight over the parties `0, …, n - 1`, what an
update of one party does to it, and what follows when the sum is at most one. -/

namespace Tally

open Finset

variable {α : Type*} {n i j : Nat} {w : Nat → α → Nat} {f : Nat → α}

/-- The weight of all parties together. -/
def total (n : Nat) (w : Nat → α → Nat) (f : Nat → α) : Nat := ∑ i ∈ range n, w i (f i)

theorem total_update (hi : i < n) (x : α) :
    total n w (Function.update f i x) + w i (f i) = total n w f + w i x := by
  have hmem : i ∈ range n := mem_range.mpr hi
  have hrest : ∑ j ∈ (range n).erase i, w j (Function.update f i x j) =
      ∑ j ∈ (range n).erase i, w j (f j) :=
    sum_congr rfl fun j hj => by rw [Function.update_of_ne (ne_of_mem_erase hj)]
  rw [total, total, ← add_sum_erase _ _ hmem, ← add_sum_erase (range n) (fun j => w j (f j)) hmem, hrest,
    Function.update_self]
  omega

/-- An update that keeps the weight of its party keeps the total. -/
theorem total_update_same {x : α} (h : w i x = w i (f i)) :
    total n w (Function.update f i x) = total n w f := by
  refine sum_congr rfl fun j _ => ?_
  by_cases hj : j = i
  · subst hj
    rw [Function.update_self, h]
  · rw [Function.update_of_ne hj]

theorem le_total (hi : i < n) : w i (f i) ≤ total n w f :=
  single_le_sum (f := fun j => w j (f j)) (fun _ _ => Nat.zero_le _) (mem_range.mpr hi)

theorem total_eq_zero (h : ∀ i < n, w i (f i) = 0) : total n w f = 0 :=
  sum_eq_zero fun i hi => h i (mem_range.mp hi)

/-- With a total of at most one only one party has weight. -/
theorem unique_of_le_one (h : total n w f ≤ 1) (hi : i < n) (hj : j < n) (hwi : 0 < w i (f i))
    (hwj : 0 < w j (f j)) : i = j := by
  by_contra hne
  have hpair : w i (f i) + w j (f j) ≤ total n w f := by
    have hsub : ({i, j} : Finset Nat) ⊆ range n := by
      intro k hk
      rcases mem_insert.mp hk with rfl | hk
      · exact mem_range.mpr hi
      · rw [mem_singleton.mp hk]
        exact mem_range.mpr hj
    have hle := sum_le_sum_of_subset (f := fun k => w k (f k)) hsub
    rwa [sum_pair hne] at hle
  omega

end Tally
