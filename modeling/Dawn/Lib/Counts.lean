import Mathlib.Tactic

/-!
# Sums over a finite family that changes at one member

What the members of a finite family contribute to a counter. A step of one member changes the sum by what that
member contributed before and contributes now (`sum_update`), so that a counter which is kept up to date step by
step is the sum at all times.
-/

namespace Dawn

open Finset

variable {ι α : Type*} [Fintype ι] [DecidableEq ι]

theorem sum_update (m : ι → α) (f : α → ℕ) (i : ι) (a : α) :
    ∑ j, f (Function.update m i a j) + f (m i) = ∑ j, f (m j) + f a := by
  have h : (fun j => f (Function.update m i a j)) = Function.update (fun j => f (m j)) i (f a) :=
    funext fun j => Function.apply_update (fun _ => f) m i a j
  rw [h, sum_update_of_mem (mem_univ i), ← add_sum_erase univ (fun j => f (m j)) (mem_univ i),
    ← sdiff_singleton_eq_erase]
  omega

omit [DecidableEq ι] in
theorem le_sum (f : ι → ℕ) (i : ι) : f i ≤ ∑ j, f j :=
  single_le_sum (f := f) (fun _ _ => Nat.zero_le _) (mem_univ i)

theorem eq_of_sum_le_one {f : ι → ℕ} (h : ∑ j, f j ≤ 1) {i j : ι} (hi : 0 < f i) (hj : 0 < f j) : i = j := by
  by_contra hne
  have hpair : ∑ k ∈ {i, j}, f k ≤ ∑ k, f k := sum_le_sum_of_subset (subset_univ _)
  rw [sum_pair hne] at hpair
  omega

end Dawn
