import Mathlib.Algebra.BigOperators.Group.Finset.Basic
import Mathlib.Algebra.Order.BigOperators.Group.Finset
import Mathlib.Tactic

/-!
# Packed extents

A family of extents `[off k, off k + len k)` that fills a region `[lo, hi)` without gaps or overlaps,
in any order: the data area of a store that allocates downward and compacts on every removal.
`Packed.push` puts an extent below the region, and `Packed.remove` takes one out and moves everything
below it up.
-/

namespace Dawn

variable {ι : Type*}

/-- The extents of the indices in `occ` fill `[lo, hi)` exactly. They are pairwise disjoint and lie
in the region, so that they cover it is that their lengths sum to its length. -/
structure Packed (occ : Finset ι) (off len : ι → ℤ) (lo hi : ℤ) : Prop where
  len_pos : ∀ k ∈ occ, 1 ≤ len k
  lo_le : ∀ k ∈ occ, lo ≤ off k
  le_hi : ∀ k ∈ occ, off k + len k ≤ hi
  disjoint : ∀ j ∈ occ, ∀ k ∈ occ, j ≠ k → off j + len j ≤ off k ∨ off k + len k ≤ off j
  sum_len : ∑ k ∈ occ, len k = hi - lo

namespace Packed

variable {occ : Finset ι} {off len off' len' : ι → ℤ} {lo hi : ℤ}

theorem empty (off len : ι → ℤ) (hi : ℤ) : Packed ∅ off len hi hi where
  len_pos := by simp
  lo_le := by simp
  le_hi := by simp
  disjoint := by simp
  sum_len := by simp

theorem lo_le_hi (h : Packed occ off len lo hi) : lo ≤ hi := by
  have hnn : 0 ≤ ∑ k ∈ occ, len k :=
    Finset.sum_nonneg fun k hk => by have := h.len_pos k hk; omega
  have := h.sum_len
  omega

theorem congr (h : Packed occ off len lo hi) (ho : ∀ k ∈ occ, off' k = off k)
    (hl : ∀ k ∈ occ, len' k = len k) : Packed occ off' len' lo hi where
  len_pos k hk := by rw [hl k hk]; exact h.len_pos k hk
  lo_le k hk := by rw [ho k hk]; exact h.lo_le k hk
  le_hi k hk := by rw [ho k hk, hl k hk]; exact h.le_hi k hk
  disjoint j hj k hk hjk := by
    rw [ho j hj, ho k hk, hl j hj, hl k hk]
    exact h.disjoint j hj k hk hjk
  sum_len := by rw [Finset.sum_congr rfl hl]; exact h.sum_len

variable [DecidableEq ι]

theorem push (h : Packed occ off len lo hi) {k : ι} {s : ℤ} (hk : k ∉ occ) (hs : 1 ≤ s)
    (hok : off' k = lo - s) (hlk : len' k = s) (ho : ∀ j ∈ occ, off' j = off j)
    (hl : ∀ j ∈ occ, len' j = len j) : Packed (insert k occ) off' len' (lo - s) hi := by
  have h' := h.congr ho hl
  have hlo := h.lo_le_hi
  refine ⟨?_, ?_, ?_, ?_, ?_⟩
  · intro j hj
    rcases Finset.mem_insert.mp hj with rfl | hj
    · omega
    · exact h'.len_pos j hj
  · intro j hj
    rcases Finset.mem_insert.mp hj with rfl | hj
    · omega
    · have := h'.lo_le j hj; omega
  · intro j hj
    rcases Finset.mem_insert.mp hj with rfl | hj
    · omega
    · exact h'.le_hi j hj
  · intro i hmi j hmj hij
    rcases Finset.mem_insert.mp hmi with hi' | hi' <;> rcases Finset.mem_insert.mp hmj with hj | hj
    · exact absurd (hi'.trans hj.symm) hij
    · have := h'.lo_le j hj; rw [hi']; omega
    · have := h'.lo_le i hi'; rw [hj]; omega
    · exact h'.disjoint i hi' j hj hij
  · rw [Finset.sum_insert hk, h'.sum_len, hlk]; omega

theorem remove (h : Packed occ off len lo hi) {k : ι} (hk : k ∈ occ)
    (ho : ∀ j ∈ occ, j ≠ k → off' j = if off j < off k then off j + len k else off j)
    (hl : ∀ j ∈ occ, j ≠ k → len' j = len j) : Packed (occ.erase k) off' len' (lo + len k) hi := by
  refine ⟨?_, ?_, ?_, ?_, ?_⟩
  · intro j hj
    obtain ⟨hjk, hj⟩ := Finset.mem_erase.mp hj
    rw [hl j hj hjk]; exact h.len_pos j hj
  · intro j hj
    obtain ⟨hjk, hj⟩ := Finset.mem_erase.mp hj
    have h1 := h.lo_le j hj
    have h2 := h.lo_le k hk
    have h3 := h.len_pos j hj
    rw [ho j hj hjk]
    -- An extent that stays lies above the removed one.
    rcases h.disjoint j hj k hk hjk with hd | hd <;> split_ifs <;> omega
  · intro j hj
    obtain ⟨hjk, hj⟩ := Finset.mem_erase.mp hj
    have h1 := h.le_hi j hj
    have h2 := h.le_hi k hk
    rw [ho j hj hjk, hl j hj hjk]
    rcases h.disjoint j hj k hk hjk with hd | hd <;> split_ifs <;> omega
  · intro i hi' j hj hij
    obtain ⟨hik, hi'⟩ := Finset.mem_erase.mp hi'
    obtain ⟨hjk, hj⟩ := Finset.mem_erase.mp hj
    have h1 := h.disjoint i hi' k hk hik
    have h2 := h.disjoint j hj k hk hjk
    have h3 := h.disjoint i hi' j hj hij
    have h4 := h.len_pos i hi'
    have h5 := h.len_pos j hj
    rw [ho i hi' hik, ho j hj hjk, hl i hi' hik, hl j hj hjk]
    split_ifs <;> omega
  · have hsum := Finset.add_sum_erase occ len hk
    have hl' : ∑ j ∈ occ.erase k, len' j = ∑ j ∈ occ.erase k, len j := by
      apply Finset.sum_congr rfl
      intro j hj
      exact hl j (Finset.mem_of_mem_erase hj) (Finset.ne_of_mem_erase hj)
    have := h.sum_len
    omega

end Packed

end Dawn
