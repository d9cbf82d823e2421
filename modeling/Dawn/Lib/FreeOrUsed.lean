import Mathlib.Tactic

/-!
# Frames that are free or in use

A store of frames keeps the free ones in a list and the ones in use in a map from keys. A frame is taken from
the front of the list for a key, and put back at its end. As long as nothing else happens, every frame is in the
list exactly once, or it is the image of exactly one key (`FreeOrUsed.cases`).
-/

namespace Dawn

open Function

variable {κ φ : Type*}

/-- Every frame is once in the free list, or the image of one key. -/
structure FreeOrUsed (free : List φ) (mapping : κ → Option φ) : Prop where
  nodup : free.Nodup
  mem_free : ∀ f, f ∈ free ↔ ∀ k, mapping k ≠ some f
  inj : ∀ {k j f}, mapping k = some f → mapping j = some f → k = j

namespace FreeOrUsed

variable {free rest : List φ} {mapping : κ → Option φ} {k j : κ} {f g : φ}

theorem exists_key (h : FreeOrUsed free mapping) (hfree : free = []) (f : φ) : ∃ k, mapping k = some f := by
  by_contra hno
  push Not at hno
  have hmem := (h.mem_free f).mpr hno
  rw [hfree] at hmem
  exact absurd hmem List.not_mem_nil

theorem cases [DecidableEq φ] (h : FreeOrUsed free mapping) (f : φ) :
    (free.count f = 1 ∧ ∀ k, mapping k ≠ some f) ∨ (free.count f = 0 ∧ ∃! k, mapping k = some f) := by
  by_cases hf : f ∈ free
  · exact Or.inl ⟨List.count_eq_one_of_mem h.nodup hf, (h.mem_free f).mp hf⟩
  · have hused := mt (h.mem_free f).mpr hf
    push Not at hused
    obtain ⟨k, hk⟩ := hused
    exact Or.inr ⟨List.count_eq_zero.mpr hf, k, hk, fun j hj => h.inj hj hk⟩

variable [DecidableEq κ]

theorem update_some_cases (h : FreeOrUsed free mapping) (hf : f ∈ free) (hg : update mapping k (some f) j = some g) :
    (j = k ∧ g = f) ∨ (j ≠ k ∧ g ≠ f ∧ mapping j = some g) := by
  obtain rfl | hne := eq_or_ne j k
  · rw [update_self] at hg
    exact Or.inl ⟨rfl, (Option.some.inj hg).symm⟩
  · rw [update_of_ne hne] at hg
    exact Or.inr ⟨hne, fun he => (h.mem_free f).mp hf j (he ▸ hg), hg⟩

theorem update_none_cases (h : FreeOrUsed free mapping) (hk : mapping k = some f)
    (hg : update mapping k none j = some g) : j ≠ k ∧ g ≠ f ∧ mapping j = some g := by
  have hne : j ≠ k := by
    rintro rfl
    simp at hg
  rw [update_of_ne hne] at hg
  exact ⟨hne, fun he => hne (h.inj (he ▸ hg) hk), hg⟩

theorem enter (h : FreeOrUsed free mapping) (hfree : free = f :: rest) (hk : mapping k = none) :
    FreeOrUsed rest (update mapping k (some f)) := by
  have hnodup := h.nodup
  rw [hfree, List.nodup_cons] at hnodup
  have hf : f ∈ free := by simp [hfree]
  refine ⟨hnodup.2, fun g => ⟨fun hg j hj => ?_, fun hg => ?_⟩, fun {j l g} hj hl => ?_⟩
  · rcases h.update_some_cases hf hj with ⟨-, rfl⟩ | ⟨-, -, hj'⟩
    · exact hnodup.1 hg
    · exact (h.mem_free g).mp (by simp [hfree, hg]) j hj'
  · have hgf : g ≠ f := fun he => hg k (by simp [he])
    have hmem : g ∈ free := (h.mem_free g).mpr fun j hj => by
      have hne : j ≠ k := fun he => absurd hj (by simp [he, hk])
      exact hg j (by simpa [hne] using hj)
    rw [hfree] at hmem
    exact List.mem_of_ne_of_mem hgf hmem
  · rcases h.update_some_cases hf hj with ⟨hjk, hgf⟩ | ⟨-, hgf, hj'⟩ <;>
      rcases h.update_some_cases hf hl with ⟨hlk, hgf'⟩ | ⟨-, hgf', hl'⟩
    · exact hjk.trans hlk.symm
    · exact absurd hgf hgf'
    · exact absurd hgf' hgf
    · exact h.inj hj' hl'

theorem leave (h : FreeOrUsed free mapping) (hk : mapping k = some f) :
    FreeOrUsed (free ++ [f]) (update mapping k none) := by
  have hf : f ∉ free := fun hc => (h.mem_free f).mp hc k hk
  refine ⟨?_, fun g => ⟨fun hg j hj => ?_, fun hg => ?_⟩, fun {j l g} hj hl => ?_⟩
  · rw [List.nodup_append]
    refine ⟨h.nodup, List.nodup_singleton f, fun g hg g' hg' => ?_⟩
    obtain rfl := List.mem_singleton.mp hg'
    exact fun he => hf (he ▸ hg)
  · obtain ⟨-, hne, hj'⟩ := h.update_none_cases hk hj
    rcases List.mem_append.mp hg with hg' | hg'
    · exact (h.mem_free g).mp hg' j hj'
    · exact hne (List.mem_singleton.mp hg')
  · by_cases hgf : g = f
    · simp [hgf]
    · refine List.mem_append_left _ ((h.mem_free g).mpr fun j hj => ?_)
      have hne : j ≠ k := by
        rintro rfl
        exact hgf (Option.some.inj (hj.symm.trans hk))
      exact hg j (by rwa [update_of_ne hne])
  · exact h.inj (h.update_none_cases hk hj).2.2 (h.update_none_cases hk hl).2.2

end FreeOrUsed

end Dawn
