import Dawn.Index.Update

/-!
# The first pages of the buckets

A scan relies on the first page of every bucket having a tuple. A table without buckets is like that, and
an insertion and a deletion keep it so (`Inserted.headsFilled`, `Deleted.headsFilled`). A tuple that is
moved can leave such a page without a tuple (`Moved.headsFilled_iff`).
-/

namespace Dawn

open TablePage PageStore

/-- The first page of every bucket has a tuple. -/
def HeadsFilled (s : PageStore) (L : Layout) : Prop :=
  ∀ {i j id : ℤ}, id ∈ (L.chain i j).head? → occ (s.page id) ≠ ∅

variable {sz : ℤ} {s s' : PageStore} {root i j id : ℤ} {k : ℕ} {L L' : Layout} {bytes : List UInt8}

theorem HeadsFilled.iff_cell (h : Skeleton s root L) : HeadsFilled s L ↔
    ∀ {i j id : ℤ}, id ∈ (L.chain i j).head? → ∃ n, cell s L id n ≠ none := by
  have hiff : ∀ {i j id : ℤ}, id ∈ (L.chain i j).head? →
      (occ (s.page id) ≠ ∅ ↔ ∃ n, cell s L id n ≠ none) := by
    intro i j id hid
    have ho := h.own_chain.mp (List.mem_of_mem_head? hid)
    rw [← Finset.nonempty_iff_ne_empty]
    simp only [Finset.Nonempty, cell_ne_none_iff ho]
  exact ⟨fun hf _ _ _ hid => (hiff hid).mp (hf hid), fun hf _ _ _ hid => (hiff hid).mpr (hf hid)⟩

theorem headsFilled_empty (root : ℤ) : HeadsFilled s (Layout.empty root) := by
  intro i j id hid
  cases hid

theorem Inserted.headsFilled (h : Inserted sz root s L i j id k bytes s' L') (hS : Skeleton s root L)
    (hf : HeadsFilled s L) : HeadsFilled s' L' := by
  rw [HeadsFilled.iff_cell hS] at hf
  rw [HeadsFilled.iff_cell h.inv.skeleton]
  intro a b c hc
  have hkept : c ∈ (L.chain a b).head? → ∃ n, cell s' L' c n ≠ none := by
    intro hc
    obtain ⟨n, hn⟩ := hf hc
    refine ⟨n, ?_⟩
    rw [h.cell_eq]
    split_ifs
    · simp
    · exact hn
  rcases h.chain a b with he | ⟨-, -, he, -⟩
  · exact hkept (he ▸ hc)
  · rw [he] at hc
    cases hl : L.chain a b with
    | nil =>
      rw [hl] at hc
      obtain rfl : id = c := by simpa using hc
      exact ⟨k, by rw [h.cell_eq, if_pos ⟨rfl, rfl⟩]; simp⟩
    | cons d l =>
      rw [hl] at hc hkept
      exact hkept hc

theorem Deleted.headsFilled {i j id : ℤ} {k : ℕ} (h : Deleted sz root s L i j id k s' L')
    (hS : Skeleton s root L) (ho : L.own id = some (.bucket i j)) (hf : HeadsFilled s L) : HeadsFilled s' L' := by
  rw [HeadsFilled.iff_cell hS] at hf
  rw [HeadsFilled.iff_cell h.inv.skeleton]
  have hkept : ∀ {a b c : ℤ}, c ≠ id → c ∈ (L.chain a b).head? → ∃ n, cell s' L' c n ≠ none := by
    intro a b c hne hc
    obtain ⟨n, hn⟩ := hf hc
    exact ⟨n, by rwa [h.cell_eq, if_neg fun e => hne e.1]⟩
  intro a b c hc
  by_cases hab : a = i ∧ b = j
  · obtain ⟨rfl, rfl⟩ := hab
    rcases h.head c hc with ⟨hne, hc'⟩ | hn
    · exact hkept hne hc'
    · exact hn
  · -- The page of the deleted tuple is in another bucket.
    rw [(h.chain a b).resolve_right fun e => hab ⟨e.1, e.2.1⟩] at hc
    refine hkept ?_ hc
    rintro rfl
    rw [hS.own_chain.mp (List.mem_of_mem_head? hc)] at ho
    simp only [Option.some.injEq, Owner.bucket.injEq] at ho
    exact hab ho

/-- A tuple that is moved leaves a first page without a tuple exactly when it was the only one there and
does not stay in the page. -/
theorem Moved.headsFilled_iff {id' : ℤ} {k' : ℕ} (h : Moved sz root s L i j id k id' k' bytes s' L')
    (hS : Skeleton s root L) {old : List UInt8} (hcell : cell s L id k = some old) (hf : HeadsFilled s L) :
    HeadsFilled s' L' ↔ ¬ ∃ a b, id ∈ (L.chain a b).head? ∧ occ (s.page id) = {k} ∧
      ((i, j) ≠ (a, b) ∨ Full sz (s.page id)) := by
  rw [HeadsFilled.iff_cell hS] at hf
  rw [HeadsFilled.iff_cell h.inv.skeleton]
  have hother : ¬ (id' = id ∧ k' = k) := by
    rintro ⟨rfl, rfl⟩
    exact absurd (h.cell_none.symm.trans hcell) (by simp)
  have hnew : cell s' L' id' k' ≠ none := by
    rw [h.cell_eq, if_neg hother, if_pos ⟨rfl, rfl⟩]
    simp
  constructor
  · rintro hf' ⟨a, b, hid, hocc, hout⟩
    have ho := hS.own_chain.mp (List.mem_of_mem_head? hid)
    have hid' : id ∈ (L'.chain a b).head? := by
      rcases h.chain a b with he | ⟨-, -, he, -⟩
      · rwa [he]
      · rw [he, List.head?_append, Option.mem_def.mp hid]
        rfl
    -- The new tuple is in another page.
    have hne : id ≠ id' := by
      rintro rfl
      rcases hout with hout | hfull
      · have ho' := h.own_id
        rw [h.own ho] at ho'
        simp only [Option.some.injEq, Owner.bucket.injEq] at ho'
        exact hout (by rw [ho'.1, ho'.2])
      · exact h.room ho hfull
    obtain ⟨n, hn⟩ := hf' hid'
    rw [h.cell_eq] at hn
    split_ifs at hn with h1 h2
    · exact hn rfl
    · exact hne h2.1
    · have hmem : n ∈ occ (s.page id) := (cell_ne_none_iff ho).mp hn
      rw [hocc, Finset.mem_singleton] at hmem
      exact h1 ⟨rfl, hmem⟩
  · intro hno a b c hc
    have hkept : c ∈ (L.chain a b).head? → ∃ n, cell s' L' c n ≠ none := by
      intro hc
      obtain ⟨n, hn⟩ := hf hc
      by_cases hk : c = id ∧ n = k
      · obtain ⟨rfl, rfl⟩ := hk
        have ho := hS.own_chain.mp (List.mem_of_mem_head? hc)
        by_cases hone : occ (s.page c) = {n}
        · -- The only tuple of the page: the new one is in the same page.
          have hstay : (i, j) = (a, b) ∧ ¬ Full sz (s.page c) := by
            by_contra hne
            refine hno ⟨a, b, hc, hone, ?_⟩
            by_contra hnot
            rw [not_or, not_not] at hnot
            exact hne hnot
          obtain ⟨hij, hroom⟩ := hstay
          obtain ⟨rfl, rfl⟩ := Prod.mk.inj hij
          rw [h.first c hc hroom]
          exact ⟨k', hnew⟩
        · have hn' : n ∈ occ (s.page c) := (cell_ne_none_iff ho).mp hn
          obtain ⟨m, hm, hmn⟩ : ∃ m ∈ occ (s.page c), m ≠ n := by
            by_contra hall
            push Not at hall
            exact hone (Finset.eq_singleton_iff_unique_mem.mpr ⟨hn', hall⟩)
          refine ⟨m, ?_⟩
          rw [h.cell_eq, if_neg fun e => hmn e.2]
          split_ifs
          · simp
          · exact (cell_ne_none_iff ho).mpr hm
      · refine ⟨n, ?_⟩
        rw [h.cell_eq, if_neg hk]
        split_ifs
        · simp
        · exact hn
    rcases h.chain a b with he | ⟨-, -, he, -⟩
    · exact hkept (he ▸ hc)
    · rw [he] at hc
      cases hl : L.chain a b with
      | nil =>
        rw [hl] at hc
        obtain rfl : id' = c := by simpa using hc
        exact ⟨k', hnew⟩
      | cons d l =>
        rw [hl] at hc hkept
        exact hkept hc

end Dawn
