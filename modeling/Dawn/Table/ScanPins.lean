import Dawn.Table.LkHaTbIter

/-!
# What a scan leaves

An increment of the iterator that returns leaves the store as it was, whatever the store is
(`LinkHashTableIter.next_neutral`). The constructor leaves one pin on the first level page and on each of
the second level pages that it looks at (`LinkHashTableIter.new_pins`).
-/

namespace Dawn

open TablePage PageStore

variable {curRid : RID} {t : Tuple} {root : ℤ} {it : LinkHashTableIter}

namespace PageStore

variable {s s₁ : PageStore} {id : ℤ}

/-- The store with one more pin for each occurrence of a page in a list. -/
def pinAll (s : PageStore) (l : List ℤ) : PageStore := s.guard (fun i => (l.count i : ℤ)) ∅

theorem pinAll_nil (s : PageStore) : s.pinAll [] = s := guard_zero s

theorem pinAll_of_getPage (h : s.getPage id = some s₁) (l : List ℤ) : s₁.pinAll l = s.pinAll (id :: l) := by
  obtain ⟨-, rfl⟩ := eq_of_getPage h
  unfold pinAll guard
  congr 1
  funext b
  obtain rfl | hne := eq_or_ne b id
  · simp [add_assoc, add_comm]
  · simp [hne, hne.symm]

theorem pinAll_append (s : PageStore) (l l' : List ℤ) : (s.pinAll l).pinAll l' = s.pinAll (l ++ l') := by
  simp only [pinAll, guard, List.count_append]
  congr 1
  funext i
  simp [add_assoc]

theorem pinAll_rUnlock (l : List ℤ) : (s.pinAll l).rUnlock id = (s.rUnlock id).pinAll l := by
  simp [pinAll, guard, rUnlock]

theorem page_of_getPage (h : s.getPage id = some s₁) : s₁.page = s.page := by
  obtain ⟨-, rfl⟩ := eq_of_getPage h
  rfl

theorem page_of_rLock (h : s.rLock id = some s₁) : s₁.page = s.page := by
  obtain ⟨l, -, rfl⟩ := Option.map_eq_some_iff.mp h
  rfl

end PageStore

namespace LinkHashTableIter

/-! ## What an increment leaves -/

section Neutral

variable {s s' : PageStore}

theorem pageLoop_neutral {id : ℤ} {r : (Bool × Tuple) × PageStore}
    (h : pageLoop curRid id t s = some r) : r.2 = s := by
  refine pageLoop.partial_correctness curRid (fun _ _ s r => r.2 = s) ?_ id t s r h
  intro loop ih id t s r h
  simp only [bind_eq_some] at h
  obtain ⟨s₁, h1, s2, h2, ⟨ok, t'⟩, -, s3, h3, h⟩ := h
  obtain rfl := writer_neutral h1 h2 h3
  split_ifs at h
  · cases h
    rfl
  · cases h
    rfl
  · exact ih _ _ _ _ h

theorem bucketLoop_neutral {level2 id j : ℤ}
    {r : (Option ℤ × ℤ × Tuple) × PageStore} (h : bucketLoop curRid level2 id j t s = some r) : r.2 = s := by
  refine bucketLoop.partial_correctness curRid level2 (fun _ _ _ s r => r.2 = s) ?_ id j t s r h
  intro loop ih id j t s r h
  split_ifs at h
  · cases h
    rfl
  · simp only [bind_eq_some] at h
    obtain ⟨⟨⟨ok, t'⟩, s₁⟩, h1, h⟩ := h
    obtain rfl : s₁ = s := pageLoop_neutral h1
    split_ifs at h
    · cases h
      rfl
    · exact ih _ _ _ _ _ h
    · cases h
      rfl

theorem levelLoop_neutral {level2 id i j : ℤ}
    {r : (Option (ℤ × ℤ) × Tuple) × PageStore} (h : levelLoop root curRid level2 id i j t s = some r) : r.2 = s := by
  refine levelLoop.partial_correctness root curRid (fun _ _ _ _ _ s r => r.2 = s) ?_ level2 id i j t s r h
  intro loop ih level2 id i j t s r h
  simp only [bind_eq_some] at h
  obtain ⟨s₁, h1, s2, h2, ⟨⟨found, id', t'⟩, s3⟩, h3, s4, h4, h⟩ := h
  obtain rfl : s3 = s2 := bucketLoop_neutral h3
  obtain rfl := reader_neutral h1 h2 h4
  cases found with
  | some j' =>
    cases h
    rfl
  | none =>
    split_ifs at h
    · exact ih _ _ _ _ _ _ _ h
    · cases h
      rfl

theorem next_neutral {it' : LinkHashTableIter} (h : it.next s = some (it', s')) : s' = s := by
  unfold next at h
  dsimp only at h
  split_ifs at h
  · cases h
    rfl
  · simp only [bind_eq_some] at h
    obtain ⟨s₁, h1, s2, h2, ⟨⟨found, t⟩, s3⟩, h3, s4, h4, h⟩ := h
    obtain rfl : s3 = s2 := levelLoop_neutral h3
    obtain rfl := reader_neutral h1 h2 h4
    rcases found with _ | ⟨i, j⟩
    · cases h
      rfl
    · cases h
      rfl

theorem advance_neutral {n : ℕ} {it' : LinkHashTableIter} (h : advance n it s = some (it', s')) : s' = s := by
  induction n generalizing it s with
  | zero =>
    cases h
    rfl
  | succ n ih =>
    obtain ⟨⟨it1, s₁⟩, h1, h2⟩ := bind_eq_some.mp h
    obtain rfl := next_neutral h1
    exact ih h2

end Neutral

/-! ## What the constructor leaves -/

/-- The second level page that the constructor looks at in a slot of the first level page. -/
def seenPage (page : ℤ → Page) (root : ℤ) (i : ℕ) : List ℤ :=
  let secPageId := LinkHashPage.getPgidInSlot (page root) i
  if secPageId = -1 then [] else [secPageId]

/-- A slot of the first level page has a second level page with a bucket. -/
def hasBucket (page : ℤ → Page) (root : ℤ) (i : ℕ) : Bool :=
  let secPageId := LinkHashPage.getPgidInSlot (page root) i
  secPageId ≠ -1 ∧ (firstUsedSlot (page secPageId)).isSome

/-- The second level pages that the loop of the constructor looks at: those in the slots up to the first
one with a bucket. -/
def seenPages (page : ℤ → Page) (root : ℤ) : List ℕ → List ℤ
  | [] => []
  | i :: rest =>
    seenPage page root i ++ if hasBucket page root i then [] else seenPages page root rest

theorem seenPages_eq_nil {page : ℤ → Page} {l : List ℕ}
    (h : ∀ i : ℕ, LinkHashPage.getPgidInSlot (page root) i = -1) : seenPages page root l = [] := by
  induction l with
  | nil => rfl
  | cons i l ih => simp [seenPages, seenPage, h i, ih]

/-- The pages that the constructor leaves pinned. -/
def scanPins (s : PageStore) (root : ℤ) : List ℤ :=
  root :: seenPages s.page root (List.range lkHaPgSlotNum.toNat)

theorem searchSlot_pins {i : ℕ} {s s' : PageStore} {r : FirstTuple}
    (h : searchSlot root i s = some (r, s')) (hr : r ≠ .exit) :
    s' = s.pinAll (seenPage s.page root i) ∧ (r = .none ↔ hasBucket s.page root i = false) := by
  unfold searchSlot at h
  unfold seenPage hasBucket
  dsimp only at h ⊢
  split_ifs at h ⊢ with hsec hsec' hsec'
  · cases h
    simp [pinAll_nil, hsec']
  · exact absurd hsec hsec'
  · exact absurd hsec' hsec
  · simp only [Option.bind_eq_bind, Option.bind_eq_some_iff] at h
    obtain ⟨s₁, h1, s2, h2, h⟩ := h
    have hpage : s2.page = s.page := (page_of_rLock h2).trans (page_of_getPage h1)
    rw [hpage, rUnlock_of_rLock h2] at h
    rw [← pinAll_of_getPage h1, pinAll_nil]
    cases hslot : firstUsedSlot (s.page (LinkHashPage.getPgidInSlot (s.page root) i)) with
    | none =>
      rw [hslot] at h
      cases h
      simp
    | some j =>
      simp only [hslot, Option.bind_eq_some_iff] at h
      obtain ⟨s3, h3, s4, h4, t, -, h⟩ := h
      cases t with
      | none =>
        cases h
        exact absurd rfl hr
      | some t =>
        simp only [Option.bind_eq_some_iff] at h
        obtain ⟨s5, h5, he⟩ := h
        obtain rfl := writer_neutral h3 h4 h5
        cases he
        simp [hsec]

theorem findFirstTuple_pins {l : List ℕ} {s s' : PageStore} {r : FirstTuple}
    (h : findFirstTuple root l s = some (r, s')) (hr : r ≠ .exit) : s' = s.pinAll (seenPages s.page root l) := by
  induction l generalizing s with
  | nil =>
    cases h
    exact (pinAll_nil _).symm
  | cons i rest ih =>
    rw [findFirstTuple, bind_eq_some] at h
    obtain ⟨⟨r1, s₁⟩, h1, h⟩ := h
    rw [seenPages]
    cases r1 with
    | none =>
      obtain ⟨rfl, hnone⟩ := searchSlot_pins h1 (by simp)
      rw [hnone.mp rfl, if_neg (by simp), ih h, pinAll_append]
      rfl
    | found t a b =>
      cases h
      obtain ⟨rfl, hnone⟩ := searchSlot_pins h1 (by simp)
      have hb : hasBucket s.page root i = true := by
        by_contra hf
        simpa using hnone.mpr (by simpa using hf)
      rw [if_pos hb, List.append_nil]
    | exit =>
      cases h
      exact absurd rfl hr

theorem new_pins {s s' : PageStore}
    (h : new root s = some (some it, s')) : s' = s.pinAll (scanPins s root) := by
  unfold new at h
  simp only [bind_eq_some] at h
  obtain ⟨s₁, h1, s2, h2, ⟨r, s3⟩, h3, h⟩ := h
  have hback : r ≠ .exit → s3.rUnlock root = s.pinAll (scanPins s root) := by
    intro hr
    rw [findFirstTuple_pins h3 hr, pinAll_rUnlock, rUnlock_of_rLock h2, page_of_rLock h2,
      page_of_getPage h1, pinAll_of_getPage h1]
    rfl
  cases r with
  | exit => simp at h
  | none =>
    simp only [Option.some.injEq, Prod.mk.injEq] at h
    rw [← h.2, hback (by simp)]
  | found t i j =>
    simp only [Option.some.injEq, Prod.mk.injEq] at h
    rw [← h.2, hback (by simp)]

end LinkHashTableIter

end Dawn
