import Dawn.Storage.SlotStore

/-!
# The tuples of a table page in order

`get_the_first_tuple` and `get_next_tuple_rid` go through the occupied slots of a page in order. The
first gives the tuple in the first occupied slot, unless that is marked (`Readable.getTheFirstTuple_eq`),
and the second goes from each occupied slot to the next (`getNextTupleRid_eq`).
-/

namespace Dawn.TablePage

/-- No tuple of the page is marked as deleted. -/
def Unmarked (p : Page) : Prop := ∀ (k : ℕ) (sl : Slot), slot p k = some sl → sl.deleted = false

/-- The occupied slots of a page from a slot on, in order. -/
def slotsFrom (p : Page) (n : ℕ) : List ℕ :=
  (List.range (getTupleCount p).toNat).filter fun k : ℕ => n ≤ k ∧ getTupleOffset p k ≠ 0

variable {p : Page} {n k : ℕ} {rest : List ℕ}

theorem mem_slotsFrom : k ∈ slotsFrom p n ↔ n ≤ k ∧ k ∈ occ p := by
  simp only [slotsFrom, List.mem_filter, List.mem_range, decide_eq_true_eq, mem_occ]
  omega

theorem nodup_slotsFrom (p : Page) (n : ℕ) : (slotsFrom p n).Nodup :=
  List.nodup_range.filter _

theorem slotsFrom_zero_eq_nil_iff : slotsFrom p 0 = [] ↔ occ p = ∅ := by
  simp only [List.eq_nil_iff_forall_not_mem, mem_slotsFrom, Finset.eq_empty_iff_forall_notMem, Nat.zero_le, true_and]

theorem slotsFrom_succ (h : slotsFrom p n = k :: rest) : slotsFrom p (k + 1) = rest := by
  have hk : n ≤ k := (mem_slotsFrom.mp (h ▸ List.mem_cons_self)).1
  have hf : slotsFrom p (k + 1) = (slotsFrom p n).filter fun j => k + 1 ≤ j := by
    unfold slotsFrom
    rw [List.filter_filter]
    apply List.filter_congr
    intro j _
    simp only [← Bool.decide_and, decide_eq_decide]
    omega
  have hs : (slotsFrom p n).Pairwise (· < ·) := List.pairwise_lt_range.filter _
  rw [h, List.pairwise_cons] at hs
  -- The slots are in order, so the first is the only one that drops out.
  rw [hf, h, List.filter_cons_of_neg (by simp)]
  exact List.filter_eq_self.mpr fun j hj => by simpa using hs.1 j hj

theorem firstSlot_eq (p : Page) (n : ℕ) : firstSlot p n (getTupleCount p) = (slotsFrom p n).head? := by
  rw [slotsFrom, List.head?_filter, firstSlot]
  congr 1
  funext k
  simp

theorem getNextTupleRid_eq {pid : ℤ} (hpid : pid ≠ -1) (k : ℕ) (nextRid : RID) : getNextTupleRid p ⟨pid, k⟩ nextRid =
      match (slotsFrom p (k + 1)).head? with
      | some j => (true, ⟨p.pageId, j⟩)
      | none => (false, ⟨-1, -1⟩) := by
  have hf := firstSlot_eq p (k + 1)
  push_cast at hf
  rw [getNextTupleRid, if_neg (by simpa using hpid)]
  simp only [hf]
  rfl

theorem WF.size_eq (h : WF p) (hu : Unmarked p) (hk : k ∈ occ p) :
    getTupleSize p k = tupleLen p k ∧ 0 < getTupleSize p k := by
  have hf : isDeleted (getTupleSize p k) = false := hu k _ (slot_of_mem hk)
  have hd : ¬ getTupleSize p k < 0 := by
    rw [← isDeleted_getTupleSize, hf]
    simp
  have hl := tupleLen_eq p k
  rw [if_neg hd] at hl
  exact ⟨hl.symm, by have := (h.extent hk).1; omega⟩

/-- Reading the first tuple of the page fails no assertion. -/
def Readable (p : Page) : Prop := getTheFirstTuple p ≠ none

theorem Readable.getTheFirstTuple_eq (h : Readable p) : getTheFirstTuple p =
    some ((slotsFrom p 0).head?.bind fun k => getTuple p ⟨p.pageId, k⟩) := by
  have hf := firstSlot_eq p 0
  simp only [Nat.cast_zero] at hf
  rw [Readable, getTheFirstTuple, hf] at h
  rw [getTheFirstTuple, hf]
  cases hs : (slotsFrom p 0).head? with
  | none => rfl
  | some k =>
    have hk : k ∈ occ p := (mem_slotsFrom.mp (List.mem_of_head? hs)).2
    have hpos : 0 < getTupleSize p k := by
      by_contra hneg
      simp only [hs, if_neg hneg] at h
      exact h rfl
    simp only [if_pos hpos, Option.bind_some, getTuple_eq, slot_of_mem hk, Option.map_some]
    rw [tupleLen_eq, if_neg (by omega)]

theorem head?_slotsFrom_zero : (slotsFrom p 0).head? = some k ↔ k ∈ occ p ∧ ∀ n < k, n ∉ occ p := by
  have hf : (slotsFrom p 0).head? = (List.range (getTupleCount p).toNat).find?
      fun k : ℕ => getTupleOffset p k ≠ 0 := by
    rw [slotsFrom, List.head?_filter]
    simp
  simp only [hf, List.find?_range_eq_some, List.mem_range, mem_occ, decide_eq_true_eq, Bool.not_eq_true',
    decide_eq_false_iff_not, not_and]
  constructor
  · rintro ⟨h1, h2, h3⟩
    exact ⟨⟨by omega, h1⟩, fun n hn _ => h3 n hn⟩
  · rintro ⟨⟨h1, h2⟩, h3⟩
    exact ⟨h2, by omega, fun n hn => h3 n hn (by omega)⟩

theorem WF.readable_iff (h : WF p) : Readable p ↔
    ∀ k sl, slot p k = some sl → (∀ n < k, slot p n = none) → sl.deleted = false := by
  have hf := firstSlot_eq p 0
  simp only [Nat.cast_zero] at hf
  have hfirst : ∀ k, (slotsFrom p 0).head? = some k ↔ slot p k ≠ none ∧ ∀ n < k, slot p n = none := by
    intro k
    simp only [head?_slotsFrom_zero, ← slot_ne_none_iff, not_not]
  rw [Readable, getTheFirstTuple, hf]
  cases hs : (slotsFrom p 0).head? with
  | none =>
    simp only [ne_eq, reduceCtorEq, not_false_eq_true, true_iff]
    intro k sl hk hlt
    rw [(hfirst k).mpr ⟨by simp [hk], hlt⟩] at hs
    cases hs
  | some k =>
    obtain ⟨hk, hlt⟩ := (hfirst k).mp hs
    have hocc : k ∈ occ p := slot_ne_none_iff.mp hk
    have hlen := (h.extent hocc).1
    have hdel := isDeleted_getTupleSize p k
    rw [tupleLen_eq] at hlen
    have hiff : (∀ n sl, slot p n = some sl → (∀ m < n, slot p m = none) → sl.deleted = false) ↔
        isDeleted (getTupleSize p k) = false := by
      constructor
      · intro hall
        exact hall k _ (slot_of_mem hocc) hlt
      · intro hd n sl hn hmin
        have he := (hfirst n).mpr ⟨by simp [hn], hmin⟩
        rw [hs, Option.some.injEq] at he
        rw [← he, slot_of_mem hocc, Option.some.injEq] at hn
        rw [← hn]
        exact hd
    have hpos : isDeleted (getTupleSize p k) = false ↔ 0 < getTupleSize p k := by
      rw [Bool.eq_false_iff, ne_eq, hdel]
      split_ifs at hlen <;> omega
    rw [hiff, hpos]
    by_cases hsize : 0 < getTupleSize p k <;> simp [hsize]

theorem WF.readable (h : WF p) (hu : Unmarked p) : Readable p :=
  h.readable_iff.mpr fun k sl hk _ => hu k sl hk

end Dawn.TablePage
