import Dawn.Storage.PageLinks

/-!
# Inserting into a page that is not initialised

`lk_ha_insert_tuple` puts a new page at the end of a full bucket and inserts into it without `init`, so
`insert_tuple` reads whatever the frame held. It leaves a well-formed page with the one tuple exactly
when the bytes are `Ready` (`insertTuple_alone_iff`); a page that it has failed on once it fails on
every time (`insertTuple_again`).
-/

namespace Dawn.TablePage

open Function

/-- The bytes of a page read as those of a page without tuples that has room for a tuple of the size. -/
structure Ready (size : ℤ) (p : Page) : Prop where
  /-- The tuple count is not negative. -/
  count_nonneg : 0 ≤ getTupleCount p
  /-- Every slot is empty. -/
  occ_eq : occ p = ∅
  /-- The tuples begin where the page ends. -/
  fsp_eq : getFreeSpacePointer p = 4096
  /-- The tuple fits behind the records, of which there is at least one then. -/
  room : 144 + max (getTupleCount p) 1 * 8 + size ≤ 4096

variable {p p' : Page} {t : Tuple} {k : ℕ} {size : ℤ}

theorem Ready.congr_tail (hr : Ready size p) (h : ∀ i, 72 ≤ i → p'.data i = p.data i) : Ready size p' := by
  obtain ⟨hc, hf, -, hocc⟩ := records_eq_of_tail h
  exact ⟨hc ▸ hr.count_nonneg, hocc.trans hr.occ_eq, hf.trans hr.fsp_eq, hc ▸ hr.room⟩

theorem getFreeSpacePointer_setTupleCount (p : Page) (c : ℤ) :
    getFreeSpacePointer (setTupleCount p c) = getFreeSpacePointer p := by
  rw [getFreeSpacePointer_eq, setTupleCount_data]
  simp (disch := omega) only [Bytes.i32_setI32_of_disjoint, getFreeSpacePointer_eq]

theorem setTupleCount_records (p : Page) {c : ℤ} (hc : IsI32 c) : getTupleCount (setTupleCount p c) = c ∧
    getFreeSpacePointer (setTupleCount p c) = getFreeSpacePointer p ∧
    ∀ j : ℕ, getTupleOffset (setTupleCount p c) j = getTupleOffset p j := by
  refine ⟨Bytes.i32_setI32 hc, getFreeSpacePointer_setTupleCount p c, fun j => ?_⟩
  rw [getTupleOffset_eq, setTupleCount_data]
  simp (disch := omega) only [Bytes.i32_setI32_of_disjoint, getTupleOffset_eq]

theorem pageId_of_insertTuple {rid : RID} (h : (insertTuple p t).1 = some rid) : rid.pageId = p.pageId := by
  have hpid := getEmptySlot_pageId p
  rcases he : getEmptySlot p with ⟨n, q⟩
  rw [he] at hpid
  simp only [insertTuple, he] at h
  split_ifs at h
  cases h
  exact hpid

theorem insertTuple_some_cases (hs : 8 ≤ t.size) {pid : ℤ} (h : (insertTuple p t).1 = some ⟨pid, k⟩) :
    ∃ q, (insertTuple p t).2 = storeTuple q k t ∧ (k : ℤ) < getTupleCount q ∧
      144 + getTupleCount q * 8 + t.size ≤ getFreeSpacePointer q ∧
      (q = p ∧ getTupleOffset p k = 0 ∨ q = setTupleCount p (k + 1) ∧ IsI32 (k + 1) ∧
        getTupleCount p = k ∧ ∀ j : ℕ, j < k → getTupleOffset p j ≠ 0) := by
  have hf : IsI32 (getFreeSpacePointer p) := Bytes.isI32_i32 _ _
  rw [IsI32] at hf
  rcases getEmptySlot_cases p with ⟨n, he, hn, hz⟩ | ⟨hall, ⟨hfree, he⟩ | ⟨hfree, he⟩⟩
  · simp only [insertTuple, he] at h ⊢
    split_ifs at h ⊢ with hfit
    simp only [Option.some.injEq, RID.mk.injEq, Nat.cast_inj] at h
    obtain ⟨-, rfl⟩ := h
    rw [getFreeSpace_eq] at hfit
    exact ⟨p, rfl, hn, by omega, Or.inl ⟨rfl, hz⟩⟩
  · simp only [insertTuple, he] at h
    rw [if_pos (by omega)] at h
    cases h
  · simp only [insertTuple, he] at h ⊢
    split_ifs at h ⊢ with hfit
    simp only [Option.some.injEq, RID.mk.injEq] at h
    obtain ⟨-, hk⟩ := h
    rw [getFreeSpace_eq] at hfree
    have hi : IsI32 ((k : ℤ) + 1) := ⟨by omega, by omega⟩
    obtain ⟨hc, hfsp, -⟩ := setTupleCount_records p hi
    rw [hk, getFreeSpace_eq, hc, hfsp] at hfit
    rw [hk]
    exact ⟨_, rfl, by rw [hc]; omega, by rw [hc, hfsp]; omega,
      Or.inr ⟨rfl, hi, rfl, fun j hj => hall j (by omega)⟩⟩

theorem insertTuple_data_of_some (hs : 8 ≤ t.size) {pid : ℤ}
    (h : (insertTuple p t).1 = some ⟨pid, k⟩) {i : ℤ} (hi : i < 72) : (insertTuple p t).2.data i = p.data i := by
  obtain ⟨q, he, hk, hfit, hq⟩ := insertTuple_some_cases hs h
  rw [he, storeTuple_data_of_notMem (by omega) (Or.inl hi) (Or.inl (by omega)) (Or.inl (by omega))]
  rcases hq with ⟨rfl, -⟩ | ⟨rfl, -⟩
  · rfl
  · exact setTupleCount_data_of_notMem (Or.inl (by omega))

theorem storeTuple_alone {q : Page} (hs : 0 < t.size) (hk : (k : ℤ) < getTupleCount q)
    (hfsp : getFreeSpacePointer q = 4096) (hfit : 144 + getTupleCount q * 8 + t.size ≤ 4096)
    (hocc : ∀ j ∈ occ q, j = k) : WF (storeTuple q k t) ∧
      slot (storeTuple q k t) = update (fun _ => none) k (some ⟨t.bytes, false⟩) := by
  have herase : (occ q).erase k = ∅ := Finset.eq_empty_iff_forall_notMem.mpr fun j hj =>
    Finset.ne_of_mem_erase hj (hocc j (Finset.mem_of_mem_erase hj))
  have hbut : WFBut q k := ⟨hk, by omega, by rw [herase, hfsp]; exact Packed.empty _ _ _⟩
  obtain ⟨hwf, -, -, hslot⟩ := storeTuple_spec hbut hs (by omega)
  refine ⟨hwf, ?_⟩
  rw [hslot]
  funext j
  obtain rfl | hj := eq_or_ne j k
  · rw [update_self, update_self]
  · rw [update_of_ne hj, update_of_ne hj, slot_of_notMem fun hm => hj (hocc j hm)]

theorem Ready.insertTuple (hr : Ready t.size p) (hs : 0 < t.size) :
    ∃ k : ℕ, (TablePage.insertTuple p t).1 = some ⟨p.pageId, k⟩ ∧ WF (TablePage.insertTuple p t).2 ∧
      slot (TablePage.insertTuple p t).2 = update (fun _ => none) k (some ⟨t.bytes, false⟩) := by
  have hcount := hr.count_nonneg
  have hroom := hr.room
  have hno : ∀ j : ℕ, (j : ℤ) < getTupleCount p → getTupleOffset p j = 0 := fun j hj => by
    by_contra hne
    have hmem := mem_occ.mpr ⟨hj, hne⟩
    rw [hr.occ_eq] at hmem
    exact Finset.notMem_empty j hmem
  rcases getEmptySlot_cases p with ⟨k, he, hk, -⟩ | ⟨hall, hnew⟩
  · have hfree : ¬ getFreeSpace p < t.size := by
      rw [getFreeSpace_eq, hr.fsp_eq]
      omega
    simp only [TablePage.insertTuple, he, if_neg hfree]
    exact ⟨k, rfl, storeTuple_alone (by omega) hk hr.fsp_eq (by omega) fun j hj => by
      rw [hr.occ_eq] at hj
      exact absurd hj (Finset.notMem_empty j)⟩
  · -- There is no slot yet.
    have hzero : getTupleCount p = 0 := by
      by_contra hpos
      exact hall 0 (by omega) (hno 0 (by omega))
    have hfree : getFreeSpace p = 3952 := by
      rw [getFreeSpace_eq, hr.fsp_eq, hzero]
      norm_num
    obtain ⟨hlt, -⟩ | ⟨-, he⟩ := hnew
    · omega
    rw [hzero] at he
    obtain ⟨hc, hfsp, -⟩ := setTupleCount_records p (c := 0 + 1) (by norm_num [IsI32])
    have hfree' : ¬ getFreeSpace (setTupleCount p (0 + 1)) < t.size := by
      rw [getFreeSpace_eq, hc, hfsp, hr.fsp_eq]
      omega
    simp only [TablePage.insertTuple, he, if_neg hfree']
    refine ⟨0, rfl, storeTuple_alone (k := 0) (by omega) (by rw [hc]; norm_num) 
      (by rw [hfsp, hr.fsp_eq]) (by rw [hc]; omega) fun j hj => ?_⟩
    have := (mem_occ.mp hj).1
    omega

/-- `insert_tuple` leaves a well-formed page that holds the one tuple exactly if the bytes of the page
are ready for it. -/
theorem insertTuple_alone_iff (hs : 8 ≤ t.size) :
    (∃ k : ℕ, (insertTuple p t).1 = some ⟨p.pageId, k⟩ ∧ WF (insertTuple p t).2 ∧
      slot (insertTuple p t).2 = update (fun _ => none) k (some ⟨t.bytes, false⟩)) ↔ Ready t.size p := by
  constructor
  · rintro ⟨k, hrid, hwf, hslot⟩
    obtain ⟨q, he, hk, hfit, hq⟩ := insertTuple_some_cases hs hrid
    rw [he] at hwf hslot
    obtain ⟨hc, hfsp, hoff, hsize⟩ := storeTuple_records hk (by omega) hfit
    have hocc : occ (storeTuple q k t) = {k} := by
      ext j
      rw [← slot_ne_none_iff, hslot, Finset.mem_singleton]
      by_cases hj : j = k <;> simp [hj]
    -- The other slots are as they were.
    have hother : ∀ j : ℕ, j ≠ k → (j : ℤ) < getTupleCount q → getTupleOffset q j = 0 := by
      intro j hj hlt
      by_contra hne
      have hmem : j ∈ occ (storeTuple q k t) :=
        mem_occ.mpr ⟨by rwa [hc], by rwa [hoff j hlt, if_neg hj]⟩
      rw [hocc, Finset.mem_singleton] at hmem
      exact hj hmem
    have hsum := hwf.packed.sum_len
    rw [hocc, Finset.sum_singleton, tupleLen_eq, hsize k hk, if_pos rfl, if_neg (by omega), hfsp] at hsum
    rcases hq with ⟨rfl, hz⟩ | ⟨rfl, hi, hcount, hne⟩
    · refine ⟨by omega, ?_, by omega, by omega⟩
      refine Finset.eq_empty_iff_forall_notMem.mpr fun j hj => ?_
      obtain ⟨hlt, hne⟩ := mem_occ.mp hj
      by_cases hjk : j = k
      · exact hne (hjk ▸ hz)
      · exact hne (hother j hjk hlt)
    · obtain ⟨hc', hfsp', hoff'⟩ := setTupleCount_records p hi
      have hzero : k = 0 := by
        by_contra hpos
        refine hne 0 (by omega) ?_
        exact hother 0 (fun e => hpos e.symm) (by rw [hc']; omega)
      refine ⟨by omega, ?_, by omega, by omega⟩
      exact Finset.eq_empty_iff_forall_notMem.mpr fun j hj => by
        have := (mem_occ.mp hj).1
        omega
  · exact fun hr => hr.insertTuple (by omega)

/-! ## A page that has no room -/

theorem getFreeSpace_insertTuple_of_none (h : (insertTuple p t).1 = none) :
    getFreeSpace (insertTuple p t).2 < t.size := by
  rcases he : getEmptySlot p with ⟨n, q⟩
  simp only [insertTuple, he] at h ⊢
  split_ifs at h ⊢ with hfree
  exact hfree

theorem insertTuple_of_getFreeSpace_lt (h : getFreeSpace p < t.size) : (insertTuple p t).1 = none := by
  have hf : IsI32 (getFreeSpacePointer p) := Bytes.isI32_i32 _ _
  have hn : IsI32 (getTupleCount p) := Bytes.isI32_i32 _ _
  rw [IsI32] at hf hn
  rcases getEmptySlot_cases p with ⟨k, he, -⟩ | ⟨-, ⟨hfree, he⟩ | ⟨hfree, he⟩⟩
  · simp only [insertTuple, he, if_pos h]
  · simp only [insertTuple, he, if_pos h]
  · rw [getFreeSpace_eq] at h hfree
    obtain ⟨hc, hfsp, -⟩ := setTupleCount_records p (c := getTupleCount p + 1) ⟨by omega, by omega⟩
    have hlt : getFreeSpace (setTupleCount p (getTupleCount p + 1)) < t.size := by
      rw [getFreeSpace_eq, hc, hfsp]
      omega
    simp only [insertTuple, he, if_pos hlt]

theorem insertTuple_again (h : (insertTuple p t).1 = none) : (insertTuple (insertTuple p t).2 t).1 = none :=
  insertTuple_of_getFreeSpace_lt (getFreeSpace_insertTuple_of_none h)

theorem insertTuple_eq_none_congr (h : ∀ i, 72 ≤ i → p'.data i = p.data i) :
    (insertTuple p' t).1 = none ↔ (insertTuple p t).1 = none := by
  have hiff : ∀ q : Page, (insertTuple q t).1 = none ↔ getFreeSpace (getEmptySlot q).2 < t.size := by
    intro q
    rcases he : getEmptySlot q with ⟨n, q'⟩
    simp only [insertTuple, he]
    split_ifs with hfree <;> simp [hfree]
  obtain ⟨hc, hf, hr, -⟩ := records_eq_of_tail h
  have hfree : getFreeSpace p' = getFreeSpace p := by
    rw [getFreeSpace_eq, getFreeSpace_eq, hc, hf]
  have hgrown : ∀ c, getFreeSpace (setTupleCount p' c) = getFreeSpace (setTupleCount p c) := by
    intro c
    have hcount : ∀ q, getTupleCount (setTupleCount q c) = wrap32 c := fun q =>
      Bytes.i32_setI32_eq_wrap32 _ _ _
    rw [getFreeSpace_eq, getFreeSpace_eq, hcount, hcount, getFreeSpacePointer_setTupleCount,
      getFreeSpacePointer_setTupleCount, hf]
  have hslot : getFreeSpace (getEmptySlot p').2 = getFreeSpace (getEmptySlot p).2 := by
    simp only [getEmptySlot, hc, hfree, (hr _).1]
    split
    · exact hfree
    · split_ifs
      · exact hfree
      · exact hgrown _
  rw [hiff, hiff, hslot]

end Dawn.TablePage
