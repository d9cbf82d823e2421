import Dawn.Storage.PageScan

/-!
# Links and tuples of a table page

The links to the neighbours lie in a table page's header, before everything that the tuples need. So
changing a link changes no tuple (`Good.setNextPageId`, `Good.setPrevPageId`), and an operation on
tuples changes no link of a well-formed page.
-/

namespace Dawn.TablePage

open Function

/-- A page that a table with tuples of size `s` can have in a bucket: it holds tuples of that size only,
none of them marked. -/
structure Good (s : ℤ) (p : Page) : Prop where
  /-- All tuples have the size. -/
  uniform : Uniform s p
  /-- No tuple is marked. -/
  unmarked : Unmarked p

variable {s : ℤ} {p p' : Page} {k : ℕ}

variable {i : ℤ} {t : Tuple} {sl : Slot}

theorem Good.wf (h : Good s p) : WF p := h.uniform.wf

theorem Good.readable (h : Good s p) : Readable p := h.wf.readable h.unmarked

theorem good_init (hs : 8 ≤ s) (p : Page) (prev next : ℤ) : Good s (init p prev next) :=
  ⟨uniform_init hs p prev next, fun k sl h => by simp at h⟩

/-! ## Changing a link -/

theorem records_eq_of_tail (h : ∀ i, 72 ≤ i → p'.data i = p.data i) :
    getTupleCount p' = getTupleCount p ∧ getFreeSpacePointer p' = getFreeSpacePointer p ∧
    (∀ k : ℕ, getTupleOffset p' k = getTupleOffset p k ∧ getTupleSize p' k = getTupleSize p k) ∧ occ p' = occ p := by
  have hi : ∀ off : ℤ, 72 ≤ off → p'.data.i32 off = p.data.i32 off := fun off ho =>
    Bytes.i32_congr fun i _ => h _ (by omega)
  have hc : getTupleCount p' = getTupleCount p := hi 140 (by norm_num)
  have hr : ∀ k : ℕ, getTupleOffset p' k = getTupleOffset p k ∧ getTupleSize p' k = getTupleSize p k :=
    fun k => ⟨hi (144 + k * 8) (by omega), hi (144 + k * 8 + 4) (by omega)⟩
  exact ⟨hc, hi 72 (by norm_num), hr, occ_congr hc fun j _ => (hr j).1⟩

theorem WF.slot_eq_of_tail (hw : WF p) (h : ∀ i, 72 ≤ i → p'.data i = p.data i) : slot p' = slot p := by
  obtain ⟨hc, -, hr, hocc⟩ := records_eq_of_tail h
  funext k
  refine slot_congr (by rw [hocc]) (fun _ => (hr k).2) fun hk => ?_
  rw [(hr k).1]
  apply Bytes.read_congr
  intro i _
  have h1 := hw.count_nonneg
  have h2 := hw.room
  have h3 := (hw.extent hk).2.1
  exact h _ (by omega)

theorem WF.congr_tail (hw : WF p) (h : ∀ i, 72 ≤ i → p'.data i = p.data i) : WF p' := by
  obtain ⟨hc, hf, hr, hocc⟩ := records_eq_of_tail h
  refine ⟨?_, ?_, ?_⟩
  · rw [hc]
    exact hw.count_nonneg
  · rw [hc, hf]
    exact hw.room
  · rw [hocc, hf]
    refine hw.packed.congr (fun k _ => (hr k).1) fun k _ => ?_
    rw [tupleLen, tupleLen, (hr k).2]

theorem Sized.congr_tail {lo : ℤ} (hz : Sized s lo p) (h : ∀ i, 72 ≤ i → p'.data i = p.data i) : Sized s lo p' := by
  obtain ⟨hc, -, hr, hocc⟩ := records_eq_of_tail h
  refine ⟨hz.wf.congr_tail h, fun k hk => ?_, fun i h1 h2 => ?_⟩
  · rw [tupleLen, (hr k).2]
    exact hz.len_eq k (hocc ▸ hk)
  · have h0 := hz.wf.count_nonneg
    rw [hc] at h1
    rw [h i (by omega)]
    exact hz.gap i h1 h2

theorem Uniform.congr_tail (hu : Uniform s p) (h : ∀ i, 72 ≤ i → p'.data i = p.data i) : Uniform s p' :=
  (hu.sized.congr_tail h).uniform (by rw [(records_eq_of_tail h).1]; exact hu.slots)

theorem Good.congr_tail (hg : Good s p) (h : ∀ i, 72 ≤ i → p'.data i = p.data i) : Good s p' ∧ slot p' = slot p := by
  have hsl := hg.wf.slot_eq_of_tail h
  refine ⟨⟨hg.uniform.congr_tail h, ?_⟩, hsl⟩
  intro k sl hk
  rw [hsl] at hk
  exact hg.unmarked k sl hk

theorem setNextPageId_data_tail (p : Page) (v : ℤ) (hi : 72 ≤ i) : (setNextPageId p v).data i = p.data i := by
  rw [setNextPageId_data]
  exact Bytes.setI32_of_notMem (Or.inr (by omega))

theorem setPrevPageId_data_tail (p : Page) (v : ℤ) (hi : 72 ≤ i) : (setPrevPageId p v).data i = p.data i := by
  rw [setPrevPageId_data]
  exact Bytes.setI32_of_notMem (Or.inr (by omega))

theorem Good.setNextPageId (h : Good s p) (v : ℤ) :
    Good s (setNextPageId p v) ∧ slot (TablePage.setNextPageId p v) = slot p :=
  h.congr_tail fun _ => setNextPageId_data_tail p v

theorem Good.setPrevPageId (h : Good s p) (v : ℤ) :
    Good s (setPrevPageId p v) ∧ slot (TablePage.setPrevPageId p v) = slot p :=
  h.congr_tail fun _ => setPrevPageId_data_tail p v

theorem getNextPageId_setNextPageId (p : Page) {v : ℤ} (hv : IsI32 v) :
    getNextPageId (TablePage.setNextPageId p v) = v := Bytes.i32_setI32 hv

theorem getNextPageId_setPrevPageId (p : Page) (v : ℤ) :
    getNextPageId (TablePage.setPrevPageId p v) = getNextPageId p :=
  Bytes.i32_setI32_of_disjoint (Or.inr (by
    simp only [nextPgidOffset, prevPgidOffset, startOffset, comPgHeaderSz, pgidTSize]; omega))

theorem getPrevPageId_setPrevPageId (p : Page) {v : ℤ} (hv : IsI32 v) :
    getPrevPageId (TablePage.setPrevPageId p v) = v := Bytes.i32_setI32 hv

/-! ## Changing tuples -/

theorem getNextPageId_congr (h : ∀ i, i < 72 → p'.data i = p.data i) : getNextPageId p' = getNextPageId p :=
  Bytes.i32_congr fun i hi => h _ (by
    simp only [nextPgidOffset, prevPgidOffset, startOffset, comPgHeaderSz, pgidTSize]; omega)

theorem getPrevPageId_congr (h : ∀ i, i < 72 → p'.data i = p.data i) : getPrevPageId p' = getPrevPageId p :=
  Bytes.i32_congr fun i hi => h _ (by
    simp only [prevPgidOffset, startOffset, comPgHeaderSz]; omega)

theorem getEmptySlot_data (h : i < 140 ∨ 144 ≤ i) : (getEmptySlot p).2.data i = p.data i := by
  rcases getEmptySlot_cases p with ⟨k, he, -⟩ | ⟨-, ⟨-, he⟩ | ⟨-, he⟩⟩ <;> rw [he]
  exact setTupleCount_data_of_notMem h

theorem mem_occ_of_lt_getEmptySlot {n : ℕ} (h : (getEmptySlot p).1 = k) (hn : n < k) : n ∈ occ p := by
  unfold getEmptySlot at h
  split at h
  · next hf =>
    rw [Nat.cast_inj] at h
    obtain ⟨-, hmem, hbefore⟩ := List.find?_range_eq_some.mp hf
    rw [List.mem_range] at hmem
    exact mem_occ.mpr ⟨by omega, by simpa using hbefore n (h ▸ hn)⟩
  · next hf =>
    have hall : ∀ n : ℕ, (n : ℤ) < getTupleCount p → getTupleOffset p n ≠ 0 := fun n hlt => by
      simpa using List.find?_eq_none.mp hf n (List.mem_range.mpr (by omega))
    split_ifs at h
    · simp only at h
      omega
    · have hc : getTupleCount p = k := h
      have hlt : (n : ℤ) < getTupleCount p := by omega
      exact mem_occ.mpr ⟨hlt, hall n hlt⟩

theorem mem_occ_of_lt_insertTuple {pid : ℤ} {n : ℕ}
    (h : (insertTuple p t).1 = some ⟨pid, k⟩) (hn : n < k) : n ∈ occ p := by
  rcases he : getEmptySlot p with ⟨m, q⟩
  simp only [insertTuple, he] at h
  split_ifs at h
  simp only [Option.some.injEq, RID.mk.injEq] at h
  exact mem_occ_of_lt_getEmptySlot (by rw [he]; exact h.2) hn

theorem insertTuple_data_of_none (h : (insertTuple p t).1 = none)
    (hi : i < 140 ∨ 144 ≤ i) : (insertTuple p t).2.data i = p.data i := by
  have he := getEmptySlot_data (p := p) hi
  rcases hs : getEmptySlot p with ⟨n, q⟩
  rw [hs] at he
  simp only [insertTuple, hs] at h ⊢
  split_ifs at h ⊢
  exact he

theorem getNextPageId_insertTuple_of_none (h : (insertTuple p t).1 = none) :
    getNextPageId (insertTuple p t).2 = getNextPageId p :=
  getNextPageId_congr fun _ hi => insertTuple_data_of_none h (Or.inl (by omega))

theorem Uniform.insertTuple_data (hs : 8 ≤ s) (h : Uniform s p) (ht : t.size = s)
    (hi : i < 72) : (insertTuple p t).2.data i = p.data i := by
  have he := getEmptySlot_data (p := p) (i := i) (Or.inl (by omega))
  rcases getEmptySlot_uniform hs h with ⟨k, h1, h2, h3, h4, -⟩ | ⟨he', hfree, -⟩
  · rcases hq : getEmptySlot p with ⟨n, q⟩
    simp only [hq] at h1 h2 h3 h4 he
    subst h1
    simp only [insertTuple, hq]
    split_ifs with hfit
    · exact he
    · have hc := h4.wf.count_nonneg
      have hf : getFreeSpace q = getFreeSpacePointer q - (144 + getTupleCount q * 8) :=
        getFreeSpace_eq q
      rw [storeTuple_data_of_notMem (by omega) (Or.inl hi) (Or.inl (by omega)) (Or.inl (by omega)), he]
  · simp only [insertTuple, he']
    rw [if_pos (by omega)]

theorem Uniform.applyDelete_data (h : Uniform s p) (hk : k ∈ occ p) {pid : ℤ} (hi : i < 72) :
    (TablePage.applyDelete p ⟨pid, k⟩).data i = p.data i := by
  have h1 := h.wf.count_nonneg
  have h2 := h.wf.room
  exact applyDelete_data_of_notMem h.wf hk (Or.inl hi) (Or.inl (by omega)) (by omega)

theorem unmarked_update {o : Option Slot} (h : ∀ j sl, j ≠ k → slot p j = some sl → sl.deleted = false)
    (ho : ∀ sl, o = some sl → sl.deleted = false) (hs : slot p' = update (slot p) k o) : Unmarked p' := by
  intro j sl hj
  rw [hs] at hj
  obtain rfl | hne := eq_or_ne j k
  · rw [update_self] at hj
    exact ho sl hj
  · rw [update_of_ne hne] at hj
    exact h j sl hne hj

theorem Good.insertTuple (hs : 8 ≤ s) (h : Good s p) (ht : t.size = s) :
    Good s (TablePage.insertTuple p t).2 ∧ getNextPageId (TablePage.insertTuple p t).2 = getNextPageId p ∧
    ((((occ p).card : ℤ) < getTpNumCapacity s ∧ ∃ k : ℕ, k ∉ occ p ∧
      (TablePage.insertTuple p t).1 = some ⟨p.pageId, k⟩ ∧
      slot (TablePage.insertTuple p t).2 = update (slot p) k (some ⟨t.bytes, false⟩)) ∨
    (getTpNumCapacity s ≤ (occ p).card ∧ (TablePage.insertTuple p t).1 = none ∧
      slot (TablePage.insertTuple p t).2 = slot p)) := by
  obtain ⟨hu, hcase⟩ := insertTuple_uniform hs h.uniform ht
  refine ⟨⟨hu, ?_⟩, getNextPageId_congr fun i hi => h.uniform.insertTuple_data hs ht hi, hcase⟩
  rcases hcase with ⟨-, k, -, -, hsl⟩ | ⟨-, -, hsl⟩
  · exact unmarked_update (fun j sl _ => h.unmarked j sl) (fun sl e => by cases e; rfl) hsl
  · intro k sl hk
    rw [hsl] at hk
    exact h.unmarked k sl hk

theorem Good.updateTuple (hs : 8 ≤ s) (h : Good s p) (hk : k ∈ occ p) (ht : t.size = s) :
    Good s (TablePage.updateTuple p t ⟨p.pageId, k⟩).2 ∧
    getNextPageId (TablePage.updateTuple p t ⟨p.pageId, k⟩).2 = getNextPageId p ∧
    slot (TablePage.updateTuple p t ⟨p.pageId, k⟩).2 = update (slot p) k (some ⟨t.bytes, false⟩) := by
  have hsize : getTupleSize p k = t.size := by
    rw [(h.wf.size_eq h.unmarked hk).1, h.uniform.len_eq k hk, ht]
  obtain ⟨hu, hsl⟩ := updateTuple_uniform hs h.uniform hk hsize
  obtain ⟨hd, -⟩ := t.data_eq_of_pos (by omega)
  have hdel : isDeleted (getTupleSize p k) = false := h.unmarked k _ (slot_of_mem hk)
  rw [slot_of_mem hk, Option.map_some, hd, Option.getD_some, hdel] at hsl
  refine ⟨⟨hu, unmarked_update (fun j sl _ => h.unmarked j sl) (fun sl e => by cases e; rfl) hsl⟩, ?_, hsl⟩
  rw [updateTuple_of_mem hk hsize]
  refine getNextPageId_congr fun i hi => ?_
  have h1 := h.wf.count_nonneg
  have h2 := h.wf.room
  have h3 := (h.wf.extent hk).2.1
  simp only [Tuple.serializeTo, hd]
  exact Bytes.write_of_notMem (Or.inl (by omega))

theorem Good.applyDelete (hs : 8 ≤ s) (h : Good s p) (hk : k ∈ occ p) (pid : ℤ) :
    Good s (TablePage.applyDelete p ⟨pid, k⟩) ∧ getNextPageId (TablePage.applyDelete p ⟨pid, k⟩) = getNextPageId p ∧
    slot (TablePage.applyDelete p ⟨pid, k⟩) = update (slot p) k none := by
  have hsl := (applyDelete_spec pid h.wf hk).2.2
  exact ⟨⟨h.uniform.applyDelete hs hk, unmarked_update (fun j sl _ => h.unmarked j sl) (fun sl e => by cases e) hsl⟩,
    getNextPageId_congr fun i hi => h.uniform.applyDelete_data hk hi, hsl⟩

theorem markDelete_data (hk : k ∈ occ p) (hi : i < 144) : (markDelete p ⟨p.pageId, k⟩).2.data i = p.data i := by
  rw [markDelete_of_mem hk]
  exact Bytes.setI32_of_notMem (Or.inl (by
    simp only [firstTupleOffset, tupleCntOffset, freeSpacePtrOffset, nextPgidOffset, prevPgidOffset,
      startOffset, comPgHeaderSz, pgidTSize, tablePageReserved, sizeTSize, tupleRecordSz, offsetTSize]
    omega))

theorem WF.markApplyDelete (h : WF p) (hk : k ∈ occ p) :
    (markDelete p ⟨p.pageId, k⟩).1 = true ∧ k ∈ occ (markDelete p ⟨p.pageId, k⟩).2 ∧
    slot (TablePage.applyDelete (markDelete p ⟨p.pageId, k⟩).2 ⟨p.pageId, k⟩) = update (slot p) k none := by
  obtain ⟨hv, hl, -⟩ := setDeletedFlag_spec p k
  have hwf : WF (markDelete p ⟨p.pageId, k⟩).2 := by
    rw [markDelete_of_mem hk]
    exact h.setTupleSize hv hl
  have hms := slot_markDelete h hk
  have hkq : k ∈ occ (markDelete p ⟨p.pageId, k⟩).2 := by
    rw [← slot_ne_none_iff, hms, update_self, slot_of_mem hk]
    simp
  refine ⟨by rw [markDelete_of_mem hk], hkq, ?_⟩
  rw [(applyDelete_spec p.pageId hwf hkq).2.2, hms, update_idem]

theorem Good.markApplyDelete (hs : 8 ≤ s) (h : Good s p) (hk : k ∈ occ p) : (markDelete p ⟨p.pageId, k⟩).1 = true ∧
    Good s (TablePage.applyDelete (markDelete p ⟨p.pageId, k⟩).2 ⟨p.pageId, k⟩) ∧
    getNextPageId (TablePage.applyDelete (markDelete p ⟨p.pageId, k⟩).2 ⟨p.pageId, k⟩) = getNextPageId p ∧
    slot (TablePage.applyDelete (markDelete p ⟨p.pageId, k⟩).2 ⟨p.pageId, k⟩) = update (slot p) k none := by
  obtain ⟨hok, hkq, hsl⟩ := h.wf.markApplyDelete hk
  have hmu := h.uniform.markDelete hk
  refine ⟨hok, ⟨hmu.applyDelete hs hkq, unmarked_update (fun j sl _ => h.unmarked j sl)
    (fun sl e => by cases e) hsl⟩, getNextPageId_congr fun i hi => ?_, hsl⟩
  rw [hmu.applyDelete_data hkq hi, markDelete_data hk (by omega)]

end Dawn.TablePage
