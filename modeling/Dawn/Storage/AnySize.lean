import Dawn.Storage.PageLinks

/-!
# Tuples of any size in a table page

`get_empty_slot` returns `-1` when there is no empty slot and no space for another record, and
`insert_tuple` does not look at it: it only asks whether the tuple fits into the free space. A tuple
smaller than a record can fit where a record does not. Its record is then written before the first slot,
over the reserved bytes and the tuple count. For tuples of one size that happens in some run exactly for
the sizes 1, 2, 3, 4 and 7 (`real_slots_iff`).
-/

namespace Dawn.TablePage

/-- A well-formed page on which all tuples have size `s`, of whatever size. The space that neither the
records nor as many tuples as records need is still zero. -/
structure OneSize (s : ℤ) (p : Page) : Prop where
  wf : WF p
  len_eq : ∀ k ∈ occ p, tupleLen p k = s
  gap : ∀ i : ℤ, 144 + getTupleCount p * 8 ≤ i → i < 4096 - getTupleCount p * s → p.data i = 0

variable {s : ℤ} {p p' : Page} {t : Tuple} {k : ℕ} {rid : RID}

theorem oneSize_init (s : ℤ) (p : Page) (prev next : ℤ) : OneSize s (init p prev next) where
  wf := wf_init p
  len_eq := by simp
  gap i h1 h2 := by
    rw [getTupleCount_init] at h1 h2
    exact init_data_zero p (by omega) (by omega)

theorem Sized.oneSize {lo : ℤ} (h : Sized s lo p) (hlo : 4096 - getTupleCount p * s ≤ lo) : OneSize s p :=
  ⟨h.wf, h.len_eq, fun i h1 h2 => h.gap i h1 (h2.trans_le hlo)⟩

namespace OneSize

section

variable (h : OneSize s p)
include h

theorem sized : Sized s (4096 - getTupleCount p * s) p := ⟨h.wf, h.len_eq, h.gap⟩

theorem congr_tail (htail : ∀ i, 72 ≤ i → p'.data i = p.data i) : OneSize s p' :=
  (h.sized.congr_tail htail).oneSize (by rw [(records_eq_of_tail htail).1])

theorem fsp_eq : getFreeSpacePointer p = 4096 - (occ p).card * s := h.wf.fsp_eq h.len_eq

theorem grow (hs : 1 ≤ s) (hfull : ∀ k : ℕ, (k : ℤ) < getTupleCount p → getTupleOffset p k ≠ 0)
    (hfree : 8 ≤ getFreeSpace p) : OneSize s (setTupleCount p (getTupleCount p + 1)) ∧
    getTupleCount (setTupleCount p (getTupleCount p + 1)) = getTupleCount p + 1 ∧
    getTupleOffset (setTupleCount p (getTupleCount p + 1)) (getTupleCount p) = 0 ∧
    slot (setTupleCount p (getTupleCount p + 1)) = slot p := by
  have hroom := hfree
  rw [getFreeSpace_eq, h.fsp_eq, ← h.wf.count_eq_card hfull] at hroom
  obtain ⟨hz, hc, hrest⟩ := h.sized.grow hfree (by omega)
  exact ⟨hz.oneSize (by rw [hc, add_mul]; omega), hc, hrest⟩

theorem storeTuple (hs : 1 ≤ s) (hk : (k : ℤ) < getTupleCount p)
    (h0 : getTupleOffset p k = 0) (ht : t.size = s) (hfit : s ≤ getFreeSpace p) :
    OneSize s (storeTuple p k t) ∧ getTupleCount (storeTuple p k t) = getTupleCount p ∧
    slot (storeTuple p k t) = Function.update (slot p) k (some ⟨t.bytes, false⟩) := by
  -- There are still no more tuples than records, so the new one is above the gap.
  have hle := mul_le_mul_of_nonneg_right (show ((occ p).card : ℤ) + 1 ≤ getTupleCount p from card_occ_lt hk h0)
    (show 0 ≤ s by omega)
  rw [add_mul] at hle
  obtain ⟨hz, hc, hslot⟩ := h.sized.storeTuple hs hk h0 ht hfit (by rw [h.fsp_eq]; omega)
  exact ⟨hz.oneSize (by rw [hc]), hc, hslot⟩

theorem markDelete (hk : k ∈ occ p) : OneSize s (markDelete p ⟨p.pageId, k⟩).2 := by
  obtain ⟨hv, hl, -⟩ := setDeletedFlag_spec p k
  rw [markDelete_of_mem hk]
  exact (h.sized.setTupleSize hk hv hl).oneSize (by rw [getTupleCount_setTupleSize])

theorem applyDelete (hs : 1 ≤ s) (hk : k ∈ occ p) (pid : ℤ) : OneSize s (applyDelete p ⟨pid, k⟩) := by
  -- The tuples lie in the space for as many tuples as there are records.
  have hle := mul_le_mul_of_nonneg_right h.wf.card_le (show 0 ≤ s by omega)
  exact (h.sized.applyDelete (by rw [h.fsp_eq]; omega) hk).oneSize (by rw [(applyDelete_records pid h.wf hk).1])

end

end OneSize

/-! ## Insertion -/

/-- What a successful `insert_tuple` should do. -/
structure StoresTuple (p : Page) (t : Tuple) (rid : RID) (p' : Page) : Prop where
  /-- The slot is one of the page. -/
  slot_nonneg : 0 ≤ rid.slotNum
  slot_lt : rid.slotNum < getTupleCount p'
  /-- No slot is lost. -/
  count_le : getTupleCount p ≤ getTupleCount p'
  /-- The links are kept. -/
  prev_eq : getPrevPageId p' = getPrevPageId p
  next_eq : getNextPageId p' = getNextPageId p
  /-- The reserved bytes are kept. -/
  reserved_eq : ∀ i : ℤ, 76 ≤ i → i < 140 → p'.data i = p.data i
  /-- The other tuples are kept. -/
  kept : ∀ (k : ℕ) (pid : ℤ) (u : Tuple), getTuple p ⟨pid, k⟩ = some u → getTuple p' ⟨pid, k⟩ = some u
  /-- The tuple is there. -/
  got : getTuple p' rid = some (Tuple.ofBytes rid t.bytes)

/-- There is no empty slot, and no space for another record. -/
def NoSlot (p : Page) : Prop :=
  (∀ k : ℕ, (k : ℤ) < getTupleCount p → getTupleOffset p k ≠ 0) ∧ getFreeSpace p < 8

theorem OneSize.getEmptySlot_cases (h : OneSize s p) (hs : 1 ≤ s) :
    (∃ k : ℕ, (getEmptySlot p).1 = k ∧ (k : ℤ) < getTupleCount (getEmptySlot p).2 ∧
      getTupleOffset (getEmptySlot p).2 k = 0 ∧ OneSize s (getEmptySlot p).2 ∧
      getTupleCount p ≤ getTupleCount (getEmptySlot p).2 ∧ slot (getEmptySlot p).2 = slot p) ∨
    (NoSlot p ∧ getEmptySlot p = (-1, p)) := by
  rcases TablePage.getEmptySlot_cases p with ⟨k, he, hk, h0⟩ | ⟨hfull, ⟨hfree, he⟩ | ⟨hfree, he⟩⟩
  · rw [he]
    exact Or.inl ⟨k, rfl, hk, h0, h, le_rfl, rfl⟩
  · exact Or.inr ⟨⟨hfull, hfree⟩, he⟩
  · obtain ⟨hu, hc, hnew, hslot⟩ := h.grow hs hfull hfree
    have hc0 := h.wf.count_nonneg
    rw [he]
    dsimp only
    refine Or.inl ⟨(getTupleCount p).toNat, by omega, by omega, ?_, hu, by omega, hslot⟩
    rwa [Int.toNat_of_nonneg hc0]

theorem insertTuple_header {q : Page} (hs : 1 ≤ t.size) (hq : ∀ i : ℤ, i < 140 → q.data i = p.data i)
    (hfit : 144 + getTupleCount q * 8 + t.size ≤ getFreeSpacePointer q) (hc : 0 ≤ getTupleCount q) {i : ℤ}
    (hi : i < 72 ∨ 76 ≤ i ∧ i < 140) : (storeTuple q k t).data i = p.data i := by
  rw [storeTuple_data_of_notMem (by omega) (by omega) (by omega) (by omega)]
  exact hq i (by omega)

/-- An insertion stores the tuple in an empty slot, or it fails and keeps the tuples, or there is no slot and
it returns the slot `-1`. -/
theorem OneSize.insertTuple_slots (h : OneSize s p) (hs : 1 ≤ s) (ht : t.size = s) :
    (∃ k : ℕ, (insertTuple p t).1 = some ⟨p.pageId, k⟩ ∧ slot p k = none ∧
      (k : ℤ) < getTupleCount (insertTuple p t).2 ∧ getTupleCount p ≤ getTupleCount (insertTuple p t).2 ∧
      slot (insertTuple p t).2 = Function.update (slot p) k (some ⟨t.bytes, false⟩) ∧
      (∀ i : ℤ, i < 72 ∨ 76 ≤ i ∧ i < 140 → (insertTuple p t).2.data i = p.data i) ∧ OneSize s (insertTuple p t).2) ∨
    ((insertTuple p t).1 = none ∧ slot (insertTuple p t).2 = slot p ∧ OneSize s (insertTuple p t).2) ∨
    (NoSlot p ∧ s ≤ getFreeSpace p ∧ insertTuple p t = (some ⟨p.pageId, -1⟩, TablePage.storeTuple p (-1) t)) := by
  rcases h.getEmptySlot_cases hs with ⟨k, hk1, hk, h0, hu, hcount, hslot⟩ | ⟨hno, he⟩
  · have hdata : ∀ i : ℤ, i < 140 → (getEmptySlot p).2.data i = p.data i := fun i hi =>
      getEmptySlot_data (Or.inl hi)
    have hpid : (getEmptySlot p).2.pageId = p.pageId := getEmptySlot_pageId p
    simp only [insertTuple, hk1]
    generalize (getEmptySlot p).2 = q at *
    by_cases hfit : getFreeSpace q < t.size
    · rw [if_pos hfit]
      exact Or.inr (Or.inl ⟨rfl, hslot, hu⟩)
    · obtain ⟨hone, hc, hsl⟩ := hu.storeTuple hs hk h0 ht (by omega)
      rw [if_neg hfit]
      rw [getFreeSpace_eq] at hfit
      refine Or.inl ⟨k, by rw [hpid], ?_, by rw [hc]; exact hk, by rw [hc]; exact hcount, by rw [hsl, hslot],
        fun i hi => insertTuple_header (by omega) hdata (by omega) hu.wf.count_nonneg hi, hone⟩
      rw [← hslot]
      exact slot_of_notMem fun hm => (mem_occ.mp hm).2 h0
  · by_cases hfit : getFreeSpace p < t.size
    · refine Or.inr (Or.inl ?_)
      simp only [insertTuple, he, if_pos hfit]
      exact ⟨trivial, trivial, h⟩
    · refine Or.inr (Or.inr ⟨hno, by omega, ?_⟩)
      simp only [insertTuple, he, if_neg hfit]

theorem OneSize.insertTuple_cases (h : OneSize s p) (hs : 1 ≤ s) (ht : t.size = s) :
    (∃ rid, (insertTuple p t).1 = some rid ∧ StoresTuple p t rid (insertTuple p t).2 ∧ OneSize s (insertTuple p t).2) ∨
    ((insertTuple p t).1 = none ∧ OneSize s (insertTuple p t).2) ∨
    (NoSlot p ∧ s ≤ getFreeSpace p ∧ insertTuple p t = (some ⟨p.pageId, -1⟩, TablePage.storeTuple p (-1) t)) := by
  rcases h.insertTuple_slots hs ht with ⟨k, hrid, hempty, hk, hcount, hsl, hheader, hone⟩ | ⟨hnone, -, hone⟩ | hno
  · refine Or.inl ⟨_, hrid, ⟨by simp, hk, hcount, ?_, ?_, ?_, ?_, ?_⟩, hone⟩
    · exact getPrevPageId_congr fun i hi => hheader i (Or.inl hi)
    · exact getNextPageId_congr fun i hi => hheader i (Or.inl hi)
    · exact fun i h1 h2 => hheader i (Or.inr ⟨h1, h2⟩)
    · intro j pid u hj
      rw [getTuple_eq] at hj ⊢
      have hjk : j ≠ k := by
        rintro rfl
        simp [hempty] at hj
      rw [hsl, Function.update_of_ne hjk]
      exact hj
    · rw [getTuple_eq, hsl, Function.update_self]
      rfl
  · exact Or.inr (Or.inl ⟨hnone, hone⟩)
  · exact Or.inr (Or.inr hno)

/-! ## Runs -/

/-- `insert_tuple`, `mark_delete` and `apply_delete`. -/
def Op.InsertsOrDeletes : Op → Prop
  | .insertTuple _ | .markDelete _ | .applyDelete _ => True
  | _ => False

/-- A valid one of these calls. -/
def InsertDeleteStep (s : ℤ) (p : Page) (l : Op × Reply) (p' : Page) : Prop :=
  PageStep s p l p' ∧ l.1.InsertsOrDeletes

/-- The sizes for which a tuple fits into a page that is full of such tuples and has no space for another
record. -/
def FitsWithoutRecord (s : ℤ) : Prop := ∃ n r : ℤ, 0 ≤ n ∧ 3952 = n * (s + 8) + r ∧ s ≤ r ∧ r < 8

theorem fitsWithoutRecord_iff (hs : 1 ≤ s) : FitsWithoutRecord s ↔ s = 1 ∨ s = 2 ∨ s = 3 ∨ s = 4 ∨ s = 7 := by
  constructor
  · rintro ⟨n, r, -, hn, h1, h2⟩
    have hlt : s < 8 := by omega
    interval_cases s <;> omega
  · rintro (rfl | rfl | rfl | rfl | rfl)
    · exact ⟨439, 1, by norm_num⟩
    · exact ⟨395, 2, by norm_num⟩
    · exact ⟨359, 3, by norm_num⟩
    · exact ⟨329, 4, by norm_num⟩
    · exact ⟨263, 7, by norm_num⟩

theorem OneSize.fitsWithoutRecord (h : OneSize s p) (hno : NoSlot p) (hfit : s ≤ getFreeSpace p) :
    FitsWithoutRecord s := by
  obtain ⟨hfull, hfree⟩ := hno
  rw [getFreeSpace_eq, h.fsp_eq, ← h.wf.count_eq_card hfull] at hfit hfree
  exact ⟨getTupleCount p, _, h.wf.count_nonneg, (add_sub_cancel _ _).symm, by rw [mul_add]; omega,
    by rw [mul_add]; omega⟩

theorem OneSize.step (hs : 1 ≤ s) (hno : ¬ FitsWithoutRecord s) (h : OneSize s p) {l : Op × Reply}
    (hstep : InsertDeleteStep s p l p') : OneSize s p' := by
  obtain ⟨op, reply⟩ := l
  obtain ⟨⟨hv, hexec⟩, hop⟩ := hstep
  cases op with
  | insertTuple t =>
    obtain ⟨-, rfl⟩ : _ ∧ (insertTuple p t).2 = p' := by simpa [exec] using hexec
    rcases h.insertTuple_cases hs hv with ⟨-, -, -, hone⟩ | ⟨-, hone⟩ | ⟨hnone, hfit, -⟩
    · exact hone
    · exact hone
    · exact absurd (h.fitsWithoutRecord hnone hfit) hno
  | markDelete rid =>
    obtain ⟨-, -, rfl⟩ : _ ∧ _ ∧ (TablePage.markDelete p rid).2 = p' := by
      simpa [exec, atRecord] using hexec
    obtain ⟨q, n⟩ := rid
    obtain ⟨k, rfl⟩ := Int.eq_ofNat_of_zero_le hv
    by_cases hk : k ∈ occ p ∧ q = p.pageId
    · obtain ⟨hk, rfl⟩ := hk
      exact h.markDelete hk
    · rw [markDelete_of_not hk]
      exact h
  | applyDelete rid =>
    obtain ⟨q, n⟩ := rid
    obtain ⟨hn, -, hsome⟩ := hv
    obtain ⟨k, rfl⟩ := Int.eq_ofNat_of_zero_le hn
    have hk : k ∈ occ p := slot_ne_none_iff.mp (by simpa using hsome)
    obtain ⟨-, rfl⟩ : _ ∧ TablePage.applyDelete p ⟨q, k⟩ = p' := by
      simpa [exec, applyDelete?_of_mem q h.wf hk] using hexec
    exact h.applyDelete hs hk q
  | rollbackDelete | updateTuple | getTuple => exact absurd hop id

/-- A tuple of zeros. -/
def zeroTuple (s : ℕ) : Tuple := Tuple.ofBytes {} (List.replicate s 0)

@[simp] theorem zeroTuple_size (s : ℕ) : (zeroTuple s).size = s := by
  simp [zeroTuple]

theorem OneSize.insert_next (h : OneSize s p) (hs : 1 ≤ s) (ht : t.size = s)
    (hfull : ∀ k : ℕ, (k : ℤ) < getTupleCount p → k ∈ occ p) (hfree : s + 8 ≤ getFreeSpace p) :
    ∃ p', insertTuple p t = (some ⟨p.pageId, getTupleCount p⟩, p') ∧ OneSize s p' ∧
      getTupleCount p' = getTupleCount p + 1 ∧ ∀ k : ℕ, (k : ℤ) < getTupleCount p + 1 → k ∈ occ p' := by
  have hc0 := h.wf.count_nonneg
  have hno : ∀ k : ℕ, (k : ℤ) < getTupleCount p → getTupleOffset p k ≠ 0 := fun k hk =>
    (mem_occ.mp (hfull k hk)).2
  rcases TablePage.getEmptySlot_cases p with ⟨k, -, hk, h0⟩ | ⟨-, ⟨hlt, -⟩ | ⟨-, he⟩⟩
  · exact absurd h0 (hno k hk)
  · omega
  obtain ⟨hone, hc, hnew, hslot⟩ := h.grow hs hno (by omega)
  have hfsp : getFreeSpacePointer (setTupleCount p (getTupleCount p + 1)) = getFreeSpacePointer p := by
    rw [getFreeSpacePointer_eq, getFreeSpacePointer_eq]
    exact Bytes.i32_congr fun i hi => setTupleCount_data_of_notMem (by omega)
  have hspace : s ≤ getFreeSpace (setTupleCount p (getTupleCount p + 1)) := by
    rw [getFreeSpace_eq] at hfree ⊢
    omega
  have hk : (((getTupleCount p).toNat : ℕ) : ℤ) = getTupleCount p := Int.toNat_of_nonneg hc0
  obtain ⟨hone', hc', hslot'⟩ := hone.storeTuple (k := (getTupleCount p).toNat) hs (by omega)
    (by rw [hk]; exact hnew) ht hspace
  rw [hk] at hone' hc' hslot'
  refine ⟨_, ?_, hone', by rw [hc', hc], fun k hlt => ?_⟩
  · simp only [insertTuple, he]
    rw [if_neg (by omega)]
    rfl
  · rw [← slot_ne_none_iff, hslot']
    by_cases hkn : k = (getTupleCount p).toNat
    · simp [hkn]
    · rw [Function.update_of_ne hkn, hslot, slot_ne_none_iff]
      exact hfull k (by omega)

theorem exists_full_run {s : ℕ} (hs : 1 ≤ s) (p0 : Page) (prev next : ℤ) {n : ℕ}
    (hn : n * (s + 8) ≤ 3952) : ∃ ls p, Trace (InsertDeleteStep s) (init p0 prev next) ls p ∧ OneSize s p ∧
      getTupleCount p = n ∧ ∀ k : ℕ, (k : ℤ) < getTupleCount p → k ∈ occ p := by
  induction n with
  | zero => exact ⟨[], _, .nil _, oneSize_init s p0 prev next, by simp, by simp⟩
  | succ n ih =>
    rw [add_mul] at hn
    obtain ⟨ls, p, htrace, hone, hcount, hfull⟩ := ih (by omega)
    have hfree : (s : ℤ) + 8 ≤ getFreeSpace p := by
      rw [getFreeSpace_eq, hone.fsp_eq, ← hone.wf.count_eq_card fun k hk => (mem_occ.mp (hfull k hk)).2, hcount]
      zify at hn
      rw [mul_add] at hn
      omega
    obtain ⟨p', hins, hone', hcount', hfull'⟩ := hone.insert_next (by omega) (zeroTuple_size s) hfull hfree
    refine ⟨_, p', htrace.snoc (l := (.insertTuple (zeroTuple s), .rid (some ⟨p.pageId, getTupleCount p⟩))) ?_,
      hone', by rw [hcount', hcount]; rfl, by rw [hcount']; exact hfull'⟩
    refine ⟨⟨zeroTuple_size s, ?_⟩, trivial⟩
    simp only [exec, hins]

theorem exists_insert_without_slot {s : ℕ} (hs : 1 ≤ s) (p0 : Page) (prev next : ℤ) {n : ℕ}
    (h1 : n * (s + 8) + s ≤ 3952) (h2 : 3952 < n * (s + 8) + 8) :
    ∃ ls p, Trace (InsertDeleteStep s) (init p0 prev next) ls p ∧ getTupleCount p = n ∧
      insertTuple p (zeroTuple s) = (some ⟨p.pageId, -1⟩, storeTuple p (-1) (zeroTuple s)) := by
  obtain ⟨ls, p, htrace, hone, hcount, hfull⟩ := exists_full_run hs p0 prev next (n := n) (by omega)
  have hno : ∀ k : ℕ, (k : ℤ) < getTupleCount p → getTupleOffset p k ≠ 0 := fun k hk =>
    (mem_occ.mp (hfull k hk)).2
  have hfree : getFreeSpace p = 3952 - n * (s + 8) := by
    rw [getFreeSpace_eq, hone.fsp_eq, ← hone.wf.count_eq_card hno, hcount, mul_add]
    ring
  refine ⟨ls, p, htrace, hcount, ?_⟩
  zify at h1 h2
  rcases TablePage.getEmptySlot_cases p with ⟨k, -, hk, h0⟩ | ⟨-, ⟨-, he⟩ | ⟨hle, -⟩⟩
  · exact absurd h0 (hno k hk)
  · simp only [insertTuple, he]
    rw [if_neg (by rw [zeroTuple_size]; omega)]
  · omega

/-- Every successful insertion of every run uses a slot of the page and keeps everything else exactly when
the tuples do not have one of five sizes. -/
theorem real_slots_iff (hs : 1 ≤ s) :
    (∀ (p₀ : Page) (prev next : ℤ) (ls : List (Op × Reply)) (p p' : Page) (t : Tuple) (rid : RID),
      Trace (InsertDeleteStep s) (init p₀ prev next) ls p → t.size = s →
      insertTuple p t = (some rid, p') → StoresTuple p t rid p') ↔
    ¬ (s = 1 ∨ s = 2 ∨ s = 3 ∨ s = 4 ∨ s = 7) := by
  rw [← fitsWithoutRecord_iff hs]
  constructor
  · rintro hall ⟨n, r, hn, heq, h1, h2⟩
    obtain ⟨k, rfl⟩ := Int.eq_ofNat_of_zero_le (show 0 ≤ s by omega)
    obtain ⟨m, rfl⟩ := Int.eq_ofNat_of_zero_le hn
    obtain ⟨ls, p, htrace, -, hins⟩ := exists_insert_without_slot (by omega) (Page.new 0 fun _ => 0) (-1) (-1)
      (s := k) (n := m) (by zify; omega) (by zify; omega)
    have hstored := hall _ _ _ _ _ _ _ _ htrace (zeroTuple_size k) hins
    exact absurd hstored.slot_nonneg (by norm_num)
  · intro hno p₀ prev next ls p p' t rid htrace ht hins
    have hone : OneSize s p := htrace.invariant (fun _ _ _ h hstep => OneSize.step hs hno h hstep)
      (oneSize_init s p₀ prev next)
    rcases hone.insertTuple_cases hs ht with ⟨rid', hrid, hstored, -⟩ | ⟨hnone, -⟩ | ⟨hslot, hfit, -⟩
    · rw [hins] at hrid hstored
      cases hrid
      exact hstored
    · rw [hins] at hnone
      cases hnone
    · exact absurd (hone.fitsWithoutRecord hslot hfit) hno

/-- Tuples of eight bytes always get a slot. -/
theorem real_slots_iff_eight : (1 : ℤ) ≤ 8 ∧
    ∀ (p₀ : Page) (prev next : ℤ) (ls : List (Op × Reply)) (p p' : Page) (t : Tuple) (rid : RID),
      Trace (InsertDeleteStep 8) (init p₀ prev next) ls p → t.size = 8 →
      insertTuple p t = (some rid, p') → StoresTuple p t rid p' :=
  ⟨by norm_num, (real_slots_iff (by norm_num)).mpr (by norm_num)⟩

/-- A page is filled with 329 tuples of four bytes, such as those of a table of one integer. The next one
gets the slot `-1`, and the tuple count of the page becomes 4. -/
theorem integer_overwrites_count : ∃ ls p p',
    Trace (InsertDeleteStep 4) (init stalePage (-1) (-1)) ls p ∧ getTupleCount p = 329 ∧
    insertTuple p (zeroTuple 4) = (some ⟨p.pageId, -1⟩, p') ∧ getTupleCount p' = 4 ∧
    ¬ StoresTuple p (zeroTuple 4) ⟨p.pageId, -1⟩ p' := by
  obtain ⟨ls, p, htrace, hcount, hins⟩ := exists_insert_without_slot (s := 4) (n := 329) (by norm_num)
    stalePage (-1) (-1) (by norm_num) (by norm_num)
  refine ⟨ls, p, _, htrace, hcount, hins, ?_, fun h => absurd h.slot_nonneg (by norm_num)⟩
  exact Bytes.i32_setI32 (by norm_num [IsI32])

end Dawn.TablePage
