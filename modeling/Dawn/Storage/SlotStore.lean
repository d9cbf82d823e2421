import Dawn.Lib.Trace
import Dawn.Storage.TablePageSpec

/-!
# A table page as a slot store

A page on which all tuples have one size `s` behaves as a finite map from slot numbers to bytes and
deletion marks (`SlotMap`), with room for exactly `get_tp_num_capacity(s)` tuples. The number of
records never shrinks and grows even on an `insert_tuple` that fails, so the capacity needs an
invariant of its own: the records always leave space for a full load of tuples (`Uniform.slots`), and
what lies between the records and that space is still zero from `init` (`Uniform.gap`), so that a
record that is added in vain is an empty one.
-/

namespace Dawn.TablePage

open Function

/-- A well-formed page on which all tuples have size `s`. -/
structure Uniform (s : ℤ) (p : Page) : Prop where
  wf : WF p
  len_eq : ∀ k ∈ occ p, tupleLen p k = s
  slots : getTupleCount p * 8 + s * getTpNumCapacity s ≤ 3952
  gap : ∀ i : ℤ, 144 + getTupleCount p * 8 ≤ i → i < 4096 - s * getTpNumCapacity s → p.data i = 0

theorem getTpNumCapacity_spec {s : ℤ} (hs : 8 ≤ s) (m : ℤ) : m ≤ getTpNumCapacity s ↔ m * s + m * 8 ≤ 3952 := by
  have h : getTpNumCapacity s = 3952 / (s + 8) := by
    rw [getTpNumCapacity, show loadDataSpace = 3952 from rfl]
    simp [add_assoc]
  rw [h, Int.le_ediv_iff_mul_le (by omega), mul_add]

section

variable {s : ℤ} {p : Page}

theorem uniform_init (hs : 8 ≤ s) (p : Page) (prev next : ℤ) : Uniform s (init p prev next) where
  wf := wf_init p
  len_eq := by simp
  slots := by
    have h := (getTpNumCapacity_spec hs (getTpNumCapacity s)).mp le_rfl
    have h0 := (getTpNumCapacity_spec hs 0).mpr (by omega)
    rw [getTupleCount_init, mul_comm s]
    omega
  gap := by
    intro i h1 h2
    have h0 := (getTpNumCapacity_spec hs 0).mpr (by omega)
    have hnn : 0 ≤ s * getTpNumCapacity s := mul_nonneg (by omega) h0
    rw [getTupleCount_init] at h1
    exact init_data_zero p (by omega) (by omega)

theorem WF.fsp_eq (h : WF p) (hlen : ∀ k ∈ occ p, tupleLen p k = s) :
    getFreeSpacePointer p = 4096 - (occ p).card * s := by
  have hsum := h.packed.sum_len
  rw [Finset.sum_congr rfl hlen, Finset.sum_const, nsmul_eq_mul] at hsum
  omega

theorem WF.card_le (h : WF p) : ((occ p).card : ℤ) ≤ getTupleCount p := by
  have hc : (occ p).card ≤ (getTupleCount p).toNat :=
    (Finset.card_filter_le _ _).trans (by rw [Finset.card_range])
  have := h.count_nonneg
  omega

theorem card_occ_lt {k : ℕ} (hk : (k : ℤ) < getTupleCount p) (h0 : getTupleOffset p k = 0) :
    ((occ p).card : ℤ) < getTupleCount p := by
  have hsub : occ p ⊂ Finset.range (getTupleCount p).toNat :=
    Finset.filter_ssubset.mpr ⟨k, Finset.mem_range.mpr (by omega), not_not.mpr h0⟩
  have hcard := Finset.card_lt_card hsub
  rw [Finset.card_range] at hcard
  omega

namespace Uniform

theorem fsp_eq (h : Uniform s p) : getFreeSpacePointer p = 4096 - (occ p).card * s := h.wf.fsp_eq h.len_eq

theorem card_le_capacity (hs : 8 ≤ s) (h : Uniform s p) : ((occ p).card : ℤ) ≤ getTpNumCapacity s := by
  have hroom := h.wf.room
  have hfsp := h.fsp_eq
  have hcard := h.wf.card_le
  rw [getTpNumCapacity_spec hs]
  omega

theorem storedSize_eq (h : Uniform s p) {k : ℕ} (hk : k ∈ occ p) : getTupleSize p k =
    if isDeleted (getTupleSize p k) then s - 2^31 else s := by
  have hd := isDeleted_getTupleSize p k
  have hl := h.len_eq k hk
  rw [tupleLen_eq] at hl
  by_cases hneg : getTupleSize p k < 0
  · rw [if_pos (hd.mpr hneg)]
    omega
  · rw [if_neg (mt hd.mp hneg)]
    rwa [if_neg hneg] at hl

theorem capacity_le_fsp (hs : 8 ≤ s) (h : Uniform s p) : 4096 - s * getTpNumCapacity s ≤ getFreeSpacePointer p := by
  have hle := mul_le_mul_of_nonneg_left (h.card_le_capacity hs) (show 0 ≤ s by omega)
  rw [h.fsp_eq, mul_comm ((occ p).card : ℤ)]
  omega

end Uniform

end

/-! ## Insertion -/

section Grow

variable {s : ℤ} {p : Page}

theorem setTupleCount_data_of_notMem {v i : ℤ} (h : i < 140 ∨ 144 ≤ i) : (setTupleCount p v).data i = p.data i := by
  rw [setTupleCount_data]
  exact Bytes.setI32_of_notMem (by omega)

theorem WF.grow (h : WF p) (hfree : 8 ≤ getFreeSpace p) (hzero : getTupleOffset p (getTupleCount p) = 0) :
    WF (setTupleCount p (getTupleCount p + 1)) ∧
    getTupleCount (setTupleCount p (getTupleCount p + 1)) = getTupleCount p + 1 ∧
    getTupleOffset (setTupleCount p (getTupleCount p + 1)) (getTupleCount p) = 0 ∧
    occ (setTupleCount p (getTupleCount p + 1)) = occ p ∧
    (∀ k : ℕ, tupleLen (setTupleCount p (getTupleCount p + 1)) k = tupleLen p k) ∧
    slot (setTupleCount p (getTupleCount p + 1)) = slot p := by
  have hc0 := h.count_nonneg
  have hf := h.fsp_le
  rw [getFreeSpace_eq] at hfree
  generalize hp' : setTupleCount p (getTupleCount p + 1) = p'
  have hdata : ∀ i : ℤ, i < 140 ∨ 144 ≤ i → p'.data i = p.data i := by
    intro i hi
    rw [← hp']
    exact setTupleCount_data_of_notMem hi
  have hc : getTupleCount p' = getTupleCount p + 1 := by
    rw [← hp', getTupleCount_eq, setTupleCount_data]
    exact Bytes.i32_setI32 ⟨by omega, by omega⟩
  have hfsp' : getFreeSpacePointer p' = getFreeSpacePointer p := by
    rw [getFreeSpacePointer_eq, getFreeSpacePointer_eq]
    exact Bytes.i32_congr fun i hi => hdata _ (by omega)
  have hoff : ∀ k : ℤ, 0 ≤ k → getTupleOffset p' k = getTupleOffset p k := by
    intro k hk
    rw [getTupleOffset_eq, getTupleOffset_eq]
    exact Bytes.i32_congr fun i hi => hdata _ (by omega)
  have hsize : ∀ k : ℕ, getTupleSize p' k = getTupleSize p k := by
    intro k
    rw [getTupleSize_eq, getTupleSize_eq]
    exact Bytes.i32_congr fun i hi => hdata _ (by omega)
  have hlen : ∀ k : ℕ, tupleLen p' k = tupleLen p k := fun k => by rw [tupleLen, hsize, tupleLen]
  have hnew : getTupleOffset p' (getTupleCount p) = 0 := (hoff _ hc0).trans hzero
  have hocc : occ p' = occ p := by
    ext k
    rw [mem_occ, mem_occ, hc, hoff k (by omega)]
    constructor
    · rintro ⟨h1, h2⟩
      refine ⟨?_, h2⟩
      by_contra hk
      apply h2
      rw [show ((k : ℕ) : ℤ) = getTupleCount p by omega, hzero]
    · rintro ⟨h1, h2⟩
      exact ⟨by omega, h2⟩
  refine ⟨⟨by omega, by omega, ?_⟩, hc, hnew, hocc, hlen, ?_⟩
  · rw [hocc, hfsp']
    exact h.packed.congr (fun k _ => hoff k (by omega)) fun k _ => hlen k
  · funext k
    refine slot_congr (by rw [hocc]) (fun _ => hsize k) fun hk => ?_
    have hext := h.extent hk
    rw [hoff k (by omega)]
    apply Bytes.read_congr
    intro i hi
    exact hdata _ (by omega)

theorem WF.count_eq_card (h : WF p) (hfull : ∀ k : ℕ, (k : ℤ) < getTupleCount p → getTupleOffset p k ≠ 0) :
    getTupleCount p = (occ p).card := by
  have hc0 := h.count_nonneg
  have hocc : occ p = Finset.range (getTupleCount p).toNat := by
    ext k
    rw [mem_occ, Finset.mem_range]
    exact ⟨fun hk => by omega, fun hk => ⟨by omega, hfull k (by omega)⟩⟩
  rw [hocc, Finset.card_range]
  omega

/-- A well-formed page on which all tuples have size `s`, and the space between the records and `lo` is still
zero. -/
structure Sized (s lo : ℤ) (p : Page) : Prop where
  wf : WF p
  len_eq : ∀ k ∈ occ p, tupleLen p k = s
  gap : ∀ i : ℤ, 144 + getTupleCount p * 8 ≤ i → i < lo → p.data i = 0

theorem Uniform.sized (h : Uniform s p) : Sized s (4096 - s * getTpNumCapacity s) p := ⟨h.wf, h.len_eq, h.gap⟩

theorem Sized.uniform (h : Sized s (4096 - s * getTpNumCapacity s) p)
    (hslots : getTupleCount p * 8 + s * getTpNumCapacity s ≤ 3952) : Uniform s p :=
  ⟨h.wf, h.len_eq, hslots, h.gap⟩

theorem Sized.grow {lo : ℤ} (h : Sized s lo p) (hfree : 8 ≤ getFreeSpace p)
    (hlo : 144 + getTupleCount p * 8 + 8 ≤ lo) : Sized s lo (setTupleCount p (getTupleCount p + 1)) ∧
    getTupleCount (setTupleCount p (getTupleCount p + 1)) = getTupleCount p + 1 ∧
    getTupleOffset (setTupleCount p (getTupleCount p + 1)) (getTupleCount p) = 0 ∧
    slot (setTupleCount p (getTupleCount p + 1)) = slot p := by
  have hc0 := h.wf.count_nonneg
  have hzero : getTupleOffset p (getTupleCount p) = 0 := by
    rw [getTupleOffset_eq]
    exact Bytes.i32_eq_zero fun i hi => h.gap _ (by omega) (by omega)
  obtain ⟨hwf, hc, hnew, hocc, hlen, hslot⟩ := h.wf.grow hfree hzero
  refine ⟨⟨hwf, fun k hk => ?_, fun i h1 h2 => ?_⟩, hc, hnew, hslot⟩
  · rw [hlen]
    exact h.len_eq k (hocc ▸ hk)
  · rw [setTupleCount_data_of_notMem (by omega)]
    exact h.gap i (by omega) h2

theorem Uniform.slots_grow (hs : 8 ≤ s) (h : Uniform s p)
    (hfull : ∀ k : ℕ, (k : ℤ) < getTupleCount p → getTupleOffset p k ≠ 0)
    (hfree : 8 ≤ getFreeSpace p) : (getTupleCount p + 1) * 8 + s * getTpNumCapacity s ≤ 3952 := by
  have hcard := h.wf.count_eq_card hfull
  rw [getFreeSpace_eq] at hfree
  rw [mul_comm s]
  rcases (h.card_le_capacity hs).eq_or_lt with heq | hlt
  · rw [h.fsp_eq, heq] at hfree
    omega
  · have := (getTpNumCapacity_spec hs (getTpNumCapacity s)).mp le_rfl
    omega

theorem getEmptySlot_uniform (hs : 8 ≤ s) (h : Uniform s p) :
    (∃ k : ℕ, (getEmptySlot p).1 = k ∧ (k : ℤ) < getTupleCount (getEmptySlot p).2 ∧
      getTupleOffset (getEmptySlot p).2 k = 0 ∧ Uniform s (getEmptySlot p).2 ∧ slot (getEmptySlot p).2 = slot p) ∨
    (getEmptySlot p = (-1, p) ∧ getFreeSpace p < 8 ∧ getTpNumCapacity s ≤ (occ p).card) := by
  rcases getEmptySlot_cases p with ⟨k, he, hk, h0⟩ | ⟨hfull, ⟨hfree, he⟩ | ⟨hfree, he⟩⟩
  · rw [he]
    exact Or.inl ⟨k, rfl, hk, h0, h, rfl⟩
  · refine Or.inr ⟨he, hfree, ?_⟩
    by_contra hlt
    have hfit := (getTpNumCapacity_spec hs ((occ p).card + 1)).mp (by omega)
    have hcount := h.slots
    have hle := mul_le_mul_of_nonneg_left (show ((occ p).card : ℤ) + 1 ≤ getTpNumCapacity s by omega)
      (show 0 ≤ s by omega)
    rw [getFreeSpace_eq, h.fsp_eq] at hfree
    rw [mul_add, mul_one, mul_comm s (occ p).card] at hle
    omega
  · have hslots := h.slots_grow hs hfull hfree
    obtain ⟨hu, hc, hnew, hslot⟩ := h.sized.grow hfree (by omega)
    have hc0 := h.wf.count_nonneg
    rw [he]
    dsimp only
    refine Or.inl ⟨(getTupleCount p).toNat, by omega, by omega, ?_, hu.uniform (by rwa [hc]), hslot⟩
    rwa [Int.toNat_of_nonneg hc0]

end Grow

section Insert

variable {s : ℤ} {p : Page} {t : Tuple}

theorem Sized.storeTuple {lo : ℤ} (hs : 0 < s) (h : Sized s lo p) {k : ℕ} (hk : (k : ℤ) < getTupleCount p)
    (h0 : getTupleOffset p k = 0) (ht : t.size = s) (hfit : s ≤ getFreeSpace p)
    (hlo : lo ≤ getFreeSpacePointer p - s) : Sized s lo (storeTuple p k t) ∧
    getTupleCount (TablePage.storeTuple p k t) = getTupleCount p ∧
    slot (TablePage.storeTuple p k t) = update (slot p) k (some ⟨t.bytes, false⟩) := by
  have hno : k ∉ occ p := fun hm => (mem_occ.mp hm).2 h0
  have hbut : WFBut p k := ⟨hk, h.wf.room, by rw [Finset.erase_eq_of_notMem hno]; exact h.wf.packed⟩
  rw [getFreeSpace_eq] at hfit
  have hpos : 0 < t.size := by omega
  obtain ⟨hwf, hocc, hlen, hslot⟩ := storeTuple_spec hbut hpos (by omega)
  obtain ⟨hc, -, hoff, hsize⟩ := storeTuple_records hbut.lt_count hpos (by omega)
  refine ⟨⟨hwf, fun j hj => ?_, fun i h1 h2 => ?_⟩, hc, hslot⟩
  · rw [hocc, Finset.erase_eq_of_notMem hno] at hj
    rcases Finset.mem_insert.mp hj with rfl | hj
    · rw [hlen, ht]
    · have hjk : j ≠ k := fun he => hno (he ▸ hj)
      rw [tupleLen, hsize j (mem_occ.mp hj).1, if_neg hjk]
      exact h.len_eq j hj
  · rw [hc] at h1
    rw [storeTuple_data_of_notMem hpos (by omega) (by omega) (by omega)]
    exact h.gap i h1 h2

/-- `insert_tuple` succeeds exactly below the capacity. It then occupies an empty slot, and
otherwise it changes no slot. -/
theorem insertTuple_uniform (hs : 8 ≤ s) (h : Uniform s p) (ht : t.size = s) : Uniform s (insertTuple p t).2 ∧
    ((((occ p).card : ℤ) < getTpNumCapacity s ∧ ∃ k : ℕ, k ∉ occ p ∧ (insertTuple p t).1 = some ⟨p.pageId, k⟩ ∧
      slot (insertTuple p t).2 = update (slot p) k (some ⟨t.bytes, false⟩)) ∨
    (getTpNumCapacity s ≤ (occ p).card ∧ (insertTuple p t).1 = none ∧ slot (insertTuple p t).2 = slot p)) := by
  rcases getEmptySlot_uniform hs h with ⟨k, hk1, hk, h0, hu, hslot⟩ | ⟨he, hfree, hcap⟩
  · have hpid : (getEmptySlot p).2.pageId = p.pageId := getEmptySlot_pageId p
    simp only [insertTuple, hk1]
    generalize (getEmptySlot p).2 = q at *
    have hocc : occ q = occ p := by
      ext j
      rw [← slot_ne_none_iff, ← slot_ne_none_iff, hslot]
    have hno : k ∉ occ q := fun hm => (mem_occ.mp hm).2 h0
    have hfsp := hu.fsp_eq
    have hslots := hu.slots
    have hcount := card_occ_lt hk h0
    -- The tuple uses the space for a full load.
    have hroom : ((occ q).card : ℤ) < getTpNumCapacity s →
        4096 - s * getTpNumCapacity s ≤ getFreeSpacePointer q - s := fun hlt => by
      have hle := mul_le_mul_of_nonneg_left
        (show ((occ q).card : ℤ) + 1 ≤ getTpNumCapacity s by omega) (show 0 ≤ s by omega)
      rw [mul_add, mul_one, mul_comm s (occ q).card] at hle
      omega
    -- The tuple fits exactly if one more tuple is within the capacity.
    have hfit : s ≤ getFreeSpace q ↔ ((occ q).card : ℤ) < getTpNumCapacity s := by
      rw [getFreeSpace_eq]
      constructor
      · intro hle
        have := (getTpNumCapacity_spec hs ((occ q).card + 1)).mpr (by rw [add_mul, one_mul]; omega)
        omega
      · intro hlt
        omega
    by_cases hle : s ≤ getFreeSpace q
    · obtain ⟨hu', hc, hslot'⟩ := hu.sized.storeTuple (by omega) hk h0 ht hle (hroom (hfit.mp hle))
      rw [if_neg (by omega)]
      refine ⟨hu'.uniform (by rwa [hc]), Or.inl ⟨hocc ▸ hfit.mp hle, k, hocc ▸ hno, by rw [hpid], ?_⟩⟩
      rw [hslot', hslot]
    · rw [if_pos (by omega)]
      refine ⟨hu, Or.inr ⟨?_, rfl, hslot⟩⟩
      rw [← hocc]
      by_contra hlt
      exact hle (hfit.mpr (by omega))
  · simp only [insertTuple, he]
    rw [if_pos (by omega)]
    exact ⟨h, Or.inr ⟨hcap, rfl, rfl⟩⟩

end Insert

/-! ## The other operations -/

section Keep

variable {s : ℤ} {p : Page} {k : ℕ} {pid : ℤ}

theorem Sized.setTupleSize {lo : ℤ} (h : Sized s lo p) (hk : k ∈ occ p) {v : ℤ} (hv : IsI32 v)
    (hl : unsetDeletedFlag v = tupleLen p k) : Sized s lo (setTupleSize p k v) where
  wf := h.wf.setTupleSize hv hl
  len_eq j hj := by
    rw [occ_setTupleSize] at hj
    rw [tupleLen_setTupleSize hv hl]
    exact h.len_eq j hj
  gap i h1 h2 := by
    have hck := (mem_occ.mp hk).1
    rw [getTupleCount_setTupleSize] at h1
    rw [setTupleSize_data, Bytes.setI32_of_notMem (by omega)]
    exact h.gap i h1 h2

theorem Uniform.setTupleSize (h : Uniform s p) (hk : k ∈ occ p) {v : ℤ} (hv : IsI32 v)
    (hl : unsetDeletedFlag v = tupleLen p k) : Uniform s (setTupleSize p k v) :=
  (h.sized.setTupleSize hk hv hl).uniform (by rw [getTupleCount_setTupleSize]; exact h.slots)

theorem Uniform.markDelete (h : Uniform s p) (hk : k ∈ occ p) : Uniform s (markDelete p ⟨p.pageId, k⟩).2 := by
  obtain ⟨hv, hl, -⟩ := setDeletedFlag_spec p k
  rw [markDelete_of_mem hk]
  exact h.setTupleSize hk hv hl

theorem slot_markDelete (h : WF p) (hk : k ∈ occ p) : slot (markDelete p ⟨p.pageId, k⟩).2 =
    update (slot p) k ((slot p k).map fun sl => { sl with deleted := true }) := by
  obtain ⟨hv, hl, hd⟩ := setDeletedFlag_spec p k
  rw [markDelete_of_mem hk, slot_setTupleSize h hk hv hl, hd]

theorem Uniform.rollbackDelete (h : Uniform s p) (hk : k ∈ occ p) : Uniform s (rollbackDelete p ⟨pid, k⟩) := by
  obtain ⟨hv, hl, -⟩ := unsetDeletedFlag_spec p k
  rw [rollbackDelete_of_mem hk]
  exact h.setTupleSize hk hv hl

theorem slot_rollbackDelete (h : WF p) (hk : k ∈ occ p) : slot (rollbackDelete p ⟨pid, k⟩) =
    update (slot p) k ((slot p k).map fun sl => { sl with deleted := false }) := by
  obtain ⟨hv, hl, hd⟩ := unsetDeletedFlag_spec p k
  rw [rollbackDelete_of_mem hk, slot_setTupleSize h hk hv hl, hd]

theorem Uniform.write (hs : 8 ≤ s) (h : Uniform s p) (hk : k ∈ occ p) {b : List UInt8}
    (hb : (b.length : ℤ) = tupleLen p k) : Uniform s { p with data := p.data.write (getTupleOffset p k) b } := by
  have hwf := (write_spec h.wf hk hb).1
  have hext := h.wf.extent hk
  have hroom := h.wf.room
  have hcap := h.capacity_le_fsp hs
  generalize hp' : ({ p with data := p.data.write (getTupleOffset p k) b } : Page) = p' at *
  have hdata : ∀ i : ℤ, i < getTupleOffset p k → p'.data i = p.data i := by
    intro i hi
    rw [← hp']
    exact Bytes.write_of_notMem (Or.inl hi)
  have hrecords : ∀ i, 72 ≤ i → i < 144 + getTupleCount p * 8 → p'.data i = p.data i :=
    fun i _ hi => hdata i (by omega)
  obtain ⟨hc, hf, hrec⟩ := records_congr h.wf.count_nonneg hrecords
  have hocc : occ p' = occ p := occ_congr hc fun j hj => (hrec j hj).1
  refine ⟨hwf, fun j hj => ?_, by rw [hc]; exact h.slots, fun i h1 h2 => ?_⟩
  · rw [hocc] at hj
    rw [tupleLen, (hrec j (mem_occ.mp hj).1).2]
    exact h.len_eq j hj
  · rw [hdata i (by omega)]
    exact h.gap i (by rwa [hc] at h1) h2

theorem updateTuple_uniform (hs : 8 ≤ s) (h : Uniform s p) (hk : k ∈ occ p) {t : Tuple}
    (ht : getTupleSize p k = t.size) : Uniform s (updateTuple p t ⟨p.pageId, k⟩).2 ∧
    slot (updateTuple p t ⟨p.pageId, k⟩).2 = update (slot p) k
      ((slot p k).map fun sl => { sl with bytes := t.data.getD sl.bytes }) := by
  rw [updateTuple_of_mem hk ht]
  cases hd : t.data with
  | none =>
    have hsame : ({ p with data := t.serializeTo p.data (getTupleOffset p k) } : Page) = p := by
      simp only [Tuple.serializeTo, hd]
    rw [hsame]
    refine ⟨h, ?_⟩
    rw [slot_of_mem hk]
    exact (update_eq_self_iff.mpr (slot_of_mem hk).symm).symm
  | some b =>
    have hsize := t.size_eq b hd
    have hlen : (b.length : ℤ) = tupleLen p k := by
      rw [tupleLen_eq, ht, if_neg (by omega), hsize]
    simp only [Tuple.serializeTo, hd, Option.getD_some]
    exact ⟨h.write hs hk hlen, (write_spec h.wf hk hlen).2⟩

theorem Sized.applyDelete {lo : ℤ} (h : Sized s lo p) (hlo : lo ≤ getFreeSpacePointer p) (hk : k ∈ occ p) :
    Sized s lo (applyDelete p ⟨pid, k⟩) := by
  obtain ⟨hwf, hocc, -⟩ := applyDelete_spec pid h.wf hk
  obtain ⟨hc, -, -, hrec⟩ := applyDelete_records pid h.wf hk
  have hc0 := h.wf.count_nonneg
  refine ⟨hwf, fun j hj => ?_, fun i h1 h2 => ?_⟩
  · rw [hocc] at hj
    obtain ⟨hjk, hj⟩ := Finset.mem_erase.mp hj
    rw [tupleLen, (hrec j (mem_occ.mp hj).1 hjk).2]
    exact h.len_eq j hj
  · rw [hc] at h1
    rw [applyDelete_data_of_notMem h.wf hk (by omega) (by omega) (by omega)]
    exact h.gap i h1 h2

theorem Uniform.applyDelete (hs : 8 ≤ s) (h : Uniform s p) (hk : k ∈ occ p) : Uniform s (applyDelete p ⟨pid, k⟩) :=
  (h.sized.applyDelete (h.capacity_le_fsp hs) hk).uniform
    (by rw [(applyDelete_records pid h.wf hk).1]; exact h.slots)

end Keep

/-! ## The slot store -/

/-- A finite map from slot numbers to contents. -/
abbrev SlotMap := ℕ → Option Slot

/-- The number of occupied slots. -/
noncomputable def SlotMap.size (m : SlotMap) : ℕ := Set.ncard {k | m k ≠ none}

theorem size_slot (p : Page) : SlotMap.size (slot p) = (occ p).card := by
  have hset : {k | slot p k ≠ none} = (occ p : Set ℕ) := by
    ext k
    exact slot_ne_none_iff
  rw [SlotMap.size, hset, Set.ncard_coe_finset]

/-- A call of an operation of the page. -/
inductive Op where
  | insertTuple (tuple : Tuple)
  | markDelete (rid : RID)
  | rollbackDelete (rid : RID)
  | applyDelete (rid : RID)
  | updateTuple (newTuple : Tuple) (rid : RID)
  | getTuple (rid : RID)

/-- What a call returns. -/
inductive Reply where
  | rid (rid : Option RID)
  | ok (b : Bool)
  | done
  | tuple (tuple : Option Tuple)

/-- The effect of a call: `none` where it reads or writes outside the page. -/
def exec (p : Page) : Op → Option (Reply × Page)
  | .insertTuple tuple => some (.rid (insertTuple p tuple).1, (insertTuple p tuple).2)
  | .markDelete rid => atRecord rid (.ok (markDelete p rid).1, (markDelete p rid).2)
  | .rollbackDelete rid => atRecord rid (.done, rollbackDelete p rid)
  | .applyDelete rid => (applyDelete? p rid).map fun p => (.done, p)
  | .updateTuple newTuple rid =>
    atRecord rid (.ok (updateTuple p newTuple rid).1, (updateTuple p newTuple rid).2)
  | .getTuple rid => atRecord rid (.tuple (getTuple p rid), p)

/-- The calls considered: inserted tuples have size `s`, slot numbers are not negative, and a tuple
that `apply_delete` removes is there. -/
def Op.Valid (s : ℤ) (p : Page) : Op → Prop
  | .insertTuple tuple => tuple.size = s
  | .markDelete rid => 0 ≤ rid.slotNum
  | .rollbackDelete rid => 0 ≤ rid.slotNum
  | .applyDelete rid => 0 ≤ rid.slotNum ∧ rid.pageId = p.pageId ∧ slot p rid.slotNum.toNat ≠ none
  | .updateTuple _ rid => 0 ≤ rid.slotNum
  | .getTuple rid => 0 ≤ rid.slotNum

/-- The position that a call is given. -/
def Op.rid? : Op → Option RID
  | .insertTuple _ => none
  | .markDelete rid => some rid
  | .rollbackDelete rid => some rid
  | .applyDelete rid => some rid
  | .updateTuple _ rid => some rid
  | .getTuple rid => some rid

/-- The record that a call is told to read is inside the page. -/
def Op.InPage (op : Op) : Prop := ∀ rid ∈ op.rid?, RecordInPage rid.slotNum

/-- A valid call on the page, with its reply. -/
def PageStep (s : ℤ) (p : Page) (l : Op × Reply) (p' : Page) : Prop :=
  l.1.Valid s p ∧ exec p l.1 = some (l.2, p')

/-- The size with which a tuple of size `s` is stored. -/
def Slot.storedSize (s : ℤ) (sl : Slot) : ℤ := if sl.deleted then s - 2^31 else s

/-- What a call on page `pid` does to the map, and with which reply. -/
inductive SlotStep (s : ℤ) (pid : ℤ) : SlotMap → Op × Reply → SlotMap → Prop
  | inserted {m : SlotMap} {t : Tuple} {k : ℕ} (hcap : (m.size : ℤ) < getTpNumCapacity s) (hk : m k = none) :
    SlotStep s pid m (.insertTuple t, .rid (some ⟨pid, k⟩))
      (Function.update m k (some ⟨t.bytes, false⟩))
  | full {m : SlotMap} {t : Tuple} (hcap : getTpNumCapacity s ≤ m.size) :
    SlotStep s pid m (.insertTuple t, .rid none) m
  | marked {m : SlotMap} {k : ℕ} {sl : Slot} (hk : m k = some sl) :
    SlotStep s pid m (.markDelete ⟨pid, k⟩, .ok true)
      (Function.update m k (some { sl with deleted := true }))
  | notMarked {m : SlotMap} {k : ℕ} {q : ℤ} (h : m k = none ∨ q ≠ pid) :
    SlotStep s pid m (.markDelete ⟨q, k⟩, .ok false) m
  | rolledBack {m : SlotMap} {k : ℕ} {q : ℤ} {sl : Slot} (hk : m k = some sl) :
    SlotStep s pid m (.rollbackDelete ⟨q, k⟩, .done)
      (Function.update m k (some { sl with deleted := false }))
  | notRolledBack {m : SlotMap} {k : ℕ} {q : ℤ} (hk : m k = none) :
    SlotStep s pid m (.rollbackDelete ⟨q, k⟩, .done) m
  | applied {m : SlotMap} {k : ℕ} {sl : Slot} (hk : m k = some sl) :
    SlotStep s pid m (.applyDelete ⟨pid, k⟩, .done) (Function.update m k none)
  | updated {m : SlotMap} {k : ℕ} {sl : Slot} {t : Tuple} (hk : m k = some sl)
    (ht : t.size = sl.storedSize s) :
    SlotStep s pid m (.updateTuple t ⟨pid, k⟩, .ok true)
      (Function.update m k (some { sl with bytes := t.data.getD sl.bytes }))
  | notUpdated {m : SlotMap} {k : ℕ} {q : ℤ} {t : Tuple}
    (h : q = pid → ∀ sl, m k = some sl → t.size ≠ sl.storedSize s) :
    SlotStep s pid m (.updateTuple t ⟨q, k⟩, .ok false) m
  | got {m : SlotMap} {k : ℕ} {q : ℤ} : SlotStep s pid m
      (.getTuple ⟨q, k⟩, .tuple ((m k).map fun sl => Tuple.ofBytes ⟨q, k⟩ sl.bytes)) m

section Refinement

variable {s : ℤ} {p : Page}

theorem slot_eq_none_iff {k : ℕ} : slot p k = none ↔ k ∉ occ p := by
  rw [← slot_ne_none_iff, not_not]

theorem Uniform.exists_slot (h : Uniform s p) {k : ℕ} (hk : k ∈ occ p) :
    ∃ sl, slot p k = some sl ∧ getTupleSize p k = sl.storedSize s :=
  ⟨_, slot_of_mem hk, h.storedSize_eq hk⟩

/-- A valid call whose record is inside the page returns, and does what the map says. -/
theorem exec_refines (hs : 8 ≤ s) (h : Uniform s p) {op : Op} (hv : op.Valid s p) (hin : op.InPage) :
    ∃ r p', exec p op = some (r, p') ∧ Uniform s p' ∧ p'.pageId = p.pageId ∧
      SlotStep s p.pageId (slot p) (op, r) (slot p') := by
  cases op with
  | insertTuple t =>
    obtain ⟨hu, ⟨hcap, k, hk, hrid, hslot⟩ | ⟨hcap, hrid, hslot⟩⟩ := insertTuple_uniform hs h hv
    · refine ⟨_, _, rfl, hu, insertTuple_pageId p t, ?_⟩
      rw [hrid, hslot]
      exact .inserted (by rwa [size_slot]) (slot_of_notMem hk)
    · refine ⟨_, _, rfl, hu, insertTuple_pageId p t, ?_⟩
      rw [hrid, hslot]
      exact .full (by rwa [size_slot])
  | markDelete rid =>
    refine ⟨_, _, if_pos (hin rid rfl), ?_⟩
    obtain ⟨q, n⟩ := rid
    obtain ⟨k, rfl⟩ := Int.eq_ofNat_of_zero_le hv
    by_cases hk : k ∈ occ p ∧ q = p.pageId
    · obtain ⟨hk, rfl⟩ := hk
      obtain ⟨sl, hsl, -⟩ := h.exists_slot hk
      refine ⟨h.markDelete hk, by rw [markDelete_of_mem hk]; rfl, ?_⟩
      rw [slot_markDelete h.wf hk, markDelete_of_mem hk, hsl]
      exact .marked hsl
    · rw [markDelete_of_not hk]
      refine ⟨h, rfl, .notMarked ?_⟩
      rw [slot_eq_none_iff]
      tauto
  | rollbackDelete rid =>
    refine ⟨_, _, if_pos (hin rid rfl), ?_⟩
    obtain ⟨q, n⟩ := rid
    obtain ⟨k, rfl⟩ := Int.eq_ofNat_of_zero_le hv
    by_cases hk : k ∈ occ p
    · obtain ⟨sl, hsl, -⟩ := h.exists_slot hk
      refine ⟨h.rollbackDelete hk, by rw [rollbackDelete_of_mem hk]; rfl, ?_⟩
      rw [slot_rollbackDelete h.wf hk, hsl]
      exact .rolledBack hsl
    · rw [rollbackDelete_of_notMem hk]
      exact ⟨h, rfl, .notRolledBack (slot_of_notMem hk)⟩
  | applyDelete rid =>
    obtain ⟨q, n⟩ := rid
    obtain ⟨hn, rfl, hsome⟩ := hv
    obtain ⟨k, rfl⟩ := Int.eq_ofNat_of_zero_le hn
    have hk : k ∈ occ p := slot_ne_none_iff.mp (by simpa using hsome)
    obtain ⟨sl, hsl, -⟩ := h.exists_slot hk
    refine ⟨.done, applyDelete p ⟨p.pageId, k⟩, ?_, h.applyDelete hs hk, applyDelete_pageId h.wf hk, ?_⟩
    · rw [exec, applyDelete?_of_mem _ h.wf hk, Option.map_some]
    · rw [(applyDelete_spec _ h.wf hk).2.2]
      exact .applied hsl
  | updateTuple t rid =>
    refine ⟨_, _, if_pos (hin rid rfl), ?_⟩
    obtain ⟨q, n⟩ := rid
    obtain ⟨k, rfl⟩ := Int.eq_ofNat_of_zero_le hv
    by_cases hk : k ∈ occ p ∧ getTupleSize p k = t.size ∧ q = p.pageId
    · obtain ⟨hk, ht, rfl⟩ := hk
      obtain ⟨sl, hsl, hsize⟩ := h.exists_slot hk
      obtain ⟨hu, hslot⟩ := updateTuple_uniform hs h hk ht
      refine ⟨hu, by rw [updateTuple_of_mem hk ht], ?_⟩
      rw [hslot, updateTuple_of_mem hk ht, hsl]
      exact .updated hsl (ht.symm.trans hsize)
    · rw [updateTuple_of_not hk]
      refine ⟨h, rfl, .notUpdated fun hq sl hsl ht => hk ?_⟩
      have hk' : k ∈ occ p := slot_ne_none_iff.mp (by simp [hsl])
      obtain ⟨sl', hsl', hsize⟩ := h.exists_slot hk'
      obtain rfl : sl' = sl := by simpa using hsl'.symm.trans hsl
      exact ⟨hk', hsize.trans ht.symm, hq⟩
  | getTuple rid =>
    refine ⟨_, _, if_pos (hin rid rfl), h, rfl, ?_⟩
    obtain ⟨q, n⟩ := rid
    obtain ⟨k, rfl⟩ := Int.eq_ofNat_of_zero_le hv
    rw [getTuple_eq]
    exact .got

/-- A call that returns has read a record inside the page. -/
theorem Op.inPage_of_exec {op : Op} (h : exec p op ≠ none) : op.InPage := by
  intro rid hrid
  by_contra hout
  apply h
  cases op with
  | insertTuple t => cases hrid
  | applyDelete r =>
    obtain rfl : r = rid := Option.some.inj hrid
    simp [exec, applyDelete?, atRecord, hout]
  | markDelete r | rollbackDelete r | updateTuple t r | getTuple r =>
    obtain rfl : r = rid := Option.some.inj hrid
    exact if_neg hout

/-- Over whole runs, a page that was initialised over any bytes behaves as a finite map from slot
numbers to bytes and marks that holds `get_tp_num_capacity(s)` tuples, and `get_stored_tuple_cnt` is
its size. The next valid call does what the map says exactly when the record that it reads is inside the
page. -/
theorem trace_refines_slotMap (hs : 8 ≤ s) (p₀ : Page) (prev next : ℤ)
    {ls : List (Op × Reply)} (h : Trace (PageStep s) (init p₀ prev next) ls p) :
    Trace (SlotStep s p₀.pageId) (fun _ => none) ls (slot p) ∧
      getStoredTupleCnt p = SlotMap.size (slot p) ∧
      ∀ op : Op, op.Valid s p →
        ((∃ r p', exec p op = some (r, p') ∧ SlotStep s p₀.pageId (slot p) (op, r) (slot p')) ↔
          op.InPage) := by
  -- The page is related to the map of its slots.
  let R : Page → SlotMap → Prop := fun p m => Uniform s p ∧ p.pageId = p₀.pageId ∧ slot p = m
  have hstep : ∀ q m l q', R q m → PageStep s q l q' →
      ∃ m', SlotStep s p₀.pageId m l m' ∧ R q' m' := by
    rintro q m ⟨op, r⟩ q' ⟨hu, hpid, rfl⟩ ⟨hv, hexec⟩
    have hin : op.InPage := Op.inPage_of_exec (by rw [hexec]; simp)
    obtain ⟨r', p', he, hu', hpid', hslot⟩ := exec_refines hs hu hv hin
    obtain ⟨rfl, rfl⟩ : r = r' ∧ q' = p' := by simpa using hexec.symm.trans he
    exact ⟨_, hpid ▸ hslot, hu', hpid'.trans hpid, rfl⟩
  have hinit : R (init p₀ prev next) fun _ => none :=
    ⟨uniform_init hs p₀ prev next, rfl, funext fun k => slot_init p₀ k⟩
  obtain ⟨m, htrace, hu, hpid, rfl⟩ := h.simulate hstep hinit
  refine ⟨htrace, by rw [getStoredTupleCnt_eq, size_slot], fun op hv => ⟨?_, fun hin => ?_⟩⟩
  · rintro ⟨r, p', he, -⟩
    exact Op.inPage_of_exec (by rw [he]; simp)
  · obtain ⟨r, p', he, -, -, hslot⟩ := exec_refines hs hu hv hin
    exact ⟨r, p', he, hpid ▸ hslot⟩

end Refinement

/-- A page whose frame is full of stale bytes. -/
def stalePage : Page := ⟨7, 1, true, -1, Latch.free, fun _ => 255⟩

/-- A tuple of eight bytes goes into slot `0` of a page whose frame was full of stale bytes, is marked
there, and is found by the next call. -/
theorem trace_refines_slotMap_stalePage :
    ∃ p, Trace (SlotStep 8 7) (fun _ => none)
      [(.insertTuple (Tuple.ofBytes {} [1, 2, 3, 4, 5, 6, 7, 8]), .rid (some ⟨7, 0⟩)),
        (.markDelete ⟨7, 0⟩, .ok true)] (slot p) ∧
      getStoredTupleCnt p = SlotMap.size (slot p) ∧
      ∃ r p', exec p (.getTuple ⟨7, 0⟩) = some (r, p') ∧
        SlotStep 8 7 (slot p) (.getTuple ⟨7, 0⟩, r) (slot p') := by
  have h1 : (insertTuple (init stalePage (-1) (-1))
      (Tuple.ofBytes {} [1, 2, 3, 4, 5, 6, 7, 8])).1 = some ⟨7, 0⟩ := by decide +kernel
  generalize hq : (insertTuple (init stalePage (-1) (-1))
    (Tuple.ofBytes {} [1, 2, 3, 4, 5, 6, 7, 8])).2 = q
  have h2 : (markDelete q ⟨7, 0⟩).1 = true := by
    rw [← hq]
    decide +kernel
  have hstep1 : PageStep 8 (init stalePage (-1) (-1))
      (.insertTuple (Tuple.ofBytes {} [1, 2, 3, 4, 5, 6, 7, 8]), .rid (some ⟨7, 0⟩)) q :=
    ⟨rfl, by simp only [exec, h1, hq]⟩
  have hin : RecordInPage (⟨7, 0⟩ : RID).slotNum := by decide
  have hstep2 : PageStep 8 q (.markDelete ⟨7, 0⟩, .ok true) (markDelete q ⟨7, 0⟩).2 :=
    ⟨le_refl (0 : ℤ), by simp only [exec, atRecord, if_pos hin, h2]⟩
  obtain ⟨htrace, hcnt, hnext⟩ := trace_refines_slotMap (by decide) stalePage (-1) (-1)
    (.cons hstep1 (.single hstep2))
  refine ⟨_, htrace, hcnt, (hnext (.getTuple ⟨7, 0⟩) (le_refl (0 : ℤ))).mpr ?_⟩
  rintro rid ⟨⟩
  exact hin

/-- `get_tuple` of slot `494` of a new page reads the four bytes behind the page. -/
theorem get_tuple_reads_outside : Op.Valid 8 (init stalePage (-1) (-1)) (.getTuple ⟨7, 494⟩) ∧
    slot (init stalePage (-1) (-1)) 494 = none ∧
    exec (init stalePage (-1) (-1)) (.getTuple ⟨7, 494⟩) = none :=
  ⟨show (0 : ℤ) ≤ 494 by decide, slot_init _ _, by simp [exec, atRecord, recordInPage_iff]⟩

end Dawn.TablePage
