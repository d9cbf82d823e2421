import Dawn.Lib.Packed
import Dawn.Storage.TablePage
import Mathlib.Data.Nat.Bitwise

/-!
# What the operations of a table page do

A page is well formed (`WF`) when its records end before its tuples begin and the occupied records
describe extents that fill the page from the free space pointer to its end. On such a page each
operation is described by what it does to the records and to the slots (`slot`): the bytes and the
deletion mark that a slot number stands for.
-/

namespace Dawn.TablePage

open Function

/-! ## The deletion mark

The mark is the sign of the stored size. -/

variable {x i : ℤ} {p' : Page}

theorem isDeleted_iff (h : IsI32 x) : isDeleted x = true ↔ x < 0 := by
  obtain ⟨h1, h2⟩ := h
  have hn : (BitVec.ofInt 32 x).toNat = (x % 2^32).toNat := by simp [BitVec.toNat_ofInt]
  have ht := Nat.and_two_pow (x % 2^32).toNat 31
  have hb : ((x % 2^32).toNat &&& 2^31 = 0) ↔ ¬ x < 0 := by
    rw [ht, Nat.testBit_eq_decide_div_mod_eq]
    by_cases hx : x < 0
    · have : (x % 2^32).toNat / 2^31 % 2 = 1 := by omega
      rw [this]; simp [hx]
    · have : (x % 2^32).toNat / 2^31 % 2 = 0 := by omega
      rw [this]; simp [hx]
  have hm : deleteMask.toNat = 2^31 := by decide
  rw [isDeleted, bne_iff_ne, ne_eq, ← BitVec.toNat_inj, BitVec.toNat_and, hn, hm]
  simp only [BitVec.ofNat_eq_ofNat, BitVec.toNat_ofNat, Nat.zero_mod]
  rw [hb, not_not]

theorem setDeletedFlag_eq (h : IsI32 x) : setDeletedFlag x = if x < 0 then x else x - 2^31 := by
  obtain ⟨h1, h2⟩ := h
  have hn : (BitVec.ofInt 32 x).toNat = (x % 2^32).toNat := by simp [BitVec.toNat_ofInt]
  have hm : deleteMask.toNat = 2^31 := by decide
  have hor : (BitVec.ofInt 32 x ||| deleteMask).toNat =
      if x < 0 then (x % 2^32).toNat else (x % 2^32).toNat + 2^31 := by
    rw [BitVec.toNat_or, hn, hm]
    have hsplit : ∀ r : ℕ, r < 2^31 → r ||| 2^31 = r + 2^31 := by
      intro r hr
      rw [Nat.or_comm, ← mul_one (2^31), ← Nat.two_pow_add_eq_or_of_lt hr]
      omega
    split_ifs with hx
    · obtain ⟨r, hr, hr'⟩ : ∃ r, r < 2^31 ∧ (x % 2^32).toNat = r + 2^31 :=
        ⟨(x % 2^32).toNat - 2^31, by omega, by omega⟩
      rw [hr', ← hsplit r hr, Nat.or_assoc, Nat.or_self]
    · exact hsplit _ (by omega)
  rw [setDeletedFlag, BitVec.toInt_eq_toNat_cond, hor]
  split_ifs <;> omega

theorem unsetDeletedFlag_eq (h : IsI32 x) : unsetDeletedFlag x = if x < 0 then x + 2^31 else x := by
  obtain ⟨h1, h2⟩ := h
  have hn : (BitVec.ofInt 32 x).toNat = (x % 2^32).toNat := by simp [BitVec.toNat_ofInt]
  have hm : (~~~deleteMask).toNat = 2^31 - 1 := by decide
  rw [unsetDeletedFlag, BitVec.toInt_eq_toNat_cond, BitVec.toNat_and, hn, hm, Nat.and_two_pow_sub_one_eq_mod]
  split_ifs <;> omega

/-! ## Accessors in numbers -/

theorem getNextPageId_eq (p : Page) : getNextPageId p = p.data.i32 68 := rfl

theorem getFreeSpacePointer_eq (p : Page) : getFreeSpacePointer p = p.data.i32 72 := rfl

theorem getTupleCount_eq (p : Page) : getTupleCount p = p.data.i32 140 := rfl

theorem getTupleOffset_eq (p : Page) (k : ℤ) : getTupleOffset p k = p.data.i32 (144 + k * 8) := rfl

theorem getTupleSize_eq (p : Page) (k : ℤ) : getTupleSize p k = p.data.i32 (144 + k * 8 + 4) := rfl

theorem recordInPage_iff {n : ℤ} : RecordInPage n ↔ -18 ≤ n ∧ n < 494 := by
  change 0 ≤ 144 + n * 8 ∧ 144 + (n + 1) * 8 ≤ 4096 ↔ _
  omega

theorem getFreeSpace_eq (p : Page) : getFreeSpace p = getFreeSpacePointer p - (144 + getTupleCount p * 8) := rfl

theorem setFreeSpacePointer_data (p : Page) (v : ℤ) : (setFreeSpacePointer p v).data = p.data.setI32 72 v := rfl

theorem setTupleCount_data (p : Page) (v : ℤ) : (setTupleCount p v).data = p.data.setI32 140 v := rfl

theorem setTupleOffset_data (p : Page) (k v : ℤ) : (setTupleOffset p k v).data = p.data.setI32 (144 + k * 8) v := rfl

theorem setTupleSize_data (p : Page) (k v : ℤ) : (setTupleSize p k v).data = p.data.setI32 (144 + k * 8 + 4) v := rfl

theorem setPrevPageId_data (p : Page) (v : ℤ) : (setPrevPageId p v).data = p.data.setI32 64 v := rfl

theorem setNextPageId_data (p : Page) (v : ℤ) : (setNextPageId p v).data = p.data.setI32 68 v := rfl

/-! ## Well-formed pages -/

/-- The number of bytes of the tuple in a slot, marked or not. -/
def tupleLen (p : Page) (k : ℕ) : ℤ := unsetDeletedFlag (getTupleSize p k)

/-- The occupied slots. -/
def occ (p : Page) : Finset ℕ :=
  (Finset.range (getTupleCount p).toNat).filter fun k => getTupleOffset p k ≠ 0

/-- What a slot number stands for: the bytes of the tuple and its deletion mark. -/
structure Slot where
  /-- The bytes of the tuple. -/
  bytes : List UInt8
  /-- The tuple is marked as deleted. -/
  deleted : Bool
  deriving DecidableEq, Repr

/-- The content of a slot. -/
def slot (p : Page) (k : ℕ) : Option Slot :=
  if k ∈ occ p then
    some ⟨p.data.read (getTupleOffset p k) (tupleLen p k).toNat, isDeleted (getTupleSize p k)⟩
  else none

/-- The records end before the tuples begin, and the tuples fill the rest of the page. -/
structure WF (p : Page) : Prop where
  count_nonneg : 0 ≤ getTupleCount p
  room : 144 + getTupleCount p * 8 ≤ getFreeSpacePointer p
  packed : Packed (occ p) (fun k => getTupleOffset p k) (tupleLen p) (getFreeSpacePointer p) 4096

theorem mem_occ {p : Page} {k : ℕ} : k ∈ occ p ↔ (k : ℤ) < getTupleCount p ∧ getTupleOffset p k ≠ 0 := by
  simp only [occ, Finset.mem_filter, Finset.mem_range]
  constructor <;> rintro ⟨h1, h2⟩ <;> exact ⟨by omega, h2⟩

theorem slot_of_mem {p : Page} {k : ℕ} (h : k ∈ occ p) :
    slot p k = some ⟨p.data.read (getTupleOffset p k) (tupleLen p k).toNat, isDeleted (getTupleSize p k)⟩ := if_pos h

theorem slot_of_notMem {p : Page} {k : ℕ} (h : k ∉ occ p) : slot p k = none := if_neg h

theorem slot_ne_none_iff {p : Page} {k : ℕ} : slot p k ≠ none ↔ k ∈ occ p := by
  unfold slot
  split_ifs with h <;> simp [h]

theorem getStoredTupleCnt_eq (p : Page) : getStoredTupleCnt p = (occ p).card := by
  rw [getStoredTupleCnt, occ, Finset.card_def, Finset.filter_val, Finset.range_val, Multiset.range,
    Multiset.filter_coe, Multiset.coe_card]

theorem slot_congr {p : Page} {k : ℕ} (hocc : k ∈ occ p' ↔ k ∈ occ p)
    (hs : k ∈ occ p → getTupleSize p' k = getTupleSize p k)
    (hr : k ∈ occ p → p'.data.read (getTupleOffset p' k) (tupleLen p k).toNat =
      p.data.read (getTupleOffset p k) (tupleLen p k).toNat) : slot p' k = slot p k := by
  by_cases h : k ∈ occ p
  · rw [slot_of_mem h, slot_of_mem (hocc.mpr h)]
    have hl : tupleLen p' k = tupleLen p k := by rw [tupleLen, hs h, tupleLen]
    rw [hl, hs h, hr h]
  · rw [slot_of_notMem h, slot_of_notMem (mt hocc.mp h)]

theorem tupleLen_eq (p : Page) (k : ℕ) : tupleLen p k =
    if getTupleSize p k < 0 then getTupleSize p k + 2^31 else getTupleSize p k :=
  unsetDeletedFlag_eq (Bytes.isI32_i32 _ _)

theorem isDeleted_getTupleSize (p : Page) (k : ℤ) : isDeleted (getTupleSize p k) = true ↔ getTupleSize p k < 0 :=
  isDeleted_iff (Bytes.isI32_i32 _ _)

namespace WF

variable {p : Page} {k : ℕ}

theorem extent (h : WF p) (hk : k ∈ occ p) : 1 ≤ tupleLen p k ∧
    getFreeSpacePointer p ≤ getTupleOffset p k ∧ getTupleOffset p k + tupleLen p k ≤ 4096 :=
  ⟨h.packed.len_pos k hk, h.packed.lo_le k hk, h.packed.le_hi k hk⟩

theorem record_lt (h : WF p) (hk : (k : ℤ) < getTupleCount p) : 152 + k * 8 ≤ getFreeSpacePointer p := by
  have := h.room
  omega

theorem fsp_le (h : WF p) : getFreeSpacePointer p ≤ 4096 := h.packed.lo_le_hi

/-- The loops over the slots of a well-formed page read records inside the page only. -/
theorem recordInPage (h : WF p) (hk : (k : ℤ) < getTupleCount p) : RecordInPage k := by
  have hlt := h.record_lt hk
  have hle := h.fsp_le
  exact recordInPage_iff.mpr ⟨by omega, by omega⟩

/-- A function that first reads the record of an occupied slot returns. -/
theorem atRecord_eq {α : Type} (h : WF p) (hk : k ∈ occ p) (pid : ℤ) (result : α) :
    atRecord ⟨pid, k⟩ result = some result :=
  if_pos (h.recordInPage (mem_occ.mp hk).1)

end WF

/-! ## `init` -/

section Init

variable (p : Page) {prev next : ℤ}

@[simp] theorem getTupleCount_init : getTupleCount (init p prev next) = 0 := by
  simp (disch := first | omega | decide) only [getTupleCount_eq, init, setFreeSpacePointer_data,
    setTupleCount_data, Bytes.i32_setI32_of_disjoint, Bytes.i32_setI32]

@[simp] theorem getFreeSpacePointer_init : getFreeSpacePointer (init p prev next) = 4096 := by
  exact Bytes.i32_setI32 (by decide)

theorem getNextPageId_init (h : IsI32 next) : getNextPageId (init p prev next) = next := by
  simp (disch := first | omega | assumption) only [getNextPageId_eq, init, setFreeSpacePointer_data,
    setTupleCount_data, setNextPageId_data, Bytes.i32_setI32_of_disjoint, Bytes.i32_setI32]

@[simp] theorem occ_init : occ (init p prev next) = ∅ := by
  rfl

theorem wf_init : WF (init p prev next) where
  count_nonneg := by rw [getTupleCount_init]
  room := by rw [getTupleCount_init, getFreeSpacePointer_init]; norm_num
  packed := by
    rw [occ_init, getFreeSpacePointer_init]
    exact Packed.empty _ _ _

@[simp] theorem slot_init (k : ℕ) : slot (init p prev next) k = none :=
  slot_of_notMem (by simp)

theorem init_data_zero (h1 : 144 ≤ i) (h2 : i < 4096) : (init p prev next).data i = 0 := by
  simp (disch := omega) only [init, setFreeSpacePointer_data, setTupleCount_data,
    setNextPageId_data, setPrevPageId_data, Bytes.setI32_of_notMem, Bytes.memset]
  exact Bytes.memcpy_of_mem (by simp only [startOffset, comPgHeaderSz]; omega)
    (by simp only [startOffset, comPgHeaderSz, pageSize]; omega)

end Init

/-! ## `mark_delete` and `rollback_delete`

Both change the stored size of one record and nothing else. -/

section SetSize

variable {p : Page} {k : ℕ} {v : ℤ}

@[simp] theorem getTupleCount_setTupleSize : getTupleCount (setTupleSize p k v) = getTupleCount p := by
  simp (disch := omega) only [getTupleCount_eq, setTupleSize_data, Bytes.i32_setI32_of_disjoint]

@[simp] theorem getFreeSpacePointer_setTupleSize :
    getFreeSpacePointer (setTupleSize p k v) = getFreeSpacePointer p := by
  simp (disch := omega) only [getFreeSpacePointer_eq, setTupleSize_data, Bytes.i32_setI32_of_disjoint]

@[simp] theorem getTupleOffset_setTupleSize (j : ℕ) : getTupleOffset (setTupleSize p k v) j = getTupleOffset p j := by
  simp only [getTupleOffset_eq, setTupleSize_data]
  exact Bytes.i32_setI32_of_disjoint (by omega)

theorem getTupleSize_setTupleSize (hv : IsI32 v) (j : ℕ) :
    getTupleSize (setTupleSize p k v) j = if j = k then v else getTupleSize p j := by
  simp only [getTupleSize_eq, setTupleSize_data]
  split_ifs with h
  · rw [h, Bytes.i32_setI32 hv]
  · exact Bytes.i32_setI32_of_disjoint (by omega)

@[simp] theorem occ_setTupleSize : occ (setTupleSize p k v) = occ p := by
  ext j
  simp only [mem_occ, getTupleCount_setTupleSize, getTupleOffset_setTupleSize]

theorem tupleLen_setTupleSize (hv : IsI32 v) (hl : unsetDeletedFlag v = tupleLen p k) (j : ℕ) :
    tupleLen (setTupleSize p k v) j = tupleLen p j := by
  rw [tupleLen, getTupleSize_setTupleSize hv]
  split_ifs with h
  · rw [hl, h]
  · rfl

theorem WF.setTupleSize (h : WF p) (hv : IsI32 v) (hl : unsetDeletedFlag v = tupleLen p k) :
    WF (setTupleSize p k v) where
  count_nonneg := by simpa using h.count_nonneg
  room := by simpa using h.room
  packed := by
    simp only [occ_setTupleSize, getFreeSpacePointer_setTupleSize]
    apply h.packed.congr <;> intro j _
    · exact getTupleOffset_setTupleSize j
    · exact tupleLen_setTupleSize hv hl j

theorem slot_setTupleSize (h : WF p) (hk : k ∈ occ p) (hv : IsI32 v) (hl : unsetDeletedFlag v = tupleLen p k) :
    slot (setTupleSize p k v) = update (slot p) k ((slot p k).map fun sl => { sl with deleted := isDeleted v }) := by
  have hroom := h.record_lt (mem_occ.mp hk).1
  have hread : ∀ j ∈ occ p, (setTupleSize p k v).data.read (getTupleOffset p j)
      (tupleLen p j).toNat = p.data.read (getTupleOffset p j) (tupleLen p j).toNat := by
    intro j hj
    have hext := h.extent hj
    rw [setTupleSize_data]
    exact Bytes.read_setI32_of_disjoint (by omega)
  funext j
  by_cases hjk : j = k
  · subst hjk
    rw [update_self, slot_of_mem hk, slot_of_mem (by simpa using hk)]
    rw [getTupleOffset_setTupleSize, tupleLen_setTupleSize hv hl, hread j hk, getTupleSize_setTupleSize hv, if_pos rfl]
    rfl
  · rw [update_of_ne hjk]
    refine slot_congr (by simp) (fun _ => ?_) fun hj => ?_
    · rw [getTupleSize_setTupleSize hv, if_neg hjk]
    · rw [getTupleOffset_setTupleSize, hread j hj]

end SetSize

section Mark

variable {p : Page} {k : ℕ} {pid : ℤ}

theorem setDeletedFlag_spec (p : Page) (k : ℕ) : IsI32 (setDeletedFlag (getTupleSize p k)) ∧
    unsetDeletedFlag (setDeletedFlag (getTupleSize p k)) = tupleLen p k ∧
    isDeleted (setDeletedFlag (getTupleSize p k)) = true := by
  obtain ⟨h1, h2⟩ : IsI32 (getTupleSize p k) := Bytes.isI32_i32 _ _
  have hset := setDeletedFlag_eq ⟨h1, h2⟩
  have hi : IsI32 (setDeletedFlag (getTupleSize p k)) := by
    rw [hset]; constructor <;> split_ifs <;> omega
  refine ⟨hi, ?_, ?_⟩
  · rw [unsetDeletedFlag_eq hi, tupleLen_eq, hset]
    split_ifs <;> omega
  · rw [isDeleted_iff hi, hset]
    split_ifs <;> omega

theorem unsetDeletedFlag_spec (p : Page) (k : ℕ) : IsI32 (unsetDeletedFlag (getTupleSize p k)) ∧
    unsetDeletedFlag (unsetDeletedFlag (getTupleSize p k)) = tupleLen p k ∧
    isDeleted (unsetDeletedFlag (getTupleSize p k)) = false := by
  obtain ⟨h1, h2⟩ : IsI32 (getTupleSize p k) := Bytes.isI32_i32 _ _
  have hunset := unsetDeletedFlag_eq ⟨h1, h2⟩
  have hi : IsI32 (unsetDeletedFlag (getTupleSize p k)) := by
    rw [hunset]; constructor <;> split_ifs <;> omega
  refine ⟨hi, ?_, ?_⟩
  · rw [unsetDeletedFlag_eq hi, tupleLen_eq, hunset]
    split_ifs <;> omega
  · rw [Bool.eq_false_iff, ne_eq, isDeleted_iff hi, hunset]
    split_ifs <;> omega

theorem markDelete_of_mem (hk : k ∈ occ p) :
    markDelete p ⟨p.pageId, k⟩ = (true, setTupleSize p k (setDeletedFlag (getTupleSize p k))) := by
  obtain ⟨h1, h2⟩ := mem_occ.mp hk
  simp only [markDelete, ne_eq]
  rw [if_neg (by simpa using ⟨h1, h2⟩)]

theorem markDelete_of_not (h : ¬ (k ∈ occ p ∧ pid = p.pageId)) : markDelete p ⟨pid, k⟩ = (false, p) := by
  rw [mem_occ] at h
  simp only [markDelete, ne_eq]
  rw [if_pos]
  by_contra hc
  push Not at hc
  exact h ⟨⟨hc.1, hc.2.1⟩, hc.2.2.symm⟩

theorem rollbackDelete_of_mem (hk : k ∈ occ p) :
    rollbackDelete p ⟨pid, k⟩ = setTupleSize p k (unsetDeletedFlag (getTupleSize p k)) := by
  obtain ⟨h1, h2⟩ := mem_occ.mp hk
  simp only [rollbackDelete]
  rw [if_neg (by simpa using ⟨h1, h2⟩)]

theorem rollbackDelete_of_notMem (hk : k ∉ occ p) : rollbackDelete p ⟨pid, k⟩ = p := by
  rw [mem_occ] at hk
  simp only [rollbackDelete]
  rw [if_pos]
  by_contra hc
  push Not at hc
  exact hk hc

end Mark

/-! ## `get_tuple` -/

theorem getTuple_eq (p : Page) (k : ℕ) (pid : ℤ) :
    getTuple p ⟨pid, k⟩ = (slot p k).map fun sl => Tuple.ofBytes ⟨pid, k⟩ sl.bytes := by
  have hlen : (if isDeleted (getTupleSize p k) = true then unsetDeletedFlag (getTupleSize p k)
      else getTupleSize p k) = tupleLen p k := by
    have hd := isDeleted_getTupleSize p k
    split_ifs with h
    · rfl
    · rw [tupleLen_eq, if_neg (mt hd.mpr h)]
  simp only [getTuple, hlen]
  by_cases hk : k ∈ occ p
  · obtain ⟨h1, h2⟩ := mem_occ.mp hk
    rw [slot_of_mem hk, if_neg (by simpa using ⟨h1, h2⟩)]
    rfl
  · rw [slot_of_notMem hk, if_pos]
    · rfl
    · by_contra hc
      push Not at hc
      exact hk (mem_occ.mpr hc)

/-! ## `update_tuple` -/

theorem records_congr {p : Page} (hc : 0 ≤ getTupleCount p)
    (h : ∀ i, 72 ≤ i → i < 144 + getTupleCount p * 8 → p'.data i = p.data i) :
    getTupleCount p' = getTupleCount p ∧ getFreeSpacePointer p' = getFreeSpacePointer p ∧
      ∀ j : ℕ, (j : ℤ) < getTupleCount p →
        getTupleOffset p' j = getTupleOffset p j ∧ getTupleSize p' j = getTupleSize p j := by
  refine ⟨?_, ?_, fun j hj => ⟨?_, ?_⟩⟩
  · rw [getTupleCount_eq, getTupleCount_eq]
    exact Bytes.i32_congr fun i hi => h _ (by omega) (by omega)
  · rw [getFreeSpacePointer_eq, getFreeSpacePointer_eq]
    exact Bytes.i32_congr fun i hi => h _ (by omega) (by omega)
  · rw [getTupleOffset_eq, getTupleOffset_eq]
    exact Bytes.i32_congr fun i hi => h _ (by omega) (by omega)
  · rw [getTupleSize_eq, getTupleSize_eq]
    exact Bytes.i32_congr fun i hi => h _ (by omega) (by omega)

theorem occ_congr {p : Page} (hc : getTupleCount p' = getTupleCount p)
    (ho : ∀ j : ℕ, (j : ℤ) < getTupleCount p → getTupleOffset p' j = getTupleOffset p j) : occ p' = occ p := by
  ext j
  rw [mem_occ, mem_occ, hc]
  constructor <;> rintro ⟨h1, h2⟩
  · exact ⟨h1, by rwa [← ho j h1]⟩
  · exact ⟨h1, by rwa [ho j h1]⟩

section Update

variable {p : Page} {k : ℕ} {pid : ℤ} {b : List UInt8} {t : Tuple}

theorem write_spec (h : WF p) (hk : k ∈ occ p) (hb : (b.length : ℤ) = tupleLen p k) :
    WF { p with data := p.data.write (getTupleOffset p k) b } ∧
    slot { p with data := p.data.write (getTupleOffset p k) b } = update (slot p) k
      ((slot p k).map fun sl => { sl with bytes := b }) := by
  have hroom := h.room
  have hext := h.extent hk
  generalize hp' : ({ p with data := p.data.write (getTupleOffset p k) b } : Page) = p'
  have hdata : p'.data = p.data.write (getTupleOffset p k) b := by rw [← hp']
  have hrecords : ∀ i, 72 ≤ i → i < 144 + getTupleCount p * 8 → p'.data i = p.data i := by
    intro i _ hi
    rw [hdata]
    exact Bytes.write_of_notMem (by omega)
  obtain ⟨hc, hf, hrec⟩ := records_congr h.count_nonneg hrecords
  have hocc : occ p' = occ p := occ_congr hc fun j hj => (hrec j hj).1
  have hrec' : ∀ j ∈ occ p, getTupleOffset p' j = getTupleOffset p j ∧
      getTupleSize p' j = getTupleSize p j := fun j hj => hrec j (mem_occ.mp hj).1
  refine ⟨⟨by rw [hc]; exact h.count_nonneg, by rw [hc, hf]; exact hroom, ?_⟩, ?_⟩
  · rw [hocc, hf]
    exact h.packed.congr (fun j hj => (hrec' j hj).1)
      fun j hj => by rw [tupleLen, (hrec' j hj).2, tupleLen]
  · funext j
    by_cases hjk : j = k
    · subst hjk
      have hlen : tupleLen p' j = tupleLen p j := by rw [tupleLen, (hrec' j hk).2, tupleLen]
      rw [update_self, slot_of_mem hk, slot_of_mem (by rwa [hocc]), (hrec' j hk).1,
        (hrec' j hk).2, hlen, hdata, ← hb, Int.toNat_natCast, Bytes.read_write]
      rfl
    · rw [update_of_ne hjk]
      refine slot_congr (by rw [hocc]) (fun hj => (hrec' j hj).2) fun hj => ?_
      have hdisj := h.packed.disjoint j hj k hk hjk
      have hlj := h.packed.len_pos j hj
      rw [(hrec' j hj).1, hdata]
      exact Bytes.read_write_of_disjoint (by omega)

theorem updateTuple_of_mem (hk : k ∈ occ p) (hs : getTupleSize p k = t.size) : updateTuple p t ⟨p.pageId, k⟩ =
      (true, { p with data := t.serializeTo p.data (getTupleOffset p k) }) := by
  obtain ⟨h1, h2⟩ := mem_occ.mp hk
  simp only [updateTuple, ne_eq]
  rw [if_neg (by simpa using ⟨h1, h2, hs⟩)]

theorem updateTuple_of_not (h : ¬ (k ∈ occ p ∧ getTupleSize p k = t.size ∧ pid = p.pageId)) :
    updateTuple p t ⟨pid, k⟩ = (false, p) := by
  rw [mem_occ] at h
  simp only [updateTuple, ne_eq]
  rw [if_pos]
  by_contra hc
  push Not at hc
  exact h ⟨⟨hc.1, hc.2.1⟩, hc.2.2⟩

end Update

/-! ## `insert_tuple` -/

theorem getEmptySlot_cases (p : Page) :
    (∃ k : ℕ, getEmptySlot p = (↑k, p) ∧ (k : ℤ) < getTupleCount p ∧ getTupleOffset p k = 0) ∨
    ((∀ k : ℕ, (k : ℤ) < getTupleCount p → getTupleOffset p k ≠ 0) ∧ (getFreeSpace p < 8 ∧ getEmptySlot p = (-1, p) ∨
        8 ≤ getFreeSpace p ∧ getEmptySlot p = (getTupleCount p, setTupleCount p (getTupleCount p + 1)))) := by
  have h8 : tupleRecordSz = 8 := rfl
  cases hf : (List.range (getTupleCount p).toNat).find? fun k : ℕ => getTupleOffset p k = 0 with
  | some k =>
    have hmem := List.mem_range.mp (List.mem_of_find?_eq_some hf)
    have hzero := List.find?_some hf
    refine Or.inl ⟨k, ?_, by omega, by simpa using hzero⟩
    simp only [getEmptySlot, hf]
  | none =>
    refine Or.inr ⟨fun k hk => ?_, ?_⟩
    · have := List.find?_eq_none.mp hf k (List.mem_range.mpr (by omega))
      simpa using this
    · simp only [getEmptySlot, hf, h8]
      by_cases h : getFreeSpace p < 8
      · exact Or.inl ⟨h, by rw [if_pos h]⟩
      · exact Or.inr ⟨by omega, by rw [if_neg h]⟩

@[simp] theorem getEmptySlot_pageId (p : Page) : (getEmptySlot p).2.pageId = p.pageId := by
  unfold getEmptySlot
  split
  · rfl
  · split_ifs <;> rfl

/-- The page is well formed but for the record of one slot, which is about to be overwritten. -/
structure WFBut (p : Page) (k : ℕ) : Prop where
  lt_count : (k : ℤ) < getTupleCount p
  room : 144 + getTupleCount p * 8 ≤ getFreeSpacePointer p
  packed : Packed ((occ p).erase k) (fun k => getTupleOffset p k) (tupleLen p)
    (getFreeSpacePointer p) 4096

section Insert

variable {p : Page} {k : ℕ} {t : Tuple}

theorem storeTuple_data (hs : 0 < t.size) : (storeTuple p k t).data =
    (((p.data.write (getFreeSpacePointer p - t.size) t.bytes).setI32 72
      (getFreeSpacePointer p - t.size)).setI32 (144 + k * 8)
        (getFreeSpacePointer p - t.size)).setI32 (144 + k * 8 + 4) t.size := by
  obtain ⟨hd, -⟩ := t.data_eq_of_pos hs
  simp only [storeTuple, insertTupleRecord, setTupleSize_data, setTupleOffset_data,
    setFreeSpacePointer_data, Tuple.serializeTo, hd]

@[simp] theorem storeTuple_pageId (n : ℤ) : (storeTuple p n t).pageId = p.pageId := rfl

theorem storeTuple_data_of_notMem (hs : 0 < t.size) (h1 : i < 72 ∨ 76 ≤ i)
    (h2 : i < 144 + k * 8 ∨ 144 + k * 8 + 8 ≤ i) (h3 : i < getFreeSpacePointer p - t.size ∨ getFreeSpacePointer p ≤ i) :
    (storeTuple p k t).data i = p.data i := by
  obtain ⟨-, hl⟩ := t.data_eq_of_pos hs
  simp (disch := omega) only [storeTuple_data hs, Bytes.setI32_of_notMem, Bytes.write_of_notMem]

theorem storeTuple_records (hk : (k : ℤ) < getTupleCount p) (hs : 0 < t.size)
    (hfit : 144 + getTupleCount p * 8 + t.size ≤ getFreeSpacePointer p) :
    getTupleCount (storeTuple p k t) = getTupleCount p ∧
    getFreeSpacePointer (storeTuple p k t) = getFreeSpacePointer p - t.size ∧
    (∀ j : ℕ, (j : ℤ) < getTupleCount p → getTupleOffset (storeTuple p k t) j =
      if j = k then getFreeSpacePointer p - t.size else getTupleOffset p j) ∧
    (∀ j : ℕ, (j : ℤ) < getTupleCount p → getTupleSize (storeTuple p k t) j =
      if j = k then t.size else getTupleSize p j) := by
  have hf : IsI32 (getFreeSpacePointer p) := Bytes.isI32_i32 _ _
  rw [IsI32] at hf
  obtain ⟨-, hl⟩ := t.data_eq_of_pos hs
  have hi : IsI32 (getFreeSpacePointer p - t.size) := ⟨by omega, by omega⟩
  have hi' : IsI32 t.size := ⟨by omega, by omega⟩
  refine ⟨?_, ?_, fun j hj => ?_, fun j hj => ?_⟩
  · rw [getTupleCount_eq, storeTuple_data hs]
    simp (disch := omega) only [Bytes.i32_setI32_of_disjoint, Bytes.i32_write_of_disjoint, getTupleCount_eq]
  · rw [getFreeSpacePointer_eq, storeTuple_data hs]
    simp (disch := first | omega | assumption) only [Bytes.i32_setI32_of_disjoint, Bytes.i32_setI32]
  · rw [getTupleOffset_eq, storeTuple_data hs]
    split_ifs with hjk
    · subst hjk
      simp (disch := first | omega | assumption) only [Bytes.i32_setI32_of_disjoint, Bytes.i32_setI32]
    · simp (disch := omega) only [Bytes.i32_setI32_of_disjoint, Bytes.i32_write_of_disjoint, getTupleOffset_eq]
  · rw [getTupleSize_eq, storeTuple_data hs]
    split_ifs with hjk
    · subst hjk
      simp (disch := first | omega | assumption) only [Bytes.i32_setI32]
    · simp (disch := omega) only [Bytes.i32_setI32_of_disjoint, Bytes.i32_write_of_disjoint, getTupleSize_eq]

theorem storeTuple_spec (h : WFBut p k) (hs : 0 < t.size)
    (hfit : 144 + getTupleCount p * 8 + t.size ≤ getFreeSpacePointer p) :
    WF (storeTuple p k t) ∧ occ (storeTuple p k t) = insert k ((occ p).erase k) ∧
    tupleLen (storeTuple p k t) k = t.size ∧ slot (storeTuple p k t) = update (slot p) k (some ⟨t.bytes, false⟩) := by
  have hk := h.lt_count
  obtain ⟨hd, hl⟩ := t.data_eq_of_pos hs
  obtain ⟨hc, hfsp, hoff, hsize⟩ := storeTuple_records hk hs hfit
  have hlen : ∀ j : ℕ, (j : ℤ) < getTupleCount p → tupleLen (storeTuple p k t) j =
      if j = k then t.size else tupleLen p j := by
    intro j hj
    rw [tupleLen_eq, hsize j hj]
    split_ifs <;> first | omega | simp only [tupleLen_eq, *, if_true, if_false]
  have hocc : occ (storeTuple p k t) = insert k ((occ p).erase k) := by
    ext j
    rw [Finset.mem_insert, Finset.mem_erase, mem_occ, mem_occ, hc]
    by_cases hj : (j : ℤ) < getTupleCount p
    · rw [hoff j hj]
      by_cases hjk : j = k
      · simp only [hjk, if_true, true_or, iff_true]
        exact ⟨hk, by omega⟩
      · simp [hjk, hj]
    · constructor
      · rintro ⟨h1, -⟩
        exact absurd h1 hj
      · rintro (rfl | ⟨-, h1, -⟩)
        · exact absurd hk hj
        · exact absurd h1 hj
  have hmem : ∀ j ∈ (occ p).erase k, (j : ℤ) < getTupleCount p ∧ j ≠ k := fun j hj =>
    ⟨(mem_occ.mp (Finset.mem_of_mem_erase hj)).1, Finset.ne_of_mem_erase hj⟩
  refine ⟨⟨by omega, by omega, ?_⟩, hocc, by rw [hlen k hk, if_pos rfl], ?_⟩
  · rw [hocc, hfsp]
    refine h.packed.push (Finset.notMem_erase k _) hs ?_ ?_ (fun j hj => ?_) fun j hj => ?_
    · simp only [hoff k hk, if_true]
    · rw [hlen k hk, if_pos rfl]
    · simp only [hoff j (hmem j hj).1, if_neg (hmem j hj).2]
    · rw [hlen j (hmem j hj).1, if_neg (hmem j hj).2]
  · funext j
    by_cases hjk : j = k
    · subst hjk
      rw [update_self, slot_of_mem (by rw [hocc]; exact Finset.mem_insert_self _ _),
        hoff j hk, if_pos rfl, hlen j hk, if_pos rfl]
      have hread : (storeTuple p j t).data.read (getFreeSpacePointer p - t.size) t.size.toNat =
          t.bytes := by
        rw [storeTuple_data hs, ← hl, Int.toNat_natCast]
        simp (disch := omega) only [Bytes.read_setI32_of_disjoint]
        exact Bytes.read_write _ _ _
      have hdel : isDeleted (getTupleSize (storeTuple p j t) j) = false := by
        rw [Bool.eq_false_iff, ne_eq, isDeleted_getTupleSize, hsize j hk, if_pos rfl]
        omega
      rw [hread, hdel]
    · rw [update_of_ne hjk]
      have hiff : j ∈ occ (storeTuple p k t) ↔ j ∈ occ p := by rw [hocc]; simp [hjk]
      refine slot_congr hiff (fun hj => ?_) fun hj => ?_
      · rw [hsize j (mem_occ.mp hj).1, if_neg hjk]
      · have hje : j ∈ (occ p).erase k := Finset.mem_erase.mpr ⟨hjk, hj⟩
        have h1 := h.packed.lo_le j hje
        rw [hoff j (mem_occ.mp hj).1, if_neg hjk]
        apply Bytes.read_congr
        intro i hi
        exact storeTuple_data_of_notMem hs (by omega) (by omega) (by omega)

@[simp] theorem insertTuple_pageId (p : Page) (t : Tuple) : (insertTuple p t).2.pageId = p.pageId := by
  have h := getEmptySlot_pageId p
  simp only [insertTuple]
  split_ifs
  · exact h
  · rw [storeTuple_pageId, h]

end Insert

/-! ## `apply_delete` -/

section Relocate

variable {p : Page} {deletedOffset deletedSize : ℤ}

theorem relocate_data_of_notMem {n : ℕ} (h : i < 144 + n * 8 ∨ 144 + n * 8 + 4 ≤ i) :
    (relocate deletedOffset deletedSize p n).data i = p.data i := by
  unfold relocate
  dsimp only
  split_ifs
  · rw [setTupleOffset_data]
    exact Bytes.setI32_of_notMem h
  · rfl

theorem getTupleOffset_relocate (h0 : 0 ≤ deletedSize) (h1 : deletedOffset + deletedSize ≤ 4096)
    (n : ℕ) : getTupleOffset (relocate deletedOffset deletedSize p n) n =
      if getTupleOffset p n ≠ 0 ∧ getTupleOffset p n < deletedOffset then
        getTupleOffset p n + deletedSize else getTupleOffset p n := by
  obtain ⟨hlo, -⟩ : IsI32 (getTupleOffset p n) := Bytes.isI32_i32 _ _
  unfold relocate
  dsimp only
  split_ifs with h
  · rw [getTupleOffset_eq, setTupleOffset_data]
    exact Bytes.i32_setI32 ⟨by omega, by omega⟩
  · rfl

/-- The loop at the end of `apply_delete`, after `n` rounds: the offsets of the first `n` records
have moved, and nothing else has changed. -/
theorem relocate_foldl (p : Page) (h0 : 0 ≤ deletedSize) (h1 : deletedOffset + deletedSize ≤ 4096) (n : ℕ) :
    (∀ i : ℤ, i < 144 ∨ 144 + n * 8 ≤ i → ((List.range n).foldl
      (relocate deletedOffset deletedSize) p).data i = p.data i) ∧
    (∀ j : ℕ, getTupleSize ((List.range n).foldl (relocate deletedOffset deletedSize) p) j = getTupleSize p j) ∧
    (∀ j : ℕ, j < n → getTupleOffset ((List.range n).foldl (relocate deletedOffset deletedSize) p) j =
      if getTupleOffset p j ≠ 0 ∧ getTupleOffset p j < deletedOffset then
        getTupleOffset p j + deletedSize else getTupleOffset p j) := by
  induction n with
  | zero => simp
  | succ n ih =>
    rw [List.range_succ, List.foldl_append, List.foldl_cons, List.foldl_nil]
    obtain ⟨hdata, hsize, hoff⟩ := ih
    generalize (List.range n).foldl (relocate deletedOffset deletedSize) p = q at *
    refine ⟨fun i hi => ?_, fun j => ?_, fun j hj => ?_⟩
    · rw [relocate_data_of_notMem (by omega), hdata i (by omega)]
    · rw [← hsize j, getTupleSize_eq, getTupleSize_eq]
      exact Bytes.i32_congr fun i hi => relocate_data_of_notMem (by omega)
    · by_cases hjn : j = n
      · -- The record of this round has not been touched by the rounds before it.
        subst hjn
        have hq : getTupleOffset q j = getTupleOffset p j := by
          rw [getTupleOffset_eq, getTupleOffset_eq]
          exact Bytes.i32_congr fun i hi => hdata _ (by omega)
        rw [getTupleOffset_relocate h0 h1, hq]
      · rw [← hoff j (by omega), getTupleOffset_eq, getTupleOffset_eq]
        exact Bytes.i32_congr fun i hi => relocate_data_of_notMem (by omega)

theorem relocate_foldl_pageId (l : List ℕ) : (l.foldl (relocate deletedOffset deletedSize) p).pageId = p.pageId := by
  induction l generalizing p with
  | nil => rfl
  | cons n l ih =>
    rw [List.foldl_cons, ih]
    unfold relocate
    dsimp only
    split_ifs <;> rfl

end Relocate

section ApplyDelete

variable {p : Page} {k : ℕ} {pid : ℤ}

/-- The page before the loop of `apply_delete`: the record is gone, the tuples below have moved up,
and the free space pointer with them. -/
def compacted (p : Page) (k : ℕ) : Page :=
  let data := (p.data.memset (144 + k * 8) 0 8).memmove (getFreeSpacePointer p + tupleLen p k)
    (getFreeSpacePointer p) (getTupleOffset p k - getFreeSpacePointer p)
  { p with data := data.setI32 72 (getFreeSpacePointer p + tupleLen p k) }

theorem compacted_data (p : Page) (k : ℕ) : (compacted p k).data =
    ((p.data.memset (144 + k * 8) 0 8).memmove (getFreeSpacePointer p + tupleLen p k)
      (getFreeSpacePointer p) (getTupleOffset p k - getFreeSpacePointer p)).setI32 72
        (getFreeSpacePointer p + tupleLen p k) := rfl

theorem compacted_data_of_notMem (h1 : i < 72 ∨ 76 ≤ i) (h2 : i < 144 + k * 8 ∨ 144 + k * 8 + 8 ≤ i)
    (h3 : i < getFreeSpacePointer p + tupleLen p k ∨ getTupleOffset p k + tupleLen p k ≤ i) :
    (compacted p k).data i = p.data i := by
  simp (disch := omega) only [compacted_data, Bytes.setI32_of_notMem, Bytes.memmove, Bytes.memset,
    Bytes.memcpy_of_notMem]

theorem compacted_data_moved (h : 144 + k * 8 + 8 ≤ getFreeSpacePointer p)
    (hl : 0 ≤ tupleLen p k) (h1 : getFreeSpacePointer p + tupleLen p k ≤ i)
    (h2 : i < getTupleOffset p k + tupleLen p k) : (compacted p k).data i = p.data (i - tupleLen p k) := by
  rw [compacted_data, Bytes.setI32_of_notMem (by omega), Bytes.memmove,
    Bytes.memcpy_of_mem (by omega) (by omega), Bytes.memset, Bytes.memcpy_of_notMem (by omega)]
  congr 1
  omega

theorem compacted_records (h : WF p) (hk : k ∈ occ p) : getTupleCount (compacted p k) = getTupleCount p ∧
    getFreeSpacePointer (compacted p k) = getFreeSpacePointer p + tupleLen p k ∧
    getTupleOffset (compacted p k) k = 0 ∧ getTupleSize (compacted p k) k = 0 ∧
    (∀ j : ℕ, (j : ℤ) < getTupleCount p → j ≠ k → getTupleOffset (compacted p k) j = getTupleOffset p j ∧
      getTupleSize (compacted p k) j = getTupleSize p j) := by
  have hroom := h.room
  have hck := (mem_occ.mp hk).1
  obtain ⟨hl, hlo, hhi⟩ := h.extent hk
  have hzero : ∀ i : ℤ, 144 + k * 8 ≤ i → i < 144 + k * 8 + 8 → (compacted p k).data i = 0 := by
    intro i h1 h2
    rw [compacted_data, Bytes.setI32_of_notMem (by omega), Bytes.memmove,
      Bytes.memcpy_of_notMem (by omega)]
    exact Bytes.memcpy_of_mem h1 h2
  refine ⟨?_, ?_, ?_, ?_, fun j hj hjk => ⟨?_, ?_⟩⟩
  · rw [getTupleCount_eq, getTupleCount_eq]
    exact Bytes.i32_congr fun i hi => compacted_data_of_notMem (by omega) (by omega) (by omega)
  · exact Bytes.i32_setI32 ⟨by omega, by omega⟩
  · rw [getTupleOffset_eq]
    exact Bytes.i32_eq_zero fun i hi => hzero _ (by omega) (by omega)
  · rw [getTupleSize_eq]
    exact Bytes.i32_eq_zero fun i hi => hzero _ (by omega) (by omega)
  · rw [getTupleOffset_eq, getTupleOffset_eq]
    exact Bytes.i32_congr fun i hi => compacted_data_of_notMem (by omega) (by omega) (by omega)
  · rw [getTupleSize_eq, getTupleSize_eq]
    exact Bytes.i32_congr fun i hi => compacted_data_of_notMem (by omega) (by omega) (by omega)

theorem applyDelete_of_mem (h : WF p) (hk : k ∈ occ p) : applyDelete p ⟨pid, k⟩ =
    (List.range (getTupleCount p).toNat).foldl (relocate (getTupleOffset p k) (tupleLen p k)) (compacted p k) := by
  obtain ⟨h1, h2⟩ := mem_occ.mp hk
  have hc := (compacted_records h hk).1
  have hdel : deleteTupleRecord p k = { p with data := p.data.memset (144 + k * 8) 0 8 } := by
    rw [deleteTupleRecord, if_neg (by omega)]
    rfl
  simp only [applyDelete]
  rw [if_neg (by rintro ⟨hor, -⟩; omega), hdel, ← hc]
  rfl

theorem applyDelete_pageId (h : WF p) (hk : k ∈ occ p) : (applyDelete p ⟨pid, k⟩).pageId = p.pageId := by
  rw [applyDelete_of_mem h hk, relocate_foldl_pageId]
  rfl

/-- `apply_delete` of a stored tuple stays inside the page. -/
theorem applyDelete?_of_mem (pid : ℤ) (h : WF p) (hk : k ∈ occ p) :
    applyDelete? p ⟨pid, k⟩ = some (applyDelete p ⟨pid, k⟩) := by
  have hin : MovesInPage p ⟨pid, k⟩ := by
    intro n hn
    obtain ⟨hlen, hlo, hhi⟩ := h.extent hk
    have hroom := h.room
    have hc0 := h.count_nonneg
    simp only [applyDeleteMoves, Option.mem_def] at hn
    split_ifs at hn
    rw [Option.some.injEq] at hn
    change 0 ≤ n ∧ 0 ≤ getFreeSpacePointer p ∧ getFreeSpacePointer p + tupleLen p k + n ≤ 4096
    omega
  rw [applyDelete?, if_pos hin, h.atRecord_eq hk]

theorem applyDelete_records (pid : ℤ) (h : WF p) (hk : k ∈ occ p) :
    getTupleCount (applyDelete p ⟨pid, k⟩) = getTupleCount p ∧
    getFreeSpacePointer (applyDelete p ⟨pid, k⟩) = getFreeSpacePointer p + tupleLen p k ∧
    getTupleOffset (applyDelete p ⟨pid, k⟩) k = 0 ∧ (∀ j : ℕ, (j : ℤ) < getTupleCount p → j ≠ k →
      getTupleOffset (applyDelete p ⟨pid, k⟩) j =
        (if getTupleOffset p j ≠ 0 ∧ getTupleOffset p j < getTupleOffset p k then
          getTupleOffset p j + tupleLen p k else getTupleOffset p j) ∧
      getTupleSize (applyDelete p ⟨pid, k⟩) j = getTupleSize p j) := by
  have hroom := h.room
  have hck := (mem_occ.mp hk).1
  obtain ⟨hl, hlo, hhi⟩ := h.extent hk
  obtain ⟨hc, hf, hok, hsk, hrec⟩ := compacted_records h hk
  rw [applyDelete_of_mem h hk]
  obtain ⟨hdata, hsize, hoff⟩ := relocate_foldl (compacted p k) (zero_le_one.trans hl) hhi
    (getTupleCount p).toNat
  generalize (List.range (getTupleCount p).toNat).foldl
    (relocate (getTupleOffset p k) (tupleLen p k)) (compacted p k) = q at *
  refine ⟨?_, ?_, ?_, fun j hj hjk => ⟨?_, ?_⟩⟩
  · rw [← hc, getTupleCount_eq, getTupleCount_eq (compacted p k)]
    exact Bytes.i32_congr fun i hi => hdata _ (by omega)
  · rw [← hf, getFreeSpacePointer_eq, getFreeSpacePointer_eq (compacted p k)]
    exact Bytes.i32_congr fun i hi => hdata _ (by omega)
  · rw [hoff k (by omega), hok]
    simp
  · rw [hoff j (by omega), (hrec j hj hjk).1]
  · rw [hsize j, (hrec j hj hjk).2]

theorem applyDelete_data_of_notMem (h : WF p) (hk : k ∈ occ p)
    (h1 : i < 72 ∨ 76 ≤ i) (h2 : i < 144 ∨ 144 + getTupleCount p * 8 ≤ i)
    (h3 : i < getFreeSpacePointer p) : (applyDelete p ⟨pid, k⟩).data i = p.data i := by
  have hck := (mem_occ.mp hk).1
  obtain ⟨hl, hlo, hhi⟩ := h.extent hk
  rw [applyDelete_of_mem h hk, (relocate_foldl _ (by omega) (by omega) _).1 i (by omega)]
  exact compacted_data_of_notMem h1 (by omega) (by omega)

theorem applyDelete_spec (pid : ℤ) (h : WF p) (hk : k ∈ occ p) : WF (applyDelete p ⟨pid, k⟩) ∧
    occ (applyDelete p ⟨pid, k⟩) = (occ p).erase k ∧ slot (applyDelete p ⟨pid, k⟩) = update (slot p) k none := by
  have hroom := h.room
  have hck := (mem_occ.mp hk).1
  obtain ⟨hl, hlo, hhi⟩ := h.extent hk
  obtain ⟨hc, hf, hok, hrec⟩ := applyDelete_records pid h hk
  -- A record that is occupied and stays: where its tuple is now.
  have hoff : ∀ j ∈ occ p, j ≠ k → getTupleOffset (applyDelete p ⟨pid, k⟩) j =
      if getTupleOffset p j < getTupleOffset p k then getTupleOffset p j + tupleLen p k
      else getTupleOffset p j := by
    intro j hj hjk
    rw [(hrec j (mem_occ.mp hj).1 hjk).1]
    simp only [(mem_occ.mp hj).2, ne_eq, not_false_eq_true, true_and]
  have hsize : ∀ j ∈ occ p, j ≠ k →
      getTupleSize (applyDelete p ⟨pid, k⟩) j = getTupleSize p j :=
    fun j hj hjk => (hrec j (mem_occ.mp hj).1 hjk).2
  have hocc : occ (applyDelete p ⟨pid, k⟩) = (occ p).erase k := by
    ext j
    rw [Finset.mem_erase, mem_occ, mem_occ, hc]
    by_cases hjk : j = k
    · simp [hjk, hok]
    · simp only [hjk, ne_eq, not_false_eq_true, true_and]
      refine and_congr_right fun hj => not_congr ?_
      rw [(hrec j hj hjk).1]
      split_ifs with hmove
      · -- A tuple that moves does not move to offset zero.
        have hjo := h.packed.lo_le j (mem_occ.mpr ⟨hj, hmove.1⟩)
        constructor <;> intro h0 <;> omega
      · exact Iff.rfl
  refine ⟨⟨by rw [hc]; exact h.count_nonneg, by rw [hc, hf]; omega, ?_⟩, hocc, ?_⟩
  · rw [hocc, hf]
    refine h.packed.remove hk (fun j hj hjk => hoff j hj hjk) fun j hj hjk => ?_
    rw [tupleLen, hsize j hj hjk, tupleLen]
  · funext j
    by_cases hjk : j = k
    · subst hjk
      rw [update_self, slot_of_notMem (by simp [hocc])]
    · rw [update_of_ne hjk]
      refine slot_congr (by simp [hocc, hjk]) (fun hj => hsize j hj hjk) fun hj => ?_
      obtain ⟨hlj, hloj, hhij⟩ := h.extent hj
      have hdisj := h.packed.disjoint j hj k hk hjk
      apply Bytes.read_congr
      intro i hi
      rw [hoff j hj hjk, applyDelete_of_mem h hk,
        (relocate_foldl _ (by omega) (by omega) _).1 _ (by split_ifs <;> omega)]
      split_ifs with hmove
      · rw [compacted_data_moved (by omega) (by omega) (by omega) (by omega)]
        congr 1
        omega
      · exact compacted_data_of_notMem (by omega) (by omega) (by omega)

end ApplyDelete

end Dawn.TablePage
