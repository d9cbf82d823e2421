import Dawn.Storage.Page

/-!
# Link hash pages

`LinkHashPage` of `src/include/storage/page/link_hash_page.h`: the pages of the first two levels of a
link hash index. After the common header a page is a table of `LK_HA_PG_SLOT_NUM` page ids. A page id
written into one slot is read back from it (`getPgidInSlot_setPgidInSlot_self`) and leaves the other
slots alone (`getPgidInSlot_setPgidInSlot_of_ne`).
-/

namespace Dawn.LinkHashPage

/-- `FIRST_SLOT_NUM_OFFSET`. -/
def firstSlotNumOffset : ℤ := comPgHeaderSz

/-- `SLOT_SIZE`. -/
def slotSize : ℤ := pgidTSize

/-- One round of the loop of `init`. -/
def clearSlot (p : Page) (i : ℕ) : Page :=
  { p with data := p.data.setI32 (firstSlotNumOffset + i * slotSize) invalidPageId }

/-- `init`. -/
def init (p : Page) : Page := (List.range lkHaPgSlotNum.toNat).foldl clearSlot p

/-- `get_pgid_in_slot`. -/
def getPgidInSlot (p : Page) (slotNum : ℤ) : ℤ :=
  if slotNum < 0 ∨ lkHaPgSlotNum ≤ slotNum then invalidPageId
  else p.data.i32 (firstSlotNumOffset + slotNum * slotSize)

/-- `set_pgid_in_slot`. -/
def setPgidInSlot (p : Page) (slotNum pageId : ℤ) : Page :=
  if slotNum < 0 ∨ lkHaPgSlotNum ≤ slotNum then p
  else { p with data := p.data.setI32 (firstSlotNumOffset + slotNum * slotSize) pageId }

/-- A slot of a link hash page. -/
def IsSlot (slotNum : ℤ) : Prop := 0 ≤ slotNum ∧ slotNum < lkHaPgSlotNum

theorem isSlot_of_ne {p : Page} {i : ℤ} (h : getPgidInSlot p i ≠ -1) : IsSlot i := by
  by_contra hi
  refine h (if_pos ?_)
  simp only [IsSlot] at hi
  omega

theorem getPgidInSlot_eq {p : Page} {i : ℤ} (h : IsSlot i) : getPgidInSlot p i = p.data.i32 (64 + i * 4) := by
  simp only [IsSlot] at h
  exact if_neg (by omega)

theorem setPgidInSlot_data {p : Page} {i : ℤ} (h : IsSlot i) (v : ℤ) :
    (setPgidInSlot p i v).data = p.data.setI32 (64 + i * 4) v := by
  simp only [IsSlot] at h
  rw [setPgidInSlot, if_neg (by omega)]
  rfl

theorem getPgidInSlot_setPgidInSlot_self {p : Page} {i v : ℤ} (hi : IsSlot i) (hv : IsI32 v) :
    getPgidInSlot (setPgidInSlot p i v) i = v := by
  rw [getPgidInSlot_eq hi, setPgidInSlot_data hi, Bytes.i32_setI32 hv]

theorem getPgidInSlot_setPgidInSlot_of_ne {p : Page} {i j : ℤ} (hi : IsSlot i) (h : j ≠ i) (v : ℤ) :
    getPgidInSlot (setPgidInSlot p i v) j = getPgidInSlot p j := by
  by_cases hj : IsSlot j
  · rw [getPgidInSlot_eq hj, setPgidInSlot_data hi, Bytes.i32_setI32_of_disjoint (by omega),
      getPgidInSlot_eq hj]
  · simp only [IsSlot] at hj
    rw [getPgidInSlot, getPgidInSlot, if_pos (by omega), if_pos (by omega)]

theorem foldl_clearSlot (p : Page) (n k : ℕ) (hk : k < n) :
    ((List.range n).foldl clearSlot p).data.i32 (64 + k * 4) = -1 := by
  induction n with
  | zero => omega
  | succ n ih =>
    rw [List.range_succ, List.foldl_append]
    simp only [List.foldl_cons, List.foldl_nil, clearSlot, firstSlotNumOffset, slotSize,
      comPgHeaderSz, pgidTSize, invalidPageId]
    obtain rfl | hne := eq_or_ne k n
    · exact Bytes.i32_setI32 (by norm_num [IsI32])
    · rw [Bytes.i32_setI32_of_disjoint (by omega)]
      exact ih (by omega)

@[simp] theorem getPgidInSlot_init (p : Page) (i : ℤ) : getPgidInSlot (init p) i = -1 := by
  by_contra h
  have hi := isSlot_of_ne h
  rw [getPgidInSlot_eq hi] at h
  simp only [IsSlot, lkHaPgSlotNum, pageSize, comPgHeaderSz, pgidTSize] at hi
  have hn := foldl_clearSlot p lkHaPgSlotNum.toNat i.toNat (by
    simp only [lkHaPgSlotNum, pageSize, comPgHeaderSz, pgidTSize]; omega)
  rw [Int.toNat_of_nonneg hi.1] at hn
  exact h hn

end Dawn.LinkHashPage
