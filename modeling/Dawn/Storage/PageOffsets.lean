import Dawn.Storage.DiskPages

/-!
# Where the pages are in the file

`write_page` and `read_page` compute the offset of a page in 64 bits, `alloc_page` and `free_page` in 32 bits.
The two agree below page `2^19`, which is where a file of 2 GiB ends (`sameBytes_iff`). From there on the
32-bit product overflows: it is negative, so that the page cannot be written, or it is the offset of another
page.
-/

namespace Dawn.DiskManager

/-- The stream of the `.db` file is in order. -/
structure InOrder (d : DiskManager) (f : File) : Prop where
  dbOpen_eq : d.dbOpen = true
  dbFail_eq : d.dbFail = false
  file_eq : d.fs d.dbName = some f
  faults_eq : d.faults = []

/-- The functions that write or read a page address the same bytes of the file for it, and those that allocate
and free it touch no other page. -/
structure SameBytes (p : ℤ) : Prop where
  noOverflow : IsI32 (p * pageSize)
  write : ∀ {d f}, InOrder d f → ∀ data, ∃ d', d.writePage p data = (true, d') ∧
    d'.fs d'.dbName = some (f.write (p * 4096).toNat 4096 data)
  read : ∀ {d f}, InOrder d f → ∀ dst, (d.readPage p dst).2.1 = f.read (p * 4096).toNat 4096 dst
  alloc : ∀ {d f}, InOrder d f → IsLeast (d.refill.freePgid : Set ℤ) p → ∀ flag, ∃ d' src,
    d.allocPage flag = some (p, d') ∧ d'.fs d'.dbName = some (f.write (p * 4096).toNat 4096 src) ∧
    ∀ j, 0 ≤ j → j ≠ p → ∀ i, 0 ≤ i → i < 4096 → d'.image j i = d.image j i
  free : ∀ {d f}, InOrder d f → p ∈ d.allocedPgid → ∃ d', d.freePage p = (true, d') ∧
    d'.fs d'.dbName = some (f.write (p * 4096).toNat 1 fun _ => statusFree) ∧
    ∀ j, 0 ≤ j → j ≠ p → ∀ i, 0 ≤ i → i < 4096 → d'.image j i = d.image j i

section Offsets

variable {d : DiskManager} {f : File} {p : ℤ}

theorem InOrder.dbWrite_eq (h : InOrder d f) {offset : ℤ} (h0 : 0 ≤ offset) (len : ℕ) (src : Bytes) :
    d.dbWrite offset len src = (true, { d with
      fs := Function.update d.fs d.dbName (some (f.write offset.toNat len src)) }) :=
  dbWrite_of_good h.file_eq h.dbFail_eq h.dbOpen_eq h0 h.faults_eq len src

theorem InOrder.writePage_eq (h : InOrder d f) (h0 : 0 ≤ p) (data : Bytes) : d.writePage p data = (true, { d with
      fs := Function.update d.fs d.dbName (some (f.write (p * 4096).toNat 4096 data)) }) := by
  rw [DiskManager.writePage, if_neg (by simp [h.dbOpen_eq]), h.dbWrite_eq (by simp only [pageSize]; omega)]
  rfl

theorem InOrder.readPage_data (h : InOrder d f) (h0 : 0 ≤ p) (dst : Bytes) :
    (d.readPage p dst).2.1 = f.read (p * 4096).toNat 4096 dst := by
  rw [DiskManager.readPage, if_neg (by simp [h.dbOpen_eq])]
  simp only [dbRead_of_good h.file_eq h.dbFail_eq h.dbOpen_eq
    (show 0 ≤ p * pageSize by simp only [pageSize]; omega) h.faults_eq]
  rfl

theorem InOrder.freePage_eq (h : InOrder d f) (h0 : 0 ≤ p) (hp : p ∈ d.allocedPgid)
    (hoff : 0 ≤ wrap32 (p * pageSize)) : ∃ d', d.freePage p = (true, d') ∧
      d'.fs d'.dbName = some (f.write (wrap32 (p * pageSize)).toNat 1 fun _ => statusFree) := by
  rw [DiskManager.freePage, if_neg (by omega), if_neg (not_not.mpr hp), h.dbWrite_eq hoff]
  refine ⟨_, rfl, ?_⟩
  rw [releasePgid_fields]
  exact Function.update_self ..

theorem sameBytes_of_lt (h0 : 0 ≤ p) (hlt : p < 2^19) : SameBytes p where
  noOverflow := by
    simp only [pageSize, IsI32]
    omega
  write h data := ⟨_, h.writePage_eq h0 data, Function.update_self ..⟩
  read h dst := h.readPage_data h0 dst
  alloc {d f} h hleast flag := by
    have hfs : (d.refill.allocated flag p f).fs (d.refill.allocated flag p f).dbName =
        some (f.write (p * 4096).toNat 4096 (d.refill.pageBuf.memset 0 flag 1)) :=
      Function.update_self ..
    exact ⟨_, _, allocPage_of_good h.dbOpen_eq h.file_eq h.dbFail_eq h.faults_eq hleast h0 hlt flag, hfs,
      fun j hj hne i hi hi' => image_write_of_ne h.file_eq hfs le_rfl h0 hj hne hi hi'⟩
  free {d f} h hp := by
    have hoff : wrap32 (p * pageSize) = p * 4096 := wrap32_offset h0 hlt
    obtain ⟨d', heq, hfs⟩ := h.freePage_eq h0 hp (by omega)
    rw [hoff] at hfs
    exact ⟨d', heq, hfs, fun j hj hne i hi hi' => image_write_of_ne h.file_eq hfs (by norm_num) h0 hj hne hi hi'⟩

theorem SameBytes.lt (h : SameBytes p) : p < 2^19 := by
  have hover := h.noOverflow.2
  simp only [pageSize] at hover
  omega

/-- The page ids for which all four functions address the same bytes. -/
theorem sameBytes_iff (h0 : 0 ≤ p) : SameBytes p ↔ p < 2^19 :=
  ⟨SameBytes.lt, sameBytes_of_lt h0⟩

/-- The first and the last page id. -/
theorem sameBytes_iff_ends : (SameBytes 0 ↔ (0 : ℤ) < 2^19) ∧
    (SameBytes (2^31 - 1) ↔ (2^31 - 1 : ℤ) < 2^19) :=
  ⟨sameBytes_iff (by norm_num), sameBytes_iff (by norm_num)⟩

end Offsets

/-- A file in which the first byte of page 0 and that of page `2^20` say that the pages exist. -/
def twoPages : File :=
  (File.empty.write 0 4096 fun _ => statusExist).write (2^20 * 4096) 4096 fun _ => statusExist

/-- A manager that has the file open. Two pages are allocated, and the next free id is `2^19`. -/
def twoPagesManager : DiskManager where
  fs _ := some twoPages
  metaName := []
  dbName := []
  logName := []
  dbOpen := true
  maxAvaPgid := 2^21
  maxAllocedPgid := 2^20
  allocedPgid := {0, 2^20}
  freePgid := {2^19}
  pageBuf _ := 0
  catalogPageId := 0

/-- Page `2^20` is freed, and the status byte of page 0 is written. Page `2^19` cannot be allocated. -/
theorem free_page_touches_another : InOrder twoPagesManager twoPages ∧
    (twoPagesManager.freePage (2^20)).1 = true ∧
    twoPagesManager.image 0 0 = statusExist ∧ twoPagesManager.image (2^20) 0 = statusExist ∧
    (twoPagesManager.freePage (2^20)).2.image 0 0 = statusFree ∧
    (twoPagesManager.freePage (2^20)).2.image (2^20) 0 = statusExist ∧
    (twoPagesManager.allocPage statusExist).map Prod.fst = some (-1) ∧ ¬ SameBytes (2^20) := by
  have h : InOrder twoPagesManager twoPages := ⟨rfl, rfl, rfl, rfl⟩
  have hoff : wrap32 (2^20 * pageSize) = 0 := by decide
  have hmem : (2^20 : ℤ) ∈ twoPagesManager.allocedPgid := by simp [twoPagesManager]
  obtain ⟨d', hfree, hfs⟩ := h.freePage_eq (by norm_num) hmem hoff.ge
  rw [hoff] at hfs
  refine ⟨h, by rw [hfree], ?_, ?_, ?_, ?_, ?_, fun hsame => ?_⟩
  · rw [image_eq h.file_eq]
    decide
  · rw [image_eq h.file_eq]
    decide
  · rw [hfree, image_eq hfs]
    decide
  · rw [hfree, image_eq hfs]
    decide
  · decide +kernel
  · exact absurd hsame.lt (by norm_num)

end Dawn.DiskManager
