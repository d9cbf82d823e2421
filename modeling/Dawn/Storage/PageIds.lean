import Dawn.Storage.DiskManager

/-!
# Page ids

The allocated and the free page ids partition the ids below `max_ava_pgid_` (`IdInv`), whatever
happens to the reads and writes: an id whose page could not be written is given back. `alloc_page`
computes the offset of a page in 32 bits, so that an id from `2^19` on is never allocated.
-/

namespace Dawn.DiskManager

/-! ## Streams -/

theorem dbWrite_cases (d : DiskManager) (offset : ℤ) (len : ℕ) (src : Bytes) :
    (∃ f, d.fs d.dbName = some f ∧ d.dbFail = false ∧ d.dbOpen = true ∧ 0 ≤ offset ∧ d.faults.headD false = false ∧
      d.dbWrite offset len src = (true, { d with
        faults := d.faults.tail
        fs := Function.update d.fs d.dbName (some (f.write offset.toNat len src)) })) ∨
    d.dbWrite offset len src = (false, { d with faults := d.faults.tail, dbFail := true }) := by
  unfold dbWrite
  cases hf : d.fs d.dbName with
  | none => exact Or.inr (by simp only [hf])
  | some f =>
    simp only [hf]
    by_cases hbad : d.dbFail ∨ ¬ d.dbOpen ∨ offset < 0 ∨ d.faults.headD false
    · exact Or.inr (if_pos hbad)
    · refine Or.inl ⟨f, rfl, ?_⟩
      rw [if_neg hbad]
      simpa using hbad

theorem dbWrite_of_good {d : DiskManager} {f : File} {offset : ℤ} (hf : d.fs d.dbName = some f)
    (hfail : d.dbFail = false) (ho : d.dbOpen = true) (h0 : 0 ≤ offset) (hq : d.faults = [])
    (len : ℕ) (src : Bytes) : d.dbWrite offset len src = (true, { d with
      fs := Function.update d.fs d.dbName (some (f.write offset.toNat len src)) }) := by
  unfold dbWrite
  have h0' : ¬ offset < 0 := by omega
  simp [hf, hfail, ho, h0', hq]

/-! ## Partition of the page ids -/

/-- The allocated and the free ids partition the available ones. -/
structure IdInv (d : DiskManager) : Prop where
  disjoint : Disjoint d.allocedPgid d.freePgid
  union : d.allocedPgid ∪ d.freePgid = idRange 0 d.maxAvaPgid
  pos : 0 < d.maxAvaPgid
  le : d.maxAvaPgid ≤ 2^20
  alloced_lt : ∀ id ∈ d.allocedPgid, id < 2^19

namespace IdInv

variable {d d' : DiskManager} {id : ℤ}

theorem congr (h : IdInv d) (ha : d'.allocedPgid = d.allocedPgid) (hf : d'.freePgid = d.freePgid)
    (hm : d'.maxAvaPgid = d.maxAvaPgid) : IdInv d' := by
  obtain ⟨h1, h2, h3, h4, h5⟩ := h
  exact ⟨by rwa [ha, hf], by rwa [ha, hf, hm], by rwa [hm], by rwa [hm], by rwa [ha]⟩

theorem mem_iff (h : IdInv d) : id ∈ d.allocedPgid ∨ id ∈ d.freePgid ↔ 0 ≤ id ∧ id < d.maxAvaPgid := by
  rw [← Finset.mem_union, h.union, mem_idRange]

theorem notMem_free (h : IdInv d) (hid : id ∈ d.allocedPgid) : id ∉ d.freePgid :=
  Finset.disjoint_left.mp h.disjoint hid

theorem notMem_alloced (h : IdInv d) (hid : id ∈ d.freePgid) : id ∉ d.allocedPgid :=
  Finset.disjoint_right.mp h.disjoint hid

theorem maxAvaPgid_le (h : IdInv d) (he : d.freePgid = ∅) : d.maxAvaPgid ≤ 2^19 := by
  have hlast := h.mem_iff.mpr ⟨show 0 ≤ d.maxAvaPgid - 1 by have := h.pos; omega, by omega⟩
  rw [he] at hlast
  have := h.alloced_lt _ (hlast.resolve_right (Finset.notMem_empty _))
  omega

theorem refill (h : IdInv d) : IdInv d.refill ∧ d.refill.freePgid.Nonempty ∧
    (∀ id ∈ d.refill.freePgid, id ∉ d.allocedPgid) ∧ d.refill.allocedPgid = d.allocedPgid := by
  unfold DiskManager.refill
  split_ifs with he
  · have hm := h.maxAvaPgid_le he
    have hpos := h.pos
    have hw : wrap32 (d.maxAvaPgid * 2) = d.maxAvaPgid * 2 :=
      wrap32_of_isI32 ⟨by omega, by omega⟩
    have hall : ∀ id, id ∈ d.allocedPgid ↔ 0 ≤ id ∧ id < d.maxAvaPgid := by
      intro id
      have hmem : id ∈ d.allocedPgid ∨ id ∈ d.freePgid ↔ _ := h.mem_iff
      rw [he] at hmem
      simpa using hmem
    simp only [he, hw, Finset.empty_union]
    have hnew : ∀ id ∈ idRange d.maxAvaPgid (d.maxAvaPgid * 2), id ∉ d.allocedPgid := by
      intro id hid hmem
      have h1 := mem_idRange.mp hid
      have h2 := (hall id).mp hmem
      omega
    refine ⟨⟨Finset.disjoint_right.mpr hnew, ?_, ?_, ?_, h.alloced_lt⟩, ?_, hnew, trivial⟩
    · ext id
      rw [Finset.mem_union, hall, mem_idRange, mem_idRange]
      dsimp only
      omega
    · dsimp only; omega
    · dsimp only; omega
    · exact ⟨d.maxAvaPgid, mem_idRange.mpr (by omega)⟩
  · exact ⟨h, Finset.nonempty_iff_ne_empty.mpr he, fun id hid => h.notMem_alloced hid, rfl⟩

theorem alloc (h : IdInv d) (hid : id ∈ d.freePgid) (hlt : id < 2^19)
    (ha : d'.allocedPgid = insert id d.allocedPgid) (hf : d'.freePgid = d.freePgid.erase id)
    (hm : d'.maxAvaPgid = d.maxAvaPgid) : IdInv d' where
  disjoint := by
    rw [ha, hf, Finset.disjoint_insert_left]
    exact ⟨Finset.notMem_erase _ _, h.disjoint.mono_right (Finset.erase_subset _ _)⟩
  union := by
    rw [ha, hf, hm, ← h.union]
    ext j
    by_cases hj : j = id
    · simp [hj, hid]
    · simp [hj]
  pos := hm ▸ h.pos
  le := hm ▸ h.le
  alloced_lt j hj := by
    rw [ha] at hj
    rcases Finset.mem_insert.mp hj with rfl | hj
    · exact hlt
    · exact h.alloced_lt j hj

theorem free (h : IdInv d) (hid : id ∈ d.allocedPgid) (ha : d'.allocedPgid = d.allocedPgid.erase id)
    (hf : d'.freePgid = insert id d.freePgid) (hm : d'.maxAvaPgid = d.maxAvaPgid) : IdInv d' where
  disjoint := by
    rw [ha, hf, Finset.disjoint_insert_right]
    exact ⟨Finset.notMem_erase _ _, h.disjoint.mono_left (Finset.erase_subset _ _)⟩
  union := by
    rw [ha, hf, hm, ← h.union]
    ext j
    by_cases hj : j = id
    · simp [hj, hid]
    · simp [hj]
  pos := hm ▸ h.pos
  le := hm ▸ h.le
  alloced_lt j hj := by
    rw [ha] at hj
    exact h.alloced_lt j (Finset.mem_of_mem_erase hj)

end IdInv

/-! ## `alloc_page` -/

section Alloc

variable {d : DiskManager} {id : ℤ}

@[simp] theorem refill_fs (d : DiskManager) : d.refill.fs = d.fs := by
  unfold refill; split_ifs <;> rfl

@[simp] theorem refill_dbName (d : DiskManager) : d.refill.dbName = d.dbName := by
  unfold refill; split_ifs <;> rfl

@[simp] theorem refill_dbFail (d : DiskManager) : d.refill.dbFail = d.dbFail := by
  unfold refill; split_ifs <;> rfl

@[simp] theorem refill_faults (d : DiskManager) : d.refill.faults = d.faults := by
  unfold refill; split_ifs <;> rfl

theorem wrap32_offset (h0 : 0 ≤ id) (h : id < 2^19) : wrap32 (id * pageSize) = id * 4096 :=
  wrap32_of_isI32 ⟨by simp only [pageSize]; omega, by simp only [pageSize]; omega⟩

theorem wrap32_offset_neg (h0 : 2^19 ≤ id) (h : id < 2^20) : wrap32 (id * pageSize) < 0 :=
  wrap32_neg (by simp only [pageSize]; omega) (by simp only [pageSize]; omega)

/-- The manager after the page of a new id has been written. -/
def allocated (d : DiskManager) (flag : UInt8) (id : ℤ) (f : File) : DiskManager :=
  { d with
    freePgid := d.freePgid.erase id
    allocedPgid := insert id d.allocedPgid
    pageBuf := d.pageBuf.memset 0 flag 1
    faults := d.faults.tail
    fs := Function.update d.fs d.dbName
      (some (f.write (id * 4096).toNat 4096 (d.pageBuf.memset 0 flag 1)))
    maxAllocedPgid := max d.maxAllocedPgid id }

/-- The manager after the page of a new id could not be written. -/
def notAllocated (d : DiskManager) (flag : UInt8) : DiskManager :=
  { d with pageBuf := d.pageBuf.memset 0 flag 1, faults := d.faults.tail, dbFail := true }

theorem writeNewPage_cases {id : ℤ} (hfree : id ∈ d.freePgid) (hnew : id ∉ d.allocedPgid)
    (h0 : 0 ≤ id) (hlt : id < 2^20) (flag : UInt8) :
    (∃ f, d.fs d.dbName = some f ∧ d.dbFail = false ∧ d.faults.headD false = false ∧
      id < 2^19 ∧ (d.claimPgid flag id).writeNewPage id = (id, d.allocated flag id f)) ∨
    (d.claimPgid flag id).writeNewPage id = (-1, d.notAllocated flag) := by
  unfold writeNewPage
  rcases dbWrite_cases (d.claimPgid flag id) (wrap32 (id * pageSize)) pageSize.toNat
    (d.claimPgid flag id).pageBuf with ⟨f, hf, hfail, -, hoff, hfault, hw⟩ | hw
  · have hsmall : id < 2^19 := by
      by_contra hge
      have := wrap32_offset_neg (show 2^19 ≤ id by omega) hlt
      omega
    refine Or.inl ⟨f, hf, hfail, hfault, hsmall, ?_⟩
    rw [hw, wrap32_offset h0 hsmall]
    rfl
  · refine Or.inr ?_
    rw [hw]
    simp only [claimPgid, notAllocated, Finset.insert_erase hfree, Finset.erase_insert hnew]

theorem allocPage_cases (h : IdInv d) (ho : d.dbOpen = true) (flag : UInt8) :
    ∃ id, IsLeast (d.refill.freePgid : Set ℤ) id ∧
      ((∃ f, d.fs d.dbName = some f ∧ d.dbFail = false ∧ d.faults.headD false = false ∧
        id < 2^19 ∧ d.allocPage flag = some (id, d.refill.allocated flag id f)) ∨
      d.allocPage flag = some (-1, d.refill.notAllocated flag)) := by
  obtain ⟨hr, hne, hnew, hall⟩ := h.refill
  refine ⟨d.refill.freePgid.min' hne, Finset.isLeast_min' _ hne, ?_⟩
  have hmem := Finset.min'_mem _ hne
  have halloc : d.allocPage flag = some ((d.refill.claimPgid flag
      (d.refill.freePgid.min' hne)).writeNewPage (d.refill.freePgid.min' hne)) := by
    unfold allocPage
    rw [if_neg (by simp [ho]), dif_pos hne]
  rw [halloc]
  generalize d.refill.freePgid.min' hne = id at *
  obtain ⟨h0, hlt⟩ := hr.mem_iff.mp (Or.inr hmem)
  have hle := hr.le
  rcases writeNewPage_cases hmem (hr.notMem_alloced hmem) h0 (by omega) flag with
    ⟨f, hf, hfail, hfault, hsmall, hw⟩ | hw
  · rw [refill_fs, refill_dbName] at hf
    rw [refill_dbFail] at hfail
    rw [refill_faults] at hfault
    exact Or.inl ⟨f, hf, hfail, hfault, hsmall, by rw [hw]⟩
  · exact Or.inr (by rw [hw])

theorem allocPage_of_good (ho : d.dbOpen = true) {f : File} (hf : d.fs d.dbName = some f)
    (hfail : d.dbFail = false) (hq : d.faults = [])
    (hid : IsLeast (d.refill.freePgid : Set ℤ) id) (h0 : 0 ≤ id) (hlt : id < 2^19) (flag : UInt8) :
    d.allocPage flag = some (id, d.refill.allocated flag id f) := by
  have hopen : d.refill.dbOpen = true := by rw [← ho]; unfold refill; split_ifs <;> rfl
  have hne : d.refill.freePgid.Nonempty := ⟨id, hid.1⟩
  have hmin : d.refill.freePgid.min' hne = id := (Finset.isLeast_min' _ hne).unique hid
  have hf' : (d.refill.claimPgid flag id).fs (d.refill.claimPgid flag id).dbName = some f := by
    simpa [claimPgid] using hf
  have hoff : 0 ≤ id * 4096 := by omega
  have hw := dbWrite_of_good hf' (by simpa [claimPgid] using hfail) hopen hoff
    (by simpa [claimPgid] using hq) pageSize.toNat (d.refill.claimPgid flag id).pageBuf
  unfold allocPage
  rw [if_neg (by simp [ho]), dif_pos hne]
  simp only [hmin, writeNewPage, wrap32_offset h0 hlt, hw, Option.some.injEq, Prod.mk.injEq, true_and]
  simp [allocated, claimPgid, hq]

theorem allocPage_of_closed (ho : d.dbOpen = false) (flag : UInt8) :
    d.allocPage flag = some (-1, { d with status := false }) := by
  unfold allocPage
  simp [ho]

theorem IdInv.allocated (h : IdInv d) {flag : UInt8} {f : File}
    (hid : id ∈ d.freePgid) (hlt : id < 2^19) : IdInv (d.allocated flag id f) :=
  h.alloc hid hlt rfl rfl rfl

theorem IdInv.notAllocated (h : IdInv d) (flag : UInt8) : IdInv (d.notAllocated flag) :=
  h.congr rfl rfl rfl

end Alloc

/-! ## `free_page` -/

section Free

variable {d : DiskManager} {id : ℤ}

theorem releasePgid_fields (d : DiskManager) (id : ℤ) : d.releasePgid id = { d with
      freePgid := insert id d.freePgid
      allocedPgid := d.allocedPgid.erase id
      maxAllocedPgid := (d.releasePgid id).maxAllocedPgid } := by
  unfold releasePgid
  dsimp only
  split_ifs <;> rfl

theorem freePage_cases (h : IdInv d) (id : ℤ) : ((id < 0 ∧ d.freePage id = (false, d)) ∨
      (0 ≤ id ∧ id ∉ d.allocedPgid ∧ d.freePage id = (true, d))) ∨ (id ∈ d.allocedPgid ∧ 0 ≤ id ∧ id < 2^19 ∧
      ((∃ f, d.fs d.dbName = some f ∧ d.dbFail = false ∧ d.dbOpen = true ∧ d.faults.headD false = false ∧
        d.freePage id = (true, { d with
          faults := d.faults.tail
          fs := Function.update d.fs d.dbName
            (some (f.write (id * 4096).toNat 1 fun _ => statusFree)) }.releasePgid id)) ∨
      d.freePage id = (false, { d with faults := d.faults.tail, dbFail := true }))) := by
  unfold freePage
  by_cases h0 : id < 0
  · exact Or.inl (Or.inl ⟨h0, if_pos h0⟩)
  · rw [if_neg h0]
    by_cases hmem : id ∈ d.allocedPgid
    · have hlt := h.alloced_lt id hmem
      refine Or.inr ⟨hmem, by omega, hlt, ?_⟩
      rw [if_neg (not_not.mpr hmem), wrap32_offset (by omega) hlt]
      rcases dbWrite_cases d (id * 4096) 1 fun _ => statusFree with
        ⟨f, hf, hfail, ho, -, hfault, hw⟩ | hw
      · exact Or.inl ⟨f, hf, hfail, ho, hfault, by rw [hw]; rfl⟩
      · exact Or.inr (by rw [hw]; rfl)
    · exact Or.inl (Or.inr ⟨by omega, hmem, if_pos hmem⟩)

theorem IdInv.freePage (h : IdInv d) (id : ℤ) : IdInv (d.freePage id).2 := by
  rcases freePage_cases h id with (⟨-, he⟩ | ⟨-, -, he⟩) | ⟨hmem, -, -, ⟨f, -, -, -, -, he⟩ | he⟩
  · rwa [he]
  · rwa [he]
  · rw [he, releasePgid_fields]
    exact h.free hmem rfl rfl rfl
  · rw [he]
    exact h.congr rfl rfl rfl

end Free

end Dawn.DiskManager
