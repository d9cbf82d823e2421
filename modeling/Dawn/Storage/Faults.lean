import Dawn.Storage.DiskPages

/-!
# Reads and writes that fail

A read or a write of the `.db` file can fail at any time. While the stream is in order afterwards, none of
them did, and the disk manager is where it would be on a disk that never fails. A new page whose write
fails has no id.
-/

namespace Dawn.DiskManager

variable {d d' : DiskManager} {faults : List Bool} {offset id : ℤ} {len : ℕ} {src dst data : Bytes}
  {flag : UInt8}

theorem dbWrite_withFaults (hd : d.faults = []) (h : ((d.withFaults faults).dbWrite offset len src).2.dbFail = false) :
    (d.withFaults faults).dbWrite offset len src =
      ((d.dbWrite offset len src).1, (d.dbWrite offset len src).2.withFaults faults.tail) := by
  rcases dbWrite_cases (d.withFaults faults) offset len src with ⟨f, hf, hfail, hopen, h0, -, hw⟩ | hw
  · have hgood := dbWrite_of_good (d := d) hf hfail hopen h0 hd len src
    rw [hw, hgood]
    rfl
  · rw [hw] at h
    exact absurd h (by simp)

theorem writePage_withFaults (hd : d.faults = []) (ho : d.dbOpen = true)
    (h : ((d.withFaults faults).writePage id data).2.dbFail = false) :
    ((d.withFaults faults).writePage id data).2 = (d.writePage id data).2.withFaults faults.tail := by
  unfold writePage at h ⊢
  rw [if_neg (by simpa [withFaults] using ho)] at h ⊢
  rw [if_neg (by simpa using ho), dbWrite_withFaults hd h]

theorem allocedPgid_writePage : (d.writePage id data).2.allocedPgid = d.allocedPgid := by
  unfold writePage
  split_ifs
  · rcases dbWrite_cases d (id * pageSize) pageSize.toNat data with ⟨f, -, -, -, -, -, hw⟩ | hw <;> rw [hw]
  · rfl

theorem dbRead_eq (d : DiskManager) (offset : ℤ) (len : ℕ) (dst : Bytes) :
    ∃ dbFail, (d.dbRead offset len dst).2.2 = { d with faults := d.faults.tail, dbFail := dbFail } := by
  unfold dbRead
  dsimp only
  split
  · exact ⟨_, rfl⟩
  · split_ifs
    · exact ⟨_, rfl⟩
    · exact ⟨_, rfl⟩

theorem allocedPgid_readPage : (d.readPage id dst).2.2.allocedPgid = d.allocedPgid := by
  unfold readPage
  split_ifs
  · obtain ⟨dbFail, hr⟩ := dbRead_eq d (id * pageSize) pageSize.toNat dst
    rw [hr]
  · rfl

theorem image_readPage : (d.readPage id dst).2.2.image = d.image := by
  unfold readPage
  split_ifs
  · obtain ⟨dbFail, hr⟩ := dbRead_eq d (id * pageSize) pageSize.toNat dst
    rw [hr]
    rfl
  · rfl

theorem dbRead_outcome (d : DiskManager) (offset : ℤ) (len : ℕ) (dst : Bytes) :
    (∃ f, d.fs d.dbName = some f ∧ d.dbFail = false ∧ d.dbOpen = true ∧ 0 ≤ offset ∧
      d.dbRead offset len dst = (f.gcount offset.toNat len, f.read offset.toNat len dst, { d with
        faults := d.faults.tail
        dbFail := decide (f.gcount offset.toNat len < len) })) ∨
    d.dbRead offset len dst = (0, dst, { d with faults := d.faults.tail, dbFail := true }) := by
  unfold dbRead
  cases hf : d.fs d.dbName with
  | none => exact Or.inr (by simp [hf])
  | some f =>
    by_cases hbad : d.dbFail ∨ ¬ d.dbOpen ∨ offset < 0 ∨ d.faults.headD false
    · exact Or.inr (by simp only [hf, if_pos hbad])
    · refine Or.inl ⟨f, rfl, ?_, ?_, ?_, by simp only [hf, if_neg hbad]⟩ <;> simp_all

theorem readPage_dbFail (ho : d.dbOpen = true) (id : ℤ) (dst : Bytes) :
    (d.readPage id dst).2.2.dbFail = !(d.readPage id dst).1 := by
  unfold readPage
  rw [if_neg (by simpa using ho)]
  rcases dbRead_outcome d (id * pageSize) pageSize.toNat dst with ⟨f, -, -, -, -, hr⟩ | hr
  · rw [hr]
    have hle : f.gcount (id * pageSize).toNat pageSize.toNat ≤ pageSize.toNat := Nat.min_le_left _ _
    rw [← decide_not, decide_eq_decide]
    omega
  · rw [hr]
    rfl

theorem readPage_of_dbFail (h : d.dbFail = true) (id : ℤ) (dst : Bytes) :
    (d.readPage id dst).1 = false ∧ (d.readPage id dst).2.2.dbFail = true := by
  unfold readPage
  split_ifs
  · rcases dbRead_outcome d (id * pageSize) pageSize.toNat dst with ⟨f, -, hfail, -⟩ | hr
    · exact absurd (h.symm.trans hfail) (by simp)
    · rw [hr]
      exact ⟨rfl, rfl⟩
  · exact ⟨rfl, h⟩

theorem readPage_withFaults (hd : d.faults = []) (ho : d.dbOpen = true)
    (h : ((d.withFaults faults).readPage id dst).1 = true) :
    (d.withFaults faults).readPage id dst = ((d.readPage id dst).1, (d.readPage id dst).2.1,
      (d.readPage id dst).2.2.withFaults faults.tail) := by
  unfold readPage at *
  rw [if_neg (by simpa [withFaults] using ho)] at h ⊢
  rw [if_neg (by simpa using ho)]
  rcases dbRead_outcome (d.withFaults faults) (id * pageSize) pageSize.toNat dst with
    ⟨f, hf, hfail, hopen, h0, hr⟩ | hr
  · have hgood := dbRead_of_good (d := d) hf hfail hopen h0 hd pageSize.toNat dst
    simp only [hr, hgood]
    rfl
  · rw [hr] at h
    dsimp only at h
    exact absurd h (by decide)

theorem Healthy.allocPage_withFaults {n : ℕ} (h : Healthy d n) (faults : List Bool) (flag : UInt8) :
    ∃ id d', (d.withFaults faults).allocPage flag = some (id, d') ∧
      ((d'.dbFail = false ∧ ∃ d0, d.allocPage flag = some (id, d0) ∧ d' = d0.withFaults faults.tail ∧
        d0.dbFail = false) ∨ (d'.dbFail = true ∧ id = -1 ∧ d'.allocedPgid = d.allocedPgid)) := by
  obtain ⟨name, f, recorded, hr, -⟩ := h.running
  have hids : IdInv (d.withFaults faults) := hr.ids.congr rfl rfl rfl
  have hopen := hr.streams.dbOpen_eq
  have hrefill : (d.withFaults faults).refill = d.refill.withFaults faults := by
    unfold refill withFaults
    split_ifs <;> rfl
  obtain ⟨id, hid, ⟨g, hg, hfail, -, hlt, ha⟩ | ha⟩ := DiskManager.allocPage_cases hids hopen flag
  · rw [hrefill] at ha hid
    have h0 := (hr.ids.refill.1.mem_iff.mp (Or.inr hid.1)).1
    have ha0 := allocPage_of_good hopen hg hfail h.faults_eq hid h0 hlt flag
    refine ⟨id, _, ha, Or.inl ⟨?_, _, ha0, ?_, ?_⟩⟩
    · simp [allocated, withFaults, h.dbFail_eq]
    · simp [allocated, withFaults]
    · simp [allocated, h.dbFail_eq]
  · refine ⟨-1, _, ha, Or.inr ⟨rfl, rfl, ?_⟩⟩
    rw [hrefill]
    exact hr.ids.refill.2.2.2

end Dawn.DiskManager
