import Dawn.Storage.Recovery

/-!
# The `.mtd` file

`write_meta_data` encodes the names of the `.db` and `.log` files and two page ids into a buffer of 512 bytes,
and `from_mtd` decodes them. The buffer does not grow with the names: the encoding of a name of 180 bytes or
more ends behind it (`mtdRoundTrip_iff`).
-/

namespace Dawn.DiskManager

/-! ## What the encoding writes -/

/-- The number of bytes of the encoding. -/
def metaDataSize (dbName logName : FileName) : ℤ :=
  4 + (dbName.length + 1) + 4 + (logName.length + 1) + 4 + 4 + 128

theorem encodeMetaData_of_notMem {m : Bytes} {dbName logName : FileName} {maxAvaPgid catalogPageId i : ℤ}
    (hi : i < 0 ∨ metaDataSize dbName logName ≤ i) :
    encodeMetaData m dbName logName maxAvaPgid catalogPageId i = m i := by
  unfold metaDataSize at hi
  have hl1 : (dbName ++ [0]).length = dbName.length + 1 := by simp
  have hl2 : (logName ++ [0]).length = logName.length + 1 := by simp
  unfold encodeMetaData
  simp only [offsetTSize, pgidTSize, Bytes.memset]
  rw [Bytes.memcpy_of_notMem (by omega), Bytes.setI32_of_notMem (by omega),
    Bytes.setI32_of_notMem (by omega), Bytes.write_of_notMem (by omega),
    Bytes.setI32_of_notMem (by omega), Bytes.write_of_notMem (by omega),
    Bytes.setI32_of_notMem (by omega)]

theorem encodeMetaData_last (m : Bytes) (dbName logName : FileName) (maxAvaPgid catalogPageId : ℤ) :
    encodeMetaData m dbName logName maxAvaPgid catalogPageId (metaDataSize dbName logName - 1) = 0 := by
  unfold encodeMetaData metaDataSize
  simp only [offsetTSize, pgidTSize, Bytes.memset]
  rw [Bytes.memcpy_of_mem (by omega) (by omega)]

theorem metaDataSize_eq (name : FileName) :
    metaDataSize (dbFileName name) (logFileName name) = 2 * name.length + 153 := by
  unfold metaDataSize dbFileName logFileName
  simp only [List.length_append, List.length_cons, List.length_nil]
  omega

theorem fits_iff {name : FileName} : Fits (dbFileName name) (logFileName name) ↔ name.length ≤ 179 := by
  unfold Fits dbFileName logFileName
  simp only [List.length_append, List.length_cons, List.length_nil]
  omega

/-! ## What the rest of `from_mtd` leaves -/

/-- What the `.mtd` file is about. -/
def metaFields (d : DiskManager) : FileName × FileName × ℤ × ℤ :=
  (d.dbName, d.logName, d.maxAvaPgid, d.catalogPageId)

theorem metaFields_dbRead (d : DiskManager) (offset : ℤ) (len : ℕ) (dst : Bytes) :
    (d.dbRead offset len dst).2.2.metaFields = d.metaFields := by
  unfold dbRead
  dsimp only
  split
  · rfl
  · split_ifs <;> rfl

theorem metaFields_foldl_scanPage (tmpBuf : Bytes) (i : ℕ) (ks : List ℕ) (st : ℤ × DiskManager) :
    (ks.foldl (scanPage tmpBuf i) st).2.metaFields = st.2.metaFields := by
  induction ks generalizing st with
  | nil => rfl
  | cons k ks ih =>
    rw [List.foldl_cons, ih]
    unfold scanPage
    split_ifs <;> rfl

/-- The manager that a scan ends with, by an error or not. -/
def scanEnd : Except DiskManager (ℤ × DiskManager) → DiskManager
  | .error d => d
  | .ok st => st.2

theorem metaFields_scanBatch (dbFileSz : ℕ) (tmpBuf : Bytes) (st : ℤ × DiskManager) (i : ℕ) :
    (scanEnd (scanBatch dbFileSz tmpBuf st i)).metaFields = st.2.metaFields := by
  unfold scanBatch
  dsimp only
  split_ifs
  all_goals
    simp only [scanEnd, metaFields_foldl_scanPage]
    exact metaFields_dbRead _ _ _ _

theorem metaFields_foldlM_scanBatch (dbFileSz : ℕ) (tmpBuf : Bytes) (is : List ℕ) (st : ℤ × DiskManager) :
    (scanEnd (is.foldlM (scanBatch dbFileSz tmpBuf) st)).metaFields = st.2.metaFields := by
  induction is generalizing st with
  | nil => rfl
  | cons i is ih =>
    have hbatch := metaFields_scanBatch dbFileSz tmpBuf st i
    rw [List.foldlM_cons]
    cases hb : scanBatch dbFileSz tmpBuf st i with
    | error d =>
      rw [hb] at hbatch
      exact hbatch
    | ok st' =>
      rw [hb] at hbatch
      exact (ih st').trans hbatch

theorem metaFields_shutdown (d : DiskManager) : d.shutdown.metaFields = d.metaFields := by
  unfold shutdown
  obtain ⟨_, _, _, _, -, -, -, he⟩ := writeMetaData_eq d
  rw [he]
  split_ifs <;> rfl

theorem metaFields_rebuild (d : DiskManager) (u : Uninit) (f : File) : (d.rebuild u f).metaFields = d.metaFields := by
  unfold rebuild
  have hscan := metaFields_foldlM_scanBatch f.size u.heap
    (List.range (if f.size % readDbBufSz ≠ 0 then f.size / readDbBufSz + 1 else f.size / readDbBufSz))
    (u.pageId, d)
  split_ifs
  · exact metaFields_shutdown d
  · rfl
  · unfold scan
    split
    · rename_i q hq
      rw [hq] at hscan
      exact (metaFields_shutdown q).trans hscan
    · rename_i p q hq
      rw [hq] at hscan
      exact hscan

/-! ## The round trip -/

/-- `write_meta_data` writes inside of the buffer of 512 bytes only, and `from_mtd` recovers what it wrote. -/
structure MtdRoundTrip (name : FileName) (maxAvaPgid catalogPageId : ℤ) : Prop where
  inside : ∀ m i, i < 0 ∨ 512 ≤ i →
    encodeMetaData m (dbFileName name) (logFileName name) maxAvaPgid catalogPageId i = m i
  recovers : ∀ {d metaFile dbFile logFile}, Streams name d → d.maxAvaPgid = maxAvaPgid →
    d.catalogPageId = catalogPageId → d.fs (mtdFileName name) = some metaFile → metaFile.size ≤ 512 →
    d.fs (dbFileName name) = some dbFile → d.fs (logFileName name) = some logFile →
    d.writeMetaData.1 = true → ∀ u {faults}, faults.headD false = false →
    (openDb d.writeMetaData.2.fs name u faults).metaFields =
      (dbFileName name, logFileName name, maxAvaPgid, catalogPageId)

section

variable {name : FileName} {maxAvaPgid catalogPageId : ℤ}

theorem mtdRoundTrip_of_fits (h0 : 0 ∉ name) (hM : IsI32 maxAvaPgid) (hC : IsI32 catalogPageId)
    (hfit : Fits (dbFileName name) (logFileName name)) : MtdRoundTrip name maxAvaPgid catalogPageId where
  inside := by
    intro m i hi
    have hlen := fits_iff.mp hfit
    have hsize := metaDataSize_eq name
    exact encodeMetaData_of_notMem (by omega)
  recovers := by
    intro d metaFile dbFile logFile hs hmax hcat hmeta hmsize hdb hlog hgood u faults hfault
    obtain ⟨m, hm⟩ := writeMetaData_fs hs hmeta hgood
    rw [hmax, hcat] at hm
    have hmtd := isMtdFile_write hmsize m hfit hM hC
    have hdb' : d.writeMetaData.2.fs (dbFileName name) = some dbFile := by
      rw [hm, Function.update_of_ne mtdFileName_ne_dbFileName.symm, hdb]
    have hlog' : d.writeMetaData.2.fs (logFileName name) = some logFile := by
      rw [hm, Function.update_of_ne mtdFileName_ne_logFileName.symm, hlog]
    have hmeta' := congrFun hm (mtdFileName name)
    rw [Function.update_self] at hmeta'
    rw [openDb_eq_rebuild h0 hfit hmeta' hmtd hlog' hdb' u hfault, metaFields_rebuild]
    rfl

theorem encodeMetaData_overruns (hlen : 179 < name.length) (maxAvaPgid catalogPageId : ℤ) : ∃ m i, 512 ≤ i ∧
      encodeMetaData m (dbFileName name) (logFileName name) maxAvaPgid catalogPageId i ≠ m i := by
  have hsize := metaDataSize_eq name
  refine ⟨fun _ => 1, metaDataSize (dbFileName name) (logFileName name) - 1, by omega, ?_⟩
  rw [encodeMetaData_last]
  exact (by decide : (0 : UInt8) ≠ 1)

/-- The `.mtd` file makes the round trip exactly for the names of at most 179 bytes. -/
theorem mtdRoundTrip_iff (h0 : 0 ∉ name) (hM : IsI32 maxAvaPgid) (hC : IsI32 catalogPageId) :
    MtdRoundTrip name maxAvaPgid catalogPageId ↔ name.length ≤ 179 := by
  constructor
  · intro h
    by_contra hlen
    obtain ⟨m, i, hi, hne⟩ :=
      encodeMetaData_overruns (Nat.lt_of_not_le hlen) maxAvaPgid catalogPageId
    exact hne (h.inside m i (Or.inr hi))
  · intro hlen
    exact mtdRoundTrip_of_fits h0 hM hC (fits_iff.mpr hlen)

end

/-- The name of `n` letters `a`. -/
def longName (n : ℕ) : FileName := List.replicate n 97

theorem zero_notMem_longName (n : ℕ) : 0 ∉ longName n := by
  intro h
  exact absurd (List.eq_of_mem_replicate h) (by decide)

theorem length_longName (n : ℕ) : (longName n).length = n := List.length_replicate

/-- The longest name that makes the round trip, and one byte more. -/
theorem mtdRoundTrip_iff_longName :
    (MtdRoundTrip (longName 179) 100 0 ↔ (longName 179).length ≤ 179) ∧
      (MtdRoundTrip (longName 180) 100 0 ↔ (longName 180).length ≤ 179) :=
  ⟨mtdRoundTrip_iff (zero_notMem_longName _) (by decide) (by decide),
    mtdRoundTrip_iff (zero_notMem_longName _) (by decide) (by decide)⟩

/-- A database with a name of 180 bytes is created, and its meta data are written over the end of the buffer. -/
theorem create_overruns_metaBuffer :
    ∃ d, create (fun _ => none) (longName 180) Uninit.zero [] = some d ∧ d.status = true ∧
      ∃ m i, 512 ≤ i ∧ encodeMetaData m (dbFileName (longName 180)) (logFileName (longName 180))
        100 0 i ≠ m i := by
  obtain ⟨d, hd, hs⟩ : ∃ d, create (fun _ => none) (longName 180) Uninit.zero [] = some d ∧ d.status = true :=
    create_of_notExists rfl rfl rfl Uninit.zero
  exact ⟨d, hd, hs, encodeMetaData_overruns (by rw [length_longName]; norm_num) 100 0⟩

end Dawn.DiskManager
