import Dawn.Lib.Returns
import Dawn.Storage.Restart

/-!
# Runs of the disk manager

The state of a database over runs of `get_new_page`, `free_page`, and `write_page`, and over clean
restarts. `Running` holds whatever happens to the reads and writes. When they all succeed, the
status bytes in the `.db` file say which pages are allocated (`Exact`), and a restart finds the page ids
as they were.
-/

namespace Dawn.DiskManager

open Function

/-- The manager has opened the files of the database `name`. -/
structure Streams (name : FileName) (d : DiskManager) : Prop where
  metaName_eq : d.metaName = mtdFileName name
  dbName_eq : d.dbName = dbFileName name
  logName_eq : d.logName = logFileName name
  metaOpen_eq : d.metaOpen = true
  dbOpen_eq : d.dbOpen = true
  metaFail_eq : d.metaFail = false
  metaBuffer_isSome : d.metaBuffer.isSome
  bufferSize_eq : d.bufferSize = 512
  catalog_isI32 : IsI32 d.catalogPageId

/-- Two managers differ in their page ids and in the state of the `.db` file only. -/
def SameStreams (d d' : DiskManager) : Prop :=
  d'.metaName = d.metaName ∧ d'.dbName = d.dbName ∧ d'.logName = d.logName ∧
    d'.status = d.status ∧ d'.metaOpen = d.metaOpen ∧ d'.dbOpen = d.dbOpen ∧
    d'.metaFail = d.metaFail ∧ d'.metaBuffer = d.metaBuffer ∧ d'.bufferSize = d.bufferSize ∧
    d'.catalogPageId = d.catalogPageId

/-- The database `name` is open. Its `.db` file `f` has `n` pages, and its `.mtd` file records that
`recorded` page ids are available. -/
structure Running (name : FileName) (d : DiskManager) (f : File) (n : ℕ) (recorded : ℤ) : Prop where
  streams : Streams name d
  status_eq : d.status = true
  mtdFile : ∃ metaFile catalogPageId, d.fs (mtdFileName name) = some metaFile ∧
    IsMtdFile metaFile (dbFileName name) (logFileName name) recorded catalogPageId
  logFile : ∃ logFile, d.fs (logFileName name) = some logFile
  dbFile : d.fs (dbFileName name) = some f
  size_eq : f.size = n * 4096
  pages_le : n ≤ 2^19
  pages_le_maxAva : (n : ℤ) ≤ d.maxAvaPgid
  ids : IdInv d
  alloced_lt : ∀ id ∈ d.allocedPgid, id < n
  recorded_pos : 0 < recorded
  recorded_le : recorded ≤ 2^20

/-- The status bytes in the `.db` file say which pages are allocated. -/
structure Exact (d : DiskManager) (f : File) (n : ℕ) : Prop where
  faults_eq : d.faults = []
  dbFail_eq : d.dbFail = false
  exists_iff : ∀ k : ℕ, k < n → (Exists f k ↔ (k : ℤ) ∈ d.allocedPgid)
  greatest : IsGreatest (d.allocedPgid : Set ℤ) d.maxAllocedPgid
  catalog_mem : d.catalogPageId ∈ d.allocedPgid

/-! ## Writes to the `.db` file -/

section Steps

variable {name : FileName} {d d' : DiskManager} {f f' : File} {n n' : ℕ} {recorded : ℤ}

theorem Streams.congr (h : Streams name d) (hkeep : SameStreams d d') : Streams name d' := by
  obtain ⟨k1, k2, k3, -, k5, k6, k7, k8, k9, k10⟩ := hkeep
  obtain ⟨h1, h2, h3, h5, h6, h7, h8, h9, h10⟩ := h
  exact ⟨k1.trans h1, k2.trans h2, k3.trans h3, k5.trans h5, k6.trans h6, k7.trans h7, by rwa [k8],
    k9.trans h9, by rwa [k10]⟩

theorem Running.dbName_file (h : Running name d f n recorded) : d.fs d.dbName = some f := by
  rw [h.streams.dbName_eq, h.dbFile]

theorem Running.step (h : Running name d f n recorded)
    (hfs : d'.fs = update d.fs d.dbName (some f')) (hsize : f'.size = n' * 4096)
    (hn : n' ≤ 2^19) (hava : (n' : ℤ) ≤ d'.maxAvaPgid) (hids : IdInv d')
    (hlt : ∀ id ∈ d'.allocedPgid, id < n') (hkeep : SameStreams d d') : Running name d' f' n' recorded := by
  obtain ⟨metaFile, catalogPageId, hm, hmtd⟩ := h.mtdFile
  obtain ⟨logFile, hlog⟩ := h.logFile
  rw [h.streams.dbName_eq] at hfs
  refine ⟨h.streams.congr hkeep, hkeep.2.2.2.1.trans h.status_eq,
    ⟨metaFile, catalogPageId, ?_, hmtd⟩, ⟨logFile, ?_⟩, ?_, hsize, hn, hava, hids, hlt, h.recorded_pos, h.recorded_le⟩
  · rw [hfs, update_of_ne mtdFileName_ne_dbFileName, hm]
  · rw [hfs, update_of_ne logFileName_ne_dbFileName, hlog]
  · rw [hfs, update_self]

theorem Running.keep (h : Running name d f n recorded) (hfs : d'.fs = d.fs)
    (hava : d.maxAvaPgid ≤ d'.maxAvaPgid) (hids : IdInv d') (hsame : d'.allocedPgid = d.allocedPgid)
    (hkeep : SameStreams d d') : Running name d' f n recorded := by
  refine h.step ?_ h.size_eq h.pages_le (h.pages_le_maxAva.trans hava) hids
    (hsame ▸ h.alloced_lt) hkeep
  rw [hfs, update_eq_self_iff.mpr h.dbName_file.symm]

theorem maxAvaPgid_le_refill (h : IdInv d) : d.maxAvaPgid ≤ d.refill.maxAvaPgid := by
  unfold refill
  split_ifs with he
  · have hle := h.maxAvaPgid_le he
    have hpos := h.pos
    have hw : wrap32 (d.maxAvaPgid * 2) = d.maxAvaPgid * 2 := wrap32_of_isI32 ⟨by omega, by omega⟩
    simp only [hw]
    omega
  · exact le_rfl

theorem sameStreams_refill (d : DiskManager) : SameStreams d d.refill := by
  unfold SameStreams refill
  split_ifs <;> exact ⟨rfl, rfl, rfl, rfl, rfl, rfl, rfl, rfl, rfl, rfl⟩

theorem sameStreams_releasePgid (d : DiskManager) (id : ℤ) : SameStreams d (d.releasePgid id) := by
  rw [releasePgid_fields]
  exact ⟨rfl, rfl, rfl, rfl, rfl, rfl, rfl, rfl, rfl, rfl⟩

theorem size_write_page (hsize : f.size = n * 4096) {id : ℤ} (h0 : 0 ≤ id) (src : Bytes) :
    (f.write (id * 4096).toNat 4096 src).size = max n (id.toNat + 1) * 4096 := by
  rw [File.size_write (by norm_num), hsize]
  omega

theorem Running.allocated (h : Running name d f n recorded) {id : ℤ}
    (hid : IsLeast (d.refill.freePgid : Set ℤ) id) (hlt : id < 2^19) (flag : UInt8) :
    Running name (d.refill.allocated flag id f)
      (f.write (id * 4096).toNat 4096 (d.refill.pageBuf.memset 0 flag 1)) (max n (id.toNat + 1))
      recorded := by
  have hr := h.ids.refill.1
  have hava := maxAvaPgid_le_refill h.ids
  have hn := h.pages_le_maxAva
  have hpages := h.pages_le
  obtain ⟨h0, hidlt⟩ := hr.mem_iff.mp (Or.inr hid.1)
  refine h.step ?_ (size_write_page h.size_eq h0 _) (by omega) ?_ (hr.allocated hid.1 hlt) ?_
    (sameStreams_refill d)
  · simp [DiskManager.allocated]
  · simp only [DiskManager.allocated]
    omega
  · intro j hj
    simp only [DiskManager.allocated, h.ids.refill.2.2.2] at hj
    rcases Finset.mem_insert.mp hj with rfl | hj
    · omega
    · have := h.alloced_lt j hj
      omega

theorem Running.getNewPage (h : Running name d f n recorded) :
    ∃ id d' f' n', d.getNewPage = some (id, d') ∧ Running name d' f' n' recorded := by
  obtain ⟨id, hid, ⟨g, hg, -, -, hlt, ha⟩ | ha⟩ := allocPage_cases h.ids h.streams.dbOpen_eq statusExist
  · obtain rfl : f = g := Option.some.inj (h.dbName_file.symm.trans hg)
    exact ⟨id, _, _, _, ha, h.allocated hid hlt _⟩
  · exact ⟨-1, _, f, n, ha, h.keep (by simp [notAllocated]) (maxAvaPgid_le_refill h.ids)
      (h.ids.refill.1.notAllocated _) h.ids.refill.2.2.2 (sameStreams_refill d)⟩

theorem size_write_within (hsize : f.size = n * 4096) {id : ℤ} (h0 : 0 ≤ id) (hid : id < n) {len : ℕ}
    (hlen : 0 < len) (hlen' : len ≤ 4096) (src : Bytes) : (f.write (id * 4096).toNat len src).size = n * 4096 := by
  rw [File.size_write hlen, hsize]
  omega

theorem Running.released (h : Running name d f n recorded) {id : ℤ} (hmem : id ∈ d.allocedPgid) : Running name ({ d with
        faults := d.faults.tail
        fs := update d.fs d.dbName
          (some (f.write (id * 4096).toNat 1 fun _ => statusFree)) }.releasePgid id)
      (f.write (id * 4096).toNat 1 fun _ => statusFree) n recorded := by
  have h0 := (h.ids.mem_iff.mp (Or.inl hmem)).1
  refine h.step ?_ (size_write_within h.size_eq h0 (h.alloced_lt id hmem) one_pos (by norm_num) _)
    h.pages_le ?_ ?_ ?_ (sameStreams_releasePgid _ _)
  · rw [releasePgid_fields]
  · rw [releasePgid_fields]
    exact h.pages_le_maxAva
  · rw [releasePgid_fields]
    exact h.ids.free hmem rfl rfl rfl
  · rw [releasePgid_fields]
    exact fun j hj => h.alloced_lt j (Finset.mem_of_mem_erase hj)

theorem Running.freePage (h : Running name d f n recorded) (id : ℤ) :
    ∃ f', Running name (d.freePage id).2 f' n recorded := by
  rcases freePage_cases h.ids id with (⟨-, he⟩ | ⟨-, -, he⟩) | ⟨hmem, -, -, ⟨g, hg, -, -, -, he⟩ | he⟩
  · exact ⟨f, by rwa [he]⟩
  · exact ⟨f, by rwa [he]⟩
  · obtain rfl : f = g := Option.some.inj (h.dbName_file.symm.trans hg)
    exact ⟨_, by rw [he]; exact h.released hmem⟩
  · refine ⟨f, ?_⟩
    rw [he]
    exact h.keep rfl le_rfl (h.ids.congr rfl rfl rfl) rfl
      ⟨rfl, rfl, rfl, rfl, rfl, rfl, rfl, rfl, rfl, rfl⟩

end Steps

/-! ## Restart -/

section Restart

variable {name : FileName} {fs : FileSystem} {d : DiskManager} {f : File} {n : ℕ}
  {recorded catalogPageId : ℤ} {u : Uninit}

theorem isMtdFile_write {metaFile : File} (hsize : metaFile.size ≤ 512) (m : Bytes)
    (hfit : Fits (dbFileName name) (logFileName name)) (hM : IsI32 recorded) (hC : IsI32 catalogPageId) :
    IsMtdFile (metaFile.write 0 512 (encodeMetaData m (dbFileName name) (logFileName name) recorded
      catalogPageId)) (dbFileName name) (logFileName name) recorded catalogPageId where
  size := by
    rw [File.size_write (by norm_num)]
    omega
  data := by
    apply (isMetaData_encodeMetaData m hfit hM hC).congr hfit
    intro i h0 hi
    rw [File.byte_write_of_mem (by omega) (by omega)]
    congr 1
    omega

theorem writeMetaData_fs (hs : Streams name d) {metaFile : File}
    (hmeta : d.fs (mtdFileName name) = some metaFile) (hgood : d.writeMetaData.1 = true) :
    ∃ m, d.writeMetaData.2.fs = update d.fs (mtdFileName name)
      (some (metaFile.write 0 512 (encodeMetaData m (dbFileName name) (logFileName name)
        d.maxAvaPgid d.catalogPageId))) := by
  obtain ⟨m, hm⟩ := Option.isSome_iff_exists.mp hs.metaBuffer_isSome
  unfold writeMetaData metaWrite at hgood ⊢
  simp only [hm, hs.metaName_eq, hmeta, hs.bufferSize_eq] at hgood ⊢
  split_ifs at hgood ⊢ with hbad
  refine ⟨m, ?_⟩
  simp only [hs.dbName_eq, hs.logName_eq]
  rfl

theorem writeMetaData_good (hs : Streams name d) {metaFile : File}
    (hmeta : d.fs (mtdFileName name) = some metaFile) (hq : d.faults = []) : d.writeMetaData.1 = true := by
  obtain ⟨m, hm⟩ := Option.isSome_iff_exists.mp hs.metaBuffer_isSome
  unfold writeMetaData metaWrite
  simp [hm, hs.metaName_eq, hmeta, hs.metaFail_eq, hs.metaOpen_eq, hq]

theorem Opened.idInv (h : Opened fs name f n recorded catalogPageId u d) (hn : n ≤ 2^19)
    (hle : (n : ℤ) ≤ recorded) (hpos : 0 < recorded) (hrec : recorded ≤ 2^20) : IdInv d where
  disjoint := by
    rw [h.allocedPgid_eq, h.freePgid_eq, Finset.disjoint_left]
    intro id hid hmem
    obtain ⟨k, hk, hex, rfl⟩ := mem_existIds.mp hid
    rcases Finset.mem_union.mp hmem with hg | hr
    · obtain ⟨j, -, hgone, hjk⟩ := mem_goneIds.mp hg
      obtain rfl : j = k := by exact_mod_cast hjk
      exact hgone hex
    · have := (mem_idRange.mp hr).1
      omega
  union := by
    rw [h.allocedPgid_eq, h.freePgid_eq, h.maxAvaPgid_eq]
    ext id
    simp only [Finset.mem_union, mem_existIds, mem_goneIds, mem_idRange]
    constructor
    · rintro (⟨k, hk, -, rfl⟩ | ⟨k, hk, -, rfl⟩ | hid) <;> omega
    · rintro ⟨h0, hid⟩
      by_cases hidn : id < n
      · by_cases hex : Exists f id.toNat
        · exact Or.inl ⟨id.toNat, by omega, hex, by omega⟩
        · exact Or.inr (Or.inl ⟨id.toNat, by omega, hex, by omega⟩)
      · exact Or.inr (Or.inr ⟨by omega, hid⟩)
  pos := h.maxAvaPgid_eq ▸ hpos
  le := h.maxAvaPgid_eq ▸ hrec
  alloced_lt id hid := by
    rw [h.allocedPgid_eq] at hid
    obtain ⟨k, hk, -, rfl⟩ := mem_existIds.mp hid
    omega

theorem Running.shutdown_files (hfit : Fits (dbFileName name) (logFileName name))
    (h : Running name d f n recorded) (hgood : d.writeMetaData.1 = true) :
    (∃ metaFile, d.shutdown.fs (mtdFileName name) = some metaFile ∧
      IsMtdFile metaFile (dbFileName name) (logFileName name) d.maxAvaPgid d.catalogPageId) ∧
    (∃ logFile, d.shutdown.fs (logFileName name) = some logFile) ∧ d.shutdown.fs (dbFileName name) = some f := by
  obtain ⟨metaFile, c, hmeta, hmtd⟩ := h.mtdFile
  obtain ⟨logFile, hlog⟩ := h.logFile
  have hpos := h.ids.pos
  have hle := h.ids.le
  obtain ⟨m, hm⟩ := writeMetaData_fs h.streams hmeta hgood
  have hfs : d.shutdown.fs = d.writeMetaData.2.fs := by
    unfold shutdown
    simp only [h.status_eq, if_true]
  rw [hfs, hm]
  refine ⟨⟨_, update_self _ _ _, isMtdFile_write hmtd.size.le m hfit ⟨by omega, by omega⟩
    h.streams.catalog_isI32⟩, ⟨logFile, ?_⟩, ?_⟩
  · rw [update_of_ne mtdFileName_ne_logFileName.symm, hlog]
  · rw [update_of_ne mtdFileName_ne_dbFileName.symm, h.dbFile]

theorem Running.restart (h0 : 0 ∉ name) (hfit : Fits (dbFileName name) (logFileName name))
    (h : Running name d f n recorded) (hgood : d.writeMetaData.1 = true) (u : Uninit) (faults : List Bool) :
    (Opened d.shutdown.fs name f n d.maxAvaPgid d.catalogPageId u (openDb d.shutdown.fs name u faults) ∧
      Running name (openDb d.shutdown.fs name u faults) f n d.maxAvaPgid ∧
      (faults = [] → (openDb d.shutdown.fs name u faults).faults = [])) ∨
    (Closed (openDb d.shutdown.fs name u faults) ∧ faults ≠ []) := by
  obtain ⟨⟨metaFile, hmeta, hmtd⟩, ⟨logFile, hlog⟩, hdb⟩ := h.shutdown_files hfit hgood
  have hn := h.pages_le
  have hids := h.ids
  rcases openDb_spec h0 hfit hmeta hmtd hlog hdb h.size_eq (by omega) u faults with ⟨ho, hq⟩ | hc
  · have hnew := ho.idInv hn h.pages_le_maxAva hids.pos hids.le
    refine Or.inl ⟨ho, ⟨⟨ho.metaName_eq, ho.dbName_eq, ho.logName_eq, ho.metaOpen_eq,
      ho.dbOpen_eq, ho.metaFail_eq, ho.metaBuffer_isSome, ho.bufferSize_eq, ?_⟩, ho.status_eq,
      ⟨metaFile, _, ?_, hmtd⟩, ⟨logFile, ?_⟩, ?_, h.size_eq, hn, ?_, hnew, ?_, hids.pos, hids.le⟩, hq⟩
    · rw [ho.catalogPageId_eq]
      exact h.streams.catalog_isI32
    · rw [ho.fs_eq, hmeta]
    · rw [ho.fs_eq, hlog]
    · rw [ho.fs_eq, hdb]
    · rw [ho.maxAvaPgid_eq]
      exact h.pages_le_maxAva
    · intro id hid
      rw [ho.allocedPgid_eq] at hid
      obtain ⟨k, hk, -, rfl⟩ := mem_existIds.mp hid
      exact_mod_cast hk
  · exact Or.inr hc

end Restart

/-! ## Status bytes -/

section Status

variable {f : File} {id : ℤ} {src : Bytes}

theorem byte_write_status (h0 : 0 ≤ id) {len : ℕ} (hlen : 0 < len) :
    (f.write (id * 4096).toNat len src).byte (id.toNat * 4096) = src 0 := by
  rw [File.byte_write_of_mem (by omega) (by omega)]
  congr 1
  omega

theorem exists_write (h0 : 0 ≤ id) (hsrc : src 0 = statusExist) :
    Exists (f.write (id * 4096).toNat 4096 src) id.toNat := by
  unfold Exists
  rw [byte_write_status h0 (by norm_num), hsrc]
  decide

theorem not_exists_write_free (h0 : 0 ≤ id) : ¬ Exists (f.write (id * 4096).toNat 1 fun _ => statusFree) id.toNat := by
  unfold Exists
  rw [byte_write_status h0 one_pos]
  decide

theorem exists_write_of_ne (h0 : 0 ≤ id) {len k : ℕ} (hlen : len ≤ 4096) (hk : (k : ℤ) ≠ id) :
    Exists (f.write (id * 4096).toNat len src) k ↔ Exists f k := by
  unfold Exists
  rw [File.byte_write_of_notMem (by omega)]

end Status

/-! ## A created database -/

section Create

variable {name : FileName} {fs : FileSystem} {d : DiskManager} {f : File} {n : ℕ} {u : Uninit}
  {faults : List Bool}

theorem writeMetaData_eq (d : DiskManager) : ∃ fs metaFail metaBuffer faults,
    (d.metaBuffer.isSome → metaBuffer.isSome) ∧ (d.writeMetaData.1 = true → metaFail = d.metaFail) ∧
    (d.faults = [] → faults = []) ∧ d.writeMetaData.2 = { d with
      fs := fs
      metaFail := metaFail
      metaBuffer := metaBuffer
      faults := faults } := by
  unfold writeMetaData metaWrite
  cases hm : d.metaBuffer with
  | none => exact ⟨d.fs, d.metaFail, none, d.faults, by simp, by simp, id, by simp [← hm]⟩
  | some m =>
    simp only
    cases hf : d.fs d.metaName with
    | none => exact ⟨_, _, _, _, by simp, by simp, by rintro h; simp [h], rfl⟩
    | some f =>
      simp only
      split_ifs with hbad
      · exact ⟨_, _, _, _, by simp, by simp, by rintro h; simp [h], rfl⟩
      · exact ⟨_, _, _, _, by simp, fun _ => rfl, by rintro h; simp [h], rfl⟩

theorem running_writeMetaData (hfit : Fits (dbFileName name) (logFileName name)) (hs : Streams name d)
    {metaFile logFile : File} (hmeta : d.fs (mtdFileName name) = some metaFile)
    (hmsize : metaFile.size ≤ 512) (hlog : d.fs (logFileName name) = some logFile)
    (hdb : d.fs (dbFileName name) = some f) (hsize : f.size = n * 4096) (hn : n ≤ 2^19)
    (hle : (n : ℤ) ≤ d.maxAvaPgid) (hids : IdInv d) (hlt : ∀ id ∈ d.allocedPgid, id < n)
    (hgood : d.writeMetaData.1 = true) : Running name { d.writeMetaData.2 with status := true } f n d.maxAvaPgid := by
  obtain ⟨m, hm⟩ := writeMetaData_fs hs hmeta hgood
  obtain ⟨fs', fail, buf, q, hbuf, hfail, -, he⟩ := writeMetaData_eq d
  have hpos := hids.pos
  have hava := hids.le
  rw [he] at hm ⊢
  subst hm
  refine ⟨⟨hs.metaName_eq, hs.dbName_eq, hs.logName_eq, hs.metaOpen_eq, hs.dbOpen_eq,
    (hfail hgood).trans hs.metaFail_eq, hbuf hs.metaBuffer_isSome, hs.bufferSize_eq, hs.catalog_isI32⟩,
    rfl, ⟨_, _, update_self _ _ _, isMtdFile_write hmsize m hfit ⟨by omega, by omega⟩
      hs.catalog_isI32⟩, ⟨logFile, ?_⟩, ?_, hsize, hn, hle, hids.congr rfl rfl rfl, hlt, hpos, hava⟩
  · dsimp only
    rw [update_of_ne mtdFileName_ne_logFileName.symm, hlog]
  · dsimp only
    rw [update_of_ne mtdFileName_ne_dbFileName.symm, hdb]

/-- The files and members before the catalog page is allocated. -/
def blank (fs : FileSystem) (name : FileName) (u : Uninit) (faults : List Bool) : DiskManager :=
  { new fs name u faults with
    fs := Function.update (Function.update (Function.update fs (mtdFileName name) (some File.empty))
      (dbFileName name) (some File.empty)) (logFileName name) (some File.empty)
    metaOpen := true
    dbOpen := true
    logOpen := true
    maxAvaPgid := 100
    maxAllocedPgid := -1
    freePgid := idRange 0 100
    metaBuffer := some u.heap
    bufferSize := 512 }

theorem idInv_blank : IdInv (blank fs name u faults) where
  disjoint := Finset.disjoint_empty_left _
  union := Finset.empty_union _
  pos := by simp only [blank]; norm_num
  le := by simp only [blank]; norm_num
  alloced_lt := by simp [blank, new]

theorem refill_blank : (blank fs name u faults).refill = blank fs name u faults := by
  unfold refill
  rw [if_neg]
  intro he
  have h0 : (0 : ℤ) ∈ (blank fs name u faults).freePgid := mem_idRange.mpr (by norm_num)
  rw [he] at h0
  exact Finset.notMem_empty _ h0

theorem blank_dbFile : (blank fs name u faults).fs (dbFileName name) = some File.empty := by
  simp only [blank]
  rw [update_of_ne logFileName_ne_dbFileName.symm, update_self]

theorem isLeast_refill_blank : IsLeast ((blank fs name u faults).refill.freePgid : Set ℤ) 0 := by
  rw [refill_blank]
  exact ⟨mem_idRange.mpr (by norm_num), fun j hj => (mem_idRange.mp hj).1⟩

theorem getNewPage_blank_nil : (blank fs name u []).getNewPage =
    some (0, (blank fs name u []).allocated statusExist 0 File.empty) := by
  have hgood := allocPage_of_good rfl blank_dbFile rfl rfl isLeast_refill_blank le_rfl (by norm_num)
    statusExist (d := blank fs name u [])
  rwa [refill_blank] at hgood

theorem getNewPage_blank {id : ℤ} (h : (blank fs name u faults).getNewPage = some (id, d)) :
    (id = 0 ∧ d = (blank fs name u faults).allocated statusExist 0 File.empty) ∨
    (id = -1 ∧ d = (blank fs name u faults).notAllocated statusExist ∧ faults ≠ []) := by
  obtain ⟨id', hid', ⟨g, hg, -, -, -, ha⟩ | ha⟩ := allocPage_cases idInv_blank rfl statusExist
    (d := blank fs name u faults)
  · obtain rfl : id' = 0 := hid'.unique isLeast_refill_blank
    obtain rfl : g = File.empty := Option.some.inj (hg.symm.trans blank_dbFile)
    rw [refill_blank] at ha
    obtain ⟨rfl, rfl⟩ := some_mk_inj (h.symm.trans ha)
    exact Or.inl ⟨rfl, rfl⟩
  · rw [refill_blank] at ha
    obtain ⟨rfl, rfl⟩ := some_mk_inj (h.symm.trans ha)
    refine Or.inr ⟨rfl, rfl, ?_⟩
    rintro rfl
    have := (some_mk_inj (h.symm.trans getNewPage_blank_nil)).1
    omega

/-- Memory that happens to be zero. -/
def Uninit.zero : Uninit := ⟨0, 0, 0, 0, fun _ => 0, fun _ => 0⟩

theorem create_of_notExists (hmtd : fs (mtdFileName name) = none) (hdb : fs (dbFileName name) = none)
    (hlog : fs (logFileName name) = none) (u : Uninit) : ∃ d, create fs name u [] = some d ∧ d.status = true := by
  let q : DiskManager :=
    { (blank fs name u []).allocated statusExist 0 File.empty with catalogPageId := 0 }
  have hmeta : q.fs (mtdFileName name) = some File.empty := by
    simp only [q, allocated, blank, new]
    rw [update_of_ne mtdFileName_ne_dbFileName, update_of_ne mtdFileName_ne_logFileName,
      update_of_ne mtdFileName_ne_dbFileName, update_self]
  have hi0 : IsI32 0 := by decide
  have hgood : q.writeMetaData.1 = true :=
    writeMetaData_good ⟨rfl, rfl, rfl, rfl, rfl, rfl, rfl, rfl, hi0⟩ hmeta rfl
  refine ⟨{ q.writeMetaData.2 with status := true }, ?_, rfl⟩
  unfold create fromScratch
  rw [if_neg (by simp [new, hmtd, hdb, hlog])]
  have hget : (blank fs name u []).getNewPage = some (0, _) := getNewPage_blank_nil
  simp only [blank, new] at hget
  simp only [new, Finset.empty_union, hget, some_bind]
  exact if_pos hgood

theorem create_eq (hc : create fs name u faults = some d) (hs : d.status = true) :
    ∃ id q, (blank fs name u faults).getNewPage = some (id, q) ∧
      ({ q with catalogPageId := id } : DiskManager).writeMetaData.1 = true ∧
      d = { ({ q with catalogPageId := id } : DiskManager).writeMetaData.2 with status := true } := by
  unfold create fromScratch at hc
  split_ifs at hc with hex
  · exfalso
    rw [← Option.some.inj hc] at hs
    simp [new] at hs
  · obtain ⟨⟨id, q⟩, hget, hrest⟩ := bind_eq_some.mp hc
    have hblank : (blank fs name u faults).getNewPage = some (id, q) := by
      rw [← hget]
      simp [blank, new]
    refine ⟨id, q, hblank, ?_⟩
    dsimp only at hrest
    split_ifs at hrest with hgood
    · exact ⟨hgood, (Option.some.inj hrest).symm⟩
    · -- Where the meta data cannot be written, the manager is not usable.
      exfalso
      have hq : q.status = false := by
        rcases getNewPage_blank hblank with ⟨-, rfl⟩ | ⟨-, rfl, -⟩ <;> rfl
      obtain ⟨_, _, _, _, -, -, -, he⟩ := writeMetaData_eq { q with catalogPageId := id }
      rw [← Option.some.inj hrest, he] at hs
      rw [hq] at hs
      exact Bool.false_ne_true hs

theorem running_create (hfit : Fits (dbFileName name) (logFileName name))
    (hc : create fs name u faults = some d) (hs : d.status = true) :
    ∃ f n, n ≤ 1 ∧ Running name d f n 100 ∧ (faults = [] → Exact d f n) := by
  obtain ⟨id, q, hget, hgood, rfl⟩ := create_eq hc hs
  have hmeta : (blank fs name u faults).fs (mtdFileName name) = some File.empty := by
    simp only [blank]
    rw [update_of_ne mtdFileName_ne_logFileName, update_of_ne mtdFileName_ne_dbFileName, update_self]
  have hlog : (blank fs name u faults).fs (logFileName name) = some File.empty := by
    simp only [blank]
    rw [update_self]
  have hdb : (blank fs name u faults).fs (dbFileName name) = some File.empty := blank_dbFile
  have hids : IdInv (blank fs name u faults) := idInv_blank
  have hm0 : File.empty.size ≤ 512 := Nat.zero_le _
  have hi0 : IsI32 0 := by decide
  have hi1 : IsI32 (-1) := by decide
  rcases getNewPage_blank hget with ⟨rfl, rfl⟩ | ⟨rfl, rfl, hne⟩
  · have hsize := size_write_page (f := File.empty) (n := 0) rfl (le_refl (0 : ℤ))
      ((blank fs name u faults).pageBuf.memset 0 statusExist 1)
    refine ⟨File.empty.write (0 * 4096 : ℤ).toNat 4096
      ((blank fs name u faults).pageBuf.memset 0 statusExist 1), 1, le_rfl, ?_, fun hnil => ?_⟩
    · have hfs : ∀ x, x ≠ dbFileName name →
          ((blank fs name u faults).allocated statusExist 0 File.empty).fs x =
            (blank fs name u faults).fs x := fun x hx => update_of_ne hx _ _
      refine running_writeMetaData hfit ⟨rfl, rfl, rfl, rfl, rfl, rfl, rfl, rfl, hi0⟩
        ((hfs _ mtdFileName_ne_dbFileName).trans hmeta) hm0
        ((hfs _ logFileName_ne_dbFileName).trans hlog) ?_ hsize (by norm_num) ?_ ?_ ?_ hgood
      · exact update_self _ _ _
      · simp only [allocated, blank]
        norm_num
      · have h0 : (0 : ℤ) ∈ (blank fs name u faults).freePgid := mem_idRange.mpr (by norm_num)
        exact hids.alloc h0 (by norm_num) rfl rfl rfl
      · intro id hid
        simp only [allocated, blank, new, insert_empty_eq, Finset.mem_singleton] at hid
        omega
    · obtain ⟨fs', fail, buf, q, -, -, hq, he⟩ := writeMetaData_eq
        { (blank fs name u faults).allocated statusExist 0 File.empty with catalogPageId := 0 }
      rw [he]
      refine ⟨hq (by rw [hnil]; rfl), rfl, fun k hk => ?_, ?_, ?_⟩
      · obtain rfl : k = 0 := by omega
        exact iff_of_true (exists_write le_rfl rfl) (Finset.mem_insert_self _ _)
      · simp only [allocated, blank, new]
        norm_num
      · exact Finset.mem_insert_self _ _
  · refine ⟨File.empty, 0, zero_le_one, ?_, fun hnil => absurd hnil hne⟩
    refine running_writeMetaData hfit ⟨rfl, rfl, rfl, rfl, rfl, rfl, rfl, rfl, hi1⟩ hmeta hm0
      hlog hdb rfl (by norm_num) ?_ ?_ ?_ hgood
    · simp only [notAllocated, blank]
      norm_num
    · exact hids.congr rfl rfl rfl
    · simp [notAllocated, blank, new]

end Create

/-! ## Runs in which all reads and writes succeed -/

section Exact

variable {name : FileName} {d : DiskManager} {f : File} {n : ℕ} {recorded id : ℤ}

theorem isLeast_refill (h : IdInv d) (hid : IsLeast (d.refill.freePgid : Set ℤ) id) :
    (d.freePgid.Nonempty → IsLeast (d.freePgid : Set ℤ) id) ∧ (d.freePgid = ∅ → id = d.maxAvaPgid) := by
  refine ⟨fun hne => ?_, fun hempty => ?_⟩
  · unfold refill at hid
    rwa [if_neg hne.ne_empty] at hid
  · have hle := h.maxAvaPgid_le hempty
    have hpos := h.pos
    have hw : wrap32 (d.maxAvaPgid * 2) = d.maxAvaPgid * 2 := wrap32_of_isI32 ⟨by omega, by omega⟩
    unfold refill at hid
    rw [if_pos hempty] at hid
    simp only [hempty, Finset.empty_union, hw] at hid
    have h1 := (mem_idRange.mp hid.1).1
    have h2 := hid.2 (Finset.mem_coe.mpr (mem_idRange.mpr ⟨le_refl d.maxAvaPgid, by omega⟩))
    omega

theorem Running.least_le (h : Running name d f n recorded) (hid : IsLeast (d.refill.freePgid : Set ℤ) id) : id ≤ n := by
  obtain ⟨hr, -, -, hall⟩ := h.ids.refill
  by_contra hgt
  have hidlt := (hr.mem_iff.mp (Or.inr hid.1)).2
  rcases hr.mem_iff.mpr ⟨Int.natCast_nonneg n, by omega⟩ with hmem | hmem
  · rw [hall] at hmem
    exact lt_irrefl _ (h.alloced_lt _ hmem)
  · have := hid.2 hmem
    omega

theorem Exact.getNewPage (h : Running name d f n recorded) (he : Exact d f n)
    (hid : IsLeast (d.refill.freePgid : Set ℤ) id) (hlt : id < 2^19) :
    d.getNewPage = some (id, d.refill.allocated statusExist id f) ∧ Exact (d.refill.allocated statusExist id f)
      (f.write (id * 4096).toNat 4096 (d.refill.pageBuf.memset 0 statusExist 1)) (max n (id.toNat + 1)) := by
  obtain ⟨hr, -, -, hall⟩ := h.ids.refill
  have h0 := (hr.mem_iff.mp (Or.inr hid.1)).1
  have hle := h.least_le hid
  refine ⟨allocPage_of_good h.streams.dbOpen_eq h.dbName_file he.dbFail_eq he.faults_eq hid h0 hlt _,
    ?_, ?_, fun k hk => ?_, ?_, ?_⟩
  · simp [allocated, he.faults_eq]
  · simp [allocated, he.dbFail_eq]
  · simp only [allocated, hall, Finset.mem_insert]
    by_cases hkid : (k : ℤ) = id
    · obtain rfl : k = id.toNat := by omega
      exact iff_of_true (exists_write h0 rfl) (Or.inl hkid)
    · rw [exists_write_of_ne h0 le_rfl hkid, he.exists_iff k (by omega)]
      simp [hkid]
  · have hmax : d.refill.maxAllocedPgid = d.maxAllocedPgid := by unfold refill; split_ifs <;> rfl
    simp only [allocated, hall, hmax, Finset.coe_insert]
    rw [max_comm]
    exact he.greatest.insert id
  · have hcat : d.refill.catalogPageId = d.catalogPageId := by unfold refill; split_ifs <;> rfl
    simp only [allocated, hall, hcat]
    exact Finset.mem_insert_of_mem he.catalog_mem

theorem greatest_releasePgid {q : DiskManager} (hg : IsGreatest (q.allocedPgid : Set ℤ) q.maxAllocedPgid)
    (hcat : q.catalogPageId ∈ q.allocedPgid) (hid : id ≠ q.catalogPageId) :
    IsGreatest ((q.releasePgid id).allocedPgid : Set ℤ) (q.releasePgid id).maxAllocedPgid := by
  have hne : (q.allocedPgid.erase id).Nonempty := ⟨_, Finset.mem_erase.mpr ⟨hid.symm, hcat⟩⟩
  unfold releasePgid
  dsimp only
  split_ifs with hmax
  · exact Finset.isGreatest_max' _ hne
  · refine ⟨Finset.mem_coe.mpr (Finset.mem_erase.mpr ⟨hmax, hg.1⟩), fun j hj => hg.2 ?_⟩
    exact Finset.mem_of_mem_erase (Finset.mem_coe.mp hj)

theorem Exact.freePage (h : Running name d f n recorded) (he : Exact d f n) (hid : id ≠ d.catalogPageId) :
    ∃ f', Running name (d.freePage id).2 f' n recorded ∧ Exact (d.freePage id).2 f' n := by
  rcases freePage_cases h.ids id with (⟨-, hfree⟩ | ⟨-, -, hfree⟩) |
    ⟨hmem, h0, hlt, ⟨g, hg, -, -, -, hfree⟩ | hfree⟩
  · exact ⟨f, by rw [hfree]; exact ⟨h, he⟩⟩
  · exact ⟨f, by rw [hfree]; exact ⟨h, he⟩⟩
  · obtain rfl : f = g := Option.some.inj (h.dbName_file.symm.trans hg)
    refine ⟨_, by rw [hfree]; exact h.released hmem, ?_⟩
    rw [hfree]
    refine ⟨?_, ?_, fun k hk => ?_, greatest_releasePgid he.greatest he.catalog_mem hid, ?_⟩
    · rw [releasePgid_fields]
      simp [he.faults_eq]
    · rw [releasePgid_fields]
      exact he.dbFail_eq
    · rw [releasePgid_fields]
      rw [Finset.mem_erase]
      by_cases hkid : (k : ℤ) = id
      · obtain rfl : k = id.toNat := by omega
        exact iff_of_false (not_exists_write_free h0) fun hc => hc.1 hkid
      · rw [exists_write_of_ne h0 (by norm_num) hkid, he.exists_iff k hk]
        simp [hkid]
    · rw [releasePgid_fields]
      exact Finset.mem_erase.mpr ⟨hid.symm, he.catalog_mem⟩
  · -- The status byte is written when all writes succeed.
    have hw := dbWrite_of_good h.dbName_file he.dbFail_eq h.streams.dbOpen_eq
      (show 0 ≤ id * 4096 by omega) he.faults_eq 1 fun _ => statusFree
    unfold DiskManager.freePage at hfree
    rw [if_neg (by omega), if_neg (not_not.mpr hmem), wrap32_offset h0 hlt, hw] at hfree
    exact absurd (congrArg Prod.fst hfree) (by simp)

theorem Exact.writePage (h : Running name d f n recorded) (he : Exact d f n)
    (hid : id ∈ d.allocedPgid) {data : Bytes} (hdata : data 0 = statusExist) :
    Running name (d.writePage id data).2 (f.write (id * 4096).toNat 4096 data) n recorded ∧
      Exact (d.writePage id data).2 (f.write (id * 4096).toNat 4096 data) n := by
  have h0 := (h.ids.mem_iff.mp (Or.inl hid)).1
  have hlt := h.alloced_lt id hid
  have hw := dbWrite_of_good h.dbName_file he.dbFail_eq h.streams.dbOpen_eq
    (show 0 ≤ id * pageSize by simp only [pageSize]; omega) he.faults_eq pageSize.toNat data
  unfold DiskManager.writePage
  rw [if_neg (by simp [h.streams.dbOpen_eq]), hw]
  refine ⟨h.step rfl (size_write_within h.size_eq h0 hlt (by norm_num) le_rfl _) h.pages_le
    h.pages_le_maxAva (h.ids.congr rfl rfl rfl) h.alloced_lt
    ⟨rfl, rfl, rfl, rfl, rfl, rfl, rfl, rfl, rfl, rfl⟩, he.faults_eq, he.dbFail_eq, fun k hk => ?_,
    he.greatest, he.catalog_mem⟩
  by_cases hkid : (k : ℤ) = id
  · obtain rfl : k = id.toNat := by omega
    exact iff_of_true (exists_write h0 hdata) (by rw [hkid]; exact hid)
  · rw [exists_write_of_ne h0 le_rfl hkid, he.exists_iff k hk]

theorem isGreatest_lastExist (z : ℤ) (h : (existIds f n).Nonempty) :
    IsGreatest (existIds f n : Set ℤ) (lastExist f z n) := by
  induction n with
  | zero =>
    obtain ⟨id, hid⟩ := h
    obtain ⟨k, hk, -⟩ := mem_existIds.mp hid
    omega
  | succ n ih =>
    unfold lastExist
    split_ifs with hex
    · refine ⟨Finset.mem_coe.mpr (mem_existIds.mpr ⟨n, by omega, hex, rfl⟩), fun j hj => ?_⟩
      obtain ⟨k, hk, -, rfl⟩ := mem_existIds.mp (Finset.mem_coe.mp hj)
      omega
    · have hsame : existIds f (n + 1) = existIds f n := by
        ext id
        simp only [mem_existIds]
        constructor
        · rintro ⟨k, hk, hk', rfl⟩
          have hkn : k ≠ n := fun he => hex (he ▸ hk')
          exact ⟨k, by omega, hk', rfl⟩
        · rintro ⟨k, hk, hk', hid⟩
          exact ⟨k, by omega, hk', hid⟩
      rw [hsame] at h ⊢
      exact ih h

theorem Opened.exact {fs : FileSystem} {u : Uninit} {d' : DiskManager}
    (ho : Opened fs name f n d.maxAvaPgid d.catalogPageId u d') (h : Running name d f n recorded)
    (he : Exact d f n) : d'.allocedPgid = d.allocedPgid ∧ d'.freePgid = d.freePgid ∧
      d'.maxAllocedPgid = d.maxAllocedPgid := by
  have hn := h.pages_le_maxAva
  have halloc : existIds f n = d.allocedPgid := by
    ext id
    rw [mem_existIds]
    constructor
    · rintro ⟨k, hk, hex, rfl⟩
      exact (he.exists_iff k hk).mp hex
    · intro hid
      have h0 := (h.ids.mem_iff.mp (Or.inl hid)).1
      have hlt := h.alloced_lt id hid
      exact ⟨id.toNat, by omega, (he.exists_iff _ (by omega)).mpr (by rwa [Int.toNat_of_nonneg h0]),
        by omega⟩
  refine ⟨ho.allocedPgid_eq.trans halloc, ?_, ?_⟩
  · have hids := ho.idInv h.pages_le hn h.ids.pos h.ids.le
    ext id
    -- Both sets are what is left of the available ids.
    have h1 : id ∈ d'.allocedPgid ∨ id ∈ d'.freePgid ↔ _ := hids.mem_iff
    have h2 : id ∈ d.allocedPgid ∨ id ∈ d.freePgid ↔ _ := h.ids.mem_iff
    have h3 : id ∈ d'.allocedPgid → id ∉ d'.freePgid := hids.notMem_free
    have h4 : id ∈ d.allocedPgid → id ∉ d.freePgid := h.ids.notMem_free
    rw [ho.maxAvaPgid_eq, ho.allocedPgid_eq, halloc] at h1
    rw [ho.allocedPgid_eq, halloc] at h3
    tauto
  · have hpos : n ≠ 0 := by
      rintro rfl
      have := h.alloced_lt _ he.catalog_mem
      have := (h.ids.mem_iff.mp (Or.inl he.catalog_mem)).1
      omega
    rw [ho.maxAllocedPgid_eq, if_neg hpos]
    refine IsGreatest.unique ?_ he.greatest
    have hg := isGreatest_lastExist (f := f) (n := n) u.maxAllocedPgid
      (by rw [halloc]; exact ⟨_, he.catalog_mem⟩)
    rwa [halloc] at hg

end Exact

/-! ## The page ids over runs and restarts -/

section PageIdRuns

/-- A call on the database `name`, or a shutdown and a new start. -/
inductive IdOp where
  | getNewPage
  | freePage (id : ℤ)
  | writePage (id : ℤ) (data : Bytes)
  | restart (u : Uninit)

/-- The step of a call: pages are allocated below `2^19`, the catalog page is not freed, and an
existing page is overwritten by an existing page. -/
inductive IdStep (name : FileName) : DiskManager → IdOp → DiskManager → Prop
  | getNewPage {d d' : DiskManager} {id : ℤ} (h : d.getNewPage = some (id, d')) (h0 : 0 ≤ id)
    (hlt : id < 2^19) : IdStep name d .getNewPage d'
  | freePage {d : DiskManager} {id : ℤ} (h : id ≠ d.catalogPageId) :
    IdStep name d (.freePage id) (d.freePage id).2
  | writePage {d : DiskManager} {id : ℤ} {data : Bytes} (h : id ∈ d.allocedPgid)
    (hdata : data 0 = statusExist) : IdStep name d (.writePage id data) (d.writePage id data).2
  | restart {d : DiskManager} {u : Uninit} :
    IdStep name d (.restart u) (openDb d.shutdown.fs name u [])

variable {name : FileName} {d d' : DiskManager}

/-- The state of a database when all reads and writes succeed. -/
def Sound (name : FileName) (d : DiskManager) : Prop :=
  ∃ f n recorded, Running name d f n recorded ∧ Exact d f n

theorem Sound.restart (h0 : 0 ∉ name) (hfit : Fits (dbFileName name) (logFileName name))
    (h : Sound name d) (u : Uninit) : Sound name (openDb d.shutdown.fs name u []) ∧
      (openDb d.shutdown.fs name u []).status = true ∧ (openDb d.shutdown.fs name u []).allocedPgid = d.allocedPgid ∧
      (openDb d.shutdown.fs name u []).freePgid = d.freePgid ∧
      (openDb d.shutdown.fs name u []).maxAvaPgid = d.maxAvaPgid ∧
      (openDb d.shutdown.fs name u []).maxAllocedPgid = d.maxAllocedPgid ∧
      (openDb d.shutdown.fs name u []).catalogPageId = d.catalogPageId := by
  obtain ⟨f, n, recorded, hr, he⟩ := h
  obtain ⟨metaFile, -, hmeta, -⟩ := hr.mtdFile
  have hgood := writeMetaData_good hr.streams hmeta he.faults_eq
  rcases hr.restart h0 hfit hgood u [] with ⟨ho, hrun, hq⟩ | ⟨-, hne⟩
  · obtain ⟨ha, hf, hm⟩ := ho.exact hr he
    refine ⟨⟨f, n, _, hrun, hq rfl, ho.dbFail_eq, ?_, ?_, ?_⟩, ho.status_eq, ha, hf, ho.maxAvaPgid_eq,
      hm, ho.catalogPageId_eq⟩
    · rw [ha]
      exact he.exists_iff
    · rw [ha, hm]
      exact he.greatest
    · rw [ha, ho.catalogPageId_eq]
      exact he.catalog_mem
  · exact absurd rfl hne

theorem Sound.step (h0 : 0 ∉ name) (hfit : Fits (dbFileName name) (logFileName name))
    (h : Sound name d) {op : IdOp} (hs : IdStep name d op d') : Sound name d' := by
  obtain ⟨f, n, recorded, hr, he⟩ := id h
  cases hs with
  | getNewPage hget hid hlt =>
    rename_i id
    obtain ⟨least, hleast, hcases⟩ := allocPage_cases hr.ids hr.streams.dbOpen_eq statusExist
    have hid' : id = least := by
      rcases hcases with ⟨g, -, -, -, -, ha⟩ | ha
      · exact (some_mk_inj (hget.symm.trans ha)).1
      · have := (some_mk_inj (hget.symm.trans ha)).1
        omega
    subst hid'
    obtain ⟨ha, hex⟩ := he.getNewPage hr hleast hlt
    rw [(some_mk_inj (hget.symm.trans ha)).2]
    exact ⟨_, _, recorded, hr.allocated hleast hlt _, hex⟩
  | freePage hid =>
    obtain ⟨f', hrun, hex⟩ := he.freePage hr hid
    exact ⟨f', n, recorded, hrun, hex⟩
  | writePage hid hdata =>
    obtain ⟨hrun, hex⟩ := he.writePage hr hid hdata
    exact ⟨_, n, recorded, hrun, hex⟩
  | restart => exact (h.restart h0 hfit _).1

/-- Over whole runs the page ids are partitioned into allocated and free ones, `get_new_page` takes the
smallest free id, the `.db` file has whole pages, and a clean restart at any point rebuilds the page
ids as they were. -/
theorem pageIds_partition_and_restart {fs : FileSystem} {u : Uninit} {d₀ : DiskManager}
    (h0 : 0 ∉ name) (hfit : Fits (dbFileName name) (logFileName name))
    (hc : create fs name u [] = some d₀) (hs : d₀.status = true) {ops : List IdOp}
    (ht : Trace (IdStep name) d₀ ops d) :
    Disjoint d.allocedPgid d.freePgid ∧ d.allocedPgid ∪ d.freePgid = idRange 0 d.maxAvaPgid ∧
    (∃ id, id ∉ d.allocedPgid ∧ (d.freePgid.Nonempty → IsLeast (d.freePgid : Set ℤ) id) ∧
      (d.freePgid = ∅ → id = d.maxAvaPgid) ∧ (id < 2^19 → ∃ d', d.getNewPage = some (id, d'))) ∧
    IsGreatest (d.allocedPgid : Set ℤ) d.maxAllocedPgid ∧
    (∃ f, d.fs d.dbName = some f ∧ 4096 ∣ f.size) ∧
    ∀ u', (openDb d.shutdown.fs name u' []).status = true ∧
      (openDb d.shutdown.fs name u' []).allocedPgid = d.allocedPgid ∧
      (openDb d.shutdown.fs name u' []).freePgid = d.freePgid ∧
      (openDb d.shutdown.fs name u' []).maxAvaPgid = d.maxAvaPgid ∧
      (openDb d.shutdown.fs name u' []).maxAllocedPgid = d.maxAllocedPgid ∧
      (openDb d.shutdown.fs name u' []).catalogPageId = d.catalogPageId := by
  have hsound : Sound name d := by
    refine ht.invariant (P := Sound name) (fun _ _ _ hi hstep => hi.step h0 hfit hstep) ?_
    obtain ⟨f, n, -, hr, he⟩ := running_create hfit hc hs
    exact ⟨f, n, 100, hr, he rfl⟩
  obtain ⟨f, n, recorded, hr, he⟩ := id hsound
  refine ⟨hr.ids.disjoint, hr.ids.union, ?_, he.greatest, ⟨f, hr.dbName_file, ?_⟩,
    fun u' => (hsound.restart h0 hfit u').2⟩
  · obtain ⟨least, hleast, -⟩ := allocPage_cases hr.ids hr.streams.dbOpen_eq statusExist
    obtain ⟨hne, hempty⟩ := isLeast_refill hr.ids hleast
    exact ⟨least, hr.ids.refill.2.2.1 _ hleast.1, hne, hempty,
      fun hlt => ⟨_, (he.getNewPage hr hleast hlt).1⟩⟩
  · rw [hr.size_eq]
    exact Dvd.intro_left n rfl

/-- A database is created where there are no files, and a page is allocated and freed. -/
theorem exists_new_and_freed : ∃ d₀ id d₁, create (fun _ => none) [100] Uninit.zero [] = some d₀ ∧ d₀.status = true ∧
    d₀.getNewPage = some (id, d₁) ∧ 0 ≤ id ∧ id < 2^19 ∧ id ≠ d₁.catalogPageId ∧ Sound [100] (d₁.freePage id).2 := by
  have hfit : Fits (dbFileName [100]) (logFileName [100]) := by unfold Fits; decide
  obtain ⟨d₀, hc, hs⟩ : ∃ d, create (fun _ => none) [100] Uninit.zero [] = some d ∧ d.status = true :=
    create_of_notExists rfl rfl rfl _
  obtain ⟨f, n, hn, hr, hexact⟩ := running_create hfit hc hs
  have he := hexact rfl
  obtain ⟨id, hleast, -⟩ := allocPage_cases hr.ids hr.streams.dbOpen_eq statusExist
  have hle := hr.least_le hleast
  obtain ⟨hr', -, hnew, -⟩ := hr.ids.refill
  have h0 := (hr'.mem_iff.mp (Or.inr hleast.1)).1
  obtain ⟨hget, -⟩ := he.getNewPage hr hleast (by omega)
  have hcat : id ≠ (d₀.refill.allocated statusExist id f).catalogPageId := by
    rw [show (d₀.refill.allocated statusExist id f).catalogPageId = d₀.catalogPageId by
      simp only [allocated, refill]; split_ifs <;> rfl]
    rintro rfl
    exact hnew _ hleast.1 he.catalog_mem
  have hsound : Sound [100] d₀ := ⟨f, n, 100, hr, he⟩
  exact ⟨d₀, id, _, hc, hs, hget, h0, by omega, hcat,
    (hsound.step (by decide) hfit (.getNewPage hget h0 (by omega))).step (by decide) hfit (.freePage hcat)⟩

/-- A page is allocated and freed, and the database is restarted. -/
theorem pageIds_partition_and_restart_fresh : ∃ d₀ id d,
    create (fun _ => none) [100] Uninit.zero [] = some d₀ ∧
    Trace (IdStep [100]) d₀ [.getNewPage, .freePage id, .restart Uninit.zero] d ∧
    (openDb d.shutdown.fs [100] Uninit.zero []).allocedPgid = d.allocedPgid ∧
    Disjoint d.allocedPgid d.freePgid := by
  obtain ⟨d₀, id, d₁, hc, hs, hget, h0, hlt, hcat, -⟩ := exists_new_and_freed
  have ht : Trace (IdStep [100]) d₀ [.getNewPage, .freePage id, .restart Uninit.zero] _ :=
    .cons (.getNewPage hget h0 hlt) (.cons (.freePage hcat) (.single .restart))
  have h := pageIds_partition_and_restart (by decide) (by unfold Fits; decide) hc hs ht
  exact ⟨d₀, id, _, hc, ht, (h.2.2.2.2.2 _).2.1, h.1⟩

end PageIdRuns

end Dawn.DiskManager
