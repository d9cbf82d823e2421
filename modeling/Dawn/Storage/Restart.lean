import Dawn.Lib.Trace
import Dawn.Storage.PageIds

/-!
# Restart

What opening a database rebuilds. The scan of the `.db` file goes through the file in batches, but
what it finds is what a single pass over the pages finds (`scan_spec`): the ids whose status byte says
so are allocated, and the other ids of pages in the file are free. The meta data survives being
written and read (`isMetaData_encodeMetaData`).
-/

namespace Dawn.DiskManager

/-! ## The scan -/

section Scan

variable {d : DiskManager} {f : File}

/-- The status byte of page `n` in the file says that the page exists. -/
def Exists (f : File) (n : ℕ) : Prop := f.byte (n * 4096) &&& statusExist ≠ 0

instance (f : File) (n : ℕ) : Decidable (Exists f n) := inferInstanceAs (Decidable (_ ≠ _))

/-- What the scan does for one page. -/
def markPage (f : File) (d : DiskManager) (n : ℕ) : DiskManager :=
  if Exists f n then { d with maxAllocedPgid := n, allocedPgid := insert (n : ℤ) d.allocedPgid }
  else { d with freePgid := insert (n : ℤ) d.freePgid }

/-- The ids below `n` of the pages that exist. -/
def existIds (f : File) (n : ℕ) : Finset ℤ :=
  ((Finset.range n).filter (Exists f)).image fun k : ℕ => (k : ℤ)

/-- The ids below `n` of the pages that do not exist. -/
def goneIds (f : File) (n : ℕ) : Finset ℤ :=
  ((Finset.range n).filter fun k => ¬ Exists f k).image fun k : ℕ => (k : ℤ)

/-- The last of the pages below `n` that exist. -/
def lastExist (f : File) (z : ℤ) : ℕ → ℤ
  | 0 => z
  | n + 1 => if Exists f n then n else lastExist f z n

theorem mem_existIds {n : ℕ} {id : ℤ} : id ∈ existIds f n ↔ ∃ k : ℕ, k < n ∧ Exists f k ∧ (k : ℤ) = id := by
  simp [existIds, and_assoc]

theorem mem_goneIds {n : ℕ} {id : ℤ} : id ∈ goneIds f n ↔ ∃ k : ℕ, k < n ∧ ¬ Exists f k ∧ (k : ℤ) = id := by
  simp [goneIds, and_assoc]

/-- What the scan finds in the first `n` pages. -/
def scanned (f : File) (d : DiskManager) (n : ℕ) : DiskManager :=
  { d with
    allocedPgid := d.allocedPgid ∪ existIds f n
    freePgid := d.freePgid ∪ goneIds f n
    maxAllocedPgid := lastExist f d.maxAllocedPgid n }

/-- The manager after some reads and writes. -/
def withFaults (d : DiskManager) (faults : List Bool) : DiskManager := { d with faults := faults }

theorem markPage_scanned (f : File) (d : DiskManager) (n : ℕ) : markPage f (scanned f d n) n = scanned f d (n + 1) := by
  unfold markPage scanned
  by_cases he : Exists f n
  · have hex : existIds f (n + 1) = insert (n : ℤ) (existIds f n) := by
      rw [existIds, Finset.range_add_one, Finset.filter_insert, if_pos he, Finset.image_insert]
      rfl
    have hgone : goneIds f (n + 1) = goneIds f n := by
      rw [goneIds, Finset.range_add_one, Finset.filter_insert, if_neg (not_not.mpr he)]
      rfl
    rw [if_pos he, hex, hgone, Finset.union_insert, lastExist, if_pos he]
  · have hex : existIds f (n + 1) = existIds f n := by
      rw [existIds, Finset.range_add_one, Finset.filter_insert, if_neg he]
      rfl
    have hgone : goneIds f (n + 1) = insert (n : ℤ) (goneIds f n) := by
      rw [goneIds, Finset.range_add_one, Finset.filter_insert, if_pos he, Finset.image_insert]
      rfl
    rw [if_neg he, hex, hgone, Finset.union_insert, lastExist, if_neg he]

theorem foldl_markPage (f : File) (d : DiskManager) (n c : ℕ) :
    ((List.range c).map (n + ·)).foldl (markPage f) (scanned f d n) = scanned f d (n + c) := by
  induction c with
  | zero => rfl
  | succ c ih =>
    rw [List.range_succ, List.map_append, List.foldl_append, ih, List.map_cons, List.map_nil,
      List.foldl_cons, List.foldl_nil, markPage_scanned, add_assoc]

theorem scanPage_eq {tmpBuf : Bytes} {i k : ℕ} (hi : i * 10240 + k < 2^31)
    (hbuf : tmpBuf (k * 4096) = f.byte ((i * 10240 + k) * 4096)) (pid : ℤ) (d : DiskManager) :
    scanPage tmpBuf i (pid, d) k = (((i * 10240 + k : ℕ) : ℤ), markPage f d (i * 10240 + k)) := by
  have hw : wrap32 (i * readDbPgNum + k) = ((i * 10240 + k : ℕ) : ℤ) := by
    rw [wrap32_of_isI32 ⟨by simp only [readDbPgNum]; omega, by simp only [readDbPgNum]; omega⟩]
    simp
  unfold scanPage markPage
  simp only [hw, pageSize, hbuf]
  by_cases he : f.byte ((i * 10240 + k) * 4096) &&& statusExist ≠ 0
  · rw [if_pos he, if_pos (show Exists f _ from he)]
  · rw [if_neg he, if_neg (show ¬ Exists f _ from he)]

theorem foldl_scanPage {tmpBuf : Bytes} {i c : ℕ} (hi : i * 10240 + c ≤ 2^31)
    (hbuf : ∀ k : ℕ, k < c → tmpBuf (k * 4096) = f.byte ((i * 10240 + k) * 4096)) (pid : ℤ)
    (d : DiskManager) : (List.range c).foldl (scanPage tmpBuf i) (pid, d) =
      (if c = 0 then pid else ((i * 10240 + c - 1 : ℕ) : ℤ),
        ((List.range c).map (i * 10240 + ·)).foldl (markPage f) d) := by
  induction c with
  | zero => rfl
  | succ c ih =>
    rw [List.range_succ, List.foldl_append, ih (by omega) fun k hk => hbuf k (by omega),
      List.foldl_cons, List.foldl_nil, List.map_append, List.foldl_append,
      scanPage_eq (by omega) (hbuf c (by omega)), if_neg (by omega : ¬ c + 1 = 0)]
    rfl

theorem dbRead_cases (pos len : ℕ) (hf : d.fs d.dbName = some f) (hle : pos + len ≤ f.size) (dst : Bytes) :
    d.dbRead pos len dst = (len, f.read pos len dst, { d with faults := d.faults.tail })
      ∧ d.dbFail = false ∧ d.dbOpen = true ∧ d.faults.headD false = false ∨
    (d.dbRead pos len dst).2.2.dbFail = true ∧
      ¬ (d.dbFail = false ∧ d.dbOpen = true ∧ d.faults.headD false = false) := by
  unfold dbRead
  simp only [hf, Int.toNat_natCast, File.gcount_of_le hle]
  by_cases hbad : d.dbFail ∨ ¬ d.dbOpen ∨ (pos : ℤ) < 0 ∨ d.faults.headD false
  · rw [if_pos hbad]
    refine Or.inr ⟨rfl, ?_⟩
    rintro ⟨h1, h2, h3⟩
    simp only [h1, h2, h3, Bool.false_eq_true, not_true_eq_false, false_or, or_false] at hbad
    omega
  · rw [if_neg hbad]
    push Not at hbad
    have hfail : d.dbFail = false := by simpa using hbad.1
    refine Or.inl ⟨?_, hfail, hbad.2.1, by simpa using hbad.2.2.2⟩
    simp [← hfail]

theorem scanBatch_cases {n i c : ℕ} (hf : d.fs d.dbName = some f) (hsize : f.size = n * 4096)
    (hn : n ≤ 2^31) (hi : i * 10240 < n) (hc : c = min 10240 (n - i * 10240)) (tmpBuf : Bytes) (pid : ℤ) :
    scanBatch f.size tmpBuf (pid, d) i = .ok (((i * 10240 + c - 1 : ℕ) : ℤ),
      ((List.range c).map (i * 10240 + ·)).foldl (markPage f) (d.withFaults d.faults.tail))
      ∧ d.dbFail = false ∧ d.dbOpen = true ∧ d.faults.headD false = false ∨
    (∃ d', scanBatch f.size tmpBuf (pid, d) i = .error d') ∧
      ¬ (d.dbFail = false ∧ d.dbOpen = true ∧ d.faults.headD false = false) := by
  have hlen : (if (readDbBufSz : ℤ) ≤ (f.size : ℤ) - i * readDbBufSz then (readDbBufSz : ℤ)
      else (f.size : ℤ) - i * readDbBufSz).toNat = c * 4096 := by
    simp only [readDbBufSz, readDbPgNum]
    split_ifs <;> omega
  have hpos : ((i : ℤ) * (readDbBufSz : ℕ)) = ((i * 10240 * 4096 : ℕ) : ℤ) := by
    simp only [readDbBufSz, readDbPgNum]
    push_cast
    ring
  unfold scanBatch
  simp only [hlen]
  rw [hpos]
  rcases dbRead_cases (i * 10240 * 4096) (c * 4096) hf (by omega) tmpBuf with
    ⟨hr, hgood⟩ | ⟨hr, hbad⟩
  · refine Or.inl ⟨?_, hgood⟩
    simp only [hr, hgood.1, Bool.false_eq_true, if_false]
    have hbuf : ∀ k : ℕ, k < c → f.read (i * 10240 * 4096) (c * 4096) tmpBuf (k * 4096) =
        f.byte ((i * 10240 + k) * 4096) := by
      intro k hk
      have hidx : i * 10240 * 4096 + ((k : ℤ) * 4096).toNat = (i * 10240 + k) * 4096 := by omega
      rw [File.read_apply (by omega) (by rw [File.gcount_of_le (by omega)]; push_cast; omega), hidx]
    rw [show (c * 4096 + 4095) / 4096 = c by omega, foldl_scanPage (by omega) hbuf pid,
      if_neg (by omega)]
    simp only [withFaults, hgood.1]
  · exact Or.inr ⟨⟨_, if_pos hr⟩, hbad⟩

theorem min_batch {j n : ℕ} (h : j * 10240 < n) :
    min ((j + 1) * 10240) n = j * 10240 + min 10240 (n - j * 10240) := by omega

theorem foldlM_scanBatch {n : ℕ} (hf : d.fs d.dbName = some f) (hsize : f.size = n * 4096)
    (hn : n ≤ 2^31) (hfail : d.dbFail = false) (ho : d.dbOpen = true) (tmpBuf : Bytes) (pid : ℤ)
    (j : ℕ) (hj : j = 0 ∨ (j - 1) * 10240 < n) : (List.range j).foldlM (scanBatch f.size tmpBuf) (pid, d) =
      .ok (if j = 0 then pid else ((min (j * 10240) n - 1 : ℕ) : ℤ),
        scanned f (d.withFaults (d.faults.drop j)) (min (j * 10240) n)) ∨
    (∃ d', (List.range j).foldlM (scanBatch f.size tmpBuf) (pid, d) = .error d') ∧ d.faults ≠ [] := by
  induction j with
  | zero =>
    refine Or.inl ?_
    rw [zero_mul, Nat.zero_min]
    simp [scanned, existIds, goneIds, lastExist, withFaults]
    rfl
  | succ j ih =>
    have hjn : j * 10240 < n := by simpa using hj
    have hprev : j = 0 ∨ (j - 1) * 10240 < n := by
      rcases Nat.eq_zero_or_pos j with h0 | h0
      · exact Or.inl h0
      · exact Or.inr (lt_of_le_of_lt (Nat.mul_le_mul_right _ (Nat.sub_le j 1)) hjn)
    rw [List.range_succ, List.foldlM_append]
    rcases ih hprev with hok | ⟨⟨d', herr⟩, hne⟩
    · rw [Nat.min_eq_left hjn.le] at hok
      rw [hok, min_batch hjn, if_neg (Nat.succ_ne_zero j)]
      generalize hpid : (if j = 0 then pid else ((j * 10240 - 1 : ℕ) : ℤ)) = pid'
      generalize hq : scanned f (d.withFaults (d.faults.drop j)) (j * 10240) = q
      have hqf : q.fs q.dbName = some f := by rw [← hq]; exact hf
      have hqfaults : q.faults = d.faults.drop j := by rw [← hq]; rfl
      rcases scanBatch_cases hqf hsize hn hjn rfl tmpBuf pid' with
        ⟨hb, -⟩ | ⟨⟨d', hb⟩, hbad⟩
      · left
        have hq' : q.withFaults q.faults.tail =
            scanned f (d.withFaults (d.faults.drop (j + 1))) (j * 10240) := by
          rw [hqfaults, List.tail_drop, ← hq]
          rfl
        rw [hq', foldl_markPage] at hb
        simp only [bind, Except.bind, List.foldlM_cons, List.foldlM_nil, hb, pure, Except.pure]
      · right
        refine ⟨⟨d', ?_⟩, ?_⟩
        · simp only [bind, Except.bind, List.foldlM_cons, hb]
        · rintro hnil
          apply hbad
          rw [hqfaults, hnil, ← hq]
          exact ⟨hfail, ho, by simp⟩
    · exact Or.inr ⟨⟨d', by rw [herr]; rfl⟩, hne⟩

theorem scan_spec {n : ℕ} (hf : d.fs d.dbName = some f) (hsize : f.size = n * 4096)
    (hn : n ≤ 2^31) (h0 : 0 < n) (hfail : d.dbFail = false) (ho : d.dbOpen = true) (tmpBuf : Bytes) (pid : ℤ) :
    (∃ faults, scan f.size tmpBuf (pid, d) = .ok ((n : ℤ) - 1, scanned f (d.withFaults faults) n) ∧
      (d.faults = [] → faults = [])) ∨ (∃ d', scan f.size tmpBuf (pid, d) = .error d') ∧ d.faults ≠ [] := by
  have hcnt : ∃ j, (if f.size % readDbBufSz ≠ 0 then f.size / readDbBufSz + 1
      else f.size / readDbBufSz) = j ∧ j ≠ 0 ∧ (j - 1) * 10240 < n ∧ n ≤ j * 10240 := by
    simp only [readDbBufSz, readDbPgNum, hsize]
    split_ifs <;> refine ⟨_, rfl, ?_⟩ <;> omega
  obtain ⟨j, hj, hj0, hj1, hj2⟩ := hcnt
  unfold scan
  simp only [hj]
  rcases foldlM_scanBatch hf hsize hn hfail ho tmpBuf pid j (Or.inr hj1) with hok | herr
  · refine Or.inl ⟨d.faults.drop j, ?_, fun h => by rw [h, List.drop_nil]⟩
    rw [hok, Nat.min_eq_right hj2, if_neg hj0]
    congr 2
    omega
  · exact Or.inr herr

end Scan

/-! ## The meta data -/

section MetaData

variable {b b' : Bytes} {dbName logName : FileName} {maxAvaPgid catalogPageId : ℤ}

/-- The bytes of a `.mtd` file that says the following. -/
structure IsMetaData (b : Bytes) (dbName logName : FileName) (maxAvaPgid catalogPageId : ℤ) :
    Prop where
  dbNameSz_eq : b.i32 0 = dbName.length
  dbName_eq : b.read 4 (dbName.length + 1) = dbName ++ [0]
  logNameSz_eq : b.i32 (4 + dbName.length + 1) = logName.length
  logName_eq : b.read (4 + dbName.length + 1 + 4) (logName.length + 1) = logName ++ [0]
  maxAvaPgid_eq : b.i32 (4 + dbName.length + 1 + 4 + logName.length + 1) = maxAvaPgid
  catalogPgid_eq : b.i32 (4 + dbName.length + 1 + 4 + logName.length + 1 + 4) = catalogPageId

/-- The names fit into the buffer of 512 bytes, with the other fields. -/
def Fits (dbName logName : FileName) : Prop :=
  4 + (dbName.length + 1) + 4 + (logName.length + 1) + 4 + 4 + 128 ≤ 512

theorem IsMetaData.congr (h : IsMetaData b dbName logName maxAvaPgid catalogPageId)
    (hfit : Fits dbName logName) (hb : ∀ i : ℤ, 0 ≤ i → i < 512 → b' i = b i) :
    IsMetaData b' dbName logName maxAvaPgid catalogPageId := by
  unfold Fits at hfit
  obtain ⟨h1, h2, h3, h4, h5, h6⟩ := h
  refine ⟨?_, ?_, ?_, ?_, ?_, ?_⟩
  · rw [← h1]; exact Bytes.i32_congr fun i hi => hb _ (by omega) (by omega)
  · rw [← h2]; exact Bytes.read_congr fun i hi => hb _ (by omega) (by omega)
  · rw [← h3]; exact Bytes.i32_congr fun i hi => hb _ (by omega) (by omega)
  · rw [← h4]; exact Bytes.read_congr fun i hi => hb _ (by omega) (by omega)
  · rw [← h5]; exact Bytes.i32_congr fun i hi => hb _ (by omega) (by omega)
  · rw [← h6]; exact Bytes.i32_congr fun i hi => hb _ (by omega) (by omega)

theorem isMetaData_encodeMetaData (m : Bytes) (hfit : Fits dbName logName)
    (hM : IsI32 maxAvaPgid) (hC : IsI32 catalogPageId) :
    IsMetaData (encodeMetaData m dbName logName maxAvaPgid catalogPageId) dbName logName maxAvaPgid catalogPageId := by
  unfold Fits at hfit
  have hdb : IsI32 (dbName.length : ℤ) := ⟨by omega, by omega⟩
  have hlog : IsI32 (logName.length : ℤ) := ⟨by omega, by omega⟩
  have hl1 : (dbName ++ [0]).length = dbName.length + 1 := by simp
  have hl2 : (logName ++ [0]).length = logName.length + 1 := by simp
  unfold encodeMetaData
  simp only [offsetTSize, pgidTSize, Bytes.memset]
  refine ⟨?_, ?_, ?_, ?_, ?_, ?_⟩
  · simp (disch := first | omega | assumption) only [Bytes.i32_memcpy_of_disjoint,
      Bytes.i32_setI32_of_disjoint, Bytes.i32_write_of_disjoint, Bytes.i32_setI32]
  · simp (disch := omega) only [Bytes.read_memcpy_of_disjoint, Bytes.read_setI32_of_disjoint,
      Bytes.read_write_of_disjoint]
    rw [← hl1]
    exact Bytes.read_write _ _ _
  · simp (disch := first | omega | assumption) only [Bytes.i32_memcpy_of_disjoint,
      Bytes.i32_setI32_of_disjoint, Bytes.i32_write_of_disjoint, Bytes.i32_setI32]
  · simp (disch := omega) only [Bytes.read_memcpy_of_disjoint, Bytes.read_setI32_of_disjoint]
    rw [← hl2]
    exact Bytes.read_write _ _ _
  · simp (disch := first | omega | assumption) only [Bytes.i32_memcpy_of_disjoint,
      Bytes.i32_setI32_of_disjoint, Bytes.i32_setI32]
  · simp (disch := first | omega | assumption) only [Bytes.i32_memcpy_of_disjoint, Bytes.i32_setI32]

/-- A file that says the following. -/
structure IsMtdFile (f : File) (dbName logName : FileName) (maxAvaPgid catalogPageId : ℤ) :
    Prop where
  size : f.size = 512
  data : IsMetaData (fun i => f.byte i.toNat) dbName logName maxAvaPgid catalogPageId

theorem IsMtdFile.read {f : File} (h : IsMtdFile f dbName logName maxAvaPgid catalogPageId)
    (hfit : Fits dbName logName) (heap : Bytes) :
    IsMetaData (f.read 0 f.size heap) dbName logName maxAvaPgid catalogPageId := by
  have hsize := h.size
  apply h.data.congr hfit
  intro i h0 hi
  rw [File.read_apply h0 (by rw [File.gcount_of_le (by omega)]; omega), zero_add]

theorem IsMetaData.names (h : IsMetaData b dbName logName maxAvaPgid catalogPageId)
    (hfit : Fits dbName logName) (hdb : 0 ∉ dbName) (hlog : 0 ∉ logName) :
    b.cString 4 512 = dbName ∧ b.cString (4 + dbName.length + 1 + 4) 512 = logName := by
  unfold Fits at hfit
  exact ⟨Bytes.cString_eq h.dbName_eq hdb (by omega), Bytes.cString_eq h.logName_eq hlog (by omega)⟩

end MetaData

/-! ## Opening a database -/

section OpenDb

variable {name : FileName} {fs : FileSystem} {f : File} {n : ℕ} {maxAvaPgid catalogPageId : ℤ}

theorem zero_notMem_dbFileName (h : 0 ∉ name) : 0 ∉ dbFileName name := by
  simp [dbFileName, h]

theorem zero_notMem_logFileName (h : 0 ∉ name) : 0 ∉ logFileName name := by
  simp [logFileName, h]

theorem mtdFileName_ne_dbFileName : mtdFileName name ≠ dbFileName name := by
  simp [mtdFileName, dbFileName]

theorem logFileName_ne_dbFileName : logFileName name ≠ dbFileName name := by
  simp [logFileName, dbFileName]

theorem mtdFileName_ne_logFileName : mtdFileName name ≠ logFileName name := by
  simp [mtdFileName, logFileName]

/-- A manager that has just opened a database whose `.db` file has `n` pages. -/
structure Opened (fs : FileSystem) (name : FileName) (f : File) (n : ℕ) (maxAvaPgid catalogPageId : ℤ)
    (u : Uninit) (d : DiskManager) : Prop where
  fs_eq : d.fs = fs
  metaName_eq : d.metaName = mtdFileName name
  dbName_eq : d.dbName = dbFileName name
  logName_eq : d.logName = logFileName name
  status_eq : d.status = true
  metaOpen_eq : d.metaOpen = true
  dbOpen_eq : d.dbOpen = true
  metaFail_eq : d.metaFail = false
  dbFail_eq : d.dbFail = false
  metaBuffer_isSome : d.metaBuffer.isSome
  bufferSize_eq : d.bufferSize = 512
  maxAvaPgid_eq : d.maxAvaPgid = maxAvaPgid
  catalogPageId_eq : d.catalogPageId = catalogPageId
  allocedPgid_eq : d.allocedPgid = existIds f n
  freePgid_eq : d.freePgid = goneIds f n ∪ idRange n maxAvaPgid
  maxAllocedPgid_eq : d.maxAllocedPgid = if n = 0 then -1 else lastExist f u.maxAllocedPgid n

/-- The manager has no open `.db` file, and says so. -/
def Closed (d : DiskManager) : Prop :=
  d.dbOpen = false ∧ d.status = false

theorem rebuild_spec {d : DiskManager} (hf : d.fs d.dbName = some f) (hsize : f.size = n * 4096)
    (hn : n ≤ 2^31) (hfail : d.dbFail = false) (ho : d.dbOpen = true) (hA : d.allocedPgid = ∅)
    (hF : d.freePgid = ∅) (u : Uninit) : (∃ faults, d.rebuild u f = { d with
        faults := faults
        allocedPgid := existIds f n
        freePgid := goneIds f n ∪ idRange n d.maxAvaPgid
        maxAllocedPgid := if n = 0 then -1 else lastExist f d.maxAllocedPgid n
        status := true } ∧ (d.faults = [] → faults = [])) ∨
    Closed (d.rebuild u f) ∧ d.faults ≠ [] := by
  unfold rebuild
  rw [if_neg (by omega)]
  rcases Nat.eq_zero_or_pos n with rfl | h0
  · refine Or.inl ⟨d.faults, ?_, id⟩
    rw [if_pos (by omega)]
    simp [hA, hF, existIds, goneIds]
  · rw [if_neg (by omega)]
    rcases scan_spec hf hsize hn h0 hfail ho u.heap u.pageId with ⟨q, hs, hq⟩ | ⟨⟨d', hs⟩, hne⟩
    · refine Or.inl ⟨q, ?_, hq⟩
      simp only [hs]
      simp [scanned, withFaults, hA, hF, h0.ne']
    · refine Or.inr ⟨?_, hne⟩
      simp only [hs]
      exact ⟨rfl, rfl⟩

/-- The manager once the meta data are read and the other files are open. -/
def decoded (fs : FileSystem) (name : FileName) (u : Uninit) (faults : List Bool) (metaFile : File)
    (maxAvaPgid catalogPageId : ℤ) : DiskManager :=
  { new fs name u faults with
    faults := faults.tail
    metaOpen := true
    dbOpen := true
    logOpen := true
    metaBuffer := some (metaFile.read 0 512 u.heap)
    bufferSize := 512
    maxAvaPgid := maxAvaPgid
    catalogPageId := catalogPageId }

theorem openDb_eq_rebuild {metaFile logFile : File} (h0 : 0 ∉ name)
    (hfit : Fits (dbFileName name) (logFileName name)) (hmeta : fs (mtdFileName name) = some metaFile)
    (hmtd : IsMtdFile metaFile (dbFileName name) (logFileName name) maxAvaPgid catalogPageId)
    (hlog : fs (logFileName name) = some logFile) (hdb : fs (dbFileName name) = some f) (u : Uninit)
    {faults : List Bool} (hfault : faults.headD false = false) : openDb fs name u faults =
      (decoded fs name u faults metaFile maxAvaPgid catalogPageId).rebuild u f := by
  have hb := hmtd.read hfit u.heap
  rw [hmtd.size] at hb
  obtain ⟨hdbName, hlogName⟩ := hb.names hfit (zero_notMem_dbFileName h0) (zero_notMem_logFileName h0)
  unfold openDb fromMtd
  simp only [new, hmeta, hfault, hmtd.size, offsetTSize, hdbName, hdb, hb.dbNameSz_eq, hlogName,
    hlog, hb.logNameSz_eq, hb.maxAvaPgid_eq, pgidTSize, hb.catalogPgid_eq]
  rfl

theorem openDb_spec {metaFile logFile : File} (h0 : 0 ∉ name)
    (hfit : Fits (dbFileName name) (logFileName name)) (hmeta : fs (mtdFileName name) = some metaFile)
    (hmtd : IsMtdFile metaFile (dbFileName name) (logFileName name) maxAvaPgid catalogPageId)
    (hlog : fs (logFileName name) = some logFile) (hdb : fs (dbFileName name) = some f)
    (hsize : f.size = n * 4096) (hn : n ≤ 2^31) (u : Uninit) (faults : List Bool) :
    (Opened fs name f n maxAvaPgid catalogPageId u (openDb fs name u faults) ∧
      (faults = [] → (openDb fs name u faults).faults = [])) ∨ (Closed (openDb fs name u faults) ∧ faults ≠ []) := by
  by_cases hfault : faults.headD false = true
  · refine Or.inr ⟨?_, ?_⟩
    · unfold openDb fromMtd
      simp only [new, hmeta, hfault, if_true]
      exact ⟨rfl, rfl⟩
    · rintro rfl
      simp at hfault
  · rw [openDb_eq_rebuild h0 hfit hmeta hmtd hlog hdb u (by simpa using hfault)]
    rcases rebuild_spec (d := decoded fs name u faults metaFile maxAvaPgid catalogPageId) hdb hsize hn
      rfl rfl rfl rfl u with ⟨q, hr, hq⟩ | ⟨hclosed, hne⟩
    · refine Or.inl ⟨?_, fun hnil => ?_⟩
      · rw [hr]
        exact ⟨rfl, rfl, rfl, rfl, rfl, rfl, rfl, rfl, rfl, rfl, rfl, rfl, rfl, rfl, rfl, rfl⟩
      · subst hnil
        rw [hr]
        exact hq rfl
    · refine Or.inr ⟨hclosed, ?_⟩
      rintro rfl
      exact hne rfl

end OpenDb

end Dawn.DiskManager
