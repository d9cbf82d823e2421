import Dawn.Lib.File
import Dawn.Util.Config

/-!
# The disk manager

`DiskManager` of `src/include/storage/disk/disk_manager.h` and `src/storage/disk/disk_manager.cpp`.
A database has three files: the pages (`.db`), the log, which is only created, and the meta data
(`.mtd`). Which page ids are allocated is not in the meta data: it is found out when a database is
opened, from the status byte of every page in the `.db` file.

A stream that fails once fails from then on, since no code clears its state. Whether a read or a
write fails for a reason outside the program is decided by `faults`, one entry for each of them. The
latches are left out: every function gives back what it locks. A function that runs into undefined
behaviour returns `none`.
-/

namespace Dawn

/-- `string_t` as a file name. -/
abbrev FileName := List UInt8

/-- The files on the disk. -/
abbrev FileSystem := FileName → Option File

/-- `DiskManager`. -/
structure DiskManager where
  /-- The files on the disk, which outlive the manager. -/
  fs : FileSystem
  /-- `meta_name_`. -/
  metaName : FileName
  /-- `db_name_`. -/
  dbName : FileName
  /-- `log_name_`. -/
  logName : FileName
  /-- `meta_io_.is_open()`. -/
  metaOpen : Bool := false
  /-- `db_io_.is_open()`. -/
  dbOpen : Bool := false
  /-- `log_io_.is_open()`. -/
  logOpen : Bool := false
  /-- `meta_io_.fail()`. -/
  metaFail : Bool := false
  /-- `db_io_.fail()`. -/
  dbFail : Bool := false
  /-- `status_`. -/
  status : Bool := false
  /-- `max_ava_pgid_`. -/
  maxAvaPgid : ℤ
  /-- `max_alloced_pgid_`. -/
  maxAllocedPgid : ℤ
  /-- `alloced_pgid_`. -/
  allocedPgid : Finset ℤ := ∅
  /-- `free_pgid_`. -/
  freePgid : Finset ℤ := ∅
  /-- `meta_buffer`, or nothing where it is null. -/
  metaBuffer : Option Bytes := none
  /-- `buffer_size`. -/
  bufferSize : ℤ := -1
  /-- `page_buf`. -/
  pageBuf : Bytes
  /-- `catalog_page_id_`. -/
  catalogPageId : ℤ
  /-- Which of the coming reads and writes fail. -/
  faults : List Bool := []

/-- The page ids that a loop from `lo` up to `hi` inserts. -/
def idRange (lo hi : ℤ) : Finset ℤ :=
  (Finset.range (hi - lo).toNat).image fun k : ℕ => lo + k

@[simp] theorem mem_idRange {lo hi id : ℤ} : id ∈ idRange lo hi ↔ lo ≤ id ∧ id < hi := by
  simp only [idRange, Finset.mem_image, Finset.mem_range]
  constructor
  · rintro ⟨k, hk, rfl⟩
    omega
  · rintro ⟨h1, h2⟩
    exact ⟨(id - lo).toNat, by omega, by omega⟩

namespace DiskManager

/-! ## Streams -/

/-- `db_io_.seekg(offset)` and `db_io_.write(src, len)`: whether the stream is still good. -/
def dbWrite (d : DiskManager) (offset : ℤ) (len : ℕ) (src : Bytes) : Bool × DiskManager :=
  let fault := d.faults.headD false
  let d := { d with faults := d.faults.tail }
  match d.fs d.dbName with
  | none => (false, { d with dbFail := true })
  | some f =>
    if d.dbFail ∨ ¬ d.dbOpen ∨ offset < 0 ∨ fault then (false, { d with dbFail := true })
    else
      (true, { d with fs := Function.update d.fs d.dbName (some (f.write offset.toNat len src)) })

/-- `db_io_.seekp(offset)` and `db_io_.read(dst, len)`: the `gcount`, and the buffer. A read that
comes short puts the stream into its failed state. -/
def dbRead (d : DiskManager) (offset : ℤ) (len : ℕ) (dst : Bytes) : ℕ × Bytes × DiskManager :=
  let fault := d.faults.headD false
  let d := { d with faults := d.faults.tail }
  match d.fs d.dbName with
  | none => (0, dst, { d with dbFail := true })
  | some f =>
    if d.dbFail ∨ ¬ d.dbOpen ∨ offset < 0 ∨ fault then (0, dst, { d with dbFail := true })
    else
      (f.gcount offset.toNat len, f.read offset.toNat len dst,
        { d with dbFail := decide (f.gcount offset.toNat len < len) })

/-- `meta_io_.seekg(0)` and `meta_io_.write(src, len)`: whether the stream is still good. -/
def metaWrite (d : DiskManager) (len : ℕ) (src : Bytes) : Bool × DiskManager :=
  let fault := d.faults.headD false
  let d := { d with faults := d.faults.tail }
  match d.fs d.metaName with
  | none => (false, { d with metaFail := true })
  | some f =>
    if d.metaFail ∨ ¬ d.metaOpen ∨ fault then (false, { d with metaFail := true })
    else (true, { d with fs := Function.update d.fs d.metaName (some (f.write 0 len src)) })

/-! ## Pages -/

/-- `write_page`. -/
def writePage (d : DiskManager) (pageId : ℤ) (data : Bytes) : Bool × DiskManager :=
  if ¬ d.dbOpen then (false, { d with status := false })
  else d.dbWrite (pageId * pageSize) pageSize.toNat data

/-- `read_page`: whether the page could be read, and the buffer. -/
def readPage (d : DiskManager) (pageId : ℤ) (dst : Bytes) : Bool × Bytes × DiskManager :=
  if ¬ d.dbOpen then (false, dst, { d with status := false })
  else
    let (gcount, dst, d) := d.dbRead (pageId * pageSize) pageSize.toNat dst
    (gcount = pageSize.toNat, dst, d)

/-- The part of `alloc_page` for when there is no free page id: their number is doubled. -/
def refill (d : DiskManager) : DiskManager :=
  if d.freePgid = ∅ then
    let tmp := d.maxAvaPgid
    let maxAvaPgid := wrap32 (d.maxAvaPgid * 2)
    { d with maxAvaPgid := maxAvaPgid, freePgid := d.freePgid ∪ idRange tmp maxAvaPgid }
  else d

/-- The part of `alloc_page` that moves the new id, under the latch, and prepares the page. -/
def claimPgid (d : DiskManager) (flag : UInt8) (newPageId : ℤ) : DiskManager :=
  { d with
    freePgid := d.freePgid.erase newPageId
    allocedPgid := insert newPageId d.allocedPgid
    pageBuf := d.pageBuf.memset 0 flag 1 }

/-- The rest of `alloc_page`: the page is written, or the id is given back. The offset of the page
is computed in 32 bits. -/
def writeNewPage (d : DiskManager) (newPageId : ℤ) : ℤ × DiskManager :=
  match d.dbWrite (wrap32 (newPageId * pageSize)) pageSize.toNat d.pageBuf with
  | (true, d) => (newPageId, { d with maxAllocedPgid := max d.maxAllocedPgid newPageId })
  | (false, d) =>
    (-1, { d with
      freePgid := insert newPageId d.freePgid
      allocedPgid := d.allocedPgid.erase newPageId })

/-- `alloc_page`. -/
def allocPage (d : DiskManager) (flag : UInt8) : Option (ℤ × DiskManager) :=
  if ¬ d.dbOpen then some (-1, { d with status := false })
  else if h : d.refill.freePgid.Nonempty then
    let newPageId := d.refill.freePgid.min' h
    some ((d.refill.claimPgid flag newPageId).writeNewPage newPageId)
  else none

/-- `get_new_page`. -/
def getNewPage (d : DiskManager) : Option (ℤ × DiskManager) := d.allocPage statusExist

/-- The last part of `free_page`, under the latch. -/
def releasePgid (d : DiskManager) (pageId : ℤ) : DiskManager :=
  let d := { d with
    freePgid := insert pageId d.freePgid
    allocedPgid := d.allocedPgid.erase pageId }
  if d.maxAllocedPgid = pageId then
    if h : d.allocedPgid.Nonempty then { d with maxAllocedPgid := d.allocedPgid.max' h }
    else { d with maxAllocedPgid := -1 }
  else d

/-- `free_page`. -/
def freePage (d : DiskManager) (pageId : ℤ) : Bool × DiskManager :=
  if pageId < 0 then (false, d)
  else if pageId ∉ d.allocedPgid then (true, d)
  else
    let (good, d) := d.dbWrite (wrap32 (pageId * pageSize)) 1 fun _ => statusFree
    if good then (true, d.releasePgid pageId) else (false, d)

/-! ## The meta data -/

/-- What `write_meta_data` puts into the buffer. -/
def encodeMetaData (metaBuffer : Bytes) (dbName logName : FileName)
    (maxAvaPgid catalogPageId : ℤ) : Bytes :=
  let dbNameOffset := offsetTSize
  let logNameSzOffset := dbNameOffset + dbName.length + 1
  let logNameOffset := logNameSzOffset + offsetTSize
  let maxAvaPgidOffset := logNameOffset + logName.length + 1
  let catalogPgidOffset := maxAvaPgidOffset + pgidTSize
  let reservedOffset := catalogPgidOffset + pgidTSize
  let m := metaBuffer.setI32 0 dbName.length
  let m := m.write dbNameOffset (dbName ++ [0])
  let m := m.setI32 logNameSzOffset logName.length
  let m := m.write logNameOffset (logName ++ [0])
  let m := m.setI32 maxAvaPgidOffset maxAvaPgid
  let m := m.setI32 catalogPgidOffset catalogPageId
  m.memset reservedOffset 0 128

/-- `write_meta_data`. -/
def writeMetaData (d : DiskManager) : Bool × DiskManager :=
  match d.metaBuffer with
  | none => (false, d)
  | some metaBuffer =>
    let m := encodeMetaData metaBuffer d.dbName d.logName d.maxAvaPgid d.catalogPageId
    { d with metaBuffer := some m }.metaWrite d.bufferSize.toNat m

/-- `shutdown`. -/
def shutdown (d : DiskManager) : DiskManager :=
  let d := if d.status then d.writeMetaData.2 else d
  { d with
    status := false
    metaOpen := false
    dbOpen := false
    logOpen := false
    metaBuffer := none
    bufferSize := if d.metaBuffer.isNone then d.bufferSize else -1 }

/-! ## Creating and opening a database -/

/-- What the members hold that the constructor does not set, and the memory of its buffers. -/
structure Uninit where
  /-- `max_ava_pgid_`. -/
  maxAvaPgid : ℤ
  /-- `max_alloced_pgid_`. -/
  maxAllocedPgid : ℤ
  /-- `catalog_page_id_`. -/
  catalogPageId : ℤ
  /-- The local `page_id` of `from_mtd`. -/
  pageId : ℤ
  /-- `page_buf`. -/
  pageBuf : Bytes
  /-- The memory that `new char[]` returns. -/
  heap : Bytes

/-- `meta_name + ".mtd"`. -/
def mtdFileName (name : FileName) : FileName := name ++ [46, 109, 116, 100]

/-- `meta_name + ".db"`. -/
def dbFileName (name : FileName) : FileName := name ++ [46, 100, 98]

/-- `meta_name + ".log"`. -/
def logFileName (name : FileName) : FileName := name ++ [46, 108, 111, 103]

/-- The members as `DiskManager(meta_name, create)` leaves them before it opens any file. -/
def new (fs : FileSystem) (name : FileName) (u : Uninit) (faults : List Bool) : DiskManager where
  fs := fs
  metaName := mtdFileName name
  dbName := dbFileName name
  logName := logFileName name
  maxAvaPgid := u.maxAvaPgid
  maxAllocedPgid := u.maxAllocedPgid
  pageBuf := u.pageBuf
  catalogPageId := u.catalogPageId
  faults := faults

/-- `from_scratch`. Files that exist are left alone, and the manager then is not usable. -/
def fromScratch (d : DiskManager) (u : Uninit) : Option DiskManager :=
  if (d.fs d.metaName).isSome ∨ (d.fs d.dbName).isSome ∨ (d.fs d.logName).isSome then some d
  else do
    let fs := Function.update d.fs d.metaName (some File.empty)
    let fs := Function.update fs d.dbName (some File.empty)
    let fs := Function.update fs d.logName (some File.empty)
    let d := { d with
      fs := fs
      metaOpen := true
      dbOpen := true
      logOpen := true
      maxAvaPgid := 100
      maxAllocedPgid := -1
      freePgid := d.freePgid ∪ idRange 0 100
      metaBuffer := some u.heap
      bufferSize := 512 }
    let (catalogPageId, d) ← d.getNewPage
    let (good, d) := { d with catalogPageId := catalogPageId }.writeMetaData
    if good then some { d with status := true } else some d

/-- One page of a batch: what its status byte says decides where its id goes. -/
def scanPage (tmpBuf : Bytes) (i : ℕ) (st : ℤ × DiskManager) (k : ℕ) : ℤ × DiskManager :=
  let d := st.2
  let pageId := wrap32 (i * readDbPgNum + k)
  if tmpBuf (k * pageSize) &&& statusExist ≠ 0 then
    (pageId, { d with maxAllocedPgid := pageId, allocedPgid := insert pageId d.allocedPgid })
  else (pageId, { d with freePgid := insert pageId d.freePgid })

/-- One batch of the scan of a `.db` file of the given size. A read that fails ends the scan. -/
def scanBatch (dbFileSz : ℕ) (tmpBuf : Bytes) (st : ℤ × DiskManager) (i : ℕ) :
    Except DiskManager (ℤ × DiskManager) :=
  let left : ℤ := dbFileSz - i * readDbBufSz
  let readSize : ℤ := if readDbBufSz ≤ left then readDbBufSz else left
  let (readSz, tmpBuf, d) := st.2.dbRead (i * readDbBufSz) readSize.toNat tmpBuf
  if d.dbFail then .error d
  else .ok ((List.range ((readSz + 4095) / 4096)).foldl (scanPage tmpBuf i) (st.1, d))

/-- The loop over the batches. -/
def scan (dbFileSz : ℕ) (tmpBuf : Bytes) (st : ℤ × DiskManager) :
    Except DiskManager (ℤ × DiskManager) :=
  let readCnt := if dbFileSz % readDbBufSz ≠ 0 then dbFileSz / readDbBufSz + 1
    else dbFileSz / readDbBufSz
  (List.range readCnt).foldlM (scanBatch dbFileSz tmpBuf) st

/-- The second part of `from_mtd`: which page ids are allocated, from the `.db` file. -/
def rebuild (d : DiskManager) (u : Uninit) (dbFile : File) : DiskManager :=
  if dbFile.size % 4096 ≠ 0 then d.shutdown
  else if dbFile.size = 0 then
    { d with
      freePgid := d.freePgid ∪ idRange 0 d.maxAvaPgid
      maxAllocedPgid := -1
      status := true }
  else
    match scan dbFile.size u.heap (u.pageId, d) with
    | .error d => d.shutdown
    | .ok (pageId, d) =>
      { d with
        freePgid := d.freePgid ∪ idRange (pageId + 1) d.maxAvaPgid
        status := true }

/-- `from_mtd`: the meta data is read, the other files are opened, and the page ids are rebuilt. -/
def fromMtd (d : DiskManager) (u : Uninit) : DiskManager :=
  match d.fs d.metaName with
  | none => d.shutdown
  | some metaFile =>
    let fault := d.faults.headD false
    let metaBuffer := metaFile.read 0 metaFile.size u.heap
    let d := { d with
      faults := d.faults.tail
      metaOpen := true
      bufferSize := metaFile.size
      metaBuffer := some metaBuffer }
    if fault then d.shutdown
    else
      let d := { d with dbName := metaBuffer.cString offsetTSize metaFile.size }
      match d.fs d.dbName with
      | none => d.shutdown
      | some dbFile =>
        let d := { d with dbOpen := true }
        let logNameSzOffset := offsetTSize + metaBuffer.i32 0 + 1
        let logNameOffset := logNameSzOffset + offsetTSize
        let d := { d with logName := metaBuffer.cString logNameOffset metaFile.size }
        match d.fs d.logName with
        | none => d.shutdown
        | some _ =>
          let maxAvaPgidOffset := logNameOffset + metaBuffer.i32 logNameSzOffset + 1
          let d := { d with
            logOpen := true
            maxAvaPgid := metaBuffer.i32 maxAvaPgidOffset
            catalogPageId := metaBuffer.i32 (maxAvaPgidOffset + pgidTSize) }
          d.rebuild u dbFile

/-- `DiskManager(meta_name, true)`. -/
def create (fs : FileSystem) (name : FileName) (u : Uninit) (faults : List Bool) :
    Option DiskManager :=
  (new fs name u faults).fromScratch u

/-- `DiskManager(meta_name, false)`. -/
def openDb (fs : FileSystem) (name : FileName) (u : Uninit) (faults : List Bool) : DiskManager :=
  (new fs name u faults).fromMtd u

end DiskManager

end Dawn
