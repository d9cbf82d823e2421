import Dawn.Buffer.ClockReplacer
import Dawn.Storage.DiskManager
import Dawn.Storage.Page

/-!
# The buffer pool

`BufferPoolManager` of `src/buffer/buffer_pool_manager.cpp`: `n` frames, a map from the page ids to the
frames, a list of the free frames, the replacer, and the disk manager. A function that waits for a latch
or for a frame that no one will give back never returns, which is `none`. A page that is handed out is
given by its frame.
-/

namespace Dawn

/-- `BufferPoolManager`. -/
structure BufferPoolManager (n : ℕ) where
  /-- `pages_`. -/
  pages : Fin n → Page
  /-- `free_list_`. -/
  freeList : List (Fin n)
  /-- `mapping_`. -/
  mapping : ℤ → Option (Fin n)
  /-- `disk_manager_`. -/
  disk : DiskManager
  /-- `replacer_`. -/
  replacer : ClockReplacer n
  /-- `latch_`. -/
  latch : Latch

namespace BufferPoolManager

variable {n : ℕ}

/-- `BufferPoolManager(disk_manager, pool_size)`, where each frame's `lsn_` and the memory beyond its
buffer are unset. -/
def new [NeZero n] (disk : DiskManager) (lsn : Fin n → ℤ) (heap : Fin n → Bytes) : BufferPoolManager n where
  pages f := Page.new (lsn f) (heap f)
  freeList := List.finRange n
  mapping _ := none
  disk := disk
  replacer := ClockReplacer.new n
  latch := Latch.free

/-- `latch_.w_lock()`. -/
def wLock (b : BufferPoolManager n) : Option (BufferPoolManager n) :=
  b.latch.wLock.map fun l => { b with latch := l }

/-- `latch_.w_unlock()`. -/
def wUnlock (b : BufferPoolManager n) : BufferPoolManager n := { b with latch := b.latch.wUnlock }

/-- `latch_.r_lock()`. -/
def rLock (b : BufferPoolManager n) : Option (BufferPoolManager n) :=
  b.latch.rLock.map fun l => { b with latch := l }

/-- `latch_.r_unlock()`. -/
def rUnlock (b : BufferPoolManager n) : BufferPoolManager n := { b with latch := b.latch.rUnlock }

/-- The page in a frame is changed. -/
def setPage (b : BufferPoolManager n) (frameId : Fin n) (p : Page) : BufferPoolManager n :=
  { b with pages := Function.update b.pages frameId p }

/-- `mapping_.insert`, which leaves an entry alone that is already there. -/
def insertMapping (b : BufferPoolManager n) (pageId : ℤ) (frameId : Fin n) : BufferPoolManager n :=
  match b.mapping pageId with
  | some _ => b
  | none => { b with mapping := Function.update b.mapping pageId (some frameId) }

/-- `mapping_.erase`. -/
def eraseMapping (b : BufferPoolManager n) (pageId : ℤ) : BufferPoolManager n :=
  { b with mapping := Function.update b.mapping pageId none }

/-- `evict_page`. A write that fails is ignored. -/
def evictPage (b : BufferPoolManager n) (pageId : ℤ) (frameId : Fin n) :
    Option (BufferPoolManager n) := do
  let p ← (b.pages frameId).wLock
  let b ← (b.setPage frameId p).wLock
  match b.mapping pageId with
  | none => some (b.setPage frameId p.wUnlock).wUnlock
  | some _ =>
    let p := p.setPageId invalidPageId
    let b := (b.setPage frameId p).eraseMapping pageId
    let b := { b with freeList := b.freeList ++ [frameId] }.wUnlock
    let b := if p.isDirty then { b with disk := (b.disk.writePage pageId p.data).2 } else b
    some (b.setPage frameId p.wUnlock)

/-- The loop in `alloc_page` and `get_page` that waits for a free frame, for at most the given number
of victims. The latch is held before and after. -/
def waitForFrame [NeZero n] : ℕ → BufferPoolManager n → Option (BufferPoolManager n)
  | 0, _ => none
  | k + 1, b =>
    if b.freeList ≠ [] then some b
    else do
      let b := b.wUnlock
      let (frameId, replacer) ← b.replacer.victim
      let b ← { b with replacer := replacer }.evictPage (b.pages frameId).pageId frameId
      let b ← b.wLock
      waitForFrame k b

/-- `alloc_page`. There are at most `n` victims before the replacer is empty. -/
def allocPage [NeZero n] (b : BufferPoolManager n) (flag : UInt8) :
    Option (Fin n × BufferPoolManager n) := do
  let (pageId, disk) ← b.disk.allocPage flag
  let b ← { b with disk := disk }.wLock
  let b ← waitForFrame (n + 1) b
  match b.freeList with
  | [] => none
  | frameId :: rest =>
    let b := ({ b with freeList := rest }.insertMapping pageId frameId).wUnlock
    let p ← (b.pages frameId).wLock
    some (frameId, b.setPage frameId (p.onAlloc pageId).wUnlock)

/-- `new_page`. -/
def newPage [NeZero n] (b : BufferPoolManager n) : Option (Fin n × BufferPoolManager n) :=
  b.allocPage statusExist

/-- `new_tmp_page`. The page in the frame is marked as any other; only the page on the disk says that it
is temporary. -/
def newTmpPage [NeZero n] (b : BufferPoolManager n) : Option (Fin n × BufferPoolManager n) :=
  b.allocPage statusTmp

/-- `unpin_page`. -/
def unpinPage (b : BufferPoolManager n) (pageId : ℤ) (dirty : Bool) :
    Option (BufferPoolManager n) := do
  let b ← b.wLock
  match b.mapping pageId with
  | none => some b.wUnlock
  | some frameId =>
    let p ← (b.pages frameId).wLock
    let p := if dirty then p.setIsDirty dirty else p
    let p := p.decreasePinCount
    let b := b.setPage frameId p.wUnlock
    if 0 < p.pinCount then some b.wUnlock
    else
      let b := if p.pinCount = 0 then { b with replacer := b.replacer.unpin frameId } else b
      some b.wUnlock

/-- `flush_page`. -/
def flushPage (b : BufferPoolManager n) (pageId : ℤ) : Option (Bool × BufferPoolManager n) := do
  let b ← b.rLock
  let b := b.rUnlock
  match b.mapping pageId with
  | none => some (false, b)
  | some frameId =>
    let p ← (b.pages frameId).wLock
    let (good, disk) := b.disk.writePage pageId p.data
    let b := { b with disk := disk }
    if good then some (true, b.setPage frameId (p.setIsDirty false).wUnlock)
    else some (false, b.setPage frameId p.wUnlock)

/-- One round of the loop of `flush_all`. -/
def flushItem (st : Bool × BufferPoolManager n) (pageId : ℤ) :
    Option (Bool × BufferPoolManager n) := do
  let (good, b) ← st.2.flushPage pageId
  some (st.1 && good, b)

/-- `flush_all`, where the page ids in `mapping_` come in the given order. -/
def flushAll (b : BufferPoolManager n) (order : List ℤ) : Option (Bool × BufferPoolManager n) := do
  let b ← b.rLock
  let (ok, b) ← order.foldlM flushItem (true, b)
  some (ok, b.rUnlock)

/-- `get_page`. It returns `nullptr` with the latch still held when the page cannot be read. -/
def getPage [NeZero n] (b : BufferPoolManager n) (pageId : ℤ) :
    Option (Option (Fin n) × BufferPoolManager n) :=
  if pageId ≤ invalidPageId then some (none, b)
  else do
    let b ← b.wLock
    match b.mapping pageId with
    | some frameId =>
      let b := b.setPage frameId (b.pages frameId).addPinCount
      let b := { b with replacer := b.replacer.pin frameId }
      some (some frameId, b.wUnlock)
    | none =>
      let b ← waitForFrame (n + 1) b
      match b.freeList with
      | [] => none
      | frameId :: rest =>
        let (good, data, disk) := b.disk.readPage pageId (b.pages frameId).data
        let b := { b with disk := disk }.setPage frameId { b.pages frameId with data := data }
        if ¬ good then some (none, b)
        else if data statusOffset ≠ statusExist then some (none, b.wUnlock)
        else
          let p ← (b.pages frameId).wLock
          let b := (b.setPage frameId (p.onLoad pageId).wUnlock).insertMapping pageId frameId
          some (some frameId, { b with freeList := rest }.wUnlock)

/-- `delete_page`. The frame is put into the free list, but it is not taken out of the replacer. -/
def deletePage (b : BufferPoolManager n) (pageId : ℤ) : Option (Bool × BufferPoolManager n) := do
  let b ← b.wLock
  match b.mapping pageId with
  | none =>
    let b := b.wUnlock
    some (true, { b with disk := (b.disk.freePage pageId).2 })
  | some frameId =>
    if (b.pages frameId).pinCount ≠ 0 then some (false, b.wUnlock)
    else
      let p ← (b.pages frameId).wLock
      let b := b.setPage frameId (p.setPageId invalidPageId).wUnlock
      let b := { b with freeList := b.freeList ++ [frameId] }.eraseMapping pageId
      let b := b.wUnlock
      some (true, { b with disk := (b.disk.freePage pageId).2 })

end BufferPoolManager

end Dawn
