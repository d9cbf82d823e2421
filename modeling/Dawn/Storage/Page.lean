import Dawn.Util.Config
import Dawn.Util.RwLatch

/-!
# Pages

`Page` of `src/include/storage/page/page.h`: the bookkeeping of one frame of the buffer pool and
the bytes of the page it holds. The common header keeps the status, the LSN, and the page id; the
last two are also members of the class, and the setters write both.
-/

namespace Dawn

/-- `Page`. Offsets `0` to `4095` of `data` are the page's bytes. -/
structure Page where
  /-- `page_id_`. -/
  pageId : ℤ
  /-- `pin_count_`. -/
  pinCount : ℤ
  /-- `is_dirty_`. -/
  isDirty : Bool
  /-- `lsn_`. -/
  lsn : ℤ
  /-- `latch_`. -/
  latch : Latch
  /-- `data_`. -/
  data : Bytes

namespace Page

/-- `Page()`: the empty page that a frame starts with, its `PAGE_SIZE` bytes zeroed. The
constructor leaves `lsn_` and what lies beyond the buffer unset. -/
def new (lsn : ℤ) (heap : Bytes) : Page :=
  ⟨invalidPageId, 0, false, lsn, Latch.free, heap.memset 0 0 pageSize⟩

/-- `w_lock`. -/
def wLock (p : Page) : Option Page := p.latch.wLock.map fun l => { p with latch := l }

/-- `w_unlock`. -/
def wUnlock (p : Page) : Page := { p with latch := p.latch.wUnlock }

/-- `add_pin_count`. -/
def addPinCount (p : Page) : Page := { p with pinCount := p.pinCount + 1 }

/-- `decrease_pin_count`. -/
def decreasePinCount (p : Page) : Page := { p with pinCount := p.pinCount - 1 }

/-- `set_pin_count_zero`. -/
def setPinCountZero (p : Page) : Page := { p with pinCount := 0 }

/-- `set_is_dirty`. -/
def setIsDirty (p : Page) (isDirty : Bool) : Page := { p with isDirty := isDirty }

/-- `set_page_id`. -/
def setPageId (p : Page) (pageId : ℤ) : Page :=
  { p with data := p.data.setI32 pageIdOffset pageId, pageId := pageId }

/-- `set_lsn`. -/
def setLsn (p : Page) (lsn : ℤ) : Page :=
  { p with data := p.data.setI32 lsnOffset lsn, lsn := lsn }

/-- `set_status`. -/
def setStatus (p : Page) : Page :=
  { p with data := p.data.memset statusOffset statusExist 1 }

/-- The status byte of the common header. -/
def status (p : Page) : UInt8 := p.data statusOffset

/-- What `BufferPoolManager::alloc_page` does to the frame that it hands out for a new page. The
page's bytes outside the header fields are whatever the frame held before. -/
def onAlloc (p : Page) (pageId : ℤ) : Page :=
  ((((((p.setIsDirty true).setPinCountZero).addPinCount).setLsn (-1)).setPageId pageId).setStatus)

/-- What `BufferPoolManager::get_page` does to a frame after it has read a page into it. -/
def onLoad (p : Page) (pageId : ℤ) : Page :=
  (((((p.setIsDirty false).setPageId pageId).setLsn (-1)).setPinCountZero).addPinCount)

/-- A byte that is not in the status, LSN, and page id fields of the common header. -/
def IsBody (i : ℤ) : Prop := 9 ≤ i ∧ i < pageSize

theorem onAlloc_data_of_body (p : Page) (pid : ℤ) {i : ℤ} (h : 9 ≤ i) : (p.onAlloc pid).data i = p.data i := by
  simp only [onAlloc, setStatus, setPageId, setLsn, setIsDirty, setPinCountZero, addPinCount,
    statusOffset, pageIdOffset, lsnOffset, Bytes.memset]
  rw [Bytes.memcpy_of_notMem (by omega), Bytes.setI32_of_notMem (by omega),
    Bytes.setI32_of_notMem (by omega)]

@[simp] theorem onAlloc_pageId (p : Page) (pid : ℤ) : (p.onAlloc pid).pageId = pid := rfl

@[simp] theorem onAlloc_pinCount (p : Page) (pid : ℤ) : (p.onAlloc pid).pinCount = 1 := rfl

@[simp] theorem onAlloc_isDirty (p : Page) (pid : ℤ) : (p.onAlloc pid).isDirty = true := rfl

@[simp] theorem onAlloc_latch (p : Page) (pid : ℤ) : (p.onAlloc pid).latch = p.latch := rfl

@[simp] theorem onAlloc_status (p : Page) (pid : ℤ) : (p.onAlloc pid).status = statusExist :=
  rfl

theorem i32_onAlloc (p : Page) {pid : ℤ} (h : IsI32 pid) : (p.onAlloc pid).data.i32 pageIdOffset = pid := by
  simp only [onAlloc, setStatus, setPageId, setLsn, setIsDirty, setPinCountZero, addPinCount,
    statusOffset, pageIdOffset, lsnOffset, Bytes.memset]
  rw [Bytes.i32_memcpy_of_disjoint (by omega), Bytes.i32_setI32 h]

theorem onLoad_data_of_notMem (p : Page) (pid : ℤ) {i : ℤ} (h : i < 1 ∨ 9 ≤ i) : (p.onLoad pid).data i = p.data i := by
  simp only [onLoad, setPageId, setLsn, setIsDirty, setPinCountZero, addPinCount, pageIdOffset, lsnOffset]
  rw [Bytes.setI32_of_notMem (by omega), Bytes.setI32_of_notMem (by omega)]

theorem i32_onLoad (p : Page) {pid : ℤ} (h : IsI32 pid) : (p.onLoad pid).data.i32 pageIdOffset = pid := by
  simp only [onLoad, setPageId, setLsn, setIsDirty, setPinCountZero, addPinCount, pageIdOffset, lsnOffset]
  rw [Bytes.i32_setI32_of_disjoint (by omega), Bytes.i32_setI32 h]

@[simp] theorem onLoad_pageId (p : Page) (pid : ℤ) : (p.onLoad pid).pageId = pid := rfl

@[simp] theorem onLoad_pinCount (p : Page) (pid : ℤ) : (p.onLoad pid).pinCount = 1 := rfl

@[simp] theorem onLoad_isDirty (p : Page) (pid : ℤ) : (p.onLoad pid).isDirty = false := rfl

@[simp] theorem onLoad_latch (p : Page) (pid : ℤ) : (p.onLoad pid).latch = p.latch := rfl

end Page

end Dawn
