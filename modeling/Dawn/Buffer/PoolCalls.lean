import Dawn.Buffer.BufferPoolManager
import Dawn.Lib.Returns

/-!
# The buffer pool between two calls

Between two calls of one thread no latch is held, and the functions of the buffer pool only change the
bookkeeping. What each of them does then is stated here without the latches: a page is evicted, given a
frame, loaded, pinned, unpinned, or flushed.
-/

namespace Dawn.BufferPoolManager

variable {n : ℕ}

section Latches

variable {b c : BufferPoolManager n} {id : ℤ} {f g : Fin n}

/-- The pool while its latch is held by a writer. -/
def locked (b : BufferPoolManager n) : BufferPoolManager n := { b with latch := ⟨true, 0⟩ }

theorem wLock_eq (h : b.latch = Latch.free) : b.wLock = some b.locked := by
  unfold wLock locked
  rw [h, Latch.wLock_free]
  rfl

theorem eq_of_wLock (h : b.wLock = some c) : b.latch = Latch.free ∧ c = b.locked := by
  obtain ⟨l, hl, rfl⟩ := Option.map_eq_some_iff.mp h
  obtain ⟨hfree, rfl⟩ := Latch.eq_of_wLock hl
  exact ⟨hfree, rfl⟩

theorem wUnlock_locked (h : b.latch = Latch.free) : b.locked.wUnlock = b := by
  unfold wUnlock locked
  rw [← h.trans Latch.wUnlock_wLocked.symm]

/-- A page while its latch is held by a writer. -/
def lockedPage (p : Page) : Page := { p with latch := ⟨true, 0⟩ }

theorem page_wLock_eq {p : Page} (h : p.latch = Latch.free) : p.wLock = some (lockedPage p) := by
  unfold Page.wLock lockedPage
  rw [h, Latch.wLock_free]
  rfl

theorem eq_of_page_wLock {p q : Page} (h : p.wLock = some q) : p.latch = Latch.free ∧ q = lockedPage p := by
  obtain ⟨l, hl, rfl⟩ := Option.map_eq_some_iff.mp h
  obtain ⟨hfree, rfl⟩ := Latch.eq_of_wLock hl
  exact ⟨hfree, rfl⟩

/-- The pool after a page is evicted from its frame. -/
def evicted (b : BufferPoolManager n) (pageId : ℤ) (frameId : Fin n) : BufferPoolManager n :=
  let p := (b.pages frameId).setPageId invalidPageId
  { b with
    pages := Function.update b.pages frameId p
    mapping := Function.update b.mapping pageId none
    freeList := b.freeList ++ [frameId]
    disk := if p.isDirty then (b.disk.writePage pageId p.data).2 else b.disk }

theorem evictPage_eq (hl : b.latch = Latch.free) (hp : (b.pages f).latch = Latch.free)
    (hm : b.mapping id = some g) : b.evictPage id f = some (b.evicted id f) := by
  have hset : (b.setPage f (lockedPage (b.pages f))).latch = Latch.free := hl
  unfold evictPage
  rw [page_wLock_eq hp]
  simp only [some_bind, wLock_eq hset]
  have hm' : (b.setPage f (lockedPage (b.pages f))).locked.mapping id = some g := hm
  rw [hm']
  simp only [evicted, setPage, locked, eraseMapping, wUnlock, lockedPage, Page.wUnlock, Page.setPageId,
    Latch.wUnlock_wLocked]
  split_ifs with hd <;> simp [hd, hl, hp]

theorem insertMapping_of_none (h : b.mapping id = none) : b.insertMapping id f =
    { b with mapping := Function.update b.mapping id (some f) } := by
  unfold insertMapping
  rw [h]

end Latches
section Wait

variable [NeZero n] {b c : BufferPoolManager n} {id : ℤ} {f g : Fin n} {rest : List (Fin n)}
  {r : ClockReplacer n}

theorem waitForFrame_of_ne (h : b.freeList ≠ []) (k : ℕ) : waitForFrame (k + 1) b = some b := by
  unfold waitForFrame
  rw [if_pos h]

theorem waitForFrame_of_victim (hl : b.latch = Latch.free) (hfree : b.freeList = [])
    (hv : b.replacer.victim = some (f, r)) (hp : (b.pages f).latch = Latch.free)
    (hm : b.mapping (b.pages f).pageId = some g) (k : ℕ) : waitForFrame (k + 2) b.locked =
      some ({ b with replacer := r }.evicted (b.pages f).pageId f).locked := by
  unfold waitForFrame
  have hnil : ¬ b.locked.freeList ≠ [] := by simpa [locked] using hfree
  rw [if_neg hnil, wUnlock_locked hl]
  simp only [hv, Option.bind_eq_bind, Option.bind_some]
  rw [evictPage_eq (by exact hl) (by exact hp) (by exact hm), Option.bind_some,
    wLock_eq (by exact hl), Option.bind_some]
  exact waitForFrame_of_ne (by simp [locked, evicted]) k

theorem waitForFrame_of_no_victim (hl : b.latch = Latch.free) (hfree : b.freeList = [])
    (hv : b.replacer.victim = none) (k : ℕ) : waitForFrame (k + 1) b.locked = none := by
  unfold waitForFrame
  have hnil : ¬ b.locked.freeList ≠ [] := by simpa [locked] using hfree
  rw [if_neg hnil, wUnlock_locked hl]
  simp only [hv]
  rfl

/-- The pool after a free frame is given to a new page. -/
def given (b : BufferPoolManager n) (pageId : ℤ) (frameId : Fin n) (rest : List (Fin n)) :
    BufferPoolManager n :=
  { b with
    freeList := rest
    mapping := Function.update b.mapping pageId (some frameId)
    pages := Function.update b.pages frameId ((b.pages frameId).onAlloc pageId) }

theorem allocPage_eq {flag : UInt8} {d : DiskManager} (hl : b.latch = Latch.free)
    (ha : b.disk.allocPage flag = some (id, d))
    (hw : waitForFrame (n + 1) ({ b with disk := d } : BufferPoolManager n).locked = some c.locked)
    (hc : c.latch = Latch.free) (hfree : c.freeList = f :: rest) (hm : c.mapping id = none)
    (hp : (c.pages f).latch = Latch.free) : b.allocPage flag = some (f, c.given id f rest) := by
  unfold allocPage
  simp only [ha, Option.bind_eq_bind, Option.bind_some]
  rw [wLock_eq (by exact hl)]
  simp only [Option.bind_some, hw]
  have hfree' : c.locked.freeList = f :: rest := hfree
  have hp' : (c.locked.pages f).latch = Latch.free := hp
  rw [hfree']
  simp only
  rw [insertMapping_of_none (by exact hm)]
  simp only [wUnlock, setPage, page_wLock_eq hp', Option.bind_some]
  simp [given, locked, lockedPage, Page.wUnlock, Page.onAlloc, Page.setStatus, Page.setPageId,
    Page.setLsn, Page.addPinCount, Page.setPinCountZero, Page.setIsDirty, hc, hp]

theorem exists_allocPage {flag : UInt8} {d : DiskManager} (hl : b.latch = Latch.free)
    (ha : b.disk.allocPage flag = some (id, d))
    (hw : waitForFrame (n + 1) ({ b with disk := d } : BufferPoolManager n).locked = some c.locked)
    (hfree : c.freeList = f :: rest) (hp : (c.pages f).latch = Latch.free) :
    ∃ b', b.allocPage flag = some (f, b') := by
  unfold allocPage
  simp only [ha, Option.bind_eq_bind, Option.bind_some]
  rw [wLock_eq (by exact hl)]
  simp only [Option.bind_some, hw]
  rw [show c.locked.freeList = f :: rest from hfree]
  refine ⟨_, Option.bind_eq_some_iff.mpr ⟨_, page_wLock_eq ?_, rfl⟩⟩
  unfold insertMapping
  split <;> exact hp

theorem allocPage_of_no_frame {flag : UInt8} {d : DiskManager} (hl : b.latch = Latch.free)
    (ha : b.disk.allocPage flag = some (id, d))
    (hw : waitForFrame (n + 1) ({ b with disk := d } : BufferPoolManager n).locked = none) :
    b.allocPage flag = none := by
  unfold allocPage
  simp only [ha, Option.bind_eq_bind, Option.bind_some]
  rw [wLock_eq (by exact hl)]
  simp only [Option.bind_some, hw, Option.bind_none]

/-- The pool after a page that is in a frame is pinned. -/
def pinned (b : BufferPoolManager n) (frameId : Fin n) : BufferPoolManager n :=
  { b with
    pages := Function.update b.pages frameId (b.pages frameId).addPinCount
    replacer := b.replacer.pin frameId }

theorem getPage_of_mapped (hl : b.latch = Latch.free) (h0 : 0 ≤ id) (hm : b.mapping id = some f) :
    b.getPage id = some (some f, b.pinned f) := by
  unfold getPage
  rw [if_neg (by simp only [invalidPageId]; omega), wLock_eq hl]
  simp only [some_bind]
  have hm' : b.locked.mapping id = some f := hm
  rw [hm']
  simp [locked, wUnlock, setPage, pinned, hl]

/-- A frame after its buffer is filled from the disk. -/
def filled (b : BufferPoolManager n) (frameId : Fin n) (data : Bytes) : BufferPoolManager n :=
  { b with pages := Function.update b.pages frameId { b.pages frameId with data := data } }

/-- The pool after a page is read into a free frame. -/
def loaded (b : BufferPoolManager n) (pageId : ℤ) (frameId : Fin n) (rest : List (Fin n))
    (data : Bytes) : BufferPoolManager n :=
  let p := { b.pages frameId with data := data }
  { b with
    freeList := rest
    mapping := Function.update b.mapping pageId (some frameId)
    pages := Function.update b.pages frameId (p.onLoad pageId) }

theorem getPage_of_no_frame (hl : b.latch = Latch.free) (h0 : 0 ≤ id) (hm : b.mapping id = none)
    (hw : waitForFrame (n + 1) b.locked = none) : b.getPage id = none := by
  unfold getPage
  rw [if_neg (by simp only [invalidPageId]; omega), wLock_eq hl]
  simp only [Option.bind_eq_bind, Option.bind_some]
  rw [show b.locked.mapping id = none from hm]
  simp only [hw, Option.bind_none]

section Load

variable {good : Bool} {data : Bytes} {d : DiskManager} (hl : b.latch = Latch.free) (h0 : 0 ≤ id)
  (hm : b.mapping id = none) (hw : waitForFrame (n + 1) b.locked = some c.locked)
  (hfree : c.freeList = f :: rest)

include hl h0 hm hw hfree

/-- What `get_page` does with a page that is not in the pool is decided by what the disk returns. A page
that cannot be read leaves the latch held. -/
theorem getPage_of_read (hc : c.latch = Latch.free) (hm' : c.mapping id = none) (hp : (c.pages f).latch = Latch.free)
    (hread : c.disk.readPage id (c.pages f).data = (good, data, d)) : b.getPage id = some (
      if good = false then (none, ({ c with disk := d } : BufferPoolManager n).locked.filled f data)
      else if data 0 ≠ statusExist then (none, ({ c with disk := d } : BufferPoolManager n).filled f data)
      else (some f, ({ c with disk := d } : BufferPoolManager n).loaded id f rest data)) := by
  unfold getPage
  rw [if_neg (by simp only [invalidPageId]; omega), wLock_eq hl]
  simp only [Option.bind_eq_bind, Option.bind_some]
  rw [show b.locked.mapping id = none from hm]
  simp only [hw, Option.bind_some]
  rw [show c.locked.freeList = f :: rest from hfree]
  have hread' : c.locked.disk.readPage id (c.locked.pages f).data = (good, data, d) := hread
  simp only [hread', statusOffset, setPage]
  cases good with
  | false => simp [filled, locked, hfree]
  | true =>
    by_cases hexist : data 0 = statusExist
    · simp only [hexist]
      rw [page_wLock_eq (by simpa [locked] using hp), Option.bind_some,
        insertMapping_of_none (by exact hm')]
      simp [loaded, locked, lockedPage, wUnlock, Page.wUnlock, Page.onLoad, Page.setPageId, Page.setLsn,
        Page.addPinCount, Page.setPinCountZero, Page.setIsDirty, hc, hp]
    · rw [if_neg (by simp), if_pos (by exact hexist), if_neg (by simp), if_pos hexist]
      simp [filled, locked, wUnlock, hc, hfree]

end Load

end Wait

section Calls

variable {b : BufferPoolManager n} {id : ℤ} {f : Fin n}

/-- The pool after a page is unpinned. -/
def unpinned (b : BufferPoolManager n) (frameId : Fin n) (dirty : Bool) : BufferPoolManager n :=
  let p := { b.pages frameId with
    isDirty := (b.pages frameId).isDirty || dirty
    pinCount := (b.pages frameId).pinCount - 1 }
  { b with
    pages := Function.update b.pages frameId p
    replacer := if p.pinCount = 0 then b.replacer.unpin frameId else b.replacer }

theorem unpinPage_eq (hl : b.latch = Latch.free) (hm : b.mapping id = some f)
    (hp : (b.pages f).latch = Latch.free) (dirty : Bool) : b.unpinPage id dirty = some (b.unpinned f dirty) := by
  unfold unpinPage
  rw [wLock_eq hl]
  simp only [Option.bind_eq_bind, Option.bind_some]
  rw [show b.locked.mapping id = some f from hm]
  simp only
  rw [page_wLock_eq (by exact hp), Option.bind_some]
  cases dirty <;>
    simp only [unpinned, locked, lockedPage, wUnlock, setPage, Page.wUnlock, Page.setIsDirty,
      Page.decreasePinCount, Latch.wUnlock_wLocked, hl, hp] <;>
    split_ifs <;> simp_all

theorem unpinPage_of_none (hl : b.latch = Latch.free) (hm : b.mapping id = none) (dirty : Bool) :
    b.unpinPage id dirty = some b := by
  unfold unpinPage
  rw [wLock_eq hl]
  simp only [some_bind]
  rw [show b.locked.mapping id = none from hm]
  simp only [wUnlock_locked hl]

/-- The pool after a page is written to the disk. -/
def flushed (b : BufferPoolManager n) (pageId : ℤ) (frameId : Fin n) : BufferPoolManager n :=
  { b with
    pages := Function.update b.pages frameId ((b.pages frameId).setIsDirty false)
    disk := (b.disk.writePage pageId (b.pages frameId).data).2 }

theorem flushPage_eq {l : Latch} (hl : b.latch.rLock = some l) (hm : b.mapping id = some f)
    (hp : (b.pages f).latch = Latch.free) (hgood : (b.disk.writePage id (b.pages f).data).1 = true) :
    b.flushPage id = some (true, b.flushed id f) := by
  unfold flushPage rLock rUnlock
  rw [hl]
  simp only [Option.map_some, some_bind, hm, page_wLock_eq hp, Latch.rUnlock_of_rLock hl]
  rw [show (b.disk.writePage id (lockedPage (b.pages f)).data).1 = true from hgood]
  simp [flushed, setPage, lockedPage, Page.wUnlock, Page.setIsDirty, hp]

theorem flushPage_of_none {l : Latch} (hl : b.latch.rLock = some l) (hm : b.mapping id = none) :
    b.flushPage id = some (false, b) := by
  unfold flushPage rLock rUnlock
  rw [hl]
  simp only [Option.map_some, some_bind, hm, Latch.rUnlock_of_rLock hl]

theorem deletePage_of_none (hl : b.latch = Latch.free) (hm : b.mapping id = none) :
    b.deletePage id = some (true, { b with disk := (b.disk.freePage id).2 }) := by
  unfold deletePage
  rw [wLock_eq hl]
  simp only [some_bind]
  rw [show b.locked.mapping id = none from hm]
  simp only [wUnlock_locked hl]

theorem deletePage_of_pinned (hl : b.latch = Latch.free) (hm : b.mapping id = some f)
    (hp : (b.pages f).pinCount ≠ 0) : b.deletePage id = some (false, b) := by
  unfold deletePage
  rw [wLock_eq hl]
  simp only [some_bind]
  rw [show b.locked.mapping id = some f from hm]
  simp only
  rw [if_pos (by exact hp), wUnlock_locked hl]

/-- The pool after a page that is not held is deleted. -/
def deleted (b : BufferPoolManager n) (pageId : ℤ) (frameId : Fin n) : BufferPoolManager n :=
  { b with
    pages := Function.update b.pages frameId ((b.pages frameId).setPageId invalidPageId)
    freeList := b.freeList ++ [frameId]
    mapping := Function.update b.mapping pageId none
    disk := (b.disk.freePage pageId).2 }

theorem deletePage_of_idle (hl : b.latch = Latch.free) (hm : b.mapping id = some f)
    (hp : (b.pages f).latch = Latch.free) (h0 : (b.pages f).pinCount = 0) :
    b.deletePage id = some (true, b.deleted id f) := by
  unfold deletePage
  rw [wLock_eq hl]
  simp only [Option.bind_eq_bind, Option.bind_some]
  rw [show b.locked.mapping id = some f from hm]
  simp only
  rw [if_neg (by exact not_not.mpr h0), page_wLock_eq (by exact hp), Option.bind_some]
  simp [deleted, eraseMapping, setPage, wUnlock, locked, lockedPage, Page.setPageId, Page.wUnlock, hl, hp]

end Calls

/-! ## A failure of the disk is not forgotten -/

section DbFail

variable {b c : BufferPoolManager n} {id : ℤ} {f : Fin n}

theorem writePage_dbFail {d : DiskManager} (h : d.dbFail = true) (data : Bytes) :
    (d.writePage id data).2.dbFail = true := by
  unfold DiskManager.writePage DiskManager.dbWrite
  split_ifs
  · dsimp only
    split <;> simp [h]
  · exact h

theorem evictPage_dbFail (he : b.evictPage id f = some c) (h : b.disk.dbFail = true) : c.disk.dbFail = true := by
  obtain ⟨p, -, he⟩ := bind_eq_some.mp he
  obtain ⟨q, hq, he⟩ := bind_eq_some.mp he
  have hdisk : q.disk = b.disk := by
    obtain ⟨l, -, rfl⟩ := Option.map_eq_some_iff.mp hq
    rfl
  split at he
  · obtain rfl := Option.some.inj he
    simpa [setPage, wUnlock, hdisk] using h
  · obtain rfl := Option.some.inj he
    simp only [setPage, wUnlock, eraseMapping, hdisk]
    split_ifs
    · exact writePage_dbFail h _
    · exact h

theorem waitForFrame_dbFail [NeZero n] {k : ℕ} (hw : waitForFrame k b = some c)
    (h : b.disk.dbFail = true) : c.disk.dbFail = true := by
  induction k generalizing b with
  | zero => simp [waitForFrame] at hw
  | succ k ih =>
    unfold waitForFrame at hw
    split_ifs at hw
    · obtain rfl := Option.some.inj hw
      exact h
    · obtain ⟨⟨f, r⟩, -, hw⟩ := bind_eq_some.mp hw
      obtain ⟨q, hq, hw⟩ := bind_eq_some.mp hw
      obtain ⟨q', hq', hw⟩ := bind_eq_some.mp hw
      obtain ⟨l, -, rfl⟩ := Option.map_eq_some_iff.mp hq'
      have hfail : q.disk.dbFail = true := evictPage_dbFail hq h
      exact ih hw hfail

theorem allocPage_dbFail [NeZero n] {flag : UInt8} {d : DiskManager}
    (ha : b.disk.allocPage flag = some (id, d)) (hd : d.dbFail = true)
    (hcall : b.allocPage flag = some (f, c)) : c.disk.dbFail = true := by
  unfold allocPage at hcall
  simp only [ha, some_bind] at hcall
  obtain ⟨q, hq, hcall⟩ := bind_eq_some.mp hcall
  obtain ⟨l, -, rfl⟩ := Option.map_eq_some_iff.mp hq
  obtain ⟨w, hw, hcall⟩ := bind_eq_some.mp hcall
  have hfail := waitForFrame_dbFail hw hd
  split at hcall
  · exact absurd hcall (by simp)
  · obtain ⟨p, -, hcall⟩ := bind_eq_some.mp hcall
    obtain ⟨-, rfl⟩ := some_mk_inj hcall
    unfold insertMapping
    split <;> exact hfail

end DbFail

end Dawn.BufferPoolManager
