import Dawn.Buffer.PoolFailures

/-!
# The frames over whole runs

One thread calls the pool in any order: it may give pages back that it does not hold, delete pages whose frames
are in the replacer, ask for pages that do not exist, and write to any frame. Every frame is still free or holds
one page (`frames_conserved`). A page that cannot be read leaves the latch of the pool locked, and from there on
every call that would change the frames waits forever.
-/

namespace Dawn.BufferPoolManager

variable {n : ℕ} {b b' c : BufferPoolManager n} {id : ℤ} {f : Fin n}

/-! ## The runs -/

/-- What one thread does. -/
inductive FrameOp (n : ℕ) where
  | newPage
  | newTmpPage
  /-- A call of `get_page` whose disk calls fail as given. -/
  | getPage (id : ℤ) (faults : List Bool)
  | unpinPage (id : ℤ) (dirty : Bool)
  | flushPage (id : ℤ)
  | flushAll (order : List ℤ)
  | deletePage (id : ℤ)
  | write (f : Fin n) (data : Bytes)

section

variable [NeZero n]

/-- The step of a call that returns. New pages are allocated on the disk, and writes succeed. -/
inductive FrameStep : BufferPoolManager n → FrameOp n → BufferPoolManager n → Prop
  | newPage {b b' : BufferPoolManager n} {f : Fin n} (h : b.newPage = some (f, b'))
    (hd : b'.disk.dbFail = false) : FrameStep b .newPage b'
  | newTmpPage {b b' : BufferPoolManager n} {f : Fin n} (h : b.newTmpPage = some (f, b'))
    (hd : b'.disk.dbFail = false) : FrameStep b .newTmpPage b'
  | getPage {b b' : BufferPoolManager n} {id : ℤ} {faults : List Bool} {res : Option (Fin n)}
    (h : (b.withFaults faults).getPage id = some (res, b')) :
    FrameStep b (.getPage id faults) (b'.withFaults [])
  | unpinPage {b b' : BufferPoolManager n} {id : ℤ} {dirty : Bool} (h : b.unpinPage id dirty = some b') :
    FrameStep b (.unpinPage id dirty) b'
  | flushPage {b b' : BufferPoolManager n} {id : ℤ} {ok : Bool} (h : b.flushPage id = some (ok, b')) :
    FrameStep b (.flushPage id) b'
  | flushAll {b b' : BufferPoolManager n} {order : List ℤ} {ok : Bool}
    (horder : ∀ id, id ∈ order ↔ b.mapping id ≠ none) (h : b.flushAll order = some (ok, b')) :
    FrameStep b (.flushAll order) b'
  | deletePage {b b' : BufferPoolManager n} {id : ℤ} {ok : Bool} (h : b.deletePage id = some (ok, b')) :
    FrameStep b (.deletePage id) b'
  | write {b : BufferPoolManager n} {f : Fin n} {data : Bytes} :
    FrameStep b (.write f data) (b.setPage f { b.pages f with data := data })

end

/-! ## The latch stays locked -/

theorem allocPage_latch [NeZero n] {flag : UInt8} (h : b.allocPage flag = some (f, b')) : b.latch = Latch.free := by
  simp only [allocPage, bind_eq_some] at h
  obtain ⟨_, -, _, hl, -⟩ := h
  exact (eq_of_wLock hl).1

theorem unpinPage_latch {dirty : Bool} (h : b.unpinPage id dirty = some b') : b.latch = Latch.free := by
  obtain ⟨_, hl, -⟩ := bind_eq_some.mp h
  exact (eq_of_wLock hl).1

theorem deletePage_latch {ok : Bool} (h : b.deletePage id = some (ok, b')) : b.latch = Latch.free := by
  obtain ⟨_, hl, -⟩ := bind_eq_some.mp h
  exact (eq_of_wLock hl).1

theorem rLock_of_locked (h : b.latch = ⟨true, 0⟩) : b.rLock = none := by
  unfold rLock
  rw [h]
  rfl

theorem getPage_of_locked [NeZero n] (hl : b.latch = ⟨true, 0⟩) {res : Option (Fin n)}
    (h : b.getPage id = some (res, b')) : id < 0 ∧ res = none ∧ b' = b := by
  unfold getPage at h
  split_ifs at h with hid
  · obtain ⟨rfl, rfl⟩ := some_mk_inj h
    exact ⟨by simp only [invalidPageId] at hid; omega, rfl, rfl⟩
  · obtain ⟨_, hw, -⟩ := bind_eq_some.mp h
    exact absurd (hl.symm.trans (eq_of_wLock hw).1) (by decide)

/-! ## One call -/

theorem Conserved.withFaults (h : Conserved b) (faults : List Bool) : Conserved (b.withFaults faults) :=
  ⟨h.frames, h.pageId, h.alloced⟩

section

variable [NeZero n]

theorem Stuck.conserved (hs : Stuck b id b') (h : Conserved b) : Conserved b' := by
  obtain ⟨hw, hfree, -, -, -⟩ := hs
  have hc := hw.conserved h
  refine Conserved.setPage (hc.setDisk (fun j g hj => ?_) _ _) (Or.inr (by simp [locked, hfree]))
  rw [DiskManager.allocedPgid_readPage]
  exact hc.alloced hj

/-- A call that returns `nullptr` brings no page into the pool, and takes no free frame. -/
structure NothingTaken (b b' : BufferPoolManager n) : Prop where
  mapping : ∀ id f, b'.mapping id = some f → b.mapping id = some f
  free : ∀ f ∈ b.freeList, f ∈ b'.freeList

theorem Fetched.nothingTaken (hf : Fetched b id none b') : NothingTaken b b' := by
  cases hf with
  | invalid => exact ⟨fun _ _ hm => hm, fun _ hf => hf⟩
  | notExist hw hfree => exact ⟨fun _ _ hm => hw.mapping_of_some hm, fun _ hf => hw.mem_free hf⟩

theorem Stuck.nothingTaken (hs : Stuck b id b') : NothingTaken b b' := by
  obtain ⟨hw, -, -, -, -⟩ := hs
  exact ⟨fun _ _ hm => hw.mapping_of_some hm, fun _ hf => hw.mem_free hf⟩

end

/-! ## Whole runs -/

/-- What a run reaches: the frames are in order, and no latch is held or the one of the pool for good. -/
def Reached (b : BufferPoolManager n) : Prop :=
  FrameInv b ∨ (Conserved b ∧ b.latch = ⟨true, 0⟩)

theorem Reached.conserved (h : Reached b) : Conserved b := by
  rcases h with h | ⟨h, -⟩
  · exact h.toConserved
  · exact h

section

variable [NeZero n]

theorem FrameInv.step (h : FrameInv b) {op : FrameOp n} (hs : FrameStep b op b') : Reached b' := by
  cases hs with
  | newPage hcall hd | newTmpPage hcall hd =>
    obtain ⟨_, _, _, _, _, -, -, -, -, -, -, -, -, hinv⟩ := h.allocPage_cases hcall hd
    exact Or.inl hinv
  | @getPage _ id faults res hcall =>
    rcases h.getPage_cases hcall with ⟨c, left, hf, rfl⟩ | ⟨-, hstuck⟩
    · have hc := hf.frameInv h
      refine Or.inl ?_
      rw [show (c.withFaults left).withFaults [] = c.withFaults [] from rfl, withFaults_nil hc.disk_faults]
      exact hc
    · have hc := hstuck.conserved (h.toConserved.withFaults faults)
      exact Or.inr ⟨hc.withFaults [], hstuck.latch⟩
  | unpinPage hcall =>
    rcases h.unpinPage_cases hcall with rfl | ⟨f, hm, rfl⟩
    · exact Or.inl h
    · exact Or.inl (h.unpinned f _)
  | flushPage hcall =>
    rw [h.flushPage_cases hcall]
    exact Or.inl (h.flushedItem _)
  | flushAll horder hcall =>
    obtain rfl := h.flushAll_cases horder hcall
    exact Or.inl (h.foldl_flushedItem _)
  | deletePage hcall => exact Or.inl (h.deletePage hcall)
  | @write f data =>
    exact Or.inl (h.setPage (p := { b.pages f with data := data }) (h.page_free f) (Or.inl rfl) b.replacer)

theorem FrameStep.cases_of_locked (hl : b.latch = ⟨true, 0⟩) {op : FrameOp n} (hs : FrameStep b op b') :
    (∃ id faults, op = .getPage id faults ∧ id < 0 ∧ b' = b.withFaults []) ∨
      ∃ f data, op = .write f data ∧ b' = b.setPage f { b.pages f with data := data } := by
  have hne : b.latch ≠ Latch.free := by
    rw [hl]
    decide
  cases hs with
  | newPage hcall | newTmpPage hcall => exact absurd (allocPage_latch hcall) hne
  | getPage hcall =>
    obtain ⟨hid, -, rfl⟩ := getPage_of_locked (by exact hl) hcall
    exact Or.inl ⟨_, _, rfl, hid, rfl⟩
  | unpinPage hcall => exact absurd (unpinPage_latch hcall) hne
  | flushPage hcall => simp [BufferPoolManager.flushPage, rLock_of_locked hl] at hcall
  | flushAll _ hcall => simp [BufferPoolManager.flushAll, rLock_of_locked hl] at hcall
  | deletePage hcall => exact absurd (deletePage_latch hcall) hne
  | write => exact Or.inr ⟨_, _, rfl, rfl⟩

theorem Conserved.step_of_locked (h : Conserved b) (hl : b.latch = ⟨true, 0⟩) {op : FrameOp n}
    (hs : FrameStep b op b') : Conserved b' ∧ b'.latch = ⟨true, 0⟩ := by
  rcases hs.cases_of_locked hl with ⟨id, faults, -, -, rfl⟩ | ⟨f, data, -, rfl⟩
  · exact ⟨h.withFaults [], hl⟩
  · exact ⟨h.setPage (p := { b.pages f with data := data }) (Or.inl rfl), hl⟩

theorem Reached.step (h : Reached b) {op : FrameOp n} (hs : FrameStep b op b') : Reached b' := by
  rcases h with h | ⟨h, hl⟩
  · exact h.step hs
  · exact Or.inr (h.step_of_locked hl hs)

theorem frameInv_new {d : DiskManager} {m : ℕ} (hd : d.Healthy m) (lsn : Fin n → ℤ)
    (heap : Fin n → Bytes) : FrameInv (new d lsn heap) :=
  (poolInv_new hd lsn heap).frameInv

theorem Reached.nothingTaken (h : Reached b) {faults : List Bool}
    (hcall : (b.withFaults faults).getPage id = some (none, b')) : NothingTaken b b' := by
  rcases h with h | ⟨-, hl⟩
  · rcases h.getPage_cases hcall with ⟨c, left, hf, rfl⟩ | ⟨-, hstuck⟩
    · exact ⟨hf.nothingTaken.mapping, hf.nothingTaken.free⟩
    · exact ⟨hstuck.nothingTaken.mapping, hstuck.nothingTaken.free⟩
  · obtain ⟨-, -, rfl⟩ := getPage_of_locked (by exact hl) hcall
    exact ⟨fun _ _ hm => hm, fun _ hf => hf⟩

/-- Whatever one thread calls, every frame is once in the free list or holds exactly one page, which reports its
id and is allocated on the disk, and a `get_page` that returns `nullptr` takes no frame. -/
theorem frames_conserved {d : DiskManager} {m : ℕ} (hd : d.Healthy m) {lsn : Fin n → ℤ}
    {heap : Fin n → Bytes} {ops : List (FrameOp n)} (ht : Trace FrameStep (new d lsn heap) ops b) :
    (∀ f, (b.freeList.count f = 1 ∧ ∀ id, b.mapping id ≠ some f) ∨
      (b.freeList.count f = 0 ∧ ∃! id, b.mapping id = some f)) ∧
    (∀ id f, b.mapping id = some f → (b.pages f).pageId = id ∧ id ∈ b.disk.allocedPgid) ∧
    ∀ id faults b', (b.withFaults faults).getPage id = some (none, b') → NothingTaken b b' := by
  have h : Reached b := ht.invariant (P := Reached) (fun _ _ _ hi hs => hi.step hs)
    (Or.inl (frameInv_new hd lsn heap))
  exact ⟨h.conserved.frames.cases, fun id f hm => ⟨h.conserved.pageId hm, h.conserved.alloced hm⟩,
    fun id faults b' hcall => h.nothingTaken hcall⟩

end

/-- A page is written and evicted for another one, in a pool of one frame. -/
theorem frames_conserved_newPage : ∃ d lsn heap a data b,
    DiskManager.create (fun _ => none) [100] DiskManager.Uninit.zero [] = some d ∧
    Trace FrameStep (new d lsn heap) [.newPage, .write 0 data, .unpinPage a true, .newPage]
      (b : BufferPoolManager 1) ∧
    b.mapping a = none ∧ b.freeList.count 0 = 0 ∧ ∃! id, b.mapping id = some 0 := by
  obtain ⟨d, m, a, b₁, b₃, b₄, hc, hd, h₁, hok₁, -, h₃, -, -, h₄, hok₄, hnone, hinv⟩ := exists_eviction id
  have ht : Trace FrameStep (new d (fun _ => 0) fun _ _ => 0)
      [.newPage, .write 0 (b₁.pages 0).data, .unpinPage a true, .newPage] b₄ :=
    .cons (.newPage h₁ hok₁) (.cons .write (.cons (.unpinPage h₃) (.single (.newPage h₄ hok₄))))
  have hused := hinv.held_mapped (Multiset.mem_cons_self _ 0)
  exact ⟨d, _, _, a, _, b₄, hc, ht, hnone,
    ((frames_conserved hd ht).1 0).resolve_left fun hfree => hfree.2 _ hused⟩

end Dawn.BufferPoolManager
