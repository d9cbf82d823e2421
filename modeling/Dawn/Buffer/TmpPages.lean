import Dawn.Buffer.PoolInvariant

/-!
# Temporary pages and restarts

`new_tmp_page` writes the status byte of a temporary page to the disk, and marks the page in the frame as
any other page. A restart counts the pages whose status byte on the disk says that they exist. So a
temporary page is free after a restart as long as it was never written back, and allocated once it was,
be it by `flush_page`, by `flush_all`, or for a victim.
-/

namespace Dawn

namespace DiskManager

variable {d d' : DiskManager} {n : ℕ} {id : ℤ} {flag : UInt8} {name : FileName}

theorem Healthy.image_allocPage (h : Healthy d n) (ha : d.allocPage flag = some (id, d'))
    (hok : d'.dbFail = false) : d'.image id 0 = flag ∧ d'.dbName = d.dbName := by
  obtain ⟨name, f, recorded, hr, -⟩ := h.running
  obtain ⟨least, hleast, ⟨g, hg, -, -, -, ha'⟩ | ha'⟩ :=
    DiskManager.allocPage_cases hr.ids hr.streams.dbOpen_eq flag
  · obtain ⟨rfl, rfl⟩ := some_mk_inj (ha.symm.trans ha')
    have h0 := (hr.ids.refill.1.mem_iff.mp (Or.inr hleast.1)).1
    refine ⟨?_, refill_dbName d⟩
    rw [image_write (Function.update_self _ _ _) h0 le_rfl (by norm_num)]
    simp [Bytes.memset, Bytes.memcpy]
  · obtain ⟨-, rfl⟩ := some_mk_inj (ha.symm.trans ha')
    exact absurd hok (by simp [notAllocated])

theorem dbName_writePage (data : Bytes) : (d.writePage id data).2.dbName = d.dbName := by
  unfold writePage
  split_ifs
  · rcases dbWrite_cases d (id * pageSize) pageSize.toNat data with ⟨f, -, -, -, -, -, hw⟩ | hw <;> rw [hw]
  · rfl

theorem Healthy.mem_reopened_iff (h : Healthy d n) (hname : d.dbName = dbFileName name) (h0 : 0 ∉ name)
    (hfit : Fits (dbFileName name) (logFileName name)) (u : Uninit) (hid : id ∈ d.allocedPgid) :
    id ∈ (openDb d.shutdown.fs name u []).allocedPgid ↔ d.image id 0 &&& statusExist ≠ 0 := by
  obtain ⟨name', f, recorded, hr, -⟩ := h.running
  obtain rfl : name' = name := List.append_cancel_right (hr.streams.dbName_eq.symm.trans hname)
  obtain ⟨metaFile, c, hmeta, -⟩ := hr.mtdFile
  have hgood := writeMetaData_good hr.streams hmeta h.faults_eq
  obtain ⟨hnonneg, hlt⟩ := h.bounds hid
  obtain ⟨ho, -⟩ | ⟨-, hne⟩ := hr.restart h0 hfit hgood u []
  · rw [ho.allocedPgid_eq, mem_existIds, image_eq hr.dbName_file]
    have hpos : (id * 4096 + 0).toNat = id.toNat * 4096 := by omega
    rw [hpos]
    constructor
    · rintro ⟨k, -, hk, rfl⟩
      exact hk
    · intro hk
      exact ⟨id.toNat, by omega, hk, Int.toNat_of_nonneg hnonneg⟩
  · exact absurd rfl hne

end DiskManager

namespace BufferPoolManager

variable {n : ℕ} {b b' c : BufferPoolManager n} {held : Multiset (ℤ × Fin n)} {id j : ℤ} {f g : Fin n}

/-! ## Status bytes -/

/-- The pages in the frames are marked as existing. -/
def FramesExist (b : BufferPoolManager n) : Prop :=
  ∀ id f, b.mapping id = some f → (b.pages f).data 0 = statusExist

/-- From one disk to the next, the pages of `w` were written from their frames, and the status bytes of
the other pages are as they were. -/
structure StatusKept (w : ℤ → Prop) (d d' : DiskManager) : Prop where
  alloced : d.allocedPgid ⊆ d'.allocedPgid
  dbName_eq : d'.dbName = d.dbName
  written : ∀ j ∈ d.allocedPgid, w j → d'.image j 0 = statusExist
  kept : ∀ j ∈ d.allocedPgid, ¬ w j → d'.image j 0 = d.image j 0

theorem StatusKept.refl {w : ℤ → Prop} (d : DiskManager) (hw : ∀ j, ¬ w j) : StatusKept w d d :=
  ⟨Finset.Subset.refl _, rfl, fun j _ hj => absurd hj (hw j), fun _ _ _ => rfl⟩

theorem StatusKept.congr {w w' : ℤ → Prop} {d d' : DiskManager} (h : StatusKept w d d')
    (hw : ∀ j, w j ↔ w' j) : StatusKept w' d d' := by
  obtain rfl : w = w' := funext fun j => propext (hw j)
  exact h

theorem StatusKept.after {w : ℤ → Prop} {d d1 d' : DiskManager} (hall : d.allocedPgid ⊆ d1.allocedPgid)
    (hname : d1.dbName = d.dbName) (himg : ∀ j ∈ d.allocedPgid, d1.image j 0 = d.image j 0)
    (h : StatusKept w d1 d') : StatusKept w d d' where
  alloced := hall.trans h.alloced
  dbName_eq := h.dbName_eq.trans hname
  written j hj hw := h.written j (hall hj) hw
  kept j hj hw := (h.kept j (hall hj) hw).trans (himg j hj)

theorem StatusKept.trans {w w' : ℤ → Prop} {d d1 d' : DiskManager} (h : StatusKept w d d1)
    (h' : StatusKept w' d1 d') : StatusKept (fun j => w j ∨ w' j) d d' where
  alloced := h.alloced.trans h'.alloced
  dbName_eq := h'.dbName_eq.trans h.dbName_eq
  written j hj hw := by
    by_cases hw' : w' j
    · exact h'.written j (h.alloced hj) hw'
    · exact (h'.kept j (h.alloced hj) hw').trans (h.written j hj (hw.resolve_right hw'))
  kept j hj hw := by
    push Not at hw
    exact (h'.kept j (h.alloced hj) hw.2).trans (h.kept j hj hw.1)

theorem PoolInv.status_writePage (h : PoolInv b held) (hm : b.mapping id = some f) {data : Bytes}
    (hdata : data 0 = statusExist) : StatusKept (· = id) b.disk (b.disk.writePage id data).2 := by
  obtain ⟨m, hd⟩ := h.healthy
  obtain ⟨d, hw, -, hall, himg, hkeep⟩ := hd.writePage (h.alloced hm) data
  refine ⟨?_, DiskManager.dbName_writePage data, ?_, ?_⟩ <;> rw [hw]
  · exact hall.ge
  · rintro j - rfl
    exact (himg 0 le_rfl (by norm_num)).trans hdata
  · exact fun j hj hne => hkeep j (hd.bounds hj).1 hne 0 le_rfl (by norm_num)

theorem FramesExist.enter (hst : FramesExist b) (hb : PoolInv b held) (hf : f ∈ b.freeList)
    {rest : List (Fin n)} {p : Page} (hp : p.data 0 = statusExist) : FramesExist { b with
      freeList := rest
      mapping := Function.update b.mapping id (some f)
      pages := Function.update b.pages f p } := by
  intro j g hg
  obtain rfl | hne := eq_or_ne j id
  · obtain rfl : f = g := by simpa using hg
    simpa using hp
  · have hg' : b.mapping j = some g := by simpa [hne] using hg
    have hgf : g ≠ f := fun he => (hb.mem_free f).mp hf j (he ▸ hg')
    simpa [hgf] using hst j g hg'

theorem PoolInv.status_flushed (h : PoolInv b held) (hst : FramesExist b) (hm : b.mapping id = some f) :
    StatusKept (· = id) b.disk (b.flushed id f).disk ∧ FramesExist (b.flushed id f) := by
  refine ⟨h.status_writePage hm (hst id f hm), fun j g hg => ?_⟩
  obtain rfl | hne := eq_or_ne g f
  · simpa [flushed, Page.setIsDirty] using hst j g hg
  · simpa [flushed, hne] using hst j g hg

theorem PoolInv.status_flushAll (h : PoolInv b held) (hst : FramesExist b) (order : List ℤ) :
    StatusKept (fun j => j ∈ order ∧ b.mapping j ≠ none) b.disk (order.foldl BufferPoolManager.flushedItem b).disk ∧
      FramesExist (order.foldl BufferPoolManager.flushedItem b) := by
  induction order generalizing b with
  | nil => exact ⟨.refl _ fun j hj => absurd hj.1 (by simp), hst⟩
  | cons id order ih =>
    rw [List.foldl_cons]
    cases hm : b.mapping id with
    | none =>
      have hitem : b.flushedItem id = b := by simp [BufferPoolManager.flushedItem, hm]
      rw [hitem]
      obtain ⟨hkept, hst'⟩ := ih h hst
      refine ⟨hkept.congr fun j => ?_, hst'⟩
      rw [List.mem_cons]
      constructor
      · exact fun hj => ⟨Or.inr hj.1, hj.2⟩
      · exact fun hj => ⟨hj.1.resolve_left fun he => hj.2 (he ▸ hm), hj.2⟩
    | some f =>
      have hitem : b.flushedItem id = b.flushed id f := by simp [BufferPoolManager.flushedItem, hm]
      rw [hitem]
      obtain ⟨hkept, hst'⟩ := h.status_flushed hst hm
      obtain ⟨hkept', hst''⟩ := ih (h.flush hm).2 hst'
      refine ⟨(hkept.trans hkept').congr fun j => ?_, hst''⟩
      rw [List.mem_cons]
      constructor
      · rintro (rfl | hj)
        · exact ⟨Or.inl rfl, by simp [hm]⟩
        · exact ⟨Or.inr hj.1, hj.2⟩
      · exact fun hj => hj.1.imp_right fun hmem => ⟨hmem, hj.2⟩

variable [NeZero n]

/-- The page is written back when a frame is needed: it is the victim's, and it is dirty. -/
def Evicts (b : BufferPoolManager n) (j : ℤ) : Prop :=
  b.freeList = [] ∧ ∃ f r, b.replacer.victim = some (f, r) ∧ (b.pages f).pageId = j ∧
    (b.pages f).isDirty = true

theorem PoolInv.status_freed (h : PoolInv b held) (hst : FramesExist b)
    (hfreed : PoolInv.FrameFreed b held c) (hfree : c.freeList ≠ []) : StatusKept (Evicts b) b.disk c.disk := by
  cases hfreed with
  | already => exact .refl _ fun j hj => hfree hj.1
  | @evict id f r hm hpin hv hnil =>
    have hid := h.pageId hm
    -- The victim is written exactly when it is dirty.
    have hiff : ∀ j, Evicts b j ↔ j = id ∧ (b.pages f).isDirty = true := by
      intro j
      constructor
      · rintro ⟨-, g, r', hv', rfl, hdirty⟩
        obtain ⟨rfl, -⟩ := some_mk_inj (hv.symm.trans hv')
        exact ⟨hid, hdirty⟩
      · rintro ⟨rfl, hdirty⟩
        exact ⟨hnil, f, r, hv, hid, hdirty⟩
    have hdata : ((b.pages f).setPageId invalidPageId).data 0 = statusExist := by
      simp only [Page.setPageId, pageIdOffset]
      exact hst id f hm
    have hsame : ((b.pages f).setPageId invalidPageId).isDirty = (b.pages f).isDirty := rfl
    simp only [evicted, hsame]
    split_ifs with hdirty
    · exact (h.status_writePage hm hdata).congr fun j => by simp [hiff, hdirty]
    · exact .refl _ fun j hj => hdirty ((hiff j).mp hj).2

theorem PoolInv.FrameFreed.pages_of_some (hfreed : PoolInv.FrameFreed b held c) (h : PoolInv b held)
    (hm : c.mapping id = some f) : c.pages f = b.pages f := by
  have hm' := hfreed.mapping_of_some hm
  cases hfreed with
  | already => rfl
  | @evict j g r hj =>
    have hne : f ≠ g := by
      rintro rfl
      obtain rfl := h.inj hm' hj
      simp [evicted] at hm
    simp [evicted, hne]

theorem FramesExist.freed (hst : FramesExist b) (hfreed : PoolInv.FrameFreed b held c)
    (h : PoolInv b held) : FramesExist c := fun id f hm => by
  rw [hfreed.pages_of_some h hm]
  exact hst id f (hfreed.mapping_of_some hm)

theorem PoolInv.status_allocPage (h : PoolInv b held) (hst : FramesExist b) {flag : UInt8}
    (hcall : b.allocPage flag = some (f, b')) (hd : b'.disk.dbFail = false) :
    StatusKept (Evicts b) b.disk b'.disk ∧ FramesExist b' ∧
      (b'.pages f).pageId ∉ b.disk.allocedPgid ∧ (b'.pages f).pageId ∈ b'.disk.allocedPgid ∧
      b'.disk.image (b'.pages f).pageId 0 = flag := by
  obtain ⟨m, id, d, c, rest, ha, hnew, hinv, hfreed, hc, hfree, -, rfl, hb'⟩ := h.allocPage_cases hcall hd
  obtain ⟨m', hdisk⟩ := h.healthy
  obtain ⟨hflag, hname⟩ := hdisk.image_allocPage ha hnew.healthy.dbFail_eq
  have hst' : FramesExist { b with disk := d } := hst
  have hkept : StatusKept (Evicts b) d c.disk := hinv.status_freed hst' hfreed (by simp [hfree])
  have hid : ((c.given id f rest).pages f).pageId = id := by simp [given]
  have hmem : id ∈ d.allocedPgid := by simp [hnew.allocedPgid_eq]
  refine ⟨hkept.after ?_ hname fun j hj => hnew.image_eq j hj 0 le_rfl (by norm_num), ?_, ?_, ?_, ?_⟩
  · rw [hnew.allocedPgid_eq]
    exact Finset.subset_insert _ _
  · exact (hst'.freed hfreed hinv).enter hc (by simp [hfree]) ((c.pages f).onAlloc_status id)
  · rw [hid]
    exact hnew.notMem
  · rw [hid]
    exact hkept.alloced hmem
  · rw [hid]
    refine (hkept.kept id hmem ?_).trans hflag
    -- The new page is in no frame, so that it is not the victim.
    rintro ⟨-, g, r, hv, hg, -⟩
    obtain ⟨hpresent, -, -⟩ := ClockReplacer.victim_spec h.counted hv
    obtain ⟨j, hj, -⟩ := (h.mem_present g).mp hpresent
    obtain rfl : j = id := (h.pageId hj).symm.trans hg
    exact hnew.notMem (h.alloced hj)

theorem PoolInv.status_getPage (h : PoolInv b held) (hst : FramesExist b) {res : Option (Fin n)}
    (hcall : b.getPage id = some (res, b')) (hd : b'.disk.dbFail = false) :
    StatusKept (fun j => 0 ≤ id ∧ b.mapping id = none ∧ Evicts b j) b.disk b'.disk ∧ FramesExist b' := by
  cases h.getPage_cases hcall hd with
  | invalid hid => exact ⟨.refl _ fun j hj => absurd hj.1 (by omega), hst⟩
  | @mapped f hm =>
    refine ⟨.refl _ fun j hj => absurd (hm.symm.trans hj.2.1) (by simp), fun j g hg => ?_⟩
    obtain rfl | hne := eq_or_ne g f
    · simpa [pinned, Page.addPinCount] using hst j g hg
    · simpa [pinned, hne] using hst j g hg
  | @loaded c f rest data hw hfree hm hall hexist =>
    obtain ⟨hfreed, hc⟩ := h.freed hw
    have h0 := (hc.healthy.choose_spec.bounds hall).1
    refine ⟨(h.status_freed hst hfreed (by simp [hfree])).congr fun j => by simp [h0, hm], ?_⟩
    exact (hst.freed hfreed h).enter hc (by simp [hfree])
      ((Page.onLoad_data_of_notMem _ id (Or.inl (by norm_num))).trans hexist)
  | @notExist c f rest data hw hfree h0 hm =>
    obtain ⟨hfreed, hc⟩ := h.freed hw
    refine ⟨(h.status_freed hst hfreed (by simp [hfree])).congr fun j => by simp [h0, hm], fun j g hg => ?_⟩
    have hne : g ≠ f := fun he => (hc.mem_free f).mp (by simp [hfree]) j (he ▸ hg)
    simpa [filled, hne] using hst.freed hfreed h j g hg

/-! ## Runs -/

/-- What one thread does, with temporary pages. -/
inductive TmpOp (n : ℕ) where
  | newTmpPage
  | pool (op : PoolOp n)

/-- The pages that a call writes back. -/
def WritesBack (b : BufferPoolManager n) : TmpOp n → ℤ → Prop
  | .newTmpPage, j => Evicts b j
  | .pool .newPage, j => Evicts b j
  | .pool (.getPage id), j => 0 ≤ id ∧ b.mapping id = none ∧ Evicts b j
  | .pool (.flushPage id), j => j = id ∧ b.mapping id ≠ none
  | .pool (.flushAll _), j => b.mapping j ≠ none
  | _, _ => False

/-- The pool and its holders, with the page ids from `new_page`, those from `new_tmp_page`, and the pages
that were written back. -/
structure TmpState (n : ℕ) extends PoolState n where
  fresh : Set ℤ
  tmp : Set ℤ
  written : Set ℤ

/-- The call is none that allocates or deletes a page, and holders do not write the status byte. -/
def KeepsPages (b : BufferPoolManager n) : PoolOp n → Prop
  | .newPage => False
  | .deletePage _ => False
  | .write f data => data 0 = (b.pages f).data 0
  | _ => True

/-- A step of a run without `delete_page`. -/
inductive TmpStep : TmpState n → TmpOp n → TmpState n → Prop
  | newPage {b b' : BufferPoolManager n} {held : Multiset (ℤ × Fin n)} {fresh tmp written : Set ℤ}
    {f : Fin n} (h : b.newPage = some (f, b')) (hd : b'.disk.dbFail = false) :
    TmpStep ⟨⟨b, held⟩, fresh, tmp, written⟩ (.pool .newPage)
      ⟨⟨b', ((b'.pages f).pageId, f) ::ₘ held⟩, insert (b'.pages f).pageId fresh, tmp,
        written ∪ {j | WritesBack b (.pool .newPage) j}⟩
  | newTmpPage {b b' : BufferPoolManager n} {held : Multiset (ℤ × Fin n)} {fresh tmp written : Set ℤ}
    {f : Fin n} (h : b.newTmpPage = some (f, b')) (hd : b'.disk.dbFail = false) :
    TmpStep ⟨⟨b, held⟩, fresh, tmp, written⟩ .newTmpPage
      ⟨⟨b', ((b'.pages f).pageId, f) ::ₘ held⟩, fresh, insert (b'.pages f).pageId tmp,
        written ∪ {j | WritesBack b .newTmpPage j}⟩
  | pool {b : BufferPoolManager n} {held : Multiset (ℤ × Fin n)} {s' : PoolState n}
    {fresh tmp written : Set ℤ} {op : PoolOp n} (h : PoolStep ⟨b, held⟩ op s') (hop : KeepsPages b op) :
    TmpStep ⟨⟨b, held⟩, fresh, tmp, written⟩ (.pool op)
      ⟨s', fresh, tmp, written ∪ {j | WritesBack b (.pool op) j}⟩

theorem PoolInv.status_step (h : PoolInv b held) (hst : FramesExist b) {op : PoolOp n} {s' : PoolState n}
    (hs : PoolStep ⟨b, held⟩ op s') (hop : KeepsPages b op) :
    StatusKept (WritesBack b (.pool op)) b.disk s'.pool.disk ∧ FramesExist s'.pool := by
  cases hs with
  | newPage => exact hop.elim
  | deletePage => exact hop.elim
  | getPage hcall hd => exact h.status_getPage hst hcall hd
  | getPageNull hcall hd => exact h.status_getPage hst hcall hd
  | @unpinPage _ b' _ id f dirty hheld hcall =>
    obtain rfl := h.unpinPage_cases hheld hcall
    refine ⟨.refl _ fun _ hj => hj, fun j g hg => ?_⟩
    obtain rfl | hne := eq_or_ne g f
    · simpa [unpinned] using hst j g hg
    · simpa [unpinned, hne] using hst j g hg
  | @flushPage _ b' _ id ok hcall =>
    obtain rfl := h.frameInv.flushPage_cases hcall
    obtain ⟨hkept, hst'⟩ := h.status_flushAll hst [id]
    exact ⟨hkept.congr fun j => by simp +contextual [WritesBack, iff_def], hst'⟩
  | @flushAll _ b' _ order ok horder hcall =>
    obtain rfl := h.frameInv.flushAll_cases horder hcall
    obtain ⟨hkept, hst'⟩ := h.status_flushAll hst order
    exact ⟨hkept.congr fun j => by simp [WritesBack, horder], hst'⟩
  | @write _ _ id f data hheld =>
    refine ⟨.refl _ fun _ hj => hj, fun j g hg => ?_⟩
    obtain rfl | hne := eq_or_ne g f
    · simpa [BufferPoolManager.setPage] using (show data 0 = _ from hop).trans (hst j g hg)
    · simpa [BufferPoolManager.setPage, hne] using hst j g hg

/-- What holds of the pages from `new_page` and from `new_tmp_page`. -/
structure TmpInv (name : FileName) (s : TmpState n) : Prop where
  pool : PoolInv s.pool s.held
  frames : FramesExist s.pool
  dbName_eq : s.pool.disk.dbName = DiskManager.dbFileName name
  written_alloced : ∀ id ∈ s.written, id ∈ s.pool.disk.allocedPgid
  fresh : ∀ id ∈ s.fresh, id ∈ s.pool.disk.allocedPgid ∧ s.pool.disk.image id 0 = statusExist
  tmp : ∀ id ∈ s.tmp, id ∈ s.pool.disk.allocedPgid ∧
    (id ∈ s.written → s.pool.disk.image id 0 = statusExist) ∧
    (id ∉ s.written → s.pool.disk.image id 0 = statusTmp)

variable {name : FileName} {s s' : TmpState n}

theorem PoolInv.alloced_of_writesBack (h : PoolInv b held) (op : TmpOp n) (hw : WritesBack b op j) :
    j ∈ b.disk.allocedPgid := by
  have hevicts : Evicts b j → j ∈ b.disk.allocedPgid := by
    rintro ⟨-, g, r, hv, rfl, -⟩
    obtain ⟨hpresent, -, -⟩ := ClockReplacer.victim_spec h.counted hv
    obtain ⟨id, hid, -⟩ := (h.mem_present g).mp hpresent
    rw [h.pageId hid]
    exact h.alloced hid
  have hmapped : b.mapping j ≠ none → j ∈ b.disk.allocedPgid := fun hne => by
    obtain ⟨f, hm⟩ := Option.ne_none_iff_exists'.mp hne
    exact h.alloced hm
  match op, hw with
  | .newTmpPage, hw => exact hevicts hw
  | .pool .newPage, hw => exact hevicts hw
  | .pool (.getPage _), hw => exact hevicts hw.2.2
  | .pool (.flushPage _), hw => exact hmapped (hw.1 ▸ hw.2)
  | .pool (.flushAll _), hw => exact hmapped hw

theorem TmpInv.kept (h : TmpInv name s) (op : TmpOp n) (p : PoolState n) (hp : PoolInv p.pool p.held)
    (hst : FramesExist p.pool) (hkept : StatusKept (WritesBack s.pool op) s.pool.disk p.pool.disk) :
    TmpInv name ⟨p, s.fresh, s.tmp, s.written ∪ {j | WritesBack s.pool op j}⟩ where
  pool := hp
  frames := hst
  dbName_eq := hkept.dbName_eq.trans h.dbName_eq
  written_alloced id hid := by
    rcases hid with hid | hid
    · exact hkept.alloced (h.written_alloced id hid)
    · exact hkept.alloced (h.pool.alloced_of_writesBack op hid)
  fresh id hid := by
    obtain ⟨hall, himg⟩ := h.fresh id hid
    refine ⟨hkept.alloced hall, ?_⟩
    by_cases hw : WritesBack s.pool op id
    · exact hkept.written id hall hw
    · exact (hkept.kept id hall hw).trans himg
  tmp id hid := by
    obtain ⟨hall, hyes, hno⟩ := h.tmp id hid
    refine ⟨hkept.alloced hall, fun hmem => ?_, fun hnot => ?_⟩
    · by_cases hw : WritesBack s.pool op id
      · exact hkept.written id hall hw
      · exact (hkept.kept id hall hw).trans (hyes (hmem.resolve_right hw))
    · rw [Set.mem_union, not_or] at hnot
      exact (hkept.kept id hall hnot.2).trans (hno hnot.1)

theorem TmpInv.step (h : TmpInv name s) {op : TmpOp n} (hs : TmpStep s op s') : TmpInv name s' := by
  cases hs with
  | @newPage b b' held fresh tmp written f hcall hd =>
    obtain ⟨hkept, hst, hnew, hall, himg⟩ := h.pool.status_allocPage h.frames hcall hd
    have hinv := h.kept (.pool .newPage) ⟨b', ((b'.pages f).pageId, f) ::ₘ held⟩
      (h.pool.step (.newPage hcall hd) trivial) hst hkept
    refine ⟨hinv.pool, hinv.frames, hinv.dbName_eq, hinv.written_alloced, fun id hid => ?_, hinv.tmp⟩
    rcases Set.mem_insert_iff.mp hid with rfl | hid
    · exact ⟨hall, himg⟩
    · exact hinv.fresh id hid
  | @newTmpPage b b' held fresh tmp written f hcall hd =>
    obtain ⟨hkept, hst, hnew, hall, himg⟩ := h.pool.status_allocPage h.frames hcall hd
    have hpool : PoolInv b' (((b'.pages f).pageId, f) ::ₘ held) := by
      obtain ⟨m, id, d, c, rest, -, -, -, -, -, -, -, rfl, hinv⟩ := h.pool.allocPage_cases hcall hd
      simpa [given] using hinv
    have hinv := h.kept .newTmpPage ⟨b', ((b'.pages f).pageId, f) ::ₘ held⟩ hpool hst hkept
    refine ⟨hinv.pool, hinv.frames, hinv.dbName_eq, hinv.written_alloced, hinv.fresh, fun id hid => ?_⟩
    rcases Set.mem_insert_iff.mp hid with rfl | hid
    · refine ⟨hall, fun hmem => absurd ?_ hnew, fun _ => himg⟩
      rcases hmem with hmem | hmem
      · exact h.written_alloced _ hmem
      · exact h.pool.alloced_of_writesBack .newTmpPage hmem
    · exact hinv.tmp id hid
  | @pool b held p fresh tmp written op hstep hop =>
    obtain ⟨hkept, hst⟩ := h.pool.status_step h.frames hstep hop
    have hidle : NoIdleDelete ⟨b, held⟩ op := by
      cases op with
      | deletePage => exact hop.elim
      | _ => trivial
    exact h.kept (.pool op) p (h.pool.step hstep hidle) hst hkept

theorem tmpInv_new {d : DiskManager} {m : ℕ} (hd : d.Healthy m)
    (hname : d.dbName = DiskManager.dbFileName name) (lsn : Fin n → ℤ) (heap : Fin n → Bytes) :
    TmpInv name ⟨⟨new d lsn heap, 0⟩, ∅, ∅, ∅⟩ where
  pool := poolInv_new hd lsn heap
  frames _ _ hm := absurd hm (by simp [new])
  dbName_eq := hname
  written_alloced _ hid := absurd hid (Set.notMem_empty _)
  fresh _ hid := absurd hid (Set.notMem_empty _)
  tmp _ hid := absurd hid (Set.notMem_empty _)

/-- The manager that opens the database again does not know the temporary pages, and knows the pages from
`new_page`. -/
def TmpPagesGone (s : TmpState n) (d : DiskManager) : Prop :=
  (∀ id ∈ s.tmp, id ∉ d.allocedPgid) ∧ ∀ id ∈ s.fresh, id ∈ d.allocedPgid

omit [NeZero n] in
theorem TmpInv.reopened (h : TmpInv name s) (h0 : 0 ∉ name)
    (hfit : DiskManager.Fits (DiskManager.dbFileName name) (DiskManager.logFileName name)) (u : DiskManager.Uninit) :
    (∀ id ∈ s.tmp, id ∈ (DiskManager.openDb s.pool.disk.shutdown.fs name u []).allocedPgid ↔ id ∈ s.written) ∧
    ∀ id ∈ s.fresh, id ∈ (DiskManager.openDb s.pool.disk.shutdown.fs name u []).allocedPgid := by
  obtain ⟨m, hd⟩ := h.pool.healthy
  have hmem := fun (id : ℤ) (hid : id ∈ s.pool.disk.allocedPgid) =>
    hd.mem_reopened_iff h.dbName_eq h0 hfit u hid
  refine ⟨fun id hid => ?_, fun id hid => ?_⟩
  · obtain ⟨hall, hyes, hno⟩ := h.tmp id hid
    rw [hmem id hall]
    by_cases hw : id ∈ s.written
    · exact iff_of_true (by rw [hyes hw]; decide) hw
    · exact iff_of_false (by rw [hno hw]; decide) hw
  · obtain ⟨hall, himg⟩ := h.fresh id hid
    rw [hmem id hall, himg]
    decide

/-- In every run, the temporary pages are gone after a restart and the pages from `new_page` are still
there exactly when no temporary page was written back in the run. -/
theorem tmp_pages_gone_iff {d : DiskManager} {m : ℕ} (hd : d.Healthy m)
    (hname : d.dbName = DiskManager.dbFileName name) (h0 : 0 ∉ name)
    (hfit : DiskManager.Fits (DiskManager.dbFileName name) (DiskManager.logFileName name))
    {lsn : Fin n → ℤ} {heap : Fin n → Bytes} {ops : List (TmpOp n)}
    (ht : Trace TmpStep ⟨⟨new d lsn heap, 0⟩, ∅, ∅, ∅⟩ ops s) (u : DiskManager.Uninit) :
    TmpPagesGone s (DiskManager.openDb s.pool.disk.shutdown.fs name u []) ↔
      ∀ id ∈ s.tmp, id ∉ s.written := by
  have h : TmpInv name s := ht.invariant (P := TmpInv name) (fun _ _ _ hi hs => hi.step hs)
    (tmpInv_new hd hname lsn heap)
  obtain ⟨htmp, hfresh⟩ := h.reopened h0 hfit u
  exact ⟨fun hg id hid hw => hg.1 id hid ((htmp id hid).mpr hw),
    fun hnot => ⟨fun id hid hmem => hnot id hid ((htmp id hid).mp hmem), hfresh⟩⟩

theorem exists_newTmpPage : ∃ d m b,
    DiskManager.create (fun _ => none) [100] DiskManager.Uninit.zero [] = some d ∧ d.Healthy m ∧
    d.dbName = DiskManager.dbFileName [100] ∧
    (new d (fun _ => 0) (fun _ _ => 0) : BufferPoolManager 1).newTmpPage = some (0, b) ∧ b.disk.dbFail = false := by
  obtain ⟨d, m, hc, hm, hd, hname⟩ := DiskManager.exists_healthy_dbName
  have hfree : (new d (fun _ => 0) (fun _ _ => 0) : BufferPoolManager 1).freeList = 0 :: [] := rfl
  obtain ⟨id, d', -, hok, hcall⟩ :=
    allocPage_of_free rfl hfree rfl hd (by omega) (by simp [new]) statusTmp
  exact ⟨d, m, _, hc, hd, hname, hcall, hok⟩

/-- A temporary page that stays in its frame is gone. -/
theorem tmp_pages_gone_newTmpPage : ∃ d b,
    DiskManager.create (fun _ => none) [100] DiskManager.Uninit.zero [] = some d ∧
    (new d (fun _ => 0) (fun _ _ => 0) : BufferPoolManager 1).newTmpPage = some (0, b) ∧
    (b.pages 0).pageId ∉
      (DiskManager.openDb b.disk.shutdown.fs [100] DiskManager.Uninit.zero []).allocedPgid := by
  obtain ⟨d, m, b, hc, hd, hname, hcall, hok⟩ := exists_newTmpPage
  have hgone := (tmp_pages_gone_iff hd hname (by decide) (by unfold DiskManager.Fits; decide)
    (.single (.newTmpPage hcall hok)) DiskManager.Uninit.zero).mpr fun id _ hw => by
      rcases hw with hw | hw
      · exact hw
      · exact absurd hw.1 (by simp [new])
  exact ⟨d, b, hc, hcall, hgone.1 _ (Set.mem_insert _ _)⟩

/-- A temporary page that is flushed is still allocated after a restart. -/
theorem flushed_tmp_page_survives : ∃ d b b',
    DiskManager.create (fun _ => none) [100] DiskManager.Uninit.zero [] = some d ∧
    (new d (fun _ => 0) (fun _ _ => 0) : BufferPoolManager 1).newTmpPage = some (0, b) ∧
    b.flushPage (b.pages 0).pageId = some (true, b') ∧
    (b.pages 0).pageId ∈
      (DiskManager.openDb b'.disk.shutdown.fs [100] DiskManager.Uninit.zero []).allocedPgid := by
  obtain ⟨d, m, b, hc, hd, hname, hcall, hok⟩ := exists_newTmpPage
  have h := (tmpInv_new hd hname _ _).step (.newTmpPage hcall hok)
  have hm : b.mapping (b.pages 0).pageId = some 0 := h.pool.held_mapped (by simp)
  have hread : b.latch.rLock = some ⟨false, 1⟩ := by
    rw [h.pool.latch_free]
    exact Latch.rLock_free
  have hflush := flushPage_eq hread hm (h.pool.page_free 0) (h.pool.flush hm).1
  have h' := h.step (.pool (.flushPage hflush) trivial)
  obtain ⟨htmp, -⟩ := h'.reopened (by decide) (by unfold DiskManager.Fits; decide) DiskManager.Uninit.zero
  refine ⟨d, b, _, hc, hcall, hflush, (htmp _ (Set.mem_insert _ _)).mpr (Or.inr ⟨rfl, ?_⟩)⟩
  simp [hm]

end BufferPoolManager

end Dawn
