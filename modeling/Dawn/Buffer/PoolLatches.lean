import Dawn.Buffer.PoolInvariant

/-!
# The latches of the buffer pool

Every call of the pool gives back the latches that it takes, whatever the state of the pool is and
whatever the disk does, with one exception: `get_page` returns `nullptr` with the latch of the pool held
when the page cannot be read from the disk.

A call that does not read a page from the disk also leaves the bytes of the frames outside the page header as they
are. In particular `new_page` does not clear the frame that it hands out.
-/

namespace Dawn.BufferPoolManager

variable {n : ℕ} {a b c : BufferPoolManager n} {id : ℤ} {f : Fin n}

/-- The latch of the pool and those of its pages are as they were. -/
structure LatchesKept (b c : BufferPoolManager n) : Prop where
  pool : c.latch = b.latch
  pages : ∀ f, (c.pages f).latch = (b.pages f).latch

theorem LatchesKept.of_frame (hl : c.latch = b.latch) (hf : (c.pages f).latch = (b.pages f).latch)
    (hg : ∀ g ≠ f, (c.pages g).latch = (b.pages g).latch) : LatchesKept b c := by
  refine ⟨hl, fun g => ?_⟩
  obtain rfl | hne := eq_or_ne g f
  · exact hf
  · exact hg g hne

theorem latch_insertMapping : (b.insertMapping id f).latch = b.latch := by
  unfold insertMapping
  split <;> rfl

theorem pages_insertMapping : (b.insertMapping id f).pages = b.pages := by
  unfold insertMapping
  split <;> rfl

/-- The frames have their latches, and their bytes outside the header. -/
structure FramesKept (b c : BufferPoolManager n) : Prop extends LatchesKept b c where
  tail : ∀ f i, 9 ≤ i → (c.pages f).data i = (b.pages f).data i

namespace FramesKept

theorem of_frame (hl : c.latch = b.latch) (hf : (c.pages f).latch = (b.pages f).latch)
    (ht : ∀ i, 9 ≤ i → (c.pages f).data i = (b.pages f).data i) (hg : ∀ g ≠ f, c.pages g = b.pages g) :
    FramesKept b c := by
  refine ⟨.of_frame hl hf fun g hne => by rw [hg g hne], fun g i hi => ?_⟩
  obtain rfl | hne := eq_or_ne g f
  · exact ht i hi
  · rw [hg g hne]

theorem trans (h : FramesKept a b) (h' : FramesKept b c) : FramesKept a c :=
  ⟨⟨h'.pool.trans h.pool, fun f => (h'.pages f).trans (h.pages f)⟩,
    fun f i hi => (h'.tail f i hi).trans (h.tail f i hi)⟩

end FramesKept

theorem evictPage_kept (h : b.evictPage id f = some c) : FramesKept b c := by
  simp only [evictPage, bind_eq_some] at h
  obtain ⟨p, hp, b1, h1, h⟩ := h
  obtain ⟨hfree, rfl⟩ := eq_of_page_wLock hp
  obtain ⟨hlatch, rfl⟩ := eq_of_wLock h1
  replace hlatch : b.latch = Latch.free := hlatch
  split at h
  · obtain rfl := Option.some.inj h
    refine .of_frame hlatch.symm (f := f) ?_ (fun i _ => ?_) fun g hg => ?_
    · simp [wUnlock, setPage, lockedPage, Page.wUnlock, hfree]
    · simp [wUnlock, setPage, lockedPage, Page.wUnlock]
    · simp [wUnlock, setPage, locked, hg]
  · obtain rfl := Option.some.inj h
    refine .of_frame (f := f) ?_ ?_ (fun i hi => ?_) fun g hg => ?_
    · split_ifs <;> simp [wUnlock, setPage, locked, eraseMapping, hlatch]
    · simp [setPage, lockedPage, Page.wUnlock, Page.setPageId, hfree]
    · simp only [setPage, lockedPage, Page.wUnlock, Page.setPageId, Function.update_self, pageIdOffset]
      exact Bytes.setI32_of_notMem (by omega)
    · split_ifs <;> simp [wUnlock, setPage, locked, eraseMapping, hg]

theorem waitForFrame_kept [NeZero n] {k : ℕ} (hl : b.latch = ⟨true, 0⟩) (h : waitForFrame k b = some c) :
    FramesKept b c := by
  induction k generalizing b with
  | zero => simp [waitForFrame] at h
  | succ k ih =>
    unfold waitForFrame at h
    split_ifs at h
    · obtain rfl := Option.some.inj h
      exact ⟨⟨rfl, fun _ => rfl⟩, fun _ _ _ => rfl⟩
    · simp only [bind_eq_some] at h
      obtain ⟨⟨f, r⟩, -, b1, h1, b2, h2, h⟩ := h
      obtain ⟨-, rfl⟩ := eq_of_wLock h2
      have hevict := evictPage_kept h1
      have hrest := ih rfl h
      exact ⟨⟨hrest.pool.trans hl.symm, fun g => (hrest.pages g).trans (hevict.pages g)⟩,
        fun g i hi => (hrest.tail g i hi).trans (hevict.tail g i hi)⟩

theorem allocPage_kept [NeZero n] {flag : UInt8} (h : b.allocPage flag = some (f, c)) : FramesKept b c := by
  simp only [allocPage, Option.bind_eq_bind, Option.bind_eq_some_iff] at h
  obtain ⟨⟨id, d⟩, -, b1, h1, b2, h2, h⟩ := h
  obtain ⟨hlatch, rfl⟩ := eq_of_wLock h1
  replace hlatch : b.latch = Latch.free := hlatch
  have hwait := waitForFrame_kept rfl h2
  split at h
  · cases h
  · next g rest hfree =>
    simp only [Option.bind_eq_some_iff] at h
    obtain ⟨p, hp, he⟩ := h
    obtain ⟨rfl, rfl⟩ := some_mk_inj he
    obtain ⟨hpage, rfl⟩ := eq_of_page_wLock hp
    simp only [wUnlock, pages_insertMapping] at hpage
    -- The frames are compared with those after the wait, whose latch was taken and given back.
    have hunlock : FramesKept b b2.wUnlock :=
      ⟨⟨by simp [wUnlock, hwait.pool, locked, hlatch], hwait.pages⟩, hwait.tail⟩
    refine hunlock.trans (.of_frame (f := g) ?_ ?_ (fun i hi => ?_) fun g' hg => ?_)
    · simp [setPage, wUnlock, latch_insertMapping]
    · simp [setPage, wUnlock, lockedPage, Page.wUnlock, Page.onAlloc_latch, hpage]
    · simp only [setPage, Page.wUnlock, Function.update_self, wUnlock, pages_insertMapping]
      exact (lockedPage (b2.pages g)).onAlloc_data_of_body id hi
    · simp [setPage, wUnlock, pages_insertMapping, hg]

theorem unpinPage_kept {dirty : Bool} (h : b.unpinPage id dirty = some c) : FramesKept b c := by
  obtain ⟨b1, h1, hrest⟩ := bind_eq_some.mp h
  obtain ⟨hlatch, rfl⟩ := eq_of_wLock h1
  split at hrest
  · obtain rfl := Option.some.inj hrest
    exact ⟨⟨hlatch.symm, fun _ => rfl⟩, fun _ _ _ => rfl⟩
  · next g hm =>
    obtain ⟨p, hp, -⟩ := bind_eq_some.mp hrest
    rw [unpinPage_eq hlatch hm (eq_of_page_wLock hp).1] at h
    obtain rfl := Option.some.inj h
    refine .of_frame (f := g) rfl (by simp [unpinned]) (fun i _ => by simp [unpinned]) fun g' hg => ?_
    simp [unpinned, hg]

theorem flushPage_latches {ok : Bool} (h : b.flushPage id = some (ok, c)) : LatchesKept b c := by
  simp only [flushPage, bind_eq_some] at h
  obtain ⟨b1, h1, h⟩ := h
  obtain ⟨l, hl, rfl⟩ := Option.map_eq_some_iff.mp h1
  have hunlock : l.rUnlock = b.latch := Latch.rUnlock_of_rLock hl
  split at h
  · obtain ⟨-, rfl⟩ := some_mk_inj h
    exact ⟨hunlock, fun _ => rfl⟩
  · next g hm =>
    obtain ⟨p, hp, h⟩ := bind_eq_some.mp h
    obtain ⟨hpage, rfl⟩ := eq_of_page_wLock hp
    replace hpage : (b.pages g).latch = Latch.free := hpage
    split_ifs at h <;> obtain ⟨-, rfl⟩ := some_mk_inj h <;>
    · refine .of_frame (f := g) hunlock ?_ fun g' hg => ?_
      · simp [setPage, lockedPage, Page.wUnlock, Page.setIsDirty, hpage]
      · simp [setPage, rUnlock, hg]

theorem flushItems_latches {order : List ℤ} {st : Bool × BufferPoolManager n} {ok : Bool}
    (h : order.foldlM flushItem st = some (ok, c)) : LatchesKept st.2 c := by
  induction order generalizing st with
  | nil =>
    obtain rfl := Option.some.inj h
    exact ⟨rfl, fun _ => rfl⟩
  | cons id order ih =>
    obtain ⟨st1, h1, h⟩ := bind_eq_some.mp h
    obtain ⟨⟨good, b1⟩, hflush, he⟩ := bind_eq_some.mp h1
    obtain rfl := Option.some.inj he
    have hone := flushPage_latches hflush
    have hrest := ih h
    exact ⟨hrest.pool.trans hone.pool, fun g => (hrest.pages g).trans (hone.pages g)⟩

theorem flushAll_latches {order : List ℤ} {ok : Bool} (h : b.flushAll order = some (ok, c)) : LatchesKept b c := by
  simp only [flushAll, bind_eq_some] at h
  obtain ⟨b1, h1, ⟨ok', b2⟩, h2, he⟩ := h
  obtain ⟨l, hl, rfl⟩ := Option.map_eq_some_iff.mp h1
  obtain ⟨-, rfl⟩ := some_mk_inj he
  have hall := flushItems_latches h2
  refine ⟨?_, hall.pages⟩
  rw [rUnlock, hall.pool]
  exact Latch.rUnlock_of_rLock hl

theorem deletePage_latches {ok : Bool} (h : b.deletePage id = some (ok, c)) : LatchesKept b c := by
  obtain ⟨b1, h1, hrest⟩ := bind_eq_some.mp h
  obtain ⟨hlatch, rfl⟩ := eq_of_wLock h1
  split at hrest
  · next hm =>
    rw [deletePage_of_none hlatch hm] at h
    obtain ⟨-, rfl⟩ := some_mk_inj h
    exact ⟨rfl, fun _ => rfl⟩
  · next g hm =>
    by_cases hpin : (b.pages g).pinCount = 0
    · rw [if_neg (by exact not_not.mpr hpin)] at hrest
      obtain ⟨p, hp, -⟩ := bind_eq_some.mp hrest
      rw [deletePage_of_idle hlatch hm (eq_of_page_wLock hp).1 hpin] at h
      obtain ⟨-, rfl⟩ := some_mk_inj h
      refine .of_frame (f := g) rfl (by simp [deleted, Page.setPageId]) fun g' hg => by simp [deleted, hg]
    · rw [deletePage_of_pinned hlatch hm hpin] at h
      obtain ⟨-, rfl⟩ := some_mk_inj h
      exact ⟨rfl, fun _ => rfl⟩

/-! ## Loading a page -/

section Load

variable [NeZero n]

/-- The page has to be read from the disk, and the read fails. -/
def ReadFails (b : BufferPoolManager n) (id : ℤ) : Prop :=
  invalidPageId < id ∧ b.mapping id = none ∧ ∃ c f rest, waitForFrame (n + 1) b.locked = some c ∧
    c.freeList = f :: rest ∧ (c.disk.readPage id (c.pages f).data).1 = false

theorem getPage_latches {r : Option (Fin n)} (h : b.getPage id = some (r, c)) : LatchesKept b c ↔ ¬ ReadFails b id := by
  unfold getPage at h
  split_ifs at h with hid
  · obtain ⟨-, rfl⟩ := some_mk_inj h
    exact iff_of_true ⟨rfl, fun _ => rfl⟩ fun hr => absurd hr.1 (not_lt.mpr hid)
  simp only [bind_eq_some] at h
  obtain ⟨b1, h1, h⟩ := h
  obtain ⟨hlatch, rfl⟩ := eq_of_wLock h1
  split at h
  · next g hm =>
    obtain ⟨-, rfl⟩ := some_mk_inj h
    refine iff_of_true (.of_frame (f := g) hlatch.symm ?_ fun g' hg => ?_) fun hr => ?_
    · simp [setPage, wUnlock, locked, Page.addPinCount]
    · simp [setPage, wUnlock, locked, hg]
    · exact absurd (hm.symm.trans hr.2.1) (by simp)
  · next hm =>
    obtain ⟨b2, h2, h⟩ := bind_eq_some.mp h
    have hwait := waitForFrame_kept rfl h2
    have hpool : b2.latch.wUnlock = b.latch := by rw [hwait.pool, hlatch]; rfl
    split at h
    · cases h
    · next g rest hfree =>
      have hiff : ReadFails b id ↔ (b2.disk.readPage id (b2.pages g).data).1 = false := by
        constructor
        · rintro ⟨-, -, b2', g', rest', h2', hfree', hread⟩
          obtain rfl : b2 = b2' := Option.some.inj (h2.symm.trans h2')
          obtain ⟨rfl, -⟩ := List.cons.inj (hfree.symm.trans hfree')
          exact hread
        · intro hread
          exact ⟨not_le.mp hid, hm, b2, g, rest, h2, hfree, hread⟩
      rw [hiff]
      split_ifs at h with hgood hexist
      · obtain ⟨-, rfl⟩ := some_mk_inj h
        refine iff_of_true (.of_frame (f := g) hpool ?_ fun g' hg => ?_) (by simpa using hgood)
        · rw [← show _ = (b.pages g).latch from hwait.pages g]
          simp [setPage, wUnlock]
        · rw [← show _ = (b.pages g').latch from hwait.pages g']
          simp [setPage, wUnlock, hg]
      · obtain ⟨p, hp, he⟩ := bind_eq_some.mp h
        obtain ⟨-, rfl⟩ := some_mk_inj he
        obtain ⟨hpage, rfl⟩ := eq_of_page_wLock hp
        simp only [setPage, Function.update_self] at hpage
        refine iff_of_true (.of_frame (f := g) ?_ ?_ fun g' hg => ?_) (by simpa using hgood)
        · simp only [wUnlock, latch_insertMapping]
          exact hpool
        · rw [← show _ = (b.pages g).latch from hwait.pages g, hpage]
          simp [setPage, wUnlock, pages_insertMapping, lockedPage, Page.wUnlock, Page.onLoad_latch]
        · rw [← show _ = (b.pages g').latch from hwait.pages g']
          simp [setPage, wUnlock, pages_insertMapping, hg]
      · -- The latch of the pool is still held.
        obtain ⟨-, rfl⟩ := some_mk_inj h
        refine iff_of_false (fun hk => ?_) (not_not.mpr (by simpa using hgood))
        have := hk.pool
        simp only [setPage, hwait.pool, locked, hlatch, Latch.free] at this
        simp at this

theorem getPage_of_readFails (hl : b.latch = Latch.free) (h : ReadFails b id) :
    ∃ c, b.getPage id = some (none, c) ∧ c.latch = ⟨true, 0⟩ := by
  obtain ⟨hid, hm, c, f, rest, hwait, hfree, hread⟩ := h
  unfold getPage
  rw [if_neg (not_le.mpr hid), wLock_eq hl]
  simp only [Option.bind_eq_bind, Option.bind_some]
  rw [show b.locked.mapping id = none from hm]
  simp only [hwait, Option.bind_some, hfree, hread]
  exact ⟨_, if_pos (by simp), (waitForFrame_kept rfl hwait).pool⟩

end Load

/-! ## All calls -/

section All

variable [NeZero n]

/-- The pool that a call leaves. -/
def PoolOp.run (b : BufferPoolManager n) : PoolOp n → Option (BufferPoolManager n)
  | newPage => b.newPage.map Prod.snd
  | getPage id => (b.getPage id).map Prod.snd
  | unpinPage id dirty => b.unpinPage id dirty
  | flushPage id => (b.flushPage id).map Prod.snd
  | flushAll order => (b.flushAll order).map Prod.snd
  | deletePage id => (b.deletePage id).map Prod.snd
  | write f data => some (b.setPage f { b.pages f with data := data })

/-- The call is a `get_page` that cannot read the page. -/
def PoolOp.ReadFails (b : BufferPoolManager n) : PoolOp n → Prop
  | getPage id => BufferPoolManager.ReadFails b id
  | _ => False

theorem PoolOp.run_latches {op : PoolOp n} (hrun : op.run b = some c) : LatchesKept b c ↔ ¬ op.ReadFails b := by
  cases op with
  | newPage =>
    obtain ⟨⟨f, c⟩, h, rfl⟩ := Option.map_eq_some_iff.mp hrun
    exact iff_of_true (allocPage_kept h).toLatchesKept not_false
  | getPage id =>
    obtain ⟨⟨r, c⟩, h, rfl⟩ := Option.map_eq_some_iff.mp hrun
    exact getPage_latches h
  | unpinPage id dirty => exact iff_of_true (unpinPage_kept hrun).toLatchesKept not_false
  | flushPage id =>
    obtain ⟨⟨ok, c⟩, h, rfl⟩ := Option.map_eq_some_iff.mp hrun
    exact iff_of_true (flushPage_latches h) not_false
  | flushAll order =>
    obtain ⟨⟨ok, c⟩, h, rfl⟩ := Option.map_eq_some_iff.mp hrun
    exact iff_of_true (flushAll_latches h) not_false
  | deletePage id =>
    obtain ⟨⟨ok, c⟩, h, rfl⟩ := Option.map_eq_some_iff.mp hrun
    exact iff_of_true (deletePage_latches h) not_false
  | write f data =>
    obtain rfl := Option.some.inj hrun
    refine iff_of_true (.of_frame (f := f) rfl ?_ fun g hg => ?_) not_false
    · simp [setPage]
    · simp [setPage, hg]

end All

end Dawn.BufferPoolManager
