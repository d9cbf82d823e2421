import Dawn.Buffer.PoolCalls
import Dawn.Lib.FreeOrUsed
import Dawn.Storage.Faults

/-!
# The frames of the buffer pool

Every frame is free or holds one page, whose id it reports and which is allocated on the disk. Nothing is asked
of who holds which page or of what is in the replacer, so that this survives a page that is given back too
often or deleted while its frame is in the replacer: a victim is only looked for when no frame is free, and then
every frame holds a page.
-/

namespace Dawn.BufferPoolManager

open Function

variable {n : ℕ}

/-- Every frame is free or holds one page. -/
structure Conserved (b : BufferPoolManager n) : Prop where
  frames : FreeOrUsed b.freeList b.mapping
  pageId : ∀ {id f}, b.mapping id = some f → (b.pages f).pageId = id
  alloced : ∀ {id f}, b.mapping id = some f → id ∈ b.disk.allocedPgid

/-- No latch of the pool is held. -/
def Unlatched (b : BufferPoolManager n) : Prop :=
  b.latch = Latch.free ∧ ∀ f, (b.pages f).latch = Latch.free

/-- What holds between two calls while the disk is in order. -/
structure FrameInv (b : BufferPoolManager n) : Prop extends Conserved b where
  latch_free : b.latch = Latch.free
  page_free : ∀ f, (b.pages f).latch = Latch.free
  healthy : ∃ m, b.disk.Healthy m

/-- The pool on a disk some of whose coming reads and writes fail. -/
def withFaults (b : BufferPoolManager n) (faults : List Bool) : BufferPoolManager n :=
  { b with disk := b.disk.withFaults faults }

variable {b b' c : BufferPoolManager n} {id : ℤ} {f : Fin n} {rest : List (Fin n)} {p : Page}
  {faults : List Bool} {r : ClockReplacer n} {d : DiskManager}

theorem withFaults_nil (hd : b.disk.faults = []) : b.withFaults [] = b := by
  unfold withFaults DiskManager.withFaults
  rw [← hd]

theorem page_free_update (h : ∀ g, (b.pages g).latch = Latch.free) (hp : p.latch = Latch.free) (g : Fin n) :
    (update b.pages f p g).latch = Latch.free := by
  obtain rfl | hne := eq_or_ne g f
  · rw [update_self, hp]
  · rw [update_of_ne hne, h]

/-! ## Frames change hands -/

namespace Conserved

theorem mapping_eq_none (h : Conserved b) (hid : id ∉ b.disk.allocedPgid) : b.mapping id = none :=
  Option.eq_none_iff_forall_ne_some.mpr fun _ hf => hid (h.alloced hf)

theorem setDisk (h : Conserved b) (hall : ∀ id f, b.mapping id = some f → id ∈ d.allocedPgid)
    (r : ClockReplacer n) (l : Latch) : Conserved { b with disk := d, replacer := r, latch := l } where
  frames := h.frames
  pageId := h.pageId
  alloced := hall _ _

theorem setPage (h : Conserved b) (hid : p.pageId = (b.pages f).pageId ∨ f ∈ b.freeList) :
    Conserved { b with
      pages := update b.pages f p } where
  frames := h.frames
  pageId {j g} hg := by
    obtain rfl | hne := eq_or_ne g f
    · have hid' := hid.resolve_right fun hf => (h.frames.mem_free g).mp hf j hg
      simpa [hid'] using h.pageId hg
    · simpa [hne] using h.pageId hg
  alloced := h.alloced

theorem enter (h : Conserved b) (hfree : b.freeList = f :: rest) (hm : b.mapping id = none)
    (hall : id ∈ b.disk.allocedPgid) (hid : p.pageId = id) : Conserved { b with
      freeList := rest
      mapping := update b.mapping id (some f)
      pages := update b.pages f p } := by
  have hf : f ∈ b.freeList := by simp [hfree]
  refine ⟨h.frames.enter hfree hm, fun {j g} hg => ?_, fun {j g} hg => ?_⟩
  · rcases h.frames.update_some_cases hf hg with ⟨rfl, rfl⟩ | ⟨-, hne, hg'⟩
    · simp [hid]
    · simpa [hne] using h.pageId hg'
  · rcases h.frames.update_some_cases hf hg with ⟨rfl, -⟩ | ⟨-, -, hg'⟩
    · exact hall
    · exact h.alloced hg'

theorem leave (h : Conserved b) (hm : b.mapping id = some f)
    (hall : ∀ j ∈ b.disk.allocedPgid, j ≠ id → j ∈ d.allocedPgid) (r : ClockReplacer n) : Conserved { b with
      pages := update b.pages f p
      mapping := update b.mapping id none
      freeList := b.freeList ++ [f]
      disk := d
      replacer := r } := by
  refine ⟨h.frames.leave hm, fun {j g} hg => ?_, fun {j g} hg => ?_⟩
  · obtain ⟨-, hne, hg'⟩ := h.frames.update_none_cases hm hg
    simpa [hne] using h.pageId hg'
  · obtain ⟨hne, -, hg'⟩ := h.frames.update_none_cases hm hg
    exact hall j (h.alloced hg') hne

end Conserved

/-! ## The disk behind an eviction -/

theorem evicted_withFaults (hd : b.disk.faults = []) (ho : b.disk.dbOpen = true)
    (h : ((b.withFaults faults).evicted id f).disk.dbFail = false) :
    ∃ rest, (b.withFaults faults).evicted id f = (b.evicted id f).withFaults rest := by
  unfold evicted withFaults at *
  by_cases hdirty : ((b.pages f).setPageId invalidPageId).isDirty = true
  · simp only [if_pos hdirty] at h ⊢
    rw [DiskManager.writePage_withFaults hd ho h]
    exact ⟨_, rfl⟩
  · simp only [if_neg hdirty]
    exact ⟨faults, rfl⟩

theorem evicted_allocedPgid : (b.evicted id f).disk.allocedPgid = b.disk.allocedPgid := by
  unfold evicted
  dsimp only
  split_ifs
  · exact DiskManager.allocedPgid_writePage
  · rfl

namespace FrameInv

theorem disk_faults (h : FrameInv b) : b.disk.faults = [] :=
  h.healthy.choose_spec.faults_eq

theorem disk_open (h : FrameInv b) : b.disk.dbOpen = true := by
  obtain ⟨name, f, recorded, hr, -⟩ := h.healthy.choose_spec.running
  exact hr.streams.dbOpen_eq

theorem disk_dbFail (h : FrameInv b) : b.disk.dbFail = false :=
  h.healthy.choose_spec.dbFail_eq

theorem evicted_disk (h : FrameInv b) (hm : b.mapping id = some f) : (∃ m, (b.evicted id f).disk.Healthy m) ∧
    (b.evicted id f).disk.allocedPgid = b.disk.allocedPgid ∧ (∀ i, 0 ≤ i → i < 4096 → (b.evicted id f).disk.image id i =
      if (b.pages f).isDirty then ((b.pages f).setPageId invalidPageId).data i else b.disk.image id i) ∧
    ∀ j, 0 ≤ j → j ≠ id → ∀ i, 0 ≤ i → i < 4096 → (b.evicted id f).disk.image j i = b.disk.image j i := by
  obtain ⟨m, hd⟩ := h.healthy
  obtain ⟨d, hw, hd', hall, himg, hkeep⟩ :=
    hd.writePage (h.alloced hm) ((b.pages f).setPageId invalidPageId).data
  have hdirty : ((b.pages f).setPageId invalidPageId).isDirty = (b.pages f).isDirty := rfl
  simp only [evicted, hdirty, hw]
  split_ifs
  · exact ⟨⟨m, hd'⟩, hall, himg, hkeep⟩
  · exact ⟨⟨m, hd⟩, rfl, fun _ _ _ => rfl, fun _ _ _ _ _ _ => rfl⟩

theorem evict (h : FrameInv b) (hm : b.mapping id = some f) (r : ClockReplacer n) :
    FrameInv ({ b with replacer := r }.evicted id f) := by
  obtain ⟨hd, hall, -, -⟩ := h.evicted_disk hm
  refine ⟨h.toConserved.leave hm (fun j hj _ => ?_) r, h.latch_free,
    page_free_update h.page_free (h.page_free f), hd⟩
  rw [← hall] at hj
  exact hj

end FrameInv

/-! ## The wait for a frame -/

/-- What the wait for a frame does: nothing, or the page of the victim is evicted. -/
inductive Waited [NeZero n] (b : BufferPoolManager n) : BufferPoolManager n → Prop
  | already : Waited b b
  | evict {id : ℤ} {f : Fin n} {r : ClockReplacer n} (hm : b.mapping id = some f)
    (hv : b.replacer.victim = some (f, r)) (hnil : b.freeList = []) :
    Waited b ({ b with replacer := r }.evicted id f)

theorem Waited.wait_eq [NeZero n] (hw : Waited b c) (hfree : c.freeList ≠ [])
    (hid : ∀ {id f}, b.mapping id = some f → (b.pages f).pageId = id) (hu : Unlatched b) :
    waitForFrame (n + 1) b.locked = some c.locked := by
  obtain ⟨k, rfl⟩ := Nat.exists_eq_succ_of_ne_zero (NeZero.ne n)
  cases hw with
  | already => exact waitForFrame_of_ne (by exact hfree) _
  | @evict id f r hm hv hnil =>
    have hw := waitForFrame_of_victim hu.1 hnil hv (hu.2 f) (by rw [hid hm]; exact hm) k
    rwa [hid hm] at hw

theorem wait_cases [NeZero n] (hf : FreeOrUsed b.freeList b.mapping)
    (hid : ∀ {id f}, b.mapping id = some f → (b.pages f).pageId = id) (hu : Unlatched b) :
    (∃ c f rest, waitForFrame (n + 1) b.locked = some c.locked ∧ Waited b c ∧ c.freeList = f :: rest) ∨
    (waitForFrame (n + 1) b.locked = none ∧ b.freeList = [] ∧ b.replacer.victim = none) := by
  by_cases hfree : b.freeList = []
  · cases hv : b.replacer.victim with
    | none => exact Or.inr ⟨waitForFrame_of_no_victim hu.1 hfree hv _, hfree, rfl⟩
    | some v =>
      obtain ⟨f, r⟩ := v
      -- Without a free frame the victim holds a page, whatever the replacer knows of it.
      obtain ⟨id, hm⟩ := hf.exists_key hfree f
      have hw : Waited b ({ b with replacer := r }.evicted id f) := .evict hm hv hfree
      exact Or.inl ⟨_, f, [], hw.wait_eq (by simp [evicted]) hid hu, hw, by simp [evicted, hfree]⟩
  · obtain ⟨f, rest, hcons⟩ := List.exists_cons_of_ne_nil hfree
    exact Or.inl ⟨b, f, rest, Waited.already.wait_eq hfree hid hu, .already, hcons⟩

namespace Waited

variable [NeZero n]

section

variable (hw : Waited b c)
include hw

theorem mapping_of_some (hm : c.mapping id = some f) : b.mapping id = some f := by
  cases hw with
  | already => exact hm
  | @evict j _ _ =>
    simp only [evicted] at hm
    obtain rfl | hne := eq_or_ne id j
    · simp at hm
    · rwa [update_of_ne hne] at hm

theorem mapping_eq_none (hm : b.mapping id = none) : c.mapping id = none :=
  Option.eq_none_iff_forall_ne_some.mpr fun g hg => by simp [hw.mapping_of_some hg] at hm

theorem mem_free (hf : f ∈ b.freeList) : f ∈ c.freeList := by
  cases hw with
  | already => exact hf
  | evict hm hv hnil => simp [hnil] at hf

theorem allocedPgid_eq : c.disk.allocedPgid = b.disk.allocedPgid := by
  cases hw with
  | already => rfl
  | evict hm hv hnil => exact evicted_allocedPgid

theorem unlatched (h : Unlatched b) : Unlatched c := by
  cases hw with
  | already => exact h
  | evict hm hv hnil => exact ⟨h.1, page_free_update h.2 (h.2 _)⟩

theorem conserved (h : Conserved b) : Conserved c := by
  cases hw with
  | already => exact h
  | @evict v g r hm hv hnil =>
    have hall : (({ b with replacer := r } : BufferPoolManager n).evicted v g).disk.allocedPgid =
      b.disk.allocedPgid := evicted_allocedPgid
    refine h.leave hm (fun j hj _ => ?_) _
    rw [← hall] at hj
    exact hj

theorem frameInv (h : FrameInv b) : FrameInv c := by
  cases hw with
  | already => exact h
  | evict hm hv hnil => exact h.evict hm _

end

theorem of_withFaults (hw : Waited (b.withFaults faults) c) (h : FrameInv b)
    (hok : c.disk.dbFail = false) : ∃ c0 left, Waited b c0 ∧ c = c0.withFaults left := by
  cases hw with
  | already => exact ⟨b, faults, .already, rfl⟩
  | @evict j g r hm hv hnil =>
    obtain ⟨left, heq⟩ := evicted_withFaults (b := { b with replacer := r }) (by exact h.disk_faults)
      (by exact h.disk_open) hok
    exact ⟨_, left, .evict hm hv hnil, heq⟩

end Waited

/-! ## The calls -/

namespace FrameInv

section

variable (h : FrameInv b)
include h

theorem setDisk {m : ℕ} (hd : d.Healthy m)
    (hall : ∀ id f, b.mapping id = some f → id ∈ d.allocedPgid) (r : ClockReplacer n) :
    FrameInv { b with disk := d, replacer := r } :=
  ⟨h.toConserved.setDisk hall r b.latch, h.latch_free, h.page_free, m, hd⟩

theorem setPage (hp : p.latch = Latch.free)
    (hid : p.pageId = (b.pages f).pageId ∨ f ∈ b.freeList) (r : ClockReplacer n) :
    FrameInv { b with pages := update b.pages f p, replacer := r } := by
  obtain ⟨m, hd⟩ := h.healthy
  have hpage : FrameInv { b with pages := update b.pages f p } :=
    ⟨h.toConserved.setPage hid, h.latch_free, page_free_update h.page_free hp, m, hd⟩
  exact hpage.setDisk hd (fun _ _ hm => h.alloced hm) r

theorem pinned [NeZero n] (f : Fin n) : FrameInv (b.pinned f) :=
  h.setPage (p := (b.pages f).addPinCount) (h.page_free f) (Or.inl rfl) (b.replacer.pin f)

theorem unpinned (f : Fin n) (dirty : Bool) : FrameInv (b.unpinned f dirty) := by
  unfold BufferPoolManager.unpinned
  refine h.setPage ?_ (Or.inl ?_) _
  · exact h.page_free f
  · rfl

theorem enter (hfree : b.freeList = f :: rest) (hm : b.mapping id = none)
    (hall : id ∈ b.disk.allocedPgid) (hp : p.latch = Latch.free) (hid : p.pageId = id) : FrameInv { b with
      freeList := rest
      mapping := update b.mapping id (some f)
      pages := update b.pages f p } :=
  ⟨h.toConserved.enter hfree hm hall hid, h.latch_free, page_free_update h.page_free hp, h.healthy⟩

theorem setDisk_newPage {m : ℕ} (hnew : b.disk.NewPage m id d) : FrameInv { b with disk := d } := by
  refine h.setDisk hnew.healthy (fun j g hj => ?_) b.replacer
  rw [hnew.allocedPgid_eq]
  exact Finset.mem_insert_of_mem (h.alloced hj)

theorem allocPage_cases [NeZero n] {flag : UInt8}
    (hcall : b.allocPage flag = some (f, b')) (hd : b'.disk.dbFail = false) :
    ∃ m id d c rest, b.disk.allocPage flag = some (id, d) ∧ b.disk.NewPage m id d ∧
      Waited { b with disk := d } c ∧ FrameInv c ∧ c.freeList = f :: rest ∧ c.mapping id = none ∧
      id ∈ c.disk.allocedPgid ∧ b' = c.given id f rest ∧ FrameInv b' := by
  obtain ⟨m, hm⟩ := h.healthy
  obtain ⟨id, d, ha, ⟨hok, hnew⟩ | ⟨hfail, -⟩⟩ := hm.allocPage_cases flag
  · have hinv : FrameInv { b with disk := d } := h.setDisk_newPage hnew
    rcases wait_cases hinv.frames hinv.pageId ⟨hinv.latch_free, hinv.page_free⟩ with
      ⟨c, g, rest, hw, hwaited, hfree⟩ | ⟨hw, -, -⟩
    · have hc := hwaited.frameInv hinv
      have hnone : c.mapping id = none := hwaited.mapping_eq_none (h.mapping_eq_none hnew.notMem)
      have heq := allocPage_eq h.latch_free ha hw hc.latch_free hfree hnone (hc.page_free g)
      obtain ⟨rfl, rfl⟩ := some_mk_inj (hcall.symm.trans heq)
      have hall : id ∈ c.disk.allocedPgid := by
        rw [hwaited.allocedPgid_eq]
        simp only [hnew.allocedPgid_eq, Finset.mem_insert_self]
      exact ⟨m, id, d, c, rest, ha, hnew, hwaited, hc, hfree, hnone, hall, rfl,
        hc.enter hfree hnone hall (hc.page_free f) rfl⟩
    · -- Without a free frame the call would not have returned.
      rw [allocPage_of_no_frame h.latch_free ha hw] at hcall
      exact absurd hcall (by simp)
  · rw [allocPage_dbFail ha hfail hcall] at hd
    exact absurd hd (by simp)

theorem flush (hm : b.mapping id = some f) :
    (b.disk.writePage id (b.pages f).data).1 = true ∧ FrameInv (b.flushed id f) := by
  obtain ⟨m, hd⟩ := h.healthy
  obtain ⟨d, hw, hd', hall, -, -⟩ := hd.writePage (h.alloced hm) (b.pages f).data
  have hpage : FrameInv { b with pages := update b.pages f ((b.pages f).setIsDirty false) } :=
    h.setPage (p := (b.pages f).setIsDirty false) (h.page_free f) (Or.inl rfl) b.replacer
  rw [flushed, hw]
  refine ⟨rfl, hpage.setDisk hd' (fun j g hj => ?_) b.replacer⟩
  rw [hall]
  exact h.alloced hj

end

end FrameInv

/-- The pool while its latch is held by a reader. -/
def reading (b : BufferPoolManager n) : BufferPoolManager n := { b with latch := ⟨false, 1⟩ }

/-- One round of `flush_all`, without the latch. -/
def flushedItem (b : BufferPoolManager n) (pageId : ℤ) : BufferPoolManager n :=
  match b.mapping pageId with
  | none => b
  | some f => b.flushed pageId f

section FlushAll

variable {order : List ℤ}

theorem flushedItem_mapping (b : BufferPoolManager n) (id : ℤ) : (b.flushedItem id).mapping = b.mapping := by
  unfold flushedItem
  split <;> rfl

theorem foldl_flushedItem_mapping (b : BufferPoolManager n) (order : List ℤ) :
    (order.foldl flushedItem b).mapping = b.mapping := by
  induction order generalizing b with
  | nil => rfl
  | cons id order ih => exact (ih _).trans (flushedItem_mapping b id)

theorem FrameInv.flushedItem (h : FrameInv b) (id : ℤ) : FrameInv (b.flushedItem id) := by
  unfold BufferPoolManager.flushedItem
  split
  · exact h
  · next f hm => exact (h.flush hm).2

theorem FrameInv.foldlM_flushItem (h : FrameInv b) (horder : ∀ id ∈ order, b.mapping id ≠ none)
    (ok : Bool) : order.foldlM flushItem (ok, b.reading) =
      some (ok, (order.foldl BufferPoolManager.flushedItem b).reading) := by
  induction order generalizing b with
  | nil => rfl
  | cons id order ih =>
    obtain ⟨f, hm⟩ := Option.ne_none_iff_exists'.mp (horder id List.mem_cons_self)
    have hread : b.reading.latch.rLock = some ⟨false, 2⟩ := by
      simp [reading, Latch.rLock, Latch.maxReaders]
    have hstep : flushItem (ok, b.reading) id = some (ok, (b.flushedItem id).reading) := by
      unfold flushItem
      rw [flushPage_eq hread (by exact hm) (by exact h.page_free f) (by exact (h.flush hm).1)]
      unfold BufferPoolManager.flushedItem
      rw [hm]
      simp [reading, flushed]
    rw [List.foldlM_cons, hstep, List.foldl_cons]
    refine ih (h.flushedItem id) fun j hj => ?_
    rw [flushedItem_mapping]
    exact horder j (List.mem_cons_of_mem id hj)

theorem FrameInv.foldl_flushedItem (h : FrameInv b) (order : List ℤ) :
    FrameInv (order.foldl BufferPoolManager.flushedItem b) := by
  induction order generalizing b with
  | nil => exact h
  | cons id order ih => exact ih (h.flushedItem id)

theorem FrameInv.flushAll_eq (h : FrameInv b) (horder : ∀ id ∈ order, b.mapping id ≠ none) :
    b.flushAll order = some (true, order.foldl BufferPoolManager.flushedItem b) := by
  have hlock : b.rLock = some b.reading := by
    unfold rLock reading
    rw [h.latch_free, Latch.rLock_free]
    rfl
  have hlatch := (h.foldl_flushedItem order).latch_free
  unfold flushAll
  rw [hlock, some_bind, h.foldlM_flushItem horder]
  simp only [some_bind, rUnlock, reading, Latch.rUnlock_rLocked]
  rw [← hlatch]

theorem FrameInv.flushAll_cases (h : FrameInv b) (horder : ∀ id, id ∈ order ↔ b.mapping id ≠ none) {ok : Bool}
    (hcall : b.flushAll order = some (ok, b')) : order.foldl BufferPoolManager.flushedItem b = b' := by
  rw [h.flushAll_eq fun id hid => (horder id).mp hid] at hcall
  exact (some_mk_inj hcall).2

end FlushAll

theorem FrameInv.deleted (h : FrameInv b) (hm : b.mapping id = some f) : FrameInv (b.deleted id f) := by
  obtain ⟨m, hd⟩ := h.healthy
  obtain ⟨hd', hall, -⟩ := hd.freePage id
  refine ⟨h.toConserved.leave hm (fun j hj hne => ?_) b.replacer, h.latch_free,
    page_free_update h.page_free (h.page_free f), m, hd'⟩
  rw [hall]
  exact Finset.mem_erase.mpr ⟨hne, hj⟩

theorem FrameInv.deletePage_cases (h : FrameInv b) {ok : Bool} (hcall : b.deletePage id = some (ok, b')) :
    (b.mapping id = none ∧ b' = { b with disk := (b.disk.freePage id).2 }) ∨ b' = b ∨
      ∃ f, b.mapping id = some f ∧ (b.pages f).pinCount = 0 ∧ b' = b.deleted id f := by
  cases hm : b.mapping id with
  | none =>
    rw [deletePage_of_none h.latch_free hm] at hcall
    exact Or.inl ⟨rfl, (some_mk_inj hcall).2.symm⟩
  | some f =>
    by_cases hp : (b.pages f).pinCount = 0
    · rw [deletePage_of_idle h.latch_free hm (h.page_free f) hp] at hcall
      exact Or.inr (Or.inr ⟨f, rfl, hp, (some_mk_inj hcall).2.symm⟩)
    · rw [deletePage_of_pinned h.latch_free hm hp] at hcall
      exact Or.inr (Or.inl (some_mk_inj hcall).2.symm)

theorem FrameInv.deletePage (h : FrameInv b) {ok : Bool} (hcall : b.deletePage id = some (ok, b')) : FrameInv b' := by
  rcases h.deletePage_cases hcall with ⟨hm, rfl⟩ | rfl | ⟨f, hm, -, rfl⟩
  · obtain ⟨m, hd⟩ := h.healthy
    obtain ⟨hd', hall, -⟩ := hd.freePage id
    refine h.setDisk hd' (fun j g hj => ?_) b.replacer
    have hne : j ≠ id := by
      rintro rfl
      exact absurd (hj.symm.trans hm) (by simp)
    rw [hall]
    exact Finset.mem_erase.mpr ⟨hne, h.alloced hj⟩
  · exact h
  · exact h.deleted hm

theorem FrameInv.flushPage_cases (h : FrameInv b) {ok : Bool} (hcall : b.flushPage id = some (ok, b')) :
    b' = b.flushedItem id := by
  have hread : b.latch.rLock = some ⟨false, 1⟩ := by
    rw [h.latch_free]
    exact Latch.rLock_free
  unfold BufferPoolManager.flushedItem
  cases hm : b.mapping id with
  | none =>
    rw [flushPage_of_none hread hm] at hcall
    exact (some_mk_inj hcall).2.symm
  | some f =>
    rw [flushPage_eq hread hm (h.page_free f) (h.flush hm).1] at hcall
    exact (some_mk_inj hcall).2.symm

theorem FrameInv.unpinPage_cases (h : FrameInv b) {dirty : Bool} (hcall : b.unpinPage id dirty = some b') :
    b' = b ∨ ∃ f, b.mapping id = some f ∧ b' = b.unpinned f dirty := by
  cases hm : b.mapping id with
  | none =>
    rw [unpinPage_of_none h.latch_free hm] at hcall
    exact Or.inl (Option.some.inj hcall).symm
  | some f =>
    rw [unpinPage_eq h.latch_free hm (h.page_free f)] at hcall
    exact Or.inr ⟨f, rfl, (Option.some.inj hcall).symm⟩

/-- What `get_page` does as long as the page can be read. -/
inductive Fetched [NeZero n] (b : BufferPoolManager n) (id : ℤ) :
    Option (Fin n) → BufferPoolManager n → Prop
  | invalid (hid : id < 0) : Fetched b id none b
  | mapped {f : Fin n} (hm : b.mapping id = some f) : Fetched b id (some f) (b.pinned f)
  | loaded {c : BufferPoolManager n} {f : Fin n} {rest : List (Fin n)} {data : Bytes}
    (hw : Waited b c) (hfree : c.freeList = f :: rest) (hm : b.mapping id = none)
    (hall : id ∈ c.disk.allocedPgid) (hexist : data 0 = statusExist)
    (hread : c.disk.readPage id (c.pages f).data = (true, data, c.disk)) :
    Fetched b id (some f) (c.loaded id f rest data)
  | notExist {c : BufferPoolManager n} {f : Fin n} {rest : List (Fin n)} {data : Bytes}
    (hw : Waited b c) (hfree : c.freeList = f :: rest) (hid : 0 ≤ id) (hm : b.mapping id = none)
    (hexist : data 0 ≠ statusExist) (hread : c.disk.readPage id (c.pages f).data = (true, data, c.disk)) :
    Fetched b id none (c.filled f data)

/-- What `get_page` does when the page cannot be read: the latch stays locked. -/
inductive Stuck [NeZero n] (b : BufferPoolManager n) (id : ℤ) : BufferPoolManager n → Prop
  | intro {c : BufferPoolManager n} {f : Fin n} {rest : List (Fin n)} {data : Bytes}
    (hw : Waited b c) (hfree : c.freeList = f :: rest) (hid : 0 ≤ id) (hm : b.mapping id = none)
    (hbad : (c.disk.readPage id (c.pages f).data).1 = false) :
    Stuck b id (({ c with disk := (c.disk.readPage id (c.pages f).data).2.2 } :
      BufferPoolManager n).locked.filled f data)

theorem FrameInv.readPage_good (h : FrameInv b) (h0 : 0 ≤ id) {dst : Bytes}
    (hgood : ((b.withFaults faults).disk.readPage id dst).1 = true) :
    ∃ data, (b.withFaults faults).disk.readPage id dst = (true, data, b.disk.withFaults faults.tail) ∧
      b.disk.readPage id dst = (true, data, b.disk) ∧ (data 0 = statusExist → id ∈ b.disk.allocedPgid) := by
  obtain ⟨m, hd⟩ := h.healthy
  have hread := DiskManager.readPage_withFaults h.disk_faults h.disk_open hgood
  rcases hd.readPage_cases h0 dst with ⟨hlt, data, hr, hdata⟩ | ⟨-, hbad, -⟩
  · rw [hr] at hread
    refine ⟨data, hread, hr, fun hexist => hd.mem_of_exists h0 hlt ?_⟩
    rw [← hdata 0 le_rfl (by norm_num), hexist]
  · have hbad' := congrArg Prod.fst hread
    rw [hbad] at hbad'
    exact absurd (hgood.symm.trans hbad') (by simp)

theorem FrameInv.getPage_cases [NeZero n] (h : FrameInv b) {res : Option (Fin n)}
    (hcall : (b.withFaults faults).getPage id = some (res, b')) :
    (∃ c left, Fetched b id res c ∧ b' = c.withFaults left) ∨ (res = none ∧ Stuck (b.withFaults faults) id b') := by
  have hl : (b.withFaults faults).latch = Latch.free := h.latch_free
  by_cases hid : id < 0
  · unfold getPage at hcall
    rw [if_pos (by simp only [invalidPageId]; omega)] at hcall
    obtain ⟨rfl, rfl⟩ := some_mk_inj hcall
    exact Or.inl ⟨b, faults, .invalid hid, rfl⟩
  · have h0 : 0 ≤ id := not_lt.mp hid
    cases hm : b.mapping id with
    | some f =>
      have heq := getPage_of_mapped (b := b.withFaults faults) hl h0 hm
      obtain ⟨rfl, rfl⟩ := some_mk_inj (hcall.symm.trans heq)
      exact Or.inl ⟨_, faults, .mapped hm, rfl⟩
    | none =>
      have hu : Unlatched (b.withFaults faults) := ⟨h.latch_free, h.page_free⟩
      rcases wait_cases (b := b.withFaults faults) h.frames h.pageId hu with
        ⟨c, f, rest, hw, hwaited, hfree⟩ | ⟨hw, -, -⟩
      · have hc := hwaited.unlatched hu
        have hnone : c.mapping id = none := hwaited.mapping_eq_none hm
        have heq := getPage_of_read (b := b.withFaults faults) hl h0 hm hw hfree hc.1 hnone
          (hc.2 f) (Prod.mk.eta (p := c.disk.readPage id (c.pages f).data)).symm
        cases hgood : (c.disk.readPage id (c.pages f).data).1 with
        | false =>
          rw [if_pos hgood] at heq
          obtain ⟨rfl, rfl⟩ := some_mk_inj (hcall.symm.trans heq)
          exact Or.inr ⟨rfl, .intro hwaited hfree h0 hm hgood⟩
        | true =>
          -- A page that can be read is read from a disk that has not failed.
          have hok : c.disk.dbFail = false := by
            by_contra hfail
            have hbad := (DiskManager.readPage_of_dbFail (by simpa using hfail) id (c.pages f).data).1
            exact absurd (hgood.symm.trans hbad) (by simp)
          obtain ⟨c0, left, hw0, rfl⟩ := hwaited.of_withFaults h hok
          obtain ⟨data, hread, hread0, hall⟩ := (hw0.frameInv h).readPage_good h0 hgood
          have heq' := getPage_of_read (b := b.withFaults faults) hl h0 hm hw hfree hc.1 hnone
            (hc.2 f) hread
          rw [if_neg (by simp)] at heq'
          by_cases hexist : data 0 = statusExist
          · rw [if_neg (not_not.mpr hexist)] at heq'
            obtain ⟨rfl, rfl⟩ := some_mk_inj (hcall.symm.trans heq')
            exact Or.inl ⟨_, left.tail, .loaded hw0 hfree hm (hall hexist) hexist hread0, rfl⟩
          · rw [if_pos hexist] at heq'
            obtain ⟨rfl, rfl⟩ := some_mk_inj (hcall.symm.trans heq')
            exact Or.inl ⟨_, left.tail, .notExist hw0 hfree h0 hm hexist hread0, rfl⟩
      · -- Without a free frame the call would not have returned.
        have hno := getPage_of_no_frame (b := b.withFaults faults) hl h0 hm hw
        exact absurd (hcall.symm.trans hno) (by simp)

theorem FrameInv.image_of_read (h : FrameInv b) (h0 : 0 ≤ id) {dst data : Bytes}
    (hread : b.disk.readPage id dst = (true, data, b.disk)) {i : ℤ} (hi : 0 ≤ i) (hlt : i < 4096) :
    data i = b.disk.image id i := by
  obtain ⟨m, hd⟩ := h.healthy
  rcases hd.readPage_cases h0 dst with ⟨-, data', hr, hdata⟩ | ⟨-, hbad, -⟩
  · obtain ⟨-, rfl, -⟩ := by simpa using hread.symm.trans hr
    exact hdata i hi hlt
  · simp [hread] at hbad

section

variable [NeZero n]

theorem Fetched.frameInv {res : Option (Fin n)} (hf : Fetched b id res b') (h : FrameInv b) : FrameInv b' := by
  cases hf with
  | invalid => exact h
  | mapped hm => exact h.pinned _
  | loaded hw hfree hm hall =>
    have hc := hw.frameInv h
    exact hc.enter hfree (hw.mapping_eq_none hm) hall (hc.page_free _) rfl
  | @notExist c f rest data hw hfree =>
    have hc := hw.frameInv h
    exact hc.setPage (p := { c.pages f with data := data }) (hc.page_free f) (Or.inr (by simp [hfree]))
      c.replacer

theorem Fetched.getPage_eq {res : Option (Fin n)} (hf : Fetched b id res c) (h : FrameInv b) :
    b.getPage id = some (res, c) := by
  obtain ⟨m, hd⟩ := h.healthy
  cases hf with
  | invalid hid => exact if_pos (by simp only [invalidPageId]; omega)
  | mapped hm => exact getPage_of_mapped h.latch_free (hd.bounds (h.alloced hm)).1 hm
  | @loaded q f rest data hw hfree hm hall hexist hread =>
    have hq := hw.frameInv h
    have h0 := (hd.bounds (hw.allocedPgid_eq ▸ hall)).1
    have heq := getPage_of_read h.latch_free h0 hm
      (hw.wait_eq (by simp [hfree]) h.pageId ⟨h.latch_free, h.page_free⟩) hfree hq.latch_free
      (hw.mapping_eq_none hm) (hq.page_free f) hread
    rwa [if_neg (by simp), if_neg (not_not.mpr hexist)] at heq
  | @notExist q f rest data hw hfree hid hm hexist hread =>
    have hq := hw.frameInv h
    have heq := getPage_of_read h.latch_free hid hm
      (hw.wait_eq (by simp [hfree]) h.pageId ⟨h.latch_free, h.page_free⟩) hfree hq.latch_free
      (hw.mapping_eq_none hm) (hq.page_free f) hread
    rwa [if_neg (by simp), if_pos hexist] at heq

theorem Stuck.latch (hs : Stuck b id b') : b'.latch = ⟨true, 0⟩ := by
  obtain ⟨-, -, -, -, -⟩ := hs
  rfl

theorem FrameInv.stuck_dbFail (h : FrameInv b) (hs : Stuck (b.withFaults faults) id b') : b'.disk.dbFail = true := by
  obtain @⟨c, f, rest, data, hw, hfree, -, -, hbad⟩ := hs
  cases hok : c.disk.dbFail with
  | true => exact (DiskManager.readPage_of_dbFail hok id (c.pages f).data).2
  | false =>
    obtain ⟨c0, left, hw0, rfl⟩ := hw.of_withFaults h hok
    have hfail := DiskManager.readPage_dbFail (d := (c0.withFaults left).disk)
      (by exact (hw0.frameInv h).disk_open) id (c0.pages f).data
    rw [show ((c0.withFaults left).disk.readPage id (c0.pages f).data).1 = false from hbad] at hfail
    exact hfail

end

end Dawn.BufferPoolManager
