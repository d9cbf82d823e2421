import Dawn.Buffer.Frames
import Dawn.Lib.Trace

/-!
# Pinned pages stay

What one thread can rely on between two calls of the buffer pool: every frame is free or holds exactly one
page, the pin count of a page is the number of its holders, and the frames in the replacer are those whose
page has no holder. A victim is then never a pinned page.

The invariant has one hole. `delete_page` puts the frame of a page without holders into the free list, and
forgets to take it out of the replacer. Once such a frame is in use again, it can be a victim while its page
is pinned (`delete_evicts_pinned`). Without such a call, no pinned page is ever evicted
(`pinned_page_stays`).
-/

namespace Dawn.BufferPoolManager

open Function

variable {n : ℕ}
/-! ## The invariant -/

/-- How often a page is held. The holders are pairs of a page id and the frame that was handed out. -/
def pins (held : Multiset (ℤ × Fin n)) (id : ℤ) : ℕ := (held.map Prod.fst).count id

section Pins

variable {held : Multiset (ℤ × Fin n)} {id j : ℤ} {f : Fin n}

theorem pins_cons_self : pins ((id, f) ::ₘ held) id = pins held id + 1 := by
  simp [pins]

theorem pins_cons_of_ne (h : j ≠ id) : pins ((id, f) ::ₘ held) j = pins held j := by
  simp [pins, h]

theorem pins_le_cons (e : ℤ × Fin n) (j : ℤ) : pins held j ≤ pins (e ::ₘ held) j :=
  Multiset.count_le_of_le j (Multiset.map_le_map (Multiset.le_cons_self held e))

theorem pins_pos (h : (id, f) ∈ held) : 0 < pins held id :=
  Multiset.count_pos.mpr (Multiset.mem_map_of_mem Prod.fst h)

theorem pins_erase_self (h : (id, f) ∈ held) : pins (held.erase (id, f)) id = pins held id - 1 := by
  conv_rhs => rw [← Multiset.cons_erase h, pins_cons_self]
  rfl

theorem pins_erase_of_ne (hne : j ≠ id) : pins (held.erase (id, f)) j = pins held j := by
  by_cases h : (id, f) ∈ held
  · conv_rhs => rw [← Multiset.cons_erase h, pins_cons_of_ne hne]
  · rw [Multiset.erase_of_notMem h]

end Pins

/-- What holds of the pool between two calls, when the pages are held as given. -/
structure PoolInv (b : BufferPoolManager n) (held : Multiset (ℤ × Fin n)) : Prop where
  latch_free : b.latch = Latch.free
  page_free : ∀ f, (b.pages f).latch = Latch.free
  healthy : ∃ m, b.disk.Healthy m
  alloced : ∀ {id f}, b.mapping id = some f → id ∈ b.disk.allocedPgid
  pageId : ∀ {id f}, b.mapping id = some f → (b.pages f).pageId = id
  pinCount : ∀ {id f}, b.mapping id = some f → (b.pages f).pinCount = pins held id
  held_mapped : ∀ {id f}, (id, f) ∈ held → b.mapping id = some f
  nodup : b.freeList.Nodup
  mem_free : ∀ f, f ∈ b.freeList ↔ ∀ id, b.mapping id ≠ some f
  counted : b.replacer.Counted
  mem_present : ∀ f, f ∈ b.replacer.present ↔ ∃ id, b.mapping id = some f ∧ pins held id = 0

namespace PoolInv

variable {b : BufferPoolManager n} {held : Multiset (ℤ × Fin n)} {id j : ℤ} {f g : Fin n} {p : Page}

theorem inj (h : PoolInv b held) (hid : b.mapping id = some f) (hj : b.mapping j = some f) : id = j :=
  (h.pageId hid).symm.trans (h.pageId hj)

theorem frameInv (h : PoolInv b held) : FrameInv b where
  frames := ⟨h.nodup, h.mem_free, h.inj⟩
  pageId := h.pageId
  alloced := h.alloced
  latch_free := h.latch_free
  page_free := h.page_free
  healthy := h.healthy

theorem of_frameInv (h : FrameInv b) (hpin : ∀ {id f}, b.mapping id = some f → (b.pages f).pinCount = pins held id)
    (hheld : ∀ {id f}, (id, f) ∈ held → b.mapping id = some f) (hcount : b.replacer.Counted)
    (hpresent : ∀ f, f ∈ b.replacer.present ↔ ∃ id, b.mapping id = some f ∧ pins held id = 0) : PoolInv b held where
  latch_free := h.latch_free
  page_free := h.page_free
  healthy := h.healthy
  alloced := h.alloced
  pageId := h.pageId
  pinCount := hpin
  held_mapped := hheld
  nodup := h.frames.nodup
  mem_free := h.frames.mem_free
  counted := hcount
  mem_present := hpresent

section

variable (h : PoolInv b held)
include h

theorem mapping_eq_none (hid : id ∉ b.disk.allocedPgid) : b.mapping id = none :=
  h.frameInv.mapping_eq_none hid

theorem pins_eq_zero (hm : b.mapping id = none) : pins held id = 0 := by
  refine Multiset.count_eq_zero.mpr fun hmem => ?_
  obtain ⟨⟨j, f⟩, hheld, rfl⟩ := Multiset.mem_map.mp hmem
  exact absurd (h.held_mapped hheld) (by simp [hm])

theorem setDisk {d : DiskManager} {m : ℕ} (hd : d.Healthy m)
    (hall : ∀ id f, b.mapping id = some f → id ∈ d.allocedPgid) : PoolInv { b with disk := d } held :=
  of_frameInv (h.frameInv.setDisk hd hall b.replacer) h.pinCount h.held_mapped h.counted h.mem_present

theorem setPage (hlatch : p.latch = (b.pages f).latch)
    (hid : p.pageId = (b.pages f).pageId) (hpin : p.pinCount = (b.pages f).pinCount) :
    PoolInv { b with pages := update b.pages f p } held := by
  refine of_frameInv (h.frameInv.setPage (hlatch.trans (h.page_free f)) (Or.inl hid) b.replacer)
    (fun {id g} hm => ?_) h.held_mapped h.counted h.mem_present
  rcases eq_or_ne g f with rfl | hne
  · simpa [hpin] using h.pinCount hm
  · simpa [hne] using h.pinCount hm

theorem setFree (hlatch : p.latch = Latch.free) (hf : f ∈ b.freeList) :
    PoolInv { b with pages := update b.pages f p } held := by
  refine of_frameInv (h.frameInv.setPage hlatch (Or.inr hf) b.replacer) (fun {id g} hm => ?_)
    h.held_mapped h.counted h.mem_present
  have hne : g ≠ f := fun he => (h.mem_free f).mp hf id (he ▸ hm)
  simpa [hne] using h.pinCount hm

theorem enter {rest : List (Fin n)} (hfree : b.freeList = f :: rest)
    (hm : b.mapping id = none) (hall : id ∈ b.disk.allocedPgid) (hlatch : p.latch = Latch.free)
    (hid : p.pageId = id) (hpin : p.pinCount = 1) : PoolInv { b with
      freeList := rest
      mapping := update b.mapping id (some f)
      pages := update b.pages f p } ((id, f) ::ₘ held) := by
  have hf : f ∈ b.freeList := by simp [hfree]
  have hzero := h.pins_eq_zero hm
  refine of_frameInv (h.frameInv.enter hfree hm hall hlatch hid) (fun {j g} hg => ?_)
    (fun {j g} hg => ?_) h.counted fun g => ?_
  · rcases h.frameInv.frames.update_some_cases hf hg with ⟨rfl, rfl⟩ | ⟨hj, hne, hg'⟩
    · simp [hpin, pins_cons_self, hzero]
    · simpa [hne, pins_cons_of_ne hj] using h.pinCount hg'
  · rcases Multiset.mem_cons.mp hg with he | hg'
    · obtain ⟨rfl, rfl⟩ := Prod.mk.inj he
      simp
    · have hj : j ≠ id := fun he => absurd (h.held_mapped hg') (by simp [he, hm])
      simpa [hj] using h.held_mapped hg'
  · rw [h.mem_present]
    constructor
    · rintro ⟨j, hj, hp⟩
      have hne : j ≠ id := fun he => absurd hj (by simp [he, hm])
      exact ⟨j, by simpa [hne] using hj, by rwa [pins_cons_of_ne hne]⟩
    · rintro ⟨j, hj, hp⟩
      rcases h.frameInv.frames.update_some_cases hf hj with ⟨rfl, -⟩ | ⟨hne, -, hj'⟩
      · simp [pins_cons_self] at hp
      · exact ⟨j, hj', by rwa [pins_cons_of_ne hne] at hp⟩

theorem evict {r : ClockReplacer n} (hm : b.mapping id = some f)
    (hpin : pins held id = 0) (hr : r.present = b.replacer.present.erase f) (hc : r.Counted) :
    PoolInv ({ b with replacer := r }.evicted id f) held := by
  refine of_frameInv (h.frameInv.evict hm r) (fun {j g} hg => ?_) (fun {j g} hg => ?_) hc fun g => ?_
  · obtain ⟨-, hne, hg'⟩ := h.frameInv.frames.update_none_cases hm hg
    simpa [evicted, hne] using h.pinCount hg'
  · have hj : j ≠ id := by
      rintro rfl
      exact absurd (pins_pos hg) (by omega)
    simpa [evicted, hj] using h.held_mapped hg
  · simp only [evicted, hr, Finset.mem_erase, h.mem_present]
    constructor
    · rintro ⟨hgf, j, hj, hp⟩
      have hne : j ≠ id := by
        rintro rfl
        exact hgf (Option.some.inj (hj.symm.trans hm))
      exact ⟨j, by simpa [hne] using hj, hp⟩
    · rintro ⟨j, hj, hp⟩
      obtain ⟨-, hne, hj'⟩ := h.frameInv.frames.update_none_cases hm hj
      exact ⟨hne, j, hj', hp⟩

theorem pin [NeZero n] (hm : b.mapping id = some f) : PoolInv (b.pinned f) ((id, f) ::ₘ held) := by
  refine of_frameInv (h.frameInv.pinned f) (fun {j g} hg => ?_) (fun {j g} hg => ?_) (h.counted.pin f)
    fun g => ?_
  · rcases eq_or_ne g f with rfl | hne
    · obtain rfl := h.inj hm hg
      have := h.pinCount hg
      simp [pinned, Page.addPinCount, pins_cons_self, this]
    · have hj : j ≠ id := by
        rintro rfl
        exact hne (Option.some.inj (hg.symm.trans hm))
      simpa [pinned, hne, pins_cons_of_ne hj] using h.pinCount hg
  · rcases Multiset.mem_cons.mp hg with he | hg'
    · obtain ⟨rfl, rfl⟩ := Prod.mk.inj he
      exact hm
    · exact h.held_mapped hg'
  · simp only [pinned, ClockReplacer.present_pin, Finset.mem_erase, h.mem_present]
    constructor
    · rintro ⟨hgf, j, hj, hp⟩
      have hne : j ≠ id := by
        rintro rfl
        exact hgf (Option.some.inj (hj.symm.trans hm))
      exact ⟨j, hj, by rwa [pins_cons_of_ne hne]⟩
    · rintro ⟨j, hj, hp⟩
      have hne : j ≠ id := by
        rintro rfl
        simp [pins_cons_self] at hp
      refine ⟨?_, j, hj, by rwa [pins_cons_of_ne hne] at hp⟩
      rintro rfl
      exact hne (h.inj hj hm)

theorem unpin (hheld : (id, f) ∈ held) (dirty : Bool) :
    PoolInv (b.unpinned f dirty) (held.erase (id, f)) := by
  have hm := h.held_mapped hheld
  have hpos := pins_pos hheld
  have hpin := h.pinCount hm
  have hself := pins_erase_self hheld
  refine of_frameInv (h.frameInv.unpinned f dirty) (fun {j g} hg => ?_)
    (fun {j g} hg => h.held_mapped (Multiset.mem_of_mem_erase hg)) ?_ fun g => ?_
  · rcases eq_or_ne g f with rfl | hne
    · obtain rfl := h.inj hm hg
      simp only [unpinned, update_self]
      omega
    · have hj : j ≠ id := by
        rintro rfl
        exact hne (Option.some.inj (hg.symm.trans hm))
      simpa [unpinned, hne, pins_erase_of_ne hj] using h.pinCount hg
  · simp only [unpinned]
    split_ifs
    · exact h.counted.unpin f
    · exact h.counted
  · have hpresent : g ∈ (b.unpinned f dirty).replacer.present ↔
        (g = f ∧ pins held id = 1) ∨ g ∈ b.replacer.present := by
      simp only [unpinned]
      split_ifs with h0
      · rw [ClockReplacer.present_unpin, Finset.mem_insert]
        have : pins held id = 1 := by omega
        simp [this]
      · have : pins held id ≠ 1 := by omega
        simp [this]
    rw [hpresent, h.mem_present]
    constructor
    · rintro (⟨rfl, h1⟩ | ⟨j, hj, hp⟩)
      · exact ⟨id, hm, by omega⟩
      · have hne : j ≠ id := by
          rintro rfl
          omega
        exact ⟨j, hj, by rwa [pins_erase_of_ne hne]⟩
    · rintro ⟨j, hj, hp⟩
      rcases eq_or_ne j id with rfl | hne
      · exact Or.inl ⟨Option.some.inj (hj.symm.trans hm), by omega⟩
      · exact Or.inr ⟨j, hj, by rwa [pins_erase_of_ne hne] at hp⟩

end

/-- A frame has become free, for which a page may have been evicted. -/
inductive FrameFreed [NeZero n] (b : BufferPoolManager n) (held : Multiset (ℤ × Fin n)) :
    BufferPoolManager n → Prop
  | already : FrameFreed b held b
  | evict {id : ℤ} {f : Fin n} {r : ClockReplacer n} (hm : b.mapping id = some f)
    (hpin : pins held id = 0) (hv : b.replacer.victim = some (f, r)) (hnil : b.freeList = []) :
    FrameFreed b held ({ b with replacer := r }.evicted id f)

namespace FrameFreed

variable [NeZero n] {c : BufferPoolManager n}

theorem waited (hf : FrameFreed b held c) : Waited b c := by
  cases hf with
  | already => exact .already
  | evict hm _ hv hnil => exact .evict hm hv hnil

theorem mapping_of_some (hf : FrameFreed b held c) (hm : c.mapping id = some f) : b.mapping id = some f :=
  hf.waited.mapping_of_some hm

theorem mapping_eq_none (hf : FrameFreed b held c) (hm : b.mapping id = none) : c.mapping id = none :=
  hf.waited.mapping_eq_none hm

end FrameFreed

section

variable (h : PoolInv b held)
include h

theorem freed [NeZero n] {c : BufferPoolManager n} (hw : Waited b c) :
    FrameFreed b held c ∧ PoolInv c held := by
  cases hw with
  | already => exact ⟨.already, h⟩
  | evict hm hv hnil =>
    obtain ⟨hf, hr, hc⟩ := ClockReplacer.victim_spec h.counted hv
    obtain ⟨j, hj, hpin⟩ := (h.mem_present _).mp hf
    obtain rfl := h.inj hj hm
    exact ⟨.evict hm hpin hv hnil, h.evict hm hpin hr hc⟩

theorem exists_held [NeZero n] (hfree : b.freeList = [])
    (hv : b.replacer.victim = none) (f : Fin n) : ∃ id, (id, f) ∈ held := by
  obtain ⟨id, hm⟩ := h.frameInv.frames.exists_key hfree f
  have hpin : pins held id ≠ 0 := fun hp => by
    obtain ⟨g, r, hg⟩ := ClockReplacer.victim_of_present h.counted ⟨f, (h.mem_present f).mpr ⟨id, hm, hp⟩⟩
    exact absurd (hv.symm.trans hg) (by simp)
  obtain ⟨⟨j, g⟩, hheld, rfl⟩ := Multiset.mem_map.mp (Multiset.count_pos.mp (Nat.pos_of_ne_zero hpin))
  obtain rfl : g = f := Option.some.inj ((h.held_mapped hheld).symm.trans hm)
  exact ⟨j, hheld⟩

theorem wait_disk [NeZero n] (d : DiskManager) :
    (∃ c f rest, waitForFrame (n + 1) ({ b with disk := d } : BufferPoolManager n).locked = some c.locked ∧
      Waited { b with disk := d } c ∧ c.freeList = f :: rest ∧ ∀ id, (id, f) ∉ held) ∨
    (waitForFrame (n + 1) ({ b with disk := d } : BufferPoolManager n).locked = none ∧ ∀ f, ∃ id, (id, f) ∈ held) := by
  rcases BufferPoolManager.wait_cases (b := { b with disk := d }) h.frameInv.frames h.pageId
    ⟨h.latch_free, h.page_free⟩ with ⟨c, f, rest, hw, hwaited, hfree⟩ | ⟨hw, hfree, hv⟩
  · refine Or.inl ⟨c, f, rest, hw, hwaited, hfree, fun id hheld => ?_⟩
    cases hwaited with
    | already => exact (h.mem_free f).mp (by simp [show b.freeList = _ from hfree]) id (h.held_mapped hheld)
    | evict hm hv hnil =>
      obtain ⟨hg, -, -⟩ := ClockReplacer.victim_spec h.counted hv
      obtain ⟨j, hj, hpin⟩ := (h.mem_present _).mp hg
      obtain ⟨rfl, -⟩ : _ = f ∧ _ := by simpa [evicted, show b.freeList = [] from hnil] using hfree
      obtain rfl := h.inj hj (h.held_mapped hheld)
      exact absurd (pins_pos hheld) (by omega)
  · exact Or.inr ⟨hw, h.exists_held hfree hv⟩

theorem setDisk_newPage {m : ℕ} {d : DiskManager} (hnew : b.disk.NewPage m id d) :
    PoolInv { b with disk := d } held := by
  refine h.setDisk hnew.healthy fun j g hj => ?_
  rw [hnew.allocedPgid_eq]
  exact Finset.mem_insert_of_mem (h.alloced hj)

theorem allocPage_cases [NeZero n] {flag : UInt8} {b' : BufferPoolManager n}
    (hcall : b.allocPage flag = some (f, b')) (hd : b'.disk.dbFail = false) :
    ∃ m id d c rest, b.disk.allocPage flag = some (id, d) ∧ b.disk.NewPage m id d ∧ PoolInv { b with disk := d } held ∧
      FrameFreed { b with disk := d } held c ∧ PoolInv c held ∧ c.freeList = f :: rest ∧
      c.mapping id = none ∧ b' = c.given id f rest ∧ PoolInv b' ((id, f) ::ₘ held) := by
  obtain ⟨m, id, d, c, rest, ha, hnew, hwaited, -, hfree, hnone, hall, rfl, -⟩ :=
    h.frameInv.allocPage_cases hcall hd
  have hinv : PoolInv { b with disk := d } held := h.setDisk_newPage hnew
  obtain ⟨hfreed, hc⟩ := hinv.freed hwaited
  exact ⟨m, id, d, c, rest, ha, hnew, hinv, hfreed, hc, hfree, hnone, rfl,
    hc.enter hfree hnone hall (hc.page_free f) rfl rfl⟩

theorem getPage_cases [NeZero n] {res : Option (Fin n)} {b' : BufferPoolManager n}
    (hcall : b.getPage id = some (res, b')) (hd : b'.disk.dbFail = false) : Fetched b id res b' := by
  have hcall' := hcall
  rcases h.frameInv.getPage_cases hcall' with ⟨c, left, hf, -⟩ | ⟨-, hs⟩
  · obtain ⟨-, rfl⟩ := some_mk_inj (hcall.symm.trans (hf.getPage_eq h.frameInv))
    exact hf
  · exact absurd ((h.frameInv.stuck_dbFail hs).symm.trans hd) (by simp)

theorem getPage_eq_none_iff [NeZero n] (h0 : 0 ≤ id) :
    b.getPage id = none ↔ b.mapping id = none ∧ ∀ f, ∃ j, (j, f) ∈ held := by
  cases hm : b.mapping id with
  | some f => simp [getPage_of_mapped h.latch_free h0 hm]
  | none =>
    rcases h.wait_disk b.disk with ⟨c, f, rest, hw, hwaited, hfree, hno⟩ | ⟨hw, hall⟩
    · obtain ⟨-, hc⟩ := h.freed hwaited
      have heq := getPage_of_read h.latch_free h0 hm hw hfree hc.latch_free (hwaited.mapping_eq_none hm)
        (hc.page_free f) (Prod.mk.eta (p := c.disk.readPage id (c.pages f).data)).symm
      refine iff_of_false (by simp [heq]) fun ⟨_, hall⟩ => ?_
      obtain ⟨j, hj⟩ := hall f
      exact hno j hj
    · exact iff_of_true (getPage_of_no_frame h.latch_free h0 hm hw) ⟨rfl, hall⟩

theorem unpinPage_cases {b' : BufferPoolManager n} {dirty : Bool} (hheld : (id, f) ∈ held)
    (hcall : b.unpinPage id dirty = some b') : b.unpinned f dirty = b' :=
  Option.some.inj ((unpinPage_eq h.latch_free (h.held_mapped hheld) (h.page_free f) dirty).symm.trans hcall)

theorem flush (hm : b.mapping id = some f) :
    (b.disk.writePage id (b.pages f).data).1 = true ∧ PoolInv (b.flushed id f) held := by
  obtain ⟨hgood, hinv⟩ := h.frameInv.flush hm
  have hpage : PoolInv { b with pages := update b.pages f ((b.pages f).setIsDirty false) }
      held := h.setPage rfl rfl rfl
  obtain ⟨m, hd⟩ := hinv.healthy
  exact ⟨hgood, hpage.setDisk hd fun j g hj => hinv.alloced hj⟩

end

end PoolInv

section FlushAll

variable {b : BufferPoolManager n} {held : Multiset (ℤ × Fin n)} {order : List ℤ}

theorem PoolInv.flushedItem (h : PoolInv b held) (id : ℤ) : PoolInv (b.flushedItem id) held := by
  unfold BufferPoolManager.flushedItem
  split
  · exact h
  · next f hm => exact (h.flush hm).2

theorem PoolInv.foldl_flushedItem (h : PoolInv b held) (order : List ℤ) :
    PoolInv (order.foldl BufferPoolManager.flushedItem b) held := by
  induction order generalizing b with
  | nil => exact h
  | cons id order ih => exact ih (h.flushedItem id)

theorem PoolInv.flushAll_eq (h : PoolInv b held) (horder : ∀ id ∈ order, b.mapping id ≠ none) :
    b.flushAll order = some (true, order.foldl BufferPoolManager.flushedItem b) :=
  h.frameInv.flushAll_eq horder

end FlushAll

/-! ## New pages -/

section NewPage

theorem allocPage_of_free [NeZero n] {b : BufferPoolManager n} {f : Fin n} {rest : List (Fin n)} {m : ℕ}
    (hl : b.latch = Latch.free) (hfree : b.freeList = f :: rest)
    (hp : (b.pages f).latch = Latch.free) (hd : b.disk.Healthy m) (hm : m < 2^19)
    (hall : ∀ id g, b.mapping id = some g → id ∈ b.disk.allocedPgid) (flag : UInt8) :
    ∃ id d, b.disk.NewPage m id d ∧ d.dbFail = false ∧
      b.allocPage flag = some (f, ({ b with disk := d } : BufferPoolManager n).given id f rest) := by
  obtain ⟨id, d, ha, ⟨hok, hnew⟩ | ⟨-, hfull⟩⟩ := hd.allocPage_cases flag
  · refine ⟨id, d, hnew, hok, allocPage_eq hl ha (waitForFrame_of_ne ?_ n) hl hfree ?_ hp⟩
    · simp [locked, hfree]
    · by_contra hne
      obtain ⟨g, hg⟩ := Option.ne_none_iff_exists'.mp hne
      exact hnew.notMem (hall id g hg)
  · omega

theorem newPage_of_free [NeZero n] {b : BufferPoolManager n} {f : Fin n} {rest : List (Fin n)} {m : ℕ}
    (hl : b.latch = Latch.free) (hfree : b.freeList = f :: rest)
    (hp : (b.pages f).latch = Latch.free) (hd : b.disk.Healthy m) (hm : m < 2^19)
    (hall : ∀ id g, b.mapping id = some g → id ∈ b.disk.allocedPgid) :
    ∃ id d, b.disk.NewPage m id d ∧ d.dbFail = false ∧
      b.newPage = some (f, ({ b with disk := d } : BufferPoolManager n).given id f rest) :=
  allocPage_of_free hl hfree hp hd hm hall statusExist

theorem newPage_of_victim [NeZero n] {b : BufferPoolManager n} {f : Fin n} {r : ClockReplacer n}
    {m : ℕ} (hl : b.latch = Latch.free) (hfree : b.freeList = [])
    (hv : b.replacer.victim = some (f, r)) (hp : (b.pages f).latch = Latch.free)
    (hf : b.mapping (b.pages f).pageId = some f) (hd : b.disk.Healthy m) (hm : m < 2^19)
    (hall : ∀ id g, b.mapping id = some g → id ∈ b.disk.allocedPgid) :
    ∃ b', b.newPage = some (f, b') ∧ b'.disk.dbFail = false ∧ b'.mapping (b.pages f).pageId = none := by
  obtain ⟨k, rfl⟩ := Nat.exists_eq_succ_of_ne_zero (NeZero.ne n)
  obtain ⟨id, d, ha, ⟨hok, hnew⟩ | ⟨-, hfull⟩⟩ := hd.allocPage_cases statusExist
  · have hmem : (b.pages f).pageId ∈ d.allocedPgid := by
      rw [hnew.allocedPgid_eq]
      exact Finset.mem_insert_of_mem (hall _ f hf)
    have hne : (b.pages f).pageId ≠ id := fun he => hnew.notMem (he ▸ hall _ f hf)
    have hnone : b.mapping id = none := by
      by_contra hsome
      obtain ⟨g, hg⟩ := Option.ne_none_iff_exists'.mp hsome
      exact hnew.notMem (hall id g hg)
    have hw := waitForFrame_of_victim (b := { b with disk := d }) hl hfree hv hp hf k
    let c := ({ b with disk := d, replacer := r } : BufferPoolManager _).evicted (b.pages f).pageId f
    have hc : c.freeList = f :: [] := by simp [c, evicted, hfree]
    refine ⟨_, allocPage_eq hl ha hw hl hc ?_ ?_, ?_, ?_⟩
    · simp [evicted, hnone, hne.symm]
    · simpa [evicted, Page.setPageId] using hp
    · obtain ⟨d', hw', hd', -⟩ := hnew.healthy.writePage hmem ((b.pages f).setPageId invalidPageId).data
      simp only [given, evicted, hw']
      split_ifs
      · exact hd'.dbFail_eq
      · exact hok
    · simp [given, evicted, hne]
  · omega

end NewPage

/-! ## Runs of one thread -/

/-- The pool, and the pages that were handed out and not given back yet. -/
structure PoolState (n : ℕ) where
  pool : BufferPoolManager n
  held : Multiset (ℤ × Fin n)

/-- What one thread does: it calls the pool, and writes to a page that it holds. -/
inductive PoolOp (n : ℕ) where
  | newPage
  | getPage (id : ℤ)
  | unpinPage (id : ℤ) (dirty : Bool)
  | flushPage (id : ℤ)
  | flushAll (order : List ℤ)
  | deletePage (id : ℤ)
  | write (f : Fin n) (data : Bytes)

section Runs

variable [NeZero n]

/-- The step of a call whose disk calls succeed. A page is only given back by one of its holders, and
`flush_all` sees each page in the pool. -/
inductive PoolStep : PoolState n → PoolOp n → PoolState n → Prop
  | newPage {b b' : BufferPoolManager n} {held : Multiset (ℤ × Fin n)} {f : Fin n}
    (h : b.newPage = some (f, b')) (hd : b'.disk.dbFail = false) :
    PoolStep ⟨b, held⟩ .newPage ⟨b', ((b'.pages f).pageId, f) ::ₘ held⟩
  | getPage {b b' : BufferPoolManager n} {held : Multiset (ℤ × Fin n)} {id : ℤ} {f : Fin n}
    (h : b.getPage id = some (some f, b')) (hd : b'.disk.dbFail = false) :
    PoolStep ⟨b, held⟩ (.getPage id) ⟨b', (id, f) ::ₘ held⟩
  | getPageNull {b b' : BufferPoolManager n} {held : Multiset (ℤ × Fin n)} {id : ℤ}
    (h : b.getPage id = some (none, b')) (hd : b'.disk.dbFail = false) :
    PoolStep ⟨b, held⟩ (.getPage id) ⟨b', held⟩
  | unpinPage {b b' : BufferPoolManager n} {held : Multiset (ℤ × Fin n)} {id : ℤ} {f : Fin n}
    {dirty : Bool} (hheld : (id, f) ∈ held) (h : b.unpinPage id dirty = some b') :
    PoolStep ⟨b, held⟩ (.unpinPage id dirty) ⟨b', held.erase (id, f)⟩
  | flushPage {b b' : BufferPoolManager n} {held : Multiset (ℤ × Fin n)} {id : ℤ} {ok : Bool}
    (h : b.flushPage id = some (ok, b')) : PoolStep ⟨b, held⟩ (.flushPage id) ⟨b', held⟩
  | flushAll {b b' : BufferPoolManager n} {held : Multiset (ℤ × Fin n)} {order : List ℤ} {ok : Bool}
    (horder : ∀ id, id ∈ order ↔ b.mapping id ≠ none) (h : b.flushAll order = some (ok, b')) :
    PoolStep ⟨b, held⟩ (.flushAll order) ⟨b', held⟩
  | deletePage {b b' : BufferPoolManager n} {held : Multiset (ℤ × Fin n)} {id : ℤ} {ok : Bool}
    (h : b.deletePage id = some (ok, b')) : PoolStep ⟨b, held⟩ (.deletePage id) ⟨b', held⟩
  | write {b : BufferPoolManager n} {held : Multiset (ℤ × Fin n)} {id : ℤ} {f : Fin n} {data : Bytes}
    (hheld : (id, f) ∈ held) :
    PoolStep ⟨b, held⟩ (.write f data) ⟨b.setPage f { b.pages f with data := data }, held⟩

/-- The call does not delete a page that is in the pool and not held. -/
def NoIdleDelete (s : PoolState n) : PoolOp n → Prop
  | .deletePage id => ∀ f, s.pool.mapping id = some f → (s.pool.pages f).pinCount ≠ 0
  | _ => True

variable {s s' : PoolState n}

theorem PoolInv.step (h : PoolInv s.pool s.held) {op : PoolOp n} (hs : PoolStep s op s')
    (hop : NoIdleDelete s op) : PoolInv s'.pool s'.held := by
  cases hs with
  | newPage hcall hd =>
    obtain ⟨m, id, d, c, rest, -, -, -, -, -, -, -, rfl, hinv⟩ := h.allocPage_cases hcall hd
    simpa [given] using hinv
  | getPage hcall hd =>
    cases h.getPage_cases hcall hd with
    | mapped hm => exact h.pin hm
    | loaded hw hfree hm hall =>
      obtain ⟨-, hc⟩ := h.freed hw
      exact hc.enter hfree (hw.mapping_eq_none hm) hall (hc.page_free _) rfl rfl
  | getPageNull hcall hd =>
    cases h.getPage_cases hcall hd with
    | invalid hid => exact h
    | notExist hw hfree =>
      obtain ⟨-, hc⟩ := h.freed hw
      exact hc.setFree (hc.page_free _) (by simp [hfree])
  | unpinPage hheld hcall =>
    obtain rfl := h.unpinPage_cases hheld hcall
    exact h.unpin hheld _
  | flushPage hcall =>
    rw [h.frameInv.flushPage_cases hcall]
    exact h.flushedItem _
  | flushAll horder hcall =>
    obtain rfl := h.frameInv.flushAll_cases horder hcall
    exact h.foldl_flushedItem _
  | deletePage hcall =>
    have hinv := h.frameInv.deletePage hcall
    rcases h.frameInv.deletePage_cases hcall with ⟨-, rfl⟩ | rfl | ⟨f, hm, h0, -⟩
    · exact of_frameInv hinv h.pinCount h.held_mapped h.counted h.mem_present
    · exact h
    · exact absurd h0 (hop f hm)
  | write hheld => exact h.setPage rfl rfl rfl

theorem poolInv_new {d : DiskManager} {m : ℕ} (hd : d.Healthy m) (lsn : Fin n → ℤ)
    (heap : Fin n → Bytes) : PoolInv (new d lsn heap) 0 where
  latch_free := rfl
  page_free _ := rfl
  healthy := ⟨m, hd⟩
  alloced h := absurd h (by simp [new])
  pageId h := absurd h (by simp [new])
  pinCount h := absurd h (by simp [new])
  held_mapped h := absurd h (Multiset.notMem_zero _)
  nodup := List.nodup_finRange n
  mem_free f := by simp [new]
  counted := ClockReplacer.counted_new
  mem_present f := by simp [new, ClockReplacer.new]

/-- As long as no page is deleted that is in the pool and not held, a page that was handed out stays in
its frame until it is given back, no other page comes into that frame, and a victim is never pinned. -/
theorem pinned_page_stays {d : DiskManager} {m : ℕ} (hd : d.Healthy m) {lsn : Fin n → ℤ}
    {heap : Fin n → Bytes} {ops : List (PoolOp n)}
    (ht : Trace (fun s op s' => PoolStep s op s' ∧ NoIdleDelete s op) ⟨new d lsn heap, 0⟩ ops s) :
    (∀ id f, (id, f) ∈ s.held → s.pool.mapping id = some f ∧ (s.pool.pages f).pageId = id ∧
      (s.pool.pages f).pinCount = pins s.held id ∧ ∀ j, s.pool.mapping j = some f → j = id) ∧
    ∀ f r, s.pool.replacer.victim = some (f, r) → (s.pool.pages f).pinCount = 0 := by
  have h : PoolInv s.pool s.held :=
    ht.invariant (P := fun s => PoolInv s.pool s.held) (fun _ _ _ hi hs => hi.step hs.1 hs.2)
      (poolInv_new hd lsn heap)
  refine ⟨fun id f hheld => ?_, fun f r hv => ?_⟩
  · have hm := h.held_mapped hheld
    exact ⟨hm, h.pageId hm, h.pinCount hm, fun j hj => h.inj hj hm⟩
  · obtain ⟨hf, -, -⟩ := ClockReplacer.victim_spec h.counted hv
    obtain ⟨id, hm, hpin⟩ := (h.mem_present f).mp hf
    rw [h.pinCount hm, hpin]
    rfl

end Runs

/-- A pool of one frame on a database that was just created: a page is written and given back, and it is evicted
for another page. -/
theorem exists_eviction (g : Bytes → Bytes) : ∃ d m a, ∃ b₁ b₃ b₄ : BufferPoolManager 1,
    DiskManager.create (fun _ => none) [100] DiskManager.Uninit.zero [] = some d ∧ d.Healthy m ∧
    (new d (fun _ => 0) fun _ _ => 0 : BufferPoolManager 1).newPage = some (0, b₁) ∧ b₁.disk.dbFail = false ∧
    (b₁.pages 0).pageId = a ∧
    (b₁.setPage 0 { b₁.pages 0 with data := g (b₁.pages 0).data }).unpinPage a true = some b₃ ∧ PoolInv b₃ 0 ∧
    b₃.mapping a = some 0 ∧ b₃.newPage = some (0, b₄) ∧ b₄.disk.dbFail = false ∧ b₄.mapping a = none ∧
    PoolInv b₄ (((b₄.pages 0).pageId, 0) ::ₘ 0) := by
  obtain ⟨d, m, hc, hm, hd⟩ := DiskManager.exists_healthy
  let b : BufferPoolManager 1 := new d (fun _ => 0) fun _ _ => 0
  have hfree : b.freeList = 0 :: [] := rfl
  obtain ⟨a, d₁, hnew, hok, hcall⟩ := newPage_of_free (b := b) rfl hfree rfl hd (by omega) (by simp [b, new])
  generalize hb₁ : ({ b with disk := d₁ } : BufferPoolManager 1).given a 0 [] = b₁ at hcall
  have hok₁ : b₁.disk.dbFail = false := by rw [← hb₁]; exact hok
  have hid₁ : (b₁.pages 0).pageId = a := by simp [← hb₁, given]
  have h₁ : PoolInv b₁ ((a, 0) ::ₘ 0) := hid₁ ▸ (poolInv_new hd _ _).step (.newPage hcall hok₁) trivial
  have hheld := Multiset.mem_cons_self (a, (0 : Fin 1)) 0
  have h₂ : PoolInv (b₁.setPage 0 { b₁.pages 0 with data := g (b₁.pages 0).data }) _ := h₁.step (.write hheld) trivial
  have hunpin := unpinPage_eq h₂.latch_free (h₂.held_mapped hheld) (h₂.page_free 0) true
  have h₃ := h₂.step (.unpinPage hheld hunpin) trivial
  rw [Multiset.erase_cons_head] at h₃
  generalize hb₃ : BufferPoolManager.unpinned (n := 1) _ 0 true = b₃ at hunpin h₃
  have hdisk : b₃.disk = d₁ := by rw [← hb₃, ← hb₁]; rfl
  have hmap : b₃.mapping a = some 0 := by simp [← hb₃, ← hb₁, unpinned, given, setPage]
  -- The frame is not held any more, so that it is the victim for the next page.
  obtain ⟨f, r, hv⟩ := ClockReplacer.victim_of_present h₃.counted ⟨0, (h₃.mem_present 0).mpr ⟨a, hmap, rfl⟩⟩
  obtain rfl : f = 0 := Subsingleton.elim _ _
  have hnil : b₃.freeList = [] := by
    refine List.eq_nil_iff_forall_not_mem.mpr fun f hf => ?_
    rw [Subsingleton.elim f 0, h₃.mem_free] at hf
    exact hf a hmap
  have hle := hnew.le
  obtain ⟨b₄, hcall₄, hok₄, hnone⟩ := newPage_of_victim h₃.latch_free hnil hv (h₃.page_free 0)
    (by rw [h₃.pageId hmap, hmap]) (hdisk ▸ hnew.healthy) (by omega) fun _ _ => h₃.alloced
  rw [h₃.pageId hmap] at hnone
  exact ⟨d, m, a, b₁, b₃, b₄, hc, hd, hcall, hok₁, hid₁, hunpin, h₃, hmap, hcall₄, hok₄, hnone,
    h₃.step (.newPage hcall₄ hok₄) trivial⟩

/-- The page that was evicted is not in the pool any more, and the one that is held stays. -/
theorem pinned_page_stays_newPage : ∃ d lsn heap a data s,
    DiskManager.create (fun _ => none) [100] DiskManager.Uninit.zero [] = some d ∧
    Trace (fun s op s' => PoolStep s op s' ∧ NoIdleDelete s op) ⟨new d lsn heap, 0⟩
      [.newPage, .write 0 data, .unpinPage a true, .newPage] (s : PoolState 1) ∧
    s.pool.mapping a = none ∧ ∃ id, (id, 0) ∈ s.held ∧ s.pool.mapping id = some 0 := by
  obtain ⟨d, m, a, b₁, b₃, b₄, hc, hd, h₁, hok₁, rfl, h₃, -, -, h₄, hok₄, hnone, -⟩ := exists_eviction id
  have hheld := Multiset.mem_cons_self ((b₁.pages 0).pageId, (0 : Fin 1)) 0
  have ht : Trace (fun s op s' => PoolStep s op s' ∧ NoIdleDelete s op) ⟨new d (fun _ => 0) fun _ _ => 0, 0⟩
      [.newPage, .write 0 (b₁.pages 0).data, .unpinPage (b₁.pages 0).pageId true, .newPage] _ :=
    .cons ⟨.newPage h₁ hok₁, trivial⟩ (.cons ⟨.write hheld, trivial⟩ (.cons ⟨.unpinPage hheld h₃, trivial⟩
      (.single ⟨.newPage h₄ hok₄, trivial⟩)))
  exact ⟨d, _, _, _, _, _, hc, ht, hnone, (b₄.pages 0).pageId, by simp,
    ((pinned_page_stays hd ht).1 _ _ (by simp)).1⟩

/-! ## A page is deleted that is in the pool and not held -/

/-- A pool of one frame: a page is given back and deleted, and two new pages are asked for. The first of
them is evicted for the second while it is held. -/
theorem delete_evicts_pinned : ∃ d a c lsn heap s,
    DiskManager.create (fun _ => none) [100] DiskManager.Uninit.zero [] = some d ∧
    Trace (PoolStep (n := 1)) ⟨new d lsn heap, 0⟩
      [.newPage, .unpinPage a false, .deletePage a, .newPage, .newPage] s ∧
    (c, 0) ∈ s.held ∧ s.pool.mapping c ≠ some 0 := by
  obtain ⟨d, m, hc, hm, hd⟩ := DiskManager.exists_healthy
  -- The first page comes into the frame.
  let b0 : BufferPoolManager 1 := new d (fun _ => 0) (fun _ _ => 0)
  have hfree0 : b0.freeList = 0 :: [] := rfl
  obtain ⟨a, d1, hnew1, hok1, hcall1⟩ := newPage_of_free (b := b0) rfl hfree0 rfl hd (by omega)
    (by simp [b0, new])
  generalize hb1 : ({ b0 with disk := d1 } : BufferPoolManager 1).given a 0 [] = b1 at hcall1
  have hl1 : b1.latch = Latch.free := by rw [← hb1]; rfl
  have hp1 : (b1.pages 0).latch = Latch.free := by simp [← hb1, given, b0, new, Page.new]
  have hm1 : b1.mapping = update (fun _ => none) a (some 0) := by rw [← hb1]; rfl
  -- It is given back, and deleted.
  have hcall2 : b1.unpinPage a false = some _ := unpinPage_eq hl1 (by simp [hm1]) hp1 false
  generalize hb2 : b1.unpinned 0 false = b2 at hcall2
  have hr2 : b2.replacer = (ClockReplacer.new 1).unpin 0 := by
    simp [← hb2, ← hb1, unpinned, given, b0, new]
  have hcall3 : b2.deletePage a = some (true, b2.deleted a 0) := deletePage_of_idle
    (by rw [← hb2]; exact hl1) (by simp [← hb2, unpinned, hm1]) (by simpa [← hb2, unpinned] using hp1)
    (by simp [← hb2, ← hb1, unpinned, given])
  generalize hb3 : b2.deleted a 0 = b3 at hcall3
  have hm3 : b3.mapping = fun _ => none := by
    simp [← hb3, ← hb2, deleted, unpinned, hm1]
  -- The next page comes into the frame, which is still in the replacer.
  have hd3 : b3.disk.Healthy (max m (a.toNat + 1)) := by
    have := (hnew1.healthy.freePage a).1
    simpa [← hb3, ← hb2, ← hb1, deleted, unpinned, given] using this
  have hle1 := hnew1.le
  have hfree3 : b3.freeList = 0 :: [] := by simp [← hb3, ← hb2, ← hb1, deleted, unpinned, given]
  obtain ⟨c, d4, hnew4, hok4, hcall4⟩ := newPage_of_free (b := b3)
    (by rw [← hb3, ← hb2]; exact hl1) hfree3
    (by simpa [← hb3, ← hb2, deleted, unpinned, Page.setPageId] using hp1) hd3 (by omega)
    (by simp [hm3])
  generalize hb4 : ({ b3 with disk := d4 } : BufferPoolManager 1).given c 0 [] = b4 at hcall4
  have hr4 : b4.replacer = (ClockReplacer.new 1).unpin 0 := by
    rw [← hr2, ← hb4, ← hb3]
    rfl
  have hm4 : b4.mapping = update (fun _ => none) c (some 0) := by rw [← hb4, ← hm3]; rfl
  have hid4 : (b4.pages 0).pageId = c := by simp [← hb4, given]
  have hdisk4 : b4.disk = d4 := by rw [← hb4]; rfl
  have hle4 := hnew4.le
  -- So the frame is the victim for the last page.
  obtain ⟨g, r, hv⟩ : ∃ g r, b4.replacer.victim = some (g, r) := by
    rw [hr4]
    exact ClockReplacer.victim_of_present (ClockReplacer.counted_new.unpin 0)
      ⟨0, by simp [ClockReplacer.present_unpin]⟩
  obtain rfl : g = 0 := Subsingleton.elim _ _
  have hall4 : ∀ id g, b4.mapping id = some g → id ∈ b4.disk.allocedPgid := by
    intro id g hg
    rcases eq_or_ne id c with rfl | hne
    · rw [hdisk4, hnew4.allocedPgid_eq]
      exact Finset.mem_insert_self _ _
    · simp [hm4, hne] at hg
  obtain ⟨b5, hcall5, hok5, hm5⟩ := newPage_of_victim (b := b4)
    (by rw [← hb4, ← hb3, ← hb2]; exact hl1) (by rw [← hb4]; rfl) hv
    (by simpa [← hb4, ← hb3, ← hb2, given, deleted, unpinned, Page.setPageId] using hp1)
    (by simp [hid4, hm4]) (hdisk4 ▸ hnew4.healthy) (by omega) hall4
  rw [hid4] at hm5
  have hid1 : (b1.pages 0).pageId = a := by simp [← hb1, given]
  refine ⟨d, a, c, fun _ => 0, fun _ _ => 0, ⟨b5, ((b5.pages 0).pageId, 0) ::ₘ (c, 0) ::ₘ 0⟩, hc, ?_,
    by simp, by simp [hm5]⟩
  have hstep1 : PoolStep ⟨b0, 0⟩ .newPage ⟨b1, (a, 0) ::ₘ 0⟩ := by
    rw [← hid1]
    exact .newPage hcall1 (by rw [← hb1]; exact hok1)
  have hstep2 : PoolStep ⟨b1, (a, 0) ::ₘ 0⟩ (.unpinPage a false) ⟨b2, 0⟩ := by
    have hstep := PoolStep.unpinPage (Multiset.mem_cons_self (a, 0) 0) hcall2
    rwa [Multiset.erase_cons_head] at hstep
  have hstep4 : PoolStep ⟨b3, 0⟩ .newPage ⟨b4, (c, 0) ::ₘ 0⟩ := by
    rw [← hid4]
    exact .newPage hcall4 (by rw [hdisk4]; exact hok4)
  exact .cons hstep1 (.cons hstep2 (.cons (.deletePage hcall3) (.cons hstep4
    (.single (.newPage hcall5 hok5)))))

end Dawn.BufferPoolManager
