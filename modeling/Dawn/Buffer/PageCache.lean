import Dawn.Buffer.PoolInvariant

/-!
# The buffer pool is a transparent cache

A page that comes back from the pool has the bytes that its last holder left, wherever it has been in the
meantime. Beside the pool, a run keeps for every page from `new_page` the bytes that its holders gave it,
and the pages with a write that no dirty `unpin_page` has followed yet. The frame of a page always has its
bytes. Its image on the disk has them too, unless the frame is marked dirty or such a write is pending.

The LSN and the page id in the header are the pool's own, and are left out.
-/

namespace Dawn.BufferPoolManager

open Function

variable {n : ℕ}

/-- The bytes of a page are the same outside the LSN and the page id. -/
def Agree (x y : Bytes) : Prop := ∀ i, 0 ≤ i → i < 4096 → i < 1 ∨ 9 ≤ i → x i = y i

theorem Agree.refl (x : Bytes) : Agree x x := fun _ _ _ _ => rfl

theorem Agree.trans {x y z : Bytes} (h : Agree x y) (h' : Agree y z) : Agree x z :=
  fun i h0 hi hout => (h i h0 hi hout).trans (h' i h0 hi hout)

theorem Agree.symm {x y : Bytes} (h : Agree x y) : Agree y x :=
  fun i h0 hi hout => (h i h0 hi hout).symm

theorem Agree.of_eq {x y : Bytes} (h : ∀ i, 0 ≤ i → i < 4096 → x i = y i) : Agree x y :=
  fun i h0 hi _ => h i h0 hi

theorem agree_setPageId (p : Page) (pageId : ℤ) : Agree (p.setPageId pageId).data p.data := by
  intro i h0 hi hout
  simp only [Page.setPageId, pageIdOffset]
  rw [Bytes.setI32_of_notMem (by omega)]

theorem agree_onLoad (p : Page) (pageId : ℤ) : Agree (p.onLoad pageId).data p.data :=
  fun _ _ _ hout => p.onLoad_data_of_notMem pageId hout

/-! ## Where the bytes of a page are -/

/-- The bytes `c` of the page are in its frame, or on the disk. -/
structure Tracked (b : BufferPoolManager n) (pending : Set ℤ) (id : ℤ) (c : Bytes) : Prop where
  alloced : id ∈ b.disk.allocedPgid
  exist : c 0 = statusExist
  frame : ∀ f, b.mapping id = some f → Agree (b.pages f).data c
  clean : ∀ f, b.mapping id = some f → (b.pages f).isDirty = false → id ∉ pending →
    Agree (b.disk.image id) c
  disk : b.mapping id = none → Agree (b.disk.image id) c

namespace Tracked

variable {b b' : BufferPoolManager n} {held : Multiset (ℤ × Fin n)} {pending pending' : Set ℤ}
  {id j : ℤ} {c : Bytes} {f : Fin n} {p : Page}

section

variable (h : Tracked b pending id c)
include h

theorem congr (hall : id ∈ b'.disk.allocedPgid) (hm : b'.mapping id = b.mapping id)
    (hpage : ∀ f, b.mapping id = some f → (b'.pages f).data = (b.pages f).data ∧
      (b'.pages f).isDirty = (b.pages f).isDirty)
    (himg : ∀ i, 0 ≤ i → i < 4096 → b'.disk.image id i = b.disk.image id i)
    (hpend : id ∈ pending → id ∈ pending') : Tracked b' pending' id c where
  alloced := hall
  exist := h.exist
  frame f hf := by
    rw [hm] at hf
    rw [(hpage f hf).1]
    exact h.frame f hf
  clean f hf hd hnot := by
    rw [hm] at hf
    rw [(hpage f hf).2] at hd
    exact (Agree.of_eq himg).trans (h.clean f hf hd (mt hpend hnot))
  disk hnone := by
    rw [hm] at hnone
    exact (Agree.of_eq himg).trans (h.disk hnone)

theorem evicted (hb : PoolInv b held) {r : ClockReplacer n}
    (hm : b.mapping j = some f) (hidle : j ∉ pending) :
    Tracked ({ b with replacer := r }.evicted j f) pending id c := by
  obtain ⟨-, hall, himg, hkeep⟩ := hb.frameInv.evicted_disk hm
  have h0 := (hb.healthy.choose_spec.bounds h.alloced).1
  have hall' : id ∈ (b.evicted j f).disk.allocedPgid := by
    rw [hall]
    exact h.alloced
  rcases eq_or_ne id j with rfl | hne
  · -- The page itself: it is written back if it is dirty, and on the disk already if it is not.
    have hnone : (b.evicted id f).mapping id = none := by simp [BufferPoolManager.evicted]
    refine ⟨hall', h.exist, fun g hg => absurd (hg.symm.trans hnone) (by simp),
      fun g hg => absurd (hg.symm.trans hnone) (by simp), fun _ => ?_⟩
    refine (Agree.of_eq himg).trans ?_
    by_cases hd : (b.pages f).isDirty = true
    · simp only [hd, if_true]
      exact (agree_setPageId _ _).trans (h.frame f hm)
    · have hclean : (b.pages f).isDirty = false := by simpa using hd
      simp only [hclean]
      exact h.clean f hm hclean hidle
  · refine h.congr hall' (by simp [BufferPoolManager.evicted, hne]) (fun g hg => ?_)
      (hkeep id h0 hne) (fun hp => hp)
    have hgf : g ≠ f := fun he => hne (hb.inj (he ▸ hg) hm)
    simp [BufferPoolManager.evicted, hgf]

theorem freed [NeZero n] (hb : PoolInv b held)
    (hpend : ∀ j ∈ pending, 0 < pins held j) (hf : PoolInv.FrameFreed b held b') : Tracked b' pending id c := by
  cases hf with
  | already => exact h
  | @evict j f r hm hpin =>
    exact h.evicted hb hm fun hj => absurd (hpend j hj) (by omega)

theorem entered (hb : PoolInv b held) {rest : List (Fin n)}
    (hfree : b.freeList = f :: rest) (hne : id ≠ j) : Tracked { b with
      freeList := rest
      mapping := update b.mapping j (some f)
      pages := update b.pages f p } pending id c := by
  refine h.congr h.alloced (by simp [hne]) (fun g hg => ?_) (fun _ _ _ => rfl) (fun hp => hp)
  have hmem : f ∈ b.freeList := by simp [hfree]
  have hgf : g ≠ f := fun he => (hb.mem_free f).mp hmem id (he ▸ hg)
  simp [hgf]

theorem loaded (hm : b.mapping id = none) {rest : List (Fin n)}
    {data : Bytes} (hdata : ∀ i, 0 ≤ i → i < 4096 → data i = b.disk.image id i) :
    Tracked (b.loaded id f rest data) pending id c := by
  have himg := h.disk hm
  refine ⟨h.alloced, h.exist, fun g hg => ?_, fun _ _ _ _ => himg, fun _ => himg⟩
  obtain rfl : f = g := by simpa [BufferPoolManager.loaded] using hg
  simp only [BufferPoolManager.loaded, update_self]
  exact (agree_onLoad _ _).trans ((Agree.of_eq hdata).trans himg)

theorem flushed (hb : PoolInv b held) (hm : b.mapping j = some f) :
    Tracked (b.flushed j f) pending id c ∧ (id = j → Agree ((b.flushed j f).disk.image id) c) := by
  obtain ⟨m, hd⟩ := hb.healthy
  obtain ⟨d, hw, -, hall, himg, hkeep⟩ := hd.writePage (hb.alloced hm) (b.pages f).data
  have h0 := (hd.bounds h.alloced).1
  have hdisk : (b.flushed j f).disk = d := by simp [BufferPoolManager.flushed, hw]
  have hall' : id ∈ (b.flushed j f).disk.allocedPgid := by
    rw [hdisk, hall]
    exact h.alloced
  rcases eq_or_ne id j with rfl | hne
  · have hagree : Agree ((b.flushed id f).disk.image id) c := by
      rw [hdisk]
      exact (Agree.of_eq himg).trans (h.frame f hm)
    refine ⟨⟨hall', h.exist, fun g hg => ?_, fun _ _ _ _ => hagree, fun _ => hagree⟩, fun _ => hagree⟩
    obtain rfl : f = g := Option.some.inj (hm.symm.trans hg)
    simpa [BufferPoolManager.flushed, Page.setIsDirty] using h.frame f hm
  · refine ⟨h.congr hall' rfl (fun g hg => ?_) (fun i hi hi' => ?_) (fun hp => hp),
      fun he => absurd he hne⟩
    · have hgf : g ≠ f := fun he => hne (hb.inj (he ▸ hg) hm)
      simp [BufferPoolManager.flushed, hgf]
    · rw [hdisk]
      exact hkeep id h0 hne i hi hi'

end

theorem of_given {rest : List (Fin n)} (hb : PoolInv (b.given id f rest) held) (pending : Set ℤ) :
    Tracked (b.given id f rest) pending id ((b.given id f rest).pages f).data := by
  have hm : (b.given id f rest).mapping id = some f := by simp [BufferPoolManager.given]
  have hpage : (b.given id f rest).pages f = (b.pages f).onAlloc id := by simp [BufferPoolManager.given]
  refine ⟨hb.alloced hm, ?_, fun g hg => ?_, fun g hg hd => ?_, fun hnone => ?_⟩
  · rw [hpage]
    exact (b.pages f).onAlloc_status id
  · obtain rfl : f = g := Option.some.inj (hm.symm.trans hg)
    exact Agree.refl _
  · obtain rfl : f = g := Option.some.inj (hm.symm.trans hg)
    rw [hpage, Page.onAlloc_isDirty] at hd
    exact absurd hd (by simp)
  · exact absurd (hm.symm.trans hnone) (by simp)

theorem unpinned (h : Tracked b pending id c) (hb : PoolInv b held) (hm : b.mapping j = some f) (dirty : Bool) :
    Tracked (b.unpinned f dirty) (if dirty then pending \ {j} else pending) id c := by
  rcases eq_or_ne id j with rfl | hne
  · refine ⟨h.alloced, h.exist, fun g hg => ?_, fun g hg hd hnot => ?_, h.disk⟩
    · obtain rfl : f = g := Option.some.inj (hm.symm.trans hg)
      simpa [BufferPoolManager.unpinned] using h.frame f hm
    · obtain rfl : f = g := Option.some.inj (hm.symm.trans hg)
      simp only [BufferPoolManager.unpinned, update_self, Bool.or_eq_false_iff] at hd
      simp only [hd.2] at hnot
      exact h.clean f hm hd.1 hnot
  · refine h.congr h.alloced rfl (fun g hg => ?_) (fun _ _ _ => rfl) (fun hp => ?_)
    · have hgf : g ≠ f := fun he => hne (hb.inj (he ▸ hg) hm)
      simp [BufferPoolManager.unpinned, hgf]
    · split_ifs
      · exact ⟨hp, hne⟩
      · exact hp

theorem foldl_flushedItem (h : Tracked b pending id c) (hb : PoolInv b held)
    (order : List ℤ) : Tracked (order.foldl flushedItem b) pending id c ∧
      ((id ∈ order ∧ b.mapping id ≠ none) ∨ Agree (b.disk.image id) c →
        Agree ((order.foldl flushedItem b).disk.image id) c) := by
  induction order generalizing b with
  | nil => exact ⟨h, fun hc => hc.elim (fun hc => absurd hc.1 (by simp)) (fun hc => hc)⟩
  | cons j order ih =>
    rw [List.foldl_cons]
    cases hm : b.mapping j with
    | none =>
      have hitem : b.flushedItem j = b := by
        unfold flushedItem
        rw [hm]
      rw [hitem]
      refine ⟨(ih h hb).1, fun hc => (ih h hb).2 (hc.imp_left fun hc => ⟨?_, hc.2⟩)⟩
      exact (List.mem_cons.mp hc.1).resolve_left fun he => hc.2 (he ▸ hm)
    | some f =>
      have hitem : b.flushedItem j = b.flushed j f := by
        unfold flushedItem
        rw [hm]
      obtain ⟨hj, himg⟩ := h.flushed hb hm
      rw [hitem]
      obtain ⟨htail, hagree⟩ := ih hj (hb.flush hm).2
      refine ⟨htail, fun hc => hagree ?_⟩
      rcases eq_or_ne id j with rfl | hne
      · exact Or.inr (himg rfl)
      · rcases hc with ⟨hmem, hsome⟩ | hc
        · exact Or.inl ⟨(List.mem_cons.mp hmem).resolve_left hne, hsome⟩
        · refine Or.inr ((Agree.of_eq fun i hi hi' => ?_).trans hc)
          obtain ⟨m, hd⟩ := hb.healthy
          obtain ⟨d, hw, -, -, -, hkeep⟩ := hd.writePage (hb.alloced hm) (b.pages f).data
          simp only [BufferPoolManager.flushed, hw]
          exact hkeep id (hd.bounds h.alloced).1 hne i hi hi'

end Tracked

/-! ## Runs -/

/-- The pool and its holders, with the bytes that the holders gave to the pages from `new_page`, and the
pages with a write that no dirty `unpin_page` has followed yet. -/
structure CacheState (n : ℕ) extends PoolState n where
  content : ℤ → Option Bytes
  pending : Set ℤ

/-- What holds of the pool and the bytes of its pages. -/
structure CacheInv (s : CacheState n) : Prop where
  pool : PoolInv s.pool s.held
  pending_held : ∀ id ∈ s.pending, 0 < pins s.held id
  tracked : ∀ id c, s.content id = some c → Tracked s.pool s.pending id c

section Runs

theorem CacheInv.getPage [NeZero n] {s : CacheState n} (h : CacheInv s) {res : Option (Fin n)}
    {b' : BufferPoolManager n} {j : ℤ} (hget : Fetched s.pool j res b') (id : ℤ) (c : Bytes)
    (hc : s.content id = some c) : Tracked b' s.pending id c := by
  have ht := h.tracked id c hc
  cases hget with
  | invalid _ => exact ht
  | @mapped f hm =>
    refine ht.congr ht.alloced rfl (fun g _ => ?_) (fun _ _ _ => rfl) (fun hp => hp)
    by_cases hg : g = f <;> simp [pinned, hg, Page.addPinCount]
  | loaded hw hfree hm hall hexist hread =>
    obtain ⟨hfreed, hc'⟩ := h.pool.freed hw
    have hq := ht.freed h.pool h.pending_held hfreed
    rcases eq_or_ne id j with rfl | hne
    · have h0 := (hc'.healthy.choose_spec.bounds hall).1
      exact hq.loaded (hw.mapping_eq_none hm) fun i => hc'.frameInv.image_of_read h0 hread
    · exact hq.entered hc' hfree hne
  | @notExist q f rest data hw hfree =>
    obtain ⟨hfreed, hq⟩ := h.pool.freed hw
    have htq := ht.freed h.pool h.pending_held hfreed
    refine htq.congr htq.alloced rfl (fun g hg => ?_) (fun _ _ _ => rfl) (fun hp => hp)
    have hgf : g ≠ f := fun he => (hq.mem_free f).mp (by simp [hfree]) id (he ▸ hg)
    simp [filled, hgf]

theorem CacheInv.exists_flushAll {s : CacheState n} (h : CacheInv s) {order : List ℤ}
    (horder : ∀ id, id ∈ order ↔ s.pool.mapping id ≠ none) : ∃ b', s.pool.flushAll order = some (true, b') ∧
      ∀ id c, s.content id = some c → Agree (b'.disk.image id) c := by
  refine ⟨_, h.pool.flushAll_eq fun id hid => (horder id).mp hid, fun id c hc => ?_⟩
  have ht := h.tracked id c hc
  refine (ht.foldl_flushedItem h.pool order).2 ?_
  by_cases hm : s.pool.mapping id = none
  · exact Or.inr (ht.disk hm)
  · exact Or.inl ⟨(horder id).mpr hm, hm⟩

variable [NeZero n]

/-- A step of a run without `delete_page`. Holders write outside the common header, and the last holder
of a page does not give it back as clean while a write is pending. -/
inductive CacheStep : CacheState n → PoolOp n → CacheState n → Prop
  | newPage {b b' : BufferPoolManager n} {held : Multiset (ℤ × Fin n)} {content : ℤ → Option Bytes}
    {pending : Set ℤ} {f : Fin n} (h : b.newPage = some (f, b')) (hd : b'.disk.dbFail = false) :
    CacheStep ⟨⟨b, held⟩, content, pending⟩ .newPage
      ⟨⟨b', ((b'.pages f).pageId, f) ::ₘ held⟩,
        Function.update content (b'.pages f).pageId (some (b'.pages f).data), pending⟩
  | getPage {b : BufferPoolManager n} {held : Multiset (ℤ × Fin n)} {s' : PoolState n}
    {content : ℤ → Option Bytes} {pending : Set ℤ} {id : ℤ}
    (h : PoolStep ⟨b, held⟩ (.getPage id) s') :
    CacheStep ⟨⟨b, held⟩, content, pending⟩ (.getPage id) ⟨s', content, pending⟩
  | unpinPage {b b' : BufferPoolManager n} {held : Multiset (ℤ × Fin n)} {content : ℤ → Option Bytes}
    {pending : Set ℤ} {id : ℤ} {f : Fin n} {dirty : Bool} (hheld : (id, f) ∈ held)
    (h : b.unpinPage id dirty = some b') (hlast : dirty = true ∨ id ∉ pending ∨ 1 < pins held id) :
    CacheStep ⟨⟨b, held⟩, content, pending⟩ (.unpinPage id dirty)
      ⟨⟨b', held.erase (id, f)⟩, content, if dirty then pending \ {id} else pending⟩
  | flushPage {b : BufferPoolManager n} {held : Multiset (ℤ × Fin n)} {s' : PoolState n}
    {content : ℤ → Option Bytes} {pending : Set ℤ} {id : ℤ}
    (h : PoolStep ⟨b, held⟩ (.flushPage id) s') :
    CacheStep ⟨⟨b, held⟩, content, pending⟩ (.flushPage id) ⟨s', content, pending⟩
  | flushAll {b : BufferPoolManager n} {held : Multiset (ℤ × Fin n)} {s' : PoolState n}
    {content : ℤ → Option Bytes} {pending : Set ℤ} {order : List ℤ}
    (h : PoolStep ⟨b, held⟩ (.flushAll order) s') :
    CacheStep ⟨⟨b, held⟩, content, pending⟩ (.flushAll order) ⟨s', content, pending⟩
  | write {b : BufferPoolManager n} {held : Multiset (ℤ × Fin n)} {content : ℤ → Option Bytes}
    {pending : Set ℤ} {id : ℤ} {f : Fin n} {data : Bytes} (hheld : (id, f) ∈ held)
    (hheader : ∀ i, i < comPgHeaderSz ∨ pageSize ≤ i → data i = (b.pages f).data i) :
    CacheStep ⟨⟨b, held⟩, content, pending⟩ (.write f data)
      ⟨⟨b.setPage f { b.pages f with data := data }, held⟩,
        Function.update content id ((content id).map fun _ => data), insert id pending⟩

variable {s s' : CacheState n}

theorem CacheStep.poolStep {op : PoolOp n} (hs : CacheStep s op s') :
    PoolStep s.toPoolState op s'.toPoolState ∧ NoIdleDelete s.toPoolState op := by
  cases hs with
  | newPage h hd => exact ⟨.newPage h hd, trivial⟩
  | getPage h => exact ⟨h, trivial⟩
  | unpinPage hheld h _ => exact ⟨.unpinPage hheld h, trivial⟩
  | flushPage h => exact ⟨h, trivial⟩
  | flushAll h => exact ⟨h, trivial⟩
  | write hheld _ => exact ⟨.write hheld, trivial⟩

theorem CacheInv.newPage {b b' : BufferPoolManager n} {held : Multiset (ℤ × Fin n)}
    {content : ℤ → Option Bytes} {pending : Set ℤ} {f : Fin n}
    (h : CacheInv ⟨⟨b, held⟩, content, pending⟩) (hcall : b.newPage = some (f, b'))
    (hd : b'.disk.dbFail = false) (id : ℤ) (c : Bytes)
    (hc : update content (b'.pages f).pageId (some (b'.pages f).data) id = some c) : Tracked b' pending id c := by
  obtain ⟨m, j, d, q, rest, -, hnew, hinv, hfreed, hq, hfree, hnone, rfl, hb'⟩ :=
    h.pool.allocPage_cases hcall hd
  have hj : ((q.given j f rest).pages f).pageId = j := by simp [given]
  rw [hj] at hc
  rcases eq_or_ne id j with rfl | hne
  · rw [update_self, Option.some.injEq] at hc
    rw [← hc]
    exact Tracked.of_given hb' pending
  · rw [update_of_ne hne] at hc
    have ht := h.tracked id c hc
    have hdisk : Tracked { b with disk := d } pending id c := by
      refine ht.congr ?_ rfl (fun _ _ => ⟨rfl, rfl⟩) (hnew.image_eq id ht.alloced) (fun hp => hp)
      simp only [hnew.allocedPgid_eq]
      exact Finset.mem_insert_of_mem ht.alloced
    exact (hdisk.freed hinv h.pending_held hfreed).entered hq hfree hne

section Holder

variable {b b' : BufferPoolManager n} {held : Multiset (ℤ × Fin n)} {content : ℤ → Option Bytes}
  {pending : Set ℤ} {id : ℤ} {f : Fin n}

omit [NeZero n]

section

variable (h : CacheInv ⟨⟨b, held⟩, content, pending⟩)
include h

theorem CacheInv.unpin_pending (hheld : (id, f) ∈ held)
    {dirty : Bool} (hlast : dirty = true ∨ id ∉ pending ∨ 1 < pins held id) {j : ℤ}
    (hj : j ∈ if dirty then pending \ {id} else pending) : 0 < pins (held.erase (id, f)) j := by
  have hmem : j ∈ pending := by
    split_ifs at hj
    · exact hj.1
    · exact hj
  rcases eq_or_ne j id with rfl | hne
  · have hdirty : dirty = false := by
      cases dirty with
      | false => rfl
      | true => simp at hj
    have hmany : 1 < pins held j := by
      rcases hlast with hd | hnot | hmany
      · simp [hdirty] at hd
      · exact absurd hmem hnot
      · exact hmany
    rw [pins_erase_self hheld]
    omega
  · rw [pins_erase_of_ne hne]
    exact h.pending_held j hmem

theorem CacheInv.flushPage {ok : Bool}
    (hcall : b.flushPage id = some (ok, b')) (j : ℤ) (c : Bytes) (hc : content j = some c) :
    Tracked b' pending j c := by
  rw [h.pool.frameInv.flushPage_cases hcall]
  exact ((h.tracked j c hc).foldl_flushedItem h.pool [id]).1

theorem CacheInv.write (hheld : (id, f) ∈ held) {data : Bytes}
    (hheader : ∀ i, i < comPgHeaderSz ∨ pageSize ≤ i → data i = (b.pages f).data i) (j : ℤ) (c : Bytes)
    (hc : update content id ((content id).map fun _ => data) j = some c) :
    Tracked (b.setPage f { b.pages f with data := data }) (insert id pending) j c := by
  have hm := h.pool.held_mapped hheld
  rcases eq_or_ne j id with rfl | hne
  · -- The page itself has the bytes that were written, and keeps its header.
    rw [update_self] at hc
    obtain ⟨c0, hc0, rfl⟩ := Option.map_eq_some_iff.mp hc
    have ht := h.tracked j c0 hc0
    refine ⟨ht.alloced, ?_, fun g hg => ?_, fun _ _ _ hnot => absurd (Set.mem_insert j _) hnot,
      fun hnone => absurd (hm.symm.trans hnone) (by simp)⟩
    · rw [hheader 0 (by simp), ht.frame f hm 0 le_rfl (by norm_num) (by norm_num)]
      exact ht.exist
    · obtain rfl : f = g := Option.some.inj (hm.symm.trans hg)
      simpa [setPage] using Agree.refl data
  · rw [update_of_ne hne] at hc
    have ht := h.tracked j c hc
    refine ht.congr ht.alloced rfl (fun g hg => ?_) (fun _ _ _ => rfl) (Set.mem_insert_of_mem id)
    have hgf : g ≠ f := fun he => hne (h.pool.inj (he ▸ hg) hm)
    simp [setPage, hgf]

end

end Holder

theorem CacheInv.step (h : CacheInv s) {op : PoolOp n} (hs : CacheStep s op s') : CacheInv s' := by
  have hpool := h.pool.step hs.poolStep.1 hs.poolStep.2
  cases hs with
  | newPage hcall hd =>
    refine ⟨hpool, fun j hj => ?_, h.newPage hcall hd⟩
    exact (h.pending_held j hj).trans_le (pins_le_cons _ j)
  | getPage hstep =>
    cases hstep with
    | getPage hcall hd =>
      refine ⟨hpool, fun j hj => ?_, h.getPage (h.pool.getPage_cases hcall hd)⟩
      exact (h.pending_held j hj).trans_le (pins_le_cons _ j)
    | getPageNull hcall hd =>
      exact ⟨hpool, h.pending_held, h.getPage (h.pool.getPage_cases hcall hd)⟩
  | @unpinPage b b' held content pending id f dirty hheld hcall hlast =>
    have hm := h.pool.held_mapped hheld
    obtain rfl := h.pool.unpinPage_cases hheld hcall
    exact ⟨hpool, fun j => h.unpin_pending hheld hlast, fun j c hc => (h.tracked j c hc).unpinned h.pool hm dirty⟩
  | flushPage hstep =>
    cases hstep with
    | flushPage hcall => exact ⟨hpool, h.pending_held, h.flushPage hcall⟩
  | flushAll hstep =>
    cases hstep with
    | flushAll horder hcall =>
      obtain rfl := h.pool.frameInv.flushAll_cases horder hcall
      exact ⟨hpool, h.pending_held, fun j c hc =>
        ((h.tracked j c hc).foldl_flushedItem h.pool _).1⟩
  | write hheld hheader =>
    refine ⟨hpool, fun j hj => ?_, h.write hheld hheader⟩
    rcases Set.mem_insert_iff.mp hj with rfl | hj
    · exact pins_pos hheld
    · exact h.pending_held j hj

theorem CacheInv.exists_getPage (h : CacheInv s) {id : ℤ} {c : Bytes} (hc : s.content id = some c)
    (hroom : s.pool.mapping id ≠ none ∨ ∃ f, ∀ j, (j, f) ∉ s.held) :
    ∃ f b', s.pool.getPage id = some (some f, b') ∧ Agree (b'.pages f).data c := by
  have ht := h.tracked id c hc
  have h0 := (h.pool.healthy.choose_spec.bounds ht.alloced).1
  cases hm : s.pool.mapping id with
  | some f =>
    refine ⟨f, _, getPage_of_mapped h.pool.latch_free h0 hm, ?_⟩
    simpa [pinned, Page.addPinCount] using ht.frame f hm
  | none =>
    rcases h.pool.wait_disk s.pool.disk with ⟨q, f, rest, hw, hwaited, hfree, -⟩ | ⟨-, hfull⟩
    · obtain ⟨hfreed, hq⟩ := h.pool.freed hwaited
      have htq := ht.freed h.pool h.pending_held hfreed
      have hmq : q.mapping id = none := hfreed.mapping_eq_none hm
      obtain ⟨m, hd⟩ := hq.healthy
      rcases hd.readPage_cases h0 (q.pages f).data with ⟨-, data, hread, hdata⟩ | ⟨hle, -⟩
      · have hexist : data 0 = statusExist := by
          rw [hdata 0 le_rfl (by norm_num), htq.disk hmq 0 le_rfl (by norm_num) (by norm_num)]
          exact htq.exist
        have hget := getPage_of_read h.pool.latch_free h0 hm hw hfree hq.latch_free hmq
          (hq.page_free f) hread
        rw [if_neg (by simp), if_neg (not_not.mpr hexist)] at hget
        refine ⟨f, _, hget, ?_⟩
        exact (htq.loaded hmq hdata).frame f (by simp [BufferPoolManager.loaded])
      · exact absurd (hd.bounds htq.alloced).2 (by omega)
    · obtain ⟨f, hf⟩ := hroom.resolve_left (not_not.mpr hm)
      obtain ⟨j, hj⟩ := hfull f
      exact absurd hj (hf j)

/-- In every run of the pool without `delete_page`, a page from `new_page` comes back with the bytes that
its last holder left, unless all frames are held and there is none for it. Right after `flush_all`, the
disk has those bytes for every such page. -/
theorem transparent_cache {d : DiskManager} {m : ℕ} (hd : d.Healthy m) {lsn : Fin n → ℤ}
    {heap : Fin n → Bytes} {ops : List (PoolOp n)}
    (ht : Trace CacheStep ⟨⟨new d lsn heap, 0⟩, fun _ => none, ∅⟩ ops s) :
    (∀ id c, s.content id = some c → (s.pool.mapping id ≠ none ∨ ∃ f, ∀ j, (j, f) ∉ s.held) →
      ∃ f b', s.pool.getPage id = some (some f, b') ∧ Agree (b'.pages f).data c) ∧
    ∀ order, (∀ id, id ∈ order ↔ s.pool.mapping id ≠ none) →
      ∃ b', s.pool.flushAll order = some (true, b') ∧
        ∀ id c, s.content id = some c → Agree (b'.disk.image id) c := by
  have h : CacheInv s := by
    refine ht.invariant (P := CacheInv) (fun _ _ _ hi hs => hi.step hs) ?_
    exact ⟨poolInv_new hd lsn heap, fun _ hid => absurd hid (Set.notMem_empty _),
      fun _ _ hc => absurd hc (by simp)⟩
  exact ⟨fun id c hc hroom => h.exists_getPage hc hroom, fun order horder => h.exists_flushAll horder⟩

/-- A page is written, given back and evicted for another one. It comes back with the bytes that were written. -/
theorem transparent_cache_newPage : ∃ d lsn heap a c data s f b',
    DiskManager.create (fun _ => none) [100] DiskManager.Uninit.zero [] = some d ∧
    Trace CacheStep ⟨⟨new d lsn heap, 0⟩, fun _ => none, ∅⟩
      [.newPage, .write 0 data, .unpinPage a true, .newPage, .unpinPage c false] (s : CacheState 1) ∧
    data 100 = 7 ∧ s.pool.mapping a = none ∧
    s.pool.getPage a = some (some f, b') ∧ Agree (b'.pages f).data data := by
  obtain ⟨d, m, a, b₁, b₃, b₄, hc, hd, h₁, hok₁, rfl, h₃, -, -, h₄, hok₄, hnone, hinv⟩ :=
    exists_eviction fun data => update data 100 7
  have hheld := Multiset.mem_cons_self ((b₁.pages 0).pageId, (0 : Fin 1)) 0
  have hheld₄ := Multiset.mem_cons_self ((b₄.pages 0).pageId, (0 : Fin 1)) 0
  have h₅ := unpinPage_eq hinv.latch_free (hinv.held_mapped hheld₄) (hinv.page_free 0) false
  have hheader : ∀ i, i < comPgHeaderSz ∨ pageSize ≤ i →
      update (b₁.pages 0).data 100 7 i = (b₁.pages 0).data i := fun i hi =>
    update_of_ne (by simp only [comPgHeaderSz, pageSize] at hi; omega) _ _
  have ht : Trace (CacheStep (n := 1)) ⟨⟨new d (fun _ => 0) fun _ _ => 0, 0⟩, fun _ => none, ∅⟩
      [.newPage, .write 0 (update (b₁.pages 0).data 100 7), .unpinPage (b₁.pages 0).pageId true, .newPage,
        .unpinPage (b₄.pages 0).pageId false] _ :=
    .cons (.newPage h₁ hok₁) (.cons (.write hheld hheader) (.cons (.unpinPage hheld h₃ (Or.inl rfl))
      (.cons (.newPage h₄ hok₄) (.single (.unpinPage (f := 0) (by simp) h₅ (by simp))))))
  have hne : (b₁.pages 0).pageId ≠ (b₄.pages 0).pageId := fun he => by
    rw [he, hinv.held_mapped hheld₄] at hnone
    cases hnone
  obtain ⟨f, b', hget, hagree⟩ := (transparent_cache hd ht).1 (b₁.pages 0).pageId (update (b₁.pages 0).data 100 7)
    (by simp [hne]) (Or.inr ⟨0, fun j => by simp⟩)
  exact ⟨d, _, _, _, _, _, _, f, b', hc, ht, update_self .., hnone, hget, hagree⟩

end Runs

end Dawn.BufferPoolManager
