import Dawn.Buffer.PageCache
import Dawn.Buffer.PoolLatches

/-!
# The buffer pool when the disk fails

A call of `new_page` or `get_page` makes up to two calls of the disk manager: it writes a victim back, and
it allocates or reads the page. None of their results but that of the read is looked at. When the id could
not be allocated, the page is handed out as page `-1`; when the victim could not be written, its bytes are
gone; and when the page could not be read, the latch of the pool stays locked.
-/

namespace Dawn.BufferPoolManager

variable {n : ℕ} {b b' c : BufferPoolManager n} {held : Multiset (ℤ × Fin n)} {id : ℤ} {f : Fin n}
  {res : Option (Fin n)} {faults : List Bool}

/-! ## What a failure does -/

section Failures

theorem newPage_of_allocPage {d d' : DiskManager} {m : ℕ} {flag : UInt8} (hd : d.Healthy m)
    (ha : d.allocPage flag = some (id, d')) (hok : d'.dbFail = false) : d.NewPage m id d' := by
  obtain ⟨id', d'', ha', ⟨-, hnew⟩ | ⟨hfail, -⟩⟩ := hd.allocPage_cases flag <;>
    obtain ⟨rfl, rfl⟩ := some_mk_inj (ha.symm.trans ha')
  · exact hnew
  · exact absurd (hok.symm.trans hfail) (by simp)

variable [NeZero n]

theorem Waited.lost (hw : Waited b c) (hok : b.disk.dbFail = false) (hfail : c.disk.dbFail = true) :
    ∃ v g, b.mapping v = some g ∧ c.mapping v = none := by
  cases hw with
  | already => exact absurd (hok.symm.trans hfail) (by simp)
  | evict hm => exact ⟨_, _, hm, by simp [evicted]⟩

/-- What `new_page` does when the disk may fail: what it does on a disk that never fails, or it hands out
a page without an id, or it loses a page. -/
theorem PoolInv.newPage_withFaults (h : PoolInv b held) (hcall : (b.withFaults faults).newPage = some (f, b')) :
    (∃ c left, b.newPage = some (f, c) ∧ b' = c.withFaults left ∧ c.disk.dbFail = false) ∨
    (b'.disk.dbFail = true ∧ ((b'.mapping (-1) = some f ∧ -1 ∉ b'.disk.allocedPgid) ∨
      ∃ v g, b.mapping v = some g ∧ b'.mapping v = none)) := by
  obtain ⟨m, hd⟩ := h.healthy
  obtain ⟨id, d, ha, hcases⟩ := hd.allocPage_withFaults faults statusExist
  -- The id is new or `-1`, so that the page is in no frame.
  have hnot : id ∉ b.disk.allocedPgid := by
    rcases hcases with ⟨-, d0, ha0, -, hok⟩ | ⟨-, rfl, -⟩
    · exact (newPage_of_allocPage hd ha0 hok).notMem
    · exact fun hc => absurd (hd.bounds hc).1 (by norm_num)
  have hu : Unlatched { b with disk := d } := ⟨h.latch_free, h.page_free⟩
  rcases h.wait_disk d with ⟨c, g, rest, hw, hwaited, hfree, -⟩ | ⟨hw, -⟩
  · have hnone : c.mapping id = none := hwaited.mapping_eq_none (h.mapping_eq_none hnot)
    have hc := hwaited.unlatched hu
    have heq := allocPage_eq (b := b.withFaults faults) h.latch_free ha hw hc.1 hfree hnone (hc.2 g)
    have hfailed := fun hd => allocPage_dbFail ha hd hcall
    obtain ⟨rfl, rfl⟩ := some_mk_inj (hcall.symm.trans heq)
    rcases hcases with ⟨-, d0, ha0, rfl, hok⟩ | ⟨hfail, rfl, hall⟩
    · cases hlost : c.disk.dbFail with
      | true =>
        obtain ⟨v, g, hv, hgone⟩ := hwaited.lost hok hlost
        have hne : v ≠ id := fun he => hnot (h.alloced (he ▸ hv))
        exact Or.inr ⟨hlost, Or.inr ⟨v, g, hv, by simp [given, hne, hgone]⟩⟩
      | false =>
        have hinv : FrameInv { b with disk := d0 } :=
          h.frameInv.setDisk_newPage (newPage_of_allocPage hd ha0 hok)
        obtain ⟨c, left, hw0, rfl⟩ := Waited.of_withFaults (b := { b with disk := d0 }) hwaited hinv hlost
        exact Or.inl ⟨_, left, allocPage_eq h.latch_free ha0
          (hw0.wait_eq (by simp [show c.freeList = _ from hfree]) h.pageId hu) hc.1 hfree hnone (hc.2 f),
          rfl, hlost⟩
    · refine Or.inr ⟨hfailed hfail, Or.inl ⟨by simp [given], ?_⟩⟩
      rwa [show (c.given (-1) f rest).disk.allocedPgid = _ from hwaited.allocedPgid_eq.trans hall]
  · have hno := allocPage_of_no_frame (b := b.withFaults faults) h.latch_free ha hw
    exact absurd (hcall.symm.trans hno) (by simp)

theorem PoolInv.getPage_withFaults (h : PoolInv b held) (hcall : (b.withFaults faults).getPage id = some (res, b')) :
    (∃ c left, b.getPage id = some (res, c) ∧ b' = c.withFaults left ∧ c.disk.dbFail = false) ∨
    (b'.disk.dbFail = true ∧ res = none ∧ b'.latch = ⟨true, 0⟩ ∧
      ((b'.mapping = b.mapping ∧ b'.freeList = b.freeList) ∨ ∃ v g, b.mapping v = some g)) := by
  rcases h.frameInv.getPage_cases hcall with ⟨c, left, hf, rfl⟩ | ⟨rfl, hs⟩
  · exact Or.inl ⟨c, left, hf.getPage_eq h.frameInv, rfl, (hf.frameInv h.frameInv).disk_dbFail⟩
  · refine Or.inr ⟨h.frameInv.stuck_dbFail hs, rfl, hs.latch, ?_⟩
    obtain ⟨hw, -, -, -, -⟩ := hs
    cases hw with
    | already => exact Or.inl ⟨rfl, rfl⟩
    | evict hv => exact Or.inr ⟨_, _, hv⟩

end Failures

/-! ## Runs in which the latest bytes of every page are kept -/

/-- The pool and its holders, and the pages with a write that no dirty `unpin_page` has followed yet. -/
structure LiveState (n : ℕ) extends PoolState n where
  pending : Set ℤ

/-- The bytes of the pages in the pool. -/
def content (b : BufferPoolManager n) (id : ℤ) : Option Bytes :=
  (b.mapping id).map fun f => (b.pages f).data

theorem content_eq (h : b.mapping id = some f) : b.content id = some (b.pages f).data := by
  simp [content, h]

/-- The bytes of every page in the pool are in its frame, and on the disk where the frame is clean. -/
def LiveInv (s : LiveState n) : Prop := CacheInv ⟨s.toPoolState, s.pool.content, s.pending⟩

theorem CacheInv.live {s : CacheState n} (h : CacheInv s)
    (hall : ∀ id f, s.pool.mapping id = some f → ∃ c, Tracked s.pool s.pending id c) :
    LiveInv ⟨s.toPoolState, s.pending⟩ := by
  refine ⟨h.pool, h.pending_held, fun id c hc => ?_⟩
  obtain ⟨f, hm, rfl⟩ := Option.map_eq_some_iff.mp hc
  obtain ⟨c, ht⟩ := hall id f hm
  have hframe := ht.frame f hm
  refine ⟨ht.alloced, ?_, fun g hg => ?_, fun g hg hd hp => ?_, fun hnone => ?_⟩
  · exact (hframe 0 le_rfl (by norm_num) (Or.inl (by norm_num))).trans ht.exist
  · obtain rfl : f = g := Option.some.inj (hm.symm.trans hg)
    exact Agree.refl _
  · exact (ht.clean g hg hd hp).trans hframe.symm
  · exact absurd (hm.symm.trans hnone) (by simp)

section Runs

variable [NeZero n]

/-- What the callers of the pool keep to. Holders write outside the common header, the last holder of a
page does not give it back as clean while a write is pending, and no page is deleted that is in the pool
and not held. -/
def Careful (s : LiveState n) : PoolOp n → Prop
  | .write f data => ∀ i, i < comPgHeaderSz ∨ pageSize ≤ i → data i = (s.pool.pages f).data i
  | .unpinPage id dirty => dirty = true ∨ id ∉ s.pending ∨ 1 < pins s.held id
  | op => NoIdleDelete s.toPoolState op

/-- The pages with a pending write after a call. -/
def pendingAfter (s : LiveState n) : PoolOp n → Set ℤ
  | .write f _ => insert (s.pool.pages f).pageId s.pending
  | .unpinPage id dirty => if dirty then s.pending \ {id} else s.pending
  | _ => s.pending

/-- A step of a run whose disk calls succeed. -/
structure LiveStep (s : LiveState n) (op : PoolOp n) (s' : LiveState n) : Prop where
  pool : PoolStep s.toPoolState op s'.toPoolState
  careful : Careful s op
  pending_eq : s'.pending = pendingAfter s op

variable {s s' : LiveState n}

theorem LiveInv.step (h : LiveInv s) {op : PoolOp n} (hs : LiveStep s op s') : LiveInv s' := by
  obtain ⟨⟨b, held⟩, pending⟩ := s
  obtain ⟨⟨b', held'⟩, pending'⟩ := s'
  obtain ⟨hstep, hop, hpending⟩ := hs
  subst hpending
  -- Where the bytes of all pages were tracked, only a page that came in has to be looked at.
  have hold : ∀ {j g}, b.mapping j = some g → b.content j = some (b.pages g).data := content_eq
  cases hstep with
  | @newPage _ _ _ f hcall hd =>
    have hinv := CacheInv.step h (.newPage hcall hd)
    refine hinv.live fun j g hj => ?_
    obtain ⟨m, id, d, c, rest, -, -, -, hfreed, -, -, -, rfl, -⟩ := h.pool.allocPage_cases hcall hd
    obtain rfl | hne := eq_or_ne j id
    · have hid : ((c.given j f rest).pages f).pageId = j := by simp [given]
      refine ⟨_, hinv.tracked j ((c.given j f rest).pages f).data ?_⟩
      simp only [hid, Function.update_self]
    · have hj' : b.mapping j = some g := hfreed.mapping_of_some (by simpa [given, hne] using hj)
      refine ⟨_, hinv.tracked j (b.pages g).data ?_⟩
      simpa [given, hne] using hold hj'
  | @getPage _ _ _ id f hcall hd =>
    have hinv := CacheInv.step h (.getPage (.getPage hcall hd))
    refine hinv.live fun j g hj => ?_
    cases h.pool.getPage_cases hcall hd with
    | mapped _ => exact ⟨_, hinv.tracked j _ (hold hj)⟩
    | @loaded c _ rest data hw hfree hm hall hexist hread =>
      obtain rfl | hne := eq_or_ne j id
      · have hc := (h.pool.freed hw).2
        have hm' := hw.mapping_eq_none hm
        have hdata : ∀ i, 0 ≤ i → i < 4096 → data i = c.disk.image j i := fun i =>
          hc.frameInv.image_of_read (hc.healthy.choose_spec.bounds hall).1 hread
        have himg : c.disk.image j 0 = statusExist := by
          rw [← hdata 0 le_rfl (by norm_num), hexist]
        have ht : Tracked c pending j (c.disk.image j) :=
          ⟨hall, himg, fun g hg => absurd (hm'.symm.trans hg) (by simp),
            fun g hg => absurd (hm'.symm.trans hg) (by simp), fun _ => Agree.refl _⟩
        exact ⟨_, ht.loaded hm' hdata⟩
      · have hj' : b.mapping j = some g := hw.mapping_of_some (by simpa [loaded, hne] using hj)
        exact ⟨_, hinv.tracked j _ (hold hj')⟩
  | getPageNull hcall hd =>
    have hinv := CacheInv.step h (.getPage (.getPageNull hcall hd))
    refine hinv.live fun j g hj => ?_
    cases h.pool.getPage_cases hcall hd with
    | invalid _ => exact ⟨_, hinv.tracked j _ (hold hj)⟩
    | notExist hw => exact ⟨_, hinv.tracked j _ (hold (hw.mapping_of_some hj))⟩
  | @unpinPage _ _ _ id f dirty hheld hcall =>
    have hinv := CacheInv.step h (.unpinPage hheld hcall hop)
    refine hinv.live fun j g hj => ?_
    obtain rfl := h.pool.unpinPage_cases hheld hcall
    exact ⟨_, hinv.tracked j _ (hold hj)⟩
  | flushPage hcall =>
    have hinv := CacheInv.step h (.flushPage (.flushPage hcall))
    refine hinv.live fun j g hj => ?_
    rw [h.pool.frameInv.flushPage_cases hcall, show _ = b.mapping from flushedItem_mapping b _] at hj
    exact ⟨_, hinv.tracked j _ (hold hj)⟩
  | flushAll horder hcall =>
    have hinv := CacheInv.step h (.flushAll (.flushAll horder hcall))
    refine hinv.live fun j g hj => ?_
    obtain rfl := h.pool.frameInv.flushAll_cases horder hcall
    rw [show (_ : ℤ → Option (Fin n)) = b.mapping from foldl_flushedItem_mapping b _] at hj
    exact ⟨_, hinv.tracked j _ (hold hj)⟩
  | @deletePage _ _ _ id ok hcall =>
    have hpool := h.pool.step (.deletePage hcall) hop
    rcases h.pool.frameInv.deletePage_cases hcall with ⟨hm, rfl⟩ | rfl | ⟨f, hm, h0, -⟩
    · refine ⟨hpool, h.pending_held, fun j c hc => ?_⟩
      obtain ⟨m, hd⟩ := h.pool.healthy
      obtain ⟨-, hall, himg⟩ := hd.freePage id
      have ht := CacheInv.tracked h j c hc
      have hne : j ≠ id := by
        rintro rfl
        simp [content, show b.mapping j = none from hm] at hc
      refine ht.congr ?_ rfl (fun _ _ => ⟨rfl, rfl⟩) (himg j (hd.bounds ht.alloced).1 hne) (fun hp => hp)
      rw [hall]
      exact Finset.mem_erase.mpr ⟨hne, ht.alloced⟩
    · exact h
    · exact absurd h0 (hop f hm)
  | @write _ _ id f data hheld =>
    have hinv := CacheInv.step h (.write hheld hop)
    have hpending : pendingAfter ⟨⟨b, held⟩, pending⟩ (.write f data) = insert id pending :=
      congrArg (insert · pending) (h.pool.pageId (h.pool.held_mapped hheld))
    rw [hpending]
    refine hinv.live fun j g hj => ?_
    obtain rfl | hne := eq_or_ne j id
    · exact ⟨data, hinv.tracked j _ (by simp [hold hj])⟩
    · exact ⟨_, hinv.tracked j (b.pages g).data (by simp [hne, hold hj])⟩

end Runs

/-! ## A call on a disk that may fail -/

/-- A page can be had with the given bytes once the disk works again and a frame is free: the pool is not
locked, and the page is in its frame or can be read from the disk. -/
def Retrievable (b : BufferPoolManager n) (id : ℤ) (c : Bytes) : Prop :=
  b.latch = Latch.free ∧
    ((∃ f, b.mapping id = some f ∧ Agree (b.pages f).data c) ∨
    (b.mapping id = none ∧ ∀ dst, ∃ data d, (b.disk.withFaults []).readPage id dst = (true, data, d) ∧
      data 0 = statusExist ∧ Agree data c))

/-- The pool is intact after a call: a page that was handed out has an id that is allocated, `mapping_`
holds only allocated pages, every frame is in `free_list_` once or has exactly one page, and every page
that was in the pool can still be had with its bytes. -/
structure Intact (b : BufferPoolManager n) (res : Option (Fin n)) (b' : BufferPoolManager n) : Prop where
  reported : ∀ f, res = some f → ∃ id, b'.mapping id = some f ∧ id ∈ b'.disk.allocedPgid
  alloced : ∀ id f, b'.mapping id = some f → id ∈ b'.disk.allocedPgid
  nodup : b'.freeList.Nodup
  frames : ∀ f, Xor (f ∈ b'.freeList) (∃! id, b'.mapping id = some f)
  kept : ∀ id f, b.mapping id = some f → Retrievable b' id (b.pages f).data

/-- `get_page` returns a page that can be had, when a frame is free for it. -/
theorem Retrievable.exists_getPage [NeZero n] {c : Bytes} (h : Retrievable b id c) (h0 : 0 ≤ id)
    (hroom : b.freeList ≠ []) (hp : ∀ g, (b.pages g).latch = Latch.free) :
    ∃ f b', (b.withFaults []).getPage id = some (some f, b') ∧ Agree (b'.pages f).data c := by
  obtain ⟨hl, ⟨f, hm, hagree⟩ | ⟨hm, hread⟩⟩ := h
  · refine ⟨f, _, getPage_of_mapped (b := b.withFaults []) hl h0 hm, ?_⟩
    simpa [pinned, withFaults, Page.addPinCount] using hagree
  · obtain ⟨f, rest, hfree⟩ := List.exists_cons_of_ne_nil hroom
    obtain ⟨data, d, hr, hexist, hagree⟩ := hread (b.pages f).data
    have hget := getPage_of_read (b := b.withFaults []) hl h0 hm (waitForFrame_of_ne (by exact hroom) n)
      hfree hl hm (hp f) hr
    rw [if_neg (by simp), if_neg (not_not.mpr hexist)] at hget
    refine ⟨f, _, hget, ?_⟩
    simp only [loaded, Function.update_self]
    exact (agree_onLoad _ _).trans hagree

theorem Tracked.retrievable {pending : Set ℤ} {c : Bytes} (h : Tracked b pending id c)
    (hb : PoolInv b held) (left : List Bool) : Retrievable (b.withFaults left) id c := by
  refine ⟨hb.latch_free, ?_⟩
  cases hm : b.mapping id with
  | some f => exact Or.inl ⟨f, hm, h.frame f hm⟩
  | none =>
    refine Or.inr ⟨hm, fun dst => ?_⟩
    obtain ⟨m, hd⟩ := hb.healthy
    have hbounds := hd.bounds h.alloced
    obtain ⟨-, data, hread, hdata⟩ | ⟨hle, -⟩ := hd.readPage_cases hbounds.1 dst
    · have hagree : Agree data c := (Agree.of_eq hdata).trans (h.disk hm)
      have hsame : ((b.withFaults left).disk.withFaults []) = b.disk := by
        rw [← hd.faults_eq]
        rfl
      refine ⟨data, b.disk, ?_, ?_, hagree⟩
      · rw [hsame]
        exact hread
      · exact (hagree 0 le_rfl (by norm_num) (Or.inl (by norm_num))).trans h.exist
    · exact absurd hbounds.2 (by omega)

theorem PoolInv.frames (h : PoolInv b held) (f : Fin n) : Xor (f ∈ b.freeList) (∃! id, b.mapping id = some f) := by
  by_cases hf : f ∈ b.freeList
  · exact Or.inl ⟨hf, fun ⟨id, hm, _⟩ => (h.mem_free f).mp hf id hm⟩
  · have hmapped := mt (h.mem_free f).mpr hf
    push Not at hmapped
    obtain ⟨id, hm⟩ := hmapped
    exact Or.inr ⟨⟨id, hm, fun j hj => h.inj hj hm⟩, hf⟩

theorem PoolInv.intact (h : PoolInv c held) (pending : Set ℤ) (hres : ∀ f, res = some f → ∃ id, c.mapping id = some f)
    (hkept : ∀ id f, b.mapping id = some f → Tracked c pending id (b.pages f).data) (left : List Bool) :
    Intact b res (c.withFaults left) where
  reported f hf := by
    obtain ⟨id, hm⟩ := hres f hf
    exact ⟨id, hm, h.alloced hm⟩
  alloced _ _ hm := h.alloced hm
  nodup := h.nodup
  frames := h.frames
  kept id f hm := (hkept id f hm).retrievable h left

theorem Retrievable.dbFail_eq_false {c : Bytes} (h : Retrievable b id c) (hm : b.mapping id = none) :
    b.disk.dbFail = false := by
  obtain ⟨-, ⟨f, hf, -⟩ | ⟨-, hread⟩⟩ := h
  · exact absurd (hm.symm.trans hf) (by simp)
  · obtain ⟨data, d, hr, -⟩ := hread c
    cases hfail : b.disk.dbFail with
    | false => rfl
    | true =>
      have hbad := (DiskManager.readPage_of_dbFail (d := b.disk.withFaults []) hfail id c).1
      rw [hr] at hbad
      exact absurd hbad (by simp)

/-- The two calls that hand out a page. -/
inductive Request where
  | newPage
  | getPage (id : ℤ)

section Requests

variable [NeZero n] {s : LiveState n} {req : Request}

/-- The call of a request. -/
def Request.call (b : BufferPoolManager n) : Request → Option (Option (Fin n) × BufferPoolManager n)
  | .newPage => b.newPage.map fun r => (some r.1, r.2)
  | .getPage id => b.getPage id

/-- No call of the disk manager that the request makes fails. -/
def DiskCallsSucceed (b : BufferPoolManager n) (req : Request) : Prop :=
  ∀ res b', req.call b = some (res, b') → b'.disk.dbFail = false

theorem LiveInv.intact (h : LiveInv s) (hcall : req.call s.pool = some (res, c))
    (hd : c.disk.dbFail = false) (left : List Bool) : Intact s.pool res (c.withFaults left) := by
  obtain ⟨⟨b, held⟩, pending⟩ := s
  cases req with
  | newPage =>
    obtain ⟨⟨f, b'⟩, hnew, he⟩ := Option.map_eq_some_iff.mp hcall
    obtain ⟨rfl, rfl⟩ := Prod.mk.inj he
    have hinv := CacheInv.step h (.newPage hnew hd)
    refine hinv.pool.intact pending (fun g hg => ?_) (fun id g hm => ?_) left
    · obtain rfl : f = g := Option.some.inj hg
      exact ⟨_, hinv.pool.held_mapped (Multiset.mem_cons_self _ _)⟩
    · have hne : id ≠ (b'.pages f).pageId := by
        obtain ⟨m, j, d, q, rest, -, hj, -, -, -, -, -, rfl, -⟩ := h.pool.allocPage_cases hnew hd
        rintro rfl
        exact hj.notMem (h.pool.alloced (by simpa [given] using hm))
      exact hinv.tracked id _ ((Function.update_of_ne hne _ _).trans (content_eq hm))
  | getPage id =>
    cases res with
    | some f =>
      have hinv := CacheInv.step h (.getPage (.getPage hcall hd))
      refine hinv.pool.intact pending (fun g hg => ?_) (fun j g hm => ?_) left
      · obtain rfl : f = g := Option.some.inj hg
        exact ⟨id, hinv.pool.held_mapped (Multiset.mem_cons_self _ _)⟩
      · exact hinv.tracked j _ (content_eq hm)
    | none =>
      have hinv := CacheInv.step h (.getPage (.getPageNull hcall hd))
      exact hinv.pool.intact pending (fun g hg => absurd hg (by simp))
        (fun j g hm => hinv.tracked j _ (content_eq hm)) left

theorem LiveInv.intact_iff (h : LiveInv s) (hcall : req.call (s.pool.withFaults faults) = some (res, b')) :
    Intact s.pool res b' ↔ DiskCallsSucceed (s.pool.withFaults faults) req ∨
      (req ≠ .newPage ∧ ∀ id, s.pool.mapping id = none) := by
  have hsucceed : DiskCallsSucceed (s.pool.withFaults faults) req ↔ b'.disk.dbFail = false := by
    refine ⟨fun hs => hs res b' hcall, fun hd res' c hc => ?_⟩
    obtain ⟨-, rfl⟩ := some_mk_inj (hcall.symm.trans hc)
    exact hd
  rw [hsucceed]
  cases req with
  | newPage =>
    obtain ⟨⟨f, q⟩, hnew, he⟩ := Option.map_eq_some_iff.mp hcall
    obtain ⟨rfl, rfl⟩ := Prod.mk.inj he
    rcases h.pool.newPage_withFaults hnew with ⟨c, left, hc, rfl, hd⟩ | ⟨hfail, hbad⟩
    · have hcall0 : Request.call s.pool .newPage = some (some f, c) := by simp [Request.call, hc]
      exact iff_of_true (h.intact hcall0 hd left) (Or.inl hd)
    · refine iff_of_false (fun hi => ?_) (by simp [hfail])
      obtain ⟨hm, hnot⟩ | ⟨v, g, hv, hlost⟩ := hbad
      · exact hnot (hi.alloced _ _ hm)
      · exact absurd ((hi.kept v g hv).dbFail_eq_false hlost) (by simp [hfail])
  | getPage id =>
    rcases h.pool.getPage_withFaults hcall with ⟨c, left, hc, rfl, hd⟩ | ⟨hfail, rfl, hlatch, hsame⟩
    · have hcall0 : Request.call s.pool (.getPage id) = some (res, c) := hc
      exact iff_of_true (h.intact hcall0 hd left) (Or.inl hd)
    · constructor
      · intro hi
        refine Or.inr ⟨by simp, fun j => Option.eq_none_iff_forall_ne_some.mpr fun g hg => ?_⟩
        have hfree := (hi.kept j g hg).1
        rw [hlatch] at hfree
        exact absurd hfree (by decide)
      · rintro (hd | ⟨-, hempty⟩)
        · exact absurd hd (by simp [hfail])
        · obtain ⟨hmap, hfree⟩ := hsame.resolve_right fun ⟨v, g, hv⟩ => absurd (hv.symm.trans (hempty v)) (by simp)
          refine ⟨fun f hf => absurd hf (by simp), fun j g hj => ?_, ?_, fun f => ?_, fun j g hj => ?_⟩
          · rw [hmap, hempty] at hj
            exact absurd hj (by simp)
          · rw [hfree]
            exact h.pool.nodup
          · rw [hmap, hfree]
            exact h.pool.frames f
          · rw [hempty] at hj
            exact absurd hj (by simp)

/-- The request needs a frame. -/
def NeedsFrame (b : BufferPoolManager n) : Request → Prop
  | .newPage => True
  | .getPage id => 0 ≤ id ∧ b.mapping id = none

theorem PoolInv.call_isSome_iff (h : PoolInv b held) (req : Request) (faults : List Bool) :
    (∃ r, req.call (b.withFaults faults) = some r) ↔ (NeedsFrame b req → ∃ f, ∀ id, (id, f) ∉ held) := by
  have hl : (b.withFaults faults).latch = Latch.free := h.latch_free
  have hheld : (∀ f, ∃ id, (id, f) ∈ held) → ¬ ∃ f, ∀ id, (id, f) ∉ held := fun hfull ⟨f, hf⟩ =>
    let ⟨id, hid⟩ := hfull f
    hf id hid
  cases req with
  | newPage =>
    obtain ⟨m, hd⟩ := h.healthy
    obtain ⟨id, d, ha, -⟩ := hd.allocPage_withFaults faults statusExist
    rcases h.wait_disk d with ⟨c, f, rest, hw, hwaited, hfree, hno⟩ | ⟨hw, hfull⟩
    · have hc := hwaited.unlatched ⟨h.latch_free, h.page_free⟩
      obtain ⟨b', hcall⟩ := exists_allocPage (b := b.withFaults faults) hl ha hw hfree (hc.2 f)
      exact iff_of_true ⟨(some f, b'), Option.map_eq_some_iff.mpr ⟨_, hcall, rfl⟩⟩ fun _ => ⟨f, hno⟩
    · refine iff_of_false (fun ⟨r, hr⟩ => ?_) fun hroom => hheld hfull (hroom trivial)
      obtain ⟨_, hnew, -⟩ := Option.map_eq_some_iff.mp hr
      exact absurd (hnew.symm.trans (allocPage_of_no_frame (b := b.withFaults faults) hl ha hw)) (by simp)
  | getPage id =>
    by_cases hneeds : 0 ≤ id ∧ b.mapping id = none
    · obtain ⟨h0, hm⟩ := hneeds
      rcases h.wait_disk (b.disk.withFaults faults) with ⟨c, f, rest, hw, hwaited, hfree, hno⟩ | ⟨hw, hfull⟩
      · have hc := hwaited.unlatched ⟨h.latch_free, h.page_free⟩
        exact iff_of_true ⟨_, getPage_of_read (b := b.withFaults faults) hl h0 hm hw hfree hc.1
          (hwaited.mapping_eq_none hm) (hc.2 f) (Prod.mk.eta (p := _)).symm⟩ fun _ => ⟨f, hno⟩
      · refine iff_of_false (fun ⟨r, hr⟩ => ?_) fun hroom => hheld hfull (hroom ⟨h0, hm⟩)
        exact absurd (hr.symm.trans (getPage_of_no_frame (b := b.withFaults faults) hl h0 hm hw)) (by simp)
    · refine iff_of_true ?_ fun hn => absurd hn hneeds
      by_cases h0 : 0 ≤ id
      · obtain ⟨f, hm⟩ := Option.ne_none_iff_exists'.mp fun hm => hneeds ⟨h0, hm⟩
        exact ⟨_, getPage_of_mapped (b := b.withFaults faults) hl h0 hm⟩
      · exact ⟨_, if_pos (by simp only [invalidPageId]; omega)⟩

theorem LiveInv.of_trace {d : DiskManager} {m : ℕ} (hd : d.Healthy m) {lsn : Fin n → ℤ}
    {heap : Fin n → Bytes} {ops : List (PoolOp n)}
    (ht : Trace LiveStep ⟨⟨new d lsn heap, 0⟩, ∅⟩ ops s) : LiveInv s := by
  refine ht.invariant (P := LiveInv) (fun _ _ _ hi hs => hi.step hs) ?_
  exact ⟨poolInv_new hd lsn heap, fun _ hid => absurd hid (Set.notMem_empty _),
    fun _ _ hc => absurd hc (by simp [content, new])⟩

/-- A request returns and leaves the pool intact exactly when a frame can be had for it or none is needed,
and no call of the disk manager that it makes fails. The one failure that does no harm is that of a read
while no page is in the pool. -/
theorem request_leaves_pool_intact_iff {d : DiskManager} {m : ℕ} (hd : d.Healthy m) {lsn : Fin n → ℤ}
    {heap : Fin n → Bytes} {ops : List (PoolOp n)}
    (ht : Trace LiveStep ⟨⟨new d lsn heap, 0⟩, ∅⟩ ops s) (req : Request) (faults : List Bool) :
    (∃ res b', req.call (s.pool.withFaults faults) = some (res, b') ∧ Intact s.pool res b') ↔
      (NeedsFrame s.pool req → ∃ f, ∀ id, (id, f) ∉ s.held) ∧
      (DiskCallsSucceed (s.pool.withFaults faults) req ∨
        (req ≠ .newPage ∧ ∀ id, s.pool.mapping id = none)) := by
  have h := LiveInv.of_trace hd ht
  rw [← h.pool.call_isSome_iff req faults]
  constructor
  · rintro ⟨res, b', hcall, hi⟩
    exact ⟨⟨_, hcall⟩, (h.intact_iff hcall).mp hi⟩
  · rintro ⟨⟨⟨res, b'⟩, hcall⟩, hcond⟩
    exact ⟨res, b', hcall, (h.intact_iff hcall).mpr hcond⟩

/-- A new page, for which the page in the only frame of the pool is written to the disk. -/
theorem request_leaves_pool_intact_newPage : ∃ d lsn heap a data s res b',
    DiskManager.create (fun _ => none) [100] DiskManager.Uninit.zero [] = some d ∧
    Trace LiveStep ⟨⟨new d lsn heap, 0⟩, ∅⟩ [.newPage, .write 0 data, .unpinPage a true] (s : LiveState 1) ∧
    s.pool.mapping a = some 0 ∧
    Request.newPage.call (s.pool.withFaults []) = some (res, b') ∧ Intact s.pool res b' := by
  obtain ⟨d, m, a, b₁, b₃, b₄, hc, hd, h₁, hok₁, rfl, h₃, hinv, hmap, h₄, hok₄, -, -⟩ := exists_eviction id
  have hheld := Multiset.mem_cons_self ((b₁.pages 0).pageId, (0 : Fin 1)) 0
  have hs₁ : LiveStep ⟨⟨new d (fun _ => 0) fun _ _ => 0, 0⟩, ∅⟩ .newPage ⟨⟨b₁, _⟩, _⟩ :=
    ⟨.newPage h₁ hok₁, trivial, rfl⟩
  have hs₂ : LiveStep ⟨⟨b₁, _⟩, ∅⟩ (.write 0 (b₁.pages 0).data) ⟨⟨_, _⟩, {(b₁.pages 0).pageId}⟩ :=
    ⟨.write hheld, fun _ _ => rfl, (insert_empty_eq _).symm⟩
  have hs₃ : LiveStep ⟨⟨_, _⟩, {(b₁.pages 0).pageId}⟩ (.unpinPage (b₁.pages 0).pageId true) ⟨⟨b₃, _⟩, _⟩ :=
    ⟨.unpinPage hheld h₃, Or.inl rfl, rfl⟩
  have ht := Trace.cons hs₁ (.cons hs₂ (.single hs₃))
  have hsame : b₃.withFaults [] = b₃ := by
    obtain ⟨k, hk⟩ := hinv.healthy
    rw [← hk.faults_eq]
    rfl
  have hsucceed : DiskCallsSucceed (b₃.withFaults []) .newPage := by
    intro res b' hcall
    rw [hsame, Request.call, h₄] at hcall
    obtain ⟨-, rfl⟩ := some_mk_inj hcall
    exact hok₄
  obtain ⟨res, b', hcall, hi⟩ := (request_leaves_pool_intact_iff hd ht .newPage []).mpr
    ⟨fun _ => ⟨0, by simp⟩, Or.inl hsucceed⟩
  exact ⟨d, _, _, _, _, _, res, b', hc, ht, hmap, hcall, hi⟩

/-- A new page on a database that was just created, on a disk that does not take its write: it is handed
out as page `-1`. -/
theorem failed_alloc_hands_out_page : ∃ d b',
    DiskManager.create (fun _ => none) [100] DiskManager.Uninit.zero [] = some d ∧
    Request.newPage.call ((new d (fun _ => 0) (fun _ _ => 0) : BufferPoolManager 1).withFaults [true]) =
      some (some 0, b') ∧ b'.mapping (-1) = some 0 ∧
    ¬ Intact (new d (fun _ => 0) (fun _ _ => 0) : BufferPoolManager 1) (some 0) b' := by
  obtain ⟨d, m, hc, hm, hd⟩ := DiskManager.exists_healthy
  let b : BufferPoolManager 1 := new d (fun _ => 0) (fun _ _ => 0)
  have hfree : b.freeList = 0 :: [] := rfl
  obtain ⟨name, f, recorded, hr, -⟩ := hd.running
  have hids : (d.withFaults [true]).IdInv := hr.ids.congr rfl rfl rfl
  obtain ⟨id, -, ⟨g, -, -, hfault, -⟩ | ha⟩ :=
    DiskManager.allocPage_cases hids hr.streams.dbOpen_eq statusExist
  · exact absurd hfault (by simp [DiskManager.withFaults])
  · have hcall := allocPage_eq (b := b.withFaults [true]) rfl ha
      (waitForFrame_of_ne (by simp [locked, withFaults, hfree]) 1) rfl hfree rfl rfl
    refine ⟨d, _, hc, Option.map_eq_some_iff.mpr ⟨_, hcall, rfl⟩, by simp [given], fun hi => ?_⟩
    have hmem := hi.alloced (-1) 0 (by simp [given])
    have hsame : (d.withFaults [true]).refill.allocedPgid = d.allocedPgid := hids.refill.2.2.2
    have hneg := (hd.bounds (hsame ▸ hmem)).1
    omega

end Requests

end Dawn.BufferPoolManager
