import Dawn.Buffer.TmpPages
import Dawn.Executors.UnionExecutor

/-!
# The executor of products computes only empty products

The temporary pages of `UnionExecutor` are not initialised as table pages. In a frame that was never used
no tuple can be inserted, and `open` takes one page after the other for ever (`openExec_blank`). Where it
returns, exactly one page is in memory. `get_next` does not move `pos_` on, so that it returns the first
tuple of that page again and again as soon as the right child has a tuple. What remains is the product of
which one side is empty (`computesProduct_iff`).
-/

namespace Dawn

open BufferPoolManager

/-! ## Pages and frames -/

section Pages

variable {p : Page} {t : Tuple}

theorem TablePage.getEmptySlot_latch : (TablePage.getEmptySlot p).2.latch = p.latch := by
  unfold TablePage.getEmptySlot
  split
  · rfl
  · split_ifs <;> rfl

theorem TablePage.insertTuple_latch : (TablePage.insertTuple p t).2.latch = p.latch := by
  rcases he : TablePage.getEmptySlot p with ⟨k, q⟩
  have hq : q.latch = p.latch := by
    rw [← TablePage.getEmptySlot_latch (p := p), he]
  simp only [TablePage.insertTuple, he]
  split_ifs
  · exact hq
  · exact hq

variable {n : ℕ} {b : BufferPoolManager n}

theorem BufferPoolManager.LatchesKept.unlatched {c : BufferPoolManager n} (h : LatchesKept b c)
    (hb : b.Unlatched) : c.Unlatched :=
  ⟨h.pool.trans hb.1, fun f => (h.pages f).trans (hb.2 f)⟩

theorem BufferPoolManager.Unlatched.setPage (hb : b.Unlatched) {f : Fin n} (hp : p.latch = Latch.free) :
    (b.setPage f p).Unlatched := by
  refine ⟨hb.1, fun g => ?_⟩
  obtain rfl | hne := eq_or_ne g f
  · simpa [BufferPoolManager.setPage] using hp
  · simpa [BufferPoolManager.setPage, hne] using hb.2 g

theorem BufferPoolManager.Unlatched.exists_deletePage (hb : b.Unlatched) (id : ℤ) :
    ∃ ok c, b.deletePage id = some (ok, c) := by
  cases hm : b.mapping id with
  | none => exact ⟨_, _, deletePage_of_none hb.1 hm⟩
  | some f =>
    by_cases hpin : (b.pages f).pinCount = 0
    · exact ⟨_, _, deletePage_of_idle hb.1 hm (hb.2 f) hpin⟩
    · exact ⟨_, _, deletePage_of_pinned hb.1 hm hpin⟩

end Pages

/-! ## Frames that were never used -/

section Blank

variable {n : ℕ} {b c : BufferPoolManager n}

/-- The frames are as the constructor of the pool leaves them. -/
def BufferPoolManager.Blank (b : BufferPoolManager n) : Prop :=
  ∀ f i, 9 ≤ i → i < 4096 → (b.pages f).data i = 0

theorem BufferPoolManager.Blank.tail (h : b.Blank) (hkept : FramesKept b c) : c.Blank :=
  fun f i hi hi' => (hkept.tail f i hi).trans (h f i hi hi')

theorem BufferPoolManager.blank_new [NeZero n] (d : DiskManager) (lsn : Fin n → ℤ)
    (heap : Fin n → Bytes) : (BufferPoolManager.new d lsn heap).Blank := by
  intro f i hi hi'
  simp only [BufferPoolManager.new, Page.new, pageSize, Bytes.memset]
  exact Bytes.memcpy_of_mem (by omega) (by omega)

theorem BufferPoolManager.Blank.count_eq (h : b.Blank) (f : Fin n) :
    TablePage.getTupleCount (b.pages f) = 0 ∧ TablePage.getFreeSpacePointer (b.pages f) = 0 := by
  constructor
  · have hoff : TablePage.tupleCntOffset = 140 := rfl
    exact Bytes.i32_eq_zero fun i hi => h f _ (by omega) (by omega)
  · have hoff : TablePage.freeSpacePtrOffset = 72 := rfl
    exact Bytes.i32_eq_zero fun i hi => h f _ (by omega) (by omega)

theorem BufferPoolManager.Blank.insertTuple (h : b.Blank) (f : Fin n) {t : Tuple} (ht : 0 ≤ t.size) :
    TablePage.insertTuple (b.pages f) t = (none, b.pages f) := by
  obtain ⟨hc, hf⟩ := h.count_eq f
  have hspace : TablePage.getFreeSpace (b.pages f) = -144 := by
    simp [TablePage.getFreeSpace, hc, hf, TablePage.firstTupleOffset, TablePage.tupleCntOffset,
      TablePage.freeSpacePtrOffset, TablePage.nextPgidOffset, TablePage.prevPgidOffset, TablePage.startOffset]
  have hslot : TablePage.getEmptySlot (b.pages f) = (-1, b.pages f) := by
    simp [TablePage.getEmptySlot, hc, hspace, TablePage.tupleRecordSz]
  simp only [TablePage.insertTuple, hslot, hspace]
  rw [if_pos (by omega)]

end Blank

namespace UnionExecutor

variable {n : ℕ} [NeZero n] {σ ρ : Type} {u u' : UnionExecutor n σ ρ} {f g : Fin n} {right : ρ}

/-! ## What `open` leaves -/

/-- The executor between two calls of the loop of `initialize`, and after it: one page is in memory, and
nothing has been read from the right child. -/
structure Primed (right : ρ) (u : UnionExecutor n σ ρ) (f : Fin n) : Prop where
  inMemPages_eq : u.inMemPages = [f]
  inMemIdx_eq : u.inMemIdx = 0
  pos_eq : u.pos = {}
  innerNext_eq : u.innerNext = true
  right_eq : u.right = right
  unlatched : u.bpm.Unlatched

theorem addTmpPage_primed (hmem : u.inMemPages = []) (hidx : u.inMemIdx = 0) (hpos : u.pos = {})
    (hnext : u.innerNext = true) (hright : u.right = right) (hb : u.bpm.Unlatched)
    (h : u.addTmpPage = some (f, u')) : Primed right u' f ∧ u.bpm.newTmpPage = some (f, u'.bpm) := by
  obtain ⟨⟨g, b⟩, hnew, he⟩ := bind_eq_some.mp h
  obtain ⟨rfl, rfl⟩ := some_mk_inj he
  exact ⟨⟨by simp [hmem], hidx, hpos, hnext, hright, (allocPage_kept hnew).unlatched hb⟩, hnew⟩

omit [NeZero n] in
theorem Primed.makeRoom (h : Primed right u f) (hroom : u.makeRoom = some u') :
    u'.inMemPages = [] ∧ u'.inMemIdx = 0 ∧ u'.pos = {} ∧ u'.innerNext = true ∧ u'.right = right ∧ u'.bpm.Unlatched := by
  unfold UnionExecutor.makeRoom at hroom
  rw [if_pos (by simp [h.inMemPages_eq]), h.inMemPages_eq] at hroom
  obtain ⟨b, hunpin, he⟩ := bind_eq_some.mp hroom
  obtain rfl := Option.some.inj he
  exact ⟨rfl, h.inMemIdx_eq, h.pos_eq, h.innerNext_eq, h.right_eq, (unpinPage_kept hunpin).unlatched h.unlatched⟩

theorem Primed.insertLeft (h : Primed right u f) (hins : u.insertLeft f = some (g, u')) : Primed right u' g := by
  refine insertLeft.partial_correctness
    (fun f u r => Primed right u f → Primed right r.2 r.1) ?_ f u (g, u') hins h
  intro loop ih f u r hr hu
  rcases hi : TablePage.insertTuple (u.page f) u.leftChildTuple with ⟨rid, p⟩
  have hp : p.latch = Latch.free := by
    have hkeep := TablePage.insertTuple_latch (p := u.page f) (t := u.leftChildTuple)
    rw [hi] at hkeep
    exact hkeep.trans (hu.unlatched.2 f)
  have hset : Primed right { u with bpm := u.bpm.setPage f p } f :=
    ⟨hu.inMemPages_eq, hu.inMemIdx_eq, hu.pos_eq, hu.innerNext_eq, hu.right_eq, hu.unlatched.setPage hp⟩
  simp only [hi] at hr
  split_ifs at hr with hsome
  · obtain rfl := Option.some.inj hr
    exact hset
  · obtain ⟨u1, hroom, hr⟩ := bind_eq_some.mp hr
    obtain ⟨⟨f1, u2⟩, hadd, hr⟩ := bind_eq_some.mp hr
    obtain ⟨hmem, hidx, hpos, hnext, hright, hb⟩ := hset.makeRoom hroom
    exact ih f1 u2 r hr (addTmpPage_primed hmem hidx hpos hnext hright hb hadd).1

theorem Primed.copyLeft (h : Primed right u f) {leftChild : Executor σ}
    (hcopy : u.copyLeft leftChild f = some u') : ∃ g, Primed right u' g := by
  refine copyLeft.partial_correctness leftChild
    (fun f u r => Primed right u f → ∃ g, Primed right r g) ?_ f u u' hcopy h
  intro loop ih f u r hr hu
  split at hr
  · obtain rfl := Option.some.inj hr
    exact ⟨f, hu.inMemPages_eq, hu.inMemIdx_eq, hu.pos_eq, hu.innerNext_eq, hu.right_eq, hu.unlatched⟩
  · next t left hnext =>
    obtain ⟨⟨f1, u1⟩, hins, hr⟩ := bind_eq_some.mp hr
    have hset : Primed right { u with left := left, leftChildTuple := t } f :=
      ⟨hu.inMemPages_eq, hu.inMemIdx_eq, hu.pos_eq, hu.innerNext_eq, hu.right_eq, hu.unlatched⟩
    exact ih f1 u1 r hr (hset.insertLeft hins)

section Open

variable {leftChild : Executor σ} {leftSchema rightSchema outputSchema : Schema}
  {bpm : BufferPoolManager n} {thresholds : ThresholdPages} {left : σ} {thresholdPages : ℤ}
  {leftTuples : List Tuple}

/-- After `open` one page is in memory. It is the page as it was handed out where the left child has no
tuple. -/
theorem openExec_spec (hpages : ∀ f, (bpm.pages f).latch = Latch.free) (hleft : leftChild.Yields leftTuples left)
    (h : (new bpm thresholds left right outputSchema thresholdPages).openExec leftChild leftSchema
      rightSchema = some u) : ∃ f, Primed right u f ∧ (leftTuples = [] → bpm.newTmpPage = some (f, u.bpm)) := by
  obtain ⟨t, -, h⟩ := bind_eq_some.mp h
  obtain ⟨⟨f, u1⟩, hadd, hcopy⟩ := bind_eq_some.mp h
  -- The page was handed out, so that the latch of the pool was free.
  have hfree : bpm.latch = Latch.free := by
    obtain ⟨⟨g, b⟩, hnew, -⟩ := bind_eq_some.mp hadd
    obtain ⟨⟨id, d⟩, -, hnew⟩ := bind_eq_some.mp hnew
    obtain ⟨b1, hlock, -⟩ := bind_eq_some.mp hnew
    exact (eq_of_wLock hlock).1
  obtain ⟨hprimed, hnew⟩ : Primed right u1 f ∧ bpm.newTmpPage = some (f, u1.bpm) :=
    addTmpPage_primed rfl rfl rfl rfl rfl ⟨hfree, hpages⟩ hadd
  cases leftTuples with
  | cons t ts =>
    obtain ⟨g, hg⟩ := hprimed.copyLeft hcopy
    exact ⟨g, hg, fun hnil => absurd hnil (by simp)⟩
  | nil =>
    have hleft' : (leftChild.getNext u1.left).1 = none := by
      obtain ⟨⟨g, b⟩, -, he⟩ := bind_eq_some.mp hadd
      obtain ⟨-, rfl⟩ := some_mk_inj he
      exact hleft
    dsimp only at hcopy
    unfold UnionExecutor.copyLeft at hcopy
    rcases hn : leftChild.getNext u1.left with ⟨res, left'⟩
    rw [hn] at hleft' hcopy
    obtain rfl : res = none := hleft'
    obtain rfl := Option.some.inj hcopy
    exact ⟨f, ⟨hprimed.inMemPages_eq, hprimed.inMemIdx_eq, hprimed.pos_eq, hprimed.innerNext_eq,
      hprimed.right_eq, hprimed.unlatched⟩, fun _ => hnew⟩

omit [NeZero n] in
theorem spillToDisk_blank {dirty : Bool} {pages : List (Fin n)} (hb : u.bpm.Blank)
    (h : u.spillToDisk dirty pages = some u') : u'.bpm.Blank ∧ u'.leftChildTuple = u.leftChildTuple := by
  induction pages generalizing u with
  | nil =>
    obtain rfl := Option.some.inj h
    exact ⟨hb, rfl⟩
  | cons f rest ih =>
    obtain ⟨b, hunpin, h⟩ := bind_eq_some.mp h
    exact ih (u := { u with bpm := b, availTmpPage := _ }) (hb.tail (unpinPage_kept hunpin)) h

omit [NeZero n] in
theorem makeRoom_blank (hb : u.bpm.Blank) (h : u.makeRoom = some u') :
    u'.bpm.Blank ∧ u'.leftChildTuple = u.leftChildTuple := by
  unfold makeRoom at h
  split_ifs at h
  · exact spillToDisk_blank hb h
  · obtain rfl := Option.some.inj h
    exact ⟨hb, rfl⟩

theorem addTmpPage_blank (hb : u.bpm.Blank) (h : u.addTmpPage = some (f, u')) :
    u'.bpm.Blank ∧ u'.leftChildTuple = u.leftChildTuple ∧ u'.left = u.left := by
  obtain ⟨⟨g, b⟩, hnew, he⟩ := bind_eq_some.mp h
  obtain ⟨-, rfl⟩ := some_mk_inj he
  exact ⟨hb.tail (allocPage_kept hnew), rfl, rfl⟩

theorem insertLeft_blank (hb : u.bpm.Blank) (ht : 0 ≤ u.leftChildTuple.size) : u.insertLeft f = none := by
  rw [Option.eq_none_iff_forall_ne_some]
  intro r hr
  refine insertLeft.partial_correctness
    (fun _ u _ => u.bpm.Blank → 0 ≤ u.leftChildTuple.size → False) ?_ f u r hr hb ht
  intro loop ih f u r hr hb ht
  simp only [UnionExecutor.page, hb.insertTuple f ht] at hr
  obtain ⟨u1, hroom, hr⟩ := bind_eq_some.mp hr
  obtain ⟨⟨f1, u2⟩, hadd, hr⟩ := bind_eq_some.mp hr
  have hset : (u.bpm.setPage f (u.bpm.pages f)).Blank := by
    simpa [BufferPoolManager.setPage] using hb
  obtain ⟨hb1, ht1⟩ := makeRoom_blank hset hroom
  obtain ⟨hb2, ht2, -⟩ := addTmpPage_blank hb1 hadd
  exact ih f1 u2 r hr hb2 (by rw [ht2, ht1]; exact ht)

theorem openExec_blank (hb : bpm.Blank) {t : Tuple} (ht : 0 ≤ t.size)
    (hleft : leftChild.Yields (t :: leftTuples) left) :
    (new bpm thresholds left right outputSchema thresholdPages).openExec leftChild leftSchema rightSchema =
      none := by
  rw [Option.eq_none_iff_forall_ne_some]
  intro u hopen
  obtain ⟨t', -, h⟩ := bind_eq_some.mp hopen
  obtain ⟨⟨f, u1⟩, hadd, hcopy⟩ := bind_eq_some.mp h
  obtain ⟨hb1, -, hl⟩ : u1.bpm.Blank ∧ u1.leftChildTuple = {} ∧ u1.left = left := addTmpPage_blank hb hadd
  have hnext : leftChild.getNext u1.left = (some t, (leftChild.getNext left).2) := by
    rw [hl, ← hleft.1]
  dsimp only at hcopy
  unfold UnionExecutor.copyLeft at hcopy
  rw [hnext] at hcopy
  obtain ⟨r, hins, -⟩ := bind_eq_some.mp hcopy
  rw [insertLeft_blank (u := { u1 with left := _, leftChildTuple := t }) hb1 ht] at hins
  cases hins

end Open

/-! ## What `get_next` returns -/

section GetNext

variable {rightChild : Executor ρ} {leftSchema rightSchema : Schema} {stack : ℤ → Bytes} {heap : Bytes}
  {rightTuples : List Tuple} {t : Tuple}

theorem loadPages_of_nil (h : u.inMemPages = []) (avail : List ℤ) :
    u.loadPages avail = some { u with availTmpPage := avail } := by
  unfold loadPages
  rw [if_neg (by simp [h])]

theorem Primed.exists_loadAnotherBatch (h : Primed right u f) : ∃ u', u.loadAnotherBatch = some (false, u') := by
  obtain ⟨ok, b, hdel⟩ := h.unlatched.exists_deletePage (u.page f).pageId
  refine ⟨{ u with bpm := b, inMemPages := [] }, ?_⟩
  unfold loadAnotherBatch
  simp only [h.inMemPages_eq, deletePages, hdel, some_bind]
  rw [loadPages_of_nil rfl]
  simp

omit [NeZero n] in
theorem nextLeft_of_none (hmem : u.inMemPages = [f]) (hidx : u.inMemIdx = 0) (hpos : u.pos = {})
    (hempty : TablePage.firstSlot (u.page f) 0 (TablePage.getTupleCount (u.page f)) = none) :
    u.nextLeft = some (none, { u with innerNext := true }) := by
  have hrid : TablePage.getNextTupleRid (u.page f) u.pos u.nextPos = (false, u.nextPos) := by
    simp [TablePage.getNextTupleRid, hpos, hempty]
  unfold nextLeft
  simp only [hmem, hidx, List.getElem?_cons_zero, some_bind, hrid, ← hpos]
  simp [← hidx]

omit [NeZero n] in
theorem nextLeft_of_some (hmem : u.inMemPages = [f]) (hidx : u.inMemIdx = 0) (hpos : u.pos = {}) {k : ℕ}
    (hfirst : TablePage.firstSlot (u.page f) 0 (TablePage.getTupleCount (u.page f)) = some k) :
    u.nextLeft = some (some f, { u with nextPos := ⟨(u.page f).pageId, k⟩ }) := by
  have hrid : TablePage.getNextTupleRid (u.page f) u.pos u.nextPos = (true, ⟨(u.page f).pageId, k⟩) := by
    simp [TablePage.getNextTupleRid, hpos, hfirst]
  unfold nextLeft
  simp only [hmem, hidx, List.getElem?_cons_zero, some_bind, hrid]

theorem Primed.getNext_of_nil (h : Primed right u f) (hr : (rightChild.getNext right).1 = none) :
    ∃ u', u.getNext rightChild leftSchema rightSchema stack heap = some (none, u') := by
  rcases hn : rightChild.getNext right with ⟨res, right'⟩
  obtain rfl : res = none := by simpa [hn] using hr
  have hload : Primed (rightChild.openExec (rightChild.close right'))
      { u with right := rightChild.openExec (rightChild.close right') } f :=
    ⟨h.inMemPages_eq, h.inMemIdx_eq, h.pos_eq, h.innerNext_eq, rfl, h.unlatched⟩
  obtain ⟨u', hbatch⟩ := hload.exists_loadAnotherBatch
  have hright : u.nextRight rightChild = some (false, u') := by
    unfold nextRight
    simp [h.right_eq, hn, hbatch]
  refine ⟨u', ?_⟩
  unfold getNext
  simp [h.innerNext_eq, hright]

/-- The executor with a tuple of the right child. -/
def withRight (u : UnionExecutor n σ ρ) (right : ρ) (t : Tuple) : UnionExecutor n σ ρ :=
  { u with right := right, rightChildTuple := t, innerNext := false }

theorem Primed.getNext_of_some (h : Primed right u f) {right' : ρ} (hr : rightChild.getNext right = (some t, right')) :
    u.getNext rightChild leftSchema rightSchema stack heap =
      (u.withRight right' t).getNext rightChild leftSchema rightSchema stack heap := by
  have hright : u.nextRight rightChild = some (true, { u with right := right', rightChildTuple := t }) := by
    unfold nextRight
    simp [h.right_eq, hr]
  conv_lhs => unfold getNext
  conv_rhs => unfold getNext
  simp [h.innerNext_eq, hright, withRight]

/-- While the page in memory has no tuple, `get_next` runs through the tuples of the right child and
returns false. -/
theorem Primed.getNext_of_empty (h : Primed right u f) (hr : rightChild.Yields rightTuples right)
    (hempty : TablePage.firstSlot (u.page f) 0 (TablePage.getTupleCount (u.page f)) = none) :
    ∃ u', u.getNext rightChild leftSchema rightSchema stack heap = some (none, u') := by
  induction rightTuples generalizing u right with
  | nil => exact h.getNext_of_nil hr
  | cons t ts ih =>
    rcases hn : rightChild.getNext right with ⟨res, right'⟩
    obtain ⟨hres, hts⟩ := hr
    rw [hn] at hres hts
    obtain rfl : res = some t := hres
    rw [h.getNext_of_some hn]
    -- The page is passed over, and the next tuple of the right child is asked for.
    let u1 : UnionExecutor n σ ρ := { u with right := right', rightChildTuple := t }
    have hu1 : Primed right' u1 f :=
      ⟨h.inMemPages_eq, h.inMemIdx_eq, h.pos_eq, h.innerNext_eq, rfl, h.unlatched⟩
    have hnext : (u.withRight right' t).nextLeft = some (none, u1) := by
      rw [nextLeft_of_none (u := u.withRight right' t) h.inMemPages_eq h.inMemIdx_eq h.pos_eq hempty]
      simp [withRight, u1, h.innerNext_eq]
    obtain ⟨u', hdone⟩ := ih hu1 hts hempty
    refine ⟨u', ?_⟩
    unfold getNext
    have hfalse : (u.withRight right' t).innerNext = false := rfl
    have hsame : { u.withRight right' t with innerNext := false } = u.withRight right' t := rfl
    simp [hfalse, hsame, hnext, hdone]

/-- The executor with a tuple of the right child and a page in memory that has a tuple. -/
structure Stuck (u : UnionExecutor n σ ρ) (f : Fin n) (k : ℕ) : Prop where
  inMemPages_eq : u.inMemPages = [f]
  inMemIdx_eq : u.inMemIdx = 0
  pos_eq : u.pos = {}
  innerNext_eq : u.innerNext = false
  first_eq : TablePage.firstSlot (u.page f) 0 (TablePage.getTupleCount (u.page f)) = some k

theorem Stuck.getNext {k : ℕ} (h : Stuck u f k) {res : Option (List UInt8)}
    (hnext : u.getNext rightChild leftSchema rightSchema stack heap = some (res, u')) : res ≠ none ∧ Stuck u' f k := by
  have hsame : { u with innerNext := false } = u := by rw [← h.innerNext_eq]
  unfold UnionExecutor.getNext at hnext
  simp only [h.innerNext_eq, hsame, nextLeft_of_some h.inMemPages_eq h.inMemIdx_eq h.pos_eq h.first_eq,
    some_bind, Bool.false_eq_true, if_false, Bool.true_eq_false] at hnext
  obtain ⟨⟨tuple, u1⟩, hcat, he⟩ := bind_eq_some.mp hnext
  obtain ⟨rfl, rfl⟩ := some_mk_inj he
  refine ⟨by simp, ?_⟩
  simp only [concatenate, bind_eq_some] at hcat
  obtain ⟨left, -, lv, -, rv, -, tup, -, he⟩ := hcat
  obtain ⟨-, rfl⟩ := some_mk_inj he
  exact ⟨h.inMemPages_eq, h.inMemIdx_eq, h.pos_eq, rfl, h.first_eq⟩

theorem Stuck.not_outputs {k : ℕ} (h : Stuck u f k) {tuples : List (List UInt8)} :
    ¬ Outputs rightChild leftSchema rightSchema stack heap u tuples := by
  intro hout
  induction hout with
  | done hnext => exact (h.getNext hnext).1 rfl
  | more hnext _ ih => exact ih (h.getNext hnext).2

theorem Outputs.eq_nil {tuples : List (List UInt8)} (h : Outputs rightChild leftSchema rightSchema stack heap u tuples)
    (hnext : u.getNext rightChild leftSchema rightSchema stack heap = some (none, u')) : tuples = [] := by
  cases h with
  | done => rfl
  | more hmore => exact absurd (hmore.symm.trans hnext) (by simp)

theorem product_perm_nil_iff {α β γ : Type} {l : List α} {r : List β} {g : α × β → γ} :
    ([] : List γ).Perm ((l.product r).map g) ↔ l = [] ∨ r = [] := by
  rw [List.nil_perm, List.map_eq_nil_iff]
  cases l with
  | nil => simp [List.product]
  | cons a l => cases r <;> simp [List.product]

section Product

variable {leftChild : Executor σ} {bpm : BufferPoolManager n} {thresholds : ThresholdPages} {left : σ}
  {outputSchema : Schema} {thresholdPages : ℤ} {leftTuples : List Tuple}

/-- The executor computes the product exactly when `open` returns and the product is empty in one of two
ways: the right child has no tuple; or the left child has none, and the frame that the buffer pool hands
out for the first page does not hold a tuple of another page. -/
theorem computesProduct_iff (hpages : ∀ f, (bpm.pages f).latch = Latch.free)
    (hleft : leftChild.Yields leftTuples left) (hright : rightChild.Yields rightTuples right) :
    ComputesProduct leftChild rightChild leftSchema rightSchema stack heap
        (new bpm thresholds left right outputSchema thresholdPages) leftTuples rightTuples ↔
      ((new bpm thresholds left right outputSchema thresholdPages).openExec leftChild leftSchema
        rightSchema).isSome ∧
      (rightTuples = [] ∨ (leftTuples = [] ∧ ∀ f b, bpm.newTmpPage = some (f, b) →
        TablePage.firstSlot (b.pages f) 0 (TablePage.getTupleCount (b.pages f)) = none)) := by
  constructor
  · rintro ⟨u, tuples, hopen, hout, hperm⟩
    obtain ⟨f, hu, hblank⟩ := openExec_spec hpages hleft hopen
    refine ⟨Option.isSome_iff_exists.mpr ⟨u, hopen⟩, ?_⟩
    cases hfirst : TablePage.firstSlot (u.page f) 0 (TablePage.getTupleCount (u.page f)) with
    | none =>
      obtain ⟨u', hnext⟩ : ∃ u', u.getNext rightChild leftSchema rightSchema stack heap = some (none, u') :=
        hu.getNext_of_empty hright hfirst
      obtain rfl := hout.eq_nil hnext
      rcases product_perm_nil_iff.mp hperm with rfl | rfl
      · refine Or.inr ⟨rfl, fun g b hnew => ?_⟩
        obtain ⟨rfl, rfl⟩ := some_mk_inj ((hblank rfl).symm.trans hnew)
        exact hfirst
      · exact Or.inl rfl
    | some k =>
      -- With a tuple of the right child, the first pair would come for ever.
      cases rightTuples with
      | nil => exact Or.inl rfl
      | cons t ts =>
        exfalso
        rcases hn : rightChild.getNext right with ⟨res, right'⟩
        obtain rfl : res = some t := by
          have hres := hright.1
          rwa [hn] at hres
        have hstuck : Stuck (u.withRight right' t) f k :=
          ⟨hu.inMemPages_eq, hu.inMemIdx_eq, hu.pos_eq, rfl, hfirst⟩
        have hsame : u.getNext rightChild leftSchema rightSchema stack heap =
            (u.withRight right' t).getNext rightChild leftSchema rightSchema stack heap :=
          hu.getNext_of_some hn
        cases hout with
        | done hnext =>
          rw [hsame] at hnext
          exact (hstuck.getNext hnext).1 rfl
        | more hnext hrest =>
          rw [hsame] at hnext
          exact (hstuck.getNext hnext).2.not_outputs hrest
  · rintro ⟨hopen, hcases⟩
    obtain ⟨u, hopen⟩ := Option.isSome_iff_exists.mp hopen
    obtain ⟨f, hu, hblank⟩ := openExec_spec hpages hleft hopen
    have hdone : ∃ u', u.getNext rightChild leftSchema rightSchema stack heap = some (none, u') := by
      rcases hcases with rfl | ⟨rfl, hfirst⟩
      · exact hu.getNext_of_nil hright
      · exact hu.getNext_of_empty hright (hfirst f u.bpm (hblank rfl))
    obtain ⟨u', hnext⟩ := hdone
    refine ⟨u, [], hopen, .done hnext, product_perm_nil_iff.mpr ?_⟩
    exact hcases.symm.imp_left fun h => h.1

/-- A table with one integer column. -/
def oneColumn (name : UInt8) : Schema where
  columns := [Column.ofType TypeId.kInteger [name] 0]

/-- A row of it. -/
def oneRow : Tuple := Tuple.ofBytes {} [7, 0, 0, 0]

/-- The product with an empty left side, on the pool of a new database. -/
theorem computesProduct_empty : ∃ d,
    DiskManager.create (fun _ => none) [100] DiskManager.Uninit.zero [] = some d ∧
    ComputesProduct (replay []) (replay [oneRow]) (oneColumn 97) (oneColumn 98) (fun _ _ => 0) (fun _ => 0)
      (new (BufferPoolManager.new d (fun _ => 0) (fun _ _ => 0) : BufferPoolManager 1)
        (ThresholdPages.new 1) [] [oneRow] (oneColumn 97) 0) [] [oneRow] := by
  obtain ⟨d, m, b, hc, -, -, hnew, -⟩ := exists_newTmpPage
  refine ⟨d, hc, (computesProduct_iff (fun _ => rfl) (yields_replay [] [])
    (yields_replay [oneRow] [oneRow])).mpr ⟨?_, Or.inr ⟨rfl, fun f b hnew => ?_⟩⟩⟩
  · simp only [openExec, initializeExec, addTmpPage, new, hnew]
    unfold copyLeft
    rfl
  · rw [(((blank_new d _ _).tail (allocPage_kept hnew)).count_eq f).1]
    rfl

/-- One row on either side, on the pool of a new database: the product is not computed. -/
theorem singleton_product_not_computed : ∃ d,
    DiskManager.create (fun _ => none) [100] DiskManager.Uninit.zero [] = some d ∧
    ¬ ComputesProduct (replay [oneRow]) (replay [oneRow]) (oneColumn 97) (oneColumn 98) (fun _ _ => 0)
      (fun _ => 0)
      (new (BufferPoolManager.new d (fun _ => 0) (fun _ _ => 0) : BufferPoolManager 5)
        (ThresholdPages.new 5) [oneRow] [oneRow] (oneColumn 97) 0) [oneRow] [oneRow] := by
  obtain ⟨d, m, hc, -⟩ := DiskManager.exists_healthy
  refine ⟨d, hc, ?_⟩
  rintro ⟨u, tuples, hopen, -⟩
  rw [openExec_blank (blank_new d _ _) (t := oneRow) (by decide) (yields_replay _ _)] at hopen
  cases hopen

end Product

end GetNext

end UnionExecutor

end Dawn
