import Dawn.Index.Buckets
import Dawn.Index.Update

/-!
# Tables

`Table` of `src/table/table.cpp`, whose functions are those of the link hash index: the tuples of a
table are found by their keys, and a tuple can be replaced at its position. A table that is made from
scratch has its first page only (`Table.create_eq`).
-/

namespace Dawn

open TablePage PageStore

variable {sz i j id : ℤ} {k : ℕ} {L : Layout}

namespace Table

section Functions

variable (al : Allocator) (doHash : List UInt8 → UInt64) (schema : Schema) (firstTablePageId : ℤ)

/-- `Table(bpm, first_table_page_id, true)`. -/
def create (s : PageStore) : Option PageStore := do
  let s ← s.getPage firstTablePageId
  let s := s.put firstTablePageId (LinkHashPage.init (s.page firstTablePageId))
  s.unpinPage firstTablePageId true

/-- `insert_tuple`: whether it succeeds, and the tuple with its position set. -/
def insertTuple (tuple : Tuple) (s : PageStore) : Option (Bool × Tuple × PageStore) := do
  let (opCode, tuple, s) ← lkHaInsertTuple al doHash schema firstTablePageId tuple s
  some (opCode = opSuccess, tuple, s)

/-- `get_tuple` by key. -/
def getTuple (keyValue : Value) (s : PageStore) : Option (Bool × Option Tuple × PageStore) := do
  let (opCode, tuple, s) ← lkHaGetTuple doHash schema firstTablePageId keyValue s
  some (opCode = opSuccess, tuple, s)

/-- `update_tuple`: whether it succeeds, and the new tuple with its position set. -/
def updateTuple (newTuple : Tuple) (oldRid : RID) (s : PageStore) :
    Option (Bool × Tuple × PageStore) := do
  let (opCode, newTuple, s) ← lkHaUpdateTuple al doHash schema firstTablePageId newTuple oldRid s
  some (opCode = opSuccess, newTuple, s)

/-- `mark_delete` by key. -/
def markDelete (keyValue : Value) (s : PageStore) : Option (Bool × PageStore) := do
  let (opCode, s) ← lkHaMarkDelete doHash schema firstTablePageId keyValue s
  some (opCode = opSuccess, s)

/-- `mark_delete` by position. -/
def markDeleteAt (rid : RID) (s : PageStore) : Option (Bool × PageStore) :=
  if rid.pageId < 0 then some (false, s)
  else if TablePage.RecordInPage rid.slotNum then s.modify rid.pageId (TablePage.markDelete · rid)
  else none

/-- `apply_delete` by key. -/
def applyDelete (keyValue : Value) (s : PageStore) : Option PageStore := do
  match ← getTuple doHash schema firstTablePageId keyValue s with
  | (false, _, s) => some s
  | (true, _, s) => lkHaApplyDelete doHash schema firstTablePageId keyValue s

/-- The loop of `delete_all_data` that collects pages: every page is taken for a table page. It gives up
where a page cannot be had. -/
def collectPages (nextPageId : ℤ) (deletedPages : Finset ℤ) (s : PageStore) :
    Option (Option (Finset ℤ) × PageStore) :=
  if nextPageId = -1 then some (some deletedPages, s)
  else
    match s.getPage nextPageId with
    | none => some (none, s)
    | some s => do
      let s ← s.unpinPage nextPageId false
      (by apply collectPages : ℤ → Finset ℤ → PageStore → _) (getNextPageId (s.page nextPageId))
        (insert nextPageId deletedPages) s
partial_fixpoint

/-- The loop of `delete_all_data` that deletes pages. A page that is pinned stays. -/
def deletePages (pages : List ℤ) (s : PageStore) : Option PageStore :=
  pages.foldlM (fun s pageId => (s.deletePage pageId).map Prod.snd) s

/-- `delete_all_data`. -/
def deleteAllData (s : PageStore) : Option PageStore := do
  match ← collectPages firstTablePageId ∅ s with
  | (none, s) => some s
  | (some deletedPages, s) => deletePages (deletedPages.sort (· ≤ ·)) s

end Functions

variable {s s' : PageStore} {root : ℤ}

theorem create_eq (hq : s.Quiet) (hroot : root ∈ s.ids) :
    create root s = some (s.put root (LinkHashPage.init (s.page root))) := by
  have hq' := hq.put root (LinkHashPage.init (s.page root))
  have hu := unpinPage_guard (e := Pi.single root 1) (by exact hroot)
    (hq'.free root hroot) (Finset.notMem_empty root) true
  rw [create, hq.getPage hroot]
  simp only [some_bind, guard_put, guard_page]
  rw [hu, sub_self, guard_zero]

theorem tableInv_create (sz : ℤ) (hq : s.Quiet) (hroot : root ∈ s.ids) (h : create root s = some s') :
    TableInv sz s' root (Layout.empty root) := by
  rw [create_eq hq hroot, Option.some.injEq] at h
  subst h
  refine TableInv.empty (hq.put root _) hroot fun i => ?_
  rw [secondPage, page_put_self (LinkHashPage.sameFrame_init _), LinkHashPage.getPgidInSlot_init]

end Table

/-! ## A small table -/

/-- A table of two integers, the first one the key. -/
def pairSchema : Schema where
  columns := [.ofType .kInteger [107] 0, .ofType .kInteger [118] 4]

/-- A tuple of two integers. -/
def pairTuple (key value : ℤ) : Tuple := Tuple.ofBytes ⟨-1, -1⟩ (Bytes.toLE4 key ++ Bytes.toLE4 value)

/-- A page store with one page. -/
def onePage : PageStore where
  ids := {0}
  data _ _ := 0
  pins _ := 0
  latch _ := Latch.free
  allocs := 0

/-- A new table in a store with one page. -/
def newTable : PageStore := onePage.put 0 (LinkHashPage.init (onePage.page 0))

/-- An allocator whose frames hold zeros. -/
def zeroFrames : Allocator := Allocator.firstFree fun _ _ => 0

theorem pairSchema_hasKey : pairSchema.HasKey := ⟨_, rfl, by decide, by decide⟩

theorem quiet_onePage : onePage.Quiet := by
  refine ⟨fun id hid => ?_, fun _ _ => rfl⟩
  rw [show id = 0 by simpa [onePage] using hid]
  norm_num

theorem tableInv_newTable (sz : ℤ) : TableInv sz newTable 0 (Layout.empty 0) :=
  Table.tableInv_create sz quiet_onePage (by decide) (Table.create_eq quiet_onePage (by decide))

theorem exists_insert_newTable (doHash : List UInt8 → UInt64) (t : Tuple) (ht : t.size = 8) : ∃ id k i j s' L',
      lkHaInsertTuple zeroFrames doHash pairSchema 0 t newTable = some (opSuccess, t.setRid ⟨id, (k : ℕ)⟩, s') ∧
      Inserted 8 0 newTable (Layout.empty 0) i j id k t.bytes s' L' := by
  obtain ⟨v, hkey⟩ := pairSchema_hasKey.exists_keyOf t.bytes
  have hblank : ∀ i j, BlankIfFull zeroFrames 8 newTable ((Layout.empty 0).chain i j) :=
    fun i j hne => absurd rfl hne
  rcases lkHaInsertTuple_cases doHash pairSchema_hasKey le_rfl (by decide) (tableInv_newTable 8) ht
    hkey (by rfl) (Prod.mk.eta (p := hashToSlot _)).symm (hblank _ _) with ⟨-, hno⟩ | ⟨id, k, s', L', he, hi, -⟩
  · exact absurd ⟨Allocator.firstFree_correct _, by decide⟩ hno
  · exact ⟨id, k, _, _, s', L', he, hi⟩

theorem exists_insert_pairTuple (doHash : List UInt8 → UInt64) : ∃ id k i j s' L',
    lkHaInsertTuple zeroFrames doHash pairSchema 0 (pairTuple 1 2) newTable =
      some (opSuccess, (pairTuple 1 2).setRid ⟨id, (k : ℕ)⟩, s') ∧
    Inserted 8 0 newTable (Layout.empty 0) i j id k (pairTuple 1 2).bytes s' L' :=
  exists_insert_newTable doHash (pairTuple 1 2) rfl

/-- A hash function under which small keys have buckets of their own. -/
def firstByte (bytes : List UInt8) : UInt64 := (bytes.headD 0).toUInt64

theorem exists_insert_firstByte : ∃ id k s1 L1,
    lkHaInsertTuple zeroFrames firstByte pairSchema 0 (pairTuple 1 2) newTable =
      some (opSuccess, (pairTuple 1 2).setRid ⟨id, (k : ℕ)⟩, s1) ∧
    Inserted 8 0 newTable (Layout.empty 0) 0 1 id k (pairTuple 1 2).bytes s1 L1 ∧ s1.ids.card ≤ 4 := by
  rcases lkHaInsertTuple_cases firstByte pairSchema_hasKey le_rfl (by decide) (tableInv_newTable 8)
    (by rfl) (show keyOf pairSchema (pairTuple 1 2).bytes = some (.integer 1) by decide) (by rfl)
    (show hashToSlot ((Value.integer 1).getHashValue firstByte) = (0, 1) by decide)
    (show BlankIfFull zeroFrames 8 newTable [] from fun hne => absurd rfl hne) with
    ⟨-, hno⟩ | ⟨id, k, s1, L1, he, hi, hcard, -⟩
  · exact absurd ⟨Allocator.firstFree_correct _, by decide⟩ hno
  · exact ⟨id, k, s1, L1, he, hi, hcard⟩

theorem Inserted.chain_newTable {bytes : List UInt8} {s : PageStore}
    (h : Inserted sz 0 newTable (Layout.empty 0) i j id k bytes s L) :
    L.chain i j = [id] ∧ ∀ a b, ¬ (a = i ∧ b = j) → L.chain a b = [] := by
  refine ⟨?_, fun a b hab => (h.chain a b).resolve_right fun e => hab ⟨e.1, e.2.1⟩⟩
  rcases h.chain i j with hnil | ⟨-, -, hone, -⟩
  · obtain ⟨pre, post, hpos, -⟩ := h.before
    rw [hpos] at hnil
    simp [Layout.empty] at hnil
  · exact hone

theorem Inserted.occ_newTable {bytes : List UInt8} {s : PageStore}
    (h : Inserted sz 0 newTable (Layout.empty 0) i j id k bytes s L) : occ (s.page id) = {k} := by
  ext n
  rw [← cell_ne_none_iff h.own_id, h.cell_eq, Finset.mem_singleton, Layout.cell_empty]
  simp

theorem TableInv.markDeleteAt_spec {root : ℤ} {s : PageStore}
    (h : TableInv sz s root L) (ho : L.own id = some (.bucket i j)) (hk : k ∈ occ (s.page id)) :
    ∃ s', Table.markDeleteAt ⟨id, k⟩ s = some (true, s') ∧ Skeleton s' root L ∧ s'.ids = s.ids ∧
      WF (s'.page id) ∧ slot (s'.page id) = Function.update (slot (s.page id)) k
        ((slot (s.page id) k).map fun sl => { sl with deleted := true }) := by
  have hS := h.skeleton
  have hid : id ∈ s.ids := hS.own_mem ho
  have hmark := markDelete_of_mem hk
  have hslot := slot_markDelete (h.good ho).wf hk
  have hwf := ((h.good ho).uniform.markDelete hk).wf
  have hframe := sameFrame_markDelete (s.page id) ⟨id, (k : ℕ)⟩
  -- the mark is in the directory of the slots, the link to the next page is in front of it
  have hnext : getNextPageId (markDelete (s.page id) ⟨id, (k : ℕ)⟩).2 = getNextPageId (s.page id) :=
    getNextPageId_congr fun i hlt => markDelete_data hk (by omega)
  rw [page_pageId] at hmark hslot hwf
  refine ⟨s.put id (markDelete (s.page id) ⟨id, (k : ℕ)⟩).2, ?_, hS.put ho hframe hnext, rfl, ?_, ?_⟩
  · rw [Table.markDeleteAt, if_neg (not_lt.mpr (hS.quiet.bounds id hid).1),
      if_pos ((h.good ho).wf.recordInPage (mem_occ.mp hk).1), hS.quiet.modify hid, hmark]
  · rwa [page_put_self hframe]
  · rw [page_put_self hframe, hslot]

theorem exists_two_pairTuples : ∃ id k s1 L1 id' k' s2 L2,
    lkHaInsertTuple zeroFrames firstByte pairSchema 0 (pairTuple 1 2) newTable =
      some (opSuccess, (pairTuple 1 2).setRid ⟨id, (k : ℕ)⟩, s1) ∧
    Inserted 8 0 newTable (Layout.empty 0) 0 1 id k (pairTuple 1 2).bytes s1 L1 ∧ L1.chain 0 2 = [] ∧
    lkHaInsertTuple zeroFrames firstByte pairSchema 0 (pairTuple 2 2) s1 =
      some (opSuccess, (pairTuple 2 2).setRid ⟨id', (k' : ℕ)⟩, s2) ∧
    Inserted 8 0 s1 L1 0 2 id' k' (pairTuple 2 2).bytes s2 L2 ∧ id ≠ id' ∧ s2.ids.card ≤ 7 ∧
    findInChain pairSchema (.integer 2) s2 (L2.bucketOf firstByte (.integer 2)) ≠ none := by
  have hkey : keyOf pairSchema (pairTuple 2 2).bytes = some (.integer 2) := by decide
  have hij : hashToSlot ((Value.integer 2).getHashValue firstByte) = (0, 2) := by decide
  obtain ⟨id, k, s1, L1, he, hi, hcard⟩ := exists_insert_firstByte
  -- The bucket of the second key is empty.
  have hc : L1.chain 0 2 = [] := hi.chain_newTable.2 0 2 (by decide)
  have hnone : findInChain pairSchema (.integer 2) s1 (L1.bucketOf firstByte (.integer 2)) = none := by
    rw [Layout.bucketOf, hij, hc]
    rfl
  rcases lkHaInsertTuple_cases firstByte pairSchema_hasKey le_rfl (by decide) hi.inv (by rfl) hkey hnone
    hij (show BlankIfFull zeroFrames 8 s1 (L1.chain 0 2) from fun hne => absurd hc hne) with
    ⟨-, hno⟩ | ⟨id', k', s2, L2, he2, hi2, hcard2, -⟩
  · exact absurd ⟨Allocator.firstFree_correct _, by omega⟩ hno
  · -- The second tuple is in another bucket, so in another page.
    have hne : id ≠ id' := by
      rintro rfl
      have ho2 := hi2.own_id
      rw [hi2.own hi.own_id] at ho2
      simp at ho2
    exact ⟨id, k, s1, L1, id', k', s2, L2, he, hi, hc, he2, hi2, hne, by omega, hi2.find_ne_none le_rfl (by decide) hi.inv
      ⟨_, hkey, by decide⟩ hij hnone⟩

/-- In a table with the keys 1 and 2 the tuple with the key 1 is updated to the key 2. The key is taken, and
the page of the tuple stays pinned. -/
theorem exists_duplicate_update : ∃ id k s1 t2 s2 L2,
    lkHaInsertTuple zeroFrames firstByte pairSchema 0 (pairTuple 1 2) newTable =
      some (opSuccess, (pairTuple 1 2).setRid ⟨id, (k : ℕ)⟩, s1) ∧
    lkHaInsertTuple zeroFrames firstByte pairSchema 0 (pairTuple 2 2) s1 = some (opSuccess, t2, s2) ∧
    lkHaUpdateTuple zeroFrames firstByte pairSchema 0 (pairTuple 2 1) ⟨id, k⟩ s2 =
      some (dupKey, pairTuple 2 1, s2.guard (Pi.single id 1) ∅) ∧ TableInv 8 s2 0 L2 ∧ L2.chain 0 1 = [id] ∧
    (∀ n, cell s2 L2 id n = if n = k then some (pairTuple 1 2).bytes else none) ∧ s2.pins id = 0 := by
  obtain ⟨id, k, s1, L1, id', k', s2, L2, he1, hi1, -, he2, hi2, hne, -, hfind⟩ := exists_two_pairTuples
  obtain ⟨taken, htaken⟩ := Option.ne_none_iff_exists'.mp hfind
  have ho1 : L1.own id = some (.bucket 0 1) := hi1.own_id
  have hid1 := hi1.inv.skeleton.own_mem ho1
  have hcell : ∀ n, cell s2 L2 id n = if n = k then some (pairTuple 1 2).bytes else none := by
    intro n
    rw [hi2.cell_eq, if_neg fun e => hne e.1, hi1.cell_eq]
    simp [cell, Layout.empty]
  have hchain : L2.chain 0 1 = [id] := by
    rw [(hi2.chain 0 1).resolve_right fun e => absurd e.2.1 (by decide), hi1.chain_newTable.1]
  have hpin : s2.pins id = 0 := by
    rw [hi2.pins id (hi2.ids hid1), if_pos hid1, hi1.pins id hid1]
    split_ifs <;> rfl
  exact ⟨id, k, s1, _, s2, L2, he1, he2, lkHaUpdateTuple_dup hi2.inv (by rw [hcell, if_pos rfl])
    (show keyOf pairSchema (pairTuple 2 1).bytes = some (.integer 2) by decide)
    (show keyOf pairSchema (pairTuple 1 2).bytes = some (.integer 1) by decide) pairSchema_hasKey
    (by decide) htaken, hi2.inv, hchain, hcell, hpin⟩

end Dawn
