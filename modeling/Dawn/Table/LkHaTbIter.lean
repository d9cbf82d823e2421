import Dawn.Index.LinkHash

/-!
# Scanning a table

`LinkHashTableIter` of `src/include/table/lk_ha_tb_iter.h` and `src/table/lk_ha_tb_iter.cpp`, and
`SeqScanExecutor` of `src/executors/seq_scan_executor.cpp`, which is a loop around it. The constructor
looks for the first tuple in the slots of the first level page and of the second level pages. An
increment starts at the tuple that the iterator is at and resumes the three loops there: the pages of a
bucket, the buckets of a second level page, and the second level pages.

Every page that an increment looks at is latched and given back. The constructor gives back the table
page only: the first level page and the second level pages that it looks at stay pinned. It ends the
process where the first page of a bucket has no tuple.
-/

namespace Dawn

/-- `LinkHashTableIter`. -/
structure LinkHashTableIter where
  /-- `first_page_id_`. -/
  firstPageId : ℤ
  /-- `*tuple_`: the tuple that the iterator is at. Its page id is `INVALID_PAGE_ID` at the end. -/
  tuple : Tuple
  /-- `slot1_num_`: the slot of the first level page. -/
  slot1Num : ℤ
  /-- `slot2_num_`: the slot of the second level page. -/
  slot2Num : ℤ

/-! ## The constructor -/

/-- What the constructor finds in a slot of the first level page, and in the end. -/
inductive FirstTuple where
  /-- There is no bucket. -/
  | none
  /-- The tuple, and the slots in which its bucket is. -/
  | found (tuple : Tuple) (slot1Num slot2Num : ℤ)
  /-- `exit(-1)`: the first page of the first bucket has no tuple. -/
  | exit

/-- The first slot of a page of the first two levels that holds a page id. -/
def firstUsedSlot (p : Page) : Option ℕ :=
  (List.range lkHaPgSlotNum.toNat).find? fun k : ℕ => LinkHashPage.getPgidInSlot p k ≠ invalidPageId

/-- One round of the loop of the constructor over the slots of the first level page. -/
def searchSlot (firstPageId : ℤ) (slot1Num : ℕ) (s : PageStore) : Option (FirstTuple × PageStore) :=
  let secPageId := LinkHashPage.getPgidInSlot (s.page firstPageId) slot1Num
  if secPageId = invalidPageId then some (.none, s)
  else do
    let s ← s.getPage secPageId
    let s ← s.rLock secPageId
    let slot2Num := firstUsedSlot (s.page secPageId)
    let s := s.rUnlock secPageId
    match slot2Num with
    | none => some (.none, s)
    | some slot2Num =>
      let level3PageId := LinkHashPage.getPgidInSlot (s.page secPageId) slot2Num
      let s ← s.getPage level3PageId
      let s ← s.wLock level3PageId
      match ← TablePage.getTheFirstTuple (s.page level3PageId) with
      | none => some (.exit, s)
      | some tuple =>
        let s ← (s.wUnlock level3PageId).unpinPage level3PageId false
        some (.found tuple slot1Num slot2Num, s)

/-- The loop of the constructor over the slots of the first level page. -/
def findFirstTuple (firstPageId : ℤ) : List ℕ → PageStore → Option (FirstTuple × PageStore)
  | [], s => some (.none, s)
  | slot1Num :: rest, s => do
    match ← searchSlot firstPageId slot1Num s with
    | (.none, s) => findFirstTuple firstPageId rest s
    | (result, s) => some (result, s)

namespace LinkHashTableIter

/-- The constructor, or nothing where it ends the process. Where there is no tuple it does not set
`slot2_num_`, which is not read any more. -/
def new (firstPageId : ℤ) (s : PageStore) : Option (Option LinkHashTableIter × PageStore) := do
  let s ← s.getPage firstPageId
  let s ← s.rLock firstPageId
  match ← findFirstTuple firstPageId (List.range lkHaPgSlotNum.toNat) s with
  | (.exit, s) => some (none, s)
  | (.found tuple slot1Num slot2Num, s) =>
    some (some ⟨firstPageId, tuple, slot1Num, slot2Num⟩, s.rUnlock firstPageId)
  | (.none, s) =>
    let tuple := ({} : Tuple).setRid ⟨invalidPageId, invalidSlotNum⟩
    some (some ⟨firstPageId, tuple, invalidSlotNum, invalidSlotNum⟩, s.rUnlock firstPageId)

/-! ## The increment -/

/-- The loops of `operator++` that look for a slot of a page of the first two levels that holds a page
id, at a slot that holds `pgid`. -/
def findSlot (p : Page) (pgid slotNum : ℤ) : ℤ × ℤ :=
  if slotNum < lkHaPgSlotNum ∧ pgid = invalidPageId then
    findSlot p (LinkHashPage.getPgidInSlot p (slotNum + 1)) (slotNum + 1)
  else (pgid, slotNum)
termination_by (lkHaPgSlotNum - slotNum).toNat
decreasing_by omega

/-- What `operator++` reads from a table page: whether it finds a tuple, and what `*tuple_` is then. The
page that the iterator was at is searched from the next slot on. -/
def readPage (p : Page) (curRid : RID) (tuple : Tuple) : Option (Bool × Tuple) :=
  if curRid.pageId = p.pageId then
    let (ok, nextRid) := TablePage.getNextTupleRid p curRid {}
    some (ok, (TablePage.getTuple p nextRid).getD tuple)
  else do
    match ← TablePage.getTheFirstTuple p with
    | none => some (false, tuple)
    | some tuple => some (true, tuple)

/-- The loop of `operator++` over the pages of a bucket. -/
def pageLoop (curRid : RID) (curTbPgid : ℤ) (tuple : Tuple) (s : PageStore) :
    Option ((Bool × Tuple) × PageStore) := do
  let s ← s.getPage curTbPgid
  let s ← s.wLock curTbPgid
  let (ok, tuple) ← readPage (s.page curTbPgid) curRid tuple
  let s ← (s.wUnlock curTbPgid).unpinPage curTbPgid false
  if ok then some ((true, tuple), s)
  else
    let curTbPgid := TablePage.getNextPageId (s.page curTbPgid)
    if curTbPgid = invalidPageId then some ((false, tuple), s)
    else (by apply pageLoop : RID → ℤ → Tuple → PageStore → _) curRid curTbPgid tuple s
partial_fixpoint

/-- The loop of `operator++` over the buckets of a second level page: the slot in which a tuple is
found. -/
def bucketLoop (curRid : RID) (level2Pgid curTbPgid curSlot2Num : ℤ) (tuple : Tuple) (s : PageStore) :
    Option ((Option ℤ × ℤ × Tuple) × PageStore) :=
  if curTbPgid = invalidPageId then some ((none, curTbPgid, tuple), s)
  else do
    let ((ok, tuple), s) ← pageLoop curRid curTbPgid tuple s
    if ok then some ((some curSlot2Num, curTbPgid, tuple), s)
    else
      let p := s.page level2Pgid
      let (curTbPgid, curSlot2Num) :=
        findSlot p (LinkHashPage.getPgidInSlot p (curSlot2Num + 1)) (curSlot2Num + 1)
      if curSlot2Num < lkHaPgSlotNum then
        (by apply bucketLoop : RID → ℤ → ℤ → ℤ → Tuple → PageStore → _) curRid level2Pgid curTbPgid curSlot2Num tuple s
      else some ((none, curTbPgid, tuple), s)
partial_fixpoint

/-- The loop of `operator++` over the second level pages: the slots in which a tuple is found. -/
def levelLoop (firstPageId : ℤ) (curRid : RID) (curLevel2Pgid curTbPgid curSlot1Num curSlot2Num : ℤ)
    (tuple : Tuple) (s : PageStore) : Option ((Option (ℤ × ℤ) × Tuple) × PageStore) := do
  let s ← s.getPage curLevel2Pgid
  let s ← s.rLock curLevel2Pgid
  let (curTbPgid, curSlot2Num) := findSlot (s.page curLevel2Pgid) curTbPgid curSlot2Num
  let ((found, curTbPgid, tuple), s) ← bucketLoop curRid curLevel2Pgid curTbPgid curSlot2Num tuple s
  let s ← (s.rUnlock curLevel2Pgid).unpinPage curLevel2Pgid false
  match found with
  | some slot2Num => some ((some (curSlot1Num, slot2Num), tuple), s)
  | none =>
    let p := s.page firstPageId
    let (curLevel2Pgid, curSlot1Num) :=
      findSlot p (LinkHashPage.getPgidInSlot p (curSlot1Num + 1)) (curSlot1Num + 1)
    if curSlot1Num < lkHaPgSlotNum then
      (by apply levelLoop : ℤ → RID → ℤ → ℤ → ℤ → ℤ → Tuple → PageStore → _) firstPageId curRid curLevel2Pgid curTbPgid
        curSlot1Num (-1) tuple s
    else some ((none, tuple), s)
partial_fixpoint

/-- `operator++`. -/
def next (it : LinkHashTableIter) (s : PageStore) : Option (LinkHashTableIter × PageStore) :=
  let curRid := it.tuple.rid
  if curRid.pageId = invalidPageId then
    some ({ it with tuple := it.tuple.setRid ⟨invalidPageId, invalidSlotNum⟩ }, s)
  else do
    let s ← s.getPage it.firstPageId
    let s ← s.rLock it.firstPageId
    let curLevel2Pgid := LinkHashPage.getPgidInSlot (s.page it.firstPageId) it.slot1Num
    let ((found, tuple), s) ← levelLoop it.firstPageId curRid curLevel2Pgid curRid.pageId it.slot1Num
      it.slot2Num it.tuple s
    let s ← (s.rUnlock it.firstPageId).unpinPage it.firstPageId false
    match found with
    | some (slot1Num, slot2Num) => some (⟨it.firstPageId, tuple, slot1Num, slot2Num⟩, s)
    | none => some (⟨it.firstPageId, tuple.setRid ⟨invalidPageId, invalidSlotNum⟩, invalidSlotNum,
        invalidSlotNum⟩, s)

/-- The tuple that the iterator is at, if it is not at the end. -/
def current (it : LinkHashTableIter) : Option Tuple :=
  if it.tuple.rid.pageId = invalidPageId then none else some it.tuple

/-- A number of increments. -/
def advance : ℕ → LinkHashTableIter → PageStore → Option (LinkHashTableIter × PageStore)
  | 0, it, s => some (it, s)
  | n + 1, it, s => do
    let (it, s) ← it.next s
    advance n it s

end LinkHashTableIter

/-! ## The executor -/

namespace SeqScanExecutor

/-- `get_next`, of an executor that has been opened: the tuple, or nothing where it returns false. -/
def getNext (tbIter : LinkHashTableIter) (s : PageStore) :
    Option (Option Tuple × LinkHashTableIter × PageStore) :=
  if tbIter.tuple.rid.pageId = invalidPageId then some (none, tbIter, s)
  else do
    let tuple := tbIter.tuple
    let (tbIter, s) ← tbIter.next s
    some (some tuple, tbIter, s)

/-- The tuples that `get_next` gives until it returns false. -/
def getAll (tbIter : LinkHashTableIter) (s : PageStore) :
    Option (List Tuple × LinkHashTableIter × PageStore) := do
  match ← getNext tbIter s with
  | (none, tbIter, s) => some ([], tbIter, s)
  | (some tuple, tbIter, s) =>
    let (tuples, tbIter, s) ←
      (by apply getAll : LinkHashTableIter → PageStore → Option (List Tuple × LinkHashTableIter × PageStore)) tbIter s
    some (tuple :: tuples, tbIter, s)
partial_fixpoint

end SeqScanExecutor

end Dawn
