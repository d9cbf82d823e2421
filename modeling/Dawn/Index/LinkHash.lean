import Dawn.Index.PageStore

/-!
# The link hash index

The functions of `src/index/link_hash.cpp` over a page store. The hash of a key gives a slot of the
first level page, which holds the id of a second level page, and a slot of that page, which holds the id
of the first table page of the key's bucket. The table pages of a bucket are linked through their
headers. Pages of the second and third level are made when they are first needed, and empty table pages
are deleted from the front of a bucket.

A loop that does not end, a `nullptr` that is dereferenced, a wait for a latch that the same thread
holds, and a failed assertion are all `none`.
-/

namespace Dawn

/-- `hash_to_slot`: the slots in the first and in the second level page. -/
def hashToSlot (hashVal : UInt64) : ℤ × ℤ :=
  let slotNum : ℤ := hashVal.toNat % lkHaTotalSlotNum
  (slotNum / lkHaPgSlotNum, slotNum % lkHaPgSlotNum)

section Search

variable (schema : Schema) (keyValue : Value)

/-- The loop in `lk_ha_check_duplicate_key` over the tuples of one page: where the first tuple with the
key is, from the tuple at `rid` on. -/
def findInPage (p : Page) (cmpTuple : Tuple) (rid : RID) : Option (Option RID) := do
  let cmpTuple := (TablePage.getTuple p rid).getD cmpTuple
  let value ← keyOf schema cmpTuple.bytes
  if keyValue.opEq value then some (some rid)
  else
    match TablePage.getNextTupleRid p cmpTuple.rid rid with
    | (true, rid) => (by apply findInPage : Page → Tuple → RID → _) p cmpTuple rid
    | (false, _) => some none
partial_fixpoint

/-- What `lk_ha_check_duplicate_key` learns from one table page. -/
inductive PageSearch where
  /-- The page has no tuple. -/
  | empty
  /-- The tuple with the key is here. -/
  | found (rid : RID)
  /-- The page has tuples, none of them with the key; the search goes on with the next page. -/
  | absent (nextPageId : ℤ)
  deriving DecidableEq, Repr

/-- The part of `lk_ha_check_duplicate_key` that is done under the latch of a table page. -/
def searchPage (p : Page) : Option PageSearch := do
  match ← TablePage.getTheFirstTuple p with
  | none => some .empty
  | some cmpTuple =>
    match ← findInPage schema keyValue p cmpTuple cmpTuple.rid with
    | some rid => some (.found rid)
    | none => some (.absent (TablePage.getNextPageId p))

/-- The loop in `lk_ha_check_duplicate_key` over the pages of a bucket. A page without tuples ends
it. -/
def searchChain (thirdLevelPageId : ℤ) (s : PageStore) : Option (Option RID × PageStore) :=
  if thirdLevelPageId = invalidPageId then some (none, s)
  else do
    let (result, s) ← s.inspect thirdLevelPageId (searchPage schema keyValue)
    match ← result with
    | .empty => some (none, s)
    | .found rid => some (some rid, s)
    | .absent nextPageId => (by apply searchChain : ℤ → PageStore → _) nextPageId s
partial_fixpoint

end Search

section Functions

variable (al : Allocator) (doHash : List UInt8 → UInt64) (schema : Schema) (firstPageId : ℤ)

/-- `lk_ha_check_duplicate_key`: where a tuple with the key is, or nothing where it returns false. -/
def lkHaCheckDuplicateKey (keyValue : Value) (s : PageStore) : Option (Option RID × PageStore) := do
  let (secPgSlotNum, tbPgSlotNum) := hashToSlot (keyValue.getHashValue doHash)
  let (secondLevelPageId, s) ← s.inspect firstPageId (LinkHashPage.getPgidInSlot · secPgSlotNum)
  if secondLevelPageId = invalidPageId then some (none, s)
  else
    let (thirdLevelPageId, s) ←
      s.inspect secondLevelPageId (LinkHashPage.getPgidInSlot · tbPgSlotNum)
    searchChain schema keyValue thirdLevelPageId s

/-! ## Insertion -/

/-- How `lk_ha_insert_tuple` goes from a pinned page of the first two levels to the page in one of its
slots, which it makes when there is none: the child is pinned and its parent is not any more. -/
def childPage (pageId slotNum : ℤ) (init : Page → Page) (s : PageStore) :
    Option (ℤ × PageStore) := do
  let s ← s.rLock pageId
  let childId := LinkHashPage.getPgidInSlot (s.page pageId) slotNum
  let s := s.rUnlock pageId
  if childId = invalidPageId then
    match s.newPage al with
    | (none, _) => none
    | (some childId, s) =>
      let s := s.put childId (init (s.page childId))
      let s ← s.wLock pageId
      let s := s.put pageId (LinkHashPage.setPgidInSlot (s.page pageId) slotNum childId)
      let s ← (s.wUnlock pageId).unpinPage pageId true
      some (childId, s)
  else
    let s ← s.getPage childId
    let s ← s.unpinPage pageId false
    some (childId, s)

/-- The loop of `lk_ha_insert_tuple` over the pages of a bucket, at a page that is pinned and
write-latched. A page that is put at the end of the bucket is not initialised. -/
def insertLoop (tuple : Tuple) (pageId : ℤ) (s : PageStore) : Option (ℤ × RID × PageStore) :=
  let (rid, p) := TablePage.insertTuple (s.page pageId) tuple
  let s := s.put pageId p
  match rid with
  | some rid => do
    let s ← (s.wUnlock pageId).unpinPage pageId true
    some (opSuccess, rid, s)
  | none =>
    let nextPageId := TablePage.getNextPageId (s.page pageId)
    if nextPageId = invalidPageId then
      match s.newPage al with
      | (none, s) => do
        let s ← s.unpinPage pageId false
        some (newPgFail, {}, s)
      | (some newPageId, s) => do
        let s ← s.wLock newPageId
        let s := s.put pageId (TablePage.setNextPageId (s.page pageId) newPageId)
        let s := s.put newPageId (TablePage.setPrevPageId (s.page newPageId) pageId)
        let s ← (s.wUnlock pageId).unpinPage pageId true
        (by apply insertLoop : Tuple → ℤ → PageStore → _) tuple newPageId s
    else do
      let s ← s.getPage nextPageId
      let s ← (s.wUnlock pageId).unpinPage pageId false
      let s ← s.wLock nextPageId
      (by apply insertLoop : Tuple → ℤ → PageStore → _) tuple nextPageId s
partial_fixpoint

/-- `lk_ha_insert_tuple`: the operation code, and the tuple with its position set. -/
def lkHaInsertTuple (tuple : Tuple) (s : PageStore) : Option (ℤ × Tuple × PageStore) := do
  let keyValue ← keyOf schema tuple.bytes
  let (dupRid, s) ← lkHaCheckDuplicateKey doHash schema firstPageId keyValue s
  if dupRid.isSome then some (dupKey, tuple, s)
  else
    let (secPgSlotNum, tbPgSlotNum) := hashToSlot (keyValue.getHashValue doHash)
    let s ← s.getPage firstPageId
    let (secondLevelPageId, s) ← childPage al firstPageId secPgSlotNum LinkHashPage.init s
    let (thirdLevelPageId, s) ← childPage al secondLevelPageId tbPgSlotNum
      (TablePage.init · invalidPageId invalidPageId) s
    let s ← s.wLock thirdLevelPageId
    let (opCode, rid, s) ← insertLoop al tuple thirdLevelPageId s
    if opCode = opSuccess then some (opCode, tuple.setRid rid, s) else some (opCode, tuple, s)

/-! ## Lookup and update -/

/-- `lk_ha_get_tuple`: the operation code, and the tuple where it is found. -/
def lkHaGetTuple (keyValue : Value) (s : PageStore) : Option (ℤ × Option Tuple × PageStore) := do
  match ← lkHaCheckDuplicateKey doHash schema firstPageId keyValue s with
  | (none, s) => some (tupleNotFound, none, s)
  | (some rid, s) =>
    let (tuple, s) ← s.inspect rid.pageId (TablePage.getTuple · rid)
    some (if tuple.isSome then opSuccess else tupleNotFound, tuple, s)

/-- `get_tuple_directly` of `src/include/table/tb_common_op.h`. -/
def getTupleDirectly (rid : RID) (s : PageStore) : Option (ℤ × Option Tuple × PageStore) := do
  if (s.getPage rid.pageId).isNone then some (tupleNotFound, none, s)
  else
    let (tuple, s) ← s.inspect rid.pageId fun p => TablePage.atRecord rid (TablePage.getTuple p rid)
    let tuple ← tuple
    some (if tuple.isSome then opSuccess else tupleNotFound, tuple, s)

/-- `lk_ha_update_tuple`: the operation code, and the new tuple with its position set. A duplicate key
returns without `unpin_page`. -/
def lkHaUpdateTuple (newTuple : Tuple) (oldRid : RID) (s : PageStore) :
    Option (ℤ × Tuple × PageStore) := do
  let keyValue ← keyOf schema newTuple.bytes
  match ← getTupleDirectly oldRid s with
  | (_, none, s) => some (tupleNotFound, newTuple, s)
  | (_, some oldTuple, s) =>
    let pageId := oldRid.pageId
    let s ← s.getPage pageId
    let oldKey ← keyOf schema oldTuple.bytes
    if keyValue.opEq oldKey then
      let s ← s.wLock pageId
      let s := s.put pageId (TablePage.updateTuple (s.page pageId) newTuple oldRid).2
      let s ← (s.wUnlock pageId).unpinPage pageId true
      some (opSuccess, newTuple.setRid oldRid, s)
    else
      let (opCode, newTuple, s) ← lkHaInsertTuple al doHash schema firstPageId newTuple s
      if opCode = dupKey then some (dupKey, newTuple, s)
      else
        let s ← s.wLock pageId
        let (marked, p) := TablePage.markDelete (s.page pageId) oldRid
        let s := s.put pageId p
        if ¬ marked then
          let s ← (s.wUnlock pageId).unpinPage pageId false
          some (markDeleteFail, newTuple, s)
        else
          let s := s.put pageId (TablePage.applyDelete (s.page pageId) oldRid)
          let s ← (s.wUnlock pageId).unpinPage pageId true
          some (opSuccess, newTuple, s)

/-! ## Deletion -/

/-- `lk_ha_mark_delete`. It tests the operation code of `lk_ha_get_tuple` with `!`, so that it returns
`false` for a tuple that is found, and `false` is the number of `OP_SUCCESS`. Otherwise it goes on with a
tuple that has not been set. -/
def lkHaMarkDelete (keyValue : Value) (s : PageStore) : Option (ℤ × PageStore) := do
  let (opCode, tuple, s) ← lkHaGetTuple doHash schema firstPageId keyValue s
  if opCode = 0 then some (0, s)
  else
    let rid := (tuple.getD {}).rid
    let (ok, s) ← s.modify rid.pageId (TablePage.markDelete · rid)
    some (if ok then opSuccess else tupleNotFound, s)

section Clear

-- The first loop of `lk_ha_clear_empty_page` pins as many pages as there are, so that it matters when
-- `get_page` waits for a frame.
variable (getPage : PageStore → ℤ → Option PageStore)

/-- The first loop of `lk_ha_clear_empty_page`, at a page that is pinned and write-latched: the empty
pages at the front of a bucket, and the id of the page after them. -/
def collectEmpty (checkedPgid : ℤ) (emptyPages : List ℤ) (s : PageStore) :
    Option (List ℤ × ℤ × PageStore) :=
  if TablePage.getStoredTupleCnt (s.page checkedPgid) = 0 then
    let emptyPages := emptyPages ++ [checkedPgid]
    let checkedPgid := TablePage.getNextPageId (s.page checkedPgid)
    if checkedPgid = invalidPageId then some (emptyPages, checkedPgid, s)
    else do
      let s ← getPage s checkedPgid
      let s ← s.wLock checkedPgid
      (by apply collectEmpty : ℤ → List ℤ → PageStore → _) checkedPgid emptyPages s
  else some (emptyPages, checkedPgid, s)
partial_fixpoint

/-- The second loop of `lk_ha_clear_empty_page`. It waits for a page that somebody else has pinned, and
in one thread that is for ever. -/
def deleteEmpty : List ℤ → PageStore → Option PageStore
  | [], s => some s
  | pageId :: rest, s => do
    let s ← (s.wUnlock pageId).unpinPage pageId false
    match ← s.deletePage pageId with
    | (true, s) => deleteEmpty rest s
    | (false, _) => none

/-- `lk_ha_clear_empty_page`. -/
def lkHaClearEmptyPageBy (secPgSlotNum tbPgSlotNum : ℤ) (s : PageStore) : Option PageStore := do
  let (secLevelPgid, s) ← s.inspectBy firstPageId getPage (LinkHashPage.getPgidInSlot · secPgSlotNum)
  let s ← getPage s secLevelPgid
  let s ← s.wLock secLevelPgid
  let checkedPgid := LinkHashPage.getPgidInSlot (s.page secLevelPgid) tbPgSlotNum
  let s ← getPage s checkedPgid
  let s ← s.wLock checkedPgid
  let (emptyPages, checkedPgid, s) ← collectEmpty getPage checkedPgid [] s
  let s ← deleteEmpty emptyPages s
  let s := s.put secLevelPgid
    (LinkHashPage.setPgidInSlot (s.page secLevelPgid) tbPgSlotNum checkedPgid)
  if checkedPgid = invalidPageId then
    (s.wUnlock secLevelPgid).unpinPage secLevelPgid true
  else
    let s := s.put checkedPgid (TablePage.setPrevPageId (s.page checkedPgid) invalidPageId)
    let s := (s.wUnlock checkedPgid).wUnlock secLevelPgid
    let s ← s.unpinPage checkedPgid true
    s.unpinPage secLevelPgid true

@[inherit_doc lkHaClearEmptyPageBy]
def lkHaClearEmptyPage (secPgSlotNum tbPgSlotNum : ℤ) (s : PageStore) : Option PageStore :=
  lkHaClearEmptyPageBy firstPageId PageStore.getPage secPgSlotNum tbPgSlotNum s

end Clear

/-- `lk_ha_apply_delete`. -/
def lkHaApplyDelete (keyValue : Value) (s : PageStore) : Option PageStore := do
  match ← lkHaGetTuple doHash schema firstPageId keyValue s with
  | (_, none, s) => some s
  | (_, some tuple, s) =>
    let pageId := tuple.rid.pageId
    let s ← s.getPage pageId
    let s ← s.wLock pageId
    let s := s.put pageId (TablePage.applyDelete (s.page pageId) tuple.rid)
    let tupleCnt := TablePage.getStoredTupleCnt (s.page pageId)
    let s ← (s.wUnlock pageId).unpinPage pageId true
    if tupleCnt = 0 then
      let (secPgSlotNum, tbPgSlotNum) := hashToSlot (keyValue.getHashValue doHash)
      lkHaClearEmptyPage firstPageId secPgSlotNum tbPgSlotNum s
    else some s

end Functions

end Dawn
