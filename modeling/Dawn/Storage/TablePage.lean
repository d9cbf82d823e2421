import Dawn.Storage.Page
import Dawn.Table.Tuple

/-!
# Table pages

`TablePage` of `src/include/storage/page/table_page.h` and `src/storage/page/table_page.cpp`. After
the common header a table page keeps the ids of its neighbours, the free space pointer, 64 reserved
bytes, and the tuple count; then the records (offset and size of each tuple) grow upward, and the
tuples' bytes grow downward from the end of the page. A record with offset zero is an empty slot. A
tuple whose size has its top bit set is marked as deleted.

The functions follow the source. Those that are given a position read the record of its slot before
they look at the tuple count, so for a slot number that is large enough they read outside the page
(`RecordInPage`, `atRecord`). The loops stay below the tuple count.
-/

namespace Dawn.TablePage

/-! ## Layout -/

/-- `START_OFFSET`. -/
def startOffset : ℤ := comPgHeaderSz

/-- `PREV_PGID_OFFSET`. -/
def prevPgidOffset : ℤ := startOffset

/-- `NEXT_PGID_OFFSET`. -/
def nextPgidOffset : ℤ := prevPgidOffset + pgidTSize

/-- `FREE_SPACE_PTR_OFFSET`. -/
def freeSpacePtrOffset : ℤ := nextPgidOffset + pgidTSize

/-- `TUPLE_CNT_OFFSET`. -/
def tupleCntOffset : ℤ := freeSpacePtrOffset + pgidTSize + tablePageReserved

/-- `FIRST_TUPLE_OFFSET`. -/
def firstTupleOffset : ℤ := tupleCntOffset + sizeTSize

/-- `INVALID_FREE_SPACE_PTR`. -/
def invalidFreeSpacePtr : ℤ := pageSize

/-- `TUPLE_RECORD_SZ`. -/
def tupleRecordSz : ℤ := sizeTSize + offsetTSize

/-- `LOAD_DATA_SPACE`: the bytes for records and tuples in one page. -/
def loadDataSpace : ℤ :=
  pageSize - comPgHeaderSz - 2 * pgidTSize - offsetTSize - sizeTSize - tablePageReserved

/-- `DELETE_MASK`. -/
def deleteMask : BitVec 32 := 1#32 <<< (8 * 4 - 1)

/-- `get_tp_num_capacity`. -/
def getTpNumCapacity (tpSize : ℤ) : ℤ := loadDataSpace / (tpSize + offsetTSize + sizeTSize)

/-- `is_deleted`. -/
def isDeleted (tupleSize : ℤ) : Bool := BitVec.ofInt 32 tupleSize &&& deleteMask != 0

/-- `set_deleted_flag`. -/
def setDeletedFlag (tupleSize : ℤ) : ℤ := (BitVec.ofInt 32 tupleSize ||| deleteMask).toInt

/-- `unset_deleted_flag`. -/
def unsetDeletedFlag (tupleSize : ℤ) : ℤ := (BitVec.ofInt 32 tupleSize &&& ~~~deleteMask).toInt

/-! ## Accessors -/

/-- `get_next_page_id`. -/
def getNextPageId (p : Page) : ℤ := p.data.i32 nextPgidOffset

/-- `get_prev_page_id`. -/
def getPrevPageId (p : Page) : ℤ := p.data.i32 prevPgidOffset

/-- `set_prev_page_id`. -/
def setPrevPageId (p : Page) (pageId : ℤ) : Page :=
  { p with data := p.data.setI32 prevPgidOffset pageId }

/-- `set_next_page_id`. -/
def setNextPageId (p : Page) (pageId : ℤ) : Page :=
  { p with data := p.data.setI32 nextPgidOffset pageId }

/-- `get_tuple_count`: the number of slots, empty ones included. -/
def getTupleCount (p : Page) : ℤ := p.data.i32 tupleCntOffset

/-- `set_tuple_count`. -/
def setTupleCount (p : Page) (tupleCount : ℤ) : Page :=
  { p with data := p.data.setI32 tupleCntOffset tupleCount }

/-- The record of a slot is inside the page. Only then do `get_tuple_offset` and `get_tuple_size` read
the page: `get_data() + FIRST_TUPLE_OFFSET + slot_num * TUPLE_RECORD_SZ` is not compared with anything. -/
def RecordInPage (slotNum : ℤ) : Prop :=
  0 ≤ firstTupleOffset + slotNum * tupleRecordSz ∧
    firstTupleOffset + (slotNum + 1) * tupleRecordSz ≤ pageSize
  deriving Decidable

/-- What a function returns that first reads the record of the slot in `rid`. It is undefined where the
record is outside the page. -/
def atRecord {α : Type} (rid : RID) (result : α) : Option α :=
  if RecordInPage rid.slotNum then some result else none

/-- `get_tuple_size`, of a record inside the page. -/
def getTupleSize (p : Page) (slotNum : ℤ) : ℤ :=
  p.data.i32 (firstTupleOffset + slotNum * tupleRecordSz + offsetTSize)

/-- `set_tuple_size`. -/
def setTupleSize (p : Page) (slotNum tupleSize : ℤ) : Page :=
  { p with data := p.data.setI32 (firstTupleOffset + slotNum * tupleRecordSz + offsetTSize) tupleSize }

/-- `get_tuple_offset`, of a record inside the page. -/
def getTupleOffset (p : Page) (slotNum : ℤ) : ℤ :=
  p.data.i32 (firstTupleOffset + slotNum * tupleRecordSz)

/-- `set_tuple_offset`. -/
def setTupleOffset (p : Page) (slotNum offset : ℤ) : Page :=
  { p with data := p.data.setI32 (firstTupleOffset + slotNum * tupleRecordSz) offset }

/-- `get_free_space_pointer`. -/
def getFreeSpacePointer (p : Page) : ℤ := p.data.i32 freeSpacePtrOffset

/-- `set_free_space_pointer`. -/
def setFreeSpacePointer (p : Page) (fspOffset : ℤ) : Page :=
  { p with data := p.data.setI32 freeSpacePtrOffset fspOffset }

/-- `get_free_space`. -/
def getFreeSpace (p : Page) : ℤ :=
  getFreeSpacePointer p - (firstTupleOffset + getTupleCount p * tupleRecordSz)

/-- `insert_tuple_record`. -/
def insertTupleRecord (p : Page) (slotNum offset tupleSize : ℤ) : Page :=
  setTupleSize (setTupleOffset p slotNum offset) slotNum tupleSize

/-- `delete_tuple_record`. -/
def deleteTupleRecord (p : Page) (slotNum : ℤ) : Page :=
  if getTupleCount p ≤ slotNum then p
  else { p with data := p.data.memset (firstTupleOffset + slotNum * tupleRecordSz) 0 tupleRecordSz }

/-! ## Operations -/

/-- `init`. -/
def init (p : Page) (prevPgid nextPgid : ℤ) : Page :=
  let p := { p with data := p.data.memset startOffset 0 (pageSize - comPgHeaderSz) }
  let p := setPrevPageId p prevPgid
  let p := setNextPageId p nextPgid
  let p := setTupleCount p 0
  setFreeSpacePointer p invalidFreeSpacePtr

/-- `get_empty_slot`: the first empty slot, else a new one, else `-1`. -/
def getEmptySlot (p : Page) : ℤ × Page :=
  match (List.range (getTupleCount p).toNat).find? fun k : ℕ => getTupleOffset p k = 0 with
  | some slotNum => (slotNum, p)
  | none =>
    if getFreeSpace p < tupleRecordSz then (-1, p)
    else (getTupleCount p, setTupleCount p (getTupleCount p + 1))

/-- The end of `insert_tuple`, once a slot is found and the space is there: the tuple goes below the
others. -/
def storeTuple (p : Page) (insertedSlotNum : ℤ) (tuple : Tuple) : Page :=
  let tupleSize := tuple.size
  let freeSpacePointer := getFreeSpacePointer p - tupleSize
  let p := { p with data := tuple.serializeTo p.data freeSpacePointer }
  let p := setFreeSpacePointer p freeSpacePointer
  insertTupleRecord p insertedSlotNum freeSpacePointer tupleSize

/-- `insert_tuple`. The position of the tuple, or nothing where it returns false; the page may have
one slot more even then. -/
def insertTuple (p : Page) (tuple : Tuple) : Option RID × Page :=
  let (insertedSlotNum, p) := getEmptySlot p
  if getFreeSpace p < tuple.size then (none, p)
  else (some ⟨p.pageId, insertedSlotNum⟩, storeTuple p insertedSlotNum tuple)

/-- `mark_delete`. -/
def markDelete (p : Page) (rid : RID) : Bool × Page :=
  let slotNum := rid.slotNum
  let offset := getTupleOffset p slotNum
  if getTupleCount p ≤ slotNum ∨ offset = 0 ∨ p.pageId ≠ rid.pageId then (false, p)
  else (true, setTupleSize p slotNum (setDeletedFlag (getTupleSize p slotNum)))

/-- `rollback_delete`. -/
def rollbackDelete (p : Page) (rid : RID) : Page :=
  let slotNum := rid.slotNum
  let offset := getTupleOffset p slotNum
  if getTupleCount p ≤ slotNum ∨ offset = 0 then p
  else setTupleSize p slotNum (unsetDeletedFlag (getTupleSize p slotNum))

/-- One round of the loop at the end of `apply_delete`: a tuple below the deleted one has moved. -/
def relocate (deletedOffset deletedSize : ℤ) (p : Page) (slotNum : ℕ) : Page :=
  let tupleOffset := getTupleOffset p slotNum
  if tupleOffset ≠ 0 ∧ tupleOffset < deletedOffset then
    setTupleOffset p slotNum (tupleOffset + deletedSize)
  else p

/-- `apply_delete`, as long as the number of bytes to move (`applyDeleteMoves`) is not negative. -/
def applyDelete (p : Page) (rid : RID) : Page :=
  let slotNum := rid.slotNum
  let deletedOffset := getTupleOffset p slotNum
  let deletedSize := getTupleSize p slotNum
  if (getTupleCount p ≤ slotNum ∨ deletedOffset = 0) ∧ isDeleted deletedSize then p
  else
    let freeSpacePointer := getFreeSpacePointer p
    let deletedSize := unsetDeletedFlag (getTupleSize p slotNum)
    let p := deleteTupleRecord p slotNum
    let p := { p with data := p.data.memmove (freeSpacePointer + deletedSize) freeSpacePointer
                                (deletedOffset - freeSpacePointer) }
    let p := setFreeSpacePointer p (freeSpacePointer + deletedSize)
    (List.range (getTupleCount p).toNat).foldl (relocate deletedOffset deletedSize) p

/-- The number of bytes that `apply_delete` tells `memmove` to move, if it comes to that. The parameter is
unsigned, so a negative number is one of almost `2^64`, and the behaviour is undefined. -/
def applyDeleteMoves (p : Page) (rid : RID) : Option ℤ :=
  let slotNum := rid.slotNum
  let deletedOffset := getTupleOffset p slotNum
  if (getTupleCount p ≤ slotNum ∨ deletedOffset = 0) ∧ isDeleted (getTupleSize p slotNum) then none
  else some (deletedOffset - getFreeSpacePointer p)

/-- `memmove` in `apply_delete` stays inside the page, if it comes to that. -/
def MovesInPage (p : Page) (rid : RID) : Prop :=
  let deletedSize := unsetDeletedFlag (getTupleSize p rid.slotNum)
  ∀ n ∈ applyDeleteMoves p rid, 0 ≤ n ∧ 0 ≤ getFreeSpacePointer p ∧
    getFreeSpacePointer p + deletedSize + n ≤ pageSize

instance (p : Page) (rid : RID) : Decidable (MovesInPage p rid) :=
  inferInstanceAs (Decidable (∀ n ∈ applyDeleteMoves p rid, _))

/-- `apply_delete`, for any position: `none` where it leaves the page. -/
def applyDelete? (p : Page) (rid : RID) : Option Page :=
  if MovesInPage p rid then atRecord rid (applyDelete p rid) else none

/-- `update_tuple`. -/
def updateTuple (p : Page) (newTuple : Tuple) (rid : RID) : Bool × Page :=
  let slotNum := rid.slotNum
  let tupleOffset := getTupleOffset p slotNum
  let tupleSize := getTupleSize p slotNum
  if getTupleCount p ≤ slotNum ∨ tupleOffset = 0 ∨ tupleSize ≠ newTuple.size ∨
      rid.pageId ≠ p.pageId then (false, p)
  else (true, { p with data := newTuple.serializeTo p.data tupleOffset })

/-- `get_tuple`: the tuple, or nothing where it returns false. -/
def getTuple (p : Page) (rid : RID) : Option Tuple :=
  let slotNum := rid.slotNum
  let tupleOffset := getTupleOffset p slotNum
  let tupleSize := getTupleSize p slotNum
  let tupleSize := if isDeleted tupleSize then unsetDeletedFlag tupleSize else tupleSize
  if getTupleCount p ≤ slotNum ∨ tupleOffset = 0 then none
  else some (Tuple.ofBytes rid (p.data.read tupleOffset tupleSize.toNat))

/-- The occupied slots in `[from, to)` in order, as the loops of `get_next_tuple_rid` and
`get_the_first_tuple` look for the first of them. -/
def firstSlot (p : Page) (fromSlot toSlot : ℤ) : Option ℕ :=
  (List.range toSlot.toNat).find? fun k : ℕ => fromSlot ≤ k ∧ getTupleOffset p k ≠ 0

/-- `get_next_tuple_rid`: whether there is a next tuple, and what `next_rid` is set to. It is not
set when there is no first tuple. -/
def getNextTupleRid (p : Page) (curRid nextRid : RID) : Bool × RID :=
  if curRid.pageId = invalidPageId then
    match firstSlot p 0 (getTupleCount p) with
    | some slotNum => (true, ⟨p.pageId, slotNum⟩)
    | none => (false, nextRid)
  else
    match firstSlot p (curRid.slotNum + 1) (getTupleCount p) with
    | some slotNum => (true, ⟨p.pageId, slotNum⟩)
    | none => (false, ⟨invalidPageId, -1⟩)

/-- `get_the_first_tuple`: the tuple, or nothing where it returns false. A tuple whose size is not
positive, as that of a marked tuple, is never allocated, and reading it fails an assertion: that is
the outer `none`. -/
def getTheFirstTuple (p : Page) : Option (Option Tuple) :=
  match firstSlot p 0 (getTupleCount p) with
  | none => some none
  | some slotNum =>
    let tupleSize := getTupleSize p slotNum
    if 0 < tupleSize then
      some (some (Tuple.ofBytes ⟨p.pageId, slotNum⟩
        (p.data.read (getTupleOffset p slotNum) tupleSize.toNat)))
    else none

/-- `get_stored_tuple_cnt`. -/
def getStoredTupleCnt (p : Page) : ℤ :=
  ((List.range (getTupleCount p).toNat).filter fun k : ℕ => getTupleOffset p k ≠ 0).length

end Dawn.TablePage
