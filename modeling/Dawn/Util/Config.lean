import Dawn.Lib.Bytes

/-!
# Constants

The constants of `src/include/util/config.h`. Offsets, sizes, page ids, frame ids, and operation
codes are 32-bit signed integers in the source and integers here; a computation that can leave the
32-bit range says so by `wrap32`.
-/

namespace Dawn

/-- `PAGE_SIZE`. -/
@[simp] def pageSize : ℤ := 4096

/-- `READ_DB_PG_NUM`: pages read at once when a database is opened. -/
@[simp] def readDbPgNum : ℕ := 10240

/-- `READ_DB_BUF_SZ`. -/
@[simp] def readDbBufSz : ℕ := 4096 * readDbPgNum

/-! ## Pages -/

/-- `COM_PG_HEADER_SZ`: the size of the header common to all pages. -/
@[simp] def comPgHeaderSz : ℤ := 64

/-- `INVALID_PAGE_ID`. -/
@[simp] def invalidPageId : ℤ := -1

/-- `INVALID_SLOT_NUM`. -/
@[simp] def invalidSlotNum : ℤ := -1

/-- `STATUS_EXIST`. -/
@[simp] def statusExist : UInt8 := 1

/-- `STATUS_FREE`. -/
@[simp] def statusFree : UInt8 := 2

/-- `STATUS_TMP`. -/
@[simp] def statusTmp : UInt8 := 4

/-- `STATUS_OFFSET`. -/
@[simp] def statusOffset : ℤ := 0

/-- `LSN_OFFSET`. -/
@[simp] def lsnOffset : ℤ := 1

/-- `PAGE_ID_OFFSET`. -/
@[simp] def pageIdOffset : ℤ := 5

/-- `TABLE_PAGE_RESERVED`. -/
@[simp] def tablePageReserved : ℤ := 64

/-! ## Sizes of the stored types -/

/-- `PGID_T_SIZE`. -/
@[simp] def pgidTSize : ℤ := 4

/-- `OFFSET_T_SIZE`. -/
@[simp] def offsetTSize : ℤ := 4

/-- `SIZE_T_SIZE`. -/
@[simp] def sizeTSize : ℤ := 4

/-- `ENUM_SIZE`. -/
@[simp] def enumSize : ℤ := 4

/-- `BOOLEAN_T_SIZE`. -/
@[simp] def booleanTSize : ℤ := 1

/-- `INTEGER_T_SIZE`. -/
@[simp] def integerTSize : ℤ := 4

/-- `DECIMAL_T_SIZE`. -/
@[simp] def decimalTSize : ℤ := 8

/-! ## Operation codes -/

/-- `OP_SUCCESS`. -/
@[simp] def opSuccess : ℤ := 0

/-- `DUP_KEY`. -/
@[simp] def dupKey : ℤ := -1

/-- `NEW_PG_FAIL`. -/
@[simp] def newPgFail : ℤ := -2

/-- `TUPLE_NOT_FOUND`. -/
@[simp] def tupleNotFound : ℤ := -3

/-- `MARK_DELETE_FAIL`. -/
@[simp] def markDeleteFail : ℤ := -4

/-! ## The link hash index -/

/-- `LK_HA_PG_SLOT_NUM`: the slots of one `LinkHashPage`. -/
@[simp] def lkHaPgSlotNum : ℤ := (pageSize - comPgHeaderSz) / pgidTSize

/-- `Lk_HA_TOTAL_SLOT_NUM`: the slots of a whole table. -/
@[simp] def lkHaTotalSlotNum : ℤ := lkHaPgSlotNum * lkHaPgSlotNum

end Dawn
