import Dawn.Table.Schema

/-!
# Tuples

`RID` of `src/include/table/rid.h` and `Tuple` of `src/include/table/tuple.h` and
`src/table/tuple.cpp`. A tuple owns a buffer of `size_` bytes once it is allocated, and the length of
the buffer is a field of the structure. Strings are stored without a terminator.
-/

namespace Dawn

/-- `RID`: the position of a tuple. -/
structure RID where
  /-- `page_id_`. -/
  pageId : ℤ := invalidPageId
  /-- `slot_num_`. -/
  slotNum : ℤ := invalidSlotNum
  deriving DecidableEq, Repr

theorem length_eq_of_none : ∀ d : List UInt8, none = some d → (d.length : ℤ) = -1 := nofun

theorem minus_one_le : (none : Option (List UInt8)) = none → (-1 : ℤ) ≤ 0 := fun _ => by decide

/-- `Tuple`. -/
structure Tuple where
  /-- `rid_`. -/
  rid : RID := {}
  /-- `size_`. -/
  size : ℤ := -1
  /-- `data_`, or nothing where `allocated_` is false. -/
  data : Option (List UInt8) := none
  /-- The buffer has `size_` bytes. -/
  size_eq : ∀ d, data = some d → (d.length : ℤ) = size := by first | exact length_eq_of_none | simp
  /-- A tuple is allocated as soon as its size is positive. -/
  size_le : data = none → size ≤ 0 := by first | exact minus_one_le | simp

namespace Tuple

/-- An allocated tuple that holds the given bytes. -/
def ofBytes (rid : RID) (bytes : List UInt8) : Tuple where
  rid := rid
  size := bytes.length
  data := some bytes
  size_eq := by rintro d ⟨rfl⟩; rfl
  size_le := by simp

@[simp] theorem ofBytes_rid (rid : RID) (bytes : List UInt8) : (ofBytes rid bytes).rid = rid := rfl

@[simp] theorem ofBytes_size (rid : RID) (bytes : List UInt8) : (ofBytes rid bytes).size = bytes.length := rfl

@[simp] theorem ofBytes_data (rid : RID) (bytes : List UInt8) : (ofBytes rid bytes).data = some bytes := rfl

/-- `set_rid`. -/
def setRid (t : Tuple) (rid : RID) : Tuple := { t with rid := rid }

/-- The bytes of the tuple, none for a tuple that is not allocated. -/
def bytes (t : Tuple) : List UInt8 := t.data.getD []

theorem data_eq_of_pos (t : Tuple) (h : 0 < t.size) : t.data = some t.bytes ∧ (t.bytes.length : ℤ) = t.size := by
  cases hd : t.data with
  | none => have := t.size_le hd; omega
  | some d => simpa [bytes, hd] using t.size_eq d hd

@[simp] theorem bytes_ofBytes (rid : RID) (bytes : List UInt8) : (ofBytes rid bytes).bytes = bytes := rfl

@[simp] theorem setRid_bytes (t : Tuple) (rid : RID) : (t.setRid rid).bytes = t.bytes := rfl

@[simp] theorem setRid_data (t : Tuple) (rid : RID) : (t.setRid rid).data = t.data := rfl

@[simp] theorem setRid_size (t : Tuple) (rid : RID) : (t.setRid rid).size = t.size := rfl

/-- `serialize_to(dst)`: nothing is written for a tuple that is not allocated. -/
def serializeTo (t : Tuple) (m : Bytes) (dst : ℤ) : Bytes :=
  match t.data with
  | none => m
  | some d => m.write dst d

end Tuple

/-- The memory at `data_` of a tuple that holds `bytes`. -/
def tupleMemory (bytes : List UInt8) : Bytes := fun i => bytes.getD i.toNat 0

/-- The buffer `char tmp[str_size+1]` for a string of the column. The sum is an `int`, and the array is undefined where
it overflows or is not positive. -/
def Column.HasBuffer (col : Column) : Prop :=
  col.columnType = .kChar → 0 < col.getDataSize + 1 ∧ IsI32 (col.getDataSize + 1)
  deriving Decidable

/-- `get_value` after the column is found, where `m` is the memory at the column. A string is copied out of the tuple
and a terminator is put after it, since the tuple has none. -/
def readColumn (col : Column) (m : Bytes) : Option Value :=
  if ¬ col.HasBuffer then none
  else if col.columnType = .kChar then
    Value.ofMemory (fun i => if i < col.getDataSize then m i else 0) .kChar col.getDataSize
  else
    Value.ofMemory m col.columnType (-1)

/-- `Tuple::get_value`, on the bytes of the tuple. -/
def getValue (bytes : List UInt8) (schema : Schema) (idx : ℤ) : Option Value := do
  let col ← schema.getColumn idx
  readColumn col fun i => tupleMemory bytes (col.offset + i)

section Read

variable {bytes : List UInt8} {col : Column} {v : Value}

theorem getValue_eq {schema : Schema} {idx : ℤ}
    (h : schema.getColumn idx = some col) :
    getValue bytes schema idx = readColumn col fun i => tupleMemory bytes (col.offset + i) := by
  rw [getValue, h, some_bind]

theorem hasBuffer_of_readColumn {m : Bytes} (h : readColumn col m = some v) : col.HasBuffer := by
  by_contra hb
  rw [readColumn, if_pos hb] at h
  cases h

theorem readColumn_eq (hb : col.HasBuffer) (m : Bytes) : readColumn col m = if col.columnType = .kChar then
    Value.ofMemory (fun i => if i < col.getDataSize then m i else 0) .kChar col.getDataSize
    else Value.ofMemory m col.columnType (-1) :=
  if_neg (not_not.mpr hb)

theorem Column.hasBuffer_of_ne (h : col.columnType ≠ .kChar) : col.HasBuffer := fun hc => absurd hc h

end Read

/-- The key of the tuple that holds `bytes`. -/
def keyOf (schema : Schema) (bytes : List UInt8) : Option Value :=
  getValue bytes schema schema.keyIdx

end Dawn
