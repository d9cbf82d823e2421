import Dawn.Lib.UnorderedMap
import Dawn.Util.Config

/-!
# The catalog

`CatalogTable` of `src/include/meta/catalog_table.h` and `src/meta/catalog_table.cpp`: the names and ids
of all tables, on one page and in three maps. From the front the page has the number of tables and a
record for each (offset and size of the name, and the id, which is the id of the page of the table's
metadata); the names, each with its terminator, grow downward from the end of the page. A store is a
store into the memory around the page, wherever its offset is.

`none` is undefined behaviour: an iterator that is `end()` is dereferenced or erased. The page that
`new_page` returns is a parameter, and of a `TableMetaData` only its name is modelled.
-/

namespace Dawn

/-- `CatalogTable`. -/
structure CatalogTable where
  /-- `data_`. -/
  data : Bytes
  /-- `table_num_`. -/
  tableNum : ℤ
  /-- `free_space_pointer_`. -/
  freeSpacePointer : ℤ
  /-- `tb_id_to_name_`. -/
  tbIdToName : UnorderedMap ℤ (List UInt8) := ∅
  /-- `tb_name_to_id_`. -/
  tbNameToId : UnorderedMap (List UInt8) ℤ := ∅
  /-- `tb_id_to_meta_`: the `table_name_` of the metadata that is in memory. -/
  tbIdToMeta : UnorderedMap ℤ (List UInt8) := ∅

namespace CatalogTable

/-- `TABLE_NUM_OFFSET`. -/
def tableNumOffset : ℤ := comPgHeaderSz

/-- `TABLE_RECORD_SZ`. -/
def tableRecordSz : ℤ := offsetTSize + sizeTSize + pgidTSize

/-- The offset of the record at index `i`. -/
def recordOffset (i : ℤ) : ℤ := tableNumOffset + sizeTSize + i * tableRecordSz

/-- The offset of a name, in the record. -/
def tbNameOffset (data : Bytes) (i : ℤ) : ℤ := data.i32 (recordOffset i)

/-- The size of a name without its terminator, in the record. -/
def tbNameSz (data : Bytes) (i : ℤ) : ℤ := data.i32 (recordOffset i + offsetTSize)

/-- The page id in the record. -/
def tbPageId (data : Bytes) (i : ℤ) : ℤ := data.i32 (recordOffset i + offsetTSize + sizeTSize)

/-! ## The constructor -/

/-- `get_table_name`: the string that is made of the first `size` bytes and a terminator. -/
def tableNameAt (data : Bytes) (nameOffset size : ℤ) : List UInt8 := data.cString nameOffset size.toNat

/-- The names and ids that the constructor reads, in the order in which it does. -/
def entries (data : Bytes) : List (List UInt8 × ℤ) :=
  (List.range (data.i32 tableNumOffset).toNat).map fun i : ℕ =>
    (tableNameAt data (tbNameOffset data i) (tbNameSz data i), tbPageId data i)

/-- `tb_id_to_name_` after the loop of the constructor. -/
def idToName (es : List (List UInt8 × ℤ)) : UnorderedMap ℤ (List UInt8) :=
  es.foldl (fun m e => m.insertNew e.2 e.1) ∅

/-- `tb_name_to_id_` after the loop of the constructor. -/
def nameToId (es : List (List UInt8 × ℤ)) : UnorderedMap (List UInt8) ℤ :=
  es.foldl (fun m e => m.insertNew e.1 e.2) ∅

/-- The constructor, on a page of an existing database. -/
def ofPage (data : Bytes) : CatalogTable where
  data := data
  tableNum := data.i32 tableNumOffset
  freeSpacePointer :=
    if data.i32 tableNumOffset = 0 then pageSize
    else tbNameOffset data (data.i32 tableNumOffset - 1)
  tbIdToName := idToName (entries data)
  tbNameToId := nameToId (entries data)

/-- The constructor with `from_scratch`. -/
def fromScratch (data : Bytes) : CatalogTable := ofPage (data.setI32 tableNumOffset 0)

/-! ## Lookups -/

/-- `get_table_id`. -/
def getTableId (s : CatalogTable) (tbName : List UInt8) : ℤ :=
  (s.tbNameToId.lookup tbName).getD (-1)

/-- `get_table_meta_data` by id: reads the metadata of a table into memory. -/
def getTableMetaData (s : CatalogTable) (tableId : ℤ) : CatalogTable :=
  if tableId ∈ s.tbIdToMeta then s
  else
    match s.tbIdToName.lookup tableId with
    | none => s
    | some name => { s with tbIdToMeta := s.tbIdToMeta.insertNew tableId name }

/-! ## `create_table` -/

/-- The loop that stores a name, and its terminator. The length is a 32-bit integer. -/
def writeName (data : Bytes) (nameOffset : ℤ) (name : List UInt8) : Bytes :=
  (data.write nameOffset (name.take (wrap32 name.length).toNat)).write
    (nameOffset + wrap32 name.length) [0]

/-- The stores of a record. -/
def writeRecord (data : Bytes) (insertOffset nameOffset nameSz pageId : ℤ) : Bytes :=
  ((data.setI32 insertOffset nameOffset).setI32 (insertOffset + offsetTSize) nameSz).setI32
    (insertOffset + offsetTSize + sizeTSize) pageId

/-- `available_space` of `create_table`. -/
def availableSpace (s : CatalogTable) : ℤ :=
  s.freeSpacePointer - recordOffset (s.data.i32 tableNumOffset)

/-- `create_table`. `newPage` is what `new_page` returns when it is called. -/
def createTable (s : CatalogTable) (tableName : List UInt8) (newPage : Option ℤ) :
    Bool × CatalogTable :=
  if tableName ∈ s.tbNameToId then (false, s)
  else if wrap32 (tableName.length + tableRecordSz) > s.availableSpace then (false, s)
  else
    match newPage with
    | none => (false, s)
    | some pageId =>
      let insertOffset := recordOffset (s.data.i32 tableNumOffset)
      let tableNum := s.tableNum + 1
      let len := wrap32 tableName.length
      let freeSpacePointer := wrap32 (s.freeSpacePointer - (len + 1))
      let data := writeName (s.data.setI32 tableNumOffset tableNum) freeSpacePointer tableName
      (true,
        { data := writeRecord data insertOffset freeSpacePointer tableName.length pageId
          tableNum := tableNum
          freeSpacePointer := freeSpacePointer
          tbIdToName := s.tbIdToName.insertNew pageId tableName
          tbNameToId := s.tbNameToId.insertNew tableName pageId
          tbIdToMeta := s.tbIdToMeta.insertNew pageId tableName })

/-! ## `delete_table` -/

/-- The search for the record of a table: its index and its offset. The offset is `-1` if there is no
record at all, and that of the last record if no record matches. -/
def findTable (s : CatalogTable) (tableId : ℤ) : ℕ × ℤ :=
  match (List.range s.tableNum.toNat).find? fun i : ℕ => tbPageId s.data i = tableId with
  | some i => (i, recordOffset i)
  | none => (s.tableNum.toNat, if s.tableNum ≤ 0 then -1 else recordOffset (s.tableNum - 1))

/-- `*reinterpret_cast<int32_t*>(data + off) += v`. -/
def addI32 (data : Bytes) (off v : ℤ) : Bytes := data.setI32 off (wrap32 (data.i32 off + v))

/-- One round of the loop of `delete_table`: the record at `j` goes one place down and its name goes up
by `shift`. -/
def compactStep (shift : ℤ) (data : Bytes) (j : ℕ) : Bytes :=
  let tableOffset := recordOffset j
  let nameOffset := tbNameOffset data j
  let nameSize := tbNameSz data j
  let data := data.memmove (tableOffset - tableRecordSz) tableOffset tableRecordSz
  let data := data.memmove (nameOffset + shift) nameOffset (nameSize + 1)
  addI32 data (tableOffset - tableRecordSz) shift

/-- `delete_table` by id, with `delete_table_data`. -/
def deleteTable (s : CatalogTable) (tableId : ℤ) : Option (Bool × CatalogTable) :=
  match s.tbIdToName.lookup tableId with
  | none => some (true, s)
  | some deletedTbName =>
    let (i, tbOffset) := s.findTable tableId
    if tbOffset = -1 then some (false, s)
    else if deletedTbName ∈ s.tbNameToId then
      let deletedNameSize := s.data.i32 (tbOffset + offsetTSize)
      let data := (List.range' (i + 1) (s.tableNum.toNat - (i + 1))).foldl
        (compactStep (deletedNameSize + 1)) s.data
      some (true,
        { data := data.setI32 tableNumOffset (s.tableNum - 1)
          tableNum := s.tableNum - 1
          freeSpacePointer := wrap32 (s.freeSpacePointer + (deletedNameSize + 1))
          tbIdToName := s.tbIdToName.erase tableId
          tbNameToId := s.tbNameToId.erase deletedTbName
          tbIdToMeta := s.tbIdToMeta.erase tableId })
    else none

/-- `delete_table` by name. -/
def deleteTableByName (s : CatalogTable) (tableName : List UInt8) : Option (Bool × CatalogTable) :=
  match s.tbNameToId.lookup tableName with
  | none => some (true, s)
  | some tableId => s.deleteTable tableId

/-! ## `change_table_name` -/

/-- `check_space`. -/
def checkSpace (s : CatalogTable) (sizeNeeded : ℤ) : Bool :=
  let insertOffset := tableNumOffset + s.tableNum * tableRecordSz
  !decide (s.freeSpacePointer - insertOffset < sizeNeeded)

/-- One round of the loop for a shorter name: the name at `j` goes up, and so does the offset in the
record before; the offset in the last record goes up in the last round. -/
def shrinkStep (tableNum : ℤ) (differenceAbs : ℤ) (data : Bytes) (j : ℕ) : Bytes :=
  let nameOffset := tbNameOffset data j
  let nameSize := tbNameSz data j
  let data := data.memmove (nameOffset + differenceAbs) nameOffset (nameSize + 1)
  let data := addI32 data (recordOffset j - tableRecordSz) differenceAbs
  if j = tableNum - 1 then addI32 data (recordOffset j) differenceAbs else data

/-- One round of the loop for a longer name: the name at `k` and its offset go down. -/
def growStep (differenceAbs : ℤ) (data : Bytes) (k : ℕ) : Bytes :=
  let nameOffset := tbNameOffset data k
  let nameSize := tbNameSz data k
  let data := data.memmove (nameOffset - differenceAbs) nameOffset (nameSize + 1)
  addI32 data (recordOffset k) (-differenceAbs)

/-- The part of `change_table_name` that makes room: `none` if there is no space, else the page and
`free_space_pointer_`. -/
def makeRoom (s : CatalogTable) (i : ℕ) (difference : ℤ) : Option (Bytes × ℤ) :=
  let differenceAbs := wrap32 |difference|
  if difference < 0 then
    some ((List.range' (i + 1) (s.tableNum.toNat - (i + 1))).foldl
      (shrinkStep s.tableNum differenceAbs) s.data, wrap32 (s.freeSpacePointer + differenceAbs))
  else if difference > 0 then
    if s.checkSpace differenceAbs then
      some ((List.range' i (s.tableNum.toNat - i)).reverse.foldl (growStep differenceAbs) s.data,
        wrap32 (s.freeSpacePointer - differenceAbs))
    else none
  else some (s.data, s.freeSpacePointer)

/-- `change_table_name`. -/
def changeTableName (s : CatalogTable) (tableId : ℤ) (newName : List UInt8) :
    Option (Bool × CatalogTable) :=
  match s.tbIdToName.lookup tableId with
  | none => some (false, s)
  | some oldName =>
    let (i, tbOffset) := s.findTable tableId
    if tbOffset = -1 then some (false, s)
    else
      match s.makeRoom i (wrap32 ((newName.length : ℤ) - oldName.length)) with
      | none => some (false, s)
      | some (data, freeSpacePointer) =>
        let data := writeName data (data.i32 tbOffset) newName
        let data := data.setI32 (tbOffset + offsetTSize) newName.length
        -- The metadata is looked up, and the iterator is used if it is `end()`.
        if tableId ∈ s.tbIdToMeta ∧ oldName ∈ s.tbNameToId then
          some (true,
            { s with
              data := data
              freeSpacePointer := freeSpacePointer
              tbIdToName := UnorderedMap.insertNew (s.tbIdToName.erase tableId) tableId newName
              tbNameToId := UnorderedMap.insertNew (s.tbNameToId.erase oldName) newName tableId })
        else none

end CatalogTable

end Dawn
