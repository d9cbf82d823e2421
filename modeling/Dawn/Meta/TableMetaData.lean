import Dawn.Meta.CatalogOps
import Dawn.Table.Schema

/-!
# The page of a table's metadata

The bytes of `TableMetaData` of `src/include/meta/table_meta_data.h` and `src/meta/table_meta_data.cpp`:
the ids of the first page and of the index header page, and the columns. A column has the length of its
name, the name with its terminator, the offset in a tuple, the type, and the size of its data. The next
column starts where it ends, so the place of a column depends on the names before it. Columns that fit into
the page are read as they were stored (`ofPage_writeSchema`).
-/

namespace Dawn

/-- The number that stands for a type. -/
def TypeId.toInt : TypeId → ℤ
  | .kInvalid => -1
  | .kBoolean => 0
  | .kInteger => 1
  | .kDecimal => 2
  | .kChar => 3

/-- The type that a number stands for. A number of no type has the size of `kInvalid`. -/
def TypeId.ofInt (v : ℤ) : TypeId :=
  if v = 0 then .kBoolean else if v = 1 then .kInteger else if v = 2 then .kDecimal
  else if v = 3 then .kChar else .kInvalid

@[simp] theorem TypeId.ofInt_toInt (t : TypeId) : ofInt t.toInt = t := by
  cases t <;> rfl

theorem TypeId.isI32_toInt (t : TypeId) : IsI32 t.toInt := by
  cases t <;> norm_num [toInt, IsI32]

/-- `TableMetaData`. -/
structure TableMetaData where
  /-- `self_page_id_`. -/
  selfPageId : ℤ
  /-- `first_table_page_id_`, also that of `table_`. -/
  firstTablePageId : ℤ
  /-- `index_header_page_id_`. -/
  indexHeaderPageId : ℤ
  /-- `table_schema_`. -/
  tableSchema : Schema
  deriving DecidableEq, Repr

namespace TableMetaData

/-- `FIRST_TABLE_PGID_OFFSET`. -/
def firstTablePgidOffset : ℤ := comPgHeaderSz

/-- `INDEX_HEADER_PGID_OFFSET`. -/
def indexHeaderPgidOffset : ℤ := comPgHeaderSz + pgidTSize

/-- `COLUMN_NUM_OFFSET`. -/
def columnNumOffset : ℤ := comPgHeaderSz + 2 * pgidTSize + 64

/-- `FIRST_COLUMN_OFFSET`. -/
def firstColumnOffset : ℤ := comPgHeaderSz + 2 * pgidTSize + 64 + sizeTSize

/-- `FIXED_COLUMN_SIZE`. -/
def fixedColumnSize : ℤ := sizeTSize + offsetTSize + enumSize + sizeTSize

/-- `col_size`. -/
def colSize (nameLen : ℤ) : ℤ := fixedColumnSize + nameLen + 1

/-! ## Writing columns -/

/-- One round of the loop that stores the columns. -/
def writeColumn (data : Bytes) (colNameLenOffset : ℤ) (col : Column) : Bytes :=
  let nameLen := wrap32 col.columnName.length
  let data := data.setI32 colNameLenOffset nameLen
  let nameOffset := colNameLenOffset + sizeTSize
  let offsetOffset := nameOffset + nameLen + 1
  let data := data.setI32 offsetOffset col.offset
  let typeIdOffset := offsetOffset + offsetTSize
  let data := data.setI32 typeIdOffset col.columnType.toInt
  let dataSizeOffset := typeIdOffset + enumSize
  let data := data.setI32 dataSizeOffset col.getDataSize
  CatalogTable.writeName data nameOffset col.columnName

/-- The loop that stores the columns. -/
def writeColumns : List Column → ℤ → Bytes → Bytes
  | [], _, data => data
  | col :: cols, off, data =>
    writeColumns cols (off + colSize (wrap32 col.columnName.length)) (writeColumn data off col)

/-- What the constructor stores before the page is flushed. -/
def writeSchema (data : Bytes) (schema : Schema) : Bytes :=
  writeColumns schema.columns firstColumnOffset
    (data.setI32 columnNumOffset schema.columns.length)

/-! ## Reading columns -/

/-- One round of the loop that reads the columns. The name is a C string in the page. -/
def readColumn (data : Bytes) (colNameLenOffset : ℤ) : Column :=
  let colNameLen := data.i32 colNameLenOffset
  let nameOffset := colNameLenOffset + sizeTSize
  let offsetOffset := nameOffset + colNameLen + 1
  let offsetInTp := data.i32 offsetOffset
  let typeIdOffset := offsetOffset + offsetTSize
  let typeId := TypeId.ofInt (data.i32 typeIdOffset)
  let dataSizeOffset := typeIdOffset + enumSize
  let dataSize := data.i32 dataSizeOffset
  let name := data.cString nameOffset (pageSize - nameOffset).toNat
  if typeId = .kChar then .ofChar name offsetInTp dataSize else .ofType typeId name offsetInTp

/-- The loop that reads the columns. -/
def readColumns (data : Bytes) : ℕ → ℤ → List Column
  | 0, _ => []
  | n + 1, off => readColumn data off :: readColumns data n (off + colSize (data.i32 off))

/-- What the constructor reads from the page of an existing table. -/
def ofPage (tableId : ℤ) (data : Bytes) : TableMetaData where
  selfPageId := tableId
  firstTablePageId := data.i32 firstTablePgidOffset
  indexHeaderPageId := data.i32 indexHeaderPgidOffset
  tableSchema := { columns := readColumns data (data.i32 columnNumOffset).toNat firstColumnOffset }

/-! ## The round trip -/

/-- A column as its constructors make it, with a C string for its name and 32-bit numbers. -/
structure Storable (col : Column) : Prop where
  noNul : 0 ∉ col.columnName
  offset : IsI32 col.offset
  dataSize : IsI32 col.getDataSize
  charLength : col.columnType ≠ .kChar → col.charLength = 0

/-- The bytes that the columns take. -/
def columnsSize (cols : List Column) : ℤ := (cols.map fun col => colSize col.columnName.length).sum

/-- A column is stored at an offset. -/
structure ColumnAt (data : Bytes) (off : ℤ) (col : Column) : Prop where
  nameLen : data.i32 off = col.columnName.length
  name : data.read (off + 4) (col.columnName.length + 1) = col.columnName ++ [0]
  offset : data.i32 (off + 4 + col.columnName.length + 1) = col.offset
  typeId : data.i32 (off + 4 + col.columnName.length + 1 + 4) = col.columnType.toInt
  dataSize : data.i32 (off + 4 + col.columnName.length + 1 + 4 + 4) = col.getDataSize

/-- Columns are stored one after the other. -/
def ColumnsAt (data : Bytes) : ℤ → List Column → Prop
  | _, [] => True
  | off, col :: cols => ColumnAt data off col ∧ ColumnsAt data (off + colSize col.columnName.length) cols

section RoundTrip

variable {data data' : Bytes} {off : ℤ} {col : Column} {cols : List Column}

theorem colSize_eq (nameLen : ℤ) : colSize nameLen = 17 + nameLen := by
  simp only [colSize, fixedColumnSize, sizeTSize, offsetTSize, enumSize]
  ring

theorem columnsSize_cons (col : Column) (cols : List Column) :
    columnsSize (col :: cols) = 17 + col.columnName.length + columnsSize cols := by
  simp [columnsSize, colSize_eq]

theorem columnsSize_nonneg (cols : List Column) : 0 ≤ columnsSize cols := by
  induction cols with
  | nil => simp [columnsSize]
  | cons col cols ih => rw [columnsSize_cons]; omega

theorem ColumnAt.congr (h : ColumnAt data off col)
    (hd : ∀ i, off ≤ i → i < off + colSize col.columnName.length → data' i = data i) : ColumnAt data' off col := by
  rw [colSize_eq] at hd
  refine ⟨?_, ?_, ?_, ?_, ?_⟩
  · rw [← h.nameLen]
    exact Bytes.i32_congr fun i hi => hd _ (by omega) (by omega)
  · rw [← h.name]
    exact Bytes.read_congr fun i hi => hd _ (by omega) (by omega)
  · rw [← h.offset]
    exact Bytes.i32_congr fun i hi => hd _ (by omega) (by omega)
  · rw [← h.typeId]
    exact Bytes.i32_congr fun i hi => hd _ (by omega) (by omega)
  · rw [← h.dataSize]
    exact Bytes.i32_congr fun i hi => hd _ (by omega) (by omega)

theorem ColumnsAt.congr (h : ColumnsAt data off cols)
    (hd : ∀ i, off ≤ i → i < off + columnsSize cols → data' i = data i) : ColumnsAt data' off cols := by
  induction cols generalizing off with
  | nil => trivial
  | cons col cols ih =>
    have hpos := columnsSize_nonneg cols
    rw [columnsSize_cons] at hd
    refine ⟨h.1.congr fun i hi hi' => hd i hi ?_, ih h.2 fun i hi hi' => hd i ?_ ?_⟩
    · rw [colSize_eq] at hi'
      omega
    · rw [colSize_eq] at hi
      omega
    · rw [colSize_eq] at hi'
      omega

theorem writeColumn_of_notMem (hlen : (col.columnName.length : ℤ) < 2^31) {i : ℤ}
    (hi : i < off ∨ off + colSize col.columnName.length ≤ i) : writeColumn data off col i = data i := by
  rw [colSize_eq] at hi
  simp only [writeColumn, wrap32_of_isI32 (show IsI32 col.columnName.length from ⟨by omega, hlen⟩),
    CatalogTable.writeName_eq hlen, sizeTSize, offsetTSize, enumSize]
  rw [Bytes.write_of_notMem (by simp; omega), Bytes.setI32_of_notMem (by omega),
    Bytes.setI32_of_notMem (by omega), Bytes.setI32_of_notMem (by omega), Bytes.setI32_of_notMem (by omega)]

theorem columnAt_writeColumn (hlen : (col.columnName.length : ℤ) < 2^31) (h : Storable col) :
    ColumnAt (writeColumn data off col) off col := by
  have hw : IsI32 (col.columnName.length : ℤ) := ⟨by omega, hlen⟩
  have hn : ((col.columnName ++ [0]).length : ℤ) = col.columnName.length + 1 := by simp
  simp only [writeColumn, wrap32_of_isI32 hw, CatalogTable.writeName_eq hlen, sizeTSize, offsetTSize, enumSize]
  refine ⟨?_, ?_, ?_, ?_, ?_⟩
  · rw [Bytes.i32_write_of_disjoint (by omega), Bytes.i32_setI32_of_disjoint (by omega),
      Bytes.i32_setI32_of_disjoint (by omega), Bytes.i32_setI32_of_disjoint (by omega), Bytes.i32_setI32 hw]
  · have hr := Bytes.read_write (((((data.setI32 off col.columnName.length).setI32
      (off + 4 + col.columnName.length + 1) col.offset).setI32
      (off + 4 + col.columnName.length + 1 + 4) col.columnType.toInt).setI32
      (off + 4 + col.columnName.length + 1 + 4 + 4) col.getDataSize)) (off + 4) (col.columnName ++ [0])
    rwa [List.length_append, List.length_singleton] at hr
  · rw [Bytes.i32_write_of_disjoint (by omega), Bytes.i32_setI32_of_disjoint (by omega),
      Bytes.i32_setI32_of_disjoint (by omega), Bytes.i32_setI32 h.offset]
  · rw [Bytes.i32_write_of_disjoint (by omega), Bytes.i32_setI32_of_disjoint (by omega),
      Bytes.i32_setI32 col.columnType.isI32_toInt]
  · rw [Bytes.i32_write_of_disjoint (by omega), Bytes.i32_setI32 h.dataSize]

theorem writeColumns_spec (hfit : off + columnsSize cols ≤ 4096) (h0 : 0 ≤ off) (h : ∀ col ∈ cols, Storable col) :
    ColumnsAt (writeColumns cols off data) off cols ∧ ∀ i < off, writeColumns cols off data i = data i := by
  induction cols generalizing off data with
  | nil => exact ⟨trivial, fun _ _ => rfl⟩
  | cons col cols ih =>
    have hpos := columnsSize_nonneg cols
    rw [columnsSize_cons] at hfit
    have hlen : (col.columnName.length : ℤ) < 2^31 := by omega
    have hw : wrap32 col.columnName.length = col.columnName.length :=
      wrap32_of_isI32 ⟨by omega, hlen⟩
    rw [writeColumns, hw]
    obtain ⟨hat, hbelow⟩ := @ih (writeColumn data off col) (off + colSize col.columnName.length)
      (by rw [colSize_eq]; omega) (by rw [colSize_eq]; omega) fun c hc => h c (List.mem_cons_of_mem col hc)
    refine ⟨⟨(columnAt_writeColumn hlen (h col List.mem_cons_self)).congr fun i _ hi => hbelow i hi, hat⟩,
      fun i hi => ?_⟩
    rw [hbelow i (by rw [colSize_eq]; omega), writeColumn_of_notMem hlen (Or.inl hi)]

theorem ColumnAt.readColumn_eq (h : ColumnAt data off col) (hs : Storable col)
    (hfit : off + colSize col.columnName.length ≤ 4096) : readColumn data off = col := by
  have hname : data.cString (off + 4) (4096 - (off + 4)).toNat = col.columnName := by
    rw [colSize_eq] at hfit
    exact Bytes.cString_eq h.name hs.noNul (by omega)
  simp only [readColumn, sizeTSize, offsetTSize, enumSize, pageSize, h.nameLen, h.offset, h.typeId,
    h.dataSize, hname, TypeId.ofInt_toInt]
  obtain ⟨columnType, columnName, offset, charLength⟩ := col
  split_ifs with hc
  · obtain rfl : columnType = .kChar := hc
    rfl
  · obtain rfl : charLength = 0 := hs.charLength hc
    rfl

theorem ColumnsAt.readColumns_eq (h : ColumnsAt data off cols) (hs : ∀ col ∈ cols, Storable col)
    (hfit : off + columnsSize cols ≤ 4096) : readColumns data cols.length off = cols := by
  induction cols generalizing off with
  | nil => rfl
  | cons col cols ih =>
    have hpos := columnsSize_nonneg cols
    rw [columnsSize_cons] at hfit
    have hcol := h.1.readColumn_eq (hs col List.mem_cons_self) (by rw [colSize_eq]; omega)
    rw [List.length_cons, readColumns, hcol, h.1.nameLen,
      ih h.2 (fun c hc => hs c (List.mem_cons_of_mem col hc)) (by rw [colSize_eq]; omega)]

/-- A schema that fits into one page. -/
structure FitsPage (schema : Schema) : Prop where
  size : firstColumnOffset + columnsSize schema.columns ≤ pageSize
  storable : ∀ col ∈ schema.columns, Storable col

theorem length_le_columnsSize (cols : List Column) : (cols.length : ℤ) ≤ columnsSize cols := by
  induction cols with
  | nil => simp [columnsSize]
  | cons col cols ih =>
    rw [columnsSize_cons, List.length_cons]
    omega

theorem tableSchema_ofPage {schema : Schema} (h : FitsPage schema) (tableId : ℤ)
    (hd : ∀ i, columnNumOffset ≤ i → i < 4096 → data' i = writeSchema data schema i) :
    (ofPage tableId data').tableSchema = { columns := schema.columns } := by
  have hd' : ∀ i, 136 ≤ i → i < 4096 → data' i = writeSchema data schema i := hd
  have hsize : 140 + columnsSize schema.columns ≤ 4096 := h.size
  have hlen := length_le_columnsSize schema.columns
  obtain ⟨hat, hbelow⟩ := @writeColumns_spec (data.setI32 136 schema.columns.length) 140 schema.columns
    hsize (by norm_num) h.storable
  have hstored : ColumnsAt data' 140 schema.columns :=
    hat.congr fun i hi hi' => hd' i (by omega) (by omega)
  have hnum : data'.i32 136 = schema.columns.length := by
    have hw : data'.i32 136 = (data.setI32 136 schema.columns.length).i32 136 :=
      Bytes.i32_congr fun i hi => (hd' _ (by omega) (by omega)).trans (hbelow _ (by omega))
    rw [hw, Bytes.i32_setI32 ⟨by omega, by omega⟩]
  have hcols : readColumns data' (data'.i32 136).toNat 140 = schema.columns := by
    rw [hnum, Int.toNat_natCast, hstored.readColumns_eq h.storable hsize]
  exact congrArg (Schema.mk · 0) hcols

end RoundTrip

end TableMetaData

end Dawn
