import Dawn.Data.Value
import Dawn.Lib.Returns

/-!
# Columns and schemas

`Column` of `src/include/table/column.h`, `Schema` of `src/include/table/schema.h`, and
`create_table_schema` of `src/table/schema.cpp`. A column of type `CHAR(n)` takes the next of the
declared lengths; every column starts where the one before it ends (`createColumns_laid`).
-/

namespace Dawn

/-- `Column`. A column of a fixed type has the size of its type, and a `CHAR` column its length. -/
structure Column where
  /-- `column_type_`. -/
  columnType : TypeId
  /-- `column_name_`. -/
  columnName : List UInt8
  /-- `offset_`: where the column starts in a tuple. -/
  offset : ℤ
  /-- `char_length_`, for a `CHAR` column. -/
  charLength : ℤ
  deriving DecidableEq, Repr

namespace Column

/-- `Column(column_type, column_name, offset)`. -/
def ofType (columnType : TypeId) (columnName : List UInt8) (offset : ℤ) : Column :=
  ⟨columnType, columnName, offset, 0⟩

/-- `Column(column_name, offset, char_length)`. -/
def ofChar (columnName : List UInt8) (offset charLength : ℤ) : Column :=
  ⟨.kChar, columnName, offset, charLength⟩

/-- `get_data_size`. -/
def getDataSize (c : Column) : ℤ :=
  if c.columnType = .kChar then c.charLength else c.columnType.getTypeSize

/-- A column of a type, whose size is not negative. -/
def IsProper (c : Column) : Prop := c.columnType ≠ .kInvalid ∧ 0 ≤ c.getDataSize

/-- `is_columns_equal`. -/
def isColumnsEqual (col1 col2 : Column) : Bool :=
  if col1.columnType ≠ col2.columnType then false
  else if col1.columnName ≠ col2.columnName then false
  else if col1.offset ≠ col2.offset then false
  else if col1.getDataSize ≠ col2.getDataSize then false
  else true

end Column

/-- `Schema`. -/
structure Schema where
  /-- `columns_`. -/
  columns : List Column
  /-- `key_idx_`. -/
  keyIdx : ℤ := 0
  deriving DecidableEq, Repr

namespace Schema

/-- What the sizes of the columns add up to. -/
def total (s : Schema) : ℤ := (s.columns.map Column.getDataSize).sum

/-- `get_tuple_size`: `length_`, which the constructor adds up as an `int`. -/
def getTupleSize (s : Schema) : ℤ := wrap32 s.total

/-- `get_column`; an index out of range is undefined behaviour, `none` here. -/
def getColumn (s : Schema) (idx : ℤ) : Option Column :=
  if idx < 0 then none else s.columns[idx.toNat]?

/-- `is_table_schemas_equal`. -/
def isTableSchemasEqual (ts1 ts2 : Schema) : Bool :=
  if ts1.columns.length ≠ ts2.columns.length then false
  else if ts1.getTupleSize ≠ ts2.getTupleSize then false
  else (ts1.columns.zip ts2.columns).all fun cols => Column.isColumnsEqual cols.1 cols.2

/-- `set_key_idx`. -/
def setKeyIdx (s : Schema) (keyIdx : ℤ) : Schema := { s with keyIdx := keyIdx }

end Schema

/-- `offset += size`. The offset is an `int`, and an overflow is undefined, `none` here. -/
def addOffset (offset size : ℤ) : Option ℤ := if IsI32 (offset + size) then some (offset + size) else none

/-- The loop of `create_table_schema` over the columns left, at the running offset and with the
`CHAR` lengths not yet used. A missing length is an access out of range, `none` here. -/
def createColumns : List (TypeId × List UInt8) → ℤ → List ℤ → Option (List Column)
  | [], _, _ => some []
  | (typeId, name) :: rest, offset, charLen =>
    if typeId = .kChar then
      match charLen with
      | [] => none
      | len :: lens => do
        let next ← addOffset offset len
        (createColumns rest next lens).map (Column.ofChar name offset len :: ·)
    else do
      let next ← addOffset offset typeId.getTypeSize
      (createColumns rest next charLen).map (Column.ofType typeId name offset :: ·)

/-- `create_table_schema`. -/
def createTableSchema (types : List TypeId) (names : List (List UInt8)) (charLen : List ℤ) :
    Option Schema :=
  if types.length ≠ names.length then none
  else (createColumns (types.zip names) 0 charLen).map fun cols => { columns := cols }

/-- Types that a table can be created with have a size, and `CHAR` lengths are not negative. -/
def ValidColumns (types : List TypeId) (charLen : List ℤ) : Prop :=
  .kInvalid ∉ types ∧ ∀ len ∈ charLen, 0 ≤ len

variable {offset : ℤ} {charLen : List ℤ} {cols : List Column}

theorem addOffset_eq {size next : ℤ} (h : addOffset offset size = some next) :
    next = offset + size ∧ IsI32 (offset + size) := by
  unfold addOffset at h
  split_ifs at h with hi
  exact ⟨(Option.some.inj h).symm, hi⟩

theorem createColumns_cons {typeId : TypeId} {name : List UInt8} {rest : List (TypeId × List UInt8)}
    (h : createColumns ((typeId, name) :: rest) offset charLen = some cols) :
    ∃ c cs lens, cols = c :: cs ∧ c.offset = offset ∧ c.columnType = typeId ∧ lens ⊆ charLen ∧
      (c.getDataSize ∈ charLen ∨ c.getDataSize = typeId.getTypeSize ∧ typeId ≠ .kChar) ∧
      IsI32 (offset + c.getDataSize) ∧ createColumns rest (offset + c.getDataSize) lens = some cs := by
  simp only [createColumns] at h
  split_ifs at h with htc
  · cases charLen with
    | nil => simp at h
    | cons len lens =>
      obtain ⟨next, hnext, h⟩ := bind_eq_some.mp h
      obtain ⟨rfl, hi⟩ := addOffset_eq hnext
      obtain ⟨cs, hcs, rfl⟩ := Option.map_eq_some_iff.mp h
      exact ⟨.ofChar name offset len, cs, lens, rfl, rfl, htc.symm, List.subset_cons_self len lens,
        Or.inl List.mem_cons_self, hi, hcs⟩
  · obtain ⟨next, hnext, h⟩ := bind_eq_some.mp h
    obtain ⟨rfl, hi⟩ := addOffset_eq hnext
    obtain ⟨cs, hcs, rfl⟩ := Option.map_eq_some_iff.mp h
    have hsize : (Column.ofType typeId name offset).getDataSize = typeId.getTypeSize := if_neg htc
    refine ⟨.ofType typeId name offset, cs, charLen, rfl, rfl, rfl, List.Subset.refl charLen, Or.inr ⟨hsize, htc⟩, ?_⟩
    rw [hsize]
    exact ⟨hi, hcs⟩

/-- The loop ends at an offset that is an `int`. -/
theorem createColumns_isI32 {specs : List (TypeId × List UInt8)} (h : createColumns specs offset charLen = some cols)
    (hoffset : IsI32 offset) : IsI32 (offset + (cols.map Column.getDataSize).sum) := by
  induction specs generalizing offset charLen cols with
  | nil =>
    simp only [createColumns, Option.some.injEq] at h
    subst h
    simpa using hoffset
  | cons s rest ih =>
    obtain ⟨c, cs, lens, rfl, -, -, -, -, hi, hcs⟩ := createColumns_cons h
    rw [List.map_cons, List.sum_cons, ← add_assoc]
    exact ih hcs hi

theorem createColumns_laid {specs : List (TypeId × List UInt8)} (h : createColumns specs offset charLen = some cols)
    (hsz : ∀ c ∈ cols, 0 ≤ c.getDataSize) :
    0 ≤ (cols.map Column.getDataSize).sum ∧ (∀ c ∈ cols, offset ≤ c.offset ∧
      c.offset + c.getDataSize ≤ offset + (cols.map Column.getDataSize).sum) ∧
    cols.Pairwise fun c d => c.offset + c.getDataSize ≤ d.offset := by
  induction specs generalizing offset charLen cols with
  | nil =>
    simp only [createColumns, Option.some.injEq] at h
    subst h
    simp
  | cons s rest ih =>
    obtain ⟨c, cs, lens, rfl, rfl, -, -, -, -, hcs⟩ := createColumns_cons h
    have hc := hsz c List.mem_cons_self
    obtain ⟨h0, hall, hsorted⟩ := ih hcs fun d hd => hsz d (List.mem_cons_of_mem c hd)
    simp only [List.map_cons, List.sum_cons, List.mem_cons, forall_eq_or_imp, List.pairwise_cons]
    refine ⟨by omega, ⟨by omega, fun d hd => ?_⟩, fun d hd => (hall d hd).1, hsorted⟩
    obtain ⟨h1, h2⟩ := hall d hd
    exact ⟨by omega, by omega⟩

theorem createColumns_covers {specs : List (TypeId × List UInt8)} (h : createColumns specs offset charLen = some cols)
    {b : ℤ} (hlo : offset ≤ b)
    (hhi : b < offset + (cols.map Column.getDataSize).sum) :
    ∃ c ∈ cols, c.offset ≤ b ∧ b < c.offset + c.getDataSize := by
  induction specs generalizing offset charLen cols with
  | nil =>
    simp only [createColumns, Option.some.injEq] at h
    subst h
    simp only [List.map_nil, List.sum_nil] at hhi
    omega
  | cons s rest ih =>
    obtain ⟨c, cs, lens, rfl, rfl, -, -, -, -, hcs⟩ := createColumns_cons h
    by_cases hb : b < c.offset + c.getDataSize
    · exact ⟨c, List.mem_cons_self, hlo, hb⟩
    · rw [List.map_cons, List.sum_cons] at hhi
      obtain ⟨d, hd, hin⟩ := ih hcs (by omega) (by omega)
      exact ⟨d, List.mem_cons_of_mem c hd, hin⟩

theorem createColumns_isProper {specs : List (TypeId × List UInt8)}
    (h : createColumns specs offset charLen = some cols) (ht : ∀ s ∈ specs, s.1 ≠ .kInvalid)
    (hlen : ∀ len ∈ charLen, 0 ≤ len) : ∀ c ∈ cols, c.IsProper := by
  induction specs generalizing offset charLen cols with
  | nil =>
    simp only [createColumns, Option.some.injEq] at h
    subst h
    simp
  | cons s rest ih =>
    obtain ⟨c, cs, lens, rfl, -, htype, hsub, hsize, -, hcs⟩ := createColumns_cons h
    rw [List.forall_mem_cons]
    have hne := ht s List.mem_cons_self
    refine ⟨⟨htype ▸ hne, ?_⟩, ih hcs (fun s hs => ht s (List.mem_cons_of_mem _ hs)) fun l hl => hlen l (hsub hl)⟩
    rcases hsize with hmem | ⟨hsize, htc⟩
    · exact hlen _ hmem
    · rw [hsize]
      obtain ⟨typeId, name⟩ := s
      cases typeId <;> simp_all [TypeId.getTypeSize]

section CreateTableSchema

variable {types : List TypeId} {names : List (List UInt8)} {schema : Schema}
  (h : createTableSchema types names charLen = some schema)
include h

theorem createTableSchema_columns : schema = { columns := schema.columns } ∧
    createColumns (types.zip names) 0 charLen = some schema.columns := by
  unfold createTableSchema at h
  split_ifs at h
  obtain ⟨cols, hcols, rfl⟩ := Option.map_eq_some_iff.mp h
  exact ⟨rfl, hcols⟩

/-- The size of the tuples of a table does not overflow. -/
theorem createTableSchema_total : IsI32 schema.total ∧ schema.getTupleSize = schema.total := by
  have hi := createColumns_isI32 (createTableSchema_columns h).2 (by decide)
  rw [zero_add] at hi
  exact ⟨hi, wrap32_of_isI32 hi⟩

theorem createTableSchema_isProper (hv : ValidColumns types charLen) : ∀ c ∈ schema.columns, c.IsProper :=
  createColumns_isProper (createTableSchema_columns h).2
    (fun _ hs e => hv.1 (e ▸ (List.of_mem_zip hs).1)) hv.2

end CreateTableSchema

end Dawn
