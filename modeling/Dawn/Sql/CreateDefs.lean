import Dawn.Sql.Ast
import Dawn.Table.Layout

/-!
# The columns of a `CREATE TABLE`

`CreateDefListNode::initialize` of `src/include/ast/ddl.h` goes through the definitions of a `CREATE TABLE` and
collects the names and the types of the columns, and the lengths of the `CHAR` columns in a list of their own.
`create_table` builds the schema from the three lists. A definition list is given here as it is written, and
`CreateDef.node` is the node that the grammar builds for a definition.

The schema has the columns in their order, and their ranges tile the tuple. Values that match are read back, and
writing a column leaves the others alone. The one exception is a `CHAR` column of `2^31 - 1` bytes: the size of
the buffer that its strings are copied through, one more, is an `int` (`createDefs_roundTrip_iff`).
-/

namespace Dawn

/-! ## The accessors of the nodes -/

namespace ColumnDefNode

/-- `get_data_type_node`: the type and the length that the node keeps. An assertion that fails is `none`. -/
def getDataTypeNode (node : Node) : Option (TypeId × ℤ) :=
  match node.children[0]? with
  | some (Node.mk (.dataType type charLen) _) => some (type, charLen)
  | _ => none

/-- `get_data_type`. -/
def getDataType (node : Node) : Option TypeId := do
  let (type, _) ← getDataTypeNode node
  some type

/-- `get_char_len`. -/
def getCharLen (node : Node) : Option ℤ := do
  let (type, charLen) ← getDataTypeNode node
  if type ≠ .kChar then some (-1) else some charLen

end ColumnDefNode

namespace CreateDefNode

/-- `get_col_name`. -/
def getColName (node : Node) : Option (List UInt8) :=
  match node.children[0]? with
  | some (Node.mk (.identifier id) _) => some id
  | _ => none

/-- The `ColumnDefNode` that `get_col_type` and `get_char_len` ask. -/
def columnDef (node : Node) : Option Node := do
  let child ← node.children[1]?
  if child.cls = .columnDef then some child else none

/-- `get_col_type`. -/
def getColType (node : Node) : Option TypeId := (columnDef node).bind ColumnDefNode.getDataType

/-- `get_char_len`. -/
def getCharLen (node : Node) : Option ℤ := (columnDef node).bind ColumnDefNode.getCharLen

end CreateDefNode

namespace CreateDefListNode

/-- The lists that `initialize` fills. -/
structure Lists where
  /-- `col_names_`. -/
  colNames : List (List UInt8) := []
  /-- `col_types_`. -/
  colTypes : List TypeId := []
  /-- `char_lens_`. -/
  charLens : List ℤ := []
  deriving DecidableEq, Repr

/-- One round of the loop of `initialize`. -/
def addDef (lists : Lists) (node : Node) : Option Lists :=
  match node.cls with
  | .createDef .kPrimaryKey => some lists
  | .createDef .kColumn => do
    let name ← CreateDefNode.getColName node
    let type ← CreateDefNode.getColType node
    let lists := { lists with colNames := lists.colNames ++ [name], colTypes := lists.colTypes ++ [type] }
    if type = .kChar then
      let len ← CreateDefNode.getCharLen node
      some { lists with charLens := lists.charLens ++ [len] }
    else some lists
  | _ => none

/-- `initialize`. -/
def initializeLists (node : Node) : Option Lists := node.children.foldlM addDef {}

/-- The schema that `create_table` builds from the lists of the node. -/
def tableSchema (node : Node) : Option Schema := do
  let lists ← initializeLists node
  createTableSchema lists.colTypes lists.colNames lists.charLens

end CreateDefListNode

/-! ## Definition lists -/

/-- The types that a column can be given. -/
inductive DataType
  | boolean
  | int
  | decimal
  /-- `CHAR(len)`. -/
  | char (len : ℕ)
  deriving DecidableEq, Repr

namespace DataType

def typeId : DataType → TypeId
  | boolean => .kBoolean
  | int => .kInteger
  | decimal => .kDecimal
  | char _ => .kChar

/-- The length of a `CHAR` column. -/
def charLen : DataType → Option ℤ
  | char len => some len
  | _ => none

/-- The bytes that a column takes. -/
def size : DataType → ℤ
  | char len => len
  | type => type.typeId.getTypeSize

/-- The node of the type. -/
def node (type : DataType) : Node := .mk (.dataType type.typeId (type.charLen.getD (-1))) []

end DataType

/-- A definition: a column, or a clause for the primary key. -/
inductive CreateDef
  | column (name : List UInt8) (type : DataType)
  | primaryKey (name : List UInt8)
  deriving DecidableEq, Repr

namespace CreateDef

/-- The node of a definition. -/
def node : CreateDef → Node
  | column name type => .mk (.createDef .kColumn) [.mk (.identifier name) [], .mk .columnDef [type.node]]
  | primaryKey name => .mk (.createDef .kPrimaryKey) [.mk (.identifier name) []]

/-- The name and the type of the column that is defined. -/
def column? : CreateDef → Option (List UInt8 × DataType)
  | column name type => some (name, type)
  | primaryKey _ => none

end CreateDef

/-- The node of a definition list. -/
def createDefList (defs : List CreateDef) : Node := .mk .createDefList (defs.map CreateDef.node)

/-- The columns that are defined. -/
def columnsOf (defs : List CreateDef) : List (List UInt8 × DataType) := defs.filterMap CreateDef.column?

/-- The bytes that the columns take. -/
def totalSize (defs : List CreateDef) : ℤ := ((columnsOf defs).map fun c => c.2.size).sum

theorem DataType.size_nonneg (type : DataType) : 0 ≤ type.size := by
  cases type <;> simp [size, typeId, TypeId.getTypeSize, booleanTSize, integerTSize, decimalTSize]

theorem mem_columnsOf {defs : List CreateDef} {name : List UInt8} {type : DataType} :
    (name, type) ∈ columnsOf defs ↔ CreateDef.column name type ∈ defs := by
  rw [columnsOf, List.mem_filterMap]
  constructor
  · rintro ⟨d, hd, hcol⟩
    cases d with
    | primaryKey => cases hcol
    | column => cases hcol; exact hd
  · exact fun h => ⟨_, h, rfl⟩

theorem sum_size_nonneg (cols : List (List UInt8 × DataType)) : 0 ≤ (cols.map fun c => c.2.size).sum := by
  refine List.sum_nonneg fun x hx => ?_
  obtain ⟨c, -, rfl⟩ := List.mem_map.mp hx
  exact c.2.size_nonneg

theorem size_le_totalSize {defs : List CreateDef} {c : List UInt8 × DataType} (h : c ∈ columnsOf defs) :
    c.2.size ≤ totalSize defs := by
  refine List.single_le_sum (fun size hsize => ?_) _ (List.mem_map_of_mem h)
  obtain ⟨d, -, rfl⟩ := List.mem_map.mp hsize
  exact d.2.size_nonneg

/-! ## The schema -/

section Lists

open CreateDefListNode

/-- The lists that columns add up to. -/
def listsOf (cols : List (List UInt8 × DataType)) : Lists where
  colNames := cols.map Prod.fst
  colTypes := cols.map fun c => c.2.typeId
  charLens := cols.filterMap fun c => c.2.charLen

theorem addDef_node (lists : Lists) (d : CreateDef) : addDef lists d.node = some
      { colNames := lists.colNames ++ (listsOf d.column?.toList).colNames
        colTypes := lists.colTypes ++ (listsOf d.column?.toList).colTypes
        charLens := lists.charLens ++ (listsOf d.column?.toList).charLens } := by
  cases d with
  | primaryKey name => simp [addDef, CreateDef.node, Node.cls, CreateDef.column?, listsOf]
  | column name type => cases type <;> simp [addDef, CreateDef.node, Node.cls, CreateDef.column?, listsOf,
      CreateDefNode.getColName, CreateDefNode.getColType, CreateDefNode.getCharLen, CreateDefNode.columnDef,
      ColumnDefNode.getDataType, ColumnDefNode.getCharLen, ColumnDefNode.getDataTypeNode, DataType.node,
      DataType.typeId, DataType.charLen, Node.children]

theorem foldlM_addDef (lists : Lists) (defs : List CreateDef) : (defs.map CreateDef.node).foldlM addDef lists = some
      { colNames := lists.colNames ++ (listsOf (columnsOf defs)).colNames
        colTypes := lists.colTypes ++ (listsOf (columnsOf defs)).colTypes
        charLens := lists.charLens ++ (listsOf (columnsOf defs)).charLens } := by
  induction defs generalizing lists with
  | nil => simp [columnsOf, listsOf]
  | cons d defs ih =>
    rw [List.map_cons, List.foldlM_cons, addDef_node, some_bind, ih]
    cases hd : d.column? with
    | none => simp [columnsOf, listsOf, hd]
    | some c => cases hc : c.2.charLen <;> simp [columnsOf, listsOf, hd, hc]

theorem initializeLists_createDefList (defs : List CreateDef) :
    initializeLists (createDefList defs) = some (listsOf (columnsOf defs)) := by
  rw [initializeLists, createDefList, Node.children, foldlM_addDef]
  simp

end Lists

/-- The column of a definition, at an offset. -/
def DataType.column (type : DataType) (name : List UInt8) (offset : ℤ) : Column :=
  match type with
  | .char len => .ofChar name offset len
  | _ => .ofType type.typeId name offset

/-- The columns of definitions, one after the other from an offset on. -/
def columnsAt (offset : ℤ) : List (List UInt8 × DataType) → List Column
  | [] => []
  | (name, type) :: rest => type.column name offset :: columnsAt (offset + type.size) rest

theorem getDataSize_column (type : DataType) (name : List UInt8) (offset : ℤ) :
    (type.column name offset).getDataSize = type.size := by
  cases type <;> rfl

theorem createColumns_column (type : DataType) (name : List UInt8) (specs : List (TypeId × List UInt8)) (offset : ℤ)
    (lens : List ℤ) : createColumns ((type.typeId, name) :: specs) offset (type.charLen.toList ++ lens) =
      (addOffset offset type.size).bind fun next =>
        (createColumns specs next lens).map (type.column name offset :: ·) := by
  cases type <;> rfl

theorem createColumns_columnsAt {cols : List (List UInt8 × DataType)} {offset : ℤ} (h0 : 0 ≤ offset)
    (hsize : offset + (cols.map fun c => c.2.size).sum < 2^31) :
    createColumns ((cols.map fun c => c.2.typeId).zip (cols.map Prod.fst)) offset
      (cols.filterMap fun c => c.2.charLen) = some (columnsAt offset cols) := by
  induction cols generalizing offset with
  | nil => rfl
  | cons c cols ih =>
    obtain ⟨name, type⟩ := c
    simp only [List.map_cons, List.sum_cons] at hsize
    have htype := type.size_nonneg
    have hrest := sum_size_nonneg cols
    -- The offset behind the column is an `int`, since the sizes of the others are not negative.
    have hadd : addOffset offset type.size = some (offset + type.size) := if_pos ⟨by omega, by omega⟩
    have hlens : ((name, type) :: cols).filterMap (fun c => c.2.charLen) =
        type.charLen.toList ++ cols.filterMap fun c => c.2.charLen := by cases type <;> rfl
    rw [hlens, List.map_cons, List.map_cons, List.zip_cons_cons, createColumns_column, hadd, Option.bind_some,
      ih (by omega) (by omega)]
    rfl

theorem tableSchema_createDefList {defs : List CreateDef} (hsize : totalSize defs < 2^31) :
    CreateDefListNode.tableSchema (createDefList defs) = some { columns := columnsAt 0 (columnsOf defs) } ∧
    createTableSchema (listsOf (columnsOf defs)).colTypes (listsOf (columnsOf defs)).colNames
      (listsOf (columnsOf defs)).charLens = some { columns := columnsAt 0 (columnsOf defs) } := by
  have hcreate : createTableSchema (listsOf (columnsOf defs)).colTypes (listsOf (columnsOf defs)).colNames
      (listsOf (columnsOf defs)).charLens = some { columns := columnsAt 0 (columnsOf defs) } := by
    rw [createTableSchema, if_neg (by simp [listsOf]), listsOf,
      createColumns_columnsAt le_rfl (by rw [zero_add]; exact hsize)]
    rfl
  refine ⟨?_, hcreate⟩
  rw [CreateDefListNode.tableSchema, initializeLists_createDefList, some_bind, hcreate]

theorem mem_columnsAt {cols : List (List UInt8 × DataType)} {offset : ℤ} {c : Column}
    (h : c ∈ columnsAt offset cols) : ∃ d ∈ cols, ∃ off, c = d.2.column d.1 off := by
  induction cols generalizing offset with
  | nil => cases h
  | cons d cols ih =>
    rcases List.mem_cons.mp h with rfl | h
    · exact ⟨d, List.mem_cons_self, offset, rfl⟩
    · obtain ⟨d', hd', hc⟩ := ih h
      exact ⟨d', List.mem_cons_of_mem d hd', hc⟩

theorem exists_columnsAt {cols : List (List UInt8 × DataType)} {d : List UInt8 × DataType} (h : d ∈ cols)
    (offset : ℤ) : ∃ off, d.2.column d.1 off ∈ columnsAt offset cols := by
  induction cols generalizing offset with
  | nil => cases h
  | cons e cols ih =>
    rcases List.mem_cons.mp h with rfl | h
    · exact ⟨offset, List.mem_cons_self⟩
    · obtain ⟨off, hoff⟩ := ih h (offset + e.2.size)
      exact ⟨off, List.mem_cons_of_mem _ hoff⟩

/-! ## Round trips -/

/-- The schema has the columns of the definitions, in their order and with their own lengths, and they tile the
tuple. -/
structure Describes (schema : Schema) (defs : List CreateDef) : Prop where
  columns : schema.columns.map (fun col => (col.columnName, col.columnType, col.getDataSize)) =
    (columnsOf defs).map fun c => (c.1, c.2.typeId, c.2.size)
  size : schema.getTupleSize = totalSize defs
  bounds : ∀ b i, HasByte schema b i → 0 ≤ b ∧ b < schema.getTupleSize
  tiles : ∀ b, 0 ≤ b → b < schema.getTupleSize → ∃! i, HasByte schema b i

theorem columns_columnsAt (cols : List (List UInt8 × DataType)) (offset : ℤ) :
    (columnsAt offset cols).map (fun col => (col.columnName, col.columnType, col.getDataSize)) =
      cols.map fun c => (c.1, c.2.typeId, c.2.size) := by
  induction cols generalizing offset with
  | nil => rfl
  | cons c cols ih =>
    obtain ⟨name, type⟩ := c
    rw [columnsAt, List.map_cons, ih, List.map_cons]
    cases type <;> rfl

theorem sum_columnsAt (cols : List (List UInt8 × DataType)) (offset : ℤ) :
    ((columnsAt offset cols).map Column.getDataSize).sum = (cols.map fun c => c.2.size).sum := by
  have h := congrArg (List.map fun p => p.2.2) (columns_columnsAt cols offset)
  simp only [List.map_map] at h
  exact congrArg List.sum h

theorem columnsAt_isProper {defs : List CreateDef} {offset : ℤ} {c : Column}
    (h : c ∈ columnsAt offset (columnsOf defs)) : c.IsProper := by
  obtain ⟨d, -, off, rfl⟩ := mem_columnsAt h
  refine ⟨?_, by rw [getDataSize_column]; exact d.2.size_nonneg⟩
  cases d.2 <;> exact TypeId.noConfusion

section Size

variable {defs : List CreateDef} (hsize : totalSize defs < 2^31)
include hsize

theorem columnsAt_laid : Schema.Laid { columns := columnsAt 0 (columnsOf defs) } :=
  laid_of_size (tableSchema_createDefList hsize).2 fun _ hc => (columnsAt_isProper hc).2

theorem columnsAt_describes : Describes { columns := columnsAt 0 (columnsOf defs) } defs := by
  have hschema := (tableSchema_createDefList hsize).2
  have hsep := (columnsAt_laid hsize).separate
  refine ⟨columns_columnsAt _ 0, (createTableSchema_total hschema).2.trans (sum_columnsAt _ 0),
    fun b i => hsep.hasByte_bounds, fun b hlo hhi => ?_⟩
  obtain ⟨i, hi⟩ := createTableSchema_covers hschema hlo hhi
  exact ⟨i, hi, fun j hj => hsep.hasByte_unique hi hj⟩

/-- The strings of all columns go through their buffers exactly if no column is a `CHAR(2147483647)`. -/
theorem columnsAt_hasBuffer_iff : (∀ col ∈ columnsAt 0 (columnsOf defs), col.HasBuffer) ↔
    ∀ name, CreateDef.column name (.char 2147483647) ∉ defs := by
  constructor
  · intro hbuf name hmem
    obtain ⟨off, hoff⟩ := exists_columnsAt (mem_columnsOf.mpr hmem) 0
    have hlt := (hbuf _ hoff rfl).2.2
    rw [getDataSize_column] at hlt
    exact absurd hlt (show ¬((2147483647 : ℤ) + 1 < 2^31) by decide)
  · intro hmax col hcol hchar
    obtain ⟨⟨name, type⟩, hd, off, rfl⟩ := mem_columnsAt hcol
    cases type with
    | char len =>
      have hle : (len : ℤ) ≤ totalSize defs := size_le_totalSize hd
      have hne : len ≠ 2147483647 := by
        rintro rfl
        exact hmax name (mem_columnsOf.mp hd)
      rw [getDataSize_column]
      change 0 < (len : ℤ) + 1 ∧ IsI32 ((len : ℤ) + 1)
      exact ⟨by omega, by omega, by omega⟩
    | _ => cases hchar

end Size

/-- For every definition list whose columns take less than `2^31` bytes: the schema that is built describes it,
and its tuples keep their values, exactly when no column is a `CHAR(2147483647)`. -/
theorem createDefs_roundTrip_iff (defs : List CreateDef) (hsize : totalSize defs < 2^31) :
    (∃ schema, CreateDefListNode.tableSchema (createDefList defs) = some schema ∧ Describes schema defs ∧
      KeepsValues schema) ↔ ∀ name, CreateDef.column name (.char 2147483647) ∉ defs := by
  have hkeeps := (columnsAt_laid hsize).separate.keepsValues_iff fun _ => columnsAt_isProper
  rw [← columnsAt_hasBuffer_iff hsize, (tableSchema_createDefList hsize).1]
  constructor
  · rintro ⟨schema, hschema, -, h⟩
    obtain rfl := Option.some.inj hschema
    exact hkeeps.mp h
  · intro hbuf
    exact ⟨_, rfl, columnsAt_describes hsize, hkeeps.mpr hbuf⟩

theorem createDefs_roundTrip_iff_mixed :
    totalSize [.column [107] .int, .primaryKey [107], .column [99] (.char 3), .column [100] .decimal] < 2^31 ∧
    ∃ schema, CreateDefListNode.tableSchema (createDefList
        [.column [107] .int, .primaryKey [107], .column [99] (.char 3), .column [100] .decimal]) = some schema ∧
      Describes schema
        [.column [107] .int, .primaryKey [107], .column [99] (.char 3), .column [100] .decimal] ∧
      KeepsValues schema :=
  ⟨by decide, (createDefs_roundTrip_iff _ (by decide)).mpr (by simp)⟩

/-- A table of one column that takes `2^31 - 1` bytes: the size of the buffer overflows, and not even the empty string
can be put into a tuple. -/
theorem longest_char_has_no_buffer :
    totalSize [.column [99] (.char 2147483647)] < 2^31 ∧
    (∀ schema, CreateDefListNode.tableSchema (createDefList [.column [99] (.char 2147483647)]) = some schema →
      MatchesSchema schema [.char []] ∧ initTuple (fun _ _ => 0) [.char []] schema (fun _ => 0) = none) ∧
    ¬∃ schema, CreateDefListNode.tableSchema (createDefList [.column [99] (.char 2147483647)]) = some schema ∧
      Describes schema [.column [99] (.char 2147483647)] ∧ KeepsValues schema := by
  have hfails : ∀ schema, CreateDefListNode.tableSchema (createDefList [.column [99] (.char 2147483647)]) =
      some schema → MatchesSchema schema [.char []] ∧
        initTuple (fun _ _ => 0) [.char []] schema (fun _ => 0) = none := by
    intro schema hschema
    obtain rfl : { columns := [.ofChar [99] 0 2147483647] } = schema := Option.some.inj hschema
    refine ⟨fun i col hcol => ?_, by decide⟩
    obtain ⟨rfl, rfl⟩ : i = 0 ∧ .ofChar [99] 0 2147483647 = col := by cases i <;> simp_all
    exact ⟨_, rfl, rfl, by decide⟩
  refine ⟨by decide, hfails, ?_⟩
  rintro ⟨schema, hschema, -, hkeeps⟩
  obtain ⟨hmatch, hnone⟩ := hfails schema hschema
  obtain rfl : { columns := [.ofChar [99] 0 2147483647] } = schema := Option.some.inj hschema
  obtain ⟨bytes, hinit, -⟩ := hkeeps.init _ _ _ rfl hmatch
  rw [hnone] at hinit
  cases hinit

end Dawn
