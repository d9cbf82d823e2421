import Dawn.Index.Balance
import Dawn.Sql.Ast
import Dawn.Table.Table
import Dawn.Table.TupleInit

/-!
# Executing an INSERT

`insert_data` of `src/sql/sql_parse.cpp` with `get_values` of `src/include/ast/dml.h`: the literals of the
statement become values, the values a tuple, and the tuple is inserted into the table. Nothing compares the
literals with the columns. What is stored reads as the literals exactly when there is one for every column,
of the type of the column, and no string is longer than its column (`insert_data_iff`).
-/

namespace Dawn

/-- `LiteralNode::set_value`. The double of a decimal is what `atof` gives for its text, and a string ends at its
first terminator. -/
def Literal.value (atof : List UInt8 → UInt64) : Literal → Value
  | .integer n => .integer n
  | .decimal text => .decimal (atof text)
  | .boolean b => .boolean b
  | .str text => .char (cStr text)

namespace Node

/-- `InsertNode::get_tb_name`; an assertion that fails is `none`. -/
def getTbName (node : Node) : Option (List UInt8) :=
  match node.children[0]? with
  | some (mk (.identifier id) _) => some id
  | _ => none

/-- `ValueNode::set_value`. -/
def toValue (atof : List UInt8 → UInt64) (node : Node) : Option Value :=
  match node.children[0]? with
  | some (mk (.literal data) _) => some (data.value atof)
  | _ => none

/-- `InsertNode::get_values`. -/
def getValues (atof : List UInt8 → UInt64) (node : Node) : Option (List Value) :=
  match node.children[1]? with
  | some (mk .valueList children) => children.mapM (toValue atof)
  | _ => none

/-- The statement `INSERT INTO tbName VALUES (literals)`. -/
def insertStmt (tbName : List UInt8) (literals : List Literal) : Node :=
  mk .insert [mk (.identifier tbName) [], mk .valueList (literals.map fun l => mk .value [mk (.literal l) []])]

theorem getValues_insertStmt (atof : List UInt8 → UInt64) (tbName : List UInt8) (literals : List Literal) :
    (insertStmt tbName literals).getValues atof = some (literals.map (Literal.value atof)) := by
  change (literals.map _).mapM (toValue atof) = _
  induction literals with
  | nil => rfl
  | cons l literals ih =>
    rw [List.map_cons, List.mapM_cons, ih]
    rfl

end Node

/-- What `insert_data` asks of a `TableMetaData`: the schema, and the first page of the table. -/
structure TableMeta where
  schema : Schema
  firstTablePageId : ℤ

section InsertData

variable (al : Allocator) (doHash : List UInt8 → UInt64) (atof : List UInt8 → UInt64) (stack : ℤ → Bytes)
  (heap : Bytes) (tables : List UInt8 → Option TableMeta)

/-- `insert_data`, where `tables` is `get_table_meta_data`. -/
def insertData (node : Node) (s : PageStore) : Option (Bool × PageStore) := do
  let tbName ← node.getTbName
  match tables tbName with
  | none => some (false, s)
  | some tableMeta =>
    let values ← node.getValues atof
    let bytes ← initTuple stack values tableMeta.schema heap
    let (ok, _, s) ← Table.insertTuple al doHash tableMeta.schema tableMeta.firstTablePageId
      (Tuple.ofBytes {} bytes) s
    some (ok, s)

end InsertData

section Spec

variable {al : Allocator} {doHash atof : List UInt8 → UInt64} {stack : ℤ → Bytes} {heap : Bytes}
  {tables : List UInt8 → Option TableMeta} {tbName : List UInt8} {schema : Schema} {root : ℤ}
  {literals : List Literal} {s s' : PageStore} {t t' : Tuple} {code : ℤ}

/-- The key of a tuple with the given bytes is in the table. -/
def KeyTaken (doHash : List UInt8 → UInt64) (schema : Schema) (root : ℤ) (bytes : List UInt8)
    (s : PageStore) : Prop :=
  ∃ v rid, keyOf schema bytes = some v ∧
    lkHaCheckDuplicateKey doHash schema root v s = some (some rid, s)

theorem insertTuple_outcome {ok : Bool} (h : Table.insertTuple al doHash schema root t s = some (ok, t', s')) :
    t'.bytes = t.bytes ∧ (ok = false ∧ s' = s ∧ KeyTaken doHash schema root t.bytes s ∨
      ok = true ∧ ¬ KeyTaken doHash schema root t.bytes s) := by
  obtain ⟨⟨code, t1, s1⟩, hins, he⟩ := Option.bind_eq_some_iff.mp h
  simp only [Option.some.injEq, Prod.mk.injEq] at he
  obtain ⟨rfl, rfl, rfl⟩ := he
  obtain ⟨⟨v, dup, hv, hcheck, rfl⟩, -, -⟩ := lkHaInsertTuple_balanced (Balanced.refl s) (.refl s) hins
  simp only [lkHaInsertTuple, hv, hcheck, Option.bind_eq_bind, Option.bind_some] at hins
  cases dup with
  | some rid =>
    simp only [Option.isSome_some, if_true, Option.some.injEq, Prod.mk.injEq] at hins
    obtain ⟨-, rfl, rfl⟩ := hins
    exact ⟨rfl, Or.inl ⟨rfl, rfl, v, rid, hv, hcheck⟩⟩
  | none =>
    have hno : ¬ KeyTaken doHash schema root t.bytes s := by
      rintro ⟨v', rid, hv', hcheck'⟩
      obtain rfl : v = v' := Option.some.inj (hv.symm.trans hv')
      simp [hcheck] at hcheck'
    refine ⟨?_, Or.inr ⟨rfl, hno⟩⟩
    simp only [Option.isSome_none, Bool.false_eq_true, if_false, Option.bind_eq_some_iff] at hins
    obtain ⟨-, -, -, -, -, -, -, -, ⟨code', rid, s2⟩, -, he⟩ := hins
    split_ifs at he
    · simp only [Option.some.injEq, Prod.mk.injEq] at he
      rw [← he.2.1, Tuple.setRid_bytes]
    · simp only [Option.some.injEq, Prod.mk.injEq] at he
      rw [← he.2.1]

theorem insertData_eq (htable : tables tbName = some ⟨schema, root⟩) :
    insertData al doHash atof stack heap tables (Node.insertStmt tbName literals) s =
      (initTuple stack (literals.map (Literal.value atof)) schema heap).bind fun bytes =>
        (Table.insertTuple al doHash schema root (Tuple.ofBytes {} bytes) s).map fun r => (r.1, r.2.2) := by
  have hname : (Node.insertStmt tbName literals).getTbName = some tbName := rfl
  simp only [insertData, hname, htable, Node.getValues_insertStmt, Option.bind_eq_bind, Option.bind_some]
  cases initTuple stack (literals.map (Literal.value atof)) schema heap with
  | none => rfl
  | some bytes =>
    simp only [Option.bind_some]
    cases Table.insertTuple al doHash schema root (Tuple.ofBytes {} bytes) s <;> rfl

/-- An INSERT whose literals fit returns, if the table is as it should be and a page can be had: the key is in the
table, or the tuple is stored in its bucket. -/
theorem insertData_of_fits {types : List TypeId} {names : List (List UInt8)} {charLen : List ℤ} {L : Layout}
    (hschema : createTableSchema types names charLen = some schema) (htable : tables tbName = some ⟨schema, root⟩)
    (hfits : FitsSchema schema (literals.map (Literal.value atof)))
    (h : TableInv schema.getTupleSize s root L) (hsz : 8 ≤ schema.getTupleSize)
    (hcap : 0 < TablePage.getTpNumCapacity schema.getTupleSize) (hal : al.Correct)
    (hids : s.ids.card + 2 ≤ 2^31) (hblank : ∀ i j, BlankIfFull al schema.getTupleSize s (L.chain i j)) :
    insertData al doHash atof stack heap tables (Node.insertStmt tbName literals) s = some (false, s) ∨
    ∃ bytes s' L' i j id k,
      insertData al doHash atof stack heap tables (Node.insertStmt tbName literals) s = some (true, s') ∧
      Inserted schema.getTupleSize root s L i j id k bytes s' L' ∧
      ReadsValues schema (literals.map (Literal.value atof)) bytes := by
  obtain ⟨bytes, hinit, hreads⟩ := hfits.init_reads (hfits.laid hschema) stack heap
  have hkeyIdx : schema.keyIdx = 0 := by rw [(createTableSchema_columns hschema).1]
  -- The key is the first column.
  obtain ⟨col, hcol⟩ : ∃ col, schema.columns[0]? = some col := by
    cases hcols : schema.columns with
    | nil => simp [Schema.getTupleSize, Schema.total, hcols, wrap32] at hsz
    | cons col cols => exact ⟨col, rfl⟩
  obtain ⟨-, v, -, hv, -⟩ := hreads 0 col hcol
  obtain ⟨v0, -, hfit⟩ := hfits 0 col hcol
  have hkey : keyOf schema (Tuple.ofBytes {} bytes).bytes = some v := by
    rw [keyOf, hkeyIdx]
    exact hv
  have hhas : schema.HasKey := by
    refine ⟨col, ?_, hfit.matching.type_ne, hfit.buffer⟩
    rw [hkeyIdx]
    exact (getColumn_natCast 0).trans hcol
  have hsize : (Tuple.ofBytes {} bytes).size = schema.getTupleSize := by
    rw [Tuple.ofBytes_size, (initTuple_eq_some hinit).2.1]
    omega
  rw [insertData_eq htable, hinit, Option.bind_some, Table.insertTuple]
  cases hfind : findInChain schema v s (L.bucketOf doHash v) with
  | some rid =>
    rw [lkHaInsertTuple_dup doHash hhas h hkey hfind]
    exact Or.inl rfl
  | none =>
    rcases lkHaInsertTuple_cases doHash hhas hsz hcap h hsize hkey hfind
      (Prod.mk.eta (p := hashToSlot (v.getHashValue doHash))).symm (hblank _ _) with
      ⟨-, hno⟩ | ⟨id, k, s', L', he, hins, -⟩
    · exact absurd ⟨hal, hids⟩ hno
    · rw [he]
      exact Or.inr ⟨bytes, s', L', _, _, id, k, rfl, hins, hreads⟩

/-- The statement is honoured: it returns false and leaves the table as it was, or it stores a tuple every column
of which reads as the literal of the statement. -/
def Honoured (al : Allocator) (doHash atof : List UInt8 → UInt64) (stack : ℤ → Bytes) (heap : Bytes)
    (tables : List UInt8 → Option TableMeta) (tbName : List UInt8) (schema : Schema) (root : ℤ)
    (literals : List Literal) (s : PageStore) : Prop :=
  insertData al doHash atof stack heap tables (Node.insertStmt tbName literals) s = some (false, s) ∨
  ∃ bytes t s', Table.insertTuple al doHash schema root (Tuple.ofBytes {} bytes) s = some (true, t, s') ∧
    insertData al doHash atof stack heap tables (Node.insertStmt tbName literals) s = some (true, s') ∧
    initTuple stack (literals.map (Literal.value atof)) schema heap = some bytes ∧ t.bytes = bytes ∧
    ReadsValues schema (literals.map (Literal.value atof)) t.bytes

/-- An INSERT into a table is honoured exactly when its tuple can be built, the table can take it, and the
literals fit the columns, or the key that the tuple happens to have is in the table. A table that is as it should
be can take every tuple of its size, and then holds it. -/
theorem insert_data_iff {types : List TypeId} {names : List (List UInt8)} {charLen : List ℤ}
    (hschema : createTableSchema types names charLen = some schema)
    (htable : tables tbName = some ⟨schema, root⟩) :
    (Honoured al doHash atof stack heap tables tbName schema root literals s ↔
    ∃ bytes, initTuple stack (literals.map (Literal.value atof)) schema heap = some bytes ∧
      (Table.insertTuple al doHash schema root (Tuple.ofBytes {} bytes) s).isSome ∧
      (FitsSchema schema (literals.map (Literal.value atof)) ∨ KeyTaken doHash schema root bytes s)) ∧
    ∀ L, FitsSchema schema (literals.map (Literal.value atof)) → TableInv schema.getTupleSize s root L →
      8 ≤ schema.getTupleSize → 0 < TablePage.getTpNumCapacity schema.getTupleSize → al.Correct →
      s.ids.card + 2 ≤ 2^31 → (∀ i j, BlankIfFull al schema.getTupleSize s (L.chain i j)) →
      insertData al doHash atof stack heap tables (Node.insertStmt tbName literals) s = some (false, s) ∨
      ∃ bytes s' L' i j id k,
        insertData al doHash atof stack heap tables (Node.insertStmt tbName literals) s = some (true, s') ∧
        Inserted schema.getTupleSize root s L i j id k bytes s' L' ∧
        ReadsValues schema (literals.map (Literal.value atof)) bytes := by
  refine ⟨?_, fun L hfits h hsz hcap hal hids hblank =>
    insertData_of_fits hschema htable hfits h hsz hcap hal hids hblank⟩
  rw [Honoured, insertData_eq htable]
  constructor
  · rintro (h | ⟨bytes, t, s', hins, -, hinit, hbytes, hreads⟩)
    · obtain ⟨bytes, hinit, h⟩ := bind_eq_some.mp h
      obtain ⟨⟨ok, t, s'⟩, hins, he⟩ := Option.map_eq_some_iff.mp h
      obtain ⟨rfl, -⟩ := Prod.mk.inj he
      refine ⟨bytes, hinit, by rw [hins]; rfl, Or.inr ?_⟩
      rcases (insertTuple_outcome hins).2 with ⟨-, -, htaken⟩ | ⟨hok, -⟩
      · exact htaken
      · cases hok
    · rw [hbytes] at hreads
      exact ⟨bytes, hinit, by rw [hins]; rfl, Or.inl (FitsSchema.of_reads hinit hreads)⟩
  · rintro ⟨bytes, hinit, hsome, hfit⟩
    obtain ⟨⟨ok, t, s'⟩, hins⟩ := Option.isSome_iff_exists.mp hsome
    rw [hinit, Option.bind_some, hins, Option.map_some]
    obtain ⟨hbytes, ⟨rfl, rfl, -⟩ | ⟨rfl, hno⟩⟩ := insertTuple_outcome hins
    · exact Or.inl rfl
    · replace hfit := hfit.resolve_right hno
      obtain ⟨bytes', hinit', hreads⟩ := hfit.init_reads (hfit.laid hschema) stack heap
      obtain rfl := Option.some.inj (hinit.symm.trans hinit')
      exact Or.inr ⟨bytes, t, s', hins, rfl, rfl, hbytes, by rw [hbytes]; exact hreads⟩

end Spec

theorem createTableSchema_pair :
    createTableSchema [.kInteger, .kInteger] [[107], [118]] [] = some pairSchema := by decide

theorem insert_data_iff_pair :
    createTableSchema [.kInteger, .kInteger] [[107], [118]] [] = some pairSchema ∧
    (Honoured zeroFrames firstByte (fun _ => 0) (fun _ _ => 0) (fun _ => 0) (fun _ => some ⟨pairSchema, 0⟩)
      [116] pairSchema 0 [.integer 1, .integer 2] newTable ↔
    ∃ bytes, initTuple (fun _ _ => 0) [.integer 1, .integer 2] pairSchema (fun _ => 0) = some bytes ∧
      (Table.insertTuple zeroFrames firstByte pairSchema 0 (Tuple.ofBytes {} bytes) newTable).isSome ∧
      (FitsSchema pairSchema [.integer 1, .integer 2] ∨ KeyTaken firstByte pairSchema 0 bytes newTable)) :=
  ⟨createTableSchema_pair, (insert_data_iff createTableSchema_pair rfl).1⟩

/-- `INSERT INTO t VALUES (1, TRUE)`, where the second column is an INT. The statement succeeds, and the column
reads as an integer, made of the one byte of the literal and of what the memory held. -/
theorem mistyped_literal_is_stored : ∃ s' L' i j id k bytes,
    insertData zeroFrames firstByte (fun _ => 0) (fun _ _ => 0) (fun _ => 7) (fun _ => some ⟨pairSchema, 0⟩)
      (Node.insertStmt [116] [.integer 1, .boolean true]) newTable = some (true, s') ∧
    Inserted 8 0 newTable (Layout.empty 0) i j id k bytes s' L' ∧
    getValue bytes pairSchema 1 = some (.integer 117901057) ∧
    (Value.integer 117901057).opEq (Literal.value (fun _ => 0) (.boolean true)) = false := by
  have hinit : initTuple (fun _ _ => 0) [.integer 1, .boolean true] pairSchema (fun _ => 7) =
      some (Bytes.toLE4 1 ++ [1, 7, 7, 7]) := by decide
  obtain ⟨id, k, i, j, s', L', he, hi⟩ := exists_insert_newTable firstByte
    (Tuple.ofBytes {} (Bytes.toLE4 1 ++ [1, 7, 7, 7])) rfl
  refine ⟨s', L', i, j, id, k, _, ?_, hi, by decide, by decide⟩
  rw [insertData_eq rfl]
  change (initTuple _ [.integer 1, .boolean true] _ _).bind _ = _
  rw [hinit, Option.bind_some, Table.insertTuple, he]
  rfl

end Dawn
