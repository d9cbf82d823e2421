import Dawn.Meta.DropTable

/-!
# The metadata of a table makes the round trip

The constructor of `TableMetaData` that creates a table stores its columns and the ids of its two pages, and the
other constructor reads them from the page. For a schema that fits into the page, what is read is equal to what
was stored, under `is_table_schemas_equal` (`load_create`).
-/

namespace Dawn

/-! ## Equal schemas -/

/-- A column with the length that is not used set to zero, as the constructors of `Column` do. -/
def Column.normal (col : Column) : Column :=
  if col.columnType = .kChar then col else { col with charLength := 0 }

/-- A schema whose columns are normal. -/
def Schema.normal (schema : Schema) : Schema := { schema with columns := schema.columns.map Column.normal }

namespace Column

variable (col : Column)

@[simp] theorem normal_columnType : col.normal.columnType = col.columnType := by
  unfold normal
  split_ifs <;> rfl

@[simp] theorem normal_columnName : col.normal.columnName = col.columnName := by
  unfold normal
  split_ifs <;> rfl

@[simp] theorem normal_offset : col.normal.offset = col.offset := by
  unfold normal
  split_ifs <;> rfl

@[simp] theorem normal_getDataSize : col.normal.getDataSize = col.getDataSize := by
  unfold normal getDataSize
  split_ifs <;> rfl

theorem normal_charLength (h : col.columnType ≠ .kChar) : col.normal.charLength = 0 := by
  unfold normal
  rw [if_neg h]

theorem isColumnsEqual_iff {col1 col2 : Column} : isColumnsEqual col1 col2 = true ↔
    col1.columnType = col2.columnType ∧ col1.columnName = col2.columnName ∧
      col1.offset = col2.offset ∧ col1.getDataSize = col2.getDataSize := by
  unfold isColumnsEqual
  split_ifs <;> simp_all

end Column

theorem Schema.isTableSchemasEqual_map {ts1 ts2 : Schema} {f : Column → Column}
    (hcols : ts1.columns = ts2.columns.map f) (hf : ∀ col, Column.isColumnsEqual (f col) col = true) :
    isTableSchemasEqual ts1 ts2 = true := by
  have hsize : ts1.getTupleSize = ts2.getTupleSize := by
    unfold getTupleSize total
    rw [hcols, List.map_map]
    congr 2
    exact List.map_congr_left fun col _ => (Column.isColumnsEqual_iff.mp (hf col)).2.2.2
  unfold isTableSchemasEqual
  rw [if_neg (by simp [hcols]), if_neg (by simp [hsize]), hcols, List.all_eq_true]
  intro cols hmem
  obtain ⟨i, hi, rfl⟩ := List.getElem_of_mem hmem
  rw [List.getElem_zip, List.getElem_map]
  exact hf _

namespace TableMetaData

/-! ## The round trip -/

/-- The encoding of a schema fits into a page: its names are C strings, and its numbers have 32 bits. -/
structure Encodable (schema : Schema) : Prop where
  size : firstColumnOffset + columnsSize schema.columns ≤ pageSize
  noNul : ∀ col ∈ schema.columns, 0 ∉ col.columnName
  offset : ∀ col ∈ schema.columns, IsI32 col.offset
  dataSize : ∀ col ∈ schema.columns, IsI32 col.getDataSize

theorem columnsSize_map_normal (cols : List Column) : columnsSize (cols.map Column.normal) = columnsSize cols := by
  simp [columnsSize, Function.comp_def]

theorem Encodable.fitsPage {schema : Schema} (h : Encodable schema) : FitsPage schema.normal where
  size := by
    rw [Schema.normal, columnsSize_map_normal]
    exact h.size
  storable col hcol := by
    obtain ⟨col, hmem, rfl⟩ := List.mem_map.mp hcol
    refine ⟨by simpa using h.noNul col hmem, by simpa using h.offset col hmem,
      by simpa using h.dataSize col hmem, fun hc => ?_⟩
    rw [Column.normal_columnType] at hc
    exact col.normal_charLength hc

theorem writeColumns_map_normal (cols : List Column) (off : ℤ) (data : Bytes) :
    writeColumns (cols.map Column.normal) off data = writeColumns cols off data := by
  induction cols generalizing off data with
  | nil => rfl
  | cons col cols ih =>
    rw [List.map_cons, writeColumns, writeColumns, ih]
    simp [writeColumn]

theorem writeSchema_normal (schema : Schema) (data : Bytes) :
    writeSchema data schema.normal = writeSchema data schema := by
  simp only [writeSchema, Schema.normal, writeColumns_map_normal, List.length_map]

variable {al : Allocator} {s s' : PageStore} {tableId : ℤ} {schema : Schema} {tmd : TableMetaData}

theorem create_of_no_first (hq : s.Quiet) (hid : tableId ∈ s.ids) (hp : al.pick s.ids s.allocs = none) :
    create al schema tableId s = none := by
  have hstore : storeSchema tableId schema (s.guard (Pi.single tableId 1) ∅) =
    (storeSchema tableId schema s).guard (Pi.single tableId 1) ∅ := rfl
  simp only [create, hq.getPage hid, some_bind, hstore, createFirstPage]
  rw [PageStore.newPage_guard_none (by exact hp)]
  rfl

theorem create_of_no_header (hq : s.Quiet) (hid : tableId ∈ s.ids) {root : ℤ} {m : Bytes}
    (hroot : al.pick s.ids s.allocs = some (root, m))
    (hp : al.pick (insert root s.ids) (s.allocs + 1) = none) : create al schema tableId s = none := by
  have hne : root ≠ tableId := fun h => (al.fresh hroot).1 (h ▸ hid)
  have hstore : storeSchema tableId schema (s.guard (Pi.single tableId 1) ∅) =
    (storeSchema tableId schema s).guard (Pi.single tableId 1) ∅ := rfl
  have hq1 : (storeSchema tableId schema s).Quiet := hq.put _ _
  simp only [create, hq.getPage hid, some_bind, hstore,
    Catalog.createFirstPage_eq hq1 hroot (Pi.single_eq_of_ne hne 1), createIndexHeader]
  rw [PageStore.newPage_guard_none (by exact hp)]
  rfl

theorem create_cases (hq : s.Quiet) (hid : tableId ∈ s.ids)
    (hc : create al schema tableId s = some (tmd, s')) : ∃ root m hdr m', al.pick s.ids s.allocs = some (root, m) ∧
      al.pick (insert root s.ids) (s.allocs + 1) = some (hdr, m') ∧ tmd = ⟨tableId, root, hdr, schema⟩ ∧
      s' = (Catalog.made s tableId root m hdr m' schema).guard (Pi.single tableId 1) ∅ := by
  cases hp : al.pick s.ids s.allocs with
  | none =>
    rw [create_of_no_first hq hid hp] at hc
    cases hc
  | some p =>
    obtain ⟨root, m⟩ := p
    cases hp' : al.pick (insert root s.ids) (s.allocs + 1) with
    | none =>
      rw [create_of_no_header hq hid hp hp'] at hc
      cases hc
    | some p' =>
      obtain ⟨hdr, m'⟩ := p'
      rw [Catalog.TableMetaData.create_eq schema hq hid hp hp'] at hc
      obtain ⟨rfl, rfl⟩ := some_mk_inj hc
      exact ⟨root, m, hdr, m', rfl, hp', rfl, rfl⟩

/-- The metadata that is read from the page is equal to what was stored there, whatever the page held before. -/
theorem load_create (hq : s.Quiet) (hid : tableId ∈ s.ids) (hfit : Encodable schema)
    (hc : create al schema tableId s = some (tmd, s')) : ∃ tmd' s'',
      load tableId s' = some (tmd', s'') ∧
      Schema.isTableSchemasEqual tmd'.tableSchema tmd.tableSchema = true ∧
      tmd'.firstTablePageId = tmd.firstTablePageId ∧ tmd'.indexHeaderPageId = tmd.indexHeaderPageId := by
  obtain ⟨root, m, hdr, m', hroot, hhdr, rfl, rfl⟩ := create_cases hq hid hc
  have hne : root ≠ tableId := fun h => (al.fresh hroot).1 (h ▸ hid)
  have hne' : hdr ≠ tableId := fun h => (al.fresh hhdr).1 (h ▸ Finset.mem_insert_of_mem hid)
  obtain ⟨hqm, hids, -, hpages, -, -⟩ := Catalog.made_spec schema hq hid hroot hhdr
  simp only [pages, Prod.mk.injEq] at hpages
  have hmem : tableId ∈ (Catalog.made s tableId root m hdr m' schema).ids := by simp [hids, hid]
  obtain ⟨s'', hload⟩ : ∃ s'',
      load tableId ((Catalog.made s tableId root m hdr m' schema).guard (Pi.single tableId 1) ∅) =
        some (ofPage tableId ((Catalog.made s tableId root m hdr m' schema).data tableId), s'') := by
    rw [load, PageStore.getPage_guard hmem (hq.bounds tableId hid).1]
    exact ⟨_, rfl⟩
  refine ⟨_, s'', hload, ?_, hpages.2.1, hpages.2.2⟩
  -- The two ids are stored before the columns.
  have hstored : ∀ i, columnNumOffset ≤ i → i < 4096 →
      (Catalog.made s tableId root m hdr m' schema).data tableId i =
        writeSchema (s.data tableId) schema.normal i := by
    intro i hi hi'
    have hi0 : 136 ≤ i := hi
    rw [Catalog.made_data schema hne hne', Bytes.setI32_of_notMem (by omega),
      Bytes.setI32_of_notMem (by omega), writeSchema_normal]
  have hschema := tableSchema_ofPage hfit.fitsPage tableId hstored
  refine Schema.isTableSchemasEqual_map (f := Column.normal) ?_ fun col => ?_
  · exact congrArg Schema.columns hschema
  · rw [Column.isColumnsEqual_iff]
    simp

theorem encodable_pairSchema : Encodable pairSchema := by
  refine ⟨by decide, ?_, ?_, ?_⟩ <;> intro col hcol <;>
    simp only [pairSchema, List.mem_cons, List.not_mem_nil, or_false] at hcol <;>
    rcases hcol with rfl | rfl
  all_goals decide

/-- A table of pairs on the only page of a store. -/
theorem load_create_pairSchema : ∃ tmd s' tmd' s'',
    create zeroFrames pairSchema 0 onePage = some (tmd, s') ∧ load 0 s' = some (tmd', s'') ∧
    Schema.isTableSchemasEqual tmd'.tableSchema tmd.tableSchema = true := by
  have hid : (0 : ℤ) ∈ onePage.ids := by decide
  obtain ⟨⟨root, m⟩, hroot⟩ := Option.isSome_iff_exists.mp
    (Allocator.firstFree_correct (fun _ _ => 0) onePage.ids onePage.allocs (by decide))
  have hcard : (insert root onePage.ids).card < 2^31 :=
    lt_of_le_of_lt (Finset.card_insert_le root onePage.ids) (by decide)
  obtain ⟨⟨hdr, m'⟩, hhdr⟩ := Option.isSome_iff_exists.mp
    (Allocator.firstFree_correct (fun _ _ => 0) _ (onePage.allocs + 1) hcard)
  have hc : create zeroFrames pairSchema 0 onePage = some _ :=
    Catalog.TableMetaData.create_eq pairSchema quiet_onePage hid hroot hhdr
  obtain ⟨tmd', s'', hload, heq, -⟩ := load_create quiet_onePage hid encodable_pairSchema hc
  exact ⟨_, _, tmd', s'', hc, hload, heq⟩

end TableMetaData

end Dawn
