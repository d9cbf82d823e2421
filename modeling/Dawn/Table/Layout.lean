import Dawn.Table.TupleInit

/-!
# The layout of a tuple

Which bytes of a tuple belong to which column, and what a schema is for: a tuple that is built from values has these
values, and a column can be written without the others. Columns that are apart from each other are enough for that
(`Schema.Separate.keepsValues_iff`), as long as no string is so long that the size of the buffer for it overflows.
-/

namespace Dawn

/-- The byte of a tuple is one of the column. -/
def HasByte (schema : Schema) (b : ℤ) (i : ℕ) : Prop :=
  ∃ col, schema.columns[i]? = some col ∧ col.offset ≤ b ∧ b < col.offset + col.getDataSize

namespace Schema.Separate

variable {schema : Schema} {b : ℤ} {i j : ℕ}

theorem hasByte_bounds (h : schema.Separate) (hi : HasByte schema b i) : 0 ≤ b ∧ b < schema.getTupleSize := by
  obtain ⟨col, hcol, h1, h2⟩ := hi
  obtain ⟨h0, hle⟩ := h.bounds col (List.mem_of_getElem? hcol)
  exact ⟨by omega, by omega⟩

theorem hasByte_unique (h : schema.Separate) (hi : HasByte schema b i) (hj : HasByte schema b j) : j = i := by
  obtain ⟨c, hc, h1, h2⟩ := hi
  obtain ⟨d, hd, h1', h2'⟩ := hj
  by_contra hne
  rcases h.disjoint hd hc hne with h | h <;> omega

end Schema.Separate

theorem createTableSchema_covers {types : List TypeId} {names : List (List UInt8)} {charLen : List ℤ}
    {schema : Schema} (h : createTableSchema types names charLen = some schema) {b : ℤ} (hlo : 0 ≤ b)
    (hhi : b < schema.getTupleSize) : ∃ i, HasByte schema b i := by
  rw [(createTableSchema_total h).2] at hhi
  obtain ⟨col, hcol, hbyte⟩ := createColumns_covers (createTableSchema_columns h).2 hlo (by rw [zero_add]; exact hhi)
  obtain ⟨i, hi⟩ := List.mem_iff_getElem?.mp hcol
  exact ⟨i, col, hi, hbyte⟩

/-- Columns that have no byte in common add up to no more than the tuple that they lie in. -/
theorem sum_le_of_apart {cols : List Column} {n : ℤ} (h0 : 0 ≤ n) (hsize : ∀ c ∈ cols, 0 ≤ c.getDataSize)
    (hbounds : ∀ c ∈ cols, 0 ≤ c.offset ∧ c.offset + c.getDataSize ≤ n)
    (hapart : cols.Pairwise fun c d => c.offset + c.getDataSize ≤ d.offset ∨ d.offset + d.getDataSize ≤ c.offset) :
    (cols.map Column.getDataSize).sum ≤ n := by
  -- The bytes of the columns, as a set with as many elements as the columns have bytes.
  obtain ⟨bytes, hmem, hcard⟩ : ∃ bytes : Finset ℤ, (∀ b ∈ bytes, ∃ c ∈ cols, c.offset ≤ b ∧
      b < c.offset + c.getDataSize) ∧ (bytes.card : ℤ) = (cols.map Column.getDataSize).sum := by
    clear hbounds
    induction cols with
    | nil => exact ⟨∅, by simp, by simp⟩
    | cons c cols ih =>
      rw [List.pairwise_cons] at hapart
      obtain ⟨bytes, hmem, hcard⟩ := ih (fun d hd => hsize d (List.mem_cons_of_mem c hd)) hapart.2
      have hdisj : Disjoint (Finset.Ico c.offset (c.offset + c.getDataSize)) bytes := by
        refine Finset.disjoint_left.mpr fun b hb hb' => ?_
        obtain ⟨d, hd, hlo, hhi⟩ := hmem b hb'
        rw [Finset.mem_Ico] at hb
        rcases hapart.1 d hd with h | h <;> omega
      refine ⟨Finset.Ico c.offset (c.offset + c.getDataSize) ∪ bytes, fun b hb => ?_, ?_⟩
      · rcases Finset.mem_union.mp hb with hb | hb
        · exact ⟨c, List.mem_cons_self, Finset.mem_Ico.mp hb⟩
        · obtain ⟨d, hd, hin⟩ := hmem b hb
          exact ⟨d, List.mem_cons_of_mem c hd, hin⟩
      · have hc := hsize c List.mem_cons_self
        rw [Finset.card_union_of_disjoint hdisj, Nat.cast_add, hcard, Int.card_Ico, List.map_cons, List.sum_cons]
        omega
  have hsub : bytes ⊆ Finset.Ico 0 n := by
    intro b hb
    obtain ⟨c, hc, hlo, hhi⟩ := hmem b hb
    have := hbounds c hc
    rw [Finset.mem_Ico]
    omega
  have hle := Finset.card_le_card hsub
  rw [Int.card_Ico] at hle
  omega

/-- A value for the column. -/
def Column.anyValue (col : Column) : Value :=
  match col.columnType with
  | .kInvalid => .invalid
  | .kBoolean => .boolean false
  | .kInteger => .integer 0
  | .kDecimal => .decimal 0
  | .kChar => .char []

theorem Column.IsProper.matchesColumn {col : Column} (h : col.IsProper) : MatchesColumn col col.anyValue := by
  obtain ⟨hne, h0⟩ := h
  rw [Column.anyValue]
  cases hc : col.columnType with
  | kInvalid => exact absurd hc hne
  | kInteger => exact ⟨hc, by decide⟩
  | kChar =>
    rw [Column.getDataSize, if_pos hc] at h0
    exact ⟨hc, h0⟩
  | _ => exact hc

theorem matchesSchema_anyValue {schema : Schema} (h : ∀ col ∈ schema.columns, col.IsProper) :
    MatchesSchema schema (schema.columns.map Column.anyValue) := by
  intro i col hcol
  exact ⟨_, by rw [List.getElem?_map, hcol]; rfl, (h col (List.mem_of_getElem? hcol)).matchesColumn⟩

theorem hasBuffer_of_getValue {schema : Schema} {bytes : List UInt8} {i : ℕ} {col : Column} {w : Value}
    (hcol : schema.columns[i]? = some col) (h : getValue bytes schema i = some w) : col.HasBuffer := by
  rw [getValue_eq ((getColumn_natCast i).trans hcol)] at h
  exact hasBuffer_of_readColumn h

/-- Tuples of the schema keep the values that are put into them. -/
structure KeepsValues (schema : Schema) : Prop where
  /-- A new tuple has the values that it is built from. -/
  init : ∀ (stack : ℤ → Bytes) (heap : Bytes) (values : List Value), values.length = schema.columns.length →
    MatchesSchema schema values → ∃ bytes, initTuple stack values schema heap = some bytes ∧
      ∀ (i : ℕ) (v : Value), values[i]? = some v → ∃ w, getValue bytes schema i = some w ∧ w.SameBits v
  /-- `set_value` changes the value of its column only. -/
  set : ∀ (tmp : Bytes) (bytes : List UInt8) (i : ℕ) (col : Column) (v : Value),
    (bytes.length : ℤ) = schema.getTupleSize → schema.columns[i]? = some col → MatchesColumn col v →
    ∃ m, setValue tmp schema schema.getTupleSize v i (tupleMemory bytes) = some m ∧
      (∃ w, getValue (m.read 0 bytes.length) schema i = some w ∧ w.SameBits v) ∧
      ∀ j : ℕ, j ≠ i → getValue (m.read 0 bytes.length) schema j = getValue bytes schema j

theorem KeepsValues.hasBuffer {schema : Schema} (h : KeepsValues schema)
    (hproper : ∀ col ∈ schema.columns, col.IsProper) : ∀ col ∈ schema.columns, col.HasBuffer := by
  intro col hmem
  obtain ⟨i, hcol⟩ := List.mem_iff_getElem?.mp hmem
  obtain ⟨bytes, -, hreads⟩ := h.init (fun _ _ => 0) (fun _ => 0) _ (by simp) (matchesSchema_anyValue hproper)
  obtain ⟨w, hw, -⟩ := hreads i col.anyValue (by rw [List.getElem?_map, hcol]; rfl)
  exact hasBuffer_of_getValue hcol hw

theorem Schema.Separate.keepsValues {schema : Schema} (hsep : schema.Separate)
    (hbuf : ∀ col ∈ schema.columns, col.HasBuffer) : KeepsValues schema := by
  refine ⟨fun stack heap values hlen hmatch => ?_, fun tmp bytes i col v hlen hcol hmatch => ?_⟩
  · obtain ⟨m, hinit, hall⟩ :=
      ForColumns.init (hmatch.imp fun col hcol v h => h.takes (hbuf col hcol)) hsep stack heap
    refine ⟨_, hinit, fun i v hv => ?_⟩
    have hcol := List.getElem?_eq_getElem (l := schema.columns) (hlen ▸ (List.getElem?_eq_some_iff.mp hv).1)
    obtain ⟨v', hv', hm⟩ := hmatch i _ hcol
    obtain rfl := Option.some.inj (hv.symm.trans hv')
    exact hm.getValue (hbuf _ (List.mem_of_getElem? hcol)) hsep hcol fun src => hall i _ v src hcol hv
  · have hb := hbuf col (List.mem_of_getElem? hcol)
    obtain ⟨src, hsrc, hsrclen, -⟩ := hmatch.columnBytes hb tmp
    obtain ⟨m, hm, hread, hframe⟩ := setValue_takes hsep hcol hsrc hsrclen.le (tupleMemory bytes)
    have hsize : schema.getTupleSize.toNat = bytes.length := by omega
    have hholds : ∀ src', columnBytes tmp col v = some src' → m.read col.offset src'.length = src' := by
      intro src' hsrc'
      obtain rfl := Option.some.inj (hsrc.symm.trans hsrc')
      exact hread
    refine ⟨m, hm, hsize ▸ hmatch.getValue hb hsep hcol hholds, fun j hj => ?_⟩
    cases hc : schema.columns[j]? with
    | none =>
      have hnone := (getColumn_natCast j).trans hc
      simp [getValue, hnone]
    | some c =>
      rw [getValue_eq ((getColumn_natCast j).trans hc), getValue_eq ((getColumn_natCast j).trans hc)]
      obtain ⟨h0, hle⟩ := hsep.bounds c (List.mem_of_getElem? hc)
      -- The bytes of the other column are those that the tuple had.
      refine readColumn_congr fun k hk0 hk => ?_
      have hbyte := Bytes.eq_of_read_eq (hframe j hj c hc c.getDataSize.toNat (by omega))
        (show k.toNat < c.getDataSize.toNat by omega)
      rw [Int.toNat_of_nonneg hk0] at hbyte
      rw [← hsize, tupleMemory_read (by omega) (by omega), hbyte]

/-- Columns that are apart keep their values exactly if every string goes through its buffer. -/
theorem Schema.Separate.keepsValues_iff {schema : Schema} (hsep : schema.Separate)
    (hproper : ∀ col ∈ schema.columns, col.IsProper) :
    KeepsValues schema ↔ ∀ col ∈ schema.columns, col.HasBuffer :=
  ⟨fun h => h.hasBuffer hproper, hsep.keepsValues⟩

end Dawn
