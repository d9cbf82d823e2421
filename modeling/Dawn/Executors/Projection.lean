import Dawn.Executors.Aggregate
import Dawn.Executors.UnionExecutor
import Dawn.Table.Layout

/-!
# Projection and aggregates

`ProjectionExecutor` of `src/executors/proj_executor.cpp`. `open` goes through the child once to compute the aggregates,
and opens it again; `get_next` returns the projected columns of a tuple and, behind them, the aggregates.

The first time, these are the aggregates of all tuples (`projection_aggregates`). Neither `open` nor `close` resets the
accumulators, which live in the expressions: the second time, `COUNT` and `SUM` go on from where they were
(`reopens_iff`).
-/

namespace Dawn

/-- `ProjectionExecutor`, with the state of its child. -/
structure ProjectionExecutor (σ : Type) where
  /-- `child_`. -/
  child : σ
  /-- `is_aggregate_`. -/
  isAggregate : Bool
  /-- `agg_exprs_`. -/
  aggExprs : List AggregateExpression := []
  /-- `agg_vals_`. -/
  aggVals : List Value := []

namespace ProjectionExecutor

/-- What `agg_vals_` begins with. `FATAL` for a column that is neither an `INTEGER` nor a `DECIMAL`. -/
def initAggVal : AggregationType → TypeId → Option Value
  | .kCountAggregate, _ => some (.integer 0)
  | .kSumAggregate, .kInteger => some (.integer 0)
  | .kSumAggregate, .kDecimal => some (.decimal 0)
  | .kMinAggregate, .kInteger => some (.integer (2^31 - 1))
  | .kMinAggregate, .kDecimal => some (.decimal 0x41DFFFFFFFC00000)
  | .kMaxAggregate, .kInteger => some (.integer (-2^31))
  | .kMaxAggregate, .kDecimal => some (.decimal 0xC1E0000000000000)
  | _, _ => none

/-- The constructor without aggregates. -/
def newProjection {σ : Type} (child : σ) : ProjectionExecutor σ := { child := child, isAggregate := false }

section

variable {σ : Type} (child : Executor σ) (exprs : List ℤ) (inputSchema outputSchema : Schema)
  (stack : ℤ → Bytes) (heap : Bytes)

/-- The constructor with aggregates, the entries of `agg_type` and `agg_exprs`. -/
def new (aggs : List (AggregationType × ℤ)) (s : σ) : Option (ProjectionExecutor σ) := do
  let aggVals ← aggs.zipIdx.mapM fun (agg, i) => do
    let col ← outputSchema.getColumn ((exprs.length + i : ℕ) : ℤ)
    initAggVal agg.1 col.columnType
  some ⟨s, true, aggs.map fun agg => .new agg.1 agg.2, aggVals⟩

/-- The loop of `open`. -/
def aggregate (p : ProjectionExecutor σ) : Option (ProjectionExecutor σ) :=
  match child.getNext p.child with
  | (none, s) => some { p with child := s }
  | (some tuple, s) => do
    let aggExprs ← p.aggExprs.mapM fun e => e.performAggregation tuple inputSchema
    (by apply aggregate : ProjectionExecutor σ → _)
      { p with child := s, aggExprs := aggExprs, aggVals := aggExprs.map (·.val) }
partial_fixpoint

/-- `open`. -/
def openExec (p : ProjectionExecutor σ) : Option (ProjectionExecutor σ) := do
  let p := { p with child := child.openExec p.child }
  if p.isAggregate then
    let p ← aggregate child inputSchema p
    some { p with child := child.openExec (child.close p.child) }
  else some p

/-- The part of `get_next` after the child's: the bytes of the tuple that is returned. -/
def row (p : ProjectionExecutor σ) (tuple : Tuple) : Option (List UInt8) := do
  let vals ← exprs.mapM fun idx => getValue tuple.bytes inputSchema idx
  initTuple stack (if p.isAggregate then vals ++ p.aggVals else vals) outputSchema heap

/-- `get_next`. -/
def getNext (p : ProjectionExecutor σ) : Option (Option (List UInt8) × ProjectionExecutor σ) :=
  match child.getNext p.child with
  | (none, s) => some (none, { p with child := s })
  | (some tuple, s) => do
    let bytes ← row exprs inputSchema outputSchema stack heap p tuple
    some (some bytes, { p with child := s })

/-- `close`. -/
def close (p : ProjectionExecutor σ) : ProjectionExecutor σ := { p with child := child.close p.child }

/-- The tuples that `get_next` returns until it returns false. -/
inductive Outputs : ProjectionExecutor σ → List (List UInt8) → ProjectionExecutor σ → Prop
  | done {p p'} (h : getNext child exprs inputSchema outputSchema stack heap p = some (none, p')) : Outputs p [] p'
  | more {p p₁ p' bytes outs}
      (h : getNext child exprs inputSchema outputSchema stack heap p = some (some bytes, p₁))
      (rest : Outputs p₁ outs p') : Outputs p (bytes :: outs) p'

/-- `open`, `get_next` until it returns false, and `close`. -/
def Run (p : ProjectionExecutor σ) (outs : List (List UInt8)) (p' : ProjectionExecutor σ) : Prop :=
  ∃ q q', openExec child inputSchema p = some q ∧
    Outputs child exprs inputSchema outputSchema stack heap q outs q' ∧ close child q' = p'

/-- A new executor can be run twice, and returns the same tuples both times. -/
def Reopens (aggs : List (AggregationType × ℤ)) (s : σ) : Prop :=
  ∃ p p₁ p₂ outs, new exprs outputSchema aggs s = some p ∧
    Run child exprs inputSchema outputSchema stack heap p outs p₁ ∧
    Run child exprs inputSchema outputSchema stack heap p₁ outs p₂

end

end ProjectionExecutor

/-! ## A tuple of the output -/

/-- The projected columns and the aggregates match the output schema, whose columns have no byte in common. -/
structure Projects (exprs : List ℤ) (aggs : List (AggregationType × ℤ)) (inputSchema outputSchema : Schema) :
    Prop where
  bounds : ∀ c ∈ outputSchema.columns, 0 ≤ c.offset ∧ c.offset + c.getDataSize ≤ outputSchema.total
  apart : outputSchema.columns.Pairwise fun c d =>
    c.offset + c.getDataSize ≤ d.offset ∨ d.offset + d.getDataSize ≤ c.offset
  length : outputSchema.columns.length = exprs.length + aggs.length
  projected : ∀ (k : ℕ) (idx : ℤ) (out : Column), exprs[k]? = some idx → outputSchema.columns[k]? = some out →
    ∃ col, inputSchema.getColumn idx = some col ∧ col.columnType ≠ .kInvalid ∧ col.columnType = out.columnType ∧
      0 ≤ col.getDataSize ∧ col.getDataSize ≤ out.getDataSize
  aggregated : ∀ (k : ℕ) (agg : AggregationType × ℤ) (out : Column), aggs[k]? = some agg →
    outputSchema.columns[exprs.length + k]? = some out → (out.columnType = .kInteger ∨ out.columnType = .kDecimal) ∧
      if agg.1 = .kCountAggregate then out.columnType = .kInteger
      else HasType inputSchema agg.2 out.columnType

/-- Tuples of the schema can be built: their size is an `int`, and so are those of the buffers for strings. -/
structure Schema.HasTuples (schema : Schema) : Prop where
  size : schema.total < 2^31
  buffers : ∀ col ∈ schema.columns, col.HasBuffer

/-- The aggregate does not look at its column, or the column is an `INTEGER`. -/
def OverIntegers (inputSchema : Schema) (agg : AggregationType × ℤ) : Prop :=
  agg.1 ≠ .kCountAggregate → HasType inputSchema agg.2 .kInteger

theorem OverIntegers.addsWords {schema : Schema} {agg : AggregationType × ℤ} (h : OverIntegers schema agg) :
    AddsWords schema agg := by
  by_cases hcount : agg.1 = .kCountAggregate
  · exact Or.inl hcount
  · exact Or.inr (Or.inl (h hcount))

theorem matchesColumn_readColumn {col out : Column} {v : Value} {m : Bytes} (htype : col.columnType = out.columnType)
    (h0 : 0 ≤ col.getDataSize) (hsize : col.getDataSize ≤ out.getDataSize) (h : readColumn col m = some v) :
    MatchesColumn out v := by
  rw [readColumn_eq (hasBuffer_of_readColumn h)] at h
  cases hcol : col.columnType <;> rw [hcol] at h <;> cases h
  case kBoolean => exact htype.symm.trans hcol
  case kInteger => exact ⟨htype.symm.trans hcol, Bytes.isI32_i32 m 0⟩
  case kDecimal => exact htype.symm.trans hcol
  case kChar =>
    refine ⟨htype.symm.trans hcol, ?_⟩
    have hout : out.getDataSize = out.charLength := if_pos (htype.symm.trans hcol)
    -- The terminator that `get_value` adds ends the string within the column.
    have hlen : (Bytes.cString (fun i => if i < col.getDataSize then m i else 0) 0
        (col.getDataSize.toNat + 1)).length ≤ col.getDataSize.toNat := by
      rw [Bytes.cString, cStr, Bytes.read_add, List.takeWhile_append]
      split
      · simp [Bytes.read, h0]
      · exact (List.takeWhile_prefix _).length_le.trans (Bytes.length_read _ _ _).le
    rw [Bytes.cString] at hlen ⊢
    rw [Value.cStr_append_replicate]
    omega

theorem exists_readColumn {col : Column} (hne : col.columnType ≠ .kInvalid) (hbuf : col.HasBuffer) (m : Bytes) :
    ∃ v, readColumn col m = some v := by
  rw [readColumn_eq hbuf]
  cases hcol : col.columnType with
  | kInvalid => exact absurd hcol hne
  | _ => exact ⟨_, rfl⟩

section Row

variable {exprs : List ℤ} {aggs : List (AggregationType × ℤ)} {inputSchema outputSchema : Schema}
  {acc acc' : AggregationType × ℤ → Value} {tuple : Tuple} {out : Column} {v w : Value} {bytes : List UInt8}

/-- The columns of a tuple of the output: those of the tuple of the child, and then the aggregates. -/
structure IsRow (exprs : List ℤ) (aggs : List (AggregationType × ℤ)) (inputSchema outputSchema : Schema)
    (result : AggregationType × ℤ → ℤ) (tuple : Tuple) (bytes : List UInt8) : Prop where
  projected : ∀ (k : ℕ) (idx : ℤ), exprs[k]? = some idx → ∃ v w, getValue tuple.bytes inputSchema idx = some v ∧
    getValue bytes outputSchema k = some w ∧ w.SameBits v
  aggregated : ∀ (k : ℕ) (agg : AggregationType × ℤ), aggs[k]? = some agg →
    getValue bytes outputSchema ((exprs.length + k : ℕ) : ℤ) = some (.integer (result agg))

theorem mapM_option_eq {α β : Type} {f : α → Option β} {g : α → β} {l : List α} (h : ∀ a ∈ l, f a = some (g a)) :
    l.mapM f = some (l.map g) := by
  induction l with
  | nil => rfl
  | cons a l ih =>
    rw [List.mapM_cons, h a List.mem_cons_self, ih fun b hb => h b (List.mem_cons_of_mem a hb)]
    rfl

theorem ne_none_of_mapM {α β : Type} {f : α → Option β} {l : List α} {l' : List β} (h : l.mapM f = some l') :
    ∀ a ∈ l, f a ≠ none := by
  induction l generalizing l' with
  | nil => nofun
  | cons a l ih =>
    rw [List.mapM_cons] at h
    obtain ⟨b, hb, h⟩ := bind_eq_some.mp h
    obtain ⟨bs, hbs, -⟩ := bind_eq_some.mp h
    rw [List.forall_mem_cons]
    exact ⟨by simp [hb], ih hbs⟩

/-- What the projection reads from a column of the child's tuple. -/
def inputVal (inputSchema : Schema) (tuple : Tuple) (idx : ℤ) : Value :=
  (getValue tuple.bytes inputSchema idx).getD .invalid

/-- The values of a tuple of the output. -/
def rowVals (exprs : List ℤ) (aggs : List (AggregationType × ℤ)) (inputSchema : Schema)
    (acc : AggregationType × ℤ → Value) (tuple : Tuple) : List Value :=
  exprs.map (inputVal inputSchema tuple) ++ aggs.map acc

/-- All projected columns can be read. -/
def Reads (exprs : List ℤ) (inputSchema : Schema) (tuple : Tuple) : Prop :=
  ∀ idx ∈ exprs, getValue tuple.bytes inputSchema idx ≠ none

theorem rowVals_left {k : ℕ} {idx : ℤ} (h : exprs[k]? = some idx) :
    (rowVals exprs aggs inputSchema acc tuple)[k]? = some (inputVal inputSchema tuple idx) := by
  rw [rowVals, List.getElem?_append_left (by simpa using (List.getElem?_eq_some_iff.mp h).1), List.getElem?_map, h]
  rfl

theorem rowVals_right {k : ℕ} {agg : AggregationType × ℤ} (h : aggs[k]? = some agg) :
    (rowVals exprs aggs inputSchema acc tuple)[exprs.length + k]? = some (acc agg) := by
  rw [rowVals, List.getElem?_append_right (by simp), List.length_map, Nat.add_sub_cancel_left, List.getElem?_map, h]
  rfl

theorem Reads.getValue (h : Reads exprs inputSchema tuple) {k : ℕ} {idx : ℤ} (hidx : exprs[k]? = some idx) :
    getValue tuple.bytes inputSchema idx = some (inputVal inputSchema tuple idx) := by
  obtain ⟨v, hv⟩ := Option.ne_none_iff_exists'.mp (h idx (List.mem_of_getElem? hidx))
  rw [inputVal, hv]
  rfl

theorem row_eq {σ : Type} {p : ProjectionExecutor σ} (hp : p.isAggregate = true) (hvals : p.aggVals = aggs.map acc)
    (stack : ℤ → Bytes) (heap : Bytes) (hreads : Reads exprs inputSchema tuple) :
    p.row exprs inputSchema outputSchema stack heap tuple =
      initTuple stack (rowVals exprs aggs inputSchema acc tuple) outputSchema heap := by
  have hmap : exprs.mapM (fun idx => getValue tuple.bytes inputSchema idx) =
      some (exprs.map (inputVal inputSchema tuple)) := by
    refine mapM_option_eq fun idx hidx => ?_
    obtain ⟨k, hk⟩ := List.mem_iff_getElem?.mp hidx
    exact hreads.getValue hk
  rw [ProjectionExecutor.row, hmap, some_bind, if_pos hp, hvals]
  rfl

/-- The value matches its column, or is an integer in the place of a double. -/
def RowColumn (out : Column) (v : Value) : Prop :=
  MatchesColumn out v ∨ out.columnType = .kDecimal ∧ ∃ i, v = .integer i ∧ IsI32 i

theorem hasBuffer_of_columnBytes {tmp : Bytes} {src : List UInt8} (h : columnBytes tmp out v = some src) :
    out.HasBuffer := by
  by_contra hb
  obtain ⟨_, -, h⟩ := bind_eq_some.mp h
  rw [if_pos hb] at h
  cases h

theorem columnBytes_of_ne {tmp : Bytes} (h : out.columnType ≠ .kChar) : columnBytes tmp out v = v.serialized := by
  rw [columnBytes]
  cases v.serialized with
  | none => rfl
  | some src => rw [some_bind, if_neg (not_not.mpr (Column.hasBuffer_of_ne h)), if_neg h]

theorem RowColumn.columnBytes (h : RowColumn out v) (hb : out.HasBuffer) (tmp : Bytes) :
    ∃ src, columnBytes tmp out v = some src ∧ (src.length : ℤ) ≤ out.getDataSize ∧
      out.getDataSize ≤ src.length + 4 := by
  rcases h with h | ⟨htype, i, rfl, -⟩
  · obtain ⟨src, hsrc, hlen, -⟩ := h.columnBytes hb tmp
    exact ⟨src, hsrc, by omega, by omega⟩
  · refine ⟨Bytes.toLE4 i, by simp [Dawn.columnBytes, Value.serialized, hb, htype], ?_⟩
    simp [Column.getDataSize, htype, TypeId.getTypeSize, decimalTSize]

section Projects

variable (h : Projects exprs aggs inputSchema outputSchema)
  (hacc : ∀ agg ∈ aggs, IsAccumulator inputSchema agg (acc agg))
include h

theorem Projects.column {k : ℕ} (hk : k < exprs.length + aggs.length) :
    ∃ out, outputSchema.columns[k]? = some out :=
  ⟨_, List.getElem?_eq_getElem (h.length ▸ hk)⟩

theorem Projects.accepts {agg : AggregationType × ℤ} (hagg : agg ∈ aggs) : agg.1 = .kCountAggregate ∨
    HasType inputSchema agg.2 .kInteger ∨ HasType inputSchema agg.2 .kDecimal := by
  obtain ⟨k, hk⟩ := List.mem_iff_getElem?.mp hagg
  obtain ⟨out, hout⟩ := h.column (Nat.add_lt_add_left (List.getElem?_eq_some_iff.mp hk).1 _)
  obtain ⟨htype, hcol⟩ := h.aggregated k agg out hk hout
  split_ifs at hcol with hcount
  · exact Or.inl hcount
  · rcases htype with ht | ht <;> rw [ht] at hcol
    · exact Or.inr (Or.inl hcol)
    · exact Or.inr (Or.inr hcol)

theorem Projects.accumulator {k : ℕ} {agg : AggregationType × ℤ} (hagg : aggs[k]? = some agg)
    (hout : outputSchema.columns[exprs.length + k]? = some out) (hv : IsAccumulator inputSchema agg v) :
    RowColumn out v := by
  obtain ⟨htype, hcol⟩ := h.aggregated k agg out hagg hout
  rcases hv with ⟨i, rfl, hi⟩ | ⟨⟨d, rfl⟩, hext, hdec⟩
  · exact htype.imp (fun ht => ⟨ht, hi⟩) fun ht => ⟨ht, i, rfl, hi⟩
  · rw [if_neg (by rcases hext with h | h <;> simp [h])] at hcol
    exact Or.inl (hcol.unique hdec)

include hacc

theorem Projects.rowColumns (hreads : Reads exprs inputSchema tuple) :
    ForColumns RowColumn outputSchema (rowVals exprs aggs inputSchema acc tuple) := by
  intro k out hout
  have hk := h.length ▸ (List.getElem?_eq_some_iff.mp hout).1
  by_cases hlt : k < exprs.length
  · have hidx := List.getElem?_eq_getElem hlt
    obtain ⟨col, hcol, hne, htype, h0, hsize⟩ := h.projected k _ out hidx hout
    have hget := hreads.getValue hidx
    rw [getValue_eq hcol] at hget
    exact ⟨_, rowVals_left hidx, Or.inl (matchesColumn_readColumn htype h0 hsize hget)⟩
  · obtain ⟨j, rfl⟩ := Nat.exists_eq_add_of_le (not_lt.mp hlt)
    have hagg := List.getElem?_eq_getElem (l := aggs) (i := j) (by omega)
    exact ⟨_, rowVals_right hagg, h.accumulator hagg hout (hacc _ (List.mem_of_getElem? hagg))⟩

theorem Projects.hasTuples {stack : ℤ → Bytes} {heap : Bytes} (hreads : Reads exprs inputSchema tuple)
    (hinit : initTuple stack (rowVals exprs aggs inputSchema acc tuple) outputSchema heap = some bytes) :
    outputSchema.HasTuples := by
  obtain ⟨h0, -, hcols⟩ := initTuple_eq_some hinit
  -- Every column was written, and at most the last four bytes of one are not those of its value.
  have hcol : ∀ c ∈ outputSchema.columns, c.HasBuffer ∧ 0 ≤ c.getDataSize ∧ 0 ≤ c.offset ∧
      c.offset + c.getDataSize ≤ outputSchema.getTupleSize + 4 := by
    intro c hc
    obtain ⟨k, hk⟩ := List.mem_iff_getElem?.mp hc
    obtain ⟨v, src, hv, hsrc, hoff, hle⟩ := hcols k c hk
    obtain ⟨v', hv', hrow⟩ := h.rowColumns hacc hreads k c hk
    obtain rfl := Option.some.inj (hv.symm.trans hv')
    have hb := hasBuffer_of_columnBytes hsrc
    obtain ⟨src', hsrc', hlen, hlen'⟩ := hrow.columnBytes hb (stack k)
    obtain rfl := Option.some.inj (hsrc.symm.trans hsrc')
    exact ⟨hb, by omega, hoff, by omega⟩
  refine ⟨?_, fun c hc => (hcol c hc).1⟩
  have htotal : outputSchema.total ≤ outputSchema.getTupleSize + 4 :=
    sum_le_of_apart (by omega) (fun c hc => (hcol c hc).2.1) (fun c hc => (hcol c hc).2.2) h.apart
  by_contra hge
  -- A sum from `2^31` to `2^31 + 3` is a negative `int`.
  have hneg : outputSchema.getTupleSize = outputSchema.total - 2^32 := by
    rw [Schema.getTupleSize, wrap32_eq_bmod, Int.bmod] at htotal ⊢
    split_ifs at htotal ⊢ <;> omega
  omega

theorem Projects.init (hout : outputSchema.HasTuples) (tuple : Tuple) (stack : ℤ → Bytes) (heap : Bytes) :
    Reads exprs inputSchema tuple ∧ outputSchema.Separate ∧
    ∃ m : Bytes, initTuple stack (rowVals exprs aggs inputSchema acc tuple) outputSchema heap =
        some (m.read 0 outputSchema.getTupleSize.toNat) ∧
      ∀ (k : ℕ) (out : Column) (v : Value) (src : List UInt8), outputSchema.columns[k]? = some out →
        (rowVals exprs aggs inputSchema acc tuple)[k]? = some v → columnBytes (stack k) out v = some src →
        m.read out.offset src.length = src := by
  have hreads : Reads exprs inputSchema tuple := by
    intro idx hidx
    obtain ⟨k, hk⟩ := List.mem_iff_getElem?.mp hidx
    obtain ⟨out, hcolumn⟩ := h.column (Nat.lt_add_right _ (List.getElem?_eq_some_iff.mp hk).1)
    obtain ⟨col, hcol, hne, htype, h0, hsize⟩ := h.projected k idx out hk hcolumn
    -- The column of the child is not longer than that of the output.
    have hbuf : col.HasBuffer := by
      intro hchar
      obtain ⟨-, -, hlt⟩ := hout.buffers out (List.mem_of_getElem? hcolumn) (htype ▸ hchar)
      exact ⟨by omega, by omega, by omega⟩
    obtain ⟨v, hv⟩ := exists_readColumn hne hbuf fun i => tupleMemory tuple.bytes (col.offset + i)
    simp [getValue_eq hcol, hv]
  have hrows := h.rowColumns hacc hreads
  have htakes : ForColumns TakesColumn outputSchema (rowVals exprs aggs inputSchema acc tuple) := by
    refine hrows.imp fun col hcol v hv tmp => ?_
    obtain ⟨src, hsrc, hlen, -⟩ := hv.columnBytes (hout.buffers col hcol) tmp
    exact ⟨src, hsrc, hlen⟩
  have hpos : 0 ≤ outputSchema.total := by
    refine List.sum_nonneg fun x hx => ?_
    obtain ⟨c, hc, rfl⟩ := List.mem_map.mp hx
    obtain ⟨k, hk⟩ := List.mem_iff_getElem?.mp hc
    obtain ⟨v, -, hv⟩ := htakes k c hk
    obtain ⟨src, -, hlen⟩ := hv fun _ => 0
    omega
  have hsize : outputSchema.getTupleSize = outputSchema.total := wrap32_of_isI32 ⟨by omega, hout.size⟩
  have hsep : outputSchema.Separate := ⟨fun c hc => hsize ▸ h.bounds c hc, h.apart⟩
  exact ⟨hreads, hsep, htakes.init hsep stack heap⟩

end Projects

/-- The row with integers for its aggregates, over columns of integers. -/
theorem Projects.isRow (h : Projects exprs aggs inputSchema outputSchema)
    (hint : ∀ agg ∈ aggs, OverIntegers inputSchema agg) (hout : outputSchema.HasTuples)
    {result : AggregationType × ℤ → ℤ} (hresult : ∀ agg ∈ aggs, IsI32 (result agg)) (stack : ℤ → Bytes) (heap : Bytes)
    (tuple : Tuple) : Reads exprs inputSchema tuple ∧
    ∃ bytes, initTuple stack (rowVals exprs aggs inputSchema (fun agg => .integer (result agg)) tuple) outputSchema
        heap = some bytes ∧ IsRow exprs aggs inputSchema outputSchema result tuple bytes := by
  have hacc : ∀ agg ∈ aggs, IsAccumulator inputSchema agg (.integer (result agg)) := fun agg hagg =>
    Or.inl ⟨_, rfl, hresult agg hagg⟩
  obtain ⟨hreads, hsep, m, hinit, hall⟩ := h.init hacc hout tuple stack heap
  refine ⟨hreads, _, hinit, fun k idx hidx => ?_, fun k agg hagg => ?_⟩
  · obtain ⟨out, hcolumn⟩ := h.column (Nat.lt_add_right _ (List.getElem?_eq_some_iff.mp hidx).1)
    obtain ⟨col, hcol, hne, htype, h0, hsize⟩ := h.projected k idx out hidx hcolumn
    have hget := hreads.getValue hidx
    have hmatch := matchesColumn_readColumn htype h0 hsize (getValue_eq hcol ▸ hget)
    obtain ⟨w, hw, hsame⟩ := hmatch.getValue (hout.buffers out (List.mem_of_getElem? hcolumn)) hsep hcolumn
      fun src => hall k out _ src hcolumn (rowVals_left hidx)
    exact ⟨_, w, hget, hw, hsame⟩
  · obtain ⟨out, hcolumn⟩ := h.column (Nat.add_lt_add_left (List.getElem?_eq_some_iff.mp hagg).1 _)
    have hmem := List.mem_of_getElem? hagg
    have htype : out.columnType = .kInteger := by
      obtain ⟨-, hcol⟩ := h.aggregated k agg out hagg hcolumn
      split_ifs at hcol with hcount
      · exact hcol
      · exact hcol.unique (hint agg hmem hcount)
    obtain ⟨w, hw, hsame⟩ := MatchesColumn.getValue (v := .integer (result agg)) ⟨htype, hresult agg hmem⟩
      (hout.buffers out (List.mem_of_getElem? hcolumn)) hsep hcolumn
      fun src => hall _ out _ src hcolumn (rowVals_right hagg)
    rw [hw, Value.opEq_integer_iff.mp (show w.opEq (.integer (result agg)) = true by cases w <;> exact hsame)]

theorem decimalBytes_injective {d e : UInt64} (h : decimalBytes d = decimalBytes e) : d = e := by
  have hbyte : ∀ i : ℕ, i < 8 → (d >>> UInt64.ofNat (8 * i)).toUInt8 = (e >>> UInt64.ofNat (8 * i)).toUInt8 := by
    intro i hi
    exact List.map_inj_left.mp h i (List.mem_range.mpr hi)
  let m : Bytes := fun i => (d >>> UInt64.ofNat (8 * i.toNat)).toUInt8
  exact (decimalAt_eq (m := m) fun i _ => rfl).symm.trans (decimalAt_eq hbyte)

theorem toLE4_injective {i j : ℤ} (hi : IsI32 i) (hj : IsI32 j) (h : Bytes.toLE4 i = Bytes.toLE4 j) : i = j := by
  have hset : Bytes.setI32 (fun _ => 0) 0 i = Bytes.setI32 (fun _ => 0) 0 j := congrArg (Bytes.write (fun _ => 0) 0) h
  calc i = (Bytes.setI32 (fun _ => 0) 0 i).i32 0 := (Bytes.i32_setI32 hi).symm
    _ = j := by rw [hset, Bytes.i32_setI32 hj]

/-- Accumulators of one type have equally many bytes, and are equal if these are. -/
theorem IsAccumulator.eq_of_serialized {agg : AggregationType × ℤ} {src src' : List UInt8}
    (hv : IsAccumulator inputSchema agg v) (hw : IsAccumulator inputSchema agg w)
    (htype : v.getTypeId = w.getTypeId) (hsrc : v.serialized = some src) (hsrc' : w.serialized = some src') :
    src.length = src'.length ∧ (src = src' → v = w) := by
  rcases hv with ⟨i, rfl, hi⟩ | ⟨⟨d, rfl⟩, -⟩ <;> rcases hw with ⟨j, rfl, hj⟩ | ⟨⟨e, rfl⟩, -⟩ <;> cases htype <;>
    cases hsrc <;> cases hsrc'
  · exact ⟨by simp, fun h => congrArg Value.integer (toLE4_injective hi hj h)⟩
  · exact ⟨by simp [decimalBytes], fun h => congrArg Value.decimal (decimalBytes_injective h)⟩

/-- Two rows of one tuple with the same bytes have the same accumulators. -/
theorem Projects.eq_of_init (h : Projects exprs aggs inputSchema outputSchema) (hout : outputSchema.HasTuples)
    (hacc : ∀ agg ∈ aggs, IsAccumulator inputSchema agg (acc agg))
    (hacc' : ∀ agg ∈ aggs, IsAccumulator inputSchema agg (acc' agg))
    (htype : ∀ agg ∈ aggs, (acc agg).getTypeId = (acc' agg).getTypeId) (stack : ℤ → Bytes) (heap : Bytes)
    (hinit : initTuple stack (rowVals exprs aggs inputSchema acc tuple) outputSchema heap =
      initTuple stack (rowVals exprs aggs inputSchema acc' tuple) outputSchema heap) :
    ∀ agg ∈ aggs, acc agg = acc' agg := by
  obtain ⟨-, hsep, m, hm, hall⟩ := h.init hacc hout tuple stack heap
  obtain ⟨-, -, m', hm', hall'⟩ := h.init hacc' hout tuple stack heap
  intro agg hagg
  obtain ⟨k, hk⟩ := List.mem_iff_getElem?.mp hagg
  obtain ⟨out, hcolumn⟩ := h.column (Nat.add_lt_add_left (List.getElem?_eq_some_iff.mp hk).1 _)
  have hb := hout.buffers out (List.mem_of_getElem? hcolumn)
  have hne : out.columnType ≠ .kChar := by
    rcases (h.aggregated k agg out hk hcolumn).1 with ht | ht <;> simp [ht]
  obtain ⟨src, hsrc, hlen, -⟩ := (h.accumulator hk hcolumn (hacc agg hagg)).columnBytes hb (stack (exprs.length + k : ℕ))
  obtain ⟨src', hsrc', -⟩ := (h.accumulator hk hcolumn (hacc' agg hagg)).columnBytes hb (stack (exprs.length + k : ℕ))
  obtain ⟨hlens, heq⟩ := (hacc agg hagg).eq_of_serialized (hacc' agg hagg) (htype agg hagg)
    ((columnBytes_of_ne hne).symm.trans hsrc) ((columnBytes_of_ne hne).symm.trans hsrc')
  have hread := hall _ out _ src hcolumn (rowVals_right hk) hsrc
  have hread' := hall' _ out _ src' hcolumn (rowVals_right hk) hsrc'
  -- The bytes of the column are the same in the two rows.
  obtain ⟨h0, hle⟩ := hsep.bounds out (List.mem_of_getElem? hcolumn)
  have hbytes : m.read 0 outputSchema.getTupleSize.toNat = m'.read 0 outputSchema.getTupleSize.toNat :=
    Option.some.inj (hm.symm.trans (hinit.trans hm'))
  refine heq (hread.symm.trans ((hlens ▸ Bytes.read_congr fun i hi => ?_ : m.read out.offset src.length =
    m'.read out.offset src'.length).trans hread'))
  have hbyte := Bytes.eq_of_read_eq hbytes (show (out.offset + i).toNat < _ by omega)
  rw [zero_add, Int.toNat_of_nonneg (by omega)] at hbyte
  exact hbyte

end Row

/-! ## Runs -/

namespace ProjectionExecutor

section Runs

variable {σ : Type} {child : Executor σ} {exprs : List ℤ} {aggs : List (AggregationType × ℤ)}
  {inputSchema outputSchema : Schema} {stack : ℤ → Bytes} {heap : Bytes} {ts : List Tuple} {s : σ}
  {acc fin : AggregationType × ℤ → Value} {vals : List Value} {p p' : ProjectionExecutor σ} {outs : List (List UInt8)}

/-- The expressions with these values of their accumulators. -/
def accExprs (aggs : List (AggregationType × ℤ)) (acc : AggregationType × ℤ → Value) : List AggregateExpression :=
  aggs.map fun agg => ⟨agg.1, agg.2, acc agg⟩

/-- What the accumulators are after the tuples. -/
def Folds (inputSchema : Schema) (aggs : List (AggregationType × ℤ)) (ts : List Tuple)
    (acc fin : AggregationType × ℤ → Value) : Prop :=
  ∀ agg ∈ aggs, foldVals inputSchema agg (acc agg) ts = some (fin agg)

theorem mapM_performAggregation {t : Tuple} (h : Folds inputSchema aggs [t] acc fin) :
    (accExprs aggs acc).mapM (fun e => e.performAggregation t inputSchema) = some (accExprs aggs fin) := by
  rw [accExprs, List.mapM_map]
  refine mapM_option_eq fun agg hagg => ?_
  have hval := h agg hagg
  obtain ⟨val, hval, he⟩ := bind_eq_some.mp hval
  obtain rfl := Option.some.inj he
  simp [AggregateExpression.performAggregation, hval]

theorem aggregate_eq (vals : List Value) (h : Folds inputSchema aggs ts acc fin) (hy : child.Yields ts s) :
    ∃ s' vals', aggregate child inputSchema ⟨s, true, accExprs aggs acc, vals⟩ =
        some ⟨s', true, accExprs aggs fin, vals'⟩ ∧ (ts ≠ [] → vals' = aggs.map fin) := by
  induction ts generalizing s acc vals with
  | nil =>
    refine ⟨(child.getNext s).2, vals, ?_, fun h => absurd rfl h⟩
    have hnext : child.getNext s = (none, (child.getNext s).2) := Prod.ext hy rfl
    have hsame : accExprs aggs acc = accExprs aggs fin :=
      List.map_congr_left fun agg hagg => by rw [Option.some.inj (h agg hagg)]
    rw [aggregate, hnext, hsame]
  | cons t ts ih =>
    have hnext : child.getNext s = (some t, (child.getNext s).2) := Prod.ext hy.1 rfl
    -- The accumulators after the first tuple.
    let mid (agg : AggregationType × ℤ) : Value := (foldVals inputSchema agg (acc agg) [t]).getD .invalid
    have hmid : Folds inputSchema aggs [t] acc mid ∧ Folds inputSchema aggs ts mid fin := by
      refine forall₂_and.mp fun agg hagg => ?_
      have hfold := h agg hagg
      rw [foldVals_cons] at hfold
      obtain ⟨val, hval, hrest⟩ := bind_eq_some.mp hfold
      have hone : foldVals inputSchema agg (acc agg) [t] = some val := by
        rw [foldVals_cons, hval]
        rfl
      simp only [mid, hone]
      exact ⟨rfl, hrest⟩
    obtain ⟨s', vals', heq, hvals⟩ := ih ((accExprs aggs mid).map (·.val)) hmid.2 hy.2
    refine ⟨s', vals', ?_, fun _ => ?_⟩
    · rw [aggregate, hnext]
      simp only [mapM_performAggregation hmid.1, some_bind]
      exact heq
    · cases ts with
      | nil =>
        rw [aggregate, show child.getNext _ = (none, _) from Prod.ext hy.2 rfl] at heq
        refine (congrArg ProjectionExecutor.aggVals (Option.some.inj heq)).symm.trans ?_
        rw [accExprs, List.map_map]
        exact List.map_congr_left fun agg hagg => Option.some.inj (hmid.2 agg hagg)
      | cons => exact hvals (List.cons_ne_nil _ _)

theorem openExec_eq (s : σ) (vals : List Value) (h : Folds inputSchema aggs ts acc fin)
    (hchild : ∀ s, child.Yields ts (child.openExec s)) :
    ∃ s' vals', openExec child inputSchema ⟨s, true, accExprs aggs acc, vals⟩ =
        some ⟨child.openExec s', true, accExprs aggs fin, vals'⟩ ∧ (ts ≠ [] → vals' = aggs.map fin) := by
  obtain ⟨s', vals', heq, hvals⟩ := aggregate_eq vals h (hchild s)
  refine ⟨child.close s', vals', ?_, hvals⟩
  simp [openExec, heq]

theorem exists_outputs {P : Tuple → List UInt8 → Prop} (hy : child.Yields ts p.child)
    (hrow : ∀ t ∈ ts, ∃ bytes, p.row exprs inputSchema outputSchema stack heap t = some bytes ∧ P t bytes) :
    ∃ outs s', Outputs child exprs inputSchema outputSchema stack heap p outs { p with child := s' } ∧
      List.Forall₂ P ts outs := by
  induction ts generalizing p with
  | nil =>
    have hnext : child.getNext p.child = (none, (child.getNext p.child).2) := Prod.ext hy rfl
    exact ⟨[], _, .done (by rw [getNext, hnext]), .nil⟩
  | cons t ts ih =>
    have hnext : child.getNext p.child = (some t, (child.getNext p.child).2) := Prod.ext hy.1 rfl
    obtain ⟨bytes, hbytes, hP⟩ := hrow t List.mem_cons_self
    obtain ⟨outs, s', houts, hrows⟩ := ih (p := { p with child := (child.getNext p.child).2 }) hy.2
      fun t' ht' => hrow t' (List.mem_cons_of_mem t ht')
    refine ⟨bytes :: outs, s', .more ?_ houts, .cons hP hrows⟩
    rw [getNext, hnext]
    simp only [hbytes]
    rfl

theorem Outputs.rows (h : Outputs child exprs inputSchema outputSchema stack heap p outs p')
    (hy : child.Yields ts p.child) :
    List.Forall₂ (fun t bytes => p.row exprs inputSchema outputSchema stack heap t = some bytes) ts outs ∧
      p' = { p with child := p'.child } := by
  induction h generalizing ts with
  | @done p p' h =>
    cases ts with
    | nil =>
      rw [getNext, show child.getNext p.child = (none, _) from Prod.ext hy rfl] at h
      cases h
      exact ⟨.nil, rfl⟩
    | cons t ts =>
      rw [getNext, show child.getNext p.child = (some t, _) from Prod.ext hy.1 rfl] at h
      obtain ⟨_, -, h⟩ := bind_eq_some.mp h
      cases h
  | @more p p1 p' bytes outs h rest ih =>
    cases ts with
    | nil =>
      rw [getNext, show child.getNext p.child = (none, _) from Prod.ext hy rfl] at h
      cases h
    | cons t ts =>
      rw [getNext, show child.getNext p.child = (some t, _) from Prod.ext hy.1 rfl] at h
      obtain ⟨b, hb, h⟩ := bind_eq_some.mp h
      cases h
      obtain ⟨hrows, hp⟩ := ih hy.2
      exact ⟨.cons hb hrows, hp⟩

/-- The accumulators of a new executor. -/
def starts (agg : AggregationType × ℤ) : Value := .integer agg.1.start

theorem new_eq (h : Projects exprs aggs inputSchema outputSchema) (s : σ) :
    ∃ vals, new exprs outputSchema aggs s = some ⟨s, true, accExprs aggs starts, vals⟩ := by
  let init (x : (AggregationType × ℤ) × ℕ) : Option Value := do
    let col ← outputSchema.getColumn ((exprs.length + x.2 : ℕ) : ℤ)
    initAggVal x.1.1 col.columnType
  refine ⟨aggs.zipIdx.map fun x => (init x).getD .invalid, ?_⟩
  have hinit : aggs.zipIdx.mapM init = some (aggs.zipIdx.map fun x => (init x).getD .invalid) := by
    refine mapM_option_eq fun ⟨agg, k⟩ hx => ?_
    have hagg := List.mem_zipIdx_iff_getElem?.mp hx
    obtain ⟨out, hout⟩ := h.column (Nat.add_lt_add_left (List.getElem?_eq_some_iff.mp hagg).1 _)
    obtain ⟨htype, -⟩ := h.aggregated k agg out hagg hout
    obtain ⟨type, idx⟩ := agg
    simp only [init, getColumn_natCast, hout, some_bind]
    rcases htype with htype | htype <;> rw [htype] <;> cases type <;> rfl
  rw [new, hinit]
  rfl

/-- A row that is returned has projected columns that could be read. -/
theorem reads_of_row {t : Tuple} {bytes : List UInt8}
    (h : p.row exprs inputSchema outputSchema stack heap t = some bytes) : Reads exprs inputSchema t := by
  obtain ⟨vals, hvals, -⟩ := bind_eq_some.mp h
  exact ne_none_of_mapM hvals

/-- The first `open`: there is a row for every tuple of the child in its order, with its projected columns and the
aggregates of all tuples, exactly if there are no tuples or those of the output can be built. -/
theorem projection_aggregates_iff (h : Projects exprs aggs inputSchema outputSchema)
    (hchild : ∀ s, child.Yields ts (child.openExec s)) (hint : ∀ agg ∈ aggs, OverIntegers inputSchema agg)
    (hfits : ∀ agg ∈ aggs, IsI32 (agg.1.total (ts.map (columnInteger inputSchema agg.2)))) (stack : ℤ → Bytes)
    (heap : Bytes) (s : σ) :
    (∃ p q outs q', new exprs outputSchema aggs s = some p ∧ openExec child inputSchema p = some q ∧
      Outputs child exprs inputSchema outputSchema stack heap q outs q' ∧
      ∃ result, List.Forall₂ (IsRow exprs aggs inputSchema outputSchema result) ts outs ∧
        (ts ≠ [] → ∀ agg ∈ aggs, agg.1.Result (ts.map (columnInteger inputSchema agg.2)) (result agg))) ↔
      ts = [] ∨ outputSchema.HasTuples := by
  let result (agg : AggregationType × ℤ) : ℤ := (ts.map (columnInteger inputSchema agg.2)).foldl agg.1.next agg.1.start
  have hresult : ∀ agg ∈ aggs, IsI32 (result agg) := fun agg _ => isI32_foldl_next (isI32_start agg.1) agg.1 ts
  have hfolds : Folds inputSchema aggs ts starts fun agg => .integer (result agg) := fun agg hagg =>
    foldVals_integer (hint agg hagg).addsWords agg.1.start ts
  obtain ⟨vals, hnew⟩ := new_eq h s
  obtain ⟨s', vals', hopen, hvals⟩ := openExec_eq s vals hfolds hchild
  constructor
  · rintro ⟨p, q, outs, q', hp, hq, houts, -⟩
    obtain rfl := Option.some.inj (hp.symm.trans hnew)
    obtain rfl := Option.some.inj (hq.symm.trans hopen)
    obtain ⟨hrows, -⟩ := houts.rows (hchild s')
    cases hrows with
    | nil => exact Or.inl rfl
    | cons hrow _ =>
      have hreads := reads_of_row hrow
      rw [row_eq rfl (hvals (List.cons_ne_nil _ _)) stack heap hreads] at hrow
      exact Or.inr (h.hasTuples (fun agg hagg => Or.inl ⟨_, rfl, hresult agg hagg⟩) hreads hrow)
  · intro hcases
    obtain ⟨outs, s'', houts, hrows⟩ := exists_outputs (P := IsRow exprs aggs inputSchema outputSchema result)
      (p := ⟨child.openExec s', true, accExprs aggs fun agg => .integer (result agg), vals'⟩) (hchild s')
      fun t ht => by
        have hne := List.ne_nil_of_mem ht
        obtain ⟨hreads, bytes, hinit, hrow⟩ := h.isRow hint (hcases.resolve_left hne) hresult stack heap t
        exact ⟨bytes, (row_eq rfl (hvals hne) stack heap hreads).trans hinit, hrow⟩
    refine ⟨_, _, outs, _, hnew, hopen, houts, _, hrows, fun hne agg hagg => ?_⟩
    refine result_foldl_next (by simpa using hne) (fun x hx => ?_) (hfits agg hagg)
    obtain ⟨t, -, rfl⟩ := List.mem_map.mp hx
    exact isI32_columnInteger _ _ t

/-- A new executor that returns the same tuples twice. -/
theorem Reopens.repeats (h : Projects exprs aggs inputSchema outputSchema)
    (hchild : ∀ s, child.Yields ts (child.openExec s))
    (hruns : Reopens child exprs inputSchema outputSchema stack heap aggs s) (hne : ts ≠ []) :
    outputSchema.HasTuples ∧ ∀ agg ∈ aggs, Repeats inputSchema agg ts := by
  have : Nonempty Value := ⟨.invalid⟩
  have htwice := fun agg (hagg : agg ∈ aggs) => exists_foldVals_twice (h.accepts hagg) ts
  choose! fin fin' hfold hfold' hacc hacc' htype hrepeats using htwice
  obtain ⟨p, p1, p2, outs, hp, ⟨q, q', hq, houts, rfl⟩, ⟨r, r', hr, houts', -⟩⟩ := hruns
  obtain ⟨vals, hnew⟩ := new_eq h s
  obtain ⟨s1, vals1, hopen1, hvals1⟩ := openExec_eq s vals (show Folds inputSchema aggs ts starts fin from hfold) hchild
  obtain rfl := Option.some.inj (hp.symm.trans hnew)
  obtain rfl := Option.some.inj (hq.symm.trans hopen1)
  obtain ⟨hrows, hq'⟩ := houts.rows (hchild s1)
  obtain ⟨s2, vals2, hopen2, hvals2⟩ := openExec_eq (child.close q'.child) vals1 hfold' hchild
  rw [hq', close] at hr
  obtain rfl := Option.some.inj (hr.symm.trans hopen2)
  obtain ⟨hrows', -⟩ := houts'.rows (hchild s2)
  -- The first tuple has the accumulators after the first and after the second time.
  cases hrows with
  | nil => exact absurd rfl hne
  | cons hrow _ =>
    cases hrows' with
    | cons hrow' _ =>
      have hreads := reads_of_row hrow
      rw [row_eq rfl (hvals1 hne) stack heap hreads] at hrow
      rw [row_eq rfl (hvals2 hne) stack heap hreads] at hrow'
      have hout := h.hasTuples hacc hreads hrow
      refine ⟨hout, fun agg hagg => (hrepeats agg hagg).mp ?_⟩
      exact (h.eq_of_init hout hacc hacc' htype stack heap (hrow.trans hrow'.symm) agg hagg).symm

/-- An executor with aggregates returns the same tuples a second time exactly if it has no tuples, or those of the output
can be built and every accumulator is the same after the tuples have come a second time. -/
theorem reopens_iff (h : Projects exprs aggs inputSchema outputSchema)
    (hchild : ∀ s, child.Yields ts (child.openExec s)) (stack : ℤ → Bytes) (heap : Bytes) (s : σ) :
    Reopens child exprs inputSchema outputSchema stack heap aggs s ↔
      ts = [] ∨ outputSchema.HasTuples ∧ ∀ agg ∈ aggs, Repeats inputSchema agg ts := by
  constructor
  · intro hruns
    by_cases hne : ts = []
    · exact Or.inl hne
    · exact Or.inr (hruns.repeats h hchild hne)
  · intro hcases
    have : Nonempty Value := ⟨.invalid⟩
    have htwice := fun agg (hagg : agg ∈ aggs) => exists_foldVals_twice (h.accepts hagg) ts
    choose! fin fin' hfold hfold' hacc hacc' htype hrepeats using htwice
    obtain ⟨vals, hnew⟩ := new_eq h s
    obtain ⟨s1, vals1, hopen1, hvals1⟩ :=
      openExec_eq s vals (show Folds inputSchema aggs ts starts fin from hfold) hchild
    have hrow : ∀ (s' : σ) (vals' : List Value), (ts ≠ [] → vals' = aggs.map fin) → ∀ t ∈ ts, ∃ bytes,
        row exprs inputSchema outputSchema stack heap ⟨child.openExec s', true, accExprs aggs fin, vals'⟩ t =
          some bytes ∧
        initTuple stack (rowVals exprs aggs inputSchema fin t) outputSchema heap = some bytes := by
      intro s' vals' hvals' t ht
      have hne := List.ne_nil_of_mem ht
      obtain ⟨hreads, -, m, hinit, -⟩ := h.init hacc (hcases.resolve_left hne).1 t stack heap
      exact ⟨_, (row_eq rfl (hvals' hne) stack heap hreads).trans hinit, hinit⟩
    -- The accumulators are the same after the second time, or there are no tuples.
    have hagain : Folds inputSchema aggs ts fin fin := by
      intro agg hagg
      rcases hcases with rfl | ⟨-, hall⟩
      · rfl
      · rw [hfold' agg hagg, (hrepeats agg hagg).mpr (hall agg hagg)]
    obtain ⟨outs, s1', houts1, hsame1⟩ := exists_outputs (hchild s1) (hrow s1 vals1 hvals1)
    obtain ⟨s2, vals2, hopen2, hvals2⟩ := openExec_eq (child.close s1') vals1 hagain hchild
    obtain ⟨outs', s2', houts2, hsame2⟩ := exists_outputs (hchild s2) (hrow s2 vals2 hvals2)
    have houts : outs' = outs := List.right_unique_forall₂'
      (fun _ _ _ hb hb' => Option.some.inj (hb.symm.trans hb')) hsame2 hsame1
    exact ⟨_, _, _, outs, hnew, ⟨_, _, hopen1, houts1, rfl⟩, ⟨_, _, hopen2, houts ▸ houts2, rfl⟩⟩

end Runs

section Cases

open UnionExecutor (replay yields_replay)

/-- The column itself, and an aggregate of it. -/
def withAggregate : Schema := { columns := [.ofType .kInteger [97] 0, .ofType .kInteger [98] 4] }

/-- A tuple with the integer 7. -/
def seven : Tuple := .ofBytes {} [7, 0, 0, 0]

/-- A tuple with the integer -2. -/
def minusTwo : Tuple := .ofBytes {} [254, 255, 255, 255]

theorem projects_withAggregate (type : AggregationType) :
    Projects [0] [(type, 0)] (oneColumnSchema .kInteger) withAggregate where
  bounds := by decide
  apart := by decide
  length := rfl
  projected k idx out hidx hout := by
    obtain ⟨rfl, rfl⟩ : k = 0 ∧ idx = 0 := by cases k <;> simp_all
    cases hout
    exact ⟨_, rfl, by decide, by decide, by decide, by decide⟩
  aggregated k agg out hagg hout := by
    obtain ⟨rfl, rfl⟩ : k = 0 ∧ agg = (type, 0) := by cases k <;> simp_all
    cases hout
    refine ⟨Or.inl rfl, ?_⟩
    split
    · rfl
    · exact hasType_oneColumnSchema .kInteger

theorem hasTuples_withAggregate : withAggregate.HasTuples := ⟨by decide, by decide⟩

/-- The sum over two tuples. -/
theorem projection_aggregates_sum : Projects [0] [(.kSumAggregate, 0)] (oneColumnSchema .kInteger) withAggregate ∧
    ∃ p q outs q', new [0] withAggregate [(.kSumAggregate, 0)] [] = some p ∧
      openExec (replay [seven, minusTwo]) (oneColumnSchema .kInteger) p = some q ∧
      Outputs (replay [seven, minusTwo]) [0] (oneColumnSchema .kInteger) withAggregate (fun _ _ => 0) (fun _ => 0) q
        outs q' ∧
      ∃ result, List.Forall₂ (IsRow [0] [(.kSumAggregate, 0)] (oneColumnSchema .kInteger) withAggregate result)
          [seven, minusTwo] outs ∧
        ([seven, minusTwo] ≠ [] → ∀ agg ∈ [(AggregationType.kSumAggregate, (0 : ℤ))],
          agg.1.Result ([seven, minusTwo].map (columnInteger (oneColumnSchema .kInteger) agg.2)) (result agg)) :=
  ⟨projects_withAggregate _, (projection_aggregates_iff (projects_withAggregate _) (fun _ => yields_replay _ _)
    (by simpa [OverIntegers] using hasType_oneColumnSchema .kInteger) (by decide) _ _ _).mpr
      (Or.inr hasTuples_withAggregate)⟩

/-- A column `CHAR(2000000000)`. -/
def longSchema : Schema := { columns := [.ofChar [97] 0 2000000000] }

/-- The column twice, and the number of tuples. -/
def longTwice : Schema :=
  { columns := [.ofChar [97] 4 2000000000, .ofChar [98] 2000000004 2000000000, .ofType .kInteger [99] 0] }

theorem projects_longTwice : Projects [0, 0] [(.kCountAggregate, 0)] longSchema longTwice where
  bounds := by decide
  apart := by decide
  length := rfl
  projected k idx out hidx hout := by
    rcases k with _ | _ | k <;> cases hidx <;> cases hout <;>
      exact ⟨_, rfl, by decide, by decide, by decide, by decide⟩
  aggregated k agg out hagg hout := by
    rcases k with _ | k <;> cases hagg
    cases hout
    exact ⟨Or.inl rfl, rfl⟩

/-- The tuples of the output are to have 4000000004 bytes, which is a negative `int`: for a child with a tuple there is
no row. -/
theorem long_rows_overflow : Projects [0, 0] [(.kCountAggregate, 0)] longSchema longTwice ∧
    (∀ agg ∈ [(AggregationType.kCountAggregate, (0 : ℤ))], OverIntegers longSchema agg) ∧
    longTwice.getTupleSize = -294967292 ∧
    ∀ (tuple : Tuple) (stack : ℤ → Bytes) (heap : Bytes),
      ¬ ∃ p q outs q', new [0, 0] longTwice [(.kCountAggregate, 0)] [] = some p ∧
        openExec (replay [tuple]) longSchema p = some q ∧
        Outputs (replay [tuple]) [0, 0] longSchema longTwice stack heap q outs q' ∧
        ∃ result, List.Forall₂ (IsRow [0, 0] [(.kCountAggregate, 0)] longSchema longTwice result) [tuple] outs := by
  refine ⟨projects_longTwice, by simp [OverIntegers], by decide, ?_⟩
  rintro tuple stack heap ⟨p, q, outs, q', -, -, houts, result, hrows⟩
  cases hrows with
  | cons _ hrest =>
    cases hrest
    cases houts with
    | more hnext _ =>
      unfold getNext at hnext
      split at hnext
      · cases hnext
      · obtain ⟨bytes, hrow, -⟩ := bind_eq_some.mp hnext
        obtain ⟨vals, -, hinit⟩ := bind_eq_some.mp hrow
        exact absurd (initTuple_eq_some hinit).1 (by decide)

/-- The minimum is the same a second time. -/
theorem reopens_iff_min : Projects [0] [(.kMinAggregate, 0)] (oneColumnSchema .kInteger) withAggregate ∧
    Reopens (replay [seven, minusTwo]) [0] (oneColumnSchema .kInteger) withAggregate (fun _ _ => 0) (fun _ => 0)
      [(.kMinAggregate, 0)] [] := by
  refine ⟨projects_withAggregate _, (reopens_iff (projects_withAggregate _) (fun _ => yields_replay _ _) _ _ _).mpr
    (Or.inr ⟨hasTuples_withAggregate, fun agg hagg => ?_⟩)⟩
  obtain rfl := List.mem_singleton.mp hagg
  exact ⟨dvd_zero _, fun _ hdec => absurd (hdec.unique (hasType_oneColumnSchema .kInteger)) (by decide)⟩

/-- The number of tuples of a child with one tuple is 1, and then 2. -/
theorem count_goes_on : Projects [0] [(.kCountAggregate, 0)] (oneColumnSchema .kInteger) withAggregate ∧
    (∀ s, (replay [seven]).Yields [seven] ((replay [seven]).openExec s)) ∧
    foldVals (oneColumnSchema .kInteger) (.kCountAggregate, 0) (.integer 0) [seven] = some (.integer 1) ∧
    foldVals (oneColumnSchema .kInteger) (.kCountAggregate, 0) (.integer 1) [seven] = some (.integer 2) ∧
    ¬ Reopens (replay [seven]) [0] (oneColumnSchema .kInteger) withAggregate (fun _ _ => 0) (fun _ => 0)
      [(.kCountAggregate, 0)] [] := by
  refine ⟨projects_withAggregate _, fun _ => yields_replay _ _, by decide, by decide, fun hruns => ?_⟩
  have hdvd := ((hruns.repeats (projects_withAggregate _) (fun _ => yields_replay _ _) (List.cons_ne_nil _ _)).2
    _ List.mem_cons_self).1
  simp [AggregationType.total] at hdvd

end Cases

end ProjectionExecutor

end Dawn
