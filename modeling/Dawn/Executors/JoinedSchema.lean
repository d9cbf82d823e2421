import Dawn.Executors.UnionExecutor
import Dawn.Table.Layout

/-!
# The schema of a product

`UnionExecutor::open` (`src/executors/union_executor.cpp`) puts the columns of its right child after those of its left
child, and every column keeps the offset that it has in its own table. So the columns of the right child lie over those
of the left child, and the joined schema is a layout only where one of the two has no bytes (`joinedSchema_valid_iff`).
-/

namespace Dawn

/-- What the joined schema is to be: its columns tile the tuple, and a tuple that is built from values of the two
children has these values. -/
structure JoinedSchema.Valid (left right : Schema) : Prop where
  bounds : ∀ b i, HasByte (joinedSchema left right) b i → 0 ≤ b ∧ b < (joinedSchema left right).getTupleSize
  tiles : ∀ b, 0 ≤ b → b < (joinedSchema left right).getTupleSize → ∃! i, HasByte (joinedSchema left right) b i
  /-- `Tuple::reconstruct`, and `get_value` of every column. -/
  roundTrip : ∀ (stack : ℤ → Bytes) (heap : Bytes) (leftValues rightValues : List Value),
    leftValues.length = left.columns.length → MatchesSchema left leftValues →
    rightValues.length = right.columns.length → MatchesSchema right rightValues →
    ∃ bytes, initTuple stack (leftValues ++ rightValues) (joinedSchema left right) heap = some bytes ∧
      ∀ (i : ℕ) (v : Value), (leftValues ++ rightValues)[i]? = some v →
        ∃ w, getValue bytes (joinedSchema left right) i = some w ∧ w.SameBits v

section Layout

variable {left right schema : Schema} {leftTypes rightTypes types : List TypeId}
  {leftNames rightNames names : List (List UInt8)} {leftLens rightLens lens : List ℤ}

theorem createTableSchema_separate (h : createTableSchema types names lens = some schema)
    (hv : ValidColumns types lens) :
    schema.Separate ∧ 0 ≤ schema.getTupleSize ∧ ∀ c ∈ schema.columns, c.IsProper := by
  have hproper := createTableSchema_isProper h hv
  refine ⟨(laid_of_size h fun c hc => (hproper c hc).2).separate, ?_, hproper⟩
  rw [(createTableSchema_total h).2]
  refine List.sum_nonneg fun s hs => ?_
  obtain ⟨c, hc, rfl⟩ := List.mem_map.mp hs
  exact (hproper c hc).2

/-- One of the sizes is zero, so that their sum does not overflow. -/
theorem getTupleSize_joinedSchema (hleft : createTableSchema leftTypes leftNames leftLens = some left)
    (hright : createTableSchema rightTypes rightNames rightLens = some right)
    (h : left.getTupleSize = 0 ∨ right.getTupleSize = 0) :
    (joinedSchema left right).getTupleSize = left.getTupleSize + right.getTupleSize := by
  obtain ⟨hli, hl⟩ := createTableSchema_total hleft
  obtain ⟨hri, hr⟩ := createTableSchema_total hright
  have htotal : (joinedSchema left right).total = left.total + right.total := by
    simp [joinedSchema, Schema.total]
  rw [Schema.getTupleSize, htotal, hl, hr]
  rw [hl, hr] at h
  rcases h with h | h <;> rw [h]
  · rw [zero_add, wrap32_of_isI32 hri]
  · rw [add_zero, wrap32_of_isI32 hli]

theorem Schema.Separate.eq_zero (h : schema.Separate) (hproper : ∀ c ∈ schema.columns, c.IsProper)
    (hzero : schema.getTupleSize = 0) : ∀ c ∈ schema.columns, c.offset = 0 ∧ c.getDataSize = 0 := by
  intro c hc
  have hb := h.bounds c hc
  have hs := (hproper c hc).2
  exact ⟨by omega, by omega⟩

theorem MatchesSchema.append {leftValues rightValues : List Value} (hlen : leftValues.length = left.columns.length)
    (hl : MatchesSchema left leftValues) (hr : MatchesSchema right rightValues) :
    MatchesSchema (joinedSchema left right) (leftValues ++ rightValues) := by
  intro i col hcol
  simp only [joinedSchema, List.getElem?_append] at hcol ⊢
  rw [hlen]
  split_ifs at hcol ⊢
  · exact hl i col hcol
  · exact hr _ col hcol

theorem hasByte_joinedSchema_left {b : ℤ} {i : ℕ} (h : HasByte left b i) : HasByte (joinedSchema left right) b i := by
  obtain ⟨col, hcol, hbyte⟩ := h
  refine ⟨col, ?_, hbyte⟩
  rw [joinedSchema, List.getElem?_append_left (List.getElem?_eq_some_iff.mp hcol).1]
  exact hcol

theorem hasByte_joinedSchema_right {b : ℤ} {i : ℕ} (h : HasByte right b i) :
    HasByte (joinedSchema left right) b (left.columns.length + i) := by
  obtain ⟨col, hcol, hbyte⟩ := h
  refine ⟨col, ?_, hbyte⟩
  rw [joinedSchema, List.getElem?_append_right (Nat.le_add_right _ _), Nat.add_sub_cancel_left]
  exact hcol

theorem joinedSchema_separate (hl : left.Separate) (hr : right.Separate) (hlp : ∀ c ∈ left.columns, c.IsProper)
    (hrp : ∀ c ∈ right.columns, c.IsProper) (hlzero : 0 ≤ left.getTupleSize) (hrzero : 0 ≤ right.getTupleSize)
    (h : left.getTupleSize = 0 ∨ right.getTupleSize = 0)
    (hsize : (joinedSchema left right).getTupleSize = left.getTupleSize + right.getTupleSize) :
    (joinedSchema left right).Separate := by
  refine ⟨fun c hc => ?_, List.pairwise_append.mpr ⟨hl.apart, hr.apart, fun c hc d hd => ?_⟩⟩
  · rw [hsize]
    rcases List.mem_append.mp hc with hc | hc
    · have hb := hl.bounds c hc
      exact ⟨hb.1, by omega⟩
    · have hb := hr.bounds c hc
      exact ⟨hb.1, by omega⟩
  · rcases h with h | h
    · obtain ⟨h0, hs⟩ := hl.eq_zero hlp h c hc
      have hb := hr.bounds d hd
      exact .inl (by omega)
    · obtain ⟨h0, hs⟩ := hr.eq_zero hrp h d hd
      have hb := hl.bounds c hc
      exact .inr (by omega)

theorem JoinedSchema.Valid.hasBuffer (h : JoinedSchema.Valid left right) (hlp : ∀ c ∈ left.columns, c.IsProper)
    (hrp : ∀ c ∈ right.columns, c.IsProper) : ∀ col ∈ left.columns ++ right.columns, col.HasBuffer := by
  intro col hmem
  obtain ⟨i, hcol⟩ := List.mem_iff_getElem?.mp hmem
  obtain ⟨bytes, -, hreads⟩ := h.roundTrip (fun _ _ => 0) (fun _ => 0) _ _ (by simp) (matchesSchema_anyValue hlp)
    (by simp) (matchesSchema_anyValue hrp)
  obtain ⟨w, hw, -⟩ := hreads i col.anyValue (by rw [← List.map_append, List.getElem?_map, hcol]; rfl)
  exact hasBuffer_of_getValue (show (joinedSchema left right).columns[i]? = some col from hcol) hw

/-- For all child schemas that `create_table_schema` builds: the joined schema is a layout, whose tuples have the values
that they are built from, exactly if one of the children has tuples of no bytes (no columns, or only `CHAR(0)`) and no
`CHAR` column is so long that the size of its buffer overflows. -/
theorem joinedSchema_valid_iff (hleft : createTableSchema leftTypes leftNames leftLens = some left)
    (hlv : ValidColumns leftTypes leftLens) (hright : createTableSchema rightTypes rightNames rightLens = some right)
    (hrv : ValidColumns rightTypes rightLens) :
    JoinedSchema.Valid left right ↔ (left.getTupleSize = 0 ∨ right.getTupleSize = 0) ∧
      ∀ col ∈ left.columns ++ right.columns, col.HasBuffer := by
  obtain ⟨hl, hl0, hlp⟩ := createTableSchema_separate hleft hlv
  obtain ⟨hr, hr0, hrp⟩ := createTableSchema_separate hright hrv
  constructor
  · intro hvalid
    refine ⟨?_, hvalid.hasBuffer hlp hrp⟩
    by_contra hno
    obtain ⟨hlne, hrne⟩ := not_or.mp hno
    -- The first byte belongs to a column of either side.
    obtain ⟨i, hi⟩ := createTableSchema_covers hleft le_rfl (by omega)
    obtain ⟨j, hj⟩ := createTableSchema_covers hright le_rfl (by omega)
    obtain ⟨k, -, hk⟩ := hvalid.tiles 0 le_rfl (hvalid.bounds 0 i (hasByte_joinedSchema_left hi)).2
    have hik := hk i (hasByte_joinedSchema_left hi)
    have hjk := hk _ (hasByte_joinedSchema_right hj)
    obtain ⟨col, hcol, -⟩ := hi
    have hlt := (List.getElem?_eq_some_iff.mp hcol).1
    omega
  · rintro ⟨hzero, hbuf⟩
    have hsize := getTupleSize_joinedSchema hleft hright hzero
    have hsep := joinedSchema_separate hl hr hlp hrp hl0 hr0 hzero hsize
    refine ⟨fun b i => hsep.hasByte_bounds, fun b hlo hhi => ?_, ?_⟩
    · obtain ⟨i, hi⟩ : ∃ i, HasByte (joinedSchema left right) b i := by
        rw [hsize] at hhi
        rcases hzero with h | h
        · obtain ⟨i, hi⟩ := createTableSchema_covers hright hlo (by omega)
          exact ⟨_, hasByte_joinedSchema_right hi⟩
        · obtain ⟨i, hi⟩ := createTableSchema_covers hleft hlo (by omega)
          exact ⟨i, hasByte_joinedSchema_left hi⟩
      exact ⟨i, hi, fun j hj => hsep.hasByte_unique hi hj⟩
    · intro stack heap leftValues rightValues hll hlm hrl hrm
      refine (hsep.keepsValues hbuf).init stack heap _ ?_ (.append hll hlm hrm)
      simp [joinedSchema, hll, hrl]

/-- A column `name` of type `INTEGER`. -/
def integerSchema (name : UInt8) : Schema := { columns := [.ofType .kInteger [name] 0] }

theorem createTableSchema_integer (name : UInt8) :
    createTableSchema [.kInteger] [[name]] [] = some (integerSchema name) ∧ ValidColumns [.kInteger] [] :=
  ⟨rfl, by simp [ValidColumns]⟩

/-- A left child without columns. -/
theorem joinedSchema_valid_iff_empty : createTableSchema [] [] [] = some { columns := [] } ∧
    ValidColumns [] [] ∧ createTableSchema [.kInteger] [[98]] [] = some (integerSchema 98) ∧
    ValidColumns [.kInteger] [] ∧
    (JoinedSchema.Valid { columns := [] } (integerSchema 98) ↔
      (Schema.getTupleSize { columns := [] } = 0 ∨ (integerSchema 98).getTupleSize = 0) ∧
      ∀ col ∈ [] ++ (integerSchema 98).columns, col.HasBuffer) := by
  obtain ⟨hr, hrv⟩ := createTableSchema_integer 98
  have hl : createTableSchema [] [] [] = some { columns := [] } := rfl
  have hlv : ValidColumns [] [] := by simp [ValidColumns]
  exact ⟨hl, hlv, hr, hrv, joinedSchema_valid_iff hl hlv hr hrv⟩

/-- One `INTEGER` column on either side: both columns are the first four bytes of a tuple of eight, and the left value
1 is overwritten by the right value 2. -/
theorem joined_integers_overlap : createTableSchema [.kInteger] [[97]] [] = some (integerSchema 97) ∧
    createTableSchema [.kInteger] [[98]] [] = some (integerSchema 98) ∧
    ¬ JoinedSchema.Valid (integerSchema 97) (integerSchema 98) ∧
    (initTuple (fun _ _ => 0) [.integer 1, .integer 2] (joinedSchema (integerSchema 97) (integerSchema 98))
      (fun _ => 0)).map (fun bytes => (bytes, getValue bytes (joinedSchema (integerSchema 97) (integerSchema 98)) 0)) =
      some ([2, 0, 0, 0, 0, 0, 0, 0], some (.integer 2)) := by
  refine ⟨rfl, rfl, fun hvalid => ?_, by decide⟩
  obtain ⟨k, -, hk⟩ := hvalid.tiles 0 le_rfl (by decide)
  have h0 := hk 0 ⟨_, rfl, by decide, by decide⟩
  have h1 := hk 1 ⟨_, rfl, by decide, by decide⟩
  omega

end Layout

end Dawn
