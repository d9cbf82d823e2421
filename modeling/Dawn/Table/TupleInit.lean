import Mathlib.Data.List.TakeWhile
import Dawn.Lib.Returns
import Dawn.Table.Tuple

/-!
# Building a tuple

`Tuple::set_value` and `Tuple::init` of `src/table/tuple.cpp`. The values are written one after the other at
the offsets of their columns, each with as many bytes as the *value* has. A string goes through a buffer of the
size of the *column*. Neither the number of the values nor their types or lengths are looked at: a write that
goes beyond its buffer is undefined, `none` here, and other bytes may be those that the memory happens to hold.

The tuple reads back the values exactly when they fit their columns (`FitsSchema.init_reads`, `FitsSchema.of_reads`).
-/

namespace Dawn

/-- The bytes that `serialize_to` copies: those of the union member, or the string with its terminator. There
is no instance of `Type` for `kInvalid`. -/
def Value.serialized : Value → Option (List UInt8)
  | .invalid => none
  | .boolean b => some [if b then 1 else 0]
  | .integer i => some (Bytes.toLE4 i)
  | .decimal d => some (decimalBytes d)
  | .char s => some (cStr s ++ [0])

/-- A copy into a buffer of the given size. -/
def copyTo (size : ℤ) (m : Bytes) (off : ℤ) (src : List UInt8) : Option Bytes :=
  if 0 ≤ off ∧ off + src.length ≤ size then some (m.write off src) else none

/-- The bytes that `set_value` puts into the tuple: those of the value, or the first ones of the buffer on the stack,
where `tmp` is what that held. -/
def columnBytes (tmp : Bytes) (col : Column) (value : Value) : Option (List UInt8) := do
  let src ← value.serialized
  if ¬ col.HasBuffer then none
  else if col.columnType = .kChar then
    let tmp ← copyTo (col.getDataSize + 1) tmp 0 src
    some (tmp.read 0 col.getDataSize.toNat)
  else some src

/-- `set_value` on a tuple of the given size. -/
def setValue (tmp : Bytes) (schema : Schema) (size : ℤ) (value : Value) (idx : ℤ) (m : Bytes) :
    Option Bytes := do
  let col ← schema.getColumn idx
  let src ← columnBytes tmp col value
  copyTo size m col.offset src

section Init

variable (stack : ℤ → Bytes) (values : List Value) (schema : Schema)

/-- One round of the loop of `init`. -/
def setColumn (m : Bytes) (i : ℕ) : Option Bytes := do
  let value ← values[i]?
  setValue (stack i) schema schema.getTupleSize value i m

/-- `init`, where `heap` is what the new buffer holds: the bytes of the tuple. `new` throws for a negative size. -/
def initTuple (heap : Bytes) : Option (List UInt8) :=
  if schema.getTupleSize < 0 then none
  else do
    let m ← (List.range schema.columns.length).foldlM (setColumn stack values schema) heap
    some (m.read 0 schema.getTupleSize.toNat)

end Init

/-! ## Reading a column -/

variable {bytes : List UInt8} {col : Column} {v : Value} {tmp : Bytes} {i : ℕ} {names : List (List UInt8)}
  {charLen : List ℤ}

theorem readColumn_congr {m m' : Bytes} (h : ∀ i, 0 ≤ i → i < col.getDataSize → m i = m' i) :
    readColumn col m = readColumn col m' := by
  unfold readColumn
  split_ifs with hb hc
  · have hstr : Bytes.cString (fun i => if i < col.getDataSize then m i else 0) 0 (col.getDataSize.toNat + 1) =
        Bytes.cString (fun i => if i < col.getDataSize then m' i else 0) 0 (col.getDataSize.toNat + 1) := by
      unfold Bytes.cString
      congr 1
      refine Bytes.read_congr fun i hi => ?_
      split_ifs with hlt
      · exact h _ (by omega) hlt
      · rfl
    rw [Value.ofMemory, Value.ofMemory, hstr]
  · rw [Column.getDataSize, if_neg hc] at h
    cases htype : col.columnType with
    | kInvalid => rfl
    | kBoolean =>
      rw [htype] at h
      simp only [Value.ofMemory]
      rw [h 0 le_rfl (by decide)]
    | kInteger =>
      rw [htype] at h
      simp only [Value.ofMemory]
      rw [Bytes.i32_congr fun k hk => h (0 + k) (by omega) (by simp [TypeId.getTypeSize, integerTSize]; omega)]
    | kDecimal =>
      rw [htype] at h
      have hdec : decimalAt m 0 = decimalAt m' 0 := by
        refine List.foldr_ext _ _ _ fun k hk acc => ?_
        rw [List.mem_range] at hk
        rw [h (0 + k) (by omega) (by simp [TypeId.getTypeSize, decimalTSize]; omega)]
      simp only [Value.ofMemory, hdec]
    | kChar => exact absurd htype hc
  · rfl

theorem getTypeId_readColumn {m : Bytes} (h : readColumn col m = some v) :
    v.getTypeId = col.columnType := by
  rw [readColumn_eq (hasBuffer_of_readColumn h)] at h
  split_ifs at h with hc
  · obtain rfl := Option.some.inj h
    exact hc.symm
  · cases hcol : col.columnType <;> rw [hcol] at h hc <;> simp [Value.ofMemory] at h hc <;>
      rw [← h] <;> rfl

/-- The value has the type of the column, and a string is not longer than the column. The bounds hold for every
`integer_t`. -/
def MatchesColumn (col : Column) : Value → Prop
  | .invalid => False
  | .boolean _ => col.columnType = .kBoolean
  | .integer i => col.columnType = .kInteger ∧ IsI32 i
  | .decimal _ => col.columnType = .kDecimal
  | .char s => col.columnType = .kChar ∧ ((cStr s).length : ℤ) ≤ col.charLength

/-- The value fits the column: it matches, a string can go through the buffer of the column, and a number is one that
equals itself. -/
structure FitsColumn (col : Column) (v : Value) : Prop where
  matching : MatchesColumn col v
  buffer : col.HasBuffer
  notNaN : ∀ d, v = .decimal d → decimalIsNaN d = false

/-- Equal by `operator==`, but doubles by their bits. -/
def Value.SameBits : Value → Value → Prop
  | .decimal d, .decimal e => d = e
  | v, w => v.opEq w = true

theorem FitsColumn.opEq {w : Value} (h : FitsColumn col v) (hw : w.SameBits v) : w.opEq v = true := by
  cases v with
  | decimal d =>
    cases w with
    | decimal e =>
      obtain rfl : e = d := hw
      simp [Value.opEq, decimalEq, h.notNaN e rfl]
    | _ => exact hw
  | _ => cases w <;> exact hw

theorem setValue_eq {m : Bytes} {schema : Schema} {size idx : ℤ}
    (h : schema.getColumn idx = some col) :
    setValue tmp schema size v idx m = (columnBytes tmp col v).bind (copyTo size m col.offset) := by
  rw [setValue, h, some_bind]
  rfl

theorem Value.zero_notMem_cStr (s : List UInt8) : (0 : UInt8) ∉ cStr s := by
  intro h
  have := List.mem_takeWhile_imp h
  simp at this

theorem Value.cStr_append_replicate (s : List UInt8) (n : ℕ) :
    cStr (cStr s ++ List.replicate n 0) = cStr s := by
  have hall : ∀ c ∈ cStr s, decide (c ≠ 0) = true := fun c hc =>
    decide_eq_true fun he => Value.zero_notMem_cStr s (he ▸ hc)
  rw [cStr, List.takeWhile_append_of_pos hall]
  cases n <;> simp [List.replicate_succ]

/-- A `CHAR` column that begins with a string, with its terminator unless the column ends there, holds that
string. -/
theorem readColumn_char {s : List UInt8} {m : Bytes} (hb : col.HasBuffer) (h : col.columnType = .kChar)
    (hlen : ((cStr s).length : ℤ) ≤ col.charLength)
    (hm : m.read 0 col.getDataSize.toNat = (tmp.write 0 (cStr s ++ [0])).read 0 col.getDataSize.toNat) :
    ∃ w, readColumn col m = some w ∧ w.SameBits (.char s) := by
  have hsize : col.getDataSize = col.charLength := if_pos h
  have hstr : Bytes.cString (fun i => if i < col.getDataSize then m i else 0) 0
      (col.getDataSize.toNat + 1) = cStr s := by
    refine Bytes.cString_eq ?_ (Value.zero_notMem_cStr s) (by omega)
    rw [← Bytes.read_write tmp 0 (cStr s ++ [0]), List.length_append]
    refine Bytes.read_congr fun i hi => ?_
    by_cases hin : (i : ℤ) < col.getDataSize
    · rw [zero_add, if_pos hin, ← zero_add (i : ℤ)]
      exact Bytes.eq_of_read_eq hm (by omega)
    · -- The string fills the column, and the terminator is the one that `get_value` adds.
      obtain rfl : i = (cStr s).length := by omega
      have hlast := Bytes.getD_read (tmp.write 0 (cStr s ++ [0])) 0 (cStr s ++ [0]).length
        (cStr s).length (by simp)
      rw [Bytes.read_write] at hlast
      rw [zero_add, if_neg hin, ← zero_add ((cStr s).length : ℤ), ← hlast]
      simp
  refine ⟨_, by rw [readColumn_eq hb, if_pos h, Value.ofMemory], ?_⟩
  simp only [Value.SameBits, Value.opEq, hstr, Value.cStr_append_replicate, beq_self_eq_true]

/-- A value that matches its column has as many bytes as the column, and the column reads them as that value. -/
theorem MatchesColumn.columnBytes (h : MatchesColumn col v) (hb : col.HasBuffer) (tmp : Bytes) :
    ∃ src : List UInt8, columnBytes tmp col v = some src ∧ (src.length : ℤ) = col.getDataSize ∧
      ∀ m : Bytes, m.read 0 src.length = src → ∃ w, readColumn col m = some w ∧ w.SameBits v := by
  simp only [readColumn_eq hb]
  cases v with
  | invalid => exact h.elim
  | boolean b =>
    obtain h : col.columnType = .kBoolean := h
    refine ⟨[if b then 1 else 0], by simp [Dawn.columnBytes, Value.serialized, h, hb], ?_, fun m hm => ?_⟩
    · simp [Column.getDataSize, h, TypeId.getTypeSize, booleanTSize]
    · have hbyte := Bytes.getD_read m 0 1 0 (by decide)
      rw [show m.read 0 1 = _ from hm] at hbyte
      refine ⟨.boolean (m 0 != 0), by simp [h, Value.ofMemory], ?_⟩
      rw [show m 0 = _ from hbyte.symm]
      cases b <;> rfl
  | integer i =>
    obtain ⟨h, hi⟩ := h
    refine ⟨Bytes.toLE4 i, by simp [Dawn.columnBytes, Value.serialized, h, hb], ?_, fun m hm => ?_⟩
    · simp [Column.getDataSize, h, TypeId.getTypeSize, integerTSize]
    · refine ⟨.integer (m.i32 0), by simp [h, Value.ofMemory], ?_⟩
      have hset : m.i32 0 = (m.setI32 0 i).i32 0 := Bytes.i32_congr fun k hk =>
        Bytes.eq_of_read_eq (hm.trans (Bytes.read_write m 0 (Bytes.toLE4 i)).symm) hk
      rw [hset, Bytes.i32_setI32 hi]
      simp [Value.SameBits, Value.opEq]
  | decimal d =>
    obtain h : col.columnType = .kDecimal := h
    refine ⟨decimalBytes d, by simp [Dawn.columnBytes, Value.serialized, h, hb], ?_, fun m hm => ?_⟩
    · simp [Column.getDataSize, h, TypeId.getTypeSize, decimalTSize, decimalBytes]
    · refine ⟨.decimal (decimalAt m 0), by simp [h, Value.ofMemory], ?_⟩
      refine decimalAt_eq fun k hk => ?_
      have hk' := Bytes.getD_read m 0 8 k hk
      rw [show m.read 0 8 = decimalBytes d from hm, zero_add] at hk'
      rw [← hk']
      interval_cases k <;> rfl
  | char s =>
    obtain ⟨h, hlen⟩ := h
    have hsize : col.getDataSize = col.charLength := if_pos h
    have hcopy : copyTo (col.getDataSize + 1) tmp 0 (cStr s ++ [0]) =
        some (tmp.write 0 (cStr s ++ [0])) := if_pos (by simp [hsize]; omega)
    refine ⟨(tmp.write 0 (cStr s ++ [0])).read 0 col.getDataSize.toNat, ?_, ?_, fun m hm => ?_⟩
    · rw [Dawn.columnBytes, Value.serialized, some_bind, if_neg (not_not.mpr hb), if_pos h, hcopy]
      rfl
    · simp
      omega
    · rw [Bytes.length_read] at hm
      rw [← readColumn_eq hb]
      exact readColumn_char hb h hlen hm

/-- Whatever the stack holds, `set_value` has bytes for the value, and no more than the column has. -/
def TakesColumn (col : Column) (v : Value) : Prop :=
  ∀ tmp, ∃ src, columnBytes tmp col v = some src ∧ (src.length : ℤ) ≤ col.getDataSize

theorem MatchesColumn.takes (h : MatchesColumn col v) (hb : col.HasBuffer) : TakesColumn col v := by
  intro tmp
  obtain ⟨src, hsrc, hlen, -⟩ := h.columnBytes hb tmp
  exact ⟨src, hsrc, hlen.le⟩

/-! ## The whole tuple -/

section Run

variable {stack : ℤ → Bytes} {values : List Value} {schema : Schema} {heap m m' : Bytes}

/-- The columns lie one after the other in the tuple, and have types. -/
structure Schema.Laid (schema : Schema) : Prop where
  bounds : ∀ c ∈ schema.columns, 0 ≤ c.offset ∧ c.offset + c.getDataSize ≤ schema.getTupleSize
  sorted : schema.columns.Pairwise fun c d => c.offset + c.getDataSize ≤ d.offset

/-- The columns lie in the tuple, in any order, and have no byte in common. -/
structure Schema.Separate (schema : Schema) : Prop where
  bounds : ∀ c ∈ schema.columns, 0 ≤ c.offset ∧ c.offset + c.getDataSize ≤ schema.getTupleSize
  apart : schema.columns.Pairwise fun c d =>
    c.offset + c.getDataSize ≤ d.offset ∨ d.offset + d.getDataSize ≤ c.offset

theorem Schema.Laid.separate (h : schema.Laid) : schema.Separate := ⟨h.bounds, h.sorted.imp Or.inl⟩

theorem Schema.Separate.disjoint (h : schema.Separate) {j : ℕ} {c d : Column} (hc : schema.columns[i]? = some c)
    (hd : schema.columns[j]? = some d) (hne : i ≠ j) :
    c.offset + c.getDataSize ≤ d.offset ∨ d.offset + d.getDataSize ≤ c.offset := by
  obtain ⟨hi, rfl⟩ := List.getElem?_eq_some_iff.mp hc
  obtain ⟨hj, rfl⟩ := List.getElem?_eq_some_iff.mp hd
  rcases Nat.lt_or_gt_of_ne hne with hlt | hlt
  · exact List.pairwise_iff_getElem.mp h.apart i j hi hj hlt
  · exact (List.pairwise_iff_getElem.mp h.apart j i hj hi hlt).symm

/-- There is a value for every column, in the given relation with it. -/
def ForColumns (R : Column → Value → Prop) (schema : Schema) (values : List Value) : Prop :=
  ∀ (i : ℕ) (col : Column), schema.columns[i]? = some col → ∃ v, values[i]? = some v ∧ R col v

/-- There is a literal for every column, and it fits. -/
def FitsSchema : Schema → List Value → Prop := ForColumns FitsColumn

/-- There is a value for every column, and it matches. -/
def MatchesSchema : Schema → List Value → Prop := ForColumns MatchesColumn

theorem ForColumns.imp {R R' : Column → Value → Prop} (h : ForColumns R schema values)
    (himp : ∀ col ∈ schema.columns, ∀ v, R col v → R' col v) : ForColumns R' schema values := by
  intro i col hcol
  obtain ⟨v, hv, hR⟩ := h i col hcol
  exact ⟨v, hv, himp col (List.mem_of_getElem? hcol) v hR⟩

theorem getColumn_natCast (i : ℕ) : schema.getColumn i = schema.columns[i]? := by
  rw [Schema.getColumn, if_neg (by omega), Int.toNat_natCast]

theorem setValue_takes (hsep : schema.Separate) {n : ℕ} {src : List UInt8} (hcol : schema.columns[n]? = some col)
    (hsrc : columnBytes tmp col v = some src) (hlen : (src.length : ℤ) ≤ col.getDataSize) (m : Bytes) :
    ∃ m', setValue tmp schema schema.getTupleSize v n m = some m' ∧ m'.read col.offset src.length = src ∧
      ∀ i ≠ n, ∀ c, schema.columns[i]? = some c → ∀ len : ℕ, (len : ℤ) ≤ c.getDataSize →
        m'.read c.offset len = m.read c.offset len := by
  obtain ⟨h0, hle⟩ := hsep.bounds col (List.mem_of_getElem? hcol)
  have hcopy : copyTo schema.getTupleSize m col.offset src = some (m.write col.offset src) :=
    if_pos ⟨h0, by omega⟩
  refine ⟨m.write col.offset src, ?_, Bytes.read_write m col.offset src, ?_⟩
  · rw [setValue_eq ((getColumn_natCast n).trans hcol), hsrc, Option.bind_some, hcopy]
  · intro i hi c hc len hc'
    rcases hsep.disjoint hc hcol hi with h | h
    · exact Bytes.read_write_of_disjoint (Or.inl (by omega))
    · exact Bytes.read_write_of_disjoint (Or.inr (by omega))

theorem setColumns_takes (stack : ℤ → Bytes) (heap : Bytes) (hsep : schema.Separate)
    (htakes : ForColumns TakesColumn schema values) {n : ℕ} (hn : n ≤ schema.columns.length) :
    ∃ m, (List.range n).foldlM (setColumn stack values schema) heap = some m ∧
      ∀ i < n, ∀ col v src, schema.columns[i]? = some col → values[i]? = some v →
        columnBytes (stack i) col v = some src → m.read col.offset src.length = src := by
  induction n with
  | zero => exact ⟨heap, rfl, fun i hi => absurd hi (Nat.not_lt_zero i)⟩
  | succ n ih =>
    obtain ⟨m, hm, hall⟩ := ih (by omega)
    have hcol : schema.columns[n]? = some schema.columns[n] := List.getElem?_eq_getElem hn
    obtain ⟨v, hv, htake⟩ := htakes n _ hcol
    obtain ⟨src, hsrc, hlen⟩ := htake (stack n)
    obtain ⟨m', hm', hnew, hold⟩ := setValue_takes hsep hcol hsrc hlen m
    refine ⟨m', ?_, fun i hi c v' src' hc hv' hsrc' => ?_⟩
    · rw [List.range_succ, List.foldlM_append, hm]
      simp [setColumn, hv, hm']
    · obtain hlt | rfl := Nat.lt_succ_iff_lt_or_eq.mp hi
      · -- A column before this one keeps its bytes.
        obtain ⟨v1, hv1, htake1⟩ := htakes i c hc
        obtain rfl := Option.some.inj (hv1.symm.trans hv')
        obtain ⟨src1, hsrc1, hlen1⟩ := htake1 (stack i)
        obtain rfl := Option.some.inj (hsrc1.symm.trans hsrc')
        exact (hold i hlt.ne c hc _ hlen1).trans (hall i hlt c v1 _ hc hv1 hsrc1)
      · obtain rfl := Option.some.inj (hcol.symm.trans hc)
        obtain rfl := Option.some.inj (hv.symm.trans hv')
        obtain rfl := Option.some.inj (hsrc.symm.trans hsrc')
        exact hnew

theorem exists_setColumn {l : List ℕ} (h : l.foldlM (setColumn stack values schema) m = some m')
    (hi : i ∈ l) : ∃ m1 m2, setColumn stack values schema m1 i = some m2 := by
  induction l generalizing m with
  | nil => cases hi
  | cons j l ih =>
    obtain ⟨m1, h1, h⟩ := bind_eq_some.mp h
    rcases List.mem_cons.mp hi with rfl | hi
    · exact ⟨m, m1, h1⟩
    · exact ih h hi

/-- Every column of the tuple reads as the value that was to be written there. -/
def ReadsValues (schema : Schema) (values : List Value) (bytes : List UInt8) : Prop :=
  ∀ (i : ℕ) (col : Column), schema.columns[i]? = some col →
    ∃ v w, values[i]? = some v ∧ getValue bytes schema i = some w ∧ w.opEq v = true

theorem tupleMemory_read {size i : ℤ} (h0 : 0 ≤ i) (hlt : i < size) : tupleMemory (m.read 0 size.toNat) i = m i := by
  rw [tupleMemory, Bytes.getD_read m 0 size.toNat i.toNat (by omega), zero_add, Int.toNat_of_nonneg h0]

theorem MatchesColumn.getValue (hv : MatchesColumn col v) (hb : col.HasBuffer) (hsep : schema.Separate)
    (hcol : schema.columns[i]? = some col)
    (hholds : ∀ src, Dawn.columnBytes tmp col v = some src → m.read col.offset src.length = src) :
    ∃ w, getValue (m.read 0 schema.getTupleSize.toNat) schema i = some w ∧ w.SameBits v := by
  obtain ⟨src, hsrc, hlen, hcols⟩ := hv.columnBytes hb tmp
  obtain ⟨h0, hle⟩ := hsep.bounds col (List.mem_of_getElem? hcol)
  have hwindow : Bytes.read (fun k => tupleMemory (m.read 0 schema.getTupleSize.toNat) (col.offset + k)) 0
      src.length = src := by
    refine Eq.trans (Bytes.read_congr fun k hk => ?_) (hholds src hsrc)
    rw [zero_add]
    exact tupleMemory_read (by omega) (by omega)
  rw [getValue_eq ((getColumn_natCast i).trans hcol)]
  exact hcols _ hwindow

theorem ForColumns.size_nonneg (htakes : ForColumns TakesColumn schema values) (hsep : schema.Separate) :
    0 ≤ schema.getTupleSize := by
  cases hcols : schema.columns with
  | nil => simp [Schema.getTupleSize, Schema.total, hcols, wrap32]
  | cons col cols =>
    obtain ⟨v, -, htake⟩ := htakes 0 col (by rw [hcols]; rfl)
    obtain ⟨src, -, hlen⟩ := htake fun _ => 0
    obtain ⟨h0, hle⟩ := hsep.bounds col (by rw [hcols]; exact List.mem_cons_self)
    omega

/-- A tuple whose columns take their values can be built, and has their bytes. -/
theorem ForColumns.init (htakes : ForColumns TakesColumn schema values) (hsep : schema.Separate)
    (stack : ℤ → Bytes) (heap : Bytes) :
    ∃ m : Bytes, initTuple stack values schema heap = some (m.read 0 schema.getTupleSize.toNat) ∧
      ∀ (i : ℕ) (col : Column) (v : Value) (src : List UInt8), schema.columns[i]? = some col → values[i]? = some v →
        columnBytes (stack i) col v = some src → m.read col.offset src.length = src := by
  obtain ⟨m, hm, hall⟩ := setColumns_takes stack heap hsep htakes le_rfl
  refine ⟨m, ?_, fun i col v src hcol => hall i (List.getElem?_eq_some_iff.mp hcol).1 col v src hcol⟩
  rw [initTuple, if_neg (not_lt.mpr (htakes.size_nonneg hsep)), hm]
  rfl

theorem FitsSchema.init_reads (hfits : FitsSchema schema values) (hlaid : schema.Laid)
    (stack : ℤ → Bytes) (heap : Bytes) :
    ∃ bytes, initTuple stack values schema heap = some bytes ∧ ReadsValues schema values bytes := by
  obtain ⟨m, hinit, hall⟩ :=
    ForColumns.init (hfits.imp fun col _ v h => h.matching.takes h.buffer) hlaid.separate stack heap
  refine ⟨_, hinit, fun i col hcol => ?_⟩
  obtain ⟨v, hv, hfit⟩ := hfits i col hcol
  obtain ⟨w, hw, hsame⟩ := hfit.matching.getValue hfit.buffer hlaid.separate hcol fun src => hall i col v src hcol hv
  exact ⟨v, w, hv, hw, hfit.opEq hsame⟩

theorem fitsColumn_of_reads {w : Value} {src : List UInt8}
    (hw : readColumn col m = some w) (heq : w.opEq v = true) (hsrc : columnBytes tmp col v = some src) :
    FitsColumn col v := by
  have hb := hasBuffer_of_readColumn hw
  have htype : col.columnType = v.getTypeId :=
    (getTypeId_readColumn hw).symm.trans (Value.getTypeId_eq_of_opEq heq)
  have hself : v.opEq v = true := Value.opEq_trans (Value.opEq_symm heq) heq
  refine ⟨?_, hb, ?_⟩
  · rw [readColumn_eq hb] at hw
    cases v with
    | invalid => simp [Value.opEq] at hself
    | boolean b => exact htype
    | integer i =>
      have hint : col.columnType = .kInteger := htype
      rw [hint, if_neg (by decide), Value.ofMemory, Option.some.injEq] at hw
      rw [← hw, Value.opEq, beq_iff_eq] at heq
      exact ⟨htype, heq ▸ Bytes.isI32_i32 m 0⟩
    | decimal d => exact htype
    | char s =>
      refine ⟨htype, ?_⟩
      have hchar : col.columnType = .kChar := htype
      have hsize : col.getDataSize = col.charLength := if_pos hchar
      rw [columnBytes, Value.serialized, some_bind, if_neg (not_not.mpr hb), if_pos hchar] at hsrc
      obtain ⟨tmp', htmp, -⟩ := bind_eq_some.mp hsrc
      unfold copyTo at htmp
      split_ifs at htmp with hc
      rw [List.length_append, List.length_singleton] at hc
      omega
  · rintro d rfl
    simp only [Value.opEq, decimalEq, Bool.and_eq_true] at hself
    simpa using hself.1.1

/-- What `init` has done if it returns: the size is not negative, and every column was written inside the tuple. -/
theorem initTuple_eq_some (h : initTuple stack values schema heap = some bytes) : 0 ≤ schema.getTupleSize ∧
    bytes.length = schema.getTupleSize.toNat ∧ ∀ (i : ℕ) (col : Column), schema.columns[i]? = some col →
      ∃ v src, values[i]? = some v ∧ columnBytes (stack i) col v = some src ∧ 0 ≤ col.offset ∧
        col.offset + src.length ≤ schema.getTupleSize := by
  unfold initTuple at h
  split_ifs at h with hneg
  obtain ⟨m, hm, he⟩ := bind_eq_some.mp h
  refine ⟨not_lt.mp hneg, by rw [← Option.some.inj he, Bytes.length_read], fun i col hcol => ?_⟩
  have hi : i ∈ List.range schema.columns.length :=
    List.mem_range.mpr (List.getElem?_eq_some_iff.mp hcol).1
  obtain ⟨m1, m2, hset⟩ := exists_setColumn hm hi
  obtain ⟨v, hv, hset⟩ := bind_eq_some.mp hset
  rw [setValue_eq ((getColumn_natCast i).trans hcol)] at hset
  obtain ⟨src, hsrc, hcopy⟩ := bind_eq_some.mp hset
  unfold copyTo at hcopy
  split_ifs at hcopy with hc
  exact ⟨v, src, hv, hsrc, hc⟩

theorem FitsSchema.of_reads (hinit : initTuple stack values schema heap = some bytes)
    (hreads : ReadsValues schema values bytes) : FitsSchema schema values := by
  intro i col hcol
  obtain ⟨v, w, hv, hw, heq⟩ := hreads i col hcol
  obtain ⟨v', src, hv', hsrc, -⟩ := (initTuple_eq_some hinit).2.2 i col hcol
  obtain rfl := Option.some.inj (hv.symm.trans hv')
  rw [getValue_eq ((getColumn_natCast i).trans hcol)] at hw
  exact ⟨v, hv, fitsColumn_of_reads hw heq hsrc⟩

theorem MatchesColumn.type_ne (h : MatchesColumn col v) : col.columnType ≠ .kInvalid := by
  cases v <;> simp_all [MatchesColumn]

theorem laid_of_size {types : List TypeId}
    (hschema : createTableSchema types names charLen = some schema)
    (hsz : ∀ c ∈ schema.columns, 0 ≤ c.getDataSize) : schema.Laid := by
  obtain ⟨-, hall, hsorted⟩ := createColumns_laid (createTableSchema_columns hschema).2 hsz
  refine ⟨fun c hc => ?_, hsorted⟩
  have := hall c hc
  rw [zero_add] at this
  rw [(createTableSchema_total hschema).2]
  exact this

theorem FitsSchema.laid {types : List TypeId}
    (h : FitsSchema schema values) (hschema : createTableSchema types names charLen = some schema) : schema.Laid := by
  refine laid_of_size hschema fun c hc => ?_
  obtain ⟨i, hi⟩ := List.mem_iff_getElem?.mp hc
  obtain ⟨v, -, hv⟩ := h i c hi
  obtain ⟨src, -, hlen, -⟩ := hv.matching.columnBytes hv.buffer fun _ => 0
  omega

end Run

end Dawn
