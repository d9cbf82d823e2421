import Dawn.Lib.Extremum
import Dawn.Table.TupleInit

/-!
# Aggregates

`AggregateExpression` of `src/include/sql/expressions/aggregate_expr.h`. The accumulator `val_` begins as an `INTEGER`,
whatever the type of the column is, and every operation is one of the `Type` of the accumulator. So the values of an
`INTEGER` column are folded as they should be (`result_foldl_next`). Of a `DECIMAL` column, `SUM` adds up the low words,
and `MIN` and `MAX` compare these until one of the doubles takes the place of the integer (`aggregate_types_iff`).
-/

namespace Dawn

/-- `AggregationType`. -/
inductive AggregationType
  | kCountAggregate
  | kSumAggregate
  | kMinAggregate
  | kMaxAggregate
  deriving DecidableEq, Repr

namespace Value

/-- `get_value<integer_t>`: the first four bytes of the union, which are the low ones of a double. A boolean does not
set them all, and of a string they are a part of its address. -/
def getInteger : Value → Option ℤ
  | integer i => some i
  | decimal d => some (wrap32 d.toNat)
  | _ => none

/-- `get_value<decimal_t>`. No other value sets all bytes of the union. -/
def getDecimal : Value → Option UInt64
  | decimal d => some d
  | _ => none

/-- `operator++`. The accumulator of a `COUNT` is never a double, whose sums are not modelled. -/
def increment : Value → Option Value
  | integer i => some (integer (wrap32 (i + 1)))
  | decimal _ => none
  | v => some v

end Value

namespace TypeId

/-- `CMP_LESS`. `Boolean` and `Char` have no order. -/
def cmpLess : TypeId → Value → Value → Option Bool
  | kInteger, left, right => do some (decide ((← left.getInteger) < (← right.getInteger)))
  | kDecimal, left, right => do some (decimalLess (← left.getDecimal) (← right.getDecimal))
  | kInvalid, _, _ => none
  | _, _, _ => some false

/-- `CMP_GREATER`. -/
def cmpGreater (type : TypeId) (left right : Value) : Option Bool := type.cmpLess right left

/-- `ADD`. The accumulator of a `SUM` is always an `INTEGER`. -/
def add : TypeId → Value → Value → Option Value
  | kInteger, left, right => do some (.integer (wrap32 ((← left.getInteger) + (← right.getInteger))))
  | _, _, _ => none

end TypeId

/-- `AggregateExpression`. -/
structure AggregateExpression where
  /-- `type_`. -/
  type : AggregationType
  /-- `agg_idx_`. -/
  aggIdx : ℤ
  /-- `val_`. -/
  val : Value
  deriving DecidableEq, Repr

namespace AggregationType

/-- The integer that an accumulator begins with. -/
def start : AggregationType → ℤ
  | kCountAggregate => 0
  | kSumAggregate => 0
  | kMinAggregate => 2^31 - 1
  | kMaxAggregate => -2^31

/-- What `perform_aggregation` makes of the accumulator and the value of the column, which `COUNT` does not read. -/
def newVal (type : AggregationType) (val : Value) (value : Option Value) : Option Value :=
  match type with
  | kCountAggregate => val.increment
  | kSumAggregate => do val.getTypeId.add val (← value)
  | kMinAggregate => do
    let value ← value
    if ← val.getTypeId.cmpLess value val then some value else some val
  | kMaxAggregate => do
    let value ← value
    if ← val.getTypeId.cmpGreater value val then some value else some val

end AggregationType

namespace AggregateExpression

/-- The constructor. -/
def new (type : AggregationType) (aggIdx : ℤ) : AggregateExpression := ⟨type, aggIdx, .integer type.start⟩

/-- `perform_aggregation`. -/
def performAggregation (e : AggregateExpression) (tuple : Tuple) (schema : Schema) : Option AggregateExpression := do
  let val ← e.type.newVal e.val (getValue tuple.bytes schema e.aggIdx)
  some { e with val := val }

end AggregateExpression

/-! ## The fold over integers -/

namespace AggregationType

/-- What the accumulator is after one more value. -/
def next : AggregationType → ℤ → ℤ → ℤ
  | kCountAggregate, acc, _ => wrap32 (acc + 1)
  | kSumAggregate, acc, x => wrap32 (acc + x)
  | kMinAggregate, acc, x => pick (· < ·) acc x
  | kMaxAggregate, acc, x => pick (· > ·) acc x

/-- What `COUNT` and `SUM` add up. -/
def total : AggregationType → List ℤ → ℤ
  | kCountAggregate, xs => xs.length
  | kSumAggregate, xs => xs.sum
  | _, _ => 0

/-- What an aggregate is to be. -/
def Result : AggregationType → List ℤ → ℤ → Prop
  | kCountAggregate, xs, r => r = xs.length
  | kSumAggregate, xs, r => r = xs.sum
  | kMinAggregate, xs, r => IsLeast {x | x ∈ xs} r
  | kMaxAggregate, xs, r => IsGreatest {x | x ∈ xs} r

end AggregationType

section Fold

variable {type : AggregationType} {xs : List ℤ} {acc : ℤ}

open AggregationType

theorem isI32_start (type : AggregationType) : IsI32 type.start := by
  cases type <;> decide

theorem isI32_next (hacc : IsI32 acc) {x : ℤ} (hx : IsI32 x) : IsI32 (type.next acc x) := by
  cases type with
  | kCountAggregate => exact isI32_wrap32 _
  | kSumAggregate => exact isI32_wrap32 _
  | _ =>
    rw [next, pick]
    split_ifs
    exacts [hx, hacc]

theorem wrap32_add_wrap32 (x y : ℤ) : wrap32 (x + wrap32 y) = wrap32 (x + y) := by
  simp [wrap32_eq_bmod]

theorem foldl_next_total (htype : type = .kCountAggregate ∨ type = .kSumAggregate) (hacc : IsI32 acc) :
    xs.foldl type.next acc = wrap32 (acc + type.total xs) := by
  induction xs generalizing acc with
  | nil => rcases htype with rfl | rfl <;> simp [total, wrap32_of_isI32 hacc]
  | cons x xs ih =>
    have hstep : ∀ y, type.next acc x = wrap32 (acc + y) →
        (x :: xs).foldl type.next acc = wrap32 (acc + (y + type.total xs)) := by
      intro y hy
      rw [List.foldl_cons, hy, ih (isI32_wrap32 _), add_comm, wrap32_add_wrap32]
      congr 1
      ring
    rcases htype with rfl | rfl
    · rw [hstep 1 rfl, total, total, List.length_cons, Nat.cast_succ, add_comm (1 : ℤ)]
    · rw [hstep x rfl, total, total, List.sum_cons]

theorem result_foldl_next (hne : xs ≠ []) (hxs : ∀ x ∈ xs, IsI32 x) (hfits : IsI32 (type.total xs)) :
    type.Result xs (xs.foldl type.next type.start) := by
  cases type with
  | kCountAggregate | kSumAggregate =>
    rw [foldl_next_total (by simp) (isI32_start _), start, zero_add, wrap32_of_isI32 hfits]
    rfl
  | kMinAggregate => exact IsLeast.tail (isLeast_foldl_pick xs _) hne fun x hx => Int.le_sub_one_of_lt (hxs x hx).2
  | kMaxAggregate =>
    have hgreatest : IsLeast (α := ℤᵒᵈ) {x | x ∈ kMaxAggregate.start :: xs}
        (xs.foldl kMaxAggregate.next kMaxAggregate.start) :=
      ⟨foldl_pick_mem xs _, fun x hx => not_lt.mp (not_foldl_pick (r := (· > ·)) lt_irrefl (fun _ _ _ => gt_trans) hx)⟩
    exact IsLeast.tail (α := ℤᵒᵈ) hgreatest hne fun x hx => (hxs x hx).1

theorem foldl_next_twice_iff : xs.foldl type.next (xs.foldl type.next type.start) = xs.foldl type.next type.start ↔
      (2^32 : ℤ) ∣ type.total xs := by
  cases type with
  | kCountAggregate | kSumAggregate =>
    rw [foldl_next_total (by simp) (isI32_start _), foldl_next_total (by simp) (isI32_wrap32 _), start, zero_add,
      add_comm, wrap32_add_wrap32, wrap32_eq_bmod, wrap32_eq_bmod, Int.bmod_eq_bmod_iff_bmod_sub_eq_zero,
      add_sub_cancel_right]
    exact Int.dvd_iff_bmod_eq_zero.symm
  | kMinAggregate =>
    refine iff_of_true ((foldl_pick_eq_iff lt_irrefl fun _ _ _ => lt_trans).mpr fun x hx => ?_) (dvd_zero _)
    exact not_foldl_pick lt_irrefl (fun _ _ _ => lt_trans) (List.mem_cons_of_mem _ hx)
  | kMaxAggregate =>
    refine iff_of_true ((foldl_pick_eq_iff (r := (· > ·)) lt_irrefl fun _ _ _ => gt_trans).mpr fun x hx => ?_)
      (dvd_zero _)
    exact not_foldl_pick lt_irrefl (fun _ _ _ => gt_trans) (List.mem_cons_of_mem _ hx)

end Fold

/-! ## Doubles -/

namespace AggregationType

/-- `MIN` or `MAX`. -/
def IsExtremum (type : AggregationType) : Prop := type = kMinAggregate ∨ type = kMaxAggregate

/-- The first double takes the place of the second one. -/
def Better : AggregationType → UInt64 → UInt64 → Prop
  | kMaxAggregate, d, e => decimalLess e d = true
  | _, d, e => decimalLess d e = true

instance (type : AggregationType) : DecidableRel type.Better := fun d e =>
  match type with
  | kCountAggregate | kSumAggregate | kMinAggregate => inferInstanceAs (Decidable (decimalLess d e = true))
  | kMaxAggregate => inferInstanceAs (Decidable (decimalLess e d = true))

/-- The low word of the double is the integer that the accumulator begins with, so that the double does not take its
place. -/
def passes (type : AggregationType) (d : UInt64) : Bool := wrap32 d.toNat == type.start

/-- No double that was passed over is better than those from the first other one on. A NaN among them is no bound, unless
it is the first. -/
def KeepsExtremum (type : AggregationType) (ds : List UInt64) : Prop :=
  ∀ d rest, ds.dropWhile type.passes = d :: rest → ∀ x ∈ ds.takeWhile type.passes,
    ∃ y ∈ d :: rest, ¬ type.Better x y ∧ (y = d ∨ decimalIsNaN y = false)

variable {type : AggregationType} {c d e : UInt64} {ds : List UInt64} {acc x : ℤ} {value : Option Value}

theorem decimalLess_iff : decimalLess d e = true ↔
    decimalIsNaN d = false ∧ decimalIsNaN e = false ∧ decimalRank d < decimalRank e := by
  simp [decimalLess, and_assoc]

theorem Better.irrefl (type : AggregationType) (d : UInt64) : ¬ type.Better d d := by
  cases type <;> simp [Better, decimalLess_iff]

theorem Better.trans (type : AggregationType) (c d e : UInt64) (h : type.Better c d) (h' : type.Better d e) :
    type.Better c e := by
  cases type <;> simp only [Better, decimalLess_iff] at * <;> exact ⟨by tauto, by tauto, by omega⟩

theorem Better.notNaN (h : type.Better d e) : decimalIsNaN d = false ∧ decimalIsNaN e = false := by
  cases type <;> simp only [Better, decimalLess_iff] at h <;> tauto

theorem Better.of_not (h : type.Better c e) (hd : decimalIsNaN d = false) (hnot : ¬ type.Better d e) :
    type.Better c d := by
  cases type <;> simp only [Better, decimalLess_iff, not_and, not_lt] at * <;> exact ⟨by tauto, by tauto, by grind⟩

theorem not_better_foldl_iff {rest : List UInt64} : ¬ type.Better c (rest.foldl (pick type.Better) d) ↔
    ∃ y ∈ d :: rest, ¬ type.Better c y ∧ (y = d ∨ decimalIsNaN y = false) := by
  constructor
  · intro hnot
    refine ⟨_, foldl_pick_mem rest d, hnot, ?_⟩
    exact (foldl_pick_cases (Better.trans type) rest d).imp_right fun h => h.notNaN.1
  · rintro ⟨y, hy, hnot, hyd⟩ hbetter
    have hend := not_foldl_pick (Better.irrefl type) (Better.trans type) hy
    rcases hyd with rfl | hyd
    · rcases foldl_pick_cases (Better.trans type) rest y with h | h
      · exact hnot (h ▸ hbetter)
      · exact hnot (hbetter.of_not h.notNaN.2 hend)
    · exact hnot (hbetter.of_not hyd hend)

/-- A second time, the loop changes the double that it has found exactly if it has passed over a better one. -/
theorem foldl_better_eq_iff {rest : List UInt64} (hds : ds.dropWhile type.passes = d :: rest) :
    ds.foldl (pick type.Better) (rest.foldl (pick type.Better) d) = rest.foldl (pick type.Better) d ↔
      type.KeepsExtremum ds := by
  rw [foldl_pick_eq_iff (Better.irrefl type) (Better.trans type)]
  constructor
  · rintro hall d' rest' hds' x hx
    obtain ⟨rfl, rfl⟩ := List.cons.inj (hds.symm.trans hds')
    exact not_better_foldl_iff.mp (hall x ((List.takeWhile_prefix _).subset hx))
  · intro hkeeps x hx
    rw [← List.takeWhile_append_dropWhile (p := type.passes) (l := ds), hds, List.mem_append] at hx
    rcases hx with hx | hx
    · exact not_better_foldl_iff.mpr (hkeeps d rest hds x hx)
    · exact not_foldl_pick (Better.irrefl type) (Better.trans type) hx

/-! ## One step -/

theorem newVal_integer (h : type = .kCountAggregate ∨
    ∃ v, value = some v ∧ v.getInteger = some x ∧ (type = .kSumAggregate ∨ v = .integer x)) :
    type.newVal (.integer acc) value = some (.integer (type.next acc x)) := by
  rcases h with rfl | ⟨v, rfl, hx, rfl | rfl⟩
  · rfl
  · have hacc : (Value.integer acc).getInteger = some acc := rfl
    simp only [newVal, Value.getTypeId, TypeId.add, hacc, hx, some_bind, next]
  · cases type with
    | kMinAggregate | kMaxAggregate =>
      simp only [newVal, Value.getTypeId, TypeId.cmpGreater, TypeId.cmpLess, Value.getInteger, next, pick, some_bind,
        decide_eq_true_eq]
      split_ifs <;> rfl
    | _ => rfl

theorem newVal_decimal (htype : type.IsExtremum) : type.newVal (.decimal e) (some (.decimal d)) =
    some (.decimal (pick type.Better e d)) := by
  rcases htype with rfl | rfl <;>
  · simp only [newVal, Value.getTypeId, TypeId.cmpGreater, TypeId.cmpLess, Value.getDecimal, pick, Better, some_bind]
    split <;> simp_all

theorem newVal_first (htype : type.IsExtremum) : type.newVal (.integer type.start) (some (.decimal d)) =
    some (if type.passes d then .integer type.start else .decimal d) := by
  obtain ⟨hlo, hhi⟩ := isI32_wrap32 d.toNat
  rcases htype with rfl | rfl <;>
  · simp only [newVal, Value.getTypeId, TypeId.cmpGreater, TypeId.cmpLess, Value.getInteger, some_bind, start, passes,
      decide_eq_true_eq, beq_iff_eq]
    split
    · next h => rw [if_neg (by omega)]
    · next h => rw [if_pos (by omega)]

end AggregationType

/-! ## The column of an aggregate -/

section Column

variable {schema : Schema} {idx : ℤ} {col : Column} {tuple : Tuple} {e : AggregateExpression} {acc : ℤ}

/-- The column has values of the type. -/
def HasType (schema : Schema) (idx : ℤ) (type : TypeId) : Prop :=
  ∃ col, schema.getColumn idx = some col ∧ col.columnType = type

/-- The integer in a column, or the low word of a double. -/
def columnInteger (schema : Schema) (idx : ℤ) (tuple : Tuple) : ℤ :=
  ((getValue tuple.bytes schema idx).bind Value.getInteger).getD 0

/-- The double in a column. -/
def columnDecimal (schema : Schema) (idx : ℤ) (tuple : Tuple) : UInt64 :=
  ((getValue tuple.bytes schema idx).bind Value.getDecimal).getD 0

theorem getValue_integer (tuple : Tuple) (h : HasType schema idx .kInteger) :
    getValue tuple.bytes schema idx = some (.integer (columnInteger schema idx tuple)) ∧
    IsI32 (columnInteger schema idx tuple) := by
  obtain ⟨col, hcol, htype⟩ := h
  obtain ⟨i, hread, hi⟩ : ∃ i, getValue tuple.bytes schema idx = some (.integer i) ∧ IsI32 i := by
    refine ⟨_, ?_, Bytes.isI32_i32 (fun i => tupleMemory tuple.bytes (col.offset + i)) 0⟩
    rw [getValue_eq hcol, readColumn_eq (Column.hasBuffer_of_ne (by simp [htype])), htype, if_neg (by decide),
      Value.ofMemory]
  have hint : columnInteger schema idx tuple = i := by simp [columnInteger, hread, Value.getInteger]
  rw [hint]
  exact ⟨hread, hi⟩

theorem getValue_decimal (tuple : Tuple) (h : HasType schema idx .kDecimal) :
    getValue tuple.bytes schema idx = some (.decimal (columnDecimal schema idx tuple)) ∧
    columnInteger schema idx tuple = wrap32 (columnDecimal schema idx tuple).toNat := by
  obtain ⟨col, hcol, htype⟩ := h
  obtain ⟨d, hread⟩ : ∃ d, getValue tuple.bytes schema idx = some (.decimal d) := by
    rw [getValue_eq hcol, readColumn_eq (Column.hasBuffer_of_ne (by simp [htype])), htype, if_neg (by decide)]
    exact ⟨_, rfl⟩
  simp [columnInteger, columnDecimal, hread, Value.getInteger, Value.getDecimal]

theorem HasType.unique {type type' : TypeId} (h : HasType schema idx type) (h' : HasType schema idx type') :
    type = type' := by
  obtain ⟨col, hcol, rfl⟩ := h
  obtain ⟨col', hcol', rfl⟩ := h'
  rw [Option.some.inj (hcol.symm.trans hcol')]

theorem isI32_columnInteger (schema : Schema) (idx : ℤ) (tuple : Tuple) : IsI32 (columnInteger schema idx tuple) := by
  by_cases hint : HasType schema idx .kInteger
  · exact (getValue_integer tuple hint).2
  · by_cases hdec : HasType schema idx .kDecimal
    · rw [(getValue_decimal tuple hdec).2]
      exact isI32_wrap32 _
    · have hzero : columnInteger schema idx tuple = 0 := by
        rw [columnInteger]
        cases hcol : schema.getColumn idx with
        | none => simp [getValue, hcol]
        | some col =>
          rw [getValue_eq hcol]
          cases hread : readColumn col fun i => tupleMemory tuple.bytes (col.offset + i) with
          | none => rfl
          | some v =>
            cases v with
            | integer i => exact absurd ⟨col, hcol, (getTypeId_readColumn hread).symm⟩ hint
            | decimal d => exact absurd ⟨col, hcol, (getTypeId_readColumn hread).symm⟩ hdec
            | _ => rfl
      rw [hzero]
      decide

theorem performAggregation_integer (hval : e.val = .integer acc)
    (hcol : e.type ≠ .kCountAggregate → HasType schema e.aggIdx .kInteger) : e.performAggregation tuple schema =
      some { e with val := .integer (e.type.next acc (columnInteger schema e.aggIdx tuple)) } := by
  rw [AggregateExpression.performAggregation, hval, AggregationType.newVal_integer, some_bind]
  by_cases hcount : e.type = .kCountAggregate
  · exact Or.inl hcount
  · exact Or.inr ⟨_, (getValue_integer tuple (hcol hcount)).1, rfl, Or.inr rfl⟩

/-! ## The accumulator after the tuples -/

section Tuples

variable {agg : AggregationType × ℤ} {ts : List Tuple} {d : UInt64}

/-- The accumulator after the tuples. -/
def foldVals (schema : Schema) (agg : AggregationType × ℤ) (val : Value) (ts : List Tuple) : Option Value :=
  ts.foldlM (fun val t => agg.1.newVal val (getValue t.bytes schema agg.2)) val

theorem foldVals_cons (val : Value) (t : Tuple) (ts : List Tuple) : foldVals schema agg val (t :: ts) =
    (agg.1.newVal val (getValue t.bytes schema agg.2)).bind fun val => foldVals schema agg val ts :=
  List.foldlM_cons

/-- The accumulator stays an integer. -/
def AddsWords (schema : Schema) (agg : AggregationType × ℤ) : Prop :=
  agg.1 = .kCountAggregate ∨ HasType schema agg.2 .kInteger ∨ agg.1 = .kSumAggregate ∧ HasType schema agg.2 .kDecimal

/-- The accumulator is the same after the tuples have come a second time: what `COUNT` and `SUM` add up is zero in 32
bits, and a `MIN` or `MAX` of doubles has not passed over a better one. -/
def Repeats (schema : Schema) (agg : AggregationType × ℤ) (ts : List Tuple) : Prop :=
  (2^32 : ℤ) ∣ agg.1.total (ts.map (columnInteger schema agg.2)) ∧
  (agg.1.IsExtremum → HasType schema agg.2 .kDecimal → agg.1.KeepsExtremum (ts.map (columnDecimal schema agg.2)))

theorem newVal_addsWords (h : AddsWords schema agg) (acc : ℤ) (t : Tuple) :
    agg.1.newVal (.integer acc) (getValue t.bytes schema agg.2) =
      some (.integer (agg.1.next acc (columnInteger schema agg.2 t))) := by
  refine AggregationType.newVal_integer ?_
  rcases h with hcount | hint | ⟨hsum, hdec⟩
  · exact Or.inl hcount
  · exact Or.inr ⟨_, (getValue_integer t hint).1, rfl, Or.inr rfl⟩
  · obtain ⟨hget, hword⟩ := getValue_decimal t hdec
    exact Or.inr ⟨_, hget, congrArg some hword.symm, Or.inl hsum⟩

theorem foldVals_integer (h : AddsWords schema agg) (acc : ℤ) (ts : List Tuple) : foldVals schema agg (.integer acc) ts =
    some (.integer ((ts.map (columnInteger schema agg.2)).foldl agg.1.next acc)) := by
  induction ts generalizing acc with
  | nil => rfl
  | cons t ts ih =>
    rw [foldVals_cons, newVal_addsWords h, Option.bind_some, ih]
    rfl

theorem isI32_foldl_next {acc : ℤ} (hacc : IsI32 acc) (type : AggregationType) (ts : List Tuple) :
    IsI32 ((ts.map (columnInteger schema idx)).foldl type.next acc) := by
  refine List.foldlRecOn _ _ (motive := IsI32) hacc fun b hb x hx => isI32_next hb ?_
  obtain ⟨t, -, rfl⟩ := List.mem_map.mp hx
  exact isI32_columnInteger _ _ t

section Decimals

variable (htype : agg.1.IsExtremum) (hcol : HasType schema agg.2 .kDecimal)
include htype hcol

theorem foldVals_decimal (d : UInt64) (ts : List Tuple) : foldVals schema agg (.decimal d) ts =
    some (.decimal ((ts.map (columnDecimal schema agg.2)).foldl (pick agg.1.Better) d)) := by
  induction ts generalizing d with
  | nil => rfl
  | cons t ts ih =>
    rw [foldVals_cons, (getValue_decimal t hcol).1, AggregationType.newVal_decimal htype, Option.bind_some, ih]
    rfl

theorem foldVals_first (ts : List Tuple) : foldVals schema agg (.integer agg.1.start) ts =
    some (match (ts.map (columnDecimal schema agg.2)).dropWhile agg.1.passes with
      | [] => .integer agg.1.start
      | d :: rest => .decimal (rest.foldl (pick agg.1.Better) d)) := by
  induction ts with
  | nil => rfl
  | cons t ts ih =>
    rw [foldVals_cons, (getValue_decimal t hcol).1, AggregationType.newVal_first htype, Option.bind_some,
      List.map_cons]
    by_cases hpass : agg.1.passes (columnDecimal schema agg.2 t) = true
    · rw [if_pos hpass, List.dropWhile_cons_of_pos hpass]
      exact ih
    · rw [if_neg hpass, List.dropWhile_cons_of_neg hpass]
      exact foldVals_decimal htype hcol _ ts

end Decimals

/-- A value that an accumulator can have. -/
def IsAccumulator (schema : Schema) (agg : AggregationType × ℤ) (val : Value) : Prop :=
  (∃ i, val = .integer i ∧ IsI32 i) ∨ (∃ d, val = .decimal d) ∧ agg.1.IsExtremum ∧ HasType schema agg.2 .kDecimal

/-- The accumulator of an aggregate that the executor accepts, after the tuples and after they have come once more. -/
theorem exists_foldVals_twice (hcol : agg.1 = .kCountAggregate ∨ HasType schema agg.2 .kInteger ∨
    HasType schema agg.2 .kDecimal) (ts : List Tuple) :
    ∃ v w, foldVals schema agg (.integer agg.1.start) ts = some v ∧ foldVals schema agg v ts = some w ∧
      IsAccumulator schema agg v ∧ IsAccumulator schema agg w ∧ v.getTypeId = w.getTypeId ∧
      (w = v ↔ Repeats schema agg ts) := by
  by_cases hadds : AddsWords schema agg
  · have hi : IsI32 ((ts.map (columnInteger schema agg.2)).foldl agg.1.next agg.1.start) :=
      isI32_foldl_next (isI32_start agg.1) agg.1 ts
    refine ⟨_, _, foldVals_integer hadds _ ts, foldVals_integer hadds _ ts, .inl ⟨_, rfl, hi⟩,
      .inl ⟨_, rfl, isI32_foldl_next hi agg.1 ts⟩, rfl, ?_⟩
    rw [Value.integer.injEq, foldl_next_twice_iff, Repeats, iff_self_and]
    rintro - (h | h) hdec <;> rcases hadds with h' | h' | ⟨h', -⟩
    all_goals first | exact absurd (h.symm.trans h') (by decide) | exact absurd (hdec.unique h') (by decide)
  · obtain ⟨htype, hdec⟩ : agg.1.IsExtremum ∧ HasType schema agg.2 .kDecimal := by
      simp only [AddsWords, not_or, not_and] at hadds
      obtain ⟨hcount, hint, hsum⟩ := hadds
      have hdec := (hcol.resolve_left hcount).resolve_left hint
      refine ⟨?_, hdec⟩
      cases h : agg.1 with
      | kCountAggregate => exact absurd h hcount
      | kSumAggregate => exact absurd hdec (hsum h)
      | kMinAggregate => exact Or.inl rfl
      | kMaxAggregate => exact Or.inr rfl
    have htotal : agg.1.total (ts.map (columnInteger schema agg.2)) = 0 := by
      rcases htype with h | h <;> rw [h] <;> rfl
    simp only [Repeats, htotal, dvd_zero, true_and, htype, hdec, forall_const]
    have hfirst := foldVals_first htype hdec ts
    cases hdrop : (ts.map (columnDecimal schema agg.2)).dropWhile agg.1.passes with
    | nil =>
      rw [hdrop] at hfirst
      refine ⟨_, _, hfirst, hfirst, .inl ⟨_, rfl, isI32_start _⟩, .inl ⟨_, rfl, isI32_start _⟩, rfl, ?_⟩
      refine iff_of_true rfl fun d rest h => ?_
      rw [hdrop] at h
      cases h
    | cons d rest =>
      rw [hdrop] at hfirst
      refine ⟨_, _, hfirst, foldVals_decimal htype hdec _ ts, .inr ⟨⟨_, rfl⟩, htype, hdec⟩,
        .inr ⟨⟨_, rfl⟩, htype, hdec⟩, rfl, ?_⟩
      rw [Value.decimal.injEq]
      exact AggregationType.foldl_better_eq_iff hdrop

end Tuples

/-! ## Types -/

/-- Every operation on the way is applied to two values of the type, and every value that `evaluate` returns has it. -/
def WellTyped (schema : Schema) (type : TypeId) : AggregateExpression → List Tuple → Prop
  | _, [] => True
  | e, tuple :: rest => e.val.getTypeId = type ∧
    (∃ v, getValue tuple.bytes schema e.aggIdx = some v ∧ v.getTypeId = type) ∧
    ∃ e', e.performAggregation tuple schema = some e' ∧ e'.val.getTypeId = type ∧ WellTyped schema type e' rest

theorem wellTyped_integer (tuples : List Tuple) (hval : e.val = .integer acc)
    (hcol : HasType schema e.aggIdx .kInteger) : WellTyped schema .kInteger e tuples := by
  induction tuples generalizing e acc with
  | nil => trivial
  | cons tuple rest ih =>
    refine ⟨by rw [hval]; rfl, ⟨_, (getValue_integer tuple hcol).1, rfl⟩, _,
      performAggregation_integer hval fun _ => hcol, rfl, ?_⟩
    exact @ih _ _ rfl hcol

/-- An aggregate keeps to the type of its column exactly if that is `INTEGER`. -/
theorem aggregate_types_iff (type : AggregationType) {colType : TypeId} (hcol : HasType schema idx colType)
    {tuples : List Tuple} (hne : tuples ≠ []) :
    WellTyped schema colType (.new type idx) tuples ↔ colType = .kInteger := by
  constructor
  · intro h
    cases tuples with
    | nil => exact absurd rfl hne
    | cons tuple rest => exact h.1.symm
  · rintro rfl
    exact wellTyped_integer tuples rfl hcol

/-- A column of the type. -/
def oneColumnSchema (type : TypeId) : Schema := { columns := [.ofType type [97] 0] }

theorem hasType_oneColumnSchema (type : TypeId) : HasType (oneColumnSchema type) 0 type := ⟨_, rfl, rfl⟩

/-- The sum of a column with the integer 1. -/
theorem aggregate_types_iff_one : HasType (oneColumnSchema .kInteger) 0 .kInteger ∧
    (WellTyped (oneColumnSchema .kInteger) .kInteger (.new .kSumAggregate 0) [.ofBytes {} [1, 0, 0, 0]] ↔
      TypeId.kInteger = .kInteger) :=
  ⟨hasType_oneColumnSchema .kInteger,
    aggregate_types_iff .kSumAggregate (hasType_oneColumnSchema .kInteger) (by simp)⟩

/-- The minimum of a column with the double 1.0: the accumulator is an `INTEGER`, and its `Type` compares it with the
double. -/
theorem decimal_minimum_is_mistyped : HasType (oneColumnSchema .kDecimal) 0 .kDecimal ∧
    (AggregateExpression.new .kMinAggregate 0).val.getTypeId = .kInteger ∧
    getValue [0, 0, 0, 0, 0, 0, 240, 63] (oneColumnSchema .kDecimal) 0 = some (.decimal 0x3FF0000000000000) ∧
    ¬ WellTyped (oneColumnSchema .kDecimal) .kDecimal (.new .kMinAggregate 0)
      [.ofBytes {} [0, 0, 0, 0, 0, 0, 240, 63]] :=
  ⟨hasType_oneColumnSchema .kDecimal, rfl, by decide, fun h => absurd h.1 (by decide)⟩

end Column

end Dawn
