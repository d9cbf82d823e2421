import Dawn.Lib.Pulls
import Dawn.Table.Table

/-!
# Selections

`SelectionExecutor` of `src/executors/selection_executor.cpp`, and the expressions that it evaluates
(`src/include/sql/expressions`) with the comparisons of the types (`src/include/data`). `get_next` asks the child for
tuples until one makes the predicate true, so that a selection returns the tuples of its child for which the predicate
holds, provided that it can be evaluated for all of them (`getNext_pulls_iff`).

A comparison is that of the type of its left value. `Boolean` has no order and `Char` no comparison at all: their
functions return `kFalse` there. So the tuples for which a comparison holds and those for which its complement holds
need not be all tuples (`selection_partitions_iff`).
-/

namespace Dawn

/-- `ComparisonType`. -/
inductive ComparisonType
  | kEqual | kNotEqual | kLessThan | kLessThanOrEqual | kGreaterThan | kGreaterThanOrEqual
  deriving DecidableEq, Repr

/-- The comparisons of `Integer`. -/
def Integer.cmp (a b : ℤ) : ComparisonType → Bool
  | .kEqual => a == b
  | .kNotEqual => !(a == b)
  | .kLessThan => a < b
  | .kLessThanOrEqual => a ≤ b
  | .kGreaterThan => b < a
  | .kGreaterThanOrEqual => b ≤ a

/-- The comparisons of `Decimal`. -/
def Decimal.cmp (a b : UInt64) : ComparisonType → Bool
  | .kEqual => decimalEq a b
  | .kNotEqual => !decimalEq a b
  | .kLessThan => decimalLess a b
  | .kLessThanOrEqual => decimalLessEq a b
  | .kGreaterThan => decimalLess b a
  | .kGreaterThanOrEqual => decimalLessEq b a

/-- `perform_cmp`. A right value of another type is read as one of the type of the left value, which is `none` here,
and so is a left value without a type. The functions of `Char`, and those of `Boolean` for the orders, read neither. -/
def performCmp (cmpType : ComparisonType) (lhs rhs : Value) : Option Bool :=
  match lhs, rhs, cmpType with
  | .boolean a, .boolean b, .kEqual => some (a == b)
  | .boolean a, .boolean b, .kNotEqual => some (!(a == b))
  | .boolean _, _, .kEqual => none
  | .boolean _, _, .kNotEqual => none
  | .boolean _, _, _ => some false
  | .integer a, .integer b, cmpType => some (Integer.cmp a b cmpType)
  | .decimal a, .decimal b, cmpType => some (Decimal.cmp a b cmpType)
  | .char _, _, _ => some false
  | _, _, _ => none

/-- `ExpressionAbstract` and its classes. A `ComparisonExpression` has a list of children, of which it evaluates the
first two. -/
inductive Expression
  | constant (val : Value)
  | columnValue (colIdx : ℤ)
  | comparison (lhs rhs : Expression) (cmpType : ComparisonType)
  deriving DecidableEq, Repr

/-- `evaluate`. -/
def Expression.evaluate (tuple : Tuple) (schema : Schema) : Expression → Option Value
  | .constant val => some val
  | .columnValue colIdx => getValue tuple.bytes schema colIdx
  | .comparison lhs rhs cmpType => do
    let lhs ← lhs.evaluate tuple schema
    let rhs ← rhs.evaluate tuple schema
    let result ← performCmp cmpType lhs rhs
    some (.boolean result)

namespace SelectionExecutor

variable {σ : Type} (child : σ → Option (Option Tuple × σ)) (predicate : Expression) (schema : Schema)

/-- `get_next`: the tuple, or nothing where it returns false. -/
def getNext (s : σ) : Option (Option Tuple × σ) := do
  match ← child s with
  | (none, s) => some (none, s)
  | (some tuple, s) =>
    let result ← predicate.evaluate tuple schema
    if result.opEq (.boolean true) then some (some tuple, s)
    else (by apply getNext : σ → _) s
partial_fixpoint

/-- The predicate is true. -/
def Accepts (tuple : Tuple) : Prop := predicate.evaluate tuple schema = some (.boolean true)

instance (tuple : Tuple) : Decidable (Accepts predicate schema tuple) := inferInstanceAs (Decidable (_ = _))

variable {child predicate schema} {s s' t : σ} {ts out : List Tuple} {tuple : Tuple} {v : Value}

theorem opEq_true_iff : v.opEq (.boolean true) = true ↔ v = .boolean true := by
  cases v <;> simp [Value.opEq]

theorem getNext_of_end (h : child s = some (none, t)) : getNext child predicate schema s = some (none, t) := by
  rw [getNext, h, some_bind]

theorem getNext_of_tuple (h : child s = some (some tuple, t)) : getNext child predicate schema s =
    (predicate.evaluate tuple schema).bind fun v =>
      if v = .boolean true then some (some tuple, t) else getNext child predicate schema t := by
  rw [getNext, h, some_bind]
  simp only [opEq_true_iff]
  rfl

/-- A selection over a child with the given tuples ends exactly if the predicate can be evaluated for all of them, and
returns those for which it is true. -/
theorem getNext_pulls_iff (h : Pulls child s ts s') :
    Pulls (getNext child predicate schema) s out t ↔
      (∀ tuple ∈ ts, predicate.evaluate tuple schema ≠ none) ∧ out = ts.filter (Accepts predicate schema) ∧ t = s' := by
  -- The induction is on the tuples of the child: a call of the selection uses up one of them or more.
  induction ts generalizing s out with
  | nil =>
    have hend : Pulls (getNext child predicate schema) s [] s' := getNext_of_end h
    constructor
    · intro hp
      obtain ⟨rfl, rfl⟩ := hp.unique hend
      exact ⟨by simp, rfl, rfl⟩
    · rintro ⟨-, rfl, rfl⟩
      exact hend
  | cons tuple ts ih =>
    obtain ⟨u, hu, hts⟩ := h
    have hnext : getNext child predicate schema s = _ := getNext_of_tuple hu
    cases hv : predicate.evaluate tuple schema with
    | none =>
      -- The call for this tuple does not return.
      rw [hv, Option.bind_none] at hnext
      refine iff_of_false (fun hp => ?_) (by simp [hv])
      cases out with
      | nil => cases hnext.symm.trans hp
      | cons => cases hnext.symm.trans hp.choose_spec.1
    | some v =>
      rw [hv, Option.bind_some] at hnext
      split_ifs at hnext with htrue
      · have hacc : Accepts predicate schema tuple := hv.trans (by rw [htrue])
        rw [List.forall_mem_cons, List.filter_cons_of_pos (by simpa using hacc)]
        cases out with
        | nil => simp [Pulls, hnext]
        | cons b out =>
          constructor
          · rintro ⟨w, hw, hp⟩
            obtain ⟨hb, rfl⟩ := some_mk_inj (hnext.symm.trans hw)
            obtain ⟨hall, rfl, rfl⟩ := (ih hts).mp hp
            exact ⟨⟨by simp [hv], hall⟩, by rw [Option.some.inj hb], rfl⟩
          · rintro ⟨⟨-, hall⟩, hout, rfl⟩
            obtain ⟨rfl, rfl⟩ := List.cons.inj hout
            exact ⟨u, hnext, (ih hts).mpr ⟨hall, rfl, rfl⟩⟩
      · have hacc : ¬ Accepts predicate schema tuple := fun ha => htrue (Option.some.inj (hv.symm.trans ha))
        rw [Pulls.congr hnext, ih hts, List.forall_mem_cons, List.filter_cons_of_neg (by simpa using hacc)]
        simp [hv]

end SelectionExecutor

/-! ## Comparisons and their complements -/

/-- The comparison that holds where the other one does not. -/
def ComparisonType.complement : ComparisonType → ComparisonType
  | .kEqual => .kNotEqual
  | .kNotEqual => .kEqual
  | .kLessThan => .kGreaterThanOrEqual
  | .kLessThanOrEqual => .kGreaterThan
  | .kGreaterThan => .kLessThanOrEqual
  | .kGreaterThanOrEqual => .kLessThan

/-- The comparison is one of the four of an order. -/
def ComparisonType.IsOrder (cmpType : ComparisonType) : Prop := cmpType ≠ .kEqual ∧ cmpType ≠ .kNotEqual

/-- The values can be compared: strings cannot, booleans have no order, and NaNs are not in the order of the doubles. -/
def Comparable (cmpType : ComparisonType) : Value → Value → Prop
  | .integer _, .integer _ => True
  | .decimal a, .decimal b => cmpType.IsOrder → decimalIsNaN a = false ∧ decimalIsNaN b = false
  | .boolean _, .boolean _ => ¬ cmpType.IsOrder
  | _, _ => False

variable {cmpType : ComparisonType} {a b : Value} {d e : UInt64}

theorem decimalLess_complement : (decimalLess d e && decimalLessEq e d) = false ∧
    ((decimalLess d e || decimalLessEq e d) = true ↔ decimalIsNaN d = false ∧ decimalIsNaN e = false) := by
  simp only [decimalLess, decimalLessEq]
  cases decimalIsNaN d <;> cases decimalIsNaN e <;> simp [lt_or_ge]

theorem performCmp_complement (cmpType : ComparisonType) (h : a.getTypeId = b.getTypeId) (hne : a ≠ .invalid) :
    ∃ x y, performCmp cmpType a b = some x ∧ performCmp cmpType.complement a b = some y ∧ (x && y) = false ∧
      ((x || y) = true ↔ Comparable cmpType a b) := by
  cases a <;> cases b <;> simp only [Value.getTypeId, reduceCtorEq, ne_eq, not_true_eq_false] at h hne
  case boolean.boolean a b =>
    cases cmpType <;>
      simp [performCmp, ComparisonType.complement, Comparable, ComparisonType.IsOrder, em, or_comm]
  case integer.integer a b =>
    refine ⟨_, _, rfl, rfl, ?_⟩
    cases cmpType <;> simp [Integer.cmp, ComparisonType.complement, Comparable, lt_or_ge, le_or_gt]
  case decimal.decimal d e =>
    refine ⟨_, _, rfl, rfl, ?_⟩
    have hless := @decimalLess_complement d e
    have hgreater := @decimalLess_complement e d
    cases cmpType <;>
      simp_all [Decimal.cmp, ComparisonType.complement, Comparable, ComparisonType.IsOrder, Bool.and_comm, Bool.or_comm,
        and_comm]
  case char.char => exact ⟨false, false, rfl, rfl, by simp [Comparable]⟩

theorem filter_append_perm_iff {α : Type} {l : List α} {p q : α → Bool} (hpq : ∀ x ∈ l, (p x && q x) = false) :
    (l.filter p ++ l.filter q).Perm l ↔ ∀ x ∈ l, (p x || q x) = true := by
  constructor
  · intro h x hx
    have hmem := h.mem_iff.mpr hx
    rw [List.mem_append, List.mem_filter, List.mem_filter] at hmem
    exact Bool.or_eq_true_iff.mpr (hmem.imp And.right And.right)
  · intro h
    have hq : l.filter q = l.filter fun x => !p x := List.filter_congr fun x hx => by
      have h1 := hpq x hx
      have h2 := h x hx
      revert h1 h2
      cases p x <;> cases q x <;> simp
    rw [hq]
    exact List.filter_append_perm p l

namespace SelectionExecutor

variable {σ : Type} {child : σ → Option (Option Tuple × σ)} {schema : Schema} {s s' : σ} {ts : List Tuple}
  {lhs rhs : Expression}

theorem accepts_comparison {tuple : Tuple} {x : Bool} (ha : lhs.evaluate tuple schema = some a)
    (hb : rhs.evaluate tuple schema = some b) (hx : performCmp cmpType a b = some x) :
    (Expression.comparison lhs rhs cmpType).evaluate tuple schema = some (.boolean x) := by
  simp only [Expression.evaluate, ha, hb, hx, some_bind]

/-- Of tuples for which the two sides have values of one type, a selection by a comparison and one by its complement
return all, each of them once, exactly if the values can be compared. -/
theorem selection_partitions_iff (cmpType : ComparisonType) (h : Pulls child s ts s')
    (htype : ∀ tuple ∈ ts, ∃ a b, lhs.evaluate tuple schema = some a ∧ rhs.evaluate tuple schema = some b ∧
      a.getTypeId = b.getTypeId ∧ a ≠ .invalid) :
    ∃ out out', Pulls (getNext child (.comparison lhs rhs cmpType) schema) s out s' ∧
      Pulls (getNext child (.comparison lhs rhs cmpType.complement) schema) s out' s' ∧
      ((out ++ out').Perm ts ↔ ∀ tuple ∈ ts, ∃ a b, lhs.evaluate tuple schema = some a ∧
        rhs.evaluate tuple schema = some b ∧ Comparable cmpType a b) := by
  -- What the two comparisons give for a tuple.
  have hcmp : ∀ tuple ∈ ts, ∃ a b x y, lhs.evaluate tuple schema = some a ∧ rhs.evaluate tuple schema = some b ∧
      (Expression.comparison lhs rhs cmpType).evaluate tuple schema = some (.boolean x) ∧
      (Expression.comparison lhs rhs cmpType.complement).evaluate tuple schema = some (.boolean y) ∧
      (x && y) = false ∧ ((x || y) = true ↔ Comparable cmpType a b) := by
    intro tuple ht
    obtain ⟨a, b, ha, hb, hab, hne⟩ := htype tuple ht
    obtain ⟨x, y, hx, hy, hxy, hor⟩ := performCmp_complement cmpType hab hne
    exact ⟨a, b, x, y, ha, hb, accepts_comparison ha hb hx, accepts_comparison ha hb hy, hxy, hor⟩
  refine ⟨_, _, (getNext_pulls_iff h).mpr ⟨fun tuple ht => ?_, rfl, rfl⟩,
    (getNext_pulls_iff h).mpr ⟨fun tuple ht => ?_, rfl, rfl⟩, ?_⟩
  · obtain ⟨a, b, x, y, -, -, hx, -⟩ := hcmp tuple ht
    simp [hx]
  · obtain ⟨a, b, x, y, -, -, -, hy, -⟩ := hcmp tuple ht
    simp [hy]
  rw [filter_append_perm_iff]
  · refine forall₂_congr fun tuple ht => ?_
    obtain ⟨a, b, x, y, ha, hb, hx, hy, -, hor⟩ := hcmp tuple ht
    simpa [Accepts, hx, hy, ha, hb] using hor
  · intro tuple ht
    obtain ⟨a, b, x, y, -, -, hx, hy, hxy, -⟩ := hcmp tuple ht
    simpa [Accepts, hx, hy] using hxy

/-- A child that returns the tuples of a list. -/
def nextOf (l : List Tuple) : Option (Option Tuple × List Tuple) := some (l.head?, l.tail)

theorem pulls_nextOf (l : List Tuple) : Pulls nextOf l l [] := by
  induction l with
  | nil => rfl
  | cons tuple l ih => exact ⟨l, rfl, ih⟩

/-- Of `(1, 2)` and `(2, 1)` one ascends and one does not. -/
theorem selection_partitions_pair : ∃ out out',
    Pulls (getNext nextOf (.comparison (.columnValue 0) (.columnValue 1) .kLessThan) pairSchema)
      [pairTuple 1 2, pairTuple 2 1] out [] ∧
    Pulls (getNext nextOf (.comparison (.columnValue 0) (.columnValue 1) .kGreaterThanOrEqual) pairSchema)
      [pairTuple 1 2, pairTuple 2 1] out' [] ∧ (out ++ out').Perm [pairTuple 1 2, pairTuple 2 1] := by
  have hvalues : ∀ tuple ∈ [pairTuple 1 2, pairTuple 2 1], ∃ a b : ℤ,
      (Expression.columnValue 0).evaluate tuple pairSchema = some (.integer a) ∧
      (Expression.columnValue 1).evaluate tuple pairSchema = some (.integer b) := by
    rw [List.forall_mem_cons, List.forall_mem_singleton]
    exact ⟨⟨1, 2, by decide, by decide⟩, ⟨2, 1, by decide, by decide⟩⟩
  obtain ⟨out, out', h, h', hperm⟩ := selection_partitions_iff .kLessThan (pulls_nextOf _) fun tuple ht =>
    have ⟨a, b, ha, hb⟩ := hvalues tuple ht
    ⟨_, _, ha, hb, rfl, by simp⟩
  refine ⟨out, out', h, h', hperm.mpr fun tuple ht => ?_⟩
  obtain ⟨a, b, ha, hb⟩ := hvalues tuple ht
  exact ⟨_, _, ha, hb, trivial⟩

end SelectionExecutor

end Dawn
