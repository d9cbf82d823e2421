import Dawn.Util.Config

/-!
# Values

`Value` of `src/include/data/values.h` and `src/data/values.cpp`: a boolean, a 32-bit integer, an
IEEE 754 double (by its bits), or a string. A string value owns a buffer of `str_len_ + 1` bytes that
ends in a terminator, so it is the list of its `str_len_` bytes here. Those bytes may hold further
terminators: a value read from a `CHAR(n)` column has `str_len_ = n` whatever string it holds.

`operator==` compares the C strings and `get_hash_value` hashes the `str_len_` bytes. So two equal
values may hash differently; `getHashValue_eq_iff` says when they do not.
-/

namespace Dawn

/-- `TypeId`. -/
inductive TypeId
  | kInvalid | kBoolean | kInteger | kDecimal | kChar
  deriving DecidableEq, Repr

/-- `Type::get_type_size`. -/
def TypeId.getTypeSize : TypeId → ℤ
  | .kBoolean => booleanTSize
  | .kInteger => integerTSize
  | .kDecimal => decimalTSize
  | _ => -1

/-- `Value`. -/
inductive Value
  | invalid
  | boolean (b : Bool)
  | integer (i : ℤ)
  /-- A double, by its bits. -/
  | decimal (bits : UInt64)
  /-- A string, by the `str_len_` bytes before the final terminator. -/
  | char (s : List UInt8)
  deriving DecidableEq, Repr

/-! ## Doubles -/

/-- The bits of a double are those of a NaN. -/
def decimalIsNaN (d : UInt64) : Bool :=
  d &&& 0x7FF0000000000000 == 0x7FF0000000000000 && d &&& 0x000FFFFFFFFFFFFF != 0

/-- The bits of a double are those of a zero, of either sign. -/
def decimalIsZero (d : UInt64) : Bool := d == 0 || d == 0x8000000000000000

/-- `==` on doubles: NaNs are equal to nothing, and the two zeros are equal. -/
def decimalEq (d e : UInt64) : Bool :=
  !decimalIsNaN d && !decimalIsNaN e && (d == e || (decimalIsZero d && decimalIsZero e))

/-- The sign bit of a double. -/
def decimalSign (d : UInt64) : Bool := d >>> 63 == 1

/-- Where a double is among the others, NaNs apart: the two zeros are in one place. -/
def decimalRank (d : UInt64) : ℤ :=
  if decimalSign d then -(d.toNat % 2^63 : ℕ) else (d.toNat % 2^63 : ℕ)

/-- `<` on doubles: a NaN is below nothing, and nothing is below it. -/
def decimalLess (d e : UInt64) : Bool := !decimalIsNaN d && !decimalIsNaN e && decide (decimalRank d < decimalRank e)

/-- `<=` on doubles. -/
def decimalLessEq (d e : UInt64) : Bool := !decimalIsNaN d && !decimalIsNaN e && decide (decimalRank d ≤ decimalRank e)

/-- The eight bytes of a double in memory. -/
def decimalBytes (d : UInt64) : List UInt8 :=
  (List.range 8).map fun i => (d >>> UInt64.ofNat (8 * i)).toUInt8

/-- The double at `off`. -/
def decimalAt (m : Bytes) (off : ℤ) : UInt64 :=
  (List.range 8).foldr (fun i acc => acc <<< 8 ||| (m (off + (i : ℕ))).toUInt64) 0

variable {d e : UInt64} {a b : Value}

section

variable (h : decimalEq d e = true)
include h

theorem eq_or_decimalIsZero :
    d = e ∨ decimalIsZero d = true ∧ decimalIsZero e = true := by
  simp only [decimalEq, Bool.and_eq_true, Bool.or_eq_true, beq_iff_eq] at h
  exact h.2

theorem decimalEq_symm : decimalEq e d = true := by
  simp only [decimalEq, Bool.and_eq_true, Bool.or_eq_true, beq_iff_eq] at h ⊢
  exact ⟨⟨h.1.2, h.1.1⟩, h.2.imp Eq.symm And.symm⟩

theorem decimalEq_trans {f : UInt64} (h' : decimalEq e f = true) :
    decimalEq d f = true := by
  simp only [decimalEq, Bool.and_eq_true, Bool.or_eq_true, beq_iff_eq] at h h' ⊢
  refine ⟨⟨h.1.1, h'.1.2⟩, ?_⟩
  rcases h.2 with rfl | ⟨hd, he⟩
  · exact h'.2
  · rcases h'.2 with rfl | ⟨-, hf⟩
    · exact Or.inr ⟨hd, he⟩
    · exact Or.inr ⟨hd, hf⟩

theorem eq_of_decimalEq_of_decimalSign
    (hs : decimalSign d = decimalSign e) : d = e := by
  rcases eq_or_decimalIsZero h with rfl | ⟨hd, he⟩
  · rfl
  · simp only [decimalIsZero, Bool.or_eq_true, beq_iff_eq] at hd he
    rcases hd with rfl | rfl <;> rcases he with rfl | rfl
    · rfl
    · exact absurd hs (by decide)
    · exact absurd hs (by decide)
    · rfl

theorem eq_of_decimalEq_of_decimalBytes
    (hb : decimalBytes d = decimalBytes e) : d = e := by
  rcases eq_or_decimalIsZero h with rfl | ⟨hd, he⟩
  · rfl
  · simp only [decimalIsZero, Bool.or_eq_true, beq_iff_eq] at hd he
    rcases hd with rfl | rfl <;> rcases he with rfl | rfl
    · rfl
    · exact absurd hb (by decide)
    · exact absurd hb (by decide)
    · rfl

end

theorem shiftLeft_or_toUInt8 (x : UInt64) : (x >>> 8) <<< 8 ||| x.toUInt8.toUInt64 = x := by
  apply UInt64.toNat_inj.mp
  have hx : x.toNat < 2^64 := x.toNat_lt
  have hshift : ((x >>> 8) <<< 8).toNat = x.toNat / 2^8 * 2^8 := by
    simp [Nat.shiftRight_eq_div_pow, Nat.shiftLeft_eq]
    omega
  have hbyte : x.toUInt8.toUInt64.toNat = x.toNat % 2^8 := by simp
  rw [UInt64.toNat_or, hshift, hbyte, ← Nat.shiftLeft_eq,
    ← Nat.shiftLeft_add_eq_or_of_lt (Nat.mod_lt _ (by decide)), Nat.shiftLeft_eq]
  omega

theorem decimalAt_eq {m : Bytes}
    (h : ∀ i : ℕ, i < 8 → m i = (d >>> UInt64.ofNat (8 * i)).toUInt8) : decimalAt m 0 = d := by
  have hshift : ∀ i : ℕ, i < 7 →
      d >>> UInt64.ofNat (8 * (i + 1)) = (d >>> UInt64.ofNat (8 * i)) >>> 8 := by
    intro i hi
    apply UInt64.toNat_inj.mp
    interval_cases i <;> simp [← Nat.shiftRight_add]
  have hstep : ∀ i : ℕ, i < 7 → (d >>> UInt64.ofNat (8 * (i + 1))) <<< 8 ||| (m (0 + (i : ℕ))).toUInt64 =
      d >>> UInt64.ofNat (8 * i) := by
    intro i hi
    rw [hshift i hi, zero_add, h i (by omega), shiftLeft_or_toUInt8]
  have htop : (0 : UInt64) <<< 8 ||| (m (0 + (7 : ℕ))).toUInt64 = d >>> UInt64.ofNat (8 * 7) := by
    rw [zero_add, h 7 (by decide), show (0 : UInt64) = (d >>> UInt64.ofNat (8 * 7)) >>> 8 by
      apply UInt64.toNat_inj.mp
      have := d.toNat_lt
      simp [Nat.shiftRight_eq_div_pow]
      omega, shiftLeft_or_toUInt8]
  rw [decimalAt, show List.range 8 = [0, 1, 2, 3, 4, 5, 6, 7] by decide]
  simp only [List.foldr_cons, List.foldr_nil]
  rw [htop, hstep 6 (by decide), hstep 5 (by decide), hstep 4 (by decide), hstep 3 (by decide),
    hstep 2 (by decide), hstep 1 (by decide), hstep 0 (by decide)]
  simp

/-! ## Constructors, comparison, and hash -/

namespace Value

/-- `Value(const char*)`, from the bytes at the pointer. -/
def ofCString (s : List UInt8) : Value := char (cStr s)

/-- `Value(const string_t&)`. -/
def ofString (s : List UInt8) : Value := char s

/-- `Value(char *value, TypeId type_id, size_t_ str_size)`, from the memory at the pointer. A string
is copied up to its terminator, which lies within `str_size + 1` bytes, into a zeroed buffer of
`str_size + 1` bytes. There is no instance of `Type` for `kInvalid`. -/
def ofMemory (m : Bytes) (typeId : TypeId) (strSize : ℤ) : Option Value :=
  match typeId with
  | .kInvalid => none
  | .kBoolean => some (boolean (m 0 != 0))
  | .kInteger => some (integer (m.i32 0))
  | .kDecimal => some (decimal (decimalAt m 0))
  | .kChar =>
    let s := m.cString 0 (strSize.toNat + 1)
    some (char (s ++ List.replicate (strSize.toNat - s.length) 0))

/-- `get_type_id`. -/
def getTypeId : Value → TypeId
  | invalid => .kInvalid
  | boolean _ => .kBoolean
  | integer _ => .kInteger
  | decimal _ => .kDecimal
  | char _ => .kChar

/-- `operator==`. -/
def opEq : Value → Value → Bool
  | boolean a, boolean b => a == b
  | integer a, integer b => a == b
  | decimal a, decimal b => decimalEq a b
  | char a, char b => cStr a == cStr b
  | _, _ => false

/-- The bytes that `get_hash_value` hashes: those of the union member, or `str_len_` bytes of the
string. -/
def hashBytes : Value → Option (List UInt8)
  | invalid => none
  | boolean b => some [if b then 1 else 0]
  | integer i => some (Bytes.toLE4 i)
  | decimal d => some (decimalBytes d)
  | char s => some s

/-- `get_hash_value`, for a `do_hash` that is a function of the bytes it is given. -/
def getHashValue (doHash : List UInt8 → UInt64) (v : Value) : UInt64 :=
  match v.hashBytes with
  | none => 0
  | some bs => doHash bs

/-! ## Equality -/

theorem getTypeId_eq_of_opEq (h : a.opEq b = true) : a.getTypeId = b.getTypeId := by
  cases a <;> cases b <;> simp_all [opEq, getTypeId]

theorem opEq_symm (h : a.opEq b = true) : b.opEq a = true := by
  cases a <;> cases b <;> simp only [opEq, Bool.false_eq_true, beq_iff_eq] at h ⊢
  · exact h.symm
  · exact h.symm
  · exact decimalEq_symm h
  · exact h.symm

theorem opEq_trans {c : Value} (h : a.opEq b = true) (h' : b.opEq c = true) : a.opEq c = true := by
  have hab := getTypeId_eq_of_opEq h
  have hbc := getTypeId_eq_of_opEq h'
  cases a <;> cases b <;> simp only [getTypeId, reduceCtorEq] at hab <;>
    cases c <;> simp only [getTypeId, reduceCtorEq] at hbc <;>
    simp only [opEq, Bool.false_eq_true, beq_iff_eq] at h h' ⊢
  · exact h.trans h'
  · exact h.trans h'
  · exact decimalEq_trans h h'
  · exact h.trans h'

theorem opEq_integer_iff {v : Value} {i : ℤ} : v.opEq (integer i) = true ↔ v = integer i := by
  cases v <;> simp [opEq]

/-! ## Equality and hash -/

/-- What `get_hash_value` reads and `operator==` does not is the same in both values: for strings,
`str_len_` and the bytes from the first terminator on; for doubles, the sign. -/
def SameImage : Value → Value → Prop
  | char s, char t => s.length = t.length ∧ s.drop (cStr s).length = t.drop (cStr t).length
  | decimal d, decimal e => decimalSign d = decimalSign e
  | _, _ => True

instance (a b : Value) : Decidable (SameImage a b) := by
  unfold SameImage
  split <;> infer_instance

theorem cStr_append_drop (s : List UInt8) : cStr s ++ s.drop (cStr s).length = s :=
  List.prefix_iff_eq_append.mp (List.takeWhile_prefix _)

theorem hashBytes_eq_iff (h : a.opEq b = true) : a.hashBytes = b.hashBytes ↔ SameImage a b := by
  cases a <;> cases b <;> simp only [opEq, Bool.false_eq_true, beq_iff_eq] at h
  case boolean.boolean => simp [hashBytes, SameImage, h]
  case integer.integer => simp [hashBytes, SameImage, h]
  case decimal.decimal d e =>
    simp only [hashBytes, SameImage, Option.some.injEq]
    constructor
    · intro hb
      rw [eq_of_decimalEq_of_decimalBytes h hb]
    · intro hs
      rw [eq_of_decimalEq_of_decimalSign h hs]
  case char.char s t =>
    simp only [hashBytes, SameImage, Option.some.injEq]
    constructor
    · rintro rfl
      exact ⟨rfl, rfl⟩
    · rintro ⟨-, hd⟩
      rw [← cStr_append_drop s, ← cStr_append_drop t, hd, h]

theorem getHashValue_eq_iff (h : a.opEq b = true) :
    (∀ doHash, a.getHashValue doHash = b.getHashValue doHash) ↔ SameImage a b := by
  rw [← hashBytes_eq_iff h]
  constructor
  · intro hall
    -- The hash that tells the bytes of `a` from all others.
    have h1 := hall fun bs => if some bs = a.hashBytes then 0 else 1
    unfold getHashValue at h1
    cases ha : a.hashBytes with
    | none => cases a <;> simp [hashBytes, opEq] at ha h
    | some bs =>
      cases hb : b.hashBytes with
      | none => cases b <;> cases a <;> simp [hashBytes, opEq] at hb h
      | some cs =>
        by_contra hne
        have hne' : ¬cs = bs := fun e => hne (by rw [e])
        simp [ha, hb, hne'] at h1
  · intro hb doHash
    unfold getHashValue
    rw [hb]

end Value

end Dawn
