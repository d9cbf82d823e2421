import Mathlib.Data.Int.Interval
import Mathlib.Data.List.Basic
import Mathlib.Tactic

/-!
# Byte memory

A pointer of a C++ program, seen from one buffer: `m i` is the byte at offset `i` from the pointer.
Offsets are integers, so that an access before or after the buffer is an access like any other: it
reads or changes the memory beside the buffer. Nothing is assumed about that memory.

`memcpy`, `memset`, and `memmove` are closures over the memory before them. A 32-bit signed integer
is stored little-endian (`i32`, `setI32`), and `i32_setI32` is its round trip. All other facts are
frame conditions: what a store leaves unchanged. They come from `read_congr` and `i32_congr`, which
say that a load depends on the bytes in its window only.
-/

namespace Dawn

/-- The bytes around a pointer: `m i` is the byte at offset `i`. -/
abbrev Bytes := ℤ → UInt8

/-- The C string in a buffer: the bytes before the first terminator. -/
def cStr (s : List UInt8) : List UInt8 := s.takeWhile (· ≠ 0)

/-- The balanced residue modulo `2^32`: the value a 32-bit signed integer takes on. -/
def wrap32 (x : ℤ) : ℤ := (BitVec.ofInt 32 x).toInt

/-- A value in the range of a 32-bit signed integer. -/
def IsI32 (x : ℤ) : Prop := -2^31 ≤ x ∧ x < 2^31

instance (x : ℤ) : Decidable (IsI32 x) := inferInstanceAs (Decidable (_ ∧ _))

variable {m src m' : Bytes} {off i off' v : ℤ} {len : ℕ}

theorem wrap32_eq_bmod (x : ℤ) : wrap32 x = x.bmod (2^32) := BitVec.toInt_ofInt x

theorem wrap32_of_isI32 {x : ℤ} (h : IsI32 x) : wrap32 x = x := by
  obtain ⟨h1, h2⟩ := h
  rw [wrap32_eq_bmod]
  exact Int.bmod_eq_of_le (by omega) (by omega)

theorem wrap32_neg {x : ℤ} (h1 : 2^31 ≤ x) (h2 : x < 2^32) : wrap32 x < 0 := by
  rw [wrap32_eq_bmod, Int.bmod_def]
  split_ifs <;> omega

theorem isI32_wrap32 (x : ℤ) : IsI32 (wrap32 x) := by
  have h1 := Int.le_bmod (x := x) (m := 2^32) (by norm_num)
  have h2 := Int.bmod_lt (x := x) (m := 2^32) (by norm_num)
  rw [wrap32_eq_bmod, IsI32]
  constructor <;> omega

namespace Bytes

/-! ## Loads and stores of byte strings -/

/-- The `len` bytes from `off` on. -/
def read (m : Bytes) (off : ℤ) (len : ℕ) : List UInt8 :=
  (List.range len).map fun i : ℕ => m (off + i)

/-- `memcpy(m + off, src, len)`, for a source in other memory. -/
def memcpy (m : Bytes) (off len : ℤ) (src : Bytes) : Bytes :=
  fun i => if off ≤ i ∧ i < off + len then src (i - off) else m i

/-- Store a byte string at `off`. -/
def write (m : Bytes) (off : ℤ) (src : List UInt8) : Bytes :=
  m.memcpy off src.length fun i => src.getD i.toNat 0

/-- `memset(m + off, c, len)`. -/
def memset (m : Bytes) (off : ℤ) (c : UInt8) (len : ℤ) : Bytes :=
  m.memcpy off len fun _ => c

/-- `memmove(m + dst, m + src, len)`: the source is read before the destination changes. -/
def memmove (m : Bytes) (dst src len : ℤ) : Bytes :=
  m.memcpy dst len fun i => m (src + i)

/-- The C string at `off`, cut off after `len` bytes when no terminator is found. -/
def cString (m : Bytes) (off : ℤ) (len : ℕ) : List UInt8 := cStr (m.read off len)

theorem memcpy_of_mem {len : ℤ} (h1 : off ≤ i)
    (h2 : i < off + len) : m.memcpy off len src i = src (i - off) :=
  if_pos ⟨h1, h2⟩

theorem memcpy_of_notMem {len : ℤ}
    (h : i < off ∨ off + len ≤ i) : m.memcpy off len src i = m i :=
  if_neg (by omega)

theorem write_of_notMem {src : List UInt8}
    (h : i < off ∨ off + src.length ≤ i) : m.write off src i = m i :=
  memcpy_of_notMem h

@[simp] theorem length_read (m : Bytes) (off : ℤ) (len : ℕ) : (m.read off len).length = len := by
  simp [read]

theorem getElem_read (m : Bytes) (off : ℤ) (len i : ℕ) (h : i < (m.read off len).length) :
    (m.read off len)[i] = m (off + i) := by
  simp [read]

theorem getD_read (m : Bytes) (off : ℤ) (len i : ℕ) (h : i < len) : (m.read off len).getD i 0 = m (off + i) := by
  rw [List.getD_eq_getElem?_getD, List.getElem?_eq_getElem (by simpa using h), getElem_read]
  rfl

theorem read_congr
    (h : ∀ i : ℕ, i < len → m (off + i) = m' (off' + i)) : m.read off len = m'.read off' len := by
  apply List.map_congr_left
  intro i hi
  exact h i (List.mem_range.mp hi)

theorem eq_of_read_eq
    (h : m.read off len = m'.read off' len) {i : ℕ} (hi : i < len) : m (off + i) = m' (off' + i) := by
  rw [← getD_read m off len i hi, h, getD_read m' off' len i hi]

theorem read_write (m : Bytes) (off : ℤ) (src : List UInt8) : (m.write off src).read off src.length = src := by
  apply List.ext_getElem (by simp)
  intro i h1 h2
  rw [getElem_read, write, memcpy_of_mem (by omega) (by omega)]
  rw [show (off + (i : ℤ) - off).toNat = i by omega, List.getD_eq_getElem?_getD,
    List.getElem?_eq_getElem h2]
  rfl

theorem read_add (m : Bytes) (off : ℤ) (a b : ℕ) : m.read off (a + b) = m.read off a ++ m.read (off + a) b := by
  unfold read
  rw [List.range_add, List.map_append, List.map_map]
  congr 1
  apply List.map_congr_left
  intro i _
  rw [Function.comp_apply]
  congr 1
  omega

theorem cString_eq {s : List UInt8}
    (h : m.read off (s.length + 1) = s ++ [0]) (h0 : 0 ∉ s) (hl : s.length < len) : m.cString off len = s := by
  unfold cString cStr
  rw [show len = s.length + 1 + (len - (s.length + 1)) by omega, read_add, h, List.append_assoc,
    List.takeWhile_append_of_pos]
  · simp
  · intro c hc
    have : c ≠ 0 := fun he => h0 (he ▸ hc)
    simpa using this

theorem read_write_of_disjoint {src : List UInt8}
    (h : off' + len ≤ off ∨ off + src.length ≤ off') : (m.write off src).read off' len = m.read off' len := by
  apply read_congr
  intro i hi
  exact write_of_notMem (by omega)

theorem read_memcpy_of_disjoint {len : ℤ} {len' : ℕ}
    (h : off' + len' ≤ off ∨ off + len ≤ off') : (m.memcpy off len src).read off' len' = m.read off' len' := by
  apply read_congr
  intro i hi
  exact memcpy_of_notMem (by omega)

/-! ## 32-bit signed integers -/

/-- The signed integer with the given little-endian bytes. -/
def ofLE4 (b0 b1 b2 b3 : UInt8) : ℤ :=
  wrap32 (b0.toNat + 2^8 * b1.toNat + 2^16 * b2.toNat + 2^24 * b3.toNat)

/-- The little-endian bytes of the residue of `v` modulo `2^32`. -/
def toLE4 (v : ℤ) : List UInt8 :=
  let u := (v % 2^32).toNat
  [UInt8.ofNat (u % 2^8), UInt8.ofNat (u / 2^8 % 2^8), UInt8.ofNat (u / 2^16 % 2^8),
    UInt8.ofNat (u / 2^24 % 2^8)]

/-- `*reinterpret_cast<int32_t*>(m + off)`. -/
def i32 (m : Bytes) (off : ℤ) : ℤ :=
  ofLE4 (m off) (m (off + 1)) (m (off + 2)) (m (off + 3))

/-- `*reinterpret_cast<int32_t*>(m + off) = v`. -/
def setI32 (m : Bytes) (off v : ℤ) : Bytes := m.write off (toLE4 v)

@[simp] theorem length_toLE4 (v : ℤ) : (toLE4 v).length = 4 := rfl

theorem ofLE4_toLE4 (v : ℤ) :
    ofLE4 ((toLE4 v).getD 0 0) ((toLE4 v).getD 1 0) ((toLE4 v).getD 2 0) ((toLE4 v).getD 3 0) = wrap32 v := by
  have hnn : 0 ≤ v % 2^32 := Int.emod_nonneg _ (by norm_num)
  have hlt : v % 2^32 < 2^32 := Int.emod_lt_of_pos _ (by norm_num)
  obtain ⟨u, hu⟩ : ∃ u : ℕ, (u : ℤ) = v % 2^32 := ⟨_, Int.toNat_of_nonneg hnn⟩
  have hut : (v % 2^32).toNat = u := by omega
  simp only [toLE4, hut, List.getD_cons_zero, List.getD_cons_succ, ofLE4, wrap32_eq_bmod]
  simp only [UInt8.toNat_ofNat']
  have hsum : (((u % 2^8 % 2^8 : ℕ) : ℤ) + 2^8 * ((u / 2^8 % 2^8 % 2^8 : ℕ) : ℤ) +
      2^16 * ((u / 2^16 % 2^8 % 2^8 : ℕ) : ℤ) + 2^24 * ((u / 2^24 % 2^8 % 2^8 : ℕ) : ℤ)) = u := by
    omega
  rw [hsum, hu]
  exact Int.emod_bmod v (2^32)

theorem toLE4_ofLE4 (b0 b1 b2 b3 : UInt8) : toLE4 (ofLE4 b0 b1 b2 b3) = [b0, b1, b2, b3] := by
  have h0 := b0.toNat_lt
  have h1 := b1.toNat_lt
  have h2 := b2.toNat_lt
  have h3 := b3.toNat_lt
  have hu : (ofLE4 b0 b1 b2 b3 % 2^32).toNat =
      b0.toNat + 2^8 * b1.toNat + 2^16 * b2.toNat + 2^24 * b3.toNat := by
    rw [ofLE4, wrap32_eq_bmod]
    have h := Int.bmod_emod (x := (b0.toNat + 2^8 * b1.toNat + 2^16 * b2.toNat + 2^24 * b3.toNat : ℤ)) (m := 2^32)
    omega
  have e : ∀ (b : UInt8) (k : ℕ), k = b.toNat → UInt8.ofNat k = b := by
    rintro b k rfl
    exact UInt8.ofNat_toNat
  simp only [toLE4, hu]
  rw [e b0 _ (by omega), e b1 _ (by omega), e b2 _ (by omega), e b3 _ (by omega)]

theorem i32_congr
    (h : ∀ i : ℕ, i < 4 → m (off + i) = m' (off' + i)) : m.i32 off = m'.i32 off' := by
  have h0 := h 0 (by norm_num)
  have h1 := h 1 (by norm_num)
  have h2 := h 2 (by norm_num)
  have h3 := h 3 (by norm_num)
  push_cast at h0 h1 h2 h3
  simp only [add_zero] at h0
  unfold i32
  rw [h0, h1, h2, h3]

theorem isI32_i32 (m : Bytes) (off : ℤ) : IsI32 (m.i32 off) := by
  exact isI32_wrap32 _

theorem i32_setI32_eq_wrap32 (m : Bytes) (off v : ℤ) : (m.setI32 off v).i32 off = wrap32 v := by
  have hb : ∀ i : ℕ, i < 4 → m.setI32 off v (off + i) = (toLE4 v).getD i 0 := by
    intro i hi
    rw [setI32, write, memcpy_of_mem (by omega) (by rw [length_toLE4]; omega)]
    congr 1
    omega
  have h0 := hb 0 (by norm_num)
  have h1 := hb 1 (by norm_num)
  have h2 := hb 2 (by norm_num)
  have h3 := hb 3 (by norm_num)
  push_cast at h0 h1 h2 h3
  rw [add_zero] at h0
  unfold i32
  rw [h0, h1, h2, h3, ofLE4_toLE4]

theorem i32_setI32 (h : IsI32 v) : (m.setI32 off v).i32 off = v := by
  rw [i32_setI32_eq_wrap32, wrap32_of_isI32 h]

theorem setI32_i32 (m : Bytes) (off : ℤ) : m.setI32 off (m.i32 off) = m := by
  funext i
  rw [setI32, i32, toLE4_ofLE4, write]
  by_cases h : off ≤ i ∧ i < off + 4
  · obtain ⟨k, hk, rfl⟩ : ∃ k : ℕ, k < 4 ∧ i = off + k := ⟨(i - off).toNat, by omega, by omega⟩
    rw [memcpy_of_mem (by omega) (by simpa using h.2), add_sub_cancel_left, Int.toNat_natCast]
    interval_cases k <;> simp
  · exact memcpy_of_notMem (by simp only [List.length_cons, List.length_nil]; omega)

theorem setI32_of_notMem (h : i < off ∨ off + 4 ≤ i) : m.setI32 off v i = m i :=
  write_of_notMem (by rw [length_toLE4]; omega)

theorem i32_setI32_of_disjoint (h : off' + 4 ≤ off ∨ off + 4 ≤ off') :
    (m.setI32 off v).i32 off' = m.i32 off' :=
  i32_congr fun i hi => setI32_of_notMem (by omega)

theorem read_setI32_of_disjoint
    (h : off' + len ≤ off ∨ off + 4 ≤ off') : (m.setI32 off v).read off' len = m.read off' len :=
  read_congr fun i hi => setI32_of_notMem (by omega)

theorem i32_write_of_disjoint {src : List UInt8}
    (h : off' + 4 ≤ off ∨ off + src.length ≤ off') : (m.write off src).i32 off' = m.i32 off' :=
  i32_congr fun i hi => write_of_notMem (by omega)

theorem i32_memcpy_of_disjoint {len : ℤ}
    (h : off' + 4 ≤ off ∨ off + len ≤ off') : (m.memcpy off len src).i32 off' = m.i32 off' :=
  i32_congr fun i hi => memcpy_of_notMem (by omega)

theorem i32_eq_zero (h : ∀ i : ℕ, i < 4 → m (off + i) = 0) : m.i32 off = 0 := by
  have hz : m.i32 off = Bytes.i32 (fun _ => 0) 0 := i32_congr h
  rw [hz]
  simp [i32, ofLE4, wrap32_eq_bmod]

end Bytes

end Dawn
