import Dawn.Lib.Bytes

/-!
# Files

A file as a `seek` and `read` or `write` sees it: a length, and a byte for every position. A write
beyond the end extends the file, with zeros in between, which is why the bytes beyond the end are
zero.
-/

namespace Dawn

/-- A file. -/
structure File where
  /-- The length of the file. -/
  size : ℕ
  /-- The byte at a position. -/
  byte : ℕ → UInt8
  /-- There is nothing beyond the end. -/
  byte_of_le : ∀ i, size ≤ i → byte i = 0

variable {f : File} {pos len : ℕ} {src : Bytes}

namespace File

/-- The file that was just created. -/
def empty : File := ⟨0, fun _ => 0, fun _ _ => rfl⟩

/-- Write the first `len` bytes of a buffer at a position. -/
def write (f : File) (pos len : ℕ) (src : Bytes) : File where
  size := if len = 0 then f.size else max f.size (pos + len)
  byte i := if pos ≤ i ∧ i < pos + len then src (i - pos) else f.byte i
  byte_of_le i hi := by
    have hout : ¬ (pos ≤ i ∧ i < pos + len) := by split_ifs at hi <;> omega
    rw [if_neg hout]
    exact f.byte_of_le i (by split_ifs at hi <;> omega)

/-- How many of `len` bytes at a position can be read: the `gcount` of a read. -/
def gcount (f : File) (pos len : ℕ) : ℕ := min len (f.size - pos)

/-- Read up to `len` bytes at a position into a buffer. -/
def read (f : File) (pos len : ℕ) (dst : Bytes) : Bytes :=
  dst.memcpy 0 (f.gcount pos len) fun i => f.byte (pos + i.toNat)

theorem size_write (h : 0 < len) :
    (f.write pos len src).size = max f.size (pos + len) :=
  if_neg (by omega)

theorem byte_write_of_mem {i : ℕ} (h1 : pos ≤ i)
    (h2 : i < pos + len) : (f.write pos len src).byte i = src (i - pos) :=
  if_pos ⟨h1, h2⟩

theorem byte_write_of_notMem {i : ℕ} (h : i < pos ∨ pos + len ≤ i) :
    (f.write pos len src).byte i = f.byte i :=
  if_neg (by omega)

theorem gcount_of_le (h : pos + len ≤ f.size) : f.gcount pos len = len :=
  Nat.min_eq_left (by omega)

theorem read_apply {dst : Bytes} {i : ℤ} (h0 : 0 ≤ i)
    (h : i < f.gcount pos len) : f.read pos len dst i = f.byte (pos + i.toNat) := by
  unfold read
  rw [Bytes.memcpy_of_mem h0 (by omega), sub_zero]

end File

end Dawn
