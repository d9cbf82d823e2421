import Dawn.Meta.CatalogTable
import Mathlib.Data.List.TakeWhile

/-!
# The catalog page

The layout of a catalog page that is in order: the names of the tables are stacked downward from the end
of the page, in the order of their records and without gaps (`Stores`). The constructor reads such a page
back (`Stores.entries_eq`), and all that the page has to keep is in disjoint bytes (`Stores.disjoint`).

The loops of `delete_table` and `change_table_name` move one name after another. In between, a record and
the name that it is about are not where `Stores` wants them: `Shape` says where each of them is, and its
lemmas say what one store does. All of them are frame conditions.
-/

namespace Dawn.CatalogTable

open Function

/-- A table: its name and its id. -/
abbrev Entry := List UInt8 × ℤ

/-- The name of the table at index `k`. -/
def nameOf (es : List Entry) (k : ℕ) : List UInt8 := (es.getD k ([], 0)).1

/-- The id of the table at index `k`. -/
def idOf (es : List Entry) (k : ℕ) : ℤ := (es.getD k ([], 0)).2

/-- The bytes of all names, with their terminators. -/
def used (es : List Entry) : ℕ := (es.map fun e => e.1.length + 1).sum

/-- Where the name at index `k` starts. -/
def nameOffset (es : List Entry) (k : ℕ) : ℤ := 4096 - used (es.take (k + 1))

section Offsets

variable {es : List Entry} {j k : ℕ}

theorem used_append (es es' : List Entry) : used (es ++ es') = used es + used es' := by
  simp [used]

theorem used_take_succ (h : k < es.length) :
    used (es.take (k + 1)) = used (es.take k) + ((nameOf es k).length + 1) := by
  simp [used, nameOf, h]

theorem used_take_mono (es : List Entry) (h : j ≤ k) : used (es.take j) ≤ used (es.take k) := by
  obtain ⟨d, rfl⟩ := Nat.exists_eq_add_of_le h
  rw [List.take_add, used_append]
  omega

theorem used_take_le (es : List Entry) (k : ℕ) : used (es.take k) ≤ used es := by
  conv_rhs => rw [← List.take_append_drop k es, used_append]
  omega

theorem nameOffset_add (h : k < es.length) : nameOffset es k + (nameOf es k).length + 1 = 4096 - used (es.take k) := by
  rw [nameOffset, used_take_succ h]
  omega

theorem nameOffset_add_le (hk : k < es.length) (h : j < k) :
    nameOffset es k + (nameOf es k).length + 1 ≤ nameOffset es j := by
  rw [nameOffset_add hk, nameOffset]
  have := used_take_mono es (Nat.succ_le_of_lt h)
  simp only [Nat.succ_eq_add_one] at this
  omega

theorem nameOffset_add_le_pageSize (hk : k < es.length) : nameOffset es k + (nameOf es k).length + 1 ≤ 4096 := by
  rw [nameOffset_add hk]
  omega

theorem le_nameOffset (es : List Entry) (k : ℕ) : 4096 - (used es : ℤ) ≤ nameOffset es k := by
  have := used_take_le es (k + 1)
  rw [nameOffset]
  omega

theorem nameOffset_last (h : k + 1 = es.length) : nameOffset es k = 4096 - used es := by
  rw [nameOffset, h, List.take_length]

end Offsets

/-! ## Records -/

theorem recordOffset_eq (i : ℤ) : recordOffset i = 68 + 12 * i := by
  simp only [recordOffset, tableNumOffset, tableRecordSz, comPgHeaderSz, sizeTSize, offsetTSize, pgidTSize]
  ring

theorem tableNumOffset_eq : tableNumOffset = 64 := rfl

theorem tableRecordSz_eq : tableRecordSz = 12 := rfl

theorem tbNameOffset_eq (data : Bytes) (k : ℤ) : tbNameOffset data k = data.i32 (68 + 12 * k) := by
  rw [tbNameOffset, recordOffset_eq]

theorem tbNameSz_eq (data : Bytes) (k : ℤ) : tbNameSz data k = data.i32 (68 + 12 * k + 4) := by
  rw [tbNameSz, recordOffset_eq, offsetTSize]

theorem tbPageId_eq (data : Bytes) (k : ℤ) : tbPageId data k = data.i32 (68 + 12 * k + 8) := by
  rw [tbPageId, recordOffset_eq, offsetTSize, sizeTSize, add_assoc (68 + 12 * k)]
  rfl

/-- The number of tables and the records of two pages are the same. -/
def SameRecords (n : ℕ) (data data' : Bytes) : Prop :=
  ∀ x, 64 ≤ x → x < 68 + 12 * (n : ℤ) → data' x = data x

section SameRecords

variable {n k : ℕ} {data data' : Bytes}

theorem SameRecords.count (h : SameRecords n data data') : data'.i32 64 = data.i32 64 :=
  Bytes.i32_congr fun x hx => h _ (by omega) (by omega)

theorem SameRecords.tbNameOffset (h : SameRecords n data data') (hk : k < n) :
    tbNameOffset data' k = tbNameOffset data k := by
  rw [tbNameOffset_eq, tbNameOffset_eq]
  exact Bytes.i32_congr fun x hx => h _ (by omega) (by omega)

theorem SameRecords.tbNameSz (h : SameRecords n data data') (hk : k < n) : tbNameSz data' k = tbNameSz data k := by
  rw [tbNameSz_eq, tbNameSz_eq]
  exact Bytes.i32_congr fun x hx => h _ (by omega) (by omega)

theorem SameRecords.tbPageId (h : SameRecords n data data') (hk : k < n) : tbPageId data' k = tbPageId data k := by
  rw [tbPageId_eq, tbPageId_eq]
  exact Bytes.i32_congr fun x hx => h _ (by omega) (by omega)

end SameRecords

/-! ## Pages in order -/

/-- The page has the tables `es`, with their names stacked downward from the end. -/
structure Stores (data : Bytes) (es : List Entry) : Prop where
  count : data.i32 64 = es.length
  offset : ∀ k < es.length, tbNameOffset data k = nameOffset es k
  size : ∀ k < es.length, tbNameSz data k = (nameOf es k).length
  pageId : ∀ k < es.length, tbPageId data k = idOf es k
  name : ∀ k < es.length,
    data.read (nameOffset es k) ((nameOf es k).length + 1) = nameOf es k ++ [0]
  /-- The names do not reach the records. -/
  room : 68 + 12 * es.length + used es ≤ 4096

/-- The records and the names of a page, each with its terminator, are in disjoint bytes of the page. -/
def Disjoint (data : Bytes) : Prop :=
  0 ≤ data.i32 64 ∧
  (∀ k : ℕ, (k : ℤ) < data.i32 64 → 0 ≤ tbNameSz data k ∧
    68 + 12 * data.i32 64 ≤ tbNameOffset data k ∧ tbNameOffset data k + tbNameSz data k + 1 ≤ 4096) ∧
  ∀ j k : ℕ, j < k → (k : ℤ) < data.i32 64 →
    tbNameOffset data j + tbNameSz data j + 1 ≤ tbNameOffset data k ∨
    tbNameOffset data k + tbNameSz data k + 1 ≤ tbNameOffset data j

/-- A table as the constructor reads it, whose name ends at its first NUL. -/
def cEntry (e : Entry) : Entry := (cStr e.1, e.2)

/-- Names that can be read back. -/
def NoNul (es : List Entry) : Prop := ∀ e ∈ es, 0 ∉ e.1

namespace Stores

variable {data : Bytes} {es : List Entry} (h : Stores data es)
include h

theorem entries_eq_map : entries data = es.map cEntry := by
  have hcount : (data.i32 tableNumOffset).toNat = es.length := by rw [tableNumOffset_eq, h.count]; rfl
  apply List.ext_getElem
  · rw [entries, List.length_map, List.length_map, List.length_range, hcount]
  · intro k hk hk'
    rw [List.length_map] at hk'
    have hname : tableNameAt data (nameOffset es k) (nameOf es k).length = cStr (nameOf es k) := by
      -- The terminator that `get_table_name` puts at the end is there on the page, too.
      have hn := h.name k hk'
      rw [Bytes.read_add] at hn
      have hpre := (List.append_inj hn (by simp)).1
      rw [tableNameAt, Int.toNat_natCast, Bytes.cString, hpre]
    simp only [entries, List.getElem_map, List.getElem_range]
    rw [h.offset k hk', h.size k hk', h.pageId k hk', hname]
    simp [cEntry, nameOf, idOf, hk']

theorem entries_eq (hnul : NoNul es) : entries data = es := by
  have hid : es.map cEntry = es.map id := by
    refine List.map_congr_left fun e he => Prod.ext ?_ rfl
    refine List.takeWhile_eq_self_iff.mpr fun c hc => ?_
    simpa using fun hz : c = 0 => hnul e he (hz ▸ hc)
  rw [h.entries_eq_map, hid, List.map_id]

theorem disjoint : Disjoint data := by
  have hroom := h.room
  refine ⟨by rw [h.count]; omega, fun k hk => ?_, fun j k hjk hk => ?_⟩
  · rw [h.count] at hk ⊢
    have hk' : k < es.length := by omega
    have h1 := le_nameOffset es k
    have h2 := nameOffset_add_le_pageSize hk'
    rw [h.offset k hk', h.size k hk']
    refine ⟨by omega, by omega, by omega⟩
  · rw [h.count] at hk
    have hk' : k < es.length := by omega
    rw [h.offset k hk', h.size k hk', h.offset j (by omega)]
    exact Or.inr (nameOffset_add_le hk' hjk)

theorem freeSpacePointer_ofPage : (ofPage data).freeSpacePointer = 4096 - used es := by
  simp only [ofPage, tableNumOffset_eq, h.count]
  split_ifs with hz
  · have : es = [] := List.length_eq_zero_iff.mp (by omega)
    rw [this]
    rfl
  · have hlast : es.length - 1 + 1 = es.length := by omega
    rw [show (es.length : ℤ) - 1 = ((es.length - 1 : ℕ) : ℤ) by omega, h.offset _ (by omega),
      nameOffset_last hlast]

end Stores

/-! ## Pages in between -/

/-- Where the records and the names of `es` are while names are moved. The name at index `i` is not kept:
it is the one that is removed or replaced. -/
structure Shape (es : List Entry) (i : ℕ) (off size pid pos : ℕ → ℤ) (data : Bytes) : Prop where
  count : data.i32 64 = es.length
  offset : ∀ k < es.length, tbNameOffset data k = off k
  size : ∀ k < es.length, tbNameSz data k = size k
  pageId : ∀ k < es.length, tbPageId data k = pid k
  name : ∀ k < es.length, k ≠ i →
    data.read (pos k) ((nameOf es k).length + 1) = nameOf es k ++ [0]
  above : ∀ k < es.length, k ≠ i → 68 + 12 * (es.length : ℤ) ≤ pos k

theorem Stores.shape {data : Bytes} {es : List Entry} (h : Stores data es) (i : ℕ) :
    Shape es i (nameOffset es) (fun k => (nameOf es k).length) (idOf es) (nameOffset es) data where
  count := h.count
  offset := h.offset
  size := h.size
  pageId := h.pageId
  name k hk _ := h.name k hk
  above k _ _ := by have := h.room; have := le_nameOffset es k; omega

namespace Shape

variable {es : List Entry} {i : ℕ} {off size pid pos off' size' pid' pos' : ℕ → ℤ} {data data' : Bytes}

section

variable (h : Shape es i off size pid pos data)
include h

theorem congr (ho : ∀ k < es.length, off' k = off k)
    (hs : ∀ k < es.length, size' k = size k) (hp : ∀ k < es.length, pid' k = pid k)
    (hpos : ∀ k < es.length, k ≠ i → pos' k = pos k) : Shape es i off' size' pid' pos' data where
  count := h.count
  offset k hk := by rw [ho k hk, h.offset k hk]
  size k hk := by rw [hs k hk, h.size k hk]
  pageId k hk := by rw [hp k hk, h.pageId k hk]
  name k hk hi := by rw [hpos k hk hi, h.name k hk hi]
  above k hk hi := by rw [hpos k hk hi]; exact h.above k hk hi

theorem store {a b p : ℤ} {j : ℕ}
    (hsame : ∀ x, x < a ∨ b ≤ x → data' x = data x) (ha : 68 + 12 * (es.length : ℤ) ≤ a)
    (hdisj : ∀ k < es.length, k ≠ i → k ≠ j → pos k + (nameOf es k).length + 1 ≤ a ∨ b ≤ pos k)
    (hp : j ≠ i → data'.read p ((nameOf es j).length + 1) = nameOf es j ++ [0]) (hap : 68 + 12 * (es.length : ℤ) ≤ p) :
    Shape es i off size pid (update pos j p) data' := by
  have hrec : SameRecords es.length data data' := fun x _ hx => hsame x (Or.inl (by omega))
  refine ⟨hrec.count.trans h.count, fun k hk => (hrec.tbNameOffset hk).trans (h.offset k hk),
    fun k hk => (hrec.tbNameSz hk).trans (h.size k hk),
    fun k hk => (hrec.tbPageId hk).trans (h.pageId k hk), fun k hk hi => ?_, fun k hk hi => ?_⟩
  · obtain rfl | hkj := eq_or_ne k j
    · rw [update_self]
      exact hp hi
    · rw [update_of_ne hkj, ← h.name k hk hi]
      have := hdisj k hk hi hkj
      exact Bytes.read_congr fun x hx => hsame _ (by omega)
  · obtain rfl | hkj := eq_or_ne k j
    · rwa [update_self]
    · rw [update_of_ne hkj]
      exact h.above k hk hi

theorem move {j : ℕ} (src dst : ℤ) (hj : j < es.length)
    (hsrc : j ≠ i → src = pos j) (hdst : 68 + 12 * (es.length : ℤ) ≤ dst) (hdisj : ∀ k < es.length, k ≠ i → k ≠ j →
      pos k + (nameOf es k).length + 1 ≤ dst ∨ dst + (nameOf es j).length + 1 ≤ pos k) :
    Shape es i off size pid (update pos j dst) (data.memmove dst src ((nameOf es j).length + 1)) := by
  refine h.store (b := dst + ((nameOf es j).length + 1))
    (fun x hx => Bytes.memcpy_of_notMem hx) hdst (fun k hk hki hkj => ?_) (fun hji => ?_) hdst
  · have := hdisj k hk hki hkj
    omega
  · rw [← h.name j hj hji, ← hsrc hji]
    refine Bytes.read_congr fun x hx => ?_
    rw [Bytes.memmove, Bytes.memcpy_of_mem (by omega) (by omega)]
    congr 1
    omega

theorem records
    (hsame : ∀ x, x < 68 ∨ 68 + 12 * (es.length : ℤ) ≤ x → data' x = data x)
    (ho : ∀ k < es.length, tbNameOffset data' k = off' k) (hs : ∀ k < es.length, tbNameSz data' k = size' k)
    (hp : ∀ k < es.length, tbPageId data' k = pid' k) : Shape es i off' size' pid' pos data' where
  count := by rw [← h.count]; exact Bytes.i32_congr fun x hx => hsame _ (by omega)
  offset := ho
  size := hs
  pageId := hp
  name k hk hi := by
    have := h.above k hk hi
    rw [← h.name k hk hi]
    exact Bytes.read_congr fun x hx => hsame _ (by omega)
  above := h.above

theorem addOffset {j : ℕ} (v : ℤ) (hj : j < es.length) (hv : IsI32 (off j + v)) :
    Shape es i (update off j (off j + v)) size pid pos (addI32 data (68 + 12 * j) v) := by
  have hval : data.i32 (68 + 12 * j) + v = off j + v := by rw [← h.offset j hj, tbNameOffset_eq]
  unfold addI32
  rw [hval, wrap32_of_isI32 hv]
  refine h.records (fun x hx => Bytes.setI32_of_notMem (by omega)) (fun k hk => ?_) (fun k hk => ?_)
    fun k hk => ?_
  · obtain rfl | hkj := eq_or_ne k j
    · rw [tbNameOffset_eq, Bytes.i32_setI32 hv, update_self]
    · rw [update_of_ne hkj, ← h.offset k hk, tbNameOffset_eq, tbNameOffset_eq]
      exact Bytes.i32_setI32_of_disjoint (by omega)
  · rw [← h.size k hk, tbNameSz_eq, tbNameSz_eq]
    exact Bytes.i32_setI32_of_disjoint (by omega)
  · rw [← h.pageId k hk, tbPageId_eq, tbPageId_eq]
    exact Bytes.i32_setI32_of_disjoint (by omega)

theorem copyRecord {j : ℕ} (hj : j + 1 < es.length) :
    Shape es i (update off j (off (j + 1))) (update size j (size (j + 1))) (update pid j (pid (j + 1))) pos
      (data.memmove (68 + 12 * j) (68 + 12 * (j + 1 : ℕ)) 12) := by
  have hin : ∀ x, 68 + 12 * (j : ℤ) ≤ x → x < 68 + 12 * (j : ℤ) + 12 →
      data.memmove (68 + 12 * j) (68 + 12 * (j + 1 : ℕ)) 12 x = data (x + 12) := by
    intro x h1 h2
    rw [Bytes.memmove, Bytes.memcpy_of_mem h1 h2]
    congr 1
    push_cast
    ring
  have hout : ∀ x, x < 68 + 12 * (j : ℤ) ∨ 68 + 12 * (j : ℤ) + 12 ≤ x →
      data.memmove (68 + 12 * j) (68 + 12 * (j + 1 : ℕ)) 12 x = data x := fun x hx =>
    Bytes.memcpy_of_notMem hx
  -- One field of the record that is overwritten, and one of another record.
  have hfield : ∀ c : ℕ, c + 4 ≤ 12 → ∀ k : ℕ,
      (data.memmove (68 + 12 * j) (68 + 12 * (j + 1 : ℕ)) 12).i32 (68 + 12 * k + c) =
        if k = j then data.i32 (68 + 12 * (j + 1 : ℕ) + c) else data.i32 (68 + 12 * k + c) := by
    intro c hc k
    split_ifs with hkj
    · subst hkj
      refine Bytes.i32_congr fun x hx => ?_
      rw [hin _ (by omega) (by omega)]
      congr 1
      push_cast
      ring
    · exact Bytes.i32_congr fun x hx => hout _ (by omega)
  have hite : ∀ (f : ℕ → ℤ) (k : ℕ), update f j (f (j + 1)) k = if k = j then f (j + 1) else f k :=
    fun f k => by rw [update_apply]
  refine h.records (fun x hx => hout x (by omega)) (fun k hk => ?_) (fun k hk => ?_) fun k hk => ?_
  · have := hfield 0 (by omega) k
    rw [hite, ← h.offset _ hj, ← h.offset k hk, tbNameOffset_eq, tbNameOffset_eq, tbNameOffset_eq]
    simpa using this
  · rw [hite, ← h.size _ hj, ← h.size k hk, tbNameSz_eq, tbNameSz_eq, tbNameSz_eq]
    exact hfield 4 (by omega) k
  · rw [hite, ← h.pageId _ hj, ← h.pageId k hk, tbPageId_eq, tbPageId_eq, tbPageId_eq]
    exact hfield 8 (by omega) k

end

end Shape

end Dawn.CatalogTable
