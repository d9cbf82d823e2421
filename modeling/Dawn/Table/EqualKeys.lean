import Dawn.Index.Buckets
import Dawn.Table.Table

/-!
# Lookups by an equal key

`operator==` compares two strings up to their terminators, and `get_hash_value` hashes `str_len_` bytes.
A tuple is found by a value that is equal to its key if the two also have the same image
(`equal_keys_found_iff`). A string that is shorter than its `CHAR` column has another image than the key
that is read out of the column, and it can be in another bucket (`short_string_not_found`).
-/

namespace Dawn

open TablePage PageStore

variable {a b : Value}

theorem keyed_eq_of_opEq (h : a.opEq b = true) (schema : Schema) : Keyed schema a = Keyed schema b := by
  funext bytes
  refine propext ⟨?_, ?_⟩
  · rintro ⟨v, hv, ha⟩
    exact ⟨v, hv, Value.opEq_trans (Value.opEq_symm h) ha⟩
  · rintro ⟨v, hv, hb⟩
    exact ⟨v, hv, Value.opEq_trans h hb⟩

theorem lookUp_of_hash_eq (h : a.opEq b = true) {al : Allocator} {doHash : List UInt8 → UInt64}
    (hhash : a.getHashValue doHash = b.getHashValue doHash) {schema : Schema} {sz root : ℤ}
    {s s' : PageStore} {L : Layout} {t t' : Tuple} (hkey : schema.HasKey) (hsz : 8 ≤ sz)
    (hcap : 0 < getTpNumCapacity sz) (hinv : TableInv sz s root L) (ht : t.size = sz)
    (hb : keyOf schema t.bytes = some b) (hblank : BlankIfFull al sz s (L.bucketOf doHash b))
    (hins : lkHaInsertTuple al doHash schema root t s = some (opSuccess, t', s')) :
    lookUp doHash schema root a s' = some (opSuccess, some t.bytes) := by
  have hno : findInChain schema b s (L.bucketOf doHash b) = none := by
    cases hf : findInChain schema b s (L.bucketOf doHash b) with
    | none => rfl
    | some rid =>
      rw [lkHaInsertTuple_dup doHash hkey hinv hb hf, Option.some.injEq, Prod.mk.injEq] at hins
      exact absurd hins.1 (by decide)
  rcases lkHaInsertTuple_cases doHash hkey hsz hcap hinv ht hb hno (by rfl) hblank with
    ⟨he, -⟩ | ⟨id, k, s1, L', he, hi, -⟩
  · rw [he] at hins
    cases hins
  rw [he, Option.some.injEq, Prod.mk.injEq, Prod.mk.injEq] at hins
  obtain ⟨-, -, rfl⟩ := hins
  have hkeyed : Keyed schema a t.bytes := ⟨b, hb, h⟩
  have hbefore : lookup (Keyed schema a) (L.tuplesOf s doHash b) = none := by
    rw [keyed_eq_of_opEq h]
    exact (findInChain_bucketOf doHash hinv b).mp hno
  have hafter := lookup_firstFit hcap hbefore hkeyed
  rw [Layout.tuplesOf, ← hi.tuples_self hsz hinv, ← hhash] at hafter
  rw [lkHaGetTuple_lookup doHash hkey hi.inv, Layout.tuplesOf, hafter]

/-- Equal values hash alike, whatever function `do_hash` is, exactly when they have the same image. A
tuple that has been inserted is then found by every value that is equal to its key. -/
theorem equal_keys_found_iff (h : a.opEq b = true) :
    ((∀ doHash, a.getHashValue doHash = b.getHashValue doHash) ↔ Value.SameImage a b) ∧
    (Value.SameImage a b → ∀ {al : Allocator} {doHash : List UInt8 → UInt64} {schema : Schema}
      {sz root : ℤ} {s s' : PageStore} {L : Layout} {t t' : Tuple}, schema.HasKey → 8 ≤ sz →
      0 < getTpNumCapacity sz → TableInv sz s root L → t.size = sz → keyOf schema t.bytes = some b →
      BlankIfFull al sz s (L.bucketOf doHash b) →
      lkHaInsertTuple al doHash schema root t s = some (opSuccess, t', s') →
      lookUp doHash schema root a s' = some (opSuccess, some t.bytes)) := by
  refine ⟨Value.getHashValue_eq_iff h, fun himage => ?_⟩
  intro al doHash schema sz root s s' L t t' hkey hsz hcap hinv ht hb hblank hins
  exact lookUp_of_hash_eq h ((Value.getHashValue_eq_iff h).mpr himage doHash) hkey hsz hcap hinv ht hb
    hblank hins

/-! ## A table with a string as its key -/

/-- A table of strings of up to four bytes, the key, and of integers. -/
def charSchema : Schema where
  columns := [.ofChar [107] 0 4, .ofType .kInteger [118] 4]

/-- The tuple of the string `ab` and of one. -/
def charTuple : Tuple := Tuple.ofBytes ⟨-1, -1⟩ ([97, 98, 0, 0] ++ Bytes.toLE4 1)

/-- A hash that depends on the length. -/
def lengthHash (bytes : List UInt8) : UInt64 := if bytes.length = 2 then 1 else 0

theorem charSchema_hasKey : charSchema.HasKey := ⟨_, rfl, by decide, by decide⟩

theorem keyOf_charTuple : keyOf charSchema charTuple.bytes = some (.char [97, 98, 0, 0]) := by decide

theorem exists_insert_charTuple : ∃ id k s' L', lkHaInsertTuple zeroFrames lengthHash charSchema 0 charTuple newTable =
      some (opSuccess, charTuple.setRid ⟨id, (k : ℕ)⟩, s') ∧
    Inserted 8 0 newTable (Layout.empty 0) (hashToSlot 0).1 (hashToSlot 0).2 id k charTuple.bytes s' L' := by
  have hblank : BlankIfFull zeroFrames 8 newTable [] := fun hne => absurd rfl hne
  rcases lkHaInsertTuple_cases lengthHash charSchema_hasKey le_rfl (by decide) (tableInv_newTable 8)
    (t := charTuple) rfl keyOf_charTuple rfl (by rfl) hblank with ⟨-, hno⟩ | ⟨id, k, s', L', he, hi, -⟩
  · exact absurd ⟨Allocator.firstFree_correct _, by decide⟩ hno
  · exact ⟨id, k, s', L', he, hi⟩

/-- A string of the column's length that is equal to the key finds the tuple. -/
theorem equal_keys_found_iff_padded : ∃ t' s',
    lkHaInsertTuple zeroFrames lengthHash charSchema 0 charTuple newTable =
      some (opSuccess, t', s') ∧
    lookUp lengthHash charSchema 0 (.ofString [97, 98, 0, 0]) s' =
      some (opSuccess, some charTuple.bytes) := by
  obtain ⟨id, k, s', L', he, -⟩ := exists_insert_charTuple
  exact ⟨_, s', he, (equal_keys_found_iff (by decide)).2 (by decide) charSchema_hasKey le_rfl (by decide)
    (tableInv_newTable 8) rfl keyOf_charTuple (fun hne => absurd rfl hne) he⟩

/-- The string `ab` is the key of the tuple, which has been inserted, and is not found. -/
theorem short_string_not_found : ∃ b t' s', keyOf charSchema charTuple.bytes = some b ∧
    (Value.ofCString [97, 98, 0]).opEq b = true ∧
    (Value.ofCString [97, 98, 0]).getHashValue lengthHash ≠ b.getHashValue lengthHash ∧
    lkHaInsertTuple zeroFrames lengthHash charSchema 0 charTuple newTable =
      some (opSuccess, t', s') ∧
    lookUp lengthHash charSchema 0 (.ofCString [97, 98, 0]) s' = some (tupleNotFound, none) := by
  obtain ⟨id, k, s', L', he, hi⟩ := exists_insert_charTuple
  refine ⟨_, _, s', keyOf_charTuple, by decide, by decide, he, ?_⟩
  -- The value is looked for in another bucket, which has no page.
  rw [lkHaGetTuple_lookup lengthHash charSchema_hasKey hi.inv, Layout.tuplesOf,
    hi.tuples_of_ne (tableInv_newTable 8) (by decide)]
  rfl

end Dawn
