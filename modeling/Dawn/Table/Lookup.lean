import Dawn.Index.Overflow
import Dawn.Table.MarkedTuples

/-!
# Looking up a key in a whole bucket

`lk_ha_check_duplicate_key` does not search a bucket to its end. It stops at the first page that has no
tuple, and `lk_ha_update_tuple` leaves such pages in front of others, so a key behind one is not found and
can be inserted once more; it fails an assertion at a page whose first tuple is marked. It is right exactly
where neither comes in its way (`lookup_whole_chain_iff`).

`lk_ha_mark_delete` reads the result of that search the wrong way round: it marks nothing for a key that is
stored, and dereferences a `nullptr` for one that is not (`mark_delete_by_key_iff`).
-/

namespace Dawn

open TablePage PageStore

section Lookup

variable (schema : Schema) (keyValue : Value)

/-- A tuple with the key is stored in a page. -/
def HoldsKey (p : Page) : Prop := ∃ k, hasKey schema keyValue p k = true

/-- What a lookup of the key in the pages of a bucket should give: it returns and changes nothing, it finds
something exactly if one of the pages holds the key, and that is the position of such a tuple. -/
def LooksUp (s : PageStore) (pages : List ℤ) (result : Option (Option RID × PageStore)) : Prop :=
  ∃ found, result = some (found, s) ∧
    (found.isSome ↔ ∃ id ∈ pages, HoldsKey schema keyValue (s.page id)) ∧
    ∀ rid ∈ found, ∃ id ∈ pages, ∃ k : ℕ, rid = ⟨id, k⟩ ∧ hasKey schema keyValue (s.page id) k = true

/-- Nothing comes in the way of the search: the first tuple of each page up to the one with the key is not
marked, and the key is not behind a page that has no tuples. -/
def Findable (s : PageStore) : List ℤ → Prop
  | [] => True
  | id :: rest =>
    FirstUnmarked (s.page id) ∧
    (occ (s.page id) = ∅ → ∀ b ∈ rest, ¬ HoldsKey schema keyValue (s.page b)) ∧
    (occ (s.page id) ≠ ∅ → ¬ HoldsKey schema keyValue (s.page id) → Findable s rest)

end Lookup

variable {schema : Schema} {keyValue : Value} {s : PageStore} {root : ℤ} {L : Layout}

theorem HoldsKey.occ_ne {p : Page} (h : HoldsKey schema keyValue p) : occ p ≠ ∅ := by
  obtain ⟨k, hk⟩ := h
  exact Finset.ne_empty_of_mem (mem_occ_of_hasKey hk)

theorem find?_slotsFrom_eq_none_iff {p : Page} :
    (slotsFrom p 0).find? (hasKey schema keyValue p) = none ↔ ¬ HoldsKey schema keyValue p := by
  rw [List.find?_eq_none]
  constructor
  · rintro h ⟨k, hk⟩
    exact h k (mem_slotsFrom.mpr ⟨Nat.zero_le k, mem_occ_of_hasKey hk⟩) hk
  · exact fun h k _ hk => h ⟨k, hk⟩

theorem looksUp_cons {l : List ℤ} {id : ℤ} {result : Option (Option RID × PageStore)}
    (hno : ¬ HoldsKey schema keyValue (s.page id)) :
    LooksUp schema keyValue s (id :: l) result ↔ LooksUp schema keyValue s l result := by
  have hpos : ∀ rid : RID,
      ¬ ∃ k : ℕ, rid = ⟨id, k⟩ ∧ hasKey schema keyValue (s.page id) k = true := fun rid ⟨k, _, hk⟩ => hno ⟨k, hk⟩
  simp only [LooksUp, List.exists_mem_cons_iff, hno, hpos, false_or]

theorem searchChain_looksUp_iff (hs : schema.HasKey) (hq : s.Quiet) {l : List ℤ}
    (hmem : ∀ id ∈ l, id ∈ s.ids) (hlink : Linked (nextPage s) (-1) l) (hwf : ∀ id ∈ l, WF (s.page id)) :
    LooksUp schema keyValue s l (searchChain schema keyValue (headOr (-1) l) s) ↔ Findable schema keyValue s l := by
  induction l with
  | nil =>
    rw [searchChain]
    exact iff_of_true ⟨none, rfl, by simp, by simp⟩ trivial
  | cons id l ih =>
    have hid := hmem id List.mem_cons_self
    have hr : Readable (s.page id) ↔ FirstUnmarked (s.page id) := (hwf id List.mem_cons_self).readable_iff
    rw [headOr_cons, Findable, ← hr]
    by_cases hread : Readable (s.page id)
    swap
    · rw [searchChain_of_not_readable hq hid hread]
      refine iff_of_false ?_ fun h => hread h.1
      rintro ⟨_, h, _⟩
      cases h
    rw [searchChain_step hq hid, searchPage_eq hs (hq.ne_invalid hid) hread, Option.bind_some, and_iff_right hread]
    by_cases hempty : occ (s.page id) = ∅
    · -- The search ends here, and finds nothing.
      rw [looksUp_cons fun h => h.occ_ne hempty, if_pos (slotsFrom_zero_eq_nil_iff.mpr hempty)]
      simp [LooksUp, hempty]
    · rw [if_neg (mt slotsFrom_zero_eq_nil_iff.mp hempty)]
      cases hf : (slotsFrom (s.page id) 0).find? (hasKey schema keyValue (s.page id)) with
      | some k =>
        have hk := List.find?_some hf
        refine iff_of_true ⟨some ⟨id, k⟩, rfl, ?_, ?_⟩ ⟨fun h => absurd h hempty, fun _ h => absurd ⟨k, hk⟩ h⟩
        · simpa using Or.inl ⟨k, hk⟩
        · rintro rid ⟨rfl⟩
          exact ⟨id, List.mem_cons_self, k, rfl, hk⟩
      | none =>
        have hno := find?_slotsFrom_eq_none_iff.mp hf
        have hn : getNextPageId (s.page id) = headOr (-1) l := hlink.1
        simp only [hn]
        rw [looksUp_cons hno, ih (fun b hb => hmem b (List.mem_cons_of_mem id hb)) hlink.2
          fun b hb => hwf b (List.mem_cons_of_mem id hb)]
        simp [hempty, hno]

/-! ## Two tuples of a page each -/

theorem blankIfFull_initFrames (s : PageStore) (l : List ℤ) : BlankIfFull initFrames 3944 s l := by
  intro _ _ new m hp
  have hm : m = initFrame := by
    simp only [initFrames, Allocator.firstFree] at hp
    split_ifs at hp
    cases hp
    rfl
  rw [hm]
  exact blankFrame_initFrame (by norm_num)

theorem exists_insert_wideTuple (key : ℤ) (h : TableInv 3944 s 0 L) (hcard : s.ids.card ≤ 10) {i j : ℤ}
    (hv : keyOf wideSchema (wideTuple key).bytes = some (.integer key))
    (hij : hashToSlot ((Value.integer key).getHashValue firstByte) = (i, j))
    (hno : findInChain wideSchema (.integer key) s (L.bucketOf firstByte (.integer key)) = none) :
    ∃ id k s' L', lkHaInsertTuple initFrames firstByte wideSchema 0 (wideTuple key) s =
        some (opSuccess, (wideTuple key).setRid ⟨id, (k : ℕ)⟩, s') ∧
      Inserted 3944 0 s L i j id k (wideTuple key).bytes s' L' ∧ s'.ids.card ≤ s.ids.card + 3 := by
  rcases lkHaInsertTuple_cases firstByte wideSchema_hasKey (by norm_num) (by decide) h (wideTuple_size key) hv
    hno hij (blankIfFull_initFrames s _) with ⟨-, hids⟩ | ⟨id, k, s', L', he, hi, hcard', -⟩
  · exact absurd ⟨Allocator.firstFree_correct _, by omega⟩ hids
  · exact ⟨id, k, s', L', he, hi, hcard'⟩

theorem exists_two_wideTuples : ∃ id k s1 id' k' s2 L2,
    lkHaInsertTuple initFrames firstByte wideSchema 0 (wideTuple 1) newTable =
      some (opSuccess, (wideTuple 1).setRid ⟨id, (k : ℕ)⟩, s1) ∧
    lkHaInsertTuple initFrames firstByte wideSchema 0 (wideTuple 257) s1 =
      some (opSuccess, (wideTuple 257).setRid ⟨id', (k' : ℕ)⟩, s2) ∧
    TableInv 3944 s2 0 L2 ∧ L2.chain 0 1 = [id, id'] ∧ L2.chain 0 2 = [] ∧ id ≠ id' ∧
    (∀ n, cell s2 L2 id n = if n = k then some (wideTuple 1).bytes else none) ∧
    (∀ n, cell s2 L2 id' n = if n = k' then some (wideTuple 257).bytes else none) ∧ s2.ids.card ≤ 7 := by
  obtain ⟨id, k, s1, L1, he1, hi1, hcard1⟩ := exists_insert_wideTuple 1 (tableInv_newTable 3944)
    (by decide) (by decide) (show hashToSlot _ = (0, 1) by decide) rfl
  obtain ⟨hone, hnil⟩ := hi1.chain_newTable
  have hcell1 : ∀ n, cell s1 L1 id n = if n = k then some (wideTuple 1).bytes else none := by
    intro n
    rw [hi1.cell_eq, Layout.cell_empty]
    simp
  have hfull : Full 3944 (s1.page id) := by
    rw [Full, hi1.occ_newTable, Finset.card_singleton]
    decide
  have hno : findInChain wideSchema (.integer 257) s1 (L1.bucketOf firstByte (.integer 257)) = none := by
    refine findInChain_of_forall fun c hc n => ?_
    rw [show L1.bucketOf firstByte (.integer 257) = [id] from hone, List.mem_singleton] at hc
    subst hc
    rw [Bool.eq_false_iff]
    intro hn
    obtain ⟨b, hb, v, hv, heq⟩ := (hasKey_cell hi1.own_id).mp hn
    rw [hcell1] at hb
    split_ifs at hb
    rw [← Option.some.inj hb, show keyOf wideSchema (wideTuple 1).bytes = some (.integer 1) by decide] at hv
    rw [← Option.some.inj hv] at heq
    exact absurd heq (by decide)
  have hnew : newTable.ids.card = 1 := rfl
  obtain ⟨id', k', s2, L2, he2, hi2, hcard2⟩ := exists_insert_wideTuple 257 hi1.inv (by omega)
    (by decide) (show hashToSlot _ = (0, 1) by decide) hno
  have hne : id ≠ id' := by
    rintro rfl
    exact hi2.room (by norm_num) hi1.own_id hfull
  have hchain : L2.chain 0 1 = [id, id'] := by
    rcases hi2.chain 0 1 with hsame | ⟨-, -, hmore, -⟩
    · obtain ⟨pre, post, hpos, -⟩ := hi2.before
      have hmem : id' ∈ L2.chain 0 1 := by simp [hpos]
      rw [hsame, hone, List.mem_singleton] at hmem
      exact absurd hmem.symm hne
    · rw [hmore, hone]
      rfl
  refine ⟨id, k, s1, id', k', s2, L2, he1, he2, hi2.inv, hchain, ?_, hne, fun n => ?_, fun n => ?_, by omega⟩
  · rw [(hi2.chain 0 2).resolve_right fun e => absurd e.2.1 (by decide), hnil 0 2 (by decide)]
  · rw [hi2.cell_eq, if_neg fun e => hne e.1, hcell1]
  · rw [hi2.cell_eq, hi1.cell_eq, if_neg (fun e : id' = id ∧ n = k => hne e.1.symm), Layout.cell_empty]
    simp

/-! ## The whole bucket -/

/-- `lk_ha_check_duplicate_key` finds a key exactly if it is stored in the key's bucket, and gives its
position, if and only if nothing comes in its way. -/
theorem lookup_whole_chain_iff (doHash : List UInt8 → UInt64) (hs : schema.HasKey) (h : Skeleton s root L)
    (keyValue : Value) (hwf : ∀ id ∈ L.bucketOf doHash keyValue, WF (s.page id)) :
    LooksUp schema keyValue s (L.bucketOf doHash keyValue)
        (lkHaCheckDuplicateKey doHash schema root keyValue s) ↔
      Findable schema keyValue s (L.bucketOf doHash keyValue) := by
  rw [lkHaCheckDuplicateKey_searchChain doHash h]
  exact searchChain_looksUp_iff hs h.quiet (fun id hid => h.chain_mem hid) (h.linked _ _) hwf

/-- A key in the second page of its bucket is found. -/
theorem lookup_whole_chain_iff_insert : ∃ s L id id', Skeleton s 0 L ∧
    L.bucketOf firstByte (.integer 257) = [id, id'] ∧
    (∀ id ∈ L.bucketOf firstByte (.integer 257), WF (s.page id)) ∧
    LooksUp wideSchema (.integer 257) s (L.bucketOf firstByte (.integer 257))
      (lkHaCheckDuplicateKey firstByte wideSchema 0 (.integer 257) s) := by
  obtain ⟨id, k, -, id', k', s, L, -, -, hinv, hchain, -, -, hcell, -, -⟩ := exists_two_wideTuples
  have hbucket : L.bucketOf firstByte (.integer 257) = [id, id'] := hchain
  have hgood : ∀ b ∈ [id, id'], Good 3944 (s.page b) := fun b hb =>
    hinv.good (hinv.skeleton.own_chain.mp (hchain ▸ hb))
  have hocc : occ (s.page id) ≠ ∅ := by
    have hown := hinv.skeleton.own_chain.mp (hchain ▸ List.mem_cons_self : id ∈ L.chain 0 1)
    have hmem : k ∈ occ (s.page id) := (cell_ne_none_iff hown).mp (by simp [hcell])
    exact Finset.ne_empty_of_mem hmem
  have hwf : ∀ id ∈ L.bucketOf firstByte (.integer 257), WF (s.page id) := fun b hb => (hgood b (hbucket ▸ hb)).wf
  refine ⟨s, L, id, id', hinv.skeleton, hbucket, hwf, ?_⟩
  rw [lookup_whole_chain_iff firstByte wideSchema_hasKey hinv.skeleton _ hwf, hbucket]
  exact ⟨fun n sl hn _ => (hgood id (by simp)).unmarked n sl hn, fun h => absurd h hocc, fun _ _ =>
    ⟨fun n sl hn _ => (hgood id' (by simp)).unmarked n sl hn, fun _ b hb => absurd hb (by simp), fun _ _ => trivial⟩⟩

/-! ## A key behind a page without tuples -/

/-- The key 257 is in the second page of a bucket, the only tuple of the first page gets a key of another
bucket. The key 257 is not found any more, and it is inserted once more. -/
theorem key_behind_emptied_page : ∃ rid s₁ t₂ s₂ t₃ s₃ t₄ s₄,
    Table.insertTuple initFrames firstByte wideSchema 0 (wideTuple 1) newTable =
      some (true, (wideTuple 1).setRid rid, s₁) ∧
    Table.insertTuple initFrames firstByte wideSchema 0 (wideTuple 257) s₁ = some (true, t₂, s₂) ∧
    Table.updateTuple initFrames firstByte wideSchema 0 (wideTuple 2) rid s₂ = some (true, t₃, s₃) ∧
    HoldsKey wideSchema (.integer 257) (s₃.page t₂.rid.pageId) ∧
    lkHaCheckDuplicateKey firstByte wideSchema 0 (.integer 257) s₃ = some (none, s₃) ∧
    Table.insertTuple initFrames firstByte wideSchema 0 (wideTuple 257) s₃ = some (true, t₄, s₄) := by
  obtain ⟨id, k, s₁, id', k', s₂, L2, he1, he2, hinv, hchain, hnil, hne, hcell, hcell', hcard⟩ :=
    exists_two_wideTuples
  have hown : L2.own id = some (.bucket 0 1) := hinv.skeleton.own_chain.mp (by simp [hchain])
  have hown' : L2.own id' = some (.bucket 0 1) := hinv.skeleton.own_chain.mp (by simp [hchain])
  have hij : hashToSlot ((Value.integer 2).getHashValue firstByte) = (0, 2) := by decide
  rcases lkHaUpdateTuple_move hinv (show cell s₂ L2 id k = some (wideTuple 1).bytes by simp [hcell])
    (show keyOf wideSchema (wideTuple 2).bytes = some (.integer 2) by decide)
    (show keyOf wideSchema (wideTuple 1).bytes = some (.integer 1) by decide) wideSchema_hasKey (by norm_num)
    (by decide) (wideTuple_size 2) (by decide) (by rw [Layout.bucketOf, hij, hnil]; rfl) hij
    (blankIfFull_initFrames s₂ _) with ⟨-, hno⟩ | ⟨id3, k3, s₃, L3, he3, hm, hcard3, -⟩
  · exact absurd ⟨Allocator.firstFree_correct _, by omega⟩ hno
  have hocc : occ (s₂.page id) = {k} := by
    ext n
    rw [← cell_ne_none_iff hown, hcell, Finset.mem_singleton]
    simp
  have hempty := hm.occ_eq_empty hown (by decide) hocc
  have hchain3 : L3.bucketOf firstByte (.integer 257) = [id, id'] := by
    rw [← hchain]
    exact (hm.chain 0 1).resolve_right fun e => absurd e.2.1 (by decide)
  -- The tuple with the key 257 is where it was.
  have hholds : HoldsKey wideSchema (.integer 257) (s₃.page id') := by
    have hne' : ¬ (id' = id3 ∧ k' = k3) := by
      rintro ⟨rfl, -⟩
      have ho := hm.own_id
      rw [hm.own hown'] at ho
      simp at ho
    refine ⟨k', (hasKey_cell (hm.own hown')).mpr ⟨(wideTuple 257).bytes, ?_, .integer 257, by decide, by decide⟩⟩
    rw [hm.cell_eq, if_neg fun e => hne e.1.symm, if_neg hne', hcell', if_pos rfl]
  have hnone : findInChain wideSchema (.integer 257) s₃ (L3.bucketOf firstByte (.integer 257)) = none := by
    rw [hchain3, findInChain, if_pos (slotsFrom_zero_eq_nil_iff.mpr hempty)]
  have hcheck := lkHaCheckDuplicateKey_eq firstByte wideSchema_hasKey hm.inv.skeleton (.integer 257)
    (hm.inv.searchable _ _)
  rw [hnone] at hcheck
  obtain ⟨id4, k4, s₄, L4, he4, -⟩ := exists_insert_wideTuple 257 hm.inv (by omega) (by decide)
    (show hashToSlot _ = (0, 1) by decide) hnone
  refine ⟨⟨id, k⟩, s₁, (wideTuple 257).setRid ⟨id', k'⟩, s₂, (wideTuple 2).setRid ⟨id3, k3⟩, s₃,
    (wideTuple 257).setRid ⟨id4, k4⟩, s₄, ?_, ?_, ?_, hholds, hcheck, ?_⟩
  · rw [Table.insertTuple, he1]
    rfl
  · rw [Table.insertTuple, he2]
    rfl
  · rw [Table.updateTuple, he3]
    rfl
  · rw [Table.insertTuple, he4]
    rfl

/-! ## Marking by key -/

section Mark

variable (doHash : List UInt8 → UInt64)

/-- The tuple in a slot of a page is marked, and nothing else is changed. -/
structure MarkedAt (s : PageStore) (id : ℤ) (k : ℕ) (s' : PageStore) : Prop where
  slot_eq : slot (s'.page id) =
    Function.update (slot (s.page id)) k ((slot (s.page id) k).map fun sl => { sl with deleted := true })
  other : ∀ b ∈ s.ids, b ≠ id → s'.page b = s.page b

/-- What `lk_ha_mark_delete` should do: it succeeds exactly if the key is stored in the bucket, and then it
marks that tuple; otherwise it returns `TUPLE_NOT_FOUND`, and nothing is changed. -/
def MarksKeyed (schema : Schema) (root : ℤ) (keyValue : Value) (s : PageStore) (pages : List ℤ) : Prop :=
  ∃ code s', lkHaMarkDelete doHash schema root keyValue s = some (code, s') ∧
    (code = opSuccess ↔ ∃ id ∈ pages, HoldsKey schema keyValue (s.page id)) ∧
    ((∃ id ∈ pages, HoldsKey schema keyValue (s.page id)) →
      ∃ id ∈ pages, ∃ k, hasKey schema keyValue (s.page id) k = true ∧ MarkedAt s id k s') ∧
    ((¬ ∃ id ∈ pages, HoldsKey schema keyValue (s.page id)) → code = tupleNotFound ∧ s' = s)

theorem lkHaMarkDelete_eq (hs : schema.HasKey) (h : Skeleton s root L) (keyValue : Value)
    (hok : Searchable s (L.bucketOf doHash keyValue)) : lkHaMarkDelete doHash schema root keyValue s =
      (findInChain schema keyValue s (L.bucketOf doHash keyValue)).map fun _ => (opSuccess, s) := by
  rw [lkHaMarkDelete, lkHaGetTuple_eq doHash hs h keyValue hok]
  cases findInChain schema keyValue s (L.bucketOf doHash keyValue) with
  | some rid => rfl
  | none => simp [tupleNotFound, PageStore.modify, PageStore.getPage]

theorem markedAt_self {id : ℤ} {k : ℕ} {sl : Slot} (hsl : slot (s.page id) k = some sl) :
    MarkedAt s id k s ↔ sl.deleted = true := by
  obtain ⟨bytes, deleted⟩ := sl
  constructor
  · intro h
    have hk := congrFun h.slot_eq k
    rw [Function.update_self, hsl] at hk
    simpa using hk
  · rintro rfl
    refine ⟨?_, fun _ _ _ => rfl⟩
    rw [hsl, Option.map_some, ← hsl, Function.update_eq_self]

/-- `lk_ha_mark_delete` on a table whose buckets have one page each does what it should only where there is
nothing to do: a tuple with the key is marked already, and it is not the first one of its page. -/
theorem mark_delete_by_key_iff (hs : schema.HasKey) (h : Skeleton s root L)
    (hone : ∀ i j, (L.chain i j).length ≤ 1) (hwf : L.AllPages s WF) (keyValue : Value) :
    MarksKeyed doHash schema root keyValue s (L.bucketOf doHash keyValue) ↔
      (∀ id ∈ L.bucketOf doHash keyValue, FirstUnmarked (s.page id)) ∧
      ∃ id ∈ L.bucketOf doHash keyValue, ∃ k sl, hasKey schema keyValue (s.page id) k = true ∧
        slot (s.page id) k = some sl ∧ sl.deleted = true := by
  have hread : ∀ id ∈ L.bucketOf doHash keyValue, Readable (s.page id) ↔ FirstUnmarked (s.page id) :=
    fun id hid => (hwf (h.own_chain.mp hid)).readable_iff
  have hbucket : ∀ id ∈ L.bucketOf doHash keyValue, L.bucketOf doHash keyValue = [id] := by
    intro id hid
    obtain ⟨b, hb⟩ := List.length_eq_one_iff.mp (le_antisymm (hone _ _) (List.length_pos_of_mem hid))
    rw [Layout.bucketOf, hb, List.mem_singleton] at hid
    rw [Layout.bucketOf, hb, hid]
  by_cases hall : ∀ id ∈ L.bucketOf doHash keyValue, Readable (s.page id)
  swap
  · -- The search fails an assertion.
    push Not at hall
    obtain ⟨id, hid, hno⟩ := hall
    have hmark : lkHaMarkDelete doHash schema root keyValue s = none := by
      rw [lkHaMarkDelete, lkHaGetTuple, lkHaCheckDuplicateKey_searchChain doHash h, hbucket id hid, headOr_cons,
        searchChain_of_not_readable h.quiet (h.chain_mem hid) hno]
      rfl
    refine iff_of_false ?_ fun hr => hno ((hread id hid).mpr (hr.1 id hid))
    rintro ⟨code, s', he, -⟩
    rw [hmark] at he
    cases he
  have hmark := lkHaMarkDelete_eq doHash hs h keyValue (searchable_of_readable hall)
  rw [and_iff_right fun id hid => (hread id hid).mp (hall id hid)]
  cases hfind : findInChain schema keyValue s (L.bucketOf doHash keyValue) with
  | none =>
    -- The key is not stored, and the call does not return.
    rw [hfind, Option.map_none] at hmark
    refine iff_of_false ?_ ?_
    · rintro ⟨code, s', he, -⟩
      rw [hmark] at he
      cases he
    · rintro ⟨id, hid, k, sl, hk, -⟩
      rw [hbucket id hid] at hfind
      have hno := findInChain_none (show findInChain _ _ _ ([] ++ id :: []) = none from hfind)
        (List.forall_mem_nil _) k
      rw [hk] at hno
      cases hno
  | some rid =>
    rw [hfind, Option.map_some] at hmark
    obtain ⟨b, hb, n, -, hn⟩ := findInChain_some hfind
    have hholds : ∃ id ∈ L.bucketOf doHash keyValue, HoldsKey schema keyValue (s.page id) := ⟨b, hb, n, hn⟩
    constructor
    · rintro ⟨code, s', he, -, hstored, -⟩
      obtain ⟨-, rfl⟩ : code = opSuccess ∧ s' = s := by
        rw [hmark, Option.some.injEq, Prod.mk.injEq] at he
        exact ⟨he.1.symm, he.2.symm⟩
      obtain ⟨id, hid, k, hk, hm⟩ := hstored hholds
      obtain ⟨sl, v, hsl, -⟩ := hasKey_iff.mp hk
      exact ⟨id, hid, k, sl, hk, hsl, (markedAt_self hsl).mp hm⟩
    · rintro ⟨id, hid, k, sl, hk, hsl, hdel⟩
      exact ⟨opSuccess, s, hmark, iff_of_true rfl hholds,
        fun _ => ⟨id, hid, k, hk, (markedAt_self hsl).mpr hdel⟩, fun hno => absurd hholds hno⟩

end Mark

/-- The only tuple of a table is not marked, and it is not marked by its key. -/
theorem mark_delete_by_key_iff_insert : ∃ s L, Skeleton s 0 L ∧ (∀ i j, (L.chain i j).length ≤ 1) ∧
    L.AllPages s WF ∧ L.bucketOf firstByte (.integer 1) ≠ [] ∧
    ¬ MarksKeyed firstByte pairSchema 0 (.integer 1) s (L.bucketOf firstByte (.integer 1)) := by
  obtain ⟨id, k, s, L, -, hi, -⟩ := exists_insert_firstByte
  have hbucket : L.bucketOf firstByte (.integer 1) = [id] := hi.chain_newTable.1
  have hone : ∀ i j, (L.chain i j).length ≤ 1 := by
    intro i j
    by_cases hij : i = 0 ∧ j = 1
    · rw [hij.1, hij.2, hi.chain_newTable.1]
      exact le_rfl
    · rw [hi.chain_newTable.2 i j hij]
      exact Nat.zero_le 1
  have hwf : L.AllPages s WF := fun ho => (hi.inv.good ho).wf
  refine ⟨s, L, hi.inv.skeleton, hone, hwf, by simp [hbucket], ?_⟩
  rw [mark_delete_by_key_iff firstByte pairSchema_hasKey hi.inv.skeleton hone hwf]
  rintro ⟨-, b, hb, n, sl, -, hsl, hdel⟩
  rw [(hi.inv.good (hi.inv.skeleton.own_chain.mp hb)).unmarked n sl hsl] at hdel
  cases hdel

/-- The only tuple of a table is marked by its key. The call succeeds, and the tuple is not marked. Another key
is asked for in a table without tuples, and the call dereferences a `nullptr`. -/
theorem mark_delete_marks_nothing : ∃ rid s₁,
    Table.insertTuple zeroFrames firstByte pairSchema 0 (pairTuple 1 2) newTable =
      some (true, (pairTuple 1 2).setRid rid, s₁) ∧
    lkHaMarkDelete firstByte pairSchema 0 (.integer 1) s₁ = some (opSuccess, s₁) ∧
    (∃ k : ℕ, rid.slotNum = k ∧ slot (s₁.page rid.pageId) k = some ⟨(pairTuple 1 2).bytes, false⟩) ∧
    lkHaMarkDelete firstByte pairSchema 0 (.integer 1) newTable = none := by
  obtain ⟨id, k, s₁, L1, he, hi, -⟩ := exists_insert_firstByte
  have hgood := hi.inv.good hi.own_id
  have hbucket : L1.bucketOf firstByte (.integer 1) = [id] := hi.chain_newTable.1
  have hcell : cell s₁ L1 id k = some (pairTuple 1 2).bytes := by rw [hi.cell_eq, if_pos ⟨rfl, rfl⟩]
  have hkey : hasKey pairSchema (.integer 1) (s₁.page id) k = true :=
    (hasKey_cell hi.own_id).mpr ⟨_, hcell, .integer 1, by decide, by decide⟩
  have hfind : findInChain pairSchema (.integer 1) s₁ (L1.bucketOf firstByte (.integer 1)) = some ⟨id, k⟩ := by
    rw [hbucket]
    refine findInChain_eq_some (List.forall_mem_nil _) hkey fun n hn => ?_
    have hmem := mem_occ_of_hasKey hn
    rwa [hi.occ_newTable, Finset.mem_singleton] at hmem
  refine ⟨⟨id, k⟩, s₁, ?_, ?_, ⟨k, rfl, ?_⟩, ?_⟩
  · rw [Table.insertTuple, he]
    rfl
  · rw [lkHaMarkDelete_eq firstByte pairSchema_hasKey hi.inv.skeleton _ (hi.inv.searchable _ _), hfind]
    rfl
  · obtain ⟨a, b, ⟨bytes, deleted⟩, -, hsl, rfl⟩ := exists_slot_of_cell hcell
    obtain rfl : deleted = false := hgood.unmarked k _ hsl
    exact hsl
  · exact lkHaMarkDelete_eq firstByte pairSchema_hasKey (tableInv_newTable 8).skeleton _ trivial

end Dawn
