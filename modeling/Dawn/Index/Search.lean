import Dawn.Index.Layout

/-!
# Looking up a key

`lk_ha_check_duplicate_key` walks the pages of the key's bucket in order and compares the key with that
of every tuple, up to the first page that has no tuple. `findInChain` is that search over the list of
the pages; the function computes it and leaves the store as it was (`lkHaCheckDuplicateKey_eq`), and
`lk_ha_get_tuple` returns the tuple that it finds (`lkHaGetTuple_eq`).
-/

namespace Dawn

open TablePage

/-- The schema has a key column of a type that values have, and a key goes through the buffer for it. -/
def Schema.HasKey (schema : Schema) : Prop :=
  ∃ col, schema.getColumn schema.keyIdx = some col ∧ col.columnType ≠ .kInvalid ∧ col.HasBuffer

variable {l : List ℤ} {k : ℕ} {id : ℤ}

theorem Schema.HasKey.exists_keyOf {schema : Schema} (h : schema.HasKey) (bytes : List UInt8) :
    ∃ v, keyOf schema bytes = some v := by
  obtain ⟨col, hcol, htype, hbuf⟩ := h
  simp only [keyOf, getValue, hcol, some_bind, readColumn, not_not.mpr hbuf, if_false]
  cases hc : col.columnType with
  | kInvalid => exact absurd hc htype
  | _ => simp [Value.ofMemory]

section Search

variable (schema : Schema) (keyValue : Value)

/-- The tuple in a slot of a page has the key. -/
def hasKey (p : Page) (k : ℕ) : Bool :=
  ((slot p k).bind fun sl => keyOf schema sl.bytes).any fun v => keyValue.opEq v

/-- The first tuple with the key in the pages of a bucket, before a page that has none. -/
def findInChain (s : PageStore) : List ℤ → Option RID
  | [] => none
  | id :: rest =>
    if slotsFrom (s.page id) 0 = [] then none
    else
      match (slotsFrom (s.page id) 0).find? (hasKey schema keyValue (s.page id)) with
      | some k => some ⟨id, k⟩
      | none => findInChain s rest

end Search

/-- The pages of a bucket can be read, up to the first one that has no tuple. -/
def Searchable (s : PageStore) : List ℤ → Prop
  | [] => True
  | id :: rest => Readable (s.page id) ∧ (slotsFrom (s.page id) 0 ≠ [] → Searchable s rest)

variable {schema : Schema} {keyValue : Value} {s : PageStore} {root : ℤ} {L : Layout} {p : Page}

theorem searchable_of_readable (h : ∀ id ∈ l, Readable (s.page id)) : Searchable s l := by
  induction l with
  | nil => trivial
  | cons id l ih =>
    exact ⟨h id List.mem_cons_self, fun _ => ih fun b hb => h b (List.mem_cons_of_mem id hb)⟩

theorem readable_of_searchable (h : Searchable s l)
    (hne : ∀ id ∈ l, slotsFrom (s.page id) 0 ≠ []) : ∀ id ∈ l, Readable (s.page id) := by
  induction l with
  | nil => simp
  | cons b l ih =>
    intro id hid
    rcases List.mem_cons.mp hid with rfl | hid
    · exact h.1
    · exact ih (h.2 (hne b List.mem_cons_self)) (fun c hc => hne c (List.mem_cons_of_mem b hc)) id hid

theorem hasKey_iff : hasKey schema keyValue p k = true ↔
    ∃ sl v, slot p k = some sl ∧ keyOf schema sl.bytes = some v ∧ keyValue.opEq v = true := by
  simp only [hasKey, Option.any_eq_true_iff_get, Option.isSome_bind]
  cases hs : slot p k with
  | none => simp
  | some sl =>
    cases hv : keyOf schema sl.bytes with
    | none => simp [hv]
    | some v => simp [hv]

theorem mem_occ_of_hasKey (h : hasKey schema keyValue p k = true) : k ∈ occ p := by
  obtain ⟨sl, v, hsl, -⟩ := hasKey_iff.mp h
  exact slot_ne_none_iff.mp (by simp [hsl])

theorem findInPage_step (keyValue : Value) (hs : schema.HasKey) (hpid : p.pageId ≠ -1)
    (hk : k ∈ occ p) (cmpTuple : Tuple) : ∃ t, findInPage schema keyValue p cmpTuple ⟨p.pageId, k⟩ =
      if hasKey schema keyValue p k then some (some ⟨p.pageId, k⟩) else
        match (slotsFrom p (k + 1)).head? with
        | some j => findInPage schema keyValue p t ⟨p.pageId, j⟩
        | none => some none := by
  have hsl := slot_of_mem hk
  obtain ⟨v, hv⟩ := hs.exists_keyOf (p.data.read (getTupleOffset p k) (tupleLen p k).toNat)
  refine ⟨Tuple.ofBytes ⟨p.pageId, k⟩ (p.data.read (getTupleOffset p k) (tupleLen p k).toNat), ?_⟩
  rw [findInPage]
  simp only [getTuple_eq, hsl, Option.map_some, Option.getD_some, Tuple.bytes_ofBytes, hv,
    Option.bind_eq_bind, Option.bind_some, hasKey, Option.any_some, Tuple.ofBytes_rid, getNextTupleRid_eq hpid]
  split_ifs
  · rfl
  · cases (slotsFrom p (k + 1)).head? <;> rfl

theorem findInPage_eq (hs : schema.HasKey) (hpid : p.pageId ≠ -1) {n : ℕ} {rest : List ℕ}
    (h : slotsFrom p n = k :: rest) (cmpTuple : Tuple) : findInPage schema keyValue p cmpTuple ⟨p.pageId, k⟩ =
      some (((k :: rest).find? (hasKey schema keyValue p)).map fun k : ℕ => ⟨p.pageId, k⟩) := by
  -- The induction is on the slots that are still to be looked at.
  induction rest generalizing n k cmpTuple with
  | nil =>
    have hk : k ∈ occ p := (mem_slotsFrom.mp (h ▸ List.mem_cons_self)).2
    obtain ⟨t, ht⟩ := findInPage_step keyValue hs hpid hk cmpTuple
    rw [ht, slotsFrom_succ h]
    cases hb : hasKey schema keyValue p k <;> simp [hb]
  | cons j rest ih =>
    have hk : k ∈ occ p := (mem_slotsFrom.mp (h ▸ List.mem_cons_self)).2
    obtain ⟨t, ht⟩ := findInPage_step keyValue hs hpid hk cmpTuple
    rw [ht, slotsFrom_succ h]
    cases hb : hasKey schema keyValue p k with
    | true => simp [hb]
    | false =>
      simp only [List.head?_cons, Bool.false_eq_true, if_false]
      rw [ih (slotsFrom_succ h), List.find?_cons_of_neg (a := k) (by simp [hb])]

theorem searchPage_eq (hs : schema.HasKey) (hpid : p.pageId ≠ -1) (hr : Readable p) :
    searchPage schema keyValue p = some (if slotsFrom p 0 = [] then .empty else
        match (slotsFrom p 0).find? (hasKey schema keyValue p) with
        | some k => .found ⟨p.pageId, k⟩
        | none => .absent (getNextPageId p)) := by
  rw [searchPage, hr.getTheFirstTuple_eq]
  cases h : slotsFrom p 0 with
  | nil => simp
  | cons k rest =>
    have hk : k ∈ occ p := (mem_slotsFrom.mp (h ▸ List.mem_cons_self)).2
    simp only [List.head?_cons, Option.bind_eq_bind, Option.bind_some, getTuple_eq, slot_of_mem hk,
      Option.map_some, Tuple.ofBytes_rid, findInPage_eq hs hpid h, reduceCtorEq, if_false]
    cases (k :: rest).find? (hasKey schema keyValue p) <;> rfl

theorem searchChain_step (hq : s.Quiet) (hid : id ∈ s.ids) : searchChain schema keyValue id s =
    (searchPage schema keyValue (s.page id)).bind fun
      | .empty => some (none, s)
      | .found rid => some (some rid, s)
      | .absent nextPageId => searchChain schema keyValue nextPageId s := by
  rw [searchChain, if_neg (show ¬ id = invalidPageId from hq.ne_invalid hid), hq.inspect hid]
  rfl

theorem searchChain_eq (hs : schema.HasKey) (hq : s.Quiet) (hmem : ∀ id ∈ l, id ∈ s.ids)
    (hlink : Linked (nextPage s) (-1) l) (hok : Searchable s l) :
    searchChain schema keyValue (headOr (-1) l) s = some (findInChain schema keyValue s l, s) := by
  induction l with
  | nil =>
    rw [searchChain]
    rfl
  | cons id l ih =>
    have hid : id ∈ s.ids := hmem id List.mem_cons_self
    rw [headOr_cons, searchChain_step hq hid, searchPage_eq hs (hq.ne_invalid hid) hok.1, findInChain]
    split_ifs with he
    · rfl
    · cases (slotsFrom (s.page id) 0).find? (hasKey schema keyValue (s.page id)) with
      | some k => rfl
      | none =>
        have hn : getNextPageId (s.page id) = headOr (-1) l := hlink.1
        simp only [Option.bind_some, hn]
        exact ih (fun b hb => hmem b (List.mem_cons_of_mem id hb)) hlink.2 (hok.2 he)

theorem searchChain_of_not_readable (hq : s.Quiet) (hid : id ∈ s.ids)
    (hr : ¬ Readable (s.page id)) : searchChain schema keyValue id s = none := by
  have hnone : getTheFirstTuple (s.page id) = none := not_not.mp hr
  rw [searchChain_step hq hid, searchPage, hnone]
  rfl

theorem searchChain_of_not_searchable (hs : schema.HasKey) (hq : s.Quiet)
    (hmem : ∀ id ∈ l, id ∈ s.ids) (hlink : Linked (nextPage s) (-1) l)
    (hno : ∀ id ∈ l, ∀ k, hasKey schema keyValue (s.page id) k = false) (hok : ¬ Searchable s l) :
    searchChain schema keyValue (headOr (-1) l) s = none := by
  induction l with
  | nil => exact absurd trivial hok
  | cons id l ih =>
    have hid : id ∈ s.ids := hmem id List.mem_cons_self
    rw [headOr_cons]
    by_cases hr : Readable (s.page id)
    · have hne' : slotsFrom (s.page id) 0 ≠ [] := fun he => hok ⟨hr, fun h => absurd he h⟩
      have hnone : (slotsFrom (s.page id) 0).find? (hasKey schema keyValue (s.page id)) = none :=
        List.find?_eq_none.mpr fun k _ => by simp [hno id List.mem_cons_self k]
      have hn : getNextPageId (s.page id) = headOr (-1) l := hlink.1
      rw [searchChain_step hq hid]
      simp only [Option.bind_some, searchPage_eq hs (show (s.page id).pageId ≠ -1 from hq.ne_invalid hid) hr,
        if_neg hne', hnone, hn]
      exact ih (fun b hb => hmem b (List.mem_cons_of_mem id hb)) hlink.2
        (fun b hb => hno b (List.mem_cons_of_mem id hb)) fun h => hok ⟨hr, fun _ => h⟩
    · exact searchChain_of_not_readable hq hid hr

/-! ## What the search finds -/

theorem findInChain_congr {s' : PageStore} (h : ∀ id ∈ l, s'.page id = s.page id) :
    findInChain schema keyValue s' l = findInChain schema keyValue s l := by
  induction l with
  | nil => rfl
  | cons id l ih =>
    simp only [findInChain, h id List.mem_cons_self, ih fun b hb => h b (List.mem_cons_of_mem id hb)]

theorem findInChain_some {rid : RID} (h : findInChain schema keyValue s l = some rid) :
    ∃ id ∈ l, ∃ k : ℕ, rid = ⟨id, k⟩ ∧ hasKey schema keyValue (s.page id) k = true := by
  induction l with
  | nil => simp [findInChain] at h
  | cons id l ih =>
    simp only [findInChain] at h
    split_ifs at h
    split at h
    · next k hk =>
      exact ⟨id, List.mem_cons_self, k, (Option.some.inj h).symm, List.find?_some hk⟩
    · obtain ⟨b, hb, hrest⟩ := ih h
      exact ⟨b, List.mem_cons_of_mem id hb, hrest⟩

theorem exists_slot_of_findInChain (h : findInChain schema keyValue s l = some ⟨id, k⟩) :
    id ∈ l ∧ ∃ sl v, slot (s.page id) k = some sl ∧ keyOf schema sl.bytes = some v ∧ keyValue.opEq v = true := by
  obtain ⟨b, hb, n, he, hk⟩ := findInChain_some h
  obtain ⟨rfl, hn⟩ : id = b ∧ (k : ℤ) = n := by simpa using he
  obtain rfl : k = n := by exact_mod_cast hn
  exact ⟨hb, hasKey_iff.mp hk⟩

theorem findInChain_none {pre post : List ℤ} (h : findInChain schema keyValue s (pre ++ id :: post) = none)
    (hpre : ∀ b ∈ pre, occ (s.page b) ≠ ∅) (k : ℕ) : hasKey schema keyValue (s.page id) k = false := by
  induction pre with
  | nil =>
    simp only [List.nil_append, findInChain] at h
    rw [Bool.eq_false_iff]
    intro hk
    have hmem : k ∈ slotsFrom (s.page id) 0 := mem_slotsFrom.mpr ⟨Nat.zero_le k, mem_occ_of_hasKey hk⟩
    split_ifs at h with he
    · simp [he] at hmem
    · split at h
      · cases h
      · next hn => exact List.find?_eq_none.mp hn k hmem hk
  | cons b pre ih =>
    have hb : slotsFrom (s.page b) 0 ≠ [] := fun he =>
      hpre b List.mem_cons_self (slotsFrom_zero_eq_nil_iff.mp he)
    simp only [List.cons_append, findInChain, if_neg hb] at h
    split at h
    · cases h
    · exact ih h fun c hc => hpre c (List.mem_cons_of_mem b hc)

theorem findInChain_of_forall (hno : ∀ b ∈ l, ∀ k, hasKey schema keyValue (s.page b) k = false) :
    findInChain schema keyValue s l = none := by
  induction l with
  | nil => rfl
  | cons b l ih =>
    have hnone : (slotsFrom (s.page b) 0).find? (hasKey schema keyValue (s.page b)) = none :=
      List.find?_eq_none.mpr fun k _ => by simp [hno b List.mem_cons_self k]
    simp only [findInChain, hnone, ih fun c hc => hno c (List.mem_cons_of_mem b hc), ite_self]

theorem findInChain_eq_some {pre post : List ℤ}
    (hpre : ∀ b ∈ pre, occ (s.page b) ≠ ∅ ∧ ∀ j, hasKey schema keyValue (s.page b) j = false)
    (hk : hasKey schema keyValue (s.page id) k = true)
    (huniq : ∀ j, hasKey schema keyValue (s.page id) j = true → j = k) :
    findInChain schema keyValue s (pre ++ id :: post) = some ⟨id, k⟩ := by
  induction pre with
  | nil =>
    have hmem : k ∈ slotsFrom (s.page id) 0 := mem_slotsFrom.mpr ⟨Nat.zero_le k, mem_occ_of_hasKey hk⟩
    simp only [List.nil_append, findInChain, if_neg (List.ne_nil_of_mem hmem)]
    cases hf : (slotsFrom (s.page id) 0).find? (hasKey schema keyValue (s.page id)) with
    | none => exact absurd hk (List.find?_eq_none.mp hf k hmem)
    | some j => simp [huniq j (List.find?_some hf)]
  | cons b pre ih =>
    obtain ⟨hne, hno⟩ := hpre b List.mem_cons_self
    have hn : (slotsFrom (s.page b) 0).find? (hasKey schema keyValue (s.page b)) = none :=
      List.find?_eq_none.mpr fun j _ => by simp [hno j]
    have hb : slotsFrom (s.page b) 0 ≠ [] := fun he => hne (slotsFrom_zero_eq_nil_iff.mp he)
    simp only [List.cons_append, findInChain, if_neg hb, hn]
    exact ih fun c hc => hpre c (List.mem_cons_of_mem b hc)

/-! ## The functions -/

/-- The pages of the bucket that a key belongs to. -/
def Layout.bucketOf (L : Layout) (doHash : List UInt8 → UInt64) (keyValue : Value) : List ℤ :=
  L.chain (hashToSlot (keyValue.getHashValue doHash)).1 (hashToSlot (keyValue.getHashValue doHash)).2

section Functions

variable (doHash : List UInt8 → UInt64) (hs : schema.HasKey) (h : Skeleton s root L)
  (keyValue : Value) (hok : Searchable s (L.bucketOf doHash keyValue))

include h in
theorem lkHaCheckDuplicateKey_searchChain : lkHaCheckDuplicateKey doHash schema root keyValue s =
    searchChain schema keyValue (headOr (-1) (L.bucketOf doHash keyValue)) s := by
  unfold lkHaCheckDuplicateKey Layout.bucketOf
  generalize hashToSlot (keyValue.getHashValue doHash) = ij
  obtain ⟨i, j⟩ := ij
  simp only [h.quiet.inspect h.root_mem, some_bind]
  by_cases hi : secondPage s root i = -1
  · rw [if_pos (show LinkHashPage.getPgidInSlot (s.page root) i = invalidPageId from hi), h.chain_nil j hi, searchChain]
    rfl
  · rw [if_neg (show ¬ LinkHashPage.getPgidInSlot (s.page root) i = invalidPageId from hi)]
    change ((s.inspect (secondPage s root i) _).bind _) = _
    rw [h.quiet.inspect (h.second_mem hi), Option.bind_some, h.head j hi]

include hs h hok

theorem lkHaCheckDuplicateKey_eq : lkHaCheckDuplicateKey doHash schema root keyValue s =
    some (findInChain schema keyValue s (L.bucketOf doHash keyValue), s) := by
  rw [lkHaCheckDuplicateKey_searchChain doHash h]
  exact searchChain_eq hs h.quiet (fun id hid => h.chain_mem hid) (h.linked _ _) hok

theorem lkHaGetTuple_eq : lkHaGetTuple doHash schema root keyValue s =
    match findInChain schema keyValue s (L.bucketOf doHash keyValue) with
    | none => some (tupleNotFound, none, s)
    | some rid => some (opSuccess, getTuple (s.page rid.pageId) rid, s) := by
  rw [lkHaGetTuple, lkHaCheckDuplicateKey_eq doHash hs h keyValue hok]
  simp only [Option.bind_eq_bind, Option.bind_some]
  cases hf : findInChain schema keyValue s (L.bucketOf doHash keyValue) with
  | none => rfl
  | some rid =>
    obtain ⟨id, hid, k, rfl, hk⟩ := findInChain_some hf
    obtain ⟨sl, v, hsl, -⟩ := hasKey_iff.mp hk
    simp only [h.quiet.inspect (h.chain_mem hid), Option.bind_some, getTuple_eq, hsl,
      Option.map_some, Option.isSome_some, if_true]

end Functions

end Dawn
