import Dawn.Index.InsertSpec
import Dawn.Index.Delete

/-!
# Updating a tuple

`lk_ha_update_tuple` writes a tuple in place when its key stays the same. When the key changes it
inserts the new tuple first and then deletes the old one in its page, with that page pinned all the
time; when the new key is taken it returns without `unpin_page`, so the pin is never given back
(`lkHaUpdateTuple_dup`). The page of the old tuple stays where it is, also when it is empty then.
-/

namespace Dawn

open TablePage PageStore

variable {al : Allocator} {sz : ℤ} {s : PageStore} {root i j id : ℤ} {L : Layout} {schema : Schema}
  {doHash : List UInt8 → UInt64} {t : Tuple} {k : ℕ} {v old : Value} {bytes : List UInt8}

variable {s' : PageStore} {L' : Layout}

theorem Skeleton.guard (h : Skeleton s root L) (e : ℤ → ℤ) : Skeleton (s.guard e ∅) root L :=
  h.congr (h.quiet.guard e) h.own_mem (fun _ _ => rfl) fun _ => rfl

theorem TableInv.guard (h : TableInv sz s root L) (e : ℤ → ℤ) : TableInv sz (s.guard e ∅) root L :=
  ⟨h.skeleton.guard e, fun ho => h.good ho⟩

theorem exists_slot_of_cell (h : cell s L id k = some bytes) :
    ∃ a b sl, L.own id = some (.bucket a b) ∧ slot (s.page id) k = some sl ∧ sl.bytes = bytes := by
  unfold cell at h
  split at h
  · next a b ho =>
    obtain ⟨sl, hsl, hb⟩ := Option.map_eq_some_iff.mp h
    exact ⟨a, b, sl, ho, hsl, hb⟩
  · cases h

/-- The tuple at a page and slot has moved to another one, with other bytes. -/
structure Moved (sz root : ℤ) (s : PageStore) (L : Layout) (i j id : ℤ) (k : ℕ) (id' : ℤ) (k' : ℕ)
    (bytes : List UInt8) (s' : PageStore) (L' : Layout) : Prop where
  /-- The table is as it should be. -/
  inv : TableInv sz s' root L'
  /-- The new slot was empty. -/
  cell_none : cell s L id' k' = none
  /-- The new tuple is there now, the old one is gone, and every other slot is as it was. -/
  cell_eq : ∀ b n, cell s' L' b n =
    if b = id ∧ n = k then none else if b = id' ∧ n = k' then some bytes else cell s L b n
  /-- The new page is one of the bucket's. -/
  own_id : L'.own id' = some (.bucket i j)
  /-- The pages of the table stay its pages. -/
  own : ∀ {b : ℤ} {o : Owner}, L.own b = some o → L'.own b = some o
  /-- The bucket has one page more, if it was full, and the other buckets have their pages. -/
  chain : ∀ a b : ℤ, L'.chain a b = L.chain a b ∨
    a = i ∧ b = j ∧ L'.chain a b = L.chain a b ++ [id'] ∧ ∀ c ∈ L.chain i j, Full sz (s.page c)
  /-- It is in the first page of the bucket that was not full. -/
  before : ∃ pre post, L'.chain i j = pre ++ id' :: post ∧ ∀ c ∈ pre, Full sz (s.page c)
  /-- The new page was not full, if it is not a new page. -/
  room : ∀ {a b : ℤ}, L.own id' = some (.bucket a b) → ¬ Full sz (s.page id')
  /-- No page goes. -/
  ids : s.ids ⊆ s'.ids
  /-- Nobody's pins change, and nobody has a new page pinned. -/
  pins : PinsKept s s'

theorem Moved.occ_eq_empty {id' : ℤ} {k' : ℕ} {a b : ℤ}
    (h : Moved sz root s L i j id k id' k' bytes s' L') (ho : L.own id = some (.bucket a b))
    (hab : ¬ (a = i ∧ b = j)) (hocc : occ (s.page id) = {k}) : occ (s'.page id) = ∅ := by
  rw [Finset.eq_empty_iff_forall_notMem]
  intro n hn
  rw [← cell_ne_none_iff (h.own ho), h.cell_eq] at hn
  split_ifs at hn with h1 h2
  · exact hn rfl
  · have ho' := h.own_id
    rw [← h2.1, h.own ho] at ho'
    exact hab (by simpa using ho')
  · have hmem : n ∈ occ (s.page id) := (cell_ne_none_iff ho).mp hn
    rw [hocc, Finset.mem_singleton] at hmem
    exact h1 ⟨rfl, hmem⟩

theorem Moved.first {id' : ℤ} {k' : ℕ} (h : Moved sz root s L i j id k id' k' bytes s' L') :
    ∀ c ∈ (L.chain i j).head?, ¬ Full sz (s.page c) → c = id' := by
  intro c hc hroom
  have hchain : L'.chain i j = L.chain i j :=
    (h.chain i j).resolve_right fun ⟨_, _, _, hfull⟩ => hroom (hfull c (List.mem_of_mem_head? hc))
  obtain ⟨pre, post, hpos, hpre⟩ := h.before
  rw [← hchain, hpos] at hc
  cases pre with
  | nil => simpa using hc.symm
  | cons b pre =>
    obtain rfl : b = c := by simpa using hc
    exact absurd (hpre b List.mem_cons_self) hroom

theorem Inserted.before_full (h : Inserted sz root s L i j id k bytes s' L') (hS : Skeleton s root L) :
    ∃ pre post, L'.chain i j = pre ++ id :: post ∧ ∀ c ∈ pre, Full sz (s.page c) := by
  obtain ⟨pre, post, hpos, hpre⟩ := h.before
  refine ⟨pre, post, hpos, fun c hc => ?_⟩
  have hnd := h.inv.skeleton.nodup i j
  rw [hpos] at hnd
  have hne : c ≠ id := fun e => List.disjoint_of_nodup_append hnd hc (e ▸ List.mem_cons_self)
  have hcL : c ∈ L.chain i j := by
    have hmem : c ∈ L'.chain i j := by simp [hpos, hc]
    rcases h.chain i j with he | ⟨-, -, he, -⟩
    · rwa [he] at hmem
    · simpa [he, hne] using hmem
  have ho := hS.own_chain.mp hcL
  -- A page other than the one that was written has the tuples that it had.
  have hocc : occ (s'.page c) = occ (s.page c) := by
    ext n
    rw [← cell_ne_none_iff (h.own ho), ← cell_ne_none_iff ho, h.cell_eq, if_neg fun hb => hne hb.1]
  rw [Full, ← hocc]
  exact hpre c hc

theorem Inserted.room (h : Inserted sz root s L i j id k bytes s' L')
    (hsz : 8 ≤ sz) {a b : ℤ} (ho : L.own id = some (.bucket a b)) : ¬ Full sz (s.page id) := by
  have ho' := h.own ho
  have hocc : occ (s'.page id) = insert k (occ (s.page id)) := by
    ext n
    rw [← cell_ne_none_iff ho', h.cell_eq, Finset.mem_insert, ← cell_ne_none_iff ho]
    by_cases hn : n = k <;> simp [hn]
  have hk : k ∉ occ (s.page id) := by
    rw [← cell_ne_none_iff ho, not_not]
    exact h.cell_none
  have hle := Uniform.card_le_capacity hsz (h.inv.good ho').uniform
  rw [hocc, Finset.card_insert_of_notMem hk] at hle
  rw [Full]
  omega

theorem Inserted.remove {id' : ℤ} {k' : ℕ} {old : List UInt8}
    (hsz : 8 ≤ sz) (h : TableInv sz s root L) (hcell : cell s L id k = some old)
    (hins : Inserted sz root (s.guard (Pi.single id 1) ∅) L i j id' k' bytes s' L') :
    (markDelete (s'.page id) ⟨id, k⟩).1 = true ∧
    Moved sz root s L i j id k id' k' bytes ((s'.guard (-Pi.single id 1) ∅).put id
      (applyDelete (markDelete (s'.page id) ⟨id, k⟩).2 ⟨id, k⟩)) L' := by
  obtain ⟨a, b, sl, ho, hsl, rfl⟩ := exists_slot_of_cell hcell
  have ho' := hins.own ho
  -- The slot where the new tuple is was empty, so it is another one.
  have hother : ¬ (id = id' ∧ k = k') := by
    rintro ⟨rfl, rfl⟩
    exact absurd (hins.cell_none.symm.trans hcell) (by simp)
  have hk : k ∈ occ (s'.page id) := by
    rw [← cell_ne_none_iff ho', hins.cell_eq, if_neg hother]
    exact fun hn => absurd (hn.symm.trans hcell) (by simp)
  obtain ⟨hmark, hgood, hnext, hslot⟩ := (hins.inv.good ho').markApplyDelete hsz hk
  have hframe : (s'.page id).SameFrame (applyDelete (markDelete (s'.page id) ⟨id, k⟩).2 ⟨id, k⟩) :=
    (sameFrame_markDelete _ _).trans (sameFrame_applyDelete _ _)
  have hrem := cell_remove (s := s'.guard (-Pi.single id 1) ∅) ho' hframe hslot
  refine ⟨hmark, (hins.inv.guard _).put ho' hgood hframe hnext, hins.cell_none, fun b n => ?_, hins.own_id,
    hins.own, hins.chain, hins.before_full (h.guard _).skeleton, hins.room hsz, hins.ids,
    fun b hb => ?_⟩
  · rw [hrem]
    exact if_congr Iff.rfl rfl (hins.cell_eq b n)
  · have hp := hins.pins b hb
    change s'.pins b + (-Pi.single id 1 : ℤ → ℤ) b = _
    rw [hp]
    change (if b ∈ s.ids then s.pins b + (Pi.single id 1 : ℤ → ℤ) b else 0) + _ = _
    by_cases hbs : b ∈ s.ids
    · simp [hbs]
    · have hne : b ≠ id := fun e => hbs (e ▸ h.skeleton.own_mem ho)
      simp [hbs, hne]

/-! ## The calls -/

/-- What `lk_ha_update_tuple` does once the new tuple has been inserted. -/
def deleteOld (id : ℤ) (k : ℕ) (newTuple : Tuple) (s : PageStore) : Option (ℤ × Tuple × PageStore) := do
  let s ← s.wLock id
  let (marked, p) := markDelete (s.page id) ⟨id, k⟩
  let s := s.put id p
  if ¬ marked then
    let s ← (s.wUnlock id).unpinPage id false
    some (markDeleteFail, newTuple, s)
  else
    let s := s.put id (applyDelete (s.page id) ⟨id, k⟩)
    let s ← (s.wUnlock id).unpinPage id true
    some (opSuccess, newTuple, s)

theorem deleteOld_eq (hq : s.Quiet) (hid : id ∈ s.ids) (hmark : (markDelete (s.page id) ⟨id, k⟩).1 = true) :
    deleteOld id k t (s.guard (Pi.single id 1) ∅) =
      some (opSuccess, t, s.put id (applyDelete (markDelete (s.page id) ⟨id, k⟩).2 ⟨id, k⟩)) := by
  have hf := sameFrame_markDelete (s.page id) ⟨id, k⟩
  simp only [deleteOld, Option.bind_eq_bind, wLock_guard (hq.free id hid) (Finset.notMem_empty id),
    Option.bind_some, guard_page, guard_put, hmark, page_put_self hf, put_put, not_true_eq_false, if_false]
  rw [release_guard (by exact hid) (by exact hq.free id hid) (by simp), sub_self,
    Finset.erase_insert (Finset.notMem_empty id), guard_zero]
  rfl

section Calls

variable {sl : Slot} (hq : s.Quiet) (hid : id ∈ s.ids) (hwf : WF (s.page id))
  (hsl : slot (s.page id) k = some sl)
include hq hid hwf hsl

theorem getTupleDirectly_of_slot :
    getTupleDirectly ⟨id, k⟩ s = some (opSuccess, some (Tuple.ofBytes ⟨id, k⟩ sl.bytes), s) := by
  have hk : k ∈ occ (s.page id) := slot_ne_none_iff.mp (by simp [hsl])
  simp [getTupleDirectly, hq.getPage hid, hq.inspect hid, hwf.atRecord_eq hk, getTuple_eq, hsl]

variable (hv : keyOf schema t.bytes = some v) (hold : keyOf schema sl.bytes = some old)
include hv hold

theorem lkHaUpdateTuple_inPlace (heq : v.opEq old = true) : lkHaUpdateTuple al doHash schema root t ⟨id, k⟩ s =
      some (opSuccess, t.setRid ⟨id, k⟩, s.put id (updateTuple (s.page id) t ⟨id, k⟩).2) := by
  simp only [lkHaUpdateTuple, hv, getTupleDirectly_of_slot hq hid hwf hsl, some_bind,
    hq.getPage hid, Tuple.bytes_ofBytes, hold, heq, if_true,
    wLock_guard (hq.free id hid) (Finset.notMem_empty id), guard_put, guard_page]
  rw [release_guard (by exact hid) (by exact hq.free id hid) (by simp), sub_self,
    Finset.erase_insert (Finset.notMem_empty id), guard_zero]
  rfl

theorem lkHaUpdateTuple_insert (hne : v.opEq old = false) : lkHaUpdateTuple al doHash schema root t ⟨id, k⟩ s =
      (lkHaInsertTuple al doHash schema root t (s.guard (Pi.single id 1) ∅)).bind fun r =>
        if r.1 = dupKey then some (dupKey, r.2.1, r.2.2) else deleteOld id k r.2.1 r.2.2 := by
  simp only [lkHaUpdateTuple, hv, getTupleDirectly_of_slot hq hid hwf hsl, Option.bind_eq_bind, Option.bind_some,
    hq.getPage hid, Tuple.bytes_ofBytes, hold, hne, Bool.false_eq_true, if_false, deleteOld]

end Calls

/-! ## Tables -/

section Update

variable (h : TableInv sz s root L) (hcell : cell s L id k = some bytes)
  (hv : keyOf schema t.bytes = some v) (hold : keyOf schema bytes = some old)
include h hcell hv hold

theorem lkHaUpdateTuple_same (hsz : 8 ≤ sz) (ht : t.size = sz) (heq : v.opEq old = true) :
    ∃ s', lkHaUpdateTuple al doHash schema root t ⟨id, k⟩ s = some (opSuccess, t.setRid ⟨id, k⟩, s') ∧
      TableInv sz s' root L ∧ s'.ids = s.ids ∧ s'.pins = s.pins ∧
      (∀ b n, cell s' L b n = if b = id ∧ n = k then some t.bytes else cell s L b n) ∧ Bystanders s L s' L := by
  obtain ⟨a, b, sl, ho, hsl, rfl⟩ := exists_slot_of_cell hcell
  have hk : k ∈ occ (s.page id) := slot_ne_none_iff.mp (by simp [hsl])
  have hf := sameFrame_updateTuple (s.page id) t ⟨id, k⟩
  obtain ⟨hg, hn, hs⟩ := (h.good ho).updateTuple hsz hk ht
  rw [page_pageId] at hg hn hs
  refine ⟨_, lkHaUpdateTuple_inPlace h.skeleton.quiet (h.skeleton.own_mem ho) (h.good ho).wf hsl hv hold heq,
    h.put ho hg hf hn, rfl, rfl, fun b n => ?_, .put ho _⟩
  rw [cell_put ho hf]
  by_cases hb : b = id
  · subst hb
    by_cases hnk : n = k
    · simp [hs, hnk]
    · simp [hs, hnk, cell_eq_of_own ho]
  · simp [hb]

theorem lkHaUpdateTuple_dup (hkey : schema.HasKey) (hne : v.opEq old = false) {rid : RID}
    (hdup : findInChain schema v s (L.bucketOf doHash v) = some rid) :
    lkHaUpdateTuple al doHash schema root t ⟨id, k⟩ s = some (dupKey, t, s.guard (Pi.single id 1) ∅) := by
  obtain ⟨a, b, sl, ho, hsl, rfl⟩ := exists_slot_of_cell hcell
  rw [← findInChain_congr fun b _ => guard_page (Pi.single id 1) ∅] at hdup
  rw [lkHaUpdateTuple_insert h.skeleton.quiet (h.skeleton.own_mem ho) (h.good ho).wf hsl hv hold hne,
    lkHaInsertTuple_dup doHash hkey (h.guard (Pi.single id 1)) hv hdup, Option.bind_some, if_pos rfl]

theorem lkHaUpdateTuple_move (hkey : schema.HasKey) (hsz : 8 ≤ sz) (hcap : 0 < getTpNumCapacity sz)
    (ht : t.size = sz) (hne : v.opEq old = false) (hno : findInChain schema v s (L.bucketOf doHash v) = none)
    (hij : hashToSlot (v.getHashValue doHash) = (i, j)) (hblank : BlankIfFull al sz s (L.chain i j)) :
    lkHaUpdateTuple al doHash schema root t ⟨id, k⟩ s = none ∧ ¬ (al.Correct ∧ s.ids.card + 2 ≤ 2^31) ∨
    ∃ id' k' s' L', lkHaUpdateTuple al doHash schema root t ⟨id, k⟩ s = some (opSuccess, t.setRid ⟨id', (k' : ℕ)⟩, s') ∧
      Moved sz root s L i j id k id' k' t.bytes s' L' ∧ s'.ids.card ≤ s.ids.card + 3 ∧ Bystanders s L s' L' := by
  obtain ⟨a, b, sl, ho, hsl, rfl⟩ := exists_slot_of_cell hcell
  have hid := h.skeleton.own_mem ho
  have hg := h.guard (Pi.single id 1)
  rw [← findInChain_congr fun b _ => guard_page (Pi.single id 1) ∅] at hno
  rw [lkHaUpdateTuple_insert h.skeleton.quiet hid (h.good ho).wf hsl hv hold hne]
  rcases lkHaInsertTuple_cases doHash hkey hsz hcap hg ht hv hno hij hblank with
    ⟨he, hids⟩ | ⟨id', k', s', L', he, hins, hcard, hby⟩
  · exact Or.inl ⟨by rw [he]; rfl, hids⟩
  obtain ⟨hmark, hmoved⟩ := hins.remove hsz h hcell
  refine Or.inr ⟨id', k', _, L', ?_, hmoved, hcard, hby.trans (.put (hins.own ho) _)⟩
  have hdel := deleteOld_eq (t := t.setRid ⟨id', k'⟩) (hins.inv.skeleton.quiet.guard (-Pi.single id 1))
    (hins.ids hid) hmark
  rw [guard_neg_guard] at hdel
  rw [he, Option.bind_some, if_neg (show ¬ opSuccess = dupKey by decide)]
  exact hdel

end Update

end Dawn
