import Dawn.Table.LkHaTbIter
import Dawn.Table.Table

/-!
# Reading pages with marked tuples

A tuple that is marked as deleted has its mark in the sign of its size. `get_tuple` takes the mark off
before it allocates the tuple, `get_the_first_tuple` does not, and reading into a tuple that is not
allocated fails an assertion. So a page whose first tuple is marked can not be read by the lookup nor by a
scan, and every other page can (`marked_readers_iff`).
-/

namespace Dawn

open TablePage PageStore

variable {p : Page}

namespace TablePage

/-- The tuple in the first occupied slot is not marked. -/
def FirstUnmarked (p : Page) : Prop :=
  ∀ k sl, slot p k = some sl → (∀ n < k, slot p n = none) → sl.deleted = false

/-- `get_the_first_tuple` gives the tuple that `get_tuple` reads at the position at which
`get_next_tuple_rid` begins. -/
def ReadsFirst (p : Page) : Prop :=
  ∀ curRid nextRid : RID, curRid.pageId = invalidPageId → ∃ rid t,
    getNextTupleRid p curRid nextRid = (true, rid) ∧ getTuple p rid = some t ∧
    getTheFirstTuple p = some (some t)

theorem readsFirst_iff (hne : occ p ≠ ∅) : ReadsFirst p ↔ Readable p := by
  obtain ⟨k, rest, hslots⟩ := List.exists_cons_of_ne_nil (mt slotsFrom_zero_eq_nil_iff.mp hne)
  have hk : k ∈ occ p := (mem_slotsFrom.mp (hslots ▸ List.mem_cons_self)).2
  constructor
  · intro h hnone
    obtain ⟨rid, t, -, -, hfirst⟩ := h {} {} rfl
    rw [hnone] at hfirst
    cases hfirst
  · intro h curRid nextRid hcur
    have hf := firstSlot_eq p 0
    rw [hslots, List.head?_cons, Nat.cast_zero] at hf
    have hget := getTuple_eq p k p.pageId
    rw [slot_of_mem hk, Option.map_some] at hget
    refine ⟨⟨p.pageId, k⟩, _, ?_, hget, ?_⟩
    · simp only [getNextTupleRid, if_pos hcur, hf]
    · rw [h.getTheFirstTuple_eq, hslots, List.head?_cons, Option.bind_some, hget]

end TablePage

theorem searchPage_ne_none_iff {schema : Schema} {keyValue : Value} (hs : schema.HasKey)
    (hpid : p.pageId ≠ -1) : searchPage schema keyValue p ≠ none ↔ Readable p := by
  constructor
  · intro h hnone
    exact h (by rw [searchPage, hnone]; rfl)
  · intro h
    rw [searchPage_eq hs hpid h]
    simp

theorem readPage_ne_none_iff {curRid : RID} {tuple : Tuple} (hcur : curRid.pageId ≠ p.pageId) :
    LinkHashTableIter.readPage p curRid tuple ≠ none ↔ Readable p := by
  rw [LinkHashTableIter.readPage, if_neg hcur, Readable]
  cases getTheFirstTuple p with
  | none => simp
  | some t => cases t <;> simp

/-- The readers of a page with tuples are right, and the lookup and a scan get past it, exactly if its first
tuple is not marked. -/
theorem marked_readers_iff (h : WF p) (hne : occ p ≠ ∅) :
    (ReadsFirst p ↔ FirstUnmarked p) ∧
    (∀ (schema : Schema) (keyValue : Value), schema.HasKey → p.pageId ≠ -1 →
      (searchPage schema keyValue p ≠ none ↔ FirstUnmarked p)) ∧
    ∀ (curRid : RID) (tuple : Tuple), curRid.pageId ≠ p.pageId →
      (LinkHashTableIter.readPage p curRid tuple ≠ none ↔ FirstUnmarked p) := by
  have hr : Readable p ↔ FirstUnmarked p := h.readable_iff
  exact ⟨(readsFirst_iff hne).trans hr, fun schema v hs hpid => (searchPage_ne_none_iff hs hpid).trans hr,
    fun curRid t hcur => (readPage_ne_none_iff hcur).trans hr⟩

/-- A page with one tuple that is not marked. -/
theorem marked_readers_iff_insert : ∃ p, WF p ∧ occ p ≠ ∅ ∧ FirstUnmarked p ∧ ReadsFirst p ∧
    searchPage pairSchema (.integer 1) p ≠ none := by
  obtain ⟨id, k, i, j, s, L, -, hi⟩ := exists_insert_pairTuple firstByte
  have hgood := hi.inv.good hi.own_id
  have hne : occ (s.page id) ≠ ∅ := by
    refine Finset.ne_empty_of_mem (a := k) ((cell_ne_none_iff hi.own_id).mp ?_)
    rw [hi.cell_eq, if_pos ⟨rfl, rfl⟩]
    simp
  have hfirst : FirstUnmarked (s.page id) := fun n sl hn _ => hgood.unmarked n sl hn
  obtain ⟨hreads, hsearch, -⟩ := marked_readers_iff hgood.uniform.wf hne
  exact ⟨s.page id, hgood.uniform.wf, hne, hfirst, hreads.mpr hfirst,
    (hsearch _ _ pairSchema_hasKey (hi.inv.skeleton.quiet.ne_invalid
      (hi.inv.skeleton.own_mem hi.own_id))).mpr hfirst⟩

/-- The only tuple of a table is marked by its position. Looking its key up fails an assertion then. -/
theorem marked_tuple_breaks_lookup : ∃ rid s₁ s₂,
    Table.insertTuple zeroFrames firstByte pairSchema 0 (pairTuple 1 2) newTable =
      some (true, (pairTuple 1 2).setRid rid, s₁) ∧
    Table.markDeleteAt rid s₁ = some (true, s₂) ∧ WF (s₂.page rid.pageId) ∧
    occ (s₂.page rid.pageId) ≠ ∅ ∧ getTheFirstTuple (s₂.page rid.pageId) = none ∧
    Table.getTuple firstByte pairSchema 0 (.integer 1) s₂ = none := by
  obtain ⟨id, k, s₁, L1, he, hi, -⟩ := exists_insert_firstByte
  have hocc := hi.occ_newTable
  have hk : k ∈ occ (s₁.page id) := by simp [hocc]
  obtain ⟨s₂, hmark, hS, hids, hwf, hslot⟩ := hi.inv.markDeleteAt_spec hi.own_id hk
  have hid : id ∈ s₂.ids := hids ▸ hi.inv.skeleton.own_mem hi.own_id
  obtain ⟨bytes, hk2⟩ : ∃ bytes, slot (s₂.page id) k = some ⟨bytes, true⟩ := by
    rw [hslot, Function.update_self, slot_of_mem hk]
    exact ⟨_, rfl⟩
  -- there is no other tuple, so the marked one is the first
  have hnone : ¬ Readable (s₂.page id) := by
    rw [hwf.readable_iff]
    intro hall
    refine absurd (hall k _ hk2 fun n hn => ?_) (by simp)
    rw [hslot, Function.update_of_ne (by omega), ← not_ne_iff, slot_ne_none_iff, hocc, Finset.mem_singleton]
    omega
  have hbucket : L1.bucketOf firstByte (.integer 1) = [id] := hi.chain_newTable.1
  refine ⟨⟨id, k⟩, s₁, s₂, ?_, hmark, hwf, ?_, not_not.mp hnone, ?_⟩
  · rw [Table.insertTuple, he]
    rfl
  · have hne : slot (s₂.page id) k ≠ none := by simp [hk2]
    exact Finset.ne_empty_of_mem (slot_ne_none_iff.mp hne)
  · rw [Table.getTuple, lkHaGetTuple, lkHaCheckDuplicateKey_searchChain firstByte hS, hbucket, headOr_cons,
      searchChain_of_not_readable hS.quiet hid hnone]
    rfl

end Dawn
