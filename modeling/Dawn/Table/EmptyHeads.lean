import Dawn.Table.Runs
import Dawn.Table.Scan

/-!
# First pages without tuples

The constructor of the scan's iterator ends the process at a first page of a bucket that has no tuple.
`apply_delete` clears such pages away, but `update_tuple` with a new key does not: it deletes the old tuple
and leaves its page where it is. So the first pages of the buckets have tuples in every run in which no
update takes the only tuple out of such a page, and in no other (`slots_filled_iff`).
-/

namespace Dawn

open TablePage PageStore

variable {al : Allocator} {sz : ℤ} {doHash : List UInt8 → UInt64} {schema : Schema} {root : ℤ}
  {s s' : PageStore} {L L' : Layout} {c : TableCall} {reply : TableReply}

/-- Every slot of a second level page that holds a page id holds that of a table page with a tuple. -/
def SlotsFilled (s : PageStore) (root : ℤ) : Prop :=
  ∀ i j, secondPage s root i ≠ invalidPageId →
    LinkHashPage.getPgidInSlot (s.page (secondPage s root i)) j ≠ invalidPageId →
    getStoredTupleCnt (s.page (LinkHashPage.getPgidInSlot (s.page (secondPage s root i)) j)) ≠ 0

theorem Skeleton.slotsFilled_iff (h : Skeleton s root L) : SlotsFilled s root ↔ HeadsFilled s L := by
  constructor
  · intro hf i j id hid
    have hmem := List.mem_of_mem_head? hid
    have hsec := h.second_ne hmem
    have hslot : LinkHashPage.getPgidInSlot (s.page (secondPage s root i)) j = id := by
      rw [h.head j hsec, headOr, Option.mem_def.mp hid]
      rfl
    have hcnt := hf i j hsec
    rw [hslot] at hcnt
    exact fun he => hcnt (h.quiet.ne_invalid (h.chain_mem hmem)) (getStoredTupleCnt_eq_zero_iff.mpr he)
  · intro hf i j hsec hne hcnt
    rw [h.head j hsec] at hne hcnt
    have hc : L.chain i j ≠ [] := fun he => hne (by rw [he]; rfl)
    cases hl : L.chain i j with
    | nil => exact hc hl
    | cons id l =>
      exact hf (by rw [hl]; rfl) (getStoredTupleCnt_eq_zero_iff.mp hcnt)

namespace TableCall

/-- The call is an update that takes the only tuple out of the first page of a bucket: its key becomes one
that the table does not have, and the new tuple goes to another bucket, or the page is full with one
tuple. -/
def EmptiesHead (sz : ℤ) (doHash : List UInt8 → UInt64) (schema : Schema) (s : PageStore) (L : Layout) :
    TableCall → Prop
  | updateTuple t rid => ∃ (id : ℤ) (k : ℕ) (v : Value) (a b : ℤ), rid = ⟨id, k⟩ ∧
    keyOf schema t.bytes = some v ∧ hasKey schema v (s.page id) k = false ∧
    findInChain schema v s (L.bucketOf doHash v) = none ∧
    id ∈ (L.chain a b).head? ∧ occ (s.page id) = {k} ∧
    (hashToSlot (v.getHashValue doHash) ≠ (a, b) ∨ Full sz (s.page id))
  | _ => False

theorem Outcome.headsFilled_iff (h : TableInv sz s root L) (hf : HeadsFilled s L)
    (ho : Outcome sz doHash schema root s L c reply s' L') :
    HeadsFilled s' L' ↔ ¬ c.EmptiesHead sz doHash schema s L := by
  cases ho with
  | taken | found | missing | absent => exact iff_of_true hf fun he => he
  | inserted _ _ _ hi => exact iff_of_true (hi.headsFilled h.skeleton hf) fun he => he
  | deleted _ hfind hd =>
    obtain ⟨hid, -⟩ := exists_slot_of_findInChain hfind
    exact iff_of_true (hd.headsFilled h.skeleton (h.skeleton.own_chain.mp hid) hf) fun he => he
  | replaced hcell hv hold heq hinv _ _ hcells =>
    refine iff_of_true ?_ ?_
    · rw [HeadsFilled.iff_cell h.skeleton] at hf
      rw [HeadsFilled.iff_cell hinv.skeleton]
      intro a b c hc
      obtain ⟨n, hn⟩ := hf hc
      refine ⟨n, ?_⟩
      rw [hcells]
      split_ifs
      · simp
      · exact hn
    · -- The tuple keeps its key.
      rintro ⟨id, k, v, a, b, hrid, hv', hother, -⟩
      obtain ⟨rfl, rfl⟩ := hrid
      obtain rfl := Option.some.inj (hv.symm.trans hv')
      obtain ⟨-, -, sl, -, hsl, rfl⟩ := exists_slot_of_cell hcell
      rw [hasKey_iff.mpr ⟨sl, _, hsl, hold, heq⟩] at hother
      cases hother
  | collided hcell hv hold hne hfind =>
    refine iff_of_true hf ?_
    rintro ⟨id, k, v, a, b, -, hv', -, hnone, -⟩
    obtain rfl := Option.some.inj (hv.symm.trans hv')
    rw [hfind] at hnone
    cases hnone
  | @moved t v old i j id id' k k' bytes s' L' hcell hv hold hne hij hfind hm =>
    rw [hm.headsFilled_iff h.skeleton hcell hf, not_iff_not]
    have hother : hasKey schema v (s.page id) k = false := by
      obtain ⟨-, -, sl, -, hsl, rfl⟩ := exists_slot_of_cell hcell
      simp [hasKey, hsl, hold, hne]
    constructor
    · rintro ⟨a, b, hid, hocc, hout⟩
      exact ⟨id, k, v, a, b, rfl, hv, hother, by rw [Layout.bucketOf, hij, hfind], hid, hocc, hij ▸ hout⟩
    · rintro ⟨id1, k1, v1, a, b, hrid, hv1, -, -, hid, hocc, hout⟩
      obtain ⟨rfl, rfl⟩ := hrid
      obtain rfl := Option.some.inj (hv.symm.trans hv1)
      exact ⟨a, b, hid, hocc, hij ▸ hout⟩

end TableCall

/-! ## Runs -/

/-- In the state, the call takes the only tuple out of the first page of a bucket. -/
def EmptiesHeadIn (sz : ℤ) (doHash : List UInt8 → UInt64) (schema : Schema) (root : ℤ) (s : PageStore)
    (c : TableCall) : Prop :=
  ∃ L, Skeleton s root L ∧ c.EmptiesHead sz doHash schema s L

/-- A call that takes no tuple out of a first page that has one tuple. -/
def CarefulTableStep (al : Allocator) (sz : ℤ) (doHash : List UInt8 → UInt64) (schema : Schema) (root : ℤ)
    (s : PageStore) (l : TableCall × TableReply) (s' : PageStore) : Prop :=
  TableStep al sz doHash schema root s l s' ∧ ¬ EmptiesHeadIn sz doHash schema root s l.1

theorem TableCall.emptiesHead_iff (h : Skeleton s root L) :
    EmptiesHeadIn sz doHash schema root s c ↔ c.EmptiesHead sz doHash schema s L := by
  refine ⟨fun ⟨L1, h1, he⟩ => ?_, fun he => ⟨L, h, he⟩⟩
  cases c with
  | updateTuple t rid =>
    simp only [EmptiesHead, Layout.bucketOf, h1.chain_unique h] at he ⊢
    exact he
  | _ => exact he

theorem getTpNumCapacity_pos (hsz : 8 ≤ sz) (hsz' : sz ≤ 3944) : 0 < getTpNumCapacity sz :=
  (getTpNumCapacity_spec hsz 1).mpr (by omega)

section Run

variable (hkey : schema.HasKey) (hsz : 8 ≤ sz) (hsz' : sz ≤ 3944)
include hkey hsz hsz'

theorem TableStep.slotsFilled_iff {l : TableCall × TableReply} (h : TableInv sz s root L)
    (hf : HeadsFilled s L) (hstep : TableStep al sz doHash schema root s l s') :
    ∃ L', TableInv sz s' root L' ∧ (SlotsFilled s' root ↔ HeadsFilled s' L') ∧
      (HeadsFilled s' L' ↔ ¬ EmptiesHeadIn sz doHash schema root s l.1) := by
  obtain ⟨L', ho⟩ := hstep.outcome hkey hsz (getTpNumCapacity_pos hsz hsz') h
  have hinv := ho.inv h
  refine ⟨L', hinv, hinv.skeleton.slotsFilled_iff, ?_⟩
  rw [ho.headsFilled_iff h hf, TableCall.emptiesHead_iff h.skeleton]

/-- From an empty table, every slot that holds a page id holds that of a page with a tuple, and a scan can
begin, as long as no update takes the only tuple out of the first page of a bucket. An update that does
leaves such a slot. -/
theorem slots_filled_iff {base s₀ : PageStore} {ls : List (TableCall × TableReply)} (hbase : base.Quiet)
    (hroot : root ∈ base.ids) (hcreate : Table.create root base = some s₀)
    (htrace : Trace (CarefulTableStep al sz doHash schema root) s₀ ls s) :
    SlotsFilled s root ∧ (∀ s', LinkHashTableIter.new root s ≠ some (none, s')) ∧
    ∀ l s', TableStep al sz doHash schema root s l s' →
      (SlotsFilled s' root ↔ ¬ EmptiesHeadIn sz doHash schema root s l.1) := by
  have hinv : ∃ L, TableInv sz s root L ∧ HeadsFilled s L := by
    refine htrace.invariant (P := fun s => ∃ L, TableInv sz s root L ∧ HeadsFilled s L) ?_
      ⟨_, Table.tableInv_create sz hbase hroot hcreate, headsFilled_empty root⟩
    rintro s l s' ⟨L, h, hf⟩ ⟨hstep, hcareful⟩
    obtain ⟨L', h', -, hiff⟩ := hstep.slotsFilled_iff hkey hsz hsz' h hf
    exact ⟨L', h', hiff.mpr hcareful⟩
  obtain ⟨L, h, hf⟩ := hinv
  refine ⟨h.skeleton.slotsFilled_iff.mpr hf, fun s' he => ?_, fun l s' hstep => ?_⟩
  · obtain ⟨it, s1, hnew, -⟩ :=
      LinkHashTableIter.new_points h.skeleton (fun ho => (h.good ho).readable) hf
    rw [hnew] at he
    simp at he
  · obtain ⟨L', -, hslots, hiff⟩ := hstep.slotsFilled_iff hkey hsz hsz' h hf
    exact hslots.trans hiff

end Run

theorem create_newTable : Table.create 0 onePage = some newTable := Table.create_eq quiet_onePage (by decide)

/-- Two tuples are inserted into a new table, each into a bucket without tuples. -/
theorem exists_insert_runs : ∃ s₁ L₁ s₂ L₂,
    (TableCall.insertTuple (pairTuple 1 2)).run zeroFrames firstByte pairSchema 0 newTable =
      some (.result true, s₁) ∧ Skeleton s₁ 0 L₁ ∧
    (∀ v, keyOf pairSchema (pairTuple 2 2).bytes = some v → L₁.bucketOf firstByte v = []) ∧
    (TableCall.insertTuple (pairTuple 2 2)).run zeroFrames firstByte pairSchema 0 s₁ = some (.result true, s₂) ∧
    TableInv 8 s₂ 0 L₂ ∧ HeadsFilled s₂ L₂ ∧ s₂.ids.card ≤ 7 := by
  obtain ⟨id, k, s₁, L₁, id', k', s₂, L₂, he1, hi1, hnil, he2, hi2, -, hcard, -⟩ := exists_two_pairTuples
  refine ⟨s₁, L₁, s₂, L₂, ?_, hi1.inv.skeleton, fun v hv => ?_, ?_, hi2.inv, ?_, hcard⟩
  · rw [TableCall.run, Table.insertTuple, he1]
    rfl
  · obtain rfl : .integer 2 = v := Option.some.inj ((by decide : _ = some (Value.integer 2)).symm.trans hv)
    exact hnil
  · rw [TableCall.run, Table.insertTuple, he2]
    rfl
  · exact hi2.headsFilled hi1.inv.skeleton (hi1.headsFilled (tableInv_newTable 8).skeleton (headsFilled_empty 0))

theorem carefulTableStep_insert {t : Tuple} (hS : Skeleton s 0 L) (hsize : t.size = 8)
    (hrun : (TableCall.insertTuple t).run zeroFrames firstByte pairSchema 0 s = some (.result true, s'))
    (hnil : ∀ v, keyOf pairSchema t.bytes = some v → L.bucketOf firstByte v = []) :
    CarefulTableStep zeroFrames 8 firstByte pairSchema 0 s (.insertTuple t, .result true) s' := by
  refine ⟨⟨hrun, L, hS, hsize, ?_⟩, ?_⟩
  · rintro t v ⟨⟩ hv - hne
    exact absurd (hnil v hv) hne
  · rintro ⟨L, -, hempties⟩
    exact hempties

/-- Two tuples are inserted into a new table, and nothing is left to be done for a scan. -/
theorem slots_filled_iff_insert : ∃ s₁ s₂,
    (TableCall.insertTuple (pairTuple 1 2)).run zeroFrames firstByte pairSchema 0 newTable =
      some (.result true, s₁) ∧
    (TableCall.insertTuple (pairTuple 2 2)).run zeroFrames firstByte pairSchema 0 s₁ = some (.result true, s₂) ∧
    SlotsFilled s₂ 0 := by
  obtain ⟨s₁, L₁, s₂, L₂, hrun1, hS1, hnil, hrun2, -⟩ := exists_insert_runs
  have hstep1 := carefulTableStep_insert (tableInv_newTable 8).skeleton rfl hrun1 fun _ _ => rfl
  have hstep2 := carefulTableStep_insert hS1 rfl hrun2 hnil
  exact ⟨s₁, s₂, hrun1, hrun2, (slots_filled_iff pairSchema_hasKey le_rfl (by norm_num) quiet_onePage (by decide)
    create_newTable (.cons hstep1 (.single hstep2))).1⟩

/-! ## A scan that ends the process -/

/-- The constructor ends the process when the first bucket of the first second level page has a first page
without a tuple. -/
theorem LinkHashTableIter.new_exit (h : Skeleton s root L) (hread : L.AllPages s Readable) {j : ℕ} {id : ℤ}
    (hfirst : ∀ b < j, L.chain 0 (b : ℕ) = []) (hid : id ∈ (L.chain 0 j).head?)
    (hempty : occ (s.page id) = ∅) : ∃ s', LinkHashTableIter.new root s = some (none, s') := by
  have hmem := List.mem_of_mem_head? hid
  have hsec := h.second_ne hmem
  have ho := h.own_chain.mp hmem
  have hhead : LinkHashPage.getPgidInSlot (s.page (secondPage s root 0)) j = id := by
    rw [h.head j hsec, headOr, Option.mem_def.mp hid]
    rfl
  have hused : firstUsedSlot (s.page (secondPage s root 0)) = some j := by
    have hj : (j : ℤ) < lkHaPgSlotNum := (h.isSlot_of_mem hmem).2.2
    rw [firstUsedSlot, List.find?_range_eq_some]
    refine ⟨?_, List.mem_range.mpr (by omega), fun b hb => ?_⟩
    · simpa [hhead] using h.quiet.ne_invalid (h.chain_mem hmem)
    · simp [h.head b hsec, hfirst b hb]
  obtain ⟨s1, s2, h1, h2, hl, -⟩ := (h.quiet.usable h.root_mem).reader
  have hs2 : Serves s2 s.page L (· ≠ .root) := by
    refine ⟨hl.page, fun {b o} hb hor => hl.usable (h.quiet.usable (h.own_mem hb)) ?_⟩
    rintro rfl
    rw [h.own_root, Option.some.injEq] at hb
    exact hor hb.symm
  obtain ⟨s3, s4, h3, h4, hl2, -⟩ := (hs2.usable (h.own_second hsec) (by simp)).reader
  have hs3 := hs2.of_getPage h3
  obtain ⟨s5, s6, h5, h6, hl3, -⟩ := (hs3.usable ho (by simp)).writer
  have hnone : getTheFirstTuple (s6.page id) = some none := by
    rw [hl3.page, hs3.page, (hread ho).getTheFirstTuple_eq, slotsFrom_zero_eq_nil_iff.mpr hempty]
    rfl
  have hsearch : searchSlot root 0 s2 = some (.exit, s6) := by
    have hpgid : LinkHashPage.getPgidInSlot (s.page root) 0 = secondPage s root 0 := rfl
    unfold searchSlot
    simp only [hs2.page, Nat.cast_zero, hpgid, if_neg (show ¬ secondPage s root 0 = invalidPageId from hsec),
      h3, h4, hl2.page, hused, rUnlock_of_rLock h4, hs3.page, hhead, h5, h6, hnone, Option.bind_eq_bind,
      Option.bind_some]
  have hrange : List.range lkHaPgSlotNum.toNat = 0 :: List.range' 1 1007 := by
    rw [List.range_eq_range', show lkHaPgSlotNum.toNat = 1007 + 1 from rfl, List.range'_succ]
  refine ⟨s6, ?_⟩
  unfold LinkHashTableIter.new
  simp only [h1, h2, some_bind, hrange, findFirstTuple, hsearch]

/-- The only tuple of a table is updated to a key of another bucket. The scan that comes next ends the
process. -/
theorem update_ends_scan : ∃ rid s₁ t₂ s₂ s₃,
    Table.insertTuple zeroFrames firstByte pairSchema 0 (pairTuple 1 2) newTable =
      some (true, (pairTuple 1 2).setRid rid, s₁) ∧
    Table.updateTuple zeroFrames firstByte pairSchema 0 (pairTuple 2 2) rid s₁ = some (true, t₂, s₂) ∧
    ¬ SlotsFilled s₂ 0 ∧ LinkHashTableIter.new 0 s₂ = some (none, s₃) := by
  obtain ⟨id, k, s₁, L1, he1, hi, hcard⟩ := exists_insert_firstByte
  obtain ⟨hone, hnil⟩ := hi.chain_newTable
  have hcell : cell s₁ L1 id k = some (pairTuple 1 2).bytes := by rw [hi.cell_eq, if_pos ⟨rfl, rfl⟩]
  have hij : hashToSlot ((Value.integer 2).getHashValue firstByte) = (0, 2) := by decide
  have hnone : L1.chain 0 2 = [] := hnil 0 2 (by decide)
  have hblank : BlankIfFull zeroFrames 8 s₁ (L1.chain 0 2) := fun hne => absurd hnone hne
  rcases lkHaUpdateTuple_move hi.inv hcell
    (show keyOf pairSchema (pairTuple 2 2).bytes = some (.integer 2) by decide)
    (show keyOf pairSchema (pairTuple 1 2).bytes = some (.integer 1) by decide) pairSchema_hasKey le_rfl
    (by decide) (by rfl) (by decide) (by rw [Layout.bucketOf, hij, hnone]; rfl) hij hblank with
    ⟨-, hno⟩ | ⟨id', k', s₂, L2, he2, hm, -⟩
  · exact absurd ⟨Allocator.firstFree_correct _, by omega⟩ hno
  have hf : HeadsFilled s₁ L1 := hi.headsFilled (tableInv_newTable 8).skeleton (headsFilled_empty 0)
  have ho : L1.own id = some (.bucket 0 1) := hi.own_id
  have hocc : occ (s₁.page id) = {k} := hi.occ_newTable
  have hnot : ¬ HeadsFilled s₂ L2 := by
    rw [hm.headsFilled_iff hi.inv.skeleton hcell hf, not_not]
    exact ⟨0, 1, by rw [hone]; rfl, hocc, Or.inl (by decide)⟩
  have hempty : occ (s₂.page id) = ∅ := hm.occ_eq_empty ho (by decide) hocc
  have hchain : ∀ b : ℤ, b ≠ 2 → L2.chain 0 b = L1.chain 0 b := fun b hb =>
    (hm.chain 0 b).resolve_right fun e => hb e.2.1
  obtain ⟨s₃, hexit⟩ := LinkHashTableIter.new_exit hm.inv.skeleton
    (fun hb => (hm.inv.good hb).readable) (j := 1) (fun b hb => by
      obtain rfl : b = 0 := by omega
      rw [Nat.cast_zero, hchain 0 (by decide), hnil 0 0 (by decide)])
    (by rw [Nat.cast_one, hchain 1 (by decide), hone]; rfl) hempty
  refine ⟨⟨id, k⟩, s₁, (pairTuple 2 2).setRid ⟨id', k'⟩, s₂, s₃, ?_, ?_,
    fun hfilled => hnot (hm.inv.skeleton.slotsFilled_iff.mp hfilled), hexit⟩
  · rw [Table.insertTuple, he1]
    rfl
  · rw [Table.updateTuple, he2]
    rfl

end Dawn
