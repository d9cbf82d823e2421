import Mathlib.Data.List.TakeWhile
import Dawn.Buffer.PoolInvariant
import Dawn.Index.Overflow

/-!
# Clearing the front of a bucket in a pool of frames

`lk_ha_clear_empty_page` takes the empty pages off the front of a bucket. It holds all of them, the page
behind them and the second level page at the same time, and each page that is held takes a frame of the
pool. When no frame is left, `get_page` waits for a page to be given back; in one thread that never happens.
So the function does what it should exactly if the pool has a frame for each of those pages
(`clear_front_iff`).

A page store with frames is a page store in which `get_page` also waits for a frame (`getPageIn`). It waits
where `BufferPoolManager::get_page` does (`getPageIn_eq_none_iff`).
-/

namespace Dawn

open LinkHashPage hiding init

open TablePage PageStore

namespace PageStore

/-- The pages that somebody has pinned. Each of them takes a frame. -/
def pinned (s : PageStore) : Finset ℤ := s.ids.filter fun id => 0 < s.pins id

/-- `get_page` in a pool of `n` frames. A page that is pinned is in its frame, and for any other there has
to be a frame whose page nobody has pinned. -/
def getPageIn (n : ℕ) (s : PageStore) (id : ℤ) : Option PageStore :=
  if 0 < s.pins id ∨ s.pinned.card < n then s.getPage id else none

end PageStore

/-- `lk_ha_clear_empty_page` in a pool of `n` frames. -/
def lkHaClearEmptyPageIn (n : ℕ) (firstPageId secPgSlotNum tbPgSlotNum : ℤ) (s : PageStore) : Option PageStore :=
  lkHaClearEmptyPageBy firstPageId (getPageIn n) secPgSlotNum tbPgSlotNum s

variable {n : ℕ} {s : PageStore} {root i j id : ℤ} {L : Layout}

/-! ## Frames -/

section Frames

variable {l : List ℤ} (hmem : ∀ b ∈ l, b ∈ s.ids) (hpins : ∀ b ∈ s.ids, 0 ≤ s.pins b)
include hmem hpins

theorem pinned_holdAll : (s.holdAll l).pinned = s.pinned ∪ l.toFinset := by
  ext b
  simp only [pinned, Finset.mem_filter, Finset.mem_union, List.mem_toFinset]
  change b ∈ s.ids ∧ 0 < s.pins b + (l.count b : ℤ) ↔ _
  by_cases hb : b ∈ l
  · have hcount := List.count_pos_iff.mpr hb
    have h0 := hpins b (hmem b hb)
    simp only [hb, hmem b hb, or_true, true_and, iff_true]
    omega
  · simp [hb, List.count_eq_zero_of_not_mem hb]

theorem holdAll_getPageIn (hl : id ∉ l) : (s.holdAll l).getPageIn n id =
    if 0 < s.pins id ∨ (s.pinned ∪ l.toFinset).card < n then (s.holdAll l).getPage id else none := by
  have hp : (s.holdAll l).pins id = s.pins id := by
    simp [holdAll, PageStore.guard, List.count_eq_zero_of_not_mem hl]
  rw [getPageIn, hp, pinned_holdAll hmem hpins]

end Frames

/-- A page store with frames waits where the pool does: both have the same pages pinned, and the pool is as it
should be. -/
theorem getPageIn_eq_none_iff [NeZero n] {b : BufferPoolManager n} {held : Multiset (ℤ × Fin n)}
    (h : BufferPoolManager.PoolInv b held) (hheld : ∀ e ∈ held, e.1 ∈ s.ids)
    (hpins : ∀ c ∈ s.ids, s.pins c = BufferPoolManager.pins held c) (hid : id ∈ s.ids) (h0 : 0 ≤ id) :
    s.getPageIn n id = none ↔ b.getPage id = none := by
  -- A page that is held has one frame, and a frame that is held has one page.
  have hpinned : s.pinned = held.toFinset.image Prod.fst := by
    ext c
    simp only [pinned, Finset.mem_filter, Finset.mem_image, Multiset.mem_toFinset]
    constructor
    · rintro ⟨hc, hpos⟩
      rw [hpins c hc, Nat.cast_pos] at hpos
      exact Multiset.mem_map.mp (Multiset.count_pos.mp hpos)
    · rintro ⟨e, he, rfl⟩
      refine ⟨hheld e he, ?_⟩
      rw [hpins e.1 (hheld e he), Nat.cast_pos]
      exact BufferPoolManager.pins_pos he
  have hcard : s.pinned.card = (held.toFinset.image Prod.snd).card := by
    rw [hpinned, Finset.card_image_of_injOn, Finset.card_image_of_injOn]
    · rintro ⟨c, f⟩ hc ⟨d, g⟩ hd hfg
      obtain rfl : f = g := hfg
      have hc' := h.held_mapped (Multiset.mem_toFinset.mp hc)
      rw [h.inj hc' (h.held_mapped (Multiset.mem_toFinset.mp hd))]
    · rintro ⟨c, f⟩ hc ⟨d, g⟩ hd hcd
      obtain rfl : c = d := hcd
      have hc' := h.held_mapped (Multiset.mem_toFinset.mp hc)
      rw [h.held_mapped (Multiset.mem_toFinset.mp hd), Option.some.injEq] at hc'
      rw [hc']
  have hfull : ¬ s.pinned.card < n ↔ ∀ f, ∃ c, (c, f) ∈ held := by
    have hlt := Finset.card_lt_iff_ne_univ (held.toFinset.image Prod.snd)
    rw [Fintype.card_fin] at hlt
    rw [hcard, hlt, not_not, Finset.eq_univ_iff_forall]
    simp
  have hget : s.getPage id ≠ none := by
    rw [PageStore.getPage, if_pos ⟨hid, by simp only [invalidPageId]; omega⟩]
    simp
  have hnone : s.getPageIn n id = none ↔ ¬ (0 < s.pins id ∨ s.pinned.card < n) := by
    unfold getPageIn
    split_ifs with hc <;> simp [hc, hget]
  rw [hnone, h.getPage_eq_none_iff h0, not_or, hfull, hpins id hid]
  refine and_congr_left fun hall => ⟨fun hpin => ?_, fun hm => ?_⟩
  · by_contra hm
    obtain ⟨f, hf⟩ := Option.ne_none_iff_exists'.mp hm
    obtain ⟨c, hc⟩ := hall f
    obtain rfl := h.inj hf (h.held_mapped hc)
    exact hpin (by exact_mod_cast BufferPoolManager.pins_pos hc)
  · rw [h.pins_eq_zero hm]
    exact lt_irrefl _

/-- The only frame of a pool is held, and both wait for a second page. -/
theorem getPageIn_eq_none_iff_held : ∃ (b : BufferPoolManager 1) (a : ℤ) (s : PageStore),
    b.PoolInv {(a, 0)} ∧ s.ids = {a, a + 1} ∧ s.getPageIn 1 (a + 1) = none ∧ b.getPage (a + 1) = none := by
  obtain ⟨d, m, -, hm, hd⟩ := DiskManager.exists_healthy
  have hnew := BufferPoolManager.poolInv_new hd (fun _ : Fin 1 => 0) fun _ _ => 0
  generalize hb : BufferPoolManager.new d (fun _ : Fin 1 => 0) (fun _ _ => 0) = b at hnew
  have hfree : b.freeList = 0 :: [] := by
    rw [← hb]
    rfl
  obtain ⟨a, d', hpage, hok, hcall⟩ := BufferPoolManager.newPage_of_free hnew.latch_free hfree (hnew.page_free 0)
    (by rw [← hb]; exact hd) (by omega) fun _ _ => hnew.alloced
  have ha : 0 ≤ a := (hpage.healthy.bounds (by simp [hpage.allocedPgid_eq])).1
  have hinv : BufferPoolManager.PoolInv (({ b with disk := d' } : BufferPoolManager 1).given a 0 []) {(a, 0)} := by
    have hstep := hnew.step (s := ⟨b, 0⟩) (.newPage hcall hok) trivial
    simpa [BufferPoolManager.given] using hstep
  let s : PageStore := { onePage with ids := {a, a + 1}, pins := Pi.single a 1 }
  have hs : s.getPageIn 1 (a + 1) = none := by
    have hcard : s.pinned = {a} := by
      ext c
      by_cases hc : c = a <;> simp [pinned, s, Pi.single_apply, hc]
    simp [getPageIn, hcard, s]
  refine ⟨_, a, s, hinv, rfl, hs, (getPageIn_eq_none_iff hinv (by simp [s]) (fun c _ => ?_) ?_ ?_).mp hs⟩
  · by_cases hc : c = a <;> simp [s, BufferPoolManager.pins, hc]
  · simp [s]
  · omega

/-! ## The function with frames -/

/-- Whether there is a frame for a page while those of a list are held. -/
def frameFor (n : ℕ) (s : PageStore) (id : ℤ) (held : List ℤ) : Bool :=
  0 < s.pins id ∨ (s.pinned ∪ held.toFinset).card < n

theorem grants_getPageIn (hpins : ∀ b ∈ s.ids, 0 ≤ s.pins b) : Grants (getPageIn n) (frameFor n s) s := by
  intro l id hmem hl
  simpa [frameFor] using holdAll_getPageIn hmem hpins hl

theorem roomForAll_frameFor {held l : List ℤ} (hpin : ∀ b ∈ l, s.pins b = 0) (hnd : l.Nodup)
    (hdis : ∀ b ∈ l, b ∉ held) (hne : l ≠ []) :
    roomForAll (frameFor n s) held l ↔ (s.pinned ∪ held.toFinset).card + l.length ≤ n := by
  induction l generalizing held with
  | nil => exact absurd rfl hne
  | cons id l ih =>
    rw [List.forall_mem_cons] at hpin hdis
    rw [List.nodup_cons] at hnd
    have hnot : id ∉ s.pinned ∪ held.toFinset := by simp [pinned, hpin.1, hdis.1]
    have hcard : (s.pinned ∪ (id :: held).toFinset).card = (s.pinned ∪ held.toFinset).card + 1 := by
      rw [List.toFinset_cons, Finset.union_insert, Finset.card_insert_of_notMem hnot]
    have hfirst : frameFor n s id held ↔ (s.pinned ∪ held.toFinset).card < n := by simp [frameFor, hpin.1]
    rw [roomForAll, Bool.and_eq_true, hfirst, List.length_cons]
    by_cases hnil : l = []
    · simp [hnil, roomForAll]
    · have hdis' : ∀ b ∈ l, b ∉ id :: held := fun b hb => by
        rw [List.mem_cons, not_or]
        exact ⟨fun e => hnd.1 (e ▸ hb), hdis.2 b hb⟩
      rw [ih hpin.2 hnd.2 hdis' hnil, hcard]
      omega

section Clear

variable {es rest : List ℤ} (h : Skeleton s root L) (hc : L.chain i j = es ++ rest) (hne : L.chain i j ≠ [])
  (hes : ∀ b ∈ es, occ (s.page b) = ∅) (hrest : ∀ b ∈ rest.head?, occ (s.page b) ≠ ∅)
  (hpins : ∀ b ∈ s.ids, 0 ≤ s.pins b) (hunpinned : ∀ b ∈ L.chain i j, s.pins b = 0)

include h hc hne hes hrest hpins hunpinned in
theorem lkHaClearEmptyPageIn_eq (n : ℕ) : lkHaClearEmptyPageIn n root i j s =
    if (s.pinned ∪ {secondPage s root i}).card + (es.length + (rest.take 1).length) ≤ n then
      some (cleared s (secondPage s root i) j es rest) else none := by
  have hsec : secondPage s root i ≠ -1 := fun hs => hne (h.chain_nil j hs)
  have hsub : ∀ b ∈ es ++ rest.take 1, b ∈ L.chain i j := fun b hb => by
    rw [hc]
    exact ((List.take_sublist 1 rest).append_left es).subset hb
  have hnd : (es ++ rest.take 1).Nodup :=
    ((List.take_sublist 1 rest).append_left es).nodup (hc ▸ h.nodup i j)
  have hfront : es ++ rest.take 1 ≠ [] := fun hnil => hne (by
    rw [hc]
    cases rest <;> simp_all)
  have hdis : ∀ b ∈ es ++ rest.take 1, b ∉ [secondPage s root i] := fun b hb he =>
    h.second_notMem_chain hsec (List.mem_singleton.mp he ▸ hsub b hb)
  have hrooms := roomForAll_frameFor (n := n) (fun b hb => hunpinned b (hsub b hb)) hnd hdis hfront
  have hle : s.pinned.card ≤ (s.pinned ∪ {secondPage s root i}).card :=
    Finset.card_le_card Finset.subset_union_left
  have hpos := List.length_pos_iff.mpr hfront
  rw [lkHaClearEmptyPageIn, lkHaClearEmptyPageBy_eq h hc hne hes hrest (grants_getPageIn hpins),
    if_pos fun b hb => hunpinned b (hsub b (List.mem_append_left _ hb))]
  refine if_congr ?_ rfl rfl
  rw [roomForAll, Bool.and_eq_true, Bool.and_eq_true, hrooms]
  simp only [frameFor, List.toFinset_nil, Finset.union_empty, List.toFinset_cons, insert_empty_eq,
    List.length_append, decide_eq_true_eq] at hpos ⊢
  omega

/-- The pages `es` have been taken off the front of a bucket, whose pages are `es ++ rest`. -/
structure ClearsFront (s : PageStore) (root i j : ℤ) (es rest : List ℤ) (s' : PageStore) : Prop where
  /-- The slot holds the first of the other pages, or none. -/
  slot_eq : LinkHashPage.getPgidInSlot (s'.page (secondPage s root i)) j = headOr (-1) rest
  /-- The other slots hold what they held. -/
  slot_ne : ∀ b ≠ j, LinkHashPage.getPgidInSlot (s'.page (secondPage s root i)) b =
    LinkHashPage.getPgidInSlot (s.page (secondPage s root i)) b
  /-- The first of the other pages has no page before it. -/
  prev_eq : ∀ b ∈ rest.head?, getPrevPageId (s'.page b) = -1
  /-- The pages behind it are as they were. -/
  behind : ∀ b ∈ rest, b ∉ rest.head? → s'.page b = s.page b
  /-- It has its link and its tuples. -/
  next_eq : ∀ b ∈ rest, getNextPageId (s'.page b) = getNextPageId (s.page b)
  tuples_eq : ∀ b ∈ rest, slot (s'.page b) = slot (s.page b)
  wf : ∀ b ∈ rest, WF (s'.page b)
  /-- The pages at the front are deleted, and no others. -/
  ids : s'.ids = s.ids \ es.toFinset
  /-- No page out of the bucket is changed, but for the slot. -/
  other : ∀ b, b ≠ secondPage s root i → b ∉ rest → s'.page b = s.page b
  /-- All pages and latches are given back. -/
  pins_eq : s'.pins = s.pins
  latch_eq : s'.latch = s.latch

include h hc hne in
theorem clearsFront_cleared (hwf : ∀ b ∈ L.chain i j, WF (s.page b)) :
    ClearsFront s root i j es rest (cleared s (secondPage s root i) j es rest) := by
  have hsec : secondPage s root i ≠ -1 := fun hs => hne (h.chain_nil j hs)
  have hsr : secondPage s root i ∉ rest := fun hm =>
    h.second_notMem_chain hsec (show secondPage s root i ∈ L.chain i j by simp [hc, hm])
  have hwf' : ∀ b ∈ rest, WF (s.page b) := fun b hb => hwf b (by simp [hc, hb])
  obtain ⟨b0, hb0⟩ := List.exists_mem_of_ne_nil _ hne
  have hslot := (h.isSlot_of_mem hb0).2
  obtain ⟨hids, hpins, hlatch, hsecp, hsame, hrest⟩ := cleared_spec s j es hsr
  have hi32 : IsI32 (headOr (-1) rest) := by
    cases rest with
    | nil => norm_num [IsI32]
    | cons b r => exact h.quiet.isI32 (h.chain_mem (show b ∈ L.chain i j by simp [hc]))
  have hhead : ∀ b ∈ rest.head?, b ∈ rest := fun b hb => List.mem_of_mem_head? hb
  refine ⟨?_, fun b hb => ?_, fun b hb => ?_, fun b hb hb' => ?_, fun b hb => ?_, fun b hb => ?_, fun b hb => ?_,
    hids, hsame, hpins, hlatch⟩
  · rw [hsecp, getPgidInSlot_setPgidInSlot_self hslot hi32]
  · rw [hsecp, getPgidInSlot_setPgidInSlot_of_ne hslot hb]
  · rw [hrest b (hhead b hb), if_pos hb, getPrevPageId_setPrevPageId _ (by norm_num [IsI32])]
  · rw [hrest b hb, if_neg hb']
  · rw [hrest b hb]
    split_ifs
    · exact getNextPageId_setPrevPageId _ _
    · rfl
  · rw [hrest b hb]
    split_ifs
    · exact (hwf' b hb).slot_eq_of_tail fun _ => setPrevPageId_data_tail _ _
    · rfl
  · rw [hrest b hb]
    split_ifs
    · exact (hwf' b hb).congr_tail fun _ => setPrevPageId_data_tail _ _
    · exact hwf' b hb

end Clear

/-- The empty pages at the front of a bucket. -/
def emptyFront (s : PageStore) (pages : List ℤ) : List ℤ := pages.takeWhile fun b => occ (s.page b) = ∅

/-- The pages behind them. -/
def afterFront (s : PageStore) (pages : List ℤ) : List ℤ := pages.dropWhile fun b => occ (s.page b) = ∅

/-- How many frames `lk_ha_clear_empty_page` needs: those of the pages that are pinned already, and one for
each page that it holds. -/
def framesToClear (s : PageStore) (sec : ℤ) (pages : List ℤ) : ℕ :=
  (s.pinned ∪ {sec}).card + ((emptyFront s pages).length + ((afterFront s pages).take 1).length)

/-- `lk_ha_clear_empty_page` takes the empty pages off the front of a bucket exactly if there are as many
frames as it needs. -/
theorem clear_front_iff (h : Skeleton s root L) (hne : L.chain i j ≠ [])
    (hwf : ∀ b ∈ L.chain i j, WF (s.page b)) (hunpinned : ∀ b ∈ L.chain i j, s.pins b = 0)
    (hpins : ∀ b ∈ s.ids, 0 ≤ s.pins b) (n : ℕ) :
    (∃ s', lkHaClearEmptyPageIn n root i j s = some s' ∧
      ClearsFront s root i j (emptyFront s (L.chain i j)) (afterFront s (L.chain i j)) s') ↔
    framesToClear s (secondPage s root i) (L.chain i j) ≤ n := by
  have hc : L.chain i j = emptyFront s (L.chain i j) ++ afterFront s (L.chain i j) :=
    List.takeWhile_append_dropWhile.symm
  have hes : ∀ b ∈ emptyFront s (L.chain i j), occ (s.page b) = ∅ := fun b hb => by
    simpa using List.mem_takeWhile_imp hb
  have hrest : ∀ b ∈ (afterFront s (L.chain i j)).head?, occ (s.page b) ≠ ∅ := by
    intro b hb
    have hhead := List.head?_dropWhile_not (fun b => decide (occ (s.page b) = ∅)) (L.chain i j)
    rw [afterFront, Option.mem_def] at hb
    rw [hb] at hhead
    simpa using hhead
  rw [lkHaClearEmptyPageIn_eq h hc hne hes hrest hpins hunpinned, framesToClear]
  split_ifs with hfit
  · exact iff_of_true ⟨_, rfl, clearsFront_cleared h hc hne hwf⟩ hfit
  · exact iff_of_false (fun ⟨_, he, _⟩ => by cases he) hfit

/-! ## A bucket of empty pages -/

/-- A table whose first bucket has a number of pages, all of them empty, with no page pinned. -/
structure EmptyBucket (k : ℕ) (s : PageStore) (L : Layout) : Prop where
  inv : TableInv 8 s 0 L
  length_eq : (L.chain 0 0).length = k
  empty : ∀ b ∈ L.chain 0 0, occ (s.page b) = ∅
  unpinned : ∀ b ∈ s.ids, s.pins b = 0
  card_eq : s.ids.card = k + 2

theorem occ_eq_empty_iff {p : Page} : occ p = ∅ ↔ ∀ k, slot p k = none := by
  simp only [Finset.eq_empty_iff_forall_notMem, ← slot_ne_none_iff, not_not]

theorem exists_emptyBucket_one : ∃ s L, EmptyBucket 1 s L := by
  have hslot : LinkHashPage.IsSlot 0 := ⟨le_rfl, by decide⟩
  have hnone : secondPage newTable 0 0 = -1 := by
    rw [secondPage, newTable, page_put_self (sameFrame_init _), getPgidInSlot_init]
  obtain ⟨sec, hp1⟩ := exists_pick initFrame (show newTable.ids.card < 2^31 by decide) newTable.allocs
  obtain ⟨hinv1, hgrown1, hsec⟩ := (tableInv_newTable 8).addSecond hslot hnone hp1
  have hcard1 : (addChild newTable 0 0 LinkHashPage.init sec initFrame).ids.card = 2 :=
    Finset.card_insert_of_notMem (Allocator.fresh _ hp1).1
  generalize addChild newTable 0 0 LinkHashPage.init sec initFrame = s1 at hinv1 hgrown1 hsec hcard1
  have hsec' : secondPage s1 0 0 ≠ -1 := by
    have := (Allocator.fresh _ hp1).2.1
    omega
  obtain ⟨new, hp2⟩ := exists_pick initFrame (show s1.ids.card < 2^31 by omega) s1.allocs
  obtain ⟨hinv2, hgrown2⟩ := hinv1.addFirst le_rfl hslot hsec' rfl hp2
  refine ⟨_, _, hinv2, rfl, fun b hb => ?_, fun b hb => ?_, ?_⟩
  · obtain rfl : b = new := by simpa [Layout.addPage, Layout.addSecond, Layout.empty] using hb
    exact occ_eq_empty_iff.mpr (hgrown2.blank Layout.addPage_own_self (hinv1.skeleton.own_new hp2))
  · rw [(hgrown1.pins.trans hgrown1.ids hgrown2.pins) b hb]
    exact ite_self 0
  · have hcard2 : (insert new s1.ids).card = s1.ids.card + 1 :=
      Finset.card_insert_of_notMem (Allocator.fresh _ hp2).1
    exact hcard2.trans (by rw [hcard1])

theorem EmptyBucket.addLast {k : ℕ} (h : EmptyBucket (k + 1) s L) (hk : k + 3 < 2^31) :
    ∃ s' L', EmptyBucket (k + 2) s' L' := by
  obtain ⟨pre, id, hlast⟩ := (List.eq_nil_or_concat (L.chain 0 0)).resolve_left fun hnil => by
    have := h.length_eq
    simp [hnil] at this
  rw [List.concat_eq_append] at hlast
  obtain ⟨new, hp⟩ := exists_pick initFrame (h.card_eq.trans_lt hk) s.allocs
  obtain ⟨hinv, hgrown⟩ := TableInv.addLast hlast hp h.inv (blankFrame_initFrame (by norm_num))
  have hno := h.inv.skeleton.own_new hp
  refine ⟨_, _, hinv, ?_, fun b hb => ?_, fun b hb => ?_, ?_⟩
  · rw [Layout.addPage_chain_self, List.length_append, h.length_eq]
    rfl
  · rw [occ_eq_empty_iff]
    rw [Layout.addPage_chain_self, List.mem_append, List.mem_singleton] at hb
    rcases hb with hb | rfl
    · rw [hgrown.pages (h.inv.skeleton.own_chain.mp hb)]
      exact occ_eq_empty_iff.mp (h.empty b hb)
    · exact hgrown.blank Layout.addPage_own_self hno
  · rw [hgrown.pins b hb]
    split_ifs with hmem
    · exact h.unpinned b hmem
    · rfl
  · have hcard : (insert new s.ids).card = s.ids.card + 1 :=
      Finset.card_insert_of_notMem (Allocator.fresh _ hp).1
    exact hcard.trans (by rw [h.card_eq])

theorem exists_emptyBucket (k : ℕ) (hk : k + 3 < 2^31) : ∃ s L, EmptyBucket (k + 1) s L := by
  induction k with
  | zero => exact exists_emptyBucket_one
  | succ k ih =>
    obtain ⟨s, L, h⟩ := ih (by omega)
    exact h.addLast (by omega)

theorem EmptyBucket.framesToClear_eq {k : ℕ} (h : EmptyBucket k s L) :
    emptyFront s (L.chain 0 0) = L.chain 0 0 ∧ afterFront s (L.chain 0 0) = [] ∧
    framesToClear s (secondPage s 0 0) (L.chain 0 0) = k + 1 := by
  have hfront : emptyFront s (L.chain 0 0) = L.chain 0 0 :=
    List.takeWhile_eq_self_iff.mpr fun b hb => by simpa using h.empty b hb
  have hafter : afterFront s (L.chain 0 0) = [] :=
    List.dropWhile_eq_nil_iff.mpr fun b hb => by simpa using h.empty b hb
  have hpinned : s.pinned = ∅ := by
    refine Finset.filter_eq_empty_iff.mpr fun b hb => ?_
    rw [h.unpinned b hb]
    exact lt_irrefl 0
  refine ⟨hfront, hafter, ?_⟩
  rw [framesToClear, hfront, hafter, hpinned, h.length_eq]
  simp [add_comm]

/-- Two empty pages are taken off their bucket in a pool of three frames. -/
theorem clear_front_iff_three : ∃ s L s', EmptyBucket 2 s L ∧ lkHaClearEmptyPageIn 3 0 0 0 s = some s' ∧
    ClearsFront s 0 0 0 (L.chain 0 0) [] s' := by
  obtain ⟨s, L, h⟩ := exists_emptyBucket 1 (by norm_num)
  obtain ⟨hfront, hafter, hframes⟩ := h.framesToClear_eq
  have hS := h.inv.skeleton
  have hne : L.chain 0 0 ≠ [] := fun hnil => by
    have := h.length_eq
    simp [hnil] at this
  obtain ⟨s', he, hclears⟩ := (clear_front_iff hS hne (fun b hb => (h.inv.good (hS.own_chain.mp hb)).wf)
    (fun b hb => h.unpinned b (hS.chain_mem hb)) (fun b hb => (h.unpinned b hb).ge) 3).mpr (by omega)
  rw [hfront, hafter] at hclears
  exact ⟨s, L, s', h, he, hclears⟩

/-- `DEFAULT_POOL_SIZE` of `src/manager/db_manager.cpp`. -/
def defaultPoolSize : ℕ := 10240

/-- A bucket has as many empty pages as the pool has frames. The pages and the second level page can not all
be held, and `lk_ha_clear_empty_page` does not return. -/
theorem clear_front_waits : ∃ s L, EmptyBucket defaultPoolSize s L ∧
    (∀ b ∈ L.chain 0 0, WF (s.page b) ∧ s.pins b = 0) ∧
    lkHaClearEmptyPageIn defaultPoolSize 0 0 0 s = none := by
  obtain ⟨s, L, h⟩ := exists_emptyBucket 10239 (by norm_num)
  obtain ⟨hfront, hafter, hframes⟩ := h.framesToClear_eq
  have hS := h.inv.skeleton
  have hne : L.chain 0 0 ≠ [] := fun hnil => by
    have := h.length_eq
    simp [hnil] at this
  refine ⟨s, L, h, fun b hb => ⟨(h.inv.good (hS.own_chain.mp hb)).wf, h.unpinned b (hS.chain_mem hb)⟩, ?_⟩
  have hcond : ¬ (s.pinned ∪ {secondPage s 0 0}).card +
      ((L.chain 0 0).length + (([] : List ℤ).take 1).length) ≤ defaultPoolSize := by
    rw [framesToClear, hfront, hafter] at hframes
    rw [hframes]
    decide
  rw [lkHaClearEmptyPageIn_eq hS (List.append_nil _).symm hne h.empty (by simp)
    (fun b hb => (h.unpinned b hb).ge) (fun b hb => h.unpinned b (hS.chain_mem hb)), if_neg hcond]

end Dawn
