import Dawn.Index.Buckets
import Dawn.Storage.StalePage
import Dawn.Table.Table

/-!
# Full buckets

A bucket whose pages are all full gets a new page at its end, and the loop of `lk_ha_insert_tuple` goes
on with that page as with any other. It is not initialised, so what happens depends on the bytes that the
frame held. The insertion does what it should exactly when they read as a page without tuples and without
a next page (`overflow_works_iff`). When the first attempt on the new page fails, the tuple may be stored
elsewhere or the loop may not end, but it is not stored in that page (`insertLoop_ne`).
-/

namespace Dawn

open TablePage PageStore

/-! ## The new page is tried once -/

variable {al : Allocator} {t : Tuple} {s s' : PageStore} {id new : ℤ} {m : Bytes}

/-- A page exists and has no room for the tuple. -/
def Tried (t : Tuple) (new : ℤ) (s : PageStore) : Prop :=
  new ∈ s.ids ∧ (insertTuple (s.page new) t).1 = none

theorem Tried.insert (h : Tried t new s) (id : ℤ) : Tried t new (s.put id (insertTuple (s.page id) t).2) := by
  refine ⟨h.1, ?_⟩
  obtain rfl | hne := eq_or_ne new id
  · rw [page_put_self (sameFrame_insertTuple _ t)]
    exact insertTuple_again h.2
  · rw [page_put_of_ne _ hne]
    exact h.2

theorem Round.tried {x y : ℤ × PageStore} (hr : Round al t x y) (hx : x.1 ∈ x.2.ids) (h : Tried t new x.2) :
    Tried t new y.2 := by
  cases hr with
  | next hfull hnext hmem => exact h.insert _
  | @new s b c m hfull hnext hp =>
    have hfresh := (al.fresh hp).1
    have hne : new ≠ c := fun e => hfresh (e ▸ h.1)
    have hpage := page_addOverflow (s := s.put b (insertTuple (s.page b) t).2) (m := m)
      (fun e : c = b => hfresh (e ▸ hx)) new
    refine ⟨Finset.mem_insert_of_mem h.1, ?_⟩
    rw [hpage, if_neg hne]
    split_ifs with hb
    · subst hb
      rw [insertTuple_eq_none_congr fun _ => setNextPageId_data_tail _ _]
      exact (h.insert new).2
    · exact (h.insert b).2

theorem insertLoop_ne {r : ℤ × RID × PageStore} (hq : s.Quiet) (hid : id ∈ s.ids)
    (hr : insertLoop al t id (s.guard (Pi.single id 1) {id}) = some r) (htried : Tried t new s) :
    r.2.1.pageId ≠ new := by
  obtain ⟨id', s', rid, hrounds, hrid, rfl⟩ := exists_rounds hq hid hr
  have hend : Tried t new s' := rounds_invariant (P := fun y => Tried t new y.2) hrounds hq hid
    (fun _ _ hround _ hid' => hround.tried hid') htried
  rintro rfl
  have hpid : rid.pageId = id' := pageId_of_insertTuple hrid
  have hnone := hend.2
  rw [hpid, hrid] at hnone
  cases hnone

/-! ## Down to the new page -/

/-- The store when the loop comes to the new page. -/
def atNewPage (s : PageStore) (t : Tuple) (l : List ℤ) (id new : ℤ) (m : Bytes) : PageStore :=
  addOverflow (tryInsert t s l) id new m

/-- The store after the tuple has been inserted into the new page. -/
def afterNewPage (s : PageStore) (t : Tuple) (l : List ℤ) (id new : ℤ) (m : Bytes) : PageStore :=
  (atNewPage s t l id new m).put new (insertTuple ((atNewPage s t l id new m).page new) t).2

theorem mem_ids_atNewPage {l : List ℤ} {b : ℤ} : b ∈ (atNewPage s t l id new m).ids ↔ b = new ∨ b ∈ s.ids := by
  rw [← (tryInsert_fields t s l).1]
  exact Finset.mem_insert

theorem page_afterNewPage {l : List ℤ} (b : ℤ) : (afterNewPage s t l id new m).page b =
    if b = new then (insertTuple ((atNewPage s t l id new m).page new) t).2 else (atNewPage s t l id new m).page b := by
  rw [afterNewPage]
  split_ifs with h
  · rw [h, page_put_self (sameFrame_insertTuple _ t)]
  · rw [page_put_of_ne _ h]

section Down

variable {root i j : ℤ} {L : Layout} {pre : List ℤ} (hS : Skeleton s root L)
  (hp : al.pick s.ids s.allocs = some (new, m))
include hS hp

theorem quiet_atNewPage : (atNewPage s t (L.chain i j) id new m).Quiet := by
  obtain ⟨hids, -, -, hallocs⟩ := tryInsert_fields t s (L.chain i j)
  have hq := (hS.quiet.tryInsert (t := t) (L.chain i j)).alloc
    (show al.pick _ _ = some (new, m) by rw [hids, hallocs]; exact hp)
  exact (hq.put id _).put new _

variable (hc : L.chain i j = pre ++ [id])
include hc

theorem page_atNewPage (b : ℤ) : (atNewPage s t (L.chain i j) id new m).page b =
    if b = new then setPrevPageId (((tryInsert t s (L.chain i j)).alloc new m).page new) id else if b ∈ L.chain i j then
      if b = id then setNextPageId (insertTuple (s.page b) t).2 new else (insertTuple (s.page b) t).2
    else s.page b := by
  have hid : id ∈ L.chain i j := by simp [hc]
  have hne : new ≠ id := fun e => (al.fresh hp).1 (e ▸ hS.chain_mem hid)
  rw [atNewPage, page_addOverflow hne, page_tryInsert (hS.nodup i j), page_tryInsert (hS.nodup i j), if_pos hid]
  split_ifs with h1 h2 h3 h3
  · rfl
  · rw [h2]
  · exact absurd (h2 ▸ hid) h3
  · rfl
  · rfl

variable (hfull : ∀ c ∈ L.chain i j, (insertTuple (s.page c) t).1 = none)
include hfull

theorem insertNew_overflow : insertNew al root i j t s =
    insertLoop al t new ((atNewPage s t (L.chain i j) id new m).guard (Pi.single new 1) {new}) := by
  have hid : id ∈ L.chain i j := by simp [hc]
  have hsec := hS.second_ne hid
  have hmem := hS.chain_mem (headOr_mem (List.ne_nil_of_mem hid) : headOr (-1) (L.chain i j) ∈ _)
  have hfirst : childPage al root i LinkHashPage.init (s.guard (Pi.single root 1) ∅) =
      some (secondPage s root i, s.guard (Pi.single (secondPage s root i) 1) ∅) :=
    childPage_of_mem hS.quiet hS.root_mem _ rfl (hS.second_mem hsec)
  simp only [insertNew, Option.bind_eq_bind, hS.quiet.getPage hS.root_mem, Option.bind_some, hfirst,
    childPage_of_mem hS.quiet (hS.second_mem hsec) _ (hS.head j hsec) hmem]
  rw [wLock_guard (hS.quiet.free _ hmem) (Finset.notMem_empty _), Option.bind_some, insert_empty_eq]
  exact hS.insertLoop_overflow hc hfull rfl hp

theorem insertNew_eq_some_iff {opCode : ℤ} {k : ℕ} : insertNew al root i j t s = some (opCode, ⟨new, k⟩, s') ↔
      (insertTuple ((atNewPage s t (L.chain i j) id new m).page new) t).1 = some ⟨new, k⟩ ∧
      opCode = opSuccess ∧ s' = afterNewPage s t (L.chain i j) id new m := by
  have hq : (atNewPage s t (L.chain i j) id new m).Quiet := quiet_atNewPage hS hp
  have hmem : new ∈ (atNewPage s t (L.chain i j) id new m).ids := mem_ids_atNewPage.mpr (Or.inl rfl)
  rw [insertNew_overflow hS hp hc hfull]
  cases hi : (insertTuple ((atNewPage s t (L.chain i j) id new m).page new) t).1 with
  | some rid =>
    rw [insertLoop_room hq hmem hi]
    simp only [Option.some.injEq, Prod.mk.injEq, afterNewPage]
    constructor
    · rintro ⟨rfl, rfl, rfl⟩
      exact ⟨rfl, rfl, rfl⟩
    · rintro ⟨rfl, rfl, rfl⟩
      exact ⟨rfl, rfl, rfl⟩
  | none =>
    simp only [reduceCtorEq, false_and, iff_false]
    intro hloop
    have htried : Tried t new (atNewPage s t (L.chain i j) id new m) := ⟨hmem, hi⟩
    exact insertLoop_ne hq hmem hloop htried rfl

end Down

/-! ## What the insertion should do -/

/-- The tuple is stored in one new page at the end of its bucket. -/
structure Overflows (al : Allocator) (doHash : List UInt8 → UInt64) (schema : Schema) (root : ℤ)
    (s : PageStore) (chain : List ℤ) (t : Tuple) (v : Value) (new : ℤ) (k : ℕ) (s' : PageStore) :
    Prop where
  /-- The call succeeds. -/
  result : lkHaInsertTuple al doHash schema root t s = some (opSuccess, t.setRid ⟨new, k⟩, s')
  /-- One page is made. -/
  ids : s'.ids = insert new s.ids
  /-- It is the last one of the bucket. -/
  linked : Linked (nextPage s') (-1) (chain ++ [new])
  /-- It is linked back to the page that was the last one. -/
  prev : chain.getLast? = some (getPrevPageId (s'.page new))
  /-- It is well formed. -/
  wf : WF (s'.page new)
  /-- It holds the tuple and nothing else. -/
  slot_eq : slot (s'.page new) = Function.update (fun _ => none) k (some ⟨t.bytes, false⟩)
  /-- The other pages of the bucket hold what they held. -/
  kept : ∀ c ∈ chain, slot (s'.page c) = slot (s.page c)
  /-- No other page is written. -/
  other : ∀ id ∈ s.ids, id ∉ chain → s'.page id = s.page id
  /-- The tuple is found by its key. -/
  found : lookUp doHash schema root v s' = some (opSuccess, some t.bytes)

section Main

variable {doHash : List UInt8 → UInt64} {schema : Schema} {v : Value} {root i j : ℤ} {L : Layout}
  {pre : List ℤ}

/-- The frame of a new page reads as a page without tuples and without a next page. -/
structure ReadyFrame (size : ℤ) (m : Bytes) : Prop where
  /-- There is room for the tuple, and no other one. -/
  ready : Ready size (Page.view invalidPageId m)
  /-- There is no next page. -/
  next_eq : getNextPageId (Page.view invalidPageId m) = -1

theorem ready_atNewPage_iff (hS : Skeleton s root L) (hp : al.pick s.ids s.allocs = some (new, m))
    (hc : L.chain i j = pre ++ [id]) {size : ℤ} : Ready size ((atNewPage s t (L.chain i j) id new m).page new) ↔
      Ready size (Page.view invalidPageId m) := by
  rw [page_atNewPage hS hp hc, if_pos rfl]
  constructor
  · exact fun h => h.congr_tail fun i hi => (overflow_data _ new id (by omega)).symm
  · exact fun h => h.congr_tail fun i hi => overflow_data _ new id (by omega)

variable (hS : Skeleton s root L) (hp : al.pick s.ids s.allocs = some (new, m))
  (hsz : 8 ≤ t.size) (hsz' : t.size ≤ 3944)
  (huni : ∀ c ∈ L.chain i j, Uniform t.size (s.page c))
  (hfull : ∀ c ∈ L.chain i j, (insertTuple (s.page c) t).1 = none)

include hsz huni hfull in
theorem slot_insertTuple_of_full {c : ℤ} (hcm : c ∈ L.chain i j) :
    slot (insertTuple (s.page c) t).2 = slot (s.page c) ∧ Uniform t.size (insertTuple (s.page c) t).2 ∧
      getTpNumCapacity t.size ≤ (occ (s.page c)).card := by
  obtain ⟨hu, ⟨-, k, -, hrid, -⟩ | ⟨hcap, -, hsl⟩⟩ := insertTuple_uniform hsz (huni c hcm) rfl
  · rw [hfull c hcm] at hrid
    cases hrid
  · exact ⟨hsl, hu, hcap⟩

include hsz hsz' huni hfull in
theorem occ_ne_of_full {c : ℤ} (hcm : c ∈ L.chain i j) : occ (s.page c) ≠ ∅ := by
  have hcap := (slot_insertTuple_of_full hsz huni hfull hcm).2.2
  have hone := (getTpNumCapacity_spec hsz 1).mpr (by omega)
  intro he
  rw [he, Finset.card_empty] at hcap
  omega

include hS hp hsz huni hfull in
theorem slot_atNewPage (hc : L.chain i j = pre ++ [id]) {c : ℤ} (hcm : c ∈ L.chain i j) :
    slot ((atNewPage s t (L.chain i j) id new m).page c) = slot (s.page c) ∧
      WF ((atNewPage s t (L.chain i j) id new m).page c) := by
  have hne : c ≠ new := fun e => (al.fresh hp).1 (e ▸ hS.chain_mem hcm)
  obtain ⟨hsl, hu, -⟩ := slot_insertTuple_of_full hsz huni hfull hcm
  rw [page_atNewPage hS hp hc, if_neg hne, if_pos hcm]
  split_ifs
  · have htail := fun i => setNextPageId_data_tail (insertTuple (s.page c) t).2 new (i := i)
    exact ⟨(hu.wf.slot_eq_of_tail htail).trans hsl, (hu.congr_tail htail).wf⟩
  · exact ⟨hsl, hu.wf⟩

include hS hp hfull in
theorem skeleton_afterNewPage (hc : L.chain i j = pre ++ [id]) (hnext : getNextPageId (Page.view invalidPageId m) = -1)
    (hlink : getNextPageId (insertTuple ((atNewPage s t (L.chain i j) id new m).page new) t).2 =
      getNextPageId ((atNewPage s t (L.chain i j) id new m).page new)) :
    Skeleton (afterNewPage s t (L.chain i j) id new m) root (L.addPage i j new) := by
  have h1 := hS.tryInsert (hS.nodup i j) (fun _ hb => hS.own_chain.mp hb) hfull
  obtain ⟨hids, -, -, hallocs⟩ := tryInsert_fields t s (L.chain i j)
  have h2 : Skeleton (atNewPage s t (L.chain i j) id new m) root (L.addPage i j new) :=
    h1.addLast hc (by rw [hids, hallocs]; exact hp) hnext
  exact h2.put Layout.addPage_own_self (sameFrame_insertTuple _ t) hlink

include hsz in
theorem link_atNewPage {p : Page} {pid : ℤ} {k : ℕ} (hrid : (insertTuple p t).1 = some ⟨pid, k⟩) :
    getNextPageId (insertTuple p t).2 = getNextPageId p ∧ getPrevPageId (insertTuple p t).2 = getPrevPageId p :=
  ⟨getNextPageId_congr fun _ hi => insertTuple_data_of_some hsz hrid hi,
    getPrevPageId_congr fun _ hi => insertTuple_data_of_some hsz hrid hi⟩

variable (hkey : schema.HasKey) (hv : keyOf schema t.bytes = some v)
  (hij : hashToSlot (v.getHashValue doHash) = (i, j))
  (hfresh : ∀ c ∈ L.chain i j, ∀ k, hasKey schema v (s.page c) k = false)

include hS hkey hij hfresh hv in
theorem searchable_of_insert {r : ℤ × Tuple × PageStore}
    (hr : lkHaInsertTuple al doHash schema root t s = some r) : Searchable s (L.chain i j) := by
  by_contra hok
  have hbucket : L.bucketOf doHash v = L.chain i j := by rw [Layout.bucketOf, hij]
  have hcheck : lkHaCheckDuplicateKey doHash schema root v s = none := by
    rw [lkHaCheckDuplicateKey_searchChain doHash hS, hbucket]
    exact searchChain_of_not_searchable hkey hS.quiet (fun id hid => hS.chain_mem hid) (hS.linked i j)
      hfresh hok
  simp only [lkHaInsertTuple, hv, hcheck, Option.bind_eq_bind, Option.bind_some, Option.bind_none, reduceCtorEq] at hr

include hS hkey hij hfresh hv in
theorem insert_of_searchable (hok : Searchable s (L.chain i j)) :
    lkHaInsertTuple al doHash schema root t s = (insertNew al root i j t s).map fun r =>
      (r.1, if r.1 = opSuccess then t.setRid r.2.1 else t, r.2.2) := by
  have hbucket : L.bucketOf doHash v = L.chain i j := by rw [Layout.bucketOf, hij]
  refine lkHaInsertTuple_of_none hv ?_ hij
  rw [lkHaCheckDuplicateKey_eq doHash hkey hS v (hbucket ▸ hok), hbucket, findInChain_of_forall hfresh]

section Stored

variable (hc : L.chain i j = pre ++ [id]) {k : ℕ}
  (hins : (insertTuple ((atNewPage s t (L.chain i j) id new m).page new) t).1 = some ⟨new, k⟩)
  (hwf : WF (insertTuple ((atNewPage s t (L.chain i j) id new m).page new) t).2)
  (hslot : slot (insertTuple ((atNewPage s t (L.chain i j) id new m).page new) t).2 =
    Function.update (fun _ => none) k (some ⟨t.bytes, false⟩))

include hS hp hsz huni hfull hc in
theorem slot_afterNewPage {c : ℤ} (hcm : c ∈ L.chain i j) :
    slot ((afterNewPage s t (L.chain i j) id new m).page c) = slot (s.page c) ∧
      WF ((afterNewPage s t (L.chain i j) id new m).page c) := by
  have hne : c ≠ new := fun e => (al.fresh hp).1 (e ▸ hS.chain_mem hcm)
  rw [page_afterNewPage, if_neg hne]
  exact slot_atNewPage hS hp hsz huni hfull hc hcm

include hS hp hsz huni hfull hc hwf hslot in
theorem readable_afterNewPage (hread : ∀ c ∈ L.chain i j, Readable (s.page c)) :
    ∀ c ∈ L.chain i j ++ new :: [], Readable ((afterNewPage s t (L.chain i j) id new m).page c) := by
  intro c hcm
  rcases List.mem_append.mp hcm with hcm | hcm
  · obtain ⟨hsl, hwf'⟩ := slot_afterNewPage hS hp hsz huni hfull hc hcm
    rw [hwf'.readable_iff, hsl]
    exact (huni c hcm).wf.readable_iff.mp (hread c hcm)
  · rw [List.mem_singleton.mp hcm, page_afterNewPage, if_pos rfl]
    refine hwf.readable fun n sl hn => ?_
    rw [hslot, Function.update_apply] at hn
    split_ifs at hn
    cases hn
    rfl

include hS hp hsz hsz' huni hfull hkey hv hij hfresh hc hins hwf hslot in
theorem lookUp_afterNewPage (hread : ∀ c ∈ L.chain i j, Readable (s.page c))
    (hnext : getNextPageId (Page.view invalidPageId m) = -1) :
    lookUp doHash schema root v (afterNewPage s t (L.chain i j) id new m) =
      some (if v.opEq v = true then (opSuccess, some t.bytes) else (tupleNotFound, none)) := by
  have hskel := skeleton_afterNewPage hS hp hfull hc hnext (link_atNewPage hsz hins).1
  have hbucket : (L.addPage i j new).bucketOf doHash v = L.chain i j ++ new :: [] := by
    rw [Layout.bucketOf, hij, Layout.addPage_chain_self]
  have hok : Searchable (afterNewPage s t (L.chain i j) id new m) ((L.addPage i j new).bucketOf doHash v) :=
    hbucket ▸ searchable_of_readable (readable_afterNewPage hS hp hsz huni hfull hc hwf hslot hread)
  have hno : ∀ c ∈ L.chain i j, ∀ n,
      hasKey schema v ((afterNewPage s t (L.chain i j) id new m).page c) n = false := by
    intro c hcm n
    rw [hasKey, (slot_afterNewPage hS hp hsz huni hfull hc hcm).1]
    exact hfresh c hcm n
  have hnew : ∀ n, hasKey schema v ((afterNewPage s t (L.chain i j) id new m).page new) n = true ↔
      n = k ∧ v.opEq v = true := by
    intro n
    rw [hasKey_iff, page_afterNewPage, if_pos rfl, hslot]
    obtain rfl | hnk := eq_or_ne n k
    · simp [hv]
    · simp [hnk]
  rw [lookUp, lkHaGetTuple_eq doHash hkey hskel v hok, hbucket]
  split_ifs with hself
  · have hfind : findInChain schema v (afterNewPage s t (L.chain i j) id new m)
        (L.chain i j ++ new :: []) = some ⟨new, k⟩ :=
      findInChain_eq_some (fun c hcm => ⟨fun he => occ_ne_of_full hsz hsz' huni hfull hcm ?_, hno c hcm⟩)
        ((hnew k).mpr ⟨rfl, hself⟩) fun n hn => ((hnew n).mp hn).1
    · simp only [hfind, page_afterNewPage, if_true, getTuple_eq, hslot, Function.update_self,
        Option.map_some, Tuple.bytes_ofBytes]
    · rw [← occ_eq_of_slot_eq (slot_afterNewPage hS hp hsz huni hfull hc hcm).1, he]
  · have hfind : findInChain schema v (afterNewPage s t (L.chain i j) id new m)
        (L.chain i j ++ new :: []) = none := by
      refine findInChain_of_forall fun c hcm n => ?_
      rcases List.mem_append.mp hcm with hcm | hcm
      · exact hno c hcm n
      · rw [List.mem_singleton.mp hcm, Bool.eq_false_iff]
        exact fun h => hself ((hnew n).mp h).2
    simp only [hfind, Option.map_some, Option.map_none]

end Stored

include hS hp hsz hsz' huni hfull hkey hv hij hfresh in
theorem Overflows.readyFrame (hc : L.chain i j = pre ++ [id]) {k : ℕ}
    (h : Overflows al doHash schema root s (L.chain i j) t v new k s') :
    (∀ c ∈ L.chain i j, Readable (s.page c)) ∧ ReadyFrame t.size m ∧ v.opEq v = true := by
  have hok := searchable_of_insert hS hkey hv hij hfresh h.result
  have hread := readable_of_searchable hok fun c hcm he => occ_ne_of_full hsz hsz' huni hfull hcm
    (slotsFrom_zero_eq_nil_iff.mp he)
  have hres := h.result
  rw [insert_of_searchable hS hkey hv hij hfresh hok] at hres
  obtain ⟨⟨opCode, rid, s1⟩, hnew, he⟩ := Option.map_eq_some_iff.mp hres
  simp only [Prod.mk.injEq] at he
  obtain ⟨rfl, hrid, rfl⟩ := he
  rw [if_pos rfl] at hrid
  obtain rfl : rid = ⟨new, k⟩ := congrArg Tuple.rid hrid
  -- The tuple is in the new page, so the first attempt on that page succeeded.
  obtain ⟨hins, -, rfl⟩ := (insertNew_eq_some_iff hS hp hc hfull).mp hnew
  have hpage : (afterNewPage s t (L.chain i j) id new m).page new = _ := page_afterNewPage new
  rw [if_pos rfl] at hpage
  have hwf := h.wf
  have hslot := h.slot_eq
  have hlast := h.linked.next_eq
  rw [hpage] at hwf hslot
  rw [nextPage, hpage, (link_atNewPage hsz hins).1, page_atNewPage hS hp hc, if_pos rfl,
    getNextPageId_overflow] at hlast
  refine ⟨hread, ⟨(ready_atNewPage_iff hS hp hc).mp ((insertTuple_alone_iff hsz).mp ⟨k, hins, hwf, hslot⟩), hlast⟩, ?_⟩
  have hfound := h.found
  rw [lookUp_afterNewPage hS hp hsz hsz' huni hfull hkey hv hij hfresh hc hins hwf hslot hread hlast] at hfound
  by_contra hself
  rw [if_neg hself] at hfound
  cases hfound

include hS hp hsz hsz' huni hfull hkey hv hij hfresh in
theorem ReadyFrame.overflows (hc : L.chain i j = pre ++ [id])
    (hread : ∀ c ∈ L.chain i j, Readable (s.page c)) (hm : ReadyFrame t.size m) (hself : v.opEq v = true) :
    ∃ k s', Overflows al doHash schema root s (L.chain i j) t v new k s' := by
  obtain ⟨k, hins, hwf, hslot⟩ := (insertTuple_alone_iff hsz).mpr
    ((ready_atNewPage_iff (t := t) hS hp hc).mpr hm.ready)
  have hok := searchable_of_readable hread
  have hlink := link_atNewPage hsz hins
  have hskel := skeleton_afterNewPage hS hp hfull hc hm.next_eq hlink.1
  have hpage : ∀ b, (afterNewPage s t (L.chain i j) id new m).page b = _ := page_afterNewPage
  have hnew := hpage new
  rw [if_pos rfl] at hnew
  have hresult : lkHaInsertTuple al doHash schema root t s = some (opSuccess, t.setRid ⟨new, k⟩,
      afterNewPage s t (L.chain i j) id new m) := by
    rw [insert_of_searchable hS hkey hv hij hfresh hok,
      (insertNew_eq_some_iff hS hp hc hfull).mpr ⟨hins, rfl, rfl⟩, Option.map_some, if_pos rfl]
  refine ⟨k, _, hresult, ?_, ?_, ?_, hnew ▸ hwf, hnew ▸ hslot,
    fun c hcm => (slot_afterNewPage hS hp hsz huni hfull hc hcm).1, ?_, ?_⟩
  · ext b
    have hmem : b ∈ (atNewPage s t (L.chain i j) id new m).ids ↔ _ := mem_ids_atNewPage
    rw [Finset.mem_insert]
    exact hmem
  · have hl := hskel.linked i j
    rwa [Layout.addPage_chain_self] at hl
  · rw [hnew, hlink.2, page_atNewPage hS hp hc, if_pos rfl, getPrevPageId_setPrevPageId _
      (hS.quiet.isI32 (hS.chain_mem (show id ∈ L.chain i j by simp [hc]))), hc, List.getLast?_concat]
  · intro b hb hbc
    have hne : b ≠ new := fun e => (al.fresh hp).1 (e ▸ hb)
    rw [hpage, if_neg hne, page_atNewPage hS hp hc, if_neg hne, if_neg hbc]
  · rw [lookUp_afterNewPage hS hp hsz hsz' huni hfull hkey hv hij hfresh hc hins hwf hslot hread hm.next_eq,
      if_pos hself]

end Main

/-- A tuple whose key is new is stored as it should be in a bucket whose pages are all full exactly when
the pages of the bucket can be read, the frame of the new page is ready, and the key is equal to
itself. -/
theorem overflow_works_iff {doHash : List UInt8 → UInt64} {schema : Schema} {v : Value} {root : ℤ}
    {L : Layout} (hkey : schema.HasKey) (hS : Skeleton s root L) (hsz : 8 ≤ t.size)
    (hsz' : t.size ≤ 3944) (hv : keyOf schema t.bytes = some v) (hne : L.bucketOf doHash v ≠ [])
    (huni : ∀ c ∈ L.bucketOf doHash v, Uniform t.size (s.page c))
    (hfull : ∀ c ∈ L.bucketOf doHash v, (insertTuple (s.page c) t).1 = none)
    (hfresh : ∀ c ∈ L.bucketOf doHash v, ∀ k, hasKey schema v (s.page c) k = false)
    (hp : al.pick s.ids s.allocs = some (new, m)) :
    (∃ k s', Overflows al doHash schema root s (L.bucketOf doHash v) t v new k s') ↔
      (∀ c ∈ L.bucketOf doHash v, Readable (s.page c)) ∧ ReadyFrame t.size m ∧ v.opEq v = true := by
  obtain ⟨pre, id, hc⟩ := (List.eq_nil_or_concat (L.bucketOf doHash v)).resolve_left hne
  rw [List.concat_eq_append] at hc
  constructor
  · rintro ⟨k, s', h⟩
    exact h.readyFrame hS hp hsz hsz' huni hfull hkey hv (by rfl) hfresh hc
  · rintro ⟨hread, hm, hself⟩
    exact hm.overflows hS hp hsz hsz' huni hfull hkey hv (by rfl) hfresh hc hread hself

/-! ## A page that holds one tuple -/

/-- A table of an integer, the key, and a long string. -/
def wideSchema : Schema where
  columns := [.ofType .kInteger [107] 0, .ofChar [118] 4 3940]

/-- A tuple that fills a page. -/
def wideTuple (key : ℤ) : Tuple :=
  Tuple.ofBytes ⟨-1, -1⟩ (Bytes.toLE4 key ++ List.replicate 3940 0)

theorem wideSchema_hasKey : wideSchema.HasKey := ⟨_, rfl, by decide, by decide⟩

theorem wideTuple_size (key : ℤ) : (wideTuple key).size = 3944 := by
  rw [wideTuple, Tuple.ofBytes_size, List.length_append, List.length_replicate]
  rfl

/-- What holds of a table whose bucket for the key is full. -/
structure FullFor (s : PageStore) (L : Layout) (t : Tuple) (v : Value) : Prop where
  inv : TableInv t.size s 0 L
  ne_nil : L.bucketOf (fun _ => 0) v ≠ []
  full : ∀ c ∈ L.bucketOf (fun _ => 0) v, (insertTuple (s.page c) t).1 = none
  fresh : ∀ c ∈ L.bucketOf (fun _ => 0) v, ∀ k, hasKey wideSchema v (s.page c) k = false
  card : s.ids.card ≤ 4

theorem FullFor.uniform {L : Layout} {v : Value} (h : FullFor s L t v) :
    ∀ c ∈ L.bucketOf (fun _ => 0) v, Uniform t.size (s.page c) := fun _ hc =>
  (h.inv.good (h.inv.skeleton.own_chain.mp hc)).uniform

theorem exists_fullFor (frame : ℕ → Bytes) : ∃ s L, FullFor s L (wideTuple 2) (.integer 2) ∧
    ∃ id, L.bucketOf (fun _ => 0) (.integer 2) = [id] := by
  have hcap : getTpNumCapacity 3944 = 1 := by decide
  have hkey : keyOf wideSchema (wideTuple 1).bytes = some (.integer 1) := by decide
  have hblank : BlankIfFull (Allocator.firstFree frame) 3944 newTable [] := fun hne => absurd rfl hne
  rcases lkHaInsertTuple_cases (fun _ => 0) wideSchema_hasKey (by norm_num) (by rw [hcap]; norm_num)
    (tableInv_newTable 3944) (wideTuple_size 1) hkey rfl (by rfl) hblank with
    ⟨-, hno⟩ | ⟨id, k, s, L, he, hi, hcard, -⟩
  · exact absurd ⟨Allocator.firstFree_correct frame, by decide⟩ hno
  have hchain : L.bucketOf (fun _ => 0) (.integer 2) = [id] := hi.chain_newTable.1
  have hcell : ∀ n, cell s L id n = if n = k then some (wideTuple 1).bytes else none := by
    intro n
    rw [hi.cell_eq, Layout.cell_empty]
    simp
  refine ⟨s, L, ⟨?_, ?_, ?_, ?_, hcard.trans (by decide)⟩, id, hchain⟩
  · rw [wideTuple_size]
    exact hi.inv
  · rw [hchain]
    simp
  · intro c hc
    rw [hchain, List.mem_singleton] at hc
    subst hc
    -- The page can hold one tuple only.
    refine (Good.insertTuple_of_full (by norm_num) (hi.inv.good hi.own_id) (wideTuple_size 2) ?_).1
    have hk : k ∈ occ (s.page c) := (cell_ne_none_iff hi.own_id).mp (by rw [hcell, if_pos rfl]; simp)
    have hpos := Finset.card_pos.mpr ⟨k, hk⟩
    rw [Full, hcap]
    omega
  · intro c hc n
    rw [hchain, List.mem_singleton] at hc
    subst hc
    rw [Bool.eq_false_iff]
    intro hn
    obtain ⟨b, hb, v, hv, heq⟩ := (hasKey_cell hi.own_id).mp hn
    rw [hcell] at hb
    split_ifs at hb
    rw [← Option.some.inj hb, hkey] at hv
    rw [← Option.some.inj hv] at heq
    exact absurd heq (by decide)

/-- The bytes of a page that has been initialised. -/
def initFrame : Bytes := (TablePage.init (Page.view invalidPageId fun _ => 0) (-1) (-1)).data

theorem exists_pick (m : Bytes) {ids : Finset ℤ} (hcard : ids.card < 2^31) (k : ℕ) :
    ∃ new, (Allocator.firstFree fun _ => m).pick ids k = some (new, m) := by
  have hsome := Allocator.firstFree_correct (fun _ => m) ids k hcard
  obtain ⟨⟨new, m'⟩, hp⟩ := Option.isSome_iff_exists.mp hsome
  refine ⟨new, ?_⟩
  rw [hp]
  simp only [Allocator.firstFree] at hp
  split_ifs at hp
  cases hp
  rfl

theorem readyFrame_initFrame : ReadyFrame 3944 initFrame := by
  have hview : Page.view invalidPageId initFrame =
      TablePage.init (Page.view invalidPageId fun _ => 0) (-1) (-1) := rfl
  constructor
  · rw [hview]
    exact ⟨by simp, by simp, by simp, by simp⟩
  · rw [hview]
    exact getNextPageId_init _ (by norm_num [IsI32])

theorem blankFrame_initFrame {sz : ℤ} (hsz : 8 ≤ sz) : BlankFrame sz initFrame := by
  have hview : Page.view invalidPageId initFrame =
      TablePage.init (Page.view invalidPageId fun _ => 0) (-1) (-1) := rfl
  constructor
  · rw [hview]
    exact good_init hsz _ _ _
  · intro k
    rw [hview, slot_init]
  · exact readyFrame_initFrame.next_eq

/-- An allocator whose frames held initialised pages. -/
def initFrames : Allocator := Allocator.firstFree fun _ => initFrame

/-- A tuple is stored in a new page whose frame held an initialised page. -/
theorem overflow_works_iff_wide : ∃ s L new k s', FullFor s L (wideTuple 2) (.integer 2) ∧
    Overflows (Allocator.firstFree fun _ => initFrame) (fun _ => 0) wideSchema 0 s
      (L.bucketOf (fun _ => 0) (.integer 2)) (wideTuple 2) (.integer 2) new k s' := by
  obtain ⟨s, L, h, -⟩ := exists_fullFor fun _ => initFrame
  obtain ⟨new, hp⟩ := exists_pick initFrame (h.card.trans_lt (by norm_num)) s.allocs
  have hread : ∀ c ∈ L.bucketOf (fun _ => 0) (.integer 2), Readable (s.page c) := fun c hc =>
    (h.inv.good (h.inv.skeleton.own_chain.mp hc)).readable
  have hne := h.ne_nil
  obtain ⟨k, s', ho⟩ := (overflow_works_iff wideSchema_hasKey h.inv.skeleton
    (by rw [wideTuple_size]; norm_num) (wideTuple_size 2).le (show keyOf wideSchema _ = _ by decide)
    hne h.uniform h.full h.fresh hp).mpr ⟨hread, by rw [wideTuple_size]; exact readyFrame_initFrame,
      by decide⟩
  exact ⟨s, L, new, k, s', h, ho⟩

/-- A tuple is not stored as it should be in a new page whose frame held zeros. -/
theorem overflow_fails_in_zeros : ∃ s L new, FullFor s L (wideTuple 2) (.integer 2) ∧
    zeroFrames.pick s.ids s.allocs = some (new, fun _ => 0) ∧
    ¬ ∃ k s', Overflows zeroFrames (fun _ => 0) wideSchema 0 s (L.bucketOf (fun _ => 0) (.integer 2))
      (wideTuple 2) (.integer 2) new k s' := by
  obtain ⟨s, L, h, -⟩ := exists_fullFor fun _ _ => 0
  obtain ⟨new, hp⟩ := exists_pick (fun _ => 0) (h.card.trans_lt (by norm_num)) s.allocs
  refine ⟨s, L, new, h, hp, ?_⟩
  rintro ⟨k, s', ho⟩
  obtain ⟨pre, id, hc⟩ := (List.eq_nil_or_concat (L.bucketOf (fun _ => 0) (.integer 2))).resolve_left
    h.ne_nil
  rw [List.concat_eq_append] at hc
  obtain ⟨-, hm, -⟩ := ho.readyFrame h.inv.skeleton hp (by rw [wideTuple_size]; norm_num)
    (wideTuple_size 2).le h.uniform h.full wideSchema_hasKey (show keyOf wideSchema _ = _ by decide)
    (by rfl) h.fresh hc
  -- The frame has a link to page 0.
  exact absurd hm.next_eq (by decide)

end Dawn
