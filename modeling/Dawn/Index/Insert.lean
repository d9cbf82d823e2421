import Dawn.Index.Search
import Dawn.Storage.PageLinks

/-!
# Inserting a tuple

`lk_ha_insert_tuple` goes down to the first page of the bucket, making the pages that are missing
(`childPage_of_mem`, `childPage_of_invalid`), and then along the bucket to the first page that has room
(`insertLoop_pre`, `insertLoop_room`). When no page has room it puts a new page at the end
(`insertLoop_overflow`).
-/

namespace Dawn

open LinkHashPage hiding init

open TablePage PageStore

variable {al : Allocator} {s : PageStore} {root id child : ℤ} {m : Bytes}

/-! ## Going down -/

/-- The store with a new page in a slot of a page of the first two levels. -/
def addChild (s : PageStore) (id slotNum : ℤ) (init : Page → Page) (child : ℤ) (m : Bytes) :
    PageStore :=
  let s := s.alloc child m
  let s := s.put child (init (s.page child))
  s.put id (LinkHashPage.setPgidInSlot (s.page id) slotNum child)

variable {slotNum new hd : ℤ} {x y : ℤ × PageStore}

theorem childPage_of_mem (hq : s.Quiet) (hid : id ∈ s.ids) (init : Page → Page)
    (hc : getPgidInSlot (s.page id) slotNum = child) (hmem : child ∈ s.ids) :
    childPage al id slotNum init (s.guard (Pi.single id 1) ∅) = some (child, s.guard (Pi.single child 1) ∅) := by
  obtain ⟨s', h1, h2, h3⟩ := exists_rLock_guard (e := Pi.single id 1) (hq.free id hid)
    (Finset.notMem_empty id)
  have hne : ¬ child = invalidPageId := hq.ne_invalid hmem
  simp only [childPage, h1, h2, h3, hc, some_bind, if_neg hne, getPage_guard hmem (hq.bounds child hmem).1,
    unpinPage_guard hid (hq.free id hid) (Finset.notMem_empty id), add_sub_cancel_left]

theorem childPage_of_invalid (hq : s.Quiet) (hid : id ∈ s.ids) (init : Page → Page)
    (hc : getPgidInSlot (s.page id) slotNum = -1) (hp : al.pick s.ids s.allocs = some (child, m)) :
    childPage al id slotNum init (s.guard (Pi.single id 1) ∅) =
      some (child, (addChild s id slotNum init child m).guard (Pi.single child 1) ∅) := by
  obtain ⟨s', h1, h2, h3⟩ := exists_rLock_guard (e := Pi.single id 1) (hq.free id hid)
    (Finset.notMem_empty id)
  have hne : child ≠ id := fun e => (al.fresh hp).1 (e ▸ hid)
  have hinv : getPgidInSlot (s.page id) slotNum = invalidPageId := hc
  have hnew := newPage_guard (e := Pi.single id 1) hp (Finset.notMem_empty child)
    (Pi.single_eq_of_ne hne 1)
  simp only [childPage, h1, h2, h3, Option.bind_eq_bind, Option.bind_some, if_pos hinv, hnew, guard_put, guard_page]
  -- From here on the store is the one with the new page.
  have hq' := hq.alloc hp
  have hmem : id ∈ (s.alloc child m).ids := Finset.mem_insert_of_mem hid
  unfold addChild
  generalize s.alloc child m = b at hq' hmem ⊢
  have hfree := hq'.free id hmem
  generalize hb : b.put child (init (b.page child)) = b'
  have hmem' : id ∈ b'.ids := by rw [← hb]; exact hmem
  have hfree' : b'.latch id = Latch.free := by rw [← hb]; exact hfree
  rw [wLock_guard hfree' (Finset.notMem_empty id), Option.bind_some, guard_put, guard_page]
  dsimp only
  rw [hb, release_guard (by exact hmem') (by exact hfree') (Finset.mem_insert_self id ∅),
    Option.bind_some, add_sub_cancel_left, Finset.erase_insert (Finset.notMem_empty id)]

theorem childPage_fail (hq : s.Quiet) (hid : id ∈ s.ids) (init : Page → Page)
    (hc : getPgidInSlot (s.page id) slotNum = -1) (hp : al.pick s.ids s.allocs = none) :
    childPage al id slotNum init (s.guard (Pi.single id 1) ∅) = none := by
  obtain ⟨s', h1, h2, h3⟩ := exists_rLock_guard (e := Pi.single id 1) (hq.free id hid)
    (Finset.notMem_empty id)
  have hinv : getPgidInSlot (s.page id) slotNum = invalidPageId := hc
  simp only [childPage, h1, h2, h3, some_bind, if_pos hinv, newPage_guard_none hp]

/-! ## Going along the bucket -/

section Loop

variable {t : Tuple}

theorem insertLoop_room (hq : s.Quiet) (hid : id ∈ s.ids) {rid : RID} (h : (insertTuple (s.page id) t).1 = some rid) :
    insertLoop al t id (s.guard (Pi.single id 1) {id}) =
      some (opSuccess, rid, s.put id (insertTuple (s.page id) t).2) := by
  rw [insertLoop, guard_page]
  rcases hi : insertTuple (s.page id) t with ⟨r, p⟩
  rw [hi] at h
  cases h
  simp only [guard_put]
  rw [release_guard (by exact hid) (by exact hq.free id hid) (Finset.mem_singleton_self id), sub_self,
    Finset.erase_singleton, guard_zero]
  rfl

theorem pass_next (hq : s.Quiet) (hid : id ∈ s.ids) {next : ℤ} (hmem : next ∈ s.ids) {β : Type}
    (k : PageStore → Option β) : ((s.guard (Pi.single id 1) {id}).getPage next).bind (fun s =>
      ((s.wUnlock id).unpinPage id false).bind fun s => (s.wLock next).bind k) =
      k (s.guard (Pi.single next 1) {next}) := by
  rw [getPage_guard hmem (hq.bounds next hmem).1, Option.bind_some,
    release_guard hid (hq.free id hid) (Finset.mem_singleton_self id), add_sub_cancel_left,
    Finset.erase_singleton, Option.bind_some, wLock_guard (hq.free next hmem) (Finset.notMem_empty next),
    Option.bind_some]
  rfl

theorem exists_refused (h : (insertTuple (s.page id) t).1 = none) : ∃ p, insertTuple (s.page id) t = (none, p) ∧
    (s.put id p).page id = p ∧ getNextPageId p = nextPage s id :=
  ⟨_, Prod.ext h rfl, page_put_self (sameFrame_insertTuple _ t), getNextPageId_insertTuple_of_none h⟩

theorem insertLoop_next (hq : s.Quiet) (hid : id ∈ s.ids)
    (h : (insertTuple (s.page id) t).1 = none) {next : ℤ} (hn : nextPage s id = next) (hmem : next ∈ s.ids) :
    insertLoop al t id (s.guard (Pi.single id 1) {id}) = insertLoop al t next
        ((s.put id (insertTuple (s.page id) t).2).guard (Pi.single next 1) {next}) := by
  obtain ⟨p, hi, hpage, hlink⟩ := exists_refused h
  have hv : ¬ next = invalidPageId := hq.ne_invalid hmem
  rw [insertLoop, guard_page, hi]
  simp only [guard_put, guard_page, hpage, hlink, hn, if_neg hv]
  exact pass_next (hq.put id p) (by exact hid) (by exact hmem) _

/-- The store with a new page behind the last page of a bucket, which has the bytes that its frame held
but for the link back. -/
def addOverflow (s : PageStore) (id new : ℤ) (m : Bytes) : PageStore :=
  let s := s.alloc new m
  let s := s.put id (setNextPageId (s.page id) new)
  s.put new (setPrevPageId (s.page new) id)

theorem pass_new (hq : s.Quiet) (hid : id ∈ s.ids) (hp : al.pick s.ids s.allocs = some (new, m))
    (e : ℤ → ℤ) {β : Type} (k : PageStore → Option β) :
    (((s.alloc new m).guard (e + Pi.single new 1) {id}).wLock new).bind (fun s =>
      ((((s.put id (setNextPageId (s.page id) new)).put new
        (setPrevPageId ((s.put id (setNextPageId (s.page id) new)).page new) id)).wUnlock id).unpinPage
          id true).bind k) = k ((addOverflow s id new m).guard (e + Pi.single new 1 - Pi.single id 1) {new}) := by
  have hne : new ≠ id := fun e => (al.fresh hp).1 (e ▸ hid)
  have hq2 := hq.alloc hp
  have hid2 : id ∈ (s.alloc new m).ids := Finset.mem_insert_of_mem hid
  have hnew : new ∈ (s.alloc new m).ids := Finset.mem_insert_self new s.ids
  unfold addOverflow
  generalize s.alloc new m = c at hq2 hid2 hnew ⊢
  have herase : ({new, id} : Finset ℤ).erase id = {new} := by
    rw [Finset.pair_comm, Finset.erase_insert (by simpa using hne.symm)]
  rw [wLock_guard (hq2.free new hnew) (by simpa using hne), Option.bind_some]
  simp only [guard_put, guard_page]
  rw [release_guard (by exact hid2) (by exact hq2.free id hid2) (by simp), herase, Option.bind_some]

theorem insertLoop_new (hq : s.Quiet) (hid : id ∈ s.ids)
    (h : (insertTuple (s.page id) t).1 = none) (hn : nextPage s id = -1)
    (hp : al.pick s.ids s.allocs = some (new, m)) : insertLoop al t id (s.guard (Pi.single id 1) {id}) =
      insertLoop al t new ((addOverflow (s.put id (insertTuple (s.page id) t).2) id new m).guard
          (Pi.single new 1) {new}) := by
  obtain ⟨p, hi, hpage, hlink⟩ := exists_refused h
  have hne : new ≠ id := fun e => (al.fresh hp).1 (e ▸ hid)
  rw [insertLoop, guard_page, hi]
  simp only [guard_put, guard_page, hpage, hlink, show nextPage s id = invalidPageId from hn, if_true]
  rw [newPage_guard (by exact hp) (by simpa using hne) (Pi.single_eq_of_ne hne 1)]
  refine (pass_new (hq.put id p) (by exact hid) (by exact hp) _ _).trans ?_
  rw [add_sub_cancel_left]

theorem insertLoop_fail (hid : id ∈ s.ids) (h : (insertTuple (s.page id) t).1 = none)
    (hn : nextPage s id = -1) (hp : al.pick s.ids s.allocs = none) :
    insertLoop al t id (s.guard (Pi.single id 1) {id}) = none := by
  obtain ⟨p, hi, hpage, hlink⟩ := exists_refused h
  rw [insertLoop, guard_page, hi]
  simp only [guard_put, guard_page, hpage, hlink, show nextPage s id = invalidPageId from hn, if_true]
  rw [newPage_guard_none (by exact hp)]
  simp only
  rw [unpinPage_of_held (by exact hid) (Finset.mem_singleton_self id)]
  rfl

end Loop

section Rounds

variable {t : Tuple}

/-- A round of the loop at a page that does not take the tuple: the loop goes on with the next page, or with a
new one. -/
inductive Round (al : Allocator) (t : Tuple) : ℤ × PageStore → ℤ × PageStore → Prop
  | next {s : PageStore} {id next : ℤ} (hfull : (insertTuple (s.page id) t).1 = none)
    (hnext : nextPage s id = next) (hmem : next ∈ s.ids) :
    Round al t (id, s) (next, s.put id (insertTuple (s.page id) t).2)
  | new {s : PageStore} {id new : ℤ} {m : Bytes} (hfull : (insertTuple (s.page id) t).1 = none)
    (hnext : nextPage s id = -1) (hp : al.pick s.ids s.allocs = some (new, m)) :
    Round al t (id, s) (new, addOverflow (s.put id (insertTuple (s.page id) t).2) id new m)

theorem Round.ready (h : Round al t x y) (hq : x.2.Quiet) : y.2.Quiet ∧ y.1 ∈ y.2.ids := by
  cases h with
  | next hfull hnext hmem => exact ⟨hq.put _ _, hmem⟩
  | new hfull hnext hp =>
    exact ⟨((((hq.put _ _).alloc hp).put _ _).put _ _), Finset.mem_insert_self _ _⟩

theorem Round.insertLoop_eq (h : Round al t x y) (hq : x.2.Quiet) (hid : x.1 ∈ x.2.ids) :
    insertLoop al t x.1 (x.2.guard (Pi.single x.1 1) {x.1}) =
      insertLoop al t y.1 (y.2.guard (Pi.single y.1 1) {y.1}) := by
  cases h with
  | next hfull hnext hmem => exact insertLoop_next hq hid hfull hnext hmem
  | new hfull hnext hp => exact insertLoop_new hq hid hfull hnext hp

theorem insertLoop_of_rounds (h : Relation.ReflTransGen (Round al t) x y)
    (hq : x.2.Quiet) (hid : x.1 ∈ x.2.ids) : y.2.Quiet ∧ y.1 ∈ y.2.ids ∧
    insertLoop al t x.1 (x.2.guard (Pi.single x.1 1) {x.1}) =
      insertLoop al t y.1 (y.2.guard (Pi.single y.1 1) {y.1}) := by
  induction h with
  | refl => exact ⟨hq, hid, rfl⟩
  | tail _ hround ih =>
    obtain ⟨hq', hid', he⟩ := ih
    obtain ⟨hq'', hid''⟩ := hround.ready hq'
    exact ⟨hq'', hid'', he.trans (hround.insertLoop_eq hq' hid')⟩

theorem rounds_invariant {P : ℤ × PageStore → Prop}
    (h : Relation.ReflTransGen (Round al t) x y) (hq : x.2.Quiet) (hid : x.1 ∈ x.2.ids)
    (hstep : ∀ x y, Round al t x y → x.2.Quiet → x.1 ∈ x.2.ids → P x → P y) (hx : P x) : P y := by
  induction h with
  | refl => exact hx
  | tail hxy hround ih =>
    obtain ⟨hq', hid', -⟩ := insertLoop_of_rounds hxy hq hid
    exact hstep _ _ hround hq' hid' ih

theorem exists_rounds {r : ℤ × RID × PageStore} (hq : s.Quiet) (hid : id ∈ s.ids)
    (h : insertLoop al t id (s.guard (Pi.single id 1) {id}) = some r) :
    ∃ id' s' rid, Relation.ReflTransGen (Round al t) (id, s) (id', s') ∧ (insertTuple (s'.page id') t).1 = some rid ∧
      r = (opSuccess, rid, s'.put id' (insertTuple (s'.page id') t).2) := by
  refine insertLoop.partial_correctness al t (fun id σ r => ∀ s : PageStore,
    σ = s.guard (Pi.single id 1) {id} → s.Quiet → id ∈ s.ids →
    ∃ id' s' rid, Relation.ReflTransGen (Round al t) (id, s) (id', s') ∧ (insertTuple (s'.page id') t).1 = some rid ∧
      r = (opSuccess, rid, s'.put id' (insertTuple (s'.page id') t).2)) ?_ id _ r h s rfl hq hid
  rintro loop ih id _ r h s rfl hq hid
  rw [guard_page] at h
  rcases hi : insertTuple (s.page id) t with ⟨_ | rid, p⟩
  · have hfull : (insertTuple (s.page id) t).1 = none := by rw [hi]
    obtain ⟨_, hp, hpage, hlink⟩ := exists_refused hfull
    cases hi.symm.trans hp
    simp only [hi, guard_put, guard_page, hpage, hlink] at h
    split_ifs at h with hlast
    · cases hp : al.pick s.ids s.allocs with
      | none =>
        -- The latch of the page is held, and `unpin_page` waits for it.
        rw [newPage_guard_none (by exact hp)] at h
        simp only [] at h
        rw [unpinPage_of_held (by exact hid) (Finset.mem_singleton_self id)] at h
        cases h
      | some x =>
        obtain ⟨new, m⟩ := x
        have hne : new ≠ id := fun e => (al.fresh hp).1 (e ▸ hid)
        rw [newPage_guard (by exact hp) (by simpa using hne) (Pi.single_eq_of_ne hne 1)] at h
        have hloop := (pass_new (hq.put id p) (by exact hid) (by exact hp) _ (loop new)).symm.trans h
        rw [add_sub_cancel_left] at hloop
        have hround : Round al t (id, s) _ := .new hfull hlast hp
        rw [hi] at hround
        obtain ⟨hq', hid'⟩ := hround.ready hq
        obtain ⟨id', s', rid, hrounds, hrest⟩ := ih _ _ _ hloop _ rfl hq' hid'
        exact ⟨id', s', rid, .head hround hrounds, hrest⟩
    · by_cases hmem : nextPage s id ∈ s.ids
      · have hloop := (pass_next (hq.put id p) (by exact hid) (by exact hmem) (loop (nextPage s id))).symm.trans h
        have hround : Round al t (id, s) _ := .next hfull rfl hmem
        rw [hi] at hround
        obtain ⟨hq', hid'⟩ := hround.ready hq
        obtain ⟨id', s', rid, hrounds, hrest⟩ := ih _ _ _ hloop _ rfl hq' hid'
        exact ⟨id', s', rid, .head hround hrounds, hrest⟩
      · -- The page that follows does not exist.
        have hget : ((s.put id p).guard (Pi.single id 1) {id}).getPage (nextPage s id) = none :=
          if_neg fun hc => hmem hc.1
        rw [hget] at h
        cases h
  · have hroom : insertLoop al t id _ = _ :=
      insertLoop_room hq hid (show (insertTuple (s.page id) t).1 = some rid by rw [hi])
    rw [insertLoop, guard_page] at hroom
    simp only [hi] at h hroom
    rw [h] at hroom
    exact ⟨id, s, rid, .refl, by rw [hi], by rw [hi]; exact Option.some.inj hroom⟩

end Rounds

section Chain

variable {t : Tuple}

/-- The store after `insert_tuple` has been tried on some pages. -/
def tryInsert (t : Tuple) (s : PageStore) (l : List ℤ) : PageStore :=
  l.foldl (fun s id => s.put id (insertTuple (s.page id) t).2) s

theorem tryInsert_cons (l : List ℤ) :
    tryInsert t s (id :: l) = tryInsert t (s.put id (insertTuple (s.page id) t).2) l := rfl

theorem tryInsert_snoc (l : List ℤ) : tryInsert t s (l ++ [id]) =
    (tryInsert t s l).put id (insertTuple ((tryInsert t s l).page id) t).2 := by
  simp [tryInsert]

theorem tryInsert_fields (t : Tuple) (s : PageStore) (l : List ℤ) : (tryInsert t s l).ids = s.ids ∧
    (tryInsert t s l).pins = s.pins ∧ (tryInsert t s l).latch = s.latch ∧ (tryInsert t s l).allocs = s.allocs := by
  induction l generalizing s with
  | nil => exact ⟨rfl, rfl, rfl, rfl⟩
  | cons id l ih =>
    exact ih (s.put id (insertTuple (s.page id) t).2)

theorem PageStore.Quiet.tryInsert (hq : s.Quiet) (l : List ℤ) : (tryInsert t s l).Quiet := by
  obtain ⟨h1, -, h2, -⟩ := tryInsert_fields t s l
  constructor
  · rw [h1]
    exact hq.bounds
  · rw [h1, h2]
    exact hq.free

theorem page_tryInsert {l : List ℤ} (hl : l.Nodup) (b : ℤ) : (tryInsert t s l).page b =
    if b ∈ l then (insertTuple (s.page b) t).2 else s.page b := by
  induction l generalizing s with
  | nil => rfl
  | cons id l ih =>
    rw [List.nodup_cons] at hl
    rw [tryInsert_cons, ih hl.2]
    obtain rfl | hne := eq_or_ne b id
    · rw [if_neg hl.1, if_pos List.mem_cons_self, page_put_self (sameFrame_insertTuple _ t)]
    · rw [page_put_of_ne _ hne]
      simp only [List.mem_cons, hne, false_or]

theorem insertLoop_pre (hq : s.Quiet) {pre post : List ℤ} (hmem : ∀ b ∈ pre ++ id :: post, b ∈ s.ids)
    (hnd : (pre ++ id :: post).Nodup) (hlink : Linked (nextPage s) (-1) (pre ++ id :: post))
    (hfull : ∀ b ∈ pre, (insertTuple (s.page b) t).1 = none) (hhd : hd = headOr (-1) (pre ++ id :: post)) :
    insertLoop al t hd (s.guard (Pi.single hd 1) {hd}) =
      insertLoop al t id ((tryInsert t s pre).guard (Pi.single id 1) {id}) := by
  -- The induction is on the pages before the one that is looked for.
  induction pre generalizing s hd with
  | nil =>
    rw [hhd]
    rfl
  | cons b pre ih =>
    rw [List.cons_append] at hmem hnd hlink hhd
    rw [headOr_cons] at hhd
    subst hhd
    rw [List.nodup_cons] at hnd
    have hb : hd ∈ s.ids := hmem hd List.mem_cons_self
    have hnext : headOr (-1) (pre ++ id :: post) ∈ pre ++ id :: post := headOr_mem (by simp)
    rw [insertLoop_next hq hb (hfull hd List.mem_cons_self) hlink.1
      (hmem _ (List.mem_cons_of_mem hd hnext)), tryInsert_cons]
    have hsame : ∀ c ∈ pre ++ id :: post,
        (s.put hd (insertTuple (s.page hd) t).2).page c = s.page c := fun c hc =>
      page_put_of_ne _ fun e => hnd.1 (e ▸ hc)
    refine ih (hq.put hd _) (fun c hc => hmem c (List.mem_cons_of_mem hd hc)) hnd.2
      (hlink.2.congr fun c hc => ?_) (fun c hc => ?_) rfl
    · rw [nextPage, nextPage, hsame c hc]
    · rw [hsame c (List.mem_append_left _ hc)]
      exact hfull c (List.mem_cons_of_mem hd hc)

theorem Skeleton.insertLoop_at {L : Layout} {i j : ℤ} {pre post : List ℤ} (hS : Skeleton s root L)
    (al : Allocator) (hc : L.chain i j = pre ++ id :: post)
    (hpre : ∀ b ∈ pre, (insertTuple (s.page b) t).1 = none) (hhd : hd = headOr (-1) (L.chain i j)) :
    (tryInsert t s pre).Quiet ∧ id ∈ (tryInsert t s pre).ids ∧ (tryInsert t s pre).page id = s.page id ∧
    insertLoop al t hd (s.guard (Pi.single hd 1) {hd}) =
      insertLoop al t id ((tryInsert t s pre).guard (Pi.single id 1) {id}) := by
  have hnd := hS.nodup i j
  have hmem : ∀ b ∈ pre ++ id :: post, b ∈ s.ids := fun b hb => hS.chain_mem (hc ▸ hb)
  have hlink := hS.linked i j
  rw [hc] at hnd hlink hhd
  have hcp : id ∉ pre := fun hm => List.disjoint_of_nodup_append hnd hm List.mem_cons_self
  refine ⟨hS.quiet.tryInsert pre, ?_, by rw [page_tryInsert hnd.of_append_left, if_neg hcp],
    insertLoop_pre hS.quiet hmem hnd hlink hpre hhd⟩
  rw [(tryInsert_fields t s pre).1]
  exact hmem id (by simp)

section Full

variable {L : Layout} {i j : ℤ} {pre : List ℤ} (hS : Skeleton s root L)
  (hc : L.chain i j = pre ++ [id])
  (hfull : ∀ c ∈ L.chain i j, (insertTuple (s.page c) t).1 = none)
include hS hc hfull

theorem Skeleton.insertLoop_last (al : Allocator) (hhd : hd = headOr (-1) (L.chain i j)) :
    id ∈ (tryInsert t s pre).ids ∧ (insertTuple ((tryInsert t s pre).page id) t).1 = none ∧
    nextPage (tryInsert t s pre) id = -1 ∧ insertLoop al t hd (s.guard (Pi.single hd 1) {hd}) =
      insertLoop al t id ((tryInsert t s pre).guard (Pi.single id 1) {id}) := by
  obtain ⟨-, hid, hpage, hloop⟩ := hS.insertLoop_at al hc (fun b hb => hfull b (by simp [hc, hb])) hhd
  have hlink := hS.linked i j
  rw [hc] at hlink
  refine ⟨hid, ?_, ?_, hloop⟩
  · rw [hpage]
    exact hfull id (by simp [hc])
  · rw [nextPage, hpage]
    exact hlink.next_eq

theorem Skeleton.insertLoop_overflow (hhd : hd = headOr (-1) (L.chain i j))
    (hp : al.pick s.ids s.allocs = some (new, m)) : insertLoop al t hd (s.guard (Pi.single hd 1) {hd}) =
      insertLoop al t new ((addOverflow (tryInsert t s (L.chain i j)) id new m).guard (Pi.single new 1) {new}) := by
  obtain ⟨hid, hnone, hlink, heq⟩ := hS.insertLoop_last hc hfull al hhd
  obtain ⟨hids, -, -, hallocs⟩ := tryInsert_fields t s pre
  rw [heq, insertLoop_new (hS.quiet.tryInsert pre) hid hnone hlink (by rw [hids, hallocs]; exact hp), hc,
    tryInsert_snoc]

theorem Skeleton.insertLoop_stuck (hhd : hd = headOr (-1) (L.chain i j)) (hp : al.pick s.ids s.allocs = none) :
    insertLoop al t hd (s.guard (Pi.single hd 1) {hd}) = none := by
  obtain ⟨hid, hnone, hlink, heq⟩ := hS.insertLoop_last hc hfull al hhd
  obtain ⟨hids, -, -, hallocs⟩ := tryInsert_fields t s pre
  rw [heq, insertLoop_fail hid hnone hlink (by rw [hids, hallocs]; exact hp)]

end Full

end Chain

end Dawn
