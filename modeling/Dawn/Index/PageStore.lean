import Dawn.Lib.Returns
import Dawn.Storage.LinkHashPage
import Dawn.Storage.SlotStore

/-!
# A page store

What the index asks of `BufferPoolManager`: a page that exists keeps the bytes that were written into
it, and a new page has an id that no page has and the bytes of whatever frame it got. A page is pinned
by whoever looks at it and can be deleted only when nobody does; a page's latch is also taken by
`unpin_page` and `delete_page`. A call that waits for a latch that its own thread holds never returns,
which is `none`.

The index reads and writes a page through a pointer to its frame; here that is `page` and `put`. The
dirty flag is not kept: a store loses no bytes.
-/

namespace Dawn

open Function

/-- A page store. -/
structure PageStore where
  /-- The pages that exist. -/
  ids : Finset ℤ
  /-- The bytes of each page. -/
  data : ℤ → Bytes
  /-- `pin_count_` of each page. -/
  pins : ℤ → ℤ
  /-- `latch_` of each page. -/
  latch : ℤ → Latch
  /-- How many pages have been asked for. -/
  allocs : ℕ

/-- Which page `new_page` hands out, given the pages that exist and how many were asked for before: its
id and the bytes that its frame held, or nothing where it returns `nullptr`. -/
structure Allocator where
  /-- The page that is handed out. -/
  pick : Finset ℤ → ℕ → Option (ℤ × Bytes)
  /-- Its id is not in use. -/
  fresh : ∀ {ids : Finset ℤ} {k : ℕ} {id : ℤ} {m : Bytes},
    pick ids k = some (id, m) → id ∉ ids ∧ 0 ≤ id ∧ id < 2^31

/-- `new_page` succeeds as long as there are page ids left. -/
def Allocator.Correct (al : Allocator) : Prop :=
  ∀ (ids : Finset ℤ) (k : ℕ), ids.card < 2^31 → (al.pick ids k).isSome

theorem exists_free_id (ids : Finset ℤ) : ∃ n : ℕ, (n : ℤ) ∉ ids := by
  obtain ⟨n, hn⟩ := Infinite.exists_notMem_finset (ids.preimage Nat.cast Nat.cast_injective.injOn)
  exact ⟨n, fun h => hn (Finset.mem_preimage.mpr h)⟩

/-- The allocator that hands out the smallest id that is not in use, in frames that hold given bytes. -/
def Allocator.firstFree (frame : ℕ → Bytes) : Allocator where
  pick ids k :=
    if Nat.find (exists_free_id ids) < 2^31 then some (Nat.find (exists_free_id ids), frame k) else none
  fresh {ids k id m} h := by
    split_ifs at h with hlt
    rw [Option.some.injEq, Prod.mk.injEq] at h
    obtain ⟨rfl, -⟩ := h
    exact ⟨Nat.find_spec (exists_free_id ids), by omega, by exact_mod_cast hlt⟩

theorem Allocator.firstFree_correct (frame : ℕ → Bytes) : (Allocator.firstFree frame).Correct := by
  intro ids k hcard
  have hlt : Nat.find (exists_free_id ids) < 2^31 := by
    by_contra hge
    -- All smaller ids would be in use.
    have hsub : (Finset.range (2^31)).map Nat.castEmbedding ⊆ ids := by
      intro id hid
      obtain ⟨n, hn, rfl⟩ := Finset.mem_map.mp hid
      have := Nat.find_min (exists_free_id ids) (show n < _ by
        have := Finset.mem_range.mp hn
        omega)
      simpa using this
    have := Finset.card_le_card hsub
    rw [Finset.card_map, Finset.card_range] at this
    omega
  simp only [Allocator.firstFree, if_pos hlt, Option.isSome_some]

/-- A frame in which a page with the given id and bytes lies; the index looks at nothing else in it. -/
def Page.view (id : ℤ) (m : Bytes) : Page := ⟨id, 0, false, -1, Latch.free, m⟩

namespace PageStore

variable (s : PageStore) (id : ℤ)

/-- The page at a pointer. -/
def page : Page := Page.view id (s.data id)

/-- The bytes of a page are changed through a pointer. -/
def put (p : Page) : PageStore := { s with data := Function.update s.data id p.data }

/-- `get_page`, where `none` is `nullptr`. -/
def getPage : Option PageStore :=
  if id ∈ s.ids ∧ invalidPageId < id then
    some { s with pins := Function.update s.pins id (s.pins id + 1) }
  else none

/-- `new_page`: the id of the page, or nothing where it returns `nullptr`. -/
def newPage (al : Allocator) : Option ℤ × PageStore :=
  match al.pick s.ids s.allocs with
  | none => (none, { s with allocs := s.allocs + 1 })
  | some (id, m) => (some id,
    { ids := insert id s.ids
      data := Function.update s.data id ((Page.view invalidPageId m).onAlloc id).data
      pins := Function.update s.pins id 1
      latch := Function.update s.latch id Latch.free
      allocs := s.allocs + 1 })

/-- `r_lock`. -/
def rLock : Option PageStore :=
  (s.latch id).rLock.map fun l => { s with latch := Function.update s.latch id l }

/-- `r_unlock`. -/
def rUnlock : PageStore := { s with latch := Function.update s.latch id (s.latch id).rUnlock }

/-- `w_lock`. -/
def wLock : Option PageStore :=
  (s.latch id).wLock.map fun l => { s with latch := Function.update s.latch id l }

/-- `w_unlock`. -/
def wUnlock : PageStore := { s with latch := Function.update s.latch id (s.latch id).wUnlock }

/-- `unpin_page`, which takes the page's latch. -/
def unpinPage (_dirty : Bool) : Option PageStore :=
  if id ∈ s.ids then do
    let s ← s.wLock id
    some ({ s with pins := Function.update s.pins id (s.pins id - 1) }.wUnlock id)
  else some s

/-- `delete_page`. -/
def deletePage : Option (Bool × PageStore) :=
  if id ∈ s.ids then
    if s.pins id ≠ 0 then some (false, s)
    else do
      let s ← s.wLock id
      let s := s.wUnlock id
      some (true, { s with ids := s.ids.erase id })
  else some (true, s)

/-- `get_page`, `r_lock`, a look at the page, `r_unlock`, and `unpin_page`. A page id that `get_page`
does not find is a `nullptr` that is dereferenced. -/
def inspectBy (getPage : PageStore → ℤ → Option PageStore) {α : Type} (look : Page → α) :
    Option (α × PageStore) := do
  let s ← getPage s id
  let s ← s.rLock id
  let a := look (s.page id)
  let s ← (s.rUnlock id).unpinPage id false
  some (a, s)

@[inherit_doc inspectBy]
def inspect {α : Type} (look : Page → α) : Option (α × PageStore) := s.inspectBy id PageStore.getPage look

/-- `get_page`, `w_lock`, a change to the page, `w_unlock`, and `unpin_page`. -/
def modify {α : Type} (change : Page → α × Page) : Option (α × PageStore) := do
  let s ← s.getPage id
  let s ← s.wLock id
  let (a, p) := change (s.page id)
  let s ← ((s.put id p).wUnlock id).unpinPage id true
  some (a, s)

end PageStore

namespace Page

/-- The two frames differ in the bytes of the page only. -/
def SameFrame (p p' : Page) : Prop := p' = { p with data := p'.data }

theorem SameFrame.refl (p : Page) : SameFrame p p := rfl

theorem SameFrame.data (p : Page) (m : Bytes) : SameFrame p { p with data := m } := rfl

theorem SameFrame.trans {p q r : Page} (h : SameFrame p q) (h' : SameFrame q r) : SameFrame p r := by
  unfold SameFrame at h h' ⊢
  rw [h', h]

theorem SameFrame.foldl {β : Type} {f : Page → β → Page} (h : ∀ p b, SameFrame p (f p b))
    (l : List β) (p : Page) : SameFrame p (l.foldl f p) := by
  induction l generalizing p with
  | nil => exact SameFrame.refl p
  | cons b l ih => exact (h p b).trans (ih (f p b))

end Page

/-! ## The pages' functions change bytes only -/

theorem LinkHashPage.sameFrame_init (p : Page) : p.SameFrame (init p) :=
  Page.SameFrame.foldl (fun q _ => Page.SameFrame.data q _) _ p

theorem LinkHashPage.sameFrame_setPgidInSlot (p : Page) (i v : ℤ) : p.SameFrame (setPgidInSlot p i v) := by
  unfold setPgidInSlot
  split_ifs <;> rfl

namespace TablePage

theorem sameFrame_storeTuple (p : Page) (n : ℤ) (t : Tuple) : p.SameFrame (storeTuple p n t) :=
  Page.SameFrame.data p _

theorem sameFrame_insertTuple (p : Page) (t : Tuple) : p.SameFrame (insertTuple p t).2 := by
  have he : p.SameFrame (getEmptySlot p).2 := by
    rcases getEmptySlot_cases p with ⟨k, h, -⟩ | ⟨-, ⟨-, h⟩ | ⟨-, h⟩⟩ <;> rw [h]
    · exact Page.SameFrame.refl p
    · exact Page.SameFrame.refl p
    · exact Page.SameFrame.data p _
  rcases h : getEmptySlot p with ⟨n, q⟩
  rw [h] at he
  simp only [insertTuple, h]
  split_ifs
  · exact he
  · exact he.trans (sameFrame_storeTuple q n t)

theorem sameFrame_setNextPageId (p : Page) (v : ℤ) : p.SameFrame (setNextPageId p v) :=
  Page.SameFrame.data p _

theorem sameFrame_setPrevPageId (p : Page) (v : ℤ) : p.SameFrame (setPrevPageId p v) :=
  Page.SameFrame.data p _

theorem sameFrame_markDelete (p : Page) (rid : RID) : p.SameFrame (markDelete p rid).2 := by
  unfold markDelete
  dsimp only
  split_ifs <;> rfl

theorem sameFrame_updateTuple (p : Page) (t : Tuple) (rid : RID) : p.SameFrame (updateTuple p t rid).2 := by
  unfold updateTuple
  dsimp only
  split_ifs <;> rfl

theorem sameFrame_applyDelete (p : Page) (rid : RID) : p.SameFrame (applyDelete p rid) := by
  have hr : ∀ (o z : ℤ) (p : Page) (k : ℕ), p.SameFrame (relocate o z p k) := by
    intro o z p k
    unfold relocate
    dsimp only
    split_ifs <;> rfl
  have hd : p.SameFrame (deleteTupleRecord p rid.slotNum) := by
    unfold deleteTupleRecord
    split_ifs <;> rfl
  unfold applyDelete
  dsimp only
  split_ifs
  · rfl
  · exact (hd.trans (Page.SameFrame.data _ _)).trans (Page.SameFrame.foldl (hr _ _) _ _)

end TablePage

namespace PageStore

variable {s : PageStore} {id id' : ℤ}

/-! ## Reading and writing pages -/

@[simp] theorem page_pageId (s : PageStore) (id : ℤ) : (s.page id).pageId = id := rfl

theorem put_put (p q : Page) : (s.put id p).put id q = s.put id q := by
  simp [put]

theorem page_put_self {p : Page} (h : (s.page id).SameFrame p) : (s.put id p).page id = p := by
  rw [h]
  simp [page, put, Page.view]

theorem page_put_of_ne (p : Page) (h : id' ≠ id) : (s.put id p).page id' = s.page id' := by
  simp [page, put, update_of_ne h]

/-- Between calls of the index, every page id is one that a page can hold, and no latch is held. -/
structure Quiet (s : PageStore) : Prop where
  /-- Page ids are natural numbers and fit into a page. -/
  bounds : ∀ id ∈ s.ids, 0 ≤ id ∧ id < 2^31
  /-- Nobody holds a latch. -/
  free : ∀ id ∈ s.ids, s.latch id = Latch.free

theorem Quiet.isI32 (h : s.Quiet) (hid : id ∈ s.ids) : IsI32 id := by
  have := h.bounds id hid
  exact ⟨by omega, this.2⟩

theorem Quiet.ne_invalid (h : s.Quiet) (hid : id ∈ s.ids) : id ≠ -1 := by
  have := h.bounds id hid
  omega

/-! ## Pins and latches in the middle of a call

The store in the middle of a call is the store with some more pins and some write latches. Each call
adds or takes away one of them, and at the end of a function none is left. -/

/-- The store with more pins, and with the write latches of some pages held. -/
def guard (s : PageStore) (e : ℤ → ℤ) (held : Finset ℤ) : PageStore :=
  { s with
    pins := s.pins + e
    latch := fun i => if i ∈ held then { writerEntered := true } else s.latch i }

/-- The store with one new page, not pinned, in a frame that held the bytes `m`. -/
def alloc (s : PageStore) (id : ℤ) (m : Bytes) : PageStore where
  ids := insert id s.ids
  data := Function.update s.data id ((Page.view invalidPageId m).onAlloc id).data
  pins := Function.update s.pins id 0
  latch := Function.update s.latch id Latch.free
  allocs := s.allocs + 1

@[simp] theorem guard_zero (s : PageStore) : s.guard 0 ∅ = s := by
  simp [guard]

@[simp] theorem guard_page (e : ℤ → ℤ) (held : Finset ℤ) : (s.guard e held).page id = s.page id := rfl

theorem guard_put (e : ℤ → ℤ) (held : Finset ℤ) (p : Page) :
    (s.guard e held).put id p = (s.put id p).guard e held := rfl

theorem guard_neg_guard (e : ℤ → ℤ) : (s.guard (-e) ∅).guard e ∅ = s := by
  simp [guard, add_assoc]

section Calls

variable {e : ℤ → ℤ} {held : Finset ℤ}

theorem getPage_guard (h : id ∈ s.ids) (h0 : 0 ≤ id) :
    (s.guard e held).getPage id = some (s.guard (e + Pi.single id 1) held) := by
  have hc : id ∈ (s.guard e held).ids ∧ invalidPageId < id := ⟨h, by simp; omega⟩
  rw [getPage, if_pos hc]
  congr 2
  funext i
  obtain rfl | hi := eq_or_ne i id
  · simp [guard, add_assoc]
  · simp [guard, update_of_ne hi, Pi.single_eq_of_ne hi]

theorem wLock_guard (hl : s.latch id = Latch.free) (h : id ∉ held) :
    (s.guard e held).wLock id = some (s.guard e (insert id held)) := by
  have hf : (s.guard e held).latch id = Latch.free := by simp [guard, h, hl]
  rw [wLock, hf, Latch.wLock_free, Option.map_some]
  congr 2
  funext i
  obtain rfl | hi := eq_or_ne i id
  · simp
  · simp [guard, hi]

theorem wUnlock_guard (hl : s.latch id = Latch.free) (h : id ∈ held) :
    (s.guard e held).wUnlock id = s.guard e (held.erase id) := by
  have hf : (s.guard e held).latch id = { writerEntered := true } := by simp [guard, h]
  rw [wUnlock, hf, Latch.wUnlock_wLocked]
  unfold guard
  congr 1
  funext i
  obtain rfl | hi := eq_or_ne i id
  · simp [hl]
  · simp [hi]

theorem unpinPage_guard (h : id ∈ s.ids) (hl : s.latch id = Latch.free) (hh : id ∉ held) (dirty : Bool) :
    (s.guard e held).unpinPage id dirty = some (s.guard (e - Pi.single id 1) held) := by
  have hc : id ∈ (s.guard e held).ids := h
  have hu : (s.guard (e - Pi.single id 1) (insert id held)).wUnlock id =
      s.guard (e - Pi.single id 1) held := by
    rw [wUnlock_guard hl (Finset.mem_insert_self id held), Finset.erase_insert hh]
  rw [unpinPage, if_pos hc, wLock_guard hl hh, some_bind, ← hu]
  congr 2
  unfold guard
  congr 1
  funext i
  obtain rfl | hi := eq_or_ne i id
  · simp [add_sub_assoc]
  · simp [update_of_ne hi, Pi.single_eq_of_ne hi]

theorem release_guard (h : id ∈ s.ids) (hl : s.latch id = Latch.free) (hh : id ∈ held)
    (dirty : Bool) : ((s.guard e held).wUnlock id).unpinPage id dirty =
      some (s.guard (e - Pi.single id 1) (held.erase id)) := by
  rw [wUnlock_guard hl hh, unpinPage_guard h hl (Finset.notMem_erase id held)]

theorem newPage_guard {al : Allocator} {m : Bytes} (h : al.pick s.ids s.allocs = some (id, m))
    (hh : id ∉ held) (he : e id = 0) : (s.guard e held).newPage al =
      (some id, (s.alloc id m).guard (e + Pi.single id 1) held) := by
  have hp : al.pick (s.guard e held).ids (s.guard e held).allocs = some (id, m) := h
  simp only [newPage, hp, Prod.mk.injEq, true_and]
  unfold guard alloc
  congr 1
  · funext i
    obtain rfl | hi := eq_or_ne i id
    · simp [he]
    · simp [update_of_ne hi, Pi.single_eq_of_ne hi]
  · funext i
    obtain rfl | hi := eq_or_ne i id
    · simp [hh]
    · simp [update_of_ne hi]

theorem newPage_guard_none {al : Allocator} (h : al.pick s.ids s.allocs = none) :
    (s.guard e held).newPage al = (none, { s with allocs := s.allocs + 1 }.guard e held) := by
  have hp : al.pick (s.guard e held).ids (s.guard e held).allocs = none := h
  simp only [newPage, hp]
  rfl

theorem unpinPage_of_held (h : id ∈ s.ids) (hh : id ∈ held) (dirty : Bool) :
    (s.guard e held).unpinPage id dirty = none := by
  have hc : id ∈ (s.guard e held).ids := h
  have hl : (s.guard e held).latch id = { writerEntered := true } := by simp [guard, hh]
  rw [unpinPage, if_pos hc, wLock, hl]
  rfl

theorem exists_rLock_guard (hl : s.latch id = Latch.free) (h : id ∉ held) :
    ∃ s', (s.guard e held).rLock id = some s' ∧ s'.page id = s.page id ∧ s'.rUnlock id = s.guard e held := by
  have hf : (s.guard e held).latch id = Latch.free := by simp [guard, h, hl]
  have hu : update (s.guard e held).latch id Latch.free = (s.guard e held).latch := by
    rw [← hf, update_eq_self]
  refine ⟨{ s.guard e held with
    latch := update (s.guard e held).latch id { readerCount := 1 } }, ?_, rfl, ?_⟩
  · rw [rLock, hf, Latch.rLock_free, Option.map_some]
  · simp only [rUnlock, update_self, Latch.rUnlock_rLocked, update_idem, hu]

theorem inspect_guard {α : Type} (h : id ∈ s.ids) (h0 : 0 ≤ id) (hl : s.latch id = Latch.free)
    (hh : id ∉ held) (look : Page → α) :
    (s.guard e held).inspect id look = some (look (s.page id), s.guard e held) := by
  obtain ⟨s', h1, h2, h3⟩ := exists_rLock_guard (e := e + Pi.single id 1) hl hh
  simp only [inspect, inspectBy, getPage_guard h h0, some_bind, h1, h2, h3, unpinPage_guard h hl hh, add_sub_cancel_right]

end Calls

/-! ## Holding several pages -/

section Hold

variable {l l' held : List ℤ}

/-- The store in which the pages of a list are pinned and write-latched. -/
def holdAll (s : PageStore) (l : List ℤ) : PageStore :=
  s.guard (fun i => (l.count i : ℤ)) l.toFinset

/-- The store without some pages. -/
def drop (s : PageStore) (l : List ℤ) : PageStore := { s with ids := s.ids \ l.toFinset }

@[simp] theorem holdAll_page : (s.holdAll l).page id = s.page id := rfl

@[simp] theorem holdAll_nil : s.holdAll [] = s := guard_zero s

theorem holdAll_put (p : Page) : (s.holdAll l).put id p = (s.put id p).holdAll l := rfl

theorem holdAll_perm (h : l.Perm l') : s.holdAll l = s.holdAll l' := by
  unfold holdAll
  rw [List.toFinset_eq_of_perm l l' h]
  simp only [h.count_eq]

theorem guard_cons (l : List ℤ) : s.guard ((fun i => (l.count i : ℤ)) + Pi.single id 1)
    (insert id l.toFinset) = s.holdAll (id :: l) := by
  unfold holdAll
  rw [List.toFinset_cons]
  congr 1
  funext i
  obtain rfl | hi := eq_or_ne i id
  · simp
  · simp [hi, hi.symm]

theorem holdAll_pair : s.holdAll [id, id'] = s.guard (Pi.single id' 1 + Pi.single id 1) {id, id'} := by
  rw [← guard_cons]
  congr 2
  funext i
  obtain rfl | hi := eq_or_ne i id'
  · simp
  · simp [hi, hi.symm]

theorem Quiet.hold (hq : s.Quiet) (h : id ∈ s.ids) (hl : id ∉ l) :
    ((s.holdAll l).getPage id).bind (·.wLock id) = some (s.holdAll (id :: l)) := by
  rw [holdAll, getPage_guard h (hq.bounds id h).1, Option.bind_some,
    wLock_guard (hq.free id h) (by simpa using hl), guard_cons]

theorem release_holdAll (h : id ∈ s.ids) (hf : s.latch id = Latch.free) (hl : id ∉ l) (dirty : Bool) :
    ((s.holdAll (id :: l)).wUnlock id).unpinPage id dirty = some (s.holdAll l) := by
  rw [← guard_cons, release_guard h hf (Finset.mem_insert_self ..), add_sub_cancel_right,
    Finset.erase_insert (by simpa using hl)]
  rfl

end Hold

/-! ## Quiet stores -/

theorem Quiet.put (h : s.Quiet) (id : ℤ) (p : Page) : (s.put id p).Quiet := ⟨h.bounds, h.free⟩

theorem Quiet.guard (h : s.Quiet) (e : ℤ → ℤ) : (s.guard e ∅).Quiet :=
  ⟨h.bounds, fun id hid => by simpa [PageStore.guard] using h.free id hid⟩

theorem Quiet.alloc (h : s.Quiet) {al : Allocator} {m : Bytes}
    (hp : al.pick s.ids s.allocs = some (id, m)) : (s.alloc id m).Quiet := by
  obtain ⟨-, h0, h1⟩ := al.fresh hp
  constructor
  · intro id' hid'
    rcases Finset.mem_insert.mp hid' with rfl | hmem
    · exact ⟨h0, h1⟩
    · exact h.bounds id' hmem
  · intro id' hid'
    obtain rfl | hne := eq_or_ne id' id
    · exact update_self ..
    · have hmem := Finset.mem_of_mem_insert_of_ne hid' hne
      exact (update_of_ne hne ..).trans (h.free id' hmem)

theorem page_alloc_of_ne {m : Bytes} (h : id' ≠ id) : (s.alloc id m).page id' = s.page id' := by
  simp [page, PageStore.alloc, update_of_ne h]

theorem Quiet.getPage (hq : s.Quiet) (h : id ∈ s.ids) : s.getPage id = some (s.guard (Pi.single id 1) ∅) := by
  have hg : (s.guard 0 ∅).getPage id = _ := getPage_guard h (hq.bounds id h).1
  rwa [guard_zero, zero_add] at hg

theorem Quiet.inspect {α : Type} (hq : s.Quiet) (h : id ∈ s.ids) (look : Page → α) :
    s.inspect id look = some (look (s.page id), s) := by
  have hi := inspect_guard (e := 0) h (hq.bounds id h).1 (hq.free id h) (Finset.notMem_empty id) look
  simpa using hi

theorem Quiet.modify {α : Type} (hq : s.Quiet) (h : id ∈ s.ids) (change : Page → α × Page) :
    s.modify id change = some ((change (s.page id)).1, s.put id (change (s.page id)).2) := by
  simp only [PageStore.modify, hq.getPage h, some_bind,
    wLock_guard (hq.free id h) (Finset.notMem_empty id), guard_page, guard_put]
  rw [release_guard (by exact h) (by exact hq.free id h) (by simp), sub_self,
    Finset.erase_insert (Finset.notMem_empty id), guard_zero]
  rfl

/-! ## Looking at a page

Whatever the store is, a page that is pinned and latched and then given back leaves no trace. -/

section Looking

variable {s₁ s₂ s₃ : PageStore} {dirty : Bool}

theorem eq_of_getPage (h : s.getPage id = some s₁) :
    id ∈ s.ids ∧ s₁ = { s with pins := update s.pins id (s.pins id + 1) } := by
  unfold PageStore.getPage at h
  split_ifs at h with hc
  exact ⟨hc.1, (Option.some.inj h).symm⟩

theorem pos_of_getPage (h : s.getPage id = some s₁) : invalidPageId < id := by
  unfold PageStore.getPage at h
  split_ifs at h with hc
  exact hc.2

theorem rUnlock_of_rLock (h : s.rLock id = some s₁) : s₁.rUnlock id = s := by
  obtain ⟨l, hl, rfl⟩ := Option.map_eq_some_iff.mp h
  simp only [rUnlock, update_self, update_idem, Latch.rUnlock_of_rLock hl, update_eq_self]

theorem wUnlock_of_wLock (h : s.wLock id = some s₁) : s₁.wUnlock id = s := by
  obtain ⟨l, hl, rfl⟩ := Option.map_eq_some_iff.mp h
  simp only [wUnlock, update_self, update_idem, Latch.wUnlock_of_wLock hl, update_eq_self]

theorem eq_of_unpinPage (hmem : id ∈ s.ids) (h : s.unpinPage id dirty = some s₁) :
    s₁ = { s with pins := update s.pins id (s.pins id - 1) } := by
  rw [unpinPage, if_pos hmem] at h
  obtain ⟨s', hs', h⟩ := bind_eq_some.mp h
  rw [← Option.some.inj h, ← wUnlock_of_wLock hs']
  rfl

theorem unpinPage_of_getPage (h1 : s.getPage id = some s₁) (h2 : s₁.unpinPage id dirty = some s₂) : s₂ = s := by
  obtain ⟨hmem, rfl⟩ := eq_of_getPage h1
  rw [eq_of_unpinPage (by exact hmem) h2]
  simp

theorem reader_neutral (h1 : s.getPage id = some s₁) (h2 : s₁.rLock id = some s₂)
    (h3 : (s₂.rUnlock id).unpinPage id dirty = some s₃) : s₃ = s :=
  unpinPage_of_getPage h1 (rUnlock_of_rLock h2 ▸ h3)

theorem writer_neutral (h1 : s.getPage id = some s₁) (h2 : s₁.wLock id = some s₂)
    (h3 : (s₂.wUnlock id).unpinPage id dirty = some s₃) : s₃ = s :=
  unpinPage_of_getPage h1 (wUnlock_of_wLock h2 ▸ h3)

/-- A page that exists and whose latch nobody holds. -/
structure Usable (s : PageStore) (id : ℤ) : Prop where
  mem : id ∈ s.ids
  nonneg : 0 ≤ id
  free : s.latch id = Latch.free

theorem Quiet.usable (hq : s.Quiet) (h : id ∈ s.ids) : s.Usable id :=
  ⟨h, (hq.bounds id h).1, hq.free id h⟩

theorem Usable.ne_invalid (h : s.Usable id) : id ≠ -1 := by
  have := h.nonneg
  omega

/-- The pages of a store in which the latch of one page is held as well. -/
structure LatchedAt (s : PageStore) (id : ℤ) (s' : PageStore) : Prop where
  page : s'.page = s.page
  usable : ∀ {b : ℤ}, s.Usable b → b ≠ id → s'.Usable b

theorem Usable.pin (h : s.Usable id) : s.getPage id = some (s.guard (Pi.single id 1) ∅) ∧
    (∀ dirty, (s.guard (Pi.single id 1) ∅).unpinPage id dirty = some s) ∧
    ∀ l, s.LatchedAt id { s.guard (Pi.single id 1) ∅ with latch := update s.latch id l } := by
  have hg : (s.guard 0 ∅).getPage id = _ := getPage_guard h.mem h.nonneg
  rw [guard_zero, zero_add] at hg
  refine ⟨hg, fun dirty => ?_, fun l => ⟨rfl, fun {b} hb hne => ?_⟩⟩
  · rw [unpinPage_guard h.mem h.free (Finset.notMem_empty id), sub_self, guard_zero]
  · exact ⟨hb.mem, hb.nonneg, (update_of_ne hne ..).trans hb.free⟩

theorem Usable.reader (h : s.Usable id) : ∃ s₁ s₂, s.getPage id = some s₁ ∧ s₁.rLock id = some s₂ ∧
    s.LatchedAt id s₂ ∧ ∀ dirty, (s₂.rUnlock id).unpinPage id dirty = some s := by
  obtain ⟨hg, hu, hl⟩ := h.pin
  have hf : (s.guard (Pi.single id 1) ∅).latch id = Latch.free := h.free
  have hr : (s.guard (Pi.single id 1) ∅).rLock id = some { s.guard (Pi.single id 1) ∅ with
      latch := update s.latch id { readerCount := 1 } } := by
    rw [PageStore.rLock, hf]
    rfl
  exact ⟨_, _, hg, hr, hl _, fun dirty => by rw [rUnlock_of_rLock hr, hu]⟩

theorem Usable.writer (h : s.Usable id) : ∃ s₁ s₂, s.getPage id = some s₁ ∧ s₁.wLock id = some s₂ ∧
    s.LatchedAt id s₂ ∧ ∀ dirty, (s₂.wUnlock id).unpinPage id dirty = some s := by
  obtain ⟨hg, hu, hl⟩ := h.pin
  have hf : (s.guard (Pi.single id 1) ∅).latch id = Latch.free := h.free
  have hr : (s.guard (Pi.single id 1) ∅).wLock id = some { s.guard (Pi.single id 1) ∅ with
      latch := update s.latch id { writerEntered := true } } := by
    rw [PageStore.wLock, hf]
    rfl
  exact ⟨_, _, hg, hr, hl _, fun dirty => by rw [wUnlock_of_wLock hr, hu]⟩

end Looking

end PageStore

end Dawn
