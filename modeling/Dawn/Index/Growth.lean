import Dawn.Index.Insert

/-!
# The tuples of a table, and new pages

`TableInv` is what holds of a table between two operations: its pages hang together as a layout says,
and the pages of its buckets hold tuples of the table's size. `cell` is what the table stores, by page
and slot. A table can get a second level page (`TableInv.addSecond`) and a first page for a bucket
(`TableInv.addFirst`); neither changes what it stores (`Grown.cell_eq`).
-/

namespace Dawn

open LinkHashPage hiding init

open Function

open TablePage PageStore

/-- What holds of a table with tuples of size `sz` between two operations. -/
structure TableInv (sz : ℤ) (s : PageStore) (root : ℤ) (L : Layout) : Prop where
  /-- The pages hang together as the layout says. -/
  skeleton : Skeleton s root L
  /-- The pages of the buckets hold tuples of the size. -/
  good : L.AllPages s (Good sz)

theorem TableInv.searchable {sz : ℤ} {s : PageStore} {root : ℤ} {L : Layout} (h : TableInv sz s root L)
    (i j : ℤ) : Searchable s (L.chain i j) :=
  searchable_of_readable fun _ hid => (h.good (h.skeleton.own_chain.mp hid)).readable

/-- The bytes of the tuple that the table stores in a slot of a page. -/
def cell (s : PageStore) (L : Layout) (id : ℤ) (k : ℕ) : Option (List UInt8) :=
  match L.own id with
  | some (.bucket _ _) => (slot (s.page id) k).map Slot.bytes
  | _ => none

namespace Layout

/-- The layout of a table that has its first page only. -/
def empty (root : ℤ) : Layout where
  own id := if id = root then some .root else none
  chain _ _ := []

@[simp] theorem cell_empty (s : PageStore) (root id : ℤ) (k : ℕ) : cell s (empty root) id k = none := by
  by_cases hid : id = root <;> simp [cell, empty, hid]

/-- The layout with a second level page. -/
def addSecond (L : Layout) (i new : ℤ) : Layout :=
  { L with own := Function.update L.own new (some (.second i)) }

/-- The layout with one more page at the end of a bucket. -/
def addPage (L : Layout) (i j new : ℤ) : Layout where
  own := Function.update L.own new (some (.bucket i j))
  chain a b := if a = i ∧ b = j then L.chain i j ++ [new] else L.chain a b

variable {L : Layout} {i j new id : ℤ}

theorem addSecond_own_of_ne (h : id ≠ new) : (L.addSecond i new).own id = L.own id :=
  update_of_ne h ..

theorem addPage_own_of_ne (h : id ≠ new) : (L.addPage i j new).own id = L.own id :=
  update_of_ne h ..

theorem addPage_own_self : (L.addPage i j new).own new = some (.bucket i j) :=
  update_self ..

theorem addPage_chain_self : (L.addPage i j new).chain i j = L.chain i j ++ [new] := by
  simp [addPage]

theorem addPage_chain_of_ne {a b : ℤ} (h : ¬ (a = i ∧ b = j)) : (L.addPage i j new).chain a b = L.chain a b := if_neg h

end Layout

/-- The pages that were there are pinned as they were, and the new ones are not pinned. -/
def PinsKept (s s' : PageStore) : Prop :=
  ∀ id ∈ s'.ids, s'.pins id = if id ∈ s.ids then s.pins id else 0

theorem PinsKept.trans {s s' s'' : PageStore} (h : PinsKept s s') (hids : s.ids ⊆ s'.ids)
    (h' : PinsKept s' s'') : PinsKept s s'' := by
  intro id hid
  rw [h' id hid]
  split_ifs with h1 h2 h2
  · rw [h id h1, if_pos h2]
  · rw [h id h1, if_neg h2]
  · exact absurd (hids h2) h1
  · rfl

/-- The table has new pages, but it stores what it stored. -/
structure Grown (s : PageStore) (L : Layout) (s' : PageStore) (L' : Layout) : Prop where
  /-- No page goes. -/
  ids : s.ids ⊆ s'.ids
  /-- Nobody's pins change, and nobody has a new page pinned. -/
  pins : PinsKept s s'
  /-- The pages of the table stay its pages. -/
  own : ∀ {id : ℤ} {o : Owner}, L.own id = some o → L'.own id = some o
  /-- The pages of the buckets keep their tuples. -/
  pages : ∀ {id i j : ℤ}, L.own id = some (.bucket i j) → slot (s'.page id) = slot (s.page id)
  /-- A new page of a bucket has no tuple. -/
  blank : ∀ {id i j : ℤ}, L'.own id = some (.bucket i j) → L.own id = none →
    ∀ k, slot (s'.page id) k = none

namespace Grown

variable {s s' s'' : PageStore} {L L' L'' : Layout}

theorem refl (s : PageStore) (L : Layout) : Grown s L s L :=
  ⟨fun _ h => h, fun _ h => (if_pos h).symm, fun h => h, fun _ => rfl, fun h h' => by simp [h] at h'⟩

theorem trans (h : Grown s L s' L') (h' : Grown s' L' s'' L'') : Grown s L s'' L'' := by
  refine ⟨fun _ hid => h'.ids (h.ids hid), h.pins.trans h.ids h'.pins, fun ho => h'.own (h.own ho), ?_, ?_⟩
  · intro id i j ho
    rw [h'.pages (h.own ho), h.pages ho]
  · intro id i j ho hn
    cases ho' : L'.own id with
    | none => exact h'.blank ho ho'
    | some o =>
      have he := h'.own ho'
      rw [ho, Option.some.injEq] at he
      rw [← he] at ho'
      rw [h'.pages ho']
      exact h.blank ho' hn

theorem cell_eq (h : Grown s L s' L') : cell s' L' = cell s L := by
  funext id k
  unfold cell
  cases ho : L.own id with
  | some o =>
    rw [h.own ho]
    cases o with
    | bucket i j => simp only [h.pages ho]
    | _ => rfl
  | none =>
    cases ho' : L'.own id with
    | none => rfl
    | some o =>
      cases o with
      | bucket i j => simp [h.blank ho' ho]
      | _ => rfl

end Grown

/-- The pages that are not the table's are as they were, and none of them has become the table's. -/
def Bystanders (s : PageStore) (L : Layout) (s' : PageStore) (L' : Layout) : Prop :=
  ∀ id ∈ s.ids, L.own id = none →
    id ∈ s'.ids ∧ L'.own id = none ∧ s'.page id = s.page id

namespace Bystanders

variable {s s' s'' : PageStore} {L L' L'' : Layout} {id : ℤ}

theorem refl (s : PageStore) (L : Layout) : Bystanders s L s L := fun _ hid ho => ⟨hid, ho, rfl⟩

theorem trans (h : Bystanders s L s' L') (h' : Bystanders s' L' s'' L'') : Bystanders s L s'' L'' := by
  intro id hid ho
  obtain ⟨hid1, ho1, hp1⟩ := h id hid ho
  obtain ⟨hid2, ho2, hp2⟩ := h' id hid1 ho1
  exact ⟨hid2, ho2, hp2.trans hp1⟩

theorem put {o : Owner} (ho : L.own id = some o) (p : Page) : Bystanders s L (s.put id p) L := by
  intro b hb hbo
  refine ⟨hb, hbo, page_put_of_ne p ?_⟩
  rintro rfl
  simp [ho] at hbo

theorem tryInsert {t : Tuple} {l : List ℤ} (hl : ∀ id ∈ l, L.own id ≠ none) : Bystanders s L (tryInsert t s l) L := by
  induction l generalizing s with
  | nil => exact refl s L
  | cons id l ih =>
    obtain ⟨o, ho⟩ := Option.ne_none_iff_exists'.mp (hl id List.mem_cons_self)
    exact (put ho _).trans (ih fun b hb => hl b (List.mem_cons_of_mem id hb))

theorem new {new : ℤ} {o : Owner} (hnew : new ∉ s.ids) (ho : L.own id = some o)
    (hids : s'.ids = insert new s.ids) (hpage : ∀ {b}, b ≠ new → b ≠ id → s'.page b = s.page b)
    (hown : ∀ {b}, b ≠ new → L'.own b = L.own b) : Bystanders s L s' L' := by
  intro b hb hbo
  have hbn : b ≠ new := fun e => hnew (e ▸ hb)
  refine ⟨hids ▸ Finset.mem_insert_of_mem hb, (hown hbn).trans hbo, hpage hbn ?_⟩
  rintro rfl
  simp [ho] at hbo

theorem addChild {al : Allocator} {child slotNum : ℤ} {m : Bytes} {o : Owner} (init : Page → Page)
    (hp : al.pick s.ids s.allocs = some (child, m)) (ho : L.own id = some o)
    (hown : ∀ {b}, b ≠ child → L'.own b = L.own b) : Bystanders s L (addChild s id slotNum init child m) L' :=
  new (al.fresh hp).1 ho rfl (fun hb hb' => by
    rw [Dawn.addChild, page_put_of_ne _ hb', page_put_of_ne _ hb, page_alloc_of_ne hb]) hown

theorem addOverflow {al : Allocator} {child : ℤ} {m : Bytes} {o : Owner}
    (hp : al.pick s.ids s.allocs = some (child, m)) (ho : L.own id = some o)
    (hown : ∀ {b}, b ≠ child → L'.own b = L.own b) : Bystanders s L (addOverflow s id child m) L' :=
  new (al.fresh hp).1 ho rfl (fun hb hb' => by
    rw [Dawn.addOverflow, page_put_of_ne _ hb, page_put_of_ne _ hb', page_alloc_of_ne hb]) hown

end Bystanders

theorem TableInv.empty {sz : ℤ} {s : PageStore} {root : ℤ} (hq : s.Quiet) (hroot : root ∈ s.ids)
    (hinit : ∀ i, secondPage s root i = -1) : TableInv sz s root (Layout.empty root) := by
  have hown : ∀ {id o}, (Layout.empty root).own id = some o ↔ id = root ∧ o = .root := by
    intro id o
    obtain rfl | hne := eq_or_ne id root
    · simp [Layout.empty, eq_comm]
    · simp [Layout.empty, hne]
  refine ⟨⟨hq, ?_, hown.mpr ⟨rfl, rfl⟩, ?_, ?_, fun _ _ => List.nodup_nil, fun _ _ => rfl, ?_, fun _ _ => trivial⟩, ?_⟩
  · intro id o ho
    rw [(hown.mp ho).1]
    exact hroot
  · intro i hi
    exact absurd (hinit i) hi
  · intro i j id
    simp [Layout.empty]
  · intro i j hi
    exact absurd (hinit i) hi
  · intro id i j ho
    simp [hown] at ho

/-! ## New pages -/

section NewPages

variable {al : Allocator} {sz : ℤ} {s : PageStore} {root i j new : ℤ} {L : Layout} {m : Bytes}

theorem pins_new {s' : PageStore} (hp : al.pick s.ids s.allocs = some (new, m))
    (hids : s'.ids = insert new s.ids) (hpins : s'.pins = update s.pins new 0) : PinsKept s s' := by
  intro id hid
  rw [hids, Finset.mem_insert] at hid
  rw [hpins]
  obtain rfl | hne := eq_or_ne id new
  · rw [update_self, if_neg (al.fresh hp).1]
  · rw [update_of_ne hne, if_pos (hid.resolve_left hne)]

theorem Skeleton.own_new (h : Skeleton s root L) (hp : al.pick s.ids s.allocs = some (new, m)) : L.own new = none := by
  by_contra hne
  obtain ⟨o, ho⟩ := Option.ne_none_iff_exists'.mp hne
  exact (al.fresh hp).1 (h.own_mem ho)

theorem Skeleton.ne_new (h : Skeleton s root L) (hp : al.pick s.ids s.allocs = some (new, m)) {id : ℤ}
    {o : Owner} (ho : L.own id = some o) : id ≠ new :=
  fun e => (al.fresh hp).1 (e ▸ h.own_mem ho)

theorem TableInv.alloc (h : TableInv sz s root L) (hp : al.pick s.ids s.allocs = some (new, m))
    (p : Page) : TableInv sz ((s.alloc new m).put new p) root L ∧ Grown s L ((s.alloc new m).put new p) L := by
  have hS := h.skeleton
  have hsame : ∀ {id o}, L.own id = some o → ((s.alloc new m).put new p).page id = s.page id := by
    intro id o ho
    have hne := hS.ne_new hp ho
    rw [page_put_of_ne p hne, page_alloc_of_ne hne]
  refine ⟨⟨hS.congr ((hS.quiet.alloc hp).put new p) (fun ho => Finset.mem_insert_of_mem (hS.own_mem ho))
    (fun ho _ => hsame ho) fun ho => by rw [nextPage, nextPage, hsame ho], fun ho => ?_⟩,
    ⟨fun _ hid => Finset.mem_insert_of_mem hid, pins_new hp rfl rfl, fun ho => ho,
      fun ho => by rw [hsame ho], fun ho hno => by simp [ho] at hno⟩⟩
  rw [hsame ho]
  exact h.good ho

theorem TableInv.linkSecond (h : TableInv sz s root L) (hi : LinkHashPage.IsSlot i)
    (hsec : secondPage s root i = -1) (hmem : new ∈ s.ids) (hno : L.own new = none)
    (hinit : ∀ k, getPgidInSlot (s.page new) k = -1) : TableInv sz (s.put root (setPgidInSlot (s.page root) i new)) root
      (L.addSecond i new) ∧ Grown s L (s.put root (setPgidInSlot (s.page root) i new)) (L.addSecond i new) ∧
    ∀ a, secondPage (s.put root (setPgidInSlot (s.page root) i new)) root a =
      if a = i then new else secondPage s root a := by
  have hS := h.skeleton
  have hq' := hS.quiet.put root (setPgidInSlot (s.page root) i new)
  have hne : ∀ {id o}, L.own id = some o → id ≠ new := by
    rintro id o ho rfl
    simp [hno] at ho
  have hself : (s.put root (setPgidInSlot (s.page root) i new)).page root =
      setPgidInSlot (s.page root) i new :=
    page_put_self (sameFrame_setPgidInSlot _ _ _)
  have hother : ∀ {id}, id ≠ root →
      (s.put root (setPgidInSlot (s.page root) i new)).page id = s.page id :=
    fun hid => page_put_of_ne _ hid
  have hids : (s.put root (setPgidInSlot (s.page root) i new)).ids = s.ids := rfl
  have hpins : (s.put root (setPgidInSlot (s.page root) i new)).pins = s.pins := rfl
  generalize s.put root (setPgidInSlot (s.page root) i new) = s'
    at hq' hself hother hids hpins ⊢
  -- A page of the table other than the first one is not written.
  have hsame : ∀ {id o}, L.own id = some o → o ≠ .root → s'.page id = s.page id := by
    intro id o ho hor
    refine hother ?_
    rintro rfl
    rw [hS.own_root, Option.some.injEq] at ho
    exact hor ho.symm
  have hsecond : ∀ a, secondPage s' root a = if a = i then new else secondPage s root a := by
    intro a
    rw [secondPage, hself]
    split_ifs with ha
    · rw [ha, getPgidInSlot_setPgidInSlot_self hi (hS.quiet.isI32 hmem)]
    · rw [getPgidInSlot_setPgidInSlot_of_ne hi ha]
      rfl
  have hown : ∀ {id o}, L.own id = some o → (L.addSecond i new).own id = some o := by
    intro id o ho
    rw [Layout.addSecond_own_of_ne (hne ho), ho]
  have hbucket : ∀ {id a b}, (L.addSecond i new).own id = some (.bucket a b) ↔
      L.own id = some (.bucket a b) := by
    intro id a b
    refine ⟨fun ho => ?_, hown⟩
    obtain rfl | hn := eq_or_ne id new
    · simp [Layout.addSecond] at ho
    · rwa [Layout.addSecond_own_of_ne hn] at ho
  refine ⟨⟨⟨hq', ?_, hown hS.own_root, ?_, ?_, hS.nodup, ?_, ?_, ?_⟩, ?_⟩, ⟨?_, ?_, hown, ?_, ?_⟩, hsecond⟩
  · intro id o ho
    rw [hids]
    obtain rfl | hn := eq_or_ne id new
    · exact hmem
    · rw [Layout.addSecond_own_of_ne hn] at ho
      exact hS.own_mem ho
  · intro a ha
    rw [hsecond] at ha ⊢
    split_ifs at ha ⊢ with hai
    · rw [hai]
      exact update_self ..
    · exact hown (hS.own_second ha)
  · intro a b id
    rw [hbucket]
    exact hS.own_chain
  · intro a b ha
    rw [hsecond] at ha
    split_ifs at ha with hai
    · exact absurd ha (hS.quiet.ne_invalid hmem)
    · exact hS.chain_nil b ha
  · intro a b ha
    rw [hsecond] at ha ⊢
    split_ifs at ha ⊢ with hai
    · rw [hother (hne hS.own_root).symm, hinit, hai]
      exact (hS.headOr_eq_iff.mpr (hS.chain_nil b hsec)).symm
    · rw [hsame (hS.own_second ha) (by simp)]
      exact hS.head b ha
  · intro a b
    refine (hS.linked a b).congr fun id hid => ?_
    rw [nextPage, nextPage, hsame (hS.own_chain.mp hid) (by simp)]
  · intro id a b ho
    rw [hsame (hbucket.mp ho) (by simp)]
    exact h.good (hbucket.mp ho)
  · rw [hids]
  · intro id hid
    rw [hids] at hid
    rw [hpins, if_pos hid]
  · intro id a b ho
    rw [hsame ho (by simp)]
  · intro id a b ho hn
    rw [hbucket.mp ho] at hn
    cases hn

theorem TableInv.addSecond (h : TableInv sz s root L) (hi : LinkHashPage.IsSlot i)
    (hsec : secondPage s root i = -1) (hp : al.pick s.ids s.allocs = some (new, m)) :
    TableInv sz (addChild s root i LinkHashPage.init new m) root (L.addSecond i new) ∧
    Grown s L (addChild s root i LinkHashPage.init new m) (L.addSecond i new) ∧
    secondPage (addChild s root i LinkHashPage.init new m) root i = new := by
  have hnr := h.skeleton.ne_new hp h.skeleton.own_root
  obtain ⟨h1, hG1⟩ := h.alloc hp (LinkHashPage.init ((s.alloc new m).page new))
  have hroot : ((s.alloc new m).put new (LinkHashPage.init ((s.alloc new m).page new))).page root =
      s.page root := by
    rw [page_put_of_ne _ hnr, page_alloc_of_ne hnr]
  have hsec1 : secondPage ((s.alloc new m).put new (LinkHashPage.init ((s.alloc new m).page new)))
      root i = -1 := by
    rw [← hsec, secondPage, secondPage, hroot]
  obtain ⟨h2, hG2, hs2⟩ := h1.linkSecond hi hsec1 (Finset.mem_insert_self new s.ids)
    (h.skeleton.own_new hp) fun k => by
      rw [page_put_self (sameFrame_init _), getPgidInSlot_init]
  exact ⟨h2, hG1.trans hG2, by rw [addChild, hs2, if_pos rfl]⟩

theorem Layout.addPage_own (hno : L.own new = none) {id : ℤ} {o : Owner} :
    (L.addPage i j new).own id = some o ↔ L.own id = some o ∨ id = new ∧ o = .bucket i j := by
  obtain rfl | hne := eq_or_ne id new
  · rw [Layout.addPage_own_self, hno]
    simp [eq_comm]
  · rw [Layout.addPage_own_of_ne hne]
    simp [hne]

theorem Skeleton.notMem_chain (hS : Skeleton s root L) (hno : L.own new = none) (a b : ℤ) : new ∉ L.chain a b := by
  intro hmem
  rw [hS.own_chain, hno] at hmem
  cases hmem

theorem Skeleton.addPage_chain (hS : Skeleton s root L) (hno : L.own new = none) {a b id : ℤ} :
    id ∈ (L.addPage i j new).chain a b ↔ (L.addPage i j new).own id = some (.bucket a b) := by
  rw [Layout.addPage_own hno]
  by_cases hab : a = i ∧ b = j
  · obtain ⟨rfl, rfl⟩ := hab
    simp [Layout.addPage_chain_self, hS.own_chain]
  · rw [Layout.addPage_chain_of_ne hab, hS.own_chain]
    simp [hab]

theorem Skeleton.addPage_nodup (hS : Skeleton s root L) (hno : L.own new = none) (a b : ℤ) :
    ((L.addPage i j new).chain a b).Nodup := by
  by_cases hab : a = i ∧ b = j
  · obtain ⟨rfl, rfl⟩ := hab
    rw [Layout.addPage_chain_self, ← List.concat_eq_append]
    exact (hS.nodup a b).concat (hS.notMem_chain hno a b)
  · rw [Layout.addPage_chain_of_ne hab]
    exact hS.nodup a b

theorem Skeleton.addPage {s' : PageStore} (hS : Skeleton s root L) (hno : L.own new = none)
    (hq : s'.Quiet) (hids : s.ids ⊆ s'.ids) (hmem : new ∈ s'.ids)
    (hroot : s'.page root = s.page root) (hsec : secondPage s root i ≠ -1) (hhead : ∀ a b, secondPage s root a ≠ -1 →
      getPgidInSlot (s'.page (secondPage s root a)) b = headOr (-1) ((L.addPage i j new).chain a b))
    (hlinked : Linked (nextPage s') (-1) (L.chain i j ++ [new]))
    (hother : ∀ {id a b}, L.own id = some (.bucket a b) → ¬ (a = i ∧ b = j) → nextPage s' id = nextPage s id) :
    Skeleton s' root (L.addPage i j new) := by
  have hsecond : ∀ a, secondPage s' root a = secondPage s root a := fun a => by
    rw [secondPage, hroot]
    rfl
  have hown := @Layout.addPage_own i j new L hno
  refine ⟨hq, ?_, hown.mpr (Or.inl hS.own_root), ?_, hS.addPage_chain hno, hS.addPage_nodup hno, ?_, ?_, ?_⟩
  · intro id o ho
    rcases hown.mp ho with ho | ⟨rfl, -⟩
    · exact hids (hS.own_mem ho)
    · exact hmem
  · intro a ha
    rw [hsecond] at ha ⊢
    exact hown.mpr (Or.inl (hS.own_second ha))
  · intro a b ha
    rw [hsecond] at ha
    rw [Layout.addPage_chain_of_ne (by rintro ⟨rfl, -⟩; exact hsec ha)]
    exact hS.chain_nil b ha
  · intro a b ha
    rw [hsecond] at ha ⊢
    exact hhead a b ha
  · intro a b
    by_cases hab : a = i ∧ b = j
    · obtain ⟨rfl, rfl⟩ := hab
      rwa [Layout.addPage_chain_self]
    · rw [Layout.addPage_chain_of_ne hab]
      exact (hS.linked a b).congr fun id hid => hother (hS.own_chain.mp hid) hab

theorem TableInv.addPage {s' : PageStore} (hno : L.own new = none)
    (h' : Skeleton s' root (L.addPage i j new)) (hids : s.ids ⊆ s'.ids) (hpins : PinsKept s s')
    (hkeep : ∀ {id a b}, L.own id = some (.bucket a b) → Good sz (s'.page id) ∧ slot (s'.page id) = slot (s.page id))
    (hnew : Good sz (s'.page new)) (hblank : ∀ k, slot (s'.page new) k = none) :
    TableInv sz s' root (L.addPage i j new) ∧ Grown s L s' (L.addPage i j new) := by
  have hown := @Layout.addPage_own i j new L hno
  refine ⟨⟨h', ?_⟩, ⟨hids, hpins, fun ho => hown.mpr (Or.inl ho), fun ho => (hkeep ho).2, ?_⟩⟩
  · intro id a b ho
    rcases hown.mp ho with ho | ⟨rfl, -⟩
    · exact (hkeep ho).1
    · exact hnew
  · intro id a b ho hn
    rcases hown.mp ho with ho | ⟨rfl, -⟩
    · rw [ho] at hn
      cases hn
    · exact hblank

theorem TableInv.linkFirst (h : TableInv sz s root L) (hj : LinkHashPage.IsSlot j)
    (hsec : secondPage s root i ≠ -1) (hnil : L.chain i j = []) (hmem : new ∈ s.ids)
    (hno : L.own new = none) (hgood : Good sz (s.page new)) (hblank : ∀ k, slot (s.page new) k = none)
    (hnext : nextPage s new = -1) {s' : PageStore} (hs' : s' = s.put (secondPage s root i)
      (setPgidInSlot (s.page (secondPage s root i)) j new)) :
    TableInv sz s' root (L.addPage i j new) ∧ Grown s L s' (L.addPage i j new) := by
  have hS := h.skeleton
  have hself : s'.page (secondPage s root i) =
      setPgidInSlot (s.page (secondPage s root i)) j new :=
    hs' ▸ page_put_self (sameFrame_setPgidInSlot _ _ _)
  have hother : ∀ {id}, id ≠ secondPage s root i → s'.page id = s.page id :=
    fun hid => hs' ▸ page_put_of_ne _ hid
  have hids : s'.ids = s.ids := hs' ▸ rfl
  have hpins : PinsKept s s' := by
    rw [hs']
    exact fun id hid => (if_pos hid).symm
  -- A page of the table other than the second level page is not written.
  have hsame : ∀ {id o}, L.own id = some o → o ≠ .second i → s'.page id = s.page id := by
    intro id o ho hne
    refine hother ?_
    rintro rfl
    rw [hS.own_second hsec, Option.some.injEq] at ho
    exact hne ho.symm
  have hnew : s'.page new = s.page new := by
    refine hother ?_
    rintro rfl
    rw [hS.own_second hsec] at hno
    cases hno
  refine TableInv.addPage hno (hS.addPage hno (hs' ▸ hS.quiet.put _ _) hids.ge (hids ▸ hmem)
    (hsame hS.own_root (by simp)) hsec ?_ ?_ fun ho _ => by rw [nextPage, hsame ho (by simp)]; rfl)
    hids.ge hpins (fun ho => by rw [hsame ho (by simp)]; exact ⟨h.good ho, rfl⟩)
    (by rwa [hnew]) (by rwa [hnew])
  · intro a b ha
    by_cases hai : a = i
    · subst hai
      rw [hself]
      by_cases hbj : b = j
      · subst hbj
        rw [getPgidInSlot_setPgidInSlot_self hj (hS.quiet.isI32 hmem), Layout.addPage_chain_self, hnil]
        rfl
      · rw [getPgidInSlot_setPgidInSlot_of_ne hj hbj, Layout.addPage_chain_of_ne (fun e => hbj e.2)]
        exact hS.head b ha
    · rw [hsame (hS.own_second ha) (by simpa using hai), Layout.addPage_chain_of_ne (fun e => hai e.1)]
      exact hS.head b ha
  · rw [hnil]
    refine ⟨?_, trivial⟩
    rw [nextPage, hnew]
    exact hnext

theorem TableInv.addFirst (hsz : 8 ≤ sz) (h : TableInv sz s root L) (hj : LinkHashPage.IsSlot j)
    (hsec : secondPage s root i ≠ -1) (hnil : L.chain i j = []) (hp : al.pick s.ids s.allocs = some (new, m)) :
    TableInv sz (addChild s (secondPage s root i) j (TablePage.init · (-1) (-1)) new m) root (L.addPage i j new) ∧
    Grown s L (addChild s (secondPage s root i) j (TablePage.init · (-1) (-1)) new m) (L.addPage i j new) := by
  have hS := h.skeleton
  have hnr := hS.ne_new hp hS.own_root
  obtain ⟨h1, hG1⟩ := h.alloc hp (TablePage.init ((s.alloc new m).page new) (-1) (-1))
  have hself : ((s.alloc new m).put new (TablePage.init ((s.alloc new m).page new) (-1) (-1))).page
      new = TablePage.init ((s.alloc new m).page new) (-1) (-1) :=
    page_put_self (Page.SameFrame.data _ _)
  have hsec1 : secondPage ((s.alloc new m).put new
      (TablePage.init ((s.alloc new m).page new) (-1) (-1))) root i = secondPage s root i := by
    rw [secondPage, secondPage, page_put_of_ne _ hnr, page_alloc_of_ne hnr]
  have hlink := h1.linkFirst hj (by rwa [hsec1]) hnil (Finset.mem_insert_self new s.ids)
    (hS.own_new hp) (by rw [hself]; exact good_init hsz _ _ _) (by simp [hself])
    (by rw [nextPage, hself]; exact getNextPageId_init _ (by norm_num [IsI32])) rfl
  rw [hsec1] at hlink
  exact ⟨hlink.1, hG1.trans hlink.2⟩

end NewPages

/-! ## Writing a page of a bucket -/

section Write

variable {sz : ℤ} {s : PageStore} {root i j id : ℤ} {L : Layout} {p : Page}

theorem Skeleton.put (hS : Skeleton s root L) (ho : L.own id = some (.bucket i j))
    (hf : (s.page id).SameFrame p) (hn : getNextPageId p = getNextPageId (s.page id)) :
    Skeleton (s.put id p) root L := by
  refine hS.congr (hS.quiet.put id p) hS.own_mem ?_ ?_
  · intro b o hb hne
    refine page_put_of_ne p ?_
    rintro rfl
    rw [ho, Option.some.injEq] at hb
    exact hne i j hb.symm
  · intro b a c _
    obtain rfl | hne := eq_or_ne b id
    · rw [nextPage, nextPage, page_put_self hf, hn]
    · rw [nextPage, nextPage, page_put_of_ne p hne]

theorem TableInv.put (h : TableInv sz s root L) (ho : L.own id = some (.bucket i j)) (hg : Good sz p)
    (hf : (s.page id).SameFrame p) (hn : getNextPageId p = getNextPageId (s.page id)) :
    TableInv sz (s.put id p) root L := by
  refine ⟨h.skeleton.put ho hf hn, ?_⟩
  intro b a c hb
  obtain rfl | hne := eq_or_ne b id
  · rwa [page_put_self hf]
  · rw [page_put_of_ne p hne]
    exact h.good hb

section

variable (ho : L.own id = some (.bucket i j))
include ho

theorem cell_put (hf : (s.page id).SameFrame p) (b : ℤ) (k : ℕ) :
    cell (s.put id p) L b k = if b = id then (slot p k).map Slot.bytes else cell s L b k := by
  split_ifs with hb
  · subst hb
    simp only [cell, ho, page_put_self hf]
  · simp only [cell, page_put_of_ne p hb]

theorem cell_eq_of_own (k : ℕ) :
    cell s L id k = (slot (s.page id) k).map Slot.bytes := by
  simp only [cell, ho]

theorem cell_ne_none_iff {k : ℕ} : cell s L id k ≠ none ↔ k ∈ occ (s.page id) := by
  rw [cell_eq_of_own ho, ne_eq, Option.map_eq_none_iff]
  exact slot_ne_none_iff

theorem Grown.put (hf : (s.page id).SameFrame p)
    (hs : slot p = slot (s.page id)) : Grown s L (s.put id p) L := by
  refine ⟨fun _ h => h, fun _ h => (if_pos h).symm, fun h => h, ?_, fun h h' => by simp [h] at h'⟩
  intro b a c _
  obtain rfl | hne := eq_or_ne b id
  · rw [page_put_self hf, hs]
  · rw [page_put_of_ne p hne]

end

variable {t : Tuple}

/-- No tuple of the table's size fits into the page. -/
def Full (sz : ℤ) (p : Page) : Prop := getTpNumCapacity sz ≤ (occ p).card

theorem Good.insertTuple_of_full (hsz : 8 ≤ sz) (h : Good sz p) (ht : t.size = sz) (hfull : Full sz p) :
    (insertTuple p t).1 = none ∧ slot (insertTuple p t).2 = slot p := by
  rcases (h.insertTuple hsz ht).2.2 with ⟨hlt, -⟩ | ⟨-, hnone, hs⟩
  · exact absurd hfull (not_le.mpr hlt)
  · exact ⟨hnone, hs⟩

theorem Skeleton.tryInsert {l : List ℤ} (hl : l.Nodup) (hS : Skeleton s root L)
    (hown : ∀ b ∈ l, L.own b = some (.bucket i j))
    (hfull : ∀ b ∈ l, (insertTuple (s.page b) t).1 = none) : Skeleton (tryInsert t s l) root L := by
  induction l generalizing s with
  | nil => exact hS
  | cons b l ih =>
    rw [List.nodup_cons] at hl
    have hlink := getNextPageId_insertTuple_of_none (hfull b List.mem_cons_self)
    refine ih hl.2 (hS.put (hown b List.mem_cons_self) (sameFrame_insertTuple _ t) hlink)
      (fun c hc => hown c (List.mem_cons_of_mem b hc)) fun c hc => ?_
    rw [page_put_of_ne _ (show c ≠ b from fun e => hl.1 (e ▸ hc))]
    exact hfull c (List.mem_cons_of_mem b hc)

theorem TableInv.tryFull (hsz : 8 ≤ sz) (ht : t.size = sz) {l : List ℤ} (hl : l.Nodup)
    (h : TableInv sz s root L) (hown : ∀ b ∈ l, L.own b = some (.bucket i j)) (hfull : ∀ b ∈ l, Full sz (s.page b)) :
    TableInv sz (tryInsert t s l) root L ∧ Grown s L (tryInsert t s l) L := by
  induction l generalizing s with
  | nil => exact ⟨h, Grown.refl s L⟩
  | cons b l ih =>
    rw [List.nodup_cons] at hl
    have ho := hown b List.mem_cons_self
    have hg := h.good ho
    obtain ⟨hg', hn, -⟩ := hg.insertTuple hsz ht
    obtain ⟨-, hs⟩ := Good.insertTuple_of_full hsz hg ht (hfull b List.mem_cons_self)
    have hf := sameFrame_insertTuple (s.page b) t
    obtain ⟨h1, h2⟩ := ih hl.2 (h.put ho hg' hf hn) (fun c hc => hown c (List.mem_cons_of_mem b hc))
      fun c hc => by
        rw [page_put_of_ne _ (show c ≠ b from fun e => hl.1 (e ▸ hc))]
        exact hfull c (List.mem_cons_of_mem b hc)
    exact ⟨h1, (Grown.put ho hf hs).trans h2⟩

end Write

/-! ## A page behind the last one -/

/-- The bytes of a frame look like those of a table page without tuples at the end of a bucket. -/
structure BlankFrame (sz : ℤ) (m : Bytes) : Prop where
  /-- The header is that of a page of the table. -/
  good : Good sz (Page.view invalidPageId m)
  /-- There is no tuple. -/
  slot_eq : ∀ k, slot (Page.view invalidPageId m) k = none
  /-- There is no next page. -/
  next_eq : getNextPageId (Page.view invalidPageId m) = -1

section Overflow

variable {al : Allocator} {sz : ℤ} {s : PageStore} {root i j id new : ℤ} {L : Layout} {m : Bytes}

theorem page_alloc_data {k : ℤ} (hk : 9 ≤ k) : ((s.alloc new m).page new).data k = m k := by
  have h : ((s.alloc new m).page new).data = ((Page.view invalidPageId m).onAlloc new).data := by
    simp [page, alloc, Page.view]
  rw [h]
  exact Page.onAlloc_data_of_body _ new hk

theorem page_addOverflow (hne : new ≠ id) (b : ℤ) : (addOverflow s id new m).page b =
    if b = new then setPrevPageId ((s.alloc new m).page new) id
    else if b = id then setNextPageId (s.page id) new else s.page b := by
  unfold addOverflow
  split_ifs with h1 h2
  · rw [h1, page_put_self (sameFrame_setPrevPageId _ _), page_put_of_ne _ hne]
  · rw [h2, page_put_of_ne _ hne.symm, page_put_self (sameFrame_setNextPageId _ _), page_alloc_of_ne hne.symm]
  · rw [page_put_of_ne _ h1, page_put_of_ne _ h2, page_alloc_of_ne h1]

theorem overflow_data (s : PageStore) (new id : ℤ) {k : ℤ} (hk : 68 ≤ k) :
    (setPrevPageId ((s.alloc new m).page new) id).data k = (Page.view invalidPageId m).data k := by
  rw [setPrevPageId_data, Bytes.setI32_of_notMem (by omega), page_alloc_data (by omega)]
  rfl

theorem getNextPageId_overflow (s : PageStore) (new id : ℤ) (m : Bytes) :
    getNextPageId (setPrevPageId ((s.alloc new m).page new) id) = getNextPageId (Page.view invalidPageId m) :=
  Bytes.i32_congr fun k _ => overflow_data s new id (by
    simp only [nextPgidOffset, prevPgidOffset, startOffset, comPgHeaderSz, pgidTSize]; omega)

theorem BlankFrame.page (hb : BlankFrame sz m) (s : PageStore) (new id : ℤ) :
    Good sz (setPrevPageId ((s.alloc new m).page new) id) ∧
    ∀ k, slot (setPrevPageId ((s.alloc new m).page new) id) k = none := by
  obtain ⟨hg, hs⟩ := hb.good.congr_tail fun k hk => overflow_data s new id (by omega)
  exact ⟨hg, fun k => by rw [hs, hb.slot_eq]⟩

section AddLast

variable {pre : List ℤ} (hlast : L.chain i j = pre ++ [id])
  (hp : al.pick s.ids s.allocs = some (new, m))
include hlast hp

theorem Skeleton.addLast (hS : Skeleton s root L) (hnext : getNextPageId (Page.view invalidPageId m) = -1) :
    Skeleton (addOverflow s id new m) root (L.addPage i j new) := by
  have hidc : id ∈ L.chain i j := by simp [hlast]
  have hido := hS.own_chain.mp hidc
  have hne : new ≠ id := (hS.ne_new hp hido).symm
  have hq : (addOverflow s id new m).Quiet := ((hS.quiet.alloc hp).put id _).put new _
  have hpage : ∀ b, (addOverflow s id new m).page b = _ := page_addOverflow hne
  have hids : (addOverflow s id new m).ids = insert new s.ids := rfl
  generalize addOverflow s id new m = s' at hq hpage hids ⊢
  have hsame : ∀ {b o}, L.own b = some o → b ≠ id → s'.page b = s.page b := by
    intro b o ho hbid
    rw [hpage, if_neg (hS.ne_new hp ho), if_neg hbid]
  -- Only a page of the bucket is written.
  have hsame' : ∀ {b o}, L.own b = some o → o ≠ .bucket i j → s'.page b = s.page b := by
    intro b o ho hnb
    refine hsame ho ?_
    rintro rfl
    rw [hido, Option.some.injEq] at ho
    exact hnb ho.symm
  refine hS.addPage (hS.own_new hp) hq (hids ▸ Finset.subset_insert new s.ids)
    (hids ▸ Finset.mem_insert_self new s.ids) (hsame' hS.own_root (by simp)) (hS.second_ne hidc) ?_ ?_ ?_
  · intro a b ha
    rw [hsame' (hS.own_second ha) (by simp), hS.head b ha]
    by_cases hab : a = i ∧ b = j
    · obtain ⟨rfl, rfl⟩ := hab
      rw [Layout.addPage_chain_self, hlast, List.append_assoc]
      exact (headOr_append_cons (-1) id pre [new]).symm
    · rw [Layout.addPage_chain_of_ne hab]
  · have hl := hS.linked i j
    have hnd := hS.nodup i j
    rw [hlast] at hl hnd
    rw [hlast, List.append_assoc]
    refine hl.snoc (fun c hc => ?_) ?_ ?_
    · have hcid : c ≠ id := by
        rintro rfl
        exact List.disjoint_of_nodup_append hnd hc List.mem_cons_self
      have hco := hS.own_chain.mp (show c ∈ L.chain i j by simp [hlast, hc])
      rw [nextPage, nextPage, hsame hco hcid]
    · have hnv : IsI32 new := hq.isI32 (hids ▸ Finset.mem_insert_self new s.ids)
      rw [nextPage, hpage, if_neg hne.symm, if_pos rfl, getNextPageId_setNextPageId _ hnv]
    · rw [nextPage, hpage, if_pos rfl, getNextPageId_overflow, hnext]
  · intro b a c ho hab
    rw [nextPage, hsame' ho (by simpa using fun ha hb => hab ⟨ha, hb⟩)]
    rfl

theorem TableInv.addLast (h : TableInv sz s root L) (hb : BlankFrame sz m) :
    TableInv sz (addOverflow s id new m) root (L.addPage i j new) ∧
    Grown s L (addOverflow s id new m) (L.addPage i j new) := by
  have hS := h.skeleton
  have hido := hS.own_chain.mp (show id ∈ L.chain i j by simp [hlast])
  have hne : new ≠ id := (hS.ne_new hp hido).symm
  have hnew : (addOverflow s id new m).page new = setPrevPageId ((s.alloc new m).page new) id := by
    rw [page_addOverflow hne, if_pos rfl]
  obtain ⟨hbg, hbs⟩ := hb.page s new id
  refine TableInv.addPage (hS.own_new hp) (hS.addLast hlast hp hb.next_eq) (Finset.subset_insert new s.ids)
    (pins_new hp rfl rfl) (fun ho => ?_) (by rwa [hnew]) (by rwa [hnew])
  rw [page_addOverflow hne, if_neg (hS.ne_new hp ho)]
  split_ifs with hbid
  · rw [hbid] at ho ⊢
    exact (h.good ho).setNextPageId new
  · exact ⟨h.good ho, rfl⟩

end AddLast

end Overflow

end Dawn
