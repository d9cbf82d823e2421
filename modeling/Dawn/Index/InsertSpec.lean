import Dawn.Index.Growth

/-!
# What an insertion does to a table

A tuple whose key is not found in its bucket is stored in one slot that was empty, in the first page of
the bucket that has room or in a new page at its end (`lkHaInsertTuple_cases`). Nothing else in the
table changes. The new page of a bucket that is full is not initialised, so there it is assumed that the
frame that it gets is blank.
-/

namespace Dawn

open TablePage PageStore

/-- A tuple with the given bytes has been stored in a bucket, at a page and slot. -/
structure Inserted (sz root : ℤ) (s : PageStore) (L : Layout) (i j id : ℤ) (k : ℕ) (bytes : List UInt8)
    (s' : PageStore) (L' : Layout) : Prop where
  /-- The table is as it should be. -/
  inv : TableInv sz s' root L'
  /-- The slot was empty. -/
  cell_none : cell s L id k = none
  /-- The tuple is there now, and every other slot is as it was. -/
  cell_eq : ∀ b n, cell s' L' b n = if b = id ∧ n = k then some bytes else cell s L b n
  /-- It is the first empty slot of the page. -/
  least : ∀ n < k, cell s' L' id n ≠ none
  /-- The page is one of the bucket's. -/
  own_id : L'.own id = some (.bucket i j)
  /-- The pages of the table stay its pages. -/
  own : ∀ {b : ℤ} {o : Owner}, L.own b = some o → L'.own b = some o
  /-- The bucket has one page more, if it was full, and the other buckets have their pages. -/
  chain : ∀ a b : ℤ, L'.chain a b = L.chain a b ∨
    a = i ∧ b = j ∧ L'.chain a b = L.chain a b ++ [id] ∧ ∀ c ∈ L.chain i j, Full sz (s.page c)
  /-- It is stored in the first page of the bucket that was not full. -/
  before : ∃ pre post, L'.chain i j = pre ++ id :: post ∧ ∀ c ∈ pre, Full sz (s'.page c)
  /-- No page goes. -/
  ids : s.ids ⊆ s'.ids
  /-- Nobody's pins change, and nobody has a new page pinned. -/
  pins : PinsKept s s'

variable {al : Allocator} {sz : ℤ} {s s₁ : PageStore} {root i j id : ℤ} {L L₁ : Layout} {t : Tuple}

theorem Full.occ_ne {p : Page} (hcap : 0 < getTpNumCapacity sz) (h : Full sz p) : occ p ≠ ∅ := by
  intro he
  rw [Full, he, Finset.card_empty] at h
  omega

theorem Grown.insert (hsz : 8 ≤ sz) (ht : t.size = sz)
    (hG : Grown s L s₁ L₁) (h1 : TableInv sz s₁ root L₁) {pre post : List ℤ}
    (hc : L₁.chain i j = pre ++ id :: post) (hpre : ∀ c ∈ pre, Full sz (s₁.page c)) (hroom : ¬ Full sz (s₁.page id))
    (hchain : ∀ a b : ℤ, L₁.chain a b = L.chain a b ∨
      a = i ∧ b = j ∧ L₁.chain a b = L.chain a b ++ [id] ∧ ∀ c ∈ L.chain i j, Full sz (s.page c)) :
    ∃ k : ℕ, (insertTuple (s₁.page id) t).1 = some ⟨id, k⟩ ∧
      Inserted sz root s L i j id k t.bytes (s₁.put id (insertTuple (s₁.page id) t).2) L₁ := by
  have ho : L₁.own id = some (.bucket i j) := h1.skeleton.own_chain.mp (by simp [hc])
  have hg := h1.good ho
  have hf := sameFrame_insertTuple (s₁.page id) t
  obtain ⟨hg', hn, ⟨-, k, hk, hrid, hslot⟩ | ⟨hfull, -⟩⟩ := hg.insertTuple hsz ht
  · have hnd := h1.skeleton.nodup i j
    rw [hc] at hnd
    refine ⟨k, hrid, h1.put ho hg' hf hn, ?_, ?_, ?_, ho, hG.own, hchain, ⟨pre, post, hc, ?_⟩, hG.ids, hG.pins⟩
    · rw [← hG.cell_eq, cell_eq_of_own ho, slot_of_notMem hk]
      rfl
    · intro b n
      rw [cell_put ho hf, ← hG.cell_eq]
      by_cases hb : b = id
      · subst hb
        rw [if_pos rfl, hslot, cell_eq_of_own ho]
        by_cases hnk : n = k
        · simp [hnk]
        · simp [hnk]
      · simp [hb]
    · intro n hn
      have hne : n ≠ k := hn.ne
      rw [cell_put ho hf, if_pos rfl, hslot, Function.update_of_ne hne, ← cell_eq_of_own ho, cell_ne_none_iff ho]
      exact mem_occ_of_lt_insertTuple hrid hn
    · intro c hcp
      have hne : c ≠ id := by
        rintro rfl
        exact List.disjoint_of_nodup_append hnd hcp List.mem_cons_self
      rw [page_put_of_ne _ hne]
      exact hpre c hcp
  · exact absurd hfull hroom

/-! ## The loop over the bucket -/

theorem occ_eq_of_slot_eq {p p' : Page} (h : slot p' = slot p) : occ p' = occ p := by
  ext k
  rw [← slot_ne_none_iff, h, slot_ne_none_iff]

theorem Full.congr {p p' : Page} (h : slot p' = slot p) : Full sz p' ↔ Full sz p := by
  rw [Full, Full, occ_eq_of_slot_eq h]

section Loop

variable (hsz : 8 ≤ sz) (hcap : 0 < getTpNumCapacity sz) (ht : t.size = sz) (h : TableInv sz s root L)
include hsz ht h

theorem TableInv.insertLoop_at (al : Allocator) {pre post : List ℤ} (hc : L.chain i j = pre ++ id :: post)
    (hpre : ∀ c ∈ pre, Full sz (s.page c)) {hd : ℤ} (hhd : hd = headOr (-1) (L.chain i j)) :
    TableInv sz (tryInsert t s pre) root L ∧ Grown s L (tryInsert t s pre) L ∧ (tryInsert t s pre).page id = s.page id ∧
    insertLoop al t hd (s.guard (Pi.single hd 1) {hd}) =
      insertLoop al t id ((tryInsert t s pre).guard (Pi.single id 1) {id}) := by
  have hS := h.skeleton
  have hnd := hS.nodup i j
  have hown : ∀ c ∈ pre ++ id :: post, L.own c = some (.bucket i j) := fun c hcm =>
    hS.own_chain.mp (hc ▸ hcm)
  rw [hc] at hnd hhd
  obtain ⟨h1, h2⟩ := h.tryFull hsz ht hnd.of_append_left
    (fun c hcp => hown c (List.mem_append_left _ hcp)) hpre
  have hpid : id ∉ pre := fun hm => List.disjoint_of_nodup_append hnd hm List.mem_cons_self
  refine ⟨h1, h2, by rw [page_tryInsert hnd.of_append_left, if_neg hpid],
    insertLoop_pre hS.quiet (fun c hcm => hS.own_mem (hown c hcm)) hnd (hc ▸ hS.linked i j)
      (fun c hcp => ?_) hhd⟩
  exact (Good.insertTuple_of_full hsz (h.good (hown c (List.mem_append_left _ hcp))) ht (hpre c hcp)).1

end Loop

/-! ## Going down -/

section Down

theorem TableInv.childPage_second (al : Allocator) (h : TableInv sz s root L) (hi : LinkHashPage.IsSlot i) :
    al.pick s.ids s.allocs = none ∧ childPage al root i LinkHashPage.init (s.guard (Pi.single root 1) ∅) = none ∨
    ∃ s₁ L₁, childPage al root i LinkHashPage.init (s.guard (Pi.single root 1) ∅) =
        some (secondPage s₁ root i, s₁.guard (Pi.single (secondPage s₁ root i) 1) ∅) ∧
      TableInv sz s₁ root L₁ ∧ Grown s L s₁ L₁ ∧ secondPage s₁ root i ≠ -1 ∧ L₁.chain = L.chain ∧
      s₁.ids.card ≤ s.ids.card + 1 ∧ (secondPage s root i ≠ -1 → s₁ = s ∧ L₁ = L) ∧ Bystanders s L s₁ L₁ := by
  have hS := h.skeleton
  by_cases hsec : secondPage s root i = -1
  · cases hp : al.pick s.ids s.allocs with
    | none => exact Or.inl ⟨rfl, childPage_fail hS.quiet hS.root_mem _ hsec hp⟩
    | some x =>
      obtain ⟨new, m⟩ := x
      obtain ⟨h1, h2, h3⟩ := h.addSecond hi hsec hp
      refine Or.inr ⟨_, _, ?_, h1, h2, ?_, rfl, Finset.card_insert_le new s.ids,
        fun hne => absurd hsec hne, .addChild _ hp hS.own_root fun hb => Function.update_of_ne hb ..⟩
      · rw [h3]
        exact childPage_of_invalid hS.quiet hS.root_mem _ hsec hp
      · rw [h3]
        exact (hS.quiet.alloc hp).ne_invalid (Finset.mem_insert_self new s.ids)
  · exact Or.inr ⟨s, L, childPage_of_mem hS.quiet hS.root_mem _ rfl (hS.second_mem hsec), h,
      Grown.refl s L, hsec, rfl, Nat.le_succ _, fun _ => ⟨rfl, rfl⟩, .refl s L⟩

theorem TableInv.childPage_first (al : Allocator) (hsz : 8 ≤ sz) (h : TableInv sz s root L)
    (hj : LinkHashPage.IsSlot j) (hsec : secondPage s root i ≠ -1) :
    al.pick s.ids s.allocs = none ∧ childPage al (secondPage s root i) j (TablePage.init · invalidPageId invalidPageId)
        (s.guard (Pi.single (secondPage s root i) 1) ∅) = none ∨
    ∃ s₁ L₁ hd, childPage al (secondPage s root i) j (TablePage.init · invalidPageId invalidPageId)
        (s.guard (Pi.single (secondPage s root i) 1) ∅) = some (hd, s₁.guard (Pi.single hd 1) ∅) ∧
      hd = headOr (-1) (L₁.chain i j) ∧ TableInv sz s₁ root L₁ ∧ Grown s L s₁ L₁ ∧
      s₁.ids.card ≤ s.ids.card + 1 ∧ (L.chain i j ≠ [] ∧ s₁ = s ∧ L₁ = L ∨
        L.chain i j = [] ∧ L₁ = L.addPage i j hd ∧ ∀ k, slot (s₁.page hd) k = none) ∧ Bystanders s L s₁ L₁ := by
  have hS := h.skeleton
  have hmem := hS.second_mem hsec
  have hhead := hS.head j hsec
  by_cases hnil : L.chain i j = []
  · rw [hnil, headOr_nil] at hhead
    cases hp : al.pick s.ids s.allocs with
    | none => exact Or.inl ⟨rfl, childPage_fail hS.quiet hmem _ hhead hp⟩
    | some x =>
      obtain ⟨new, m⟩ := x
      obtain ⟨h1, h2⟩ := h.addFirst hsz hj hsec hnil hp
      refine Or.inr ⟨_, _, new, childPage_of_invalid hS.quiet hmem _ hhead hp, ?_, h1, h2,
        Finset.card_insert_le new s.ids, Or.inr ⟨hnil, rfl, h2.blank Layout.addPage_own_self (hS.own_new hp)⟩,
        .addChild _ hp (hS.own_second hsec) Layout.addPage_own_of_ne⟩
      rw [Layout.addPage_chain_self, hnil]
      rfl
  · exact Or.inr ⟨s, L, _, childPage_of_mem hS.quiet hmem _ hhead (hS.chain_mem (headOr_mem hnil)), rfl,
      h, Grown.refl s L, Nat.le_succ _, Or.inl ⟨hnil, rfl, rfl⟩, .refl s L⟩

end Down

/-! ## The function -/

section Insert

variable {schema : Schema} {v : Value}

/-- A bucket that has pages, all of them full, gets a blank frame. -/
def BlankIfFull (al : Allocator) (sz : ℤ) (s : PageStore) (l : List ℤ) : Prop :=
  l ≠ [] → (∀ c ∈ l, Full sz (s.page c)) →
    ∀ new m, al.pick s.ids s.allocs = some (new, m) → BlankFrame sz m

theorem not_full_of_blank {p : Page} (hcap : 0 < getTpNumCapacity sz) (h : ∀ k, slot p k = none) : ¬ Full sz p := by
  intro hf
  obtain ⟨k, hk⟩ := Finset.nonempty_iff_ne_empty.mpr (hf.occ_ne hcap)
  exact slot_ne_none_iff.mpr hk (h k)

theorem TableInv.insertLoop_cases (al : Allocator) (hsz : 8 ≤ sz) (hcap : 0 < getTpNumCapacity sz)
    (ht : t.size = sz) (h : TableInv sz s root L) (hne : L.chain i j ≠ [])
    (hblank : BlankIfFull al sz s (L.chain i j)) {hd : ℤ} (hhd : hd = headOr (-1) (L.chain i j)) :
    (∀ c ∈ L.chain i j, Full sz (s.page c)) ∧ al.pick s.ids s.allocs = none ∧
      insertLoop al t hd (s.guard (Pi.single hd 1) {hd}) = none ∨
    ∃ id k s' L', insertLoop al t hd (s.guard (Pi.single hd 1) {hd}) =
      some (opSuccess, ⟨id, (k : ℕ)⟩, s') ∧ Inserted sz root s L i j id k t.bytes s' L' ∧
      s'.ids.card ≤ s.ids.card + 1 ∧ Bystanders s L s' L' := by
  have hS := h.skeleton
  by_cases hfull : ∀ c ∈ L.chain i j, Full sz (s.page c)
  · -- Every page is full, so a page is put behind the last one.
    obtain ⟨pre, id, hc⟩ := (List.eq_nil_or_concat (L.chain i j)).resolve_left hne
    rw [List.concat_eq_append] at hc
    have hnone : ∀ c ∈ L.chain i j, (insertTuple (s.page c) t).1 = none := fun c hcm =>
      (Good.insertTuple_of_full hsz (h.good (hS.own_chain.mp hcm)) ht (hfull c hcm)).1
    cases hp : al.pick s.ids s.allocs with
    | none => exact Or.inl ⟨hfull, rfl, hS.insertLoop_stuck hc hnone hhd hp⟩
    | some x =>
      obtain ⟨new, m⟩ := x
      obtain ⟨h1, h2⟩ := h.tryFull hsz ht (hS.nodup i j) (fun c hcm => hS.own_chain.mp hcm) hfull
      obtain ⟨hids, -, -, hallocs⟩ := tryInsert_fields t s (L.chain i j)
      have hp' : al.pick (tryInsert t s (L.chain i j)).ids (tryInsert t s (L.chain i j)).allocs =
          some (new, m) := by rw [hids, hallocs, hp]
      obtain ⟨h3, h4⟩ := h1.addLast hc hp' (hblank hne hfull new m hp)
      have hG := h2.trans h4
      have hchain : (L.addPage i j new).chain i j = L.chain i j ++ new :: [] :=
        Layout.addPage_chain_self
      obtain ⟨k, hrid, hins⟩ := hG.insert hsz ht h3 hchain
        (fun c hcm => (Full.congr (hG.pages (hS.own_chain.mp hcm))).mpr (hfull c hcm))
        (not_full_of_blank hcap (hG.blank Layout.addPage_own_self (hS.own_new hp))) fun a b => by
          by_cases hab : a = i ∧ b = j
          · obtain ⟨rfl, rfl⟩ := hab
            exact Or.inr ⟨rfl, rfl, Layout.addPage_chain_self, hfull⟩
          · exact Or.inl (Layout.addPage_chain_of_ne hab)
      have htried : Bystanders s L (tryInsert t s (L.chain i j)) L := .tryInsert fun c hcm => by
        simp [hS.own_chain.mp hcm]
      have hothers : Bystanders s L _ (L.addPage i j new) := htried.trans
        (.addOverflow hp' (hS.own_chain.mp (show id ∈ L.chain i j by simp [hc])) Layout.addPage_own_of_ne)
      refine Or.inr ⟨new, k, _, _, ?_, hins, (Finset.card_insert_le new _).trans (by rw [hids]),
        hothers.trans (.put Layout.addPage_own_self _)⟩
      rw [hS.insertLoop_overflow hc hnone hhd hp,
        insertLoop_room h3.skeleton.quiet (h3.skeleton.own_mem Layout.addPage_own_self) hrid]
  · -- The first page that has room.
    obtain ⟨pre, id, post, hc, hpre, hroom⟩ := exists_first_not hfull
    obtain ⟨h1, h2, hpage, heq⟩ := h.insertLoop_at hsz ht al hc hpre hhd
    have hpre' : ∀ c ∈ pre, Full sz ((tryInsert t s pre).page c) := fun c hcp =>
      (Full.congr (h2.pages (hS.own_chain.mp (show c ∈ L.chain i j by simp [hc, hcp])))).mpr (hpre c hcp)
    obtain ⟨k, hrid, hins⟩ :=
      h2.insert hsz ht h1 hc hpre' (by rwa [hpage]) fun a b => Or.inl rfl
    have hothers : Bystanders s L (tryInsert t s pre) L := .tryInsert fun c hcp => by
      simp [hS.own_chain.mp (show c ∈ L.chain i j by simp [hc, hcp])]
    refine Or.inr ⟨id, k, _, _, ?_, hins, (congrArg _ (tryInsert_fields t s pre).1).trans_le (Nat.le_succ _),
      hothers.trans (.put hins.own_id _)⟩
    rw [heq, insertLoop_room h1.skeleton.quiet (h1.skeleton.own_mem hins.own_id) hrid]

theorem Inserted.of_grown {s' : PageStore} {L' : Layout} {k : ℕ} {bytes : List UInt8}
    (h : Inserted sz root s₁ L₁ i j id k bytes s' L') (hG : Grown s L s₁ L₁)
    (hchain : ∀ a b : ℤ, L'.chain a b = L.chain a b ∨
      a = i ∧ b = j ∧ L'.chain a b = L.chain a b ++ [id] ∧ ∀ c ∈ L.chain i j, Full sz (s.page c)) :
    Inserted sz root s L i j id k bytes s' L' where
  inv := h.inv
  cell_none := by rw [← hG.cell_eq, h.cell_none]
  cell_eq := by rw [← hG.cell_eq]; exact h.cell_eq
  least := h.least
  own_id := h.own_id
  own ho := h.own (hG.own ho)
  chain := hchain
  before := h.before
  ids := fun _ hb => h.ids (hG.ids hb)
  pins := hG.pins.trans hG.ids h.pins

/-- What `lk_ha_insert_tuple` does once no tuple with the key has been found. -/
def insertNew (al : Allocator) (root i j : ℤ) (tuple : Tuple) (s : PageStore) :
    Option (ℤ × RID × PageStore) := do
  let s ← s.getPage root
  let (secondLevelPageId, s) ← childPage al root i LinkHashPage.init s
  let (thirdLevelPageId, s) ← childPage al secondLevelPageId j
    (TablePage.init · invalidPageId invalidPageId) s
  let s ← s.wLock thirdLevelPageId
  insertLoop al tuple thirdLevelPageId s

theorem lkHaInsertTuple_of_none {doHash : List UInt8 → UInt64} {s' : PageStore} (hv : keyOf schema t.bytes = some v)
    (hcheck : lkHaCheckDuplicateKey doHash schema root v s = some (none, s'))
    (hij : hashToSlot (v.getHashValue doHash) = (i, j)) :
    lkHaInsertTuple al doHash schema root t s = (insertNew al root i j t s').map fun r =>
      (r.1, if r.1 = opSuccess then t.setRid r.2.1 else t, r.2.2) := by
  simp only [lkHaInsertTuple, hv, hcheck, hij, insertNew, Option.bind_eq_bind, Option.bind_some,
    Option.isSome_none, Bool.false_eq_true, if_false, Option.map_bind, Function.comp_def]
  refine Option.bind_congr fun s _ => Option.bind_congr fun x _ => Option.bind_congr fun y _ =>
    Option.bind_congr fun s _ => ?_
  cases insertLoop al t y.1 s with
  | none => rfl
  | some r =>
    simp only [Option.bind_some, Option.map_some]
    split_ifs <;> rfl

theorem TableInv.insertNew_cases (al : Allocator) (hsz : 8 ≤ sz) (hcap : 0 < getTpNumCapacity sz)
    (h : TableInv sz s root L) (ht : t.size = sz) (hi : LinkHashPage.IsSlot i)
    (hj : LinkHashPage.IsSlot j) (hblank : BlankIfFull al sz s (L.chain i j)) :
    insertNew al root i j t s = none ∧ ¬ (al.Correct ∧ s.ids.card + 2 ≤ 2^31) ∨
    ∃ id k s' L', insertNew al root i j t s = some (opSuccess, ⟨id, (k : ℕ)⟩, s') ∧
      Inserted sz root s L i j id k t.bytes s' L' ∧ s'.ids.card ≤ s.ids.card + 3 ∧ Bystanders s L s' L' := by
  simp only [insertNew, Option.bind_eq_bind, Option.bind_some, h.skeleton.quiet.getPage h.skeleton.root_mem]
  rcases h.childPage_second al hi with ⟨hp, he⟩ | ⟨s₁, L₁, he, h1, hG1, hsec, hch1, hcard, hsame1, hby1⟩
  · -- There is no second level page to be had.
    refine Or.inl ⟨by rw [he, Option.bind_none], fun hc => ?_⟩
    have := hc.1 s.ids s.allocs (by omega)
    simp [hp] at this
  rw [he]
  simp only [Option.bind_some]
  rcases h1.childPage_first al hsz hj hsec with ⟨hp, he⟩ | ⟨s2, L2, hd, he, hhd, h2, hG2, hcard2, hcase, hby2⟩
  · -- There is no table page to be had.
    refine Or.inl ⟨by rw [he]; rfl, fun hc => ?_⟩
    have := hc.1 s₁.ids s₁.allocs (by omega)
    simp [hp] at this
  rw [he]
  simp only [Option.bind_some]
  have hG := hG1.trans hG2
  have hne : L2.chain i j ≠ [] := by
    rcases hcase with ⟨hne, -, rfl⟩ | ⟨-, rfl, -⟩
    · exact hne
    · simp [Layout.addPage_chain_self]
  have hmem : hd ∈ s2.ids := hhd ▸ h2.skeleton.chain_mem (headOr_mem hne)
  -- Either nothing was made, or the bucket has one page, which is not full.
  have hcase' : s2 = s ∧ L2 = L ∨ L.chain i j = [] ∧ L2.chain i j = [hd] ∧ ¬ Full sz (s2.page hd) ∧
      ∀ a b, ¬ (a = i ∧ b = j) → L2.chain a b = L.chain a b := by
    rcases hcase with ⟨hne, rfl, rfl⟩ | ⟨hnil, rfl, hblank⟩
    · rw [hch1] at hne
      exact Or.inl (hsame1 fun hs => hne (h.skeleton.chain_nil j hs))
    · refine Or.inr ⟨by rw [← hch1, hnil], by rw [Layout.addPage_chain_self, hnil]; rfl,
        not_full_of_blank hcap hblank, fun a b hab => ?_⟩
      rw [Layout.addPage_chain_of_ne hab, hch1]
  have hblank2 : BlankIfFull al sz s2 (L2.chain i j) := by
    rcases hcase' with ⟨rfl, rfl⟩ | ⟨-, hone, hroom, -⟩
    · exact hblank
    · exact fun _ hfull => absurd (hfull hd (by simp [hone])) hroom
  rw [wLock_guard (h2.skeleton.quiet.free hd hmem) (Finset.notMem_empty hd), Option.bind_some, insert_empty_eq]
  rcases h2.insertLoop_cases al hsz hcap ht hne hblank2 hhd with ⟨hfull, hp, he⟩ |
    ⟨id, k, s', L', he, hins, hcard', hby⟩
  · -- There is no page to be had for a full bucket.
    refine Or.inl ⟨he, fun hc => ?_⟩
    rcases hcase' with ⟨rfl, rfl⟩ | ⟨-, hone, hroom, -⟩
    · have := hc.1 s2.ids s2.allocs (by omega)
      simp [hp] at this
    · exact hroom (hfull hd (by simp [hone]))
  · refine Or.inr ⟨id, k, s', L', he, hins.of_grown hG fun a b => ?_, by omega,
      (hby1.trans hby2).trans hby⟩
    rcases hcase' with ⟨rfl, rfl⟩ | ⟨hnil, hone, hroom, hother⟩
    · exact hins.chain a b
    · rcases hins.chain a b with hab | ⟨-, -, -, hfull⟩
      · by_cases heq : a = i ∧ b = j
        · obtain ⟨rfl, rfl⟩ := heq
          obtain ⟨pre, post, hpos, -⟩ := hins.before
          rw [hab, hone] at hpos
          have hid : id ∈ [hd] := hpos ▸ by simp
          rw [List.mem_singleton] at hid
          exact Or.inr ⟨rfl, rfl, by rw [hab, hone, hnil, hid]; rfl, by simp [hnil]⟩
        · exact Or.inl (by rw [hab, hother a b heq])
      · exact absurd (hfull hd (by simp [hone])) hroom

theorem lkHaInsertTuple_dup (doHash : List UInt8 → UInt64) (hkey : schema.HasKey)
    (h : TableInv sz s root L) (hv : keyOf schema t.bytes = some v) {rid : RID}
    (hdup : findInChain schema v s (L.bucketOf doHash v) = some rid) :
    lkHaInsertTuple al doHash schema root t s = some (dupKey, t, s) := by
  simp only [lkHaInsertTuple, hv, some_bind,
    lkHaCheckDuplicateKey_eq doHash hkey h.skeleton _ (h.searchable _ _), hdup, Option.isSome_some, if_true]

theorem lkHaInsertTuple_cases (doHash : List UInt8 → UInt64) (hkey : schema.HasKey) (hsz : 8 ≤ sz)
    (hcap : 0 < getTpNumCapacity sz) (h : TableInv sz s root L) (ht : t.size = sz) (hv : keyOf schema t.bytes = some v)
    (hno : findInChain schema v s (L.bucketOf doHash v) = none) (hij : hashToSlot (v.getHashValue doHash) = (i, j))
    (hblank : BlankIfFull al sz s (L.chain i j)) :
    lkHaInsertTuple al doHash schema root t s = none ∧ ¬ (al.Correct ∧ s.ids.card + 2 ≤ 2^31) ∨
    ∃ id k s' L', lkHaInsertTuple al doHash schema root t s = some (opSuccess, t.setRid ⟨id, (k : ℕ)⟩, s') ∧
      Inserted sz root s L i j id k t.bytes s' L' ∧ s'.ids.card ≤ s.ids.card + 3 ∧ Bystanders s L s' L' := by
  have hcheck := lkHaCheckDuplicateKey_eq doHash hkey h.skeleton v (h.searchable _ _)
  rw [hno] at hcheck
  have hslots := hashToSlot_isSlot (v.getHashValue doHash)
  rw [hij] at hslots
  rw [lkHaInsertTuple_of_none hv hcheck hij]
  rcases h.insertNew_cases al hsz hcap ht hslots.1 hslots.2 hblank with
    ⟨he, hids⟩ | ⟨id, k, s', L', he, hins⟩
  · exact Or.inl ⟨by rw [he]; rfl, hids⟩
  · exact Or.inr ⟨id, k, s', L', by rw [he]; rfl, hins⟩

end Insert

end Dawn
