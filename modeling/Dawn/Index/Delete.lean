import Dawn.Index.Growth

/-!
# Deleting a tuple

`lk_ha_apply_delete` removes the tuple that the search finds and, when its page is empty then, calls
`lk_ha_clear_empty_page`, which deletes the empty pages at the front of the bucket. That function holds
the pages until it deletes them (`collectEmpty_eq`), and it does not return when somebody has one of them
pinned (`deleteEmpty_eq`).
-/

namespace Dawn

open LinkHashPage hiding init

open TablePage PageStore

variable {sz : ℤ} {s : PageStore} {root i j id : ℤ} {L : Layout}

/-! ## The loops -/

theorem getStoredTupleCnt_eq_zero_iff {p : Page} : getStoredTupleCnt p = 0 ↔ occ p = ∅ := by
  rw [getStoredTupleCnt_eq]
  simp

section Loops

variable {es rest held : List ℤ} {getPage : PageStore → ℤ → Option PageStore} {room : ℤ → List ℤ → Bool}

/-- A way to pin the pages of a store, where `room` says whether there is a frame for a page while those of a
list are held. -/
def Grants (getPage : PageStore → ℤ → Option PageStore) (room : ℤ → List ℤ → Bool) (s : PageStore) : Prop :=
  ∀ l id, (∀ b ∈ l, b ∈ s.ids) → id ∉ l →
    getPage (s.holdAll l) id = if room id l then (s.holdAll l).getPage id else none

/-- Whether there is a frame for each page of a list, where they are pinned one after the other. -/
def roomForAll (room : ℤ → List ℤ → Bool) : List ℤ → List ℤ → Bool
  | _, [] => true
  | held, id :: l => room id held && roomForAll room (id :: held) l

theorem Grants.hold (hg : Grants getPage room s) (hq : s.Quiet) (hid : id ∈ s.ids) (hmem : ∀ b ∈ held, b ∈ s.ids)
    (hl : id ∉ held) : (getPage (s.holdAll held) id).bind (·.wLock id) =
      if room id held then some (s.holdAll (id :: held)) else none := by
  rw [hg held id hmem hl]
  split_ifs
  · exact hq.hold hid hl
  · rfl

theorem collectEmpty_eq (hg : Grants getPage room s) (hq : s.Quiet) (hmem : ∀ b ∈ es ++ rest, b ∈ s.ids)
    (hheld : ∀ b ∈ held, b ∈ s.ids) (hnd : (es ++ rest).Nodup)
    (hdis : ∀ b ∈ es ++ rest, b ∉ held) (hlink : Linked (nextPage s) (-1) (es ++ rest))
    (hes : ∀ b ∈ es, occ (s.page b) = ∅) (hrest : ∀ b ∈ rest.head?, occ (s.page b) ≠ ∅)
    (hne : es ++ rest ≠ []) {hd : ℤ} (hhd : hd = headOr (-1) (es ++ rest)) (acc : List ℤ) :
    collectEmpty getPage hd acc (s.holdAll (hd :: held)) =
      if roomForAll room (hd :: held) (es ++ rest.take 1).tail then
        some (acc ++ es, headOr (-1) rest, s.holdAll (es ++ rest.take 1 ++ held)) else none := by
  -- The induction is on the empty pages that are still to be collected.
  induction es generalizing hd acc held with
  | nil =>
    obtain ⟨b, r, rfl⟩ := List.exists_cons_of_ne_nil hne
    rw [List.nil_append, headOr_cons] at hhd
    subst hhd
    have hcnt : ¬ getStoredTupleCnt ((s.holdAll (hd :: held)).page hd) = 0 := by
      rw [getStoredTupleCnt_eq_zero_iff]
      exact hrest hd (by simp)
    rw [collectEmpty, if_neg hcnt]
    simp [roomForAll]
  | cons b es ih =>
    rw [List.cons_append] at hmem hnd hdis hlink hhd
    rw [headOr_cons] at hhd
    subst hhd
    rw [List.nodup_cons] at hnd
    have hcnt : getStoredTupleCnt ((s.holdAll (hd :: held)).page hd) = 0 :=
      getStoredTupleCnt_eq_zero_iff.mpr (hes hd List.mem_cons_self)
    have hnext : getNextPageId ((s.holdAll (hd :: held)).page hd) = headOr (-1) (es ++ rest) := hlink.1
    rw [collectEmpty, if_pos hcnt]
    simp only [hnext]
    by_cases hnil : es ++ rest = []
    · obtain ⟨rfl, rfl⟩ := List.append_eq_nil_iff.mp hnil
      rfl
    · have hx : headOr (-1) (es ++ rest) ∈ es ++ rest := headOr_mem hnil
      have hfront : es ++ rest.take 1 = headOr (-1) (es ++ rest) :: (es ++ rest.take 1).tail := by
        cases es <;> cases rest <;> simp_all
      generalize hxd : headOr (-1) (es ++ rest) = x at hx hfront ⊢
      have hxm : x ∈ s.ids := hmem x (List.mem_cons_of_mem hd hx)
      have hxh : x ∉ hd :: held := by
        rw [List.mem_cons, not_or]
        exact ⟨fun e => hnd.1 (e ▸ hx), hdis x (List.mem_cons_of_mem hd hx)⟩
      have hheld' : ∀ b ∈ hd :: held, b ∈ s.ids := List.forall_mem_cons.mpr ⟨hmem hd List.mem_cons_self, hheld⟩
      have hinv : ¬ x = invalidPageId := hq.ne_invalid hxm
      have hperm : (es ++ rest.take 1 ++ hd :: held).Perm (hd :: es ++ rest.take 1 ++ held) := List.perm_middle
      have hroom : roomForAll room (hd :: held) (es ++ rest.take 1) =
          (room x (hd :: held) && roomForAll room (x :: hd :: held) (es ++ rest.take 1).tail) := by
        rw [hfront]
        rfl
      rw [if_neg hinv, Option.bind_eq_bind, List.cons_append, List.tail_cons, hroom]
      change (getPage (s.holdAll (hd :: held)) x).bind (fun s => (s.wLock x).bind _) = _
      rw [← Option.bind_assoc, hg.hold hq hxm hheld' hxh]
      cases room x (hd :: held) with
      | false => rfl
      | true =>
        rw [if_pos rfl, Option.bind_some, ih (fun b hb => hmem b (List.mem_cons_of_mem hd hb)) hheld' hnd.2
          (fun b hb => ?_) hlink.2 (fun b hb => hes b (List.mem_cons_of_mem hd hb)) hnil hxd.symm,
          holdAll_perm hperm, List.append_assoc]
        · rfl
        · rw [List.mem_cons, not_or]
          exact ⟨fun e => hnd.1 (e ▸ hb), hdis b (List.mem_cons_of_mem hd hb)⟩

theorem deletePage_holdAll (hmem : id ∈ s.ids) (hf : s.latch id = Latch.free) (hh : id ∉ held) :
    (s.holdAll held).deletePage id = if s.pins id ≠ 0 then some (false, s.holdAll held)
      else some (true, (s.drop [id]).holdAll held) := by
  have hm : id ∈ (s.holdAll held).ids := hmem
  have hp : (s.holdAll held).pins id = s.pins id := by
    simp [holdAll, PageStore.guard, List.count_eq_zero_of_not_mem hh]
  have hh' : id ∉ held.toFinset := by simpa using hh
  rw [deletePage, if_pos hm, hp]
  split_ifs with h0
  · rfl
  · rw [holdAll, wLock_guard hf hh', some_bind, wUnlock_guard hf (Finset.mem_insert_self ..), Finset.erase_insert hh']
    simp [PageStore.guard, holdAll, PageStore.drop, Finset.sdiff_singleton_eq_erase]

theorem drop_cons (l : List ℤ) : (s.drop [id]).drop l = s.drop (id :: l) := by
  simp only [PageStore.drop, List.toFinset_cons, List.toFinset_nil, insert_empty_eq]
  congr 1
  ext x
  simp
  tauto

theorem PageStore.Quiet.drop (hq : s.Quiet) (l : List ℤ) : (s.drop l).Quiet :=
  ⟨fun id hid => hq.bounds id (Finset.mem_sdiff.mp hid).1, fun id hid => hq.free id (Finset.mem_sdiff.mp hid).1⟩

theorem deleteEmpty_cons (hq : s.Quiet) {b : ℤ} (hb : b ∈ s.ids) (hes : b ∉ es) (hh : b ∉ held) :
    deleteEmpty (b :: es) (s.holdAll (b :: es ++ held)) =
      if s.pins b ≠ 0 then none else deleteEmpty es ((s.drop [b]).holdAll (es ++ held)) := by
  have hbh : b ∉ es ++ held := by simp [hes, hh]
  rw [List.cons_append, deleteEmpty, release_holdAll hb (hq.free b hb) hbh]
  simp only [some_bind, deletePage_holdAll hb (hq.free b hb) hbh]
  split_ifs <;> rfl

theorem mem_drop_single {b c : ℤ} (hc : c ∈ s.ids) (hne : c ≠ b) : c ∈ (s.drop [b]).ids := by
  simp [PageStore.drop, hc, hne]

theorem deleteEmpty_eq (hq : s.Quiet) (hmem : ∀ b ∈ es, b ∈ s.ids) (hnd : es.Nodup)
    (hdis : ∀ b ∈ es, b ∉ held) : deleteEmpty es (s.holdAll (es ++ held)) =
      if ∀ b ∈ es, s.pins b = 0 then some ((s.drop es).holdAll held) else none := by
  induction es generalizing s with
  | nil => simp [deleteEmpty, PageStore.drop]
  | cons b es ih =>
    rw [List.nodup_cons] at hnd
    rw [deleteEmpty_cons hq (hmem b List.mem_cons_self) hnd.1 (hdis b List.mem_cons_self),
      ih (hq.drop [b]) (fun c hc => ?_) hnd.2 (fun c hc => hdis c (List.mem_cons_of_mem b hc)), drop_cons]
    · simp only [List.forall_mem_cons, ite_and, ite_not]
      rfl
    · exact mem_drop_single (hmem c (List.mem_cons_of_mem b hc)) fun e => hnd.1 (e ▸ hc)

end Loops

/-! ## Clearing the front of a bucket -/

/-- The store after the empty pages at the front of a bucket have been deleted. -/
def cleared (s : PageStore) (sec j : ℤ) (es rest : List ℤ) : PageStore :=
  let s := s.drop es
  let s := s.put sec (LinkHashPage.setPgidInSlot (s.page sec) j (headOr (-1) rest))
  match rest with
  | [] => s
  | hd :: _ => s.put hd (setPrevPageId (s.page hd) (-1))

section Clear

variable {es rest : List ℤ} {getPage : PageStore → ℤ → Option PageStore} {room : ℤ → List ℤ → Bool}
  (h : Skeleton s root L) (hc : L.chain i j = es ++ rest) (hne : L.chain i j ≠ [])
  (hes : ∀ b ∈ es, occ (s.page b) = ∅) (hrest : ∀ b ∈ rest.head?, occ (s.page b) ≠ ∅)
include h hc hne

include hes hrest in
theorem lkHaClearEmptyPage_collect (hg : Grants getPage room s) : lkHaClearEmptyPageBy root getPage i j s =
    if room root [] && roomForAll room [] (secondPage s root i :: (es ++ rest.take 1)) then
      (deleteEmpty es (s.holdAll (es ++ (rest.take 1 ++ [secondPage s root i])))).bind fun s1 =>
        let s2 := s1.put (secondPage s root i)
          (setPgidInSlot (s1.page (secondPage s root i)) j (headOr (-1) rest))
        if headOr (-1) rest = invalidPageId then
          (s2.wUnlock (secondPage s root i)).unpinPage (secondPage s root i) true
        else
          let s3 := s2.put (headOr (-1) rest) (setPrevPageId (s2.page (headOr (-1) rest)) invalidPageId)
          (((s3.wUnlock (headOr (-1) rest)).wUnlock (secondPage s root i)).unpinPage
            (headOr (-1) rest) true).bind fun s4 => s4.unpinPage (secondPage s root i) true
    else none := by
  have hsec : secondPage s root i ≠ -1 := fun hs => hne (h.chain_nil j hs)
  have hmem := h.second_mem hsec
  have hhd : headOr (-1) (es ++ rest) ∈ es ++ rest := headOr_mem (hc ▸ hne)
  have hcm : ∀ b ∈ es ++ rest, b ∈ s.ids := fun b hb => h.chain_mem (hc ▸ hb)
  have hcs : ∀ b ∈ es ++ rest, b ∉ [secondPage s root i] := by
    intro b hb he
    rw [List.mem_singleton] at he
    exact h.second_notMem_chain hsec (he ▸ hc ▸ hb)
  have hheld : ∀ b ∈ [secondPage s root i], b ∈ s.ids := by simpa using hmem
  have hgroot := hg [] root (by simp) List.not_mem_nil
  have hhold := hg.hold h.quiet hmem (by simp) (List.not_mem_nil (a := secondPage s root i))
  rw [holdAll_nil] at hgroot hhold
  have hinspect : s.inspectBy root getPage (getPgidInSlot · i) =
      if room root [] then some (secondPage s root i, s) else none := by
    have hlook := h.quiet.inspect h.root_mem (getPgidInSlot · i)
    rw [inspectBy, hgroot]
    split_ifs
    · exact hlook
    · rfl
  have hhead : getPgidInSlot (s.page (secondPage s root i)) j = headOr (-1) (es ++ rest) := by
    rw [h.head j hsec, hc]
  have hfront : es ++ rest.take 1 = headOr (-1) (es ++ rest) :: (es ++ rest.take 1).tail := by
    have hne' := hc ▸ hne
    cases es <;> cases rest <;> simp_all
  have hrooms : roomForAll room [] (secondPage s root i :: (es ++ rest.take 1)) =
      (room (secondPage s root i) [] && (room (headOr (-1) (es ++ rest)) [secondPage s root i] &&
        roomForAll room [headOr (-1) (es ++ rest), secondPage s root i] (es ++ rest.take 1).tail)) := by
    rw [hfront]
    rfl
  rw [hrooms]
  unfold lkHaClearEmptyPageBy
  rw [hinspect]
  -- Each page that is pinned needs a frame.
  cases room root [] with
  | false => rfl
  | true =>
    simp only [Option.bind_eq_bind, Option.bind_some, if_true]
    rw [← Option.bind_assoc, hhold]
    cases room (secondPage s root i) [] with
    | false => rfl
    | true =>
      simp only [Option.bind_some, if_true, holdAll_page, hhead]
      rw [← Option.bind_assoc, hg.hold h.quiet (hcm _ hhd) hheld (hcs _ hhd)]
      cases room (headOr (-1) (es ++ rest)) [secondPage s root i] with
      | false => rfl
      | true =>
        rw [if_pos rfl, Option.bind_some, collectEmpty_eq hg h.quiet hcm hheld (hc ▸ h.nodup i j) hcs
          (hc ▸ h.linked i j) hes hrest (hc ▸ hne) rfl, List.append_assoc]
        cases roomForAll room [headOr (-1) (es ++ rest), secondPage s root i] (es ++ rest.take 1).tail <;> rfl

theorem clear_disjoint : ∀ b ∈ es, b ∉ rest.take 1 ++ [secondPage s root i] := by
  have hsec : secondPage s root i ≠ -1 := fun hs => hne (h.chain_nil j hs)
  have hnd := h.nodup i j
  rw [hc] at hnd
  intro b hb hm
  rcases List.mem_append.mp hm with hm | hm
  · exact List.disjoint_of_nodup_append hnd hb (List.mem_of_mem_take hm)
  · rw [List.mem_singleton] at hm
    exact h.second_notMem_chain hsec (show secondPage s root i ∈ L.chain i j by simp [hc, ← hm, hb])

theorem deleteEmpty_front : deleteEmpty es (s.holdAll (es ++ (rest.take 1 ++ [secondPage s root i]))) =
    if ∀ b ∈ es, s.pins b = 0 then some ((s.drop es).holdAll (rest.take 1 ++ [secondPage s root i])) else none :=
  deleteEmpty_eq h.quiet (fun b hb => h.chain_mem (show b ∈ L.chain i j by simp [hc, hb]))
    (hc ▸ h.nodup i j : (es ++ rest).Nodup).of_append_left (clear_disjoint h hc hne)

include hes hrest in
/-- The front of the bucket is cleared if there are frames for the pages, and nobody has an empty one pinned. -/
theorem lkHaClearEmptyPageBy_eq (hg : Grants getPage room s) : lkHaClearEmptyPageBy root getPage i j s =
    if room root [] && roomForAll room [] (secondPage s root i :: (es ++ rest.take 1)) then
      if ∀ b ∈ es, s.pins b = 0 then some (cleared s (secondPage s root i) j es rest) else none
    else none := by
  rw [lkHaClearEmptyPage_collect h hc hne hes hrest hg, deleteEmpty_front h hc hne]
  refine ite_congr rfl (fun _ => ?_) fun _ => rfl
  by_cases hpins : ∀ b ∈ es, s.pins b = 0
  swap
  · rw [if_neg hpins, if_neg hpins]
    rfl
  have hsec : secondPage s root i ≠ -1 := fun hs => hne (h.chain_nil j hs)
  have hnd := h.nodup i j
  rw [hc] at hnd
  have hq := h.quiet.drop es
  have hkeep : ∀ b, b ∈ s.ids → b ∉ es → b ∈ (s.drop es).ids := fun b hb he =>
    Finset.mem_sdiff.mpr ⟨hb, fun hm => he (List.mem_toFinset.mp hm)⟩
  have hmem : secondPage s root i ∈ (s.drop es).ids := hkeep _ (h.second_mem hsec) fun hm =>
    clear_disjoint h hc hne _ hm (by simp)
  rw [if_pos hpins, if_pos hpins, Option.bind_some]
  unfold cleared
  cases rest with
  | nil =>
    generalize s.drop es = b at hq hmem ⊢
    simp only [headOr_nil, List.take_nil, List.nil_append, holdAll_put, holdAll_page, invalidPageId, if_true]
    rw [release_holdAll (by exact hmem) (by exact hq.free _ hmem) List.not_mem_nil, holdAll_nil]
  | cons hd r =>
    have hdc : hd ∈ L.chain i j := by simp [hc]
    have hdm : hd ∈ (s.drop es).ids := hkeep hd (h.chain_mem hdc) fun hm =>
      List.disjoint_of_nodup_append hnd hm List.mem_cons_self
    have hds : hd ≠ secondPage s root i := fun e => h.second_notMem_chain hsec (e ▸ hdc)
    have hinv : ¬ hd = invalidPageId := hq.ne_invalid hdm
    generalize s.drop es = b at hq hmem hdm ⊢
    generalize secondPage s root i = sec at hmem hds ⊢
    simp only [headOr_cons, List.take_succ_cons, List.take_zero, List.cons_append, List.nil_append,
      if_neg hinv, holdAll_pair, guard_put, guard_page]
    rw [wUnlock_guard (by exact hq.free hd hdm) (by simp),
      Finset.erase_insert (by simpa using hds), wUnlock_guard (by exact hq.free sec hmem) (by simp),
      Finset.erase_singleton, unpinPage_guard (by exact hdm) (by exact hq.free hd hdm) (by simp),
      add_sub_cancel_right, Option.bind_some,
      unpinPage_guard (by exact hmem) (by exact hq.free sec hmem) (by simp), sub_self, guard_zero]
    rfl

include hes hrest in
theorem lkHaClearEmptyPage_eq : lkHaClearEmptyPage root i j s =
    if ∀ b ∈ es, s.pins b = 0 then some (cleared s (secondPage s root i) j es rest) else none := by
  have hroom : ∀ held l, roomForAll (fun _ _ => true) held l = true := fun held l => by
    induction l generalizing held with
    | nil => rfl
    | cons id l ih => exact ih (id :: held)
  have hg : Grants PageStore.getPage (fun _ _ => true) s := fun _ _ _ _ => rfl
  rw [lkHaClearEmptyPage, lkHaClearEmptyPageBy_eq h hc hne hes hrest hg, hroom]
  rfl

end Clear

/-- The layout without the pages at the front of a bucket. -/
def Layout.dropFront (L : Layout) (i j : ℤ) (es rest : List ℤ) : Layout where
  own id := if id ∈ es then none else L.own id
  chain a b := if a = i ∧ b = j then rest else L.chain a b

/-- Clearing the front of a bucket changes the second level page, the links of one page, and which pages
exist. -/
theorem cleared_spec (s : PageStore) {sec : ℤ} (j : ℤ) (es : List ℤ) {rest : List ℤ} (hs : sec ∉ rest) :
    (cleared s sec j es rest).ids = s.ids \ es.toFinset ∧
    (cleared s sec j es rest).pins = s.pins ∧ (cleared s sec j es rest).latch = s.latch ∧
    (cleared s sec j es rest).page sec = setPgidInSlot (s.page sec) j (headOr (-1) rest) ∧
    (∀ b, b ≠ sec → b ∉ rest → (cleared s sec j es rest).page b = s.page b) ∧
    ∀ b ∈ rest, (cleared s sec j es rest).page b =
      if b ∈ rest.head? then setPrevPageId (s.page b) (-1) else s.page b := by
  have hself : ((s.drop es).put sec (setPgidInSlot ((s.drop es).page sec) j (headOr (-1) rest))).page sec =
      setPgidInSlot (s.page sec) j (headOr (-1) rest) :=
    page_put_self (sameFrame_setPgidInSlot _ _ _)
  cases rest with
  | nil => exact ⟨rfl, rfl, rfl, hself, fun b hb _ => page_put_of_ne _ hb, by simp⟩
  | cons hd r =>
    have hne : sec ≠ hd := fun e => hs (e ▸ List.mem_cons_self)
    unfold cleared
    refine ⟨rfl, rfl, rfl, ?_, fun b hb hbr => ?_, fun b hb => ?_⟩
    · rw [page_put_of_ne _ hne, hself]
    · rw [page_put_of_ne _ (show b ≠ hd from fun e => hbr (e ▸ List.mem_cons_self)), page_put_of_ne _ hb]
      rfl
    · have hbs : b ≠ sec := fun e => hs (e ▸ hb)
      obtain rfl | hbh := eq_or_ne b hd
      · rw [page_put_self (sameFrame_setPrevPageId _ _), page_put_of_ne _ hbs, if_pos (by simp)]
        rfl
      · rw [page_put_of_ne _ hbh, page_put_of_ne _ hbs, if_neg (by simpa using hbh.symm)]
        rfl

theorem TableInv.clear {es rest : List ℤ} (h : TableInv sz s root L) (hc : L.chain i j = es ++ rest)
    (hne : L.chain i j ≠ []) (hes : ∀ b ∈ es, occ (s.page b) = ∅) :
    TableInv sz (cleared s (secondPage s root i) j es rest) root (L.dropFront i j es rest) ∧
    cell (cleared s (secondPage s root i) j es rest) (L.dropFront i j es rest) = cell s L := by
  have hS := h.skeleton
  have hsec : secondPage s root i ≠ -1 := fun hs => hne (hS.chain_nil j hs)
  have hown : ∀ b ∈ es ++ rest, L.own b = some (.bucket i j) := fun b hb =>
    hS.own_chain.mp (hc ▸ hb)
  have hnd := hS.nodup i j
  have hlink := hS.linked i j
  rw [hc] at hnd hlink
  -- A page that is not one of the bucket's is neither deleted nor the bucket's first page.
  have hout : ∀ {b o}, L.own b = some o → o ≠ .bucket i j → b ∉ es ++ rest := by
    intro b o ho hob hb
    rw [hown b hb, Option.some.injEq] at ho
    exact hob ho.symm
  have hout_es : ∀ {b o}, L.own b = some o → o ≠ .bucket i j → b ∉ es := fun ho hob hb =>
    hout ho hob (List.mem_append_left _ hb)
  have hsr : secondPage s root i ∉ rest := fun hm =>
    hout (hS.own_second hsec) (by simp) (List.mem_append_right _ hm)
  obtain ⟨hids, hpins, hlatch, hsecp, hsame, hrest⟩ := cleared_spec s j es hsr
  generalize cleared s (secondPage s root i) j es rest = s' at hids hpins hlatch hsecp hsame hrest ⊢
  have hpage : ∀ {b o}, L.own b = some o → o ≠ .second i → b ∉ rest → s'.page b = s.page b := by
    intro b o ho hos hbr
    refine hsame b ?_ hbr
    rintro rfl
    rw [hS.own_second hsec, Option.some.injEq] at ho
    exact hos ho.symm
  have hkeep : ∀ {b a c}, L.own b = some (.bucket a c) →
      Good sz (s'.page b) ∧ slot (s'.page b) = slot (s.page b) ∧ nextPage s' b = nextPage s b := by
    intro b a c ho
    by_cases hbr : b ∈ rest
    · rw [nextPage, nextPage, hrest b hbr]
      split_ifs
      · obtain ⟨hg, hs⟩ := (h.good ho).setPrevPageId (-1)
        exact ⟨hg, hs, getNextPageId_setPrevPageId _ _⟩
      · exact ⟨h.good ho, rfl, rfl⟩
    · rw [nextPage, nextPage, hpage ho (by simp) hbr]
      exact ⟨h.good ho, rfl, rfl⟩
  have hroot : s'.page root = s.page root := hpage hS.own_root (by simp) fun hm =>
    hout hS.own_root (by simp) (List.mem_append_right _ hm)
  have hsecond : ∀ a, secondPage s' root a = secondPage s root a := fun a => by
    rw [secondPage, hroot]
    rfl
  have hown' : ∀ {b o}, (L.dropFront i j es rest).own b = some o ↔ b ∉ es ∧ L.own b = some o := by
    intro b o
    simp only [Layout.dropFront]
    split_ifs with hb <;> simp [hb]
  have hchain : ∀ {a c}, ¬ (a = i ∧ c = j) → (L.dropFront i j es rest).chain a c = L.chain a c :=
    fun hac => if_neg hac
  have hchain' : (L.dropFront i j es rest).chain i j = rest := if_pos ⟨rfl, rfl⟩
  refine ⟨⟨⟨⟨?_, ?_⟩, ?_, ?_, ?_, ?_, ?_, ?_, ?_, ?_⟩, ?_⟩, ?_⟩
  · intro b hb
    rw [hids] at hb
    exact hS.quiet.bounds b (Finset.mem_sdiff.mp hb).1
  · intro b hb
    rw [hids] at hb
    rw [hlatch]
    exact hS.quiet.free b (Finset.mem_sdiff.mp hb).1
  · intro b o ho
    obtain ⟨hbe, ho⟩ := hown'.mp ho
    rw [hids]
    exact Finset.mem_sdiff.mpr ⟨hS.own_mem ho, by simpa using hbe⟩
  · exact hown'.mpr ⟨hout_es hS.own_root (by simp), hS.own_root⟩
  · intro a ha
    rw [hsecond] at ha ⊢
    exact hown'.mpr ⟨hout_es (hS.own_second ha) (by simp), hS.own_second ha⟩
  · intro a c b
    rw [hown']
    by_cases hac : a = i ∧ c = j
    · obtain ⟨rfl, rfl⟩ := hac
      rw [hchain', ← hS.own_chain, hc, List.mem_append]
      refine ⟨fun hb => ⟨fun he => List.disjoint_of_nodup_append hnd he hb, Or.inr hb⟩, fun hb => ?_⟩
      exact hb.2.resolve_left hb.1
    · rw [hchain hac, hS.own_chain]
      refine ⟨fun ho => ⟨hout_es ho ?_, ho⟩, fun hb => hb.2⟩
      simpa using fun ha hc => hac ⟨ha, hc⟩
  · intro a c
    by_cases hac : a = i ∧ c = j
    · obtain ⟨rfl, rfl⟩ := hac
      rw [hchain']
      exact hnd.of_append_right
    · rw [hchain hac]
      exact hS.nodup a c
  · intro a c ha
    rw [hsecond] at ha
    rw [hchain (by rintro ⟨rfl, -⟩; exact hsec ha)]
    exact hS.chain_nil c ha
  · intro a c ha
    rw [hsecond] at ha ⊢
    by_cases hai : a = i
    · subst hai
      rw [hsecp]
      obtain ⟨x, hx⟩ := List.exists_mem_of_ne_nil _ hne
      have hj : LinkHashPage.IsSlot j := (hS.isSlot_of_mem hx).2
      by_cases hcj : c = j
      · subst hcj
        rw [hchain', getPgidInSlot_setPgidInSlot_self hj]
        cases rest with
        | nil => norm_num [IsI32]
        | cons hd r => exact hS.quiet.isI32 (hS.own_mem (hown hd (by simp)))
      · rw [hchain (fun e => hcj e.2), getPgidInSlot_setPgidInSlot_of_ne hj hcj]
        exact hS.head c ha
    · rw [hchain (fun e => hai e.1), hpage (hS.own_second ha) (by simpa using hai) fun hm =>
        hout (hS.own_second ha) (by simp) (List.mem_append_right _ hm)]
      exact hS.head c ha
  · intro a c
    by_cases hac : a = i ∧ c = j
    · obtain ⟨rfl, rfl⟩ := hac
      rw [hchain']
      exact hlink.of_append.congr fun b hb => (hkeep (hown b (List.mem_append_right _ hb))).2.2
    · rw [hchain hac]
      exact (hS.linked a c).congr fun b hb => (hkeep (hS.own_chain.mp hb)).2.2
  · intro b a c ho
    exact (hkeep (hown'.mp ho).2).1
  · funext b k
    unfold cell
    by_cases hbe : b ∈ es
    · simp [Layout.dropFront, hbe, hown b (List.mem_append_left _ hbe), slot_of_notMem, hes b hbe]
    · have ho : (L.dropFront i j es rest).own b = L.own b := if_neg hbe
      rw [ho]
      cases hob : L.own b with
      | none => rfl
      | some o =>
        cases o with
        | bucket a c => simp only [(hkeep hob).2.1]
        | _ => rfl

theorem Skeleton.bystanders_clear {es rest : List ℤ} (h : Skeleton s root L)
    (hc : L.chain i j = es ++ rest) (hne : L.chain i j ≠ []) :
    Bystanders s L (cleared s (secondPage s root i) j es rest) (L.dropFront i j es rest) := by
  have hown : ∀ b ∈ es ++ rest, L.own b = some (.bucket i j) := fun b hb => h.own_chain.mp (hc ▸ hb)
  have hsec := h.own_second fun hs => hne (h.chain_nil j hs)
  have hsr : secondPage s root i ∉ rest := fun hm => by
    simp [hown _ (List.mem_append_right es hm)] at hsec
  obtain ⟨hids, -, -, -, hsame, -⟩ := cleared_spec s j es hsr
  intro b hb hbo
  have hout : b ∉ es ++ rest := fun hm => by simp [hown b hm] at hbo
  rw [List.mem_append, not_or] at hout
  refine ⟨?_, ?_, hsame b ?_ hout.2⟩
  · rw [hids]
    exact Finset.mem_sdiff.mpr ⟨hb, by simpa using hout.1⟩
  · simp [Layout.dropFront, hout.1, hbo]
  · rintro rfl
    simp [hsec] at hbo

/-! ## The function -/

/-- The tuple at a page and slot of a bucket has been deleted. -/
structure Deleted (sz root : ℤ) (s : PageStore) (L : Layout) (i j id : ℤ) (k : ℕ) (s' : PageStore)
    (L' : Layout) : Prop where
  /-- The table is as it should be. -/
  inv : TableInv sz s' root L'
  /-- The tuple is gone, and every other slot is as it was. -/
  cell_eq : ∀ b n, cell s' L' b n = if b = id ∧ n = k then none else cell s L b n
  /-- The table has no page that it did not have. -/
  own : ∀ {b : ℤ} {o : Owner}, L'.own b = some o → L.own b = some o
  /-- Pages go at the front of the bucket only. -/
  chain : ∀ a b : ℤ, L'.chain a b = L.chain a b ∨ a = i ∧ b = j ∧ ∃ es, L.chain a b = es ++ L'.chain a b
  /-- The first page of the bucket has a tuple, unless it is the one that it had and that was not
  written. -/
  head : ∀ b ∈ (L'.chain i j).head?, b ≠ id ∧ b ∈ (L.chain i j).head? ∨ ∃ n, cell s' L' b n ≠ none
  /-- No page comes. -/
  ids : s'.ids ⊆ s.ids
  /-- Nobody's pins change. -/
  pins : s'.pins = s.pins

section ApplyDelete

variable {schema : Schema} {keyValue : Value} {doHash : List UInt8 → UInt64} {k : ℕ}

theorem exists_prefix_rest {α : Type} (P : α → Prop) (l : List α) :
    ∃ es rest, l = es ++ rest ∧ (∀ b ∈ es, P b) ∧ ∀ b ∈ rest.head?, ¬ P b := by
  by_cases h : ∀ a ∈ l, P a
  · exact ⟨l, [], by simp, h, by simp⟩
  · obtain ⟨pre, a, post, rfl, hpre, ha⟩ := exists_first_not h
    exact ⟨pre, a :: post, rfl, hpre, by simpa using ha⟩

theorem lkHaApplyDelete_found (hsz : 8 ≤ sz) (hkey : schema.HasKey) (h : TableInv sz s root L)
    (hij : hashToSlot (keyValue.getHashValue doHash) = (i, j))
    (hfind : findInChain schema keyValue s (L.chain i j) = some ⟨id, k⟩) :
    ∃ p, id ∈ L.chain i j ∧ (s.page id).SameFrame p ∧ slot p = Function.update (slot (s.page id)) k none ∧
      TableInv sz (s.put id p) root L ∧ lkHaApplyDelete doHash schema root keyValue s =
        if occ p = ∅ then lkHaClearEmptyPage root i j (s.put id p) else some (s.put id p) := by
  have hq := h.skeleton.quiet
  obtain ⟨hb, sl, v, hsl, -⟩ := exists_slot_of_findInChain hfind
  have hid := h.skeleton.chain_mem hb
  have ho := h.skeleton.own_chain.mp hb
  have hframe := sameFrame_applyDelete (s.page id) ⟨id, k⟩
  obtain ⟨hg, hnext, hslot⟩ := (h.good ho).applyDelete hsz (slot_ne_none_iff.mp (hsl ▸ Option.some_ne_none sl)) id
  have hbucket : L.bucketOf doHash keyValue = L.chain i j := by rw [Layout.bucketOf, hij]
  refine ⟨_, hb, hframe, hslot, h.put ho hg hframe hnext, ?_⟩
  rw [lkHaApplyDelete, lkHaGetTuple_eq doHash hkey h.skeleton _ (h.searchable _ _), hbucket, hfind]
  simp only [getTuple_eq, hsl, Option.map_some, some_bind,
    Tuple.ofBytes_rid, hq.getPage hid, wLock_guard (hq.free id hid) (Finset.notMem_empty id),
    guard_put, guard_page, hij, page_put_self hframe, getStoredTupleCnt_eq_zero_iff]
  rw [release_guard (by exact hid) (by exact hq.free id hid) (by simp), sub_self,
    Finset.erase_insert (Finset.notMem_empty id), guard_zero]
  rfl

theorem occ_eq_erase {p q : Page} (h : slot p = Function.update (slot q) k none) : occ p = (occ q).erase k := by
  ext n
  rw [← slot_ne_none_iff, h, Finset.mem_erase, ← slot_ne_none_iff]
  by_cases hnk : n = k <;> simp [hnk]

section Remove

variable {p : Page} (ho : L.own id = some (.bucket i j)) (hframe : (s.page id).SameFrame p)
  (hslot : slot p = Function.update (slot (s.page id)) k none)
include ho hframe hslot

theorem cell_remove (b : ℤ) (n : ℕ) : cell (s.put id p) L b n = if b = id ∧ n = k then none else cell s L b n := by
  rw [cell_put ho hframe]
  by_cases hb : b = id
  · subst hb
    by_cases hnk : n = k
    · simp [hslot, hnk]
    · simp [hslot, hnk, cell_eq_of_own ho]
  · simp [hb]

theorem Deleted.of_put (hinv : TableInv sz (s.put id p) root L) (hne : occ p ≠ ∅) :
    Deleted sz root s L i j id k (s.put id p) L := by
  refine ⟨hinv, cell_remove ho hframe hslot, fun hb => hb, fun _ _ => Or.inl rfl, fun b hbh => ?_,
    fun _ hb => hb, rfl⟩
  by_cases hbi : b = id
  · subst hbi
    obtain ⟨n, hn⟩ := Finset.nonempty_iff_ne_empty.mpr hne
    refine Or.inr ⟨n, ?_⟩
    rw [cell_put ho hframe, if_pos rfl]
    simpa using slot_ne_none_iff.mpr hn
  · exact Or.inl ⟨hbi, hbh⟩

theorem Deleted.of_clear {es rest : List ℤ} (hinv : TableInv sz (s.put id p) root L)
    (hc : L.chain i j = es ++ rest) (hne : L.chain i j ≠ []) (hes : ∀ b ∈ es, occ ((s.put id p).page b) = ∅)
    (hrest : ∀ b ∈ rest.head?, occ ((s.put id p).page b) ≠ ∅) : Deleted sz root s L i j id k
      (cleared (s.put id p) (secondPage (s.put id p) root i) j es rest) (L.dropFront i j es rest) := by
  obtain ⟨hinv', hcell⟩ := hinv.clear hc hne hes
  have hown : ∀ b ∈ rest, L.own b = some (.bucket i j) := fun b hb =>
    hinv.skeleton.own_chain.mp (hc ▸ List.mem_append_right es hb)
  have hsec : secondPage (s.put id p) root i ∉ rest := fun hm => by
    have hs := hown _ hm
    rw [hinv.skeleton.own_second fun hs => hne (hinv.skeleton.chain_nil j hs)] at hs
    cases hs
  obtain ⟨hids, hpins, -⟩ := cleared_spec (s.put id p) j es hsec
  refine ⟨hinv', ?_, ?_, ?_, ?_, ?_, hpins⟩
  · simpa only [hcell] using cell_remove ho hframe hslot
  · intro b o hbo
    simp only [Layout.dropFront] at hbo
    split_ifs at hbo
    exact hbo
  · intro a b
    simp only [Layout.dropFront]
    split_ifs with hab
    · obtain ⟨rfl, rfl⟩ := hab
      exact Or.inr ⟨rfl, rfl, es, hc⟩
    · exact Or.inl rfl
  · intro b hbh
    have hbr : b ∈ rest.head? := by simpa [Layout.dropFront] using hbh
    obtain ⟨n, hn⟩ := Finset.nonempty_iff_ne_empty.mpr (hrest b hbr)
    refine Or.inr ⟨n, ?_⟩
    rw [hcell, cell_eq_of_own (hown b (List.mem_of_mem_head? hbr))]
    simpa using slot_ne_none_iff.mpr hn
  · rw [hids]
    exact Finset.sdiff_subset

end Remove

/-- `lk_ha_apply_delete` of a key that is found deletes the tuple. It does not return when that was the
last tuple of its page and somebody has a page of the bucket pinned. -/
theorem lkHaApplyDelete_cases (hsz : 8 ≤ sz) (hkey : schema.HasKey) (h : TableInv sz s root L)
    (hij : hashToSlot (keyValue.getHashValue doHash) = (i, j))
    (hfind : findInChain schema keyValue s (L.chain i j) = some ⟨id, k⟩) :
    lkHaApplyDelete doHash schema root keyValue s = none ∧ (occ (s.page id)).erase k = ∅ ∧
      (∃ b ∈ L.chain i j, s.pins b ≠ 0) ∨ ∃ s' L', lkHaApplyDelete doHash schema root keyValue s = some s' ∧
      Deleted sz root s L i j id k s' L' ∧ Bystanders s L s' L' := by
  obtain ⟨p, hb, hframe, hslot, hinv, he⟩ := lkHaApplyDelete_found hsz hkey h hij hfind
  have ho := h.skeleton.own_chain.mp hb
  rw [he]
  split_ifs with hempty
  · -- The page is empty now: the front of the bucket is cleared, if no page there is pinned.
    obtain ⟨es, rest, hc, hes, hrest⟩ :=
      exists_prefix_rest (fun b => occ ((s.put id p).page b) = ∅) (L.chain i j)
    have hne : L.chain i j ≠ [] := List.ne_nil_of_mem hb
    rw [lkHaClearEmptyPage_eq hinv.skeleton hc hne hes hrest]
    split_ifs with hpins
    · exact Or.inr ⟨_, _, rfl, .of_clear ho hframe hslot hinv hc hne hes hrest,
        (Bystanders.put ho p).trans (hinv.skeleton.bystanders_clear hc hne)⟩
    · refine Or.inl ⟨rfl, ?_, ?_⟩
      · rw [← occ_eq_erase hslot, hempty]
      · push Not at hpins
        obtain ⟨b, hbe, hbp⟩ := hpins
        exact ⟨b, hc ▸ List.mem_append_left rest hbe, hbp⟩
  · exact Or.inr ⟨_, L, rfl, .of_put ho hframe hslot hinv hempty, .put ho p⟩

theorem lkHaApplyDelete_pinned (hsz : 8 ≤ sz) (hkey : schema.HasKey) (h : TableInv sz s root L)
    (hij : hashToSlot (keyValue.getHashValue doHash) = (i, j)) (hc : L.chain i j = [id])
    (hfind : findInChain schema keyValue s (L.chain i j) = some ⟨id, k⟩)
    (hlast : (occ (s.page id)).erase k = ∅) (hpin : s.pins id ≠ 0) :
    lkHaApplyDelete doHash schema root keyValue s = none := by
  obtain ⟨p, hb, hframe, hslot, hinv, he⟩ := lkHaApplyDelete_found hsz hkey h hij hfind
  have hempty : occ p = ∅ := by rw [occ_eq_erase hslot, hlast]
  have hes : ∀ c ∈ [id], occ ((s.put id p).page c) = ∅ := by
    rintro c hcm
    rw [List.mem_singleton.mp hcm, page_put_self hframe, hempty]
  rw [he, if_pos hempty, lkHaClearEmptyPage_eq hinv.skeleton (show L.chain i j = [id] ++ [] from hc)
    (List.ne_nil_of_mem hb) hes (by simp), if_neg fun hpins => hpin (hpins id (by simp))]

end ApplyDelete

end Dawn
