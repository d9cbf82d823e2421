import Dawn.Index.Balance
import Dawn.Index.Overflow
import Dawn.Storage.AnySize

/-!
# When the loop of an insertion ends

`lk_ha_insert_tuple` goes along the pages of a bucket until one takes the tuple, and puts a new page at the
end when none does. A new page is not initialised: it may have no more room than the others, and the bytes
that its frame held may name another page. The loop ends exactly if it comes to a page that takes the tuple, as
the bytes tell that the pages and the frames to be handed out have before (`insert_loop_ends_iff`). It has no
other way out, and a page that it comes to a second time refuses the tuple again.
-/

namespace Dawn

open TablePage PageStore

variable {al : Allocator} {t : Tuple} {s : PageStore} {root i j id : ℤ} {L : Layout}

/-! ## What the loop should do -/

/-- The tuple is stored under a position. -/
structure TupleStored (t : Tuple) (rid : RID) (s : PageStore) : Prop where
  /-- The page exists. -/
  mem : rid.pageId ∈ s.ids
  /-- The slot is one: `insert_tuple` may return the slot number -1. -/
  isSlot : 0 ≤ rid.slotNum
  /-- The bytes are read back. -/
  getTuple_eq : getTuple (s.page rid.pageId) rid = some (Tuple.ofBytes rid t.bytes)

/-- The loop ends, with the tuple stored, or with an error code and the tuples that were stored before. -/
def LoopEnds (al : Allocator) (t : Tuple) (id : ℤ) (s : PageStore) : Prop :=
  ∃ opCode rid s', insertLoop al t id (s.guard (Pi.single id 1) {id}) = some (opCode, rid, s') ∧
    (opCode = opSuccess ∧ TupleStored t rid s' ∨
      opCode ≠ opSuccess ∧ ∀ b ∈ s.ids, slot (s'.page b) = slot (s.page b))

/-- The page takes the tuple: `insert_tuple` stores it in a slot, from where it is read back. -/
def Takes (t : Tuple) (p : Page) : Prop :=
  ∃ rid, (insertTuple p t).1 = some rid ∧ 0 ≤ rid.slotNum ∧
    getTuple (insertTuple p t).2 rid = some (Tuple.ofBytes rid t.bytes)

theorem loopEnds_of_eq {id' : ℤ} {s' : PageStore} (he : insertLoop al t id (s.guard (Pi.single id 1) {id}) =
      insertLoop al t id' (s'.guard (Pi.single id' 1) {id'}))
    (hq : s'.Quiet) (hid : id' ∈ s'.ids) (h : Takes t (s'.page id')) : LoopEnds al t id s := by
  obtain ⟨rid, hrid, hpos, hget⟩ := h
  have hpid : rid.pageId = id' := pageId_of_insertTuple hrid
  refine ⟨_, _, _, he.trans (insertLoop_room hq hid hrid), Or.inl ⟨rfl, ?_, hpos, ?_⟩⟩
  · rw [hpid]
    exact hid
  · rw [hpid, page_put_self (sameFrame_insertTuple _ t), hget]

theorem takes_of_stored {rid : RID} (hrid : (insertTuple (s.page id) t).1 = some rid)
    (h : TupleStored t rid (s.put id (insertTuple (s.page id) t).2)) : Takes t (s.page id) := by
  have hpid : rid.pageId = id := pageId_of_insertTuple hrid
  have hget := h.getTuple_eq
  rw [hpid, page_put_self (sameFrame_insertTuple _ t)] at hget
  exact ⟨rid, hrid, h.isSlot, hget⟩

theorem loopEnds_iff_rounds (hq : s.Quiet) (hid : id ∈ s.ids) : LoopEnds al t id s ↔
    ∃ id' s', Relation.ReflTransGen (Round al t) (id, s) (id', s') ∧ Takes t (s'.page id') := by
  constructor
  · rintro ⟨opCode, rid, s', he, hres⟩
    obtain ⟨id', s'', rid', hrounds, hrid, hr⟩ := exists_rounds hq hid he
    obtain ⟨rfl, rfl, rfl⟩ := hr
    rcases hres with ⟨-, hst⟩ | ⟨hne, -⟩
    · exact ⟨id', s'', hrounds, takes_of_stored hrid hst⟩
    · exact absurd rfl hne
  · rintro ⟨id', s', hrounds, htakes⟩
    obtain ⟨hq', hid', he⟩ := insertLoop_of_rounds hrounds hq hid
    exact loopEnds_of_eq he hq' hid' htakes

/-! ## Pages that are tried twice -/

theorem nextPage_put_refused {b : ℤ} (hfull : (insertTuple (s.page id) t).1 = none) :
    nextPage (s.put id (insertTuple (s.page id) t).2) b = nextPage s b := by
  obtain rfl | hne := eq_or_ne b id
  · rw [nextPage, page_put_self (sameFrame_insertTuple _ t)]
    exact getNextPageId_insertTuple_of_none hfull
  · rw [nextPage, page_put_of_ne _ hne]
    rfl

/-- Some pages have refused the tuple, and each of them names another one of them: a loop that is at one of
them stays there. -/
theorem not_takes_of_caught {V : Set ℤ} {x y : ℤ × PageStore} (hrounds : Relation.ReflTransGen (Round al t) x y)
    (hq : x.2.Quiet) (hx : x.1 ∈ V) (hV : ∀ b ∈ V, Tried t b x.2 ∧ nextPage x.2 b ∈ V) :
    ¬ Takes t (y.2.page y.1) := by
  have hend : y.1 ∈ V ∧ ∀ b ∈ V, Tried t b y.2 ∧ nextPage y.2 b ∈ V := by
    refine rounds_invariant (P := fun y => y.1 ∈ V ∧ ∀ b ∈ V, Tried t b y.2 ∧ nextPage y.2 b ∈ V) hrounds hq
      (hV _ hx).1.1 (fun x y hround hq hid ⟨hx, hV⟩ => ?_) ⟨hx, hV⟩
    have htried := fun b hb => hround.tried hid (hV b hb).1
    cases hround with
    | @next s b next hfull hnext hmem =>
      refine ⟨hnext ▸ (hV b hx).2, fun c hc => ⟨htried c hc, ?_⟩⟩
      rw [nextPage_put_refused hfull]
      exact (hV c hc).2
    | new hfull hnext hp => exact absurd hnext (hq.ne_invalid (hV _ (hV _ hx).2).1.1)
  rintro ⟨rid, hrid, -⟩
  rw [(hend.2 _ hend.1).1.2] at hrid
  cases hrid

/-! ## The bytes before the loop -/

/-- The page that is handed out with the bytes `m` of its frame, once it has been put behind the page `prev`. -/
def handedOut (new prev : ℤ) (m : Bytes) : Page :=
  setPrevPageId (Page.view new ((Page.view invalidPageId m).onAlloc new).data) prev

theorem setPrevPageId_alloc (s : PageStore) (new prev : ℤ) (m : Bytes) :
    setPrevPageId ((s.alloc new m).page new) prev = handedOut new prev m := by
  simp [handedOut, PageStore.page, alloc]

theorem page_addOverflow_self {new : ℤ} (hne : new ≠ id) (m : Bytes) :
    (addOverflow s id new m).page new = handedOut new id m := by
  rw [page_addOverflow hne, if_pos rfl, setPrevPageId_alloc]

/-- Some page takes the tuple, as the bytes tell that the pages of the store and the frames to be handed out have
before the loop. The pages `ids` are in use, `allocs` have been handed out, and the page `p` is tried. Where it
refuses the tuple, the page that it names is tried, if it is in the store and not `tried`, or the next page that
is handed out. -/
inductive Accepted (al : Allocator) (t : Tuple) (s : PageStore) : Finset ℤ → ℕ → Finset ℤ → ℤ → Page → Prop
  | here {ids allocs tried id p} (h : Takes t p) : Accepted al t s ids allocs tried id p
  | next {ids allocs tried id p} (hfull : (insertTuple p t).1 = none) (hmem : getNextPageId p ∈ s.ids)
    (hnew : getNextPageId p ∉ tried) (h : Accepted al t s ids allocs (insert (getNextPageId p) tried)
      (getNextPageId p) (s.page (getNextPageId p))) : Accepted al t s ids allocs tried id p
  | new {ids allocs tried id p new m} (hfull : (insertTuple p t).1 = none) (hlast : getNextPageId p = -1)
    (hp : al.pick ids allocs = some (new, m))
    (h : Accepted al t s (insert new ids) (allocs + 1) tried new (handedOut new id m)) :
    Accepted al t s ids allocs tried id p

/-- The loop is at a page of the store `σ`. The pages of `s` that have not been tried are as they were; the
others, and those that were handed out, have refused the tuple, and name one another or the page of the loop. -/
structure Tracks (t : Tuple) (s : PageStore) (tried : Finset ℤ) (id : ℤ) (σ : PageStore) : Prop where
  quiet : σ.Quiet
  mem : id ∈ σ.ids
  old : s.ids ⊆ σ.ids
  here : id ∈ s.ids → id ∈ tried
  untried : ∀ b ∈ s.ids, b ∉ tried → σ.page b = s.page b
  refused : ∀ b ∈ σ.ids, (b ∈ s.ids → b ∈ tried) → b ≠ id →
    Tried t b σ ∧ nextPage σ b ∈ σ.ids ∧ (nextPage σ b ∈ s.ids → nextPage σ b ∈ tried)

namespace Tracks

variable {σ : PageStore} {tried : Finset ℤ} (h : Tracks t s tried id σ)
include h

theorem ne_of_untried {b : ℤ} (hb : b ∈ s.ids) (hbt : b ∉ tried) : b ≠ id := by
  rintro rfl
  exact hbt (h.here hb)

theorem ne_of_pick {new : ℤ} {m : Bytes} (hp : al.pick σ.ids σ.allocs = some (new, m)) : new ≠ id := by
  rintro rfl
  exact (al.fresh hp).1 h.mem

variable (hfull : (insertTuple (σ.page id) t).1 = none)
include hfull

theorem next (hmem : nextPage σ id ∈ s.ids) (hnew : nextPage σ id ∉ tried) :
    Tracks t s (insert (nextPage σ id) tried) (nextPage σ id) (σ.put id (insertTuple (σ.page id) t).2) := by
  refine ⟨h.quiet.put _ _, h.old hmem, h.old, fun _ => Finset.mem_insert_self _ _, fun b hb hbt => ?_,
    fun b hb hbt hne => ?_⟩
  · rw [Finset.mem_insert, not_or] at hbt
    rw [page_put_of_ne _ (h.ne_of_untried hb hbt.2), h.untried b hb hbt.2]
  · have hbt' : b ∈ s.ids → b ∈ tried := fun hs => (Finset.mem_insert.mp (hbt hs)).resolve_left hne
    rw [nextPage_put_refused hfull]
    obtain rfl | hbid := eq_or_ne b id
    · have htried : Tried t b σ := ⟨h.mem, hfull⟩
      exact ⟨htried.insert b, h.old hmem, fun _ => Finset.mem_insert_self _ _⟩
    · obtain ⟨htried, hids, hback⟩ := h.refused b hb hbt' hbid
      exact ⟨htried.insert id, hids, fun hs => Finset.mem_insert_of_mem (hback hs)⟩

theorem new {new : ℤ} {m : Bytes} (hlast : nextPage σ id = -1) (hp : al.pick σ.ids σ.allocs = some (new, m)) :
    Tracks t s tried new (addOverflow (σ.put id (insertTuple (σ.page id) t).2) id new m) := by
  have hround : Round al t (id, σ) _ := .new hfull hlast hp
  obtain ⟨hfresh, h0, hlt⟩ := al.fresh hp
  have hpage := page_addOverflow (s := σ.put id (insertTuple (σ.page id) t).2) (m := m) (h.ne_of_pick hp)
  obtain ⟨hq, hmem⟩ := hround.ready h.quiet
  refine ⟨hq, hmem, fun b hb => Finset.mem_insert_of_mem (h.old hb),
    fun hs => absurd (h.old hs) hfresh, fun b hb hbt => ?_, fun b hb hbt hne => ?_⟩
  · have hbid := h.ne_of_untried hb hbt
    have hbn : b ≠ new := fun e => hfresh (e ▸ h.old hb)
    rw [hpage, if_neg hbn, if_neg hbid, page_put_of_ne _ hbid, h.untried b hb hbt]
  · have hb' : b ∈ σ.ids := (Finset.mem_insert.mp hb).resolve_left hne
    obtain rfl | hbid := eq_or_ne b id
    · have hnext : nextPage (addOverflow (σ.put b (insertTuple (σ.page b) t).2) b new m) b = new := by
        rw [nextPage, hpage, if_neg hne, if_pos rfl, getNextPageId_setNextPageId _ ⟨by omega, hlt⟩]
      rw [hnext]
      exact ⟨hround.tried h.mem ⟨hb', hfull⟩, Finset.mem_insert_self _ _, fun hs => absurd (h.old hs) hfresh⟩
    · obtain ⟨htried, hids, hback⟩ := h.refused b hb' hbt hbid
      rw [nextPage, hpage, if_neg hne, if_neg hbid, page_put_of_ne _ hbid]
      exact ⟨hround.tried h.mem htried, Finset.mem_insert_of_mem hids, hback⟩

theorem caught {y : ℤ × PageStore} (hmem : nextPage σ id ∈ σ.ids)
    (hback : nextPage σ id ∈ s.ids → nextPage σ id ∈ tried)
    (hrounds : Relation.ReflTransGen (Round al t) (id, σ) y) : ¬ Takes t (y.2.page y.1) := by
  refine not_takes_of_caught (V := {b | b ∈ σ.ids ∧ (b ∈ s.ids → b ∈ tried)}) hrounds h.quiet ⟨h.mem, h.here⟩ ?_
  rintro b ⟨hb, hbt⟩
  obtain rfl | hbid := eq_or_ne b id
  · exact ⟨⟨hb, hfull⟩, hmem, hback⟩
  · exact h.refused b hb hbt hbid

omit hfull

theorem accepted {y : ℤ × PageStore} (hrounds : Relation.ReflTransGen (Round al t) (id, σ) y)
    (htakes : Takes t (y.2.page y.1)) : Accepted al t s σ.ids σ.allocs tried id (σ.page id) := by
  generalize hx : (id, σ) = x at hrounds
  induction hrounds using Relation.ReflTransGen.head_induction_on generalizing id σ tried with
  | refl =>
    subst hx
    exact .here htakes
  | head hround hrest ih =>
    cases hround with
    | next hfull hnext hmem =>
      cases hx
      subst hnext
      by_cases hback : nextPage σ id ∈ s.ids → nextPage σ id ∈ tried
      · exact absurd htakes (h.caught hfull hmem hback (.head (.next hfull rfl hmem) hrest))
      · rw [Classical.not_imp] at hback
        have hacc := ih (h.next hfull hback.1 hback.2) rfl
        rw [page_put_of_ne _ (h.ne_of_untried hback.1 hback.2), h.untried _ hback.1 hback.2] at hacc
        exact .next hfull hback.1 hback.2 hacc
    | new hfull hlast hp =>
      cases hx
      have hacc := ih (h.new hfull hlast hp) rfl
      rw [page_addOverflow_self (h.ne_of_pick hp)] at hacc
      exact .new hfull hlast hp hacc

theorem exists_rounds_of_accepted {ids : Finset ℤ} {allocs : ℕ} {p : Page}
    (hacc : Accepted al t s ids allocs tried id p) (hids : σ.ids = ids) (hallocs : σ.allocs = allocs)
    (hpage : σ.page id = p) :
    ∃ id' s', Relation.ReflTransGen (Round al t) (id, σ) (id', s') ∧ Takes t (s'.page id') := by
  induction hacc generalizing σ with
  | here htakes => exact ⟨_, σ, .refl, hpage ▸ htakes⟩
  | next hfull hmem hnew _ ih =>
    subst hids hallocs hpage
    obtain ⟨id', s', hrounds, htakes⟩ := ih (h.next hfull hmem hnew) rfl rfl (by
      rw [← h.untried _ hmem hnew]
      exact page_put_of_ne _ (h.ne_of_untried hmem hnew))
    exact ⟨id', s', .head (.next hfull rfl (h.old hmem)) hrounds, htakes⟩
  | new hfull hlast hp _ ih =>
    subst hids hallocs hpage
    obtain ⟨id', s', hrounds, htakes⟩ := ih (h.new hfull hlast hp) rfl rfl
      (page_addOverflow_self (h.ne_of_pick hp) _)
    exact ⟨id', s', .head (.new hfull hlast hp) hrounds, htakes⟩

theorem loopEnds_iff : LoopEnds al t id σ ↔ Accepted al t s σ.ids σ.allocs tried id (σ.page id) := by
  rw [loopEnds_iff_rounds h.quiet h.mem]
  exact ⟨fun ⟨_, _, hrounds, htakes⟩ => h.accepted hrounds htakes,
    fun hacc => h.exists_rounds_of_accepted hacc rfl rfl rfl⟩

end Tracks

/-! ## Frames that read as unused pages -/

/-- The page reads as one that has been initialised and that nothing has been inserted into. -/
structure Unused (p : Page) : Prop where
  /-- There is no slot. -/
  count_eq : getTupleCount p = 0
  /-- No tuple is stored. -/
  fsp_eq : getFreeSpacePointer p = 4096
  /-- There is no next page. -/
  next_eq : getNextPageId p = -1

theorem unused_init (p : Page) (prev : ℤ) : Unused (TablePage.init p prev (-1)) :=
  ⟨getTupleCount_init p, getFreeSpacePointer_init p, getNextPageId_init _ (by norm_num [IsI32])⟩

/-- The frames of new pages held pages that had been initialised. -/
def Allocator.Unused (al : Allocator) : Prop :=
  ∀ ⦃ids k new m⦄, al.pick ids k = some (new, m) → Dawn.Unused (Page.view invalidPageId m)

theorem Unused.takes {p : Page} (h : Unused p) (hs : 1 ≤ t.size) (hfit : t.size ≤ 3944) : Takes t p := by
  have hocc : occ p = ∅ := Finset.eq_empty_iff_forall_notMem.mpr fun k hk => by
    have := (mem_occ.mp hk).1
    rw [h.count_eq] at this
    omega
  have hready : Ready t.size p := ⟨h.count_eq.ge, hocc, h.fsp_eq, by rw [h.count_eq]; omega⟩
  obtain ⟨k, hrid, -, hslot⟩ := hready.insertTuple (by omega)
  refine ⟨_, hrid, Int.natCast_nonneg k, ?_⟩
  rw [getTuple_eq, hslot, Function.update_self]
  rfl

theorem Unused.refuses {p : Page} (h : Unused p) (hbig : 3944 < t.size) : (insertTuple p t).1 = none := by
  have hfree : getFreeSpace p = 3952 := by
    rw [getFreeSpace_eq, h.fsp_eq, h.count_eq]
    norm_num
  rcases getEmptySlot_cases p with ⟨k, -, hk, -⟩ | ⟨-, ⟨hlt, -⟩ | ⟨-, he⟩⟩
  · rw [h.count_eq] at hk
    omega
  · omega
  · rw [h.count_eq] at he
    obtain ⟨hc, hfsp, -⟩ := setTupleCount_records p (c := 0 + 1) (by norm_num [IsI32])
    have hfree' : getFreeSpace (setTupleCount p (0 + 1)) < t.size := by
      rw [getFreeSpace_eq, hc, hfsp, h.fsp_eq]
      omega
    simp only [insertTuple, he, if_pos hfree']

theorem Unused.handedOut {new : ℤ} {m : Bytes} (h : Unused (Page.view invalidPageId m)) (prev : ℤ) :
    Unused (handedOut new prev m) := by
  rw [← setPrevPageId_alloc newTable]
  obtain ⟨hc, hf, -⟩ := records_eq_of_tail fun k (hk : 72 ≤ k) => overflow_data (m := m) newTable new prev (by omega)
  have hnext := getNextPageId_overflow newTable new prev m
  exact ⟨hc.trans h.count_eq, hf.trans h.fsp_eq, hnext.trans h.next_eq⟩

theorem Round.unused {x y : ℤ × PageStore} (h : Round al t x y) (hal : al.Unused) (hq : x.2.Quiet)
    (hid : x.1 ∈ x.2.ids) (hx : Unused (x.2.page x.1)) : Unused (y.2.page y.1) := by
  cases h with
  | next hfull hnext hmem => exact absurd (hnext.symm.trans hx.next_eq) (hq.ne_invalid hmem)
  | new hfull hnext hp =>
    rw [page_addOverflow_self fun e => (al.fresh hp).1 (by rw [e]; exact hid)]
    exact (hal hp).handedOut _

theorem not_loopEnds_of_unused (hal : al.Unused) (hbig : 3944 < t.size) (hq : s.Quiet) (hid : id ∈ s.ids)
    (hpage : Unused (s.page id)) {r : ℤ × RID × PageStore} :
    insertLoop al t id (s.guard (Pi.single id 1) {id}) ≠ some r := by
  intro h
  obtain ⟨id', s', rid, hrounds, hrid, -⟩ := exists_rounds hq hid h
  -- Every page that the loop comes to is unused.
  have hinv : Unused (s'.page id') := rounds_invariant (P := fun y => Unused (y.2.page y.1)) hrounds hq hid
    (fun _ _ hround hq' hid' => hround.unused hal hq' hid') hpage
  rw [hinv.refuses hbig] at hrid
  cases hrid

/-- The loop ends exactly if a page takes the tuple, among those that are tried one after the other: the first
page of the bucket, the pages that it leads to, and those that are handed out. The error code of a page that
cannot be had is never returned. -/
theorem insert_loop_ends_iff (hS : Skeleton s root L) (hne : L.chain i j ≠ []) :
    LoopEnds al t (headOr (-1) (L.chain i j)) s ↔ Accepted al t s s.ids s.allocs {headOr (-1) (L.chain i j)}
      (headOr (-1) (L.chain i j)) (s.page (headOr (-1) (L.chain i j))) :=
  Tracks.loopEnds_iff ⟨hS.quiet, hS.chain_mem (headOr_mem hne), fun _ hb => hb,
    fun _ => Finset.mem_singleton_self _, fun _ _ _ => rfl,
    fun _ hb hbt hnid => absurd (Finset.mem_singleton.mp (hbt hb)) hnid⟩

theorem unused_initFrames : initFrames.Unused := by
  intro ids k new m hp
  simp only [initFrames, Allocator.firstFree] at hp
  split_ifs at hp
  cases hp
  exact unused_init (Page.view invalidPageId fun _ => 0) (-1)

/-- A tuple that fills a page gets a new page when the other one is full. -/
theorem insert_loop_ends_iff_wide : ∃ (s : PageStore) (L : Layout) (id : ℤ), L.chain 0 0 = [id] ∧
    (insertTuple (s.page id) (wideTuple 2)).1 = none ∧ LoopEnds initFrames (wideTuple 2) id s := by
  obtain ⟨s, L, h, id, hchain⟩ := exists_fullFor fun _ => initFrame
  have hc : L.chain 0 0 = [id] := hchain
  have hS := h.inv.skeleton
  have hfull := h.full id (by simp [hchain])
  have hlink := hS.linked 0 0
  rw [hc] at hlink
  obtain ⟨new, hp⟩ := exists_pick initFrame (h.card.trans_lt (by norm_num)) s.allocs
  have hends : _ → LoopEnds initFrames (wideTuple 2) (headOr (-1) (L.chain 0 0)) s :=
    (insert_loop_ends_iff hS (show L.chain 0 0 ≠ [] by simp [hc])).mpr
  rw [hc] at hends
  exact ⟨s, L, id, hc, hfull, hends (.new hfull hlink.1 hp (.here (((unused_initFrames hp).handedOut _).takes
    (by rw [wideTuple_size]; norm_num) (wideTuple_size 2).le)))⟩

/-! ## A tuple that no page takes -/

theorem TableInv.insertNew_first {sz : ℤ} (h : TableInv sz s root L) (hsz : 8 ≤ sz) (hal : al.Correct)
    (hcard : s.ids.card + 2 ≤ 2^31) (hi : LinkHashPage.IsSlot i) (hj : LinkHashPage.IsSlot j)
    (hnil : L.chain i j = []) :
    ∃ hd s' L' p, Skeleton s' root L' ∧ L'.chain i j = [hd] ∧ s'.page hd = TablePage.init p (-1) (-1) ∧
      insertNew al root i j t s = insertLoop al t hd (s'.guard (Pi.single hd 1) {hd}) := by
  rcases h.childPage_second al hi with ⟨hp, -⟩ | ⟨s1, L1, he, h1, -, hsec, hch1, hcard1, -⟩
  · have := hal s.ids s.allocs (by omega)
    simp [hp] at this
  have hS := h1.skeleton
  have hmem := hS.second_mem hsec
  have hnil1 : L1.chain i j = [] := by rw [hch1, hnil]
  have hhead := hS.head j hsec
  rw [hnil1, headOr_nil] at hhead
  obtain ⟨⟨hd, m⟩, hp⟩ := Option.isSome_iff_exists.mp (hal s1.ids s1.allocs (by omega))
  have h2 := (h1.addFirst hsz hj hsec hnil1 hp).1.skeleton
  have hne : hd ≠ secondPage s1 root i := fun e => (al.fresh hp).1 (e ▸ hmem)
  have hchild := childPage_of_invalid hS.quiet hmem (TablePage.init · invalidPageId invalidPageId) hhead hp
  have hchain : (L1.addPage i j hd).chain i j = [hd] := by
    rw [Layout.addPage_chain_self, hnil1]
    rfl
  have hhd := h2.chain_mem (show hd ∈ (L1.addPage i j hd).chain i j by simp [hchain])
  refine ⟨hd, _, _, (s1.alloc hd m).page hd, h2, hchain, ?_, ?_⟩
  · have hself : ((s1.alloc hd m).put hd (TablePage.init ((s1.alloc hd m).page hd) (-1) (-1))).page hd =
        TablePage.init ((s1.alloc hd m).page hd) (-1) (-1) := page_put_self (Page.SameFrame.data _ _)
    rw [addChild, page_put_of_ne _ hne, hself]
  · simp only [insertNew, some_bind, h.skeleton.quiet.getPage h.skeleton.root_mem, he, hchild]
    exact congrArg (Option.bind · _) (wLock_guard (h2.quiet.free _ hhd) (Finset.notMem_empty _))

/-- A table of an integer, the key, and a string that is longer than a page has room for. -/
def hugeSchema : Schema where
  columns := [.ofType .kInteger [107] 0, .ofChar [118] 4 4000]

/-- A tuple of that table. -/
def hugeTuple (key : ℤ) : Tuple :=
  Tuple.ofBytes ⟨-1, -1⟩ (Bytes.toLE4 key ++ List.replicate 4000 0)

theorem hugeTuple_size (key : ℤ) : (hugeTuple key).size = 4004 := by
  rw [hugeTuple, Tuple.ofBytes_size, List.length_append, List.length_replicate]
  rfl

/-- The first insertion into a table whose tuples are too large for a page does not return, with a buffer pool
that always has a page. -/
theorem insert_of_large_tuple_loops : initFrames.Correct ∧ ∃ hd s L, Skeleton s 0 L ∧ L.chain 0 0 = [hd] ∧
    ¬ LoopEnds initFrames (hugeTuple 1) hd s ∧
    lkHaInsertTuple initFrames (fun _ => 0) hugeSchema 0 (hugeTuple 1) newTable = none := by
  have hcorrect : initFrames.Correct := Allocator.firstFree_correct _
  have hinv := tableInv_newTable 8
  have hslot : LinkHashPage.IsSlot 0 := ⟨le_rfl, by decide⟩
  obtain ⟨hd, s, L, p, hS, hc, hpage, he⟩ := hinv.insertNew_first (t := hugeTuple 1) le_rfl hcorrect (by decide)
    hslot hslot rfl
  have hloop : ∀ r, insertLoop initFrames (hugeTuple 1) hd (s.guard (Pi.single hd 1) {hd}) ≠ some r := fun r =>
    not_loopEnds_of_unused unused_initFrames (by rw [hugeTuple_size]; norm_num) hS.quiet
      (hS.chain_mem (show hd ∈ L.chain 0 0 by simp [hc])) (hpage ▸ unused_init p (-1))
  refine ⟨hcorrect, hd, s, L, hS, hc, ?_, ?_⟩
  · rintro ⟨opCode, rid, s', h, -⟩
    exact hloop _ h
  have hkey : hugeSchema.HasKey := ⟨_, rfl, by decide, by decide⟩
  have hcheck := lkHaCheckDuplicateKey_eq (fun _ => 0) hkey hinv.skeleton (.integer 1) (hinv.searchable _ _)
  rw [lkHaInsertTuple_of_none (show keyOf hugeSchema (hugeTuple 1).bytes = some (.integer 1) by decide) hcheck
    (show _ = (0, 0) by decide), he, Option.eq_none_iff_forall_ne_some.mpr hloop]
  rfl

end Dawn
