import Dawn.Index.Buckets
import Dawn.Lib.Trace

/-!
# Insertions by several clients

Clients that call `lk_ha_insert_tuple` on one table at the same time. A client's step is one call of
`BufferPoolManager`, or one section that it executes under the latch of a page; between two steps of a
client the others take theirs, and what the client has read before may not be so any more. A client that
is not interrupted does what the function does (`Runs.of_lkHaInsertTuple`).

Two things are done in one step since no other client can tell: a page that has just been handed out is
initialised before anybody else knows it, and the section of a page that is put behind the last page of
a bucket begins before the section of that one ends.
-/

namespace Dawn

open TablePage PageStore

/-- A call of `lk_ha_insert_tuple`. -/
structure InsertCall (schema : Schema) where
  /-- The tuple that is to be stored. -/
  tuple : Tuple
  /-- Its key. -/
  keyValue : Value
  /-- The key is that of the tuple. -/
  keyValue_eq : keyOf schema tuple.bytes = some keyValue

/-- The two levels of `LinkHashPage`. -/
inductive Level where
  | first
  | second
  deriving DecidableEq, Repr

/-- How a page is initialised that is put into a slot of a page of the level. -/
def Level.init : Level → Page → Page
  | .first => LinkHashPage.init
  | .second => (TablePage.init · invalidPageId invalidPageId)

/-- Where a call is: what it does next. -/
inductive InsertPc where
  /-- `lk_ha_check_duplicate_key` gets a page of the first two levels. -/
  | checkGet (level : Level) (pageId : ℤ)
  /-- It reads the slot of the key. -/
  | checkSlot (level : Level) (pageId : ℤ)
  /-- It unpins the page; the slot held `childId`. -/
  | checkUnpin (level : Level) (pageId childId : ℤ)
  /-- It gets a table page. -/
  | pageGet (pageId : ℤ)
  /-- It looks for the key in the page. -/
  | pageSearch (pageId : ℤ)
  /-- It unpins the page. -/
  | pageUnpin (pageId : ℤ) (result : PageSearch)
  /-- `lk_ha_insert_tuple` gets the first page. -/
  | firstGet
  /-- It reads the slot of the key. -/
  | slotRead (level : Level) (pageId : ℤ)
  /-- It gets the page in the slot, or a new one; the slot held `childId`. -/
  | childGet (level : Level) (pageId childId : ℤ)
  /-- It puts the new page into the slot. -/
  | childLink (level : Level) (pageId childId : ℤ)
  /-- It unpins the page that has the slot, which it may have written. -/
  | parentUnpin (level : Level) (pageId childId : ℤ) (dirty : Bool)
  /-- It tries to store the tuple in a table page. -/
  | store (pageId : ℤ)
  /-- It unpins the page, where it has stored the tuple or from where it goes to the next page. -/
  | storeUnpin (pageId : ℤ) (nextPageId : Option ℤ)
  /-- It has returned. -/
  | done (opCode : ℤ)
  deriving DecidableEq, Repr

section Step

variable (al : Allocator) (doHash : List UInt8 → UInt64) {schema : Schema} (firstPageId : ℤ)

/-- The slot of the key in a page of the level. -/
def InsertCall.slotNum (call : InsertCall schema) : Level → ℤ
  | .first => (hashToSlot (call.keyValue.getHashValue doHash)).1
  | .second => (hashToSlot (call.keyValue.getHashValue doHash)).2

/-- What `lk_ha_insert_tuple` does under the latch of a table page, and under that of a page that it
puts behind it. -/
def insertSection (tuple : Tuple) (pageId : ℤ) (s : PageStore) : Option (InsertPc × PageStore) :=
  let (rid, p) := insertTuple (s.page pageId) tuple
  let s := s.put pageId p
  match rid with
  | some _ => some (.storeUnpin pageId none, s.wUnlock pageId)
  | none =>
    let nextPageId := getNextPageId (s.page pageId)
    if nextPageId = invalidPageId then
      match s.newPage al with
      | (none, s) => do
        let s ← s.unpinPage pageId false
        some (.done newPgFail, s)
      | (some newPageId, s) => do
        let s ← s.wLock newPageId
        let s := s.put pageId (setNextPageId (s.page pageId) newPageId)
        let s := s.put newPageId (setPrevPageId (s.page newPageId) pageId)
        let s ← (s.wUnlock pageId).unpinPage pageId true
        (by apply insertSection : Tuple → ℤ → PageStore → _) tuple newPageId s
    else do
      let s ← s.getPage nextPageId
      some (.storeUnpin pageId (some nextPageId), s.wUnlock pageId)
partial_fixpoint

/-- A step of a call. -/
def InsertPc.next (call : InsertCall schema) (s : PageStore) :
    InsertPc → Option (InsertPc × PageStore)
  | .checkGet level pageId => do
    let s ← s.getPage pageId
    some (.checkSlot level pageId, s)
  | .checkSlot level pageId => do
    let s ← s.rLock pageId
    let childId := LinkHashPage.getPgidInSlot (s.page pageId) (call.slotNum doHash level)
    some (.checkUnpin level pageId childId, s.rUnlock pageId)
  | .checkUnpin level pageId childId => do
    let s ← s.unpinPage pageId false
    match level with
    | .first => some (if childId = invalidPageId then .firstGet else .checkGet .second childId, s)
    | .second => some (if childId = invalidPageId then .firstGet else .pageGet childId, s)
  | .pageGet pageId => do
    let s ← s.getPage pageId
    some (.pageSearch pageId, s)
  | .pageSearch pageId => do
    let s ← s.rLock pageId
    let result ← searchPage schema call.keyValue (s.page pageId)
    some (.pageUnpin pageId result, s.rUnlock pageId)
  | .pageUnpin pageId result => do
    let s ← s.unpinPage pageId false
    match result with
    | .empty => some (.firstGet, s)
    | .found _ => some (.done dupKey, s)
    | .absent nextPageId =>
      some (if nextPageId = invalidPageId then .firstGet else .pageGet nextPageId, s)
  | .firstGet => do
    let s ← s.getPage firstPageId
    some (.slotRead .first firstPageId, s)
  | .slotRead level pageId => do
    let s ← s.rLock pageId
    let childId := LinkHashPage.getPgidInSlot (s.page pageId) (call.slotNum doHash level)
    some (.childGet level pageId childId, s.rUnlock pageId)
  | .childGet level pageId childId =>
    if childId = invalidPageId then
      match s.newPage al with
      | (none, _) => none
      | (some childId, s) =>
        some (.childLink level pageId childId, s.put childId (level.init (s.page childId)))
    else do
      let s ← s.getPage childId
      some (.parentUnpin level pageId childId false, s)
  | .childLink level pageId childId => do
    let s ← s.wLock pageId
    let s := s.put pageId
      (LinkHashPage.setPgidInSlot (s.page pageId) (call.slotNum doHash level) childId)
    some (.parentUnpin level pageId childId true, s.wUnlock pageId)
  | .parentUnpin level pageId childId dirty => do
    let s ← s.unpinPage pageId dirty
    match level with
    | .first => some (.slotRead .second childId, s)
    | .second => some (.store childId, s)
  | .store pageId => do
    let s ← s.wLock pageId
    insertSection al call.tuple pageId s
  | .storeUnpin pageId none => do
    let s ← s.unpinPage pageId true
    some (.done opSuccess, s)
  | .storeUnpin pageId (some nextPageId) => do
    let s ← s.unpinPage pageId false
    some (.store nextPageId, s)
  | .done _ => none

end Step

/-! ## A call that is not interrupted -/

section Alone

variable {al : Allocator} {doHash : List UInt8 → UInt64} {schema : Schema} {root : ℤ}
  {call : InsertCall schema} {s s' : PageStore}

/-- A call goes from one point to another while the other clients wait. -/
def Runs (al : Allocator) (doHash : List UInt8 → UInt64) (root : ℤ) (call : InsertCall schema) :
    InsertPc × PageStore → InsertPc × PageStore → Prop :=
  Relation.ReflTransGen fun x y => x.1.next al doHash root call x.2 = some y

theorem Runs.head {x y z : InsertPc × PageStore} (h : x.1.next al doHash root call x.2 = some y)
    (h' : Runs al doHash root call y z) : Runs al doHash root call x z :=
  Relation.ReflTransGen.head h h'

theorem PageStore.inspect_eq_some {α : Type} {look : Page → α} {id : ℤ} {a : α} :
    s.inspect id look = some (a, s') ↔ ∃ s1 s2, s.getPage id = some s1 ∧ s1.rLock id = some s2 ∧
      look (s2.page id) = a ∧ (s2.rUnlock id).unpinPage id false = some s' := by
  simp only [inspect, inspectBy, bind_eq_some, Option.some.injEq, Prod.mk.injEq]
  constructor
  · rintro ⟨s1, h1, s2, h2, s3, h3, ha, rfl⟩
    exact ⟨s1, s2, h1, h2, ha, h3⟩
  · rintro ⟨s1, s2, h1, h2, ha, h3⟩
    exact ⟨s1, h1, s2, h2, s', h3, ha, rfl⟩

theorem Runs.searchChain {id : ℤ} {r : Option RID × PageStore} (h : searchChain schema call.keyValue id s = some r) :
    Runs al doHash root call (if id = invalidPageId then .firstGet else .pageGet id, s)
      (if r.1.isSome then .done dupKey else .firstGet, r.2) := by
  -- The induction is on the rounds of the loop.
  refine searchChain.partial_correctness schema call.keyValue (fun id s r =>
    Runs al doHash root call (if id = invalidPageId then .firstGet else .pageGet id, s)
      (if r.1.isSome then .done dupKey else .firstGet, r.2)) ?_ id s r h
  intro loop ih id s r h
  split_ifs at h with hid
  · cases h
    rw [if_pos hid]
    exact Relation.ReflTransGen.refl
  · simp only [bind_eq_some] at h
    obtain ⟨⟨_, s'⟩, hins, result, rfl, h⟩ := h
    obtain ⟨s1, s2, h1, h2, h3, h4⟩ := inspect_eq_some.mp hins
    rw [if_neg hid]
    refine Runs.head (y := (.pageSearch id, s1)) (by simp [InsertPc.next, h1]) ?_
    refine Runs.head (y := (.pageUnpin id result, s2.rUnlock id)) (by simp [InsertPc.next, h2, h3]) ?_
    cases result with
    | empty =>
      cases h
      exact Runs.head (by simp [InsertPc.next, h4]) Relation.ReflTransGen.refl
    | found rid =>
      cases h
      exact Runs.head (by simp [InsertPc.next, h4]) Relation.ReflTransGen.refl
    | absent nextPageId =>
      exact Runs.head (by simp [InsertPc.next, h4]) (ih nextPageId s' r h)

theorem Runs.check {r : Option RID} (h : lkHaCheckDuplicateKey doHash schema root call.keyValue s = some (r, s')) :
    Runs al doHash root call (.checkGet .first root, s) (if r.isSome then .done dupKey else .firstGet, s') := by
  simp only [lkHaCheckDuplicateKey, Option.bind_eq_bind, Option.bind_eq_some_iff] at h
  obtain ⟨⟨second, s1⟩, hins, h⟩ := h
  obtain ⟨s2, s3, h1, h2, h3, h4⟩ := inspect_eq_some.mp hins
  refine Runs.head (y := (.checkSlot .first root, s2)) (by simp [InsertPc.next, h1]) ?_
  refine Runs.head (y := (.checkUnpin .first root second, s3.rUnlock root))
    (by simp [InsertPc.next, InsertCall.slotNum, h2, h3]) ?_
  refine Runs.head (y := (if second = invalidPageId then .firstGet else .checkGet .second second, s1))
    (by simp [InsertPc.next, h4]) ?_
  by_cases hs : second = invalidPageId
  · rw [if_pos hs] at h ⊢
    cases h
    exact Relation.ReflTransGen.refl
  · rw [if_neg hs] at h ⊢
    simp only [Option.bind_eq_some_iff] at h
    obtain ⟨⟨third, s4⟩, hins, h⟩ := h
    obtain ⟨s5, s6, h5, h6, h7, h8⟩ := inspect_eq_some.mp hins
    refine Runs.head (y := (.checkSlot .second second, s5)) (by simp [InsertPc.next, h5]) ?_
    refine Runs.head (y := (.checkUnpin .second second third, s6.rUnlock second))
      (by simp [InsertPc.next, InsertCall.slotNum, h6, h7]) ?_
    refine Runs.head (y := (if third = invalidPageId then .firstGet else .pageGet third, s4))
      (by simp [InsertPc.next, h8]) ?_
    exact Runs.searchChain h

theorem Runs.childPage {level : Level} {id child : ℤ}
    (h : childPage al id (call.slotNum doHash level) level.init s = some (child, s')) :
    Runs al doHash root call (.slotRead level id, s)
      (match level with | .first => .slotRead .second child | .second => .store child, s') := by
  simp only [Dawn.childPage, Option.bind_eq_bind, Option.bind_eq_some_iff] at h
  obtain ⟨s1, h1, h⟩ := h
  refine Runs.head (y := (.childGet level id
    (LinkHashPage.getPgidInSlot (s1.page id) (call.slotNum doHash level)), s1.rUnlock id))
    (by simp [InsertPc.next, h1]) ?_
  generalize LinkHashPage.getPgidInSlot (s1.page id) (call.slotNum doHash level) = slot at h ⊢
  generalize s1.rUnlock id = s2 at h ⊢
  split_ifs at h with hs
  · rcases hn : s2.newPage al with ⟨_ | new, s3⟩
    · simp [hn] at h
    · simp only [hn, Option.bind_eq_some_iff, Option.some.injEq, Prod.mk.injEq] at h
      obtain ⟨s4, h4, s5, h5, rfl, rfl⟩ := h
      refine Runs.head (y := (.childLink level id new, s3.put new (level.init (s3.page new))))
        (by simp [InsertPc.next, hs, hn]) ?_
      refine Runs.head (y := (.parentUnpin level id new true, (s4.put id (LinkHashPage.setPgidInSlot
        (s4.page id) (call.slotNum doHash level) new)).wUnlock id)) (by simp [InsertPc.next, h4]) ?_
      refine Runs.head ?_ Relation.ReflTransGen.refl
      cases level <;> simp only [InsertPc.next, h5, Option.bind_eq_bind, Option.bind_some]
  · simp only [Option.bind_eq_some_iff, Option.some.injEq, Prod.mk.injEq] at h
    obtain ⟨s3, h3, s4, h4, rfl, rfl⟩ := h
    refine Runs.head (y := (.parentUnpin level id slot false, s3)) (by
      simp only [InsertPc.next, if_neg hs, h3, Option.bind_eq_bind, Option.bind_some]) ?_
    refine Runs.head ?_ Relation.ReflTransGen.refl
    cases level <;> simp only [InsertPc.next, h4, Option.bind_eq_bind, Option.bind_some]

theorem Runs.insertLoop {id : ℤ} {r : ℤ × RID × PageStore}
    (h : insertLoop al call.tuple id s = some r) : ∃ x, insertSection al call.tuple id s = some x ∧
      Runs al doHash root call x (.done r.1, r.2.2) := by
  refine insertLoop.partial_correctness al call.tuple (fun id s r =>
    ∃ x, insertSection al call.tuple id s = some x ∧ Runs al doHash root call x (.done r.1, r.2.2))
    ?_ id s r h
  intro loop ih id s r h
  rw [insertSection]
  rcases hi : insertTuple (s.page id) call.tuple with ⟨_ | rid, p⟩
  · simp only [hi] at h ⊢
    generalize s.put id p = s1 at h ⊢
    split_ifs at h ⊢ with hn
    · rcases hnew : s1.newPage al with ⟨_ | new, s2⟩
      · simp only [hnew, bind_eq_some, Option.some.injEq] at h
        obtain ⟨s3, h3, rfl⟩ := h
        exact ⟨_, by simp only [h3, some_bind],
          Relation.ReflTransGen.refl⟩
      · simp only [hnew, bind_eq_some] at h
        obtain ⟨s3, h3, s4, h4, h⟩ := h
        obtain ⟨x, hx, hr⟩ := ih new s4 r h
        exact ⟨x, by simp only [h3, h4, hx, some_bind], hr⟩
    · simp only [bind_eq_some] at h
      obtain ⟨s2, h2, s3, h3, s4, h4, h⟩ := h
      obtain ⟨x, hx, hr⟩ := ih _ s4 r h
      refine ⟨(.storeUnpin id (some (getNextPageId (s1.page id))), s2.wUnlock id), by simp only [h2, some_bind], ?_⟩
      refine Runs.head (y := (.store (getNextPageId (s1.page id)), s3)) (by
        simp [InsertPc.next, h3]) ?_
      exact Runs.head (by simpa [InsertPc.next, h4] using hx) hr
  · simp only [hi, bind_eq_some, Option.some.injEq] at h ⊢
    obtain ⟨s1, h1, rfl⟩ := h
    exact ⟨_, rfl, Runs.head (by simp [InsertPc.next, h1]) Relation.ReflTransGen.refl⟩

theorem Runs.insertNew {r : ℤ × RID × PageStore}
    (h : insertNew al root (call.slotNum doHash .first) (call.slotNum doHash .second) call.tuple s =
      some r) : Runs al doHash root call (.firstGet, s) (.done r.1, r.2.2) := by
  simp only [Dawn.insertNew, bind_eq_some] at h
  obtain ⟨s1, h1, ⟨second, s2⟩, h2, ⟨third, s3⟩, h3, s4, h4, h⟩ := h
  refine Runs.head (y := (.slotRead .first root, s1)) (by simp [InsertPc.next, h1]) ?_
  have h2' : Dawn.childPage al root (call.slotNum doHash .first) Level.first.init s1 = _ := h2
  have h3' : Dawn.childPage al second (call.slotNum doHash .second) Level.second.init s2 = _ := h3
  refine (Runs.childPage h2').trans ((Runs.childPage h3').trans ?_)
  obtain ⟨x, hx, hr⟩ : ∃ x, insertSection al call.tuple third s4 = some x ∧
    Runs al doHash root call x (.done r.1, r.2.2) := Runs.insertLoop h
  exact Runs.head (by simpa [InsertPc.next, h4] using hx) hr

/-- A call that is not interrupted and does not find its key stores its tuple. -/
theorem Runs.of_absent {s1 : PageStore} {code : ℤ} {t : Tuple}
    (hcheck : lkHaCheckDuplicateKey doHash schema root call.keyValue s = some (none, s1))
    (h : lkHaInsertTuple al doHash schema root call.tuple s = some (code, t, s')) :
    Runs al doHash root call (.checkGet .first root, s) (.done code, s') := by
  rw [lkHaInsertTuple_of_none call.keyValue_eq hcheck rfl, Option.map_eq_some_iff] at h
  obtain ⟨r, hr, he⟩ := h
  obtain ⟨rfl, -, rfl⟩ := he
  exact (Runs.check hcheck).trans (Runs.insertNew hr)

/-- A call that is not interrupted does what `lk_ha_insert_tuple` does. -/
theorem Runs.of_lkHaInsertTuple {code : ℤ} {t : Tuple}
    (h : lkHaInsertTuple al doHash schema root call.tuple s = some (code, t, s')) :
    Runs al doHash root call (.checkGet .first root, s) (.done code, s') := by
  have hc := h
  simp only [lkHaInsertTuple, call.keyValue_eq, Option.bind_eq_bind, Option.bind_some, Option.bind_eq_some_iff] at hc
  obtain ⟨⟨r, s1⟩, hcheck, hc⟩ := hc
  cases r with
  | some rid =>
    obtain ⟨rfl, -, rfl⟩ := hc
    exact Runs.check hcheck
  | none => exact Runs.of_absent hcheck h

end Alone

end Dawn
