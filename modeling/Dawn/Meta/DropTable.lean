import Dawn.Meta.CatalogOps
import Dawn.Meta.TableMetaData
import Dawn.Table.Runs
import Mathlib.Data.UInt

/-!
# Dropping a table

`create_table` and `delete_table` of the catalog together with the pages of its tables. A table has a page
for its metadata, an index header page, and the pages of its index. `delete_all_data` takes all of them for
table pages and follows their links. The bytes of the link are slot 1 of a page of the first two levels, so
from the first page the walk goes to the second level page in slot 1, from there to the bucket in slot 1,
and along that bucket (`Skeleton.collectPages_eq`). The rest of the table is not reached, and the index
header page is not looked for: these pages stay (`drop_table_frees_iff`).
-/

namespace Dawn

open Function

open TablePage PageStore

/-! ## The walk -/

section Walk

variable {s : PageStore} {root : ℤ} {L : Layout}

/-- The pages that `delete_all_data` comes to. -/
def walked (s : PageStore) (root : ℤ) (L : Layout) : List ℤ :=
  root :: if secondPage s root 1 = -1 then [] else secondPage s root 1 :: L.chain 1 1

theorem mem_walked (h : Skeleton s root L) {b : ℤ} (hb : b ∈ s.ids) :
    b ∈ walked s root L ↔ b = root ∨ b = secondPage s root 1 ∨ b ∈ L.chain 1 1 := by
  unfold walked
  split_ifs with h1
  · have hne : b ≠ secondPage s root 1 := fun e => h.quiet.ne_invalid hb (e.trans h1)
    simp [h.chain_nil 1 h1, hne]
  · simp

theorem nextPage_eq_slot (s : PageStore) (id : ℤ) : nextPage s id = LinkHashPage.getPgidInSlot (s.page id) 1 := rfl

theorem Skeleton.linked_walked (h : Skeleton s root L) : Linked (nextPage s) (-1) (walked s root L) := by
  unfold walked
  split_ifs with h1
  · exact ⟨h1, trivial⟩
  · refine ⟨rfl, ?_, h.linked 1 1⟩
    rw [nextPage_eq_slot, h.head 1 h1]

theorem Skeleton.walked_own (h : Skeleton s root L) {b : ℤ} (hb : b ∈ walked s root L) : ∃ o, L.own b = some o := by
  unfold walked at hb
  split_ifs at hb with h1
  · rw [List.mem_singleton] at hb
    exact ⟨_, hb ▸ h.own_root⟩
  · rcases List.mem_cons.mp hb with rfl | hb
    · exact ⟨_, h.own_root⟩
    · rcases List.mem_cons.mp hb with rfl | hb
      · exact ⟨_, h.own_second h1⟩
      · exact ⟨_, h.own_chain.mp hb⟩

theorem collectPages_linked (hq : s.Quiet) {l : List ℤ} (hl : Linked (nextPage s) (-1) l)
    (hmem : ∀ b ∈ l, b ∈ s.ids) (pages : Finset ℤ) :
    Table.collectPages (headOr (-1) l) pages s = some (some (l.toFinset ∪ pages), s) := by
  induction l generalizing pages with
  | nil =>
    rw [Table.collectPages]
    simp
  | cons a l ih =>
    have ha := hq.usable (hmem a List.mem_cons_self)
    obtain ⟨hget, hunpin, -⟩ := ha.pin
    rw [headOr_cons, Table.collectPages, if_neg ha.ne_invalid, hget]
    simp only [hunpin, some_bind]
    rw [show getNextPageId (s.page a) = headOr (-1) l from hl.1,
      ih hl.2 (fun b hb => hmem b (List.mem_cons_of_mem a hb)), List.toFinset_cons]
    simp only [Finset.union_insert, Finset.insert_union]

theorem Skeleton.collectPages_eq (h : Skeleton s root L) :
    Table.collectPages root ∅ s = some (some (walked s root L).toFinset, s) := by
  have hw := collectPages_linked h.quiet h.linked_walked (fun b hb => by
    obtain ⟨o, ho⟩ := h.walked_own hb
    exact h.own_mem ho) ∅
  rwa [Finset.union_empty] at hw

theorem PageStore.Quiet.deletePage (hq : s.Quiet) (id : ℤ) : (s.deletePage id).map Prod.snd =
    some (if s.pins id = 0 then s.drop [id] else s) := by
  by_cases hid : id ∈ s.ids
  · have h : (s.holdAll []).deletePage id = _ :=
      deletePage_holdAll hid (hq.free id hid) List.not_mem_nil
    rw [holdAll_nil] at h
    split_ifs <;> simp_all
  · rw [PageStore.deletePage, if_neg hid, Option.map_some]
    split_ifs
    · simp [PageStore.drop, Finset.sdiff_singleton_eq_erase, hid]
    · rfl

theorem PageStore.Quiet.deletePages (hq : s.Quiet) (l : List ℤ) :
    Table.deletePages l s = some (s.drop (l.filter fun b => s.pins b = 0)) := by
  induction l generalizing s with
  | nil => simp [Table.deletePages, PageStore.drop]
  | cons a l ih =>
    rw [Table.deletePages, List.foldlM_cons, hq.deletePage, some_bind, List.filter_cons]
    simp only [decide_eq_true_eq]
    split_ifs with ha
    · exact (ih (hq.drop [a])).trans (by rw [drop_cons]; rfl)
    · exact ih hq

theorem mem_ids_drop {l : List ℤ} {b : ℤ} : b ∈ (s.drop l).ids ↔ b ∈ s.ids ∧ b ∉ l := by
  simp [PageStore.drop]

theorem Skeleton.deleteAllData_eq (h : Skeleton s root L) : ∃ l,
    Table.deleteAllData root s = some (s.drop l) ∧ ∀ b, b ∈ l ↔ b ∈ walked s root L ∧ s.pins b = 0 := by
  refine ⟨((walked s root L).toFinset.sort (· ≤ ·)).filter fun b => s.pins b = 0, ?_, fun b => ?_⟩
  · simp only [Table.deleteAllData, h.collectPages_eq, some_bind]
    exact h.quiet.deletePages _
  · simp

theorem Skeleton.deleteAllData_unpin (h : Skeleton s root L) {b0 : ℤ} (hb0 : b0 ∈ s.ids)
    (ho : L.own b0 = none) : ∃ s', (Table.deleteAllData root s).bind (·.unpinPage b0 true) = some s' ∧
      s'.Quiet ∧ s'.pins b0 = s.pins b0 - 1 ∧ ∀ b, b ∈ s'.ids ↔ b ∈ s.ids ∧ ¬ (b ∈ walked s root L ∧ s.pins b = 0) := by
  obtain ⟨l, hdel, hl⟩ := h.deleteAllData_eq
  have hq := h.quiet.drop l
  have hmem : b0 ∈ (s.drop l).ids := by
    refine mem_ids_drop.mpr ⟨hb0, fun hb => ?_⟩
    obtain ⟨o, hown⟩ := h.walked_own ((hl b0).mp hb).1
    simp [ho] at hown
  have hu := unpinPage_guard (e := 0) hmem (hq.free b0 hmem) (Finset.notMem_empty b0) true
  rw [guard_zero] at hu
  refine ⟨(s.drop l).guard (0 - Pi.single b0 1) ∅, ?_, hq.guard _, ?_, fun b => ?_⟩
  · rw [hdel, Option.bind_some, hu]
  · simp [PageStore.guard, PageStore.drop, sub_eq_add_neg]
  · rw [← hl]
    exact mem_ids_drop

end Walk

/-! ## The catalog and its pages -/

namespace TableMetaData

/-- `TableMetaData(bpm, table_name, table_id)`. -/
def load (tableId : ℤ) (s : PageStore) : Option (TableMetaData × PageStore) := do
  let s ← s.getPage tableId
  some (ofPage tableId (s.data tableId), s)

/-- A store into the page of the metadata. -/
def storeId (tableId offset v : ℤ) (s : PageStore) : PageStore :=
  s.put tableId { s.page tableId with data := (s.data tableId).setI32 offset v }

/-- The part of the constructor that makes the first page. Where it cannot be had, the process exits. -/
def createFirstPage (al : Allocator) (tableId : ℤ) (s : PageStore) : Option (ℤ × PageStore) :=
  match s.newPage al with
  | (none, _) => none
  | (some firstTablePageId, s) => do
    let s := s.put firstTablePageId (LinkHashPage.init (s.page firstTablePageId))
    let s ← s.unpinPage firstTablePageId true
    some (firstTablePageId, storeId tableId firstTablePgidOffset firstTablePageId s)

/-- The part of the constructor that makes the index header page. -/
def createIndexHeader (al : Allocator) (tableId : ℤ) (s : PageStore) : Option (ℤ × PageStore) :=
  match s.newPage al with
  | (none, _) => none
  | (some indexHeaderPageId, s) => do
    let s ← s.unpinPage indexHeaderPageId false
    some (indexHeaderPageId, storeId tableId indexHeaderPgidOffset indexHeaderPageId s)

/-- The stores of the columns. -/
def storeSchema (tableId : ℤ) (schema : Schema) (s : PageStore) : PageStore :=
  s.put tableId { s.page tableId with data := writeSchema (s.data tableId) schema }

/-- `TableMetaData(bpm, table_name, schema, table_id)`. -/
def create (al : Allocator) (schema : Schema) (tableId : ℤ) (s : PageStore) :
    Option (TableMetaData × PageStore) := do
  let s ← s.getPage tableId
  let (firstTablePageId, s) ← createFirstPage al tableId (storeSchema tableId schema s)
  let (indexHeaderPageId, s) ← createIndexHeader al tableId s
  let s ← Table.create firstTablePageId s
  some (⟨tableId, firstTablePageId, indexHeaderPageId, schema⟩, s)

/-- The pages that the metadata names. -/
def pages (tmd : TableMetaData) : ℤ × ℤ × ℤ :=
  (tmd.selfPageId, tmd.firstTablePageId, tmd.indexHeaderPageId)

end TableMetaData

/-- A catalog with the metadata that is in memory, and the pages. -/
structure Catalog where
  /-- The catalog. -/
  table : CatalogTable
  /-- What the pointers in `tb_id_to_meta_` point to. -/
  metaData : ℤ → TableMetaData
  /-- The pages. -/
  store : PageStore

namespace Catalog

open CatalogTable in
/-- `create_table`. -/
def createTable (al : Allocator) (c : Catalog) (tableName : List UInt8) (schema : Schema) :
    Option (Bool × Catalog) :=
  if tableName ∈ c.table.tbNameToId ∨
      wrap32 (tableName.length + tableRecordSz) > c.table.availableSpace then some (false, c)
  else
    match c.store.newPage al with
    | (none, s) => some (false, { c with store := s })
    | (some pageId, s) => do
      let (tmd, s) ← TableMetaData.create al schema pageId s
      let s ← s.unpinPage pageId false
      let (ok, table) := c.table.createTable tableName (some pageId)
      some (ok, ⟨table, Function.update c.metaData pageId tmd, s⟩)

/-- `delete_table_data`: the metadata is read if it is not in memory, and given up in the end. -/
def deleteTableData (c : Catalog) (tableId : ℤ) : Option PageStore := do
  let (tmd, s) ← if tableId ∈ c.table.tbIdToMeta then some (c.metaData tableId, c.store)
    else TableMetaData.load tableId c.store
  let s ← Table.deleteAllData tmd.firstTablePageId s
  s.unpinPage tmd.selfPageId true

/-- `delete_table` by id. The page in the record is deleted. -/
def deleteTable (c : Catalog) (tableId : ℤ) : Option (Bool × Catalog) := do
  let (ok, table) ← c.table.deleteTable tableId
  let (_, tbOffset) := c.table.findTable tableId
  if tableId ∉ c.table.tbIdToName ∨ tbOffset = -1 then some (ok, c)
  else
    let deletedPageId := c.table.data.i32 (tbOffset + offsetTSize + sizeTSize)
    let s ← c.deleteTableData tableId
    let (_, s) ← s.deletePage deletedPageId
    some (ok, { c with table := table, store := s })

end Catalog

namespace Catalog

variable {c : Catalog} {tableId root hdr : ℤ} {L : Layout}

/-- The catalog has a table with the given pages, between two calls. -/
structure HasTable (c : Catalog) (tableId root hdr : ℤ) (L : Layout) : Prop where
  /-- The pages of the index. -/
  skeleton : Skeleton c.store root L
  /-- The page of the metadata. -/
  mem : tableId ∈ c.store.ids
  /-- The index header page. -/
  hdr_mem : hdr ∈ c.store.ids
  /-- These are two pages, and not pages of the index. -/
  hdr_ne : hdr ≠ tableId
  own_tableId : L.own tableId = none
  own_hdr : L.own hdr = none
  /-- The page of the metadata names the pages, and so does the metadata in memory. -/
  stored : (TableMetaData.ofPage tableId (c.store.data tableId)).pages = (tableId, root, hdr)
  cached : tableId ∈ c.table.tbIdToMeta → (c.metaData tableId).pages = (tableId, root, hdr)

/-- How often a page is pinned by others than the metadata of the table. -/
def others (c : Catalog) (tableId b : ℤ) : ℤ :=
  c.store.pins b - if b = tableId ∧ tableId ∈ c.table.tbIdToMeta then 1 else 0

theorem others_of_ne {b : ℤ} (hb : b ≠ tableId) : c.others tableId b = c.store.pins b := by
  simp [others, hb]

namespace HasTable

theorem ne_tableId (h : HasTable c tableId root hdr L) {b : ℤ} (hb : b ∈ walked c.store root L) : b ≠ tableId := by
  rintro rfl
  obtain ⟨o, ho⟩ := h.skeleton.walked_own hb
  simp [h.own_tableId] at ho

theorem deleteTableData_eq (h : HasTable c tableId root hdr L) : ∃ s', c.deleteTableData tableId = some s' ∧
    s'.Quiet ∧ s'.pins tableId = c.others tableId tableId ∧
    ∀ b, b ∈ s'.ids ↔ b ∈ c.store.ids ∧ ¬ (b ∈ walked c.store root L ∧ c.store.pins b = 0) := by
  by_cases hm : tableId ∈ c.table.tbIdToMeta
  · obtain ⟨s', hdel, hq', hpins, hids⟩ := h.skeleton.deleteAllData_unpin h.mem h.own_tableId
    have hp := h.cached hm
    simp only [TableMetaData.pages, Prod.mk.injEq] at hp
    refine ⟨s', ?_, hq', by simpa [others, hm] using hpins, hids⟩
    simp only [deleteTableData, if_pos hm, some_bind, hp.1, hp.2.1]
    exact hdel
  · -- The metadata is read first, which pins its page once.
    obtain ⟨s', hdel, hq', hpins, hids⟩ :=
      (h.skeleton.guard (Pi.single tableId 1)).deleteAllData_unpin h.mem h.own_tableId
    have hp := h.stored
    simp only [TableMetaData.pages, Prod.mk.injEq] at hp
    refine ⟨s', ?_, hq', by simpa [others, hm, PageStore.guard] using hpins, fun b => ?_⟩
    · simp only [deleteTableData, if_neg hm, some_bind, TableMetaData.load, h.skeleton.quiet.getPage h.mem]
      rw [← hp.2.1] at hdel
      exact hdel
    · rw [hids]
      refine and_congr_right fun _ => not_congr (and_congr_right fun hb => ?_)
      simp [PageStore.guard, h.ne_tableId hb]

open CatalogTable in
theorem deleteTable_eq (h : HasTable c tableId root hdr L) {pre post : List Entry} {name : List UInt8}
    (hc : Consistent c.table (pre ++ (name, tableId) :: post)) :
    ∃ c', c.deleteTable tableId = some (true, c') ∧ Consistent c'.table (pre ++ post) ∧
      ∀ b, b ∈ c'.store.ids ↔ b ∈ c.store.ids ∧
        ¬ (c.others tableId b = 0 ∧ (b = tableId ∨ b ∈ walked c.store root L)) := by
  obtain ⟨table, hdel, hc', -⟩ := hc.delete
  obtain ⟨s', hdata, hq, hpins, hids⟩ := h.deleteTableData_eq
  obtain ⟨⟨ok, s''⟩, hpage, hs''⟩ := Option.map_eq_some_iff.mp (hq.deletePage tableId)
  have hin : tableId ∈ c.table.tbIdToName := hc.mem_tbIdToName.mpr (by simp)
  have hoff : recordOffset pre.length ≠ -1 := by rw [recordOffset_eq]; omega
  have hid : c.table.data.i32 (recordOffset pre.length + offsetTSize + sizeTSize) = tableId := by
    have := hc.stores.pageId pre.length (by simp)
    rwa [idOf_length] at this
  refine ⟨{ c with table := table, store := s'' }, ?_, hc', fun b => ?_⟩
  · simp only [deleteTable, hdel, hc.findTable_eq, hin, not_true_eq_false, hoff, false_or, if_false, hid,
      hdata, hpage, some_bind]
  · dsimp only at hs'' ⊢
    rw [hs'', hpins]
    obtain rfl | hb := eq_or_ne b tableId
    · have hnw : b ∉ walked c.store root L := fun hb => h.ne_tableId hb rfl
      split_ifs with h0
      · simp [mem_ids_drop, h0]
      · simp [hids, hnw, h0]
    · have hdrop : b ∈ (if c.others tableId tableId = 0 then s'.drop [tableId] else s').ids ↔ b ∈ s'.ids := by
        split_ifs <;> simp [mem_ids_drop, hb]
      rw [hdrop, hids, others_of_ne hb]
      simp [hb, and_comm]

end HasTable

/-! ## Tables that are created and used -/

section Create

variable {al : Allocator} {s : PageStore} {m m' : Bytes}

/-- The store with the first page of a table. -/
def withFirstPage (tableId root : ℤ) (m : Bytes) (s : PageStore) : PageStore :=
  TableMetaData.storeId tableId TableMetaData.firstTablePgidOffset root
    ((s.alloc root m).put root (LinkHashPage.init ((s.alloc root m).page root)))

/-- The store with the index header page of a table. -/
def withIndexHeader (tableId hdr : ℤ) (m : Bytes) (s : PageStore) : PageStore :=
  TableMetaData.storeId tableId TableMetaData.indexHeaderPgidOffset hdr (s.alloc hdr m)

theorem createFirstPage_eq (hq : s.Quiet) (hp : al.pick s.ids s.allocs = some (root, m)) {e : ℤ → ℤ}
    (he : e root = 0) : TableMetaData.createFirstPage al tableId (s.guard e ∅) =
      some (root, (withFirstPage tableId root m s).guard e ∅) := by
  have hmem : root ∈ (s.alloc root m).ids := Finset.mem_insert_self ..
  have hu := unpinPage_guard (s := (s.alloc root m).put root (LinkHashPage.init ((s.alloc root m).page root)))
    (e := e + Pi.single root 1) hmem ((hq.alloc hp).free root hmem) (Finset.notMem_empty root) true
  rw [TableMetaData.createFirstPage, newPage_guard hp (Finset.notMem_empty root) he]
  simp only [guard_put, guard_page, hu, add_sub_cancel_right, some_bind]
  rfl

theorem createIndexHeader_eq (hq : s.Quiet) (hp : al.pick s.ids s.allocs = some (hdr, m)) {e : ℤ → ℤ}
    (he : e hdr = 0) : TableMetaData.createIndexHeader al tableId (s.guard e ∅) =
      some (hdr, (withIndexHeader tableId hdr m s).guard e ∅) := by
  have hmem : hdr ∈ (s.alloc hdr m).ids := Finset.mem_insert_self ..
  have hu := unpinPage_guard (e := e + Pi.single hdr 1) hmem ((hq.alloc hp).free hdr hmem)
    (Finset.notMem_empty hdr) false
  rw [TableMetaData.createIndexHeader, newPage_guard hp (Finset.notMem_empty hdr) he]
  simp only [hu, add_sub_cancel_right, some_bind]
  rfl

/-- The pages of a table that has just been created. -/
def made (s : PageStore) (tableId root : ℤ) (m : Bytes) (hdr : ℤ) (m' : Bytes) (schema : Schema) :
    PageStore :=
  let s := withFirstPage tableId root m (TableMetaData.storeSchema tableId schema s)
  let s := withIndexHeader tableId hdr m' s
  s.put root (LinkHashPage.init (s.page root))

theorem TableMetaData.create_eq (schema : Schema) (hq : s.Quiet) (hid : tableId ∈ s.ids)
    (hroot : al.pick s.ids s.allocs = some (root, m))
    (hhdr : al.pick (insert root s.ids) (s.allocs + 1) = some (hdr, m')) :
    TableMetaData.create al schema tableId s = some (⟨tableId, root, hdr, schema⟩,
      (made s tableId root m hdr m' schema).guard (Pi.single tableId 1) ∅) := by
  have hne : root ≠ tableId := fun h => (al.fresh hroot).1 (h ▸ hid)
  have hne' : hdr ≠ tableId := fun h => (al.fresh hhdr).1 (h ▸ Finset.mem_insert_of_mem hid)
  have hq1 : (TableMetaData.storeSchema tableId schema s).Quiet := hq.put _ _
  have hq2 : (withFirstPage tableId root m (TableMetaData.storeSchema tableId schema s)).Quiet :=
    ((hq1.alloc hroot).put _ _).put _ _
  have hmem : root ∈ (withIndexHeader tableId hdr m' (withFirstPage tableId root m
    (TableMetaData.storeSchema tableId schema s))).ids :=
      Finset.mem_insert_of_mem (Finset.mem_insert_self ..)
  have hq3 : (withIndexHeader tableId hdr m' (withFirstPage tableId root m
    (TableMetaData.storeSchema tableId schema s))).Quiet := (hq2.alloc hhdr).put _ _
  have hstore : TableMetaData.storeSchema tableId schema (s.guard (Pi.single tableId 1) ∅) =
    (TableMetaData.storeSchema tableId schema s).guard (Pi.single tableId 1) ∅ := rfl
  have htable := Table.create_eq (hq3.guard (Pi.single tableId 1)) hmem
  simp only [TableMetaData.create, hq.getPage hid, some_bind, hstore,
    createFirstPage_eq hq1 hroot (Pi.single_eq_of_ne hne 1),
    createIndexHeader_eq hq2 hhdr (Pi.single_eq_of_ne hne' 1), htable]
  rfl

theorem made_data (schema : Schema) (hne : root ≠ tableId) (hne' : hdr ≠ tableId) :
    (made s tableId root m hdr m' schema).data tableId =
      ((TableMetaData.writeSchema (s.data tableId) schema).setI32 64 root).setI32 68 hdr := by
  simp [made, withIndexHeader, withFirstPage, TableMetaData.storeId, TableMetaData.storeSchema,
    PageStore.put, PageStore.alloc, hne.symm, hne'.symm, TableMetaData.firstTablePgidOffset,
    TableMetaData.indexHeaderPgidOffset]

theorem made_spec (schema : Schema) (hq : s.Quiet) (hid : tableId ∈ s.ids)
    (hroot : al.pick s.ids s.allocs = some (root, m))
    (hhdr : al.pick (insert root s.ids) (s.allocs + 1) = some (hdr, m')) : (made s tableId root m hdr m' schema).Quiet ∧
    (made s tableId root m hdr m' schema).ids = insert hdr (insert root s.ids) ∧
    (∀ i, secondPage (made s tableId root m hdr m' schema) root i = -1) ∧
    (TableMetaData.ofPage tableId ((made s tableId root m hdr m' schema).data tableId)).pages = (tableId, root, hdr) ∧
    (∀ b ∈ s.ids, b ≠ tableId → (made s tableId root m hdr m' schema).page b = s.page b) ∧
    ∀ b ∈ (made s tableId root m hdr m' schema).ids,
      (made s tableId root m hdr m' schema).pins b = if b ∈ s.ids then s.pins b else 0 := by
  obtain ⟨hr, hr0, hr1⟩ := al.fresh hroot
  obtain ⟨hh, hh0, hh1⟩ := al.fresh hhdr
  have hne : root ≠ tableId := fun h => hr (h ▸ hid)
  have hne' : hdr ≠ tableId := fun h => hh (h ▸ Finset.mem_insert_of_mem hid)
  have hne'' : hdr ≠ root := fun h => hh (h ▸ Finset.mem_insert_self ..)
  have hq1 : (TableMetaData.storeSchema tableId schema s).Quiet := hq.put _ _
  have hq2 : (withFirstPage tableId root m (TableMetaData.storeSchema tableId schema s)).Quiet :=
    ((hq1.alloc hroot).put _ _).put _ _
  refine ⟨((hq2.alloc hhdr).put _ _).put _ _, rfl, fun i => ?_, ?_, fun b hb hbt => ?_, fun b hb => ?_⟩
  · rw [secondPage, made, page_put_self (LinkHashPage.sameFrame_init _), LinkHashPage.getPgidInSlot_init]
  · have hdata : (made s tableId root m hdr m' schema).data tableId = _ := made_data schema hne hne'
    have hfirst : ((made s tableId root m hdr m' schema).data tableId).i32 64 = root := by
      rw [hdata, Bytes.i32_setI32_of_disjoint (by omega), Bytes.i32_setI32 ⟨by omega, hr1⟩]
    have hheader : ((made s tableId root m hdr m' schema).data tableId).i32 68 = hdr := by
      rw [hdata, Bytes.i32_setI32 ⟨by omega, hh1⟩]
    exact Prod.ext rfl (Prod.ext hfirst hheader)
  · have hbr : b ≠ root := fun h => hr (h ▸ hb)
    have hbh : b ≠ hdr := fun h => hh (h ▸ Finset.mem_insert_of_mem hb)
    simp [made, withIndexHeader, withFirstPage, TableMetaData.storeId, TableMetaData.storeSchema,
      PageStore.page, PageStore.put, PageStore.alloc, hbr, hbh, hbt]
  · have hpins : (made s tableId root m hdr m' schema).pins =
        update (update s.pins root 0) hdr 0 := rfl
    rw [hpins]
    obtain rfl | hbh := eq_or_ne b hdr
    · rw [update_self, if_neg fun hs => hh (Finset.mem_insert_of_mem hs)]
    · obtain rfl | hbr := eq_or_ne b root
      · rw [update_of_ne hbh, update_self, if_neg hr]
      · have hs : b ∈ s.ids :=
          Finset.mem_of_mem_insert_of_ne (Finset.mem_of_mem_insert_of_ne hb hbh) hbr
        rw [update_of_ne hbh, update_of_ne hbr, if_pos hs]

open CatalogTable in
theorem createTable_eq (schema : Schema) {es : List Entry} {name : List UInt8} (hc : Consistent c.table es)
    (hq : c.store.Quiet) (hes : ∀ e ∈ es, e.2 ∈ c.store.ids) (hname : name ∉ c.table.tbNameToId)
    (hnul : 0 ∉ name) (hfit : (name.length : ℤ) + 13 ≤ c.table.availableSpace) (hal : al.Correct)
    (hcard : c.store.ids.card + 3 ≤ 2^31) : ∃ tableId root hdr c', c.createTable al name schema = some (true, c') ∧
      Consistent c'.table (es ++ [(name, tableId)]) ∧ HasTable c' tableId root hdr (Layout.empty root) ∧
      (c'.metaData tableId).pages = (tableId, root, hdr) ∧ (∀ sz, TableInv sz c'.store root (Layout.empty root)) ∧
      c'.store.ids = insert hdr (insert root (insert tableId c.store.ids)) ∧
      ∀ b ∈ c'.store.ids, c'.others tableId b = if b ∈ c.store.ids then c.store.pins b else 0 := by
  -- The three pages.
  obtain ⟨⟨tableId, m0⟩, hpick0⟩ := Option.isSome_iff_exists.mp (hal c.store.ids c.store.allocs (by omega))
  obtain ⟨hfresh, h0, h1⟩ := al.fresh hpick0
  have hcard1 : (insert tableId c.store.ids).card = c.store.ids.card + 1 :=
    Finset.card_insert_of_notMem hfresh
  obtain ⟨⟨root, m⟩, hroot⟩ := Option.isSome_iff_exists.mp
    (hal (insert tableId c.store.ids) (c.store.allocs + 1) (by omega))
  have hcard2 := Finset.card_insert_of_notMem (al.fresh hroot).1
  obtain ⟨⟨hdr, m'⟩, hhdr⟩ := Option.isSome_iff_exists.mp
    (hal (insert root (insert tableId c.store.ids)) (c.store.allocs + 1 + 1) (by omega))
  set s0 := (c.store.alloc tableId m0).guard (Pi.single tableId 1) ∅ with hs0
  have hq0 : s0.Quiet := (hq.alloc hpick0).guard _
  have hmem0 : tableId ∈ s0.ids := Finset.mem_insert_self ..
  have hcreate := TableMetaData.create_eq schema hq0 hmem0 hroot hhdr
  obtain ⟨hq', hids', hsec, hpages, hother, hpins⟩ := made_spec schema hq0 hmem0 hroot hhdr
  set s' := made s0 tableId root m hdr m' schema with hs'
  have hnew : c.store.newPage al = (some tableId, s0) := by
    have hn := newPage_guard (s := c.store) (e := 0) hpick0 (Finset.notMem_empty tableId) rfl
    rwa [guard_zero, zero_add] at hn
  have hmem' : tableId ∈ s'.ids := by simp [hids', hmem0]
  have hrmem : root ∈ s'.ids := by simp [hids']
  have hunpin : (s'.guard (Pi.single tableId 1) ∅).unpinPage tableId false = some s' := by
    rw [unpinPage_guard hmem' (hq'.free _ hmem') (Finset.notMem_empty _), sub_self, guard_zero]
  -- The record in the catalog.
  have hidno : tableId ∉ c.table.tbIdToName := fun hin => by
    obtain ⟨e, he, rfl⟩ := List.mem_map.mp (hc.mem_tbIdToName.mp hin)
    exact hfresh (hes e he)
  obtain ⟨table, htable, hc', hmeta⟩ := hc.create hname hidno hnul h0 h1 hfit
  have hspace : ¬ (name ∈ c.table.tbNameToId ∨ wrap32 (name.length + tableRecordSz) > c.table.availableSpace) := by
    intro hbad
    have hno : c.table.createTable name (some tableId) = _ := createTable_refused (hbad.imp id Or.inl)
    simp [htable] at hno
  have hcached : tableId ∈ table.tbIdToMeta := hmeta ▸ UnorderedMap.mem_insertNew.mpr (Or.inl rfl)
  have hinv : ∀ sz, TableInv sz s' root (Layout.empty root) := fun sz => TableInv.empty hq' hrmem hsec
  refine ⟨tableId, root, hdr, ⟨table, update c.metaData tableId ⟨tableId, root, hdr, schema⟩, s'⟩,
    ?_, hc', ⟨(hinv 0).skeleton, hmem', ?_, ?_, ?_, ?_, hpages, fun _ => ?_⟩, ?_, hinv, hids', ?_⟩
  · simp only [createTable, if_neg hspace, hnew, hcreate, hunpin, htable, Option.bind_eq_bind, Option.bind_some]
  · simp [hids']
  · exact fun h => (al.fresh hhdr).1 (h ▸ Finset.mem_insert_of_mem (Finset.mem_insert_self ..))
  · exact if_neg fun h : tableId = root => (al.fresh hroot).1 (h ▸ Finset.mem_insert_self ..)
  · exact if_neg fun h : hdr = root => (al.fresh hhdr).1 (h ▸ Finset.mem_insert_self ..)
  · simp [TableMetaData.pages]
  · simp [TableMetaData.pages]
  · intro b hb
    simp only [others, hcached, and_true]
    rw [hpins b hb]
    obtain rfl | hbt := eq_or_ne b tableId
    · simp [hs0, PageStore.guard, PageStore.alloc, hfresh]
    · simp [hs0, PageStore.guard, PageStore.alloc, hbt]

end Create

theorem HasTable.bystanders {s' : PageStore} {L' : Layout} (h : HasTable c tableId root hdr L) (hS : Skeleton s' root L')
    (hb : Bystanders c.store L s' L') : HasTable { c with store := s' } tableId root hdr L' := by
  obtain ⟨hmem, hown, hpage⟩ := hb tableId h.mem h.own_tableId
  obtain ⟨hmem', hown', -⟩ := hb hdr h.hdr_mem h.own_hdr
  have hdata : s'.data tableId = c.store.data tableId := congrArg Page.data hpage
  exact ⟨hS, hmem, hmem', h.hdr_ne, hown, hown', hdata ▸ h.stored, h.cached⟩

open CatalogTable in
/-- A table of the catalog is dropped, whatever calls have been made of it: of all the pages, those are
freed that nobody else has pinned and that are the page of the metadata, the first page, the second level
page in slot 1, or a page of the bucket in slot 1 of that. -/
theorem drop_table_frees_iff {pre post : List Entry} {name : List UInt8}
    (hc : Consistent c.table (pre ++ (name, tableId) :: post)) (h : HasTable c tableId root hdr L) :
    ∃ c', c.deleteTable tableId = some (true, c') ∧ Consistent c'.table (pre ++ post) ∧
      ∀ b ∈ c.store.ids, b ∉ c'.store.ids ↔ c.others tableId b = 0 ∧
        (b = tableId ∨ b = root ∨ b = secondPage c.store root 1 ∨ b ∈ L.chain 1 1) := by
  obtain ⟨c', hdel, hc', hids⟩ := h.deleteTable_eq hc
  refine ⟨c', hdel, hc', fun b hb => ?_⟩
  rw [hids, ← mem_walked h.skeleton hb]
  simp only [hb, true_and, not_not]

/-- A new catalog, on a page that it has pinned. -/
def new : Catalog where
  table := .fromScratch 0
  metaData tableId := .ofPage tableId 0
  store := onePage.guard (Pi.single 0 1) ∅

open CatalogTable in
theorem exists_createTable_new : ∃ tableId root hdr c, new.createTable zeroFrames [116] pairSchema = some (true, c) ∧
    Consistent c.table [([116], tableId)] ∧ HasTable c tableId root hdr (Layout.empty root) ∧
    (c.metaData tableId).pages = (tableId, root, hdr) ∧
    (∀ sz, TableInv sz c.store root (Layout.empty root)) ∧ c.store.ids = {hdr, root, tableId, 0} ∧
    ∀ b ∈ c.store.ids, b ≠ 0 → c.others tableId b = 0 := by
  obtain ⟨tableId, root, hdr, c, he, hc, h, hmeta, hinv, hids, hpins⟩ := createTable_eq (c := new)
    pairSchema (consistent_fromScratch 0) (quiet_onePage.guard _) (by simp)
    (show [116] ∉ new.table.tbNameToId by decide) (by decide) (by decide) (Allocator.firstFree_correct _)
    (by decide)
  refine ⟨tableId, root, hdr, c, he, hc, h, hmeta, hinv, hids, fun b hb hb0 => ?_⟩
  rw [hpins b hb, if_neg (by simpa [new, onePage, PageStore.guard] using hb0)]

/-- A table is created in a new catalog, and a tuple with the key 1 is inserted. -/
theorem exists_insert_new : ∃ tableId root hdr c id k s L, new.createTable zeroFrames [116] pairSchema = some (true, c) ∧
    (c.metaData tableId).pages = (tableId, root, hdr) ∧
    Table.insertTuple zeroFrames firstByte pairSchema root (pairTuple 1 2) c.store =
      some (true, (pairTuple 1 2).setRid ⟨id, (k : ℕ)⟩, s) ∧
    CatalogTable.Consistent c.table ([] ++ ([116], tableId) :: []) ∧ HasTable { c with store := s } tableId root hdr L ∧
    id ∈ s.ids ∧ L.own id = some (.bucket 0 1) ∧ ∀ b ∈ s.ids, b ≠ 0 → others { c with store := s } tableId b = 0 := by
  obtain ⟨tableId, root, hdr, c, he, hc, h, hmeta, hinv, hids, hpins⟩ := exists_createTable_new
  have hcard : c.store.ids.card ≤ 4 := by
    rw [hids]
    exact Finset.card_le_four
  rcases lkHaInsertTuple_cases firstByte pairSchema_hasKey le_rfl (by decide) (hinv 8)
    (by rfl) (show keyOf pairSchema (pairTuple 1 2).bytes = some (.integer 1) by decide) (by rfl)
    (show hashToSlot ((Value.integer 1).getHashValue firstByte) = (0, 1) by decide)
    (show BlankIfFull zeroFrames 8 c.store [] from fun hne => absurd rfl hne) with
    ⟨-, hno⟩ | ⟨id, k, s, L, hins, hi, -, hby⟩
  · exact absurd ⟨Allocator.firstFree_correct _, by omega⟩ hno
  · refine ⟨tableId, root, hdr, c, id, k, s, L, he, hmeta, ?_, hc, h.bystanders hi.inv.skeleton hby,
      hi.inv.skeleton.own_mem hi.own_id, hi.own_id, fun b hb hb0 => ?_⟩
    · rw [Table.insertTuple, hins]
      rfl
    · by_cases hbc : b ∈ c.store.ids
      · rw [← hpins b hbc hb0, others, others]
        dsimp only
        rw [hi.pins b hb, if_pos hbc]
      · have hbt : b ≠ tableId := fun e => hbc (e ▸ h.mem)
        rw [others_of_ne hbt, hi.pins b hb, if_neg hbc]

theorem drop_table_frees_iff_new : ∃ tableId root hdr c t s L c',
    new.createTable zeroFrames [116] pairSchema = some (true, c) ∧
    Table.insertTuple zeroFrames firstByte pairSchema root (pairTuple 1 2) c.store = some (true, t, s) ∧
    HasTable { c with store := s } tableId root hdr L ∧
    deleteTable { c with store := s } tableId = some (true, c') ∧
    ∀ b ∈ s.ids, b ∉ c'.store.ids ↔ others { c with store := s } tableId b = 0 ∧ (b = tableId ∨ b = root ∨
      b = secondPage s root 1 ∨ b ∈ L.chain 1 1) := by
  obtain ⟨tableId, root, hdr, c, id, k, s, L, he, -, hins, hc, h, -⟩ := exists_insert_new
  obtain ⟨c', hdel, -, hfreed⟩ := drop_table_frees_iff (c := { c with store := s }) hc h
  exact ⟨tableId, root, hdr, c, _, s, L, c', he, hins, h, hdel, hfreed⟩

/-- A table is created in a new catalog, a tuple with the key 1 is inserted, and the table is dropped.
Nobody else has a page of the table pinned, and yet the index header page and the page of the tuple
stay. -/
theorem dropped_table_leaves_pages : ∃ tableId c t s c',
    new.createTable zeroFrames [116] pairSchema = some (true, c) ∧
    Table.insertTuple zeroFrames firstByte pairSchema (c.metaData tableId).firstTablePageId (pairTuple 1 2)
      c.store = some (true, t, s) ∧
    (∀ b ∈ s.ids, b ≠ 0 → others { c with store := s } tableId b = 0) ∧
    deleteTable { c with store := s } tableId = some (true, c') ∧
    (c.metaData tableId).indexHeaderPageId ∈ c'.store.ids ∧ t.rid.pageId ∈ c'.store.ids := by
  obtain ⟨tableId, root, hdr, c, id, k, s, L, he, hmeta, hins, hc, h, hmem, hown, hpins⟩ := exists_insert_new
  simp only [TableMetaData.pages, Prod.mk.injEq] at hmeta
  obtain ⟨c', hdel, -, hfreed⟩ := h.deleteTable_eq hc
  refine ⟨tableId, c, (pairTuple 1 2).setRid ⟨id, k⟩, s, c', he, hmeta.2.1 ▸ hins, hpins, hdel, ?_, ?_⟩
  · rw [hmeta.2.2, hfreed]
    refine ⟨h.hdr_mem, fun hw => hw.2.elim h.hdr_ne fun hw => ?_⟩
    obtain ⟨o, ho⟩ := h.skeleton.walked_own hw
    simp [h.own_hdr] at ho
  · refine (hfreed id).mpr ⟨hmem, fun hw => hw.2.elim ?_ fun hw => ?_⟩
    · rintro rfl
      simp [h.own_tableId] at hown
    · rcases (mem_walked h.skeleton hmem).mp hw with rfl | hsec | hchain
      · simp [h.skeleton.own_root] at hown
      · have hne : secondPage s root 1 ≠ -1 := hsec ▸ h.skeleton.quiet.ne_invalid hmem
        have hown' := h.skeleton.own_second hne
        rw [← hsec] at hown'
        simp [hown] at hown'
      · have hown' := h.skeleton.own_chain.mp hchain
        simp [hown] at hown'

end Catalog

end Dawn
