import Dawn.Lib.Returns
import Dawn.Lib.Trace
import Dawn.Meta.CatalogRename

/-!
# Runs of the catalog

Sequences of calls on a catalog: tables are created, deleted and renamed, metadata is read, and the
database is opened again, which makes the catalog anew of its page. In a run whose calls all meet a
condition on the lengths of the names, the catalog stays consistent (`consistent_of_run`), and a further
call keeps it so exactly if it meets the condition, too:

* `create_table` lets a name in that needs one byte more than there is (`create_keeps_iff`,
  `created_name_is_lost`);
* `change_table_name` damages the page if it shortens the name of the last table, or lets a name in that
  needs up to four bytes more than there are, and uses `end()` if the metadata is not in memory
  (`rename_keeps_iff`, `renamed_last_table_is_damaged`).
-/

namespace Dawn.CatalogTable

/-- The calls. The page that `new_page` returns is a part of the call. -/
inductive Label
  | createTable (tableName : List UInt8) (newPage : Option ℤ)
  | deleteTableByName (tableName : List UInt8)
  | deleteTable (tableId : ℤ)
  | changeTableName (tableId : ℤ) (newName : List UInt8)
  | getTableMetaData (tableId : ℤ)
  /-- The database is opened again. -/
  | reopen

/-- One call, with what it returns. -/
def step (s : CatalogTable) : Label → Option (Bool × CatalogTable)
  | .createTable tableName newPage => some (s.createTable tableName newPage)
  | .deleteTableByName tableName => s.deleteTableByName tableName
  | .deleteTable tableId => s.deleteTable tableId
  | .changeTableName tableId newName => s.changeTableName tableId newName
  | .getTableMetaData tableId => some (true, s.getTableMetaData tableId)
  | .reopen => some (true, ofPage s.data)

/-- `new_page` returns no page that is in use. -/
def FreshPage (s : CatalogTable) (newPage : Option ℤ) : Prop :=
  ∀ id, newPage = some id → id ∉ s.tbIdToName ∧ 0 ≤ id ∧ id < 2^31

/-- `create_table` refuses the table, or there is space for its record and for its name with the
terminator. -/
def CreateFits (s : CatalogTable) (tableName : List UInt8) (newPage : Option ℤ) : Prop :=
  tableName ∈ s.tbNameToId ∨ wrap32 (tableName.length + tableRecordSz) > s.availableSpace ∨
    newPage = none ∨ (tableName.length : ℤ) + 1 + tableRecordSz ≤ s.availableSpace

/-- `change_table_name` refuses the name, or the metadata is in memory and there is space for the name,
which is not shorter than before if its table has the last record. -/
def RenameFits (s : CatalogTable) (tableId : ℤ) (newName : List UInt8) : Prop :=
  ∀ oldName, s.tbIdToName.lookup tableId = some oldName →
    s.makeRoom (s.findTable tableId).1 (wrap32 ((newName.length : ℤ) - oldName.length)) = none ∨
    tableId ∈ s.tbIdToMeta ∧
      (newName.length < oldName.length → tbPageId s.data (s.tableNum - 1) ≠ tableId) ∧
      (oldName.length < newName.length → (newName.length : ℤ) - oldName.length ≤ s.availableSpace)

/-- No other table has the name. -/
def UnusedByOthers (s : CatalogTable) (tableId : ℤ) (newName : List UInt8) : Prop :=
  ∀ id, s.tbIdToName.lookup id = some newName → id = tableId

/-- The condition on a call. -/
def Careful (s : CatalogTable) : Label → Prop
  | .createTable tableName newPage =>
    0 ∉ tableName ∧ FreshPage s newPage ∧ CreateFits s tableName newPage
  | .changeTableName tableId newName =>
    0 ∉ newName ∧ UnusedByOthers s tableId newName ∧ RenameFits s tableId newName
  | _ => True

/-- The runs of calls that meet the condition. -/
def Run (s : CatalogTable) (ls : List Label) (s' : CatalogTable) : Prop :=
  Trace (fun s l s' => Careful s l ∧ ∃ r, s.step l = some (r, s')) s ls s'

/-! ## Consistency -/

variable {name : List UInt8} {data : Bytes}

section Preserve

variable {s s' : CatalogTable} {es : List Entry} {r : Bool} (h : Consistent s es)
include h

theorem Consistent.exists_middle {id : ℤ} (hl : s.tbIdToName.lookup id = some name) :
    ∃ pre post, es = pre ++ (name, id) :: post :=
  List.append_of_mem (h.lookup_id.mp hl)

theorem Consistent.tbPageId_last {pre post : List Entry} {id : ℤ}
    (he : es = pre ++ (name, id) :: post) : tbPageId s.data (s.tableNum - 1) ≠ id ↔ post ≠ [] := by
  subst he
  have hlen : (pre ++ (name, id) :: post).length = pre.length + post.length + 1 := by simp; omega
  have hlast : tbPageId s.data (s.tableNum - 1) = idOf (pre ++ (name, id) :: post) (pre.length + post.length) := by
    have := h.stores.pageId (pre.length + post.length) (by omega)
    rw [← this, h.num, hlen]
    push_cast
    congr 1
    ring
  rw [hlast, not_iff_not]
  constructor
  · intro hid
    by_contra hne
    have hpos := List.length_pos_iff.mpr hne
    obtain ⟨-, -, -, hnot⟩ := h.others
    apply hnot
    -- The last table is one of the others.
    rw [show pre.length + post.length = pre.length + (post.length - 1) + 1 by omega] at hid
    rw [← (removed (by omega)).2.2] at hid
    rw [← hid, idOf, List.getD_eq_getElem?_getD, List.getElem?_eq_getElem (by simp; omega)]
    exact List.mem_map_of_mem (List.getElem_mem _)
  · rintro rfl
    exact idOf_length pre [] (name, id)

theorem Consistent.createTable {page : Option ℤ} (hnul : 0 ∉ name)
    (hfresh : FreshPage s page) (hfit : CreateFits s name page) (hs : s.createTable name page = (r, s')) :
    r = false ∧ s' = s ∨ r = true ∧ ∃ id, page = some id ∧ Consistent s' (es ++ [(name, id)]) := by
  by_cases href : name ∈ s.tbNameToId ∨ wrap32 (name.length + tableRecordSz) > s.availableSpace ∨ page = none
  · rw [createTable_refused href, Prod.mk.injEq] at hs
    exact Or.inl ⟨hs.1.symm, hs.2.symm⟩
  · rw [not_or, not_or] at href
    obtain ⟨hdup, hsp, hpage⟩ := href
    obtain ⟨id, rfl⟩ := Option.ne_none_iff_exists'.mp hpage
    obtain ⟨hid, h0, hlt⟩ := hfresh id rfl
    have hlen : (name.length : ℤ) + 13 ≤ s.availableSpace := by
      rcases hfit with hf | hf | hf | hf
      · exact absurd hf hdup
      · exact absurd hf hsp
      · exact absurd hf hpage
      · rw [tableRecordSz_eq] at hf
        omega
    obtain ⟨s'', hcall, hcons, -⟩ := h.create hdup hid hnul h0 hlt hlen
    rw [hcall, Prod.mk.injEq] at hs
    obtain ⟨rfl, rfl⟩ := hs
    exact Or.inr ⟨rfl, id, rfl, hcons⟩

theorem Consistent.deleteTable {id : ℤ} (hs : s.deleteTable id = some (r, s')) : ∃ es', Consistent s' es' := by
  cases hl : s.tbIdToName.lookup id with
  | none =>
    rw [CatalogTable.deleteTable, hl] at hs
    obtain ⟨-, rfl⟩ := some_mk_inj hs
    exact ⟨es, h⟩
  | some name =>
    obtain ⟨pre, post, rfl⟩ := h.exists_middle hl
    obtain ⟨s'', hcall, hcons, -⟩ := h.delete
    rw [hcall] at hs
    obtain ⟨-, rfl⟩ := some_mk_inj hs
    exact ⟨_, hcons⟩

theorem Consistent.notMem_others {pre post : List Entry} {id : ℤ} {oldName newName : List UInt8}
    (he : es = pre ++ (oldName, id) :: post) (hun : UnusedByOthers s id newName) :
    newName ∉ (pre ++ post).map Prod.fst := by
  subst he
  intro hm
  obtain ⟨⟨n, id'⟩, hmem, rfl⟩ := List.mem_map.mp hm
  have hid := hun id' (h.lookup_id.mpr (mem_middle.mpr (Or.inr hmem)))
  subst hid
  exact h.others.2.2.2 (List.mem_map_of_mem hmem)

theorem Consistent.changeTableName {id : ℤ} {newName : List UInt8} (hnul : 0 ∉ newName)
    (hun : UnusedByOthers s id newName) (hfit : RenameFits s id newName) :
    s.changeTableName id newName = some (false, s) ∨ ∃ pre post oldName s', es = pre ++ (oldName, id) :: post ∧
      s.changeTableName id newName = some (true, s') ∧ Consistent s' (pre ++ (newName, id) :: post) := by
  cases hl : s.tbIdToName.lookup id with
  | none => exact Or.inl (by rw [CatalogTable.changeTableName, hl])
  | some oldName =>
    obtain ⟨pre, post, he⟩ := h.exists_middle hl
    have hnew := h.notMem_others he hun
    have hlast := h.tbPageId_last he
    subst he
    have hoff : recordOffset pre.length ≠ -1 := by rw [recordOffset_eq]; omega
    rcases hfit oldName hl with hno | ⟨hmeta, hshort, hlong⟩
    · rw [h.findTable_eq] at hno
      refine Or.inl ?_
      rw [CatalogTable.changeTableName, hl]
      simp only [h.findTable_eq, if_neg hoff, hno]
    · obtain ⟨s', hcall, hcons, -⟩ := h.rename hmeta hnew hnul ⟨fun hlt => hlast.mp (hshort hlt), hlong⟩
      exact Or.inr ⟨pre, post, oldName, s', rfl, hcall, hcons⟩

theorem Consistent.step {l : Label} (hc : Careful s l) (hs : s.step l = some (r, s')) : ∃ es', Consistent s' es' := by
  cases l with
  | createTable name page =>
    rcases h.createTable hc.1 hc.2.1 hc.2.2 (Option.some.inj hs) with ⟨-, rfl⟩ | ⟨-, id, -, hcons⟩
    · exact ⟨es, h⟩
    · exact ⟨_, hcons⟩
  | deleteTableByName name =>
    simp only [CatalogTable.step, CatalogTable.deleteTableByName] at hs
    split at hs
    · obtain ⟨-, rfl⟩ := some_mk_inj hs
      exact ⟨es, h⟩
    · exact h.deleteTable hs
  | deleteTable id => exact h.deleteTable hs
  | changeTableName id newName =>
    simp only [CatalogTable.step] at hs
    rcases h.changeTableName hc.1 hc.2.1 hc.2.2 with hcall | ⟨_, _, _, s'', -, hcall, hcons⟩
    · rw [hcall] at hs
      obtain ⟨-, rfl⟩ := some_mk_inj hs
      exact ⟨es, h⟩
    · rw [hcall] at hs
      obtain ⟨-, rfl⟩ := some_mk_inj hs
      exact ⟨_, hcons⟩
  | getTableMetaData id =>
    obtain ⟨-, rfl⟩ := some_mk_inj hs
    refine ⟨es, ?_⟩
    unfold CatalogTable.getTableMetaData
    split_ifs
    · exact h
    · split
      · exact h
      · exact ⟨h.stores, h.num, h.fsp, h.noNul, h.names, h.ids, h.isId, h.byId, h.byName⟩
  | reopen =>
    obtain ⟨-, rfl⟩ := some_mk_inj hs
    rw [h.ofPage_eq]
    exact ⟨es, h.stores, h.num, h.fsp, h.noNul, h.names, h.ids, h.isId, h.byId, h.byName⟩

end Preserve

theorem consistent_of_run {ls : List Label} {s : CatalogTable}
    (h : Run (fromScratch data) ls s) : ∃ es, Consistent s es :=
  Trace.invariant (P := fun s => ∃ es, Consistent s es)
    (fun _ _ _ ⟨_, hes⟩ ⟨hc, _, hs⟩ => hes.step hc hs) h ⟨[], consistent_fromScratch data⟩

/-! ## `create_table` is all or nothing -/

/-- If `create_table` returns `true`, the constructor reads the tables of before and the new one, all of
which are in disjoint bytes of the page, and makes the same catalog again but for the metadata in memory;
if it returns `false`, nothing has changed. -/
def CreateKeeps (s : CatalogTable) (tableName : List UInt8) (newPage : Option ℤ) : Prop :=
  match s.createTable tableName newPage with
  | (true, s') => (∃ id, newPage = some id ∧ entries s'.data = entries s.data ++ [(tableName, id)]) ∧
      Disjoint s'.data ∧ ofPage s'.data = { s' with tbIdToMeta := ∅ }
  | (false, s') => s' = s

theorem length_le_of_entries {es : List Entry} (h : entries data = es) {k : ℕ}
    (hk : k < es.length) : ((nameOf es k).length : ℤ) ≤ max 0 (tbNameSz data k) := by
  subst h
  rw [entries, List.length_map, List.length_range] at hk
  have hname : nameOf (entries data) k = tableNameAt data (tbNameOffset data k) (tbNameSz data k) := by
    simp [nameOf, entries, hk]
  rw [hname, tableNameAt, Bytes.cString, cStr]
  have := (List.takeWhile_sublist (fun c : UInt8 => decide (c ≠ 0))
    (l := data.read (tbNameOffset data k) (tbNameSz data k).toNat)).length_le
  rw [Bytes.length_read] at this
  omega

theorem count_of_entries {es : List Entry} (h : entries data = es) (hd : Disjoint data) :
    data.i32 64 = es.length := by
  have hlen : (entries data).length = (data.i32 64).toNat := by
    rw [entries, List.length_map, List.length_range, tableNumOffset_eq]
  rw [← h, hlen]
  have := hd.1
  omega

theorem lt_of_le_wrap32 {x : ℤ} (h : x ≤ max 0 (wrap32 x)) : x < 2^31 := by
  have := (isI32_wrap32 x).2
  omega

/-- `create_table` on a page that was reached by calls that meet the condition: it is all or nothing
exactly if the table is refused or there is space for its record and its name with the terminator. -/
theorem create_keeps_iff {data : Bytes} {ls : List Label} {s : CatalogTable}
    (h : Run (fromScratch data) ls s) {tableName : List UInt8} (hnul : 0 ∉ tableName) {newPage : Option ℤ}
    (hfresh : FreshPage s newPage) :
    CreateKeeps s tableName newPage ↔ CreateFits s tableName newPage := by
  obtain ⟨es, hes⟩ := consistent_of_run h
  have hroom := hes.stores.room
  constructor
  · intro hk
    by_contra hfit
    rw [CreateFits, not_or, not_or, not_or] at hfit
    obtain ⟨hdup, hsp, hpage, hlen⟩ := hfit
    obtain ⟨id, rfl⟩ := Option.ne_none_iff_exists'.mp hpage
    -- The record is stored after the name, so its offset and its size are what was stored.
    unfold CreateKeeps createTable at hk
    rw [if_neg hdup, if_neg hsp] at hk
    obtain ⟨⟨id', -, hentries⟩, hdisj, -⟩ := hk
    dsimp only at hentries hdisj
    rw [hes.stores.entries_eq hes.noNul] at hentries
    have hcount := count_of_entries hentries hdisj
    have hle := length_le_of_entries hentries (k := es.length) (by simp)
    have hin := hdisj.2.1 es.length (by rw [hcount]; simp)
    rw [hcount, List.length_append, List.length_singleton] at hin
    rw [nameOf_length] at hle
    rw [tableNumOffset_eq, hes.stores.count] at hle hin
    obtain ⟨ho, hs, -⟩ := writeRecord_fields
      (writeName (s.data.setI32 64 (s.tableNum + 1))
        (wrap32 (s.freeSpacePointer - (wrap32 tableName.length + 1))) tableName) es.length
      (wrap32 (s.freeSpacePointer - (wrap32 tableName.length + 1))) tableName.length id
    rw [hs] at hle hin
    rw [ho, wrap32_of_isI32 (isI32_wrap32 _)] at hin
    have hlt := lt_of_le_wrap32 hle
    have hav := hes.availableSpace_eq
    have hfsp := hes.fsp
    rw [wrap32_of_isI32 ⟨by omega, hlt⟩, wrap32_of_isI32 ⟨by omega, by omega⟩] at hin
    rw [tableRecordSz_eq] at hlen
    push_cast at hin
    omega
  · intro hfit
    rcases hr : s.createTable tableName newPage with ⟨r, s'⟩
    unfold CreateKeeps
    rw [hr]
    rcases hes.createTable hnul hfresh hfit hr with ⟨rfl, rfl⟩ | ⟨rfl, id, rfl, hcons⟩
    · rfl
    · refine ⟨⟨id, rfl, ?_⟩, hcons.stores.disjoint, hcons.ofPage_eq⟩
      rw [hcons.stores.entries_eq hcons.noNul, hes.stores.entries_eq hes.noNul]

/-- The second of two tables. -/
theorem create_keeps_iff_second_table : ∃ s : CatalogTable,
    Run (fromScratch fun _ => 0) [.createTable [97] (some 1)] s ∧ FreshPage s (some 2) ∧
    CreateFits s [98] (some 2) ∧ (CreateKeeps s [98] (some 2) ↔ CreateFits s [98] (some 2)) := by
  have hrun : Run (fromScratch fun _ => 0) [.createTable [97] (some 1)]
      ((fromScratch fun _ => 0).createTable [97] (some 1)).2 := by
    refine .single ⟨⟨by decide, fun id hid => ?_, ?_⟩, true, rfl⟩
    · obtain rfl := Option.some.inj hid
      decide
    · exact Or.inr (Or.inr (Or.inr (by decide)))
  have hfresh : FreshPage ((fromScratch fun _ => 0).createTable [97] (some 1)).2 (some 2) := by
    intro id hid
    obtain rfl := Option.some.inj hid
    decide
  exact ⟨_, hrun, hfresh, Or.inr (Or.inr (Or.inr (by decide))), create_keeps_iff hrun (by decide) hfresh⟩

/-- A name of 4016 bytes in an empty catalog: there are 4028 bytes for the name and for the record of 12
bytes, and no byte for the terminator. The last byte of the record is the first byte of the name, and the
constructor reads an empty name. -/
theorem created_name_is_lost : ∃ s' : CatalogTable,
    (fromScratch fun _ => 0).createTable (List.replicate 4016 97) (some 1) = (true, s') ∧
    entries s'.data = [([], 1)] := by
  have hret : ((fromScratch fun _ => 0).createTable (List.replicate 4016 97) (some 1)).1 = true := by
    decide +kernel
  have hread : entries ((fromScratch fun _ => 0).createTable (List.replicate 4016 97) (some 1)).2.data =
      [([], 1)] := by
    decide +kernel
  generalize (fromScratch fun _ => 0).createTable (List.replicate 4016 97) (some 1) = x at hret hread ⊢
  exact ⟨x.2, Prod.ext hret rfl, hread⟩

/-! ## `change_table_name` keeps the page consistent -/

/-- If `change_table_name` returns `true`, the constructor reads the same tables in the same order but for
the one name, all of which are in disjoint bytes of the page, and makes the same catalog again but for the
metadata in memory, whose `free_space_pointer_` is the smallest offset of a name; if it returns `false`,
nothing has changed. -/
def RenameKeeps (s : CatalogTable) (tableId : ℤ) (newName : List UInt8) : Prop :=
  match s.changeTableName tableId newName with
  | some (true, s') => (∃ i oldName, (entries s.data)[i]? = some (oldName, tableId) ∧
        entries s'.data = (entries s.data).set i (newName, tableId)) ∧
      Disjoint s'.data ∧ ofPage s'.data = { s' with tbIdToMeta := ∅ } ∧
      IsLeast {off | ∃ k : ℕ, (k : ℤ) < s'.data.i32 64 ∧ off = tbNameOffset s'.data k} s'.freeSpacePointer
  | some (false, s') => s' = s
  | none => False

theorem Consistent.isLeast {s : CatalogTable} {es : List Entry} (h : Consistent s es) (hne : es ≠ []) :
    IsLeast {off | ∃ k : ℕ, (k : ℤ) < s.data.i32 64 ∧ off = tbNameOffset s.data k} s.freeSpacePointer := by
  have hpos := List.length_pos_iff.mpr hne
  rw [h.stores.count, h.fsp]
  constructor
  · refine ⟨es.length - 1, by omega, ?_⟩
    rw [h.stores.offset _ (by omega), nameOffset_last (by omega)]
  · rintro off ⟨k, hk, rfl⟩
    rw [h.stores.offset k (by omega)]
    exact le_nameOffset es k

section RenameFits

variable {s : CatalogTable} {pre post : List Entry} {oldName newName : List UInt8} {id : ℤ}

theorem Consistent.oldName_lt (h : Consistent s (pre ++ (oldName, id) :: post)) : (oldName.length : ℤ) < 4096 := by
  have := h.stores.room
  rw [used_append, used_cons] at this
  dsimp only at this
  omega

theorem Consistent.index_eq (h : Consistent s (pre ++ (oldName, id) :: post)) {i : ℕ}
    (hi : (pre ++ (oldName, id) :: post)[i]? = some (name, id)) : i = pre.length := by
  have hlt := (List.getElem?_eq_some_iff.mp hi).1
  refine (List.getElem?_inj (by simpa using hlt) h.ids).mp ?_
  rw [List.getElem?_map, List.getElem?_map, hi]
  simp

theorem Consistent.makeRoom_longer (h : Consistent s (pre ++ (oldName, id) :: post)) {i : ℕ}
    {fsp : ℤ} (hlt : (newName.length : ℤ) < 2^31) (hgt : oldName.length < newName.length)
    (hmake : s.makeRoom i (wrap32 ((newName.length : ℤ) - oldName.length)) = some (data, fsp)) :
    fsp = s.freeSpacePointer - (newName.length - oldName.length) := by
  have hroom := h.stores.room
  have hfsp := h.fsp
  rw [wrap32_of_isI32 ⟨by omega, by omega⟩, makeRoom, if_neg (by omega), if_pos (by omega),
    abs_of_pos (by omega), wrap32_of_isI32 ⟨by omega, by omega⟩] at hmake
  split_ifs at hmake
  have he := congrArg Prod.snd (Option.some.inj hmake)
  dsimp only at he
  rw [← he, wrap32_of_isI32 ⟨by omega, by omega⟩]

theorem Consistent.makeRoom_shorter_last (h : Consistent s (pre ++ [(oldName, id)]))
    (hlt : newName.length < oldName.length) : s.makeRoom pre.length (wrap32 ((newName.length : ℤ) - oldName.length)) =
      some (s.data, s.freeSpacePointer + (oldName.length - newName.length)) := by
  have hold := h.oldName_lt
  have hfsp := h.fsp
  have hroom := h.stores.room
  have hnum : s.tableNum.toNat - (pre.length + 1) = 0 := by
    rw [h.num, List.length_append, List.length_singleton]
    omega
  rw [wrap32_of_isI32 ⟨by omega, by omega⟩, makeRoom, if_pos (by omega), hnum, abs_of_neg (by omega),
    wrap32_of_isI32 ⟨by omega, by omega⟩, wrap32_of_isI32 ⟨by omega, by omega⟩, List.range'_zero,
    List.foldl_nil]
  congr 2
  ring

theorem Consistent.tbNameOffset_last (h : Consistent s (pre ++ [(oldName, id)]))
    (hlt : newName.length < oldName.length) :
    tbNameOffset ((writeName s.data (s.data.i32 (recordOffset pre.length)) newName).setI32
      (recordOffset pre.length + offsetTSize) newName.length) pre.length = s.freeSpacePointer := by
  have hold := h.oldName_lt
  have hroom := h.stores.room
  have hoff := h.stores.offset pre.length (by simp)
  rw [nameOffset_last (by simp), ← h.fsp] at hoff
  have hfsp := h.fsp
  have hlen : (pre ++ [(oldName, id)]).length = pre.length + 1 := by simp
  rw [← hoff, tbNameOffset_eq, recordOffset_eq, offsetTSize, writeName_eq (by omega),
    Bytes.i32_setI32_of_disjoint (by omega), tbNameOffset_eq]
  rw [tbNameOffset_eq] at hoff
  exact Bytes.i32_write_of_disjoint (by omega)

end RenameFits

/-- `change_table_name` on a page that was reached by calls that meet the condition: it keeps the page
consistent exactly if the name is refused, or the metadata is in memory, there is space for the name, and
it is not a shorter name for the last table. -/
theorem rename_keeps_iff {data : Bytes} {ls : List Label} {s : CatalogTable}
    (h : Run (fromScratch data) ls s) {tableId : ℤ} {newName : List UInt8} (hnul : 0 ∉ newName)
    (hun : UnusedByOthers s tableId newName) :
    RenameKeeps s tableId newName ↔ RenameFits s tableId newName := by
  obtain ⟨es, hes⟩ := consistent_of_run h
  constructor
  · intro hk oldName hl
    obtain ⟨pre, post, he⟩ := hes.exists_middle hl
    have hlast := hes.tbPageId_last he
    subst he
    have hoff : recordOffset pre.length ≠ -1 := by rw [recordOffset_eq]; omega
    rw [hes.findTable_eq]
    rcases hmake : s.makeRoom pre.length (wrap32 ((newName.length : ℤ) - oldName.length)) with _ | ⟨d, fsp⟩
    · exact Or.inl rfl
    have hcall := changeTableName_of_makeRoom hl hes.findTable_eq hoff hmake
    unfold RenameKeeps at hk
    rw [hcall] at hk
    by_cases hmeta : tableId ∈ s.tbIdToMeta ∧ oldName ∈ s.tbNameToId
    swap
    · rw [if_neg hmeta] at hk
      exact hk.elim
    rw [if_pos hmeta] at hk
    obtain ⟨⟨i, name, hi, hentries⟩, hdisj, -, hleast⟩ := hk
    dsimp only at hentries hdisj hleast
    rw [hes.stores.entries_eq hes.noNul] at hi hentries
    obtain rfl := hes.index_eq hi
    rw [List.set_append_right _ _ (le_refl _), Nat.sub_self, List.set_cons_zero] at hentries
    -- What is read back has a length that a 32-bit integer can hold.
    have hle := length_le_of_entries hentries (k := pre.length) (by simp)
    rw [nameOf_length, tbNameSz, Bytes.i32_setI32_eq_wrap32] at hle
    have hlt := lt_of_le_wrap32 hle
    have hcount := count_of_entries hentries hdisj
    refine Or.inr ⟨hmeta.1, fun hshort => ?_, fun hlong => ?_⟩
    · rw [hlast]
      rintro rfl
      rw [hes.makeRoom_shorter_last hshort] at hmake
      obtain ⟨rfl, rfl⟩ := some_mk_inj hmake
      have hmin := hleast.2 ⟨pre.length, by rw [hcount]; simp, rfl⟩
      rw [hes.tbNameOffset_last hshort] at hmin
      omega
    · obtain ⟨k, hk, hfsp⟩ := hleast.1
      have hin := (hdisj.2.1 k hk).2.1
      rw [← hfsp, hcount, hes.makeRoom_longer hlt hlong hmake, hes.fsp] at hin
      rw [hes.availableSpace_eq]
      simp only [List.length_append, List.length_cons] at hin ⊢
      omega
  · intro hfit
    unfold RenameKeeps
    rcases hes.changeTableName hnul hun hfit with hcall | ⟨pre, post, oldName, s', rfl, hcall, hcons⟩
    · rw [hcall]
    · rw [hcall]
      refine ⟨⟨pre.length, oldName, ?_, ?_⟩, hcons.stores.disjoint, hcons.ofPage_eq, hcons.isLeast (by simp)⟩
      · rw [hes.stores.entries_eq hes.noNul]
        simp
      · rw [hes.stores.entries_eq hes.noNul, hcons.stores.entries_eq hcons.noNul]
        simp

/-- The first of two tables gets a longer name. -/
theorem rename_keeps_iff_first_table : ∃ s : CatalogTable,
    Run (fromScratch fun _ => 0) [.createTable [97] (some 1), .createTable [98] (some 2)] s ∧
    UnusedByOthers s 1 [99, 100] ∧ RenameFits s 1 [99, 100] ∧
    (RenameKeeps s 1 [99, 100] ↔ RenameFits s 1 [99, 100]) := by
  have hrun : Run (fromScratch fun _ => 0) [.createTable [97] (some 1), .createTable [98] (some 2)]
      (((fromScratch fun _ => 0).createTable [97] (some 1)).2.createTable [98] (some 2)).2 := by
    refine .cons ⟨⟨by decide, fun id hid => ?_, ?_⟩, true, rfl⟩
      (.single ⟨⟨by decide, fun id hid => ?_, ?_⟩, true, rfl⟩)
    · obtain rfl := Option.some.inj hid
      decide
    · exact Or.inr (Or.inr (Or.inr (by decide)))
    · obtain rfl := Option.some.inj hid
      decide
    · exact Or.inr (Or.inr (Or.inr (by decide)))
  have hun : UnusedByOthers
      (((fromScratch fun _ => 0).createTable [97] (some 1)).2.createTable [98] (some 2)).2 1 [99, 100] := by
    obtain ⟨es, hes⟩ := consistent_of_run hrun
    intro id hid
    have hmem : [99, 100] ∈
        (((fromScratch fun _ => 0).createTable [97] (some 1)).2.createTable [98] (some 2)).2.tbNameToId :=
      hes.mem_tbNameToId.mpr (List.mem_map_of_mem (hes.lookup_id.mp hid))
    exact absurd hmem (by decide)
  have hfit : RenameFits
      (((fromScratch fun _ => 0).createTable [97] (some 1)).2.createTable [98] (some 2)).2 1 [99, 100] := by
    intro oldName hold
    obtain rfl : [97] = oldName := Option.some.inj hold
    exact Or.inr ⟨by decide, by decide, by decide⟩
  exact ⟨_, hrun, hun, hfit, rename_keeps_iff hrun (by decide) hun⟩

/-- The only table gets a shorter name: `free_space_pointer_` goes up, and the name stays. The next table
overwrites it, and the constructor reads an empty name. -/
theorem renamed_last_table_is_damaged : ∃ s s' s'' : CatalogTable,
    Run (fromScratch fun _ => 0) [.createTable [97, 98] (some 1)] s ∧
    s.changeTableName 1 [97] = some (true, s') ∧
    s'.freeSpacePointer = 4094 ∧ tbNameOffset s'.data 0 = 4093 ∧
    s'.createTable [99] (some 2) = (true, s'') ∧ entries s''.data = [([], 1), ([99], 2)] := by
  refine ⟨_, _, _, .single ⟨⟨by decide, fun id hid => ?_, ?_⟩, true, rfl⟩, rfl, by decide, by decide, rfl,
    by decide⟩
  · obtain rfl := Option.some.inj hid
    decide
  · exact Or.inr (Or.inr (Or.inr (by decide)))

end Dawn.CatalogTable
