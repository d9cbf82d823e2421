import Dawn.Meta.CatalogRuns

/-!
# Names and ids

`tb_id_to_name_` and `tb_name_to_id_` are to be inverse to one another, and the metadata in memory is to
have the names of its tables (`NamesAgree`). `create_table` and `delete_table` see to that whatever names
they are given, and whatever happens to the page. `change_table_name` does not: it gives a table the name
of another one, of which `tb_name_to_id_` then keeps the id, and it leaves the metadata as it is
(`renamed_table_is_not_found`). Only if it changes no name, names and ids stay in one-to-one
correspondence (`names_agree`).
-/

namespace Dawn.CatalogTable

/-- The two maps are inverse to one another and have `table_num_` entries each, `get_table_id` finds every
table, and the metadata in memory has the name of its table. -/
structure NamesAgree (s : CatalogTable) : Prop where
  inverse : ∀ id name, s.tbIdToName.lookup id = some name ↔ s.tbNameToId.lookup name = some id
  card_ids : (s.tbIdToName.keys.card : ℤ) = s.tableNum
  card_names : (s.tbNameToId.keys.card : ℤ) = s.tableNum
  found : ∀ id name, s.tbIdToName.lookup id = some name → s.getTableId name = id
  metas : ∀ id name, s.tbIdToMeta.lookup id = some name → s.tbIdToName.lookup id = some name

/-- `change_table_name` refuses the name, or it is the name that the table has already. -/
def KeepsName (s : CatalogTable) (tableId : ℤ) (newName : List UInt8) : Prop :=
  ∀ oldName, s.tbIdToName.lookup tableId = some oldName →
    s.makeRoom (s.findTable tableId).1 (wrap32 ((newName.length : ℤ) - oldName.length)) = none ∨
    tableId ∈ s.tbIdToMeta ∧ newName = oldName

/-- The condition on a call in a run without another start. -/
def Steady (s : CatalogTable) : Label → Prop
  | .createTable _ newPage => FreshPage s newPage
  | .changeTableName tableId newName => KeepsName s tableId newName
  | .reopen => False
  | _ => True

namespace NamesAgree

variable {s s' : CatalogTable}

theorem mk' (hinv : ∀ id name, s.tbIdToName.lookup id = some name ↔ s.tbNameToId.lookup name = some id)
    (hids : (s.tbIdToName.keys.card : ℤ) = s.tableNum) (hnames : (s.tbNameToId.keys.card : ℤ) = s.tableNum)
    (hmetas : ∀ id name, s.tbIdToMeta.lookup id = some name → s.tbIdToName.lookup id = some name) : NamesAgree s :=
  ⟨hinv, hids, hnames, fun id name h => by rw [getTableId, (hinv id name).mp h]; rfl, hmetas⟩

variable (h : NamesAgree s)
include h

theorem createTable {r : Bool} {name : List UInt8} {page : Option ℤ} (hfresh : FreshPage s page)
    (hs : s.createTable name page = (r, s')) : NamesAgree s' := by
  by_cases href : name ∈ s.tbNameToId ∨ wrap32 (name.length + tableRecordSz) > s.availableSpace ∨ page = none
  · rw [createTable_refused href] at hs
    obtain ⟨-, rfl⟩ := Prod.mk.inj hs
    exact h
  · rw [not_or, not_or] at href
    obtain ⟨hdup, hsp, hpage⟩ := href
    obtain ⟨id, rfl⟩ := Option.ne_none_iff_exists'.mp hpage
    have hid := (hfresh id rfl).1
    unfold CatalogTable.createTable at hs
    rw [if_neg hdup, if_neg hsp] at hs
    obtain ⟨-, rfl⟩ := Prod.mk.inj hs
    -- Metadata in memory is that of a table, so there is none of the new one.
    have hmeta : id ∉ s.tbIdToMeta := fun hm => by
      obtain ⟨n, hn⟩ := Finmap.mem_iff.mp hm
      exact hid (Finmap.mem_iff.mpr ⟨n, h.metas id n hn⟩)
    refine mk' (fun id' name' => ?_) ?_ ?_ fun id' name' hm => ?_
    · dsimp only
      rw [UnorderedMap.lookup_insertNew_eq_some hid, UnorderedMap.lookup_insertNew_eq_some hdup, h.inverse, and_comm]
    · dsimp only
      rw [UnorderedMap.card_insertNew hid, ← h.card_ids]
      rfl
    · dsimp only
      rw [UnorderedMap.card_insertNew hdup, ← h.card_names]
      rfl
    · dsimp only at hm ⊢
      rw [UnorderedMap.lookup_insertNew_eq_some hmeta] at hm
      rw [UnorderedMap.lookup_insertNew_eq_some hid]
      exact hm.imp_right (h.metas id' name')

theorem deleteTable {r : Bool} {id : ℤ} (hs : s.deleteTable id = some (r, s')) : NamesAgree s' := by
  simp only [CatalogTable.deleteTable] at hs
  split at hs
  · obtain ⟨-, rfl⟩ := some_mk_inj hs
    exact h
  · next name hl =>
    split_ifs at hs with hoff hname
    · obtain ⟨-, rfl⟩ := some_mk_inj hs
      exact h
    · obtain ⟨-, rfl⟩ := some_mk_inj hs
      have hl' := (h.inverse id name).mp hl
      refine mk' (fun id' name' => ?_) ?_ ?_ fun id' name' hm => ?_
      · dsimp only
        rw [UnorderedMap.lookup_erase_eq_some, UnorderedMap.lookup_erase_eq_some, h.inverse]
        refine and_congr_left fun hm => not_congr ⟨?_, ?_⟩
        · rintro rfl
          exact Option.some.inj (((h.inverse _ _).mpr hm).symm.trans hl)
        · rintro rfl
          exact Option.some.inj (hm.symm.trans hl')
      · dsimp only
        rw [UnorderedMap.card_erase (Finmap.mem_iff.mpr ⟨name, hl⟩), h.card_ids]
      · dsimp only
        rw [UnorderedMap.card_erase hname, h.card_names]
      · dsimp only at hm ⊢
        rw [UnorderedMap.lookup_erase_eq_some] at hm ⊢
        exact ⟨hm.1, h.metas id' name' hm.2⟩

theorem changeTableName {r : Bool} {id : ℤ} {newName : List UInt8} (hk : KeepsName s id newName)
    (hs : s.changeTableName id newName = some (r, s')) : NamesAgree s' := by
  simp only [CatalogTable.changeTableName] at hs
  split at hs
  · obtain ⟨-, rfl⟩ := some_mk_inj hs
    exact h
  · next oldName hl =>
    split at hs
    · obtain ⟨-, rfl⟩ := some_mk_inj hs
      exact h
    · rcases hk oldName hl with hno | ⟨-, rfl⟩
      · rw [hno] at hs
        obtain ⟨-, rfl⟩ := some_mk_inj hs
        exact h
      · split at hs
        · obtain ⟨-, rfl⟩ := some_mk_inj hs
          exact h
        · split_ifs at hs
          obtain ⟨-, rfl⟩ := some_mk_inj hs
          -- The maps get the name back that was taken out.
          rw [UnorderedMap.insertNew_erase hl, UnorderedMap.insertNew_erase ((h.inverse id _).mp hl)]
          exact ⟨h.inverse, h.card_ids, h.card_names, h.found, h.metas⟩

theorem getTableMetaData (id : ℤ) : NamesAgree (s.getTableMetaData id) := by
  unfold CatalogTable.getTableMetaData
  split_ifs with hmem
  · exact h
  · split
    · exact h
    · next name hl =>
      refine ⟨h.inverse, h.card_ids, h.card_names, h.found, fun id' name' hm => ?_⟩
      rw [UnorderedMap.lookup_insertNew_eq_some hmem] at hm
      rcases hm with ⟨rfl, rfl⟩ | hm
      · exact hl
      · exact h.metas id' name' hm

theorem step {r : Bool} {l : Label} (hl : Steady s l) (hs : s.step l = some (r, s')) : NamesAgree s' := by
  cases l with
  | createTable name page => exact h.createTable hl (Option.some.inj hs)
  | deleteTableByName name =>
    simp only [CatalogTable.step, CatalogTable.deleteTableByName] at hs
    split at hs
    · obtain ⟨-, rfl⟩ := some_mk_inj hs
      exact h
    · exact h.deleteTable hs
  | deleteTable id => exact h.deleteTable hs
  | changeTableName id newName => exact h.changeTableName hl hs
  | getTableMetaData id =>
    obtain ⟨-, rfl⟩ := some_mk_inj hs
    exact h.getTableMetaData id
  | reopen => exact hl.elim

end NamesAgree

theorem Consistent.namesAgree {s : CatalogTable} {es : List Entry} (h : Consistent s es)
    (hmetas : s.tbIdToMeta = ∅) : NamesAgree s := by
  refine NamesAgree.mk' (fun id name => by rw [h.lookup_id, h.lookup_name]) ?_ ?_ fun id name hm => ?_
  · have hkeys : s.tbIdToName.keys = (es.map Prod.snd).toFinset := by
      ext id
      rw [Finmap.mem_keys, h.mem_tbIdToName, List.mem_toFinset]
    rw [hkeys, List.toFinset_card_of_nodup h.ids, List.length_map, h.num]
  · have hkeys : s.tbNameToId.keys = (es.map Prod.fst).toFinset := by
      ext name
      rw [Finmap.mem_keys, h.mem_tbNameToId, List.mem_toFinset]
    rw [hkeys, List.toFinset_card_of_nodup h.names, List.length_map, h.num]
  · rw [hmetas, Finmap.lookup_empty] at hm
    cases hm

/-- A catalog is opened on a page that was reached by calls that meet the condition on lengths, and then
any calls are made that change no table's name: names and ids are in one-to-one correspondence in every
state that is reached. -/
theorem names_agree {data : Bytes} {ls ls' : List Label} {s s' : CatalogTable}
    (h : Run (fromScratch data) ls s)
    (h' : Trace (fun s l s' => Steady s l ∧ ∃ r, s.step l = some (r, s')) (ofPage s.data) ls' s') :
    NamesAgree s' := by
  obtain ⟨es, hes⟩ := consistent_of_run h
  have hopen : Consistent (ofPage s.data) es := by
    rw [hes.ofPage_eq]
    exact ⟨hes.stores, hes.num, hes.fsp, hes.noNul, hes.names, hes.ids, hes.isId, hes.byId, hes.byName⟩
  exact h'.invariant (fun _ _ _ hn ⟨hl, _, hs⟩ => NamesAgree.step hn hl hs) (hopen.namesAgree rfl)

/-- A table is created, and another one is created and deleted by its name. -/
theorem names_agree_create_delete : ∃ s' : CatalogTable,
    Trace (fun s l s' => Steady s l ∧ ∃ r, s.step l = some (r, s')) (ofPage (fromScratch fun _ => 0).data)
      [.createTable [97] (some 1), .createTable [98] (some 2), .deleteTableByName [97]] s' ∧
    s'.tableNum = 1 ∧ NamesAgree s' := by
  have h : ∃ s' : CatalogTable,
      Trace (fun s l s' => Steady s l ∧ ∃ r, s.step l = some (r, s')) (ofPage (fromScratch fun _ => 0).data)
        [.createTable [97] (some 1), .createTable [98] (some 2), .deleteTableByName [97]] s' ∧
      s'.tableNum = 1 := by
    refine ⟨_, .cons ⟨fun id hid => ?_, true, rfl⟩ (.cons ⟨fun id hid => ?_, true, rfl⟩
      (.single ⟨trivial, true, rfl⟩)), by decide⟩
    · obtain rfl := Option.some.inj hid
      decide
    · obtain rfl := Option.some.inj hid
      decide
  obtain ⟨s', hs, hn⟩ := h
  exact ⟨s', hs, hn, names_agree (.nil _) hs⟩

/-- A table gets the name of another one. It cannot be found by its name any more, and its metadata still
has the old name. -/
theorem renamed_table_is_not_found : ∃ s s' : CatalogTable,
    Trace (fun s l s' => ∃ r, s.step l = some (r, s')) (fromScratch fun _ => 0)
      [.createTable [97] (some 1), .createTable [98] (some 2)] s ∧
    s.changeTableName 1 [98] = some (true, s') ∧
    s'.tbIdToName.lookup 1 = some [98] ∧ s'.getTableId [98] = 2 ∧ s'.tbIdToMeta.lookup 1 = some [97] :=
  ⟨_, _, .cons ⟨true, rfl⟩ (.single ⟨true, rfl⟩), rfl, by decide, by decide, by decide⟩

end Dawn.CatalogTable
