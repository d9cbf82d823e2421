import Dawn.Meta.CatalogPage

/-!
# Creating and deleting tables

What `create_table` and `delete_table` do to a catalog whose page and maps agree (`Consistent`). A table
that fits is put at the end (`Consistent.create`); the loop of `delete_table` closes the gap that a table
leaves in the records and in the names (`Consistent.delete`).
-/

namespace Dawn.CatalogTable

/-! ## Lists of tables -/

section Lists

variable {pre l : List Entry} {e : Entry} {k : ℕ}

theorem nameOf_append_left (h : k < pre.length) : nameOf (pre ++ l) k = nameOf pre k := by
  simp [nameOf, List.getElem?_append_left h]

theorem nameOf_append_right (h : pre.length ≤ k) : nameOf (pre ++ l) k = nameOf l (k - pre.length) := by
  simp [nameOf, List.getElem?_append_right h]

theorem idOf_append_left (h : k < pre.length) : idOf (pre ++ l) k = idOf pre k := by
  simp [idOf, List.getElem?_append_left h]

theorem idOf_append_right (h : pre.length ≤ k) : idOf (pre ++ l) k = idOf l (k - pre.length) := by
  simp [idOf, List.getElem?_append_right h]

theorem nameOffset_append_left (h : k < pre.length) : nameOffset (pre ++ l) k = nameOffset pre k := by
  rw [nameOffset, nameOffset, List.take_append_of_le_length h]

theorem nameOffset_append_right (h : pre.length ≤ k) :
    nameOffset (pre ++ l) k = nameOffset l (k - pre.length) - used pre := by
  rw [nameOffset, nameOffset, List.take_append, List.take_of_length_le (by omega), used_append,
    show k + 1 - pre.length = k - pre.length + 1 by omega]
  push_cast
  ring

theorem mem_middle {e' : Entry} {post : List Entry} : e' ∈ pre ++ e :: post ↔ e' = e ∨ e' ∈ pre ++ post := by
  rw [List.mem_append, List.mem_cons, List.mem_append]
  tauto

theorem used_cons (e : Entry) (l : List Entry) : used (e :: l) = e.1.length + 1 + used l := by
  simp [used]

theorem nameOffset_cons_zero : nameOffset (e :: l) 0 = 4096 - (e.1.length + 1) := by
  simp [nameOffset, used]

theorem nameOffset_cons_succ : nameOffset (e :: l) (k + 1) = nameOffset l k - (e.1.length + 1) := by
  rw [nameOffset, nameOffset, List.take_succ_cons, used_cons]
  push_cast
  ring

theorem nameOf_cons_succ : nameOf (e :: l) (k + 1) = nameOf l k := rfl

theorem idOf_cons_succ : idOf (e :: l) (k + 1) = idOf l k := rfl

end Lists

/-! ## Consistent catalogs -/

/-- The catalog has the tables `es`, on its page and in its maps. -/
structure Consistent (s : CatalogTable) (es : List Entry) : Prop where
  stores : Stores s.data es
  num : s.tableNum = es.length
  fsp : s.freeSpacePointer = 4096 - used es
  noNul : NoNul es
  names : (es.map Prod.fst).Nodup
  ids : (es.map Prod.snd).Nodup
  isId : ∀ e ∈ es, 0 ≤ e.2 ∧ e.2 < 2^31
  byId : s.tbIdToName = idToName es
  byName : s.tbNameToId = nameToId es

theorem idToName_append (es : List Entry) (e : Entry) : idToName (es ++ [e]) = (idToName es).insertNew e.2 e.1 := by
  simp [idToName]

theorem nameToId_append (es : List Entry) (e : Entry) : nameToId (es ++ [e]) = (nameToId es).insertNew e.1 e.2 := by
  simp [nameToId]

theorem lookup_idToName {es : List Entry} (h : (es.map Prod.snd).Nodup) {id : ℤ} {name : List UInt8} :
    (idToName es).lookup id = some name ↔ (name, id) ∈ es := by
  rw [idToName, UnorderedMap.lookup_foldl_insertNew_eq_some h]
  exact ⟨fun ⟨e, he, h1, h2⟩ => h1 ▸ h2 ▸ he, fun he => ⟨_, he, rfl, rfl⟩⟩

theorem lookup_nameToId {es : List Entry} (h : (es.map Prod.fst).Nodup) {id : ℤ} {name : List UInt8} :
    (nameToId es).lookup name = some id ↔ (name, id) ∈ es := by
  rw [nameToId, UnorderedMap.lookup_foldl_insertNew_eq_some h]
  exact ⟨fun ⟨e, he, h1, h2⟩ => h1 ▸ h2 ▸ he, fun he => ⟨_, he, rfl, rfl⟩⟩

theorem Stores.ofPage_eq {s : CatalogTable} {es : List Entry} (h : Stores s.data es)
    (hnum : s.tableNum = es.length) (hfsp : s.freeSpacePointer = 4096 - used es)
    (hid : s.tbIdToName = idToName (entries s.data)) (hname : s.tbNameToId = nameToId (entries s.data)) :
    ofPage s.data = { s with tbIdToMeta := ∅ } := by
  have hfsp' := h.freeSpacePointer_ofPage
  have hnum' : s.data.i32 tableNumOffset = s.tableNum := by rw [tableNumOffset_eq, h.count, hnum]
  have hdef : ofPage s.data =
      ⟨s.data, s.data.i32 tableNumOffset, (ofPage s.data).freeSpacePointer, idToName (entries s.data),
        nameToId (entries s.data), ∅⟩ := rfl
  rw [hdef, hfsp', hnum', ← hfsp, ← hid, ← hname]

theorem lookup_idToName_first {pre post : List Entry} {e : Entry} (h : e.2 ∉ pre.map Prod.snd) :
    (idToName (pre ++ e :: post)).lookup e.2 = some e.1 := by
  have hpre : pre.find? (fun a => a.2 = e.2) = none := by
    rw [List.find?_eq_none]
    intro a ha hae
    exact h (of_decide_eq_true hae ▸ List.mem_map_of_mem ha)
  rw [idToName, UnorderedMap.lookup_foldl_insertNew, Finmap.lookup_empty, Option.none_or, List.find?_append, hpre]
  simp

theorem mem_nameToId {es : List Entry} {e : Entry} (h : e ∈ es) : e.1 ∈ nameToId es := by
  have hfind : (es.find? fun a => a.1 = e.1).isSome := by
    rw [List.find?_isSome]
    exact ⟨e, h, by simp⟩
  obtain ⟨a, ha⟩ := Option.isSome_iff_exists.mp hfind
  refine Finmap.mem_iff.mpr ⟨a.2, ?_⟩
  rw [nameToId, UnorderedMap.lookup_foldl_insertNew, Finmap.lookup_empty, Option.none_or, ha]
  rfl

namespace Consistent

variable {s : CatalogTable} {es : List Entry} (h : Consistent s es)
include h

theorem ofPage_eq : ofPage s.data = { s with tbIdToMeta := ∅ } := by
  have hentries := h.stores.entries_eq h.noNul
  exact h.stores.ofPage_eq h.num h.fsp (hentries ▸ h.byId) (hentries ▸ h.byName)

theorem lookup_id {id : ℤ} {name : List UInt8} : s.tbIdToName.lookup id = some name ↔ (name, id) ∈ es := by
  rw [h.byId, lookup_idToName h.ids]

theorem lookup_name {id : ℤ} {name : List UInt8} : s.tbNameToId.lookup name = some id ↔ (name, id) ∈ es := by
  rw [h.byName, lookup_nameToId h.names]

theorem mem_tbNameToId {name : List UInt8} : name ∈ s.tbNameToId ↔ name ∈ es.map Prod.fst := by
  rw [Finmap.mem_iff]
  simp [h.lookup_name]

theorem mem_tbIdToName {id : ℤ} : id ∈ s.tbIdToName ↔ id ∈ es.map Prod.snd := by
  rw [Finmap.mem_iff]
  simp [h.lookup_id]

theorem availableSpace_eq : s.availableSpace = 4096 - used es - (68 + 12 * es.length) := by
  rw [availableSpace, h.fsp, recordOffset_eq, tableNumOffset_eq, h.stores.count]

end Consistent

theorem consistent_fromScratch (data : Bytes) : Consistent (fromScratch data) [] := by
  have hcount : (data.setI32 64 0).i32 64 = 0 := Bytes.i32_setI32 (by decide)
  have hstores : Stores (data.setI32 64 0) [] :=
    ⟨hcount, by simp, by simp, by simp, by simp, by simp [used]⟩
  have hentries : entries (data.setI32 64 0) = [] := hstores.entries_eq (by simp [NoNul])
  refine ⟨hstores, hcount, hstores.freeSpacePointer_ofPage, by simp [NoNul], by simp, by simp, by simp, ?_, ?_⟩
  · exact congrArg idToName hentries
  · exact congrArg nameToId hentries

/-! ## `create_table` -/

theorem writeName_eq {name : List UInt8} (h : (name.length : ℤ) < 2^31) (data : Bytes) (off : ℤ) :
    writeName data off name = data.write off (name ++ [0]) := by
  have hw : wrap32 name.length = name.length := wrap32_of_isI32 ⟨by omega, h⟩
  funext x
  rw [writeName, hw, Int.toNat_natCast, List.take_length]
  rcases lt_trichotomy x (off + name.length) with hx | rfl | hx
  · rw [Bytes.write_of_notMem (by simp; omega)]
    by_cases hlow : x < off
    · rw [Bytes.write_of_notMem (Or.inl hlow), Bytes.write_of_notMem (Or.inl hlow)]
    · have hlt : (x - off).toNat < name.length := by omega
      rw [Bytes.write, Bytes.write, Bytes.memcpy_of_mem (by omega) (by omega),
        Bytes.memcpy_of_mem (by omega) (by simp; omega), List.getD_eq_getElem?_getD,
        List.getD_eq_getElem?_getD, List.getElem?_append_left hlt]
  · rw [Bytes.write, Bytes.memcpy_of_mem (by omega) (by simp), Bytes.write,
      Bytes.memcpy_of_mem (by omega) (by simp)]
    simp
  · rw [Bytes.write_of_notMem (by simp; omega), Bytes.write_of_notMem (by omega),
      Bytes.write_of_notMem (by simp; omega)]

theorem writeRecord_fields (data : Bytes) (k off size pid : ℤ) :
    tbNameOffset (writeRecord data (recordOffset k) off size pid) k = wrap32 off ∧
    tbNameSz (writeRecord data (recordOffset k) off size pid) k = wrap32 size ∧
    tbPageId (writeRecord data (recordOffset k) off size pid) k = wrap32 pid := by
  simp only [tbNameOffset_eq, tbNameSz_eq, tbPageId_eq, writeRecord, recordOffset_eq, offsetTSize, sizeTSize]
  rw [show 68 + 12 * k + 4 + 4 = 68 + 12 * k + 8 by ring]
  refine ⟨?_, ?_, Bytes.i32_setI32_eq_wrap32 _ _ _⟩
  · rw [Bytes.i32_setI32_of_disjoint (by omega), Bytes.i32_setI32_of_disjoint (by omega),
      Bytes.i32_setI32_eq_wrap32]
  · rw [Bytes.i32_setI32_of_disjoint (by omega), Bytes.i32_setI32_eq_wrap32]

theorem writeRecord_of_notMem {data : Bytes} {k off size pid x : ℤ} (h : x < 68 + 12 * k ∨ 68 + 12 * (k + 1) ≤ x) :
    writeRecord data (recordOffset k) off size pid x = data x := by
  simp only [writeRecord, recordOffset_eq, offsetTSize, sizeTSize]
  rw [Bytes.setI32_of_notMem (by omega), Bytes.setI32_of_notMem (by omega),
    Bytes.setI32_of_notMem (by omega)]

theorem Stores.append {data data' : Bytes} {es : List Entry} {e : Entry} (h : Stores data es)
    (hroom : 68 + 12 * (es.length + 1) + used es + (e.1.length + 1) ≤ 4096) (hcount : data'.i32 64 = es.length + 1)
    (hrec : ∀ x, 68 ≤ x → x < 68 + 12 * (es.length : ℤ) → data' x = data x)
    (hnames : ∀ x, 4096 - (used es : ℤ) ≤ x → x < 4096 → data' x = data x)
    (hoff : tbNameOffset data' es.length = 4096 - used es - (e.1.length + 1))
    (hsz : tbNameSz data' es.length = e.1.length) (hpid : tbPageId data' es.length = e.2)
    (hname : data'.read (4096 - used es - (e.1.length + 1)) (e.1.length + 1) = e.1 ++ [0]) :
    Stores data' (es ++ [e]) := by
  have hlast : nameOffset (es ++ [e]) es.length = 4096 - used es - (e.1.length + 1) := by
    rw [nameOffset_append_right (le_refl _), Nat.sub_self, nameOffset_cons_zero]
    ring
  have hnameOf : nameOf (es ++ [e]) es.length = e.1 := by
    rw [nameOf_append_right (le_refl _), Nat.sub_self]
    rfl
  have hidOf : idOf (es ++ [e]) es.length = e.2 := by
    rw [idOf_append_right (le_refl _), Nat.sub_self]
    rfl
  have hcases : ∀ k < (es ++ [e]).length, k < es.length ∨ k = es.length := fun k hk => by
    rw [List.length_append, List.length_singleton] at hk
    omega
  have hfits : 68 + 12 * (es ++ [e]).length + used (es ++ [e]) ≤ 4096 := by
    rw [used_append, used_cons, List.length_append]
    simp only [List.length_singleton, used, List.map_nil, List.sum_nil] at hroom ⊢
    omega
  refine ⟨by rw [hcount, List.length_append]; simp, fun k hk => ?_, fun k hk => ?_, fun k hk => ?_,
    fun k hk => ?_, hfits⟩
  all_goals rcases hcases k hk with hk | rfl
  · rw [nameOffset_append_left hk, ← h.offset k hk, tbNameOffset_eq, tbNameOffset_eq]
    exact Bytes.i32_congr fun x hx => hrec _ (by omega) (by omega)
  · rw [hoff, hlast]
  · rw [nameOf_append_left hk, ← h.size k hk, tbNameSz_eq, tbNameSz_eq]
    exact Bytes.i32_congr fun x hx => hrec _ (by omega) (by omega)
  · rw [hsz, hnameOf]
  · rw [idOf_append_left hk, ← h.pageId k hk, tbPageId_eq, tbPageId_eq]
    exact Bytes.i32_congr fun x hx => hrec _ (by omega) (by omega)
  · rw [hpid, hidOf]
  · rw [nameOffset_append_left hk, nameOf_append_left hk, ← h.name k hk]
    have h1 := le_nameOffset es k
    have h2 := nameOffset_add_le_pageSize hk
    exact Bytes.read_congr fun x hx => hnames _ (by omega) (by omega)
  · rw [hlast, hnameOf, hname]

/-- The stores of `create_table`, for a table that fits: the number of tables, the name and the record
are in disjoint bytes. -/
theorem Stores.create {data : Bytes} {es : List Entry} (h : Stores data es) {name : List UInt8} {id : ℤ}
    (hroom : 68 + 12 * (es.length + 1) + used es + (name.length + 1) ≤ 4096) (hid : IsI32 id) :
    Stores (writeRecord (writeName (data.setI32 64 (es.length + 1)) (4096 - used es - (name.length + 1)) name)
      (recordOffset es.length) (4096 - used es - (name.length + 1)) name.length id) (es ++ [(name, id)]) := by
  rw [writeName_eq (by omega)]
  obtain ⟨ho, hs, hp⟩ := writeRecord_fields
    ((data.setI32 64 (es.length + 1)).write (4096 - used es - (name.length + 1)) (name ++ [0]))
    es.length (4096 - used es - (name.length + 1)) name.length id
  rw [wrap32_of_isI32 ⟨by omega, by omega⟩] at ho hs
  rw [wrap32_of_isI32 hid] at hp
  refine h.append hroom ?_ (fun x h1 h2 => ?_) (fun x h1 h2 => ?_) ho hs hp ?_
  · have hcount : (data.setI32 64 (es.length + 1)).i32 64 = es.length + 1 :=
      Bytes.i32_setI32 ⟨by omega, by omega⟩
    refine Eq.trans (Bytes.i32_congr fun x hx => ?_) hcount
    rw [writeRecord_of_notMem (by omega), Bytes.write_of_notMem (by omega)]
  · rw [writeRecord_of_notMem (by omega), Bytes.write_of_notMem (by omega),
      Bytes.setI32_of_notMem (by omega)]
  · rw [writeRecord_of_notMem (by omega), Bytes.write_of_notMem (by simp; omega),
      Bytes.setI32_of_notMem (by omega)]
  · have hrw := Bytes.read_write (data.setI32 64 (es.length + 1)) (4096 - used es - (name.length + 1))
      (name ++ [0])
    rw [List.length_append, List.length_singleton] at hrw
    refine Eq.trans (Bytes.read_congr fun x hx => ?_) hrw
    dsimp only
    rw [writeRecord_of_notMem (by omega)]

theorem createTable_refused {s : CatalogTable} {name : List UInt8} {page : Option ℤ}
    (h : name ∈ s.tbNameToId ∨ wrap32 (name.length + tableRecordSz) > s.availableSpace ∨ page = none) :
    s.createTable name page = (false, s) := by
  unfold createTable
  split_ifs with hdup hsp
  · rfl
  · rfl
  · rcases h with h | h | rfl
    · exact absurd h hdup
    · exact absurd h hsp
    · rfl

theorem Consistent.create {s : CatalogTable} {es : List Entry} (h : Consistent s es) {name : List UInt8}
    {id : ℤ} (hname : name ∉ s.tbNameToId) (hid : id ∉ s.tbIdToName) (hnul : 0 ∉ name) (h0 : 0 ≤ id)
    (hlt : id < 2^31) (hfit : (name.length : ℤ) + 13 ≤ s.availableSpace) :
    ∃ s', s.createTable name (some id) = (true, s') ∧ Consistent s' (es ++ [(name, id)]) ∧
      s'.tbIdToMeta = s.tbIdToMeta.insertNew id name := by
  have hav := h.availableSpace_eq
  have hroom := h.stores.room
  have hlen : (name.length : ℤ) < 2^31 := by omega
  have hw : wrap32 name.length = name.length := wrap32_of_isI32 ⟨by omega, hlen⟩
  have hcheck : ¬ wrap32 (name.length + tableRecordSz) > s.availableSpace := by
    rw [tableRecordSz_eq, wrap32_of_isI32 ⟨by omega, by omega⟩]
    omega
  have hfsp : wrap32 (s.freeSpacePointer - (wrap32 name.length + 1)) =
      4096 - used es - (name.length + 1) := by
    rw [hw, h.fsp]
    exact wrap32_of_isI32 ⟨by omega, by omega⟩
  refine ⟨_, by rw [createTable, if_neg hname, if_neg hcheck], ?_, rfl⟩
  have hnames : ((es ++ [(name, id)]).map Prod.fst).Nodup := by
    rw [List.map_append]
    refine h.names.append (by simp) ?_
    simpa using fun a ha => hname (h.mem_tbNameToId.mpr (by simpa using ⟨a, ha⟩))
  have hids : ((es ++ [(name, id)]).map Prod.snd).Nodup := by
    rw [List.map_append]
    refine h.ids.append (by simp) ?_
    simpa using fun a ha => hid (h.mem_tbIdToName.mpr (by simpa using ⟨a, ha⟩))
  refine ⟨?_, ?_, ?_, ?_, hnames, hids, ?_, ?_, ?_⟩
  · dsimp only
    rw [hfsp, tableNumOffset_eq, h.stores.count, h.num]
    exact h.stores.create (by omega) ⟨by omega, hlt⟩
  · simp [h.num]
  · dsimp only
    rw [hfsp, used_append, used_cons]
    simp [used]
    ring
  · intro e he
    rcases List.mem_append.mp he with he | he
    · exact h.noNul e he
    · rw [List.mem_singleton.mp he]
      exact hnul
  · intro e he
    rcases List.mem_append.mp he with he | he
    · exact h.isId e he
    · rw [List.mem_singleton.mp he]
      exact ⟨h0, hlt⟩
  · rw [idToName_append, ← h.byId]
  · rw [nameToId_append, ← h.byName]

/-! ## `delete_table` -/

section Delete

variable {data : Bytes} {es : List Entry} {i : ℕ}

theorem compactStep_succ {shift o z : ℤ} {j : ℕ} (ho : tbNameOffset data (j + 1 : ℕ) = o)
    (hz : tbNameSz data (j + 1 : ℕ) = z) : compactStep shift data (j + 1) =
      addI32 ((data.memmove (68 + 12 * j) (68 + 12 * (j + 1 : ℕ)) 12).memmove (o + shift) o (z + 1))
        (68 + 12 * j) shift := by
  have e : recordOffset ((j + 1 : ℕ) : ℤ) - tableRecordSz = 68 + 12 * j := by
    rw [recordOffset_eq, tableRecordSz_eq]
    push_cast
    ring
  simp only [compactStep, ho, hz, e]
  rw [recordOffset_eq, tableRecordSz_eq]

theorem Stores.compact (h : Stores data es) (hi : i < es.length) {m : ℕ} (hm : i + m < es.length) : Shape es i
      (fun k => if i ≤ k ∧ k < i + m then nameOffset es (k + 1) + ((nameOf es i).length + 1) else nameOffset es k)
      (fun k => if i ≤ k ∧ k < i + m then (nameOf es (k + 1)).length else (nameOf es k).length)
      (fun k => if i ≤ k ∧ k < i + m then idOf es (k + 1) else idOf es k)
      (fun k => if i < k ∧ k ≤ i + m then nameOffset es k + ((nameOf es i).length + 1) else nameOffset es k)
      ((List.range' (i + 1) m).foldl (compactStep ((nameOf es i).length + 1)) data) := by
  induction m with
  | zero =>
    refine (h.shape i).congr (fun k _ => if_neg (by omega)) (fun k _ => ?_) (fun k _ => if_neg (by omega))
      fun k _ _ => if_neg (by omega)
    rw [if_neg (by omega)]
  | succ m ih =>
    have hroom := h.room
    have ih := ih (by omega)
    rw [List.range'_1_concat, List.foldl_append, List.foldl_cons, List.foldl_nil]
    generalize (List.range' (i + 1) m).foldl (compactStep ((nameOf es i).length + 1)) data = d at ih ⊢
    have hj : i + m + 1 < es.length := by omega
    have hjo := ih.offset _ hj
    have hjs := ih.size _ hj
    rw [if_neg (by omega)] at hjo hjs
    rw [show i + 1 + m = i + m + 1 by omega, compactStep_succ hjo hjs]
    have hlow := le_nameOffset es (i + m + 1)
    have hhigh := nameOffset_add_le_pageSize hi
    have hbelow := nameOffset_add_le hj (show i < i + m + 1 by omega)
    -- The record first, then the name, then the offset in the record.
    have h1 := ih.copyRecord hj
    have h2 := h1.move (nameOffset es (i + m + 1))
      (nameOffset es (i + m + 1) + ((nameOf es i).length + 1)) hj (fun _ => (if_neg (by omega)).symm)
      (by omega) ?_
    · have h3 := h2.addOffset ((nameOf es i).length + 1) (show i + m < es.length by omega) ?_
      · refine h3.congr (fun k hk => ?_) (fun k hk => ?_) (fun k hk => ?_) fun k hk hki => ?_
        all_goals simp only [Function.update_apply, if_true]
        · obtain rfl | hne := eq_or_ne k (i + m)
          · rw [if_pos (by omega), if_pos rfl, if_neg (by omega)]
          · rw [if_neg hne, if_neg hne]
            exact if_congr (by omega) rfl rfl
        · obtain rfl | hne := eq_or_ne k (i + m)
          · rw [if_pos (by omega), if_pos rfl, if_neg (by omega)]
          · rw [if_neg hne]
            exact if_congr (by omega) rfl rfl
        · obtain rfl | hne := eq_or_ne k (i + m)
          · rw [if_pos (by omega), if_pos rfl, if_neg (by omega)]
          · rw [if_neg hne]
            exact if_congr (by omega) rfl rfl
        · obtain rfl | hne := eq_or_ne k (i + m + 1)
          · rw [if_pos (by omega), if_pos rfl]
          · rw [if_neg hne]
            exact if_congr (by omega) rfl rfl
      · rw [Function.update_self, if_neg (by omega)]
        exact ⟨by omega, by omega⟩
    · intro k hk hki hkj
      -- The names above have been moved by as much, and those below have not been moved.
      rcases lt_or_gt_of_ne hkj with hlt | hgt
      · have := nameOffset_add_le hj hlt
        split_ifs
        · omega
        · have := nameOffset_add_le hi (show k < i by omega)
          omega
      · have := nameOffset_add_le hk hgt
        rw [if_neg (by omega)]
        omega

variable {pre post : List Entry} {e : Entry}

theorem nameOf_length (pre post : List Entry) (e : Entry) : nameOf (pre ++ e :: post) pre.length = e.1 := by
  rw [nameOf_append_right (le_refl _), Nat.sub_self]
  rfl

theorem idOf_length (pre post : List Entry) (e : Entry) : idOf (pre ++ e :: post) pre.length = e.2 := by
  rw [idOf_append_right (le_refl _), Nat.sub_self]
  rfl

theorem removed {k : ℕ} (h : pre.length ≤ k) :
    nameOffset (pre ++ post) k = nameOffset (pre ++ e :: post) (k + 1) + (e.1.length + 1) ∧
    nameOf (pre ++ post) k = nameOf (pre ++ e :: post) (k + 1) ∧
    idOf (pre ++ post) k = idOf (pre ++ e :: post) (k + 1) := by
  have hk : k + 1 - pre.length = k - pre.length + 1 := by omega
  refine ⟨?_, ?_, ?_⟩
  · rw [nameOffset_append_right h, nameOffset_append_right (by omega), hk, nameOffset_cons_succ]
    ring
  · rw [nameOf_append_right h, nameOf_append_right (by omega), hk, nameOf_cons_succ]
  · rw [idOf_append_right h, idOf_append_right (by omega), hk, idOf_cons_succ]

theorem kept {k : ℕ} (h : k < pre.length) (l l' : List Entry) :
    nameOffset (pre ++ l) k = nameOffset (pre ++ l') k ∧ nameOf (pre ++ l) k = nameOf (pre ++ l') k ∧
    idOf (pre ++ l) k = idOf (pre ++ l') k := by
  rw [nameOffset_append_left h, nameOffset_append_left h, nameOf_append_left h, nameOf_append_left h,
    idOf_append_left h, idOf_append_left h]
  exact ⟨rfl, rfl, rfl⟩

theorem Stores.delete (h : Stores data (pre ++ e :: post)) :
    Stores (((List.range' (pre.length + 1) post.length).foldl (compactStep (e.1.length + 1)) data).setI32 64
      (pre.length + post.length)) (pre ++ post) := by
  have hroom := h.room
  have hlen : (pre ++ e :: post).length = pre.length + post.length + 1 := by simp; omega
  have hused : used (pre ++ e :: post) = used (pre ++ post) + (e.1.length + 1) := by
    rw [used_append, used_cons, used_append]
    omega
  have hs := h.compact (i := pre.length) (m := post.length) (by omega) (by omega)
  rw [nameOf_length] at hs
  generalize (List.range' (pre.length + 1) post.length).foldl (compactStep (e.1.length + 1)) data = d at hs ⊢
  have hn : (pre ++ post).length = pre.length + post.length := List.length_append
  have hsame : ∀ x, 68 ≤ x → d.setI32 64 (pre.length + post.length) x = d x := fun x hx =>
    Bytes.setI32_of_notMem (by omega)
  refine ⟨?_, fun k hk => ?_, fun k hk => ?_, fun k hk => ?_, fun k hk => ?_, by omega⟩
  · rw [hn, Bytes.i32_setI32 ⟨by omega, by omega⟩]
    rfl
  · have hd : tbNameOffset (d.setI32 64 (pre.length + post.length)) k = tbNameOffset d k := by
      rw [tbNameOffset_eq, tbNameOffset_eq]
      exact Bytes.i32_congr fun x hx => hsame _ (by omega)
    rw [hd, hs.offset k (by omega)]
    split_ifs with hc
    · rw [(removed hc.1).1]
    · rw [(kept (by omega) post (e :: post)).1]
  · have hd : tbNameSz (d.setI32 64 (pre.length + post.length)) k = tbNameSz d k := by
      rw [tbNameSz_eq, tbNameSz_eq]
      exact Bytes.i32_congr fun x hx => hsame _ (by omega)
    rw [hd, hs.size k (by omega)]
    split_ifs with hc
    · rw [(removed hc.1).2.1]
    · rw [(kept (by omega) post (e :: post)).2.1]
  · have hd : tbPageId (d.setI32 64 (pre.length + post.length)) k = tbPageId d k := by
      rw [tbPageId_eq, tbPageId_eq]
      exact Bytes.i32_congr fun x hx => hsame _ (by omega)
    rw [hd, hs.pageId k (by omega)]
    split_ifs with hc
    · rw [(removed hc.1).2.2]
    · rw [(kept (by omega) post (e :: post)).2.2]
  · have hlow := le_nameOffset (pre ++ post) k
    have hd : ∀ len, (d.setI32 64 (pre.length + post.length)).read (nameOffset (pre ++ post) k) len =
        d.read (nameOffset (pre ++ post) k) len := fun len =>
      Bytes.read_congr fun x hx => hsame _ (by omega)
    rw [hd]
    by_cases hc : pre.length ≤ k
    · have hname := hs.name (k + 1) (by omega) (by omega)
      rw [if_pos ⟨by omega, by omega⟩] at hname
      rw [(removed hc).1, (removed hc).2.1, hname]
    · have hname := hs.name k (by omega) (by omega)
      rw [if_neg (by omega)] at hname
      rw [(kept (by omega) post (e :: post)).1, (kept (by omega) post (e :: post)).2.1, hname]

end Delete

section DeleteTable

variable {s : CatalogTable} {pre post : List Entry} {name : List UInt8} {id : ℤ}

theorem Stores.findTable_eq (h : Stores s.data (pre ++ (name, id) :: post))
    (hnum : s.tableNum = (pre ++ (name, id) :: post).length) (hid : id ∉ pre.map Prod.snd) :
    s.findTable id = (pre.length, recordOffset pre.length) := by
  have hlen : (pre ++ (name, id) :: post).length = pre.length + post.length + 1 := by simp; omega
  have hfind : (List.range s.tableNum.toNat).find? (fun i : ℕ => tbPageId s.data i = id) =
      some pre.length := by
    rw [List.find?_range_eq_some]
    refine ⟨?_, List.mem_range.mpr (by omega), fun j hj => ?_⟩
    · have := h.pageId pre.length (by omega)
      rw [idOf_length] at this
      simpa using this
    · have hmem : idOf (pre ++ (name, id) :: post) j ∈ pre.map Prod.snd := by
        rw [idOf_append_left hj]
        simp [idOf, hj]
        exact ⟨_, List.getElem_mem hj⟩
      rw [h.pageId j (by omega), Bool.not_eq_true', decide_eq_false_iff_not]
      intro he
      rw [he] at hmem
      exact hid hmem
  rw [findTable, hfind]

theorem Stores.deleteTable_eq (h : Stores s.data (pre ++ (name, id) :: post))
    (hnum : s.tableNum = (pre ++ (name, id) :: post).length)
    (hfsp : s.freeSpacePointer = 4096 - used (pre ++ (name, id) :: post)) (hid : id ∉ pre.map Prod.snd)
    {inMap : List UInt8} (hlookup : s.tbIdToName.lookup id = some inMap) (hmem : inMap ∈ s.tbNameToId) :
    ∃ s', s.deleteTable id = some (true, s') ∧ Stores s'.data (pre ++ post) ∧
      s'.tableNum = s.tableNum - 1 ∧ s'.freeSpacePointer = s.freeSpacePointer + (name.length + 1) ∧
      s'.tbIdToName = s.tbIdToName.erase id ∧ s'.tbNameToId = s.tbNameToId.erase inMap ∧
      s'.tbIdToMeta = s.tbIdToMeta.erase id := by
  have hroom := h.room
  have hlen : (pre ++ (name, id) :: post).length = pre.length + post.length + 1 := by simp; omega
  have hused : used (pre ++ (name, id) :: post) = used (pre ++ post) + (name.length + 1) := by
    rw [used_append, used_cons, used_append]
    dsimp only
    omega
  have hoff : recordOffset pre.length ≠ -1 := by rw [recordOffset_eq]; omega
  have hsize : s.data.i32 (recordOffset pre.length + offsetTSize) = name.length := by
    have := h.size pre.length (by omega)
    rwa [nameOf_length] at this
  have hfold : s.tableNum.toNat - (pre.length + 1) = post.length := by rw [hnum]; omega
  refine ⟨_, by rw [deleteTable, hlookup]; simp only [h.findTable_eq hnum hid, if_neg hoff, if_pos hmem]; rfl,
    ?_, rfl, ?_, rfl, rfl, rfl⟩
  · dsimp only
    rw [hsize, hfold, tableNumOffset_eq, hnum, hlen]
    have := h.delete
    convert this using 2
    push_cast
    ring
  · dsimp only
    rw [hsize, hfsp, hused]
    rw [wrap32_of_isI32 ⟨by omega, by omega⟩]

section

variable (h : Consistent s (pre ++ (name, id) :: post))
include h

theorem Consistent.others :
    ((pre ++ post).map Prod.fst).Nodup ∧ ((pre ++ post).map Prod.snd).Nodup ∧
      name ∉ (pre ++ post).map Prod.fst ∧ id ∉ (pre ++ post).map Prod.snd := by
  have hn := h.names
  have hi := h.ids
  rw [List.map_append, List.map_cons, List.nodup_middle, ← List.map_append, List.nodup_cons] at hn hi
  exact ⟨hn.2, hi.2, hn.1, hi.1⟩

theorem Consistent.notMem_pre : id ∉ pre.map Prod.snd :=
  fun hm => h.others.2.2.2 (by rw [List.map_append]; exact List.mem_append_left _ hm)

theorem Consistent.findTable_eq :
    s.findTable id = (pre.length, recordOffset pre.length) :=
  h.stores.findTable_eq h.num h.notMem_pre

theorem Consistent.erase_maps :
    s.tbIdToName.erase id = idToName (pre ++ post) ∧ s.tbNameToId.erase name = nameToId (pre ++ post) := by
  rw [h.byId, h.byName]
  exact ⟨UnorderedMap.erase_foldl_insertNew h.ids, UnorderedMap.erase_foldl_insertNew h.names⟩

theorem Consistent.delete :
    ∃ s', s.deleteTable id = some (true, s') ∧ Consistent s' (pre ++ post) ∧ s'.tbIdToMeta = s.tbIdToMeta.erase id := by
  have hlookup : s.tbIdToName.lookup id = some name := h.lookup_id.mpr (by simp)
  have hmem : name ∈ s.tbNameToId := h.mem_tbNameToId.mpr (by simp)
  obtain ⟨s', hdel, hstores, hnum, hfsp, hbyId, hbyName, hmeta⟩ :=
    h.stores.deleteTable_eq h.num h.fsp h.notMem_pre hlookup hmem
  obtain ⟨hnames, hids, -, -⟩ := h.others
  have hsub : ∀ e ∈ pre ++ post, e ∈ pre ++ (name, id) :: post := fun e he => mem_middle.mpr (Or.inr he)
  refine ⟨s', hdel, ⟨hstores, ?_, ?_, fun e he => h.noNul e (hsub e he), hnames, hids,
    fun e he => h.isId e (hsub e he), hbyId.trans h.erase_maps.1, hbyName.trans h.erase_maps.2⟩, hmeta⟩
  · rw [hnum, h.num]
    simp
    ring
  · rw [hfsp, h.fsp, used_append, used_append, used_cons]
    push_cast
    ring

end

/-- `delete_table` leaves a page of the same form without the record of the table, and the constructor makes of
it what it made of the old one, without the table. -/
theorem deleteTable_compacts {data : Bytes} {es : List Entry} (h : Stores data es)
    (hid : id ∈ es.map Prod.snd) (metas : UnorderedMap ℤ (List UInt8)) : ∃ pre name post s',
      es = pre ++ (name, id) :: post ∧ id ∉ pre.map Prod.snd ∧
      deleteTable { ofPage data with tbIdToMeta := metas } id = some (true, s') ∧
      Stores s'.data (pre ++ post) ∧ s'.tableNum = (ofPage data).tableNum - 1 ∧
      s'.data.i32 tableNumOffset = s'.tableNum ∧
      s'.freeSpacePointer = (ofPage data).freeSpacePointer + (name.length + 1) ∧
      entries s'.data = (entries data).eraseIdx pre.length ∧
      (((entries data).map Prod.fst).Nodup → ((entries data).map Prod.snd).Nodup →
        ofPage s'.data = { s' with tbIdToMeta := ∅ }) := by
  obtain ⟨ids, ids', hes, hids⟩ := List.eq_append_cons_of_mem hid
  obtain ⟨pre, rest, rfl, rfl, hrest⟩ := List.map_eq_append_iff.mp hes
  obtain ⟨⟨name, id⟩, post, rfl, rfl, -⟩ := List.map_eq_cons_iff.mp hrest
  have hcount := h.count
  have hfsp := h.freeSpacePointer_ofPage
  have hentries : entries data = pre.map cEntry ++ cEntry (name, id) :: post.map cEntry := by
    rw [h.entries_eq_map, List.map_append, List.map_cons]
  have hpre : (cEntry (name, id)).2 ∉ (pre.map cEntry).map Prod.snd := by
    rwa [List.map_map, show Prod.snd ∘ cEntry = Prod.snd from rfl]
  have hlookup : (idToName (entries data)).lookup id = some (cEntry (name, id)).1 := by
    rw [hentries]
    exact lookup_idToName_first hpre
  have hmem : (cEntry (name, id)).1 ∈ nameToId (entries data) := mem_nameToId (by simp [hentries])
  obtain ⟨s', hdel, hstores, hnum', hfsp', hbyId, hbyName, -⟩ :=
    Stores.deleteTable_eq (s := { ofPage data with tbIdToMeta := metas }) h hcount hfsp hids hlookup hmem
  have hentries' : entries s'.data = pre.map cEntry ++ post.map cEntry := by
    rw [hstores.entries_eq_map, List.map_append]
  have hnum : s'.tableNum = (pre ++ post).length := by
    rw [hnum']
    simp only [ofPage, tableNumOffset_eq, hcount]
    simp
    ring
  refine ⟨pre, name, post, s', rfl, hids, hdel, hstores, hnum', hstores.count.trans hnum.symm, hfsp', ?_,
    fun hn hi => ?_⟩
  · rw [hentries', hentries, List.eraseIdx_append_of_length_le (by simp)]
    simp
  · rw [hentries] at hn hi
    refine hstores.ofPage_eq hnum ?_ ?_ ?_
    · rw [hfsp', hfsp, used_append, used_append, used_cons]
      push_cast
      ring
    · rw [hbyId, hentries']
      simp only [ofPage, hentries]
      exact UnorderedMap.erase_foldl_insertNew hi
    · rw [hbyName, hentries']
      simp only [ofPage, hentries]
      exact UnorderedMap.erase_foldl_insertNew hn

/-- The first of two tables is deleted. -/
theorem deleteTable_compacts_two : ∃ data pre name post s', Stores data [([116], 1), ([117, 118], 2)] ∧
    [([116], 1), ([117, 118], 2)] = pre ++ (name, (1 : ℤ)) :: post ∧
    deleteTable { ofPage data with tbIdToMeta := ∅ } 1 = some (true, s') ∧ Stores s'.data (pre ++ post) := by
  obtain ⟨s, hs⟩ : ∃ s, Consistent s [([116], 1)] := by
    obtain ⟨s, -, hs, -⟩ := @Consistent.create _ _ (consistent_fromScratch 0) [116] 1 (by decide) (by decide)
      (by decide) (by norm_num) (by norm_num) (by decide)
    exact ⟨s, hs⟩
  have hav := hs.availableSpace_eq
  obtain ⟨s', -, hs', -⟩ := @Consistent.create _ _ hs [117, 118] 2 (by simp [hs.mem_tbNameToId])
    (by simp [hs.mem_tbIdToName]) (by decide) (by norm_num) (by norm_num) (by rw [hav]; decide)
  have hid : (1 : ℤ) ∈ ([([116], 1), ([117, 118], 2)] : List Entry).map Prod.snd := by simp
  obtain ⟨pre, name, post, c, hes, -, hdel, hc, -⟩ := deleteTable_compacts hs'.stores hid ∅
  exact ⟨s'.data, pre, name, post, c, hs'.stores, hes, hdel, hc⟩

end DeleteTable

end Dawn.CatalogTable
