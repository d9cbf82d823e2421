import Dawn.Meta.CatalogOps

/-!
# Renaming tables

What `change_table_name` does to a consistent catalog. A shorter name moves the names below it up
(`Stores.shrink`), a longer one moves them and its own down (`Stores.grow`); then the new name is stored
(`Shape.finish`).

Where the loop for a shorter name does not run, because the table is the last one, nothing updates the
offset in its record, while `free_space_pointer_` goes up all the same. A longer name is let in by
`check_space` although it needs up to four bytes more than there are.
-/

namespace Dawn.CatalogTable

open Function

section Loops

variable {data : Bytes} {es : List Entry} {i : ℕ} {d : ℕ}

theorem shrinkStep_succ {n o z v : ℤ} {j : ℕ} (ho : tbNameOffset data (j + 1 : ℕ) = o)
    (hz : tbNameSz data (j + 1 : ℕ) = z) : shrinkStep n v data (j + 1) = if ((j + 1 : ℕ) : ℤ) = n - 1 then
        addI32 (addI32 (data.memmove (o + v) o (z + 1)) (68 + 12 * j) v) (68 + 12 * (j + 1 : ℕ)) v
      else addI32 (data.memmove (o + v) o (z + 1)) (68 + 12 * j) v := by
  have e : recordOffset ((j + 1 : ℕ) : ℤ) - tableRecordSz = 68 + 12 * j := by
    rw [recordOffset_eq, tableRecordSz_eq]
    push_cast
    ring
  simp only [shrinkStep, ho, hz, e]
  rw [recordOffset_eq]

/-- The pages in the loop for a name that becomes `d` bytes shorter: `m` rounds after the record at
index `i`. The offset of a record is changed one round after its name has been moved, but for the last
one. -/
theorem Stores.shrink (h : Stores data es) (hi : i < es.length) (hd : d ≤ (nameOf es i).length) {m : ℕ}
    (hm : i + m < es.length) : Shape es i
      (fun k => if i ≤ k ∧ (k < i + m ∨ k + 1 = es.length ∧ i + m + 1 = es.length ∧ 0 < m)
        then nameOffset es k + d else nameOffset es k) (fun k => (nameOf es k).length) (idOf es)
      (fun k => if i < k ∧ k ≤ i + m then nameOffset es k + d else nameOffset es k)
      ((List.range' (i + 1) m).foldl (shrinkStep es.length d) data) := by
  induction m with
  | zero =>
    exact (h.shape i).congr (fun k _ => if_neg (by omega)) (fun k _ => rfl) (fun k _ => rfl)
      fun k _ _ => if_neg (by omega)
  | succ m ih =>
    have hroom := h.room
    have ih := ih (by omega)
    rw [List.range'_1_concat, List.foldl_append, List.foldl_cons, List.foldl_nil]
    generalize (List.range' (i + 1) m).foldl (shrinkStep es.length d) data = p at ih ⊢
    have hj : i + m + 1 < es.length := by omega
    have hjo := ih.offset _ hj
    rw [if_neg (by omega)] at hjo
    rw [show i + 1 + m = i + m + 1 by omega, shrinkStep_succ hjo (ih.size _ hj)]
    have hlow := le_nameOffset es (i + m + 1)
    have hhigh := nameOffset_add_le_pageSize hi
    have hbelow := nameOffset_add_le hj (show i < i + m + 1 by omega)
    have hprev := nameOffset_add_le_pageSize (show i + m < es.length by omega)
    have hlow' := le_nameOffset es (i + m)
    have h1 := ih.move (nameOffset es (i + m + 1)) (nameOffset es (i + m + 1) + d) hj
      (fun _ => (if_neg (by omega)).symm) (by omega) ?_
    · have h2 := h1.addOffset d (show i + m < es.length by omega) ?_
      · have hpos : ∀ k < es.length, k ≠ i →
            (if i < k ∧ k ≤ i + (m + 1) then nameOffset es k + d else nameOffset es k) =
            update (fun k => if i < k ∧ k ≤ i + m then nameOffset es k + d else nameOffset es k)
              (i + m + 1) (nameOffset es (i + m + 1) + d) k := by
          intro k _ _
          rw [update_apply]
          obtain rfl | hne := eq_or_ne k (i + m + 1)
          · rw [if_pos (by omega), if_pos rfl]
          · rw [if_neg hne]
            exact if_congr (by omega) rfl rfl
        split_ifs with hlast
        · -- The last round changes the offset of the last record, too.
          have h3 := h2.addOffset d hj ?_
          · refine h3.congr (fun k hk => ?_) (fun k _ => rfl) (fun k _ => rfl) hpos
            simp only [update_apply]
            obtain rfl | hne := eq_or_ne k (i + m + 1)
            · rw [if_pos (by omega), if_pos rfl, if_neg (by omega), if_neg (by omega)]
            · rw [if_neg hne]
              obtain rfl | hne' := eq_or_ne k (i + m)
              · rw [if_pos (by omega), if_pos rfl, if_neg (by omega)]
              · rw [if_neg hne']
                exact if_congr (by omega) rfl rfl
          · rw [update_of_ne (by omega), if_neg (by omega)]
            exact ⟨by omega, by omega⟩
        · refine h2.congr (fun k hk => ?_) (fun k _ => rfl) (fun k _ => rfl) hpos
          rw [update_apply]
          obtain rfl | hne := eq_or_ne k (i + m)
          · rw [if_pos (by omega), if_pos rfl, if_neg (by omega)]
          · rw [if_neg hne]
            exact if_congr (by omega) rfl rfl
      · rw [if_neg (by omega)]
        exact ⟨by omega, by omega⟩
    · intro k hk hki hkj
      rcases lt_or_gt_of_ne hkj with hlt | hgt
      · have := nameOffset_add_le hj hlt
        split_ifs
        · omega
        · have := nameOffset_add_le hi (show k < i by omega)
          omega
      · have := nameOffset_add_le hk hgt
        rw [if_neg (by omega)]
        omega

theorem Stores.grow (h : Stores data es) (hd : 68 + 12 * es.length + used es + d ≤ 4096) {m : ℕ}
    (hm : i + m ≤ es.length) : Shape es i (fun k => if es.length ≤ k + m then nameOffset es k - d else nameOffset es k)
      (fun k => (nameOf es k).length) (idOf es)
      (fun k => if es.length ≤ k + m then nameOffset es k - d else nameOffset es k)
      ((List.range' (es.length - m) m).reverse.foldl (growStep d) data) := by
  induction m with
  | zero =>
    exact (h.shape i).congr (fun k _ => if_neg (by omega)) (fun k _ => rfl) (fun k _ => rfl)
      fun k _ _ => if_neg (by omega)
  | succ m ih =>
    have ih := ih (by omega)
    obtain ⟨j, hj⟩ : ∃ j, es.length - (m + 1) = j := ⟨_, rfl⟩
    rw [hj, List.range'_succ, List.reverse_cons, List.foldl_append, List.foldl_cons, List.foldl_nil,
      show j + 1 = es.length - m by omega]
    generalize (List.range' (es.length - m) m).reverse.foldl (growStep d) data = p at ih ⊢
    have hjn : j < es.length := by omega
    have hjo := ih.offset j hjn
    rw [if_neg (by omega)] at hjo
    have hlow := le_nameOffset es j
    have hhigh := nameOffset_add_le_pageSize hjn
    have h1 := ih.move (nameOffset es j) (nameOffset es j - d) hjn (fun _ => (if_neg (by omega)).symm)
      (by omega) ?_
    · have h2 := h1.addOffset (-d) hjn ?_
      · have hupd : ∀ k < es.length,
            (if es.length ≤ k + (m + 1) then nameOffset es k - d else nameOffset es k) =
            update (fun k => if es.length ≤ k + m then nameOffset es k - d else nameOffset es k)
              j (nameOffset es j - d) k := by
          intro k _
          rw [update_apply]
          obtain rfl | hne := eq_or_ne k j
          · rw [if_pos (by omega), if_pos rfl]
          · rw [if_neg hne]
            exact if_congr (by omega) rfl rfl
        simp only [growStep, hjo, ih.size j hjn]
        rw [recordOffset_eq]
        refine h2.congr (fun k hk => ?_) (fun k _ => rfl) (fun k _ => rfl) fun k hk _ => hupd k hk
        rw [hupd k hk, if_neg (by omega), ← sub_eq_add_neg]
      · rw [if_neg (by omega)]
        exact ⟨by omega, by omega⟩
    · intro k hk hki hkj
      -- The names below have been moved by as much, and those above have not been moved.
      rcases lt_or_gt_of_ne hkj with hlt | hgt
      · have := nameOffset_add_le hjn hlt
        rw [if_neg (by omega)]
        omega
      · have := nameOffset_add_le hk hgt
        rw [if_pos (by omega)]
        omega

end Loops

/-! ## The new name -/

section Finish

variable {data : Bytes} {pre post : List Entry} {e e' : Entry}

theorem replaced {k : ℕ} (h : pre.length ≤ k) : nameOffset (pre ++ e' :: post) k =
    nameOffset (pre ++ e :: post) k + e.1.length - e'.1.length := by
  rw [nameOffset_append_right h, nameOffset_append_right h]
  cases k - pre.length with
  | zero =>
    rw [nameOffset_cons_zero, nameOffset_cons_zero]
    ring
  | succ k =>
    rw [nameOffset_cons_succ, nameOffset_cons_succ]
    ring

theorem unchanged {k : ℕ} (h : k ≠ pre.length) (e e' : Entry) (post : List Entry) :
    nameOf (pre ++ e' :: post) k = nameOf (pre ++ e :: post) k ∧
    idOf (pre ++ e' :: post) k = idOf (pre ++ e :: post) k := by
  rcases lt_or_gt_of_ne h with hk | hk
  · exact (kept hk _ _).2
  · obtain ⟨m, hm⟩ : ∃ m, k - pre.length = m + 1 := ⟨k - pre.length - 1, by omega⟩
    rw [nameOf_append_right hk.le, nameOf_append_right hk.le, idOf_append_right hk.le, idOf_append_right hk.le, hm]
    exact ⟨rfl, rfl⟩

theorem Shape.finish (h : Shape (pre ++ e :: post) pre.length (nameOffset (pre ++ e' :: post))
      (fun k => (nameOf (pre ++ e :: post) k).length) (idOf (pre ++ e :: post)) (nameOffset (pre ++ e' :: post)) data)
    (hid : e'.2 = e.2) (hroom : 68 + 12 * (pre ++ e' :: post).length + used (pre ++ e' :: post) ≤ 4096) :
    Stores ((data.write (nameOffset (pre ++ e' :: post) pre.length) (e'.1 ++ [0])).setI32
      (68 + 12 * pre.length + 4) e'.1.length) (pre ++ e' :: post) := by
  have hlen : (pre ++ e' :: post).length = (pre ++ e :: post).length := by simp
  have hi : pre.length < (pre ++ e :: post).length := by simp
  have hlow := le_nameOffset (pre ++ e' :: post) pre.length
  have htop := nameOffset_add_le_pageSize (show pre.length < (pre ++ e' :: post).length by omega)
  have hused : e'.1.length + 1 ≤ used (pre ++ e' :: post) := by
    rw [used_append, used_cons]
    omega
  rw [hlen] at hroom
  generalize hd : data.write (nameOffset (pre ++ e' :: post) pre.length) (e'.1 ++ [0]) = d
  -- The store of the name changes no record, and that of the size changes no other field.
  have hrec : SameRecords (pre ++ e :: post).length data d := fun x _ hx => by
    rw [← hd]
    exact Bytes.write_of_notMem (by omega)
  have hsz : IsI32 e'.1.length := ⟨by omega, by omega⟩
  refine ⟨?_, fun k hk => ?_, fun k hk => ?_, fun k hk => ?_, fun k hk => ?_, by rw [hlen]; exact hroom⟩
  · rw [Bytes.i32_setI32_of_disjoint (by omega), hrec.count, h.count, hlen]
  · rw [hlen] at hk
    rw [← h.offset k hk, ← hrec.tbNameOffset hk, tbNameOffset_eq, tbNameOffset_eq]
    exact Bytes.i32_setI32_of_disjoint (by omega)
  · rw [hlen] at hk
    rw [tbNameSz_eq]
    obtain rfl | hne := eq_or_ne k pre.length
    · rw [Bytes.i32_setI32 hsz, nameOf_length]
    · rw [(unchanged hne e e' post).1, ← h.size k hk, ← hrec.tbNameSz hk, tbNameSz_eq]
      exact Bytes.i32_setI32_of_disjoint (by omega)
  · rw [hlen] at hk
    have hidk : idOf (pre ++ e' :: post) k = idOf (pre ++ e :: post) k := by
      obtain rfl | hne := eq_or_ne k pre.length
      · rw [idOf_length, idOf_length, hid]
      · exact (unchanged hne e e' post).2
    rw [hidk, ← h.pageId k hk, ← hrec.tbPageId hk, tbPageId_eq, tbPageId_eq]
    exact Bytes.i32_setI32_of_disjoint (by omega)
  · have hlowk := le_nameOffset (pre ++ e' :: post) k
    rw [Bytes.read_setI32_of_disjoint (by omega)]
    obtain rfl | hne := eq_or_ne k pre.length
    · rw [nameOf_length, ← hd]
      have := Bytes.read_write data (nameOffset (pre ++ e' :: post) pre.length) (e'.1 ++ [0])
      rwa [List.length_append, List.length_singleton] at this
    · rw [(unchanged hne e e' post).1, ← h.name k (by omega) hne, ← hd]
      refine Bytes.read_write_of_disjoint ?_
      rw [← (unchanged hne e e' post).1]
      rcases lt_or_gt_of_ne hne with hlt | hgt
      · have := nameOffset_add_le (show pre.length < (pre ++ e' :: post).length by omega) hlt
        rw [nameOf_length] at this
        right
        rw [List.length_append, List.length_singleton]
        omega
      · have := nameOffset_add_le hk hgt
        left
        omega

end Finish

/-! ## `change_table_name` -/

section Rename

variable {s : CatalogTable} {pre post : List Entry} {oldName newName : List UInt8} {id : ℤ}

/-- The new name can be stored: it is not longer than the free space allows, and not shorter if its table
is the last one. -/
def Renamable (s : CatalogTable) (post : List Entry) (oldName newName : List UInt8) : Prop :=
  (newName.length < oldName.length → post ≠ []) ∧
  (oldName.length < newName.length → (newName.length : ℤ) - oldName.length ≤ s.availableSpace)

theorem used_replace (pre post : List Entry) (oldName newName : List UInt8) (id : ℤ) :
    (used (pre ++ (newName, id) :: post) : ℤ) =
      used (pre ++ (oldName, id) :: post) + newName.length - oldName.length := by
  rw [used_append, used_cons, used_append, used_cons]
  push_cast
  ring

theorem nameOffset_replace (pre post : List Entry) (oldName newName : List UInt8) (id : ℤ) (k : ℕ) :
    nameOffset (pre ++ (newName, id) :: post) k =
      if pre.length ≤ k then nameOffset (pre ++ (oldName, id) :: post) k + oldName.length - newName.length
      else nameOffset (pre ++ (oldName, id) :: post) k := by
  split_ifs with hk
  · exact replaced hk
  · exact (kept (not_le.mp hk) _ _).1

/-- What the page is when room has been made for the new name. -/
def RoomMade (s : CatalogTable) (pre post : List Entry) (oldName newName : List UInt8) (id : ℤ) : Prop :=
  ∃ data, s.makeRoom pre.length (wrap32 ((newName.length : ℤ) - oldName.length)) =
      some (data, 4096 - (used (pre ++ (newName, id) :: post) : ℤ)) ∧
    Shape (pre ++ (oldName, id) :: post) pre.length (nameOffset (pre ++ (newName, id) :: post))
      (fun k => (nameOf (pre ++ (oldName, id) :: post) k).length) (idOf (pre ++ (oldName, id) :: post))
      (nameOffset (pre ++ (newName, id) :: post)) data

section MakeRoom

variable (h : Consistent s (pre ++ (oldName, id) :: post))
include h

theorem Consistent.name_le : oldName.length + 1 ≤ used (pre ++ (oldName, id) :: post) ∧
    68 + 12 * (pre.length + post.length + 1) + used (pre ++ (oldName, id) :: post) ≤ 4096 := by
  have hroom := h.stores.room
  rw [List.length_append, List.length_cons, ← Nat.add_assoc] at hroom
  rw [used_append, used_cons] at hroom ⊢
  dsimp only at hroom ⊢
  omega

theorem Consistent.roomMade_of_shorter {d : ℕ} (hd : oldName.length = newName.length + d) (hpos : 0 < d)
    (hpost : post ≠ []) : RoomMade s pre post oldName newName id := by
  obtain ⟨hused, hroom⟩ := h.name_le
  have hused' := used_replace pre post oldName newName id
  have hlen : (pre ++ (oldName, id) :: post).length = pre.length + post.length + 1 := by simp; omega
  have hpost' : 0 < post.length := List.length_pos_iff.mpr hpost
  have hw : wrap32 ((newName.length : ℤ) - oldName.length) = -d := by
    rw [wrap32_of_isI32 ⟨by omega, by omega⟩]
    omega
  have habs : wrap32 |(-d : ℤ)| = d := by
    rw [abs_neg, Nat.abs_cast, wrap32_of_isI32 ⟨by omega, by omega⟩]
  have hs := h.stores.shrink (i := pre.length) (d := d) (m := post.length) (by omega)
    (by rw [nameOf_length]; dsimp only; omega) (by omega)
  refine ⟨_, ?_, hs.congr (fun k hk => ?_) (fun k _ => rfl) (fun k _ => rfl) fun k hk hki => ?_⟩
  · rw [hw, makeRoom, if_pos (by omega), habs, h.fsp, wrap32_of_isI32 ⟨by omega, by omega⟩, h.num, hlen]
    congr 2
    · rw [Int.toNat_natCast, show pre.length + post.length + 1 - (pre.length + 1) = post.length by omega]
    · omega
  · rw [nameOffset_replace pre post oldName newName]
    split_ifs <;> omega
  · rw [nameOffset_replace pre post oldName newName]
    split_ifs <;> omega

theorem Consistent.roomMade_of_same (heq : newName.length = oldName.length) :
    RoomMade s pre post oldName newName id := by
  have hused' := used_replace pre post oldName newName id
  have hw : wrap32 ((newName.length : ℤ) - oldName.length) = 0 := by
    rw [heq, sub_self]
    exact wrap32_of_isI32 ⟨by omega, by omega⟩
  have hsame : ∀ k, nameOffset (pre ++ (newName, id) :: post) k =
      nameOffset (pre ++ (oldName, id) :: post) k := by
    intro k
    rw [nameOffset_replace pre post oldName newName]
    split_ifs <;> omega
  refine ⟨s.data, ?_, (h.stores.shape pre.length).congr (fun k _ => hsame k) (fun k _ => rfl)
    (fun k _ => rfl) fun k _ _ => hsame k⟩
  rw [hw, makeRoom, if_neg (by omega), if_neg (by omega), h.fsp]
  congr 2
  omega

theorem Consistent.roomMade_of_longer {d : ℕ} (hd : newName.length = oldName.length + d) (hpos : 0 < d)
    (hfit : (d : ℤ) ≤ s.availableSpace) : RoomMade s pre post oldName newName id := by
  have hav := h.availableSpace_eq
  have hused' := used_replace pre post oldName newName id
  have hlen : (pre ++ (oldName, id) :: post).length = pre.length + post.length + 1 := by simp; omega
  have hw : wrap32 ((newName.length : ℤ) - oldName.length) = d := by
    rw [wrap32_of_isI32 ⟨by omega, by omega⟩]
    omega
  have habs : wrap32 |(d : ℤ)| = d := by
    rw [Nat.abs_cast, wrap32_of_isI32 ⟨by omega, by omega⟩]
  have hcheck : s.checkSpace d = true := by
    simp only [checkSpace, tableNumOffset_eq, tableRecordSz_eq, h.fsp, h.num]
    rw [Bool.not_eq_true', decide_eq_false_iff_not]
    omega
  have hs := h.stores.grow (i := pre.length) (d := d) (m := post.length + 1) (by omega) (by omega)
  refine ⟨_, ?_, hs.congr (fun k hk => ?_) (fun k _ => rfl) (fun k _ => rfl) fun k hk hki => ?_⟩
  · rw [hw, makeRoom, if_neg (by omega), if_pos (by omega), habs, if_pos hcheck, h.fsp,
      wrap32_of_isI32 ⟨by omega, by omega⟩, h.num, hlen]
    congr 2
    · rw [Int.toNat_natCast, show pre.length + post.length + 1 - pre.length = post.length + 1 by omega,
        show pre.length + post.length + 1 - (post.length + 1) = pre.length by omega]
    · omega
  · rw [nameOffset_replace pre post oldName newName]
    split_ifs <;> omega
  · rw [nameOffset_replace pre post oldName newName]
    split_ifs <;> omega

theorem Consistent.makeRoom_eq (hr : Renamable s post oldName newName) : RoomMade s pre post oldName newName id := by
  rcases lt_trichotomy newName.length oldName.length with hlt | heq | hgt
  · obtain ⟨d, hd⟩ := Nat.exists_eq_add_of_le hlt.le
    exact h.roomMade_of_shorter hd (by omega) (hr.1 hlt)
  · exact h.roomMade_of_same heq
  · obtain ⟨d, hd⟩ := Nat.exists_eq_add_of_le hgt.le
    have hfit := hr.2 hgt
    exact h.roomMade_of_longer hd (by omega) (by omega)

end MakeRoom

theorem Consistent.rename_maps (h : Consistent s (pre ++ (oldName, id) :: post))
    (hnew : newName ∉ (pre ++ post).map Prod.fst) :
    UnorderedMap.insertNew (s.tbIdToName.erase id) id newName = idToName (pre ++ (newName, id) :: post) ∧
    UnorderedMap.insertNew (s.tbNameToId.erase oldName) newName id = nameToId (pre ++ (newName, id) :: post) := by
  obtain ⟨hnames, hids, -, hid⟩ := h.others
  have hnames' : ((pre ++ (newName, id) :: post).map Prod.fst).Nodup := by
    rw [List.map_append, List.map_cons, List.nodup_middle, ← List.map_append, List.nodup_cons]
    exact ⟨hnew, hnames⟩
  have hids' : ((pre ++ (newName, id) :: post).map Prod.snd).Nodup := by
    rw [List.map_append, List.map_cons, List.nodup_middle, ← List.map_append, List.nodup_cons]
    exact ⟨hid, hids⟩
  rw [h.erase_maps.1, h.erase_maps.2]
  constructor
  · have hnot : id ∉ idToName (pre ++ post) := fun hm => by
      obtain ⟨v, hv⟩ := Finmap.mem_iff.mp hm
      exact hid (List.mem_map_of_mem ((lookup_idToName hids).mp hv))
    refine UnorderedMap.ext_some fun k v => ?_
    rw [UnorderedMap.lookup_insertNew_eq_some hnot, lookup_idToName hids, lookup_idToName hids', mem_middle,
      Prod.mk.injEq, and_comm]
  · have hnot : newName ∉ nameToId (pre ++ post) := fun hm => by
      obtain ⟨v, hv⟩ := Finmap.mem_iff.mp hm
      exact hnew (List.mem_map_of_mem ((lookup_nameToId hnames).mp hv))
    refine UnorderedMap.ext_some fun k v => ?_
    rw [UnorderedMap.lookup_insertNew_eq_some hnot, lookup_nameToId hnames, lookup_nameToId hnames', mem_middle,
      Prod.mk.injEq]

theorem changeTableName_of_makeRoom {i : ℕ} {tbOffset freeSpacePointer : ℤ} {data : Bytes}
    (hlookup : s.tbIdToName.lookup id = some oldName) (hfind : s.findTable id = (i, tbOffset))
    (hoff : tbOffset ≠ -1) (hmake : s.makeRoom i (wrap32 ((newName.length : ℤ) - oldName.length)) =
      some (data, freeSpacePointer)) : s.changeTableName id newName = if id ∈ s.tbIdToMeta ∧ oldName ∈ s.tbNameToId then
        some (true, { s with
            data := (writeName data (data.i32 tbOffset) newName).setI32 (tbOffset + offsetTSize)
              newName.length
            freeSpacePointer := freeSpacePointer
            tbIdToName := UnorderedMap.insertNew (s.tbIdToName.erase id) id newName
            tbNameToId := UnorderedMap.insertNew (s.tbNameToId.erase oldName) newName id })
      else none := by
  rw [changeTableName, hlookup]
  simp only [hfind, if_neg hoff, hmake]

theorem Consistent.rename (h : Consistent s (pre ++ (oldName, id) :: post)) (hmeta : id ∈ s.tbIdToMeta)
    (hnew : newName ∉ (pre ++ post).map Prod.fst) (hnul : 0 ∉ newName) (hr : Renamable s post oldName newName) :
    ∃ s', s.changeTableName id newName = some (true, s') ∧ Consistent s' (pre ++ (newName, id) :: post) ∧
      s'.tbIdToMeta = s.tbIdToMeta := by
  obtain ⟨data, hmake, hshape⟩ := h.makeRoom_eq hr
  have hlookup : s.tbIdToName.lookup id = some oldName := h.lookup_id.mpr (by simp)
  have hold : oldName ∈ s.tbNameToId := h.mem_tbNameToId.mpr (by simp)
  have hoff : recordOffset pre.length ≠ -1 := by rw [recordOffset_eq]; omega
  have hroom := h.stores.room
  have hav := h.availableSpace_eq
  have hused := used_replace pre post oldName newName id
  have hlen : (pre ++ (newName, id) :: post).length = (pre ++ (oldName, id) :: post).length := by simp
  have hi : pre.length < (pre ++ (oldName, id) :: post).length := by simp
  have hroom' : 68 + 12 * (pre ++ (newName, id) :: post).length +
      used (pre ++ (newName, id) :: post) ≤ 4096 := by
    have := hr.2
    rw [hlen]
    omega
  have hoffset : data.i32 (recordOffset pre.length) = nameOffset (pre ++ (newName, id) :: post) pre.length :=
    hshape.offset _ hi
  have holdlen : oldName.length + 1 ≤ used (pre ++ (oldName, id) :: post) := by
    rw [used_append, used_cons]
    dsimp only
    omega
  have hnewlen : (newName.length : ℤ) < 2^31 := by
    omega
  have hmaps := h.rename_maps hnew
  obtain ⟨hnames, hids, -, hid⟩ := h.others
  have hcall := changeTableName_of_makeRoom hlookup h.findTable_eq hoff hmake
  rw [if_pos ⟨hmeta, hold⟩] at hcall
  refine ⟨_, hcall, ?_, rfl⟩
  refine ⟨?_, ?_, rfl, fun e he => ?_, ?_, ?_, fun e he => ?_, hmaps.1, hmaps.2⟩
  · dsimp only
    rw [hoffset, writeName_eq hnewlen, recordOffset_eq]
    exact hshape.finish rfl hroom'
  · rw [hlen]
    exact h.num
  · rcases mem_middle.mp he with rfl | he
    · exact hnul
    · exact h.noNul e (mem_middle.mpr (Or.inr he))
  · rw [List.map_append, List.map_cons, List.nodup_middle, ← List.map_append, List.nodup_cons]
    exact ⟨hnew, hnames⟩
  · rw [List.map_append, List.map_cons, List.nodup_middle, ← List.map_append, List.nodup_cons]
    exact ⟨hid, hids⟩
  · rcases mem_middle.mp he with rfl | he
    · exact h.isId (oldName, id) (by simp)
    · exact h.isId e (mem_middle.mpr (Or.inr he))

end Rename

end Dawn.CatalogTable
