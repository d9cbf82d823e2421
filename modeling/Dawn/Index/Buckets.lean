import Dawn.Index.InsertSpec
import Dawn.Lib.FirstFit

/-!
# The buckets of a table, page by page

`Layout.tuples` lists what the pages of a bucket hold. Which page has which id does not matter to the
clients of a table: `lk_ha_get_tuple` looks a key up in that list (`lkHaGetTuple_lookup`), and
`lk_ha_insert_tuple` puts a tuple into it by first fit (`Inserted.tuples_self`).
-/

namespace Dawn

open TablePage PageStore

/-- What the pages of a bucket hold, in order. -/
def Layout.tuples (L : Layout) (s : PageStore) (i j : ℤ) : List (Slots (List UInt8)) :=
  (L.chain i j).map (cell s L)

/-- The tuple with the given bytes has a key that is equal to the value. -/
def Keyed (schema : Schema) (keyValue : Value) (bytes : List UInt8) : Prop :=
  ∃ v, keyOf schema bytes = some v ∧ keyValue.opEq v = true

variable {schema : Schema} {keyValue : Value} {s s' : PageStore} {L L' : Layout}
  {sz root i j id : ℤ} {k : ℕ}

/-! ## Looking up -/

section Lookup

variable (ho : L.own id = some (.bucket i j))
include ho

theorem hasKey_cell : hasKey schema keyValue (s.page id) k = true ↔
    ∃ b, cell s L id k = some b ∧ Keyed schema keyValue b := by
  rw [hasKey_iff, cell_eq_of_own ho]
  constructor
  · rintro ⟨sl, v, hsl, hv, he⟩
    exact ⟨sl.bytes, by rw [hsl, Option.map_some], v, hv, he⟩
  · rintro ⟨b, hb, v, hv, he⟩
    obtain ⟨sl, hsl, rfl⟩ := Option.map_eq_some_iff.mp hb
    exact ⟨sl, v, hsl, hv, he⟩

theorem cell_eq_blank_iff : cell s L id = Slots.blank ↔ slotsFrom (s.page id) 0 = [] := by
  rw [slotsFrom_zero_eq_nil_iff, Finset.eq_empty_iff_forall_notMem, funext_iff]
  refine forall_congr' fun k => ?_
  rw [← not_iff_not, not_not, ← cell_ne_none_iff ho]
  rfl

theorem size_cell : Slots.size (cell s L id) = (occ (s.page id)).card := by
  rw [Slots.size, ← Set.ncard_coe_finset]
  congr 1
  ext k
  exact cell_ne_none_iff ho

theorem find_cell : (((slotsFrom (s.page id) 0).find? (hasKey schema keyValue (s.page id))).bind
    (cell s L id)) = Slots.find (Keyed schema keyValue) (cell s L id) := by
  cases hf : (slotsFrom (s.page id) 0).find? (hasKey schema keyValue (s.page id)) with
  | none =>
    refine (Slots.find_eq_none fun k b hb hk => ?_).symm
    have hmem : k ∈ slotsFrom (s.page id) 0 :=
      mem_slotsFrom.mpr ⟨Nat.zero_le k, (cell_ne_none_iff ho).mp (by simp [hb])⟩
    exact List.find?_eq_none.mp hf k hmem ((hasKey_cell ho).mpr ⟨b, hb, hk⟩)
  | some k =>
    obtain ⟨b, hb, hk⟩ := (hasKey_cell ho).mp (List.find?_some hf)
    rw [Option.bind_some, hb]
    refine (Slots.find_eq hb hk fun n hn b' hb' hk' => ?_).symm
    -- The slots are looked at in order, so an earlier one would have been found.
    have hmem : n ∈ slotsFrom (s.page id) 0 :=
      mem_slotsFrom.mpr ⟨Nat.zero_le n, (cell_ne_none_iff ho).mp (by simp [hb'])⟩
    obtain ⟨-, as, bs, heq, hbefore⟩ := List.find?_eq_some_iff_append.mp hf
    have hs : (slotsFrom (s.page id) 0).Pairwise (· < ·) := List.pairwise_lt_range.filter _
    rw [heq] at hmem hs
    have has : n ∈ as := by
      rw [List.pairwise_append, List.pairwise_cons] at hs
      simp only [List.mem_append, List.mem_cons] at hmem
      rcases hmem with hm | rfl | hm
      · exact hm
      · exact absurd hn (lt_irrefl n)
      · exact absurd (hs.2.1.1 n hm) (by omega)
    have := hbefore n has
    rw [(hasKey_cell ho).mpr ⟨b', hb', hk'⟩] at this
    cases this

end Lookup

theorem findInChain_lookup {l : List ℤ} (hl : ∀ id ∈ l, L.own id = some (.bucket i j)) :
    (findInChain schema keyValue s l).bind (fun rid => cell s L rid.pageId rid.slotNum.toNat) =
      lookup (Keyed schema keyValue) (l.map (cell s L)) := by
  induction l with
  | nil => rfl
  | cons id l ih =>
    have ho := hl id List.mem_cons_self
    have hfind : ((slotsFrom (s.page id) 0).find? (hasKey schema keyValue (s.page id))).bind
        (cell s L id) = Slots.find (Keyed schema keyValue) (cell s L id) := find_cell ho
    simp only [findInChain, List.map_cons, lookup, cell_eq_blank_iff ho]
    split_ifs with he
    · rfl
    · cases hf : (slotsFrom (s.page id) 0).find? (hasKey schema keyValue (s.page id)) with
      | none =>
        rw [hf] at hfind
        rw [← hfind]
        exact ih fun b hb => hl b (List.mem_cons_of_mem id hb)
      | some k =>
        obtain ⟨b, hb, -⟩ := (hasKey_cell ho).mp (List.find?_some hf)
        rw [hf, Option.bind_some, hb] at hfind
        rw [← hfind]
        simp [hb]

theorem findInChain_eq_none_iff {l : List ℤ} (hl : ∀ id ∈ l, L.own id = some (.bucket i j)) :
    findInChain schema keyValue s l = none ↔ lookup (Keyed schema keyValue) (l.map (cell s L)) = none := by
  rw [← findInChain_lookup hl]
  cases hf : findInChain schema keyValue s l with
  | none => simp
  | some rid =>
    obtain ⟨id, hid, k, rfl, hk⟩ := findInChain_some hf
    obtain ⟨b, hb, -⟩ := (hasKey_cell (hl id hid)).mp hk
    simp [hb]

section Get

variable (doHash : List UInt8 → UInt64) (hkey : schema.HasKey) (h : TableInv sz s root L)
  (keyValue : Value)

/-- What the bucket of a key holds. -/
def Layout.tuplesOf (L : Layout) (s : PageStore) (doHash : List UInt8 → UInt64) (keyValue : Value) :
    List (Slots (List UInt8)) :=
  L.tuples s (hashToSlot (keyValue.getHashValue doHash)).1 (hashToSlot (keyValue.getHashValue doHash)).2

/-- What `lk_ha_get_tuple` tells about a key: the operation code, and the bytes of the tuple. -/
def lookUp (doHash : List UInt8 → UInt64) (schema : Schema) (root : ℤ) (keyValue : Value)
    (s : PageStore) : Option (ℤ × Option (List UInt8)) :=
  (lkHaGetTuple doHash schema root keyValue s).map fun r => (r.1, r.2.1.map Tuple.bytes)

include h in
theorem findInChain_bucketOf : findInChain schema keyValue s (L.bucketOf doHash keyValue) = none ↔
    lookup (Keyed schema keyValue) (L.tuplesOf s doHash keyValue) = none :=
  findInChain_eq_none_iff fun _ hid => h.skeleton.own_chain.mp hid

include hkey h in
theorem lkHaGetTuple_lookup : lookUp doHash schema root keyValue s =
    some (match lookup (Keyed schema keyValue) (L.tuplesOf s doHash keyValue) with
      | none => (tupleNotFound, none)
      | some b => (opSuccess, some b)) := by
  have hl : ∀ id ∈ L.bucketOf doHash keyValue, L.own id = some (.bucket _ _) := fun id hid =>
    h.skeleton.own_chain.mp hid
  have hlook : (findInChain schema keyValue s (L.bucketOf doHash keyValue)).bind
      (fun rid => cell s L rid.pageId rid.slotNum.toNat) =
      lookup (Keyed schema keyValue) (L.tuplesOf s doHash keyValue) := findInChain_lookup hl
  rw [lookUp, lkHaGetTuple_eq doHash hkey h.skeleton keyValue (h.searchable _ _)]
  rw [← hlook]
  cases hf : findInChain schema keyValue s (L.bucketOf doHash keyValue) with
  | none => rfl
  | some rid =>
    obtain ⟨id, hid, k, rfl, hk⟩ := findInChain_some hf
    obtain ⟨b, hb, -⟩ := (hasKey_cell (hl id hid)).mp hk
    have hslot := hb
    rw [cell_eq_of_own (hl id hid)] at hslot
    obtain ⟨sl, hsl, rfl⟩ := Option.map_eq_some_iff.mp hslot
    simp [getTuple_eq, hsl, hb]

end Get

/-! ## Inserting -/

section Insert

variable {bytes : List UInt8} (hi : Inserted sz root s L i j id k bytes s' L')
include hi

theorem Inserted.cell_of_ne {c : ℤ} (hc : c ≠ id) : cell s' L' c = cell s L c := by
  funext n
  rw [hi.cell_eq, if_neg fun e => hc e.1]

theorem Inserted.cell_add : cell s' L' id = Slots.add (cell s L id) bytes := by
  rw [Slots.add_eq hi.cell_none fun n hn => ?_]
  · funext n
    rw [hi.cell_eq, Function.update_apply]
    simp
  · have := hi.least n hn
    rwa [hi.cell_eq, if_neg fun e => hn.ne e.2] at this

theorem Inserted.map_cell {l : List ℤ} (hl : id ∉ l) : l.map (cell s' L') = l.map (cell s L) :=
  List.map_congr_left fun _ hc => hi.cell_of_ne fun e => hl (e ▸ hc)

theorem Inserted.size_lt (hsz : 8 ≤ sz) (ho : L.own id = some (.bucket i j)) :
    (Slots.size (cell s L id) : ℤ) < getTpNumCapacity sz := by
  have hle := (hi.inv.good hi.own_id).uniform.card_le_capacity hsz
  have hk : k ∉ occ (s.page id) := fun hm => (cell_ne_none_iff ho).mpr hm hi.cell_none
  have hocc : occ (s'.page id) = insert k (occ (s.page id)) := by
    ext n
    rw [← cell_ne_none_iff hi.own_id, Finset.mem_insert, ← cell_ne_none_iff ho, hi.cell_eq]
    by_cases hn : n = k <;> simp [hn]
  rw [hocc, Finset.card_insert_of_notMem hk] at hle
  rw [size_cell ho]
  omega

theorem Inserted.tuples_self (hsz : 8 ≤ sz) (h : TableInv sz s root L) :
    L'.tuples s' i j = firstFit (getTpNumCapacity sz) bytes (L.tuples s i j) := by
  have hS := h.skeleton
  have hS' := hi.inv.skeleton
  have hnd := hS'.nodup i j
  have hfull : ∀ {l : List ℤ}, (∀ c ∈ l, L.own c = some (.bucket i j)) →
      (∀ c ∈ l, Full sz (s.page c)) → ∀ c ∈ l.map (cell s L), getTpNumCapacity sz ≤ Slots.size c := by
    intro l hl hf c hc
    obtain ⟨d, hd, rfl⟩ := List.mem_map.mp hc
    rw [size_cell (hl d hd)]
    exact hf d hd
  rcases hi.chain i j with hc | ⟨-, -, hc, hall⟩
  · -- The page was there.
    obtain ⟨pre, post, hpos, hbefore⟩ := hi.before
    rw [hpos] at hnd hc
    have hpre : id ∉ pre := fun hm => List.disjoint_of_nodup_append hnd hm List.mem_cons_self
    have hpost : id ∉ post := (List.nodup_cons.mp hnd.of_append_right).1
    have hown : ∀ c ∈ pre ++ id :: post, L.own c = some (.bucket i j) := fun c hcm =>
      hS.own_chain.mp (hc ▸ hcm)
    have hpown : ∀ c ∈ pre, L.own c = some (.bucket i j) := fun c hcm =>
      hown c (List.mem_append_left _ hcm)
    have hpfull : ∀ c ∈ pre, Full sz (s.page c) := fun c hcm => by
      rw [Full, ← size_cell (hpown c hcm), ← hi.cell_of_ne fun e => hpre (e ▸ hcm), size_cell (hi.own (hpown c hcm))]
      exact hbefore c hcm
    rw [Layout.tuples, Layout.tuples, hpos, ← hc, List.map_append, List.map_append, List.map_cons,
      List.map_cons, firstFit_append (hfull hpown hpfull),
      firstFit_of_lt (hi.size_lt hsz (hown id (by simp))), hi.map_cell hpre, hi.map_cell hpost,
      hi.cell_add]
  · -- The page is a new one at the end.
    rw [hc] at hnd
    have hid : id ∉ L.chain i j := fun hm =>
      List.disjoint_of_nodup_append hnd hm List.mem_cons_self
    have hno : L.own id = none := by
      by_contra hne
      obtain ⟨o, ho⟩ := Option.ne_none_iff_exists'.mp hne
      have he := hi.own ho
      rw [hi.own_id, Option.some.injEq] at he
      exact hid (hS.own_chain.mpr (he ▸ ho))
    have hblank : cell s L id = Slots.blank := by
      funext n
      simp [cell, hno, Slots.blank]
    have hfit := firstFit_append (a := bytes) (hfull (fun c hcm => hS.own_chain.mp hcm) hall) []
    rw [List.append_nil] at hfit
    rw [Layout.tuples, Layout.tuples, hc, List.map_append, hi.map_cell hid, hfit, List.map_cons, hi.cell_add, hblank]
    rfl

theorem Inserted.tuples_of_ne (h : TableInv sz s root L) {a b : ℤ} (hab : ¬ (a = i ∧ b = j)) :
    L'.tuples s' a b = L.tuples s a b := by
  rcases hi.chain a b with hc | ⟨ha, hb, -⟩
  · rw [Layout.tuples, Layout.tuples, hc]
    refine hi.map_cell fun hm => ?_
    have he := hi.own (h.skeleton.own_chain.mp hm)
    rw [hi.own_id, Option.some.injEq, Owner.bucket.injEq] at he
    exact hab ⟨he.1.symm, he.2.symm⟩
  · exact absurd ⟨ha, hb⟩ hab

theorem Inserted.find_ne_none {v : Value} (hsz : 8 ≤ sz) (hcap : 0 < getTpNumCapacity sz)
    (h : TableInv sz s root L) (hv : Keyed schema v bytes) (hij : hashToSlot (v.getHashValue doHash) = (i, j))
    (hno : findInChain schema v s (L.bucketOf doHash v) = none) :
    findInChain schema v s' (L'.bucketOf doHash v) ≠ none := by
  rw [findInChain_bucketOf doHash h, Layout.tuplesOf, hij] at hno
  rw [Ne, findInChain_bucketOf doHash hi.inv, Layout.tuplesOf, hij, hi.tuples_self hsz h, lookup_firstFit hcap hno hv]
  simp

end Insert

end Dawn
