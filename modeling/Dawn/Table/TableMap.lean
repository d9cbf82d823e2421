import Dawn.Table.EmptyHeads

/-!
# A table whose buckets do not overflow is a map

As long as no bucket is asked for more tuples than a page holds, every bucket has one page at most, and
the calls of a table answer as a finite map from keys to tuples would (`Represents.step`). The exception
is that a call may not answer at all: an update to a key that is taken leaves the page of its tuple pinned,
and `apply_delete` of the last tuple of such a page waits for ever for it to be unpinned
(`table_is_map_iff`).
-/

namespace Dawn

open Function

open TablePage PageStore

/-- The key is an integer. -/
def Schema.IntegerKey (schema : Schema) : Prop :=
  ∃ col, schema.getColumn schema.keyIdx = some col ∧ col.columnType = .kInteger

variable {bytes old : List UInt8} {v : Value} {id' i j : ℤ} {k' k : ℕ}

theorem Schema.IntegerKey.hasKey {schema : Schema} (h : schema.IntegerKey) : schema.HasKey := by
  obtain ⟨col, hcol, htype⟩ := h
  exact ⟨col, hcol, by simp [htype], fun hc => by simp [htype] at hc⟩

theorem Schema.IntegerKey.eq_integer {schema : Schema} (h : schema.IntegerKey) (hv : keyOf schema bytes = some v) :
    ∃ key, v = .integer key := by
  obtain ⟨col, hcol, htype⟩ := h
  have hkey : ∃ key, keyOf schema bytes = some (.integer key) := by
    rw [keyOf, getValue_eq hcol, readColumn_eq (Column.hasBuffer_of_ne (by simp [htype])), htype]
    exact ⟨_, rfl⟩
  exact hkey.imp fun key he => Option.some.inj (hv.symm.trans he)

/-! ## The map -/

/-- What a table is for: the tuple of each key, with its position. -/
abbrev TableMap := ℤ → Option Tuple

/-- The calls on a map and their answers. The position of a stored tuple is not determined. -/
inductive MapStep (schema : Schema) : TableMap → TableCall × TableReply → TableMap → Prop
  /-- A tuple with a new key is stored. -/
  | insert {M : TableMap} {t : Tuple} {key : ℤ} (rid : RID) (hkey : keyOf schema t.bytes = some (.integer key))
    (hnone : M key = none) :
    MapStep schema M (.insertTuple t, .result true) (Function.update M key (some (Tuple.ofBytes rid t.bytes)))
  /-- A tuple whose key is there is not. -/
  | insertTaken {M : TableMap} {t : Tuple} {key : ℤ} (hkey : keyOf schema t.bytes = some (.integer key))
    (hsome : M key ≠ none) : MapStep schema M (.insertTuple t, .result false) M
  /-- The tuple of a key. -/
  | get {M : TableMap} (key : ℤ) :
    MapStep schema M (.getTuple (.integer key), .got (M key).isSome (M key)) M
  /-- A tuple is replaced. -/
  | replace {M : TableMap} {t old : Tuple} {key : ℤ} (hkey : keyOf schema t.bytes = some (.integer key))
    (hold : M key = some old) :
    MapStep schema M (.updateTuple t old.rid, .result true)
      (Function.update M key (some (Tuple.ofBytes old.rid t.bytes)))
  /-- A tuple is replaced by one with another key, which is new. -/
  | move {M : TableMap} {t old : Tuple} {key oldKey : ℤ} (rid : RID)
    (hkey : keyOf schema t.bytes = some (.integer key)) (hold : M oldKey = some old) (hne : key ≠ oldKey)
    (hnone : M key = none) :
    MapStep schema M (.updateTuple t old.rid, .result true)
      (Function.update (Function.update M oldKey none) key (some (Tuple.ofBytes rid t.bytes)))
  /-- A tuple is not replaced by one whose key another tuple has. -/
  | moveTaken {M : TableMap} {t old : Tuple} {key oldKey : ℤ}
    (hkey : keyOf schema t.bytes = some (.integer key)) (hold : M oldKey = some old) (hne : key ≠ oldKey)
    (hsome : M key ≠ none) : MapStep schema M (.updateTuple t old.rid, .result false) M
  /-- A key is removed. -/
  | delete {M : TableMap} (key : ℤ) :
    MapStep schema M (.applyDelete (.integer key), .nothing) (Function.update M key none)

/-! ## The table and the map -/

/-- The tuples at the places are those of the map. -/
def Stores (schema : Schema) (cells : ℤ → ℕ → Option (List UInt8)) (M : TableMap) : Prop :=
  ∀ (key : ℤ) (t : Tuple), M key = some t ↔ ∃ (id : ℤ) (k : ℕ) (bytes : List UInt8),
    t = Tuple.ofBytes ⟨id, k⟩ bytes ∧ cells id k = some bytes ∧ keyOf schema bytes = some (.integer key)

namespace Stores

variable {schema : Schema} {cells cells' : ℤ → ℕ → Option (List UInt8)} {M : TableMap} {id key : ℤ}
  {k : ℕ} {bytes : List UInt8}

section

variable (h : Stores schema cells M)
include h

theorem of_cell (hcell : cells id k = some bytes)
    (hkey : keyOf schema bytes = some (.integer key)) : M key = some (Tuple.ofBytes ⟨id, k⟩ bytes) :=
  (h key _).mpr ⟨id, k, bytes, rfl, hcell, hkey⟩

theorem cell_inj {bytes' : List UInt8}
    (hcell : cells id k = some bytes) (hkey : keyOf schema bytes = some (.integer key))
    (hcell' : cells id' k' = some bytes') (hkey' : keyOf schema bytes' = some (.integer key)) : id = id' ∧ k = k' := by
  have he := (h.of_cell hcell hkey).symm.trans (h.of_cell hcell' hkey')
  have hrid := congrArg Tuple.rid (Option.some.inj he)
  simpa using hrid

theorem insert (hfree : cells id k = none) (hnone : M key = none)
    (hkey : keyOf schema bytes = some (.integer key))
    (hcells : ∀ b n, cells' b n = if b = id ∧ n = k then some bytes else cells b n) :
    Stores schema cells' (update M key (some (Tuple.ofBytes ⟨id, k⟩ bytes))) := by
  intro key' t
  by_cases hk : key' = key
  · subst hk
    rw [update_self, Option.some.injEq]
    constructor
    · rintro rfl
      exact ⟨id, k, bytes, rfl, by rw [hcells, if_pos ⟨rfl, rfl⟩], hkey⟩
    · rintro ⟨b, n, bytes', rfl, hcell, hkey'⟩
      rw [hcells] at hcell
      split_ifs at hcell with hp
      · obtain ⟨rfl, rfl⟩ := hp
        rw [Option.some.inj hcell]
      · rw [h.of_cell hcell hkey'] at hnone
        cases hnone
  · rw [update_of_ne hk, h key' t]
    refine exists_congr fun b => exists_congr fun n => exists_congr fun bytes' => and_congr_right fun _ => ?_
    rw [hcells]
    split_ifs with hp
    · -- The place was free, and has another key now.
      obtain ⟨rfl, rfl⟩ := hp
      rw [hfree]
      refine iff_of_false (by simp) ?_
      rintro ⟨he, hkey'⟩
      obtain rfl := Option.some.inj he
      rw [hkey, Option.some.injEq, Value.integer.injEq] at hkey'
      exact hk hkey'.symm
    · exact Iff.rfl

theorem delete (hcell : cells id k = some bytes)
    (hkey : keyOf schema bytes = some (.integer key))
    (hcells : ∀ b n, cells' b n = if b = id ∧ n = k then none else cells b n) :
    Stores schema cells' (update M key none) := by
  intro key' t
  by_cases hk : key' = key
  · subst hk
    refine iff_of_false (by simp) ?_
    rintro ⟨b, n, bytes', rfl, hcell', hkey'⟩
    rw [hcells] at hcell'
    split_ifs at hcell' with hp
    obtain ⟨rfl, rfl⟩ := h.cell_inj hcell hkey hcell' hkey'
    exact hp ⟨rfl, rfl⟩
  · rw [update_of_ne hk, h key' t]
    refine exists_congr fun b => exists_congr fun n => exists_congr fun bytes' => and_congr_right fun _ => ?_
    rw [hcells]
    split_ifs with hp
    · -- The tuple that was there had another key.
      obtain ⟨rfl, rfl⟩ := hp
      refine iff_of_false ?_ (by simp)
      rintro ⟨he, hkey'⟩
      rw [hcell, Option.some.injEq] at he
      subst he
      rw [hkey, Option.some.injEq, Value.integer.injEq] at hkey'
      exact hk hkey'.symm
    · exact Iff.rfl

theorem replace {oldKey : ℤ}
    (hcell : cells id k = some old) (hold : keyOf schema old = some (.integer oldKey))
    (hfree : (id' = id ∧ k' = k) ∨ cells id' k' = none) (hnone : key = oldKey ∨ M key = none)
    (hkey : keyOf schema bytes = some (.integer key)) (hcells : ∀ b n, cells' b n = if b = id' ∧ n = k' then some bytes
      else if b = id ∧ n = k then none else cells b n) : Stores schema cells' (update (update M oldKey none) key
      (some (Tuple.ofBytes ⟨id', k'⟩ bytes))) := by
  refine (h.delete hcell hold fun _ _ => rfl).insert ?_ ?_ hkey hcells
  · split_ifs with hp
    · rfl
    · exact hfree.resolve_left hp
  · rcases hnone with rfl | hnone
    · exact update_self ..
    · by_cases hk : key = oldKey
      · rw [hk, update_self]
      · rw [update_of_ne hk, hnone]

end

end Stores

/-- The bucket of a key. -/
def bucketOfKey (doHash : List UInt8 → UInt64) (key : ℤ) : Owner :=
  .bucket (hashToSlot ((Value.integer key).getHashValue doHash)).1
    (hashToSlot ((Value.integer key).getHashValue doHash)).2

/-- The table stores what the map says, every tuple in the bucket of its key, and no bucket has more than
one page. -/
structure Represents (doHash : List UInt8 → UInt64) (schema : Schema) (s : PageStore) (L : Layout)
    (M : TableMap) : Prop where
  /-- The tuples of the table are those of the map. -/
  stores : Stores schema (cell s L) M
  /-- They are in the buckets of their keys. -/
  placed : ∀ {id key : ℤ} {k : ℕ} {bytes : List UInt8}, cell s L id k = some bytes →
    keyOf schema bytes = some (.integer key) → L.own id = some (bucketOfKey doHash key)
  /-- No bucket has two pages. -/
  short : ∀ i j : ℤ, (L.chain i j).length ≤ 1

variable {al : Allocator} {sz : ℤ} {doHash : List UInt8 → UInt64} {schema : Schema} {root : ℤ}
  {s s' : PageStore} {L L' : Layout} {c : TableCall} {reply : TableReply} {M : TableMap}

namespace Represents

theorem empty (doHash : List UInt8 → UInt64) (schema : Schema) (s : PageStore) (root : ℤ) :
    Represents doHash schema s (Layout.empty root) fun _ => none := by
  refine ⟨fun key t => ?_, fun hc => ?_, fun _ _ => Nat.zero_le _⟩
  · simp
  · rw [Layout.cell_empty] at hc
    cases hc

section Search

variable (h : Represents doHash schema s L M) (hS : Skeleton s root L)
include h hS

theorem chain_eq {id : ℤ} (ho : L.own id = some (.bucket i j)) : L.chain i j = [id] := by
  have hmem := hS.own_chain.mpr ho
  have hlen := h.short i j
  cases hc : L.chain i j with
  | nil => simp [hc] at hmem
  | cons b l =>
    rw [hc] at hmem hlen
    obtain rfl : l = [] := by simpa using hlen
    rw [List.mem_singleton.mp hmem]

theorem find_eq (key : ℤ) : findInChain schema (.integer key) s (L.bucketOf doHash (.integer key)) =
    (M key).map Tuple.rid := by
  cases hM : M key with
  | none =>
    refine findInChain_of_forall fun id hid k => ?_
    by_contra hk
    obtain ⟨sl, w, hsl, hw, heq⟩ := hasKey_iff.mp (by simpa using hk)
    have hcell : cell s L id k = some sl.bytes := by
      rw [cell_eq_of_own (hS.own_chain.mp hid), hsl]
      rfl
    cases w with
    | integer n =>
      obtain rfl : key = n := by simpa [Value.opEq] using heq
      rw [h.stores.of_cell hcell hw] at hM
      cases hM
    | _ => simp [Value.opEq] at heq
  | some t =>
    obtain ⟨id, k, bytes, rfl, hcell, hkey⟩ := (h.stores key t).mp hM
    have hc : L.bucketOf doHash (.integer key) = [] ++ id :: [] := h.chain_eq hS (h.placed hcell hkey)
    obtain ⟨a, b, sl, ho, hsl, rfl⟩ := exists_slot_of_cell hcell
    rw [hc]
    refine findInChain_eq_some (by simp) (hasKey_iff.mpr ⟨sl, _, hsl, hkey, by simp [Value.opEq]⟩) fun n hn => ?_
    obtain ⟨sl', w, hsl', hw, heq⟩ := hasKey_iff.mp hn
    cases w with
    | integer m =>
      obtain rfl : key = m := by simpa [Value.opEq] using heq
      have hcell' : cell s L id n = some sl'.bytes := by
        rw [cell_eq_of_own ho, hsl']
        rfl
      exact (h.stores.cell_inj hcell' hw hcell hkey).2
    | _ => simp [Value.opEq] at heq

theorem find_eq_none_iff {key : ℤ} :
    findInChain schema (.integer key) s (L.bucketOf doHash (.integer key)) = none ↔ M key = none := by
  rw [h.find_eq hS, Option.map_eq_none_iff]

theorem ne_none_of_find {key : ℤ} {rid : RID}
    (hfind : findInChain schema (.integer key) s (L.bucketOf doHash (.integer key)) = some rid) :
    M key ≠ none := fun hM => by
  rw [(h.find_eq_none_iff hS).mpr hM] at hfind
  cases hfind

end Search

section

variable (h : Represents doHash schema s L M)
include h

theorem of_find (hS : Skeleton s root L) {id key : ℤ}
    (hfind : findInChain schema (.integer key) s (L.bucketOf doHash (.integer key)) = some ⟨id, k⟩)
    (hcell : cell s L id k = some bytes) :
    M key = some (Tuple.ofBytes ⟨id, k⟩ bytes) ∧ keyOf schema bytes = some (.integer key) := by
  rw [h.find_eq hS, Option.map_eq_some_iff] at hfind
  obtain ⟨t, hM, hrid⟩ := hfind
  obtain ⟨id', k', bytes', rfl, hcell', hkey⟩ := (h.stores key t).mp hM
  obtain ⟨rfl, rfl⟩ : id' = id ∧ k' = k := by simpa using hrid
  obtain rfl := Option.some.inj (hcell.symm.trans hcell')
  exact ⟨hM, hkey⟩

theorem placed_of_store {id key : ℤ} (hkey : keyOf schema bytes = some (.integer key))
    (hid : L'.own id' = some (bucketOfKey doHash key))
    (hown : ∀ {b : ℤ} {o : Owner}, L.own b = some o → L'.own b = some o)
    (hcells : ∀ b n, cell s' L' b n = if b = id' ∧ n = k' then some bytes
      else if b = id ∧ n = k then none else cell s L b n) {b key' : ℤ} {n : ℕ} {bytes' : List UInt8}
    (hcell : cell s' L' b n = some bytes') (hkey' : keyOf schema bytes' = some (.integer key')) :
    L'.own b = some (bucketOfKey doHash key') := by
  rw [hcells] at hcell
  split_ifs at hcell with h1 h2
  · obtain ⟨rfl, rfl⟩ := h1
    obtain rfl := Option.some.inj hcell
    obtain rfl : key = key' := by simpa [hkey] using hkey'
    exact hid
  · exact hown (h.placed hcell hkey')

theorem short_of_chain {id : ℤ}
    (hroom : ∀ c ∈ L.chain i j, ¬ Full sz (s.page c)) (hchain : ∀ a b : ℤ, L'.chain a b = L.chain a b ∨
      a = i ∧ b = j ∧ L'.chain a b = L.chain a b ++ [id] ∧ ∀ c ∈ L.chain i j, Full sz (s.page c))
    (a b : ℤ) : (L'.chain a b).length ≤ 1 := by
  rcases hchain a b with he | ⟨rfl, rfl, he, hfull⟩
  · rw [he]
    exact h.short a b
  · cases hc : L.chain a b with
    | nil => simp [he, hc]
    | cons c l =>
      have hc' : c ∈ L.chain a b := by simp [hc]
      exact absurd (hfull c hc') (hroom c hc')

theorem insert {id key : ℤ}
    (hi : Inserted sz root s L i j id k bytes s' L')
    (hij : hashToSlot ((Value.integer key).getHashValue doHash) = (i, j))
    (hkey : keyOf schema bytes = some (.integer key)) (hnone : M key = none)
    (hroom : ∀ c ∈ L.chain i j, ¬ Full sz (s.page c)) :
    Represents doHash schema s' L' (update M key (some (Tuple.ofBytes ⟨id, k⟩ bytes))) := by
  have hcells : ∀ b n, cell s' L' b n = if b = id ∧ n = k then some bytes
      else if b = id ∧ n = k then none else cell s L b n := by
    intro b n
    rw [hi.cell_eq]
    split_ifs <;> rfl
  exact ⟨h.stores.insert hi.cell_none hnone hkey hi.cell_eq,
    h.placed_of_store hkey (by rw [bucketOfKey, hij]; exact hi.own_id) hi.own hcells,
    h.short_of_chain hroom hi.chain⟩

theorem replace {id key : ℤ}
    (hcell : cell s L id k = some old) (hold : keyOf schema old = some (.integer key))
    (hkey : keyOf schema bytes = some (.integer key))
    (hcells : ∀ b n, cell s' L b n = if b = id ∧ n = k then some bytes else cell s L b n) :
    Represents doHash schema s' L (update M key (some (Tuple.ofBytes ⟨id, k⟩ bytes))) := by
  have hcells' : ∀ b n, cell s' L b n = if b = id ∧ n = k then some bytes
      else if b = id ∧ n = k then none else cell s L b n := by
    intro b n
    rw [hcells]
    split_ifs <;> rfl
  have hrep := h.stores.replace hcell hold (Or.inl ⟨rfl, rfl⟩) (Or.inl rfl) hkey hcells'
  rw [update_idem] at hrep
  exact ⟨hrep, h.placed_of_store hkey (h.placed hcell hold) (fun hb => hb) hcells', h.short⟩

theorem move {id key oldKey : ℤ} (hm : Moved sz root s L i j id k id' k' bytes s' L')
    (hcell : cell s L id k = some old) (hold : keyOf schema old = some (.integer oldKey))
    (hij : hashToSlot ((Value.integer key).getHashValue doHash) = (i, j))
    (hkey : keyOf schema bytes = some (.integer key)) (hnone : M key = none)
    (hroom : ∀ c ∈ L.chain i j, ¬ Full sz (s.page c)) : Represents doHash schema s' L'
      (update (update M oldKey none) key (some (Tuple.ofBytes ⟨id', k'⟩ bytes))) := by
  -- The new place is free before the old one is.
  have hother : ¬ (id' = id ∧ k' = k) := by
    rintro ⟨rfl, rfl⟩
    exact absurd (hm.cell_none.symm.trans hcell) (by simp)
  have hcells : ∀ b n, cell s' L' b n = if b = id' ∧ n = k' then some bytes
      else if b = id ∧ n = k then none else cell s L b n := by
    intro b n
    rw [hm.cell_eq]
    split_ifs with h1 h2
    · exact absurd ⟨h2.1.symm.trans h1.1, h2.2.symm.trans h1.2⟩ hother
    · rfl
    · rfl
    · rfl
  exact ⟨h.stores.replace hcell hold (Or.inr hm.cell_none) (Or.inr hnone) hkey hcells,
    h.placed_of_store hkey (by rw [bucketOfKey, hij]; exact hm.own_id) hm.own hcells,
    h.short_of_chain hroom hm.chain⟩

theorem delete {id key : ℤ}
    (hd : Deleted sz root s L i j id k s' L') (hcell : cell s L id k = some bytes)
    (hkey : keyOf schema bytes = some (.integer key)) : Represents doHash schema s' L' (update M key none) := by
  refine ⟨h.stores.delete hcell hkey hd.cell_eq, ?_, fun a b => ?_⟩
  · intro b key' n bytes hcell' hkey'
    obtain ⟨a, e, -, hob, -⟩ := exists_slot_of_cell hcell'
    rw [hd.cell_eq] at hcell'
    split_ifs at hcell'
    rw [hob, ← hd.own hob, h.placed hcell' hkey']
  · rcases hd.chain a b with he | ⟨-, -, es, he⟩
    · rw [he]
      exact h.short a b
    · have hlen := h.short a b
      rw [he, List.length_append] at hlen
      omega

end

end Represents

namespace TableCall

/-- The bucket that the tuple is to be stored in has fewer tuples than a page can hold. -/
def HasRoom (sz : ℤ) (doHash : List UInt8 → UInt64) (schema : Schema) (s : PageStore) (L : Layout)
    (c : TableCall) : Prop :=
  ∀ t v, c.stores = some t → keyOf schema t.bytes = some v →
    findInChain schema v s (L.bucketOf doHash v) = none →
    (((L.bucketOf doHash v).map fun id => (occ (s.page id)).card).sum : ℤ) < getTpNumCapacity sz

/-- The keys that are looked up are integers. -/
def IntegerKeyed : TableCall → Prop
  | getTuple keyValue => ∃ key, keyValue = .integer key
  | applyDelete keyValue => ∃ key, keyValue = .integer key
  | _ => True

theorem HasRoom.not_full (h : c.HasRoom sz doHash schema s L) {t : Tuple}
    (ht : c.stores = some t) (hv : keyOf schema t.bytes = some v)
    (hfind : findInChain schema v s (L.bucketOf doHash v) = none) :
    ∀ id ∈ L.bucketOf doHash v, ¬ Full sz (s.page id) := by
  intro id hid hfull
  have hle := List.single_le_sum (fun _ _ => Nat.zero_le _) _
    (List.mem_map_of_mem (f := fun id => (occ (s.page id)).card) hid)
  have hlt := h t v ht hv hfind
  rw [Full] at hfull
  omega

theorem HasRoom.frameBlank (h : c.HasRoom sz doHash schema s L) : c.FrameBlank al sz doHash schema s L := by
  intro t v ht hv hfind hne hfull
  obtain ⟨id, hid⟩ := List.exists_mem_of_ne_nil _ hne
  exact absurd (hfull id hid) (h.not_full ht hv hfind id hid)

end TableCall

theorem Value.opEq_integer {a b : ℤ} : (Value.integer a).opEq (.integer b) = true ↔ a = b := by
  simp [Value.opEq]

theorem Represents.step (hint : schema.IntegerKey) (h : Represents doHash schema s L M)
    (hinv : TableInv sz s root L) (hroom : c.HasRoom sz doHash schema s L) (hkeys : c.IntegerKeyed)
    (ho : TableCall.Outcome sz doHash schema root s L c reply s' L') :
    ∃ M', MapStep schema M (c, reply) M' ∧ Represents doHash schema s' L' M' := by
  have hS := hinv.skeleton
  cases ho with
  | taken hv hfind =>
    obtain ⟨key, rfl⟩ := hint.eq_integer hv
    exact ⟨M, .insertTaken hv (h.ne_none_of_find hS hfind), h⟩
  | @inserted t v i j id k s' L' hv hij hfind hi =>
    obtain ⟨key, rfl⟩ := hint.eq_integer hv
    have hbucket : L.bucketOf doHash (.integer key) = L.chain i j := by rw [Layout.bucketOf, hij]
    rw [← hbucket] at hfind
    have hnone := (h.find_eq_none_iff hS).mp hfind
    exact ⟨_, .insert ⟨id, k⟩ hv hnone, h.insert hi hij hv hnone (hbucket ▸ hroom.not_full rfl hv hfind)⟩
  | found hfind hcell =>
    obtain ⟨key, rfl⟩ := hkeys
    obtain ⟨hM, -⟩ := h.of_find hS hfind hcell
    have hget : MapStep schema M _ M := .get key
    rw [hM] at hget
    exact ⟨M, hget, h⟩
  | missing hfind =>
    obtain ⟨key, rfl⟩ := hkeys
    have hget : MapStep schema M _ M := .get key
    rw [(h.find_eq_none_iff hS).mp hfind] at hget
    exact ⟨M, hget, h⟩
  | replaced hcell hv hold heq _ _ _ hcells =>
    obtain ⟨key, rfl⟩ := hint.eq_integer hv
    obtain ⟨oldKey, rfl⟩ := hint.eq_integer hold
    obtain rfl := Value.opEq_integer.mp heq
    exact ⟨_, .replace hv (h.stores.of_cell hcell hold), h.replace hcell hold hv hcells⟩
  | collided hcell hv hold hne hfind =>
    obtain ⟨key, rfl⟩ := hint.eq_integer hv
    obtain ⟨oldKey, rfl⟩ := hint.eq_integer hold
    have hstep := MapStep.moveTaken hv (h.stores.of_cell hcell hold)
      (fun e => by simp [Value.opEq, e] at hne) (h.ne_none_of_find hS hfind)
    -- That the page of the tuple stays pinned does not concern the map.
    exact ⟨M, hstep, h.stores, h.placed, h.short⟩
  | @moved t v old i j id id' k k' bytes s' L' hcell hv hold hne hij hfind hm =>
    obtain ⟨key, rfl⟩ := hint.eq_integer hv
    obtain ⟨oldKey, rfl⟩ := hint.eq_integer hold
    have hbucket : L.bucketOf doHash (.integer key) = L.chain i j := by rw [Layout.bucketOf, hij]
    rw [← hbucket] at hfind
    have hnone := (h.find_eq_none_iff hS).mp hfind
    have hstep := MapStep.move ⟨id', k'⟩ hv (h.stores.of_cell hcell hold)
      (fun e => by simp [Value.opEq, e] at hne) hnone
    exact ⟨_, hstep, h.move hm hcell hold hij hv hnone (hbucket ▸ hroom.not_full rfl hv hfind)⟩
  | absent hfind =>
    obtain ⟨key, rfl⟩ := hkeys
    refine ⟨_, .delete key, ?_⟩
    rw [← (h.find_eq_none_iff hS).mp hfind, update_eq_self]
    exact h
  | @deleted v i j id k s' L' hij hfind hd =>
    obtain ⟨key, rfl⟩ := hkeys
    have hbucket : L.bucketOf doHash (.integer key) = L.chain i j := by rw [Layout.bucketOf, hij]
    obtain ⟨hid, sl, w, hsl, -⟩ := exists_slot_of_findInChain hfind
    have hcell : cell s L id k = some sl.bytes := by
      rw [cell_eq_of_own (hS.own_chain.mp hid), hsl]
      rfl
    rw [← hbucket] at hfind
    obtain ⟨-, hkey⟩ := h.of_find hS hfind hcell
    exact ⟨_, .delete key, h.delete hd hcell hkey⟩

/-! ## Runs -/

/-- What users of the table keep to: the tuples have the table's size, an updated tuple is stored, the keys
are integers, and no bucket is asked for more tuples than a page holds. -/
def TableCall.Allowed (sz : ℤ) (doHash : List UInt8 → UInt64) (schema : Schema) (root : ℤ) (s : PageStore)
    (c : TableCall) : Prop :=
  ∃ L, Skeleton s root L ∧ c.Fits sz s L ∧ c.HasRoom sz doHash schema s L ∧ c.IntegerKeyed

/-- Such a call returns. -/
def BoundedStep (al : Allocator) (sz : ℤ) (doHash : List UInt8 → UInt64) (schema : Schema) (root : ℤ)
    (s : PageStore) (l : TableCall × TableReply) (s' : PageStore) : Prop :=
  l.1.run al doHash schema root s = some (l.2, s') ∧ l.1.Allowed sz doHash schema root s

/-- The call deletes the only tuple of a page that is pinned. -/
def TableCall.DeletesFromPinned (M : TableMap) (s : PageStore) (c : TableCall) : Prop :=
  ∃ key t, c = .applyDelete (.integer key) ∧ M key = some t ∧
    getStoredTupleCnt (s.page t.rid.pageId) = 1 ∧ s.pins t.rid.pageId ≠ 0

theorem TableCall.Allowed.of_skeleton (h : c.Allowed sz doHash schema root s) (hS : Skeleton s root L) :
    c.Fits sz s L ∧ c.HasRoom sz doHash schema s L ∧ c.IntegerKeyed := by
  obtain ⟨L1, hS1, hfits, hroom, hkeys⟩ := h
  have hcell := hS1.cell_unique hS
  refine ⟨?_, ?_, hkeys⟩
  · revert hfits
    cases c <;> simp only [TableCall.Fits, hcell] <;> exact fun hf => hf
  · simpa only [TableCall.HasRoom, Layout.bucketOf, hS1.chain_unique hS] using hroom

theorem Table.applyDelete_pinned (hsz : 8 ≤ sz) (hkey : schema.HasKey) (h : TableInv sz s root L)
    {id : ℤ} (hc : L.bucketOf doHash v = [id])
    (hfind : findInChain schema v s (L.bucketOf doHash v) = some ⟨id, k⟩)
    (hlast : (occ (s.page id)).erase k = ∅) (hpin : s.pins id ≠ 0) :
    Table.applyDelete doHash schema root v s = none := by
  rcases TableCall.getTuple_eq_of_find hkey h v with ⟨hno, -⟩ | ⟨_, _, _, -, -, hget⟩
  · rw [hfind] at hno
    cases hno
  · rw [Table.applyDelete, hget]
    exact lkHaApplyDelete_pinned hsz hkey h (Prod.mk.eta (p := _)).symm hc hfind hlast hpin

section Run

variable (hint : schema.IntegerKey) (hsz : 8 ≤ sz) (hsz' : sz ≤ 3944)
include hint hsz hsz'

theorem BoundedStep.represents {l : TableCall × TableReply} (hstep : BoundedStep al sz doHash schema root s l s')
    (h : ∃ L, TableInv sz s root L ∧ Represents doHash schema s L M) :
    ∃ M', MapStep schema M l M' ∧ ∃ L', TableInv sz s' root L' ∧ Represents doHash schema s' L' M' := by
  obtain ⟨L, hinv, hrep⟩ := h
  obtain ⟨hrun, hallowed⟩ := hstep
  obtain ⟨hfits, hroom, hkeys⟩ := hallowed.of_skeleton hinv.skeleton
  rcases TableCall.run_cases hint.hasKey hsz (getTpNumCapacity_pos hsz hsz') hinv hfits
    hroom.frameBlank with ⟨he, -⟩ | ⟨reply, s1, L', he, ho⟩
  · rw [he] at hrun
    cases hrun
  · obtain ⟨rfl, rfl⟩ := some_mk_inj (he.symm.trans hrun)
    obtain ⟨M', hmap, hrep'⟩ := hrep.step hint hinv hroom hkeys ho
    exact ⟨M', hmap, L', ho.inv hinv, hrep'⟩

omit hsz' in
theorem TableCall.DeletesFromPinned.run_eq (hinv : TableInv sz s root L)
    (hrep : Represents doHash schema s L M) (h : c.DeletesFromPinned M s) : c.run al doHash schema root s = none := by
  obtain ⟨key, t, rfl, hM, hcnt, hpin⟩ := h
  obtain ⟨id, k, bytes, rfl, hcell, hkey⟩ := (hrep.stores key t).mp hM
  obtain ⟨a, b, sl, ho, hsl, rfl⟩ := exists_slot_of_cell hcell
  have hfind : findInChain schema (.integer key) s (L.bucketOf doHash (.integer key)) = some ⟨id, k⟩ := by
    rw [hrep.find_eq hinv.skeleton, hM]
    rfl
  have hc := hrep.chain_eq hinv.skeleton (hrep.placed hcell hkey)
  have hlast : (occ (s.page id)).erase k = ∅ := by
    have hcard : ((occ (s.page id)).card : ℤ) = 1 := (getStoredTupleCnt_eq _).symm.trans hcnt
    rw [← Finset.card_eq_zero, Finset.card_erase_of_mem (slot_ne_none_iff.mp (by simp [hsl]))]
    omega
  rw [TableCall.run, Table.applyDelete_pinned hsz hint.hasKey hinv hc hfind hlast hpin, Option.map_none]

theorem exists_map_of_run {base s₀ : PageStore} {ls : List (TableCall × TableReply)} (hbase : base.Quiet)
    (hroot : root ∈ base.ids) (hcreate : Table.create root base = some s₀)
    (htrace : Trace (BoundedStep al sz doHash schema root) s₀ ls s) :
    ∃ M, Trace (MapStep schema) (fun _ => none) ls M ∧
      ∃ L, TableInv sz s root L ∧ Represents doHash schema s L M :=
  htrace.simulate (R := fun s M => ∃ L, TableInv sz s root L ∧ Represents doHash schema s L M)
    (fun _ _ _ _ h hstep => hstep.represents hint hsz hsz' h)
    ⟨_, Table.tableInv_create sz hbase hroot hcreate, .empty doHash schema s₀ root⟩

/-- From an empty table, the answers of a run in which no bucket overflows are those of a finite map; and the
next call answers, as the map does, exactly when it does not delete the only tuple of a page that is
pinned. -/
theorem table_is_map_iff {base s₀ : PageStore} {ls : List (TableCall × TableReply)} (hal : al.Correct)
    (hbase : base.Quiet) (hroot : root ∈ base.ids) (hcreate : Table.create root base = some s₀)
    (htrace : Trace (BoundedStep al sz doHash schema root) s₀ ls s) :
    ∃ M, Trace (MapStep schema) (fun _ => none) ls M ∧
      ∀ c : TableCall, c.Allowed sz doHash schema root s → s.ids.card + 2 ≤ 2^31 →
        ((∃ reply s' M', c.run al doHash schema root s = some (reply, s') ∧ MapStep schema M (c, reply) M') ↔
          ¬ c.DeletesFromPinned M s) := by
  obtain ⟨M, hmap, L, hinv, hrep⟩ := exists_map_of_run hint hsz hsz' hbase hroot hcreate htrace
  refine ⟨M, hmap, fun c hallowed hcard => ?_⟩
  constructor
  · rintro ⟨reply, s', M', hrun, -⟩ hpinned
    rw [hpinned.run_eq hint hsz hinv hrep] at hrun
    cases hrun
  · intro hno
    obtain ⟨hfits, hroom, hkeys⟩ := hallowed.of_skeleton hinv.skeleton
    rcases TableCall.run_cases hint.hasKey hsz (getTpNumCapacity_pos hsz hsz') hinv hfits
      hroom.frameBlank with ⟨-, hblocked⟩ | ⟨reply, s', L', hrun, ho⟩
    · -- A call that does not return: there are page ids, so it is a deletion.
      cases c with
      | getTuple => exact absurd hblocked id
      | insertTuple | updateTuple => exact absurd ⟨hal, hcard⟩ hblocked
      | applyDelete v =>
        obtain ⟨key, rfl⟩ := hkeys
        obtain ⟨id, k, hfind, hlast, b, hb, hpin⟩ := hblocked
        obtain ⟨hid, sl, w, hsl, -⟩ := exists_slot_of_findInChain hfind
        have hown := hinv.skeleton.own_chain.mp hid
        have hcell : cell s L id k = some sl.bytes := by rw [cell_eq_of_own hown, hsl]; rfl
        obtain ⟨hM, -⟩ := hrep.of_find hinv.skeleton hfind hcell
        refine absurd ⟨key, _, rfl, hM, ?_, ?_⟩ hno
        · have hmem : k ∈ occ (s.page id) := slot_ne_none_iff.mp (by simp [hsl])
          rw [Tuple.ofBytes_rid, getStoredTupleCnt_eq, ← Finset.insert_erase hmem, hlast]
          rfl
        · have hone : L.bucketOf doHash (.integer key) = [id] := hrep.chain_eq hinv.skeleton hown
          rw [hone, List.mem_singleton] at hb
          rw [hb] at hpin
          exact hpin
    · obtain ⟨M', hstep, -⟩ := hrep.step hint hinv hroom hkeys ho
      exact ⟨reply, s', M', hrun, hstep⟩

end Run

theorem boundedStep_insert {t : Tuple} (hS : Skeleton s 0 L) (hsize : t.size = 8)
    (hrun : (TableCall.insertTuple t).run zeroFrames firstByte pairSchema 0 s = some (.result true, s'))
    (hnil : ∀ v, keyOf pairSchema t.bytes = some v → L.bucketOf firstByte v = []) :
    BoundedStep zeroFrames 8 firstByte pairSchema 0 s (.insertTuple t, .result true) s' := by
  refine ⟨hrun, L, hS, hsize, ?_, trivial⟩
  rintro t v ⟨⟩ hv -
  rw [hnil v hv]
  exact getTpNumCapacity_pos le_rfl (by norm_num)

/-- The calls that insert two tuples. -/
def twoInserts : List (TableCall × TableReply) :=
  [(.insertTuple (pairTuple 1 2), .result true), (.insertTuple (pairTuple 2 2), .result true)]

theorem exists_twoInserts : ∃ s₂ L₂, Trace (BoundedStep zeroFrames 8 firstByte pairSchema 0) newTable twoInserts s₂ ∧
    TableInv 8 s₂ 0 L₂ ∧ HeadsFilled s₂ L₂ ∧ s₂.ids.card ≤ 7 := by
  obtain ⟨s₁, L₁, s₂, L₂, hrun1, hS1, hnil, hrun2, hinv, hf, hcard⟩ := exists_insert_runs
  have hstep1 := boundedStep_insert (tableInv_newTable 8).skeleton rfl hrun1 fun _ _ => rfl
  exact ⟨s₂, L₂, .cons hstep1 (.single (boundedStep_insert hS1 rfl hrun2 hnil)), hinv, hf, hcard⟩

/-- Two tuples are inserted into a new table as into a map, and one of the keys can be looked up next. -/
theorem table_is_map_iff_insert : ∃ s₂ M,
    Trace (BoundedStep zeroFrames 8 firstByte pairSchema 0) newTable twoInserts s₂ ∧
    Trace (MapStep pairSchema) (fun _ => none) twoInserts M ∧
    ((∃ reply s' M', (TableCall.getTuple (.integer 1)).run zeroFrames firstByte pairSchema 0 s₂ =
        some (reply, s') ∧ MapStep pairSchema M (.getTuple (.integer 1), reply) M') ↔
      ¬ (TableCall.getTuple (.integer 1)).DeletesFromPinned M s₂) := by
  obtain ⟨s₂, L₂, htrace, hinv, -, hcard⟩ := exists_twoInserts
  obtain ⟨M, hmap, hcalls⟩ := table_is_map_iff ⟨_, rfl, rfl⟩ le_rfl (by norm_num)
    (Allocator.firstFree_correct _) quiet_onePage (by decide) create_newTable htrace
  refine ⟨s₂, M, htrace, hmap, hcalls _ ⟨L₂, hinv.skeleton, trivial, ?_, 1, rfl⟩ (by omega)⟩
  rintro t v ht
  cases ht

/-! ## A key that cannot be deleted -/

/-- The keys 1 and 2 are inserted, and the tuple with the key 1 is to get the key 2, which fails. The key 1
cannot be deleted any more: `apply_delete` does not return. -/
theorem failed_update_blocks_delete : ∃ rid s₁ t₂ s₂ t₃ s₃,
    Table.insertTuple zeroFrames firstByte pairSchema 0 (pairTuple 1 2) newTable =
      some (true, (pairTuple 1 2).setRid rid, s₁) ∧
    Table.insertTuple zeroFrames firstByte pairSchema 0 (pairTuple 2 2) s₁ = some (true, t₂, s₂) ∧
    Table.updateTuple zeroFrames firstByte pairSchema 0 (pairTuple 2 1) rid s₂ = some (false, t₃, s₃) ∧
    Table.applyDelete firstByte pairSchema 0 (.integer 1) s₃ = none := by
  obtain ⟨id, k, s₁, t₂, s₂, L2, he1, he2, hupdate, hinv, hchain, hcell, hpin⟩ := exists_duplicate_update
  refine ⟨⟨id, k⟩, s₁, t₂, s₂, _, _, by rw [Table.insertTuple, he1]; rfl, by rw [Table.insertTuple, he2]; rfl,
    by rw [Table.updateTuple, hupdate]; rfl, ?_⟩
  have hbucket : L2.bucketOf firstByte (.integer 1) = [id] := hchain
  have ho : L2.own id = some (.bucket 0 1) := hinv.skeleton.own_chain.mp (by rw [hchain]; simp)
  have hocc : occ (s₂.page id) = {k} := by
    ext n
    rw [← cell_ne_none_iff ho, hcell, Finset.mem_singleton]
    simp
  have hfind : findInChain pairSchema (.integer 1) (s₂.guard (Pi.single id 1) ∅) ([] ++ id :: []) =
      some ⟨id, k⟩ := by
    obtain ⟨-, -, sl, -, hsl, hbytes⟩ := exists_slot_of_cell ((hcell k).trans (if_pos rfl))
    refine findInChain_eq_some (by simp) (hasKey_iff.mpr ⟨sl, .integer 1, hsl, ?_, by decide⟩) fun n hn => ?_
    · rw [hbytes]
      decide
    · obtain ⟨sl', -, hsl', -⟩ := hasKey_iff.mp hn
      have hmem : n ∈ occ (s₂.page id) := slot_ne_none_iff.mp (Option.ne_none_iff_exists'.mpr ⟨sl', hsl'⟩)
      simpa [hocc] using hmem
  refine Table.applyDelete_pinned le_rfl pairSchema_hasKey (hinv.guard _) hbucket ?_
    (show (occ (s₂.page id)).erase k = ∅ by rw [hocc]; simp) ?_
  · rw [hbucket]
    exact hfind
  · simp [PageStore.guard, hpin]

end Dawn
