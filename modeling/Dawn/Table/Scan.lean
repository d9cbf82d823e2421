import Dawn.Index.Heads
import Dawn.Lib.Pulls
import Dawn.Table.ScanPins
import Dawn.Table.Table

/-!
# A scan visits every tuple once

The tuples of a table are listed in the order of the slots of the first level page, of the slots of the
second level pages, of the pages of a bucket and of the slots of a page (`tableTuples`). The constructor
of the iterator goes to the first of them (`LinkHashTableIter.new_points`), and an increment goes from
each to the next and from the last to the end (`LinkHashTableIter.next_points`): the loop over the pages
of a bucket finds the next tuple of the bucket, the loop over the buckets the next tuple of a second level
page, and the loop over the second level pages the next tuple of the table. So a scan comes to every
stored tuple once (`full_scan`).

It does so for a table in which the first page of every bucket has a tuple; pages behind it may be empty.
Nothing is written, but the constructor does not give back all the pages that it looks at
(`scan_pins_iff`).
-/

namespace Dawn

open TablePage PageStore

variable {id : ℤ} {t : Tuple} {i j : ℕ} {tuples : List Tuple} {it : LinkHashTableIter}

/-- `get_next` of a scan, as the child of another executor. -/
def scanNext (scan : LinkHashTableIter × PageStore) : Option (Option Tuple × LinkHashTableIter × PageStore) :=
  SeqScanExecutor.getNext scan.1 scan.2

namespace LinkHashPage

/-- The slots from `n` on that hold page ids, in order. -/
def usedFrom (p : Page) (n : ℕ) : List ℕ :=
  (List.range' n (lkHaPgSlotNum.toNat - n)).filter fun k : ℕ => getPgidInSlot p k ≠ -1

variable {p : Page} {n k : ℕ} {rest : List ℕ}

theorem lt_of_used (h : getPgidInSlot p n ≠ -1) : n < lkHaPgSlotNum.toNat := by
  have := (isSlot_of_ne h).2
  omega

theorem mem_usedFrom : k ∈ usedFrom p n ↔ n ≤ k ∧ getPgidInSlot p k ≠ -1 := by
  simp only [usedFrom, List.mem_filter, List.mem_range'_1, decide_eq_true_eq]
  constructor
  · rintro ⟨⟨h, -⟩, h'⟩
    exact ⟨h, h'⟩
  · rintro ⟨h, h'⟩
    have := lt_of_used h'
    exact ⟨⟨h, by omega⟩, h'⟩

theorem nodup_usedFrom (p : Page) (n : ℕ) : (usedFrom p n).Nodup :=
  (List.nodup_range' ..).filter _

theorem usedFrom_eq (p : Page) (n : ℕ) : usedFrom p n =
    if getPgidInSlot p n = -1 then usedFrom p (n + 1) else n :: usedFrom p (n + 1) := by
  obtain hn | hn := Nat.lt_or_ge n lkHaPgSlotNum.toNat
  · obtain ⟨m, hm⟩ : ∃ m, lkHaPgSlotNum.toNat - n = m + 1 := ⟨lkHaPgSlotNum.toNat - n - 1, by omega⟩
    have hm' : lkHaPgSlotNum.toNat - (n + 1) = m := by omega
    rw [usedFrom, usedFrom, hm, hm', List.range'_succ, List.filter_cons]
    simp
  · rw [if_pos (not_not.mp fun h => absurd (lt_of_used h) (by omega)), usedFrom, usedFrom,
      Nat.sub_eq_zero_of_le hn, Nat.sub_eq_zero_of_le (by omega)]
    rfl

theorem usedFrom_of_le (h : lkHaPgSlotNum.toNat ≤ n) : usedFrom p n = [] := by
  rw [usedFrom, Nat.sub_eq_zero_of_le h]
  rfl

theorem usedFrom_succ (h : usedFrom p n = k :: rest) : usedFrom p (k + 1) = rest := by
  induction hm : lkHaPgSlotNum.toNat - n generalizing n with
  | zero =>
    rw [usedFrom_of_le (by omega)] at h
    cases h
  | succ m ih =>
    rw [usedFrom_eq] at h
    split_ifs at h
    · exact ih h (by omega)
    · obtain ⟨rfl, rfl⟩ := List.cons.inj h
      rfl

end LinkHashPage

open LinkHashPage

theorem firstUsedSlot_eq (p : Page) : firstUsedSlot p = (usedFrom p 0).head? := by
  rw [firstUsedSlot, usedFrom, List.head?_filter, List.range_eq_range', Nat.sub_zero]
  rfl

namespace LinkHashTableIter

theorem findSlot_eq (p : Page) {n : ℕ} (hn : n ≤ lkHaPgSlotNum.toNat) : findSlot p (getPgidInSlot p n) n =
      match (usedFrom p n).head? with
      | some k => (getPgidInSlot p k, (k : ℤ))
      | none => (-1, lkHaPgSlotNum) := by
  have hN : ((lkHaPgSlotNum.toNat : ℕ) : ℤ) = lkHaPgSlotNum := by decide
  induction hm : lkHaPgSlotNum.toNat - n generalizing n with
  | zero =>
    obtain rfl : n = lkHaPgSlotNum.toNat := by omega
    have hout : getPgidInSlot p ((lkHaPgSlotNum.toNat : ℕ) : ℤ) = -1 := by
      by_contra h
      exact absurd (lt_of_used h) (lt_irrefl _)
    rw [usedFrom_of_le le_rfl, hout, findSlot, hN, if_neg (by omega)]
    rfl
  | succ m ih =>
    rw [findSlot]
    by_cases h : getPgidInSlot p n = -1
    · have hlt : (n : ℤ) < lkHaPgSlotNum ∧ getPgidInSlot p n = invalidPageId := ⟨by omega, h⟩
      have hrec := ih (n := n + 1) (by omega) (by omega)
      push_cast at hrec
      rw [if_pos hlt, usedFrom_eq, if_pos h, hrec]
    · rw [if_neg fun hc => h hc.2, usedFrom_eq, if_neg h]
      rfl

end LinkHashTableIter

/-! ## The tuples of a table in order -/

section Tuples

variable (pg : ℤ → Page) (root : ℤ) (L : Layout)

/-- The tuple in a slot of a page. -/
def tupleAt (id : ℤ) (k : ℕ) : Tuple :=
  Tuple.ofBytes ⟨id, k⟩ (((slot (pg id) k).map Slot.bytes).getD [])

/-- The tuples of a page from a slot on. -/
def pageTuples (id : ℤ) (n : ℕ) : List Tuple := (slotsFrom (pg id) n).map (tupleAt pg id)

/-- The tuples of the pages of a list. -/
def chainTuples (l : List ℤ) : List Tuple := l.flatMap (pageTuples pg · 0)

/-- The tuples of the buckets of a second level page from a slot on. -/
def bucketTuples (i n : ℕ) : List Tuple :=
  (usedFrom (pg (getPgidInSlot (pg root) i)) n).flatMap fun j : ℕ => chainTuples pg (L.chain i j)

/-- The tuples of the second level pages from a slot of the first level page on. -/
def tableTuples (n : ℕ) : List Tuple := (usedFrom (pg root) n).flatMap (bucketTuples pg root L · 0)

/-- A tuple of a bucket, and the tuples after it in that bucket. -/
def InBucket (i j : ℕ) (t : Tuple) (rest : List Tuple) : Prop :=
  ∃ pre id post k, L.chain i j = pre ++ id :: post ∧ t = tupleAt pg id k ∧
    rest = pageTuples pg id (k + 1) ++ chainTuples pg post

/-- A tuple of the table, and the tuples after it. -/
def InTable (i j : ℕ) (t : Tuple) (rest : List Tuple) : Prop :=
  ∃ rest', InBucket pg L i j t rest' ∧
    rest = rest' ++ bucketTuples pg root L i (j + 1) ++ tableTuples pg root L (i + 1)

end Tuples

/-- What the loop over the buckets of a second level page ends with, where some tuples are still to
come: the slot of the bucket, and the next tuple. -/
def BucketResult (pg : ℤ → Page) (root : ℤ) (L : Layout) (i : ℕ) (tuples : List Tuple)
    (r : Option ℤ × ℤ × Tuple) : Prop :=
  match tuples with
  | [] => r.1 = none ∧ r.2.1 = -1
  | t :: rest => ∃ (j : ℕ) (rest' : List Tuple), r.1 = some (j : ℤ) ∧ r.2.2 = t ∧
    InBucket pg L i j t rest' ∧ rest = rest' ++ bucketTuples pg root L i (j + 1)

/-- What the loop over the second level pages ends with. -/
def TableResult (pg : ℤ → Page) (root : ℤ) (L : Layout) (tuples : List Tuple)
    (r : Option (ℤ × ℤ) × Tuple) : Prop :=
  match tuples with
  | [] => r.1 = none
  | t :: rest => ∃ i j : ℕ, r = (some ((i : ℤ), (j : ℤ)), t) ∧ InTable pg root L i j t rest

/-- The store has the given pages, and those that belong to the owners of a kind can be used. -/
structure Serves (s : PageStore) (pg : ℤ → Page) (L : Layout) (P : Owner → Prop) : Prop where
  page : s.page = pg
  usable : ∀ {id : ℤ} {o : Owner}, L.own id = some o → P o → s.Usable id

variable {s₀ s : PageStore} {root : ℤ} {L : Layout} {pg : ℤ → Page} {P : Owner → Prop}

theorem Serves.latched {s' : PageStore} {P' : Owner → Prop} (h : Serves s pg L P)
    (hl : s.LatchedAt id s') (hP : ∀ {b o}, L.own b = some o → P' o → P o ∧ b ≠ id) : Serves s' pg L P' :=
  ⟨hl.page.trans h.page, fun ho hp => hl.usable (h.usable ho (hP ho hp).1) (hP ho hp).2⟩

theorem Serves.of_getPage {s1 : PageStore} (hs : Serves s pg L P)
    (h1 : s.getPage id = some s1) : Serves s1 pg L P := by
  obtain ⟨-, rfl⟩ := eq_of_getPage h1
  refine ⟨hs.page, fun ho hp => ?_⟩
  obtain ⟨hmem, hpos, hfree⟩ := hs.usable ho hp
  exact ⟨hmem, hpos, hfree⟩

theorem pageTuples_eq_cons {n : ℕ} {ts : List Tuple} (h : pageTuples pg id n = t :: ts) :
    ∃ k, (slotsFrom (pg id) n).head? = some k ∧ k ∈ occ (pg id) ∧ t = tupleAt pg id k ∧
      ts = pageTuples pg id (k + 1) := by
  obtain ⟨k, ks, hk, ht, hts⟩ := List.map_eq_cons_iff.mp h
  have hocc : k ∈ occ (pg id) := (mem_slotsFrom.mp (hk ▸ List.mem_cons_self)).2
  refine ⟨k, by rw [hk]; rfl, hocc, ht.symm, ?_⟩
  rw [pageTuples, slotsFrom_succ hk, hts]

theorem getTuple_of_mem {k : ℕ} (hk : k ∈ occ (pg id)) :
    getTuple (pg id) ⟨id, k⟩ = some (tupleAt pg id k) := by
  simp only [getTuple_eq, slot_of_mem hk, Option.map_some, tupleAt, Option.getD_some]

namespace LinkHashTableIter

/-- The slot from which an increment reads a page. -/
def startSlot (curRid : RID) (id : ℤ) : ℕ :=
  if curRid.pageId = id then (curRid.slotNum + 1).toNat else 0

theorem readPage_eq {curRid : RID} (t : Tuple) (hid : id ≠ -1) (hpid : (pg id).pageId = id)
    (hcur : 0 ≤ curRid.slotNum) (hr : Readable (pg id)) : ∃ t', readPage (pg id) curRid t = some (
      match (pageTuples pg id (startSlot curRid id)).head? with
      | some t => (true, t)
      | none => (false, t')) := by
  obtain ⟨a, b⟩ := curRid
  unfold readPage startSlot
  rw [hpid]
  obtain rfl | hne := eq_or_ne a id
  · obtain ⟨k, rfl⟩ := Int.eq_ofNat_of_zero_le hcur
    have hk : ((k : ℤ) + 1).toNat = k + 1 := by omega
    simp only [if_true, getNextTupleRid_eq hid, hk]
    rw [pageTuples, List.head?_map, hpid]
    cases hj : (slotsFrom (pg a) (k + 1)).head? with
    | none => exact ⟨_, rfl⟩
    | some j =>
      have hocc : j ∈ occ (pg a) := (mem_slotsFrom.mp (List.mem_of_head? hj)).2
      exact ⟨t, by simp only [getTuple_of_mem hocc, Option.getD_some, Option.map_some]⟩
  · simp only [if_neg hne, hr.getTheFirstTuple_eq, some_bind]
    rw [pageTuples, List.head?_map, hpid]
    cases hj : (slotsFrom (pg id) 0).head? with
    | none => exact ⟨t, rfl⟩
    | some j =>
      have hocc : j ∈ occ (pg id) := (mem_slotsFrom.mp (List.mem_of_head? hj)).2
      exact ⟨t, by simp only [Option.bind_some, getTuple_of_mem hocc, Option.map_some]⟩

theorem startSlot_of_ne {curRid : RID} (h : curRid.pageId ≠ id) : startSlot curRid id = 0 :=
  if_neg h

theorem bucketTuples_of_cons {n : ℕ} {js : List ℕ} (h : usedFrom (pg (getPgidInSlot (pg root) i)) n = j :: js) :
    bucketTuples pg root L i n = chainTuples pg (L.chain i j) ++ bucketTuples pg root L i (j + 1) := by
  rw [bucketTuples, bucketTuples, h, usedFrom_succ h, List.flatMap_cons]

theorem bucketTuples_of_nil {n : ℕ} (h : usedFrom (pg (getPgidInSlot (pg root) i)) n = []) :
    bucketTuples pg root L i n = [] := by
  rw [bucketTuples, h, List.flatMap_nil]

/-! ## The loops -/

section Loops

variable (h : Skeleton s₀ root L) (hread : L.AllPages s₀ Readable)
  {curRid : RID} (hcur : 0 ≤ curRid.slotNum)

include h hread hcur

theorem pageLoop_step (hs : Serves s s₀.page L P) (hP : P (.bucket i j))
    (hmem : id ∈ L.chain i j) (t : Tuple) : ∃ t', pageLoop curRid id t s =
      match (pageTuples s₀.page id (startSlot curRid id)).head? with
      | some t => some ((true, t), s)
      | none => if nextPage s₀ id = -1 then some ((false, t'), s) else pageLoop curRid (nextPage s₀ id) t' s := by
  have hown := h.own_chain.mp hmem
  obtain ⟨s1, s2, h1, h2, hl, hu⟩ := (hs.usable hown hP).writer
  obtain ⟨t', ht'⟩ := readPage_eq t (h.quiet.ne_invalid (h.chain_mem hmem)) rfl hcur (hread hown)
  refine ⟨t', ?_⟩
  rw [pageLoop]
  simp only [h1, h2, hl.page, hs.page, some_bind, ht', hu]
  cases (pageTuples s₀.page id (startSlot curRid id)).head? <;> rfl

theorem pageLoop_eq {pre post : List ℤ} (hs : Serves s s₀.page L P)
    (hP : P (.bucket i j)) (hc : L.chain i j = pre ++ id :: post) (hpost : curRid.pageId ∉ post)
    (t : Tuple) : ∃ r, pageLoop curRid id t s = some (r, s) ∧
      match pageTuples s₀.page id (startSlot curRid id) ++ chainTuples s₀.page post with
      | [] => r.1 = false
      | t :: rest => r = (true, t) ∧ InBucket s₀.page L i j t rest := by
  induction post generalizing pre id t with
  | nil =>
    obtain ⟨t', ht'⟩ := pageLoop_step h hread hcur hs hP (by simp [hc] : id ∈ L.chain i j) t
    have hnext : nextPage s₀ id = -1 := (hc ▸ h.linked i j).next_eq
    rw [ht']
    cases hp : pageTuples s₀.page id (startSlot curRid id) with
    | nil => exact ⟨(false, t'), by simp [hnext], rfl⟩
    | cons t ts =>
      obtain ⟨k, -, -, rfl, rfl⟩ := pageTuples_eq_cons hp
      exact ⟨_, rfl, rfl, pre, id, [], k, hc, rfl, rfl⟩
  | cons id' post ih =>
    obtain ⟨t', ht'⟩ := pageLoop_step h hread hcur hs hP (by simp [hc] : id ∈ L.chain i j) t
    have hnext : nextPage s₀ id = id' := (hc ▸ h.linked i j).next_eq
    have hid' : id' ≠ -1 := h.quiet.ne_invalid (h.chain_mem (by simp [hc] : id' ∈ L.chain i j))
    rw [ht']
    cases hp : pageTuples s₀.page id (startSlot curRid id) with
    | nil =>
      have hc' : L.chain i j = (pre ++ [id]) ++ id' :: post := by simp [hc]
      obtain ⟨r, hr, hfound⟩ := ih hc' (fun hm => hpost (List.mem_cons_of_mem id' hm)) t'
      have hstart : startSlot curRid id' = 0 :=
        startSlot_of_ne fun e => hpost (e ▸ List.mem_cons_self)
      rw [hstart] at hfound
      refine ⟨r, ?_, hfound⟩
      simp only [List.head?_nil, hnext, if_neg hid', hr]
    | cons t ts =>
      obtain ⟨k, -, -, rfl, rfl⟩ := pageTuples_eq_cons hp
      exact ⟨_, rfl, rfl, pre, id, id' :: post, k, hc, rfl, rfl⟩

theorem bucketLoop_eq {pre post : List ℤ} (hs : Serves s s₀.page L P)
    (hP : ∀ i j, P (.bucket i j)) (hi : secondPage s₀ root i ≠ -1)
    (hc : L.chain i j = pre ++ id :: post) (hpost : curRid.pageId ∉ post)
    (hlater : ∀ j' > j, curRid.pageId ∉ L.chain i j') (t : Tuple) :
    ∃ r, bucketLoop curRid (secondPage s₀ root i) id j t s = some (r, s) ∧
      BucketResult s₀.page root L i ((pageTuples s₀.page id (startSlot curRid id) ++
        chainTuples s₀.page post) ++ bucketTuples s₀.page root L i (j + 1)) r := by
  induction hn : lkHaPgSlotNum.toNat - j using Nat.strong_induction_on generalizing j id pre post t with
  | _ n ih =>
    have hid : id ≠ invalidPageId :=
      h.quiet.ne_invalid (h.chain_mem (by simp [hc] : id ∈ L.chain i j))
    have hj : getPgidInSlot (s₀.page (secondPage s₀ root i)) j ≠ -1 := by
      rw [h.head _ hi, Ne, h.headOr_eq_iff]
      simp [hc]
    have hlt := lt_of_used hj
    obtain ⟨⟨ok, t'⟩, hr, hfound⟩ := pageLoop_eq h hread hcur hs (hP i j) hc hpost t
    have hslot := findSlot_eq (s₀.page (secondPage s₀ root i)) (n := j + 1) (by omega)
    push_cast at hslot
    rw [bucketLoop, if_neg hid]
    simp only [hr, hs.page, some_bind, hslot]
    cases hrem : pageTuples s₀.page id (startSlot curRid id) ++ chainTuples s₀.page post with
    | cons t ts =>
      rw [hrem] at hfound
      obtain ⟨he, hin⟩ := hfound
      rw [Prod.mk.injEq] at he
      obtain ⟨rfl, rfl⟩ := he
      exact ⟨_, if_pos rfl, j, ts, rfl, rfl, hin, rfl⟩
    | nil =>
      rw [hrem] at hfound
      obtain rfl : ok = false := hfound
      cases hu : usedFrom (s₀.page (secondPage s₀ root i)) (j + 1) with
      | nil =>
        rw [bucketTuples_of_nil hu]
        exact ⟨(none, -1, t'), by simp, rfl, rfl⟩
      | cons j' js =>
        obtain ⟨hle, hused⟩ := mem_usedFrom.mp (hu ▸ List.mem_cons_self)
        have hhead := h.head (j' : ℤ) hi
        obtain ⟨id', post', hc'⟩ : ∃ id' post', L.chain i j' = [] ++ id' :: post' := by
          rw [hhead, Ne, h.headOr_eq_iff] at hused
          exact List.exists_cons_of_ne_nil hused
        have hnot : curRid.pageId ∉ L.chain i j' := hlater j' (by omega)
        rw [hc', List.nil_append, List.mem_cons, not_or] at hnot
        obtain ⟨r, hr', hfound'⟩ := ih _ (by omega) hc' hnot.2 (fun a ha => hlater a (by omega)) t' rfl
        rw [startSlot_of_ne hnot.1] at hfound'
        rw [bucketTuples_of_cons hu, hc']
        have hlt' : (j' : ℤ) < lkHaPgSlotNum := (isSlot_of_ne hused).2
        rw [hc'] at hhead
        refine ⟨r, ?_, hfound'⟩
        simp only [List.head?_cons, hhead, List.nil_append, headOr_cons, if_pos hlt', hr', Bool.false_eq_true, if_false]

theorem bucketLoop_fresh (hs : Serves s s₀.page L P) (hP : ∀ i j, P (.bucket i j))
    (hi : secondPage s₀ root i ≠ -1) (hnot : ∀ j : ℕ, curRid.pageId ∉ L.chain i j) (t : Tuple) :
    ∃ r, bucketLoop curRid (secondPage s₀ root i) (findSlot (s₀.page (secondPage s₀ root i)) (-1) (-1)).1
        (findSlot (s₀.page (secondPage s₀ root i)) (-1) (-1)).2 t s = some (r, s) ∧
      BucketResult s₀.page root L i (bucketTuples s₀.page root L i 0) r := by
  have hfirst : findSlot (s₀.page (secondPage s₀ root i)) (-1) (-1) =
      findSlot (s₀.page (secondPage s₀ root i)) (getPgidInSlot (s₀.page (secondPage s₀ root i)) 0) 0 := by
    rw [findSlot, if_pos (by decide)]
    rfl
  have hslot := findSlot_eq (s₀.page (secondPage s₀ root i)) (n := 0) (by decide)
  rw [hfirst, ← Nat.cast_zero, hslot]
  cases hu : usedFrom (s₀.page (secondPage s₀ root i)) 0 with
  | nil =>
    rw [bucketTuples_of_nil hu, bucketLoop]
    exact ⟨(none, -1, t), by simp, rfl, rfl⟩
  | cons j js =>
    have hused := (mem_usedFrom.mp (hu ▸ List.mem_cons_self)).2
    have hhead := h.head (j : ℤ) hi
    obtain ⟨id, post, hc⟩ : ∃ id post, L.chain i j = [] ++ id :: post := by
      rw [hhead, Ne, h.headOr_eq_iff] at hused
      exact List.exists_cons_of_ne_nil hused
    have hj := hnot j
    rw [hc, List.nil_append, List.mem_cons, not_or] at hj
    obtain ⟨r, hr, hfound⟩ := bucketLoop_eq h hread hcur hs hP hi hc hj.2 (fun a _ => hnot a) t
    rw [startSlot_of_ne hj.1] at hfound
    rw [hc] at hhead
    refine ⟨r, ?_, ?_⟩
    · simp only [List.head?_cons, hhead, List.nil_append, headOr_cons, hr]
    · rw [bucketTuples_of_cons hu, hc]
      exact hfound

theorem levelLoop_eq (hs : Serves s s₀.page L (· ≠ .root)) (hi : secondPage s₀ root i ≠ -1)
    {tb slot2 : ℤ} (hb : ∀ s2 t, Serves s2 s₀.page L (∃ i j, · = .bucket i j) → ∃ r,
      bucketLoop curRid (secondPage s₀ root i) (findSlot (s₀.page (secondPage s₀ root i)) tb slot2).1
        (findSlot (s₀.page (secondPage s₀ root i)) tb slot2).2 t s2 = some (r, s2) ∧
      BucketResult s₀.page root L i tuples r) (hlater : ∀ i' > i, ∀ j : ℕ, curRid.pageId ∉ L.chain i' j) (t : Tuple) :
    ∃ r, levelLoop root curRid (secondPage s₀ root i) tb i slot2 t s = some (r, s) ∧
      TableResult s₀.page root L (tuples ++ tableTuples s₀.page root L (i + 1)) r := by
  induction hn : lkHaPgSlotNum.toNat - i using Nat.strong_induction_on
    generalizing i tb slot2 tuples t with
  | _ n ih =>
    have hlt := lt_of_used hi
    obtain ⟨s1, s2, h1, h2, hl, hu⟩ := (hs.usable (h.own_second hi) (by simp)).reader
    have hs2 : Serves s2 s₀.page L (∃ i j, · = .bucket i j) := by
      refine hs.latched hl ?_
      rintro b o ho ⟨a, c, rfl⟩
      refine ⟨by simp, ?_⟩
      rintro rfl
      rw [h.own_second hi] at ho
      simp at ho
    obtain ⟨⟨found, tb', t'⟩, hr, hfound⟩ := hb s2 t hs2
    have hslot := findSlot_eq (s₀.page root) (n := i + 1) (by omega)
    push_cast at hslot
    rw [levelLoop]
    simp only [h1, h2, hl.page, hs.page, some_bind, hr, hu, hslot]
    cases tuples with
    | cons t ts =>
      obtain ⟨j, rest', rfl, rfl, hin, rfl⟩ := hfound
      exact ⟨_, rfl, i, j, rfl, rest', hin, rfl⟩
    | nil =>
      obtain ⟨rfl, rfl⟩ : found = none ∧ tb' = -1 := hfound
      cases hused : usedFrom (s₀.page root) (i + 1) with
      | nil =>
        have hnil : tableTuples s₀.page root L (i + 1) = [] := by
          rw [tableTuples, hused, List.flatMap_nil]
        rw [hnil]
        exact ⟨(none, t'), by simp, rfl⟩
      | cons i' is =>
        obtain ⟨hle, hi'⟩ := mem_usedFrom.mp (hused ▸ List.mem_cons_self)
        have htuples : tableTuples s₀.page root L (i + 1) =
            bucketTuples s₀.page root L i' 0 ++ tableTuples s₀.page root L (i' + 1) := by
          rw [tableTuples, tableTuples, hused, usedFrom_succ hused, List.flatMap_cons]
        have hlt' : (i' : ℤ) < lkHaPgSlotNum := (isSlot_of_ne hi').2
        obtain ⟨r, hr', hfound'⟩ := ih _ (by omega) hi'
          (fun s2 t hs2 => bucketLoop_fresh h hread hcur hs2 (fun a b => ⟨a, b, rfl⟩) hi' (hlater i' (by omega)) t)
          (fun a ha => hlater a (by omega)) t' rfl
        rw [List.nil_append, htuples]
        refine ⟨r, ?_, hfound'⟩
        have hsec : getPgidInSlot (s₀.page root) i' = secondPage s₀ root i' := rfl
        simp only [List.head?_cons, hsec, if_pos hlt', hr']

end Loops

/-! ## The iterator -/

/-- The iterator is at the first of the tuples, and the others come after it; with no tuples left it is
at the end. -/
def Points (pg : ℤ → Page) (root : ℤ) (L : Layout) (it : LinkHashTableIter) (tuples : List Tuple) :
    Prop :=
  it.firstPageId = root ∧
    match tuples with
    | [] => it.tuple.rid.pageId = -1
    | t :: rest => it.tuple = t ∧ ∃ i j : ℕ, it.slot1Num = i ∧ it.slot2Num = j ∧
      InTable pg root L i j t rest

theorem InBucket.pageId_ne (h : Skeleton s₀ root L) {rest : List Tuple}
    (hin : InBucket s₀.page L i j t rest) : t.rid.pageId ≠ -1 := by
  obtain ⟨pre, id, post, k, hc, rfl, -⟩ := hin
  exact h.quiet.ne_invalid (h.chain_mem (by simp [hc] : id ∈ L.chain i j))

theorem Points.current (h : Skeleton s₀ root L)
    (hp : Points s₀.page root L it tuples) : it.current = tuples.head? := by
  cases tuples with
  | nil => exact if_pos hp.2
  | cons t rest =>
    obtain ⟨-, rfl, i, j, -, -, rest', hin, -⟩ := hp
    exact if_neg (InBucket.pageId_ne h hin)

section Steps

variable (h : Skeleton s₀ root L) (hread : L.AllPages s₀ Readable)

include h hread in
theorem next_points {rest : List Tuple}
    (hs : Serves s s₀.page L fun _ => True) (hp : Points s₀.page root L it (t :: rest)) :
    ∃ it', it.next s = some (it', s) ∧ Points s₀.page root L it' rest := by
  obtain ⟨root', t', slot1, slot2⟩ := it
  obtain ⟨rfl, rfl, i, j, rfl, rfl, rest', hin, rfl⟩ := hp
  have hne := InBucket.pageId_ne h hin
  obtain ⟨pre, id, post, k, hc, ht, rfl⟩ := hin
  obtain rfl : t' = tupleAt s₀.page id k := ht
  have hmem : id ∈ L.chain i j := by simp [hc]
  have hi := h.second_ne hmem
  obtain ⟨s1, s2, h1, h2, hl, hu⟩ := (hs.usable h.own_root trivial).reader
  have hs2 : Serves s2 s₀.page L (· ≠ .root) := by
    refine hs.latched hl fun {b o} ho hor => ⟨trivial, ?_⟩
    rintro rfl
    rw [h.own_root, Option.some.injEq] at ho
    exact hor ho.symm
  -- The page of the tuple is in no other place of the scan.
  have hother : ∀ a b : ℕ, a ≠ i ∨ b ≠ j → id ∉ L.chain a b := by
    intro a b hab hm
    have he := (h.own_chain.mp hm).symm.trans (h.own_chain.mp hmem)
    simp only [Option.some.injEq, Owner.bucket.injEq, Nat.cast_inj] at he
    omega
  have hpost : id ∉ post := by
    have hn := h.nodup i j
    rw [hc] at hn
    exact (List.nodup_cons.mp (List.nodup_append.mp hn).2.1).1
  have hstart : startSlot ⟨id, k⟩ id = k + 1 := by
    simp only [startSlot, if_true]
    omega
  have hfind : findSlot (s₀.page (secondPage s₀ root' i)) id j = (id, (j : ℤ)) := by
    rw [findSlot, if_neg fun hc => hne hc.2]
  have hcur : (0 : ℤ) ≤ RID.slotNum ⟨id, k⟩ := by simp
  obtain ⟨⟨found, t'⟩, hr, hfound⟩ := levelLoop_eq h hread hcur hs2 hi
    (fun s2 t hs2 => by
      rw [hfind]
      exact bucketLoop_eq h hread hcur hs2 (fun a b => ⟨a, b, rfl⟩) hi hc hpost
        (fun b hb => hother i b (Or.inr (by omega))) t)
    (fun a ha b => hother a b (Or.inl (by omega))) (tupleAt s₀.page id k)
  rw [hstart] at hfound
  have hrid : (tupleAt s₀.page id k).rid = ⟨id, k⟩ := rfl
  have hsec : getPgidInSlot (s₀.page root') i = secondPage s₀ root' i := rfl
  unfold next
  simp only [hrid, if_neg (show ¬ id = invalidPageId from hne), h1, h2, hl.page, hs.page, hsec, some_bind, hr, hu]
  generalize pageTuples s₀.page id (k + 1) ++ chainTuples s₀.page post ++
    bucketTuples s₀.page root' L i (j + 1) ++ tableTuples s₀.page root' L (i + 1) = tuples at hfound ⊢
  cases tuples with
  | nil =>
    obtain rfl : found = none := hfound
    exact ⟨_, rfl, rfl, rfl⟩
  | cons t rest =>
    obtain ⟨a, b, he, hin⟩ := hfound
    rw [Prod.mk.injEq] at he
    obtain ⟨rfl, rfl⟩ := he
    exact ⟨_, rfl, rfl, rfl, a, b, rfl, rfl, hin⟩

theorem next_end (hp : Points pg root L it []) :
    ∃ it', it.next s = some (it', s) ∧ Points pg root L it' [] :=
  ⟨_, if_pos hp.2, hp.1, rfl⟩

include h hread in
theorem advance_points (n : ℕ)
    (hs : Serves s s₀.page L fun _ => True) (hp : Points s₀.page root L it tuples) :
    ∃ it', advance n it s = some (it', s) ∧ Points s₀.page root L it' (tuples.drop n) := by
  induction n generalizing it tuples with
  | zero => exact ⟨it, rfl, hp⟩
  | succ n ih =>
    obtain ⟨it1, h1, hp1⟩ : ∃ it1, it.next s = some (it1, s) ∧
        Points s₀.page root L it1 tuples.tail := by
      cases tuples with
      | nil => exact next_end hp
      | cons t rest => exact next_points h hread hs hp
    obtain ⟨it', h', hp'⟩ := ih hp1
    refine ⟨it', ?_, ?_⟩
    · rw [advance, h1]
      exact h'
    · rwa [List.drop_tail] at hp'

include h hread in
theorem points_pulls (hs : Serves s s₀.page L fun _ => True) (hp : Points s₀.page root L it tuples) :
    ∃ it', Pulls scanNext (it, s) tuples (it', s) := by
  induction tuples generalizing it with
  | nil => exact ⟨it, if_pos hp.2⟩
  | cons t rest ih =>
    obtain ⟨it1, h1, hp1⟩ := next_points h hread hs hp
    obtain ⟨it', h'⟩ := ih hp1
    obtain ⟨-, rfl, i, j, -, -, rest', hin, -⟩ := hp
    have hne : it.tuple.rid.pageId ≠ invalidPageId := InBucket.pageId_ne h hin
    exact ⟨it', (it1, s), by simp only [scanNext, SeqScanExecutor.getNext, if_neg hne, h1, some_bind], h'⟩

theorem getAll_of_pulls {e : LinkHashTableIter × PageStore} (h : Pulls scanNext (it, s) tuples e) :
    SeqScanExecutor.getAll it s = some (tuples, e) := by
  induction tuples generalizing it s with
  | nil =>
    rw [SeqScanExecutor.getAll, show SeqScanExecutor.getNext it s = _ from h]
    rfl
  | cons t rest ih =>
    obtain ⟨⟨it1, s1⟩, h1, hp⟩ := h
    rw [SeqScanExecutor.getAll, show SeqScanExecutor.getNext it s = _ from h1, some_bind]
    simp only [ih hp, some_bind]

include h hread in
theorem getAll_points (hs : Serves s s₀.page L fun _ => True) (hp : Points s₀.page root L it tuples) :
    ∃ it', SeqScanExecutor.getAll it s = some (tuples, it', s) := by
  obtain ⟨it', hpulls⟩ := points_pulls h hread hs hp
  exact ⟨it', getAll_of_pulls hpulls⟩

theorem tableTuples_eq (pg : ℤ → Page) (root : ℤ) (L : Layout) (n : ℕ) : tableTuples pg root L n =
    (if getPgidInSlot (pg root) n = -1 then [] else bucketTuples pg root L n 0) ++ tableTuples pg root L (n + 1) := by
  rw [tableTuples, tableTuples, usedFrom_eq]
  split_ifs <;> simp

variable (hfull : HeadsFilled s₀ L)

include h hread hfull in
theorem searchSlot_eq (hs : Serves s s₀.page L (· ≠ .root)) (i : ℕ) : ∃ s', Serves s' s₀.page L (· ≠ .root) ∧
      match if secondPage s₀ root i = -1 then [] else bucketTuples s₀.page root L i 0 with
      | [] => searchSlot root i s = some (.none, s')
      | t :: rest => ∃ (j : ℕ) (rest' : List Tuple), searchSlot root i s = some (.found t i j, s') ∧
        InBucket s₀.page L i j t rest' ∧ rest = rest' ++ bucketTuples s₀.page root L i (j + 1) := by
  have hsec : getPgidInSlot (s₀.page root) i = secondPage s₀ root i := rfl
  unfold searchSlot
  simp only [hs.page, hsec]
  split_ifs with hi hi' hi'
  · exact ⟨s, hs, rfl⟩
  · exact absurd hi hi'
  · exact absurd hi' hi
  · obtain ⟨s1, s2, h1, h2, hl, -⟩ := (hs.usable (h.own_second hi) (by simp)).reader
    have hs1 := hs.of_getPage h1
    simp only [h1, h2, hl.page, hs1.page, hs.page, Option.bind_eq_bind, Option.bind_some,
      rUnlock_of_rLock h2, firstUsedSlot_eq]
    refine ⟨s1, hs1, ?_⟩
    cases hu : usedFrom (s₀.page (secondPage s₀ root i)) 0 with
    | nil =>
      rw [bucketTuples_of_nil hu]
      rfl
    | cons j js =>
      have hused := (mem_usedFrom.mp (hu ▸ List.mem_cons_self)).2
      have hhead := h.head (j : ℤ) hi
      obtain ⟨id, post, hc⟩ : ∃ id post, L.chain i j = id :: post := by
        rw [hhead, Ne, h.headOr_eq_iff] at hused
        exact List.exists_cons_of_ne_nil hused
      have hown := h.own_chain.mp (by simp [hc] : id ∈ L.chain i j)
      obtain ⟨s3, s4, h3, h4, hl', hu'⟩ := (hs1.usable hown (by simp)).writer
      rw [hc, headOr_cons] at hhead
      have hne : slotsFrom (s₀.page id) 0 ≠ [] := fun he =>
        hfull (by rw [hc]; rfl) (slotsFrom_zero_eq_nil_iff.mp he)
      obtain ⟨k, ks, hk⟩ := List.exists_cons_of_ne_nil hne
      have hocc : k ∈ occ (s₀.page id) := (mem_slotsFrom.mp (hk ▸ List.mem_cons_self)).2
      have hpid : (s₀.page id).pageId = id := rfl
      have hfirst : getTheFirstTuple (s₀.page id) = some (some (tupleAt s₀.page id k)) := by
        rw [(hread hown).getTheFirstTuple_eq, hk, hpid]
        simp only [List.head?_cons, Option.bind_some, getTuple_of_mem hocc]
      have htuples : bucketTuples s₀.page root L i 0 = tupleAt s₀.page id k ::
          ((pageTuples s₀.page id (k + 1) ++ chainTuples s₀.page post) ++ bucketTuples s₀.page root L i (j + 1)) := by
        rw [bucketTuples_of_cons hu, hc, chainTuples, List.flatMap_cons, pageTuples, hk, pageTuples, slotsFrom_succ hk]
        rfl
      rw [htuples]
      refine ⟨j, _, ?_, ⟨[], id, post, k, hc, rfl, rfl⟩, rfl⟩
      simp only [List.head?_cons, hhead, h3, h4, hl'.page, hs1.page, Option.bind_some, hfirst, hu']

include h hread hfull in
theorem findFirstTuple_eq {n m : ℕ} (hs : Serves s s₀.page L (· ≠ .root)) (hm : n + m = lkHaPgSlotNum.toNat) :
    ∃ r s', findFirstTuple root (List.range' n m) s = some (r, s') ∧ match tableTuples s₀.page root L n with
      | [] => r = .none
      | t :: rest => ∃ i j : ℕ, r = .found t i j ∧ InTable s₀.page root L i j t rest := by
  induction m generalizing n s with
  | zero =>
    have hnil : tableTuples s₀.page root L n = [] := by
      rw [tableTuples, usedFrom_of_le (by omega), List.flatMap_nil]
    rw [hnil]
    exact ⟨.none, s, rfl, rfl⟩
  | succ m ih =>
    obtain ⟨s1, hs1, hslot⟩ := searchSlot_eq h hread hfull hs n
    rw [List.range'_succ, findFirstTuple, tableTuples_eq]
    change ∃ r s', _ ∧ match (if secondPage s₀ root n = -1 then [] else bucketTuples s₀.page root L n 0) ++
      tableTuples s₀.page root L (n + 1) with | [] => _ | t :: rest => _
    cases ht : if secondPage s₀ root n = -1 then [] else bucketTuples s₀.page root L n 0 with
    | nil =>
      rw [ht] at hslot
      simp only [hslot, some_bind]
      exact ih hs1 (by omega)
    | cons t rest =>
      rw [ht] at hslot
      obtain ⟨j, rest', hr, hin, rfl⟩ := hslot
      simp only [hr, some_bind]
      exact ⟨_, _, rfl, n, j, rfl, rest', hin, rfl⟩

include h hread hfull in
theorem new_points : ∃ it s', new root s₀ = some (some it, s') ∧
    Points s₀.page root L it (tableTuples s₀.page root L 0) := by
  obtain ⟨s1, s2, h1, h2, hl, -⟩ := (h.quiet.usable h.root_mem).reader
  have hs2 : Serves s2 s₀.page L (· ≠ .root) := by
    refine ⟨hl.page, fun {b o} ho hor => hl.usable (h.quiet.usable (h.own_mem ho)) ?_⟩
    rintro rfl
    rw [h.own_root, Option.some.injEq] at ho
    exact hor ho.symm
  obtain ⟨r, s3, hr, hfound⟩ := findFirstTuple_eq h hread hfull hs2 (Nat.zero_add _)
  rw [← List.range_eq_range'] at hr
  unfold new
  simp only [h1, h2, some_bind, hr]
  cases ht : tableTuples s₀.page root L 0 with
  | nil =>
    rw [ht] at hfound
    obtain rfl : r = .none := hfound
    exact ⟨_, _, rfl, rfl, rfl⟩
  | cons t rest =>
    rw [ht] at hfound
    obtain ⟨i, j, rfl, hin⟩ := hfound
    exact ⟨_, _, rfl, rfl, rfl, i, j, rfl, rfl, hin⟩

end Steps

end LinkHashTableIter

/-! ## Every tuple once -/

theorem nodup_flatMap_of_key {α β κ : Type*} {l : List α} {f : α → List β} (key : β → κ) (c : α → κ)
    (hl : (l.map c).Nodup) (hf : ∀ a ∈ l, (f a).Nodup) (hk : ∀ a ∈ l, ∀ b ∈ f a, key b = c a) :
    (l.flatMap f).Nodup := by
  refine List.nodup_flatMap.mpr ⟨hf, ?_⟩
  refine (List.pairwise_map.mp hl).imp_of_mem fun {a a'} ha ha' hne b hb hb' => ?_
  exact hne ((hk a ha b hb).symm.trans (hk a' ha' b hb'))

/-- The slot of the first level page in which a bucket is. -/
def Owner.slot1 : Owner → Option ℤ
  | .bucket i _ => some i
  | _ => none

section Once

variable (h : Skeleton s root L)

theorem mem_pageTuples : t ∈ pageTuples pg id 0 ↔ ∃ k ∈ occ (pg id), t = tupleAt pg id k := by
  simp only [pageTuples, List.mem_map, mem_slotsFrom, Nat.zero_le, true_and, eq_comm]

theorem mem_chainTuples {l : List ℤ} :
    t ∈ chainTuples pg l ↔ ∃ id ∈ l, ∃ k ∈ occ (pg id), t = tupleAt pg id k := by
  simp only [chainTuples, List.mem_flatMap, mem_pageTuples]

theorem mem_bucketTuples : t ∈ bucketTuples pg root L i 0 ↔
    ∃ j : ℕ, getPgidInSlot (pg (getPgidInSlot (pg root) i)) j ≠ -1 ∧ t ∈ chainTuples pg (L.chain i j) := by
  simp only [bucketTuples, List.mem_flatMap, mem_usedFrom, Nat.zero_le, true_and]

theorem mem_tableTuples : t ∈ tableTuples pg root L 0 ↔
    ∃ i : ℕ, getPgidInSlot (pg root) i ≠ -1 ∧ t ∈ bucketTuples pg root L i 0 := by
  simp only [tableTuples, List.mem_flatMap, mem_usedFrom, Nat.zero_le, true_and]

include h

theorem mem_tableTuples_iff : t ∈ tableTuples s.page root L 0 ↔
    ∃ id k bytes, cell s L id k = some bytes ∧ t = Tuple.ofBytes ⟨id, k⟩ bytes := by
  constructor
  · intro ht
    obtain ⟨i, -, ht⟩ := mem_tableTuples.mp ht
    obtain ⟨j, -, ht⟩ := mem_bucketTuples.mp ht
    obtain ⟨id, hid, k, hk, rfl⟩ := mem_chainTuples.mp ht
    refine ⟨id, k, _, ?_, rfl⟩
    simp only [cell, h.own_chain.mp hid, slot_of_mem hk, Option.map_some, Option.getD_some]
  · rintro ⟨id, k, bytes, hcell, rfl⟩
    unfold cell at hcell
    split at hcell
    · next a b hown =>
      obtain ⟨sl, hsl, rfl⟩ := Option.map_eq_some_iff.mp hcell
      have hmem := h.own_chain.mpr hown
      obtain ⟨⟨ha, -⟩, hb, -⟩ := h.isSlot_of_mem hmem
      obtain ⟨i, rfl⟩ := Int.eq_ofNat_of_zero_le ha
      obtain ⟨j, rfl⟩ := Int.eq_ofNat_of_zero_le hb
      have hi := h.second_ne hmem
      refine mem_tableTuples.mpr ⟨i, hi, mem_bucketTuples.mpr ⟨j, ?_, mem_chainTuples.mpr
        ⟨id, hmem, k, slot_ne_none_iff.mp (by simp [hsl]), ?_⟩⟩⟩
      · have hhead := h.head (j : ℤ) hi
        rw [secondPage] at hhead
        rw [hhead, Ne, h.headOr_eq_iff]
        exact List.ne_nil_of_mem hmem
      · simp only [tupleAt, hsl, Option.map_some, Option.getD_some]
    · cases hcell

theorem nodup_tableTuples : ((tableTuples s.page root L 0).map Tuple.rid).Nodup := by
  have hpage : ∀ id, (pageTuples s.page id 0).Nodup := fun id =>
    (nodup_slotsFrom _ _).map fun a b hab => by
      have := congrArg (fun t => t.rid.slotNum) hab
      simpa [tupleAt] using this
  have hchain : ∀ i j : ℕ, (chainTuples s.page (L.chain i j)).Nodup := by
    intro i j
    refine nodup_flatMap_of_key (fun t => t.rid.pageId) (fun id => id)
      (by simpa using h.nodup i j) (fun id _ => hpage id) ?_
    intro id hid t ht
    obtain ⟨k, -, rfl⟩ := mem_pageTuples.mp ht
    rfl
  have hown : ∀ {i j : ℕ} {t}, t ∈ chainTuples s.page (L.chain i j) →
      L.own t.rid.pageId = some (.bucket i j) := by
    intro i j t ht
    obtain ⟨id, hid, k, -, rfl⟩ := mem_chainTuples.mp ht
    exact h.own_chain.mp hid
  have hbucket : ∀ i : ℕ, (bucketTuples s.page root L i 0).Nodup := by
    intro i
    refine nodup_flatMap_of_key (fun t => L.own t.rid.pageId)
      (fun j : ℕ => some (.bucket i j)) ?_ (fun j _ => hchain i j) fun j _ t ht => hown ht
    exact (nodup_usedFrom _ _).map fun a b hab => by simpa using hab
  have htable : (tableTuples s.page root L 0).Nodup := by
    refine nodup_flatMap_of_key (fun t => (L.own t.rid.pageId).bind Owner.slot1)
      (fun i : ℕ => some (i : ℤ)) ?_ (fun i _ => hbucket i) fun i _ t ht => ?_
    · exact (nodup_usedFrom _ _).map fun a b hab => by simpa using hab
    · obtain ⟨j, -, ht⟩ := mem_bucketTuples.mp ht
      rw [hown ht]
      rfl
  -- A tuple of the scan is what the store has at its position.
  refine htable.map_on fun t ht t' ht' he => ?_
  obtain ⟨id, k, bytes, hc, rfl⟩ := (mem_tableTuples_iff h).mp ht
  obtain ⟨id', k', bytes', hc', rfl⟩ := (mem_tableTuples_iff h).mp ht'
  obtain ⟨rfl, rfl⟩ := he
  rw [hc, Option.some.injEq] at hc'
  rw [hc']

end Once

/-! ## A whole scan -/

section Scan

variable (h : Skeleton s root L) (hread : L.AllPages s Readable) (hfull : HeadsFilled s L)

theorem Serves.pinAll (h : Skeleton s root L) (l : List ℤ) : Serves (s.pinAll l) s.page L fun _ => True := by
  refine ⟨rfl, fun {id o} ho _ => ?_⟩
  obtain ⟨hmem, hpos, hfree⟩ := h.quiet.usable (h.own_mem ho)
  exact ⟨hmem, hpos, by simpa [PageStore.pinAll, PageStore.guard] using hfree⟩

include h hread hfull

/-- A scan of a table in which the first page of every bucket has a tuple, and in which no page begins
with a marked tuple (`WF.readable`): after any number of increments the iterator is at the tuple with
that number, or at the end if there are fewer; the executor gives the same tuples. They are the stored
ones with their positions and their bytes, each of them once. -/
theorem full_scan : ∃ it s' tuples, LinkHashTableIter.new root s = some (some it, s') ∧
    (∀ n, ∃ it', LinkHashTableIter.advance n it s' = some (it', s') ∧ it'.current = tuples[n]?) ∧
    (∃ it', SeqScanExecutor.getAll it s' = some (tuples, it', s')) ∧
    (tuples.map Tuple.rid).Nodup ∧
    ∀ t, t ∈ tuples ↔ ∃ id k bytes, cell s L id k = some bytes ∧ t = Tuple.ofBytes ⟨id, k⟩ bytes := by
  obtain ⟨it, s', hnew, hp⟩ := LinkHashTableIter.new_points h hread hfull
  have hs : Serves s' s.page L fun _ => True := by
    rw [LinkHashTableIter.new_pins hnew]
    exact Serves.pinAll h _
  refine ⟨it, s', _, hnew, fun n => ?_, LinkHashTableIter.getAll_points h hread hs hp,
    nodup_tableTuples h, fun t => mem_tableTuples_iff h⟩
  obtain ⟨it', h', hp'⟩ := LinkHashTableIter.advance_points h hread n hs hp
  exact ⟨it', h', by rw [hp'.current h, List.head?_drop]⟩

end Scan

/-- A table with two tuples, in different buckets, is scanned. -/
theorem full_scan_pair : ∃ (s : PageStore) (L : Layout), (∃ id k, cell s L id k = some (pairTuple 1 2).bytes) ∧
    (∃ id k, cell s L id k = some (pairTuple 2 2).bytes) ∧
    ∃ it s' tuples, LinkHashTableIter.new 0 s = some (some it, s') ∧
      (∀ n, ∃ it', LinkHashTableIter.advance n it s' = some (it', s') ∧ it'.current = tuples[n]?) ∧
      (∃ it', SeqScanExecutor.getAll it s' = some (tuples, it', s')) ∧
      (tuples.map Tuple.rid).Nodup ∧
      ∀ t, t ∈ tuples ↔ ∃ id k bytes, cell s L id k = some bytes ∧ t = Tuple.ofBytes ⟨id, k⟩ bytes := by
  obtain ⟨id, k, s1, L1, id', k', s2, L2, -, hi1, -, -, hi2, hne, -⟩ := exists_two_pairTuples
  refine ⟨s2, L2, ⟨id, k, ?_⟩, ⟨id', k', ?_⟩, ?_⟩
  · rw [hi2.cell_eq, if_neg fun e => hne e.1, hi1.cell_eq, if_pos ⟨rfl, rfl⟩]
  · rw [hi2.cell_eq, if_pos ⟨rfl, rfl⟩]
  · exact full_scan hi2.inv.skeleton (fun ho => (hi2.inv.good ho).readable)
      (hi2.headsFilled hi1.inv.skeleton (hi1.headsFilled (tableInv_newTable 8).skeleton (headsFilled_empty 0)))

/-! ## The pins of a scan -/

/-- A scan keeps the pins of the pages that its constructor does not leave pinned, and of no others. It
leaves the first level page pinned and the second level pages in the slots up to the first one with a
bucket. It returns for every table in which the first page of every bucket has a tuple and in which no
page begins with a marked tuple; in the others the process ends. -/
theorem scan_pins_iff (root : ℤ) (s : PageStore) :
    (∀ {it it' : LinkHashTableIter} {s₁ s₂ : PageStore} (n : ℕ),
      LinkHashTableIter.new root s = some (some it, s₁) →
      LinkHashTableIter.advance n it s₁ = some (it', s₂) →
      ∀ id, s₂.pins id = s.pins id ↔ id ∉ LinkHashTableIter.scanPins s root) ∧
    (∀ {L : Layout}, Skeleton s root L → L.AllPages s Readable → HeadsFilled s L →
      ∃ it s₁, LinkHashTableIter.new root s = some (some it, s₁) ∧
        ∀ n, ∃ it', LinkHashTableIter.advance n it s₁ = some (it', s₁)) := by
  constructor
  · intro it it' s₁ s₂ n hnew hadv id
    rw [LinkHashTableIter.advance_neutral hadv, LinkHashTableIter.new_pins hnew]
    change s.pins id + _ = _ ↔ _
    rw [add_eq_left, Nat.cast_eq_zero, List.count_eq_zero]
  · intro L h hread hfull
    obtain ⟨it, s₁, hnew, hp⟩ := LinkHashTableIter.new_points h hread hfull
    have hs : Serves s₁ s.page L fun _ => True := by
      rw [LinkHashTableIter.new_pins hnew]
      exact Serves.pinAll h _
    refine ⟨it, s₁, hnew, fun n => ?_⟩
    obtain ⟨it', h', -⟩ := LinkHashTableIter.advance_points h hread n hs hp
    exact ⟨it', h'⟩

/-- A table with one tuple is scanned, and its first page stays pinned. -/
theorem scan_pins_iff_pair : ∃ (s : PageStore) (it : LinkHashTableIter) (s₁ : PageStore),
    LinkHashTableIter.new 0 s = some (some it, s₁) ∧
    ∀ n, ∃ it', LinkHashTableIter.advance n it s₁ = some (it', s₁) ∧ s₁.pins 0 ≠ s.pins 0 := by
  obtain ⟨id, k, i, j, s, L, -, hi⟩ := exists_insert_pairTuple fun _ => 0
  obtain ⟨it, s₁, hnew, hadv⟩ := (scan_pins_iff 0 s).2 hi.inv.skeleton
    (fun ho => (hi.inv.good ho).readable)
    (hi.headsFilled (tableInv_newTable 8).skeleton (headsFilled_empty 0))
  refine ⟨s, it, s₁, hnew, fun n => ?_⟩
  obtain ⟨it', h'⟩ := hadv n
  exact ⟨it', h', fun he => ((scan_pins_iff 0 s).1 n hnew h' 0).mp he List.mem_cons_self⟩

/-- The first page of a table without tuples is not pinned before a scan, and has a pin that is never
given back after it. -/
theorem empty_scan_pins : newTable.pins 0 = 0 ∧
    ∃ it s₁, LinkHashTableIter.new 0 newTable = some (some it, s₁) ∧
      ∀ n, ∃ it', LinkHashTableIter.advance n it s₁ = some (it', s₁) ∧ s₁.pins 0 = 1 := by
  have h := (tableInv_newTable 8).skeleton
  have hread : (Layout.empty 0).AllPages newTable Readable := fun ho =>
    ((tableInv_newTable 8).good ho).readable
  obtain ⟨it, s₁, hnew, hp⟩ := LinkHashTableIter.new_points h hread (headsFilled_empty 0)
  have hs1 := LinkHashTableIter.new_pins hnew
  have hs : Serves s₁ newTable.page (Layout.empty 0) fun _ => True := hs1 ▸ Serves.pinAll h _
  have hpins : s₁.pins 0 = 1 := by
    have hslots : ∀ i : ℕ, getPgidInSlot (newTable.page 0) i = -1 := fun i => by
      rw [newTable, page_put_self (LinkHashPage.sameFrame_init _), LinkHashPage.getPgidInSlot_init]
    rw [hs1, LinkHashTableIter.scanPins, LinkHashTableIter.seenPages_eq_nil hslots]
    rfl
  refine ⟨rfl, it, s₁, hnew, fun n => ?_⟩
  obtain ⟨it', h', -⟩ := LinkHashTableIter.advance_points h hread n hs hp
  exact ⟨it', h', hpins⟩

end Dawn
