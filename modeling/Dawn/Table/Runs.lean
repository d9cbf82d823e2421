import Dawn.Index.Heads
import Dawn.Lib.Trace
import Dawn.Table.Table

/-!
# Runs of a table

The calls of a table by its users, one after the other. `TableCall.Outcome` says all that a call can do to
a table that is as it should be, and `TableCall.run_cases` that nothing else happens: what is true of the
table after every outcome is true in every run (`Trace.invariant`).

A table determines the pages of its buckets (`Skeleton.chain_unique`), and so what it stores.
-/

namespace Dawn

open TablePage PageStore

/-! ## The layout of a table -/

theorem Linked.unique {α : Type*} {next : α → α} {stop : α} {l l' : List α} (h : Linked next stop l)
    (h' : Linked next stop l') (hhead : headOr stop l = headOr stop l') (hl : stop ∉ l) (hl' : stop ∉ l') : l = l' := by
  induction l generalizing l' with
  | nil =>
    cases l' with
    | nil => rfl
    | cons a l' =>
      obtain rfl : stop = a := hhead
      exact absurd List.mem_cons_self hl'
  | cons a l ih =>
    cases l' with
    | nil =>
      obtain rfl : a = stop := hhead
      exact absurd List.mem_cons_self hl
    | cons b l' =>
      obtain rfl : a = b := hhead
      rw [ih h.2 h'.2 (h.1.symm.trans h'.1) (fun hm => hl (List.mem_cons_of_mem a hm)) fun hm =>
        hl' (List.mem_cons_of_mem a hm)]

namespace Skeleton

variable {s : PageStore} {root : ℤ} {L L' : Layout} (h : Skeleton s root L) (h' : Skeleton s root L')
include h h'

theorem chain_unique : L.chain = L'.chain := by
  funext i j
  by_cases hi : secondPage s root i = -1
  · rw [h.chain_nil j hi, h'.chain_nil j hi]
  · refine (h.linked i j).unique (h'.linked i j) ?_ ?_ ?_
    · rw [← h.head j hi, h'.head j hi]
    · exact fun hm => h.quiet.ne_invalid (h.chain_mem hm) rfl
    · exact fun hm => h'.quiet.ne_invalid (h'.chain_mem hm) rfl

theorem cell_unique : cell s L = cell s L' := by
  have hown : ∀ {id i j}, L.own id = some (.bucket i j) ↔ L'.own id = some (.bucket i j) := by
    intro id i j
    rw [← h.own_chain, ← h'.own_chain, h.chain_unique h']
  funext id k
  by_cases hb : ∃ i j, L.own id = some (.bucket i j)
  · obtain ⟨i, j, ho⟩ := hb
    rw [cell_eq_of_own ho, cell_eq_of_own (hown.mp ho)]
  · have hnone : ∀ {M : Layout}, (¬ ∃ i j, M.own id = some (.bucket i j)) → cell s M id k = none := by
      intro M hM
      unfold cell
      split
      · next i j ho => exact absurd ⟨i, j, ho⟩ hM
      · rfl
    rw [hnone hb, hnone fun ⟨i, j, ho⟩ => hb ⟨i, j, hown.mpr ho⟩]

end Skeleton

/-! ## Calls -/

/-- The calls of a table. -/
inductive TableCall
  /-- `insert_tuple` -/
  | insertTuple (tuple : Tuple)
  /-- `get_tuple` by key -/
  | getTuple (keyValue : Value)
  /-- `update_tuple` -/
  | updateTuple (newTuple : Tuple) (oldRid : RID)
  /-- `apply_delete` by key -/
  | applyDelete (keyValue : Value)

/-- What a call returns. -/
inductive TableReply
  /-- `insert_tuple` and `update_tuple` -/
  | result (ok : Bool)
  /-- `get_tuple`, with the tuple that it sets -/
  | got (ok : Bool) (tuple : Option Tuple)
  /-- `apply_delete` -/
  | nothing

namespace TableCall

section Call

variable (al : Allocator) (sz : ℤ) (doHash : List UInt8 → UInt64) (schema : Schema) (root : ℤ)
  (s : PageStore) (L : Layout)

/-- What the call returns, and the store that it leaves. -/
def run : TableCall → Option (TableReply × PageStore)
  | insertTuple tuple =>
    (Table.insertTuple al doHash schema root tuple s).map fun r => (.result r.1, r.2.2)
  | getTuple keyValue =>
    (Table.getTuple doHash schema root keyValue s).map fun r => (.got r.1 r.2.1, r.2.2)
  | updateTuple newTuple oldRid =>
    (Table.updateTuple al doHash schema root newTuple oldRid s).map fun r => (.result r.1, r.2.2)
  | applyDelete keyValue =>
    (Table.applyDelete doHash schema root keyValue s).map fun s' => (.nothing, s')

/-- The tuple that the call is to store. -/
def stores : TableCall → Option Tuple
  | insertTuple tuple => some tuple
  | updateTuple newTuple _ => some newTuple
  | _ => none

/-- The tuple that is to be stored has the size of the table's tuples, and the one that is to be updated
is stored in the table. -/
def Fits : TableCall → Prop
  | insertTuple tuple => tuple.size = sz
  | updateTuple newTuple oldRid => newTuple.size = sz ∧
    ∃ (id : ℤ) (k : ℕ) (bytes : List UInt8), oldRid = ⟨id, k⟩ ∧ cell s L id k = some bytes
  | _ => True

/-- If the tuple comes into a bucket whose pages are all full, then into a frame that is blank. -/
def FrameBlank (c : TableCall) : Prop :=
  ∀ t v, c.stores = some t → keyOf schema t.bytes = some v →
    findInChain schema v s (L.bucketOf doHash v) = none → BlankIfFull al sz s (L.bucketOf doHash v)

/-- Why a call does not return: there are no pages to be had, or the last tuple of a page is deleted while
somebody has a page of its bucket pinned. -/
def Blocked : TableCall → Prop
  | getTuple _ => False
  | applyDelete keyValue => ∃ (id : ℤ) (k : ℕ),
    findInChain schema keyValue s (L.bucketOf doHash keyValue) = some ⟨id, k⟩ ∧
    (occ (s.page id)).erase k = ∅ ∧ ∃ b ∈ L.bucketOf doHash keyValue, s.pins b ≠ 0
  | _ => ¬ (al.Correct ∧ s.ids.card + 2 ≤ 2^31)

/-- What a call can do. -/
inductive Outcome : TableCall → TableReply → PageStore → Layout → Prop
  /-- The key of the tuple is in the table. -/
  | taken {t : Tuple} {v : Value} {rid : RID} (hv : keyOf schema t.bytes = some v)
    (hfind : findInChain schema v s (L.bucketOf doHash v) = some rid) :
    Outcome (insertTuple t) (.result false) s L
  /-- The tuple is stored. -/
  | inserted {t : Tuple} {v : Value} {i j id : ℤ} {k : ℕ} {s' : PageStore} {L' : Layout}
    (hv : keyOf schema t.bytes = some v) (hij : hashToSlot (v.getHashValue doHash) = (i, j))
    (hfind : findInChain schema v s (L.chain i j) = none)
    (h : Inserted sz root s L i j id k t.bytes s' L') (hby : Bystanders s L s' L') :
    Outcome (insertTuple t) (.result true) s' L'
  /-- The key is found. -/
  | found {v : Value} {id : ℤ} {k : ℕ} {bytes : List UInt8}
    (hfind : findInChain schema v s (L.bucketOf doHash v) = some ⟨id, k⟩)
    (hcell : cell s L id k = some bytes) :
    Outcome (getTuple v) (.got true (some (Tuple.ofBytes ⟨id, k⟩ bytes))) s L
  /-- The key is not found. -/
  | missing {v : Value} (hfind : findInChain schema v s (L.bucketOf doHash v) = none) :
    Outcome (getTuple v) (.got false none) s L
  /-- The tuple keeps its key, and is written in place. -/
  | replaced {t : Tuple} {v old : Value} {id : ℤ} {k : ℕ} {bytes : List UInt8} {s' : PageStore}
    (hcell : cell s L id k = some bytes) (hv : keyOf schema t.bytes = some v)
    (hold : keyOf schema bytes = some old) (heq : v.opEq old = true) (hinv : TableInv sz s' root L)
    (hids : s'.ids = s.ids) (hpins : s'.pins = s.pins)
    (hcells : ∀ b n, cell s' L b n = if b = id ∧ n = k then some t.bytes else cell s L b n)
    (hby : Bystanders s L s' L) :
    Outcome (updateTuple t ⟨id, k⟩) (.result true) s' L
  /-- The new key is taken. The page of the tuple stays pinned. -/
  | collided {t : Tuple} {v old : Value} {id : ℤ} {k : ℕ} {bytes : List UInt8} {rid : RID}
    (hcell : cell s L id k = some bytes) (hv : keyOf schema t.bytes = some v)
    (hold : keyOf schema bytes = some old) (hne : v.opEq old = false)
    (hfind : findInChain schema v s (L.bucketOf doHash v) = some rid) :
    Outcome (updateTuple t ⟨id, k⟩) (.result false) (s.guard (Pi.single id 1) ∅) L
  /-- The tuple gets another key, and is moved. -/
  | moved {t : Tuple} {v old : Value} {i j id id' : ℤ} {k k' : ℕ} {bytes : List UInt8} {s' : PageStore}
    {L' : Layout} (hcell : cell s L id k = some bytes) (hv : keyOf schema t.bytes = some v)
    (hold : keyOf schema bytes = some old) (hne : v.opEq old = false)
    (hij : hashToSlot (v.getHashValue doHash) = (i, j))
    (hfind : findInChain schema v s (L.chain i j) = none)
    (h : Moved sz root s L i j id k id' k' t.bytes s' L') (hby : Bystanders s L s' L') :
    Outcome (updateTuple t ⟨id, k⟩) (.result true) s' L'
  /-- There is nothing to delete. -/
  | absent {v : Value} (hfind : findInChain schema v s (L.bucketOf doHash v) = none) :
    Outcome (applyDelete v) .nothing s L
  /-- The tuple is deleted. -/
  | deleted {v : Value} {i j id : ℤ} {k : ℕ} {s' : PageStore} {L' : Layout}
    (hij : hashToSlot (v.getHashValue doHash) = (i, j))
    (hfind : findInChain schema v s (L.chain i j) = some ⟨id, k⟩)
    (h : Deleted sz root s L i j id k s' L') (hby : Bystanders s L s' L') :
    Outcome (applyDelete v) .nothing s' L'

end Call

variable {al : Allocator} {sz : ℤ} {doHash : List UInt8 → UInt64} {schema : Schema} {root : ℤ}
  {s s' : PageStore} {L L' : Layout} {c : TableCall} {reply : TableReply}

theorem getTuple_eq_of_find (hkey : schema.HasKey) (h : TableInv sz s root L) (v : Value) :
    findInChain schema v s (L.bucketOf doHash v) = none ∧
      Table.getTuple doHash schema root v s = some (false, none, s) ∨
    ∃ id k bytes, findInChain schema v s (L.bucketOf doHash v) = some ⟨id, (k : ℕ)⟩ ∧ cell s L id k = some bytes ∧
      Table.getTuple doHash schema root v s = some (true, some (Tuple.ofBytes ⟨id, k⟩ bytes), s) := by
  have hget := lkHaGetTuple_eq doHash hkey h.skeleton v (h.searchable _ _)
  cases hfind : findInChain schema v s (L.bucketOf doHash v) with
  | none =>
    rw [hfind] at hget
    exact Or.inl ⟨rfl, by rw [Table.getTuple, hget]; rfl⟩
  | some rid =>
    obtain ⟨id, -, k, rfl, -⟩ := findInChain_some hfind
    obtain ⟨hid, sl, w, hsl, -⟩ := exists_slot_of_findInChain hfind
    rw [hfind] at hget
    simp only [getTuple_eq, hsl, Option.map_some] at hget
    refine Or.inr ⟨id, k, sl.bytes, rfl, ?_, ?_⟩
    · rw [cell_eq_of_own (h.skeleton.own_chain.mp hid), hsl]
      rfl
    · rw [Table.getTuple, hget]
      rfl

theorem run_cases (hkey : schema.HasKey) (hsz : 8 ≤ sz) (hcap : 0 < getTpNumCapacity sz)
    (h : TableInv sz s root L) (hfits : c.Fits sz s L) (hblank : c.FrameBlank al sz doHash schema s L) :
    c.run al doHash schema root s = none ∧ c.Blocked al doHash schema s L ∨
    ∃ reply s' L', c.run al doHash schema root s = some (reply, s') ∧
      Outcome sz doHash schema root s L c reply s' L' := by
  cases c with
  | insertTuple t =>
    obtain ⟨v, hv⟩ := hkey.exists_keyOf t.bytes
    cases hfind : findInChain schema v s (L.bucketOf doHash v) with
    | some rid =>
      refine Or.inr ⟨_, s, L, ?_, .taken hv hfind⟩
      rw [run, Table.insertTuple, lkHaInsertTuple_dup doHash hkey h hv hfind]
      rfl
    | none =>
      rcases lkHaInsertTuple_cases doHash hkey hsz hcap h hfits hv hfind (Prod.mk.eta (p := _)).symm
        (hblank t v rfl hv hfind) with ⟨he, hno⟩ | ⟨id, k, s', L', he, hi, -, hby⟩
      · exact Or.inl ⟨by rw [run, Table.insertTuple, he]; rfl, hno⟩
      · refine Or.inr ⟨_, s', L', ?_, .inserted hv (Prod.mk.eta (p := _)).symm hfind hi hby⟩
        rw [run, Table.insertTuple, he]
        rfl
  | getTuple v =>
    rcases getTuple_eq_of_find hkey h v with ⟨hfind, he⟩ | ⟨id, k, bytes, hfind, hcell, he⟩
    · exact Or.inr ⟨_, s, L, by rw [run, he]; rfl, .missing hfind⟩
    · exact Or.inr ⟨_, s, L, by rw [run, he]; rfl, .found hfind hcell⟩
  | updateTuple t rid =>
    obtain ⟨ht, id, k, bytes, rfl, hcell⟩ := hfits
    obtain ⟨v, hv⟩ := hkey.exists_keyOf t.bytes
    obtain ⟨old, hold⟩ := hkey.exists_keyOf bytes
    cases heq : v.opEq old with
    | true =>
      obtain ⟨s', he, hinv, hids, hpins, hcells, hby⟩ :
          ∃ s', lkHaUpdateTuple al doHash schema root t ⟨id, k⟩ s = _ ∧ _ :=
        lkHaUpdateTuple_same h hcell hv hold hsz ht heq
      refine Or.inr ⟨_, s', L, ?_, .replaced hcell hv hold heq hinv hids hpins hcells hby⟩
      rw [run, Table.updateTuple, he]
      rfl
    | false =>
      cases hfind : findInChain schema v s (L.bucketOf doHash v) with
      | some rid =>
        refine Or.inr ⟨_, _, L, ?_, .collided hcell hv hold heq hfind⟩
        rw [run, Table.updateTuple, lkHaUpdateTuple_dup h hcell hv hold hkey heq hfind]
        rfl
      | none =>
        rcases lkHaUpdateTuple_move h hcell hv hold hkey hsz hcap ht heq hfind (Prod.mk.eta (p := _)).symm
          (hblank t v rfl hv hfind) with ⟨he, hno⟩ | ⟨id', k', s', L', he, hm, -, hby⟩
        · exact Or.inl ⟨by rw [run, Table.updateTuple, he]; rfl, hno⟩
        · refine Or.inr ⟨_, s', L', ?_, .moved hcell hv hold heq (Prod.mk.eta (p := _)).symm hfind hm hby⟩
          rw [run, Table.updateTuple, he]
          rfl
  | applyDelete v =>
    rcases getTuple_eq_of_find hkey h v with ⟨hfind, he⟩ | ⟨id, k, bytes, hfind, hcell, he⟩
    · exact Or.inr ⟨_, s, L, by rw [run, Table.applyDelete, he]; rfl, .absent hfind⟩
    · have hrun : (applyDelete v).run al doHash schema root s =
          (lkHaApplyDelete doHash schema root v s).map fun s' => (.nothing, s') := by
        rw [run, Table.applyDelete, he]
        rfl
      rcases lkHaApplyDelete_cases hsz hkey h (Prod.mk.eta (p := _)).symm hfind with
        ⟨hd, hlast, hpin⟩ | ⟨s', L', hd, hdel, hby⟩
      · exact Or.inl ⟨by rw [hrun, hd]; rfl, id, k, hfind, hlast, hpin⟩
      · refine Or.inr ⟨_, s', L', ?_, .deleted (Prod.mk.eta (p := _)).symm hfind hdel hby⟩
        rw [hrun, hd]
        rfl

theorem Outcome.inv (h : TableInv sz s root L) (ho : Outcome sz doHash schema root s L c reply s' L') :
    TableInv sz s' root L' := by
  cases ho with
  | taken | found | missing | absent => exact h
  | inserted _ _ _ hi => exact hi.inv
  | replaced _ _ _ _ hinv => exact hinv
  | collided => exact h.guard _
  | moved _ _ _ _ _ _ hm => exact hm.inv
  | deleted _ _ hd => exact hd.inv

end TableCall

/-! ## Runs -/

section Runs

variable (al : Allocator) (sz : ℤ) (doHash : List UInt8 → UInt64) (schema : Schema) (root : ℤ)

/-- A call that fits the table returns. -/
def TableStep (s : PageStore) (l : TableCall × TableReply) (s' : PageStore) : Prop :=
  l.1.run al doHash schema root s = some (l.2, s') ∧
    ∃ L, Skeleton s root L ∧ l.1.Fits sz s L ∧ l.1.FrameBlank al sz doHash schema s L

variable {al sz doHash schema root} {s s' : PageStore} {L : Layout} {l : TableCall × TableReply}

theorem TableStep.outcome (hkey : schema.HasKey) (hsz : 8 ≤ sz) (hcap : 0 < getTpNumCapacity sz)
    (hstep : TableStep al sz doHash schema root s l s') (h : TableInv sz s root L) :
    ∃ L', TableCall.Outcome sz doHash schema root s L l.1 l.2 s' L' := by
  obtain ⟨hrun, L1, hS, hfits, hblank⟩ := hstep
  have hcell := hS.cell_unique h.skeleton
  have hchain := hS.chain_unique h.skeleton
  have hfits' : l.1.Fits sz s L := by
    revert hfits
    cases l.1 <;> simp only [TableCall.Fits, hcell] <;> exact fun hf => hf
  have hblank' : l.1.FrameBlank al sz doHash schema s L := by
    simpa only [TableCall.FrameBlank, Layout.bucketOf, hchain] using hblank
  rcases TableCall.run_cases hkey hsz hcap h hfits' hblank' with ⟨he, -⟩ | ⟨reply, s1, L', he, ho⟩
  · rw [he] at hrun
    cases hrun
  · obtain ⟨rfl, rfl⟩ := some_mk_inj (he.symm.trans hrun)
    exact ⟨L', ho⟩

end Runs

end Dawn
