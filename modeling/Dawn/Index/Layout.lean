import Dawn.Index.LinkHash
import Dawn.Lib.Linked
import Dawn.Storage.PageScan

/-!
# The pages of a link hash table

Which pages belong to a table and how they hang together. `Layout` says for every page whose it is (the
table's first page, the second level page in a slot of it, or a page of a bucket) and lists the pages of
every bucket in order; `Skeleton` says that the bytes in the store agree with it. One page has one
owner, so pages with different owners are different pages, and writing to one leaves the others alone.
-/

namespace Dawn

/-- What a page of the table is. -/
inductive Owner where
  /-- The first level page. -/
  | root
  /-- The second level page in a slot of the first level page. -/
  | second (i : ℤ)
  /-- A table page of the bucket at a slot of that second level page. -/
  | bucket (i j : ℤ)
  deriving DecidableEq, Repr

/-- The pages of a table. -/
structure Layout where
  /-- What each page is, if it belongs to the table. -/
  own : ℤ → Option Owner
  /-- The pages of each bucket, in the order of their links. -/
  chain : ℤ → ℤ → List ℤ

/-- The id of the second level page in a slot of the first level page. -/
def secondPage (s : PageStore) (root i : ℤ) : ℤ := LinkHashPage.getPgidInSlot (s.page root) i

/-- The link of a table page. -/
def nextPage (s : PageStore) (id : ℤ) : ℤ := TablePage.getNextPageId (s.page id)

/-- The table with first page `root` has the given layout. -/
structure Skeleton (s : PageStore) (root : ℤ) (L : Layout) : Prop where
  /-- No latch is held. -/
  quiet : s.Quiet
  /-- The pages of the table exist. -/
  own_mem : ∀ {id : ℤ} {o : Owner}, L.own id = some o → id ∈ s.ids
  /-- The first page. -/
  own_root : L.own root = some .root
  /-- The second level pages. -/
  own_second : ∀ {i : ℤ}, secondPage s root i ≠ -1 → L.own (secondPage s root i) = some (.second i)
  /-- The pages of the buckets. -/
  own_chain : ∀ {i j id : ℤ}, id ∈ L.chain i j ↔ L.own id = some (.bucket i j)
  /-- No page is twice in a bucket. -/
  nodup : ∀ i j : ℤ, (L.chain i j).Nodup
  /-- A bucket without a second level page has no pages. -/
  chain_nil : ∀ {i : ℤ} (j : ℤ), secondPage s root i = -1 → L.chain i j = []
  /-- A slot of a second level page holds the first page of its bucket. -/
  head : ∀ {i : ℤ} (j : ℤ), secondPage s root i ≠ -1 →
    LinkHashPage.getPgidInSlot (s.page (secondPage s root i)) j = headOr (-1) (L.chain i j)
  /-- The pages of a bucket are linked in order. -/
  linked : ∀ i j : ℤ, Linked (nextPage s) (-1) (L.chain i j)

/-- Every page of every bucket has the property. -/
def Layout.AllPages (L : Layout) (s : PageStore) (P : Page → Prop) : Prop :=
  ∀ {id i j : ℤ}, L.own id = some (.bucket i j) → P (s.page id)

theorem hashToSlot_isSlot (hashVal : UInt64) :
    LinkHashPage.IsSlot (hashToSlot hashVal).1 ∧ LinkHashPage.IsSlot (hashToSlot hashVal).2 := by
  simp only [hashToSlot, LinkHashPage.IsSlot, lkHaTotalSlotNum, lkHaPgSlotNum, pageSize, comPgHeaderSz, pgidTSize]
  omega

namespace Skeleton

variable {s : PageStore} {root : ℤ} {L : Layout} {i j id : ℤ}

section

variable (h : Skeleton s root L)
include h

theorem root_mem : root ∈ s.ids := h.own_mem h.own_root

theorem second_mem (hi : secondPage s root i ≠ -1) :
    secondPage s root i ∈ s.ids := h.own_mem (h.own_second hi)

theorem chain_mem (hid : id ∈ L.chain i j) : id ∈ s.ids :=
  h.own_mem (h.own_chain.mp hid)

theorem second_notMem_chain {k : ℤ} (hk : secondPage s root k ≠ -1) :
    secondPage s root k ∉ L.chain i j := by
  rw [h.own_chain, h.own_second hk]
  simp

theorem second_ne (hid : id ∈ L.chain i j) : secondPage s root i ≠ -1 := by
  intro hi
  rw [h.chain_nil j hi] at hid
  exact absurd hid List.not_mem_nil

theorem headOr_eq_iff : headOr (-1) (L.chain i j) = -1 ↔ L.chain i j = [] := by
  constructor
  · intro he
    by_contra hne
    exact h.quiet.ne_invalid (h.chain_mem (headOr_mem hne)) he
  · intro he
    rw [he, headOr_nil]

theorem isSlot_of_mem (hid : id ∈ L.chain i j) :
    LinkHashPage.IsSlot i ∧ LinkHashPage.IsSlot j := by
  have hs := h.second_ne hid
  refine ⟨LinkHashPage.isSlot_of_ne hs, LinkHashPage.isSlot_of_ne (p := s.page (secondPage s root i)) ?_⟩
  rw [h.head j hs, Ne, h.headOr_eq_iff]
  exact List.ne_nil_of_mem hid

theorem congr {s' : PageStore} (hq : s'.Quiet)
    (hids : ∀ {id o}, L.own id = some o → id ∈ s'.ids)
    (hdata : ∀ {id o}, L.own id = some o → (∀ i j, o ≠ .bucket i j) → s'.page id = s.page id)
    (hnext : ∀ {id i j}, L.own id = some (.bucket i j) → nextPage s' id = nextPage s id) : Skeleton s' root L := by
  have hroot : s'.page root = s.page root := hdata h.own_root (by simp)
  have hsec : ∀ i, secondPage s' root i = secondPage s root i := fun i => by
    rw [secondPage, secondPage, hroot]
  refine ⟨hq, hids, h.own_root, ?_, h.own_chain, h.nodup, ?_, ?_, ?_⟩
  · intro i hi
    rw [hsec] at hi ⊢
    exact h.own_second hi
  · intro i j hi
    rw [hsec] at hi
    exact h.chain_nil j hi
  · intro i j hi
    rw [hsec] at hi ⊢
    rw [hdata (h.own_second hi) (by simp)]
    exact h.head j hi
  · intro i j
    exact (h.linked i j).congr fun id hid => hnext (h.own_chain.mp hid)

end

end Skeleton

end Dawn
