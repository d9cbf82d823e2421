import Dawn.Buffer.PoolLatches
import Dawn.Index.Balance
import Dawn.Table.Table

/-!
# Pins and latches that are not given back

Every call of the index leaves the pins as they were, but for one: an update that changes the key of a
tuple to a key that is taken returns `DUP_KEY` with the page of the tuple pinned (`pins_kept_iff`).

The latches are given back by every call that returns, but for a `get_page` that cannot read its page
(`latches_released`). The exit of the index for a page that cannot be had is not one where a latch is
forgotten: it is never reached, since `unpin_page` waits there for a page latch that its caller holds.
-/

namespace Dawn

open PageStore

variable {al : Allocator} {doHash : List UInt8 → UInt64} {schema : Schema} {root : ℤ} {c : IndexCall}
  {s s' : PageStore} {code : Option ℤ}

/-- A call leaves the pin count of every page that still exists as it was, exactly when it is not an update
of a tuple to another key that is taken. -/
theorem pins_kept_iff (h : c.run al doHash schema root s = some (code, s')) :
    (∀ id ∈ s.ids, id ∈ s'.ids → s'.pins id = s.pins id) ↔ ¬ c.Collides doHash schema root s := by
  obtain ⟨-, -, ⟨hcol, id, hid, hb⟩ | ⟨hno, hb⟩⟩ := IndexCall.run_balanced h
  · -- One page is pinned once more.
    have hid' := hb.mem id List.mem_cons_self
    have hpin := hb.pins id hid'
    rw [pinsOf, if_pos hid, List.count_singleton_self] at hpin
    refine iff_of_false (fun hall => ?_) (not_not.mpr hcol)
    have := hall id hid hid'
    omega
  · refine iff_of_true (fun id hid hid' => ?_) hno
    have hpin := hb.pins id hid'
    rwa [pinsOf, if_pos hid, List.count_nil, Nat.cast_zero, add_zero] at hpin

theorem pins_kept_iff_insert : ∃ s',
    (IndexCall.insert (pairTuple 1 2)).run zeroFrames firstByte pairSchema 0 newTable =
      some (some opSuccess, s') ∧
    ((∀ id ∈ newTable.ids, id ∈ s'.ids → s'.pins id = newTable.pins id) ↔
      ¬ (IndexCall.insert (pairTuple 1 2)).Collides firstByte pairSchema 0 newTable) := by
  obtain ⟨id, k, i, j, s', L', he, -⟩ := exists_insert_pairTuple firstByte
  have hrun : (IndexCall.insert (pairTuple 1 2)).run zeroFrames firstByte pairSchema 0 newTable =
      some (some opSuccess, s') := by rw [IndexCall.run, he, Option.map_some]
  exact ⟨s', hrun, pins_kept_iff hrun⟩

/-- In a table with the keys 1 and 2 the tuple with the key 1 is updated to the key 2. The call returns
`DUP_KEY`, and the page of the tuple stays pinned. -/
theorem duplicate_update_keeps_pin : ∃ rid s₁ t₂ s₂ s₃,
    lkHaInsertTuple zeroFrames firstByte pairSchema 0 (pairTuple 1 2) newTable =
      some (opSuccess, (pairTuple 1 2).setRid rid, s₁) ∧
    lkHaInsertTuple zeroFrames firstByte pairSchema 0 (pairTuple 2 2) s₁ = some (opSuccess, t₂, s₂) ∧
    lkHaUpdateTuple zeroFrames firstByte pairSchema 0 (pairTuple 2 1) rid s₂ =
      some (dupKey, pairTuple 2 1, s₃) ∧
    rid.pageId ∈ s₂.ids ∧ rid.pageId ∈ s₃.ids ∧ s₂.pins rid.pageId = 0 ∧ s₃.pins rid.pageId = 1 := by
  obtain ⟨id, k, s₁, t₂, s₂, L2, he1, he2, hupdate, hinv, hchain, -, hpin⟩ := exists_duplicate_update
  have hid : id ∈ s₂.ids := hinv.skeleton.chain_mem (by rw [hchain]; simp)
  refine ⟨⟨id, k⟩, s₁, t₂, s₂, _, he1, he2, hupdate, hid, hid, hpin, ?_⟩
  simp [PageStore.guard, hpin]

/-! ## Latches -/

section Latches

variable {n : ℕ} [NeZero n]

/-- A call of the pool gives back the latches that it takes exactly when it is not a `get_page` that cannot
read the page. A call of the index that returns has given back all page latches, a new page has a free one,
and it got every page that it asked for: it does not return `NEW_PG_FAIL`. -/
theorem latches_released :
    (∀ (b b' : BufferPoolManager n) (op : BufferPoolManager.PoolOp n), op.run b = some b' →
      (BufferPoolManager.LatchesKept b b' ↔ ¬ op.ReadFails b)) ∧
    ∀ (al : Allocator) (doHash : List UInt8 → UInt64) (schema : Schema) (root : ℤ) (c : IndexCall)
      (s s' : PageStore) (code : Option ℤ), c.run al doHash schema root s = some (code, s') →
      (∀ id ∈ s'.ids, s'.latch id = if id ∈ s.ids then s.latch id else Latch.free) ∧
      code ≠ some newPgFail ∧ (c.Stores → s'.ids.card + s.allocs = s.ids.card + s'.allocs) := by
  refine ⟨fun b b' op h => BufferPoolManager.PoolOp.run_latches h, fun al doHash schema root c s s' code h => ?_⟩
  obtain ⟨hcode, hserved, hb⟩ := IndexCall.run_balanced h
  refine ⟨fun id hid => ?_, hcode, fun hc => (hserved hc).count⟩
  rcases hb with ⟨-, id', -, hb⟩ | ⟨-, hb⟩ <;>
    simpa [latchOf] using hb.latch id hid

/-- A page that was written is given back, and a tuple is inserted. -/
theorem latches_released_small : ∃ (b b' : BufferPoolManager 1) (a : ℤ) (s' : PageStore),
    b.mapping a = some 0 ∧ (BufferPoolManager.PoolOp.unpinPage a true).run b = some b' ∧
    (BufferPoolManager.LatchesKept b b' ↔ ¬ (BufferPoolManager.PoolOp.unpinPage a true).ReadFails b) ∧
    (IndexCall.insert (pairTuple 1 2)).run zeroFrames firstByte pairSchema 0 newTable =
      some (some opSuccess, s') ∧
    s'.ids.card + newTable.allocs = newTable.ids.card + s'.allocs := by
  obtain ⟨d, m, a, b₁, b₃, -, -, hd, h₁, hok₁, rfl, h₃, -⟩ := BufferPoolManager.exists_eviction id
  have hinv := (BufferPoolManager.poolInv_new hd _ _).step (.newPage h₁ hok₁) trivial
  obtain ⟨id, k, i, j, s', L', he, -⟩ := exists_insert_pairTuple firstByte
  have hrun : (IndexCall.insert (pairTuple 1 2)).run zeroFrames firstByte pairSchema 0 newTable =
      some (some opSuccess, s') := by rw [IndexCall.run, he, Option.map_some]
  have hall := latches_released (n := 1)
  refine ⟨_, b₃, _, s', ?_, h₃, hall.1 _ _ _ h₃, hrun, (hall.2 _ _ _ _ _ _ _ _ hrun).2.2 trivial⟩
  exact hinv.held_mapped (Multiset.mem_cons_self _ 0)

/-- A page that is not in the file is asked for. The call returns `nullptr` with the latch of the pool held,
and no page can be had from then on. -/
theorem unreadable_page_locks_pool : ∃ d lsn heap b',
    DiskManager.create (fun _ => none) [100] DiskManager.Uninit.zero [] = some d ∧
    (BufferPoolManager.new (n := 1) d lsn heap).latch = Latch.free ∧
    (BufferPoolManager.new (n := 1) d lsn heap).getPage 5 = some (none, b') ∧
    b'.latch = ⟨true, 0⟩ ∧ ∀ id, 0 ≤ id → b'.getPage id = none := by
  obtain ⟨d, m, hc, hm, hd⟩ := DiskManager.exists_healthy
  have hread : (d.readPage 5 (Page.new 0 fun _ => 0).data).1 = false := by
    rcases hd.readPage_cases (by decide : (0 : ℤ) ≤ 5) (Page.new 0 fun _ => 0).data with ⟨hlt, -⟩ | ⟨-, h, -⟩
    · omega
    · exact h
  let b : BufferPoolManager 1 := BufferPoolManager.new d (fun _ => 0) fun _ _ => 0
  have hfree : b.locked.freeList ≠ [] := List.cons_ne_nil 0 []
  have hfails : b.ReadFails 5 :=
    ⟨by decide, rfl, b.locked, 0, [], BufferPoolManager.waitForFrame_of_ne hfree _, rfl, hread⟩
  obtain ⟨b', hget, hlatch⟩ := BufferPoolManager.getPage_of_readFails rfl hfails
  refine ⟨d, _, _, b', hc, rfl, hget, hlatch, fun id hid => ?_⟩
  rw [BufferPoolManager.getPage, if_neg (by simp only [invalidPageId]; omega), BufferPoolManager.wLock, hlatch]
  rfl

end Latches

end Dawn
