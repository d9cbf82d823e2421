import Dawn.Index.LinkHash

/-!
# Pins and latches

What the functions of the index do to pins and latches, whatever the pages hold. In the middle of a call
some pages are pinned once more than before it, and of some the write latch is held (`Balanced`). Each
call of the page store adds one such page or takes one away, and none is left when a function of the index
returns.
-/

namespace Dawn

open PageStore

/-- The pin count of a page before a call, zero for a page that did not exist. -/
def PageStore.pinsOf (s : PageStore) (id : ℤ) : ℤ := if id ∈ s.ids then s.pins id else 0

/-- The latch of a page before a call, free for a page that did not exist. -/
def PageStore.latchOf (s : PageStore) (id : ℤ) : Latch := if id ∈ s.ids then s.latch id else Latch.free

/-- The pages are the same, and none was asked for. -/
structure PageStore.SamePages (s s' : PageStore) : Prop where
  ids : s'.ids = s.ids
  allocs : s'.allocs = s.allocs

theorem PageStore.SamePages.put (s : PageStore) (id : ℤ) (p : Page) : SamePages s (s.put id p) := ⟨rfl, rfl⟩

/-- The pages are still there, and every page that was asked for is one more. -/
structure PageStore.Served (s s' : PageStore) : Prop where
  sub : s.ids ⊆ s'.ids
  count : s'.ids.card + s.allocs = s.ids.card + s'.allocs

theorem PageStore.Served.refl (s : PageStore) : Served s s := ⟨subset_rfl, rfl⟩

theorem PageStore.Served.same {s s₁ s₂ : PageStore} (h : Served s s₁) (hs : SamePages s₁ s₂) : Served s s₂ := by
  obtain ⟨hids, hallocs⟩ := hs
  exact ⟨hids ▸ h.sub, by rw [hids, hallocs, h.count]⟩

/-- In the middle of a call that began with the store `s`, the pages of `l` are pinned once more for each
time that they are listed, and the write latches of the pages of `held` are held. -/
structure Balanced (s s' : PageStore) (l held : List ℤ) : Prop where
  pins : ∀ id ∈ s'.ids, s'.pins id = s.pinsOf id + l.count id
  latch : ∀ id ∈ s'.ids, s'.latch id = if id ∈ held then ⟨true, 0⟩ else s.latchOf id
  free : ∀ id ∈ held, s.latchOf id = Latch.free
  mem : ∀ id ∈ l, id ∈ s'.ids
  held_mem : ∀ id ∈ held, id ∈ s'.ids

namespace Balanced

variable {s s₁ s₂ s₃ : PageStore} {l l' held held' : List ℤ} {id : ℤ} {dirty : Bool}

theorem refl (s : PageStore) : Balanced s s [] [] :=
  ⟨fun id hid => by simp [pinsOf, hid], fun id hid => by simp [latchOf, hid], by simp, by simp, by simp⟩

theorem perm (h : Balanced s s₁ l held) (hl : l.Perm l') (hh : held.Perm held') : Balanced s s₁ l' held' where
  pins id hid := by rw [h.pins id hid, hl.count_eq]
  latch id hid := by simp only [h.latch id hid, hh.mem_iff]
  free id hid := h.free id (hh.mem_iff.mpr hid)
  mem id hid := h.mem id (hl.mem_iff.mpr hid)
  held_mem id hid := h.held_mem id (hh.mem_iff.mpr hid)

theorem put (h : Balanced s s₁ l held) (id : ℤ) (p : Page) : Balanced s (s₁.put id p) l held :=
  ⟨h.pins, h.latch, h.free, h.mem, h.held_mem⟩

theorem getPage (h : Balanced s s₁ l held) (hget : s₁.getPage id = some s₂) :
    Balanced s s₂ (id :: l) held ∧ SamePages s₁ s₂ := by
  obtain ⟨hid, rfl⟩ := eq_of_getPage hget
  refine ⟨⟨fun b hb => ?_, h.latch, h.free, ?_, h.held_mem⟩, rfl, rfl⟩
  · obtain rfl | hne := eq_or_ne b id
    · simp [h.pins b hid, add_assoc]
    · simp [hne, hne.symm, h.pins b hb]
  · simpa [hid] using h.mem

theorem wLock (h : Balanced s s₁ l held) (hid : id ∈ s₁.ids) (hlock : s₁.wLock id = some s₂) :
    Balanced s s₂ l (id :: held) ∧ id ∉ held ∧ SamePages s₁ s₂ := by
  obtain ⟨c, hc, rfl⟩ := Option.map_eq_some_iff.mp hlock
  have hfree := Latch.eq_of_wLock hc
  have hnot : id ∉ held := by
    intro hm
    have := h.latch id hid
    rw [if_pos hm, hfree.1] at this
    simp [Latch.free] at this
  have hbefore : s.latchOf id = Latch.free := by
    rw [← hfree.1, h.latch id hid, if_neg hnot]
  refine ⟨⟨h.pins, fun b hb => ?_, ?_, h.mem, ?_⟩, hnot, rfl, rfl⟩
  · obtain rfl | hne := eq_or_ne b id
    · simp [hfree.2]
    · simp [hne, h.latch b hb]
  · simpa [hbefore] using h.free
  · simpa [hid] using h.held_mem

theorem wUnlock (h : Balanced s s₁ l (id :: held)) (hnot : id ∉ held) : Balanced s (s₁.wUnlock id) l held := by
  refine ⟨h.pins, fun b hb => ?_, fun b hb => h.free b (List.mem_cons_of_mem id hb), h.mem,
    fun b hb => h.held_mem b (List.mem_cons_of_mem id hb)⟩
  have hlatch := h.latch b hb
  obtain rfl | hne := eq_or_ne b id
  · simp only [List.mem_cons_self, if_true] at hlatch
    simp only [PageStore.wUnlock, Function.update_self, hlatch, if_neg hnot, h.free b List.mem_cons_self]
    rfl
  · simpa [PageStore.wUnlock, hne] using hlatch

theorem unpinPage (h : Balanced s s₁ (id :: l) held) (hunpin : s₁.unpinPage id dirty = some s₂) :
    Balanced s s₂ l held ∧ id ∉ held ∧ SamePages s₁ s₂ := by
  have hid := h.mem id List.mem_cons_self
  have hlock : ∃ s', s₁.wLock id = some s' := by
    rw [PageStore.unpinPage, if_pos hid] at hunpin
    obtain ⟨s', hs', -⟩ := bind_eq_some.mp hunpin
    exact ⟨s', hs'⟩
  obtain ⟨s', hs'⟩ := hlock
  obtain ⟨-, hnot, -⟩ := h.wLock hid hs'
  obtain rfl := eq_of_unpinPage hid hunpin
  refine ⟨⟨fun b hb => ?_, h.latch, h.free, fun b hb => h.mem b (List.mem_cons_of_mem id hb),
    h.held_mem⟩, hnot, rfl, rfl⟩
  have hp := h.pins b hb
  obtain rfl | hne := eq_or_ne b id
  · simp [hp]
    ring
  · simpa [hne, hne.symm] using hp

theorem release (h : Balanced s s₁ (id :: l) (id :: held)) (hnot : id ∉ held)
    (hrel : (s₁.wUnlock id).unpinPage id dirty = some s₂) : Balanced s s₂ l held ∧ SamePages s₁ s₂ := by
  obtain ⟨hb, -, hsame⟩ := (h.wUnlock hnot).unpinPage hrel
  exact ⟨hb, hsame.ids, hsame.allocs⟩

theorem newPage {al : Allocator} (h : Balanced s s₁ l held) (hserved : Served s s₁)
    (hnew : s₁.newPage al = (some id, s₂)) : Balanced s s₂ (id :: l) held ∧ Served s s₂ := by
  unfold PageStore.newPage at hnew
  split at hnew
  · simp at hnew
  · next new m hp =>
    rw [Prod.mk.injEq, Option.some.injEq] at hnew
    obtain ⟨rfl, rfl⟩ := hnew
    have hno := (al.fresh hp).1
    have hl : new ∉ l := fun hm => hno (h.mem new hm)
    have hh : new ∉ held := fun hm => hno (h.held_mem new hm)
    have hs : new ∉ s.ids := fun hm => hno (hserved.sub hm)
    refine ⟨⟨fun b hb => ?_, fun b hb => ?_, h.free, ?_, ?_⟩,
      fun b hb => Finset.mem_insert_of_mem (hserved.sub hb), ?_⟩
    · obtain rfl | hne := eq_or_ne b new
      · simp [pinsOf, hs, List.count_eq_zero_of_not_mem hl]
      · have hb' := (Finset.mem_insert.mp hb).resolve_left hne
        simp [hne, hne.symm, h.pins b hb']
    · obtain rfl | hne := eq_or_ne b new
      · simp [latchOf, hs, hh]
      · have hb' := (Finset.mem_insert.mp hb).resolve_left hne
        simpa [hne] using h.latch b hb'
    · intro b hb
      rcases List.mem_cons.mp hb with rfl | hb
      · exact Finset.mem_insert_self ..
      · exact Finset.mem_insert_of_mem (h.mem b hb)
    · exact fun b hb => Finset.mem_insert_of_mem (h.held_mem b hb)
    · have hcount := hserved.count
      simp only [Finset.card_insert_of_notMem hno]
      omega

theorem newPage_none {al : Allocator} (h : Balanced s s₁ l held)
    (hnew : s₁.newPage al = (none, s₂)) : Balanced s s₂ l held := by
  unfold PageStore.newPage at hnew
  split at hnew
  · rw [Prod.mk.injEq] at hnew
    obtain ⟨-, rfl⟩ := hnew
    exact ⟨h.pins, h.latch, h.free, h.mem, h.held_mem⟩
  · simp at hnew

theorem deletePage {ok : Bool} (h : Balanced s s₁ l held) (hl : id ∉ l)
    (hdel : s₁.deletePage id = some (ok, s₂)) : Balanced s s₂ l held := by
  unfold PageStore.deletePage at hdel
  split_ifs at hdel with hid hp
  · obtain ⟨-, rfl⟩ := some_mk_inj hdel
    exact h
  · obtain ⟨s', hlock, hdel⟩ := bind_eq_some.mp hdel
    obtain ⟨-, rfl⟩ := some_mk_inj hdel
    obtain ⟨-, hnot, -⟩ := h.wLock hid hlock
    rw [wUnlock_of_wLock hlock]
    refine ⟨fun b hb => h.pins b (Finset.mem_of_mem_erase hb),
      fun b hb => h.latch b (Finset.mem_of_mem_erase hb), h.free, fun b hb => ?_, fun b hb => ?_⟩
    · exact Finset.mem_erase.mpr ⟨fun e => hl (e ▸ hb), h.mem b hb⟩
    · exact Finset.mem_erase.mpr ⟨fun e => hnot (e ▸ hb), h.held_mem b hb⟩
  · obtain ⟨-, rfl⟩ := some_mk_inj hdel
    exact h

end Balanced

/-! ## The functions that only look -/

section Look

variable {s s' : PageStore} {id : ℤ}

theorem inspect_neutral {α : Type} {look : Page → α} {a : α} (h : s.inspect id look = some (a, s')) : s' = s := by
  simp only [inspect, inspectBy, bind_eq_some] at h
  obtain ⟨s₁, h1, s₂, h2, s₃, h3, he⟩ := h
  obtain rfl := reader_neutral h1 h2 h3
  exact (some_mk_inj he).2.symm

theorem searchChain_neutral {schema : Schema} {keyValue : Value} {r : Option RID × PageStore}
    (h : searchChain schema keyValue id s = some r) : r.2 = s := by
  refine searchChain.partial_correctness schema keyValue (fun _ s r => r.2 = s) ?_ id s r h
  intro loop ih id s r h
  split_ifs at h
  · obtain rfl := Option.some.inj h
    rfl
  · simp only [bind_eq_some] at h
    obtain ⟨⟨result, s₁⟩, h1, found, -, h⟩ := h
    obtain rfl := inspect_neutral h1
    cases found with
    | empty =>
      obtain rfl := Option.some.inj h
      rfl
    | found rid =>
      obtain rfl := Option.some.inj h
      rfl
    | absent next => exact ih _ _ _ h

variable {doHash : List UInt8 → UInt64} {schema : Schema} {root : ℤ} {keyValue : Value}

theorem lkHaCheckDuplicateKey_neutral {r : Option RID}
    (h : lkHaCheckDuplicateKey doHash schema root keyValue s = some (r, s')) : s' = s := by
  simp only [lkHaCheckDuplicateKey, Option.bind_eq_bind, Option.bind_eq_some_iff] at h
  obtain ⟨⟨second, s₁⟩, h1, h⟩ := h
  obtain rfl := inspect_neutral h1
  split_ifs at h
  · exact (Prod.mk.inj (Option.some.inj h)).2.symm
  · simp only [Option.bind_eq_some_iff] at h
    obtain ⟨⟨third, s₂⟩, h2, h⟩ := h
    obtain rfl := inspect_neutral h2
    exact searchChain_neutral h

theorem lkHaGetTuple_neutral {code : ℤ} {t : Option Tuple}
    (h : lkHaGetTuple doHash schema root keyValue s = some (code, t, s')) : s' = s := by
  simp only [lkHaGetTuple, Option.bind_eq_bind, Option.bind_eq_some_iff] at h
  obtain ⟨⟨rid, s₁⟩, h1, h⟩ := h
  obtain rfl := lkHaCheckDuplicateKey_neutral h1
  cases rid with
  | none => exact (Prod.mk.inj (Prod.mk.inj (Option.some.inj h)).2).2.symm
  | some rid =>
    simp only [Option.bind_eq_some_iff] at h
    obtain ⟨⟨tuple, s₂⟩, h2, h⟩ := h
    obtain rfl := inspect_neutral h2
    exact (Prod.mk.inj (Prod.mk.inj (Option.some.inj h)).2).2.symm

theorem lkHaGetTuple_code {code : ℤ} {t : Option Tuple}
    (h : lkHaGetTuple doHash schema root keyValue s = some (code, t, s')) :
    code = opSuccess ∨ code = tupleNotFound := by
  simp only [lkHaGetTuple, bind_eq_some] at h
  obtain ⟨⟨_ | rid, s₁⟩, -, h⟩ := h
  · exact Or.inr (some_mk_inj h).1.symm
  · obtain ⟨⟨tuple, s₂⟩, -, h⟩ := bind_eq_some.mp h
    rw [← (some_mk_inj h).1]
    split_ifs
    · exact Or.inl rfl
    · exact Or.inr rfl

theorem getTupleDirectly_neutral {code : ℤ} {rid : RID} {t : Option Tuple}
    (h : getTupleDirectly rid s = some (code, t, s')) : s' = s := by
  unfold getTupleDirectly at h
  split_ifs at h
  · exact (Prod.mk.inj (some_mk_inj h).2).2.symm
  · obtain ⟨⟨tuple, s₂⟩, h2, he⟩ := bind_eq_some.mp h
    obtain rfl := inspect_neutral h2
    obtain ⟨found, -, he⟩ := bind_eq_some.mp he
    exact (Prod.mk.inj (some_mk_inj he).2).2.symm

end Look

/-! ## Insertion -/

section Insert

variable {al : Allocator} {doHash : List UInt8 → UInt64} {schema : Schema} {root id : ℤ} {t : Tuple}
  {s s₁ s₂ : PageStore} {l : List ℤ}

theorem childPage_balanced {slotNum child : ℤ} {init : Page → Page} (hserved : Served s s₁)
    (hb : Balanced s s₁ (id :: l) []) (h : childPage al id slotNum init s₁ = some (child, s₂)) :
    Balanced s s₂ (child :: l) [] ∧ Served s s₂ := by
  simp only [childPage, Option.bind_eq_bind, Option.bind_eq_some_iff] at h
  obtain ⟨s', hlock, h⟩ := h
  rw [rUnlock_of_rLock hlock] at h
  split_ifs at h
  · rcases hn : s₁.newPage al with ⟨_ | new, s₃⟩
    · simp [hn] at h
    · obtain ⟨hb3, hserved3⟩ := hb.newPage hserved hn
      simp only [hn, Option.bind_eq_some_iff] at h
      obtain ⟨s4, h4, s5, h5, he⟩ := h
      obtain ⟨rfl, rfl⟩ := Prod.mk.inj (Option.some.inj he)
      have hput := (hb3.put new (init (s₃.page new))).perm (List.Perm.swap id new l) (List.Perm.refl [])
      obtain ⟨hb4, -, hsame4⟩ := hput.wLock (hput.mem id List.mem_cons_self) h4
      obtain ⟨hb5, hsame5⟩ := (hb4.put id _).release List.not_mem_nil h5
      exact ⟨hb5, (((hserved3.same (.put s₃ new _)).same hsame4).same (.put s4 id _)).same hsame5⟩
  · simp only [Option.bind_eq_some_iff] at h
    obtain ⟨s₃, h3, s4, h4, he⟩ := h
    obtain ⟨rfl, rfl⟩ := Prod.mk.inj (Option.some.inj he)
    obtain ⟨hb3, hsame3⟩ := hb.getPage h3
    obtain ⟨hb4, -, hsame4⟩ := (hb3.perm (List.Perm.swap _ _ _) (List.Perm.refl [])).unpinPage h4
    exact ⟨hb4, (hserved.same hsame3).same hsame4⟩

/-- The loop over the pages of a bucket gives back the page at which it ends, and it does not end where
there is no page to be had: `unpin_page` would have to wait for the latch that the loop holds. -/
theorem insertLoop_balanced {r : ℤ × RID × PageStore} (hserved : Served s s₁)
    (hb : Balanced s s₁ (id :: l) [id]) (h : insertLoop al t id s₁ = some r) :
    r.1 = opSuccess ∧ Balanced s r.2.2 l [] ∧ Served s r.2.2 := by
  refine insertLoop.partial_correctness al t (fun id s₁ r => Served s s₁ →
    Balanced s s₁ (id :: l) [id] → r.1 = opSuccess ∧ Balanced s r.2.2 l [] ∧ Served s r.2.2)
    ?_ id s₁ r h hserved hb
  intro loop ih id s₁ r h hserved hb
  rcases hi : TablePage.insertTuple (s₁.page id) t with ⟨_ | rid, p⟩
  · simp only [hi] at h
    have hput := hb.put id p
    have hserved' := hserved.same (.put s₁ id p)
    split_ifs at h
    · rcases hn : (s₁.put id p).newPage al with ⟨_ | new, s₃⟩
      · -- The latch of the page is still held.
        simp only [hn, bind_eq_some] at h
        obtain ⟨s4, h4, -⟩ := h
        exact absurd List.mem_cons_self ((hput.newPage_none hn).unpinPage h4).2.1
      · simp only [hn, bind_eq_some] at h
        obtain ⟨s4, h4, s5, h5, h⟩ := h
        obtain ⟨hb3, hserved3⟩ := hput.newPage hserved' hn
        obtain ⟨hb4, hne, hsame4⟩ := hb3.wLock (hb3.mem new List.mem_cons_self) h4
        have hne' : id ∉ [new] := by
          rw [List.mem_singleton] at hne ⊢
          exact fun e => hne e.symm
        obtain ⟨hb6, hsame6⟩ := (((hb4.put id _).put new _).perm (List.Perm.swap id new l)
          (List.Perm.swap id new [])).release hne' h5
        exact ih _ _ _ h ((((hserved3.same hsame4).same (.put s4 id _)).same (.put _ new _)).same hsame6) hb6
    · simp only [bind_eq_some] at h
      obtain ⟨s₃, h3, s4, h4, s5, h5, h⟩ := h
      obtain ⟨hb3, hsame3⟩ := hput.getPage h3
      obtain ⟨hb4, hsame4⟩ := (hb3.perm (List.Perm.swap _ _ _) (List.Perm.refl _)).release List.not_mem_nil h4
      obtain ⟨hb5, -, hsame5⟩ := hb4.wLock (hb4.mem _ List.mem_cons_self) h5
      exact ih _ _ _ h (((hserved'.same hsame3).same hsame4).same hsame5) hb5
  · simp only [hi, bind_eq_some] at h
    obtain ⟨s₃, h3, he⟩ := h
    obtain rfl := Option.some.inj he
    obtain ⟨hb3, hsame3⟩ := (hb.put id p).release List.not_mem_nil h3
    exact ⟨rfl, hb3, (hserved.same (.put s₁ id p)).same hsame3⟩

/-- `lk_ha_insert_tuple` gives back all that it takes, and its answer is decided by the check for a
duplicate key. -/
theorem lkHaInsertTuple_balanced {code : ℤ} {t' : Tuple} (hb : Balanced s s₁ l [])
    (hserved : Served s s₁) (h : lkHaInsertTuple al doHash schema root t s₁ = some (code, t', s₂)) :
    (∃ v dup, keyOf schema t.bytes = some v ∧ lkHaCheckDuplicateKey doHash schema root v s₁ = some (dup, s₁) ∧
      code = if dup.isSome then dupKey else opSuccess) ∧ Balanced s s₂ l [] ∧ Served s s₂ := by
  simp only [lkHaInsertTuple, Option.bind_eq_bind, Option.bind_eq_some_iff] at h
  obtain ⟨v, hv, ⟨dup, s'⟩, hcheck, h⟩ := h
  obtain rfl := lkHaCheckDuplicateKey_neutral hcheck
  split_ifs at h with hdup
  · obtain ⟨rfl, he⟩ := Prod.mk.inj (Option.some.inj h)
    obtain ⟨-, rfl⟩ := Prod.mk.inj he
    exact ⟨⟨v, dup, hv, hcheck, (if_pos hdup).symm⟩, hb, hserved⟩
  · simp only [Option.bind_eq_some_iff] at h
    obtain ⟨s₃, h3, ⟨second, s4⟩, h4, ⟨third, s5⟩, h5, s6, h6, ⟨code', rid, s7⟩, h7, h⟩ := h
    obtain ⟨hb3, hsame3⟩ := hb.getPage h3
    obtain ⟨hb4, hserved4⟩ := childPage_balanced (hserved.same hsame3) hb3 h4
    obtain ⟨hb5, hserved5⟩ := childPage_balanced hserved4 hb4 h5
    obtain ⟨hb6, -, hsame6⟩ := hb5.wLock (hb5.mem _ List.mem_cons_self) h6
    obtain ⟨hcode, hb7, hserved7⟩ := insertLoop_balanced (hserved5.same hsame6) hb6 h7
    obtain rfl : code' = opSuccess := hcode
    obtain ⟨rfl, he⟩ := Prod.mk.inj (Option.some.inj h)
    obtain ⟨-, rfl⟩ := Prod.mk.inj he
    exact ⟨⟨v, dup, hv, hcheck, (if_neg hdup).symm⟩, hb7, hserved7⟩

end Insert

/-! ## Update -/

section Update

variable {al : Allocator} {doHash : List UInt8 → UInt64} {schema : Schema} {root : ℤ} {t : Tuple} {rid : RID}
  {s s' : PageStore}

/-- The update of a stored tuple gives it another key, and that key is taken: `lk_ha_update_tuple` has
pinned the page of the old tuple when it finds that out. -/
def UpdateCollides (doHash : List UInt8 → UInt64) (schema : Schema) (root : ℤ) (t : Tuple) (rid : RID)
    (s : PageStore) : Prop :=
  ∃ (v oldKey : Value) (code : ℤ) (old : Tuple) (pinned : PageStore) (taken : RID),
    keyOf schema t.bytes = some v ∧ getTupleDirectly rid s = some (code, some old, s) ∧
    keyOf schema old.bytes = some oldKey ∧ v.opEq oldKey = false ∧ s.getPage rid.pageId = some pinned ∧
    lkHaCheckDuplicateKey doHash schema root v pinned = some (some taken, pinned)

/-- An update that finds the new key taken keeps the page of the old tuple pinned, and every other update
gives back all that it takes. -/
theorem lkHaUpdateTuple_balanced {code : ℤ} {t' : Tuple}
    (h : lkHaUpdateTuple al doHash schema root t rid s = some (code, t', s')) : code ≠ newPgFail ∧ Served s s' ∧
      (UpdateCollides doHash schema root t rid s ∧ Balanced s s' [rid.pageId] [] ∨
        ¬ UpdateCollides doHash schema root t rid s ∧ Balanced s s' [] []) := by
  simp only [lkHaUpdateTuple, Option.bind_eq_bind, Option.bind_eq_some_iff] at h
  obtain ⟨v, hv, ⟨found, _ | old, s₁⟩, hfound, h⟩ := h
  · obtain rfl := getTupleDirectly_neutral hfound
    simp only [Option.some.injEq, Prod.mk.injEq] at h
    obtain ⟨rfl, -, rfl⟩ := h
    refine ⟨by decide, Served.refl _, Or.inr ⟨?_, Balanced.refl _⟩⟩
    rintro ⟨_, _, _, _, _, _, _, hget, _⟩
    rw [hfound] at hget
    simp at hget
  · obtain rfl := getTupleDirectly_neutral hfound
    simp only [Option.bind_eq_some_iff] at h
    obtain ⟨s₂, hpin, oldKey, hold, h⟩ := h
    obtain ⟨hb2, hsame2⟩ := (Balanced.refl s₁).getPage hpin
    have hserved2 := (Served.refl s₁).same hsame2
    -- Everything that the condition speaks of is determined.
    have hiff : UpdateCollides doHash schema root t rid s₁ ↔ v.opEq oldKey = false ∧
        ∃ taken, lkHaCheckDuplicateKey doHash schema root v s₂ = some (some taken, s₂) := by
      constructor
      · rintro ⟨v', oldKey', code', old', pinned, taken, hv', hfound', hold', hne, hpin', hcheck⟩
        obtain rfl : v = v' := by simpa [hv] using hv'
        obtain rfl : old = old' := by
          rw [hfound] at hfound'
          simpa using (Prod.mk.inj (Prod.mk.inj (Option.some.inj hfound')).2).1
        obtain rfl : oldKey = oldKey' := by simpa [hold] using hold'
        obtain rfl : s₂ = pinned := by simpa [hpin] using hpin'
        exact ⟨hne, taken, hcheck⟩
      · rintro ⟨hne, taken, hcheck⟩
        exact ⟨v, oldKey, found, old, s₂, taken, hv, hfound, hold, hne, hpin, hcheck⟩
    split_ifs at h with heq
    · -- The key stays.
      simp only [Option.bind_eq_some_iff] at h
      obtain ⟨s₃, h3, s4, h4, he⟩ := h
      simp only [Option.some.injEq, Prod.mk.injEq] at he
      obtain ⟨rfl, -, rfl⟩ := he
      obtain ⟨hb3, -, hsame3⟩ := hb2.wLock (hb2.mem _ List.mem_cons_self) h3
      obtain ⟨hb4, hsame4⟩ := (hb3.put rid.pageId _).release List.not_mem_nil h4
      refine ⟨by decide, ((hserved2.same hsame3).same (.put s₃ rid.pageId _)).same hsame4,
        Or.inr ⟨fun hcol => ?_, hb4⟩⟩
      simp [(hiff.mp hcol).1] at heq
    · simp only [Option.bind_eq_some_iff] at h
      obtain ⟨⟨inserted, t2, s₃⟩, h3, h⟩ := h
      obtain ⟨⟨v', dup, hv', hcheck, hcode⟩, hb3, hserved3⟩ := lkHaInsertTuple_balanced hb2 hserved2 h3
      obtain rfl : v = v' := by simpa [hv] using hv'
      cases dup with
      | some taken =>
        obtain rfl : inserted = dupKey := hcode
        rw [if_pos rfl] at h
        simp only [Option.some.injEq, Prod.mk.injEq] at h
        obtain ⟨rfl, -, rfl⟩ := h
        exact ⟨by decide, hserved3, Or.inl ⟨hiff.mpr ⟨by simpa using heq, taken, hcheck⟩, hb3⟩⟩
      | none =>
        obtain rfl : inserted = opSuccess := hcode
        have hno : ¬ UpdateCollides doHash schema root t rid s₁ := by
          rw [hiff]
          rintro ⟨-, taken, htaken⟩
          simp [hcheck] at htaken
        rw [if_neg (show ¬ opSuccess = dupKey by decide)] at h
        simp only [Option.bind_eq_some_iff] at h
        obtain ⟨s4, h4, h⟩ := h
        obtain ⟨hb4, -, hsame4⟩ := hb3.wLock (hb3.mem _ List.mem_cons_self) h4
        have hserved4 := hserved3.same hsame4
        split_ifs at h
        · simp only [Option.bind_eq_some_iff] at h
          obtain ⟨s5, h5, he⟩ := h
          simp only [Option.some.injEq, Prod.mk.injEq] at he
          obtain ⟨rfl, -, rfl⟩ := he
          obtain ⟨hb5, hsame5⟩ := ((hb4.put rid.pageId _).put rid.pageId _).release List.not_mem_nil h5
          exact ⟨by decide, ((hserved4.same (.put s4 rid.pageId _)).same (.put _ rid.pageId _)).same hsame5,
            Or.inr ⟨hno, hb5⟩⟩
        · simp only [Option.bind_eq_some_iff] at h
          obtain ⟨s5, h5, he⟩ := h
          simp only [Option.some.injEq, Prod.mk.injEq] at he
          obtain ⟨rfl, -, rfl⟩ := he
          obtain ⟨hb5, hsame5⟩ := (hb4.put rid.pageId _).release List.not_mem_nil h5
          exact ⟨by decide, (hserved4.same (.put s4 rid.pageId _)).same hsame5, Or.inr ⟨hno, hb5⟩⟩

end Update

/-! ## Deletion -/

section Delete

variable {doHash : List UInt8 → UInt64} {schema : Schema} {root : ℤ} {keyValue : Value} {s s₁ s' : PageStore}

/-- The first loop of `lk_ha_clear_empty_page` ends with the pages that it has found empty and, where the
bucket has another page, with that page; all of them are pinned and latched. -/
theorem collectEmpty_balanced (l held : List ℤ) {checked : ℤ} {es : List ℤ} {r : List ℤ × ℤ × PageStore}
    (hpos : invalidPageId < checked) (hnodup : (checked :: (es ++ held)).Nodup)
    (hb : Balanced s s₁ (checked :: (es ++ l)) (checked :: (es ++ held))) (h : collectEmpty getPage checked es s₁ = some r) :
    ∃ last : List ℤ, last = (if r.2.1 = invalidPageId then [] else [r.2.1]) ∧
      (r.1 ++ (last ++ held)).Nodup ∧ Balanced s r.2.2 (r.1 ++ (last ++ l)) (r.1 ++ (last ++ held)) := by
  refine collectEmpty.partial_correctness getPage (fun checked es s₁ r => invalidPageId < checked →
    (checked :: (es ++ held)).Nodup → Balanced s s₁ (checked :: (es ++ l)) (checked :: (es ++ held)) →
    ∃ last : List ℤ, last = (if r.2.1 = invalidPageId then [] else [r.2.1]) ∧
      (r.1 ++ (last ++ held)).Nodup ∧ Balanced s r.2.2 (r.1 ++ (last ++ l)) (r.1 ++ (last ++ held)))
    ?_ checked es s₁ r h hpos hnodup hb
  intro loop ih checked es s₁ r h hpos hnodup hb
  have hmid : ∀ l : List ℤ, (checked :: (es ++ l)).Perm (es ++ ([checked] ++ l)) := fun l => by
    have h : (es ++ checked :: l).Perm (checked :: (es ++ l)) := List.perm_middle
    exact h.symm
  dsimp only at h
  split_ifs at h with hzero hlast
  · obtain rfl := Option.some.inj h
    refine ⟨[], by simp [hlast], ?_, ?_⟩
    · simpa using (hmid held).nodup_iff.mp hnodup
    · simpa using hb.perm (hmid l) (hmid held)
  · simp only [bind_eq_some] at h
    obtain ⟨s₂, h2, s₃, h3, h⟩ := h
    obtain ⟨hb2, -⟩ := hb.getPage h2
    obtain ⟨hb3, hnot, -⟩ := hb2.wLock (hb2.mem _ List.mem_cons_self) h3
    have hsnoc : ∀ l : List ℤ, es ++ ([checked] ++ l) = es ++ [checked] ++ l := fun l => by simp
    rw [(hmid held).mem_iff, hsnoc] at hnot
    refine ih _ _ _ _ h (pos_of_getPage h2) ?_ ?_
    · rw [List.nodup_cons, ← hsnoc]
      exact ⟨by rwa [hsnoc], (hmid held).nodup_iff.mp hnodup⟩
    · rw [← hsnoc, ← hsnoc]
      exact hb3.perm ((hmid l).cons _) ((hmid held).cons _)
  · obtain rfl := Option.some.inj h
    refine ⟨[checked], (if_neg hpos.ne').symm, ?_, hb.perm (hmid l) (hmid held)⟩
    exact (hmid held).nodup_iff.mp hnodup

theorem deleteEmpty_balanced {es l held : List ℤ} (hnodup : (es ++ held).Nodup) (hl : ∀ id ∈ es, id ∉ l)
    (hb : Balanced s s₁ (es ++ l) (es ++ held)) (h : deleteEmpty es s₁ = some s') : Balanced s s' l held := by
  induction es generalizing s₁ with
  | nil =>
    obtain rfl := Option.some.inj h
    exact hb
  | cons id rest ih =>
    simp only [deleteEmpty, bind_eq_some] at h
    obtain ⟨s₂, h2, ⟨_ | _, s₃⟩, h3, h⟩ := h
    · simp at h
    · rw [List.cons_append, List.nodup_cons] at hnodup
      obtain ⟨hb2, -⟩ := hb.release hnodup.1 h2
      have hid : id ∉ rest ++ l := by
        rw [List.mem_append, not_or]
        exact ⟨fun hm => hnodup.1 (List.mem_append_left _ hm), hl id List.mem_cons_self⟩
      exact ih hnodup.2 (fun b hb => hl b (List.mem_cons_of_mem _ hb)) (hb2.deletePage hid h3) h

theorem lkHaClearEmptyPage_balanced {secSlot tbSlot : ℤ} (hb : Balanced s s₁ [] [])
    (h : lkHaClearEmptyPage root secSlot tbSlot s₁ = some s') : Balanced s s' [] [] := by
  simp only [lkHaClearEmptyPage, lkHaClearEmptyPageBy, Option.bind_eq_bind, Option.bind_eq_some_iff] at h
  obtain ⟨⟨sec, s₂⟩, h2, s₃, h3, s4, h4, s5, h5, s6, h6, ⟨es, checked, s7⟩, h7, s8, h8, h⟩ := h
  obtain rfl := inspect_neutral h2
  obtain ⟨hb3, -⟩ := hb.getPage h3
  obtain ⟨hb4, -, -⟩ := hb3.wLock (hb3.mem _ List.mem_cons_self) h4
  obtain ⟨hb5, -⟩ := hb4.getPage h5
  obtain ⟨hb6, hne, -⟩ := hb5.wLock (hb5.mem _ List.mem_cons_self) h6
  obtain ⟨last, hlast, hnodup, hb7⟩ := collectEmpty_balanced [sec] [sec] (pos_of_getPage h5)
    (List.nodup_cons.mpr ⟨hne, List.nodup_singleton _⟩) hb6 h7
  have hb8 := deleteEmpty_balanced hnodup (fun id hid hm =>
    (List.nodup_append.mp hnodup).2.2 id hid id hm rfl) hb7 h8
  replace hnodup := (List.nodup_append.mp hnodup).2.1
  split_ifs at h with hinv
  · obtain rfl : last = [] := by rw [hlast, if_pos hinv]
    exact ((hb8.put sec _).release List.not_mem_nil h).1
  · obtain rfl : last = [checked] := by rw [hlast, if_neg hinv]
    simp only [Option.bind_eq_some_iff] at h
    obtain ⟨s9, h9, h⟩ := h
    -- Both latches are given back before the pins.
    obtain ⟨hb9, -⟩ := ((((hb8.put sec _).put checked _).wUnlock (List.nodup_cons.mp hnodup).1).wUnlock
      List.not_mem_nil).unpinPage h9
    exact (hb9.unpinPage h).1

theorem lkHaApplyDelete_balanced (h : lkHaApplyDelete doHash schema root keyValue s = some s') :
    Balanced s s' [] [] := by
  simp only [lkHaApplyDelete, Option.bind_eq_bind, Option.bind_eq_some_iff] at h
  obtain ⟨⟨code, _ | t, s₁⟩, h1, h⟩ := h
  · obtain rfl := lkHaGetTuple_neutral h1
    obtain rfl := Option.some.inj h
    exact Balanced.refl _
  · obtain rfl := lkHaGetTuple_neutral h1
    simp only [Option.bind_eq_some_iff] at h
    obtain ⟨s₂, h2, s₃, h3, s4, h4, h⟩ := h
    obtain ⟨hb2, -⟩ := (Balanced.refl s₁).getPage h2
    obtain ⟨hb3, -, -⟩ := hb2.wLock (hb2.mem _ List.mem_cons_self) h3
    obtain ⟨hb4, -⟩ := (hb3.put t.rid.pageId _).release List.not_mem_nil h4
    split_ifs at h
    · exact lkHaClearEmptyPage_balanced hb4 h
    · obtain rfl := Option.some.inj h
      exact hb4

end Delete

/-! ## All calls -/

/-- The calls of the index. -/
inductive IndexCall
  /-- `lk_ha_insert_tuple` -/
  | insert (tuple : Tuple)
  /-- `lk_ha_get_tuple` -/
  | get (keyValue : Value)
  /-- `lk_ha_update_tuple` -/
  | update (newTuple : Tuple) (oldRid : RID)
  /-- `lk_ha_apply_delete` -/
  | applyDelete (keyValue : Value)

namespace IndexCall

section Call

variable (al : Allocator) (doHash : List UInt8 → UInt64) (schema : Schema) (root : ℤ)

/-- The operation code that a call returns, if it returns one, and the store that it leaves. -/
def run (s : PageStore) : IndexCall → Option (Option ℤ × PageStore)
  | insert tuple => (lkHaInsertTuple al doHash schema root tuple s).map fun r => (some r.1, r.2.2)
  | get keyValue => (lkHaGetTuple doHash schema root keyValue s).map fun r => (some r.1, r.2.2)
  | update newTuple oldRid =>
    (lkHaUpdateTuple al doHash schema root newTuple oldRid s).map fun r => (some r.1, r.2.2)
  | applyDelete keyValue => (lkHaApplyDelete doHash schema root keyValue s).map fun r => (none, r)

/-- The call is an update to a key that is taken. -/
def Collides (s : PageStore) : IndexCall → Prop
  | update newTuple oldRid => UpdateCollides doHash schema root newTuple oldRid s
  | _ => False

end Call

variable {al : Allocator} {doHash : List UInt8 → UInt64} {schema : Schema} {root : ℤ} {c : IndexCall}
  {s s' : PageStore} {code : Option ℤ}

/-- The calls that ask for pages. -/
def Stores : IndexCall → Prop
  | insert _ => True
  | update _ _ => True
  | _ => False

/-- A call gives back all that it takes, unless it is an update to a key that is taken; and it does not
return when it has asked for a page that it did not get. -/
theorem run_balanced (hrun : c.run al doHash schema root s = some (code, s')) :
    code ≠ some newPgFail ∧ (c.Stores → Served s s') ∧
      ((c.Collides doHash schema root s ∧ ∃ id ∈ s.ids, Balanced s s' [id] []) ∨
        ¬ c.Collides doHash schema root s ∧ Balanced s s' [] []) := by
  cases c with
  | insert t =>
    obtain ⟨⟨code', t', s₁⟩, h, he⟩ := Option.map_eq_some_iff.mp hrun
    obtain ⟨rfl, rfl⟩ := Prod.mk.inj he
    obtain ⟨⟨v, dup, -, -, rfl⟩, hb, hserved⟩ := lkHaInsertTuple_balanced (Balanced.refl s) (Served.refl s) h
    have hne : ∀ b : Bool, (if b then dupKey else opSuccess) ≠ newPgFail := by decide
    exact ⟨fun e => hne _ (Option.some.inj e), fun _ => hserved, Or.inr ⟨id, hb⟩⟩
  | get v =>
    obtain ⟨⟨code', t', s₁⟩, h, he⟩ := Option.map_eq_some_iff.mp hrun
    obtain ⟨rfl, rfl⟩ := Prod.mk.inj he
    obtain rfl := lkHaGetTuple_neutral h
    refine ⟨?_, False.elim, Or.inr ⟨id, Balanced.refl _⟩⟩
    change some code' ≠ _
    rcases lkHaGetTuple_code h with rfl | rfl <;> decide
  | update t rid =>
    obtain ⟨⟨code', t', s₁⟩, h, he⟩ := Option.map_eq_some_iff.mp hrun
    obtain ⟨rfl, rfl⟩ := Prod.mk.inj he
    obtain ⟨hcode, hserved, ⟨hcol, hb⟩ | hno⟩ := lkHaUpdateTuple_balanced h
    · obtain ⟨-, -, -, -, pinned, -, -, -, -, -, hget, -⟩ := id hcol
      exact ⟨fun e => hcode (Option.some.inj e), fun _ => hserved, Or.inl ⟨hcol, _, (eq_of_getPage hget).1, hb⟩⟩
    · exact ⟨fun e => hcode (Option.some.inj e), fun _ => hserved, Or.inr hno⟩
  | applyDelete v =>
    obtain ⟨s₁, h, he⟩ := Option.map_eq_some_iff.mp hrun
    obtain ⟨rfl, rfl⟩ := Prod.mk.inj he
    exact ⟨by simp, False.elim, Or.inr ⟨id, lkHaApplyDelete_balanced h⟩⟩

end IndexCall

end Dawn
