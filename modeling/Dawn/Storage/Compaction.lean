import Dawn.Storage.AnySize

/-!
# What `apply_delete` does to a page

On a stored tuple of a well-formed page, `apply_delete` takes out that tuple and moves the ones below it,
of whatever sizes (`apply_delete_compacts`). It is not guarded against slots that store nothing: the guard
asks for a slot that is empty *and* has the deletion mark in its size, where it should ask for one of the
two. A record that has been deleted is zero and so has no mark, and a second `apply_delete` tells `memmove`
to move a negative number of bytes (`apply_delete_guarded_iff`).
-/

namespace Dawn.TablePage

variable {p p' : Page} {k : ℕ}

/-! ## Stored tuples -/

/-- The tuple in a slot has been taken out of a page, and nothing else. -/
structure TakenOut (p : Page) (k : ℕ) (p' : Page) : Prop where
  /-- The page is well formed. -/
  wf : WF p'
  /-- The slot is empty. -/
  empty : k ∉ occ p'
  /-- The other slots are occupied as before. -/
  occ_iff : ∀ j ≠ k, (j ∈ occ p' ↔ j ∈ occ p)
  /-- Their tuples have the sizes that they had. -/
  len_eq : ∀ j ∈ occ p, j ≠ k → tupleLen p' j = tupleLen p j
  /-- They have their bytes and marks. -/
  slot_eq : ∀ j ≠ k, slot p' j = slot p j
  /-- There are as many slots. -/
  count_eq : getTupleCount p' = getTupleCount p
  /-- The links are kept. -/
  prev_eq : getPrevPageId p' = getPrevPageId p
  next_eq : getNextPageId p' = getNextPageId p
  /-- There is as much more free space as the tuple took. -/
  free_eq : getFreeSpace p' = getFreeSpace p + tupleLen p k

/-- `apply_delete` takes out the tuple of an occupied slot of a well-formed page. -/
theorem apply_delete_compacts (h : WF p) (hk : k ∈ occ p) (pid : ℤ) :
    TakenOut p k (applyDelete p ⟨pid, k⟩) := by
  obtain ⟨hwf, hocc, hslot⟩ := applyDelete_spec pid h hk
  obtain ⟨hcount, hfsp, -, hrec⟩ := applyDelete_records pid h hk
  have hroom := h.room
  have hc0 := h.count_nonneg
  have hheader : ∀ i : ℤ, i < 72 → (applyDelete p ⟨pid, k⟩).data i = p.data i := fun i hi =>
    applyDelete_data_of_notMem h hk (by omega) (by omega) (by omega)
  refine ⟨hwf, by simp [hocc], fun j hj => by simp [hocc, hj], fun j hj hjk => ?_, fun j hj => ?_, hcount,
    getPrevPageId_congr hheader, getNextPageId_congr hheader, ?_⟩
  · rw [tupleLen, (hrec j (mem_occ.mp hj).1 hjk).2, tupleLen]
  · rw [hslot, Function.update_of_ne hj]
  · rw [getFreeSpace_eq, getFreeSpace_eq, hcount, hfsp]
    ring

/-- The first of two tuples is taken out. -/
theorem apply_delete_compacts_two : ∃ p, WF p ∧ getTupleCount p = 2 ∧ 0 ∈ occ p ∧ 1 ∈ occ p ∧
    TakenOut p 0 (applyDelete p ⟨p.pageId, (0 : ℕ)⟩) := by
  obtain ⟨-, p, -, hone, hcount, hfull⟩ := exists_full_run (s := 8) (n := 2) (by norm_num) stalePage (-1) (-1)
    (by norm_num)
  have h0 : 0 ∈ occ p := hfull 0 (by rw [hcount]; norm_num)
  exact ⟨p, hone.wf, hcount, h0, hfull 1 (by rw [hcount]; norm_num), apply_delete_compacts hone.wf h0 _⟩

/-! ## Slots that store nothing -/

/-- A position denotes a stored tuple of a page. -/
def Stored (p : Page) (rid : RID) : Prop := ∃ k ∈ occ p, rid.slotNum = (k : ℕ)

/-- What `apply_delete` should do for any position: it reads a record inside the page and does not move a
negative number of bytes, and where there is no tuple in a slot it returns and has changed nothing. -/
structure DeletesSafely (p : Page) (rid : RID) : Prop where
  moves_nonneg : ∃ moves, atRecord rid (applyDeleteMoves p rid) = some moves ∧ ∀ n ∈ moves, 0 ≤ n
  unchanged : 0 ≤ rid.slotNum → ¬ Stored p rid → ∃ p', applyDelete? p rid = some p' ∧
    ∀ i : ℤ, 0 ≤ i → i < pageSize → p'.data i = p.data i

/-- When it does so. A record that is not one of a tuple has to be inside the page and has to have the mark
in its size; without the mark it has to say that there are no bytes at a place of the page behind the free
space pointer. -/
def RecordHarmless (p : Page) (rid : RID) : Prop :=
  let offset := getTupleOffset p rid.slotNum
  let size := getTupleSize p rid.slotNum
  Stored p rid ∨ RecordInPage rid.slotNum ∧
    ((getTupleCount p ≤ rid.slotNum ∨ offset = 0) ∧ isDeleted size = true ∨
      getFreeSpacePointer p ≤ offset ∧ (0 ≤ rid.slotNum → size = 0 ∧ offset ≤ pageSize))

theorem relocate_foldl_data (o z : ℤ) (l : List ℕ) (p : Page) {i : ℤ} (hi : i < 144) :
    (l.foldl (relocate o z) p).data i = p.data i := by
  induction l generalizing p with
  | nil => rfl
  | cons n l ih =>
    rw [List.foldl_cons, ih]
    exact relocate_data_of_notMem (Or.inl (by omega))

theorem relocate_foldl_zero (o : ℤ) (l : List ℕ) (p : Page) : l.foldl (relocate o 0) p = p := by
  have hstep : ∀ (p : Page) (n : ℕ), relocate o 0 p n = p := by
    intro p n
    simp only [relocate, add_zero]
    split_ifs
    · have hsame : p.data.setI32 (144 + n * 8) (getTupleOffset p n) = p.data := Bytes.setI32_i32 _ _
      change ({ p with data := p.data.setI32 (144 + n * 8) (getTupleOffset p n) } : Page) = p
      rw [hsame]
    · rfl
  induction l with
  | nil => rfl
  | cons n l ih => rw [List.foldl_cons, hstep, ih]

/-- The page with the bytes between the free space pointer and an offset moved up, and the pointer with
them. -/
def movedUp (p : Page) (offset size : ℤ) : Page :=
  let fsp := getFreeSpacePointer p
  { p with data := (p.data.memmove (fsp + size) fsp (offset - fsp)).setI32 72 (fsp + size) }

theorem applyDelete_of_beyond {rid : RID} (hk : getTupleCount p ≤ rid.slotNum)
    (hd : isDeleted (getTupleSize p rid.slotNum) = false) : ∃ l : List ℕ, applyDelete p rid =
      l.foldl (relocate (getTupleOffset p rid.slotNum) (unsetDeletedFlag (getTupleSize p rid.slotNum)))
        (movedUp p (getTupleOffset p rid.slotNum) (unsetDeletedFlag (getTupleSize p rid.slotNum))) := by
  have hguard : ¬ ((getTupleCount p ≤ rid.slotNum ∨ getTupleOffset p rid.slotNum = 0) ∧
      isDeleted (getTupleSize p rid.slotNum) = true) := by simp [hd]
  simp only [applyDelete, if_neg hguard, deleteTupleRecord, if_pos hk]
  exact ⟨_, rfl⟩

theorem applyDelete_of_zero {rid : RID} (hk : getTupleCount p ≤ rid.slotNum)
    (hsize : getTupleSize p rid.slotNum = 0) : (applyDelete p rid).data = p.data := by
  have hd : isDeleted (getTupleSize p rid.slotNum) = false := by rw [hsize]; decide
  obtain ⟨l, he⟩ := applyDelete_of_beyond hk hd
  have hunset : unsetDeletedFlag 0 = 0 := by decide
  have hmove : p.data.memmove (getFreeSpacePointer p) (getFreeSpacePointer p)
      (getTupleOffset p rid.slotNum - getFreeSpacePointer p) = p.data := by
    funext i
    simp only [Bytes.memmove, Bytes.memcpy]
    split_ifs
    · congr 1
      ring
    · rfl
  rw [he, hsize, hunset, relocate_foldl_zero]
  simp only [movedUp, add_zero, hmove]
  exact Bytes.setI32_i32 _ _

theorem applyDelete_fsp_of_beyond {rid : RID} (hk : getTupleCount p ≤ rid.slotNum)
    (hd : isDeleted (getTupleSize p rid.slotNum) = false) : getFreeSpacePointer (applyDelete p rid) =
      wrap32 (getFreeSpacePointer p + getTupleSize p rid.slotNum) := by
  obtain ⟨l, he⟩ := applyDelete_of_beyond hk hd
  have hsize : unsetDeletedFlag (getTupleSize p rid.slotNum) = getTupleSize p rid.slotNum := by
    have hi : IsI32 (getTupleSize p rid.slotNum) := Bytes.isI32_i32 _ _
    rw [unsetDeletedFlag_eq hi, if_neg]
    rw [← isDeleted_getTupleSize, hd]
    simp
  rw [he, hsize, getFreeSpacePointer_eq]
  exact (Bytes.i32_congr fun i hi => relocate_foldl_data _ _ _ _ (by omega)).trans
    (Bytes.i32_setI32_eq_wrap32 _ _ _)

theorem deletesSafely_of_guard {rid : RID} (hin : RecordInPage rid.slotNum)
    (hg : (getTupleCount p ≤ rid.slotNum ∨ getTupleOffset p rid.slotNum = 0) ∧
      isDeleted (getTupleSize p rid.slotNum) = true) : DeletesSafely p rid := by
  have hmoves : applyDeleteMoves p rid = none := by simp only [applyDeleteMoves, if_pos hg]
  have hpage : MovesInPage p rid := by simp [MovesInPage, hmoves]
  refine ⟨⟨none, by rw [atRecord, if_pos hin, hmoves], by simp⟩, fun _ _ => ⟨p, ?_, fun _ _ _ => rfl⟩⟩
  rw [applyDelete?, if_pos hpage, atRecord, if_pos hin]
  simp only [applyDelete, if_pos hg]

theorem deletesSafely_iff_of_not_stored (h : WF p) {rid : RID} (hno : ¬ Stored p rid)
    (hin : RecordInPage rid.slotNum) : DeletesSafely p rid ↔
      (getTupleCount p ≤ rid.slotNum ∨ getTupleOffset p rid.slotNum = 0) ∧
        isDeleted (getTupleSize p rid.slotNum) = true ∨
      getFreeSpacePointer p ≤ getTupleOffset p rid.slotNum ∧ (0 ≤ rid.slotNum →
        getTupleSize p rid.slotNum = 0 ∧ getTupleOffset p rid.slotNum ≤ pageSize) := by
  have hroom := h.room
  have hc0 := h.count_nonneg
  by_cases hg : (getTupleCount p ≤ rid.slotNum ∨ getTupleOffset p rid.slotNum = 0) ∧
      isDeleted (getTupleSize p rid.slotNum) = true
  · exact iff_of_true (deletesSafely_of_guard hin hg) (Or.inl hg)
  rw [or_iff_right hg]
  have hmoves : applyDeleteMoves p rid =
      some (getTupleOffset p rid.slotNum - getFreeSpacePointer p) := by
    simp only [applyDeleteMoves, if_neg hg]
  -- A record behind the free space pointer that is not one of a tuple is not one of the page.
  have hbeyond : getFreeSpacePointer p ≤ getTupleOffset p rid.slotNum → 0 ≤ rid.slotNum →
      getTupleCount p ≤ rid.slotNum := by
    intro hle h0
    obtain ⟨k, hk⟩ := Int.eq_ofNat_of_zero_le h0
    by_contra hlt
    refine hno ⟨k, mem_occ.mpr ⟨by omega, ?_⟩, hk⟩
    rw [← hk]
    omega
  have hmoved : MovesInPage p rid ↔ 0 ≤ getTupleOffset p rid.slotNum - getFreeSpacePointer p ∧
      0 ≤ getFreeSpacePointer p ∧ getFreeSpacePointer p +
        unsetDeletedFlag (getTupleSize p rid.slotNum) +
        (getTupleOffset p rid.slotNum - getFreeSpacePointer p) ≤ pageSize := by
    simp [MovesInPage, hmoves]
  constructor
  · rintro ⟨⟨moves, hm, hpos⟩, hsame⟩
    rw [atRecord, if_pos hin, hmoves, Option.some.injEq] at hm
    have hle := hpos _ hm.symm
    refine ⟨by omega, fun h0 => ?_⟩
    obtain ⟨p', he, hsame⟩ := hsame h0 hno
    have hpage : MovesInPage p rid := by
      by_contra hout
      rw [applyDelete?, if_neg hout] at he
      cases he
    rw [applyDelete?, if_pos hpage, atRecord, if_pos hin, Option.some.injEq] at he
    subst he
    have hk := hbeyond (by omega) h0
    have hd : isDeleted (getTupleSize p rid.slotNum) = false := by
      rw [Bool.eq_false_iff]
      exact fun hd => hg ⟨Or.inl hk, hd⟩
    have hfsp : getFreeSpacePointer (applyDelete p rid) = getFreeSpacePointer p :=
      Bytes.i32_congr fun i hi => hsame _ (show 0 ≤ 72 + (i : ℤ) by omega)
        (show 72 + (i : ℤ) < 4096 by omega)
    rw [applyDelete_fsp_of_beyond hk hd, wrap32_eq_bmod, Int.bmod_def] at hfsp
    obtain ⟨h1, h2⟩ : IsI32 (getTupleSize p rid.slotNum) := Bytes.isI32_i32 _ _
    have hzero : getTupleSize p rid.slotNum = 0 := by split_ifs at hfsp <;> omega
    have hunset : unsetDeletedFlag 0 = 0 := by decide
    have hbound := (hmoved.mp hpage).2.2
    rw [hzero, hunset] at hbound
    exact ⟨hzero, by omega⟩
  · rintro ⟨hle, hzero⟩
    refine ⟨⟨_, by rw [atRecord, if_pos hin, hmoves], fun n hn => ?_⟩, fun h0 _ => ?_⟩
    · rw [Option.mem_def, Option.some.injEq] at hn
      omega
    · obtain ⟨hsize, hoff⟩ := hzero h0
      have hunset : unsetDeletedFlag 0 = 0 := by decide
      have hpage : MovesInPage p rid := hmoved.mpr ⟨by omega, by omega, by rw [hsize, hunset]; omega⟩
      refine ⟨applyDelete p rid, by rw [applyDelete?, if_pos hpage, atRecord, if_pos hin], ?_⟩
      rw [applyDelete_of_zero (hbeyond hle h0) hsize]
      exact fun _ _ _ => rfl

theorem applyDelete_record_zero (h : WF p) (hk : k ∈ occ p) (pid : ℤ) :
    getTupleOffset (applyDelete p ⟨pid, k⟩) k = 0 ∧ getTupleSize (applyDelete p ⟨pid, k⟩) k = 0 := by
  obtain ⟨hl, -, hhi⟩ := h.extent hk
  refine ⟨(applyDelete_records pid h hk).2.2.1, ?_⟩
  rw [applyDelete_of_mem h hk, (relocate_foldl _ (by omega) hhi _).2.1]
  exact (compacted_records h hk).2.2.2.1

/-- `apply_delete` is safe for a position exactly when the record is harmless, and a second call for a tuple
that was stored never is. -/
theorem apply_delete_guarded_iff (h : WF p) (rid : RID) :
    (DeletesSafely p rid ↔ RecordHarmless p rid) ∧
    (Stored p rid → ∃ p', applyDelete? p rid = some p' ∧ ¬ DeletesSafely p' rid) := by
  constructor
  · by_cases hs : Stored p rid
    · refine iff_of_true ⟨?_, fun _ hno => absurd hs hno⟩ (Or.inl hs)
      obtain ⟨k, hk, he⟩ := hs
      obtain ⟨pid, n⟩ := rid
      obtain rfl : n = (k : ℕ) := he
      refine ⟨_, h.atRecord_eq hk pid _, fun n hn => ?_⟩
      have hext := h.extent hk
      simp only [applyDeleteMoves, Option.mem_def] at hn
      split_ifs at hn
      rw [Option.some.injEq] at hn
      omega
    · by_cases hin : RecordInPage rid.slotNum
      · rw [deletesSafely_iff_of_not_stored h hs hin]
        simp [RecordHarmless, hs, hin]
      · refine iff_of_false ?_ fun hharmless => hin (hharmless.resolve_left hs).1
        rintro ⟨⟨moves, hm, -⟩, -⟩
        rw [atRecord, if_neg hin] at hm
        cases hm
  · rintro ⟨k, hk, he⟩
    obtain ⟨pid, n⟩ := rid
    obtain rfl : n = (k : ℕ) := he
    refine ⟨_, applyDelete?_of_mem pid h hk, fun hsafe => ?_⟩
    obtain ⟨hwf, -⟩ := applyDelete_spec pid h hk
    obtain ⟨hoff, hsize⟩ := applyDelete_record_zero h hk pid
    have hroom := hwf.room
    have hc0 := hwf.count_nonneg
    have hmoves : applyDeleteMoves (applyDelete p ⟨pid, k⟩) ⟨pid, k⟩ =
        some (0 - getFreeSpacePointer (applyDelete p ⟨pid, k⟩)) := by
      have hnot : isDeleted 0 = false := by decide
      simp [applyDeleteMoves, hoff, hsize, hnot]
    obtain ⟨moves, hm, hpos⟩ := hsafe.moves_nonneg
    rw [h.atRecord_eq hk, hmoves, Option.some.injEq] at hm
    have := hpos _ hm.symm
    omega

/-- A tuple that is stored is deleted safely once. -/
theorem apply_delete_guarded_iff_once : ∃ p p', WF p ∧ Stored p ⟨p.pageId, (0 : ℕ)⟩ ∧
    DeletesSafely p ⟨p.pageId, (0 : ℕ)⟩ ∧ applyDelete? p ⟨p.pageId, (0 : ℕ)⟩ = some p' ∧
    ¬ DeletesSafely p' ⟨p.pageId, (0 : ℕ)⟩ := by
  obtain ⟨-, p, -, hone, hcount, hfull⟩ := exists_full_run (s := 8) (n := 2) (by norm_num) stalePage
    (-1) (-1) (by norm_num)
  have hs : Stored p ⟨p.pageId, (0 : ℕ)⟩ := ⟨0, hfull 0 (by rw [hcount]; norm_num), rfl⟩
  obtain ⟨hiff, htwice⟩ := apply_delete_guarded_iff hone.wf ⟨p.pageId, (0 : ℕ)⟩
  obtain ⟨p', he, hnot⟩ := htwice hs
  exact ⟨p, p', hone.wf, hs, hiff.mpr (Or.inl hs), he, hnot⟩

/-- A page that has one tuple of eight bytes. -/
def oneTuplePage : Page :=
  (insertTuple (init stalePage (-1) (-1)) (Tuple.ofBytes {} [1, 2, 3, 4, 5, 6, 7, 8])).2

/-- The only tuple of a page is deleted twice. The second call tells `memmove` to move `-4096` bytes. -/
theorem second_delete_moves_negative : Stored oneTuplePage ⟨7, 0⟩ ∧ ∃ p,
    applyDelete? oneTuplePage ⟨7, 0⟩ = some p ∧ ¬ Stored p ⟨7, 0⟩ ∧
    atRecord ⟨7, 0⟩ (applyDeleteMoves p ⟨7, 0⟩) = some (some (-4096)) ∧
    applyDelete? p ⟨7, 0⟩ = none := by
  have hocc : 0 ∈ occ oneTuplePage := by decide +kernel
  have hocc' : 0 ∉ occ (applyDelete oneTuplePage ⟨7, 0⟩) := by decide +kernel
  have hpage : MovesInPage oneTuplePage ⟨7, 0⟩ := by decide +kernel
  have hin : RecordInPage (⟨7, 0⟩ : RID).slotNum := by decide
  have hout : ¬ MovesInPage (applyDelete oneTuplePage ⟨7, 0⟩) ⟨7, 0⟩ := by decide +kernel
  refine ⟨⟨0, hocc, rfl⟩, applyDelete oneTuplePage ⟨7, 0⟩, ?_, ?_, ?_, if_neg hout⟩
  · rw [applyDelete?, if_pos hpage, atRecord, if_pos hin]
  · rintro ⟨k, hk, he⟩
    obtain rfl : k = 0 := by simpa using he.symm
    exact hocc' hk
  · rw [atRecord, if_pos hin]
    decide +kernel

end Dawn.TablePage
