import Mathlib.Tactic

/-!
# The clock replacer

`ClockReplacer` of `src/buffer/clock_replacer.cpp`. It keeps the frames that may be evicted, each with a
reference bit. `victim` turns the clock: a frame whose bit is set gets another turn, and the first frame
whose bit is not set is taken out. While there is a frame to take, it does so within two turns
(`victim_of_present`); while there is none, it waits, which for one thread alone means that it never
returns.
-/

namespace Dawn

/-- The values of a frame's flag. -/
inductive FrameFlag where
  /-- `FRAME_NOT_EXIST`. -/
  | notExist
  /-- `FRAME_EXIST_TRUE`. -/
  | existTrue
  /-- `FRAME_EXIST_FALSE`. -/
  | existFalse
  deriving DecidableEq, Repr

/-- `ClockReplacer`, for a pool of `n` frames. -/
structure ClockReplacer (n : ℕ) where
  /-- `flags`. -/
  flags : Fin n → FrameFlag
  /-- `clock_pointer_`. -/
  clockPointer : Fin n
  /-- `exit_num`: how many frames are in the replacer. -/
  exitNum : ℤ

namespace ClockReplacer

variable {n : ℕ}

/-- `ClockReplacer(pool_size)`. -/
def new (n : ℕ) [NeZero n] : ClockReplacer n := ⟨fun _ => .notExist, 0, 0⟩

/-- `clock_pointer_to_next`. The addition is modulo the number of frames. -/
def clockPointerToNext [NeZero n] (r : ClockReplacer n) : ClockReplacer n :=
  { r with clockPointer := r.clockPointer + 1 }

/-- The flag of a frame is set. -/
def setFlag (r : ClockReplacer n) (frameId : Fin n) (flag : FrameFlag) : ClockReplacer n :=
  { r with flags := Function.update r.flags frameId flag }

/-- `pin`. -/
def pin (r : ClockReplacer n) (frameId : Fin n) : ClockReplacer n :=
  if r.flags frameId ≠ .notExist then { r.setFlag frameId .notExist with exitNum := r.exitNum - 1 }
  else r

/-- `unpin`. -/
def unpin (r : ClockReplacer n) (frameId : Fin n) : ClockReplacer n :=
  if r.flags frameId = .notExist then { r.setFlag frameId .existTrue with exitNum := r.exitNum + 1 }
  else r

/-- The loop of `victim` that turns the clock, for at most the given number of frames. -/
def turn [NeZero n] : ℕ → ClockReplacer n → Option (Fin n × ClockReplacer n)
  | 0, _ => none
  | k + 1, r =>
    match r.flags r.clockPointer with
    | .existFalse =>
      some (r.clockPointer, clockPointerToNext
        { r.setFlag r.clockPointer .notExist with exitNum := r.exitNum - 1 })
    | .existTrue => turn k (r.setFlag r.clockPointer .existFalse).clockPointerToNext
    | .notExist => turn k r.clockPointerToNext

/-- `victim`. It waits for a frame to come in, for which one thread alone waits forever. Two turns of
the clock find a frame if there is one (`turn_of_present`). -/
def victim [NeZero n] (r : ClockReplacer n) : Option (Fin n × ClockReplacer n) :=
  if 0 < r.exitNum then turn (2 * n) r else none

/-- `size`. -/
def size (r : ClockReplacer n) : ℤ := r.exitNum

/-! ## The frames in the replacer -/

/-- The frames in the replacer. -/
def present (r : ClockReplacer n) : Finset (Fin n) := {f | r.flags f ≠ .notExist}

@[simp] theorem mem_present {r : ClockReplacer n} {f : Fin n} : f ∈ r.present ↔ r.flags f ≠ .notExist := by
  simp [present]

/-- `exit_num` counts the frames in the replacer. -/
def Counted (r : ClockReplacer n) : Prop := r.exitNum = r.present.card

theorem counted_new [NeZero n] : Counted (new n) := by
  simp [Counted, present, new]

@[simp] theorem present_new [NeZero n] : (new n).present = ∅ := by
  simp [present, new]

theorem present_setFlag {r : ClockReplacer n} {f : Fin n} {flag : FrameFlag} (hf : f ∈ r.present)
    (hflag : flag ≠ .notExist) : (r.setFlag f flag).present = r.present := by
  ext g
  by_cases h : g = f <;> simp [setFlag, h, hflag, hf]

theorem present_setFlag_notExist (r : ClockReplacer n) (f : Fin n) :
    (r.setFlag f .notExist).present = r.present.erase f := by
  ext g
  by_cases h : g = f <;> simp [setFlag, h]

theorem present_setFlag_existTrue (r : ClockReplacer n) (f : Fin n) :
    (r.setFlag f .existTrue).present = insert f r.present := by
  ext g
  by_cases h : g = f <;> simp [setFlag, h]

theorem present_pin (r : ClockReplacer n) (f : Fin n) : (r.pin f).present = r.present.erase f := by
  unfold pin
  split_ifs with h
  · exact present_setFlag_notExist r f
  · rw [Finset.erase_eq_of_notMem (by simpa using h)]

theorem present_unpin (r : ClockReplacer n) (f : Fin n) : (r.unpin f).present = insert f r.present := by
  unfold unpin
  split_ifs with h
  · exact present_setFlag_existTrue r f
  · rw [Finset.insert_eq_of_mem (by simpa using h)]

theorem Counted.pin {r : ClockReplacer n} (h : r.Counted) (f : Fin n) : (r.pin f).Counted := by
  unfold Counted at h ⊢
  rw [present_pin]
  unfold ClockReplacer.pin
  split_ifs with hf
  · have hmem : f ∈ r.present := mem_present.mpr hf
    have := Finset.card_pos.mpr ⟨f, hmem⟩
    rw [Finset.card_erase_of_mem hmem, Nat.cast_pred this, ← h]
  · rw [Finset.erase_eq_of_notMem (by simpa using hf), h]

theorem Counted.unpin {r : ClockReplacer n} (h : r.Counted) (f : Fin n) : (r.unpin f).Counted := by
  unfold Counted at h ⊢
  rw [present_unpin]
  unfold ClockReplacer.unpin
  split_ifs with hf
  · rw [Finset.card_insert_of_notMem (by simpa using hf), Nat.cast_succ, ← h]
  · rw [Finset.insert_eq_of_mem (by simpa using hf), h]

/-! ## `victim` -/

section Victim

variable [NeZero n]

/-- How many frames the clock passes before it takes `t`, if it takes no other. -/
def wait (r : ClockReplacer n) (t : Fin n) : ℕ :=
  (t - r.clockPointer).val + if r.flags t = .existTrue then n else 0

theorem val_sub_next {t p : Fin n} (h : t ≠ p) : (t - (p + 1)).val + 1 = (t - p).val := by
  have hne : t - p ≠ 0 := sub_ne_zero.mpr h
  have hpos : 0 < (t - p).val := Nat.pos_of_ne_zero fun h0 => hne (Fin.val_eq_zero_iff.mp h0)
  rw [← sub_sub, Fin.val_sub_one_of_ne_zero hne]
  omega

theorem turn_of_present {r : ClockReplacer n} {t : Fin n} (ht : t ∈ r.present) {k : ℕ}
    (hk : r.wait t < k) : ∃ f r', turn k r = some (f, r') := by
  induction k generalizing r with
  | zero => omega
  | succ k ih =>
    rw [mem_present] at ht
    unfold wait at hk
    unfold turn
    -- Every frame that is passed brings the clock one step closer to `t`, and passing `t` itself
    -- clears its bit.
    cases hflag : r.flags r.clockPointer with
    | existFalse => exact ⟨_, _, rfl⟩
    | existTrue =>
      apply ih
      · by_cases h : t = r.clockPointer <;> simp [clockPointerToNext, setFlag, h, ht]
      · unfold wait
        by_cases h : t = r.clockPointer
        · have := (t - (r.clockPointer + 1)).isLt
          simp only [h, hflag, if_true] at hk
          simp only [clockPointerToNext, setFlag, h, Function.update_self, reduceCtorEq, if_false]
          omega
        · have := val_sub_next h
          simp only [clockPointerToNext, setFlag, Function.update_of_ne h]
          split_ifs at hk ⊢ <;> omega
    | notExist =>
      have h : t ≠ r.clockPointer := fun h => ht (h ▸ hflag)
      apply ih
      · simpa [clockPointerToNext] using ht
      · have := val_sub_next h
        change (t - (r.clockPointer + 1)).val + (if r.flags t = .existTrue then n else 0) < k
        omega

theorem turn_spec {k : ℕ} {r r' : ClockReplacer n} {f : Fin n} (h : turn k r = some (f, r')) :
    f ∈ r.present ∧ r'.present = r.present.erase f ∧ r'.exitNum = r.exitNum - 1 := by
  induction k generalizing r with
  | zero => simp [turn] at h
  | succ k ih =>
    unfold turn at h
    cases hflag : r.flags r.clockPointer with
    | existFalse =>
      simp only [hflag, Option.some.injEq, Prod.mk.injEq] at h
      obtain ⟨rfl, rfl⟩ := h
      exact ⟨by simp [hflag], present_setFlag_notExist _ _, rfl⟩
    | existTrue =>
      simp only [hflag] at h
      have hkeep : (r.setFlag r.clockPointer .existFalse).clockPointerToNext.present = r.present :=
        present_setFlag (by simp [hflag]) (by simp)
      rw [← hkeep]
      exact ih h
    | notExist =>
      simp only [hflag] at h
      have hkeep : r.clockPointerToNext.present = r.present := rfl
      rw [← hkeep]
      exact ih h

theorem victim_of_present {r : ClockReplacer n} (hc : r.Counted) (hne : r.present.Nonempty) :
    ∃ f r', r.victim = some (f, r') := by
  obtain ⟨t, ht⟩ := hne
  have hpos : 0 < r.exitNum := by
    rw [hc]
    exact_mod_cast Finset.card_pos.mpr ⟨t, ht⟩
  have hwait : r.wait t < 2 * n := by
    unfold wait
    split_ifs <;> omega
  unfold victim
  rw [if_pos hpos]
  exact turn_of_present ht hwait

theorem victim_spec {r r' : ClockReplacer n} {f : Fin n} (hc : r.Counted) (h : r.victim = some (f, r')) :
    f ∈ r.present ∧ r'.present = r.present.erase f ∧ r'.Counted := by
  unfold victim at h
  split_ifs at h
  obtain ⟨hf, hpresent, hnum⟩ := turn_spec h
  refine ⟨hf, hpresent, ?_⟩
  have := Finset.card_pos.mpr ⟨f, hf⟩
  unfold Counted at hc ⊢
  rw [hnum, hpresent, Finset.card_erase_of_mem hf, Nat.cast_pred this, hc]

end Victim

end ClockReplacer

end Dawn
