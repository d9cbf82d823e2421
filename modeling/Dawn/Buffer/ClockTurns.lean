import Dawn.Buffer.ClockReplacer
import Dawn.Lib.Trace

/-!
# Which frame the clock takes

`victim` of `ClockReplacer` passes frames until it comes to one whose reference bit is not set, and clears
the bits of the frames that it passes. A frame without its bit is taken before the clock has come round
(`turn_of_clear`); if every bit is set, one round clears them all and the first frame of the second round is
taken (`exists_evicts`). In every run of calls the counter is right, so that `victim` finds a frame
whenever `size()` is not zero (`clock_replacement`).
-/

namespace Dawn.ClockReplacer

variable {n : ℕ}

/-! ## Passing frames -/

/-- What the clock does to the flag of a frame that it passes. -/
def passFlag : FrameFlag → FrameFlag
  | .existTrue => .existFalse
  | flag => flag

@[simp] theorem passFlag_eq_notExist {flag : FrameFlag} : passFlag flag = .notExist ↔ flag = .notExist := by
  cases flag <;> simp [passFlag]

theorem passFlag_eq_existFalse {flag : FrameFlag} (h : flag ≠ .notExist) : passFlag flag = .existFalse := by
  cases flag <;> simp_all [passFlag]

/-- How many frames the clock passes before it comes to a frame. -/
def ahead (r : ClockReplacer n) (f : Fin n) : ℕ := (f - r.clockPointer).val

theorem ahead_lt (r : ClockReplacer n) (f : Fin n) : r.ahead f < n := (f - r.clockPointer).isLt

variable [NeZero n]

/-- The replacer after the clock has passed `d` frames. -/
def passed (r : ClockReplacer n) (d : ℕ) : ClockReplacer n where
  flags f := if r.ahead f < d then passFlag (r.flags f) else r.flags f
  clockPointer := r.clockPointer + Fin.ofNat n d
  exitNum := r.exitNum

theorem ahead_eq_zero {r : ClockReplacer n} {f : Fin n} : r.ahead f = 0 ↔ f = r.clockPointer := by
  rw [ahead, Fin.val_eq_zero_iff, sub_eq_zero]

@[simp] theorem passed_zero (r : ClockReplacer n) : r.passed 0 = r := by
  simp [passed]

theorem turn_succ_of_ne {r : ClockReplacer n} (h : r.flags r.clockPointer ≠ .existFalse) (k : ℕ) :
    turn (k + 1) r = turn k (r.passed 1) := by
  have hpassed : r.passed 1 =
      (r.setFlag r.clockPointer (passFlag (r.flags r.clockPointer))).clockPointerToNext := by
    have h1 : Fin.ofNat n 1 = 1 := rfl
    simp only [passed, clockPointerToNext, setFlag, h1, mk.injEq, and_true]
    funext f
    by_cases hf : f = r.clockPointer
    · simp [ahead_eq_zero, hf]
    · simp [ahead_eq_zero, hf]
  rw [hpassed]
  cases hflag : r.flags r.clockPointer with
  | existFalse => exact absurd hflag h
  | existTrue => simp [turn, hflag, passFlag]
  | notExist =>
    have hsame : r.setFlag r.clockPointer .notExist = r := by simp [setFlag, ← hflag]
    simp [turn, hflag, passFlag, hsame]

theorem val_neg_one : (-1 : Fin n).val = n - 1 := by
  obtain ⟨m, rfl⟩ := Nat.exists_eq_succ_of_ne_zero (NeZero.ne n)
  exact Fin.coe_neg_one

theorem ahead_passed_one (r : ClockReplacer n) (f : Fin n) :
    (r.passed 1).ahead f = if f = r.clockPointer then n - 1 else r.ahead f - 1 := by
  have h1 : (r.passed 1).ahead f = (f - (r.clockPointer + 1)).val := rfl
  rw [h1]
  split_ifs with hf
  · rw [hf, sub_add_cancel_left, val_neg_one]
  · have := val_sub_next hf
    rw [ahead]
    omega

theorem passed_one_passed (r : ClockReplacer n) {d : ℕ} (hd : d < n) : (r.passed 1).passed d = r.passed (d + 1) := by
  have hpointer : r.clockPointer + 1 + Fin.ofNat n d = r.clockPointer + Fin.ofNat n (d + 1) := by
    apply Fin.ext
    simp [Fin.val_add, add_comm, add_left_comm]
  have hflags : ∀ f, ((r.passed 1).passed d).flags f = (r.passed (d + 1)).flags f := by
    intro f
    change (if (r.passed 1).ahead f < d then passFlag (if r.ahead f < 1 then _ else _)
      else if r.ahead f < 1 then _ else _) = if r.ahead f < d + 1 then _ else _
    rw [ahead_passed_one]
    by_cases hf : f = r.clockPointer
    · -- The first frame is the last one of the round that begins behind it.
      have h0 := ahead_eq_zero.mpr hf
      rw [if_pos hf, if_neg (by omega), if_pos (by omega), if_pos (by omega)]
    · have h0 := mt ahead_eq_zero.mp hf
      rw [if_neg hf, if_neg (show ¬ r.ahead f < 1 by omega)]
      by_cases h1 : r.ahead f < d + 1
      · rw [if_pos (by omega), if_pos h1]
      · rw [if_neg (by omega), if_neg h1]
  simp only [passed] at hflags ⊢
  simp only [mk.injEq, and_true]
  exact ⟨funext hflags, hpointer⟩

theorem turn_passed {r : ClockReplacer n} {d : ℕ} (hd : d ≤ n)
    (h : ∀ f, r.ahead f < d → r.flags f ≠ .existFalse) (k : ℕ) : turn (d + k) r = turn k (r.passed d) := by
  induction d generalizing r with
  | zero => simp
  | succ d ih =>
    have hfirst : r.flags r.clockPointer ≠ .existFalse := h _ (by simp [ahead])
    rw [show d + 1 + k = d + k + 1 by omega, turn_succ_of_ne hfirst, ih (by omega), passed_one_passed r (by omega)]
    intro f hf
    rw [ahead_passed_one] at hf
    split_ifs at hf with hp
    · omega
    · have h1 := mt ahead_eq_zero.mp hp
      simp only [passed, if_neg (show ¬ r.ahead f < 1 by omega)]
      exact h f (by omega)

/-! ## Taking a frame -/

/-- The clock takes the frame that it is at. -/
def take (r : ClockReplacer n) (f : Fin n) : ClockReplacer n :=
  clockPointerToNext { r.setFlag f .notExist with exitNum := r.exitNum - 1 }

theorem clockPointer_passed_ahead (r : ClockReplacer n) (f : Fin n) : (r.passed (r.ahead f)).clockPointer = f := by
  simp [passed, ahead]

theorem turn_of_clear {r : ClockReplacer n} {f : Fin n} (hf : r.flags f = .existFalse)
    (hfirst : ∀ g, r.ahead g < r.ahead f → r.flags g ≠ .existFalse) {k : ℕ} (hk : r.ahead f < k) :
    turn k r = some (f, (r.passed (r.ahead f)).take f) := by
  obtain ⟨j, rfl⟩ : ∃ j, k = r.ahead f + (j + 1) := ⟨k - r.ahead f - 1, by omega⟩
  have hpointer := clockPointer_passed_ahead r f
  have hflag : (r.passed (r.ahead f)).flags f = .existFalse := by simp [passed, hf]
  rw [turn_passed (r.ahead_lt f).le hfirst]
  simp [turn, hpointer, hflag, take]

omit [NeZero n] in
theorem exists_first (r : ClockReplacer n) {P : Fin n → Prop} {g : Fin n} (hg : P g) :
    ∃ f, P f ∧ ∀ h, r.ahead h < r.ahead f → ¬ P h := by
  classical
  obtain ⟨f, hf, hmin⟩ := Finset.exists_min_image (Finset.univ.filter P) r.ahead ⟨g, by simpa using hg⟩
  refine ⟨f, by simpa using hf, fun h hlt hP => ?_⟩
  exact absurd (hmin h (by simpa using hP)) (by omega)

/-- The clock passes a frame before it takes `f`: it comes to it first, or it goes round once because every
bit is set. -/
def Passes (r : ClockReplacer n) (f g : Fin n) : Prop :=
  r.ahead g < r.ahead f ∨ ∀ h, r.flags h ≠ .existFalse

/-- What `victim` is to do: it takes the first frame whose bit is not set, or the first frame if every bit is
set, and clears the bits of the frames that it passes. -/
structure Evicts (r : ClockReplacer n) (f : Fin n) (r' : ClockReplacer n) : Prop where
  /-- The frame is there, so it is not pinned. -/
  mem : f ∈ r.present
  /-- It alone is taken out. -/
  present_eq : r'.present = r.present.erase f
  /-- If a frame's bit is not set, then the frame is the first such one. -/
  first_clear : (∃ g, r.flags g = .existFalse) →
    r.flags f = .existFalse ∧ ∀ g, r.ahead g < r.ahead f → r.flags g ≠ .existFalse
  /-- Otherwise it is the first one. -/
  first_present : (¬ ∃ g, r.flags g = .existFalse) → ∀ g, r.ahead g < r.ahead f → g ∉ r.present
  /-- The bits of the frames that are passed are cleared. -/
  cleared : ∀ g ∈ r.present, g ≠ f → r.Passes f g → r'.flags g = .existFalse
  /-- The other frames are left alone. -/
  untouched : ∀ g ≠ f, ¬ r.Passes f g → r'.flags g = r.flags g
  /-- There is one frame less. -/
  exitNum_eq : r'.exitNum = r.exitNum - 1
  /-- The clock goes on behind the frame. -/
  clockPointer_eq : r'.clockPointer = f + 1

theorem flags_take_of_ne {r : ClockReplacer n} {f g : Fin n} (h : g ≠ f) : (r.take f).flags g = r.flags g := by
  simp [take, clockPointerToNext, setFlag, h]

theorem present_take (r : ClockReplacer n) (f : Fin n) : (r.take f).present = r.present.erase f :=
  present_setFlag_notExist r f

theorem present_passed (r : ClockReplacer n) (d : ℕ) : (r.passed d).present = r.present := by
  ext g
  simp only [mem_present, passed]
  split_ifs <;> simp

theorem passed_round (r : ClockReplacer n) : r.passed n = { r with flags := fun f => passFlag (r.flags f) } := by
  simp [passed, r.ahead_lt]

theorem exists_evicts {r : ClockReplacer n} (hne : r.present.Nonempty) :
    ∃ f r', (∀ k, 2 * n ≤ k → turn k r = some (f, r')) ∧ Evicts r f r' := by
  obtain ⟨t, ht⟩ := hne
  by_cases hclear : ∃ g, r.flags g = .existFalse
  · obtain ⟨g, hg⟩ := hclear
    obtain ⟨f, hf, hfirst⟩ := r.exists_first (P := fun g => r.flags g = .existFalse) hg
    have hlt := r.ahead_lt f
    have hpasses : ∀ g, r.Passes f g ↔ r.ahead g < r.ahead f := fun g =>
      or_iff_left fun hno => hno f hf
    refine ⟨f, _, fun k hk => turn_of_clear hf hfirst (by omega), ?_⟩
    refine ⟨by simp [hf], ?_, fun _ => ⟨hf, hfirst⟩, fun hno => absurd ⟨f, hf⟩ hno, ?_, ?_, rfl, ?_⟩
    · rw [present_take, present_passed]
    · intro g hg hgf hp
      rw [flags_take_of_ne hgf, passed]
      simp only [if_pos ((hpasses g).mp hp)]
      exact passFlag_eq_existFalse (mem_present.mp hg)
    · intro g hgf hp
      rw [flags_take_of_ne hgf, passed]
      simp only [if_neg (mt (hpasses g).mpr hp)]
    · exact congrArg (· + 1) (clockPointer_passed_ahead r f)
  · -- Every bit is set. The first round clears them, and the second takes the first frame.
    have hset : ∀ g, r.flags g ≠ .existFalse := fun g hg => hclear ⟨g, hg⟩
    obtain ⟨f, hf, hfirst⟩ := r.exists_first (P := fun g => g ∈ r.present) ht
    have hlt := r.ahead_lt f
    have hahead : ∀ g, (r.passed n).ahead g = r.ahead g := fun g => by rw [passed_round]; rfl
    have hflag : ∀ g ∈ r.present, (r.passed n).flags g = .existFalse := fun g hg => by
      rw [passed_round]
      exact passFlag_eq_existFalse (mem_present.mp hg)
    have hfirst' : ∀ g, (r.passed n).ahead g < (r.passed n).ahead f → (r.passed n).flags g ≠ .existFalse := by
      intro g hg he
      rw [hahead, hahead] at hg
      refine hfirst g hg ?_
      rw [← present_passed r n, mem_present, he]
      simp
    refine ⟨f, ((r.passed n).passed ((r.passed n).ahead f)).take f, fun k hk => ?_, ?_⟩
    · rw [show k = n + (k - n) by omega, turn_passed le_rfl fun g _ => hset g]
      exact turn_of_clear (hflag f hf) hfirst' (by rw [hahead]; omega)
    · refine ⟨hf, ?_, fun he => absurd he hclear, fun _ => hfirst, ?_, ?_, rfl, ?_⟩
      · rw [present_take, present_passed, present_passed]
      · intro g hg hgf _
        rw [flags_take_of_ne hgf]
        simp only [passed.eq_1 (r.passed n), hflag g hg, passFlag, ite_self]
      · intro g _ hp
        exact absurd (Or.inr hset) hp
      · exact congrArg (· + 1) (clockPointer_passed_ahead _ f)

/-! ## Runs -/

/-- The calls of the replacer. -/
inductive Call (n : ℕ) where
  /-- `pin` -/
  | pin (frameId : Fin n)
  /-- `unpin` -/
  | unpin (frameId : Fin n)
  /-- `victim` -/
  | victim

/-- One call, with the frame that it returns. `victim` is called only when there is a frame. -/
def Step (r : ClockReplacer n) (l : Call n × Option (Fin n)) (r' : ClockReplacer n) : Prop :=
  match l with
  | (.pin f, none) => r' = r.pin f
  | (.unpin f, none) => r' = r.unpin f
  | (.victim, some f) => 0 < r.size ∧ r.victim = some (f, r')
  | _ => False

theorem Counted.step {r r' : ClockReplacer n} {l : Call n × Option (Fin n)} (h : r.Counted)
    (hstep : r.Step l r') : r'.Counted := by
  obtain ⟨c, ret⟩ := l
  cases c with
  | pin f =>
    cases ret with
    | none =>
      obtain rfl : r' = r.pin f := hstep
      exact h.pin f
    | some _ => exact absurd hstep id
  | unpin f =>
    cases ret with
    | none =>
      obtain rfl : r' = r.unpin f := hstep
      exact h.unpin f
    | some _ => exact absurd hstep id
  | victim =>
    cases ret with
    | none => exact absurd hstep id
    | some f => exact (victim_spec h hstep.2).2.2

/-- The frames that are pinned after a call. `victim` pins nothing. -/
def pinnedBy (pinned : Finset (Fin n)) : Call n × Option (Fin n) → Finset (Fin n)
  | (.pin f, _) => insert f pinned
  | (.unpin f, _) => pinned.erase f
  | (.victim, _) => pinned

/-- The frames that have not been unpinned since they were last pinned, or ever. -/
def pinnedAfter (ls : List (Call n × Option (Fin n))) : Finset (Fin n) := ls.foldl pinnedBy Finset.univ

/-- A call keeps the pinned frames out of the replacer: `pin` takes its frame out. -/
theorem disjoint_step {r r' : ClockReplacer n} {l : Call n × Option (Fin n)} {pinned : Finset (Fin n)}
    (hc : r.Counted) (h : Disjoint pinned r.present) (hstep : r.Step l r') :
    Disjoint (pinnedBy pinned l) r'.present := by
  obtain ⟨c, ret⟩ := l
  cases c with
  | pin f =>
    cases ret with
    | none =>
      obtain rfl : r' = r.pin f := hstep
      rw [present_pin, pinnedBy, Finset.disjoint_insert_left]
      exact ⟨Finset.notMem_erase f _, h.mono_right (Finset.erase_subset f _)⟩
    | some _ => exact absurd hstep id
  | unpin f =>
    cases ret with
    | none =>
      obtain rfl : r' = r.unpin f := hstep
      rw [present_unpin, pinnedBy, Finset.disjoint_insert_right]
      exact ⟨Finset.notMem_erase f _, h.mono_left (Finset.erase_subset f _)⟩
    | some _ => exact absurd hstep id
  | victim =>
    cases ret with
    | none => exact absurd hstep id
    | some f =>
      rw [(victim_spec hc hstep.2).2.1]
      exact h.mono_right (Finset.erase_subset f _)

theorem disjoint_run {r r' : ClockReplacer n} {ls : List (Call n × Option (Fin n))}
    {pinned : Finset (Fin n)} (htrace : Trace Step r ls r') (hc : r.Counted)
    (h : Disjoint pinned r.present) : Disjoint (ls.foldl pinnedBy pinned) r'.present := by
  induction htrace generalizing pinned with
  | nil => exact h
  | cons hstep _ ih => exact ih (hc.step hstep) (disjoint_step hc h hstep)

/-- In every run the counter is the number of frames, and while it is not zero `victim` takes the frame that
it should within two rounds of the clock. A frame that has not been unpinned since it was pinned is not in the
replacer, and `victim` does not return it. -/
theorem clock_replacement {r : ClockReplacer n} {ls : List (Call n × Option (Fin n))}
    (htrace : Trace Step (new n) ls r) :
    r.exitNum = r.present.card ∧
    (0 < r.size → ∃ f r', r.victim = some (f, r') ∧ (∀ k, 2 * n ≤ k → turn k r = some (f, r')) ∧
      Evicts r f r') ∧
    ∀ f ∈ pinnedAfter ls, f ∉ r.present ∧ ∀ r', r.victim ≠ some (f, r') := by
  have hc : r.Counted := htrace.invariant (fun _ _ _ h hstep => Counted.step h hstep) counted_new
  refine ⟨hc, fun hsize => ?_, fun f hf => ?_⟩
  · have hne : r.present.Nonempty := by
      rw [← Finset.card_pos]
      rw [size, hc] at hsize
      exact_mod_cast hsize
    obtain ⟨f, r', hturn, hevicts⟩ := exists_evicts hne
    exact ⟨f, r', by rw [victim, if_pos (show 0 < r.exitNum from hsize), hturn _ le_rfl], hturn, hevicts⟩
  · have hout : f ∉ r.present :=
      Finset.disjoint_left.mp (disjoint_run htrace counted_new (by simp)) hf
    exact ⟨hout, fun r' hv => hout (victim_spec hc hv).1⟩

/-- Two frames come in and the first one is pinned again, so the second one goes. -/
theorem clock_replacement_two : ∃ r r' : ClockReplacer 2,
    Trace Step (new 2) [(.unpin 0, none), (.unpin 1, none), (.pin 0, none)] r ∧
    r.exitNum = r.present.card ∧ r.victim = some (1, r') ∧ Evicts r 1 r' ∧
    0 ∈ pinnedAfter (n := 2) [(.unpin 0, none), (.unpin 1, none), (.pin 0, none)] ∧ 0 ∉ r.present := by
  have htrace : Trace Step (new 2) [(.unpin 0, none), (.unpin 1, none), (.pin 0, none)]
      ((((new 2).unpin 0).unpin 1).pin 0) := .cons rfl (.cons rfl (.single rfl))
  obtain ⟨hnum, hvictim, hpinned⟩ := clock_replacement htrace
  obtain ⟨f, r', hv, -, he⟩ := hvictim (by decide)
  have hf : f = 1 := by
    have h1 : ((((new 2).unpin 0).unpin 1).pin 0).victim.map Prod.fst = some (1 : Fin 2) := by decide
    rw [hv] at h1
    simpa using h1
  subst hf
  have h0 : 0 ∈ pinnedAfter (n := 2) [(.unpin 0, none), (.unpin 1, none), (.pin 0, none)] := by decide
  exact ⟨_, r', htrace, hnum, hv, he, h0, (hpinned 0 h0).1⟩

end Dawn.ClockReplacer
