import Dawn.Lib.Counts
import Dawn.Lib.Returns
import Dawn.Lib.Trace
import Dawn.Util.RwLatch

/-!
# The reader-writer latch, for any number of threads

`ReaderWriterLatch` of `src/include/util/rwlatch.h` as its threads run it. A step is one section under `mutex_`: from
where a call acquires it, or a wait on a condition variable comes back with it, to where the call returns or waits. A
waiting thread may come back at any time, so the notifications need not be followed. A writer first claims the latch and
then waits for the readers to leave; the invariant `Latched` covers both, and says what the two members of the latch
count.
-/

namespace Dawn

/-- Where a thread is between two sections. -/
inductive LatchPc
  /-- In no call. -/
  | outside
  /-- In `w_lock`, waiting on `reader_` for another writer. -/
  | waitsForWriter
  /-- In `w_lock`, with `writer_entered_` set, waiting on `writer_` for the readers to leave. -/
  | waitsForReaders
  /-- In `r_lock`, waiting on `reader_`. -/
  | waitsToRead
  deriving DecidableEq, Repr

/-- A thread: where it is, and what it holds. -/
structure LatchThread where
  pc : LatchPc := .outside
  /-- It holds the write latch. -/
  writes : Bool := false
  /-- How many times it holds the read latch. -/
  reads : ℕ := 0
  deriving DecidableEq, Repr

/-- The sections of a thread. -/
inductive LatchSection
  /-- `w_lock` begins. -/
  | wLock
  /-- `w_unlock`. -/
  | wUnlock
  /-- `r_lock` begins. -/
  | rLock
  /-- `r_unlock`. -/
  | rUnlock
  /-- The wait that the thread is in comes back, for whatever reason. -/
  | wake
  deriving DecidableEq, Repr

namespace Latch

/-- The second loop of `w_lock`. -/
def awaitReaders (l : Latch) (me : LatchThread) : Latch × LatchThread :=
  if 0 < l.readerCount then (l, { me with pc := .waitsForReaders })
  else (l, { me with pc := .outside, writes := true })

/-- The first loop of `w_lock`, and what follows it. -/
def awaitWriter (l : Latch) (me : LatchThread) : Latch × LatchThread :=
  if l.writerEntered then (l, { me with pc := .waitsForWriter })
  else awaitReaders { l with writerEntered := true } me

/-- The loop of `r_lock`, and what follows it. -/
def awaitRead (l : Latch) (me : LatchThread) : Latch × LatchThread :=
  match l.rLock with
  | some l' => (l', { me with pc := .outside, reads := me.reads + 1 })
  | none => (l, { me with pc := .waitsToRead })

/-- One section of a thread. A thread releases only what it holds. -/
def exec (l : Latch) (me : LatchThread) : LatchSection → Option (Latch × LatchThread)
  | .wLock => if me.pc = .outside then some (l.awaitWriter me) else none
  | .wUnlock =>
    if me.pc = .outside ∧ me.writes then some (l.wUnlock, { me with writes := false }) else none
  | .rLock => if me.pc = .outside then some (l.awaitRead me) else none
  | .rUnlock =>
    if me.pc = .outside ∧ 0 < me.reads then some (l.rUnlock, { me with reads := me.reads - 1 }) else none
  | .wake =>
    match me.pc with
    | .outside => none
    | .waitsForWriter => some (l.awaitWriter me)
    | .waitsForReaders => some (l.awaitReaders me)
    | .waitsToRead => some (l.awaitRead me)

end Latch

/-- A latch and the threads `θ` that use it. -/
structure LatchThreads (θ : Type) where
  latch : Latch := {}
  thread : θ → LatchThread := fun _ => {}

namespace LatchThreads

variable {θ : Type} [DecidableEq θ]

/-- One section of one thread. -/
def step (s : LatchThreads θ) (l : θ × LatchSection) : Option (LatchThreads θ) :=
  (s.latch.exec (s.thread l.1) l.2).map fun r => ⟨r.1, Function.update s.thread l.1 r.2⟩

/-- A run of the threads. -/
abbrev Run (s : LatchThreads θ) (ls : List (θ × LatchSection)) (s' : LatchThreads θ) : Prop :=
  Trace (fun s l s' => s.step l = some s') s ls s'

/-- A thread holds the write latch or is committed to acquiring it. -/
def Claims (me : LatchThread) : Prop := me.writes = true ∨ me.pc = .waitsForReaders

instance (me : LatchThread) : Decidable (Claims me) :=
  inferInstanceAs (Decidable (me.writes = true ∨ me.pc = .waitsForReaders))

/-- What a thread contributes to `writer_entered_`. -/
def claims (me : LatchThread) : ℕ := if Claims me then 1 else 0

/-- `writer_entered_` as a number. -/
def entered (l : Latch) : ℕ := l.writerEntered.toNat

/-! ## One section -/

/-- What a section does, for a thread whose own holds are counted by the latch. -/
structure SectionSpec (l : Latch) (me : LatchThread) (l' : Latch) (me' : LatchThread) : Prop where
  /-- `reader_count_` follows the read latches that the thread holds. -/
  reads : l'.readerCount + me.reads = l.readerCount + me'.reads
  /-- `writer_entered_` follows the thread's claim. -/
  claims : entered l' + claims me = entered l + claims me'
  /-- `reader_count_` does not overflow. -/
  room : l'.readerCount ≤ Latch.maxReaders
  /-- No reader comes in while a writer has claimed the latch. -/
  closed : l.writerEntered = true → l'.readerCount ≤ l.readerCount
  /-- A thread that writes has waited for the readers. -/
  drained : me'.writes = true → l'.readerCount = 0

section Sections

variable {l : Latch} {me : LatchThread}

theorem awaitReaders_spec (hdrained : me.writes = true → l.readerCount = 0) :
    (l.awaitReaders me).1 = l ∧ (l.awaitReaders me).2.reads = me.reads ∧
    claims (l.awaitReaders me).2 = 1 ∧ ((l.awaitReaders me).2.writes = true → l.readerCount = 0) := by
  unfold Latch.awaitReaders
  split
  · exact ⟨rfl, rfl, by simp [claims, Claims], hdrained⟩
  · next h => exact ⟨rfl, rfl, by simp [claims, Claims], fun _ => Nat.eq_zero_of_not_pos h⟩

variable (hroom : l.readerCount ≤ Latch.maxReaders) (hclaims : claims me ≤ entered l)
  (hdrained : me.writes = true → l.readerCount = 0)

include hroom hdrained in
theorem awaitReaders_section (hpc : me.pc = .waitsForReaders) :
    SectionSpec l me (l.awaitReaders me).1 (l.awaitReaders me).2 := by
  obtain ⟨hl, hreads, hone, hdr⟩ := awaitReaders_spec hdrained
  have hself : claims me = 1 := by simp [claims, Claims, hpc]
  rw [hl]
  exact ⟨by rw [hreads], by rw [hone, hself], hroom, fun _ => le_rfl, hdr⟩

include hroom hclaims hdrained in
theorem awaitWriter_section (hpc : me.pc ≠ .waitsForReaders) :
    SectionSpec l me (l.awaitWriter me).1 (l.awaitWriter me).2 := by
  unfold Latch.awaitWriter
  split
  · refine ⟨rfl, ?_, hroom, fun _ => le_rfl, hdrained⟩
    simp [claims, Claims, hpc]
  · next hentered =>
    -- Nobody has a claim, so this thread has none, and now it has the only one.
    obtain ⟨hl, hreads, hone, hdr⟩ := awaitReaders_spec (l := { l with writerEntered := true }) hdrained
    have hzero : entered l = 0 := by simpa [entered] using hentered
    rw [hl]
    refine ⟨by rw [hreads], ?_, hroom, fun _ => le_rfl, hdr⟩
    rw [hzero, Nat.le_zero] at hclaims
    rw [hone, hzero, hclaims]
    rfl

include hroom hclaims hdrained in
theorem awaitRead_section (hpc : me.pc ≠ .waitsForReaders) :
    SectionSpec l me (l.awaitRead me).1 (l.awaitRead me).2 := by
  unfold Latch.awaitRead Latch.rLock
  by_cases hwait : l.writerEntered = true ∨ l.readerCount = Latch.maxReaders
  · rw [if_pos hwait]
    refine ⟨rfl, ?_, hroom, fun _ => le_rfl, hdrained⟩
    simp [claims, Claims, hpc]
  · rw [if_neg hwait]
    obtain ⟨hentered, hmax⟩ := not_or.mp hwait
    have hnone : claims me = 0 := by simpa [entered, hentered] using hclaims
    have hwrites : me.writes ≠ true := fun h => by simp [claims, Claims, h] at hnone
    refine ⟨?_, ?_, ?_, fun h => absurd h hentered, fun h => absurd h hwrites⟩
    · simp only
      omega
    · simp [entered, claims, Claims, hpc]
    · exact lt_of_le_of_ne hroom hmax

include hroom hclaims hdrained in
theorem exec_section {sec : LatchSection} {l' : Latch} {me' : LatchThread}
    (hreads : me.reads ≤ l.readerCount) (h : l.exec me sec = some (l', me')) : SectionSpec l me l' me' := by
  cases sec with
  | wLock =>
    simp only [Latch.exec] at h
    split at h
    · next hpc =>
      obtain ⟨rfl, rfl⟩ := some_mk_inj h
      exact awaitWriter_section hroom hclaims hdrained (by simp [hpc])
    · cases h
  | wUnlock =>
    simp only [Latch.exec] at h
    split at h
    · next hheld =>
      obtain ⟨rfl, rfl⟩ := some_mk_inj h
      obtain ⟨hpc, hw⟩ := hheld
      refine ⟨rfl, ?_, hroom, fun _ => le_rfl, fun h => absurd h (by simp)⟩
      have hone : claims me = 1 := by simp [claims, Claims, hw]
      have hle : entered l ≤ 1 := Bool.toNat_le l.writerEntered
      have hout : claims { me with writes := false } = 0 := by simp [claims, Claims, hpc]
      simp only [Latch.wUnlock, entered, Bool.toNat_false] at hclaims hle ⊢
      omega
    · cases h
  | rLock =>
    simp only [Latch.exec] at h
    split at h
    · next hpc =>
      obtain ⟨rfl, rfl⟩ := some_mk_inj h
      exact awaitRead_section hroom hclaims hdrained (by simp [hpc])
    · cases h
  | rUnlock =>
    simp only [Latch.exec] at h
    split at h
    · next hheld =>
      obtain ⟨rfl, rfl⟩ := some_mk_inj h
      refine ⟨?_, rfl, ?_, fun _ => ?_, fun hw => ?_⟩
      · simp only [Latch.rUnlock]
        omega
      · exact (Nat.sub_le _ _).trans hroom
      · exact Nat.sub_le _ _
      · simp [Latch.rUnlock, hdrained hw]
    · cases h
  | wake =>
    simp only [Latch.exec] at h
    split at h
    · cases h
    · next hpc =>
      obtain ⟨rfl, rfl⟩ := some_mk_inj h
      exact awaitWriter_section hroom hclaims hdrained (by simp [hpc])
    · next hpc =>
      obtain ⟨rfl, rfl⟩ := some_mk_inj h
      exact awaitReaders_section hroom hdrained hpc
    · next hpc =>
      obtain ⟨rfl, rfl⟩ := some_mk_inj h
      exact awaitRead_section hroom hclaims hdrained (by simp [hpc])

end Sections

/-! ## Whole runs -/

variable [Fintype θ]

/-- What the latch counts. -/
structure Latched (s : LatchThreads θ) : Prop where
  /-- `reader_count_` is the number of read latches that are held. -/
  reads : s.latch.readerCount = ∑ t, (s.thread t).reads
  /-- `writer_entered_` is the number of threads that hold the write latch or are committed to acquiring it. -/
  claims : entered s.latch = ∑ t, LatchThreads.claims (s.thread t)
  /-- `reader_count_` does not overflow. -/
  room : s.latch.readerCount ≤ Latch.maxReaders
  /-- Nobody reads while a thread writes. -/
  drained : ∀ t, (s.thread t).writes = true → s.latch.readerCount = 0

namespace Latched

variable {s s' : LatchThreads θ}

omit [DecidableEq θ] in
theorem init : Latched ({} : LatchThreads θ) where
  reads := by simp
  claims := by simp [LatchThreads.claims, Claims, entered]
  room := Nat.zero_le _
  drained := by simp

omit [DecidableEq θ] in
theorem reads_le (h : s.Latched) (t : θ) : (s.thread t).reads ≤ s.latch.readerCount :=
  h.reads ▸ le_sum (fun t => (s.thread t).reads) t

omit [DecidableEq θ] in
theorem claims_le (h : s.Latched) (t : θ) : LatchThreads.claims (s.thread t) ≤ entered s.latch :=
  h.claims ▸ le_sum (fun t => LatchThreads.claims (s.thread t)) t

omit [DecidableEq θ] in
theorem entered_of_claims (h : s.Latched) {t : θ} (hc : Claims (s.thread t)) : s.latch.writerEntered = true := by
  have hle := h.claims_le t
  rw [LatchThreads.claims, if_pos hc] at hle
  cases hw : s.latch.writerEntered
  · simp [entered, hw] at hle
  · rfl

theorem step (h : s.Latched) {l : θ × LatchSection} (hs : s.step l = some s') : s'.Latched := by
  obtain ⟨t, sec⟩ := l
  obtain ⟨⟨l', me'⟩, he, rfl⟩ := Option.map_eq_some_iff.mp hs
  have hspec := exec_section h.room (h.claims_le t) (h.drained t) (h.reads_le t) he
  refine ⟨?_, ?_, hspec.room, fun u hu => ?_⟩
  · have hsum := sum_update s.thread LatchThread.reads t me'
    have hold := h.reads
    have hnew := hspec.reads
    dsimp only at hsum hold hnew ⊢
    omega
  · have hsum := sum_update s.thread LatchThreads.claims t me'
    have hold := h.claims
    have hnew := hspec.claims
    dsimp only at hsum hold hnew ⊢
    omega
  · obtain rfl | hne := eq_or_ne u t
    · exact hspec.drained (by simpa using hu)
    · -- Another thread writes, and so no reader can have come in.
      have hw : (s.thread u).writes = true := by simpa [hne] using hu
      have hclosed := hspec.closed (h.entered_of_claims (.inl hw))
      rw [h.drained u hw] at hclosed
      exact Nat.le_zero.mp hclosed

theorem run {ls : List (θ × LatchSection)} (hr : Run {} ls s) : s.Latched :=
  hr.invariant (fun _ _ _ h hs => h.step hs) init

theorem claims_unique (h : s.Latched) {t u : θ} (ht : Claims (s.thread t)) (hu : Claims (s.thread u)) : t = u := by
  have hle : ∑ t, LatchThreads.claims (s.thread t) ≤ 1 := h.claims ▸ Bool.toNat_le s.latch.writerEntered
  refine eq_of_sum_le_one hle ?_ ?_
  · simp [LatchThreads.claims, ht]
  · simp [LatchThreads.claims, hu]

theorem entered_iff (h : s.Latched) : s.latch.writerEntered = true ↔ ∃! t, Claims (s.thread t) := by
  constructor
  · intro hw
    have hsum : ∑ t, LatchThreads.claims (s.thread t) ≠ 0 := by
      rw [← h.claims, entered, hw]
      decide
    obtain ⟨t, -, ht⟩ := Finset.exists_ne_zero_of_sum_ne_zero hsum
    have hc : Claims (s.thread t) := by
      by_contra hno
      simp [LatchThreads.claims, hno] at ht
    exact ⟨t, hc, fun u hu => h.claims_unique hu hc⟩
  · rintro ⟨t, ht, -⟩
    exact h.entered_of_claims ht

end Latched

/-- In every state that any number of threads reach, in any interleaving and with any wake-ups: no two of them hold the
write latch, none holds the read latch while one holds the write latch, `reader_count_` is the number of read latches
that are held, and `writer_entered_` is set exactly if one thread holds the write latch or is committed to acquiring
it. -/
theorem latch_excludes {ls : List (θ × LatchSection)} {s : LatchThreads θ} (hr : Run {} ls s) :
    (∀ t u, (s.thread t).writes = true → (s.thread u).writes = true → t = u) ∧
    (∀ t u, (s.thread t).writes = true → (s.thread u).reads = 0) ∧
    s.latch.readerCount = ∑ t, (s.thread t).reads ∧
    (s.latch.writerEntered = true ↔ ∃! t, Claims (s.thread t)) := by
  have h := Latched.run hr
  refine ⟨fun t u ht hu => h.claims_unique (.inl ht) (.inl hu), fun t u ht => ?_, h.reads, h.entered_iff⟩
  have hle := h.reads_le u
  rw [h.drained t ht] at hle
  exact Nat.le_zero.mp hle

/-- A writer claims the latch while another thread reads, and gets it when the reader has left. -/
theorem latch_excludes_writer : ∃ (ls : List (Bool × LatchSection)) (s : LatchThreads Bool), Run {} ls s ∧
    (s.thread true).writes = true ∧
    ((∀ t u, (s.thread t).writes = true → (s.thread u).writes = true → t = u) ∧
    (∀ t u, (s.thread t).writes = true → (s.thread u).reads = 0) ∧
    s.latch.readerCount = ∑ t, (s.thread t).reads ∧
    (s.latch.writerEntered = true ↔ ∃! t, Claims (s.thread t))) := by
  have hr : Run ({} : LatchThreads Bool)
      [(false, .rLock), (true, .wLock), (true, .wake), (false, .rUnlock), (true, .wake)] _ :=
    .cons rfl (.cons rfl (.cons rfl (.cons rfl (.single rfl))))
  exact ⟨_, _, hr, rfl, latch_excludes hr⟩

end LatchThreads

end Dawn
