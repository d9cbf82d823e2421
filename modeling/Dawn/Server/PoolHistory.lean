import Dawn.Lib.Counts
import Dawn.Server.WorkPool

/-!
# What becomes of the entries of a work pool

The runs of a started `WorkPool` (`src/util/work_pool.cpp`), in any interleaving of the sections under its mutex:
`add_task`, a worker that takes an entry, a worker that comes back from `run`, and the return of
`wait_until_all_finished`. A task may be enqueued any number of times, so it is the entries that are told apart: the
history numbers them in the order in which they are added. Every entry is taken and run once at most and in that order,
and the wait returns only when all of them have been run (`PoolHistory.runs_once`).
-/

namespace Dawn

/-- The sections under the mutex of a pool. -/
inductive PoolLabel (τ ω : Type)
  /-- `add_task`. -/
  | add (task : τ)
  /-- A waiting thread takes the first task of the queue. -/
  | dequeue (w : ω)
  /-- A thread comes back from `run`. -/
  | complete (w : ω)
  /-- `wait_until_all_finished` evaluates its condition and returns. -/
  | waitReturns

variable {τ τ' ω : Type} [DecidableEq ω]

namespace WorkPool

instance (p : WorkPool τ ω) : Decidable p.AllFinished :=
  inferInstanceAs (Decidable (p.busyNum = 0 ∧ p.tasks = []))

/-- One section. -/
def step (p : WorkPool τ ω) : PoolLabel τ ω → Option (WorkPool τ ω)
  | .add task => some (p.addTask task)
  | .dequeue w => p.dequeue w
  | .complete w => p.complete w
  | .waitReturns => if p.AllFinished then some p else none

/-- A pool whose tasks are written differently. -/
def map (f : τ → τ') (p : WorkPool τ ω) : WorkPool τ' ω :=
  ⟨p.tasks.map f, fun w => (p.worker w).map f, p.busyNum⟩

omit [DecidableEq ω] in
theorem map_addTask (f : τ → τ') (p : WorkPool τ ω) (task : τ) :
    (p.map f).addTask (f task) = (p.addTask task).map f := by
  simp [map, addTask]

theorem map_worker_update (f : τ → τ') (m : ω → Option τ) (w : ω) (v : Option τ) :
    (fun w' => (Function.update m w v w').map f) = Function.update (fun w' => (m w').map f) w (v.map f) :=
  funext fun w' => Function.apply_update (fun _ => Option.map f) m w v w'

theorem map_dequeue (f : τ → τ') (p : WorkPool τ ω) (w : ω) : (p.map f).dequeue w = (p.dequeue w).map (map f) := by
  unfold dequeue
  cases hw : p.worker w <;> cases ht : p.tasks <;> simp [map, hw, ht, map_worker_update]

theorem map_complete (f : τ → τ') (p : WorkPool τ ω) (w : ω) : (p.map f).complete w = (p.complete w).map (map f) := by
  unfold complete
  cases hw : p.worker w <;> simp [map, hw, map_worker_update]

omit [DecidableEq ω] in
theorem map_allFinished (f : τ → τ') (p : WorkPool τ ω) : (p.map f).AllFinished ↔ p.AllFinished := by
  simp [AllFinished, map]

end WorkPool

/-- A pool with its history. The entries of the queue are numbered as they are added. -/
structure PoolHistory (τ ω : Type) where
  pool : WorkPool (ℕ × τ) ω := {}
  /-- The entries that were added. -/
  added : List (ℕ × τ) := []
  /-- The entries whose `run` was called, in the order in which they were dequeued. -/
  taken : List (ℕ × τ) := []
  /-- The entries whose `run` has returned. -/
  finished : List (ℕ × τ) := []

namespace PoolHistory

/-- One section. -/
def step (h : PoolHistory τ ω) : PoolLabel τ ω → Option (PoolHistory τ ω)
  | .add task =>
    let entry := (h.added.length, task)
    some { h with pool := h.pool.addTask entry, added := h.added ++ [entry] }
  | .dequeue w =>
    (h.pool.dequeue w).map fun pool => { h with pool, taken := h.taken ++ (pool.worker w).toList }
  | .complete w =>
    (h.pool.complete w).map fun pool => { h with pool, finished := h.finished ++ (h.pool.worker w).toList }
  | .waitReturns => if h.pool.AllFinished then some h else none

/-- A run of the pool. -/
abbrev Run (h : PoolHistory τ ω) (ls : List (PoolLabel τ ω)) (h' : PoolHistory τ ω) : Prop :=
  Trace (fun h l h' => h.step l = some h') h ls h'

/-- Every run of a pool has a history. -/
theorem exists_history {p : WorkPool τ ω} {ls : List (PoolLabel τ ω)}
    (ht : Trace (fun p l p' => p.step l = some p') {} ls p) :
    ∃ h : PoolHistory τ ω, Run {} ls h ∧ h.pool.map Prod.snd = p := by
  refine ht.simulate (R := fun p (h : PoolHistory τ ω) => h.pool.map Prod.snd = p) ?_ rfl
  rintro _ h l p' rfl hs
  cases l with
  | add task =>
    refine ⟨_, rfl, ?_⟩
    rw [← Option.some.inj hs]
    exact (WorkPool.map_addTask Prod.snd h.pool (h.added.length, task)).symm
  | dequeue w =>
    rw [WorkPool.step, WorkPool.map_dequeue, Option.map_eq_some_iff] at hs
    obtain ⟨pool, hpool, rfl⟩ := hs
    exact ⟨{ h with pool, taken := h.taken ++ (pool.worker w).toList }, by simp [step, hpool], rfl⟩
  | complete w =>
    rw [WorkPool.step, WorkPool.map_complete, Option.map_eq_some_iff] at hs
    obtain ⟨pool, hpool, rfl⟩ := hs
    exact ⟨{ h with pool, finished := h.finished ++ (h.pool.worker w).toList }, by simp [step, hpool], rfl⟩
  | waitReturns =>
    rw [WorkPool.step] at hs
    split at hs
    · next hfin =>
      rw [← Option.some.inj hs]
      exact ⟨h, if_pos ((WorkPool.map_allFinished Prod.snd h.pool).mp hfin), rfl⟩
    · cases hs

/-! ## The entries -/

variable [Fintype ω]

/-- How many workers are between their dequeue and their completion. -/
def busy (p : WorkPool τ ω) : ℕ := ∑ w, (p.worker w).toList.length

/-- Where the entries are. -/
structure Accounts (h : PoolHistory τ ω) : Prop where
  /-- The entries are numbered in the order in which they were added. -/
  numbered : h.added.map Prod.fst = List.range h.added.length
  /-- They are taken in that order, and those that are not yet taken are in the queue. -/
  queued : h.taken ++ h.pool.tasks = h.added
  /-- An entry that was taken has been run to its end or is being run. -/
  ran : ∀ entry, entry ∈ h.taken ↔ entry ∈ h.finished ∨ ∃ w, h.pool.worker w = some entry
  /-- No entry is being run twice, or while it is in the queue. -/
  once : h.pool.Once
  /-- No entry is run to its end twice. -/
  nodup : h.finished.Nodup
  /-- No entry is being run again. -/
  done : ∀ entry ∈ h.finished, ∀ w, h.pool.worker w ≠ some entry
  /-- `busy_num_` counts the workers that are in a task. -/
  busyNum_eq : h.pool.busyNum = busy h.pool

namespace Accounts

variable {h h' : PoolHistory τ ω} {l : PoolLabel τ ω} {w : ω} {p : WorkPool (ℕ × τ) ω}

omit [DecidableEq ω] in
theorem init : Accounts ({} : PoolHistory τ ω) where
  numbered := rfl
  queued := rfl
  ran := by simp
  once := ⟨List.nodup_nil, by simp, by intro w w' task hw; cases hw⟩
  nodup := List.nodup_nil
  done := by simp
  busyNum_eq := by simp [busy]

omit [DecidableEq ω] in
theorem added_nodup (ha : h.Accounts) : h.added.Nodup :=
  List.Nodup.of_map Prod.fst (ha.numbered ▸ List.nodup_range)

omit [DecidableEq ω] in
theorem idle_new (ha : h.Accounts) (task : τ) : h.pool.Idle (h.added.length, task) := by
  have hnew : (h.added.length, task) ∉ h.added := fun hm => by
    have hfst := List.mem_map_of_mem (f := Prod.fst) hm
    rw [ha.numbered, List.mem_range] at hfst
    exact lt_irrefl _ hfst
  rw [← ha.queued, List.mem_append, not_or] at hnew
  rw [← ha.queued]
  exact ⟨hnew.2, fun w hw => hnew.1 ((ha.ran _).mpr (.inr ⟨w, hw⟩))⟩

omit [DecidableEq ω] in
theorem add (ha : h.Accounts) (task : τ) :
    Accounts { h with pool := h.pool.addTask (h.added.length, task)
                      added := h.added ++ [(h.added.length, task)] } where
  numbered := by simp [ha.numbered, List.range_succ]
  queued := by
    show h.taken ++ (h.pool.tasks ++ _) = _
    rw [← List.append_assoc, ha.queued]
  ran := ha.ran
  once := ha.once.addTask (ha.idle_new task)
  nodup := ha.nodup
  done := ha.done
  busyNum_eq := ha.busyNum_eq

theorem dequeue (ha : h.Accounts) (hd : h.pool.dequeue w = some p) :
    Accounts { h with pool := p, taken := h.taken ++ (p.worker w).toList } := by
  have honce := ha.once.dequeue hd
  have hnd := ha.added_nodup
  obtain ⟨entry, rest, hw, ht, rfl⟩ := WorkPool.dequeue_eq_some hd
  have hq := ha.queued
  rw [ht] at hq
  have hfresh : entry ∉ h.taken := by
    rw [← hq] at hnd
    exact fun hm => (List.nodup_append.mp hnd).2.2 entry hm entry List.mem_cons_self rfl
  refine ⟨ha.numbered, ?_, fun e => ?_, honce, ha.nodup, fun e he v hv => ?_, ?_⟩
  · simpa using hq
  · -- The entry that was taken is now being run, by this worker.
    simp only [Function.update_self, Option.toList_some, List.mem_append, List.mem_singleton, ha.ran e]
    constructor
    · rintro ((hfin | ⟨v, hv⟩) | rfl)
      · exact .inl hfin
      · have hne : v ≠ w := fun e => by simp [e, hw] at hv
        exact .inr ⟨v, by simpa [hne] using hv⟩
      · exact .inr ⟨w, by simp⟩
    · rintro (hfin | ⟨v, hv⟩)
      · exact .inl (.inl hfin)
      · obtain rfl | hne := eq_or_ne v w
        · exact .inr (by simpa using hv.symm)
        · exact .inl (.inr ⟨v, by simpa [hne] using hv⟩)
  · obtain rfl | hne := eq_or_ne v w
    · obtain rfl : entry = e := by simpa using hv
      exact hfresh ((ha.ran _).mpr (.inl he))
    · exact ha.done e he v (by simpa [hne] using hv)
  · have hsum := sum_update h.pool.worker (fun v => v.toList.length) w (some entry)
    simp only [hw, Option.toList_none, Option.toList_some, List.length_nil, List.length_singleton] at hsum
    rw [ha.busyNum_eq]
    exact hsum.symm

theorem busyNum_pos (ha : h.Accounts) (hc : h.pool.complete w = some p) : 0 < h.pool.busyNum := by
  obtain ⟨entry, hw, -⟩ := WorkPool.complete_eq_some hc
  have hle := le_sum (fun v => (h.pool.worker v).toList.length) w
  rw [ha.busyNum_eq, busy]
  simp only [hw, Option.toList_some, List.length_singleton] at hle
  omega

theorem complete (ha : h.Accounts) (hc : h.pool.complete w = some p) :
    Accounts { h with pool := p, finished := h.finished ++ (h.pool.worker w).toList } := by
  have honce := ha.once.complete hc
  obtain ⟨entry, hw, rfl⟩ := WorkPool.complete_eq_some hc
  have hnew : entry ∉ h.finished := fun hm => ha.done entry hm w hw
  refine ⟨ha.numbered, ha.queued, fun e => ?_, honce, ?_, fun e he v hv => ?_, ?_⟩
  · rw [ha.ran e]
    simp only [hw, Option.toList_some, List.mem_append, List.mem_singleton]
    constructor
    · rintro (hfin | ⟨v, hv⟩)
      · exact .inl (.inl hfin)
      · obtain rfl | hne := eq_or_ne v w
        · exact .inl (.inr (by simpa [hw] using hv.symm))
        · exact .inr ⟨v, by simpa [hne] using hv⟩
    · rintro ((hfin | rfl) | ⟨v, hv⟩)
      · exact .inl hfin
      · exact .inr ⟨w, hw⟩
      · obtain rfl | hne := eq_or_ne v w
        · simp at hv
        · exact .inr ⟨v, by simpa [hne] using hv⟩
  · rw [hw, Option.toList_some, ← List.concat_eq_append]
    exact ha.nodup.concat hnew
  · obtain rfl | hne := eq_or_ne v w
    · simp at hv
    · have hv' : h.pool.worker v = some e := by simpa [hne] using hv
      simp only [hw, Option.toList_some, List.mem_append, List.mem_singleton] at he
      rcases he with he | rfl
      · exact ha.done e he v hv'
      · exact hne (ha.once.exclusive hv' hw)
  · have hsum := sum_update h.pool.worker (fun v => v.toList.length) w none
    have hbusy := ha.busyNum_eq
    simp only [hw, Option.toList_none, Option.toList_some, List.length_nil, List.length_singleton, add_zero] at hsum
    show h.pool.busyNum - 1 = ∑ v, (Function.update h.pool.worker w none v).toList.length
    simp only [busy] at hbusy
    omega

theorem step (ha : h.Accounts) (hs : h.step l = some h') : h'.Accounts := by
  cases l with
  | add task =>
    rw [← Option.some.inj hs]
    exact ha.add task
  | dequeue w =>
    obtain ⟨p, hp, rfl⟩ := Option.map_eq_some_iff.mp hs
    exact ha.dequeue hp
  | complete w =>
    obtain ⟨p, hp, rfl⟩ := Option.map_eq_some_iff.mp hs
    exact ha.complete hp
  | waitReturns =>
    simp only [PoolHistory.step] at hs
    split at hs
    · exact Option.some.inj hs ▸ ha
    · cases hs

theorem run {ls : List (PoolLabel τ ω)} (hr : Run {} ls h) : h.Accounts :=
  hr.invariant (fun _ _ _ => Accounts.step) init

omit [DecidableEq ω] in
theorem finished_perm (ha : h.Accounts) (hfin : h.pool.AllFinished) : h.finished.Perm h.added := by
  have hidle : ∀ w, h.pool.worker w = none := by
    intro w
    have hle := le_sum (fun v => (h.pool.worker v).toList.length) w
    have hzero := ha.busyNum_eq.symm.trans hfin.1
    simp only [busy] at hzero
    cases hw : h.pool.worker w with
    | none => rfl
    | some entry =>
      simp only [hw, Option.toList_some, List.length_singleton] at hle
      omega
  have htaken : h.taken = h.added := by
    rw [← ha.queued, hfin.2, List.append_nil]
  refine (List.perm_ext_iff_of_nodup ha.nodup ha.added_nodup).mpr fun entry => ?_
  rw [← htaken, ha.ran entry]
  simp [hidle]

end Accounts

/-- In every run of a started pool with any number of workers: the entries are taken in the order in which they were
added, and each of them once; an entry that was taken is being run by one worker or has been run to its end, once;
`busy_num_` is the number of workers between dequeue and completion, which is not zero when one completes; and when
`wait_until_all_finished` returns, every entry that was added has been run to its end exactly once. -/
theorem runs_once {ls : List (PoolLabel τ ω)} {h : PoolHistory τ ω} (hr : Run {} ls h) :
    (h.taken <+: h.added ∧ h.added.Nodup) ∧
    (h.finished.Nodup ∧ ∀ entry ∈ h.taken,
      (entry ∈ h.finished ∧ ∀ w, h.pool.worker w ≠ some entry) ∨
      (entry ∉ h.finished ∧ ∃! w, h.pool.worker w = some entry)) ∧
    (h.pool.busyNum = (Finset.univ.filter fun w => h.pool.worker w ≠ none).card ∧
      ∀ w h', h.step (.complete w) = some h' → 0 < h.pool.busyNum) ∧
    ∀ h', h.step .waitReturns = some h' → h.finished.Perm h.added := by
  have ha := Accounts.run hr
  refine ⟨⟨⟨_, ha.queued⟩, ha.added_nodup⟩, ⟨ha.nodup, fun entry he => ?_⟩, ⟨?_, fun w h' hs => ?_⟩,
    fun h' hs => ?_⟩
  · rcases (ha.ran entry).mp he with hfin | ⟨w, hw⟩
    · exact .inl ⟨hfin, ha.done entry hfin⟩
    · exact .inr ⟨fun hfin => ha.done entry hfin w hw, w, hw, fun v hv => ha.once.exclusive hv hw⟩
  · rw [ha.busyNum_eq, busy, Finset.card_filter]
    refine Finset.sum_congr rfl fun w _ => ?_
    cases h.pool.worker w <;> rfl
  · obtain ⟨p, hp, -⟩ := Option.map_eq_some_iff.mp hs
    exact ha.busyNum_pos hp
  · simp only [step] at hs
    split at hs
    · next hfin => exact ha.finished_perm hfin
    · cases hs

/-- Two workers run a task that was added twice, and the wait returns. -/
theorem runs_once_twice : ∃ (ls : List (PoolLabel Unit Bool)) (h : PoolHistory Unit Bool),
    Run {} (ls ++ [.waitReturns]) h ∧ h.added = [(0, ()), (1, ())] ∧
    ((h.taken <+: h.added ∧ h.added.Nodup) ∧
    (h.finished.Nodup ∧ ∀ entry ∈ h.taken,
      (entry ∈ h.finished ∧ ∀ w, h.pool.worker w ≠ some entry) ∨
      (entry ∉ h.finished ∧ ∃! w, h.pool.worker w = some entry)) ∧
    (h.pool.busyNum = (Finset.univ.filter fun w => h.pool.worker w ≠ none).card ∧
      ∀ w h', h.step (.complete w) = some h' → 0 < h.pool.busyNum) ∧
    ∀ h', h.step .waitReturns = some h' → h.finished.Perm h.added) := by
  have hr : Run ({} : PoolHistory Unit Bool)
      ([.add (), .add (), .dequeue true, .dequeue false, .complete false, .complete true] ++ [.waitReturns]) _ :=
    .cons rfl (.cons rfl (.cons rfl (.cons rfl (.cons rfl (.cons rfl (.single rfl))))))
  exact ⟨_, _, hr, rfl, runs_once hr⟩

end PoolHistory

end Dawn
