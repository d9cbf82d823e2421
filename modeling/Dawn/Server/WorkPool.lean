import Dawn.Lib.Trace

/-!
# The work pool

`WorkPool` of `src/util/work_pool.cpp`: a queue of task pointers and a number of threads, each of which
takes the first entry of the queue, runs it, and comes back for the next one. One step is one section
under the pool's mutex. Nothing keeps a task from being in the queue twice; `Once` says when no two
threads are in one task, and what the calls that enqueue must see to for that.
-/

namespace Dawn

open Function

variable {τ ω : Type} [DecidableEq ω]

/-- `WorkPool`, with tasks from `τ` and threads from `ω`. -/
structure WorkPool (τ ω : Type) where
  /-- `tasks_`. -/
  tasks : List τ := []
  /-- The task in whose `run` each thread is. -/
  worker : ω → Option τ := fun _ => none
  /-- `busy_num_`. -/
  busyNum : ℕ := 0

namespace WorkPool

/-- `add_task`. -/
def addTask (p : WorkPool τ ω) (task : τ) : WorkPool τ ω := { p with tasks := p.tasks ++ [task] }

/-- A waiting thread takes the first task of the queue and calls its `run`. -/
def dequeue (p : WorkPool τ ω) (w : ω) : Option (WorkPool τ ω) :=
  match p.worker w, p.tasks with
  | none, task :: rest =>
    some { tasks := rest, worker := Function.update p.worker w (some task), busyNum := p.busyNum + 1 }
  | _, _ => none

/-- The task's `run` has returned. -/
def complete (p : WorkPool τ ω) (w : ω) : Option (WorkPool τ ω) :=
  match p.worker w with
  | some _ => some { p with worker := Function.update p.worker w none, busyNum := p.busyNum - 1 }
  | none => none

/-- What the wait in `wait_until_all_finished` is for. -/
def AllFinished (p : WorkPool τ ω) : Prop := p.busyNum = 0 ∧ p.tasks = []

variable {p p' : WorkPool τ ω} {task : τ} {w : ω}

theorem dequeue_eq_some (h : p.dequeue w = some p') : ∃ task rest, p.worker w = none ∧ p.tasks = task :: rest ∧
    p' = ⟨rest, update p.worker w (some task), p.busyNum + 1⟩ := by
  unfold dequeue at h
  split at h
  · next task rest hw ht => exact ⟨task, rest, hw, ht, (Option.some.inj h).symm⟩
  · cases h

theorem complete_eq_some (h : p.complete w = some p') : ∃ task, p.worker w = some task ∧
    p' = ⟨p.tasks, update p.worker w none, p.busyNum - 1⟩ := by
  unfold complete at h
  split at h
  · next task hw => exact ⟨task, hw, (Option.some.inj h).symm⟩
  · cases h

/-- No two threads are in one task. -/
def Exclusive (p : WorkPool τ ω) : Prop :=
  ∀ ⦃w w' task⦄, p.worker w = some task → p.worker w' = some task → w = w'

/-- A task is neither in the queue nor run by a thread. -/
def Idle (p : WorkPool τ ω) (task : τ) : Prop := task ∉ p.tasks ∧ ∀ w, p.worker w ≠ some task

/-- Every task is in the queue at most once, and not while a thread is in it. -/
structure Once (p : WorkPool τ ω) : Prop where
  /-- No task is in the queue twice. -/
  nodup : p.tasks.Nodup
  /-- No thread is in a task that is in the queue. -/
  queued : ∀ task ∈ p.tasks, ∀ w, p.worker w ≠ some task
  /-- No two threads are in one task. -/
  exclusive : p.Exclusive

namespace Once

omit [DecidableEq ω] in
theorem addTask (h : Once p) (hidle : p.Idle task) : Once (p.addTask task) := by
  refine ⟨?_, fun t ht => ?_, h.exclusive⟩
  · rw [WorkPool.addTask, ← List.concat_eq_append]
    exact h.nodup.concat hidle.1
  · rcases List.mem_append.mp ht with ht | ht
    · exact h.queued t ht
    · rw [List.mem_singleton.mp ht]
      exact hidle.2

theorem dequeue (h : Once p) (hd : p.dequeue w = some p') : Once p' := by
  obtain ⟨task, rest, hw, ht, rfl⟩ := dequeue_eq_some hd
  have hnd := h.nodup
  rw [ht, List.nodup_cons] at hnd
  have hfree : ∀ v, p.worker v ≠ some task := h.queued task (by simp [ht])
  refine ⟨hnd.2, fun t htr v => ?_, fun v v' t hv hv' => ?_⟩
  · obtain rfl | hne := eq_or_ne v w
    · simpa using fun e : task = t => hnd.1 (e ▸ htr)
    · simpa [hne] using h.queued t (by simp [ht, htr]) v
  · -- The task that was taken is in no other thread.
    obtain rfl | hne := eq_or_ne v w <;> obtain rfl | hne' := eq_or_ne v' v
    · rfl
    · simp only [update_self, Option.some.injEq, update_of_ne hne'] at hv hv'
      exact absurd (hv ▸ hv') (hfree v')
    · rfl
    · obtain rfl | hw' := eq_or_ne v' w
      · simp only [update_self, Option.some.injEq, update_of_ne hne] at hv hv'
        exact absurd (hv' ▸ hv) (hfree v)
      · simp only [update_of_ne hne, update_of_ne hw'] at hv hv'
        exact h.exclusive hv hv'

theorem complete (h : Once p) (hc : p.complete w = some p') : Once p' := by
  obtain ⟨task, hw, rfl⟩ := complete_eq_some hc
  have hsub : ∀ {v t}, update p.worker w none v = some t → p.worker v = some t := by
    intro v t hv
    obtain rfl | hne := eq_or_ne v w
    · simp at hv
    · simpa [hne] using hv
  exact ⟨h.nodup, fun t ht v hv => h.queued t ht v (hsub hv), fun v v' t hv hv' => h.exclusive (hsub hv) (hsub hv')⟩

end Once

end WorkPool

end Dawn
