import Dawn.Server.WorkPool

/-!
# Who owns a connection's task

The life of the `Task` objects of `src/server/server.cpp` and `src/include/server/server.h`. `conn_` maps
the descriptor of a connection to its task, and every party takes the pointer from there: an event puts
it into the work pool's queue, a worker calls its `run`, and the collector thread and `Server::shutdown`
delete it once `is_finish` says so. Nothing counts the pointers that are in the queue or in use, and
`shutdown` keeps an iterator of `conn_` while it lets go of the mutex.

A task is deleted while it is in the queue in `deleted_task_is_run`. No task is used after it has been deleted
as long as a connection has no event in the queue when its end is read and none afterwards, nobody looks for
finished tasks between the end of a connection being read and the return of `run`, and the collector does not
run while `shutdown` sleeps (`tasks_owned`).
-/

namespace Dawn

open Function

/-- Where `Server::shutdown` is. An iterator is the entry of `conn_` that it refers to. -/
inductive ShutdownState
  /-- It has not been called, or it waits for the work pool. -/
  | notStarted
  /-- `wait_until_all_finished` has returned, and `mut_` is still to be locked. -/
  | drained
  /-- It holds `mut_` and is about to look at the entry, or to leave the loop. -/
  | locked (iter : Option (ℕ × ℕ))
  /-- It sleeps without `mut_`. -/
  | waiting (iter : ℕ × ℕ)
  /-- It has left the loop. -/
  | finished
  deriving DecidableEq, Repr

/-- The tasks of a server with workers `ω`. A `Task*` is a number, which is not used again. -/
structure Ownership (ω : Type) where
  /-- `wp_`. -/
  pool : WorkPool ℕ ω := {}
  /-- `conn_`: descriptors and tasks, in the order of the descriptors. -/
  conn : List (ℕ × ℕ) := []
  /-- `finish_` of every task. -/
  finish : ℕ → Bool := fun _ => false
  /-- The task has been made and has not been deleted. -/
  alive : ℕ → Bool := fun _ => false
  /-- The next task. -/
  next : ℕ := 0
  /-- `shutdown`. -/
  shutdown : ShutdownState := .notStarted

namespace Ownership

/-- The steps. -/
inductive Label (ω : Type)
  /-- `process_epoll` accepts a connection. -/
  | accept (fd : ℕ)
  /-- `process_epoll` handles an `EPOLLIN` event. -/
  | event (fd : ℕ)
  /-- A worker takes a task and calls `run`. -/
  | dequeue (w : ω)
  /-- `run` receives, and sets `finish_` if the connection is closed or broken. -/
  | receive (w : ω) (closed : Bool)
  /-- `run` returns. -/
  | leave (w : ω)
  /-- The collector thread deletes the finished tasks. -/
  | collect
  /-- `shutdown` finds the work pool finished. -/
  | shutdownDrain
  /-- `shutdown` locks `mut_`. -/
  | shutdownBegin
  /-- `shutdown` looks at the entry of its iterator. -/
  | shutdownCheck
  /-- `shutdown` locks `mut_` again. -/
  | shutdownWake

variable {ω : Type} [DecidableEq ω]

/-- `mut_` is free: only `shutdown` holds it for more than one step. -/
def MutexFree (s : Ownership ω) : Prop := ∀ iter, s.shutdown ≠ .locked iter

instance (s : Ownership ω) : Decidable s.MutexFree :=
  match h : s.shutdown with
  | .locked iter => isFalse fun hf => hf iter h
  | .notStarted => isTrue fun iter e => by rw [h] at e; cases e
  | .drained => isTrue fun iter e => by rw [h] at e; cases e
  | .waiting _ => isTrue fun iter e => by rw [h] at e; cases e
  | .finished => isTrue fun iter e => by rw [h] at e; cases e

/-- The entry after one of a map. -/
def nextEntry (entry : ℕ × ℕ) : List (ℕ × ℕ) → Option (ℕ × ℕ)
  | [] => none
  | e :: rest => if e = entry then rest.head? else nextEntry entry rest

/-- One step of the server. -/
def step (s : Ownership ω) : Label ω → Option (Ownership ω)
  | .accept fd =>
    if s.MutexFree ∧ ∀ e ∈ s.conn, e.1 ≠ fd then
      some { s with
        conn := s.conn.orderedInsert (fun a b => a.1 ≤ b.1) (fd, s.next)
        finish := Function.update s.finish s.next false
        alive := Function.update s.alive s.next true
        next := s.next + 1 }
    else none
  | .event fd =>
    -- A descriptor that is not in `conn_` ends the process.
    match s.conn.find? (·.1 == fd) with
    | some (_, task) =>
      if s.MutexFree then some { s with pool := s.pool.addTask task } else none
    | none => none
  | .dequeue w => (s.pool.dequeue w).map fun pool => { s with pool := pool }
  | .receive w closed =>
    match s.pool.worker w with
    | some task =>
      some { s with finish := Function.update s.finish task (s.finish task || closed) }
    | none => none
  | .leave w => (s.pool.complete w).map fun pool => { s with pool := pool }
  | .collect =>
    if s.MutexFree then
      some { s with
        conn := s.conn.filter fun e => !s.finish e.2
        alive := fun task => s.alive task && !s.conn.any fun e => e.2 == task && s.finish task }
    else none
  | .shutdownDrain =>
    if s.shutdown = .notStarted ∧ s.pool.busyNum = 0 ∧ s.pool.tasks = [] then
      some { s with shutdown := .drained }
    else none
  | .shutdownBegin =>
    if s.shutdown = .drained then some { s with shutdown := .locked s.conn.head? } else none
  | .shutdownCheck =>
    match s.shutdown with
    | .locked none => some { s with shutdown := .finished }
    | .locked (some entry) =>
      if s.finish entry.2 then
        some { s with
          shutdown := .locked (nextEntry entry s.conn)
          conn := s.conn.filter (· ≠ entry)
          alive := Function.update s.alive entry.2 false }
      else some { s with shutdown := .waiting entry }
    | _ => none
  | .shutdownWake =>
    match s.shutdown with
    | .waiting entry => some { s with shutdown := .locked (some entry) }
    | _ => none

/-- The tasks whose `run` or `is_finish` a step calls. -/
def uses (s : Ownership ω) : Label ω → List ℕ
  | .dequeue _ => s.pool.tasks.take 1
  | .receive w _ => (s.pool.worker w).toList
  | .collect => s.conn.map Prod.snd
  | .shutdownCheck =>
    match s.shutdown with
    | .locked (some entry) => [entry.2]
    | _ => []
  | _ => []

/-- The tasks that a step deletes. -/
def deletes (s : Ownership ω) : Label ω → List ℕ
  | .collect => (s.conn.map Prod.snd).filter s.finish
  | .shutdownCheck =>
    match s.shutdown with
    | .locked (some entry) => [entry.2].filter s.finish
    | _ => []
  | _ => []

/-- A step uses no task that has been deleted, and deletes no task that has been deleted, that is in the
queue, or in which a worker is. -/
def Safe (s : Ownership ω) (l : Label ω) : Prop :=
  (∀ task ∈ s.uses l, s.alive task = true) ∧
  ∀ task ∈ s.deletes l, s.alive task = true ∧ s.pool.Idle task

/-- No worker is between setting `finish_` and returning from `run`. -/
def NoneLeaving (s : Ownership ω) : Prop := ∀ w task, s.pool.worker w = some task → s.finish task = false

/-- No event comes for a connection whose end has been read, the end is read when no event of the connection is in
the queue, and the finished tasks are looked for when no worker is leaving one, by the collector when `shutdown`
does not sleep. -/
def Careful (s : Ownership ω) : Label ω → Prop
  | .event fd => ∀ e ∈ s.conn, e.1 = fd → s.finish e.2 = false
  | .receive w closed => closed = true → ∀ task, s.pool.worker w = some task → task ∉ s.pool.tasks
  | .collect => s.NoneLeaving ∧ ∀ e, s.shutdown ≠ .waiting e
  | .shutdownCheck => s.NoneLeaving
  | _ => True

/-! ## The invariant -/

/-- Every pointer that somebody has refers to a task that has not been deleted. -/
structure Owned (s : Ownership ω) : Prop where
  /-- The map. -/
  conn_alive : ∀ e ∈ s.conn, s.alive e.2 = true
  /-- The queue. -/
  queue_alive : ∀ task ∈ s.pool.tasks, s.alive task = true
  /-- No task in the queue is finished. -/
  queue_open : ∀ task ∈ s.pool.tasks, s.finish task = false
  /-- The workers. -/
  worker_alive : ∀ w task, s.pool.worker w = some task → s.alive task = true
  /-- The iterator of `shutdown`. -/
  iter_mem : ∀ e, s.shutdown = .locked (some e) ∨ s.shutdown = .waiting e → e ∈ s.conn
  /-- No two connections have one task. -/
  nodup : (s.conn.map Prod.snd).Nodup
  /-- A task that is made is a new one. -/
  fresh : ∀ task, s.alive task = true → task < s.next

omit [DecidableEq ω] in
theorem owned_init : Owned ({} : Ownership ω) where
  conn_alive _ h := by cases h
  queue_alive _ h := by cases h
  queue_open _ h := by cases h
  worker_alive _ _ h := by cases h
  iter_mem _ h := by rcases h with h | h <;> cases h
  nodup := List.nodup_nil
  fresh _ h := by cases h

omit [DecidableEq ω] in
theorem Owned.idle {s : Ownership ω} (h : Owned s) (hw : s.NoneLeaving) {task : ℕ} (hf : s.finish task = true) :
    s.pool.Idle task :=
  ⟨fun ht => by simp [h.queue_open task ht] at hf, fun w hrun => by simp [hw w task hrun] at hf⟩

omit [DecidableEq ω] in
theorem Owned.safe {s : Ownership ω} (h : Owned s) {l : Label ω} (hc : Careful s l) : Safe s l := by
  have hconn : ∀ task ∈ s.conn.map Prod.snd, ∃ e ∈ s.conn, e.2 = task := fun task ht => by
    simpa using ht
  cases l with
  | dequeue w =>
    exact ⟨fun task ht => h.queue_alive task (List.mem_of_mem_take ht), fun _ ht => by cases ht⟩
  | receive w closed =>
    refine ⟨fun task ht => h.worker_alive w task ?_, fun _ ht => by cases ht⟩
    simpa [uses] using ht
  | collect =>
    refine ⟨fun task ht => ?_, fun task ht => ?_⟩
    · obtain ⟨e, he, rfl⟩ := hconn task ht
      exact h.conn_alive e he
    · obtain ⟨ht, hf⟩ := List.mem_filter.mp ht
      obtain ⟨e, he, rfl⟩ := hconn task ht
      exact ⟨h.conn_alive e he, h.idle hc.1 hf⟩
  | shutdownCheck =>
    cases hs : s.shutdown with
    | locked iter =>
      cases iter with
      | none => exact ⟨by simp [uses, hs], by simp [deletes, hs]⟩
      | some e =>
        have he := h.conn_alive e (h.iter_mem e (Or.inl hs))
        refine ⟨by simpa [uses, hs] using he, fun task ht => ?_⟩
        obtain ⟨rfl, hf⟩ : task = e.2 ∧ s.finish task = true := by simpa [deletes, hs] using ht
        exact ⟨he, h.idle hc hf⟩
    | _ => exact ⟨by simp [uses, hs], by simp [deletes, hs]⟩
  | _ => exact ⟨fun _ ht => absurd ht List.not_mem_nil, fun _ ht => absurd ht List.not_mem_nil⟩

theorem nextEntry_mem {entry e : ℕ × ℕ} {l : List (ℕ × ℕ)} (hnd : l.Nodup)
    (h : nextEntry entry l = some e) : e ∈ l ∧ e ≠ entry := by
  induction l with
  | nil => cases h
  | cons a l ih =>
    rw [List.nodup_cons] at hnd
    simp only [nextEntry] at h
    split_ifs at h with ha
    · have hm := List.mem_of_mem_head? h
      exact ⟨List.mem_cons_of_mem a hm, fun he => hnd.1 (ha ▸ he ▸ hm)⟩
    · obtain ⟨hm, hne⟩ := ih hnd.2 h
      exact ⟨List.mem_cons_of_mem a hm, hne⟩

section Preserve

variable {s s' : Ownership ω} (h : Owned s)
include h

theorem Owned.accept {fd : ℕ} (hs : s.step (.accept fd) = some s') : Owned s' := by
  simp only [step] at hs
  split_ifs at hs with hg
  obtain rfl := Option.some.inj hs
  -- The new task is none of those that anybody has.
  have hnew : ∀ {task}, s.alive task = true → update s.alive s.next true task = true := by
    intro task ht
    rw [update_of_ne (h.fresh task ht).ne]
    exact ht
  have hperm := List.perm_orderedInsert (fun a b : ℕ × ℕ => a.1 ≤ b.1) (fd, s.next) s.conn
  have hmem : ∀ e, e ∈ s.conn.orderedInsert (fun a b => a.1 ≤ b.1) (fd, s.next) ↔
      e = (fd, s.next) ∨ e ∈ s.conn := fun e => by rw [hperm.mem_iff, List.mem_cons]
  refine ⟨fun e he => ?_, fun t ht => hnew (h.queue_alive t ht), fun t ht => ?_,
    fun w t hw => hnew (h.worker_alive w t hw), fun e he => (hmem e).mpr (Or.inr (h.iter_mem e he)), ?_, ?_⟩
  · rcases (hmem e).mp he with rfl | he
    · simp
    · exact hnew (h.conn_alive e he)
  · change update s.finish s.next false t = false
    rw [update_of_ne (h.fresh t (h.queue_alive t ht)).ne]
    exact h.queue_open t ht
  · rw [(hperm.map Prod.snd).nodup_iff, List.map_cons, List.nodup_cons]
    refine ⟨fun hm => ?_, h.nodup⟩
    obtain ⟨e, he, hen⟩ := List.mem_map.mp hm
    have hlt := h.fresh _ (h.conn_alive e he)
    omega
  · intro task ht
    obtain rfl | hne := eq_or_ne task s.next
    · exact Nat.lt_succ_self _
    · exact Nat.lt_succ_of_lt (h.fresh task (by rwa [← update_of_ne hne true s.alive]))

theorem Owned.event {fd : ℕ} (hc : Careful s (.event fd)) (hs : s.step (.event fd) = some s') : Owned s' := by
  simp only [step] at hs
  split at hs
  · next fd' task hf =>
    split_ifs at hs
    obtain rfl := Option.some.inj hs
    have hmem := List.mem_of_find?_eq_some hf
    have hfd : fd' = fd := by simpa using List.find?_some hf
    have htask : ∀ t ∈ s.pool.tasks ++ [task], t ∈ s.pool.tasks ∨ t = task := by simp
    refine ⟨h.conn_alive, fun t ht => ?_, fun t ht => ?_, h.worker_alive, h.iter_mem, h.nodup, h.fresh⟩
    · rcases htask t ht with ht | rfl
      · exact h.queue_alive t ht
      · exact h.conn_alive _ hmem
    · rcases htask t ht with ht | rfl
      · exact h.queue_open t ht
      · exact hc _ hmem hfd
  · cases hs

theorem Owned.dequeue {w : ω} (hs : s.step (.dequeue w) = some s') : Owned s' := by
  obtain ⟨pool, hp, rfl⟩ := Option.map_eq_some_iff.mp hs
  obtain ⟨task, rest, -, ht, hpool⟩ := WorkPool.dequeue_eq_some hp
  have hrest : ∀ t ∈ pool.tasks, t ∈ s.pool.tasks := fun t htr => by
    rw [hpool] at htr
    simpa [ht] using Or.inr htr
  refine ⟨h.conn_alive, fun t htr => h.queue_alive t (hrest t htr), fun t htr => h.queue_open t (hrest t htr),
    fun v t hv => ?_, h.iter_mem, h.nodup, h.fresh⟩
  · rw [hpool] at hv
    obtain rfl | hne := eq_or_ne v w
    · obtain rfl : task = t := by simpa using hv
      exact h.queue_alive task (by simp [ht])
    · exact h.worker_alive v t (by simpa [hne] using hv)

theorem Owned.leave {w : ω} (hs : s.step (.leave w) = some s') : Owned s' := by
  obtain ⟨pool, hp, rfl⟩ := Option.map_eq_some_iff.mp hs
  obtain ⟨task, -, hpool⟩ := WorkPool.complete_eq_some hp
  refine ⟨h.conn_alive, ?_, ?_, fun v t hv => ?_, h.iter_mem, h.nodup, h.fresh⟩
  · rw [hpool]
    exact h.queue_alive
  · rw [hpool]
    exact h.queue_open
  · rw [hpool] at hv
    obtain rfl | hne := eq_or_ne v w
    · simp at hv
    · exact h.worker_alive v t (by simpa [hne] using hv)

theorem Owned.collect (hc : Careful s .collect) (hs : s.step .collect = some s') : Owned s' := by
  simp only [step] at hs
  split_ifs at hs with hfree
  obtain rfl := Option.some.inj hs
  -- A task that the collector does not delete stays alive.
  have hkeep : ∀ {task}, s.alive task = true →
      (∀ e ∈ s.conn, e.2 = task → s.finish task = false) →
      (s.alive task && !s.conn.any fun e => e.2 == task && s.finish task) = true := by
    intro task ha hno
    simp only [ha, Bool.true_and, Bool.not_eq_true', List.any_eq_false, Bool.and_eq_true, beq_iff_eq,
      not_and, Bool.not_eq_true]
    exact hno
  refine ⟨fun e he => ?_, fun t ht => ?_, h.queue_open, fun w t hw => ?_, fun e he => ?_, ?_, fun t ht => ?_⟩
  · obtain ⟨he, hf⟩ := List.mem_filter.mp he
    exact hkeep (h.conn_alive e he) fun _ _ _ => by simpa using hf
  · exact hkeep (h.queue_alive t ht) fun _ _ _ => h.queue_open t ht
  · exact hkeep (h.worker_alive w t hw) fun _ _ _ => hc.1 w t hw
  · rcases he with he | he
    · exact absurd he (hfree _)
    · exact absurd he (hc.2 e)
  · exact h.nodup.sublist (List.filter_sublist.map Prod.snd)
  · exact h.fresh t (by simp only [Bool.and_eq_true] at ht; exact ht.1)

theorem Owned.shutdownCheck (hc : Careful s .shutdownCheck) (hs : s.step .shutdownCheck = some s') : Owned s' := by
  simp only [step] at hs
  split at hs
  · obtain rfl := Option.some.inj hs
    refine ⟨h.conn_alive, h.queue_alive, h.queue_open, h.worker_alive, fun e he => ?_, h.nodup, h.fresh⟩
    rcases he with he | he <;> cases he
  · next entry hsh =>
    have hent := h.iter_mem entry (Or.inl hsh)
    split_ifs at hs with hf
    · obtain rfl := Option.some.inj hs
      have hidle := h.idle hc hf
      have hkeep : ∀ {task}, s.alive task = true → task ≠ entry.2 →
          update s.alive entry.2 false task = true := fun ha hne => by
        rw [update_of_ne hne, ha]
      refine ⟨fun e he => ?_, fun t ht => ?_, h.queue_open, fun w t hw => ?_, fun e he => ?_, ?_, fun t ht => ?_⟩
      · obtain ⟨he, hne⟩ := List.mem_filter.mp he
        -- Another entry has another task.
        refine hkeep (h.conn_alive e he) fun heq => ?_
        have := List.inj_on_of_nodup_map h.nodup he hent heq
        simp [this] at hne
      · exact hkeep (h.queue_alive t ht) fun e => hidle.1 (e ▸ ht)
      · exact hkeep (h.worker_alive w t hw) fun e => hidle.2 w (e ▸ hw)
      · rcases he with he | he
        · obtain ⟨hm, hne⟩ := nextEntry_mem h.nodup.of_map (ShutdownState.locked.inj he)
          exact List.mem_filter.mpr ⟨hm, by simpa using hne⟩
        · cases he
      · exact h.nodup.sublist (List.filter_sublist.map Prod.snd)
      · refine h.fresh t ?_
        obtain rfl | hne := eq_or_ne t entry.2
        · simp at ht
        · rwa [← update_of_ne hne false s.alive]
    · obtain rfl := Option.some.inj hs
      refine ⟨h.conn_alive, h.queue_alive, h.queue_open, h.worker_alive, fun e he => ?_, h.nodup, h.fresh⟩
      rcases he with he | he
      · cases he
      · exact ShutdownState.waiting.inj he ▸ hent
  · cases hs

theorem Owned.step {l : Label ω} (hc : Careful s l) (hs : s.step l = some s') : Owned s' := by
  cases l with
  | accept fd => exact h.accept hs
  | event fd => exact h.event hc hs
  | dequeue w => exact h.dequeue hs
  | leave w => exact h.leave hs
  | collect => exact h.collect hc hs
  | shutdownCheck => exact h.shutdownCheck hc hs
  | receive w closed =>
    simp only [Ownership.step] at hs
    split at hs
    · next task hw =>
      obtain rfl := Option.some.inj hs
      refine ⟨h.conn_alive, h.queue_alive, fun t ht => ?_, h.worker_alive, h.iter_mem, h.nodup, h.fresh⟩
      change update s.finish task (s.finish task || closed) t = false
      obtain rfl | hne := eq_or_ne t task
      · -- The task is in the queue, so that its connection is not closed.
        have hopen : closed = false := Bool.eq_false_iff.mpr fun hclosed => hc hclosed t hw ht
        rw [update_self, h.queue_open t ht, hopen]
        rfl
      · rw [update_of_ne hne]
        exact h.queue_open t ht
    · cases hs
  | shutdownDrain =>
    simp only [Ownership.step] at hs
    split_ifs at hs
    obtain rfl := Option.some.inj hs
    refine ⟨h.conn_alive, h.queue_alive, h.queue_open, h.worker_alive, fun e he => ?_, h.nodup, h.fresh⟩
    rcases he with he | he <;> cases he
  | shutdownBegin =>
    simp only [Ownership.step] at hs
    split_ifs at hs
    obtain rfl := Option.some.inj hs
    refine ⟨h.conn_alive, h.queue_alive, h.queue_open, h.worker_alive, fun e he => ?_, h.nodup, h.fresh⟩
    rcases he with he | he
    · exact List.mem_of_mem_head? (ShutdownState.locked.inj he)
    · cases he
  | shutdownWake =>
    simp only [Ownership.step] at hs
    split at hs
    · next entry hsh =>
      obtain rfl := Option.some.inj hs
      refine ⟨h.conn_alive, h.queue_alive, h.queue_open, h.worker_alive, fun e he => ?_, h.nodup, h.fresh⟩
      rcases he with he | he
      · obtain rfl : entry = e := by simpa using he
        exact h.iter_mem entry (Or.inr hsh)
      · cases he
    · cases hs

end Preserve

/-- In a run all of whose steps are careful every step is safe: no task is used or deleted after it has been
deleted, and none is deleted while it is in the queue or running. -/
theorem tasks_owned {ls : List (Label ω)} {s : Ownership ω}
    (h : Trace (fun s l s' => Careful s l ∧ s.step l = some s') {} ls s) {l : Label ω}
    (hl : Careful s l) : Safe s l := by
  have hinv : Owned s := h.invariant (fun _ _ _ ho hl => Owned.step ho hl.1 hl.2) owned_init
  exact hinv.safe hl

/-- A connection is accepted, served by the third worker of three and closed, and the collector deletes
its task once the worker has left it. -/
theorem tasks_owned_collect : ∃ s : Ownership (Fin 3),
    Trace (fun s l s' => Careful s l ∧ s.step l = some s') {}
      [.accept 5, .event 5, .dequeue 2, .receive 2 true, .leave 2] s ∧
    Careful s .collect ∧ s.deletes .collect = [0] ∧ Safe s .collect := by
  have h : ∃ s : Ownership (Fin 3), Trace (fun s l s' => Careful s l ∧ s.step l = some s') {}
      [.accept 5, .event 5, .dequeue 2, .receive 2 true, .leave 2] s ∧
      Careful s .collect ∧ s.deletes .collect = [0] := by
    refine ⟨_, .cons ⟨trivial, rfl⟩ (.cons ⟨?_, rfl⟩ (.cons ⟨trivial, rfl⟩ (.cons ⟨?_, rfl⟩
      (.single ⟨trivial, rfl⟩)))), ⟨?_, by simp⟩, by decide⟩
    · intro e he _
      obtain rfl : e = (5, 0) := by simpa using he
      rfl
    · intro _ task _ hmem
      exact absurd hmem List.not_mem_nil
    · have hnone : ∀ w : Fin 3, update (update (fun _ => none) 2 (some 0)) 2 none w = (none : Option ℕ) := by
        decide
      exact fun w task hw => nomatch (hnone w).symm.trans hw
  obtain ⟨s, hs, hc, hd⟩ := h
  exact ⟨s, hs, hc, hd, tasks_owned hs hc⟩

/-- The connection becomes readable again while a worker is in `run`, where the task becomes finished:
the collector deletes the task although it is in the queue, and another worker calls `run` of it. -/
theorem deleted_task_is_run : ∃ s s' s'' : Ownership (Fin 3),
    Trace (fun s l s' => s.step l = some s') {}
      [.accept 5, .event 5, .dequeue 0, .event 5, .receive 0 true, .leave 0] s ∧
    s.step .collect = some s' ∧ s.deletes .collect = [0] ∧ 0 ∈ s.pool.tasks ∧
    s'.step (.dequeue 1) = some s'' ∧ s'.uses (.dequeue 1) = [0] ∧ s'.alive 0 = false :=
  ⟨_, _, _, .cons rfl (.cons rfl (.cons rfl (.cons rfl (.cons rfl (.single rfl))))), rfl, by decide,
    by decide, rfl, by decide, by decide⟩

end Ownership

end Dawn
