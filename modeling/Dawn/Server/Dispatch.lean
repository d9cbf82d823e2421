import Dawn.Server.Task
import Dawn.Server.WorkPool

/-!
# Events, workers, and connections

How data that arrives on a connection becomes a statement. Arriving data makes an edge-triggered
descriptor ready; `process_epoll` (`src/server/server.cpp`) collects the event and enqueues the
connection's task; a worker takes it and is in `HandleClientMsgTask::run` until nothing is left to
receive. `addfd` does not set `EPOLLONESHOT`, so data that arrives while a worker is in `run` makes
another event and another queue entry, and a second worker may go into `run` of the same task, where
both use the task's `buffer_` (`two_workers_in_one_task`). As long as an event finds its task neither
queued nor running, that does not happen (`one_worker_per_task`).
-/

namespace Dawn

open Function

open HandleClientMsgTask

/-- The connections `κ` of a server with workers `ω`. -/
structure Dispatch (κ ω : Type) where
  /-- `wp_`. -/
  pool : WorkPool κ ω := {}
  /-- The descriptor has become readable since its last event. -/
  ready : κ → Bool := fun _ => false
  /-- What has arrived and has not been received, one `recv` result after another. -/
  socket : κ → List (List UInt8) := fun _ => []
  /-- `buffer_` of the task. -/
  buffer : κ → List UInt8 := fun _ => []
  /-- The local `ret` of a worker in `run` that has received and has yet to handle `buffer_`. -/
  ret : ω → Option ℤ := fun _ => none
  /-- `finish_` of the task. -/
  finish : κ → Bool := fun _ => false
  /-- The rest of the task. -/
  task : κ → HandleClientMsgTask := fun _ => {}
  /-- The texts that `handle_sql` has executed. -/
  texts : κ → List (List UInt8) := fun _ => []
  /-- All that has ever arrived. -/
  arrived : κ → List (List UInt8) := fun _ => []

namespace Dispatch

/-- The steps. -/
inductive Label (κ ω : Type)
  /-- Data arrives. -/
  | arrive (conn : κ) (bytes : List UInt8)
  /-- `process_epoll` handles an `EPOLLIN` event. -/
  | event (conn : κ)
  /-- A worker takes a task and calls `run`. -/
  | dequeue (w : ω)
  /-- A worker in `run` receives into `buffer_`. -/
  | recv (w : ω)
  /-- A worker in `run` handles what is in `buffer_`. -/
  | handle (w : ω)
  /-- Nothing is left to receive, or `recv` gives 0 or an error and `finish_` is set: `run` returns. -/
  | leave (w : ω) (finish : Bool)

variable {κ ω : Type} [DecidableEq κ] [DecidableEq ω]

/-- One step of the server. -/
def step (s : Dispatch κ ω) : Label κ ω → Option (Dispatch κ ω)
  | .arrive conn bytes =>
    some { s with
      ready := Function.update s.ready conn true
      socket := Function.update s.socket conn (s.socket conn ++ [bytes])
      arrived := Function.update s.arrived conn (s.arrived conn ++ [bytes]) }
  | .event conn =>
    if s.ready conn then
      some { s with ready := Function.update s.ready conn false, pool := s.pool.addTask conn }
    else none
  | .dequeue w => (s.pool.dequeue w).map fun pool => { s with pool := pool }
  | .recv w =>
    match s.pool.worker w, s.ret w with
    | some conn, none =>
      match s.socket conn with
      | [] => none
      | bytes :: rest =>
        some { s with
          socket := Function.update s.socket conn rest
          buffer := Function.update s.buffer conn (fillBuffer bytes)
          ret := Function.update s.ret w (some bytes.length) }
    | _, _ => none
  | .handle w =>
    match s.pool.worker w, s.ret w with
    | some conn, some ret =>
      let (task, sqls) := handleBuffer (s.task conn) (s.buffer conn) ret
      some { s with
        task := Function.update s.task conn task
        texts := Function.update s.texts conn (s.texts conn ++ sqls)
        ret := Function.update s.ret w none }
    | _, _ => none
  | .leave w finish =>
    match s.pool.worker w, s.ret w with
    | some conn, none =>
      if finish ∨ s.socket conn = [] then
        (s.pool.complete w).map fun pool =>
          { s with pool := pool, finish := Function.update s.finish conn (s.finish conn || finish) }
      else none
    | _, _ => none

/-- A run of the server. -/
abbrev Run (s : Dispatch κ ω) (ls : List (Label κ ω)) (s' : Dispatch κ ω) : Prop :=
  Trace (fun s l s' => s.step l = some s') s ls s'

/-- The rounds of `run` that handle what one `recv` after another gives: the task after them, and the
texts. -/
def rounds (task : HandleClientMsgTask) :
    List (List UInt8) → HandleClientMsgTask × List (List UInt8)
  | [] => (task, [])
  | bytes :: rest =>
    let (task, sqls) := onReceived task bytes
    let (task, sqls') := rounds task rest
    (task, sqls ++ sqls')

theorem rounds_snoc (task : HandleClientMsgTask) (chunks : List (List UInt8)) (bytes : List UInt8) :
    rounds task (chunks ++ [bytes]) = ((onReceived (rounds task chunks).1 bytes).1,
      (rounds task chunks).2 ++ (onReceived (rounds task chunks).1 bytes).2) := by
  induction chunks generalizing task with
  | nil => simp [rounds]
  | cons b chunks ih => simp [rounds, ih, List.append_assoc]

/-! ## What a step does -/

section Steps

variable {s s' : Dispatch κ ω} {w : ω}

theorem recv_eq_some (h : s.step (.recv w) = some s') : ∃ conn bytes rest,
    s.pool.worker w = some conn ∧ s.ret w = none ∧ s.socket conn = bytes :: rest ∧ s' = { s with
      socket := update s.socket conn rest
      buffer := update s.buffer conn (fillBuffer bytes)
      ret := update s.ret w (some bytes.length) } := by
  simp only [step] at h
  split at h
  · next conn hw hr =>
    split at h
    · cases h
    · next bytes rest hs => exact ⟨conn, bytes, rest, hw, hr, hs, (Option.some.inj h).symm⟩
  · cases h

theorem handle_eq_some (h : s.step (.handle w) = some s') : ∃ conn ret,
    s.pool.worker w = some conn ∧ s.ret w = some ret ∧ s' = { s with
      task := update s.task conn (handleBuffer (s.task conn) (s.buffer conn) ret).1
      texts := update s.texts conn
        (s.texts conn ++ (handleBuffer (s.task conn) (s.buffer conn) ret).2)
      ret := update s.ret w none } := by
  simp only [step] at h
  split at h
  · next conn ret hw hr => exact ⟨conn, ret, hw, hr, (Option.some.inj h).symm⟩
  · cases h

theorem leave_eq_some {finish : Bool} (h : s.step (.leave w finish) = some s') : ∃ conn pool,
    s.pool.worker w = some conn ∧ s.ret w = none ∧ s.pool.complete w = some pool ∧
      s' = { s with pool := pool, finish := update s.finish conn (s.finish conn || finish) } := by
  simp only [step] at h
  split at h
  · next conn hw hr =>
    split at h
    · obtain ⟨pool, hp, rfl⟩ := Option.map_eq_some_iff.mp h
      exact ⟨conn, pool, hw, hr, hp, rfl⟩
    · cases h
  · cases h

end Steps

/-! ## One worker at a time -/

/-- An event finds the connection's task neither queued nor running, or there is only one worker. -/
def Careful (s : Dispatch κ ω) : Label κ ω → Prop
  | .event conn => Subsingleton ω ∨ s.pool.Idle conn
  | _ => True

/-- What has arrived on a connection has been handled in order up to what a worker has in `buffer_` or
what has not been received. -/
inductive Tracks (s : Dispatch κ ω) (conn : κ) : Prop
  /-- No worker has anything in `buffer_`. -/
  | atRest (handled : List (List UInt8)) (arrived : s.arrived conn = handled ++ s.socket conn)
    (done : (s.task conn, s.texts conn) = rounds {} handled)
    (free : ∀ w, s.pool.worker w = some conn → s.ret w = none)
  /-- A worker has received and has yet to handle what it received. -/
  | inHand (handled : List (List UInt8)) (bytes : List UInt8) (w : ω)
    (arrived : s.arrived conn = handled ++ bytes :: s.socket conn)
    (done : (s.task conn, s.texts conn) = rounds {} handled)
    (inside : s.pool.worker w = some conn) (got : s.ret w = some bytes.length)
    (buffer : s.buffer conn = fillBuffer bytes)

/-- The invariant of a server whose events find idle tasks. -/
structure Ordered (s : Dispatch κ ω) : Prop where
  /-- Every task is queued or run at most once. -/
  once : Subsingleton ω ∨ s.pool.Once
  /-- Only a worker in `run` has received anything. -/
  ret_eq : ∀ w, s.pool.worker w = none → s.ret w = none
  /-- Every connection is served in order. -/
  tracks : ∀ conn, Tracks s conn

omit [DecidableEq κ] [DecidableEq ω] in
theorem Ordered.exclusive {s : Dispatch κ ω} (h : Ordered s) : s.pool.Exclusive := by
  rcases h.once with hsub | honce
  · exact fun w w' _ _ _ => Subsingleton.elim w w'
  · exact honce.exclusive

omit [DecidableEq κ] [DecidableEq ω] in
theorem ordered_init : Ordered ({} : Dispatch κ ω) where
  once := Or.inr ⟨List.nodup_nil, by simp, by rintro w w' conn ⟨⟩⟩
  ret_eq _ _ := rfl
  tracks _ := .atRest [] rfl rfl fun _ _ => rfl

omit [DecidableEq κ] [DecidableEq ω] in
theorem Tracks.congr {s s' : Dispatch κ ω} {conn : κ} (h : Tracks s conn)
    (harr : s'.arrived conn = s.arrived conn) (hsock : s'.socket conn = s.socket conn)
    (htask : s'.task conn = s.task conn) (htexts : s'.texts conn = s.texts conn) (hbuf : s'.buffer conn = s.buffer conn)
    (hfree : ∀ w, s'.pool.worker w = some conn → s'.ret w = none ∨ s.pool.worker w = some conn ∧ s'.ret w = s.ret w)
    (hkeep : ∀ w, s.pool.worker w = some conn → s.ret w ≠ none →
      s'.pool.worker w = some conn ∧ s'.ret w = s.ret w) : Tracks s' conn := by
  rcases h with ⟨handled, ha, hd, hf⟩ | ⟨handled, bytes, w, ha, hd, hin, hgot, hb⟩
  · refine .atRest handled (by rw [harr, hsock, ha]) (by rw [htask, htexts, hd]) fun w hw => ?_
    rcases hfree w hw with hr | ⟨hin, hr⟩
    · exact hr
    · rw [hr, hf w hin]
  · obtain ⟨hin', hr⟩ := hkeep w hin (by simp [hgot])
    exact .inHand handled bytes w (by rw [harr, hsock, ha]) (by rw [htask, htexts, hd]) hin'
      (by rw [hr, hgot]) (by rw [hbuf, hb])

omit [DecidableEq κ] in
theorem ret_of_ne {s : Dispatch κ ω} {w v : ω} {conn c : κ} (hw : s.pool.worker w = some conn) (hne : c ≠ conn)
    (hv : s.pool.worker v = some c) (r : Option ℤ) : update s.ret w r v = s.ret v := by
  have hvw : v ≠ w := by
    rintro rfl
    exact hne (Option.some.inj (hv.symm.trans hw))
  exact update_of_ne hvw r s.ret

section Preserve

variable {s s' : Dispatch κ ω} (h : Ordered s)
include h

theorem Ordered.arrive {conn : κ} {bytes : List UInt8} (hs : s.step (.arrive conn bytes) = some s') : Ordered s' := by
  simp only [step, Option.some.injEq] at hs
  subst hs
  refine ⟨h.once, h.ret_eq, fun c => ?_⟩
  obtain rfl | hne := eq_or_ne c conn
  · rcases h.tracks c with ⟨handled, harr, hdone, hfree⟩ | ⟨handled, b, w, harr, hdone, hin, hgot, hbuf⟩
    · exact .atRest handled (by simp [harr]) hdone hfree
    · exact .inHand handled b w (by simp [harr]) hdone hin hgot hbuf
  · exact (h.tracks c).congr (by simp [hne]) (by simp [hne]) rfl rfl rfl (fun w hw => Or.inr ⟨hw, rfl⟩)
      fun w hw _ => ⟨hw, rfl⟩

theorem Ordered.event {conn : κ} (hc : Careful s (.event conn)) (hs : s.step (.event conn) = some s') : Ordered s' := by
  simp only [step] at hs
  split_ifs at hs
  obtain rfl := Option.some.inj hs
  refine ⟨?_, h.ret_eq, fun c => (h.tracks c).congr rfl rfl rfl rfl rfl (fun w hw => Or.inr ⟨hw, rfl⟩)
    fun w hw _ => ⟨hw, rfl⟩⟩
  rcases h.once with hsub | honce
  · exact Or.inl hsub
  · exact hc.imp_right honce.addTask

theorem Ordered.dequeue {w : ω} (hs : s.step (.dequeue w) = some s') : Ordered s' := by
  obtain ⟨pool, hp, rfl⟩ := Option.map_eq_some_iff.mp hs
  obtain ⟨conn, rest, hw, -, hpool⟩ := WorkPool.dequeue_eq_some hp
  have hother : ∀ {v}, v ≠ w → pool.worker v = s.pool.worker v := fun hv => by simp [hpool, hv]
  refine ⟨h.once.imp_right fun ho => ho.dequeue hp, fun v hv => ?_,
    fun c => (h.tracks c).congr rfl rfl rfl rfl rfl (fun v hv => ?_) fun v hv _ => ?_⟩
  · obtain rfl | hne := eq_or_ne v w
    · simp [hpool] at hv
    · exact h.ret_eq v (hother hne ▸ hv)
  · obtain rfl | hne := eq_or_ne v w
    · exact Or.inl (h.ret_eq v hw)
    · exact Or.inr ⟨hother hne ▸ hv, rfl⟩
  · have hne : v ≠ w := by
      rintro rfl
      exact absurd (hw.symm.trans hv) (by simp)
    exact ⟨(hother hne).trans hv, rfl⟩

theorem Ordered.leave {w : ω} {finish : Bool} (hs : s.step (.leave w finish) = some s') : Ordered s' := by
  obtain ⟨conn, pool, hw, hr, hp, rfl⟩ := leave_eq_some hs
  obtain ⟨-, -, hpool⟩ := WorkPool.complete_eq_some hp
  have hother : ∀ {v}, v ≠ w → pool.worker v = s.pool.worker v := fun hv => by simp [hpool, hv]
  refine ⟨h.once.imp_right fun ho => ho.complete hp, fun v hv => ?_,
    fun c => (h.tracks c).congr rfl rfl rfl rfl rfl (fun v hv => ?_) fun v hv hgot => ?_⟩
  · obtain rfl | hne := eq_or_ne v w
    · exact hr
    · exact h.ret_eq v (hother hne ▸ hv)
  · obtain rfl | hne := eq_or_ne v w
    · exact Or.inl hr
    · exact Or.inr ⟨hother hne ▸ hv, rfl⟩
  · have hne : v ≠ w := by
      rintro rfl
      exact hgot hr
    exact ⟨(hother hne).trans hv, rfl⟩

theorem Ordered.recv {w : ω} (hs : s.step (.recv w) = some s') : Ordered s' := by
  obtain ⟨conn, bytes, rest, hw, hr, hsock, rfl⟩ := recv_eq_some hs
  refine ⟨h.once, fun v hv => ?_, fun c => ?_⟩
  · have hne : v ≠ w := by
      rintro rfl
      exact absurd (hw.symm.trans hv) (by simp)
    simpa [hne] using h.ret_eq v hv
  · obtain rfl | hne := eq_or_ne c conn
    · -- No other worker is in this task, so nothing was in hand.
      rcases h.tracks c with ⟨handled, harr, hdone, -⟩ | ⟨_, b, v, -, -, hin, hgot, -⟩
      · exact .inHand handled bytes w (by simp [harr, hsock]) hdone hw (by simp) (by simp)
      · rw [h.exclusive hin hw, hr] at hgot
        cases hgot
    · exact (h.tracks c).congr rfl (by simp [hne]) rfl rfl (by simp [hne])
        (fun v hv => Or.inr ⟨hv, ret_of_ne hw hne hv _⟩) fun v hv _ => ⟨hv, ret_of_ne hw hne hv _⟩

theorem Ordered.handle {w : ω} (hs : s.step (.handle w) = some s') : Ordered s' := by
  obtain ⟨conn, ret, hw, hr, rfl⟩ := handle_eq_some hs
  refine ⟨h.once, fun v hv => ?_, fun c => ?_⟩
  · have hne : v ≠ w := by
      rintro rfl
      exact absurd (hw.symm.trans hv) (by simp)
    simpa [hne] using h.ret_eq v hv
  · obtain rfl | hne := eq_or_ne c conn
    · -- What this worker has in hand is in `buffer_` still.
      rcases h.tracks c with ⟨_, -, -, hfree⟩ | ⟨handled, b, v, harr, hdone, hin, hgot, hbuf⟩
      · rw [hfree w hw] at hr
        cases hr
      · obtain rfl := h.exclusive hin hw
        obtain rfl : ret = b.length := Option.some.inj (hr.symm.trans hgot)
        obtain ⟨htask, htexts⟩ := Prod.mk.inj hdone
        refine .atRest (handled ++ [b]) (by simp [harr]) ?_ fun u hu => ?_
        · rw [rounds_snoc, ← htask, ← htexts]
          simp [hbuf, onReceived]
        · obtain rfl := h.exclusive hu hw
          simp
    · exact (h.tracks c).congr rfl rfl (by simp [hne]) (by simp [hne]) rfl
        (fun v hv => Or.inr ⟨hv, ret_of_ne hw hne hv _⟩) fun v hv _ => ⟨hv, ret_of_ne hw hne hv _⟩

theorem Ordered.step {l : Label κ ω} (hc : Careful s l) (hs : s.step l = some s') : Ordered s' := by
  cases l with
  | arrive conn bytes => exact h.arrive hs
  | event conn => exact h.event hc hs
  | dequeue w => exact h.dequeue hs
  | recv w => exact h.recv hs
  | handle w => exact h.handle hs
  | leave w finish => exact h.leave hs

end Preserve

/-- A run in which every event finds its task idle, or with one worker: no two workers are in `run` of
one task, and the texts of every connection are those of what arrived on it, in that order. -/
theorem one_worker_per_task {ls : List (Label κ ω)} {s : Dispatch κ ω}
    (h : Trace (fun s l s' => Careful s l ∧ s.step l = some s') {} ls s) :
    s.pool.Exclusive ∧ ∀ conn, ∃ handled rest, s.arrived conn = handled ++ rest ∧
      (s.task conn, s.texts conn) = rounds {} handled := by
  have hinv : Ordered s :=
    h.invariant (fun _ _ _ ho hl => Ordered.step ho hl.1 hl.2) ordered_init
  refine ⟨hinv.exclusive, fun conn => ?_⟩
  rcases hinv.tracks conn with ⟨handled, harr, hdone, -⟩ | ⟨handled, b, _, harr, hdone, -, -, -⟩
  · exact ⟨handled, _, harr, hdone⟩
  · exact ⟨handled, _, harr, hdone⟩

/-- The bytes of `"a;"`. -/
def textA : List UInt8 := [97, 59]

/-- The bytes of `"b;"`. -/
def textB : List UInt8 := [98, 59]

/-- Two statements on one connection of a server with three workers, the second of which arrives after
the first one has been handled. -/
theorem one_worker_per_task_two_events : ∃ s : Dispatch ℕ (Fin 3),
    Trace (fun s l s' => Careful s l ∧ s.step l = some s') {}
      [.arrive 0 textA, .event 0, .dequeue 0, .recv 0, .handle 0, .leave 0 false, .arrive 0 textB, .event 0,
        .dequeue 1, .recv 1, .handle 1] s ∧ s.texts 0 = [textA, textB] ∧
    (s.pool.Exclusive ∧ ∀ conn, ∃ handled rest, s.arrived conn = handled ++ rest ∧
      (s.task conn, s.texts conn) = rounds {} handled) := by
  have h : ∃ s : Dispatch ℕ (Fin 3), Trace (fun s l s' => Careful s l ∧ s.step l = some s') {}
      [.arrive 0 textA, .event 0, .dequeue 0, .recv 0, .handle 0, .leave 0 false, .arrive 0 textB, .event 0,
        .dequeue 1, .recv 1, .handle 1] s ∧ s.texts 0 = [textA, textB] := by
    refine ⟨_, .cons ⟨trivial, rfl⟩ (.cons ⟨Or.inr ⟨by decide, by decide⟩, rfl⟩ (.cons ⟨trivial, rfl⟩
      (.cons ⟨trivial, rfl⟩ (.cons ⟨trivial, rfl⟩ (.cons ⟨trivial, rfl⟩ (.cons ⟨trivial, rfl⟩
      (.cons ⟨Or.inr ⟨by decide, by decide⟩, rfl⟩ (.cons ⟨trivial, rfl⟩ (.cons ⟨trivial, rfl⟩
      (.single ⟨trivial, rfl⟩)))))))))), by decide⟩
  obtain ⟨s, hs, ht⟩ := h
  exact ⟨s, hs, ht, one_worker_per_task hs⟩

/-- The second statement arrives while a worker is in `run`: another worker goes into `run` of the same
task and overwrites `buffer_`, and the second statement is executed twice and the first one not at
all. -/
theorem two_workers_in_one_task : ∃ s s' : Dispatch ℕ (Fin 3),
    Run {} [.arrive 0 textA, .event 0, .dequeue 0, .recv 0, .arrive 0 textB, .event 0, .dequeue 1] s ∧
    s.pool.worker 0 = some 0 ∧ s.pool.worker 1 = some 0 ∧
    Run s [.recv 1, .handle 1, .handle 0] s' ∧ s'.texts 0 = [textB, textB] :=
  ⟨_, _, .cons rfl (.cons rfl (.cons rfl (.cons rfl (.cons rfl (.cons rfl (.single rfl)))))),
    by decide, by decide, .cons rfl (.cons rfl (.single rfl)), by decide⟩

end Dispatch

end Dawn
