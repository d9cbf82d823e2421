import Dawn.Lib.Trace
import Dawn.Server.Task

/-!
# The bytes of a connection

The receive loop of `HandleClientMsgTask::run` (`src/server/task.cpp`), one `recv` after another and one
invocation after another. Bytes are split at a semicolon, handed over, kept for the next round or the next
invocation; at the head of the loop and between two invocations, what was handed over and what is kept
are together what was received (`Receiver.conserves`). The runs of the loop are the ones that `run` and
`runs` compute (`Receiver.trace_runs`).
-/

namespace Dawn

open HandleClientMsgTask

/-- A task with its history: at the head of the loop of an invocation of `run`, or between two
invocations. -/
structure Receiver where
  task : HandleClientMsgTask := {}
  /-- A thread is in `run`. -/
  running : Bool := false
  /-- The texts passed to `handle_sql` so far. -/
  texts : List (List UInt8) := []
  /-- The bytes received so far. -/
  received : List UInt8 := []
  deriving DecidableEq, Repr

/-- The steps of a receiver. -/
inductive ReceiveLabel
  /-- A thread calls `run`. -/
  | invoke
  /-- A round of the loop, with what `recv` gives in it. -/
  | recv (result : RecvResult)
  deriving DecidableEq, Repr

/-- What `recv` gives is empty of terminators, and as many bytes as it may be. -/
def ReceiveLabel.Fits : ReceiveLabel → Prop
  | .recv (.received bytes) => 1 ≤ bytes.length ∧ bytes.length ≤ recvBufferSize - 1 ∧ (0 : UInt8) ∉ bytes
  | _ => True

namespace Receiver

/-- One step: the call of `run`, or a round of its loop. -/
def step (r : Receiver) : ReceiveLabel → Option Receiver
  | .invoke => if r.running then none else some { r with running := true }
  | .recv result =>
    if r.running then
      match result with
      | .received bytes =>
        let (task, sqls) := onReceived r.task bytes
        some { r with task, texts := r.texts ++ sqls, received := r.received ++ bytes }
      | .wouldBlock => some { r with running := false }
      | .failed => some { r with task := { r.task with finish := true }, running := false }
      | .closed => some { r with task := { r.task with finish := true }, running := false }
    else none

/-- A run of the receive loop over any number of invocations. -/
abbrev Run (r : Receiver) (ls : List ReceiveLabel) (r' : Receiver) : Prop :=
  Trace (fun r l r' => r.step l = some r') r ls r'

variable {r r' : Receiver} {l : ReceiveLabel} {ls : List ReceiveLabel}

/-- Nothing is lost, duplicated or reordered, and only whole statements are handed over. -/
structure Conserves (r : Receiver) : Prop where
  /-- What was handed over and what is kept is what was received. -/
  bytes : r.texts.flatten ++ r.task.tmp = r.received
  /-- A text ends with the semicolon at which it was cut. -/
  ends : ∀ text ∈ r.texts, text.getLast? = some semicolon
  /-- No terminator is kept. -/
  nul : (0 : UInt8) ∉ r.task.tmp

theorem conserves_init : Conserves {} := ⟨rfl, by simp, by simp⟩

theorem Conserves.onReceived (h : r.Conserves) {bytes : List UInt8}
    (hsize : bytes.length ≤ recvBufferSize - 1) (hnul : (0 : UInt8) ∉ bytes) : Conserves { r with
      task := (onReceived r.task bytes).1
      texts := r.texts ++ (HandleClientMsgTask.onReceived r.task bytes).2
      received := r.received ++ bytes } := by
  by_cases hmem : semicolon ∈ bytes
  · -- The bytes are cut behind the first semicolon.
    obtain ⟨pre, post, rfl, hpre⟩ := List.eq_append_cons_of_mem hmem
    have hpost : (0 : UInt8) ∉ post := fun hm => hnul (by simp [hm])
    have hstart : (0 : UInt8) ∉ r.task.tmp ++ pre := by
      rw [List.mem_append, not_or]
      exact ⟨h.nul, fun hm => hnul (List.mem_append_left _ hm)⟩
    rw [onReceived_append hsize hpre hstart]
    refine ⟨?_, fun text ht => ?_, hpost⟩
    · simp [← h.bytes]
    · rcases List.mem_append.mp ht with ht | ht
      · exact h.ends text ht
      · rw [List.mem_singleton.mp ht, List.getLast?_concat]
  · rw [onReceived_of_notMem hsize hmem]
    refine ⟨by simp [← h.bytes], by simpa using h.ends, ?_⟩
    rw [List.mem_append, not_or]
    exact ⟨h.nul, hnul⟩

theorem Conserves.step (h : r.Conserves) (hfit : l.Fits) (hs : r.step l = some r') : r'.Conserves := by
  cases l with
  | invoke =>
    simp only [Receiver.step] at hs
    split at hs
    · cases hs
    · rw [← Option.some.inj hs]
      exact ⟨h.bytes, h.ends, h.nul⟩
  | recv result =>
    simp only [Receiver.step] at hs
    split at hs
    · cases result with
      | received bytes =>
        rw [← Option.some.inj hs]
        exact h.onReceived hfit.2.1 hfit.2.2
      | wouldBlock | failed | closed =>
        rw [← Option.some.inj hs]
        exact ⟨h.bytes, h.ends, h.nul⟩
    · cases hs

/-- The bytes that the rounds of a run receive. -/
def bytesOf (ls : List ReceiveLabel) : List UInt8 :=
  ls.flatMap fun
    | .recv (.received bytes) => bytes
    | _ => []

theorem received_step (hs : r.step l = some r') : r'.received = r.received ++ bytesOf [l] := by
  cases l with
  | invoke =>
    simp only [step] at hs
    split at hs
    · cases hs
    · simp [← Option.some.inj hs, bytesOf]
  | recv result =>
    simp only [step] at hs
    split at hs
    · cases result <;> simp [← Option.some.inj hs, bytesOf]
    · cases hs

theorem received_run (h : Run r ls r') : r'.received = r.received ++ bytesOf ls := by
  induction h with
  | nil r => simp [bytesOf]
  | cons hs _ ih =>
    rw [ih, received_step hs]
    simp [bytesOf]

theorem Conserves.run (h : r.Conserves) (hfit : ∀ l ∈ ls, l.Fits) (hrun : Run r ls r') : r'.Conserves := by
  induction hrun with
  | nil => exact h
  | cons hs _ ih =>
    obtain ⟨hl, hls⟩ := List.forall_mem_cons.mp hfit
    exact ih (h.step hl hs) hls

/-- At every point of every run of a task's receive loop, over any number of invocations and any cut of a
stream without terminators, the texts handed to `handle_sql` followed by `tmp_` are the bytes received so
far, and every text ends with a semicolon. -/
theorem conserves (hrun : Run {} ls r) (hfit : ∀ l ∈ ls, l.Fits) :
    r.texts.flatten ++ r.task.tmp = bytesOf ls ∧ ∀ text ∈ r.texts, text.getLast? = some semicolon := by
  have h := conserves_init.run hfit hrun
  exact ⟨h.bytes.trans (received_run hrun), h.ends⟩

/-- `"a;b"` and `"c;"`, in an invocation each. -/
theorem conserves_two_calls : ∃ r ls, Run {} ls r ∧ (∀ l ∈ ls, l.Fits) ∧
    r.texts = [[97, 59], [98, 99, 59]] ∧
    (r.texts.flatten ++ r.task.tmp = bytesOf ls ∧ ∀ text ∈ r.texts, text.getLast? = some semicolon) := by
  have hrun : Run {} [.invoke, .recv (.received [97, 59, 98]), .recv .wouldBlock, .invoke,
      .recv (.received [99, 59])] ⟨{}, true, [[97, 59], [98, 99, 59]], [97, 59, 98, 99, 59]⟩ :=
    .cons rfl (.cons rfl (.cons rfl (.cons rfl (.single (by decide)))))
  have hfit : ∀ l ∈ [ReceiveLabel.invoke, .recv (.received [97, 59, 98]), .recv .wouldBlock, .invoke,
      .recv (.received [99, 59])], l.Fits := by
    simp [ReceiveLabel.Fits, recvBufferSize]
  exact ⟨_, _, hrun, hfit, rfl, conserves hrun hfit⟩

/-! ## The runs are those of `run` -/

/-- The steps of one invocation of `run`. -/
def callLabels (results : List RecvResult) : List ReceiveLabel := .invoke :: results.map .recv

theorem step_received (task : HandleClientMsgTask) (bytes : List UInt8) (texts : List (List UInt8))
    (received : List UInt8) : step ⟨task, true, texts, received⟩ (.recv (.received bytes)) =
      some ⟨(HandleClientMsgTask.onReceived task bytes).1, true,
        texts ++ (HandleClientMsgTask.onReceived task bytes).2, received ++ bytes⟩ := rfl

theorem trace_loop {task task' : HandleClientMsgTask} {results rest : List RecvResult}
    {sqls : List (List UInt8)} (h : run task results = some (task', sqls, rest))
    (texts : List (List UInt8)) (received : List UInt8) :
    ∃ used, results = used ++ rest ∧ Run ⟨task, true, texts, received⟩ (used.map .recv)
      ⟨task', false, texts ++ sqls, received ++ (receivedBytes used).flatten⟩ := by
  induction results generalizing task texts received sqls with
  | nil => cases h
  | cons result results ih =>
    cases result with
    | received bytes =>
      simp only [run, bind_eq_some, Option.some.injEq, Prod.mk.injEq, Prod.exists] at h
      obtain ⟨task1, sqls1, rest1, hr, rfl, rfl, rfl⟩ := h
      obtain ⟨used, rfl, ht⟩ :=
        ih hr (texts ++ (HandleClientMsgTask.onReceived task bytes).2) (received ++ bytes)
      refine ⟨.received bytes :: used, rfl, .cons (step_received task bytes texts received) ?_⟩
      simpa [receivedBytes] using ht
    | wouldBlock | failed | closed =>
      obtain ⟨rfl, rfl, rfl⟩ : _ = task' ∧ [] = sqls ∧ results = rest := by simpa [run] using h
      exact ⟨[_], rfl, .single (by simp [step, receivedBytes])⟩

/-- What `runs` computes is a run of the receive loop: an invocation for each list of `recv` results, which
uses them up to the one at which it returns. -/
theorem trace_runs {task task' : HandleClientMsgTask} {calls : List (List RecvResult)}
    {sqls : List (List UInt8)} (h : runs task calls = some (task', sqls))
    (texts : List (List UInt8)) (received : List UInt8) :
    ∃ used, List.Forall₂ (· <+: ·) used calls ∧ Run ⟨task, false, texts, received⟩ (used.flatMap callLabels)
      ⟨task', false, texts ++ sqls, received ++ (receivedBytes used.flatten).flatten⟩ := by
  induction calls generalizing task texts received sqls with
  | nil =>
    obtain ⟨rfl, rfl⟩ : task = task' ∧ [] = sqls := by simpa [runs] using h
    exact ⟨[], .nil, by simpa [receivedBytes] using Trace.nil _⟩
  | cons results calls ih =>
    simp only [runs, bind_eq_some, Option.some.injEq, Prod.mk.injEq, Prod.exists] at h
    obtain ⟨task1, sqls1, rest1, hr, task2, sqls2, hrs, rfl, rfl⟩ := h
    obtain ⟨used1, rfl, ht1⟩ := trace_loop hr texts received
    obtain ⟨used, hused, ht⟩ := ih hrs (texts ++ sqls1) (received ++ (receivedBytes used1).flatten)
    refine ⟨used1 :: used, .cons ⟨rest1, rfl⟩ hused, ?_⟩
    have hcall : Run ⟨task, false, texts, received⟩ (callLabels used1)
        ⟨task1, false, texts ++ sqls1, received ++ (receivedBytes used1).flatten⟩ := .cons rfl ht1
    simpa [receivedBytes, List.filterMap_append] using hcall.append ht

/-- A call that receives `a;`. -/
theorem trace_runs_one : ∃ used, List.Forall₂ (· <+: ·) used [[.received [97, 59], .wouldBlock]] ∧
    Run ⟨{}, false, [], []⟩ (used.flatMap callLabels) ⟨{}, false, [[97, 59]], (receivedBytes used.flatten).flatten⟩ :=
  trace_runs (by decide +kernel) [] []

end Receiver

end Dawn
