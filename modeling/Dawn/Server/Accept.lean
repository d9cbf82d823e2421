import Dawn.Lib.Trace

/-!
# Accepting connections

The listening socket of `src/server/server.cpp`: a backlog of connections, and a readiness event that is
edge-triggered. A connection that arrives makes an event, or finds the one of an earlier connection that `epoll_wait`
has not collected yet; `process_epoll` accepts one connection for each event. So a connection that found an event is
left over when the server comes back to `epoll_wait` (`Listener.forgotten_iff`), and stays in the backlog until
the next client arrives.
-/

namespace Dawn

/-- `MAX_EVENT_NUMBER`. -/
def maxEventNumber : ℕ := 1024

/-- The events that `process_epoll` tells apart, for connections `κ`. -/
inductive EpollEvent (κ : Type)
  /-- `pipe_fd_[0]`: the server is to stop. -/
  | pipe
  /-- `listen_fd_`. -/
  | listen
  /-- `EPOLLIN` for the descriptor of a connection. -/
  | readable (conn : κ)
  /-- Another event for the descriptor of a connection. -/
  | other (conn : κ)
  deriving DecidableEq, Repr

/-- Where the thread in `Server::run` is. -/
inductive RunState (κ : Type)
  /-- `listen_fd_` has yet to be registered. -/
  | starting
  /-- In `epoll_wait`. -/
  | waiting
  /-- In the loop of `process_epoll`, with the events that are left. -/
  | processing (events : List (EpollEvent κ))
  /-- `run` has returned. -/
  | stopped
  deriving DecidableEq, Repr

/-- The listening socket and the server. -/
structure Listener (κ : Type) where
  /-- The connections that wait to be accepted. -/
  backlog : List κ := []
  /-- `listen_fd_` is ready, and `epoll_wait` has yet to report it. -/
  ready : Bool := false
  /-- The connections in `conn_`. -/
  conn : List κ := []
  run : RunState κ := .starting
  deriving DecidableEq, Repr

/-- The steps. -/
inductive ListenLabel (κ : Type)
  /-- A client connects. -/
  | arrive (conn : κ)
  /-- `run` registers `listen_fd_`. -/
  | register
  /-- `epoll_wait` returns with some events. -/
  | wake (events : List (EpollEvent κ))
  /-- `epoll_wait` returns with an error. -/
  | fail
  /-- A round of the loop of `process_epoll`, or its end. -/
  | process
  deriving DecidableEq, Repr

namespace Listener

variable {κ : Type} [DecidableEq κ]

/-- `accept` and what follows it. With nothing to accept it gives no connection. -/
def accept (s : Listener κ) (events : List (EpollEvent κ)) : Listener κ :=
  match s.backlog with
  | [] => { s with run := .processing events }
  | conn :: backlog => { s with backlog, conn := s.conn ++ [conn], run := .processing events }

/-- A round of the loop of `process_epoll` for one event. -/
def handle (s : Listener κ) (events : List (EpollEvent κ)) : EpollEvent κ → Option (Listener κ)
  | .pipe => some { s with run := .stopped }
  | .listen => some (s.accept events)
  | .readable conn =>
    -- A descriptor that is not in `conn_` ends the process.
    if conn ∈ s.conn then some { s with run := .processing events } else none
  | .other _ => some { s with run := .processing events }

/-- `epoll_wait` may return with these events: `listen_fd_` is among them at most once, and only if it is ready. -/
def Reports (s : Listener κ) (events : List (EpollEvent κ)) : Prop :=
  events ≠ [] ∧ events.length ≤ maxEventNumber ∧ events.count .listen ≤ s.ready.toNat

instance (s : Listener κ) (events : List (EpollEvent κ)) : Decidable (s.Reports events) :=
  inferInstanceAs (Decidable (_ ∧ _ ∧ _))

/-- One step. -/
def step (s : Listener κ) : ListenLabel κ → Option (Listener κ)
  | .arrive conn =>
    -- Before it is registered the socket makes no event.
    some { s with backlog := s.backlog ++ [conn], ready := s.run ≠ .starting }
  | .register =>
    if s.run = .starting then some { s with ready := s.backlog ≠ [], run := .waiting } else none
  | .wake events =>
    if s.run = .waiting ∧ s.Reports events then
      some { s with ready := s.ready && .listen ∉ events, run := .processing events }
    else none
  | .fail => if s.run = .waiting then some { s with run := .stopped } else none
  | .process =>
    match s.run with
    | .processing [] => some { s with run := .waiting }
    | .processing (event :: events) => s.handle events event
    | _ => none

/-- A run of clients and server. -/
abbrev Run (s : Listener κ) (ls : List (ListenLabel κ)) (s' : Listener κ) : Prop :=
  Trace (fun s l s' => s.step l = some s') s ls s'

/-- A client connects while the event of an earlier one is still there, or will be when the socket is registered. -/
def Merges (s : Listener κ) : ListenLabel κ → Prop
  | .arrive _ => s.ready = true ∨ (s.run = .starting ∧ s.backlog ≠ [])
  | _ => False

/-- A run in which every client that connects makes an event of its own. -/
abbrev OwnEvents (s : Listener κ) (ls : List (ListenLabel κ)) (s' : Listener κ) : Prop :=
  Trace (fun s l s' => s.step l = some s' ∧ ¬ s.Merges l) s ls s'

/-! ## What is left in the backlog -/

/-- The backlog is the connections for which there is an event, undelivered or yet to be handled, and `n` more. -/
def LeftOver (s : Listener κ) (n : ℕ) : Prop :=
  match s.run with
  | .starting => s.ready = false ∧ s.backlog.length = min 1 s.backlog.length + n
  | .waiting => s.backlog.length = s.ready.toNat + n
  | .processing events => s.backlog.length = s.ready.toNat + events.count .listen + n
  | .stopped => True

variable {s s' : Listener κ} {l : ListenLabel κ} {ls : List (ListenLabel κ)} {n : ℕ}

theorem LeftOver.arrive (h : s.LeftOver n) (conn : κ) (hs : s.step (.arrive conn) = some s') :
    (s.Merges (.arrive conn) → s'.LeftOver (n + 1)) ∧ (¬ s.Merges (.arrive conn) → s'.LeftOver n) := by
  obtain ⟨backlog, ready, conns, run⟩ := s
  rw [← Option.some.inj hs]
  cases run with
  | starting =>
    obtain ⟨rfl, hlen⟩ : ready = false ∧ backlog.length = min 1 backlog.length + n := h
    cases backlog with
    | nil =>
      obtain rfl : n = 0 := by simpa using hlen.symm
      exact ⟨by simp [Merges], fun _ => ⟨by simp, rfl⟩⟩
    | cons first backlog =>
      refine ⟨fun _ => ⟨by simp, ?_⟩, fun hown => absurd (.inr ⟨rfl, by simp⟩) hown⟩
      simp only [List.length_append, List.length_cons, List.length_nil] at hlen ⊢
      omega
  | waiting | processing =>
    cases ready <;> simp_all [LeftOver, Merges] <;> omega
  | stopped => exact ⟨fun _ => trivial, fun _ => trivial⟩

theorem LeftOver.wake {events : List (EpollEvent κ)} (h : s.LeftOver n) (hs : s.step (.wake events) = some s') :
    s'.LeftOver n := by
  simp only [step] at hs
  split at hs
  · next hw =>
    obtain ⟨hrun, -, -, hcount⟩ := hw
    simp only [LeftOver, hrun] at h
    rw [← Option.some.inj hs]
    simp only [LeftOver]
    by_cases hmem : .listen ∈ events
    · have hpos := List.count_pos_iff.mpr hmem
      have hle := Bool.toNat_le s.ready
      simp only [hmem, not_true_eq_false, decide_false, Bool.and_false, Bool.toNat_false]
      omega
    · simpa [hmem, List.count_eq_zero.mpr hmem] using h
  · cases hs

theorem LeftOver.process (h : s.LeftOver n) (hs : s.step .process = some s') : s'.LeftOver n := by
  simp only [step] at hs
  split at hs
  · next hrun =>
    rw [← Option.some.inj hs]
    simpa [LeftOver, hrun] using h
  · next event events hrun =>
    simp only [LeftOver, hrun] at h
    cases event with
    | pipe =>
      rw [← Option.some.inj hs]
      trivial
    | listen =>
      rw [← Option.some.inj hs, accept]
      rw [List.count_cons_self] at h
      split
      · next hnil =>
        rw [hnil, List.length_nil] at h
        omega
      · next c backlog hcons =>
        rw [hcons, List.length_cons] at h
        simp only [LeftOver]
        omega
    | readable conn =>
      simp only [handle] at hs
      split at hs
      · rw [← Option.some.inj hs]
        simpa [LeftOver] using h
      · cases hs
    | other conn =>
      rw [← Option.some.inj hs]
      simpa [LeftOver] using h
  · cases hs

theorem LeftOver.step (h : s.LeftOver n) (hs : s.step l = some s') :
    (s.Merges l → s'.LeftOver (n + 1)) ∧ (¬ s.Merges l → s'.LeftOver n) := by
  cases l with
  | arrive conn => exact h.arrive conn hs
  | register =>
    refine ⟨False.elim, fun _ => ?_⟩
    simp only [Listener.step] at hs
    split at hs
    · next hrun =>
      rw [← Option.some.inj hs]
      cases hb : s.backlog <;> simp_all [LeftOver]
    · cases hs
  | wake events => exact ⟨False.elim, fun _ => h.wake hs⟩
  | fail =>
    refine ⟨False.elim, fun _ => ?_⟩
    simp only [Listener.step] at hs
    split at hs
    · rw [← Option.some.inj hs]
      trivial
    · cases hs
  | process => exact ⟨False.elim, fun _ => h.process hs⟩

theorem ownEvents_cons (hs : s.step l = some s') {s'' : Listener κ} :
    OwnEvents s (l :: ls) s'' ↔ ¬ s.Merges l ∧ OwnEvents s' ls s'' := by
  constructor
  · rintro (_ | ⟨⟨hs1, hown⟩, ht⟩)
    obtain rfl := Option.some.inj (hs.symm.trans hs1)
    exact ⟨hown, ht⟩
  · rintro ⟨hown, ht⟩
    exact .cons ⟨hs, hown⟩ ht

theorem LeftOver.run (h : s.LeftOver n) (hr : Run s ls s') :
    ∃ m, n ≤ m ∧ s'.LeftOver m ∧ (m = n ↔ OwnEvents s ls s') := by
  induction hr generalizing n with
  | nil s => exact ⟨n, le_rfl, h, iff_of_true rfl (.nil s)⟩
  | @cons s s1 s2 l ls hs _ ih =>
    obtain ⟨hmerge, hown⟩ := h.step hs
    by_cases hm : s.Merges l
    · obtain ⟨m, hle, hleft, -⟩ := ih (hmerge hm)
      refine ⟨m, by omega, hleft, iff_of_false (by omega) fun ht => ?_⟩
      exact ((ownEvents_cons hs).mp ht).1 hm
    · obtain ⟨m, hle, hleft, hiff⟩ := ih (hown hm)
      refine ⟨m, hle, hleft, hiff.trans ?_⟩
      rw [ownEvents_cons hs]
      exact (and_iff_right hm).symm

/-- A connection is forgotten: the server waits, and no event will tell it of a connection that is there. -/
def Forgotten (s : Listener κ) : Prop := s.run = .waiting ∧ s.ready = false ∧ s.backlog ≠ []

/-- In every run, a connection is forgotten in the state that is reached exactly if the server waits in it with no
undelivered event, and not every client of the run made an event of its own. -/
theorem forgotten_iff (hr : Run {} ls s) :
    s.Forgotten ↔ s.run = .waiting ∧ s.ready = false ∧ ¬ OwnEvents {} ls s := by
  refine and_congr_right fun hwait => and_congr_right fun hready => not_congr ?_
  obtain ⟨m, -, hleft, hiff⟩ := LeftOver.run (n := 0) (s := {}) ⟨rfl, rfl⟩ hr
  simp only [LeftOver, hwait, hready, Bool.toNat_false, zero_add] at hleft
  rw [← hiff, ← List.length_eq_zero_iff, hleft]

/-- Two clients, one after the other. -/
theorem forgotten_iff_in_turn : ∃ (ls : List (ListenLabel Bool)) (s : Listener Bool), Run {} ls s ∧
    OwnEvents {} ls s ∧ s.conn = [false, true] ∧
    (s.Forgotten ↔ s.run = .waiting ∧ s.ready = false ∧ ¬ OwnEvents {} ls s) := by
  have hr : Run ({} : Listener Bool) [.register, .arrive false, .wake [.listen], .process, .process,
      .arrive true, .wake [.listen], .process, .process] ⟨[], false, [false, true], .waiting⟩ :=
    .cons rfl (.cons rfl (.cons rfl (.cons rfl (.cons rfl (.cons rfl (.cons rfl (.cons rfl (.single rfl))))))))
  have hown : OwnEvents ({} : Listener Bool) [.register, .arrive false, .wake [.listen], .process, .process,
      .arrive true, .wake [.listen], .process, .process] ⟨[], false, [false, true], .waiting⟩ := by
    refine .cons ⟨rfl, id⟩ (.cons ⟨rfl, ?_⟩ (.cons ⟨rfl, id⟩ (.cons ⟨rfl, id⟩ (.cons ⟨rfl, id⟩
      (.cons ⟨rfl, ?_⟩ (.cons ⟨rfl, id⟩ (.cons ⟨rfl, id⟩ (.single ⟨rfl, id⟩))))))))
    · simp [Merges]
    · simp [Merges, accept]
  exact ⟨_, _, hr, hown, rfl, forgotten_iff hr⟩

/-- Two clients connect before `epoll_wait` returns: one of them is accepted, and the server waits again. -/
theorem second_client_forgotten : ∃ s : Listener Bool,
    Run {} [.register, .arrive false, .arrive true, .wake [.listen], .process, .process] s ∧
    s.Forgotten ∧ s.backlog = [true] :=
  ⟨_, .cons rfl (.cons rfl (.cons rfl (.cons rfl (.cons rfl (.single rfl))))), ⟨rfl, rfl, by decide⟩, rfl⟩

end Listener

end Dawn
