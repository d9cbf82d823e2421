import Dawn.Lib.Bytes
import Dawn.Lib.Trace

/-!
# The pages that executors reserve

`get_threshold_page` and `return_threshold_page` of `src/include/buffer/buffer_pool_manager.h`. An
executor asks for half of what may be reserved and gives it back when it is closed. The first function
does not add what it grants to `allocated_threshold_pages_`, and the second subtracts it. So no call ever
waits, and the counter says how much has been given back, with a minus sign (`Reservations.Inv`): it
equals what the executors hold only as long as nothing has been granted (`accounted_iff`).

`size_t_` is a signed type, and a grant is at most half of what is available, so only the subtraction can leave its
range, after more than `2 ^ 31` pages have been returned. What the program does then is not defined.
-/

namespace Dawn

/-- The members of `BufferPoolManager` that count reserved pages. -/
structure ThresholdPages where
  /-- `available_threshold_page_`. -/
  availableThresholdPage : ℤ
  /-- `allocated_threshold_pages_`. -/
  allocatedThresholdPages : ℤ
  deriving DecidableEq, Repr

namespace ThresholdPages

/-- The members as `BufferPoolManager(disk_manager, pool_size)` sets them. -/
def new (poolSize : ℕ) : ThresholdPages := ⟨poolSize / 5 * 4, 0⟩

/-- `alloc_num` of `get_threshold_page`. -/
def allocNum (p : ThresholdPages) : ℤ := p.availableThresholdPage / 2

/-- One round of `get_threshold_page`: what it returns, or nothing where it goes on waiting. -/
def getThresholdPage (p : ThresholdPages) : Option ℤ :=
  if p.allocNum + p.allocatedThresholdPages > p.availableThresholdPage then none else some p.allocNum

/-- `return_threshold_page`, which is not defined if the counter overflows. -/
def returnThresholdPage (p : ThresholdPages) (retThrePage : ℤ) : Option ThresholdPages :=
  if IsI32 (p.allocatedThresholdPages - retThrePage) then
    some { p with allocatedThresholdPages := p.allocatedThresholdPages - retThrePage }
  else none

end ThresholdPages

/-- The counters, and what has been granted to executors and not been returned. -/
structure Reservations (E : Type) where
  pool : ThresholdPages
  grants : List (E × ℤ)

namespace Reservations

variable {E : Type}

/-- A call that has been completed. -/
inductive Call (E : Type) where
  /-- `get_threshold_page` by an executor. -/
  | get (e : E)
  /-- `return_threshold_page` by an executor, of a grant that it has. -/
  | ret (e : E) (n : ℤ)

/-- What a call does. The grant that is returned may be any of those that the executor has. -/
inductive Step : Reservations E → Call E → Reservations E → Prop
  | get {p : ThresholdPages} {l : List (E × ℤ)} {n : ℤ} (e : E) (h : p.getThresholdPage = some n) :
    Step ⟨p, l⟩ (.get e) ⟨p, (e, n) :: l⟩
  | ret {p p' : ThresholdPages} (l l' : List (E × ℤ)) (e : E) (n : ℤ) (h : p.returnThresholdPage n = some p') :
    Step ⟨p, l ++ (e, n) :: l'⟩ (.ret e n) ⟨p', l ++ l'⟩

/-- A pool of which nothing has been reserved. -/
def start (poolSize : ℕ) : Reservations E := ⟨ThresholdPages.new poolSize, []⟩

/-- The sum of the grants that have not been returned. -/
def granted (S : Reservations E) : ℤ := (S.grants.map Prod.snd).sum

/-- At most what is available is reserved, and the counter says how much. -/
def Accounted (S : Reservations E) : Prop :=
  S.granted ≤ S.pool.availableThresholdPage ∧ S.pool.allocatedThresholdPages = S.granted

instance (S : Reservations E) : Decidable S.Accounted := inferInstanceAs (Decidable (_ ∧ _))

/-- What the calls of a run leave: `k` grants have been returned, and every grant is of one size. -/
structure Inv (poolSize k : ℕ) (S : Reservations E) : Prop where
  available : S.pool.availableThresholdPage = poolSize / 5 * 4
  allocated : S.pool.allocatedThresholdPages = -(k * S.pool.allocNum)
  grants : ∀ g ∈ S.grants, g.2 = S.pool.allocNum

variable {poolSize k : ℕ} {S S' : Reservations E} {c : Call E} {ls : List (Call E)}

theorem inv_start (poolSize : ℕ) : Inv poolSize 0 (start poolSize : Reservations E) :=
  ⟨rfl, by simp [start, ThresholdPages.new], fun g hg => absurd hg List.not_mem_nil⟩

theorem Inv.granted_eq (h : Inv poolSize k S) : S.granted = S.grants.length * S.pool.allocNum := by
  have hall := h.grants
  unfold granted
  generalize S.grants = l at hall
  induction l with
  | nil => simp
  | cons g l ih =>
    rw [List.map_cons, List.sum_cons, ih fun g hg => hall g (List.mem_cons_of_mem _ hg),
      hall g List.mem_cons_self, List.length_cons]
    push_cast
    ring

theorem Inv.step (h : Inv poolSize k S) (hs : Step S c S') :
    ∃ k', Inv poolSize k' S' ∧ k + S.grants.length ≤ k' + S'.grants.length ∧ 1 ≤ k' + S'.grants.length := by
  cases hs with
  | get e hget =>
    unfold ThresholdPages.getThresholdPage at hget
    split_ifs at hget
    cases hget
    refine ⟨k, ⟨h.available, h.allocated, fun g hg => ?_⟩, ?_, ?_⟩
    · rcases List.mem_cons.mp hg with rfl | hg
      · rfl
      · exact h.grants g hg
    · simp only [List.length_cons]
      omega
    · simp only [List.length_cons]
      omega
  | @ret p p' l l' e n hret =>
    have hn : n = p.allocNum := h.grants (e, n) (by simp)
    unfold ThresholdPages.returnThresholdPage at hret
    split_ifs at hret
    cases hret
    refine ⟨k + 1, ⟨h.available, ?_, fun g hg => h.grants g ?_⟩, ?_, ?_⟩
    · have ha := h.allocated
      simp only [ThresholdPages.allocNum] at ha hn ⊢
      rw [ha, hn]
      push_cast
      ring
    · rcases List.mem_append.mp hg with hg | hg
      · exact List.mem_append_left _ hg
      · exact List.mem_append_right _ (List.mem_cons_of_mem _ hg)
    · simp only [List.length_append, List.length_cons]
      omega
    · omega

theorem Inv.trace (h : Trace Step S ls S') (hinv : Inv poolSize k S) :
    ∃ k', Inv poolSize k' S' ∧ k + S.grants.length ≤ k' + S'.grants.length ∧ (ls ≠ [] → 1 ≤ k' + S'.grants.length) := by
  induction h generalizing k with
  | nil => exact ⟨k, hinv, le_rfl, fun hne => absurd rfl hne⟩
  | cons hs ht ih =>
    obtain ⟨k1, h1, hle1, hone⟩ := hinv.step hs
    obtain ⟨k2, h2, hle2, -⟩ := ih h1
    exact ⟨k2, h2, hle1.trans hle2, fun _ => hone.trans hle2⟩

/-- The reservations of a run are accounted for exactly when the pool has too few frames to grant any or
no call has been completed. -/
theorem accounted_iff (h : Trace Step (start poolSize) ls S) :
    S.Accounted ↔ poolSize < 5 ∨ ls = [] := by
  obtain ⟨k, hinv, -, hone⟩ := Inv.trace h (inv_start poolSize)
  have hnum : S.pool.allocNum = poolSize / 5 * 2 := by
    rw [ThresholdPages.allocNum, hinv.available]
    omega
  have hg := hinv.granted_eq
  have ha := hinv.allocated
  constructor
  · rintro ⟨-, heq⟩
    by_contra hno
    rw [not_or] at hno
    have hpos : 2 ≤ S.pool.allocNum := by omega
    have hsum : ((k : ℤ) + S.grants.length) * S.pool.allocNum = 0 := by
      rw [ha, hg] at heq
      linear_combination -heq
    rcases mul_eq_zero.mp hsum with hzero | hzero
    · have := hone hno.2
      omega
    · omega
  · rintro (hsmall | rfl)
    · have hzero : S.pool.allocNum = 0 := by omega
      rw [Accounted, ha, hg, hzero, hinv.available]
      constructor
      · simp only [mul_zero]
        positivity
      · simp
    · cases h
      constructor
      · rw [hinv.available]
        change (0 : ℤ) ≤ _
        positivity
      · rfl

/-- The calls of three executors that each reserve pages and have not been closed. -/
def threeGets : List (Call (Fin 3)) := [.get 0, .get 1, .get 2]

theorem trace_threeGets : Trace Step (start 10) threeGets ⟨ThresholdPages.new 10, [((2 : Fin 3), 4), (1, 4), (0, 4)]⟩ :=
  .cons (.get 0 rfl) (.cons (.get 1 rfl) (.cons (.get 2 rfl) (.nil _)))

/-- Of a pool of ten frames three executors reserve twelve. -/
theorem accounted_iff_threeGets :
    Trace Step (start 10) threeGets ⟨ThresholdPages.new 10, [((2 : Fin 3), 4), (1, 4), (0, 4)]⟩ ∧
      (Accounted ⟨ThresholdPages.new 10, [((2 : Fin 3), 4), (1, 4), (0, 4)]⟩ ↔
        10 < 5 ∨ threeGets = []) :=
  ⟨trace_threeGets, accounted_iff trace_threeGets⟩

/-- With three executors the grants exceed both the limit and the pool, and the counter is still zero. -/
theorem reserved_more_than_available :
    ∃ (ls : List (Call (Fin 3))) (S : Reservations (Fin 3)), Trace Step (start 10) ls S ∧
      S.pool.availableThresholdPage = 8 ∧ S.granted = 12 ∧ S.pool.allocatedThresholdPages = 0 :=
  ⟨threeGets, _, trace_threeGets, rfl, rfl, rfl⟩

end Reservations

end Dawn
