import Dawn.Buffer.FrameBook

/-!
# Threads on one buffer pool

`new_page`, `get_page` and `unpin_page` (`src/buffer/buffer_pool_manager.cpp`) as threads run them: every section
under the pool's latch, every call of the replacer and every section under a page's latch is one step. A
thread that finds no free frame lets go of the latch, chooses a victim, reads the page id of its frame, evicts
that page, and takes the latch again.

None of these steps looks again at what an earlier one found. In between, another thread can get the page that
is about to be evicted (`held_page_is_evicted`), read the same page into another frame, or get a new page whose
frame is not set up yet. In a run in which that does not happen, the pages that were handed out stay where they
are (`handed_out_pages_stay`).
-/

namespace Dawn

open Function

open BufferPoolManager

/-- The calls that need a frame, with their page: a new page has its id from the disk manager. -/
inductive FrameCall
  | get (p : ℤ)
  | new (p : ℤ)
  deriving DecidableEq

/-- The page of a call. -/
def FrameCall.page : FrameCall → ℤ
  | .get p => p
  | .new p => p

/-- Where a thread is. -/
inductive PoolPc (n : ℕ)
  /-- In none of the calls. -/
  | idle
  /-- `free_list_` was empty, and the latch is released. -/
  | wait (call : FrameCall)
  /-- `victim` has given a frame. -/
  | chosen (call : FrameCall) (f : Fin n)
  /-- The page id of the frame has been read for `evict_page`. -/
  | evict (call : FrameCall) (f : Fin n) (old : ℤ)
  /-- Before `latch_.w_lock()` and the test of the loop. -/
  | retry (call : FrameCall)
  /-- `alloc_page` has taken the frame, and has yet to set up the page. -/
  | init (p : ℤ) (f : Fin n)
  deriving DecidableEq

/-- A pool, its threads, and who holds which page in which frame. -/
structure PoolThreads (θ : Type) (n : ℕ) where
  pool : BufferPoolManager n
  pc : θ → PoolPc n := fun _ => .idle
  held : Multiset (θ × ℤ × Fin n) := 0

namespace PoolThreads

/-- The steps of a thread. -/
inductive Label (θ : Type) (n : ℕ)
  /-- `get_page`, up to where it returns or releases the latch. -/
  | getPage (t : θ) (p : ℤ)
  /-- `alloc_page` gets an id from the disk manager. -/
  | newPage (t : θ)
  | victim (t : θ)
  /-- `pages_[frame_id].get_page_id()`. -/
  | readId (t : θ)
  | evictPage (t : θ)
  /-- The loop goes round, or ends with a frame. -/
  | retry (t : θ)
  /-- `alloc_page` sets up the page, and returns. -/
  | init (t : θ)
  /-- `unpin_page`, for a page that was handed out in this frame. -/
  | unpinPage (t : θ) (p : ℤ) (f : Fin n) (dirty : Bool)

variable {θ : Type} [DecidableEq θ] {n : ℕ}

/-- A thread goes on. -/
def goTo (s : PoolThreads θ n) (t : θ) (pc : PoolPc n) : PoolThreads θ n :=
  { s with pc := Function.update s.pc t pc }

/-- The pool after `get_page` has read a page into a free frame. -/
def readIn (b : BufferPoolManager n) (p : ℤ) (f : Fin n) (rest : List (Fin n)) (data : Bytes) :
    BufferPoolManager n :=
  let b := b.setPage f ({ b.pages f with data := data }.onLoad p)
  { b.insertMapping p f with freeList := rest }

/-- The rest of a section that holds the latch and needs a frame. The disk calls succeed. -/
def takeFrame (s : PoolThreads θ n) (t : θ) (call : FrameCall) : Option (PoolThreads θ n) :=
  match s.pool.freeList with
  | [] => some (s.goTo t (.wait call))
  | f :: rest =>
    match call with
    | .get p =>
      let (good, data, disk) := s.pool.disk.readPage p (s.pool.pages f).data
      let b := { s.pool with disk := disk }
      if ¬ good then none
      else if data statusOffset ≠ statusExist then some { s.goTo t .idle with pool := b.filled f data }
      else some { s.goTo t .idle with pool := readIn b p f rest data, held := (t, p, f) ::ₘ s.held }
    | .new p => some { s.goTo t (.init p f) with pool := { s.pool.insertMapping p f with freeList := rest } }

/-- One step. -/
def step [NeZero n] (s : PoolThreads θ n) : Label θ n → Option (PoolThreads θ n)
  | .getPage t p =>
    if s.pc t ≠ .idle then none
    else if p ≤ invalidPageId then some s
    else
      match s.pool.mapping p with
      | some f => some { s with pool := s.pool.pinned f, held := (t, p, f) ::ₘ s.held }
      | none => s.takeFrame t (.get p)
  | .newPage t =>
    if s.pc t ≠ .idle then none
    else
      match s.pool.disk.allocPage statusExist with
      | some (p, disk) =>
        if 0 ≤ p then some { s.goTo t (.retry (.new p)) with pool := { s.pool with disk := disk } } else none
      | none => none
  | .victim t =>
    match s.pc t with
    | .wait call =>
      (s.pool.replacer.victim).map fun (f, replacer) =>
        { s.goTo t (.chosen call f) with pool := { s.pool with replacer := replacer } }
    | _ => none
  | .readId t =>
    match s.pc t with
    | .chosen call f => some (s.goTo t (.evict call f (s.pool.pages f).pageId))
    | _ => none
  | .evictPage t =>
    match s.pc t with
    | .evict call f old =>
      match s.pool.mapping old with
      | none => some (s.goTo t (.retry call))
      | some _ => some { s.goTo t (.retry call) with pool := s.pool.evicted old f }
    | _ => none
  | .retry t =>
    match s.pc t with
    | .retry call => s.takeFrame t call
    | _ => none
  | .init t =>
    match s.pc t with
    | .init p f =>
      some { s.goTo t .idle with
        pool := s.pool.setPage f ((s.pool.pages f).onAlloc p)
        held := (t, p, f) ::ₘ s.held }
    | _ => none
  | .unpinPage t p f dirty =>
    if s.pc t = .idle ∧ (t, p, f) ∈ s.held then
      let held := s.held.erase (t, p, f)
      match s.pool.mapping p with
      | some g => some { s with pool := s.pool.unpinned g dirty, held := held }
      | none => some { s with held := held }
    else none

/-- What a step finds when no other thread has come in between: a page that is in the pool is set up, a page
that is to be read in or entered is not in the pool, and a page that is to be evicted is still in its frame and
not pinned. -/
def Careful (s : PoolThreads θ n) : Label θ n → Prop
  | .getPage _ p => ∀ f, s.pool.mapping p = some f → (s.pool.pages f).pageId = p
  | .retry t => ∀ call, s.pc t = .retry call → s.pool.freeList ≠ [] → s.pool.mapping call.page = none
  | .evictPage t => ∀ call f old, s.pc t = .evict call f old → ∀ g, s.pool.mapping old = some g →
    g = f ∧ (s.pool.pages f).pageId = old ∧ (s.pool.pages f).pinCount = 0
  | _ => True

/-! ## The books -/

/-- The frame that a thread has yet to set up. -/
def pendingOf : PoolPc n → Option (ℤ × Fin n)
  | .init p f => some (p, f)
  | _ => none

/-- The call for which a thread needs a frame. -/
def callOf : PoolPc n → Option FrameCall
  | .wait call | .chosen call _ | .evict call _ _ | .retry call => some call
  | _ => none

/-- The books of the pool. -/
def book (s : PoolThreads θ n) : FrameBook θ n where
  mapping := s.pool.mapping
  free := s.pool.freeList
  pageId f := (s.pool.pages f).pageId
  pinCount f := (s.pool.pages f).pinCount
  pending t := pendingOf (s.pc t)
  held := s.held

/-- The books are in order, and the calls are for page ids. -/
structure Sound (s : PoolThreads θ n) : Prop where
  inOrder : s.book.Sound
  page : ∀ t call, callOf (s.pc t) = some call → 0 ≤ call.page

section Books

variable {s : PoolThreads θ n} {t : θ} {p : ℤ} {f : Fin n} {pc : PoolPc n}

omit [DecidableEq θ] in
theorem map_update (F : Page → ℤ) (pages : Fin n → Page) (f : Fin n) (x : Page) :
    (fun g => F (update pages f x g)) = update (fun g => F (pages g)) f (F x) :=
  funext fun g => Function.apply_update (fun _ => F) pages f x g

theorem pending_goTo (s : PoolThreads θ n) (t : θ) (pc : PoolPc n) :
    (fun u => pendingOf ((s.goTo t pc).pc u)) = update s.book.pending t (pendingOf pc) :=
  funext fun u => Function.apply_update (fun _ => pendingOf) s.pc t pc u

theorem pending_goTo_of_none (ht : pendingOf (s.pc t) = none) (hpc : pendingOf pc = none) :
    (fun u => pendingOf ((s.goTo t pc).pc u)) = s.book.pending := by
  rw [pending_goTo, hpc, ← ht]
  exact update_eq_self t s.book.pending

theorem Sound.page_goTo (h : Sound s) (hpc : ∀ call, callOf pc = some call → 0 ≤ call.page) :
    ∀ u call, callOf ((s.goTo t pc).pc u) = some call → 0 ≤ call.page := by
  intro u call hu
  simp only [goTo, update_apply] at hu
  split_ifs at hu
  · exact hpc call hu
  · exact h.page u call hu

theorem Sound.move (h : Sound s) {b : BufferPoolManager n} (ht : pendingOf (s.pc t) = none)
    (hpend : pendingOf pc = none) (hpc : ∀ call, callOf pc = some call → 0 ≤ call.page)
    (hmap : b.mapping = s.pool.mapping) (hfree : b.freeList = s.pool.freeList)
    (hid : ∀ g, (b.pages g).pageId = (s.pool.pages g).pageId)
    (hpin : ∀ g, (b.pages g).pinCount = (s.pool.pages g).pinCount) : Sound { s.goTo t pc with pool := b } := by
  refine ⟨?_, h.page_goTo hpc⟩
  have hbook : book { s.goTo t pc with pool := b } = s.book := by
    simp only [book, hmap, hfree, hid, hpin, FrameBook.mk.injEq, true_and]
    exact ⟨pending_goTo_of_none ht hpend, rfl⟩
  rw [hbook]
  exact h.inOrder

theorem Sound.goOn (h : Sound s) {call : FrameCall} (ht : pendingOf (s.pc t) = none) (h0 : 0 ≤ call.page)
    (hpend : pendingOf pc = none) (hpc : callOf pc = some call) (disk : DiskManager) (replacer : ClockReplacer n) :
    Sound { s.goTo t pc with pool := { s.pool with disk := disk, replacer := replacer } } :=
  h.move ht hpend (fun c hc => by rwa [← Option.some.inj (hpc.symm.trans hc)]) rfl rfl (fun _ => rfl)
    fun _ => rfl

theorem book_load (ht : pendingOf (s.pc t) = none) (hm : s.pool.mapping p = none) (disk : DiskManager)
    (free rest : List (Fin n)) (data : Bytes) : book { s.goTo t .idle with
      pool := readIn { s.pool with freeList := free, disk := disk } p f rest data
      held := (t, p, f) ::ₘ s.held } = s.book.load t p f rest := by
  simp only [book, FrameBook.load, readIn, setPage]
  rw [insertMapping_of_none (by exact hm)]
  simp only [FrameBook.mk.injEq, true_and, and_true]
  exact ⟨map_update Page.pageId _ _ _, map_update Page.pinCount _ _ _, pending_goTo_of_none ht rfl⟩

theorem book_take (hm : s.pool.mapping p = none) (t : θ) (rest : List (Fin n)) :
    book { s.goTo t (.init p f) with pool := { s.pool.insertMapping p f with freeList := rest } } =
      s.book.take t p f rest := by
  simp only [book, FrameBook.take]
  rw [insertMapping_of_none (by exact hm)]
  simp only [FrameBook.mk.injEq, true_and]
  exact ⟨pending_goTo s t _, rfl⟩

omit [DecidableEq θ] in
theorem book_pin [NeZero n] (s : PoolThreads θ n) (t : θ) (p : ℤ) (f : Fin n) :
    book { s with pool := s.pool.pinned f, held := (t, p, f) ::ₘ s.held } = s.book.pin t p f := by
  simp only [book, FrameBook.pin, pinned, FrameBook.mk.injEq, true_and, and_true]
  refine ⟨?_, map_update Page.pinCount _ _ _⟩
  rw [map_update Page.pageId]
  exact update_eq_self f _

theorem book_evict {call : FrameCall} (ht : pendingOf (s.pc t) = none) (old : ℤ) (f : Fin n) :
    book { s.goTo t (.retry call) with pool := s.pool.evicted old f } = s.book.evict old f := by
  simp only [book, FrameBook.evict, evicted, FrameBook.mk.injEq, true_and]
  refine ⟨map_update Page.pageId _ _ _, ?_, pending_goTo_of_none ht rfl, rfl⟩
  rw [map_update Page.pinCount]
  exact update_eq_self f _

theorem book_setUp (s : PoolThreads θ n) (t : θ) (p : ℤ) (f : Fin n) : book { s.goTo t .idle with
      pool := s.pool.setPage f ((s.pool.pages f).onAlloc p)
      held := (t, p, f) ::ₘ s.held } = s.book.setUp t p f := by
  simp only [book, FrameBook.setUp, setPage, FrameBook.mk.injEq, true_and, and_true]
  exact ⟨map_update Page.pageId _ _ _, map_update Page.pinCount _ _ _, pending_goTo s t .idle⟩

theorem book_unpin (s : PoolThreads θ n) (t : θ) (p : ℤ) (f : Fin n) (dirty : Bool) :
    book { s with pool := s.pool.unpinned f dirty, held := s.held.erase (t, p, f) } =
      s.book.unpin t p f := by
  simp only [book, FrameBook.unpin, unpinned, FrameBook.mk.injEq, true_and, and_true]
  refine ⟨?_, map_update Page.pinCount _ _ _⟩
  rw [map_update Page.pageId]
  exact update_eq_self f _

end Books

/-! ## What the steps keep -/

section Steps

variable {s s' : PoolThreads θ n} {t : θ}

theorem Sound.takeFrame (h : Sound s) (call : FrameCall) (ht : pendingOf (s.pc t) = none) (h0 : 0 ≤ call.page)
    (hm : s.pool.freeList ≠ [] → s.pool.mapping call.page = none) (hs : s.takeFrame t call = some s') : Sound s' := by
  unfold PoolThreads.takeFrame at hs
  cases hfree : s.pool.freeList with
  | nil =>
    simp only [hfree] at hs
    obtain rfl := Option.some_injective _ hs
    exact h.goOn ht h0 rfl rfl s.pool.disk s.pool.replacer
  | cons f rest =>
    have hm := hm (by simp [hfree])
    simp only [hfree] at hs
    cases call with
    | get p =>
      rcases hread : s.pool.disk.readPage p (s.pool.pages f).data with ⟨good, data, disk⟩
      simp only [hread] at hs
      split_ifs at hs with hgood hexist
      · -- The frame has the bytes of a page that does not exist, and stays free.
        obtain rfl := Option.some_injective _ hs
        refine h.move ht rfl (fun c hc => by cases hc) rfl hfree.symm (fun g => ?_) (fun g => ?_) <;>
        · simp only [filled, update_apply]
          split_ifs with hg
          · rw [hg]
          · rfl
      · obtain rfl := Option.some_injective _ hs
        refine ⟨?_, h.page_goTo fun c hc => by cases hc⟩
        rw [book_load (p := p) ht hm]
        exact h.inOrder.load hfree hm h0 ht
    | new p =>
      obtain rfl := Option.some_injective _ hs
      refine ⟨?_, h.page_goTo fun c hc => by cases hc⟩
      rw [book_take (p := p) hm]
      exact h.inOrder.take hfree hm h0 ht

theorem Sound.step [NeZero n] (h : Sound s) {l : Label θ n} (hl : Careful s l) (hs : s.step l = some s') :
    Sound s' := by
  cases l with
  | getPage t p =>
    simp only [PoolThreads.step] at hs
    split_ifs at hs with hidle hp
    · exact Option.some_injective _ hs ▸ h
    · have ht : pendingOf (s.pc t) = none := by rw [not_not.mp hidle]; rfl
      have h0 : 0 ≤ p := by
        simp only [invalidPageId] at hp
        omega
      cases hm : s.pool.mapping p with
      | none =>
        simp only [hm] at hs
        exact h.takeFrame (.get p) ht h0 (fun _ => hm) hs
      | some f =>
        simp only [hm] at hs
        obtain rfl := Option.some_injective _ hs
        refine ⟨?_, h.page⟩
        rw [book_pin]
        exact h.inOrder.pin hm (hl f hm)
  | newPage t =>
    simp only [PoolThreads.step] at hs
    split_ifs at hs with hidle
    have ht : pendingOf (s.pc t) = none := by rw [not_not.mp hidle]; rfl
    split at hs
    · rename_i p disk _
      split_ifs at hs with h0
      obtain rfl := Option.some_injective _ hs
      exact h.goOn ht (show 0 ≤ (FrameCall.new p).page from h0) rfl rfl disk s.pool.replacer
    · cases hs
  | victim t =>
    simp only [PoolThreads.step] at hs
    split at hs
    · rename_i call hpc
      obtain ⟨⟨f, replacer⟩, -, rfl⟩ := Option.map_eq_some_iff.mp hs
      exact h.goOn (by rw [hpc]; rfl) (h.page t call (by rw [hpc]; rfl)) rfl rfl s.pool.disk replacer
    · cases hs
  | readId t =>
    simp only [PoolThreads.step] at hs
    split at hs
    · rename_i call f hpc
      obtain rfl := Option.some_injective _ hs
      exact h.goOn (by rw [hpc]; rfl) (h.page t call (by rw [hpc]; rfl)) rfl rfl s.pool.disk s.pool.replacer
    · cases hs
  | evictPage t =>
    simp only [PoolThreads.step] at hs
    split at hs
    · rename_i call f old hpc
      have ht : pendingOf (s.pc t) = none := by rw [hpc]; rfl
      have h0 := h.page t call (by rw [hpc]; rfl)
      split at hs
      · obtain rfl := Option.some_injective _ hs
        exact h.goOn ht h0 rfl rfl s.pool.disk s.pool.replacer
      · rename_i g hm
        obtain rfl := Option.some_injective _ hs
        -- Nobody has come in between, so that the victim still has the page.
        obtain ⟨rfl, hid, hpin⟩ := hl call f old hpc g hm
        refine ⟨?_, h.page_goTo fun c hc => by cases hc; exact h0⟩
        rw [book_evict ht]
        exact h.inOrder.evict hm hid hpin
    · cases hs
  | retry t =>
    simp only [PoolThreads.step] at hs
    split at hs
    · rename_i call hpc
      exact h.takeFrame call (by rw [hpc]; rfl) (h.page t call (by rw [hpc]; rfl)) (hl call hpc) hs
    · cases hs
  | init t =>
    simp only [PoolThreads.step] at hs
    split at hs
    · rename_i p f hpc
      obtain rfl := Option.some_injective _ hs
      refine ⟨?_, h.page_goTo fun c hc => by cases hc⟩
      rw [book_setUp]
      exact h.inOrder.setUp (by simp only [book, hpc, pendingOf])
    · cases hs
  | unpinPage t p f dirty =>
    simp only [PoolThreads.step] at hs
    split_ifs at hs with hheld
    have hm : s.pool.mapping p = some f := (h.inOrder.held hheld.2).1
    simp only [hm] at hs
    obtain rfl := Option.some_injective _ hs
    refine ⟨?_, h.page⟩
    rw [book_unpin]
    exact h.inOrder.unpin hheld.2

end Steps

omit [DecidableEq θ] in
theorem sound_new [NeZero n] (disk : DiskManager) (lsn : Fin n → ℤ) (heap : Fin n → Bytes) :
    Sound ({ pool := BufferPoolManager.new disk lsn heap } : PoolThreads θ n) where
  inOrder :=
    { nonneg := fun h => by cases h
      frames := ⟨List.nodup_finRange n, fun f => by simp [book, BufferPoolManager.new], fun h => by cases h⟩
      free_pageId := fun _ => rfl
      pending_mapping := fun h => by cases h
      pending_pageId := fun h => by cases h
      pending_inj := fun h => by cases h
      pinCount := fun h => by cases h
      pageId := fun h => by cases h
      held := fun h => by simp [book] at h }
  page t call h := by cases h

/-- In a run of careful steps of any number of threads, a page that was handed out and not given back is mapped
to the frame that was handed out, and the frame holds it. -/
theorem handed_out_pages_stay [NeZero n] {disk : DiskManager} {lsn : Fin n → ℤ} {heap : Fin n → Bytes}
    {ls : List (Label θ n)} {s : PoolThreads θ n}
    (h : Trace (fun s l s' => Careful s l ∧ s.step l = some s') { pool := BufferPoolManager.new disk lsn heap } ls s)
    (t : θ) (p : ℤ) (f : Fin n) (hheld : (t, p, f) ∈ s.held) :
    s.pool.mapping p = some f ∧ (s.pool.pages f).pageId = p :=
  (h.invariant (P := Sound) (fun _ _ _ hi hl => hi.step hl.1 hl.2) (sound_new disk lsn heap)).inOrder.held hheld

/-! ## A page is evicted that another thread has just got -/

theorem exists_first_page : ∃ (d : DiskManager) (a : ℤ) (s : PoolThreads (Fin 2) 1),
    DiskManager.create (fun _ => none) [100] DiskManager.Uninit.zero [] = some d ∧ 0 ≤ a ∧
    Trace (fun s l s' => Careful s l ∧ s.step l = some s') { pool := BufferPoolManager.new d (fun _ => 0) fun _ _ => 0 }
      [.newPage 0, .retry 0, .init 0] s ∧
    s.pc = (fun _ => .idle) ∧ s.held = {(0, a, 0)} ∧ s.pool.freeList = [] ∧
    s.pool.mapping = update (fun _ => none) a (some 0) ∧ (s.pool.pages 0).pageId = a ∧
    (s.pool.pages 0).pinCount = 1 ∧ s.pool.replacer = ClockReplacer.new 1 := by
  obtain ⟨d, m, hc, hm, hd⟩ := DiskManager.exists_healthy
  obtain ⟨a, d1, ha, ⟨-, hnew⟩ | ⟨-, hfull⟩⟩ := hd.allocPage_cases statusExist
  · let b : BufferPoolManager 1 := BufferPoolManager.new d (fun _ => 0) fun _ _ => 0
    let b1 : BufferPoolManager 1 := { b with disk := d1 }
    let b2 : BufferPoolManager 1 := { b1 with mapping := update b1.mapping a (some 0), freeList := [] }
    let b3 := b2.setPage 0 ((b2.pages 0).onAlloc a)
    have hstep1 : (⟨b, fun _ => .idle, 0⟩ : PoolThreads (Fin 2) 1).step (.newPage 0) =
        some ⟨b1, update (fun _ => .idle) 0 (.retry (.new a)), 0⟩ := by
      simp only [step, ne_eq, not_true_eq_false, if_false]
      rw [show b.disk.allocPage statusExist = some (a, d1) from ha]
      simp only [if_pos hnew.nonneg]
      rfl
    have hstep2 : (⟨b1, update (fun _ => .idle) 0 (.retry (.new a)), 0⟩ : PoolThreads (Fin 2) 1).step
        (.retry 0) = some ⟨b2, update (fun _ => .idle) 0 (.init a 0), 0⟩ := by
      simp [step, takeFrame, goTo, b2, b1, b, BufferPoolManager.new, insertMapping]
      rfl
    have hstep3 : (⟨b2, update (fun _ => .idle) 0 (.init a 0), 0⟩ : PoolThreads (Fin 2) 1).step
        (.init 0) = some ⟨b3, fun _ => .idle, {(0, a, 0)}⟩ := by
      simp [step, goTo, b3]
    refine ⟨d, a, _, hc, hnew.nonneg, .cons ⟨trivial, hstep1⟩ (.cons ⟨?_, hstep2⟩ (.single ⟨trivial, hstep3⟩)), rfl,
      rfl, rfl, rfl, by simp [b3, setPage], by simp [b3, setPage], rfl⟩
    intro call hcall _
    rfl
  · omega

/-- A thread gets a new page, and another thread gets the same page. -/
theorem handed_out_pages_stay_newPage : ∃ (d : DiskManager) (a : ℤ) (s : PoolThreads (Fin 2) 1),
    Trace (fun s l s' => Careful s l ∧ s.step l = some s') { pool := BufferPoolManager.new d (fun _ => 0) fun _ _ => 0 }
      [.newPage 0, .retry 0, .init 0, .getPage 1 a] s ∧ (0, a, 0) ∈ s.held ∧ (1, a, 0) ∈ s.held ∧
    s.pool.mapping a = some 0 ∧ (s.pool.pages 0).pageId = a := by
  obtain ⟨d, a, ⟨b, pc, held⟩, -, h0, ht, hpc, hheld, -, hmap, hid, -, -⟩ := exists_first_page
  dsimp only at hpc hheld hmap hid
  subst hpc hheld
  have hmap' : b.mapping a = some 0 := by simp [hmap]
  have hstep : (⟨b, fun _ => .idle, {(0, a, 0)}⟩ : PoolThreads (Fin 2) 1).step (.getPage 1 a) =
      some ⟨b.pinned 0, fun _ => .idle, {(1, a, 0), (0, a, 0)}⟩ := by
    simp [step, hmap']
    omega
  have hcareful : Careful ⟨b, fun _ => .idle, {((0 : Fin 2), a, 0)}⟩ (.getPage 1 a) := fun f _ => by
    rw [Subsingleton.elim f 0, hid]
  have ht' := ht.snoc ⟨hcareful, hstep⟩
  exact ⟨d, a, _, ht', by simp, by simp, handed_out_pages_stay ht' 1 a 0 (by simp)⟩

/-- The first thread gives its page back, and evicts it for another page. The second thread gets the page after
it was chosen and before it is evicted. -/
theorem held_page_is_evicted : ∃ (d : DiskManager) (a : ℤ) (s : PoolThreads (Fin 2) 1),
    DiskManager.create (fun _ => none) [100] DiskManager.Uninit.zero [] = some d ∧
    Trace (fun s l s' => s.step l = some s') { pool := BufferPoolManager.new d (fun _ => 0) fun _ _ => 0 }
      [.newPage 0, .retry 0, .init 0, .unpinPage 0 a 0 false, .getPage 0 (a + 1), .victim 0, .readId 0,
        .getPage 1 a, .evictPage 0] s ∧
    (1, a, 0) ∈ s.held ∧ s.pool.mapping a = none := by
  obtain ⟨d, a, ⟨b, pc, held⟩, hc, h0, ht, hpc, hheld, hfree, hmap, hid, hpin, hrep⟩ := exists_first_page
  dsimp only at hpc hheld hfree hmap hid hpin hrep
  subst hpc hheld
  obtain ⟨_, hrun, rfl⟩ := ht.simulate (R := Eq)
    (fun s u l s' h hs => ⟨s', h ▸ hs.2, rfl⟩) rfl
  -- The page is given back, so that its frame is the only one in the replacer.
  let b1 := b.unpinned 0 false
  have hrep1 : b1.replacer = (ClockReplacer.new 1).unpin 0 := by simp [b1, unpinned, hpin, hrep]
  obtain ⟨g, r, hv⟩ : ∃ g r, b1.replacer.victim = some (g, r) := by
    rw [hrep1]
    exact ClockReplacer.victim_of_present (ClockReplacer.counted_new.unpin 0)
      ⟨0, by simp [ClockReplacer.present_unpin]⟩
  obtain rfl : g = 0 := Subsingleton.elim _ _
  have hmap1 : b1.mapping a = some 0 := by simp [b1, unpinned, hmap]
  have hnone1 : b1.mapping (a + 1) = none := by simp [b1, unpinned, hmap]
  have hid1 : (b1.pages 0).pageId = a := by simp [b1, unpinned, hid]
  let pc (q : PoolPc 1) : Fin 2 → PoolPc 1 := update (fun _ => .idle) 0 q
  let b2 : BufferPoolManager 1 := { b1 with replacer := r }
  have hstep4 : (⟨b, fun _ => .idle, {(0, a, 0)}⟩ : PoolThreads (Fin 2) 1).step (.unpinPage 0 a 0 false) =
      some ⟨b1, fun _ => .idle, 0⟩ := by
    simp [step, hmap, b1]
  have hstep5 : (⟨b1, fun _ => .idle, 0⟩ : PoolThreads (Fin 2) 1).step (.getPage 0 (a + 1)) =
      some ⟨b1, pc (.wait (.get (a + 1))), 0⟩ := by
    have hfree1 : b1.freeList = [] := hfree
    simp [step, hnone1, takeFrame, hfree1, goTo, pc]
    omega
  have hstep6 : (⟨b1, pc (.wait (.get (a + 1))), 0⟩ : PoolThreads (Fin 2) 1).step (.victim 0) =
      some ⟨b2, pc (.chosen (.get (a + 1)) 0), 0⟩ := by
    simp [step, hv, goTo, pc, b2]
  have hstep7 : (⟨b2, pc (.chosen (.get (a + 1)) 0), 0⟩ : PoolThreads (Fin 2) 1).step (.readId 0) =
      some ⟨b2, pc (.evict (.get (a + 1)) 0 a), 0⟩ := by
    simp [step, goTo, pc, b2, hid1]
  have hstep8 : (⟨b2, pc (.evict (.get (a + 1)) 0 a), 0⟩ : PoolThreads (Fin 2) 1).step (.getPage 1 a) =
      some ⟨b2.pinned 0, pc (.evict (.get (a + 1)) 0 a), {(1, a, 0)}⟩ := by
    simp [step, pc, b2, hmap1]
    omega
  have hstep9 : (⟨b2.pinned 0, pc (.evict (.get (a + 1)) 0 a), {(1, a, 0)}⟩ : PoolThreads (Fin 2) 1).step
      (.evictPage 0) = some ⟨(b2.pinned 0).evicted a 0, pc (.retry (.get (a + 1))), {(1, a, 0)}⟩ := by
    simp [step, goTo, pc, pinned, b2, hmap1]
  refine ⟨d, a, _, hc, hrun.append (.cons hstep4 (.cons hstep5 (.cons hstep6 (.cons hstep7 (.cons hstep8
    (.single hstep9)))))), ?_, ?_⟩
  · simp
  · simp [evicted]

end PoolThreads

end Dawn
