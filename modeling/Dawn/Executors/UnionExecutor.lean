import Dawn.Buffer.PoolLatches
import Dawn.Buffer.ThresholdPages
import Dawn.Storage.StalePage
import Dawn.Table.TupleInit

/-!
# The executor of products

`UnionExecutor` of `src/executors/union_executor.cpp`. It copies the tuples of its left child into
temporary pages, and then pairs every tuple of its right child with those that are in memory. The loops
over the right child's tuples, over the pages in memory, and over their tuples are cut into calls of
`get_next`; `pos_`, `in_mem_idx_`, and `inner_next_` say where they are.

A page in memory is a pointer to a frame, and is given by the frame. The children are executors of which
only the three functions are known. Memory that is not set has any contents, which are parameters. A
function that does not return, or that runs into undefined behaviour or `FATAL`, returns `none`.
-/

namespace Dawn

/-- `ExecutorAbstract`: `get_next` sets the tuple where it returns true. -/
structure Executor (σ : Type) where
  /-- `open`. -/
  openExec : σ → σ
  /-- `get_next`. -/
  getNext : σ → Option Tuple × σ
  /-- `close`. -/
  close : σ → σ

/-- The tuples that an executor returns until `get_next` returns false. -/
def Executor.Yields {σ : Type} (e : Executor σ) : List Tuple → σ → Prop
  | [], s => (e.getNext s).1 = none
  | t :: ts, s => (e.getNext s).1 = some t ∧ e.Yields ts (e.getNext s).2

/-- `output_schema_`, as `open` builds it: the columns of the right child behind those of the left one. -/
def joinedSchema (left right : Schema) : Schema := { columns := left.columns ++ right.columns }

/-- `UnionExecutor`, with the buffer pool, and the states of its children. -/
structure UnionExecutor (n : ℕ) (σ ρ : Type) where
  /-- The frames and page ids of the buffer pool. -/
  bpm : BufferPoolManager n
  /-- Its counters of reserved pages. -/
  thresholds : ThresholdPages
  /-- `children_[0]`. -/
  left : σ
  /-- `children_[1]`. -/
  right : ρ
  /-- `avail_tmp_page_`. -/
  availTmpPage : List ℤ := []
  /-- `output_schema_`. -/
  outputSchema : Schema
  /-- `threshold_pages_`. -/
  thresholdPages : ℤ
  /-- `in_mem_pages_`. -/
  inMemPages : List (Fin n) := []
  /-- `in_mem_idx_`. -/
  inMemIdx : ℕ := 0
  /-- `*left_child_tuple_`. -/
  leftChildTuple : Tuple := {}
  /-- `*right_child_tuple_`. -/
  rightChildTuple : Tuple := {}
  /-- `pos_`. -/
  pos : RID := {}
  /-- `next_pos_`. -/
  nextPos : RID := {}
  /-- `inner_next_`. -/
  innerNext : Bool := true

namespace UnionExecutor

variable {n : ℕ} [NeZero n] {σ ρ : Type}

/-! ## Temporary pages -/

/-- The page of a frame. -/
def page (u : UnionExecutor n σ ρ) (f : Fin n) : Page := u.bpm.pages f

/-- `spill_to_disk`: the pages in memory are given back. -/
def spillToDisk (isDirty : Bool) : List (Fin n) → UnionExecutor n σ ρ → Option (UnionExecutor n σ ρ)
  | [], u => some { u with inMemPages := [] }
  | f :: rest, u => do
    let bpm ← u.bpm.unpinPage (u.page f).pageId isDirty
    let u := { u with bpm := bpm }
    spillToDisk isDirty rest { u with availTmpPage := u.availTmpPage ++ [(u.page f).pageId] }

/-- `new_tmp_page`, and `in_mem_pages_.push_back`. The page is not initialised as a table page. -/
def addTmpPage (u : UnionExecutor n σ ρ) : Option (Fin n × UnionExecutor n σ ρ) := do
  let (f, bpm) ← u.bpm.newTmpPage
  some (f, { u with bpm := bpm, inMemPages := u.inMemPages ++ [f] })

/-- What `initialize` does before it takes a new page. `1/2` is an integer division. -/
def makeRoom (u : UnionExecutor n σ ρ) : Option (UnionExecutor n σ ρ) :=
  if (u.inMemPages.length : ℤ) + 1 > (1 / 2) * u.thresholdPages then u.spillToDisk true u.inMemPages
  else some u

/-- The inner loop of `initialize`: a new page is taken until the tuple could be inserted. -/
def insertLeft (f : Fin n) (u : UnionExecutor n σ ρ) : Option (Fin n × UnionExecutor n σ ρ) :=
  let (rid, p) := TablePage.insertTuple (u.page f) u.leftChildTuple
  let u := { u with bpm := u.bpm.setPage f p }
  if rid.isSome then some (f, u)
  else do
    let u ← u.makeRoom
    let (f, u) ← u.addTmpPage
    (by apply insertLeft : Fin n → UnionExecutor n σ ρ → _) f u
partial_fixpoint

/-- The first loop of `load_another_batch`. A page that is pinned is not deleted. -/
def deletePages : List (Fin n) → UnionExecutor n σ ρ → Option (UnionExecutor n σ ρ)
  | [], u => some { u with inMemPages := [] }
  | f :: rest, u => do
    let (_, bpm) ← u.bpm.deletePage (u.page f).pageId
    deletePages rest { u with bpm := bpm }

/-- The second loop of `load_another_batch`. There is nothing to take from an empty deque, and a null
pointer is used later. -/
def loadPages : List ℤ → UnionExecutor n σ ρ → Option (UnionExecutor n σ ρ)
  | avail, u =>
    if (u.inMemPages.length : ℤ) < (1 / 2) * u.thresholdPages then
      match avail with
      | [] => none
      | id :: rest => do
        let (f, bpm) ← u.bpm.getPage id
        loadPages rest { u with bpm := bpm, inMemPages := u.inMemPages ++ [← f] }
    else some { u with availTmpPage := avail }

/-- `load_another_batch`. -/
def loadAnotherBatch (u : UnionExecutor n σ ρ) : Option (Bool × UnionExecutor n σ ρ) := do
  let u ← u.deletePages u.inMemPages
  let u ← u.loadPages u.availTmpPage
  if 0 < u.inMemPages.length then some (true, { u with inMemIdx := 0 }) else some (false, u)

/-- The loop of `close` over the temporary pages. -/
def deleteAvail : List ℤ → UnionExecutor n σ ρ → Option (UnionExecutor n σ ρ)
  | [], u => some { u with availTmpPage := [] }
  | id :: rest, u => do
    let (_, bpm) ← u.bpm.deletePage id
    deleteAvail rest { u with bpm := bpm }

/-! ## The executor -/

section Executor

variable (leftChild : Executor σ) (rightChild : Executor ρ) (leftSchema rightSchema : Schema)
  (stack : ℤ → Bytes) (heap : Bytes)

/-- The constructor. -/
def new (bpm : BufferPoolManager n) (thresholds : ThresholdPages) (left : σ) (right : ρ)
    (outputSchema : Schema) (thresholdPages : ℤ) : UnionExecutor n σ ρ where
  bpm := bpm
  thresholds := thresholds
  left := left
  right := right
  outputSchema := outputSchema
  thresholdPages := thresholdPages

/-- The outer loop of `initialize`. -/
def copyLeft (f : Fin n) (u : UnionExecutor n σ ρ) : Option (UnionExecutor n σ ρ) :=
  match leftChild.getNext u.left with
  | (none, left) => some { u with left := left }
  | (some t, left) => do
    let (f, u) ← { u with left := left, leftChildTuple := t }.insertLeft f
    (by apply copyLeft : Fin n → UnionExecutor n σ ρ → _) f u
partial_fixpoint

/-- `initialize`. -/
def initializeExec (u : UnionExecutor n σ ρ) : Option (UnionExecutor n σ ρ) := do
  let (f, u) ← u.addTmpPage
  u.copyLeft leftChild f

/-- `open`. The children are not opened, and the columns of the right child keep their offsets. -/
def openExec (u : UnionExecutor n σ ρ) : Option (UnionExecutor n σ ρ) := do
  let thresholdPages ← u.thresholds.getThresholdPage
  { u with
    thresholdPages := thresholdPages
    outputSchema := joinedSchema leftSchema rightSchema }.initializeExec leftChild

/-- The loop of `get_next` for the next tuple of the right child: whether there is one. -/
def nextRight (u : UnionExecutor n σ ρ) : Option (Bool × UnionExecutor n σ ρ) :=
  match rightChild.getNext u.right with
  | (some t, right) => some (true, { u with right := right, rightChildTuple := t })
  | (none, right) => do
    match ← { u with right := rightChild.openExec (rightChild.close right) }.loadAnotherBatch with
    | (true, u) => (by apply nextRight : UnionExecutor n σ ρ → _) u
    | (false, u) => some (false, u)
partial_fixpoint

/-- The loop of `get_next` for the next tuple in memory: the page where there is one. After the last page
it begins again with the first. -/
def nextLeft (u : UnionExecutor n σ ρ) : Option (Option (Fin n) × UnionExecutor n σ ρ) := do
  let f ← u.inMemPages[u.inMemIdx]?
  match TablePage.getNextTupleRid (u.page f) u.pos u.nextPos with
  | (true, nextPos) => some (some f, { u with nextPos := nextPos })
  | (false, nextPos) =>
    let u := { u with nextPos := nextPos, inMemIdx := u.inMemIdx + 1, pos := {} }
    if u.inMemPages.length ≤ u.inMemIdx then some (none, { u with innerNext := true, inMemIdx := 0 })
    else (by apply nextLeft : UnionExecutor n σ ρ → _) u
partial_fixpoint

/-- The values of a tuple under a schema. -/
def rowValues (schema : Schema) (bytes : List UInt8) : Option (List Value) :=
  (List.range schema.columns.length).mapM fun i : ℕ => getValue bytes schema i

/-- The end of `get_next`: the two tuples are put together. -/
def concatenate (f : Fin n) (u : UnionExecutor n σ ρ) : Option (List UInt8 × UnionExecutor n σ ρ) := do
  let left ← TablePage.getTuple (u.page f) u.nextPos
  let leftValues ← rowValues leftSchema left.bytes
  let rightValues ← rowValues rightSchema u.rightChildTuple.bytes
  let tuple ← initTuple stack (leftValues ++ rightValues) u.outputSchema heap
  some (tuple, { u with leftChildTuple := left })

/-- `get_next`: the bytes of the tuple, or nothing where it returns false. -/
def getNext (u : UnionExecutor n σ ρ) : Option (Option (List UInt8) × UnionExecutor n σ ρ) := do
  let (more, u) ← if u.innerNext then u.nextRight rightChild else some (true, u)
  if more = false then some (none, u)
  else
    match ← { u with innerNext := false }.nextLeft with
    | (none, u) => (by apply getNext : UnionExecutor n σ ρ → _) u
    | (some f, u) => do
      let (tuple, u) ← u.concatenate leftSchema rightSchema stack heap f
      some (some tuple, u)
partial_fixpoint

/-- `close`. -/
def close (u : UnionExecutor n σ ρ) : Option (UnionExecutor n σ ρ) := do
  let thresholds ← u.thresholds.returnThresholdPage u.thresholdPages
  let u := { u with thresholds := thresholds, thresholdPages := 0 }
  let u ← u.spillToDisk false u.inMemPages
  let u ← u.deleteAvail u.availTmpPage
  some { u with pos := {}, left := leftChild.close u.left, right := rightChild.close u.right }

/-- The tuples that `get_next` returns until it returns false. -/
inductive Outputs : UnionExecutor n σ ρ → List (List UInt8) → Prop
  | done {u u' : UnionExecutor n σ ρ}
    (h : u.getNext rightChild leftSchema rightSchema stack heap = some (none, u')) : Outputs u []
  | more {u u' : UnionExecutor n σ ρ} {tuple : List UInt8} {rest : List (List UInt8)}
    (h : u.getNext rightChild leftSchema rightSchema stack heap = some (some tuple, u'))
    (hrest : Outputs u' rest) : Outputs u (tuple :: rest)

/-- What the executor is for: `open` returns, and then `get_next` returns one tuple for each pair of a
left and a right tuple, whose values are theirs, and then false. -/
def ComputesProduct (u : UnionExecutor n σ ρ) (leftTuples rightTuples : List Tuple) : Prop :=
  ∃ u' tuples, u.openExec leftChild leftSchema rightSchema = some u' ∧
    Outputs rightChild leftSchema rightSchema stack heap u' tuples ∧
    (tuples.map (rowValues u'.outputSchema)).Perm
      ((leftTuples.product rightTuples).map fun p => do
        some ((← rowValues leftSchema p.1.bytes) ++ (← rowValues rightSchema p.2.bytes)))

end Executor

/-- A child that returns the tuples of a list, and begins again when it is opened. -/
def replay (tuples : List Tuple) : Executor (List Tuple) where
  openExec _ := tuples
  getNext rest := (rest.head?, rest.tail)
  close rest := rest

theorem yields_replay (tuples rest : List Tuple) : (replay tuples).Yields rest rest := by
  induction rest with
  | nil => rfl
  | cons t ts ih => exact ⟨rfl, ih⟩

end UnionExecutor

end Dawn
