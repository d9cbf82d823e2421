import Dawn.Lib.Bytes
import Dawn.Lib.Pieces
import Dawn.Lib.Returns

/-!
# The task of a connection

`HandleClientMsgTask` of `src/server/task.cpp`. `run` receives until there is nothing more to receive.
Each time it appends what it received, up to the first semicolon in it, to `tmp_`; with a semicolon it
hands `tmp_` to `handle_sql` and starts `tmp_` again with the bytes after the semicolon, without looking
for another one in them. So a statement is handed over once per `recv` at most, and the statements are
the pieces of the stream exactly when no `recv` brings two semicolons (`texts_eq_pieces_iff`).
-/

namespace Dawn

/-- `RECV_BUFFER_SIZE`. -/
def recvBufferSize : ℕ := 32

/-- The byte of `';'`. -/
def semicolon : UInt8 := 59

/-- What `recv` can give for the descriptor of a connection. -/
inductive RecvResult
  /-- Some bytes, fewer than the buffer has. -/
  | received (bytes : List UInt8)
  /-- Nothing is there now: `EAGAIN` or `EWOULDBLOCK`. -/
  | wouldBlock
  /-- Another error. -/
  | failed
  /-- The client has closed the connection. -/
  | closed
  deriving DecidableEq, Repr

/-- `HandleClientMsgTask`, without `fd_` and with `buffer_` local to a round of `run`, which clears it
first. -/
structure HandleClientMsgTask where
  /-- `tmp_`. -/
  tmp : List UInt8 := []
  /-- `finish_`. -/
  finish : Bool := false
  deriving DecidableEq, Repr

namespace HandleClientMsgTask

/-- `buffer_` after `memset` and a `recv` of the given bytes. -/
def fillBuffer (bytes : List UInt8) : List UInt8 :=
  bytes ++ List.replicate (recvBufferSize - bytes.length) 0

/-- `search_semicolon`. -/
def searchSemicolon (buffer : List UInt8) : ℤ :=
  match (buffer.take (recvBufferSize - 1)).findIdx? (· == semicolon) with
  | some i => i
  | none => -1

/-- `handle_sql`: the text that is given to `sql_execute`, which is a C string. -/
def handleSql (task : HandleClientMsgTask) : List UInt8 × HandleClientMsgTask :=
  let task := { task with tmp := task.tmp ++ [0] }
  (cStr task.tmp, task)

/-- A round of the loop in `run` after `recv` has put `ret` bytes into `buffer_`: the texts handed to
`handle_sql`. -/
def handleBuffer (task : HandleClientMsgTask) (buffer : List UInt8) (ret : ℤ) :
    HandleClientMsgTask × List (List UInt8) :=
  let semiPos := searchSemicolon buffer
  let pushNum := if semiPos = -1 then ret else semiPos + 1
  let task := { task with tmp := task.tmp ++ buffer.take pushNum.toNat }
  if semiPos ≠ -1 then
    let (sql, task) := handleSql task
    -- The remaining bytes are kept as they are, whatever is in them.
    ({ task with tmp := (buffer.drop pushNum.toNat).take (ret - pushNum).toNat }, [sql])
  else (task, [])

/-- A round of the loop in `run` in which `recv` gives some bytes. -/
def onReceived (task : HandleClientMsgTask) (bytes : List UInt8) :
    HandleClientMsgTask × List (List UInt8) :=
  handleBuffer task (fillBuffer bytes) bytes.length

/-- `run`, for what `recv` gives from now on: the texts handed to `handle_sql`, and what `recv` gives
after `run` has returned. -/
def run (task : HandleClientMsgTask) :
    List RecvResult → Option (HandleClientMsgTask × List (List UInt8) × List RecvResult)
  | [] => none
  | .wouldBlock :: rest => some (task, [], rest)
  | .failed :: rest => some ({ task with finish := true }, [], rest)
  | .closed :: rest => some ({ task with finish := true }, [], rest)
  | .received bytes :: rest => do
    let (task, sqls) := onReceived task bytes
    let (task, sqls', rest) ← run task rest
    some (task, sqls ++ sqls', rest)

/-- A number of invocations of `run`, one for each event, for what `recv` gives in each of them. -/
def runs (task : HandleClientMsgTask) :
    List (List RecvResult) → Option (HandleClientMsgTask × List (List UInt8))
  | [] => some (task, [])
  | results :: calls => do
    let (task, sqls, _) ← run task results
    let (task, sqls') ← runs task calls
    some (task, sqls ++ sqls')

/-! ## One round -/

section Round

variable {task : HandleClientMsgTask} {bytes : List UInt8}

theorem searchSemicolon_fillBuffer (h : bytes.length ≤ recvBufferSize - 1) : searchSemicolon (fillBuffer bytes) =
      match bytes.findIdx? (· == semicolon) with
      | some i => (i : ℤ)
      | none => -1 := by
  have htake : (fillBuffer bytes).take (recvBufferSize - 1) =
      bytes ++ List.replicate (recvBufferSize - 1 - bytes.length) 0 := by
    rw [fillBuffer, List.take_append, List.take_of_length_le h, List.take_replicate]
    congr 2
    simp only [recvBufferSize] at h ⊢
    omega
  have hpad : (List.replicate (recvBufferSize - 1 - bytes.length) (0 : UInt8)).findIdx?
      (· == semicolon) = none := by
    rw [List.findIdx?_eq_none_iff]
    intro b hb
    rw [List.eq_of_mem_replicate hb]
    decide
  rw [searchSemicolon, htake, List.findIdx?_append, hpad]
  cases bytes.findIdx? (· == semicolon) <;> rfl

theorem findIdx?_semicolon_eq_none (h : semicolon ∉ bytes) : bytes.findIdx? (· == semicolon) = none := by
  rw [List.findIdx?_eq_none_iff]
  intro b hb
  simpa using fun e : b = semicolon => h (e ▸ hb)

theorem onReceived_of_notMem (h : bytes.length ≤ recvBufferSize - 1) (hno : semicolon ∉ bytes) :
    onReceived task bytes = ({ task with tmp := task.tmp ++ bytes }, []) := by
  have hpos : searchSemicolon (fillBuffer bytes) = -1 := by
    rw [searchSemicolon_fillBuffer h, findIdx?_semicolon_eq_none hno]
  simp only [onReceived, handleBuffer, hpos, if_true, Int.toNat_natCast, ne_eq, not_true_eq_false, if_false]
  rw [fillBuffer, List.take_left]

theorem onReceived_append {pre post : List UInt8}
    (h : (pre ++ semicolon :: post).length ≤ recvBufferSize - 1) (hno : semicolon ∉ pre)
    (hnul : (0 : UInt8) ∉ task.tmp ++ pre) : onReceived task (pre ++ semicolon :: post) =
      ({ task with tmp := post }, [task.tmp ++ pre ++ [semicolon]]) := by
  have hpos : searchSemicolon (fillBuffer (pre ++ semicolon :: post)) = pre.length := by
    rw [searchSemicolon_fillBuffer h, List.findIdx?_append, findIdx?_semicolon_eq_none hno]
    simp [List.findIdx?_cons]
  have hne : ¬ (pre.length : ℤ) = -1 := by omega
  have hbuf : fillBuffer (pre ++ semicolon :: post) =
      (pre ++ [semicolon]) ++ (post ++ List.replicate (recvBufferSize - (pre ++ semicolon :: post).length) 0) := by
    simp [fillBuffer]
  have hlen : ((pre.length : ℤ) + 1).toNat = (pre ++ [semicolon]).length := by
    simp
  have hrest : (((pre ++ semicolon :: post).length : ℤ) - (pre.length + 1)).toNat = post.length := by
    simp only [List.length_append, List.length_cons]
    omega
  have hstr : ∀ b ∈ task.tmp ++ pre ++ [semicolon], (b ≠ 0) := by
    intro b hb
    rcases List.mem_append.mp hb with hb | hb
    · exact fun e => hnul (e ▸ hb)
    · rw [List.mem_singleton.mp hb]
      decide
  simp only [onReceived, handleBuffer, hpos, ne_eq, hne, not_false_eq_true, if_true, if_false, handleSql]
  rw [hbuf, hlen, hrest, List.take_left, List.drop_left, List.take_left, ← List.append_assoc, cStr,
    List.takeWhile_append_of_pos (by simpa using hstr)]
  simp

theorem onReceived_eq_pieces (h : bytes.length ≤ recvBufferSize - 1)
    (hnul : (0 : UInt8) ∉ task.tmp ++ bytes) (hone : bytes.count semicolon ≤ 1) : onReceived task bytes =
      ({ task with tmp := pending semicolon task.tmp bytes }, pieces semicolon task.tmp bytes) := by
  by_cases hmem : semicolon ∈ bytes
  · obtain ⟨pre, post, rfl, hpre⟩ := List.eq_append_cons_of_mem hmem
    have hpost : semicolon ∉ post := by
      rw [List.count_append, List.count_cons_self] at hone
      exact List.count_eq_zero.mp (by omega)
    obtain ⟨h1, h2⟩ := pieces_of_notMem task.tmp hpre
    obtain ⟨h3, h4⟩ := pieces_of_notMem [] hpost
    rw [onReceived_append h hpre fun hm => hnul (by simp_all), pieces_append, pending_append, h1, h2]
    simp [pieces, pending, h3, h4]
  · obtain ⟨h1, h2⟩ := pieces_of_notMem task.tmp hmem
    rw [onReceived_of_notMem h hmem, h1, h2]

theorem onReceived_spec (h : bytes.length ≤ recvBufferSize - 1) (hnul : (0 : UInt8) ∉ task.tmp ++ bytes) :
    (onReceived task bytes).2.length = min 1 (bytes.count semicolon) ∧ (0 : UInt8) ∉ (onReceived task bytes).1.tmp := by
  by_cases hmem : semicolon ∈ bytes
  · have hcount := List.count_pos_iff.mpr hmem
    obtain ⟨pre, post, rfl, hpre⟩ := List.eq_append_cons_of_mem hmem
    rw [onReceived_append h hpre fun hm => hnul (by simp_all)]
    refine ⟨?_, fun hm => hnul (by simp_all)⟩
    simp only [List.length_singleton]
    omega
  · rw [onReceived_of_notMem h hmem]
    refine ⟨?_, hnul⟩
    simp [List.count_eq_zero.mpr hmem]

end Round

/-! ## Whole runs -/

/-- What becomes of a task that receives the given bytes, one `recv` after another, and the texts that
it hands over. -/
structure Served (task : HandleClientMsgTask) (chunks : List (List UInt8)) (task' : HandleClientMsgTask)
    (sqls : List (List UInt8)) : Prop where
  /-- No terminator is kept. -/
  nul : (0 : UInt8) ∉ task'.tmp
  /-- One text for each `recv` that brings a semicolon. -/
  length_eq : sqls.length = (chunks.map fun bytes => min 1 (bytes.count semicolon)).sum
  /-- The texts are the pieces of the stream if no `recv` brings two. -/
  exact : (∀ bytes ∈ chunks, bytes.count semicolon ≤ 1) →
    sqls = pieces semicolon task.tmp chunks.flatten ∧
    task'.tmp = pending semicolon task.tmp chunks.flatten

namespace Served

variable {task task' task'' : HandleClientMsgTask} {chunks chunks' : List (List UInt8)}
  {sqls sqls' : List (List UInt8)}

theorem nil (h : (0 : UInt8) ∉ task.tmp) : Served task [] task [] :=
  ⟨h, rfl, fun _ => ⟨rfl, rfl⟩⟩

theorem append (h : Served task chunks task' sqls) (h' : Served task' chunks' task'' sqls') :
    Served task (chunks ++ chunks') task'' (sqls ++ sqls') := by
  refine ⟨h'.nul, ?_, fun hall => ?_⟩
  · rw [List.length_append, h.length_eq, h'.length_eq, List.map_append, List.sum_append]
  · obtain ⟨h1, h2⟩ := h.exact fun b hb => hall b (List.mem_append_left _ hb)
    obtain ⟨h3, h4⟩ := h'.exact fun b hb => hall b (List.mem_append_right _ hb)
    rw [List.flatten_append, pieces_append, pending_append, h1, h3, h4, h2]
    exact ⟨rfl, rfl⟩

theorem round (task : HandleClientMsgTask) {bytes : List UInt8} (h : bytes.length ≤ recvBufferSize - 1)
    (hnul : (0 : UInt8) ∉ task.tmp ++ bytes) :
    Served task [bytes] (onReceived task bytes).1 (onReceived task bytes).2 := by
  obtain ⟨h1, h2⟩ := onReceived_spec h hnul
  refine ⟨h2, by simpa using h1, fun hall => ?_⟩
  rw [onReceived_eq_pieces h hnul (hall bytes (by simp))]
  simp

theorem eq_pieces_iff (h : Served task chunks task' sqls) : sqls = pieces semicolon task.tmp chunks.flatten ↔
      ∀ bytes ∈ chunks, bytes.count semicolon ≤ 1 := by
  constructor
  · intro heq
    -- There are as many pieces as semicolons, and at most one text for each `recv`.
    have hlen := h.length_eq
    rw [heq, length_pieces, List.count_flatten] at hlen
    by_contra hno
    push Not at hno
    obtain ⟨bytes, hb, htwo⟩ := hno
    have hlt : (chunks.map fun bytes => min 1 (bytes.count semicolon)).sum <
        (chunks.map (List.count semicolon)).sum :=
      List.sum_lt_sum _ _ (fun b _ => min_le_right 1 _) ⟨bytes, hb, by omega⟩
    omega
  · exact fun hall => (h.exact hall).1

end Served

/-- The bytes that `recv` gives, call by call. -/
def receivedBytes (results : List RecvResult) : List (List UInt8) :=
  results.filterMap fun
    | .received bytes => some bytes
    | _ => none

/-- A stream is cut into non-empty `recv` results that fit into the buffer, in a number of invocations of
`run`, each of which ends when nothing more can be received. -/
structure Cut (stream : List UInt8) (calls : List (List RecvResult)) : Prop where
  /-- Every invocation receives until `recv` gives no bytes. -/
  ends : ∀ results ∈ calls, ∃ (chunks : List (List UInt8)) (last : RecvResult),
    results = chunks.map .received ++ [last] ∧ ∀ bytes, last ≠ .received bytes
  /-- The results. -/
  sizes : ∀ bytes ∈ receivedBytes calls.flatten, 1 ≤ bytes.length ∧ bytes.length ≤ recvBufferSize - 1
  /-- Together they are the stream. -/
  stream_eq : (receivedBytes calls.flatten).flatten = stream

theorem receivedBytes_call {chunks : List (List UInt8)} {last : RecvResult} (hlast : ∀ bytes, last ≠ .received bytes) :
    receivedBytes (chunks.map .received ++ [last]) = chunks := by
  have hl : receivedBytes [last] = [] := by
    cases last with
    | received bytes => exact absurd rfl (hlast bytes)
    | _ => rfl
  have hc : receivedBytes (chunks.map .received) = chunks := by
    simp [receivedBytes, List.filterMap_map]
  rw [receivedBytes, List.filterMap_append]
  exact (congrArg₂ _ hc hl).trans (List.append_nil _)

theorem exists_run {task : HandleClientMsgTask} {chunks : List (List UInt8)} {last : RecvResult}
    (hlast : ∀ bytes, last ≠ .received bytes) (hsize : ∀ bytes ∈ chunks, bytes.length ≤ recvBufferSize - 1)
    (htmp : (0 : UInt8) ∉ task.tmp) (hnul : (0 : UInt8) ∉ chunks.flatten) :
    ∃ task' sqls, run task (chunks.map .received ++ [last]) = some (task', sqls, []) ∧
      Served task chunks task' sqls := by
  induction chunks generalizing task with
  | nil =>
    cases last with
    | received bytes => exact absurd rfl (hlast bytes)
    | wouldBlock => exact ⟨task, [], rfl, .nil htmp⟩
    | failed => exact ⟨_, [], rfl, htmp, rfl, fun _ => ⟨rfl, rfl⟩⟩
    | closed => exact ⟨_, [], rfl, htmp, rfl, fun _ => ⟨rfl, rfl⟩⟩
  | cons bytes chunks ih =>
    rw [List.flatten_cons, List.mem_append, not_or] at hnul
    have hr := Served.round task (hsize bytes List.mem_cons_self)
      (by rw [List.mem_append, not_or]; exact ⟨htmp, hnul.1⟩)
    obtain ⟨task', sqls, he, hs⟩ :=
      ih (fun b hb => hsize b (List.mem_cons_of_mem bytes hb)) hr.nul hnul.2
    refine ⟨task', _, ?_, hr.append hs⟩
    simp only [List.map_cons, List.cons_append, run, he, some_bind]

theorem exists_runs (task : HandleClientMsgTask) {stream : List UInt8} {calls : List (List RecvResult)}
    (h : Cut stream calls) (htmp : (0 : UInt8) ∉ task.tmp) (hnul : (0 : UInt8) ∉ stream) :
    ∃ task' sqls, runs task calls = some (task', sqls) ∧ Served task (receivedBytes calls.flatten) task' sqls := by
  induction calls generalizing task stream with
  | nil => exact ⟨task, [], rfl, .nil htmp⟩
  | cons results calls ih =>
    obtain ⟨chunks, last, rfl, hlast⟩ := h.ends results List.mem_cons_self
    have hbytes : receivedBytes ((chunks.map .received ++ [last]) :: calls).flatten =
        chunks ++ receivedBytes calls.flatten := by
      rw [List.flatten_cons, receivedBytes, List.filterMap_append]
      exact congrArg (· ++ _) (receivedBytes_call hlast)
    have hsizes := h.sizes
    have hstream := h.stream_eq
    rw [hbytes] at hsizes hstream ⊢
    rw [← hstream, List.flatten_append, List.mem_append, not_or] at hnul
    obtain ⟨task1, sqls1, he1, hs1⟩ := exists_run hlast
      (fun b hb => (hsizes b (List.mem_append_left _ hb)).2) htmp hnul.1
    have hcut : Cut (receivedBytes calls.flatten).flatten calls :=
      ⟨fun r hr => h.ends r (List.mem_cons_of_mem _ hr), fun b hb => hsizes b (List.mem_append_right _ hb), rfl⟩
    obtain ⟨task', sqls, he, hs⟩ := ih task1 hcut hs1.nul hnul.2
    refine ⟨task', _, ?_, hs1.append hs⟩
    simp only [runs, he1, he, some_bind]

/-- The texts that `run` hands to `handle_sql` for a stream, over any number of invocations, are the
pieces of the stream that end at each semicolon exactly when no `recv` brings two semicolons. -/
theorem texts_eq_pieces_iff {stream : List UInt8} {calls : List (List RecvResult)}
    (hnul : (0 : UInt8) ∉ stream) (h : Cut stream calls) :
    ∃ task sqls, runs {} calls = some (task, sqls) ∧
      (sqls = pieces semicolon [] stream ↔
        ∀ bytes ∈ receivedBytes calls.flatten, bytes.count semicolon ≤ 1) := by
  obtain ⟨task, sqls, he, hs⟩ := exists_runs {} h List.not_mem_nil hnul
  have hiff := hs.eq_pieces_iff
  rw [h.stream_eq] at hiff
  exact ⟨task, sqls, he, hiff⟩

theorem cut_two_calls : Cut [97, 59, 98, 59]
    [[.received [97, 59], .wouldBlock], [.received [98, 59], .wouldBlock]] where
  ends := by
    intro results hr
    rcases List.mem_pair.mp hr with rfl | rfl
    · exact ⟨[[97, 59]], .wouldBlock, rfl, by simp⟩
    · exact ⟨[[98, 59]], .wouldBlock, rfl, by simp⟩
  sizes := by decide
  stream_eq := rfl

theorem cut_one_call : Cut [97, 59, 98, 59] [[.received [97, 59, 98, 59], .wouldBlock]] where
  ends := by
    intro results hr
    rw [List.mem_singleton.mp hr]
    exact ⟨[[97, 59, 98, 59]], .wouldBlock, rfl, by simp⟩
  sizes := by decide
  stream_eq := rfl

/-- Two statements in two `recv` results are both handed over. -/
theorem texts_eq_pieces_iff_two_calls : (0 : UInt8) ∉ [(97 : UInt8), 59, 98, 59] ∧
    Cut [97, 59, 98, 59] [[.received [97, 59], .wouldBlock], [.received [98, 59], .wouldBlock]] ∧
    ∃ task sqls, runs {} [[.received [97, 59], .wouldBlock], [.received [98, 59], .wouldBlock]] =
        some (task, sqls) ∧
      (sqls = pieces semicolon [] [97, 59, 98, 59] ↔
        ∀ bytes ∈ receivedBytes
          [[.received [97, 59], .wouldBlock], [.received [98, 59], .wouldBlock]].flatten,
        bytes.count semicolon ≤ 1) :=
  ⟨by decide, cut_two_calls, texts_eq_pieces_iff (by decide) cut_two_calls⟩

/-- Two statements in one `recv` result: the second one is not handed over. -/
theorem framing_depends_on_cut :
    Cut [97, 59, 98, 59] [[.received [97, 59], .wouldBlock], [.received [98, 59], .wouldBlock]] ∧
    Cut [97, 59, 98, 59] [[.received [97, 59, 98, 59], .wouldBlock]] ∧
    (runs {} [[.received [97, 59], .wouldBlock], [.received [98, 59], .wouldBlock]]).map Prod.snd =
      some [[97, 59], [98, 59]] ∧
    (runs {} [[.received [97, 59, 98, 59], .wouldBlock]]).map Prod.snd = some [[97, 59]] :=
  ⟨cut_two_calls, cut_one_call, by decide, by decide⟩

end HandleClientMsgTask

end Dawn
