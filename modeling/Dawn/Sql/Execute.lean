import Dawn.Sql.Sentences

/-!
# Executing SQL

`sql_execute` (`sql_parse.cpp`): the tokens are handed to the parser one after the other, and the statements
that it leaves in the root are executed unless the flag of the root is set. What the statements do to the
database is left open.

Neither an error of the parser nor one of the lexer stops that. A token without an action is thrown away, and
what is left is executed if it is a sentence: the flag is overwritten by then (`invalid_rejected_iff`).
-/

namespace Dawn

/-- `MsgType`, as far as `sql_execute` sets it. -/
inductive MsgType
  | Unparsed
  | SqlInsert
  | SqlCreateTb
  | SqlDropTb
  deriving DecidableEq, Repr

/-- `ResponseMsg`, without the texts that follow from its type. -/
structure ResponseMsg where
  type : MsgType
  success : Bool
  deriving DecidableEq, Repr

/-- What a call of `sql_execute` has done: the statements handed to `create_table`, `drop_table` and
`insert_data`, the database after them, and the response, which is missing if the process was aborted. -/
structure Execution (δ : Type) where
  executed : List Node
  db : δ
  response : Option ResponseMsg

/-- The type of the response to a statement, if there is code that executes it. -/
def Node.msgType (stmt : Node) : Option MsgType :=
  match stmt.cls with
  | .create => some .SqlCreateTb
  | .drop => some .SqlDropTb
  | .insert => some .SqlInsert
  | _ => none

namespace SqlExecute

open Grammar

variable {σ δ : Type}

/-- The loop over the statements. `exec` is what `create_table`, `drop_table` and `insert_data` do; where it is
undefined the process is aborted. -/
def executeStmts (exec : Node → δ → Option (Bool × δ)) : List Node → Execution δ → Execution δ
  | [], e => e
  | stmt :: stmts, e =>
    if stmt.cls = .emptyStmt then executeStmts exec stmts e
    else
      match stmt.msgType with
      | some type =>
        match exec stmt e.db with
        | some (success, db) => executeStmts exec stmts ⟨e.executed ++ [stmt], db, some ⟨type, success⟩⟩
        | none => ⟨e.executed ++ [stmt], e.db, none⟩
      -- `assert(0)`
      | none => ⟨e.executed, e.db, none⟩

/-- The part of `sql_execute` after the parse. -/
def executeRoot (exec : Node → δ → Option (Bool × δ)) (db : δ) (root : StmtListNode) : Execution δ :=
  if root.err then ⟨[], db, some ⟨.Unparsed, false⟩⟩
  else executeStmts exec root.stmtNodes ⟨[], db, some ⟨.Unparsed, false⟩⟩

/-- The loop that hands the tokens to the parser. `next` is `next_token`, and `tk` the token that is passed to
it. -/
def parseLoop (next : Token → σ → Bool × Token × σ) (tk : Token) (lex : σ)
    (s : Lemon.State TokenType NonTerminal Minor StmtListNode) :
    Option (Lemon.State TokenType NonTerminal Minor StmtListNode) :=
  match next tk lex with
  | (false, _) => some s
  | (true, tk, lex) => do
    let s ← parser.parse (some tk) s
    (by apply parseLoop : (Token → σ → Bool × Token × σ) → Token → σ → _ → _) next tk lex s
partial_fixpoint

/-- `sql_execute`. The token `tk` is not initialised there. -/
def sqlExecute (next : Token → σ → Bool × Token × σ) (exec : Node → δ → Option (Bool × δ)) (tk : Token) (lex : σ)
    (db : δ) : Option (Execution δ) := do
  let s ← parseLoop next tk lex (Lemon.init {})
  let s ← parser.parse none s
  some (executeRoot exec db s.arg)

/-! ## Reading tokens -/

/-- A call of `next_token` that returns true. -/
def Reads (next : Token → σ → Bool × Token × σ) (s : Token × σ) (tk : Token) (s' : Token × σ) : Prop :=
  next s.1 s.2 = (true, s') ∧ tk = s'.1

/-- The tokens that `next_token` gives before it returns false, and the state when it does. -/
def Stops (next : Token → σ → Bool × Token × σ) (tk : Token) (lex : σ) (ts : List Token) (tk' : Token)
    (lex' : σ) : Prop :=
  Trace (Reads next) (tk, lex) ts (tk', lex') ∧ (next tk' lex').1 = false

variable {next : Token → σ → Bool × Token × σ} {tk tk' : Token} {lex lex' : σ} {ts : List Token}
  {s s' : Lemon.State TokenType NonTerminal Minor StmtListNode}

theorem Stops.unique (h : Stops next tk lex ts tk' lex') {ts2 : List Token} {tk2 : Token} {lex2 : σ}
    (h2 : Stops next tk lex ts2 tk2 lex2) : ts2 = ts ∧ tk2 = tk' ∧ lex2 = lex' := by
  obtain ⟨ht, hf⟩ := h
  obtain ⟨ht2, hf2⟩ := h2
  generalize (tk, lex) = p at ht ht2
  generalize hp' : (tk', lex') = p' at ht
  induction ht generalizing ts2 with
  | nil p =>
    subst hp'
    cases ht2 with
    | nil => exact ⟨rfl, rfl, rfl⟩
    | cons hr _ => rw [hr.1] at hf; cases hf
  | cons hr _ ih =>
    cases ht2 with
    | nil => rw [hr.1] at hf2; cases hf2
    | cons hr2 ht2 =>
      obtain ⟨h, rfl⟩ := hr
      obtain ⟨h2, rfl⟩ := hr2
      obtain rfl := (Prod.mk.inj (h.symm.trans h2)).2
      obtain ⟨rfl, rfl, rfl⟩ := ih ht2 hp'
      exact ⟨rfl, rfl, rfl⟩

theorem parseLoop_eq_some (h : parseLoop next tk lex s = some s') :
    ∃ ts tk' lex', Stops next tk lex ts tk' lex' ∧ parser.feed s ts = some s' := by
  have key := parseLoop.partial_correctness next
    (fun tk lex s s' => ∃ ts tk' lex', Stops next tk lex ts tk' lex' ∧ parser.feed s ts = some s') ?_
  · exact key tk lex s s' h
  · intro loop ih tk lex s s' hr
    rcases hn : next tk lex with ⟨more, tk1, lex1⟩
    rw [hn] at hr
    cases more with
    | false =>
      obtain rfl : s = s' := by simpa using hr
      exact ⟨[], tk, lex, ⟨Trace.nil _, by rw [hn]⟩, rfl⟩
    | true =>
      simp only [bind_eq_some] at hr
      obtain ⟨s1, hs1, hr⟩ := hr
      obtain ⟨ts, tk', lex', ⟨ht, hf⟩, hfeed⟩ := ih tk1 lex1 s1 s' hr
      refine ⟨tk1 :: ts, tk', lex', ⟨Trace.cons ⟨hn, rfl⟩ ht, hf⟩, ?_⟩
      rw [Lemon.feed, List.foldlM_cons, hs1]
      exact hfeed

theorem parseLoop_of_stops (h : Stops next tk lex ts tk' lex') (s) : parseLoop next tk lex s = parser.feed s ts := by
  obtain ⟨ht, hf⟩ := h
  generalize hp : (tk, lex) = p at ht
  generalize hp' : (tk', lex') = p' at ht
  induction ht generalizing tk lex s with
  | nil p =>
    obtain ⟨rfl, rfl⟩ := Prod.mk.inj (hp.trans hp'.symm)
    rcases hn : next tk lex with ⟨more, rest⟩
    rw [hn] at hf
    obtain rfl : more = false := hf
    rw [parseLoop, hn]
    rfl
  | @cons p p1 p2 t ts hr ht ih =>
    obtain ⟨hn, rfl⟩ := hr
    obtain ⟨tk1, lex1⟩ := p1
    subst hp
    rw [parseLoop, hn, Lemon.feed, List.foldlM_cons]
    cases hs : parser.parse (some tk1) s with
    | none => simp [hs]
    | some s1 => simpa [hs, Lemon.feed] using ih s1 rfl hp'

theorem sqlExecute_of_stops (h : Stops next tk lex ts tk' lex') (exec : Node → δ → Option (Bool × δ)) (db : δ) :
    sqlExecute next exec tk lex db = (parseTokens ts).map (executeRoot exec db) := by
  rw [sqlExecute, parseLoop_of_stops h, parseTokens]
  cases parser.feed (Lemon.init {}) ts with
  | none => rfl
  | some s =>
    cases hp : parser.parse none s with
    | none => simp [hp]
    | some s' => simp [hp]

/-! ## Executing statements -/

section Statements

variable {exec : Node → δ → Option (Bool × δ)} {stmts : List Node} {e : Execution δ}

theorem executeStmts_of_empty (h : ∀ stmt ∈ stmts, stmt.cls = .emptyStmt) : executeStmts exec stmts e = e := by
  induction stmts with
  | nil => rfl
  | cons stmt stmts ih =>
    rw [executeStmts, if_pos (h stmt List.mem_cons_self)]
    exact ih fun stmt hs => h stmt (List.mem_cons_of_mem _ hs)

theorem executed_prefix (exec : Node → δ → Option (Bool × δ)) (stmts : List Node) (e : Execution δ) :
    e.executed <+: (executeStmts exec stmts e).executed := by
  induction stmts generalizing e with
  | nil => exact List.prefix_rfl
  | cons stmt stmts ih =>
    rw [executeStmts]
    split_ifs
    · exact ih e
    · split
      · split
        · exact (List.prefix_append _ [stmt]).trans (ih ⟨_, _, _⟩)
        · exact List.prefix_append _ _
      · exact List.prefix_rfl

theorem executed_ne_nil_iff (he : e.executed = []) :
    (executeStmts exec stmts e).executed ≠ [] ↔ ∃ stmt ∈ firstStmt stmts, stmt.msgType ≠ none := by
  induction stmts with
  | nil => simp [executeStmts, firstStmt, he]
  | cons stmt stmts ih =>
    by_cases hempty : stmt.cls = .emptyStmt
    · rw [executeStmts, if_pos hempty, ih, firstStmt, firstStmt, List.find?_cons_of_neg (by simpa using hempty)]
    · rw [executeStmts, if_neg hempty, firstStmt, List.find?_cons_of_pos (by simpa using hempty)]
      cases htype : stmt.msgType with
      | none => simp [he, htype]
      | some type =>
        refine iff_of_true ?_ ⟨stmt, rfl, by simp [htype]⟩
        cases hexec : exec stmt e.db with
        | none => simp
        | some q =>
          obtain ⟨success, db⟩ := q
          intro hnil
          have := executed_prefix exec stmts ⟨e.executed ++ [stmt], db, some ⟨type, success⟩⟩
          rw [show (executeStmts exec stmts _).executed = [] from hnil] at this
          simp at this

theorem cls_eq_emptyStmt (he : e.executed = []) (hex : (executeStmts exec stmts e).executed = [])
    (hresp : (executeStmts exec stmts e).response ≠ none) : ∀ stmt ∈ stmts, stmt.cls = .emptyStmt := by
  induction stmts with
  | nil => simp
  | cons stmt stmts ih =>
    by_cases hempty : stmt.cls = .emptyStmt
    · rw [executeStmts, if_pos hempty] at hex hresp
      exact List.forall_mem_cons.mpr ⟨hempty, ih hex hresp⟩
    · exfalso
      cases htype : stmt.msgType with
      | none => simp [executeStmts, hempty, htype] at hresp
      | some type =>
        exact (executed_ne_nil_iff he).mpr ⟨stmt, by simp [firstStmt, hempty], by simp [htype]⟩ hex

end Statements

/-! ## Runs of a bounded length -/

/-- The root that the parser leaves, its calls being bounded. -/
def parseTokensWithin (fuel : ℕ) (ts : List Token) : Option StmtListNode := do
  let s ← ts.foldlM (fun s tk => parser.parseWithin fuel (some tk) s) (Lemon.init {})
  let s ← parser.parseWithin fuel none s
  some s.arg

theorem feed_of_foldlM {fuel : ℕ} {ts : List Token}
    (h : ts.foldlM (fun s tk => parser.parseWithin fuel (some tk) s) s = some s') : parser.feed s ts = some s' := by
  induction ts generalizing s with
  | nil => exact h
  | cons tk ts ih =>
    rw [List.foldlM_cons, bind_eq_some] at h
    obtain ⟨s1, hs1, h⟩ := h
    rw [Lemon.feed, List.foldlM_cons, Lemon.parse_of_parseWithin hs1]
    exact ih h

theorem parseTokens_of_within {fuel : ℕ} {ts : List Token} {root : StmtListNode}
    (h : parseTokensWithin fuel ts = some root) : parseTokens ts = some root := by
  simp only [parseTokensWithin, bind_eq_some, Option.some.injEq] at h
  obtain ⟨s, hs, s', hs', rfl⟩ := h
  simp [parseTokens, feed_of_foldlM hs, Lemon.parse_of_parseWithin hs']

/-- The tokens of a source, if there are fewer than `fuel`, and the state where it stops. -/
def readAll (next : Token → σ → Bool × Token × σ) : ℕ → Token → σ → Option (List Token × Token × σ)
  | 0, _, _ => none
  | fuel + 1, tk, lex =>
    match next tk lex with
    | (false, _) => some ([], tk, lex)
    | (true, tk, lex) => (readAll next fuel tk lex).map fun (ts, rest) => (tk :: ts, rest)

theorem stops_of_readAll {fuel : ℕ} (h : readAll next fuel tk lex = some (ts, tk', lex')) :
    Stops next tk lex ts tk' lex' := by
  induction fuel generalizing tk lex ts with
  | zero => simp [readAll] at h
  | succ fuel ih =>
    rw [readAll] at h
    rcases hn : next tk lex with ⟨more, tk1, lex1⟩
    rw [hn] at h
    cases more with
    | false =>
      obtain ⟨rfl, rfl, rfl⟩ : [] = ts ∧ tk = tk' ∧ lex = lex' := by simpa using h
      exact ⟨Trace.nil _, by rw [hn]⟩
    | true =>
      obtain ⟨⟨ts1, rest⟩, hrest, heq⟩ := Option.map_eq_some_iff.mp h
      obtain ⟨rfl, rfl⟩ := Prod.mk.inj heq
      obtain ⟨ht, hf⟩ := ih hrest
      exact ⟨Trace.cons ⟨hn, rfl⟩ ht, hf⟩

/-! ## Sequences of tokens -/

/-- A source of tokens that gives those of a list. -/
def readList (tk : Token) : List Token → Bool × Token × List Token
  | [] => (false, tk, [])
  | tk' :: ts => (true, tk', ts)

theorem readList_stops (tk : Token) (ts : List Token) : ∃ tk', Stops readList tk ts ts tk' [] := by
  induction ts generalizing tk with
  | nil => exact ⟨tk, Trace.nil _, rfl⟩
  | cons t ts ih =>
    obtain ⟨tk', ht, hf⟩ := ih t
    exact ⟨tk', Trace.cons ⟨rfl, rfl⟩ ht, hf⟩

theorem msgType_ne_none_iff (stmt : Node) :
    stmt.msgType ≠ none ↔ ∃ a ∈ keyword stmt.cls, a ∈ [TokenType.CREATE, .DROP, .INSERT] := by
  unfold Node.msgType keyword
  cases stmt.cls <;> simp

/-- What is left of tokens of these types is a sentence, and its first statement that is not empty is one that
there is code for. -/
def Executable (types : List TokenType) : Prop :=
  kept false [] types ∈ sentences ∧
    ∃ a ∈ (kept false [] types).find? (· ≠ .SEMICOLON), a ∈ [TokenType.CREATE, .DROP, .INSERT]

section Tokens

variable {ts : List Token} (hnot : (ts.map Token.type).count .NOT ≤ 85)
  (hstar : ¬ [TokenType.STAR, .COMMA, .COMMA].Sublist (ts.map Token.type))
include hnot hstar

theorem executed_iff {next : Token → σ → Bool × Token × σ} {tk tk' : Token} {lex lex' : σ}
    (hstop : Stops next tk lex ts tk' lex') (exec : Node → δ → Option (Bool × δ)) (db : δ) :
    (∃ e, sqlExecute next exec tk lex db = some e ∧ e.executed ≠ []) ↔ Executable (ts.map Token.type) := by
  obtain ⟨root, hroot, hno, hyes⟩ := parseTokens_eq hnot hstar
  rw [sqlExecute_of_stops hstop, hroot, Executable]
  simp only [Option.map_some, Option.some.injEq, exists_eq_left', executeRoot]
  by_cases hk : kept false [] (ts.map Token.type) ∈ sentences
  · obtain ⟨herr, hfind, hkey⟩ := hyes hk
    rw [if_neg (by simp [herr]), executed_ne_nil_iff rfl, hfind]
    cases firstStmt root.stmtNodes with
    | none => simp
    | some c => simpa [hk] using msgType_ne_none_iff c
  · refine iff_of_false ?_ fun h => hk h.1
    rw [hno hk]
    split_ifs <;> simp [executeStmts]

end Tokens

theorem executeRoot_drop {root : StmtListNode} (hroot : (root.err, root.stmtNodes.map Node.cls) = (false, [.drop])) :
    ∃ stmt, root.stmtNodes = [stmt] ∧ executeRoot (fun _ (db : Unit) => some (true, db)) () root =
      ⟨[stmt], (), some ⟨.SqlDropTb, true⟩⟩ := by
  obtain ⟨herr, hcls⟩ := Prod.mk.inj hroot
  obtain ⟨stmt, hstmt⟩ := List.length_eq_one_iff.mp (by simpa using congrArg List.length hcls)
  have hdrop : stmt.cls = .drop := by simpa [hstmt] using hcls
  refine ⟨stmt, hstmt, ?_⟩
  simp [executeRoot, herr, hstmt, executeStmts, hdrop, Node.msgType]

end SqlExecute

end Dawn
