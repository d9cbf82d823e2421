import Dawn.Lib.Lemon
import Dawn.Sql.Ast

/-!
# The grammar of SQL

`parse.y`: the rules with their code, and the parser that Lemon makes of them. Most of the code builds a node
of some class from the nodes of the right-hand side (`Action`).

The flag `err_` of the list of statements is set by `%syntax_error`, and the code of the first rule overwrites
it with that of the list that was parsed, which is never set (`IsStmtList`). The code is defined (`parser_defined`)
except for a list of columns that begins with a star and has two more: the code for the third reads a pointer
that the code for the second has not set.
-/

namespace Dawn

/-- The nonterminals of the grammar. -/
inductive NonTerminal
  | sql | stmtList | stmt | emptyStmt | ddl | dml
  | create | createDefList | createDef | colName | columnDef | dataType | identifier | drop
  | insert | valueList | value | delete
  | select | selectExprList | selectExpr | tableReferences | tableReference | tableFactor | joinedTable | tbName
  | whereCondition | expr | booleanPrimary | comparisonOperator | predicate | bitExpr | simpleExpr | literal
  deriving DecidableEq, Repr

/-- What the parser keeps for a symbol: the token, or what the pointer of its `%type` points to. -/
inductive Minor
  | token (tk : Token)
  | node (node : Node)

/-- The code of a rule. The numbers are positions on the right-hand side. -/
inductive Action
  /-- `A = B`, and rules without code that sets a value: the first value stays in place. -/
  | keep
  /-- `A = new ...`, with the nodes at the positions as children. -/
  | build (cls : NodeClass) (children : List ℕ)
  /-- `A = new ...`, from the value of the token at a position. -/
  | ofToken (cls : Token → NodeClass) (pos : ℕ)
  /-- `B->add_child(C); A = B`, for a list and its new element after a separator. -/
  | addChild
  /-- `select_expr_list(A) ::= select_expr(B)`. -/
  | firstSelectExpr
  /-- `select_expr_list(A) ::= select_expr_list(B) COMMA select_expr(C)`. -/
  | nextSelectExpr

/-- A rule with its code. -/
structure Production where
  rule : ContextFreeRule TokenType NonTerminal
  action : Action

/-- The node at a position of the right-hand side. -/
def nodeAt (vals : List Minor) (i : ℕ) : Option Node :=
  match vals[i]? with
  | some (.node node) => some node
  | _ => none

/-- The value that the code of a rule gives to its left-hand side. -/
def Action.run : Action → List Minor → Option Minor
  | .keep, vals => vals.head?
  | .build cls children, vals => (children.mapM (nodeAt vals)).map fun nodes => .node (.mk cls nodes)
  | .ofToken cls pos, vals =>
    match vals[pos]? with
    | some (.token tk) => some (.node (.mk (cls tk) []))
    | _ => none
  | .addChild, vals =>
    match vals with
    | [.node b, _, .node c] => some (.node (b.addChild c))
    | _ => none
  | .firstSelectExpr, vals =>
    match vals with
    | [.node b] =>
      if b.cls = .selectExpr .kStar then some (.node (.mk (.selectExprList true) []))
      else some (.node (.mk (.selectExprList false) [b]))
    | _ => none
  | .nextSelectExpr, vals =>
    match vals with
    | [.node b, _, .node c] =>
      match b.cls with
      -- With a star before, the code does not set `A`.
      | .selectExprList true => some (.node (.mk .indeterminate []))
      -- It then reads the list through `A` if there is one more.
      | .indeterminate => none
      | _ => some (.node (b.addChild c))
    | _ => none

/-- The text of an identifier or a string, a C string. -/
def Token.varchar (tk : Token) : List UInt8 :=
  match tk.val with
  | .varchar text => cStr text
  | _ => []

def Token.integer (tk : Token) : ℤ :=
  match tk.val with
  | .integer n => n
  | _ => 0

/-- The text of a decimal. -/
def Token.decimal (tk : Token) : List UInt8 :=
  match tk.val with
  | .decimal text => text
  | _ => []

namespace Grammar

/-- A terminal on a right-hand side. -/
abbrev t (a : TokenType) : Symbol TokenType NonTerminal := .terminal a

/-- A nonterminal on a right-hand side. -/
abbrev n (A : NonTerminal) : Symbol TokenType NonTerminal := .nonterminal A

/-- The first rule. -/
def sqlRule : ContextFreeRule TokenType NonTerminal := ⟨.sql, [n .stmtList]⟩

/-- The other rules, in their order. -/
def productions : List Production :=
  [ ⟨⟨.stmtList, [n .stmt]⟩, .build (.stmtList false) [0]⟩,
    ⟨⟨.stmtList, [n .stmtList, t .SEMICOLON, n .stmt]⟩, .addChild⟩,
    ⟨⟨.stmt, [n .ddl]⟩, .keep⟩,
    ⟨⟨.stmt, [n .dml]⟩, .keep⟩,
    ⟨⟨.stmt, [n .emptyStmt]⟩, .build .emptyStmt []⟩,
    ⟨⟨.emptyStmt, []⟩, .build .indeterminate []⟩,
    ⟨⟨.ddl, [n .create]⟩, .keep⟩,
    ⟨⟨.ddl, [n .drop]⟩, .keep⟩,
    ⟨⟨.dml, [n .insert]⟩, .keep⟩,
    ⟨⟨.dml, [n .delete]⟩, .keep⟩,
    ⟨⟨.dml, [n .select]⟩, .keep⟩,
    ⟨⟨.create, [t .CREATE, t .TABLE, n .identifier, t .LEFT_PARENTHESES, n .createDefList,
      t .RIGHT_PARENTHESES]⟩, .build .create [2, 4]⟩,
    ⟨⟨.createDefList, [n .createDef]⟩, .build .createDefList [0]⟩,
    ⟨⟨.createDefList, [n .createDefList, t .COMMA, n .createDef]⟩, .addChild⟩,
    ⟨⟨.createDef, [n .colName, n .columnDef]⟩, .build (.createDef .kColumn) [0, 1]⟩,
    ⟨⟨.createDef, [t .PRIMARY_KEY, t .LEFT_PARENTHESES, n .identifier, t .RIGHT_PARENTHESES]⟩,
      .build (.createDef .kPrimaryKey) [2]⟩,
    ⟨⟨.colName, [n .identifier]⟩, .keep⟩,
    ⟨⟨.columnDef, [n .dataType]⟩, .build .columnDef [0]⟩,
    ⟨⟨.dataType, [t .CHAR, t .LEFT_PARENTHESES, t .INT_NUM, t .RIGHT_PARENTHESES]⟩,
      .ofToken (fun b => .dataType .kChar b.integer) 2⟩,
    ⟨⟨.dataType, [t .INT]⟩, .build (.dataType .kInteger (-1)) []⟩,
    ⟨⟨.dataType, [t .DECIMAL]⟩, .build (.dataType .kDecimal (-1)) []⟩,
    ⟨⟨.dataType, [t .BOOLEAN]⟩, .build (.dataType .kBoolean (-1)) []⟩,
    ⟨⟨.identifier, [t .ID]⟩, .ofToken (fun b => .identifier b.varchar) 0⟩,
    ⟨⟨.drop, [t .DROP, t .TABLE, n .identifier]⟩, .build .drop [2]⟩,
    ⟨⟨.insert, [t .INSERT, t .INTO, n .identifier, t .VALUES, t .LEFT_PARENTHESES, n .valueList,
      t .RIGHT_PARENTHESES]⟩, .build .insert [2, 5]⟩,
    ⟨⟨.valueList, [n .value]⟩, .build .valueList [0]⟩,
    ⟨⟨.valueList, [n .valueList, t .COMMA, n .value]⟩, .addChild⟩,
    ⟨⟨.value, [n .literal]⟩, .build .value [0]⟩,
    ⟨⟨.delete, [t .DELETE, t .FROM, n .identifier, t .WHERE, n .whereCondition]⟩, .build .delete [2, 4]⟩,
    ⟨⟨.select, [t .SELECT, n .selectExprList, t .FROM, n .tableReferences, t .WHERE, n .whereCondition]⟩,
      .build .select [1, 3, 5]⟩,
    ⟨⟨.selectExprList, [n .selectExpr]⟩, .firstSelectExpr⟩,
    ⟨⟨.selectExprList, [n .selectExprList, t .COMMA, n .selectExpr]⟩, .nextSelectExpr⟩,
    ⟨⟨.selectExpr, [n .colName]⟩, .build (.selectExpr .kColName) [0]⟩,
    ⟨⟨.selectExpr, [t .STAR]⟩, .build (.selectExpr .kStar) []⟩,
    ⟨⟨.tableReferences, [n .tableReference]⟩, .build .tableRefs [0]⟩,
    ⟨⟨.tableReferences, [n .tableReferences, t .COMMA, n .tableReference]⟩, .keep⟩,
    ⟨⟨.tableReference, [n .tableFactor]⟩, .build .tableRef [0]⟩,
    ⟨⟨.tableReference, [n .joinedTable]⟩, .keep⟩,
    ⟨⟨.tableFactor, [n .tbName]⟩, .build .tableFactor [0]⟩,
    ⟨⟨.joinedTable, [n .tableReference, t .NATURAL, t .JOIN, n .tableFactor]⟩, .keep⟩,
    ⟨⟨.tbName, [n .identifier]⟩, .keep⟩,
    ⟨⟨.whereCondition, [n .expr]⟩, .keep⟩,
    ⟨⟨.expr, [n .expr, t .AND, n .expr]⟩, .build (.expr .kAND) [0, 2]⟩,
    ⟨⟨.expr, [n .expr, t .OR, n .expr]⟩, .build (.expr .kOR) [0, 2]⟩,
    ⟨⟨.expr, [t .NOT, n .expr]⟩, .build (.expr .kNOT) [1]⟩,
    ⟨⟨.expr, [n .booleanPrimary]⟩, .build (.expr .kBooleanPrimary) [0]⟩,
    ⟨⟨.booleanPrimary, [n .booleanPrimary, n .comparisonOperator, n .predicate]⟩,
      .build (.booleanPrimary true (some true)) [0, 1, 2]⟩,
    ⟨⟨.booleanPrimary, [n .predicate]⟩, .build (.booleanPrimary false none) [0]⟩,
    ⟨⟨.comparisonOperator, [t .EQUAL]⟩, .build (.comparisonOpr .kEqual) []⟩,
    ⟨⟨.comparisonOperator, [t .GREATER_SIGN]⟩, .build (.comparisonOpr .kGreater) []⟩,
    ⟨⟨.comparisonOperator, [t .LESS_SIGN]⟩, .build (.comparisonOpr .kLess) []⟩,
    ⟨⟨.comparisonOperator, [t .GT_EQ]⟩, .build (.comparisonOpr .kGreaterEq) []⟩,
    ⟨⟨.comparisonOperator, [t .LE_EQ]⟩, .build (.comparisonOpr .kLessEq) []⟩,
    ⟨⟨.comparisonOperator, [t .NOT_EQ]⟩, .build (.comparisonOpr .kNotEqual) []⟩,
    ⟨⟨.predicate, [n .bitExpr]⟩, .build .predicate [0]⟩,
    ⟨⟨.bitExpr, [n .bitExpr, t .PLUS, n .bitExpr]⟩, .build (.bitExpr .kPlus) [0, 2]⟩,
    ⟨⟨.bitExpr, [n .bitExpr, t .MINUS, n .bitExpr]⟩, .build (.bitExpr .kMinus) [0, 2]⟩,
    ⟨⟨.bitExpr, [n .bitExpr, t .STAR, n .bitExpr]⟩, .build (.bitExpr .kMultiply) [0, 2]⟩,
    ⟨⟨.bitExpr, [n .bitExpr, t .DIVIDE, n .bitExpr]⟩, .build (.bitExpr .kDivide) [0, 2]⟩,
    ⟨⟨.bitExpr, [n .simpleExpr]⟩, .build (.bitExpr .kSimpleExpr) [0]⟩,
    ⟨⟨.simpleExpr, [n .literal]⟩, .build (.simpleExpr .kLiteral) [0]⟩,
    ⟨⟨.simpleExpr, [n .identifier]⟩, .build (.simpleExpr .kIdentifier) [0]⟩,
    ⟨⟨.literal, [t .INT_NUM]⟩, .ofToken (fun b => .literal (.integer b.integer)) 0⟩,
    ⟨⟨.literal, [t .DECIMAL_NUM]⟩, .ofToken (fun b => .literal (.decimal b.decimal)) 0⟩,
    ⟨⟨.literal, [t .STRING]⟩, .ofToken (fun b => .literal (.str b.varchar)) 0⟩,
    ⟨⟨.literal, [t .TRUE]⟩, .build (.literal (.boolean true)) []⟩,
    ⟨⟨.literal, [t .FALSE]⟩, .build (.literal (.boolean false)) []⟩ ]

/-- The precedences, from the two `%left` lines. -/
def prec (a : TokenType) : Option ℕ :=
  if a ∈ [.PLUS, .MINUS, .STAR, .DIVIDE, .EQUAL, .GREATER, .LESS] then some 0
  else if a ∈ [.GT_EQ, .LE_EQ, .NOT_EQ, .OR, .AND, .NOT] then some 1
  else none

/-- The rules as Lemon reads them. -/
def grammar : LemonGrammar TokenType NonTerminal where
  start := .sql
  rules := sqlRule :: productions.map Production.rule
  prec := prec

/-- The code of the first rule: the list that was parsed is moved into the root, with its flag. -/
def moveToRoot (vals : List Minor) : Option StmtListNode :=
  match vals with
  | [.node (.mk (.stmtList err) children)] => some ⟨err, children⟩
  | _ => none

/-- `dawn_parse`. `YYSTACKDEPTH` is 100. -/
def parser : Lemon TokenType NonTerminal Token Minor StmtListNode where
  grammar := grammar
  stackDepth := 99
  major := Token.type
  minor := .token
  act r vals := (productions.find? fun p => p.rule = r).bind fun p => p.action.run vals
  finish vals _ := moveToRoot vals
  syntaxError root := { root with err := true }

/-- The calls of `dawn_parse` for the tokens and for the end, and the root that they leave. -/
def parseTokens (ts : List Token) : Option StmtListNode := do
  let s ← parser.feed (Lemon.init {}) ts
  let s ← parser.parse none s
  some s.arg

/-! ## The values of phrases -/

/-- The token with which the statements of a class begin. -/
def keyword : NodeClass → Option TokenType
  | .create => some .CREATE
  | .drop => some .DROP
  | .insert => some .INSERT
  | .delete => some .DELETE
  | .select => some .SELECT
  | _ => none

/-- The node of a statement, and the tokens that it was made of. -/
def IsStmt (node : Node) (u : List TokenType) : Prop :=
  (node.cls = .emptyStmt ∧ u = []) ∨ ∃ a, keyword node.cls = some a ∧ u.head? = some a

/-- The node of a list of statements. Its flag is not set. -/
def IsStmtList (node : Node) (u : List TokenType) : Prop :=
  ∃ stmt u0, ∃ rest : List (Node × List TokenType), node = .mk (.stmtList false) (stmt :: rest.map Prod.fst) ∧ IsStmt stmt u0 ∧
    (∀ p ∈ rest, IsStmt p.1 p.2) ∧ u = u0 ++ rest.flatMap fun p => .SEMICOLON :: p.2

/-- What the nodes for a nonterminal are, as far as the code depends on it. -/
def IsNode (A : NonTerminal) (node : Node) (u : List TokenType) : Prop :=
  match A with
  | .stmtList => IsStmtList node u
  | .emptyStmt => u = []
  | .stmt | .ddl | .dml | .create | .drop | .insert | .delete | .select => IsStmt node u
  | .selectExpr => node.cls = .selectExpr .kStar → .STAR ∈ u
  | .selectExprList => (node.cls = .selectExprList true → .STAR ∈ u) ∧
      (node.cls = .indeterminate → [TokenType.STAR, .COMMA].Sublist u)
  | _ => True

/-- The values that the parser keeps for a symbol and its tokens. -/
def HasKind : Symbol TokenType NonTerminal → Minor → List TokenType → Prop
  | .terminal a, v, u => u = [a] ∧ ∃ tk, v = .token tk
  | .nonterminal A, v, u => ∃ node, v = .node node ∧ IsNode A node u

def isNode : Symbol TokenType NonTerminal → Bool
  | .terminal _ => false
  | .nonterminal _ => true

/-- The code of a rule finds nodes and tokens where it looks for them. -/
def fits : Action → List (Symbol TokenType NonTerminal) → Bool
  | .keep, α => α.head?.any isNode
  | .build _ children, α => children.all fun i => α[i]?.any isNode
  | .ofToken _ pos, α => α[pos]?.any fun X => !isNode X
  | .addChild, α => α.length = 3 && α[0]?.any isNode && α[2]?.any isNode
  | .firstSelectExpr, α => α = [n .selectExpr]
  | .nextSelectExpr, α => α = [n .selectExprList, t .COMMA, n .selectExpr]

theorem productions_fit : ∀ p ∈ productions, fits p.action p.rule.output = true := by decide +kernel

variable {α : List (Symbol TokenType NonTerminal)} {ps : List (Minor × List TokenType)} {p : Production}

theorem parts_one {X : Symbol TokenType NonTerminal} (h : Lemon.Parts HasKind [X] ps) :
    ∃ v u, ps = [(v, u)] ∧ HasKind X v u := by
  simpa [List.forall₂_cons_left_iff, and_comm] using h

theorem parts_three {X Y Z : Symbol TokenType NonTerminal} (h : Lemon.Parts HasKind [X, Y, Z] ps) :
    ∃ v u v' u' v'' u'', ps = [(v, u), (v', u'), (v'', u'')] ∧
      HasKind X v u ∧ HasKind Y v' u' ∧ HasKind Z v'' u'' := by
  obtain ⟨⟨v, u⟩, _, hX, h1, rfl⟩ := List.forall₂_cons_left_iff.mp h
  obtain ⟨⟨v', u'⟩, _, hY, h2, rfl⟩ := List.forall₂_cons_left_iff.mp h1
  obtain ⟨v'', u'', rfl, hZ⟩ := parts_one h2
  exact ⟨v, u, v', u', v'', u'', rfl, hX, hY, hZ⟩

theorem value_at (hps : Lemon.Parts HasKind α ps) {i : ℕ} {X : Symbol TokenType NonTerminal} (hi : α[i]? = some X) :
    ∃ v u, (ps.map Prod.fst)[i]? = some v ∧ HasKind X v u := by
  obtain ⟨hlt, rfl⟩ := List.getElem?_eq_some_iff.mp hi
  have hlt' : i < ps.length := hps.length_eq ▸ hlt
  exact ⟨ps[i].1, ps[i].2, by simp [hlt'], hps.get hlt hlt'⟩

theorem node_at (hps : Lemon.Parts HasKind α ps) {i : ℕ} (hi : α[i]?.any isNode = true) :
    ∃ node, (ps.map Prod.fst)[i]? = some (.node node) := by
  obtain ⟨X, hX, hnode⟩ := (Option.any_eq_true ..).mp hi
  obtain ⟨v, u, hv, hkind⟩ := value_at hps hX
  cases X with
  | terminal a => cases hnode
  | nonterminal A =>
    obtain ⟨node, rfl, -⟩ := hkind
    exact ⟨node, hv⟩

/-- The code gives a node, unless it reads a list that was not set. -/
theorem run_of_fits {action : Action} (hfit : fits action α = true) (hps : Lemon.Parts HasKind α ps) :
    (∃ node, action.run (ps.map Prod.fst) = some (.node node)) ∨
      (action.run (ps.map Prod.fst) = none ∧ [TokenType.STAR, .COMMA, .COMMA].Sublist (ps.flatMap Prod.snd)) := by
  cases action with
  | keep =>
    obtain ⟨node, hnode⟩ := node_at hps (i := 0) (by simpa [fits, List.head?_eq_getElem?] using hfit)
    exact Or.inl ⟨node, by rw [Action.run, List.head?_eq_getElem?, hnode]⟩
  | build cls children =>
    have hnodes : ∃ nodes, children.mapM (nodeAt (ps.map Prod.fst)) = some nodes := by
      simp only [fits] at hfit
      induction children with
      | nil => exact ⟨[], rfl⟩
      | cons i children ih =>
        rw [List.all_cons, Bool.and_eq_true] at hfit
        obtain ⟨nodes, hnodes⟩ := ih hfit.2
        obtain ⟨node, hnode⟩ := node_at hps hfit.1
        exact ⟨node :: nodes, by simp [List.mapM_cons, nodeAt, hnode, hnodes]⟩
    obtain ⟨nodes, hnodes⟩ := hnodes
    exact Or.inl ⟨_, by rw [Action.run, hnodes]; rfl⟩
  | ofToken cls pos =>
    obtain ⟨X, hX, hterm⟩ := (Option.any_eq_true ..).mp hfit
    obtain ⟨v, u, hv, hkind⟩ := value_at hps hX
    cases X with
    | terminal a =>
      obtain ⟨-, tk, rfl⟩ := hkind
      exact Or.inl ⟨.mk (cls tk) [], by rw [Action.run, hv]⟩
    | nonterminal A => cases hterm
  | addChild =>
    simp only [fits, Bool.and_eq_true, decide_eq_true_eq] at hfit
    obtain ⟨⟨hlen, h0⟩, h2⟩ := hfit
    obtain ⟨b, hb⟩ := node_at hps h0
    obtain ⟨c, hc⟩ := node_at hps h2
    match ps, hps.length_eq.symm.trans hlen with
    | [_, _, _], _ =>
      simp only [List.map_cons, List.map_nil, List.getElem?_cons_zero, List.getElem?_cons_succ, Option.some.injEq] at hb hc
      exact Or.inl ⟨b.addChild c, by simp [Action.run, hb, hc]⟩
  | firstSelectExpr =>
    obtain rfl := of_decide_eq_true hfit
    obtain ⟨_, u, rfl, b, rfl, -⟩ := parts_one hps
    by_cases hstar : b.cls = .selectExpr .kStar
    · exact Or.inl ⟨.mk (.selectExprList true) [], by simp [Action.run, hstar]⟩
    · exact Or.inl ⟨.mk (.selectExprList false) [b], by simp [Action.run, hstar]⟩
  | nextSelectExpr =>
    obtain rfl := of_decide_eq_true hfit
    obtain ⟨_, ub, _, _, _, uc, rfl, ⟨b, rfl, hlist⟩, ⟨rfl, -⟩, c, rfl, -⟩ := parts_three hps
    simp only [Action.run, List.map_cons, List.map_nil]
    split
    · exact Or.inl ⟨_, rfl⟩
    · rename_i hcls
      refine Or.inr ⟨rfl, ?_⟩
      have : [TokenType.STAR, .COMMA].Sublist ub := hlist.2 hcls
      simpa using (this.append (List.Sublist.refl [TokenType.COMMA])).trans (List.sublist_append_left _ uc)
    · exact Or.inl ⟨_, rfl⟩

theorem act_eq {r : ContextFreeRule TokenType NonTerminal} (hr : r ∈ productions.map Production.rule) :
    ∃ p ∈ productions, p.rule = r ∧ ∀ vals, parser.act r vals = p.action.run vals := by
  obtain ⟨q, hq, rfl⟩ := List.mem_map.mp hr
  cases hfind : productions.find? fun p => p.rule = q.rule with
  | none => exact absurd (List.find?_eq_none.mp hfind q hq) (by simp)
  | some p =>
    refine ⟨p, List.mem_of_find?_eq_some hfind, by simpa using List.find?_some hfind, fun vals => ?_⟩
    simp [parser, hfind]

/-- The code of a rule without its functions, so that it can be compared. -/
def code : Action → ℕ ⊕ NodeClass × List ℕ
  | .keep => .inl 0
  | .build cls children => .inr (cls, children)
  | .ofToken _ _ => .inl 1
  | .addChild => .inl 2
  | .firstSelectExpr => .inl 3
  | .nextSelectExpr => .inl 4

theorem eq_of_code {action action' : Action} (h : code action = code action') (hfun : code action' ≠ .inl 1) :
    action = action' := by
  cases action <;> cases action' <;> simp_all [code]

/-- The nonterminals whose nodes are statements. -/
def stmtKinds : List NonTerminal := [.ddl, .dml, .create, .drop, .insert, .delete, .select]

/-- The rules for the nodes on which the code depends (`IsNode`). -/
def shape (p : Production) : NonTerminal → Bool
  | .stmtList => (code p.action = .inr (.stmtList false, [0]) ∧ p.rule.output = [n .stmt]) ∨
      (code p.action = code .addChild ∧ p.rule.output = [n .stmtList, t .SEMICOLON, n .stmt])
  | .emptyStmt => p.rule.output = []
  | .stmt | .ddl | .dml => (code p.action = code .keep ∧ p.rule.output ∈ stmtKinds.map fun A => [n A]) ∨
      (code p.action = code (.build .emptyStmt []) ∧ p.rule.output = [n .emptyStmt])
  | .create | .drop | .insert | .delete | .select =>
    (code p.action).getRight?.any fun b => keyword b.1 ≠ none ∧ p.rule.output.head? = (keyword b.1).map t
  | .selectExpr => (code p.action).getRight?.any fun b => b.1 = .selectExpr .kStar → p.rule.output = [t .STAR]
  | .selectExprList => code p.action = code .firstSelectExpr ∨ code p.action = code .nextSelectExpr
  | _ => true

theorem productions_shape : ∀ p ∈ productions, shape p p.rule.input = true := by decide +kernel

section Kinds

variable {node : Node} (hps : Lemon.Parts HasKind p.rule.output ps)
  (hv : p.action.run (ps.map Prod.fst) = some (.node node))
include hps hv

theorem isStmt_of_unit (h : shape p .stmt = true) : IsStmt node (ps.flatMap Prod.snd) := by
  rcases of_decide_eq_true h with ⟨hcode, hout⟩ | ⟨hcode, hout⟩
  · obtain ⟨A, hA, hout⟩ := List.mem_map.mp hout
    rw [← hout] at hps
    rw [eq_of_code hcode nofun] at hv
    obtain ⟨_, u, rfl, node', rfl, hstmt⟩ := parts_one hps
    obtain rfl : node' = node := by simpa [Action.run] using hv
    simp only [stmtKinds, List.mem_cons, List.not_mem_nil, or_false] at hA
    rcases hA with rfl | rfl | rfl | rfl | rfl | rfl | rfl <;> simpa [IsNode] using hstmt
  · rw [hout] at hps
    rw [eq_of_code hcode nofun] at hv
    obtain ⟨_, u, rfl, _, -, hnil⟩ := parts_one hps
    obtain rfl : node = .mk .emptyStmt [] := by simpa [Action.run] using hv.symm
    exact Or.inl ⟨rfl, by simpa [IsNode] using hnil⟩

omit hps in
theorem cls_of_code {b : NodeClass × List ℕ} (hb : (code p.action).getRight? = some b) : node.cls = b.1 := by
  have hact : p.action = .build b.1 b.2 := eq_of_code (by cases hc : code p.action <;> simp_all [code]) nofun
  rw [hact, Action.run, Option.map_eq_some_iff] at hv
  obtain ⟨nodes, -, ⟨⟩⟩ := hv
  rfl

theorem isStmt_of_keyword (h : shape p .create = true) : IsStmt node (ps.flatMap Prod.snd) := by
  obtain ⟨b, hb, h⟩ := (Option.any_eq_true ..).mp h
  obtain ⟨hkey, hhead⟩ := of_decide_eq_true h
  obtain ⟨a, ha⟩ := Option.ne_none_iff_exists'.mp hkey
  rw [ha] at hhead
  obtain ⟨β, hout⟩ := List.head?_eq_some_iff.mp hhead
  refine Or.inr ⟨a, cls_of_code hv hb ▸ ha, ?_⟩
  rw [hout] at hps
  obtain _ | ⟨⟨hu, -⟩, -⟩ := hps
  simp [hu]

theorem isStmtList_of_run (h : shape p .stmtList = true) : IsStmtList node (ps.flatMap Prod.snd) := by
  rcases of_decide_eq_true h with ⟨hcode, hout⟩ | ⟨hcode, hout⟩
  · rw [hout] at hps
    rw [(eq_of_code hcode nofun : _ = Action.build (.stmtList false) [0])] at hv
    obtain ⟨_, u, rfl, c, rfl, hstmt⟩ := parts_one hps
    obtain rfl : node = .mk (.stmtList false) [c] := by simpa [Action.run, nodeAt] using hv.symm
    exact ⟨c, u, [], rfl, hstmt, by simp, by simp⟩
  · rw [hout] at hps
    rw [eq_of_code hcode nofun] at hv
    obtain ⟨_, _, _, _, _, uc, rfl, ⟨_, rfl, stmt, u0, rest, rfl, h0, hrest, rfl⟩, ⟨rfl, -⟩, c, rfl, hstmt⟩ :=
      parts_three hps
    obtain ⟨⟩ := hv
    refine ⟨stmt, u0, rest ++ [(c, uc)], by simp [Node.addChild, Node.cls, Node.children], h0, ?_, by simp⟩
    rintro q hq
    rcases List.mem_append.mp hq with hq | hq
    · exact hrest q hq
    · rw [List.mem_singleton.mp hq]
      exact hstmt

theorem isSelectList_of_run (h : shape p .selectExprList = true) (hfit : fits p.action p.rule.output = true) :
    IsNode .selectExprList node (ps.flatMap Prod.snd) := by
  rcases of_decide_eq_true h with hcode | hcode <;> rw [eq_of_code hcode nofun] at hv hfit
  · rw [show p.rule.output = _ from of_decide_eq_true hfit] at hps
    obtain ⟨_, u, rfl, b, rfl, hstar⟩ := parts_one hps
    simp only [Action.run, List.map_cons, List.map_nil] at hv
    split_ifs at hv with hcls
    · obtain ⟨⟩ := hv
      exact ⟨fun _ => by simpa using hstar hcls, nofun⟩
    · obtain ⟨⟩ := hv
      exact ⟨by simp [Node.cls], nofun⟩
  · rw [show p.rule.output = _ from of_decide_eq_true hfit] at hps
    obtain ⟨_, ub, _, _, _, uc, rfl, ⟨b, rfl, hlist⟩, ⟨rfl, -⟩, c, rfl, -⟩ := parts_three hps
    simp only [Action.run, List.map_cons, List.map_nil] at hv
    split at hv
    · rename_i hcls
      obtain ⟨⟩ := hv
      refine ⟨nofun, fun _ => ?_⟩
      have := (List.singleton_sublist.mpr (hlist.1 hcls)).append (List.Sublist.refl [TokenType.COMMA])
      simpa using this.trans (List.sublist_append_left _ uc)
    · cases hv
    · rename_i hstar hunset
      obtain ⟨⟩ := hv
      exact ⟨fun h => absurd h hstar, fun h => absurd h hunset⟩

theorem isSelectExpr_of_run (h : shape p .selectExpr = true) : IsNode .selectExpr node (ps.flatMap Prod.snd) := by
  obtain ⟨b, hb, h⟩ := (Option.any_eq_true ..).mp h
  intro hstar
  rw [of_decide_eq_true h (cls_of_code hv hb ▸ hstar)] at hps
  obtain ⟨_, u, rfl, hu, -⟩ := parts_one hps
  simp [hu]

end Kinds

theorem parser_types : Lemon.Types parser HasKind := by
  intro r hr ps v hps hv
  rcases List.mem_cons.mp hr with rfl | hr
  · cases hv
  obtain ⟨p, hp, rfl, hact⟩ := act_eq hr
  rw [hact] at hv
  rcases run_of_fits (productions_fit p hp) hps with ⟨node, hnode⟩ | ⟨hnone, -⟩
  · obtain rfl := Option.some_injective _ (hnode.symm.trans hv)
    refine ⟨node, rfl, ?_⟩
    have hshape := productions_shape p hp
    cases hin : p.rule.input with
    | stmtList => exact isStmtList_of_run hps hv (hin ▸ hshape)
    | stmt | ddl | dml => exact isStmt_of_unit hps hv (hin ▸ hshape :)
    | create | drop | insert | delete | select => exact isStmt_of_keyword hps hv (hin ▸ hshape :)
    | selectExprList => exact isSelectList_of_run hps hv (hin ▸ hshape) (productions_fit p hp)
    | selectExpr => exact isSelectExpr_of_run hps hv (hin ▸ hshape)
    | emptyStmt =>
      rw [show p.rule.output = [] from of_decide_eq_true (hin ▸ hshape :)] at hps
      cases hps
      rfl
    | _ => trivial
  · rw [hnone] at hv
    cases hv

theorem input_ne_sql : ∀ p ∈ productions, p.rule.input ≠ .sql := by decide +kernel

theorem parser_defined :
    Lemon.Defined parser HasKind fun u => ¬ [TokenType.STAR, .COMMA, .COMMA].Sublist u := by
  intro r hr ps hps hok
  rcases List.mem_cons.mp hr with rfl | hr
  · obtain ⟨_, u, rfl, _, rfl, stmt, u0, rest, rfl, -⟩ := parts_one hps
    exact ⟨fun h => absurd rfl h, fun _ arg => by simp [parser, moveToRoot]⟩
  · obtain ⟨p, hp, rfl, hact⟩ := act_eq hr
    refine ⟨fun _ => ?_, fun h => absurd h (input_ne_sql p hp)⟩
    rw [hact]
    rcases run_of_fits (productions_fit p hp) hps with ⟨node, hnode⟩ | ⟨-, hbad⟩
    · simp [hnode]
    · exact absurd hbad hok

/-- What the symbols weigh. The nonterminals are declared in an order in which most rules go down. -/
def weight : Symbol TokenType NonTerminal → ℤ
  | .terminal _ => 40
  | .nonterminal .identifier => 39
  | .nonterminal .colName => 38
  | .nonterminal A => A.ctorIdx - 4

theorem parser_lightens : Lemon.Lightens grammar weight 4 where
  rule := by decide +kernel
  bounded X := by
    unfold weight
    split <;> omega
  start := by decide +kernel

/-- The first statement that is not empty. -/
def firstStmt (stmts : List Node) : Option Node := stmts.find? fun stmt => stmt.cls ≠ .emptyStmt

theorem keyword_eq_some {cls : NodeClass} {a : TokenType} (h : keyword cls = some a) :
    cls ≠ .emptyStmt ∧ a ≠ .SEMICOLON := by
  unfold keyword at h
  split at h <;> simp_all <;> simp [← h]

/-- The first token that is not a semicolon tells the first statement that is not empty. -/
theorem firstStmt_cases {rest : List (Node × List TokenType)} {stmt : Node} {u : List TokenType}
    (h0 : IsStmt stmt u) (hrest : ∀ p ∈ rest, IsStmt p.1 p.2) :
    (u ++ rest.flatMap fun p => .SEMICOLON :: p.2).find? (· ≠ .SEMICOLON) =
      (firstStmt (stmt :: rest.map Prod.fst)).bind (keyword ·.cls) ∧
    ∀ c ∈ firstStmt (stmt :: rest.map Prod.fst), keyword c.cls ≠ none := by
  induction rest generalizing stmt u with
  | nil =>
    rcases h0 with ⟨hempty, rfl⟩ | ⟨a, hkey, hhead⟩
    · simp [firstStmt, hempty]
    · obtain ⟨u', rfl⟩ := List.head?_eq_some_iff.mp hhead
      simp [firstStmt, keyword_eq_some hkey, hkey]
  | cons p rest ih =>
    rcases h0 with ⟨hempty, rfl⟩ | ⟨a, hkey, hhead⟩
    · have := ih (hrest p List.mem_cons_self) fun q hq => hrest q (List.mem_cons_of_mem p hq)
      simpa [firstStmt, hempty] using this
    · obtain ⟨u', rfl⟩ := List.head?_eq_some_iff.mp hhead
      simp [firstStmt, keyword_eq_some hkey, hkey]

end Grammar

end Dawn
