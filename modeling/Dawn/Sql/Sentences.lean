import Dawn.Lib.Guided
import Dawn.Sql.Grammar

/-!
# The sentences of SQL

The language of `parse.y` is regular: nothing in it is nested. Its automaton is here, and the parser follows it
(`certified`). So it is known what is left of tokens that are not a sentence: the parser throws away each token with
which no sentence goes on (`kept_eq`).
-/

namespace Dawn

namespace Grammar

/-- Where in a statement the parser is. -/
inductive Place
  | stmt | ended
  | defStart | typeStart | defEnd | valStart | valEnd
  | selStart | selEnd | tbStart | joined | tbEnd | cond | operand | condEnd
  deriving DecidableEq, Repr

/-- The tokens that must come next, and the place after them. -/
abbrev Spot := List TokenType × Place

def operands : List TokenType := [.ID, .INT_NUM, .DECIMAL_NUM, .STRING, .TRUE, .FALSE]

def signs : List TokenType :=
  [.EQUAL, .GREATER_SIGN, .LESS_SIGN, .GT_EQ, .LE_EQ, .NOT_EQ, .PLUS, .MINUS, .STAR, .DIVIDE]

/-- The tokens that may come at a place. -/
def Place.next : Place → TokenType → Option Spot
  | .stmt, .SEMICOLON | .ended, .SEMICOLON | .condEnd, .SEMICOLON => some ([], .stmt)
  | .stmt, .CREATE => some ([.TABLE, .ID, .LEFT_PARENTHESES], .defStart)
  | .stmt, .DROP => some ([.TABLE, .ID], .ended)
  | .stmt, .INSERT => some ([.INTO, .ID, .VALUES, .LEFT_PARENTHESES], .valStart)
  | .stmt, .DELETE => some ([.FROM, .ID, .WHERE], .cond)
  | .stmt, .SELECT => some ([], .selStart)
  | .defStart, .ID => some ([], .typeStart)
  | .defStart, .PRIMARY_KEY => some ([.LEFT_PARENTHESES, .ID, .RIGHT_PARENTHESES], .defEnd)
  | .typeStart, .CHAR => some ([.LEFT_PARENTHESES, .INT_NUM, .RIGHT_PARENTHESES], .defEnd)
  | .typeStart, .INT | .typeStart, .DECIMAL | .typeStart, .BOOLEAN => some ([], .defEnd)
  | .defEnd, .COMMA => some ([], .defStart)
  | .defEnd, .RIGHT_PARENTHESES | .valEnd, .RIGHT_PARENTHESES => some ([], .ended)
  | .valStart, a => if a ∈ operands.tail then some ([], .valEnd) else none
  | .valEnd, .COMMA => some ([], .valStart)
  | .selStart, .ID | .selStart, .STAR => some ([], .selEnd)
  | .selEnd, .COMMA => some ([], .selStart)
  | .selEnd, .FROM | .tbEnd, .COMMA => some ([], .tbStart)
  | .tbStart, .ID | .joined, .ID => some ([], .tbEnd)
  | .tbEnd, .NATURAL => some ([.JOIN], .joined)
  | .tbEnd, .WHERE | .cond, .NOT | .condEnd, .AND | .condEnd, .OR => some ([], .cond)
  | .cond, a | .operand, a => if a ∈ operands then some ([], .condEnd) else none
  | .condEnd, a => if a ∈ signs then some ([], .operand) else none
  | _, _ => none

def Spot.next : Spot → TokenType → Option Spot
  | ([], p), a => p.next a
  | (b :: rest, p), a => if a = b then some (rest, p) else none

/-- Where a phrase leads that may begin at a place. -/
def Place.phrase : NonTerminal → Place → List Place
  | .sql, .stmt | .stmtList, .stmt | .stmt, .stmt => [.stmt, .ended, .condEnd]
  | .emptyStmt, .stmt => [.stmt]
  | .dml, .stmt => [.ended, .condEnd]
  | .ddl, .stmt | .create, .stmt | .drop, .stmt | .insert, .stmt => [.ended]
  | .delete, .stmt | .select, .stmt => [.condEnd]
  | .createDefList, .defStart | .createDef, .defStart | .columnDef, .typeStart | .dataType, .typeStart => [.defEnd]
  | .colName, .defStart | .identifier, .defStart => [.typeStart]
  | .valueList, .valStart | .value, .valStart | .literal, .valStart => [.valEnd]
  | .selectExprList, .selStart | .selectExpr, .selStart | .colName, .selStart | .identifier, .selStart => [.selEnd]
  | .tableReferences, .tbStart | .tableReference, .tbStart | .joinedTable, .tbStart => [.tbEnd]
  | .tableFactor, .tbStart | .tbName, .tbStart | .identifier, .tbStart => [.tbEnd]
  | .tableFactor, .joined | .tbName, .joined | .identifier, .joined => [.tbEnd]
  | .whereCondition, .cond | .expr, .cond | .booleanPrimary, .cond => [.condEnd]
  | .predicate, .cond | .bitExpr, .cond | .simpleExpr, .cond | .literal, .cond | .identifier, .cond => [.condEnd]
  | .predicate, .operand | .bitExpr, .operand | .simpleExpr, .operand | .literal, .operand
  | .identifier, .operand => [.condEnd]
  | .comparisonOperator, .condEnd => [.operand]
  | _, _ => []

def Spot.phrase (A : NonTerminal) : Spot → List Spot
  | ([], p) => (p.phrase A).map ([], ·)
  | (a :: rest, p) => if A = .identifier ∧ a = .ID then [(rest, p)] else []

/-- A sentence may end here. -/
def Spot.accepts (q : Spot) : Bool := q ∈ [([], .stmt), ([], .ended), (([], .condEnd) : Spot)]

/-- The tokens for which the parser completes a phrase. -/
def follow : NonTerminal → Option TokenType → Bool
  | .stmtList, a | .stmt, a | .emptyStmt, a | .ddl, a | .dml, a | .create, a | .drop, a | .insert, a | .delete, a
  | .select, a | .whereCondition, a => a ∈ [none, some .SEMICOLON]
  | .expr, a => a ∈ [none, some .SEMICOLON, some .AND, some .OR]
  | .booleanPrimary, a | .predicate, a => a ∉ [some .PLUS, some .MINUS, some .STAR, some .DIVIDE]
  | .tableReferences, a => a ≠ some .NATURAL
  | _, _ => true

/-- How high the stack may be where a rule begins, not counting `NOT`. -/
def level (r : ContextFreeRule TokenType NonTerminal) : ℕ :=
  match r.input with
  | .sql | .stmtList => 0
  | .stmt | .emptyStmt | .ddl | .dml | .create | .drop | .insert | .delete | .select => 2
  | .selectExprList => 3
  | .selectExpr | .tableReferences => 5
  | .createDefList => 6
  | .valueList | .tableReference | .joinedTable | .whereCondition => 7
  | .createDef | .colName => 8
  | .expr => if r.output.length = 3 then 7 else 9
  | .columnDef | .dataType | .value | .booleanPrimary => 9
  | .tableFactor | .tbName | .comparisonOperator => 10
  | .predicate => 11
  | .bitExpr => if r.output.length = 3 then 11 else 13
  | .simpleExpr | .literal | .identifier => 13

/-- The automaton of the grammar. After a token that was thrown away, all phrases are complete: a table takes no
`NATURAL`, and a statement nothing but a semicolon. -/
def guide : Guide TokenType NonTerminal Spot where
  start := ([], .stmt)
  next := Spot.next
  accepts := Spot.accepts
  phrase := Spot.phrase
  follow := follow
  shut q a := a = .NATURAL ∨ (q.accepts ∧ a ≠ .SEMICOLON)
  rank
    | [] => 0
    | it :: _ => level it.rule + (it.rule.output.take it.dot).countP (· ≠ t .NOT)
  maxRank := 14
  deep := .NOT

def tokens : List TokenType :=
  [.PLUS, .MINUS, .STAR, .DIVIDE, .EQUAL, .GREATER, .LESS, .GT_EQ, .LE_EQ, .NOT_EQ, .OR, .AND, .NOT, .SEMICOLON,
    .CREATE, .TABLE, .LEFT_PARENTHESES, .RIGHT_PARENTHESES, .COMMA, .PRIMARY_KEY, .CHAR, .INT_NUM, .INT, .DECIMAL,
    .BOOLEAN, .ID, .DROP, .INSERT, .INTO, .VALUES, .DELETE, .FROM, .WHERE, .SELECT, .NATURAL, .JOIN, .GREATER_SIGN,
    .LESS_SIGN, .DECIMAL_NUM, .STRING, .TRUE, .FALSE]

theorem mem_tokens (a : TokenType) : a ∈ tokens := by cases a <;> decide

/-- The pairs of states of the automaton and of the parser. -/
def pairs : Option (List (Spot × List (Item TokenType NonTerminal))) :=
  Guide.explore (guide.succs grammar) 1200 [(guide.start, grammar.startBasis)] []

instance (x : Spot × List (Item TokenType NonTerminal)) : Decidable (guide.Good grammar tokens x) :=
  inferInstanceAs (Decidable (_ ∧ _ ∧ _))

set_option maxRecDepth 100000 in
theorem pairs_good : ∃ l ∈ pairs, ∀ x ∈ l, guide.Good grammar tokens x := by decide +kernel

def places : List Place :=
  [.stmt, .ended, .defStart, .typeStart, .defEnd, .valStart, .valEnd, .selStart, .selEnd, .tbStart, .joined, .tbEnd,
    .cond, .operand, .condEnd]

theorem mem_places (p : Place) : p ∈ places := by cases p <;> decide

theorem guide_respects : guide.Respects grammar := by
  have hplaces : ∀ r ∈ grammar.rules, ∀ p ∈ places, guide.phrase r.input ([], p) ≠ [] →
      guide.wp (· ∈ guide.phrase r.input ([], p)) r.output ([], p) := by decide +kernel
  rintro r hr ⟨_ | ⟨a, rest⟩, p⟩ hne
  · exact hplaces r hr p (mem_places p) hne
  · -- Of the phrases, only an identifier may be one of the tokens that must come.
    obtain ⟨hin, rfl⟩ : r.input = .identifier ∧ a = .ID := by
      by_contra hno
      exact hne (if_neg hno)
    have hrule : ∀ r ∈ grammar.rules, r.input = .identifier → r.output = [t .ID] := by decide +kernel
    rw [hrule r hr hin, hin]
    simp [Automaton.wp, Automaton.after, guide, Spot.next, Spot.phrase]

/-- The parser follows the automaton. -/
theorem certified : ∃ l, guide.Certified grammar l := by
  obtain ⟨l, hl, hgood⟩ := pairs_good
  obtain ⟨hstart, -, hclosed⟩ := Guide.explore_closed (Option.mem_def.mp hl) (by simp)
  refine ⟨l, guide_respects, by decide, fun a => ?_, hstart _ (by simp), hclosed, tokens, mem_tokens, hgood⟩
  have hfirst : ∀ a ∈ none :: tokens.map some, guide.goes guide.start a = true →
      guide.ready grammar grammar.startBasis a = true := by decide +kernel
  refine hfirst a ?_
  cases a with
  | none => exact List.mem_cons_self
  | some a => exact List.mem_cons_of_mem _ (List.mem_map.mpr ⟨a, mem_tokens a, rfl⟩)

/-- The sentences of the grammar. -/
abbrev sentences : Language TokenType := grammar.toCFG.language

theorem mem_sentences_iff {w : List TokenType} :
    w ∈ sentences ↔ ∃ q, guide.run guide.start w = some q ∧ guide.accepts q = true := by
  obtain ⟨l, hC⟩ := certified
  exact Lemon.mem_language_iff hC parser_lightens

instance (w : List TokenType) : Decidable (w ∈ sentences) :=
  decidable_of_iff (∃ q ∈ guide.run guide.start w, guide.accepts q = true) mem_sentences_iff.symm

/-! ## The tokens that are kept -/

/-- A way in which a statement ends. -/
def ending : Place → List TokenType
  | .stmt | .ended | .condEnd => []
  | .defStart => [.ID, .INT, .RIGHT_PARENTHESES]
  | .typeStart => [.INT, .RIGHT_PARENTHESES]
  | .defEnd | .valEnd => [.RIGHT_PARENTHESES]
  | .valStart => [.TRUE, .RIGHT_PARENTHESES]
  | .selStart => [.ID, .FROM, .ID, .WHERE, .ID]
  | .selEnd => [.FROM, .ID, .WHERE, .ID]
  | .tbStart | .joined => [.ID, .WHERE, .ID]
  | .tbEnd => [.WHERE, .ID]
  | .cond | .operand => [.ID]

theorem exists_ending (q : Spot) : ∃ v q', guide.run q v = some q' ∧ guide.accepts q' = true := by
  obtain ⟨rest, p⟩ := q
  induction rest with
  | nil =>
    have hends : ∀ p ∈ places, ∃ q' ∈ guide.run ([], p) (ending p), guide.accepts q' = true := by decide +kernel
    obtain ⟨q', hq', hacc⟩ := hends p (mem_places p)
    exact ⟨ending p, q', hq', hacc⟩
  | cons a rest ih =>
    obtain ⟨v, q', hq', hacc⟩ := ih
    exact ⟨a :: v, q', by simpa [Automaton.run, guide, Spot.next] using hq', hacc⟩

/-- The token `a` is kept after the tokens `u`: a sentence goes on with it. If the token before was thrown away
(`closed`), then the parser has completed all the phrases that it could: a list of tables takes no `NATURAL`, and
after a sentence it takes only a semicolon. -/
def MayFollow (closed : Bool) (u : List TokenType) (a : TokenType) : Prop :=
  (∃ v, u ++ a :: v ∈ sentences) ∧ (closed = true → a ≠ .NATURAL ∧ (u ∈ sentences → a = .SEMICOLON))

open Classical in
/-- What is left of some tokens after `u`: those that may not follow are thrown away. -/
noncomputable def kept (closed : Bool) (u : List TokenType) : List TokenType → List TokenType
  | [] => u
  | a :: w => if MayFollow closed u a then kept false (u ++ [a]) w else kept true u w

variable {u w : List TokenType} {q : Spot} {closed : Bool}

theorem run_append (hq : guide.run guide.start u = some q) (v : List TokenType) :
    guide.run guide.start (u ++ v) = guide.run q v := by
  rw [Automaton.run, List.foldlM_append, ← Automaton.run, hq]
  rfl

theorem mayFollow_iff (hq : guide.run guide.start u = some q) (a : TokenType) :
    MayFollow closed u a ↔ guide.takes closed q a = true := by
  have hgoes : (∃ v, u ++ a :: v ∈ sentences) ↔ guide.goes q (some a) = true := by
    simp only [mem_sentences_iff, run_append hq]
    refine ⟨?_, fun h => ?_⟩
    · rintro ⟨v, q', hrun, -⟩
      rw [Automaton.run, List.foldlM_cons, bind_eq_some] at hrun
      obtain ⟨q1, hq1, -⟩ := hrun
      simp [Automaton.goes, hq1]
    · obtain ⟨q1, hq1⟩ := Option.isSome_iff_exists.mp h
      obtain ⟨v, q', hrun, hacc⟩ := exists_ending q1
      refine ⟨v, q', ?_, hacc⟩
      rw [Automaton.run, List.foldlM_cons, hq1]
      exact hrun
  have hu : u ∈ sentences ↔ guide.accepts q = true := by
    rw [mem_sentences_iff]
    refine ⟨?_, fun h => ⟨q, hq, h⟩⟩
    rintro ⟨q', hq', hacc⟩
    exact Option.some_injective _ (hq.symm.trans hq') ▸ hacc
  have hshut : guide.shut q a = true ↔ a = .NATURAL ∨ (guide.accepts q = true ∧ a ≠ .SEMICOLON) := by
    simp [guide]
  rw [MayFollow, hgoes, hu, Guide.takes, Bool.and_eq_true, Bool.not_eq_true', ← Bool.not_eq_true, Bool.and_eq_true, hshut]
  tauto

theorem kept_eq (hq : guide.run guide.start u = some q) : kept closed u w = u ++ guide.left closed q w := by
  induction w generalizing u q closed with
  | nil => simp [kept, Guide.left]
  | cons a w ih =>
    rw [kept, Guide.left]
    by_cases htakes : guide.takes closed q a = true
    · have hgoes : guide.goes q (some a) = true := by
        rw [Guide.takes, Bool.and_eq_true] at htakes
        exact htakes.1
      obtain ⟨q', hq'⟩ := Option.isSome_iff_exists.mp hgoes
      rw [if_pos ((mayFollow_iff hq a).mpr htakes), if_pos htakes, hq', Option.getD_some,
        ih (u := u ++ [a]) (q := q'), List.append_assoc, List.singleton_append]
      rw [run_append hq]
      simpa [Automaton.run] using hq'
    · rw [if_neg fun h => htakes ((mayFollow_iff hq a).mp h), if_neg htakes, ih hq]

/-- What the parser leaves in the root, if its stack is deep enough and no star is followed by two commas: it is
the statements of the tokens that were kept if these are a sentence, and nothing otherwise. -/
theorem parseTokens_eq {ts : List Token} (hnot : (ts.map Token.type).count .NOT ≤ 85)
    (hstar : ¬ [TokenType.STAR, .COMMA, .COMMA].Sublist (ts.map Token.type)) :
    ∃ root, parseTokens ts = some root ∧
      (kept false [] (ts.map Token.type) ∉ sentences → root.stmtNodes = []) ∧
      (kept false [] (ts.map Token.type) ∈ sentences → root.err = false ∧
        (kept false [] (ts.map Token.type)).find? (· ≠ .SEMICOLON) =
          (firstStmt root.stmtNodes).bind (keyword ·.cls) ∧
        ∀ c ∈ firstStmt root.stmtNodes, keyword c.cls ≠ none) := by
  obtain ⟨l, hC⟩ := certified
  have hfits : parser.Fits guide ([] ++ ts.map parser.major) := by
    change 14 + (ts.map Token.type).count .NOT ≤ 99
    omega
  obtain ⟨s, closed, q, hfeed, hroot, h⟩ := (Lemon.guided_init (P := parser) hC {}).feed hC parser_defined parser_lightens
    parser_types (I := fun root => root.stmtNodes = []) (fun _ h => h) (fun tk _ => ⟨rfl, tk, rfl⟩) hfits
    (fun u hu hbad => hstar (hbad.trans hu)) rfl
  have hkept : kept false [] (ts.map Token.type) = [] ++ guide.left false guide.start (ts.map Token.type) := kept_eq rfl
  have hsub : (kept false [] (ts.map Token.type)).Sublist (ts.map Token.type) := hkept ▸ guide.left_sublist ..
  rw [show [] ++ guide.left false guide.start (ts.map parser.major) = _ from hkept.symm] at h
  obtain ⟨s', hs'⟩ := Option.ne_none_iff_exists'.mp (Lemon.parse_ne_none parser_defined parser_lightens parser_types
    h.keeps (fun u hu hbad => hstar (hbad.trans (hu.sublist.trans hsub))) (a := none))
  refine ⟨s'.arg, by simp [parseTokens, hfeed, hs'], ?_⟩
  rcases h.parse_end hC parser_types (le_trans (Nat.add_le_add_left (hsub.count_le _) _) hfits) hs' with
    ⟨-, hw, r, hr, hstart, ps, hps, hflat, hfin⟩ | ⟨hno, harg⟩
  · refine ⟨fun hn => absurd hw hn, fun _ => ?_⟩
    obtain rfl : r = sqlRule := by
      rcases List.mem_cons.mp hr with rfl | hr
      · rfl
      · obtain ⟨p, hp, rfl⟩ := List.mem_map.mp hr
        exact absurd hstart (input_ne_sql p hp)
    obtain ⟨_, u, rfl, _, rfl, stmt, u0, rest, rfl, h0, hrest, rfl⟩ := parts_one hps
    have harg : s'.arg = ⟨false, stmt :: rest.map Prod.fst⟩ := (Option.some_injective _ hfin).symm
    rw [harg, show kept _ _ _ = u0 ++ rest.flatMap fun p => .SEMICOLON :: p.2 by simpa using hflat]
    exact ⟨rfl, firstStmt_cases h0 hrest⟩
  · refine ⟨fun _ => ?_, fun hw => ?_⟩
    · rcases harg with harg | harg
      · exact harg ▸ hroot
      · exact harg ▸ hroot
    · obtain ⟨q', hq', hacc⟩ := mem_sentences_iff.mp hw
      obtain rfl := Option.some_injective _ (h.run.symm.trans hq')
      rw [hacc] at hno
      cases hno

end Grammar

end Dawn
