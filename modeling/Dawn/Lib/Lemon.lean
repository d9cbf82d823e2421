import Dawn.Lib.LrItems
import Dawn.Lib.Returns

/-!
# The parsers that Lemon generates

`lempar.c` over the states of `LrItems`: the stack, the error count, and the loop of `Parse` for a grammar
without an error symbol. A token that has no action is reported, if no error was reported lately, and thrown
away; the parse goes on with the next token. A stack that is full is emptied without a report.

The parser keeps some of the tokens that it is given, and with them the values that the code of its rules has made
of them (`Keeps`); what it accepts is a sentence of the grammar (`Keeps.accept`). It returns where the code of its
rules is defined (`parse_ne_none`), and a loop that ends within some number of turns can be computed
(`parse_of_parseWithin`).
-/

namespace Dawn

open LemonGrammar

/-- A grammar with the code of its rules. `S` are the values on the stack, `U` is what `%extra_argument`
refers to. -/
structure Lemon (T N τ S U : Type) where
  grammar : LemonGrammar T N
  /-- How many entries fit on the stack above its bottom. -/
  stackDepth : ℕ
  /-- The terminal that a token is. -/
  major : τ → T
  /-- The value of a token. -/
  minor : τ → S
  /-- The code of a rule, `none` where it is undefined. -/
  act : ContextFreeRule T N → List S → Option S
  /-- The code of a rule for the start symbol, the only one that uses the extra argument. -/
  finish : List S → U → Option U
  /-- `%syntax_error`. -/
  syntaxError : U → U

namespace Lemon

variable {T N τ S U : Type} [DecidableEq T] [DecidableEq N]

/-- `yyParser`, with the extra argument. -/
structure State (T N S U : Type) where
  /-- `yystack`, the top first, without its bottom. -/
  yystack : List (Entry T N S)
  yyerrcnt : ℤ
  arg : U

/-- `ParseInit`. -/
def init (arg : U) : State T N S U := ⟨[], -1, arg⟩

variable (P : Lemon T N τ S U)

/-- The values of the topmost entries, in the order of the rule. -/
def values (k : ℕ) (stack : List (Entry T N S)) : List S := (stack.take k).reverse.map Entry.minor

/-- `yy_shift`, and the error count after it. -/
def shift (t : τ) (s : State T N S U) : State T N S U :=
  if s.yystack.length < P.stackDepth then
    { s with
      yystack := ⟨P.grammar.goto (P.grammar.top s.yystack) (.terminal (P.major t)), .terminal (P.major t),
        P.minor t⟩ :: s.yystack
      yyerrcnt := s.yyerrcnt - 1 }
  else
    -- `yyStackOverflow`: the token is lost with the stack.
    { s with yystack := [], yyerrcnt := s.yyerrcnt - 1 }

/-- `yy_reduce`. -/
def reduce (r : ContextFreeRule T N) (s : State T N S U) : Option (State T N S U) := do
  let v ← P.act r (values r.output.length s.yystack)
  let below := s.yystack.drop r.output.length
  let basis := P.grammar.goto (P.grammar.top below) (.nonterminal r.input)
  if r.output.length ≤ s.yystack.length ∧ basis ≠ [] then
    some { s with yystack := ⟨basis, .nonterminal r.input, v⟩ :: below }
  else none

/-- `yy_reduce` by a rule for the start symbol, and `yy_accept`. -/
def accept (r : ContextFreeRule T N) (s : State T N S U) : Option (State T N S U) := do
  let arg ← P.finish (values r.output.length s.yystack) s.arg
  if s.yystack.length = r.output.length then some ⟨[], -1, arg⟩ else none

/-- A token without an action. `none` is the end of the input. -/
def error (a : Option τ) (s : State T N S U) : State T N S U :=
  let arg := if s.yyerrcnt ≤ 0 then P.syntaxError s.arg else s.arg
  match a with
  | some _ => { s with yyerrcnt := 3, arg }
  | none => ⟨[], -1, arg⟩

/-- A turn of the loop of `Parse` in which a rule is complete. The flag tells whether there is another turn. -/
def stepRule (a : Option τ) (r : ContextFreeRule T N) (s : State T N S U) : Option (Bool × State T N S U) :=
  if r.input = P.grammar.start then
    -- The rule for the start symbol is reduced at the end only.
    if a.isNone then (P.accept r s).map (false, ·) else some (false, P.error a s)
  else if r.output = [] ∧ P.stackDepth ≤ s.yystack.length then some (false, { s with yystack := [] })
  else (P.reduce r s).map (true, ·)

/-- One turn of the loop of `Parse`. -/
def step (a : Option τ) (s : State T N S U) : Option (Bool × State T N S U) :=
  match a.filter fun t => P.grammar.shifts (P.grammar.top s.yystack) (P.major t),
    P.grammar.complete (P.grammar.top s.yystack) with
  | some t, _ => some (false, P.shift t s)
  | none, none => some (false, P.error a s)
  | none, some r => P.stepRule a r s

/-- `Parse`. -/
def parse (a : Option τ) (s : State T N S U) : Option (State T N S U) := do
  let (again, s') ← P.step a s
  if again then (by apply parse : Option τ → State T N S U → _) a s' else some s'
partial_fixpoint

/-- `Parse`, for at most so many turns. -/
def parseWithin : ℕ → Option τ → State T N S U → Option (State T N S U)
  | 0, _, _ => none
  | fuel + 1, a, s => do
    let (again, s') ← P.step a s
    if again then parseWithin fuel a s' else some s'

/-- The calls of `Parse` for some tokens. -/
def feed (s : State T N S U) (ts : List τ) : Option (State T N S U) :=
  ts.foldlM (fun s t => P.parse (some t) s) s

variable {P} {a : Option τ} {s s' : State T N S U}

theorem parse_of_parseWithin {fuel : ℕ} (h : P.parseWithin fuel a s = some s') : P.parse a s = some s' := by
  induction fuel generalizing s with
  | zero => simp [parseWithin] at h
  | succ fuel ih =>
    rw [parse]
    rw [parseWithin] at h
    cases hs : P.step a s with
    | none => simp [hs] at h
    | some q =>
      obtain ⟨again, s1⟩ := q
      cases again with
      | true => exact ih (by simpa [hs] using h)
      | false => simpa [hs] using h

theorem parse_cases {I : State T N S U → Prop} (hkeep : ∀ s s', I s → P.step a s = some (true, s') → I s')
    (h0 : I s) (h : P.parse a s = some s') : ∃ s1, I s1 ∧ P.step a s1 = some (false, s') := by
  have key := parse.partial_correctness P
    a (fun s s' => I s → ∃ s1, I s1 ∧ P.step a s1 = some (false, s')) ?_
  · exact key s s' h h0
  · intro loop ih s s' hr hI
    cases hs : P.step a s with
    | none => simp [hs] at hr
    | some q =>
      obtain ⟨again, s1⟩ := q
      cases again with
      | true => exact ih s1 s' (by simpa [hs] using hr) (hkeep s s1 hI hs)
      | false =>
        obtain rfl : s1 = s' := by simpa [hs] using hr
        exact ⟨s, hI, hs⟩

/-! ## What a turn does -/

theorem step_again (h : P.step a s = some (true, s')) :
    ∃ r, P.grammar.complete (P.grammar.top s.yystack) = some r ∧ r.input ≠ P.grammar.start ∧
      ¬ (r.output = [] ∧ P.stackDepth ≤ s.yystack.length) ∧ P.reduce r s = some s' ∧
      ∀ t ∈ a, P.grammar.shifts (P.grammar.top s.yystack) (P.major t) = false := by
  unfold step at h
  split at h
  · simp at h
  · simp at h
  · rename_i r hf hc
    unfold stepRule at h
    split_ifs at h with hs ha ho
    · simp at h
    · simp at h
    · simp at h
    · exact ⟨r, hc, hs, ho, by simpa using h, fun t ht => by simpa [Option.mem_def.mp ht] using hf⟩

/-- The state has nothing to reduce before the end. -/
def Settled (G : LemonGrammar T N) (basis : List (Item T N)) : Prop := ∀ r ∈ G.complete basis, r.input = G.start

/-- The last turn for a token: it is shifted, or thrown away, or an empty rule finds the stack full. -/
theorem step_token {t : τ} (h : P.step (some t) s = some (false, s')) :
    (P.grammar.shifts (P.grammar.top s.yystack) (P.major t) = true ∧ s' = P.shift t s) ∨
    (P.grammar.shifts (P.grammar.top s.yystack) (P.major t) = false ∧
      Settled P.grammar (P.grammar.top s.yystack) ∧ s' = P.error (some t) s) ∨
    (∃ r ∈ P.grammar.complete (P.grammar.top s.yystack), r.input ≠ P.grammar.start ∧ r.output = [] ∧
      P.stackDepth ≤ s.yystack.length ∧ s' = { s with yystack := [] }) := by
  unfold step at h
  split at h
  · rename_i hf
    obtain ⟨ht, hsh⟩ := Option.filter_eq_some_iff.mp hf
    obtain rfl := Option.some_injective _ ht
    exact Or.inl ⟨hsh, by simpa using h.symm⟩
  · rename_i hf hc
    exact Or.inr (Or.inl ⟨by simpa using hf, fun r hr => by simp [hc] at hr, by simpa using h.symm⟩)
  · rename_i r hf hc
    unfold stepRule at h
    split_ifs at h with hs ha ho
    · simp at ha
    · refine Or.inr (Or.inl ⟨by simpa using hf, fun r' hr => ?_, by simpa using h.symm⟩)
      rw [hc, Option.mem_some_iff] at hr
      exact hr ▸ hs
    · exact Or.inr (Or.inr ⟨r, hc, hs, ho.1, ho.2, by simpa using h.symm⟩)
    · simp at h

theorem step_end (h : P.step none s = some (false, s')) :
    (∃ r ∈ P.grammar.complete (P.grammar.top s.yystack), r.input = P.grammar.start ∧ P.accept r s = some s') ∨
    (P.grammar.complete (P.grammar.top s.yystack) = none ∧ s' = P.error none s) ∨
    (∃ r ∈ P.grammar.complete (P.grammar.top s.yystack), r.input ≠ P.grammar.start ∧ r.output = [] ∧
      P.stackDepth ≤ s.yystack.length ∧ s' = { s with yystack := [] }) := by
  unfold step at h
  split at h
  · rename_i hf
    simp at hf
  · rename_i hc
    exact Or.inr (Or.inl ⟨hc, by simpa using h.symm⟩)
  · rename_i r _ hc
    unfold stepRule at h
    split_ifs at h with hs ha ho
    · exact Or.inl ⟨r, hc, hs, by simpa using h⟩
    · simp at ha
    · exact Or.inr (Or.inr ⟨r, hc, hs, ho.1, ho.2, by simpa using h.symm⟩)
    · simp at h

theorem reduce_eq_some {r : ContextFreeRule T N} (h : P.reduce r s = some s') :
    ∃ v, P.act r (values r.output.length s.yystack) = some v ∧
    P.grammar.goto (P.grammar.top (s.yystack.drop r.output.length)) (.nonterminal r.input) ≠ [] ∧
    s' = { s with yystack :=
      ⟨P.grammar.goto (P.grammar.top (s.yystack.drop r.output.length)) (.nonterminal r.input),
        .nonterminal r.input, v⟩ :: s.yystack.drop r.output.length } := by
  simp only [reduce, bind_eq_some, Option.ite_none_right_eq_some, Option.some.injEq] at h
  obtain ⟨v, hv, ⟨-, hne⟩, hs⟩ := h
  exact ⟨v, hv, hne, hs.symm⟩

omit [DecidableEq T] [DecidableEq N] in
theorem arg_error (a : Option τ) (s : State T N S U) :
    (P.error a s).arg = s.arg ∨ (P.error a s).arg = P.syntaxError s.arg := by
  unfold error
  cases a <;> dsimp only <;> split_ifs <;> simp

/-! ## What the parser keeps -/

section Yields

variable {V : Symbol T N → S → List T → Prop}

/-- The tokens `w` are those that the entries of a stack stand for, each with a value that `V` allows for its
symbol and its tokens. -/
def Yields (V : Symbol T N → S → List T → Prop) : List (Entry T N S) → List T → Prop
  | [], w => w = []
  | e :: stack, w => ∃ w' u, w = w' ++ u ∧ Yields V stack w' ∧ V e.major e.minor u

/-- The values of some symbols, with the tokens of each. -/
abbrev Parts (V : Symbol T N → S → List T → Prop) (α : List (Symbol T N)) (ps : List (S × List T)) : Prop :=
  List.Forall₂ (fun X p => V X p.1 p.2) α ps

omit [DecidableEq T] [DecidableEq N] in
theorem Yields.split {stack : List (Entry T N S)} {w : List T} (h : Yields V stack w) (k : ℕ) :
    ∃ w' ps, w = w' ++ ps.flatMap Prod.snd ∧ Yields V (stack.drop k) w' ∧
      Parts V ((stack.take k).reverse.map Entry.major) ps ∧ ps.map Prod.fst = values k stack := by
  induction k generalizing stack w with
  | zero => exact ⟨w, [], by simp, h, .nil, rfl⟩
  | succ k ih =>
    cases stack with
    | nil => exact ⟨w, [], by simp, h, .nil, rfl⟩
    | cons e stack =>
      obtain ⟨w1, u, rfl, h1, hv⟩ := h
      obtain ⟨w', ps, rfl, h', hps, hvals⟩ := ih h1
      refine ⟨w', ps ++ [(e.minor, u)], by simp, h', ?_, ?_⟩
      · rw [List.take_succ_cons, List.reverse_cons, List.map_append]
        exact List.rel_append hps (.cons hv .nil)
      · rw [List.map_append, hvals]
        simp [values]

end Yields

/-- The code of the rules gives values that `V` allows. -/
def Types (P : Lemon T N τ S U) (V : Symbol T N → S → List T → Prop) : Prop :=
  ∀ r ∈ P.grammar.rules, ∀ ps v, Parts V r.output ps → P.act r (ps.map Prod.fst) = some v →
    V (.nonterminal r.input) v (ps.flatMap Prod.snd)

/-- The symbol derives the tokens, and `V` allows the value. -/
def Stands (P : Lemon T N τ S U) (V : Symbol T N → S → List T → Prop) (X : Symbol T N) (v : S) (u : List T) : Prop :=
  P.grammar.toCFG.Derives [X] (u.map .terminal) ∧ V X v u

section Stands

variable {V : Symbol T N → S → List T → Prop} {r : ContextFreeRule T N} {ps : List (S × List T)}

theorem Parts.of_stands {α : List (Symbol T N)} (h : Parts (P.Stands V) α ps) : Parts V α ps := h.imp fun _ _ h => h.2

theorem Parts.derives {α : List (Symbol T N)} (h : Parts (P.Stands V) α ps) :
    P.grammar.toCFG.Derives α ((ps.flatMap Prod.snd).map .terminal) := by
  induction h with
  | nil => exact ContextFreeGrammar.Derives.refl []
  | @cons X p α ps hX _ ih =>
    rw [List.flatMap_cons, List.map_append]
    exact (hX.1.append_right α).trans (ih.append_left _)

theorem derives_rule (hr : r ∈ P.grammar.rules) : P.grammar.toCFG.Derives [.nonterminal r.input] r.output :=
  ContextFreeGrammar.Produces.single
    ⟨r, by simpa [LemonGrammar.toCFG] using hr, ContextFreeRule.Rewrites.input_output⟩

theorem Types.stands (hV : Types P V) (hr : r ∈ P.grammar.rules) (hps : Parts (P.Stands V) r.output ps) {v : S}
    (hv : P.act r (ps.map Prod.fst) = some v) : P.Stands V (.nonterminal r.input) v (ps.flatMap Prod.snd) :=
  ⟨(derives_rule hr).trans hps.derives, hV r hr ps v hps.of_stands hv⟩

end Stands

/-- The states of the parser, with the tokens that it has kept. -/
structure Keeps (P : Lemon T N τ S U) (V : Symbol T N → S → List T → Prop) (w : List T) (s : State T N S U) : Prop where
  linked : P.grammar.Linked s.yystack
  yields : Yields (P.Stands V) s.yystack w
  depth : s.yystack.length ≤ P.stackDepth

section Keeps

variable {V : Symbol T N → S → List T → Prop} {w : List T} {r : ContextFreeRule T N}

theorem keeps_nil {s : State T N S U} (h : s.yystack = []) : P.Keeps V [] s := by
  refine ⟨?_, ?_, ?_⟩ <;> rw [h]
  · exact trivial
  · exact rfl
  · exact Nat.zero_le _

theorem Keeps.parts (h : P.Keeps V w s) (hc : P.grammar.complete (P.grammar.top s.yystack) = some r) :
    ∃ w' ps, w = w' ++ ps.flatMap Prod.snd ∧ Yields (P.Stands V) (s.yystack.drop r.output.length) w' ∧
      Parts (P.Stands V) r.output ps ∧ ps.map Prod.fst = values r.output.length s.yystack := by
  obtain ⟨-, -, hsyms, -⟩ := h.linked.complete hc
  obtain ⟨w', ps, hw, hw', hps, hvals⟩ := h.yields.split r.output.length
  exact ⟨w', ps, hw, hw', hsyms ▸ hps, hvals⟩

theorem Keeps.reduce (hV : Types P V) (h : P.Keeps V w s)
    (hc : P.grammar.complete (P.grammar.top s.yystack) = some r)
    (hroom : ¬ (r.output = [] ∧ P.stackDepth ≤ s.yystack.length)) (hs : P.reduce r s = some s') : P.Keeps V w s' := by
  obtain ⟨hr, hlen, -⟩ := h.linked.complete hc
  obtain ⟨w', ps, rfl, hw', hps, hvals⟩ := h.parts hc
  obtain ⟨v, hv, hne, rfl⟩ := reduce_eq_some hs
  refine ⟨⟨rfl, by simpa [LemonGrammar.pushes] using hne, h.linked.drop _⟩,
    ⟨w', _, rfl, hw', hV.stands hr hps (hvals ▸ hv)⟩, ?_⟩
  have hdepth := h.depth
  simp only [List.length_cons, List.length_drop]
  rw [← List.length_eq_zero_iff] at hroom
  omega

theorem Keeps.shift {t : τ} (h : P.Keeps V w s) (ht : V (.terminal (P.major t)) (P.minor t) [P.major t])
    (hsh : P.grammar.shifts (P.grammar.top s.yystack) (P.major t) = true) (hroom : s.yystack.length < P.stackDepth) :
    P.Keeps V (w ++ [P.major t]) (P.shift t s) := by
  rw [Lemon.shift, if_pos hroom]
  exact ⟨⟨rfl, hsh, h.linked⟩, ⟨w, _, rfl, h.yields, ContextFreeGrammar.Derives.refl _, ht⟩, hroom⟩

/-- What is accepted is a sentence, and the code of a rule for the start symbol is run on its parts. -/
theorem Keeps.accept (h : P.Keeps V w s) (hc : P.grammar.complete (P.grammar.top s.yystack) = some r)
    (hs : r.input = P.grammar.start) (hacc : P.accept r s = some s') : w ∈ P.grammar.toCFG.language ∧
    ∃ ps, Parts V r.output ps ∧ w = ps.flatMap Prod.snd ∧ P.finish (ps.map Prod.fst) s.arg = some s'.arg := by
  obtain ⟨hr, -⟩ := h.linked.complete hc
  obtain ⟨w', ps, rfl, hw', hps, hvals⟩ := h.parts hc
  simp only [Lemon.accept, bind_eq_some, Option.ite_none_right_eq_some, Option.some.injEq] at hacc
  obtain ⟨arg, hfin, hlen, rfl⟩ := hacc
  obtain rfl : w' = [] := by
    simpa [List.drop_of_length_le (Nat.le_of_eq hlen), Yields] using hw'
  refine ⟨?_, ps, hps.of_stands, rfl, hvals ▸ hfin⟩
  rw [List.nil_append]
  exact (hs ▸ derives_rule hr : P.grammar.toCFG.Derives [.nonterminal P.grammar.start] r.output).trans hps.derives

/-! ## The loop ends -/

/-- The code of the rules is defined for phrases that are `Ok`. -/
def Defined (P : Lemon T N τ S U) (V : Symbol T N → S → List T → Prop) (Ok : List T → Prop) : Prop :=
  ∀ r ∈ P.grammar.rules, ∀ ps, Parts V r.output ps → Ok (ps.flatMap Prod.snd) →
    (r.input ≠ P.grammar.start → P.act r (ps.map Prod.fst) ≠ none) ∧
    (r.input = P.grammar.start → ∀ arg, P.finish (ps.map Prod.fst) arg ≠ none)

/-- Every rule that is reduced before the end gives a symbol that weighs less than what it stands for. -/
structure Lightens (G : LemonGrammar T N) (weight : Symbol T N → ℤ) (bound : ℕ) : Prop where
  rule : ∀ r ∈ G.rules, r.input ≠ G.start → weight (.nonterminal r.input) < (r.output.map weight).sum
  bounded : ∀ X, -(bound : ℤ) ≤ weight X
  start : ∀ r ∈ G.rules, .nonterminal G.start ∉ r.output

/-- The weight of a stack. -/
def stackWeight (weight : Symbol T N → ℤ) (stack : List (Entry T N S)) : ℤ := (stack.map fun e => weight e.major).sum

section Returns

variable {Ok : List T → Prop} {weight : Symbol T N → ℤ} {bound : ℕ} (hdef : Defined P V Ok)
  (hL : Lightens P.grammar weight bound)

include hL in
theorem stackWeight_reduce (h : P.Keeps V w s) (hc : P.grammar.complete (P.grammar.top s.yystack) = some r)
    (hs : r.input ≠ P.grammar.start) (hred : P.reduce r s = some s') :
    stackWeight weight s'.yystack < stackWeight weight s.yystack := by
  obtain ⟨hr, -, hsyms, -⟩ := h.linked.complete hc
  obtain ⟨v, -, -, rfl⟩ := reduce_eq_some hred
  have hsplit : stackWeight weight s.yystack =
      (r.output.map weight).sum + stackWeight weight (s.yystack.drop r.output.length) := by
    conv_lhs => rw [stackWeight, ← List.take_append_drop r.output.length s.yystack]
    rw [List.map_append, List.sum_append, stackWeight]
    congr 1
    conv_rhs => rw [← hsyms]
    rw [List.map_map, List.map_reverse, List.sum_reverse]
    rfl
  have hlt := hL.rule r hr hs
  rw [hsplit, stackWeight, List.map_cons, List.sum_cons]
  exact add_lt_add_left hlt _

include hL in
theorem neg_le_stackWeight (h : P.Keeps V w s) :
    -(bound * P.stackDepth : ℤ) ≤ stackWeight weight s.yystack := by
  have hle : -(bound * s.yystack.length : ℤ) ≤ stackWeight weight s.yystack := by
    induction s.yystack with
    | nil => simp [stackWeight]
    | cons e stack ih =>
      have := hL.bounded e.major
      simp only [stackWeight, List.map_cons, List.sum_cons, List.length_cons, Nat.cast_succ] at ih ⊢
      linarith
  have hdepth : (s.yystack.length : ℤ) ≤ P.stackDepth := by exact_mod_cast h.depth
  nlinarith

include hdef hL

/-- A turn fails only where the code of a rule is undefined. -/
theorem step_ne_none (h : P.Keeps V w s) (hok : ∀ u, u <:+ w → Ok u) : P.step a s ≠ none := by
  intro hn
  unfold step at hn
  split at hn
  · cases hn
  · cases hn
  · rename_i r _ hc
    obtain ⟨hr, hlen, -, hbegin⟩ := h.linked.complete hc
    obtain ⟨w', ps, rfl, -, hps, hvals⟩ := h.parts hc
    obtain ⟨hact, hfin⟩ := hdef r hr ps hps.of_stands (hok _ (List.suffix_append ..))
    rw [hvals] at hact hfin
    unfold stepRule at hn
    split_ifs at hn with hs ha ho
    · -- A rule for the start symbol begins at the bottom, so nothing is left below it.
      have hnil := (h.linked.drop _).eq_nil_of_start hbegin hs hL.start
      have hlen' : s.yystack.length = r.output.length := le_antisymm (List.drop_eq_nil_iff.mp hnil) hlen
      refine hfin hs s.arg ?_
      rw [Option.eq_none_iff_forall_ne_some]
      simpa [Lemon.accept, hlen'] using hn
    · -- The symbol of a rule that may begin has a `goto`.
      have hgoto := (h.linked.drop _).goto_ne_nil hbegin hs
      refine hact hs ?_
      rw [Option.eq_none_iff_forall_ne_some]
      simpa [Lemon.reduce, hlen, hgoto] using hn

/-- A call of `Parse` returns. -/
theorem parse_ne_none (hV : Types P V) (h : P.Keeps V w s) (hok : ∀ u, u <:+ w → Ok u) :
    P.parse a s ≠ none := by
  -- The stack gets lighter with every rule that is reduced, and its weight is bounded from below.
  induction hn : (stackWeight weight s.yystack + bound * P.stackDepth).toNat using Nat.strong_induction_on
    generalizing s with
  | _ n ih =>
    obtain ⟨⟨again, s1⟩, hs⟩ := Option.ne_none_iff_exists'.mp (step_ne_none hdef hL h hok (a := a))
    rw [Lemon.parse]
    cases again with
    | false => simp [hs]
    | true =>
      obtain ⟨r, hc, hstart, hroom, hr, -⟩ := step_again hs
      have hlt := stackWeight_reduce hL h hc hstart hr
      have h1 := h.reduce hV hc hroom hr
      have hle := neg_le_stackWeight hL h1
      simpa [hs] using ih _ (by omega) h1 rfl

end Returns

theorem feed_cons {t : τ} {ts : List τ} (h : P.feed s (t :: ts) = some s') :
    ∃ s1, P.parse (some t) s = some s1 ∧ P.feed s1 ts = some s' := by
  rwa [feed, List.foldlM_cons, bind_eq_some] at h

end Keeps

end Lemon

end Dawn
