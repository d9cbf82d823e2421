import Mathlib.Computability.ContextFreeGrammar
import Mathlib.Tactic

/-!
# Items of a shift-reduce parser

The states of the parsers that Lemon generates, computed from the rules of the grammar: a state is the
list of its basis items, that is, of the rules that may be under way and how far they are. `closure` adds
the rules that may begin, `goto` is the state after a symbol, and a stack of states is `Linked` if each
is what `goto` gives for the one below.

Of an item in the state on top, the symbols before its dot are on top of the stack, and the rule may begin
below them (`Linked.item`). So a rule that is complete can be reduced.
-/

namespace Dawn

/-- A grammar as Lemon reads it. All precedences are declared with `%left`. -/
structure LemonGrammar (T N : Type) where
  start : N
  rules : List (ContextFreeRule T N)
  /-- The precedence of a terminal. -/
  prec : T → Option ℕ

/-- A rule, and how many symbols of its right-hand side have been seen. -/
structure Item (T N : Type) where
  rule : ContextFreeRule T N
  dot : ℕ
  deriving DecidableEq

namespace Item

variable {T N : Type}

/-- The symbol after the dot. -/
def next (it : Item T N) : Option (Symbol T N) := it.rule.output[it.dot]?

/-- The nonterminal after the dot. -/
def nextNonterminal (it : Item T N) : Option N :=
  match it.next with
  | some (.nonterminal A) => some A
  | _ => none

/-- The dot moves over a symbol. -/
def advance (it : Item T N) : Item T N := { it with dot := it.dot + 1 }

theorem nextNonterminal_eq_some {it : Item T N} {A : N} :
    it.nextNonterminal = some A ↔ it.next = some (.nonterminal A) := by
  unfold nextNonterminal
  split <;> simp_all

end Item

namespace LemonGrammar

variable {T N : Type} [DecidableEq N] (G : LemonGrammar T N)

/-- The nonterminals, not among `ns`, with which a rule for one of `ns` starts. -/
def heads (ns : List N) : List N :=
  (G.rules.filterMap fun r =>
    if r.input ∈ ns then (Item.mk r 0).nextNonterminal.filter (· ∉ ns) else none).dedup

/-- Those and the nonterminals with which they start, and so on. -/
def reach : ℕ → List N → List N
  | 0, ns => ns
  | fuel + 1, ns => if G.heads ns = [] then ns else reach fuel (ns ++ G.heads ns)

/-- `Configlist_closure`: the basis, and the rules that may begin. -/
def closure (basis : List (Item T N)) : List (Item T N) :=
  basis ++ (G.rules.filter fun r =>
    r.input ∈ G.reach G.rules.length (basis.filterMap Item.nextNonterminal)).map (Item.mk · 0)

/-! ## The nonterminals that may begin -/

variable {G} {ns : List N} {A : N}

theorem mem_heads (h : A ∈ G.heads ns) :
    ∃ r ∈ G.rules, r.input ∈ ns ∧ (Item.mk r 0).next = some (.nonterminal A) := by
  rw [heads, List.mem_dedup, List.mem_filterMap] at h
  obtain ⟨r, hr, hA⟩ := h
  split_ifs at hA with hin
  rw [Option.filter_eq_some_iff] at hA
  exact ⟨r, hr, hin, Item.nextNonterminal_eq_some.mp hA.1⟩

theorem subset_reach (fuel : ℕ) (h : A ∈ ns) : A ∈ G.reach fuel ns := by
  induction fuel generalizing ns with
  | zero => exact h
  | succ fuel ih =>
    rw [reach]
    split_ifs
    · exact h
    · exact ih (List.mem_append_left _ h)

/-- A nonterminal that may begin is one of those at the start, or a rule that may begin starts with it. -/
theorem mem_reach {fuel : ℕ} (h : A ∈ G.reach fuel ns) :
    A ∈ ns ∨ ∃ r ∈ G.rules, r.input ∈ G.reach fuel ns ∧ (Item.mk r 0).next = some (.nonterminal A) := by
  induction fuel generalizing ns with
  | zero => exact Or.inl h
  | succ fuel ih =>
    rw [reach] at h ⊢
    split_ifs at h ⊢
    · exact Or.inl h
    · rcases ih h with hA | hA
      · rcases List.mem_append.mp hA with hA | hA
        · exact Or.inl hA
        · obtain ⟨r, hr, hin, hnext⟩ := mem_heads hA
          exact Or.inr ⟨r, hr, subset_reach fuel (List.mem_append_left _ hin), hnext⟩
      · exact Or.inr hA

/-! ## Closures -/

variable {basis : List (Item T N)} {it : Item T N} {X : Symbol T N}

theorem mem_closure : it ∈ G.closure basis ↔ it ∈ basis ∨ it.dot = 0 ∧ it.rule ∈ G.rules ∧
      it.rule.input ∈ G.reach G.rules.length (basis.filterMap Item.nextNonterminal) := by
  rw [closure, List.mem_append]
  refine or_congr_right ⟨fun h => ?_, fun ⟨h0, hr, hin⟩ => ?_⟩
  · obtain ⟨r, hr, rfl⟩ := List.mem_map.mp h
    obtain ⟨hr, hin⟩ := List.mem_filter.mp hr
    exact ⟨rfl, hr, by simpa using hin⟩
  · exact List.mem_map.mpr ⟨it.rule, List.mem_filter.mpr ⟨hr, by simpa using hin⟩, by rw [← h0]⟩

theorem exists_next_of_mem_reach (h : A ∈ G.reach G.rules.length (basis.filterMap Item.nextNonterminal)) :
    ∃ it ∈ G.closure basis, it.next = some (.nonterminal A) := by
  rcases mem_reach h with hA | ⟨r, hr, hin, hnext⟩
  · obtain ⟨it, hit, hn⟩ := List.mem_filterMap.mp hA
    exact ⟨it, mem_closure.mpr (Or.inl hit), Item.nextNonterminal_eq_some.mp hn⟩
  · exact ⟨⟨r, 0⟩, mem_closure.mpr (Or.inr ⟨rfl, hr, hin⟩), hnext⟩

section Goto

variable [DecidableEq T] (G)

/-- The grammar, without its precedences. -/
abbrev toCFG : ContextFreeGrammar T where
  NT := N
  initial := G.start
  rules := G.rules.toFinset

/-- The basis of the state after `X`, empty if there is none. -/
def goto (basis : List (Item T N)) (X : Symbol T N) : List (Item T N) :=
  ((G.closure basis).filter fun it => it.next = some X).map Item.advance

/-- The basis of the first state. -/
def startBasis : List (Item T N) := (G.rules.filter fun r => r.input = G.start).map (Item.mk · 0)

variable {G}

theorem mem_goto : it ∈ G.goto basis X ↔ ∃ it' ∈ G.closure basis, it'.next = some X ∧ it = it'.advance := by
  simp only [goto, List.mem_map, List.mem_filter, decide_eq_true_eq]
  exact ⟨fun ⟨a, ⟨ha, hn⟩, he⟩ => ⟨a, ha, hn, he.symm⟩, fun ⟨a, ha, hn, he⟩ => ⟨a, ⟨ha, hn⟩, he.symm⟩⟩

/-! ## Actions -/

variable (G)

/-- The precedence of a rule is that of its first terminal that has one. -/
def rulePrec (r : ContextFreeRule T N) : Option ℕ :=
  r.output.findSome? fun
    | .terminal a => G.prec a
    | .nonterminal _ => none

/-- `resolve_conflict`, between a shift of `a` and a rule: all operators associate to the left. -/
def reducesFirst (r : ContextFreeRule T N) (a : T) : Bool :=
  match G.rulePrec r, G.prec a with
  | some p, some q => q ≤ p
  | _, _ => false

/-- The rule that is complete in a state. -/
def complete (basis : List (Item T N)) : Option (ContextFreeRule T N) :=
  ((G.closure basis).find? fun it => it.next = none).map Item.rule

/-- Whether a state shifts a terminal. -/
def shifts (basis : List (Item T N)) (a : T) : Bool :=
  G.goto basis (.terminal a) ≠ [] ∧ ((G.complete basis).all fun r => !G.reducesFirst r a)

/-- Whether a symbol may be pushed on a state. -/
def pushes (basis : List (Item T N)) : Symbol T N → Bool
  | .terminal a => G.shifts basis a
  | .nonterminal A => G.goto basis (.nonterminal A) ≠ []

variable {G}

theorem goto_ne_nil_of_pushes (h : G.pushes basis X = true) : G.goto basis X ≠ [] := by
  cases X with
  | terminal a =>
    simp only [pushes, shifts, decide_eq_true_eq] at h
    exact h.1
  | nonterminal A => simpa [pushes] using h

end Goto

/-! ## Stacks -/

variable [DecidableEq T] {S : Type}

/-- An entry of the stack: a state, the symbol with which it was entered, and the symbol's value. -/
structure Entry (T N S : Type) where
  /-- `stateno`. -/
  basis : List (Item T N)
  /-- `major`. -/
  major : Symbol T N
  /-- `minor`. -/
  minor : S

/-- The state on top of a stack. The first state is below all entries. -/
def top (G : LemonGrammar T N) (stack : List (Entry T N S)) : List (Item T N) :=
  match stack with
  | [] => G.startBasis
  | e :: _ => e.basis

/-- Every state is what `goto` gives for the one below, on which its symbol may be pushed. -/
def Linked (G : LemonGrammar T N) : List (Entry T N S) → Prop
  | [] => True
  | e :: stack => e.basis = G.goto (G.top stack) e.major ∧ G.pushes (G.top stack) e.major = true ∧ Linked G stack

section Linked

variable {stack : List (Entry T N S)} (h : G.Linked stack)
include h

theorem Linked.drop (k : ℕ) : G.Linked (stack.drop k) := by
  induction k generalizing stack with
  | zero => exact h
  | succ k ih =>
    cases stack with
    | nil => exact h
    | cons e stack => exact ih h.2.2

theorem Linked.basis_cases (hit : it ∈ G.top stack) :
    (stack = [] ∧ it.dot = 0 ∧ it.rule ∈ G.rules ∧ it.rule.input = G.start) ∨
    ∃ e rest it', stack = e :: rest ∧ it' ∈ G.closure (G.top rest) ∧ it'.next = some e.major ∧ it = it'.advance := by
  cases stack with
  | nil =>
    obtain ⟨r, hr, rfl⟩ := List.mem_map.mp hit
    obtain ⟨hr, hin⟩ := List.mem_filter.mp hr
    exact Or.inl ⟨rfl, rfl, hr, by simpa using hin⟩
  | cons e rest =>
    have hb : it ∈ G.goto (G.top rest) e.major := h.1 ▸ hit
    obtain ⟨it', hit', hn, rfl⟩ := mem_goto.mp hb
    exact Or.inr ⟨e, rest, it', rfl, hit', hn, rfl⟩

theorem Linked.item (hit : it ∈ G.closure (G.top stack)) :
    it.rule ∈ G.rules ∧ it.dot ≤ it.rule.output.length ∧ it.dot ≤ stack.length ∧
    (stack.take it.dot).reverse.map Entry.major = it.rule.output.take it.dot ∧
    ⟨it.rule, 0⟩ ∈ G.closure (G.top (stack.drop it.dot)) := by
  -- The induction is on the dot: an item with a symbol before it is in the basis.
  obtain ⟨r, d⟩ := it
  induction d generalizing stack with
  | zero =>
    rcases mem_closure.mp hit with hb | ⟨-, hr, -⟩
    · rcases h.basis_cases hb with ⟨-, -, hr, -⟩ | ⟨_, _, it', -, hit', -, he⟩
      · exact ⟨hr, by simp, by simp, by simp, hit⟩
      · exact absurd (congrArg Item.dot he) (by simp [Item.advance])
    · exact ⟨hr, by simp, by simp, by simp, hit⟩
  | succ d ih =>
    rcases mem_closure.mp hit with hb | ⟨h0, -⟩
    · rcases h.basis_cases hb with ⟨-, h0, -⟩ | ⟨e, rest, ⟨r', d'⟩, rfl, hit', hn, he⟩
      · exact absurd h0 (by simp)
      · obtain ⟨rfl, rfl⟩ : r = r' ∧ d = d' := by
          simpa [Item.advance] using he
        obtain ⟨hr, hle, hlen, hsyms, hbegin⟩ := ih h.2.2 hit'
        obtain ⟨hlt, hsym⟩ := List.getElem?_eq_some_iff.mp hn
        refine ⟨hr, hlt, by simpa using hlen, ?_, hbegin⟩
        rw [List.take_succ_cons, List.reverse_cons, List.map_append, hsyms, List.take_succ_eq_append_getElem hlt]
        simp only [List.map_cons, List.map_nil, List.append_cancel_left_eq, List.cons.injEq, and_true]
        exact hsym.symm
    · exact absurd h0 (by simp)

/-- The symbol of a rule that may begin has a `goto`, if it is not the start symbol. -/
theorem Linked.goto_ne_nil {r : ContextFreeRule T N} (hr : ⟨r, 0⟩ ∈ G.closure (G.top stack)) (hs : r.input ≠ G.start) :
    G.goto (G.top stack) (.nonterminal r.input) ≠ [] := by
  have hex : ∃ it ∈ G.closure (G.top stack), it.next = some (.nonterminal r.input) := by
    rcases mem_closure.mp hr with hb | ⟨-, -, hin⟩
    · rcases h.basis_cases hb with ⟨-, -, -, hin⟩ | ⟨_, _, _, -, -, -, he⟩
      · exact absurd hin hs
      · exact absurd (congrArg Item.dot he) (by simp [Item.advance])
    · exact exists_next_of_mem_reach hin
  obtain ⟨it, hit, hn⟩ := hex
  exact List.ne_nil_of_mem (mem_goto.mpr ⟨it, hit, hn, rfl⟩)

/-- A rule for the start symbol begins at the bottom, if no rule has the start symbol on its right. -/
theorem Linked.eq_nil_of_start {r : ContextFreeRule T N} (hr : ⟨r, 0⟩ ∈ G.closure (G.top stack))
    (hs : r.input = G.start) (hfresh : ∀ r ∈ G.rules, .nonterminal G.start ∉ r.output) : stack = [] := by
  rcases mem_closure.mp hr with hb | ⟨-, -, hin⟩
  · rcases h.basis_cases hb with ⟨rfl, -⟩ | ⟨_, _, _, -, -, -, he⟩
    · rfl
    · exact absurd (congrArg Item.dot he) (by simp [Item.advance])
  · obtain ⟨it, hit, hn⟩ := exists_next_of_mem_reach hin
    obtain ⟨hrule, -⟩ := h.item hit
    exact absurd (List.mem_of_getElem? (hs ▸ hn)) (hfresh _ hrule)

/-- A complete rule is on top of the stack, and may begin below. -/
theorem Linked.complete {r : ContextFreeRule T N} (hc : G.complete (G.top stack) = some r) :
    r ∈ G.rules ∧ r.output.length ≤ stack.length ∧
    (stack.take r.output.length).reverse.map Entry.major = r.output ∧
    ⟨r, 0⟩ ∈ G.closure (G.top (stack.drop r.output.length)) := by
  rw [LemonGrammar.complete, Option.map_eq_some_iff] at hc
  obtain ⟨it, hfind, rfl⟩ := hc
  have hn : it.next = none := by simpa using List.find?_some hfind
  obtain ⟨hr, hle, hlen, hsyms, hbegin⟩ := h.item (List.mem_of_find?_eq_some hfind)
  have hdot : it.dot = it.rule.output.length := le_antisymm hle (List.getElem?_eq_none_iff.mp hn)
  rw [hdot, List.take_length] at hsyms
  exact ⟨hr, hdot ▸ hlen, hsyms, hdot ▸ hbegin⟩

end Linked

end LemonGrammar

end Dawn
