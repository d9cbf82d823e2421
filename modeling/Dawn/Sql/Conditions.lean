import Dawn.Sql.Grammar

/-!
# The accessors of conditions

The trees that the code of the rules for `expr` builds, and the accessors of `ExprNode`, `BooleanPrimaryNode` and
`PredicateNode` in `dml.h` that read them. `children_[idx]` outside the children, and an `assert` that fails, are `none`
here, and so is reading a member that was not set.

The two disagree twice (`traverse_built_iff`). A `NOT` has one child, and `get_exprs` takes the one at index 1. And a
`boolean_primary` that is a predicate does not set `comparison_`, which `get_comparison_opr` reads: it depends on the
memory that the node was given whether it is found to have an operator.
-/

namespace Dawn

/-! ## The accessors -/

namespace Node

/-- `dynamic_cast` of the child at an index, with the `assert`. -/
def castAt (node : Node) (idx : ℕ) (isClass : NodeClass → Bool) : Option Node := do
  let child ← node.children[idx]?
  if isClass child.cls then some child else none

@[simp] theorem cls_mk (cls : NodeClass) (children : List Node) : (mk cls children).cls = cls := rfl

@[simp] theorem castAt_mk (cls : NodeClass) (children : List Node) (idx : ℕ) (isClass : NodeClass → Bool) :
    (mk cls children).castAt idx isClass =
      children[idx]?.bind fun child => if isClass child.cls then some child else none := rfl

end Node

def NodeClass.isExpr : NodeClass → Bool
  | expr _ => true
  | _ => false

def NodeClass.isBooleanPrimary : NodeClass → Bool
  | booleanPrimary _ _ => true
  | _ => false

def NodeClass.isComparisonOpr : NodeClass → Bool
  | comparisonOpr _ => true
  | _ => false

def NodeClass.isPredicate : NodeClass → Bool
  | predicate => true
  | _ => false

def NodeClass.isBitExpr : NodeClass → Bool
  | bitExpr _ => true
  | _ => false

namespace ExprNode

/-- `get_expr`. -/
def getExpr (node : Node) (idx : ℕ) : Option Node := node.castAt idx NodeClass.isExpr

/-- `get_exprs`. -/
def getExprs (node : Node) (type : ExprType) : Option (List Node) :=
  match type with
  | .kBooleanPrimary => some []
  | .kNOT => do some [← getExpr node 1]
  | .kOR | .kAND => do some [← getExpr node 0, ← getExpr node 1]

/-- `get_boolean_primary`, with `nullptr` as the inner `none`. -/
def getBooleanPrimary (node : Node) (type : ExprType) : Option (Option Node) :=
  if type ≠ .kBooleanPrimary then some none
  else (node.castAt 0 NodeClass.isBooleanPrimary).map some

end ExprNode

namespace BooleanPrimaryNode

/-- `get_predicate`. -/
def getPredicate (node : Node) (recursive : Bool) : Option Node :=
  node.castAt (if recursive then 2 else 0) NodeClass.isPredicate

/-- `get_boolean_primary`. -/
def getBooleanPrimary (node : Node) (recursive : Bool) : Option (Option Node) :=
  if recursive then (node.castAt 0 NodeClass.isBooleanPrimary).map some else some none

/-- `get_comparison_opr`. -/
def getComparisonOpr (node : Node) (comparison : Option Bool) : Option (Option Node) := do
  if ← comparison then (node.castAt 1 NodeClass.isComparisonOpr).map some else some none

end BooleanPrimaryNode

/-- `PredicateNode::get_the_first_bit`. -/
def PredicateNode.getTheFirstBit (node : Node) : Option Node := node.castAt 0 NodeClass.isBitExpr

/-! ## Conditions -/

/-- The tree of a `bit_expr`. -/
abbrev BitExprNode := { node : Node // node.cls.isBitExpr }

/-- A `boolean_primary`, with something for the member that the rule for a predicate does not set. -/
inductive BooleanPrimary (γ : Type)
  | predicate (unset : γ) (bit : BitExprNode)
  | comparison (left : BooleanPrimary γ) (opr : ComparisonOprType) (bit : BitExprNode)

/-- A condition as it is written. -/
inductive Condition (γ : Type)
  | and (left right : Condition γ)
  | or (left right : Condition γ)
  | not (cond : Condition γ)
  | primary (primary : BooleanPrimary γ)

section Trees

variable {γ : Type}

/-- The tree of a `boolean_primary`, with the member as given. -/
def BooleanPrimary.node (flag : γ → Option Bool) : BooleanPrimary γ → Node
  | predicate unset bit => .mk (.booleanPrimary false (flag unset)) [.mk .predicate [bit]]
  | comparison left opr bit =>
    .mk (.booleanPrimary true (some true)) [left.node flag, .mk (.comparisonOpr opr) [], .mk .predicate [bit]]

/-- The tree of a condition. -/
def Condition.node (flag : γ → Option Bool) : Condition γ → Node
  | and left right => .mk (.expr .kAND) [left.node flag, right.node flag]
  | or left right => .mk (.expr .kOR) [left.node flag, right.node flag]
  | not cond => .mk (.expr .kNOT) [cond.node flag]
  | primary b => .mk (.expr .kBooleanPrimary) [b.node flag]

def BooleanPrimary.erase : BooleanPrimary γ → BooleanPrimary Unit
  | predicate _ bit => predicate () bit
  | comparison left opr bit => comparison left.erase opr bit

/-- The condition alone. -/
def Condition.erase : Condition γ → Condition Unit
  | and left right => and left.erase right.erase
  | or left right => or left.erase right.erase
  | not cond => not cond.erase
  | primary b => primary b.erase

end Trees

/-- The member is false in the memory. -/
def BooleanPrimary.clear : BooleanPrimary Bool → Bool
  | predicate unset _ => !unset
  | comparison left _ _ => left.clear

/-- The condition has no `NOT`, and the members that were not set are all false in the memory. -/
def Condition.clear : Condition Bool → Bool
  | and left right => left.clear && right.clear
  | or left right => left.clear && right.clear
  | not _ => false
  | primary b => b.clear

/-- What the accessors find in a `BooleanPrimaryNode`: an operator exactly where there is a left operand. -/
def traversePrimary (node : Node) : Option (BooleanPrimary Unit) :=
  match node.cls with
  | .booleanPrimary recursive comparison => do
    let left ← BooleanPrimaryNode.getBooleanPrimary node recursive
    let opr ← BooleanPrimaryNode.getComparisonOpr node comparison
    let bit ← PredicateNode.getTheFirstBit (← BooleanPrimaryNode.getPredicate node recursive)
    if hbit : bit.cls.isBitExpr then
      match left, opr.map Node.cls with
      | none, none => some (.predicate () ⟨bit, hbit⟩)
      | some left, some (.comparisonOpr type) => do
        let left ← (by apply traversePrimary : Node → Option (BooleanPrimary Unit)) left
        some (.comparison left type ⟨bit, hbit⟩)
      | _, _ => none
    else none
  | _ => none
partial_fixpoint

/-- What the accessors find in an `ExprNode`. -/
def traverse (node : Node) : Option (Condition Unit) :=
  match node.cls with
  | .expr type => do
    let exprs ← ExprNode.getExprs node type
    let primary ← ExprNode.getBooleanPrimary node type
    match type, exprs, primary with
    | .kAND, [left, right], none => do
      some (.and (← (by apply traverse : Node → Option (Condition Unit)) left)
        (← (by apply traverse : Node → Option (Condition Unit)) right))
    | .kOR, [left, right], none => do
      some (.or (← (by apply traverse : Node → Option (Condition Unit)) left)
        (← (by apply traverse : Node → Option (Condition Unit)) right))
    | .kNOT, [cond], none => do
      some (.not (← (by apply traverse : Node → Option (Condition Unit)) cond))
    | .kBooleanPrimary, [], some b => do some (.primary (← traversePrimary b))
    | _, _, _ => none
  | _ => none
partial_fixpoint

theorem BooleanPrimary.isBooleanPrimary_node {γ : Type} (flag : γ → Option Bool) (b : BooleanPrimary γ) :
    (b.node flag).cls.isBooleanPrimary := by
  cases b <;> rfl

theorem Condition.isExpr_node {γ : Type} (flag : γ → Option Bool) (c : Condition γ) : (c.node flag).cls.isExpr := by
  cases c <;> rfl

theorem traversePrimary_node (b : BooleanPrimary Bool) :
    traversePrimary (b.node some) = if b.clear then some b.erase else none := by
  induction b with
  | predicate unset bit =>
    rw [traversePrimary]
    cases unset <;>
      simp [BooleanPrimary.node, BooleanPrimaryNode.getBooleanPrimary, BooleanPrimaryNode.getComparisonOpr,
        BooleanPrimaryNode.getPredicate, PredicateNode.getTheFirstBit, NodeClass.isPredicate, bit.2,
        BooleanPrimary.clear, BooleanPrimary.erase]
  | comparison left opr bit ih =>
    have hleft := left.isBooleanPrimary_node some
    rw [traversePrimary]
    simp only [BooleanPrimary.node, BooleanPrimaryNode.getBooleanPrimary, BooleanPrimaryNode.getComparisonOpr,
      BooleanPrimaryNode.getPredicate, PredicateNode.getTheFirstBit, BooleanPrimary.clear, BooleanPrimary.erase]
    simp [NodeClass.isPredicate, bit.2, hleft, ih, NodeClass.isComparisonOpr]
    by_cases hclear : left.clear <;> simp [hclear]

theorem traverse_node (c : Condition Bool) : traverse (c.node some) = if c.clear then some c.erase else none := by
  induction c with
  | and left right ihl ihr =>
    rw [traverse]
    simp [Condition.node, ExprNode.getExprs, ExprNode.getExpr, ExprNode.getBooleanPrimary, left.isExpr_node some,
      right.isExpr_node some, ihl, ihr, Condition.clear, Condition.erase]
    cases left.clear <;> cases right.clear <;> rfl
  | or left right ihl ihr =>
    rw [traverse]
    simp [Condition.node, ExprNode.getExprs, ExprNode.getExpr, ExprNode.getBooleanPrimary, left.isExpr_node some,
      right.isExpr_node some, ihl, ihr, Condition.clear, Condition.erase]
    cases left.clear <;> cases right.clear <;> rfl
  | not cond ih =>
    rw [traverse]
    rfl
  | primary b =>
    rw [traverse]
    simp [Condition.node, ExprNode.getExprs, ExprNode.getBooleanPrimary, b.isBooleanPrimary_node some,
      traversePrimary_node, Condition.clear, Condition.erase]
    by_cases hclear : b.clear <;> simp [hclear]

/-! ## The trees that are built -/

namespace Grammar

/-- The values that the code of the rules can build for a symbol. -/
inductive Built : Symbol TokenType NonTerminal → Minor → Prop
  | token (tk : Token) : Built (t tk.type) (.token tk)
  | rule {p : Production} (hp : p ∈ productions) (vals : ℕ → Minor)
      (hvals : ∀ i s, p.rule.output[i]? = some s → Built s (vals i)) {v : Minor}
      (hrun : p.action.run ((List.range p.rule.output.length).map vals) = some v) : Built (n p.rule.input) v

/-- What is built for the symbols of a condition. -/
def IsPart : Symbol TokenType NonTerminal → Minor → Prop
  | .nonterminal .expr, v => ∃ c : Condition Unit, v = .node (c.node fun _ => none)
  | .nonterminal .booleanPrimary, v => ∃ b : BooleanPrimary Unit, v = .node (b.node fun _ => none)
  | .nonterminal .comparisonOperator, v => ∃ opr, v = .node (.mk (.comparisonOpr opr) [])
  | .nonterminal .predicate, v => ∃ bit : BitExprNode, v = .node (.mk .predicate [bit])
  | .nonterminal .bitExpr, v => ∃ bit : BitExprNode, v = .node bit
  | _, _ => True

theorem input_expr : ∀ p ∈ productions, p.rule.input = .expr →
    p = ⟨⟨.expr, [n .expr, t .AND, n .expr]⟩, .build (.expr .kAND) [0, 2]⟩ ∨
    p = ⟨⟨.expr, [n .expr, t .OR, n .expr]⟩, .build (.expr .kOR) [0, 2]⟩ ∨
    p = ⟨⟨.expr, [t .NOT, n .expr]⟩, .build (.expr .kNOT) [1]⟩ ∨
    p = ⟨⟨.expr, [n .booleanPrimary]⟩, .build (.expr .kBooleanPrimary) [0]⟩ := by
  simp [productions]

theorem input_booleanPrimary : ∀ p ∈ productions, p.rule.input = .booleanPrimary →
    p = ⟨⟨.booleanPrimary, [n .booleanPrimary, n .comparisonOperator, n .predicate]⟩,
      .build (.booleanPrimary true (some true)) [0, 1, 2]⟩ ∨
    p = ⟨⟨.booleanPrimary, [n .predicate]⟩, .build (.booleanPrimary false none) [0]⟩ := by
  simp [productions]

theorem input_comparisonOperator : ∀ p ∈ productions, p.rule.input = .comparisonOperator →
    ∃ opr, p.action = .build (.comparisonOpr opr) [] := by
  simp [productions]

theorem input_predicate : ∀ p ∈ productions, p.rule.input = .predicate →
    p = ⟨⟨.predicate, [n .bitExpr]⟩, .build .predicate [0]⟩ := by
  simp [productions]

theorem input_bitExpr : ∀ p ∈ productions, p.rule.input = .bitExpr →
    ∃ type children, p.action = .build (.bitExpr type) children := by
  simp [productions]

theorem Built.isPart {s : Symbol TokenType NonTerminal} {v : Minor} (h : Built s v) : IsPart s v := by
  induction h with
  | token tk => trivial
  | @rule p hp vals _ v hrun ih =>
    cases hin : p.rule.input with
    | expr =>
      rcases input_expr p hp hin with rfl | rfl | rfl | rfl
      · obtain ⟨l, hl⟩ := ih 0 _ rfl
        obtain ⟨r, hr⟩ := ih 2 _ rfl
        simp [Action.run, nodeAt, List.range_succ, hl, hr] at hrun
        exact ⟨.and l r, hrun.symm⟩
      · obtain ⟨l, hl⟩ := ih 0 _ rfl
        obtain ⟨r, hr⟩ := ih 2 _ rfl
        simp [Action.run, nodeAt, List.range_succ, hl, hr] at hrun
        exact ⟨.or l r, hrun.symm⟩
      · obtain ⟨c, hc⟩ := ih 1 _ rfl
        simp [Action.run, nodeAt, List.range_succ, hc] at hrun
        exact ⟨.not c, hrun.symm⟩
      · obtain ⟨b, hb⟩ := ih 0 _ rfl
        simp [Action.run, nodeAt, List.range_succ, hb] at hrun
        exact ⟨.primary b, hrun.symm⟩
    | booleanPrimary =>
      rcases input_booleanPrimary p hp hin with rfl | rfl
      · obtain ⟨b, hb⟩ := ih 0 _ rfl
        obtain ⟨opr, hopr⟩ := ih 1 _ rfl
        obtain ⟨bit, hbit⟩ := ih 2 _ rfl
        simp [Action.run, nodeAt, List.range_succ, hb, hopr, hbit] at hrun
        exact ⟨.comparison b opr bit, hrun.symm⟩
      · obtain ⟨bit, hbit⟩ := ih 0 _ rfl
        simp [Action.run, nodeAt, List.range_succ, hbit] at hrun
        exact ⟨.predicate () bit, hrun.symm⟩
    | comparisonOperator =>
      obtain ⟨opr, hact⟩ := input_comparisonOperator p hp hin
      rw [hact] at hrun
      exact ⟨opr, (Option.some.inj hrun).symm⟩
    | predicate =>
      obtain rfl := input_predicate p hp hin
      obtain ⟨bit, hbit⟩ := ih 0 _ rfl
      simp [Action.run, nodeAt, List.range_succ, hbit] at hrun
      exact ⟨bit, hrun.symm⟩
    | bitExpr =>
      obtain ⟨type, children, hact⟩ := input_bitExpr p hp hin
      rw [hact, Action.run, Option.map_eq_some_iff] at hrun
      obtain ⟨nodes, -, rfl⟩ := hrun
      exact ⟨⟨.mk (.bitExpr type) nodes, rfl⟩, rfl⟩
    | _ => trivial

/-- What is built for an `expr` is the tree of a condition, and the accessors recover the condition from it exactly if
it has no `NOT`, and the members that were not set happen to be false. -/
theorem traverse_built_iff {node : Node} (h : Built (n .expr) (.node node)) :
    ∃ c : Condition Unit, node = c.node (fun _ => none) ∧
      ∀ memory : Condition Bool, memory.erase = c → (traverse (memory.node some) = some c ↔ memory.clear) := by
  obtain ⟨c, hc⟩ := h.isPart
  refine ⟨c, Minor.node.inj hc, ?_⟩
  rintro memory rfl
  rw [traverse_node]
  split_ifs with hclear <;> simp [hclear]

theorem Built.unit {A B : NonTerminal} {cls : NodeClass} {b : Node}
    (hp : ⟨⟨A, [n B]⟩, .build cls [0]⟩ ∈ productions) (hb : Built (n B) (.node b)) :
    Built (n A) (.node (.mk cls [b])) := by
  refine .rule hp (fun _ => .node b) (fun i s hs => ?_) rfl
  obtain ⟨rfl, rfl⟩ : i = 0 ∧ s = n B := by cases i <;> simp_all
  exact hb

/-- The operand `TRUE`. -/
def trueBit : BitExprNode :=
  ⟨.mk (.bitExpr .kSimpleExpr) [.mk (.simpleExpr .kLiteral) [.mk (.literal (.boolean true)) []]], rfl⟩

/-- The condition `TRUE`. -/
def trueCondition {γ : Type} (unset : γ) : Condition γ := .primary (.predicate unset trueBit)

theorem built_true : Built (n .expr) (.node ((trueCondition ()).node fun _ => none)) := by
  have hliteral : Built (n .literal) (.node (.mk (.literal (.boolean true)) [])) := by
    refine .rule (p := ⟨⟨.literal, [t .TRUE]⟩, .build (.literal (.boolean true)) []⟩) (by simp [productions])
      (fun _ => .token ⟨.TRUE, .integer 0⟩) (fun i s hs => ?_) rfl
    obtain ⟨rfl, rfl⟩ : i = 0 ∧ s = t .TRUE := by cases i <;> simp_all
    exact .token ⟨.TRUE, .integer 0⟩
  have hsimple : Built (n .simpleExpr) _ := .unit (by simp [productions]; rfl) hliteral
  have hbit : Built (n .bitExpr) _ := .unit (by simp [productions]; rfl) hsimple
  have hpredicate : Built (n .predicate) _ := .unit (by simp [productions]; rfl) hbit
  have hprimary : Built (n .booleanPrimary) _ := .unit (by simp [productions]; rfl) hpredicate
  exact .unit (by simp [productions]) hprimary

/-- The condition `TRUE`, which has one member that is not set. -/
theorem traverse_built_iff_true : Built (n .expr) (.node ((trueCondition ()).node fun _ => none)) ∧
    ∃ c : Condition Unit, (trueCondition ()).node (fun _ => none) = c.node (fun _ => none) ∧
      ∀ memory : Condition Bool, memory.erase = c → (traverse (memory.node some) = some c ↔ memory.clear) :=
  ⟨built_true, traverse_built_iff built_true⟩

/-- `NOT TRUE` is built, and its operand is looked for at an index that it does not have. `TRUE` is found to have an
operator if the member was set in the memory. -/
theorem not_true_is_lost : Built (n .expr) (.node ((Condition.not (trueCondition ())).node fun _ => none)) ∧
    (∀ unset, ExprNode.getExprs ((Condition.not (trueCondition unset)).node some) .kNOT = none ∧
      traverse ((Condition.not (trueCondition unset)).node some) = none) ∧
    traverse ((trueCondition true).node some) = none := by
  refine ⟨?_, fun unset => ⟨rfl, ?_⟩, ?_⟩
  · refine .rule (p := ⟨⟨.expr, [t .NOT, n .expr]⟩, .build (.expr .kNOT) [1]⟩) (by simp [productions])
      (fun i => if i = 0 then .token ⟨.NOT, .integer 0⟩ else .node ((trueCondition ()).node fun _ => none))
      (fun i s hs => ?_) rfl
    rcases i with _ | _ | i
    · cases hs
      exact .token ⟨.NOT, .integer 0⟩
    · cases hs
      exact built_true
    · simp at hs
  · exact traverse_node (.not (trueCondition unset))
  · exact traverse_node (trueCondition true)

end Grammar

end Dawn
