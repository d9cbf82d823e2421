import Dawn.Data.Value
import Dawn.Sql.Lex

/-!
# The syntax tree

The nodes that the code of the grammar builds (`node.h`, `ddl.h`, `dml.h`): a node has the data of its class,
and children. The accessors of the classes are in the modules that use them.
-/

namespace Dawn

/-- `CreateDefNodeType`. -/
inductive CreateDefNodeType
  | kColumn
  | kPrimaryKey
  deriving DecidableEq, Repr

/-- The data of a `LiteralNode`. -/
inductive Literal
  | integer (n : ℤ)
  | decimal (text : List UInt8)
  | str (text : List UInt8)
  | boolean (b : Bool)
  deriving DecidableEq, Repr

/-- `SelectExprType`. -/
inductive SelectExprType
  | kColName
  | kStar
  deriving DecidableEq, Repr

/-- `SimpleExprType`. -/
inductive SimpleExprType
  | kLiteral
  | kIdentifier
  deriving DecidableEq, Repr

/-- `BitExprType`. -/
inductive BitExprType
  | kPlus
  | kMinus
  | kMultiply
  | kDivide
  | kSimpleExpr
  deriving DecidableEq, Repr

/-- `ComparisonOprType`. -/
inductive ComparisonOprType
  | kEqual
  | kGreater
  | kLess
  | kGreaterEq
  | kLessEq
  | kNotEqual
  deriving DecidableEq, Repr

/-- `ExprNode::ExprType`. -/
inductive ExprType
  | kOR
  | kAND
  | kNOT
  | kBooleanPrimary
  deriving DecidableEq, Repr

/-- The classes of nodes, with their data. -/
inductive NodeClass
  | identifier (id : List UInt8)
  | dataType (type : TypeId) (charLen : ℤ)
  | stmtList (err : Bool)
  | emptyStmt
  -- The classes derived from `DDLNode`.
  | create
  | drop
  | createDefList
  | createDef (type : CreateDefNodeType)
  | columnDef
  -- The classes derived from `DMLNode`.
  | select
  | insert
  | delete
  | valueList
  | value
  | literal (data : Literal)
  | selectExprList (isStar : Bool)
  | selectExpr (type : SelectExprType)
  | tableRefs
  | tableRef
  | tableFactor
  | expr (type : ExprType)
  | simpleExpr (type : SimpleExprType)
  | bitExpr (type : BitExprType)
  | predicate
  | comparisonOpr (type : ComparisonOprType)
  /-- A member that was not set is `none`. -/
  | booleanPrimary (recursive : Bool) (comparison : Option Bool)
  /-- Where a pointer that was never set points to. -/
  | indeterminate
  deriving DecidableEq, Repr

/-- A node of the tree. The three parts of a `SelectNode`, which it holds beside its children, are its children
here. -/
inductive Node
  | mk (cls : NodeClass) (children : List Node)
  deriving Repr

namespace Node

def cls : Node → NodeClass
  | mk cls _ => cls

/-- `get_children`. -/
def children : Node → List Node
  | mk _ children => children

def addChild (node child : Node) : Node := mk node.cls (node.children ++ [child])

end Node

/-- The list of statements that a parser is given to fill, with its flag `err_`. -/
structure StmtListNode where
  err : Bool := false
  stmtNodes : List Node := []

end Dawn
