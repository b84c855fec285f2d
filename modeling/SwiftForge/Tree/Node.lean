import SwiftForge.Decimal.Double
import SwiftForge.Tree.Head

/-!
The syntax tree: one family of types for declarations, expressions, statements and patterns. A tree
is plain data; which child may stand in which place is stated apart, as the rules that builders and
loading enforce.
-/

namespace SwiftForge

mutual

structure Param where
  head : ParamHead
  default : Option Node := none

/-- A key and a value of a dictionary literal. -/
structure Entry where
  key : Node
  value : Node

/-- A literal. A reference is a bare name or dotted path. -/
inductive Literal where
  | string (value : String)
  | integer (value : Int64)
  | float (value : Double)
  | boolean (value : Bool)
  | nil
  | reference (name : String)
  | tuple (elements : List Node)
  | array (elements : List Node)
  | dictionary (entries : List Entry)

structure Argument where
  label : Option String := none
  value : Node

structure Closure where
  head : ClosureHead := {}
  body : List Node := []

inductive Expr where
  | literal (value : Literal)
  /-- A call, with an optional closure after its parentheses. -/
  | call (callee : Node) (args : List Argument) (trailing : Option Closure) (effects : CallEffects)
  /-- A member of a base, or an implicit member without one. -/
  | member (base : Option Node) (name : String)
  /-- Two operands and the operator between them. -/
  | binary (lhs : Node) (op : String) (rhs : Node) (isParenthesized : Bool)
  /-- An operator in front of its operand. -/
  | unary (op : String) (operand : Node)
  /-- A mark after its operand. -/
  | postfixed (operand : Node) (mark : PostfixMark)
  | closure (closure : Closure)

/-- One clause of a condition list. -/
inductive Condition where
  /-- A boolean expression. -/
  | expr (value : Node)
  /-- An optional binding; without a value it unwraps the name itself. -/
  | binding (binding : Binding) (name : String) (value : Option Node)
  /-- A pattern match. -/
  | caseMatch (pattern value : Node)

/-- A body that runs under conditions. -/
structure Branch where
  conditions : List Condition
  body : List Node := []

/-- One `case` clause of a `switch`. -/
structure SwitchCase where
  patterns : List Node
  guard : Option Node := none
  body : List Node := []

/-- A `catch` clause; without a pattern it catches everything. -/
structure Catch where
  pattern : Option Node := none
  body : List Node := []

inductive Pattern where
  /-- Binds one name. -/
  | identifier (name : String)
  /-- Matches an enum case and binds its payload. -/
  | enumCase (name : String) (bindings : List String)
  | wildcard
  | tuple (elements : List Pattern)
  /-- Matches the value of an expression. -/
  | expression (value : Node)

/-- One declaration, expression, statement or pattern. -/
inductive Node where
  | typeDecl (head : TypeHead) (members : List Node)
  | enumCase (head : CaseHead) (rawValue : Option Literal)
  | protocolDecl (head : ProtocolHead) (members : List Node)
  | associatedType (decl : AssociatedType)
  | extensionDecl (head : ExtensionHead) (members : List Node)
  | function (head : FunctionHead) (params : List Param) (body : List Node)
  | initializer (head : InitHead) (params : List Param) (body : List Node)
  /-- A property, also a local `let` or `var`; with a getter it is computed. -/
  | property (head : PropertyHead) (value : Option Node) (getter : Option (List Node))
  | typeAlias (decl : TypeAlias)
  | importDecl (decl : ImportDecl)
  | expression (expr : Expr)
  | assignment (target : Node) (op : String) (value : Node)
  /-- A binding of several names at once. -/
  | tupleAssignment (names : List String) (value : Node) (mode : AssignmentMode)
  /-- An `if` with its `else if` branches in order and the body of its `else`. -/
  | ifStmt (first : Branch) (elseIfs : List Branch) (otherwise : Option (List Node))
  | guardStmt (conditions : List Condition) (otherwise : List Node)
  | loop (style : LoopStyle) (condition : Node) (body : List Node)
  | forIn (pattern sequence : Node) (filter : Option Node) (body : List Node)
  | switchStmt (subject : Node) (cases : List SwitchCase) (default : Option (List Node))
  | doCatch (body : List Node) (catches : List Catch)
  | returnStmt (value : Option Node)
  | throwStmt (error : Node)
  | jump (kind : Jump) (label : Option String)
  | deferStmt (body : List Node)
  | pattern (pattern : Pattern)
  | comment (text : String)
  | blank
  /-- Swift code taken as it is. -/
  | raw (code : String)
  /-- A placeholder: it takes a place and renders nothing. -/
  | empty

end

instance : Inhabited Node := ⟨.empty⟩

end SwiftForge
