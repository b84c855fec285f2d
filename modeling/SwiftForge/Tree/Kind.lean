import SwiftForge.Tree.Node

/-!
Kinds of nodes: the name that diagnostics use, and whether a node can stand where an expression or
a pattern is wanted.
-/

namespace SwiftForge

/-- The name of a kind of nominal type. -/
def Flavor.kindName : Flavor → String
  | .structType => "struct"
  | .classType _ => "class"
  | .enumType _ => "enum"

def LoopStyle.kindName : LoopStyle → String
  | .whileLoop => "while"
  | .repeatWhile => "repeat_while"

def Jump.keyword : Jump → String
  | .breakOut => "break"
  | .continueOn => "continue"

namespace Literal

def kindName : Literal → String
  | .string _ => "string"
  | .integer _ => "integer"
  | .float _ => "float"
  | .boolean _ => "boolean"
  | .nil => "nil"
  | .reference _ => "reference"
  | .tuple _ => "tuple"
  | .array _ => "array"
  | .dictionary _ => "dictionary"

/-- Whether a literal may be the raw value of an enum case. -/
def isRawValue : Literal → Bool
  | .tuple _ | .array _ | .dictionary _ => false
  | _ => true

end Literal

namespace Expr

/-- The name of a kind of expression; a literal goes by its own kind. -/
def kindName : Expr → String
  | .literal value => value.kindName
  | .call .. => "call"
  | .member .. => "member"
  | .binary .. => "infix"
  | .unary .. => "prefix"
  | .postfixed .. => "postfix"
  | .closure _ => "closure"

/-- Every expression but a closure can be matched against. -/
def isPattern : Expr → Bool
  | .closure _ => false
  | _ => true

end Expr

namespace Node

def kindName : Node → String
  | .typeDecl head _ => head.flavor.kindName
  | .enumCase .. => "enum_case"
  | .protocolDecl .. => "protocol"
  | .associatedType _ => "associated_type"
  | .extensionDecl .. => "extension"
  | .function .. => "function"
  | .initializer .. => "initializer"
  | .property .. => "property"
  | .typeAlias _ => "type_alias"
  | .importDecl _ => "import"
  | .expression e => e.kindName
  | .assignment .. => "assignment"
  | .tupleAssignment .. => "tuple_assignment"
  | .ifStmt .. => "if"
  | .guardStmt .. => "guard"
  | .loop style _ _ => style.kindName
  | .forIn .. => "for_in"
  | .switchStmt .. => "switch"
  | .doCatch .. => "do_catch"
  | .returnStmt _ => "return"
  | .throwStmt _ => "throw"
  | .jump kind _ => kind.keyword
  | .deferStmt _ => "defer"
  | .pattern _ => "pattern"
  | .comment _ => "comment"
  | .blank => "blank"
  | .raw _ => "raw"
  | .empty => "empty"

/-- Whether a node can stand where an expression is wanted. -/
def isExpression : Node → Bool
  | .enumCase .. | .expression _ | .raw _ => true
  | _ => false

/-- Whether a node can stand where a pattern is wanted. -/
def isPattern : Node → Bool
  | .pattern _ | .enumCase .. | .raw _ => true
  | .expression e => e.isPattern
  | _ => false

def isPlaceholder : Node → Bool
  | .empty => true
  | _ => false

/-- A bare name or dotted path. -/
def reference (name : String) : Node := .expression (.literal (.reference name))

def string (value : String) : Node := .expression (.literal (.string value))

end Node

end SwiftForge
