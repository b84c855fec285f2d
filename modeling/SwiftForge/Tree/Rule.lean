import SwiftForge.Decimal.Format
import SwiftForge.Tree.Record

/-!
The rules that a well-formed tree obeys, one for each kind of part that has one. Loading checks them
when a part is complete, builders when a part is put together; both report the same breaches.
-/

namespace SwiftForge

/-- Places that want a pattern or an expression and are checked when they are filled. -/
inductive Place where
  | whileCondition
  | repeatCondition
  | forInPattern
  /-- A place that an author names. -/
  | named (role : String)
deriving DecidableEq, Repr

def Place.text : Place → String
  | .whileCondition => "while condition"
  | .repeatCondition => "repeat-while condition"
  | .forInPattern => "for-in pattern"
  | .named role => role

/-- Clauses whose patterns are checked. -/
inductive Clause where
  | condition
  | switchCase
  | catchClause
deriving DecidableEq, Repr

def Clause.text : Clause → String
  | .condition => "condition"
  | .switchCase => "switch case"
  | .catchClause => "catch"

inductive Breach where
  | caseAccess (name : String) (level : AccessLevel)
  | caseRawKind (name kind : String)
  | caseRawAndPayload (name : String)
  | computedConstant (name : String)
  | computedWithValue (name : String)
  | clausePattern (clause : Clause) (kind : String)
  | noPatterns
  | notExpression (place : Place) (kind : String)
  | notPattern (place : Place) (kind : String)
  | noNames
  | arity (names elements : Nat)
deriving DecidableEq, Repr

def Breach.message : Breach → String
  | .caseAccess name level =>
    "case `" ++ name ++ "` cannot take an access level (got `" ++ level.keyword ++ "`)"
  | .caseRawKind name kind => "case `" ++ name ++ "`: " ++ kind ++ " literals cannot be raw values"
  | .caseRawAndPayload name =>
    "case `" ++ name ++ "` cannot have both a raw value and associated values"
  | .computedConstant name => "computed property `" ++ name ++ "` must be declared with `var`"
  | .computedWithValue name => "computed property `" ++ name ++ "` cannot have an initial value"
  | .clausePattern clause kind =>
    clause.text ++ " pattern must be a pattern, got a `" ++ kind ++ "` node"
  | .noPatterns => "switch case needs at least one pattern"
  | .notExpression place kind =>
    place.text ++ " must yield an expression, got a `" ++ kind ++ "` node"
  | .notPattern place kind => place.text ++ " must yield a pattern, got a `" ++ kind ++ "` node"
  | .noNames => "tuple assignment needs at least one name"
  | .arity names elements =>
    "tuple assignment binds " ++ Decimal.intText names ++ " names to a " ++
      Decimal.intText elements ++ "-element tuple"

/-- Requires a node that can stand as an expression. -/
def requireExpression (place : Place) (node : Node) : Except Breach Unit :=
  if node.isExpression then .ok () else .error (.notExpression place node.kindName)

/-- Requires a node that can stand as a pattern. -/
def requirePattern (place : Place) (node : Node) : Except Breach Unit :=
  if node.isPattern then .ok () else .error (.notPattern place node.kindName)

/-- Requires a pattern in a clause. -/
def requireClausePattern (clause : Clause) (node : Node) : Except Breach Unit :=
  if node.isPattern then .ok () else .error (.clausePattern clause node.kindName)

/-- A case takes no access level; its raw value is a plain literal and excludes associated values. -/
def EnumCase.check (c : EnumCase) : Except Breach Unit :=
  match c.decor.access, c.rawValue with
  | some level, _ => .error (.caseAccess c.name level)
  | none, some raw =>
    if !raw.isRawValue then .error (.caseRawKind c.name raw.kindName)
    else if !c.associatedValues.isEmpty then .error (.caseRawAndPayload c.name)
    else .ok ()
  | none, none => .ok ()

/-- Whether a getter may be added: the property is a `var` without an initial value. -/
def Property.checkComputable (p : Property) : Except Breach Unit :=
  if p.binding ≠ .varBinding then .error (.computedConstant p.name)
  else if p.value.isSome then .error (.computedWithValue p.name)
  else .ok ()

/-- A computed property is a `var` without an initial value. -/
def Property.check (p : Property) : Except Breach Unit :=
  if p.isComputed then p.checkComputable else .ok ()

/-- A `case` condition matches against a pattern. -/
def Condition.check : Condition → Except Breach Unit
  | .caseMatch pattern _ => requireClausePattern .condition pattern
  | _ => .ok ()

/-- A `switch` clause has a pattern, and patterns only. -/
def SwitchCase.check (c : SwitchCase) : Except Breach Unit :=
  if c.patterns.isEmpty then .error .noPatterns
  else c.patterns.forM (requireClausePattern .switchCase)

/-- A `catch` clause with a pattern has one that can be matched. -/
def Catch.check (c : Catch) : Except Breach Unit :=
  match c.pattern with
  | some pattern => requireClausePattern .catchClause pattern
  | none => .ok ()

/-- The place of a loop's condition. -/
def LoopStyle.place : LoopStyle → Place
  | .whileLoop => .whileCondition
  | .repeatWhile => .repeatCondition

/-- The condition of a loop is an expression. -/
def ConditionLoop.check (l : ConditionLoop) : Except Breach Unit :=
  requireExpression l.style.place l.condition

/-- A `for`-`in` loop binds a pattern. -/
def ForIn.check (l : ForIn) : Except Breach Unit := requirePattern .forInPattern l.pattern

/-- The number of elements of a tuple literal. -/
def Node.tupleArity? : Node → Option Nat
  | .expression (.literal (.tuple elements)) => some elements.length
  | _ => none

/-- A tuple assignment has names, as many as the elements of a tuple literal. -/
def TupleAssignment.check (a : TupleAssignment) : Except Breach Unit :=
  if a.names.isEmpty then .error .noNames
  else
    match a.value.tupleArity? with
    | some n => if n = a.names.length then .ok () else .error (.arity a.names.length n)
    | none => .ok ()

end SwiftForge
