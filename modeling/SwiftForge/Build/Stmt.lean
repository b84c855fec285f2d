import SwiftForge.Build.Script

/-!
Steps that build statements.
-/

namespace SwiftForge

namespace TupleAssignment

/-- Binds names to the parts of a value. -/
def new (names : List String) (value : Node) : Built TupleAssignment := do
  let a : TupleAssignment := { names, value }
  Built.ofRule a.check
  pure a

def withMode (mode : AssignmentMode) (a : TupleAssignment) : TupleAssignment := { a with mode }

end TupleAssignment

namespace Condition

/-- Binds a name to the value of an optional. -/
def letBound (name : String) (value : Node) : Condition := .binding .letBinding name (some value)

/-- Unwraps an optional under its own name. -/
def unwrap (name : String) : Condition := .binding .letBinding name none

/-- Matches a value against a pattern. -/
def matching (pattern value : Node) : Built Condition := do
  let c : Condition := .caseMatch pattern value
  Built.ofRule c.check
  pure c

end Condition

namespace If

def new (condition : Condition) : If := { first := { conditions := [condition] } }

def addCondition (condition : Condition) (i : If) : If :=
  { i with first := { i.first with conditions := i.first.conditions ++ [condition] } }

def addBody (body : List Node) (i : If) : If :=
  { i with first := { i.first with body := i.first.body ++ body } }

/-- Sets what runs otherwise, in place of all that followed the first branch; no nodes leave the
statement without an `else`. -/
def withElse (body : List Node) (i : If) : If :=
  { i with elseIfs := [], otherwise := if body.isEmpty then none else some body }

/-- Sets the rest of the chain. -/
def withElseIf (i next : If) : If :=
  { i with elseIfs := next.first :: next.elseIfs, otherwise := next.otherwise }

end If

namespace Guard

def new (condition : Condition) : Guard := { conditions := [condition] }

def addCondition (condition : Condition) (g : Guard) : Guard :=
  { g with conditions := g.conditions ++ [condition] }

def addElse (body : List Node) (g : Guard) : Guard := { g with otherwise := g.otherwise ++ body }

end Guard

namespace ConditionLoop

/-- A loop whose condition a script puts together. -/
def new (style : LoopStyle) (condition : Built (List Node)) : Built ConditionLoop := do
  let condition ← singleExpression style.place condition
  pure { style, condition }

def addBody (body : List Node) (l : ConditionLoop) : ConditionLoop := { l with body := l.body ++ body }

end ConditionLoop

namespace ForIn

/-- A loop whose pattern a script puts together. -/
def new (pattern : Built (List Node)) (sequence : Node) : Built ForIn := do
  let pattern ← singlePattern .forInPattern pattern
  pure { pattern, sequence }

/-- A loop that binds each element to a name. -/
def binding (name : String) (sequence : Node) : Built ForIn :=
  new (.ok [.pattern (.identifier name)]) sequence

def withFilter (filter : Node) (l : ForIn) : ForIn := { l with filter := some filter }

def addBody (body : List Node) (l : ForIn) : ForIn := { l with body := l.body ++ body }

end ForIn

namespace SwitchCase

/-- A clause with one pattern. -/
def new (pattern : Node) : Built SwitchCase := do
  Built.ofRule (requireClausePattern .switchCase pattern)
  pure { patterns := [pattern] }

/-- A clause whose patterns a script puts together. Each pattern is checked before their number. -/
def ofPatterns (patterns : Built (List Node)) : Built SwitchCase := do
  let patterns ← patterns
  Built.ofRule (patterns.forM (requireClausePattern .switchCase))
  if patterns.isEmpty then .error (.breach .noPatterns)
  else pure { patterns }

def addPattern (pattern : Node) (c : SwitchCase) : Built SwitchCase := do
  Built.ofRule (requireClausePattern .switchCase pattern)
  pure { c with patterns := c.patterns ++ [pattern] }

def withGuard (guard : Node) (c : SwitchCase) : SwitchCase := { c with guard := some guard }

def addBody (body : List Node) (c : SwitchCase) : SwitchCase := { c with body := c.body ++ body }

end SwitchCase

namespace Switch

def new (subject : Node) : Switch := { subject }

def addCase (clause : SwitchCase) (s : Switch) : Switch := { s with cases := s.cases ++ [clause] }

/-- Adds to the `default` clause. -/
def addDefault (body : List Node) (s : Switch) : Switch :=
  { s with default := some (s.default.getD [] ++ body) }

end Switch

namespace Catch

/-- A clause that catches everything. -/
def all : Catch := {}

/-- A clause for what matches a pattern. -/
def matching (pattern : Node) : Built Catch := do
  let c : Catch := { pattern := some pattern }
  Built.ofRule c.check
  pure c

def addBody (body : List Node) (c : Catch) : Catch := { c with body := c.body ++ body }

end Catch

namespace DoCatch

def addBody (body : List Node) (d : DoCatch) : DoCatch := { d with body := d.body ++ body }

def addCatch (clause : Catch) (d : DoCatch) : DoCatch := { d with catches := d.catches ++ [clause] }

end DoCatch

end SwiftForge
