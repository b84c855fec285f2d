import SwiftForge.Build.Decorate

/-!
Steps that build expressions.
-/

namespace SwiftForge

instance : Effectful Closure where
  modifyEffects f c := { c with head := { c.head with effects := f c.head.effects } }

namespace Call

def new (callee : Node) : Call := { callee }

/-- A call of a function or type by its name. -/
def named (name : String) : Call := new (.reference name)

def addArgument (label : Option String) (value : Node) (c : Call) : Call :=
  { c with args := c.args ++ [{ label, value }] }

def withTrailing (closure : Closure) (c : Call) : Call := { c with trailing := some closure }

def makeTry (c : Call) : Call := { c with effects := { c.effects with isTry := true } }

def makeAwait (c : Call) : Call := { c with effects := { c.effects with isAwait := true } }

end Call

def Binary.parenthesize (b : Binary) : Binary := { b with isParenthesized := true }

namespace Closure

def addCaptures (captures : List Capture) (c : Closure) : Closure :=
  { c with head := { c.head with captures := c.head.captures ++ captures } }

def addParam (param : ClosureParam) (c : Closure) : Closure :=
  { c with head := { c.head with params := c.head.params ++ [param] } }

def returning (ty : TypeRef) (c : Closure) : Closure :=
  { c with head := { c.head with returnType := some ty } }

def addAttribute (a : Attribute) (c : Closure) : Closure :=
  { c with head := { c.head with attributes := c.head.attributes ++ [a] } }

def addBody (body : List Node) (c : Closure) : Closure := { c with body := c.body ++ body }

end Closure

end SwiftForge
