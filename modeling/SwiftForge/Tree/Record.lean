import SwiftForge.Tree.Kind

/-!
Declarations and statements as records, for those who put them together field by field, and the
nodes they stand for.
-/

namespace SwiftForge

/-- A `struct`, `class` or `enum` declaration. -/
structure TypeDecl extends TypeHead where
  members : List Node := []

structure ProtocolDecl extends ProtocolHead where
  members : List Node := []

structure ExtensionDecl extends ExtensionHead where
  members : List Node := []

structure EnumCase extends CaseHead where
  rawValue : Option Literal := none

structure FunctionDecl extends FunctionHead where
  params : List Param := []
  body : List Node := []

structure InitDecl extends InitHead where
  params : List Param := []
  body : List Node := []

/-- A property, also a local `let` or `var`. -/
structure Property extends PropertyHead where
  value : Option Node := none
  getter : Option (List Node) := none

structure Call where
  callee : Node
  args : List Argument := []
  trailing : Option Closure := none
  effects : CallEffects := {}

/-- Two operands and an operator. -/
structure Binary where
  lhs : Node
  op : String
  rhs : Node
  isParenthesized : Bool := false

/-- A binding of several names. -/
structure TupleAssignment where
  names : List String
  value : Node
  mode : AssignmentMode := .sync

/-- An `if` statement with its chain of `else if`. -/
structure If where
  first : Branch
  elseIfs : List Branch := []
  otherwise : Option (List Node) := none

structure Guard where
  conditions : List Condition
  otherwise : List Node := []

/-- A loop under a condition. -/
structure ConditionLoop where
  style : LoopStyle
  condition : Node
  body : List Node := []

structure ForIn where
  pattern : Node
  sequence : Node
  filter : Option Node := none
  body : List Node := []

structure Switch where
  subject : Node
  cases : List SwitchCase := []
  default : Option (List Node) := none

structure DoCatch where
  body : List Node := []
  catches : List Catch := []

def TypeDecl.node (d : TypeDecl) : Node := .typeDecl d.toTypeHead d.members

def ProtocolDecl.node (d : ProtocolDecl) : Node := .protocolDecl d.toProtocolHead d.members

def ExtensionDecl.node (d : ExtensionDecl) : Node := .extensionDecl d.toExtensionHead d.members

def EnumCase.node (c : EnumCase) : Node := .enumCase c.toCaseHead c.rawValue

def FunctionDecl.node (d : FunctionDecl) : Node := .function d.toFunctionHead d.params d.body

def InitDecl.node (d : InitDecl) : Node := .initializer d.toInitHead d.params d.body

def Property.node (p : Property) : Node := .property p.toPropertyHead p.value p.getter

def Call.node (c : Call) : Node := .expression (.call c.callee c.args c.trailing c.effects)

def Binary.node (b : Binary) : Node := .expression (.binary b.lhs b.op b.rhs b.isParenthesized)

def Closure.node (c : Closure) : Node := .expression (.closure c)

def Literal.node (l : Literal) : Node := .expression (.literal l)

def TupleAssignment.node (a : TupleAssignment) : Node := .tupleAssignment a.names a.value a.mode

def If.node (i : If) : Node := .ifStmt i.first i.elseIfs i.otherwise

def Guard.node (g : Guard) : Node := .guardStmt g.conditions g.otherwise

def ConditionLoop.node (l : ConditionLoop) : Node := .loop l.style l.condition l.body

def ForIn.node (l : ForIn) : Node := .forIn l.pattern l.sequence l.filter l.body

def Switch.node (s : Switch) : Node := .switchStmt s.subject s.cases s.default

def DoCatch.node (d : DoCatch) : Node := .doCatch d.body d.catches

/-- A property with a getter has no storage. -/
def Property.isComputed (p : Property) : Bool := p.getter.isSome

end SwiftForge
