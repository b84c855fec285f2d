import SwiftForge.Tree.Decor
import SwiftForge.Tree.TypeRef

/-!
The parts of a tree that hold no further nodes: keywords, captures, and the heads of declarations
and closures, that is all of them but their children.
-/

namespace SwiftForge

inductive Binding where
  | letBinding
  | varBinding
deriving BEq, DecidableEq, Repr

def Binding.keyword : Binding → String
  | .letBinding => "let"
  | .varBinding => "var"

/-- Which nominal type a declaration introduces. -/
inductive Flavor where
  | structType
  | classType (isFinal : Bool)
  | enumType (isIndirect : Bool)
deriving BEq, DecidableEq, Repr

/-- How a tuple binding gets its value; `concurrent` starts it as a child task. -/
inductive AssignmentMode where
  | sync
  | async
  | throwing
  | asyncThrowing
  | concurrent
deriving BEq, DecidableEq, Repr

/-- How strongly a closure holds a captured name. -/
inductive CaptureStrength where
  | strong
  | weak
  | unowned
deriving BEq, DecidableEq, Repr

/-- One entry of a capture list. -/
structure Capture where
  strength : CaptureStrength := .strong
  name : String
deriving BEq, DecidableEq, Repr

/-- A closure parameter with an optional type. -/
structure ClosureParam where
  name : String
  ty : Option TypeRef := none
deriving BEq, Repr

/-- The mark after an operand: `?` or `!`. -/
inductive PostfixMark where
  | optionalChain
  | forceUnwrap
deriving BEq, DecidableEq, Repr

/-- Whether a loop tests its condition before or after each round. -/
inductive LoopStyle where
  | whileLoop
  | repeatWhile
deriving BEq, DecidableEq, Repr

/-- A jump out of or to the next round of a loop. -/
inductive Jump where
  | breakOut
  | continueOn
deriving BEq, DecidableEq, Repr

/-- A named, typed payload of an enum case. -/
structure AssociatedValue where
  name : String
  ty : TypeRef
deriving BEq, Repr

structure AssociatedType where
  name : String
  decor : Decor := {}
  conformances : List TypeRef := []
deriving BEq, Repr

structure TypeAlias where
  name : String
  decor : Decor := {}
  generics : List GenericParam := []
  target : TypeRef
deriving BEq, Repr

structure ImportDecl where
  moduleName : String
  decor : Decor := {}
deriving BEq, Repr

/-- A `struct`, `class` or `enum` without its members. The conformances begin with a superclass or
raw type, if there is one. -/
structure TypeHead where
  flavor : Flavor
  name : String
  decor : Decor := {}
  generics : List GenericParam := []
  conformances : List TypeRef := []
deriving BEq, Repr

/-- A `protocol` without its members. -/
structure ProtocolHead where
  name : String
  decor : Decor := {}
  conformances : List TypeRef := []
deriving BEq, Repr

/-- An `extension` without its members; the requirements make its `where` clause. -/
structure ExtensionHead where
  extended : TypeRef
  decor : Decor := {}
  conformances : List TypeRef := []
  requirements : List String := []
deriving BEq, Repr

/-- An enum case without its raw value. -/
structure CaseHead where
  name : String
  decor : Decor := {}
  associatedValues : List AssociatedValue := []
deriving BEq, Repr

/-- A function parameter without its default value. -/
structure ParamHead where
  label : Option String := none
  name : String
  ty : TypeRef
  isInout : Bool := false
  isVariadic : Bool := false
deriving BEq, Repr

/-- A function without its parameters and body. -/
structure FunctionHead where
  name : String
  decor : Decor := {}
  isStatic : Bool := false
  isOverride : Bool := false
  isMutating : Bool := false
  generics : List GenericParam := []
  effects : Effects := .none
  returnType : Option TypeRef := none
deriving BEq, Repr

/-- An initializer without its parameters and body. -/
structure InitHead where
  decor : Decor := {}
  isFailable : Bool := false
  isConvenience : Bool := false
  effects : Effects := .none
deriving BEq, Repr

/-- A property without its value and getter. -/
structure PropertyHead where
  name : String
  decor : Decor := {}
  binding : Binding := .varBinding
  ty : Option TypeRef := none
  isStatic : Bool := false
  isLazy : Bool := false
  isWeak : Bool := false
deriving BEq, Repr

/-- A closure without its body. -/
structure ClosureHead where
  attributes : List Attribute := []
  captures : List Capture := []
  params : List ClosureParam := []
  effects : Effects := .none
  returnType : Option TypeRef := none
deriving BEq, Repr

end SwiftForge
