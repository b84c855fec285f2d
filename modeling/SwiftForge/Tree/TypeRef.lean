import SwiftForge.Text.Lines

/-!
References to Swift types, with the effects that function types carry, and the text of both.
-/

namespace SwiftForge

mutual

/-- A reference to a Swift type. Types are kept by structure, so that an optional of a function type
gets the parentheses it needs. -/
inductive TypeRef where
  | named (name : String)
  | optional (wrapped : TypeRef)
  | array (element : TypeRef)
  | dictionary (key value : TypeRef)
  | tuple (elements : List TypeRef)
  | generic (base : String) (args : List TypeRef)
  | function (params : List TypeRef) (effects : Effects) (returns : TypeRef)

/-- The throwing half of an effect specifier. -/
inductive Throws where
  /-- `throws`, or `throws(E)` with an error type. -/
  | throws (error : Option TypeRef)
  | rethrows

/-- The effects of a function, initializer, closure or function type. -/
inductive Effects where
  | none
  | throws (throws : Throws)
  | async
  | asyncThrows (throws : Throws)

end

deriving instance BEq, Repr for TypeRef, Throws, Effects

instance : Inhabited TypeRef := ⟨.named ""⟩

instance : Inhabited Effects := ⟨.none⟩

/-- Function types need parentheses before a question mark. -/
def TypeRef.isFunction : TypeRef → Bool
  | .function _ _ _ => true
  | _ => false

mutual

/-- The Swift spelling of a type. -/
def TypeRef.text : TypeRef → String
  | .named name => name
  | .optional wrapped =>
    if wrapped.isFunction then "(" ++ wrapped.text ++ ")?" else wrapped.text ++ "?"
  | .array element => "[" ++ element.text ++ "]"
  | .dictionary key value => "[" ++ key.text ++ ": " ++ value.text ++ "]"
  | .tuple elements => "(" ++ Text.joinWith ", " (TypeRef.texts elements) ++ ")"
  | .generic base args => base ++ "<" ++ Text.joinWith ", " (TypeRef.texts args) ++ ">"
  | .function params effects returns =>
    "(" ++ Text.joinWith ", " (TypeRef.texts params) ++ ")" ++ effects.suffix ++ " -> " ++
      returns.text

def TypeRef.texts : List TypeRef → List String
  | [] => []
  | t :: rest => t.text :: TypeRef.texts rest

/-- The keyword of a throwing effect; an error type follows it directly. -/
def Throws.keyword : Throws → String
  | .throws .none => "throws"
  | .throws (.some error) => "throws(" ++ error.text ++ ")"
  | .rethrows => "rethrows"

/-- The keywords of the effects, each after a space; `async` comes first. -/
def Effects.suffix : Effects → String
  | .none => ""
  | .throws t => " " ++ t.keyword
  | .async => " async"
  | .asyncThrows t => " async" ++ " " ++ t.keyword

end

namespace TypeRef

def void : TypeRef := .named "Void"

def isOptional : TypeRef → Bool
  | .optional _ => true
  | _ => false

/-- What an optional wraps or an array holds. -/
def inner? : TypeRef → Option TypeRef
  | .optional t => some t
  | .array t => some t
  | _ => none

/-- A conformance clause `: A, B`; nothing when there is nothing to inherit. -/
def inheritanceClause (types : List TypeRef) : String :=
  if types.isEmpty then "" else ": " ++ Text.joinWith ", " (texts types)

end TypeRef

namespace Throws

def untyped : Throws := .throws none

def typed (error : TypeRef) : Throws := .throws (some error)

end Throws

namespace Effects

def isAsync : Effects → Bool
  | .async | .asyncThrows _ => true
  | _ => false

def isThrowing : Effects → Bool
  | .throws _ | .asyncThrows _ => true
  | _ => false

def isNone : Effects → Bool
  | .none => true
  | _ => false

def throwing? : Effects → Option Throws
  | .throws t | .asyncThrows t => some t
  | _ => Option.none

/-- Adds `async` and keeps the throwing part. -/
def withAsync : Effects → Effects
  | .none | .async => .async
  | .throws t | .asyncThrows t => .asyncThrows t

/-- Sets the throwing part and keeps `async`. -/
def withThrows (t : Throws) : Effects → Effects
  | .none | .throws _ => .throws t
  | .async | .asyncThrows _ => .asyncThrows t

end Effects

/-- The markers of a call: `try` and `await`. -/
structure CallEffects where
  isTry : Bool := false
  isAwait : Bool := false
deriving BEq, DecidableEq, Repr, Inhabited

/-- What stands before a call; `try` comes first. -/
def CallEffects.lead (e : CallEffects) : String :=
  (if e.isTry then "try " else "") ++ if e.isAwait then "await " else ""

/-- A generic parameter with its constraints. -/
structure GenericParam where
  name : String
  bounds : List TypeRef := []
deriving BEq, Repr

namespace GenericParam

/-- `T`, or `T: A & B` with constraints. -/
def text (p : GenericParam) : String :=
  if p.bounds.isEmpty then p.name
  else p.name ++ ": " ++ Text.joinWith " & " (TypeRef.texts p.bounds)

/-- A generic parameter clause `<A, B>`; nothing without parameters. -/
def clause (params : List GenericParam) : String :=
  if params.isEmpty then "" else "<" ++ Text.joinWith ", " (params.map text) ++ ">"

end GenericParam

end SwiftForge
