import SwiftForge.Decimal.Format
import SwiftForge.Text.Blank
import SwiftForge.Text.Quoted
import SwiftForge.Tree.Node

/-!
The parts of Swift text that need no child: literals, names with their modifiers, clauses of a
declaration, signatures of closures.
-/

namespace SwiftForge

/-! ### Literals -/

/-- A character inside a Swift string literal. Controls are escaped, so a literal stays on one
line. -/
def swiftChar (c : Char) : List Char :=
  match c with
  | '"' => ['\\', '"']
  | '\\' => ['\\', '\\']
  | '\n' => ['\\', 'n']
  | '\r' => ['\\', 'r']
  | '\t' => ['\\', 't']
  | '\x00' => ['\\', '0']
  | c => if Text.isControl c then Text.numbered c else [c]

/-- A text as a Swift string literal. -/
def swiftString (s : String) : String :=
  String.ofList ('"' :: s.toList.flatMap swiftChar ++ ['"'])

/-- Swift floats are positional from `0.0001` up to `10 ^ 16`, keep a fraction digit there, have a
bare exponent beyond, and a tie between two shortest decimals goes up. -/
def swiftFloatFormat : Decimal.Format := { low := -4, high := 16, plus := "", tie := .up }

/-- A double as Swift source. -/
def swiftFloat (d : Double) : String :=
  match d.view with
  | .nan => "Double.nan"
  | .infinite false => "Double.infinity"
  | .infinite true => "-Double.infinity"
  | .finite negative significand exponent => swiftFloatFormat.finite negative significand exponent

def swiftBool (b : Bool) : String := if b then "true" else "false"

/-! ### Declarations -/

/-- A word before a declaration, if it applies. -/
def modifier (applies : Bool) (word : String) : String := if applies then word else ""

/-- The keyword of a type declaration with its modifier. -/
def Flavor.keyword : Flavor → String
  | .structType => "struct"
  | .classType isFinal => modifier isFinal "final " ++ "class"
  | .enumType isIndirect => modifier isIndirect "indirect " ++ "enum"

/-- The opening line of a type declaration. -/
def typeOpening (decor : Decor) (keyword name : String) (generics : List GenericParam)
    (conformances : List TypeRef) : String :=
  decor.accessLead ++ keyword ++ " " ++ name ++ GenericParam.clause generics ++
    TypeRef.inheritanceClause conformances ++ " \x7b"

def TypeHead.opening (h : TypeHead) : String :=
  typeOpening h.decor h.flavor.keyword h.name h.generics h.conformances

def ProtocolHead.opening (h : ProtocolHead) : String :=
  typeOpening h.decor "protocol" h.name [] h.conformances

/-- The opening line of an extension. -/
def ExtensionHead.opening (h : ExtensionHead) : String :=
  h.decor.accessLead ++ "extension " ++ h.extended.text ++
    TypeRef.inheritanceClause h.conformances ++
    (if h.requirements.isEmpty then "" else " where " ++ Text.joinWith ", " h.requirements) ++ " \x7b"

/-- A type after an arrow, if there is one. -/
def returnClause : Option TypeRef → String
  | some t => " -> " ++ t.text
  | none => ""

/-- A type after a colon, if there is one. -/
def annotation : Option TypeRef → String
  | some t => ": " ++ t.text
  | none => ""

namespace CaseHead

/-- An enum case as it is declared, without a raw value. -/
def declared (h : CaseHead) : String :=
  "case " ++ h.name ++
    if h.associatedValues.isEmpty then ""
    else "(" ++ Text.joinWith ", " (h.associatedValues.map fun v => v.name ++ ": " ++ v.ty.text) ++ ")"

/-- An enum case as it is used; `lead` stands before the name of each payload. -/
def applied (h : CaseHead) (lead : String) : String :=
  "." ++ h.name ++
    if h.associatedValues.isEmpty then ""
    else "(" ++ Text.joinWith ", " (h.associatedValues.map fun v => lead ++ v.name) ++ ")"

end CaseHead

/-- A parameter up to its default value. -/
def ParamHead.text (h : ParamHead) : String :=
  (match h.label with
    | some label => label ++ " "
    | none => "") ++
    h.name ++ ": " ++ modifier h.isInout "inout " ++ h.ty.text ++ modifier h.isVariadic "..."

namespace FunctionHead

/-- What stands before the parameters of a function. -/
def lead (h : FunctionHead) : String :=
  h.decor.accessLead ++ modifier h.isOverride "override " ++ modifier h.isStatic "static " ++
    modifier h.isMutating "mutating " ++ "func " ++ h.name ++ GenericParam.clause h.generics

/-- What stands after the parameters of a function. -/
def trail (h : FunctionHead) : String := h.effects.suffix ++ returnClause h.returnType

end FunctionHead

namespace InitHead

/-- What stands before the parameters of an initializer. -/
def lead (h : InitHead) : String :=
  h.decor.accessLead ++ modifier h.isConvenience "convenience " ++ "init" ++ modifier h.isFailable "?"

/-- What stands after the parameters of an initializer. -/
def trail (h : InitHead) : String := h.effects.suffix

end InitHead

namespace PropertyHead

/-- A property up to its value or getter. -/
def lead (h : PropertyHead) : String :=
  h.decor.accessLead ++ modifier h.isStatic "static " ++ modifier h.isWeak "weak " ++
    modifier h.isLazy "lazy " ++ h.binding.keyword ++ " " ++ h.name ++ annotation h.ty

/-- A property as a protocol requires it: always a `var`, settable unless it is a constant or
computed. -/
def requirement (h : PropertyHead) (isComputed : Bool) : String :=
  h.decor.accessLead ++ modifier h.isStatic "static " ++ "var " ++ h.name ++ annotation h.ty ++ " " ++
    if h.binding = .letBinding || isComputed then "\x7b get \x7d" else "\x7b get set \x7d"

end PropertyHead

def AssociatedType.text (t : AssociatedType) : String :=
  "associatedtype " ++ t.name ++ TypeRef.inheritanceClause t.conformances

def TypeAlias.text (t : TypeAlias) : String :=
  t.decor.accessLead ++ "typealias " ++ t.name ++ GenericParam.clause t.generics ++ " = " ++
    t.target.text

def ImportDecl.text (i : ImportDecl) : String :=
  i.decor.accessLead ++ "import " ++ i.moduleName

/-! ### Closures -/

def Capture.text (c : Capture) : String :=
  match c.strength with
  | .strong => c.name
  | .weak => "weak " ++ c.name
  | .unowned => "unowned " ++ c.name

namespace ClosureHead

/-- Parameters need no parentheses when nothing about them is typed. -/
def hasBareParams (h : ClosureHead) : Bool :=
  h.params.all (fun p => p.ty.isNone) && h.returnType.isNone && h.effects.isNone

/-- The parameter part of the signature, if there is one. -/
def paramParts (h : ClosureHead) : List String :=
  if h.hasBareParams then
    if h.params.isEmpty then [] else [Text.joinWith ", " (h.params.map (·.name))]
  else
    ["(" ++ Text.joinWith ", " (h.params.map fun p => p.name ++ annotation p.ty) ++ ")" ++
      h.effects.suffix ++ returnClause h.returnType]

/-- The parts of the signature: attributes, captures, parameters. -/
def parts (h : ClosureHead) : List String :=
  h.attributes.map Attribute.text ++
    (if h.captures.isEmpty then []
      else ["[" ++ Text.joinWith ", " (h.captures.map Capture.text) ++ "]"]) ++
    h.paramParts

/-- The signature of a closure up to `in`; a closure without any part has none. -/
def signature? (h : ClosureHead) : Option String :=
  if h.parts.isEmpty then none else some (Text.joinWith " " h.parts ++ " in")

end ClosureHead

/-! ### Statements and patterns -/

namespace AssignmentMode

def bindingKeyword : AssignmentMode → String
  | .concurrent => "async let"
  | _ => "let"

/-- What stands before the value. -/
def valueLead : AssignmentMode → String
  | .sync | .concurrent => ""
  | .async => "await "
  | .throwing => "try "
  | .asyncThrowing => "try await "

end AssignmentMode

/-- One name stands alone; several stand in parentheses. -/
def bindingTarget : List String → String
  | [name] => name
  | names => "(" ++ Text.joinWith ", " names ++ ")"

def PostfixMark.text : PostfixMark → String
  | .optionalChain => "?"
  | .forceUnwrap => "!"

/-- A keyword with an optional label. -/
def Jump.text (j : String) (label : Option String) : String :=
  match label with
  | some label => j ++ " " ++ label
  | none => j

/-- A case pattern with a `let` before each name it binds. -/
def casePatternText (name : String) (bindings : List String) : String :=
  if bindings.isEmpty then "." ++ name
  else "." ++ name ++ "(" ++ Text.joinWith ", " (bindings.map fun b => "let " ++ b) ++ ")"

end SwiftForge
