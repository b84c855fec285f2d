import SwiftForge.Json.Value
import SwiftForge.Tree.Kind
import SwiftForge.Tree.SourceFile

/-!
The JSON form of trees. A part with alternatives is an object with a `kind` and a `value`; other
parts are objects with a member for each field, in a fixed order, in which empty lists and absent
options are left out.
-/

namespace SwiftForge

/-- The members of an object. -/
abbrev Members := List (String × Json)

namespace Document

/-! ### Members -/

/-- A member that is always written. -/
def field (key : String) (value : Json) : Members := [(key, value)]

/-- A member that is left out if it is absent. -/
def optional (key : String) : Option Json → Members
  | some value => [(key, value)]
  | none => []

/-- A list that is left out if it is empty. -/
def listField (key : String) (items : List Json) : Members :=
  if items.isEmpty then [] else [(key, .array items)]

/-- A list of texts that is left out if it is empty. -/
def textsField (key : String) (items : List String) : Members := listField key (items.map .string)

def tagged (kind : String) (value : Json) : Json := .object [("kind", .string kind), ("value", value)]

def bare (kind : String) : Json := .object [("kind", .string kind)]

end Document

open Document

/-! ### Types and effects -/

mutual

def TypeRef.encode : TypeRef → Json
  | .named name => tagged "named" (.string name)
  | .optional wrapped => tagged "optional" wrapped.encode
  | .array element => tagged "array" element.encode
  | .dictionary key value =>
    tagged "dictionary" (.object [("key", key.encode), ("value", value.encode)])
  | .tuple elements => tagged "tuple" (.array (TypeRef.encodeAll elements))
  | .generic base args =>
    tagged "generic" (.object [("base", .string base), ("args", .array (TypeRef.encodeAll args))])
  | .function params effects returns =>
    tagged "function" (.object [("params", .array (TypeRef.encodeAll params)),
      ("effects", effects.encode), ("returns", returns.encode)])

def TypeRef.encodeAll : List TypeRef → List Json
  | [] => []
  | t :: rest => t.encode :: TypeRef.encodeAll rest

def Throws.encode : Throws → Json
  | .throws .none => .object [("Throws", .null)]
  | .throws (.some error) => .object [("Throws", error.encode)]
  | .rethrows => .string "Rethrows"

def Effects.encode : Effects → Json
  | .none => .string "None"
  | .throws t => .object [("Throws", t.encode)]
  | .async => .string "Async"
  | .asyncThrows t => .object [("AsyncThrows", t.encode)]

end

def CallEffects.encode (e : CallEffects) : Json :=
  .object [("is_try", .bool e.isTry), ("is_await", .bool e.isAwait)]

def GenericParam.encode (p : GenericParam) : Json :=
  .object [("name", .string p.name), ("bounds", .array (TypeRef.encodeAll p.bounds))]

/-! ### Heads -/

def Attribute.encode (a : Attribute) : Json :=
  .object [("name", .string a.name), ("args", .array (a.args.map .string))]

def Decor.encode (d : Decor) : Json :=
  .object (textsField "comments" d.comments ++ textsField "doc" d.doc ++
    listField "attributes" (d.attributes.map Attribute.encode) ++
    optional "access" (d.access.map fun level => .string level.keyword))

def typesField (key : String) (types : List TypeRef) : Members := listField key (TypeRef.encodeAll types)

def genericsField (params : List GenericParam) : Members :=
  listField "generics" (params.map GenericParam.encode)

/-- The spelling of an assignment mode. -/
def AssignmentMode.name : AssignmentMode → String
  | .sync => "sync"
  | .async => "async"
  | .throwing => "throwing"
  | .asyncThrowing => "async_throwing"
  | .concurrent => "concurrent"

def CaptureStrength.name : CaptureStrength → String
  | .strong => "strong"
  | .weak => "weak"
  | .unowned => "unowned"

def PostfixMark.name : PostfixMark → String
  | .optionalChain => "optional_chain"
  | .forceUnwrap => "force_unwrap"

def Capture.encode (c : Capture) : Json :=
  .object [("strength", .string c.strength.name), ("name", .string c.name)]

def ClosureParam.encode (p : ClosureParam) : Json :=
  .object (field "name" (.string p.name) ++ optional "ty" (p.ty.map TypeRef.encode))

def AssociatedValue.encode (v : AssociatedValue) : Json :=
  .object [("name", .string v.name), ("ty", v.ty.encode)]

/-- The flag of a kind of nominal type. -/
def Flavor.flag : Flavor → Members
  | .structType => []
  | .classType isFinal => field "is_final" (.bool isFinal)
  | .enumType isIndirect => field "is_indirect" (.bool isIndirect)

def TypeHead.fields (h : TypeHead) : Members :=
  field "name" (.string h.name) ++ field "decor" h.decor.encode ++ h.flavor.flag ++
    genericsField h.generics ++ typesField "conformances" h.conformances

def ProtocolHead.fields (h : ProtocolHead) : Members :=
  field "name" (.string h.name) ++ field "decor" h.decor.encode ++
    typesField "conformances" h.conformances

def ExtensionHead.fields (h : ExtensionHead) : Members :=
  field "extended" h.extended.encode ++ field "decor" h.decor.encode ++
    typesField "conformances" h.conformances ++ textsField "requirements" h.requirements

def AssociatedType.encode (t : AssociatedType) : Json :=
  .object (field "name" (.string t.name) ++ field "decor" t.decor.encode ++
    typesField "conformances" t.conformances)

def TypeAlias.encode (t : TypeAlias) : Json :=
  .object (field "name" (.string t.name) ++ field "decor" t.decor.encode ++
    genericsField t.generics ++ field "target" t.target.encode)

def ImportDecl.encode (i : ImportDecl) : Json :=
  .object [("module", .string i.moduleName), ("decor", i.decor.encode)]

/-- The members of a function before and after its parameters. -/
def FunctionHead.fields (h : FunctionHead) (params : Members) : Members :=
  field "name" (.string h.name) ++ field "decor" h.decor.encode ++
    field "is_static" (.bool h.isStatic) ++ field "is_override" (.bool h.isOverride) ++
    field "is_mutating" (.bool h.isMutating) ++ genericsField h.generics ++ params ++
    field "effects" h.effects.encode ++ optional "return_type" (h.returnType.map TypeRef.encode)

/-- The members of an initializer around its parameters. -/
def InitHead.fields (h : InitHead) (params : Members) : Members :=
  field "decor" h.decor.encode ++ field "is_failable" (.bool h.isFailable) ++
    field "is_convenience" (.bool h.isConvenience) ++ params ++ field "effects" h.effects.encode

/-- The members of a property around its value. -/
def PropertyHead.fields (h : PropertyHead) (value : Members) : Members :=
  field "name" (.string h.name) ++ field "decor" h.decor.encode ++
    field "binding" (.string h.binding.keyword) ++ optional "ty" (h.ty.map TypeRef.encode) ++ value ++
    field "is_static" (.bool h.isStatic) ++ field "is_lazy" (.bool h.isLazy) ++
    field "is_weak" (.bool h.isWeak)

def ClosureHead.fields (h : ClosureHead) : Members :=
  listField "attributes" (h.attributes.map Attribute.encode) ++
    listField "captures" (h.captures.map Capture.encode) ++
    listField "params" (h.params.map ClosureParam.encode) ++ field "effects" h.effects.encode ++
    optional "return_type" (h.returnType.map TypeRef.encode)

/-! ### Nodes -/

/-- The `otherwise` member of an `if`: the remaining branches nest inside each other, and the last
holds the `else` block. -/
def nestElse : List Members → Option Json → Members
  | [], last => optional "otherwise" (last.map (tagged "block"))
  | branch :: rest, last => field "otherwise" (tagged "if" (.object (branch ++ nestElse rest last)))

mutual

def Node.encode : Node → Json
  | .typeDecl head members =>
    tagged head.flavor.kindName (.object (head.fields ++ nodesField "members" members))
  | .enumCase head rawValue =>
    tagged "enum_case" (.object (field "name" (.string head.name) ++ field "decor" head.decor.encode ++
      rawValueField rawValue ++
      listField "associated_values" (head.associatedValues.map AssociatedValue.encode)))
  | .protocolDecl head members =>
    tagged "protocol" (.object (head.fields ++ nodesField "members" members))
  | .associatedType decl => tagged "associated_type" decl.encode
  | .extensionDecl head members =>
    tagged "extension" (.object (head.fields ++ nodesField "members" members))
  | .function head params body =>
    tagged "function" (.object (head.fields (listField "params" (encodeParams params)) ++
      nodesField "body" body))
  | .initializer head params body =>
    tagged "initializer" (.object (head.fields (listField "params" (encodeParams params)) ++
      nodesField "body" body))
  | .property head value getter =>
    tagged "property" (.object (head.fields (nodeField? "value" value) ++ nodesField? "getter" getter))
  | .typeAlias decl => tagged "type_alias" decl.encode
  | .importDecl decl => tagged "import" decl.encode
  | .expression expr => expr.encode
  | .assignment target op value =>
    tagged "assignment" (.object [("target", target.encode), ("op", .string op),
      ("value", value.encode)])
  | .tupleAssignment names value mode =>
    tagged "tuple_assignment" (.object [("names", .array (names.map .string)), ("value", value.encode),
      ("mode", .string mode.name)])
  | .ifStmt first elseIfs otherwise =>
    tagged "if" (.object (first.fields ++ nestElse (encodeBranches elseIfs) (encodeBlock? otherwise)))
  | .guardStmt conditions otherwise =>
    tagged "guard" (.object (field "conditions" (.array (encodeConditions conditions)) ++
      nodesField "otherwise" otherwise))
  | .loop style condition body =>
    tagged style.kindName (.object (field "condition" condition.encode ++ nodesField "body" body))
  | .forIn pattern sequence filter body =>
    tagged "for_in" (.object (field "pattern" pattern.encode ++ field "sequence" sequence.encode ++
      nodeField? "filter" filter ++ nodesField "body" body))
  | .switchStmt subject cases default =>
    tagged "switch" (.object (field "subject" subject.encode ++ listField "cases" (encodeCases cases) ++
      nodesField? "default" default))
  | .doCatch body catches =>
    tagged "do_catch" (.object (nodesField "body" body ++ listField "catches" (encodeCatches catches)))
  | .returnStmt value => tagged "return" (.object (nodeField? "value" value))
  | .throwStmt error => tagged "throw" (.object [("error", error.encode)])
  | .jump kind label => tagged kind.keyword (.object (optional "label" (label.map .string)))
  | .deferStmt body => tagged "defer" (.object (nodesField "body" body))
  | .pattern pattern => tagged "pattern" pattern.encode
  | .comment text => tagged "comment" (.object [("text", .string text)])
  | .blank => bare "blank"
  | .raw code => tagged "raw" (.object [("code", .string code)])
  | .empty => bare "empty"

def encodeNodes : List Node → List Json
  | [] => []
  | node :: rest => node.encode :: encodeNodes rest

/-- A list of nodes that is left out if it is empty. -/
def nodesField (key : String) : List Node → Members
  | [] => []
  | node :: rest => [(key, .array (node.encode :: encodeNodes rest))]

/-- A list of nodes that is left out if it is absent. -/
def nodesField? (key : String) : Option (List Node) → Members
  | none => []
  | some nodes => [(key, .array (encodeNodes nodes))]

/-- The JSON form of a block that may be absent. -/
def encodeBlock? : Option (List Node) → Option Json
  | none => none
  | some nodes => some (.array (encodeNodes nodes))

/-- A node that is left out if it is absent. -/
def nodeField? (key : String) : Option Node → Members
  | none => []
  | some node => [(key, node.encode)]

/-- A node that may be absent, as `null` then. -/
def encodeNode? : Option Node → Json
  | none => .null
  | some node => node.encode

/-- A raw value that is left out if it is absent. -/
def rawValueField : Option Literal → Members
  | none => []
  | some value => [("raw_value", value.encode)]

def Param.encode : Param → Json
  | ⟨head, default⟩ =>
    .object (optional "label" (head.label.map .string) ++ field "name" (.string head.name) ++
      field "ty" head.ty.encode ++ nodeField? "default" default ++
      field "is_inout" (.bool head.isInout) ++ field "is_variadic" (.bool head.isVariadic))

def encodeParams : List Param → List Json
  | [] => []
  | param :: rest => param.encode :: encodeParams rest

def Condition.encode : Condition → Json
  | .expr value => tagged "expr" value.encode
  | .binding binding name value =>
    tagged "binding" (.object [("binding", .string binding.keyword), ("name", .string name),
      ("value", encodeNode? value)])
  | .caseMatch pattern value =>
    tagged "case" (.object [("pattern", pattern.encode), ("value", value.encode)])

def encodeConditions : List Condition → List Json
  | [] => []
  | condition :: rest => condition.encode :: encodeConditions rest

/-- The members of a branch. -/
def Branch.fields : Branch → Members
  | ⟨conditions, body⟩ =>
    field "conditions" (.array (encodeConditions conditions)) ++ nodesField "then" body

def encodeBranches : List Branch → List Members
  | [] => []
  | branch :: rest => branch.fields :: encodeBranches rest

def SwitchCase.encode : SwitchCase → Json
  | ⟨patterns, guard, body⟩ =>
    .object (field "patterns" (.array (encodeNodes patterns)) ++ nodeField? "guard" guard ++
      nodesField "body" body)

def encodeCases : List SwitchCase → List Json
  | [] => []
  | clause :: rest => clause.encode :: encodeCases rest

def Catch.encode : Catch → Json
  | ⟨pattern, body⟩ => .object (nodeField? "pattern" pattern ++ nodesField "body" body)

def encodeCatches : List Catch → List Json
  | [] => []
  | clause :: rest => clause.encode :: encodeCatches rest

def Expr.encode : Expr → Json
  | .literal value => tagged "literal" value.encode
  | .call callee args trailing effects =>
    tagged "call" (.object (field "callee" callee.encode ++ listField "args" (encodeArguments args) ++
      closureField? "trailing_closure" trailing ++ field "effects" effects.encode))
  | .member base name =>
    tagged "member" (.object (nodeField? "base" base ++ field "name" (.string name)))
  | .binary lhs op rhs isParenthesized =>
    tagged "infix" (.object [("lhs", lhs.encode), ("op", .string op), ("rhs", rhs.encode),
      ("is_parenthesized", .bool isParenthesized)])
  | .unary op operand => tagged "prefix" (.object [("op", .string op), ("operand", operand.encode)])
  | .postfixed operand mark =>
    tagged "postfix" (.object [("operand", operand.encode), ("op", .string mark.name)])
  | .closure closure => tagged "closure" closure.encode

def Literal.encode : Literal → Json
  | .string value => tagged "string" (.string value)
  | .integer value => tagged "int" (.integer value.toInt)
  | .float value => tagged "float" (.float value)
  | .boolean value => tagged "bool" (.bool value)
  | .nil => bare "nil"
  | .reference name => tagged "reference" (.string name)
  | .tuple elements => tagged "tuple" (.array (encodeNodes elements))
  | .array elements => tagged "array" (.array (encodeNodes elements))
  | .dictionary entries => tagged "dictionary" (.array (encodeEntries entries))

def Entry.encode : Entry → Json
  | ⟨key, value⟩ => .array [key.encode, value.encode]

def encodeEntries : List Entry → List Json
  | [] => []
  | entry :: rest => entry.encode :: encodeEntries rest

def Argument.encode : Argument → Json
  | ⟨label, value⟩ =>
    .object (optional "label" (label.map .string) ++ field "value" value.encode)

def encodeArguments : List Argument → List Json
  | [] => []
  | argument :: rest => argument.encode :: encodeArguments rest

def Closure.encode : Closure → Json
  | ⟨head, body⟩ => .object (head.fields ++ nodesField "body" body)

/-- A closure that is left out if it is absent. -/
def closureField? (key : String) : Option Closure → Members
  | none => []
  | some closure => [(key, closure.encode)]

def Pattern.encode : Pattern → Json
  | .identifier name => tagged "identifier" (.string name)
  | .enumCase name bindings =>
    tagged "case" (.object [("name", .string name), ("bindings", .array (bindings.map .string))])
  | .wildcard => bare "wildcard"
  | .tuple elements => tagged "tuple" (.array (encodePatterns elements))
  | .expression value => tagged "expression" value.encode

def encodePatterns : List Pattern → List Json
  | [] => []
  | pattern :: rest => pattern.encode :: encodePatterns rest

end

def SourceFile.encode (file : SourceFile) : Json :=
  .object (textsField "header" file.header ++ textsField "imports" file.imports ++
    nodesField "nodes" file.nodes)

end SwiftForge
