import SwiftForge.Document.Encode
import SwiftForge.Json.Decoder
import SwiftForge.Text.Blank
import SwiftForge.Tree.Rule

/-!
Loading trees from JSON text. Fields that are lists, options or flags may be left out; the rule of a
part is checked as soon as the part is complete. The first fault in the order of the text is
reported.
-/

namespace SwiftForge

/-- Why a text is not a tree. -/
abbrev LoadError := DecodeError Breach

namespace LoadError

def quoteName (name : String) : String := "`" ++ name ++ "`"

def choices : List String → String
  | [] => "nothing"
  | [a] => quoteName a
  | [a, b] => quoteName a ++ " or " ++ quoteName b
  | names => "one of " ++ Text.joinWith ", " (names.map quoteName)

/-- The text of a fault; malformed text has none. -/
def message? : LoadError → Option String
  | .malformed => none
  | .missingField name => some ("missing field " ++ quoteName name)
  | .duplicateField name => some ("duplicate field " ++ quoteName name)
  | .unknownField name expected =>
    some ("unknown field " ++ quoteName name ++ ", expected " ++ choices expected)
  | .unknownVariant name expected =>
    some ("unknown variant " ++ quoteName name ++ ", expected " ++ choices expected)
  | .invalidType found => some ("invalid type: " ++ found.description)
  | .invalidValue found => some ("invalid value: " ++ found.description)
  | .invalidLength length => some ("invalid length " ++ Decimal.intText length)
  | .rule breach => some breach.message

end LoadError

namespace Document

open Decoder
open Decoder.Fields (required withDefault nullableField listOf flag)

/-- A way to load a part of a tree. -/
abbrev Load (α : Type) := Decoder Breach α

/-- Names for values, without content. -/
def byName {α : Type} (name : α → String) (values : List α) : Load α :=
  (Variants.ofNames (values.map fun value => (name value, value))).external

/-! ### Names -/

def accessLevel : Load AccessLevel := byName AccessLevel.keyword AccessLevel.all

def binding : Load Binding := byName Binding.keyword [.letBinding, .varBinding]

def assignmentMode : Load AssignmentMode :=
  byName AssignmentMode.name [.sync, .async, .throwing, .asyncThrowing, .concurrent]

def captureStrength : Load CaptureStrength := byName CaptureStrength.name [.strong, .weak, .unowned]

def postfixMark : Load PostfixMark := byName PostfixMark.name [.optionalChain, .forceUnwrap]

/-! ### Types and effects -/

/-- A throwing effect; `type` loads its error type. -/
def throwing (type : Load TypeRef) : Load Throws :=
  Variants.external [
    ("Throws", .content (Decoder.map .throws (nullable type))),
    ("Rethrows", .unit .rethrows)]

/-- Effects; `type` loads their error types. -/
def effectsWith (type : Load TypeRef) : Load Effects :=
  Variants.external [
    ("None", .unit .none),
    ("Throws", .content (Decoder.map .throws (throwing type))),
    ("Async", .unit .async),
    ("AsyncThrows", .content (Decoder.map .asyncThrows (throwing type)))]

/-- The alternatives of a type; `type` loads its parts. -/
def typeVariants (type : Load TypeRef) : Variants Breach TypeRef := [
  ("named", .content (Decoder.map .named string)),
  ("optional", .content (Decoder.map .optional type)),
  ("array", .content (Decoder.map .array type)),
  ("dictionary", .content
    (TypeRef.dictionary <$> required "key" type <*> required "value" type).objectDecoder),
  ("tuple", .content (Decoder.map .tuple (list type))),
  ("generic", .content
    (TypeRef.generic <$> required "base" string <*> required "args" (list type)).objectDecoder),
  ("function", .content
    (TypeRef.function <$> required "params" (list type) <*> required "effects" (effectsWith type) <*>
      required "returns" type).objectDecoder)]

/-- A type with at most `depth` types inside each other. -/
def typeWithin : Nat → Load TypeRef
  | 0, _, _ => .error .malformed
  | depth + 1, mode, r => (typeVariants (typeWithin depth)).tagged mode r

/-- More parts inside each other than the nesting of a text allows. -/
def depthLimit : Nat := Reading.nestingLimit + 1

def type : Load TypeRef := typeWithin depthLimit

def effects : Load Effects := effectsWith type

def callEffects : Load CallEffects :=
  (CallEffects.mk <$> required "is_try" bool <*> required "is_await" bool).decoder

def genericParam : Load GenericParam :=
  (GenericParam.mk <$> required "name" string <*> required "bounds" (list type)).decoder

/-! ### Heads and leaves -/

def attributeItem : Load Attribute :=
  (Attribute.mk <$> required "name" string <*> required "args" (list string)).decoder

def decor : Load Decor :=
  (Decor.mk <$> listOf "comments" string <*> listOf "doc" string <*>
    listOf "attributes" attributeItem <*> nullableField "access" accessLevel).decoder

def decorField : Fields Breach Decor := withDefault "decor" {} decor

def nameField : Fields Breach String := required "name" string

def genericParams : Fields Breach (List GenericParam) := listOf "generics" genericParam

def conformances : Fields Breach (List TypeRef) := listOf "conformances" type

def effectsField : Fields Breach Effects := withDefault "effects" .none effects

def returnType : Fields Breach (Option TypeRef) := nullableField "return_type" type

def capture : Load Capture :=
  (Capture.mk <$> withDefault "strength" .strong captureStrength <*> nameField).decoder

def closureParam : Load ClosureParam :=
  (ClosureParam.mk <$> nameField <*> nullableField "ty" type).decoder

def associatedValue : Load AssociatedValue :=
  (AssociatedValue.mk <$> nameField <*> required "ty" type).decoder

def associatedType : Load AssociatedType :=
  (AssociatedType.mk <$> nameField <*> decorField <*> conformances).decoder

def typeAlias : Load TypeAlias :=
  (TypeAlias.mk <$> nameField <*> decorField <*> genericParams <*> required "target" type).decoder

def importDecl : Load ImportDecl :=
  (ImportDecl.mk <$> required "module" string <*> decorField).decoder

/-! ### Parts with nodes -/

section

variable (node : Load Node)

/-- A list of nodes that may be left out. -/
def nodesOf (key : String) : Fields Breach (List Node) := listOf key node

def structDecl : Load TypeDecl :=
  ((fun name decor generics conformances members =>
      { flavor := .structType, name, decor, generics, conformances, members }) <$>
    nameField <*> decorField <*> genericParams <*> conformances <*> nodesOf node "members").decoder

def classDecl : Load TypeDecl :=
  ((fun name decor isFinal generics conformances members =>
      { flavor := .classType isFinal, name, decor, generics, conformances, members }) <$>
    nameField <*> decorField <*> flag "is_final" <*> genericParams <*> conformances <*>
    nodesOf node "members").decoder

def enumDecl : Load TypeDecl :=
  ((fun name decor isIndirect generics conformances members =>
      { flavor := .enumType isIndirect, name, decor, generics, conformances, members }) <$>
    nameField <*> decorField <*> flag "is_indirect" <*> genericParams <*> conformances <*>
    nodesOf node "members").decoder

def protocolDecl : Load ProtocolDecl :=
  ((fun name decor conformances members => { name, decor, conformances, members }) <$>
    nameField <*> decorField <*> conformances <*> nodesOf node "members").decoder

def extensionDecl : Load ExtensionDecl :=
  ((fun extended decor conformances requirements members =>
      { extended, decor, conformances, requirements, members }) <$>
    required "extended" type <*> decorField <*> conformances <*> listOf "requirements" string <*>
    nodesOf node "members").decoder

/-- The alternatives of a literal. -/
def literal : Load Literal :=
  Variants.tagged [
    ("string", .content (Decoder.map .string string)),
    ("int", .content (Decoder.map .integer int64)),
    ("float", .content (Decoder.map .float double)),
    ("bool", .content (Decoder.map .boolean bool)),
    ("nil", .unit .nil),
    ("reference", .content (Decoder.map .reference string)),
    ("tuple", .content (Decoder.map .tuple (list node))),
    ("array", .content (Decoder.map .array (list node))),
    ("dictionary", .content
      (Decoder.map .dictionary (list (Decoder.map (fun (k, v) => ⟨k, v⟩) (pair node node)))))]

def enumCase : Load EnumCase :=
  ((fun name decor rawValue associatedValues => { name, decor, rawValue, associatedValues }) <$>
    nameField <*> decorField <*> nullableField "raw_value" (literal node) <*>
    listOf "associated_values" associatedValue).decoder.checked EnumCase.check

def param : Load Param :=
  ((fun label name ty default isInout isVariadic =>
      { head := { label, name, ty, isInout, isVariadic }, default }) <$>
    nullableField "label" string <*> nameField <*> required "ty" type <*>
    nullableField "default" node <*> flag "is_inout" <*> flag "is_variadic").decoder

def functionDecl : Load FunctionDecl :=
  ((fun name decor isStatic isOverride isMutating generics params effects returnType body =>
      { name, decor, isStatic, isOverride, isMutating, generics, params, effects, returnType, body }) <$>
    nameField <*> decorField <*> flag "is_static" <*> flag "is_override" <*> flag "is_mutating" <*>
    genericParams <*> listOf "params" (param node) <*> effectsField <*> returnType <*>
    nodesOf node "body").decoder

def initDecl : Load InitDecl :=
  ((fun decor isFailable isConvenience params effects body =>
      { decor, isFailable, isConvenience, params, effects, body }) <$>
    decorField <*> flag "is_failable" <*> flag "is_convenience" <*> listOf "params" (param node) <*>
    effectsField <*> nodesOf node "body").decoder

def property : Load Property :=
  ((fun name decor binding ty value isStatic isLazy isWeak getter =>
      { name, decor, binding, ty, value, isStatic, isLazy, isWeak, getter }) <$>
    nameField <*> decorField <*> withDefault "binding" .varBinding binding <*>
    nullableField "ty" type <*> nullableField "value" node <*> flag "is_static" <*>
    flag "is_lazy" <*> flag "is_weak" <*> nullableField "getter" (list node)).decoder.checked
    Property.check

def argument : Load Argument :=
  (Argument.mk <$> nullableField "label" string <*> required "value" node).decoder

def closure : Load Closure :=
  ((fun attributes captures params effects returnType body =>
      { head := { attributes, captures, params, effects, returnType }, body }) <$>
    listOf "attributes" attributeItem <*> listOf "captures" capture <*> listOf "params" closureParam <*>
    effectsField <*> returnType <*> nodesOf node "body").decoder

def call : Load Call :=
  (Call.mk <$> required "callee" node <*> listOf "args" (argument node) <*>
    nullableField "trailing_closure" (closure node) <*> withDefault "effects" {} callEffects).decoder

def member : Load Expr :=
  (Expr.member <$> nullableField "base" node <*> nameField).decoder

def binary : Load Binary :=
  (Binary.mk <$> required "lhs" node <*> required "op" string <*> required "rhs" node <*>
    flag "is_parenthesized").decoder

def unary : Load Expr :=
  (Expr.unary <$> required "op" string <*> required "operand" node).decoder

def postfixed : Load Expr :=
  (Expr.postfixed <$> required "operand" node <*> required "op" postfixMark).decoder

def assignment : Load Node :=
  (Node.assignment <$> required "target" node <*> required "op" string <*>
    required "value" node).decoder

def tupleAssignment : Load TupleAssignment :=
  (TupleAssignment.mk <$> required "names" (list string) <*> required "value" node <*>
    withDefault "mode" .sync assignmentMode).decoder.checked TupleAssignment.check

def condition : Load Condition :=
  Decoder.checked (Variants.tagged [
    ("expr", .content (Decoder.map .expr node)),
    ("binding", .content
      (Condition.binding <$> required "binding" binding <*> nameField <*>
        nullableField "value" node).objectDecoder),
    ("case", .content
      (Condition.caseMatch <$> required "pattern" node <*> required "value" node).objectDecoder)])
    Condition.check

/-- What follows the first branch of an `if`. -/
inductive Tail where
  | block (body : List Node)
  | next (chain : If)

/-- An `if` and what follows its first branch, as one chain. -/
def joinTail (conditions : List Condition) (body : List Node) : Option Tail → If
  | none => { first := ⟨conditions, body⟩ }
  | some (.block otherwise) => { first := ⟨conditions, body⟩, otherwise := some otherwise }
  | some (.next chain) =>
    { first := ⟨conditions, body⟩, elseIfs := chain.first :: chain.elseIfs,
      otherwise := chain.otherwise }

/-- The alternatives of what follows a branch; `chain` loads the branches after it. -/
def tailVariants (chain : Load If) : Variants Breach Tail := [
  ("block", .content (Decoder.map .block (list node))),
  ("if", .content (Decoder.map .next chain))]

/-- An `if` with at most `depth` branches inside each other. -/
def ifWithin : Nat → Load If
  | 0, _, _ => .error .malformed
  | depth + 1, mode, r =>
    (joinTail <$> required "conditions" (list (condition node)) <*> nodesOf node "then" <*>
      nullableField "otherwise" (tailVariants node (ifWithin depth)).tagged).decoder mode r

def guardStmt : Load Guard :=
  (Guard.mk <$> required "conditions" (list (condition node)) <*> nodesOf node "otherwise").decoder

def conditionLoop (style : LoopStyle) : Load ConditionLoop :=
  (ConditionLoop.mk style <$> required "condition" node <*> nodesOf node "body").decoder.checked
    ConditionLoop.check

def forIn : Load ForIn :=
  (ForIn.mk <$> required "pattern" node <*> required "sequence" node <*>
    nullableField "filter" node <*> nodesOf node "body").decoder.checked ForIn.check

def switchCase : Load SwitchCase :=
  (SwitchCase.mk <$> required "patterns" (list node) <*> nullableField "guard" node <*>
    nodesOf node "body").decoder.checked SwitchCase.check

def switchStmt : Load Switch :=
  (Switch.mk <$> required "subject" node <*> listOf "cases" (switchCase node) <*>
    nullableField "default" (list node)).decoder

def catchClause : Load Catch :=
  (Catch.mk <$> nullableField "pattern" node <*> nodesOf node "body").decoder.checked Catch.check

def doCatch : Load DoCatch :=
  (DoCatch.mk <$> nodesOf node "body" <*> listOf "catches" (catchClause node)).decoder

/-- The alternatives of a pattern; `pattern` loads the patterns inside it. -/
def patternVariants (pattern : Load Pattern) : Variants Breach Pattern := [
  ("identifier", .content (Decoder.map .identifier string)),
  ("case", .content
    (Pattern.enumCase <$> nameField <*> required "bindings" (list string)).objectDecoder),
  ("wildcard", .unit .wildcard),
  ("tuple", .content (Decoder.map .tuple (list pattern))),
  ("expression", .content (Decoder.map .expression node))]

/-- A pattern with at most `depth` patterns inside each other. -/
def patternWithin : Nat → Load Pattern
  | 0, _, _ => .error .malformed
  | depth + 1, mode, r => (patternVariants node (patternWithin depth)).tagged mode r

/-- A jump with an optional label. -/
def jump (kind : Jump) : Load Node :=
  (Node.jump kind <$> nullableField "label" string).decoder

/-- The alternatives of a node; `node` loads its children. -/
def nodeVariants : Variants Breach Node := [
  ("struct", .content (Decoder.map TypeDecl.node (structDecl node))),
  ("class", .content (Decoder.map TypeDecl.node (classDecl node))),
  ("enum", .content (Decoder.map TypeDecl.node (enumDecl node))),
  ("enum_case", .content (Decoder.map EnumCase.node (enumCase node))),
  ("protocol", .content (Decoder.map ProtocolDecl.node (protocolDecl node))),
  ("associated_type", .content (Decoder.map .associatedType associatedType)),
  ("extension", .content (Decoder.map ExtensionDecl.node (extensionDecl node))),
  ("function", .content (Decoder.map FunctionDecl.node (functionDecl node))),
  ("initializer", .content (Decoder.map InitDecl.node (initDecl node))),
  ("property", .content (Decoder.map Property.node (property node))),
  ("type_alias", .content (Decoder.map .typeAlias typeAlias)),
  ("import", .content (Decoder.map .importDecl importDecl)),
  ("literal", .content (Decoder.map Literal.node (literal node))),
  ("call", .content (Decoder.map Call.node (call node))),
  ("member", .content (Decoder.map .expression (member node))),
  ("infix", .content (Decoder.map Binary.node (binary node))),
  ("prefix", .content (Decoder.map .expression (unary node))),
  ("postfix", .content (Decoder.map .expression (postfixed node))),
  ("closure", .content (Decoder.map Closure.node (closure node))),
  ("assignment", .content (assignment node)),
  ("tuple_assignment", .content (Decoder.map TupleAssignment.node (tupleAssignment node))),
  ("if", .content (Decoder.map If.node (ifWithin node depthLimit))),
  ("guard", .content (Decoder.map Guard.node (guardStmt node))),
  ("while", .content (Decoder.map ConditionLoop.node (conditionLoop node .whileLoop))),
  ("repeat_while", .content (Decoder.map ConditionLoop.node (conditionLoop node .repeatWhile))),
  ("for_in", .content (Decoder.map ForIn.node (forIn node))),
  ("switch", .content (Decoder.map Switch.node (switchStmt node))),
  ("do_catch", .content (Decoder.map DoCatch.node (doCatch node))),
  ("return", .content (Node.returnStmt <$> nullableField "value" node).decoder),
  ("throw", .content (Node.throwStmt <$> required "error" node).decoder),
  ("break", .content (jump .breakOut)),
  ("continue", .content (jump .continueOn)),
  ("defer", .content (Node.deferStmt <$> nodesOf node "body").decoder),
  ("pattern", .content (Decoder.map .pattern (patternWithin node depthLimit))),
  ("comment", .content (Node.comment <$> required "text" string).decoder),
  ("blank", .unit .blank),
  ("raw", .content (Node.raw <$> required "code" string).decoder),
  ("empty", .unit .empty)]

end

/-- A node with at most `depth` nodes inside each other. -/
def nodeWithin : Nat → Load Node
  | 0, _, _ => .error .malformed
  | depth + 1, mode, r => (nodeVariants (nodeWithin depth)).tagged mode r

def node : Load Node := nodeWithin depthLimit

/-- A source file; keys it does not know are refused, repeated imports count once. -/
def sourceFile : Load SourceFile :=
  Fields.decoderWith .refuse
    ((fun header imports nodes =>
        { header, imports := SourceFile.distinct imports, nodes,
          imports_nodup := SourceFile.nodup_distinct imports }) <$>
      listOf "header" string <*> listOf "imports" string <*> nodesOf node "nodes")

/-! ### Whole texts -/

/-- Loads a whole text. Nothing but blanks may follow the value. -/
def loadText {α : Type} (d : Load α) (text : String) : Except LoadError α := do
  let (reading, isWhole) := Reading.ofText text.toList
  let value ← d .streamed reading
  if isWhole then pure value else .error .malformed

end Document

/-- What a document may hold. -/
inductive Document where
  | nodes (list : List Node)
  | file (source : SourceFile)

namespace Document

/-- Loads a document: a text that starts with a bracket is a list of nodes, any other a file. -/
def load (text : String) : Except LoadError Document :=
  if (Text.trimStart text.toList).head? = some '[' then
    (loadText (Decoder.list node) text).map .nodes
  else (loadText sourceFile text).map .file

def encode : Document → Json
  | .nodes list => .array (encodeNodes list)
  | .file source => source.encode

/-- The JSON text of a document. -/
def text (d : Document) : String := d.encode.text

/-- Whether the JSON text of a document loads as a document with the same JSON text. -/
def roundTrips (d : Document) : Bool :=
  match load d.text with
  | .ok reloaded => reloaded.text == d.text
  | .error _ => false

end Document

end SwiftForge
