import SwiftForge.Layout.Writer
import SwiftForge.Render.Header
import SwiftForge.Render.Warning
import SwiftForge.Tree.Kind

/-!
The layout of a rendered tree. A node in statement position becomes fragments; a node in expression
or pattern position becomes inline text. Nothing here depends on the indentation style: the lines
inside a closure keep a depth of their own, where rendering with a style writes them early.
-/

namespace SwiftForge

open Logged (warn)

/-- What replaces a node that cannot play its role. -/
def placeholder (kind : String) (role : Role) : Logged Inline := do
  warn (.unfit kind role)
  pure ∅

/-- A closure with the given signature; `none` for an empty body. -/
def closureInline (signature : Option String) (body : Option (List Line)) : Inline :=
  match signature, body with
  | none, none => "\x7b\x7d"
  | some signature, none => "\x7b " ++ signature ++ " \x7d"
  | none, some body => Inline.block "\x7b" body "\x7d"
  | some signature, some body => Inline.block ("\x7b " ++ signature) body "\x7d"

/-- A call: without arguments, a trailing closure also takes the place of the parentheses. -/
def callInline (lead : String) (callee : Inline) (args : List Inline) (trailing : Option Inline) :
    Inline :=
  let list : Inline := "(" ++ Inline.joinWith ", " args ++ ")"
  match trailing with
  | none => lead ++ callee ++ list
  | some closure =>
    if args.isEmpty then lead ++ callee ++ " " ++ closure
    else lead ++ callee ++ list ++ " " ++ closure

/-- A parameter list between what stands before and after it. -/
def signatureInline (lead : String) (params : List Inline) (trail : String) : Inline :=
  lead ++ "(" ++ Inline.joinWith ", " params ++ ")" ++ trail

/-- The body of a `switch` clause: Swift wants at least one statement there. -/
def clauseBody (body : List Fragment) : Fragment :=
  .indented (if body.isEmpty then [.line "break"] else body)

/-- Warns about a condition list that is empty. -/
def checkConditions (keyword : String) (conditions : List Condition) : Logged Unit :=
  if conditions.isEmpty then warn (.noConditions keyword) else pure ()

mutual

/-- The fragments of a node in statement position. -/
def Node.fragments : Node → Logged (List Fragment)
  | .typeDecl head members => do
    let body ← statements members
    pure (head.decor.leading ++ [.braced head.opening body])
  | .enumCase head rawValue => do
    let raw ← rawValueInline rawValue
    pure (head.decor.leading ++ [.line (head.declared ++ raw)])
  | .protocolDecl head members => do
    let body ← requirements members
    pure (head.decor.leading ++ [.braced head.opening body])
  | .associatedType decl => pure (decl.decor.leading ++ [.line decl.text])
  | .extensionDecl head members => do
    let body ← statements members
    pure (head.decor.leading ++ [.braced head.opening body])
  | .function head params body => do
    let params ← paramInlines params
    let body ← statements body
    pure (head.decor.leading ++ [.braced (signatureInline head.lead params head.trail ++ " \x7b") body])
  | .initializer head params body => do
    let params ← paramInlines params
    let body ← statements body
    pure (head.decor.leading ++ [.braced (signatureInline head.lead params head.trail ++ " \x7b") body])
  | .property head _ (some getter) => do
    let body ← statements getter
    pure (head.decor.leading ++ [.braced (head.lead ++ " \x7b") body])
  | .property head value none => do
    let value ← optionalInline " = " .propertyValue value
    pure (head.decor.leading ++ [.line (head.lead ++ value)])
  | .typeAlias decl => pure (decl.decor.leading ++ [.line decl.text])
  | .importDecl decl => pure (decl.decor.leading ++ [.line decl.text])
  | .expression expr => do
    let text ← expr.inline
    pure [.line text]
  | .assignment target op value => do
    let target ← target.inline .assignmentTarget
    let value ← value.inline .assignedValue
    pure [.line (target ++ " " ++ op ++ " " ++ value)]
  | .tupleAssignment names value mode => do
    let value ← value.inline .tupleValue
    pure [.line (mode.bindingKeyword ++ " " ++ bindingTarget names ++ " = " ++ mode.valueLead ++ value)]
  | .ifStmt ⟨conditions, body⟩ elseIfs otherwise => do
    checkConditions "if" conditions
    let header ← conditionInlines conditions
    let body ← statements body
    let middle ← elseIfBlocks elseIfs
    let last ← elseBlock otherwise
    pure (Fragment.chain
      (("if " ++ Inline.joinWith ", " header ++ " \x7b", body) :: middle ++ last))
  | .guardStmt conditions otherwise => do
    checkConditions "guard" conditions
    let header ← conditionInlines conditions
    let body ← statements otherwise
    pure [.braced ("guard " ++ Inline.joinWith ", " header ++ " else \x7b") body]
  | .loop style condition body => do
    let condition ← condition.inline .loopCondition
    let body ← statements body
    match style with
    | .whileLoop => pure [.braced ("while " ++ condition ++ " \x7b") body]
    | .repeatWhile => pure [.block "repeat \x7b" body (some ("\x7d while " ++ condition))]
  | .forIn (.pattern pattern) sequence filter body => do
    let binding ← pattern.bindingInline
    let sequence ← sequence.inline .loopSequence
    let filter ← optionalInline " where " .loopFilter filter
    let body ← statements body
    pure [.braced ("for " ++ binding ++ " in " ++ sequence ++ filter ++ " \x7b") body]
  | .forIn pattern sequence filter body => do
    let binding ← pattern.inline .loopPattern
    let sequence ← sequence.inline .loopSequence
    let filter ← optionalInline " where " .loopFilter filter
    let body ← statements body
    pure [.braced ("for case " ++ binding ++ " in " ++ sequence ++ filter ++ " \x7b") body]
  | .switchStmt subject cases default => do
    let subject ← subject.inline .switchSubject
    let clauses ← switchClauses cases
    let last ← defaultClause default
    pure (.line ("switch " ++ subject ++ " \x7b") :: clauses ++ last ++ [.line "\x7d"])
  | .doCatch body catches => do
    let body ← statements body
    let clauses ← catchBlocks catches
    pure (Fragment.chain (("do \x7b", body) :: clauses))
  | .returnStmt value => do
    let value ← optionalInline " " .returnValue value
    pure [.line ("return" ++ value)]
  | .throwStmt error => do
    let error ← error.inline .thrownError
    pure [.line ("throw " ++ error)]
  | .jump kind label => pure [.line (Jump.text kind.keyword label)]
  | .deferStmt body => do
    let body ← statements body
    pure [.braced "defer \x7b" body]
  | .pattern _ => do
    warn .strayPattern
    pure []
  | .comment text => pure (Fragment.comments text)
  | .blank => pure [.blank]
  | .raw code => pure [.line code]
  | .empty => pure []

/-- The fragments of nodes in statement position, in order. -/
def statements : List Node → Logged (List Fragment)
  | [] => pure []
  | node :: rest => do
    let here ← node.fragments
    let after ← statements rest
    pure (here ++ after)

/-- The members of a protocol: functions, initializers and properties without their bodies. -/
def requirements : List Node → Logged (List Fragment)
  | [] => pure []
  | .function head params body :: rest => do
    if !body.isEmpty then warn (.requirementBody head.name)
    let params ← paramInlines params
    let after ← requirements rest
    pure (head.decor.leading ++ .line (signatureInline head.lead params head.trail) :: after)
  | .initializer head params _ :: rest => do
    let params ← paramInlines params
    let after ← requirements rest
    pure (head.decor.leading ++ .line (signatureInline head.lead params head.trail) :: after)
  | .property head _ getter :: rest => do
    let after ← requirements rest
    pure (head.decor.leading ++ .line (head.requirement getter.isSome) :: after)
  | node :: rest => do
    let here ← node.fragments
    let after ← requirements rest
    pure (here ++ after)

/-- A raw value with its equals sign. -/
def rawValueInline : Option Literal → Logged Inline
  | none => pure ∅
  | some value => do
    let value ← value.inline
    pure (" = " ++ value)

/-- An optional child in expression position, after `lead`. -/
def optionalInline (lead : String) (role : Role) : Option Node → Logged Inline
  | none => pure ∅
  | some node => do
    let text ← node.inline role
    pure (lead ++ text)

/-- Parameters with their default values. -/
def paramInlines : List Param → Logged (List Inline)
  | [] => pure []
  | ⟨head, default⟩ :: rest => do
    let default ← optionalInline " = " .defaultArgument default
    let after ← paramInlines rest
    pure ((head.text ++ default) :: after)

/-- The clauses of a condition list. -/
def conditionInlines : List Condition → Logged (List Inline)
  | [] => pure []
  | condition :: rest => do
    let here ← condition.inline
    let after ← conditionInlines rest
    pure (here :: after)

/-- One clause of a condition list. -/
def Condition.inline : Condition → Logged Inline
  | .expr value => value.inline .condition
  | .binding binding name value => do
    let value ← optionalInline " = " .boundValue value
    pure (binding.keyword ++ " " ++ name ++ value)
  | .caseMatch pattern value => do
    let pattern ← pattern.inline .caseCondition
    let value ← value.inline .matchedValue
    pure ("case " ++ pattern ++ " = " ++ value)

/-- The headers and bodies of `else if` branches. -/
def elseIfBlocks : List Branch → Logged (List (Inline × List Fragment))
  | [] => pure []
  | ⟨conditions, body⟩ :: rest => do
    checkConditions "if" conditions
    let header ← conditionInlines conditions
    let body ← statements body
    let after ← elseIfBlocks rest
    pure (("\x7d else if " ++ Inline.joinWith ", " header ++ " \x7b", body) :: after)

/-- The block of an `else`, if there is one. -/
def elseBlock : Option (List Node) → Logged (List (Inline × List Fragment))
  | none => pure []
  | some body => do
    let body ← statements body
    pure [("\x7d else \x7b", body)]

/-- The clauses of a `switch`: a label and an indented body each. -/
def switchClauses : List SwitchCase → Logged (List Fragment)
  | [] => pure []
  | ⟨patterns, guard, body⟩ :: rest => do
    let patterns ← inlines .casePattern patterns
    let guard ← optionalInline " where " .caseGuard guard
    let body ← statements body
    let after ← switchClauses rest
    pure (.line ("case " ++ Inline.joinWith ", " patterns ++ guard ++ ":") :: clauseBody body :: after)

/-- The `default` clause of a `switch`, if there is one. -/
def defaultClause : Option (List Node) → Logged (List Fragment)
  | none => pure []
  | some body => do
    let body ← statements body
    pure [.line "default:", clauseBody body]

/-- The headers and bodies of `catch` clauses. -/
def catchBlocks : List Catch → Logged (List (Inline × List Fragment))
  | [] => pure []
  | ⟨pattern, body⟩ :: rest => do
    let pattern ← optionalInline " " .catchPattern pattern
    let body ← statements body
    let after ← catchBlocks rest
    pure (("\x7d catch" ++ pattern ++ " \x7b", body) :: after)

/-- The text of a node where its parent wants an expression or a pattern. -/
def Node.inline : Node → Role → Logged Inline
  | .expression (.closure closure), role =>
    if role.wantsPattern then placeholder "closure" role else closure.inline
  | .expression expr, _ => expr.inline
  | .enumCase head _, role => pure (head.applied (if role.wantsPattern then "let " else ""))
  | .raw code, _ => pure code
  | .pattern pattern, role => if role.wantsPattern then pattern.inline else placeholder "pattern" role
  | node, role => placeholder node.kindName role

/-- Nodes that play one role, in order. -/
def inlines (role : Role) : List Node → Logged (List Inline)
  | [] => pure []
  | node :: rest => do
    let here ← node.inline role
    let after ← inlines role rest
    pure (here :: after)

def Expr.inline : Expr → Logged Inline
  | .literal value => value.inline
  | .call callee args trailing effects => do
    let callee ← callee.inline .callee
    let args ← argumentInlines args
    let trailing ← trailingInline trailing
    pure (callInline effects.lead callee args trailing)
  | .member base name => do
    let base ← optionalInline "" .memberBase base
    pure (base ++ "." ++ name)
  | .binary lhs op rhs isParenthesized => do
    let lhs ← lhs.inline .operand
    let rhs ← rhs.inline .operand
    let text : Inline := lhs ++ " " ++ op ++ " " ++ rhs
    pure (if isParenthesized then "(" ++ text ++ ")" else text)
  | .unary op operand => do
    let operand ← operand.inline .operand
    pure (op ++ operand)
  | .postfixed operand mark => do
    let operand ← operand.inline .operand
    pure (operand ++ mark.text)
  | .closure closure => closure.inline

def Literal.inline : Literal → Logged Inline
  | .string value => pure (swiftString value)
  | .integer value => pure (Decimal.intText value.toInt)
  | .float value => pure (swiftFloat value)
  | .boolean value => pure (swiftBool value)
  | .nil => pure "nil"
  | .reference name => pure name
  | .tuple elements => do
    let elements ← inlines .tupleElement elements
    pure ("(" ++ Inline.joinWith ", " elements ++ ")")
  | .array elements => do
    let elements ← inlines .arrayElement elements
    pure ("[" ++ Inline.joinWith ", " elements ++ "]")
  | .dictionary entries => do
    let texts ← entryInlines entries
    pure (if texts.isEmpty then "[:]" else "[" ++ Inline.joinWith ", " texts ++ "]")

def entryInlines : List Entry → Logged (List Inline)
  | [] => pure []
  | ⟨key, value⟩ :: rest => do
    let key ← key.inline .dictionaryKey
    let value ← value.inline .dictionaryValue
    let after ← entryInlines rest
    pure ((key ++ ": " ++ value) :: after)

/-- The arguments of a call. -/
def argumentInlines : List Argument → Logged (List Inline)
  | [] => pure []
  | ⟨label, value⟩ :: rest => do
    let value ← value.inline .callArgument
    let after ← argumentInlines rest
    let lead :=
      match label with
      | some label => label ++ ": "
      | none => ""
    pure ((lead ++ value) :: after)

/-- A closure after a call. -/
def trailingInline : Option Closure → Logged (Option Inline)
  | none => pure none
  | some closure => do
    let text ← closure.inline
    pure (some text)

/-- The text of a closure: its body is laid out one level deeper. -/
def Closure.inline : Closure → Logged Inline
  | ⟨head, body⟩ => do
    let fragments ← statements body
    let lines := if body.isEmpty then none else some (Fragment.linesOf 0 fragments)
    pure (closureInline head.signature? lines)

/-- The text of a pattern; names are bound with `let`. -/
def Pattern.inline : Pattern → Logged Inline
  | .identifier name => pure ("let " ++ name)
  | .enumCase name bindings => pure (casePatternText name bindings)
  | .wildcard => pure "_"
  | .tuple elements => do
    let elements ← patternInlines elements
    pure ("(" ++ Inline.joinWith ", " elements ++ ")")
  | .expression value => value.inline .expressionPattern

def patternInlines : List Pattern → Logged (List Inline)
  | [] => pure []
  | pattern :: rest => do
    let here ← pattern.inline
    let after ← patternInlines rest
    pure (here :: after)

/-- The text of a pattern after `for`, where names are bound without `let`. -/
def Pattern.bindingInline : Pattern → Logged Inline
  | .identifier name => pure name
  | .enumCase name bindings => pure ("case " ++ casePatternText name bindings)
  | .wildcard => pure "_"
  | .tuple elements => do
    let elements ← bindingInlines elements
    pure ("(" ++ Inline.joinWith ", " elements ++ ")")
  | .expression value => do
    let text ← value.inline .expressionPattern
    pure ("case " ++ text)

/-- Patterns after `for`, in order. -/
def bindingInlines : List Pattern → Logged (List Inline)
  | [] => pure []
  | pattern :: rest => do
    let here ← pattern.bindingInline
    let after ← bindingInlines rest
    pure (here :: after)

end

theorem value_statements_append (a b : List Node) :
    (statements (a ++ b)).value = (statements a).value ++ (statements b).value := by
  induction a with
  | nil => rfl
  | cons node rest ih => simp [statements, ih]

theorem warnings_statements_append (a b : List Node) :
    (statements (a ++ b)).warnings = (statements a).warnings ++ (statements b).warnings := by
  induction a with
  | nil => rfl
  | cons node rest ih => simp [statements, ih]

/-- The members of a protocol are rendered one by one. -/
theorem value_requirements_cons (node : Node) (rest : List Node) :
    (requirements (node :: rest)).value = (requirements [node]).value ++ (requirements rest).value := by
  cases node with
  | function head params body => cases body <;> simp [requirements]
  | _ => simp [requirements]

theorem warnings_requirements_cons (node : Node) (rest : List Node) :
    (requirements (node :: rest)).warnings = (requirements [node]).warnings ++ (requirements rest).warnings := by
  cases node with
  | function head params body => cases body <;> simp [requirements]
  | _ => simp [requirements]

/-- Whether a node has the capability that a role wants. -/
def Role.fits (role : Role) (node : Node) : Bool :=
  if role.wantsPattern then node.isPattern else node.isExpression

namespace Node

/-- A node that does not fit its role is replaced. -/
theorem inline_of_unfit {n : Node} {role : Role} (h : role.fits n = false) :
    n.inline role = placeholder n.kindName role := by
  cases n with
  | expression e =>
    cases e with
    | closure k =>
      have hrole : role.wantsPattern = true := by simpa [Role.fits, isPattern, isExpression, Expr.isPattern] using h
      simp [Node.inline, hrole, kindName, Expr.kindName]
    | _ => simp [Role.fits, isPattern, Expr.isPattern, isExpression] at h
  | pattern p =>
    have hrole : role.wantsPattern = false := by simpa [Role.fits, isPattern, isExpression] using h
    simp [Node.inline, hrole, kindName]
  | enumCase head rawValue => simp [Role.fits, isPattern, isExpression] at h
  | raw code => simp [Role.fits, isPattern, isExpression] at h
  | _ => rfl

theorem inline_expression {e : Expr} {role : Role} (h : role.fits (.expression e) = true) :
    (expression e).inline role = e.inline := by
  cases e with
  | closure k =>
    have hrole : role.wantsPattern = false := by simpa [Role.fits, isPattern, isExpression, Expr.isPattern] using h
    simp [Node.inline, Expr.inline, hrole]
  | _ => rfl

theorem inline_pattern {p : Pattern} {role : Role} (h : role.fits (.pattern p) = true) :
    (pattern p).inline role = p.inline := by
  have hrole : role.wantsPattern = true := by simpa [Role.fits, isPattern, isExpression] using h
  rw [Node.inline, if_pos hrole]

end Node

end SwiftForge
