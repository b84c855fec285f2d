import SwiftForge.Render.Node

/-!
Rendering with an indentation style. What a node is in expression or pattern position is a string: the statements of a
closure are written one level deep into the middle of it, and the string is cut into lines and indented again wherever
it ends up, maybe inside the statements of another closure.
-/

namespace SwiftForge

open Logged (warn)

namespace Written

/-! ### Texts -/

/-- A line of code. -/
def line (code : String) : Fragment := .line (Inline.ofText code)

/-- A block closed by a brace. -/
def braced (header : String) (body : List Fragment) : Fragment := .braced (Inline.ofText header) body

/-- Blocks whose headers close the block before them. -/
def chain (blocks : List (String × List Fragment)) : List Fragment :=
  Fragment.chain (blocks.map fun (header, body) => (Inline.ofText header, body))

/-- What replaces a node that cannot play its role. -/
def placeholder (kind : String) (role : Role) : Logged String := do
  warn (.unfit kind role)
  pure ""

/-- Statements written one level deep. -/
def nestedText (indent : Indent) (fragments : List Fragment) : String :=
  (Writer.emit { indent, level := 1 } fragments).buffer

/-- A closure with the given signature; `none` for an empty body. -/
def closureText (signature body : Option String) : String :=
  match signature, body with
  | none, none => "\x7b\x7d"
  | some signature, none => "\x7b " ++ signature ++ " \x7d"
  | none, some body => "\x7b\n" ++ body ++ "\x7d"
  | some signature, some body => "\x7b " ++ signature ++ "\n" ++ body ++ "\x7d"

/-- A call: without arguments, a trailing closure also takes the place of the parentheses. -/
def callText (lead callee : String) (args : List String) (trailing : Option String) : String :=
  let list := "(" ++ Text.joinWith ", " args ++ ")"
  match trailing with
  | none => lead ++ callee ++ list
  | some closure =>
    if args.isEmpty then lead ++ callee ++ " " ++ closure
    else lead ++ callee ++ list ++ " " ++ closure

/-- A parameter list between what stands before and after it. -/
def signatureText (lead : String) (params : List String) (trail : String) : String :=
  lead ++ "(" ++ Text.joinWith ", " params ++ ")" ++ trail

/-! ### Nodes -/

mutual

/-- The fragments of a node in statement position. -/
def fragments (indent : Indent) : Node → Logged (List Fragment)
  | .typeDecl head members => do
    let body ← statements indent members
    pure (head.decor.leading ++ [braced head.opening body])
  | .enumCase head value => do
    let raw ← rawValue indent value
    pure (head.decor.leading ++ [line (head.declared ++ raw)])
  | .protocolDecl head members => do
    let body ← requirements indent members
    pure (head.decor.leading ++ [braced head.opening body])
  | .associatedType decl => pure (decl.decor.leading ++ [line decl.text])
  | .extensionDecl head members => do
    let body ← statements indent members
    pure (head.decor.leading ++ [braced head.opening body])
  | .function head list body => do
    let params ← params indent list
    let body ← statements indent body
    pure (head.decor.leading ++ [braced (signatureText head.lead params head.trail ++ " \x7b") body])
  | .initializer head list body => do
    let params ← params indent list
    let body ← statements indent body
    pure (head.decor.leading ++ [braced (signatureText head.lead params head.trail ++ " \x7b") body])
  | .property head _ (some getter) => do
    let body ← statements indent getter
    pure (head.decor.leading ++ [braced (head.lead ++ " \x7b") body])
  | .property head value none => do
    let value ← optional indent " = " .propertyValue value
    pure (head.decor.leading ++ [line (head.lead ++ value)])
  | .typeAlias decl => pure (decl.decor.leading ++ [line decl.text])
  | .importDecl decl => pure (decl.decor.leading ++ [line decl.text])
  | .expression e => do
    let text ← expr indent e
    pure [line text]
  | .assignment target op value => do
    let target ← text indent target .assignmentTarget
    let value ← text indent value .assignedValue
    pure [line (target ++ " " ++ op ++ " " ++ value)]
  | .tupleAssignment names value mode => do
    let value ← text indent value .tupleValue
    pure [line (mode.bindingKeyword ++ " " ++ bindingTarget names ++ " = " ++ mode.valueLead ++ value)]
  | .ifStmt ⟨list, body⟩ elseIfs otherwise => do
    checkConditions "if" list
    let header ← conditions indent list
    let body ← statements indent body
    let middle ← elseIfBlocks indent elseIfs
    let last ← elseBlock indent otherwise
    pure (chain (("if " ++ Text.joinWith ", " header ++ " \x7b", body) :: middle ++ last))
  | .guardStmt list otherwise => do
    checkConditions "guard" list
    let header ← conditions indent list
    let body ← statements indent otherwise
    pure [braced ("guard " ++ Text.joinWith ", " header ++ " else \x7b") body]
  | .loop style condition body => do
    let condition ← text indent condition .loopCondition
    let body ← statements indent body
    match style with
    | .whileLoop => pure [braced ("while " ++ condition ++ " \x7b") body]
    | .repeatWhile =>
      pure [.block (Inline.ofText "repeat \x7b") body (some (Inline.ofText ("\x7d while " ++ condition)))]
  | .forIn (.pattern p) sequence filter body => do
    let binding ← bindingPattern indent p
    let sequence ← text indent sequence .loopSequence
    let filter ← optional indent " where " .loopFilter filter
    let body ← statements indent body
    pure [braced ("for " ++ binding ++ " in " ++ sequence ++ filter ++ " \x7b") body]
  | .forIn node sequence filter body => do
    let binding ← text indent node .loopPattern
    let sequence ← text indent sequence .loopSequence
    let filter ← optional indent " where " .loopFilter filter
    let body ← statements indent body
    pure [braced ("for case " ++ binding ++ " in " ++ sequence ++ filter ++ " \x7b") body]
  | .switchStmt subject cases default => do
    let subject ← text indent subject .switchSubject
    let clauses ← switchClauses indent cases
    let last ← defaultClause indent default
    pure (line ("switch " ++ subject ++ " \x7b") :: clauses ++ last ++ [line "\x7d"])
  | .doCatch body catches => do
    let body ← statements indent body
    let clauses ← catchBlocks indent catches
    pure (chain (("do \x7b", body) :: clauses))
  | .returnStmt value => do
    let value ← optional indent " " .returnValue value
    pure [line ("return" ++ value)]
  | .throwStmt error => do
    let error ← text indent error .thrownError
    pure [line ("throw " ++ error)]
  | .jump kind label => pure [line (Jump.text kind.keyword label)]
  | .deferStmt body => do
    let body ← statements indent body
    pure [braced "defer \x7b" body]
  | .pattern _ => do
    warn .strayPattern
    pure []
  | .comment text => pure (Fragment.comments text)
  | .blank => pure [.blank]
  | .raw code => pure [line code]
  | .empty => pure []

/-- The fragments of nodes in statement position, in order. -/
def statements (indent : Indent) : List Node → Logged (List Fragment)
  | [] => pure []
  | node :: rest => do
    let here ← fragments indent node
    let after ← statements indent rest
    pure (here ++ after)

/-- The members of a protocol: functions, initializers and properties without their bodies. -/
def requirements (indent : Indent) : List Node → Logged (List Fragment)
  | [] => pure []
  | .function head list body :: rest => do
    if !body.isEmpty then warn (.requirementBody head.name)
    let params ← params indent list
    let after ← requirements indent rest
    pure (head.decor.leading ++ line (signatureText head.lead params head.trail) :: after)
  | .initializer head list _ :: rest => do
    let params ← params indent list
    let after ← requirements indent rest
    pure (head.decor.leading ++ line (signatureText head.lead params head.trail) :: after)
  | .property head _ getter :: rest => do
    let after ← requirements indent rest
    pure (head.decor.leading ++ line (head.requirement getter.isSome) :: after)
  | node :: rest => do
    let here ← fragments indent node
    let after ← requirements indent rest
    pure (here ++ after)

/-- A raw value with its equals sign. -/
def rawValue (indent : Indent) : Option Literal → Logged String
  | none => pure ""
  | some value => do
    let value ← literal indent value
    pure (" = " ++ value)

/-- An optional child in expression position, after `lead`. -/
def optional (indent : Indent) (lead : String) (role : Role) : Option Node → Logged String
  | none => pure ""
  | some node => do
    let text ← text indent node role
    pure (lead ++ text)

/-- Parameters with their default values. -/
def params (indent : Indent) : List Param → Logged (List String)
  | [] => pure []
  | ⟨head, default⟩ :: rest => do
    let default ← optional indent " = " .defaultArgument default
    let after ← params indent rest
    pure ((head.text ++ default) :: after)

/-- The clauses of a condition list. -/
def conditions (indent : Indent) : List Condition → Logged (List String)
  | [] => pure []
  | first :: rest => do
    let here ← condition indent first
    let after ← conditions indent rest
    pure (here :: after)

/-- One clause of a condition list. -/
def condition (indent : Indent) : Condition → Logged String
  | .expr value => text indent value .condition
  | .binding binding name value => do
    let value ← optional indent " = " .boundValue value
    pure (binding.keyword ++ " " ++ name ++ value)
  | .caseMatch pattern value => do
    let pattern ← text indent pattern .caseCondition
    let value ← text indent value .matchedValue
    pure ("case " ++ pattern ++ " = " ++ value)

/-- The headers and bodies of `else if` branches. -/
def elseIfBlocks (indent : Indent) : List Branch → Logged (List (String × List Fragment))
  | [] => pure []
  | ⟨list, body⟩ :: rest => do
    checkConditions "if" list
    let header ← conditions indent list
    let body ← statements indent body
    let after ← elseIfBlocks indent rest
    pure (("\x7d else if " ++ Text.joinWith ", " header ++ " \x7b", body) :: after)

/-- The block of an `else`, if there is one. -/
def elseBlock (indent : Indent) : Option (List Node) → Logged (List (String × List Fragment))
  | none => pure []
  | some body => do
    let body ← statements indent body
    pure [("\x7d else \x7b", body)]

/-- The clauses of a `switch`: a label and an indented body each. -/
def switchClauses (indent : Indent) : List SwitchCase → Logged (List Fragment)
  | [] => pure []
  | ⟨patterns, guard, body⟩ :: rest => do
    let patterns ← texts indent .casePattern patterns
    let guard ← optional indent " where " .caseGuard guard
    let body ← statements indent body
    let after ← switchClauses indent rest
    pure (line ("case " ++ Text.joinWith ", " patterns ++ guard ++ ":") :: clauseBody body :: after)

/-- The `default` clause of a `switch`, if there is one. -/
def defaultClause (indent : Indent) : Option (List Node) → Logged (List Fragment)
  | none => pure []
  | some body => do
    let body ← statements indent body
    pure [line "default:", clauseBody body]

/-- The headers and bodies of `catch` clauses. -/
def catchBlocks (indent : Indent) : List Catch → Logged (List (String × List Fragment))
  | [] => pure []
  | ⟨pattern, body⟩ :: rest => do
    let pattern ← optional indent " " .catchPattern pattern
    let body ← statements indent body
    let after ← catchBlocks indent rest
    pure (("\x7d catch" ++ pattern ++ " \x7b", body) :: after)

/-- The text of a node where its parent wants an expression or a pattern. -/
def text (indent : Indent) : Node → Role → Logged String
  | .expression (.closure k), role => if role.wantsPattern then placeholder "closure" role else closure indent k
  | .expression e, _ => expr indent e
  | .enumCase head _, role => pure (head.applied (if role.wantsPattern then "let " else ""))
  | .raw code, _ => pure code
  | .pattern p, role => if role.wantsPattern then pattern indent p else placeholder "pattern" role
  | node, role => placeholder node.kindName role

/-- Nodes that play one role, in order. -/
def texts (indent : Indent) (role : Role) : List Node → Logged (List String)
  | [] => pure []
  | node :: rest => do
    let here ← text indent node role
    let after ← texts indent role rest
    pure (here :: after)

def expr (indent : Indent) : Expr → Logged String
  | .literal value => literal indent value
  | .call callee args trailing effects => do
    let callee ← text indent callee .callee
    let args ← arguments indent args
    let trailing ← trailingClosure indent trailing
    pure (callText effects.lead callee args trailing)
  | .member base name => do
    let base ← optional indent "" .memberBase base
    pure (base ++ "." ++ name)
  | .binary lhs op rhs isParenthesized => do
    let lhs ← text indent lhs .operand
    let rhs ← text indent rhs .operand
    let text := lhs ++ " " ++ op ++ " " ++ rhs
    pure (if isParenthesized then "(" ++ text ++ ")" else text)
  | .unary op operand => do
    let operand ← text indent operand .operand
    pure (op ++ operand)
  | .postfixed operand mark => do
    let operand ← text indent operand .operand
    pure (operand ++ mark.text)
  | .closure k => closure indent k

def literal (indent : Indent) : Literal → Logged String
  | .string value => pure (swiftString value)
  | .integer value => pure (Decimal.intText value.toInt)
  | .float value => pure (swiftFloat value)
  | .boolean value => pure (swiftBool value)
  | .nil => pure "nil"
  | .reference name => pure name
  | .tuple elements => do
    let elements ← texts indent .tupleElement elements
    pure ("(" ++ Text.joinWith ", " elements ++ ")")
  | .array elements => do
    let elements ← texts indent .arrayElement elements
    pure ("[" ++ Text.joinWith ", " elements ++ "]")
  | .dictionary list => do
    let texts ← entries indent list
    pure (if texts.isEmpty then "[:]" else "[" ++ Text.joinWith ", " texts ++ "]")

def entries (indent : Indent) : List Entry → Logged (List String)
  | [] => pure []
  | ⟨key, value⟩ :: rest => do
    let key ← text indent key .dictionaryKey
    let value ← text indent value .dictionaryValue
    let after ← entries indent rest
    pure ((key ++ ": " ++ value) :: after)

/-- The arguments of a call. -/
def arguments (indent : Indent) : List Argument → Logged (List String)
  | [] => pure []
  | ⟨label, value⟩ :: rest => do
    let value ← text indent value .callArgument
    let after ← arguments indent rest
    let lead :=
      match label with
      | some label => label ++ ": "
      | none => ""
    pure ((lead ++ value) :: after)

/-- A closure after a call. -/
def trailingClosure (indent : Indent) : Option Closure → Logged (Option String)
  | none => pure none
  | some k => do
    let text ← closure indent k
    pure (some text)

/-- The text of a closure: its body is written one level deep. -/
def closure (indent : Indent) : Closure → Logged String
  | ⟨head, body⟩ => do
    let fragments ← statements indent body
    pure (closureText head.signature? (if body.isEmpty then none else some (nestedText indent fragments)))

/-- The text of a pattern; names are bound with `let`. -/
def pattern (indent : Indent) : Pattern → Logged String
  | .identifier name => pure ("let " ++ name)
  | .enumCase name bindings => pure (casePatternText name bindings)
  | .wildcard => pure "_"
  | .tuple elements => do
    let elements ← patterns indent elements
    pure ("(" ++ Text.joinWith ", " elements ++ ")")
  | .expression value => text indent value .expressionPattern

def patterns (indent : Indent) : List Pattern → Logged (List String)
  | [] => pure []
  | first :: rest => do
    let here ← pattern indent first
    let after ← patterns indent rest
    pure (here :: after)

/-- The text of a pattern after `for`, where names are bound without `let`. -/
def bindingPattern (indent : Indent) : Pattern → Logged String
  | .identifier name => pure name
  | .enumCase name bindings => pure ("case " ++ casePatternText name bindings)
  | .wildcard => pure "_"
  | .tuple elements => do
    let elements ← bindingPatterns indent elements
    pure ("(" ++ Text.joinWith ", " elements ++ ")")
  | .expression value => do
    let text ← text indent value .expressionPattern
    pure ("case " ++ text)

/-- Patterns after `for`, in order. -/
def bindingPatterns (indent : Indent) : List Pattern → Logged (List String)
  | [] => pure []
  | first :: rest => do
    let here ← bindingPattern indent first
    let after ← bindingPatterns indent rest
    pure (here :: after)

end

end Written

/-- The text of nodes in statement position, and the warnings. -/
def render (indent : Indent) (nodes : List Node) : Logged String := do
  let fragments ← Written.statements indent nodes
  pure (Writer.text indent fragments)

/-- The text of a node in expression or pattern position, and the warnings. -/
def renderInline (indent : Indent) (role : Role) (node : Node) : Logged String := Written.text indent node role

end SwiftForge
