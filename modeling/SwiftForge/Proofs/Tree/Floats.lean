import SwiftForge.Proofs.Tree.Parts
import SwiftForge.Tree.SourceFile

/-! Trees with other floats. Changing the floats of a tree touches nothing else: the parts stay in their order, each
    with its floats changed, and they break the same rules, since no rule looks at the value of a literal. -/

namespace SwiftForge

mutual

/-- A node with other floats. -/
def Node.mapFloats (f : Double → Double) : Node → Node
  | .typeDecl head members => .typeDecl head (nodesWithFloats f members)
  | .enumCase head rawValue => .enumCase head (literalWithFloats? f rawValue)
  | .protocolDecl head members => .protocolDecl head (nodesWithFloats f members)
  | .extensionDecl head members => .extensionDecl head (nodesWithFloats f members)
  | .function head params body => .function head (paramsWithFloats f params) (nodesWithFloats f body)
  | .initializer head params body => .initializer head (paramsWithFloats f params) (nodesWithFloats f body)
  | .property head value getter => .property head (nodeWithFloats? f value) (blockWithFloats? f getter)
  | .expression expr => .expression (expr.mapFloats f)
  | .assignment target op value => .assignment (target.mapFloats f) op (value.mapFloats f)
  | .tupleAssignment names value mode => .tupleAssignment names (value.mapFloats f) mode
  | .ifStmt first elseIfs otherwise =>
    .ifStmt (first.mapFloats f) (branchesWithFloats f elseIfs) (blockWithFloats? f otherwise)
  | .guardStmt conditions otherwise => .guardStmt (conditionsWithFloats f conditions) (nodesWithFloats f otherwise)
  | .loop style condition body => .loop style (condition.mapFloats f) (nodesWithFloats f body)
  | .forIn pattern sequence filter body =>
    .forIn (pattern.mapFloats f) (sequence.mapFloats f) (nodeWithFloats? f filter) (nodesWithFloats f body)
  | .switchStmt subject cases default =>
    .switchStmt (subject.mapFloats f) (casesWithFloats f cases) (blockWithFloats? f default)
  | .doCatch body catches => .doCatch (nodesWithFloats f body) (catchesWithFloats f catches)
  | .returnStmt value => .returnStmt (nodeWithFloats? f value)
  | .throwStmt error => .throwStmt (error.mapFloats f)
  | .deferStmt body => .deferStmt (nodesWithFloats f body)
  | .pattern p => .pattern (p.mapFloats f)
  | node => node

def nodesWithFloats (f : Double → Double) : List Node → List Node
  | [] => []
  | node :: rest => node.mapFloats f :: nodesWithFloats f rest

def blockWithFloats? (f : Double → Double) : Option (List Node) → Option (List Node)
  | none => none
  | some body => some (nodesWithFloats f body)

def nodeWithFloats? (f : Double → Double) : Option Node → Option Node
  | none => none
  | some node => some (node.mapFloats f)

def literalWithFloats? (f : Double → Double) : Option Literal → Option Literal
  | none => none
  | some literal => some (literal.mapFloats f)

def Param.mapFloats (f : Double → Double) : Param → Param
  | ⟨head, default⟩ => ⟨head, nodeWithFloats? f default⟩

def paramsWithFloats (f : Double → Double) : List Param → List Param
  | [] => []
  | param :: rest => param.mapFloats f :: paramsWithFloats f rest

def Condition.mapFloats (f : Double → Double) : Condition → Condition
  | .expr value => .expr (value.mapFloats f)
  | .binding binding name value => .binding binding name (nodeWithFloats? f value)
  | .caseMatch pattern value => .caseMatch (pattern.mapFloats f) (value.mapFloats f)

def conditionsWithFloats (f : Double → Double) : List Condition → List Condition
  | [] => []
  | condition :: rest => condition.mapFloats f :: conditionsWithFloats f rest

def Branch.mapFloats (f : Double → Double) : Branch → Branch
  | ⟨conditions, body⟩ => ⟨conditionsWithFloats f conditions, nodesWithFloats f body⟩

def branchesWithFloats (f : Double → Double) : List Branch → List Branch
  | [] => []
  | branch :: rest => branch.mapFloats f :: branchesWithFloats f rest

def SwitchCase.mapFloats (f : Double → Double) : SwitchCase → SwitchCase
  | ⟨patterns, guard, body⟩ => ⟨nodesWithFloats f patterns, nodeWithFloats? f guard, nodesWithFloats f body⟩

def casesWithFloats (f : Double → Double) : List SwitchCase → List SwitchCase
  | [] => []
  | clause :: rest => clause.mapFloats f :: casesWithFloats f rest

def Catch.mapFloats (f : Double → Double) : Catch → Catch
  | ⟨pattern, body⟩ => ⟨nodeWithFloats? f pattern, nodesWithFloats f body⟩

def catchesWithFloats (f : Double → Double) : List Catch → List Catch
  | [] => []
  | clause :: rest => clause.mapFloats f :: catchesWithFloats f rest

def Expr.mapFloats (f : Double → Double) : Expr → Expr
  | .literal value => .literal (value.mapFloats f)
  | .call callee args trailing effects =>
    .call (callee.mapFloats f) (argumentsWithFloats f args) (closureWithFloats? f trailing) effects
  | .member base name => .member (nodeWithFloats? f base) name
  | .binary lhs op rhs isParenthesized => .binary (lhs.mapFloats f) op (rhs.mapFloats f) isParenthesized
  | .unary op operand => .unary op (operand.mapFloats f)
  | .postfixed operand mark => .postfixed (operand.mapFloats f) mark
  | .closure closure => .closure (closure.mapFloats f)

def Literal.mapFloats (f : Double → Double) : Literal → Literal
  | .float value => .float (f value)
  | .tuple elements => .tuple (nodesWithFloats f elements)
  | .array elements => .array (nodesWithFloats f elements)
  | .dictionary entries => .dictionary (entriesWithFloats f entries)
  | literal => literal

def Entry.mapFloats (f : Double → Double) : Entry → Entry
  | ⟨key, value⟩ => ⟨key.mapFloats f, value.mapFloats f⟩

def entriesWithFloats (f : Double → Double) : List Entry → List Entry
  | [] => []
  | entry :: rest => entry.mapFloats f :: entriesWithFloats f rest

def Argument.mapFloats (f : Double → Double) : Argument → Argument
  | ⟨label, value⟩ => ⟨label, value.mapFloats f⟩

def argumentsWithFloats (f : Double → Double) : List Argument → List Argument
  | [] => []
  | argument :: rest => argument.mapFloats f :: argumentsWithFloats f rest

def Closure.mapFloats (f : Double → Double) : Closure → Closure
  | ⟨head, body⟩ => ⟨head, nodesWithFloats f body⟩

def closureWithFloats? (f : Double → Double) : Option Closure → Option Closure
  | none => none
  | some closure => some (closure.mapFloats f)

def Pattern.mapFloats (f : Double → Double) : Pattern → Pattern
  | .tuple elements => .tuple (patternsWithFloats f elements)
  | .expression value => .expression (value.mapFloats f)
  | pattern => pattern

def patternsWithFloats (f : Double → Double) : List Pattern → List Pattern
  | [] => []
  | pattern :: rest => pattern.mapFloats f :: patternsWithFloats f rest

end

/-! ### Parts -/

/-- A part with other floats. -/
def Part.mapFloats (f : Double → Double) : Part → Part
  | .literal value => .literal (value.mapFloats f)
  | .enumCase c => .enumCase { c with rawValue := literalWithFloats? f c.rawValue }
  | .property p => .property { p with value := nodeWithFloats? f p.value, getter := blockWithFloats? f p.getter }
  | .condition c => .condition (c.mapFloats f)
  | .switchCase c => .switchCase (c.mapFloats f)
  | .catchClause c => .catchClause (c.mapFloats f)
  | .loop l => .loop { l with condition := l.condition.mapFloats f, body := nodesWithFloats f l.body }
  | .forIn l =>
    .forIn ⟨l.pattern.mapFloats f, l.sequence.mapFloats f, nodeWithFloats? f l.filter, nodesWithFloats f l.body⟩
  | .tupleAssignment a => .tupleAssignment { a with value := a.value.mapFloats f }

section

variable {f : Double → Double}

mutual

/-- The parts of a node with other floats are its parts with other floats, in the same order. -/
theorem Node.parts_mapFloats : (n : Node) → (n.mapFloats f).parts = n.parts.map (Part.mapFloats f)
  | .typeDecl _ members => partsOfNodes_withFloats members
  | .enumCase head rawValue => by
    simp [Node.mapFloats, Node.parts, partsOfLiteral?_withFloats rawValue, Part.mapFloats]
  | .protocolDecl _ members => partsOfNodes_withFloats members
  | .extensionDecl _ members => partsOfNodes_withFloats members
  | .function _ params body => by
    simp [Node.mapFloats, Node.parts, partsOfParams_withFloats params, partsOfNodes_withFloats body]
  | .initializer _ params body => by
    simp [Node.mapFloats, Node.parts, partsOfParams_withFloats params, partsOfNodes_withFloats body]
  | .property head value getter => by
    simp [Node.mapFloats, Node.parts, partsOfNode?_withFloats value, partsOfBlock?_withFloats getter, Part.mapFloats]
  | .expression e => Expr.parts_mapFloats e
  | .assignment target op value => by
    simp [Node.mapFloats, Node.parts, target.parts_mapFloats, value.parts_mapFloats]
  | .tupleAssignment names value mode => by
    simp [Node.mapFloats, Node.parts, value.parts_mapFloats, Part.mapFloats]
  | .ifStmt first elseIfs otherwise => by
    simp [Node.mapFloats, Node.parts, Branch.parts_mapFloats first, partsOfBranches_withFloats elseIfs,
      partsOfBlock?_withFloats otherwise]
  | .guardStmt conditions otherwise => by
    simp [Node.mapFloats, Node.parts, partsOfConditions_withFloats conditions, partsOfNodes_withFloats otherwise]
  | .loop style condition body => by
    simp [Node.mapFloats, Node.parts, condition.parts_mapFloats, partsOfNodes_withFloats body, Part.mapFloats]
  | .forIn pattern sequence filter body => by
    simp [Node.mapFloats, Node.parts, pattern.parts_mapFloats, sequence.parts_mapFloats,
      partsOfNode?_withFloats filter, partsOfNodes_withFloats body, Part.mapFloats]
  | .switchStmt subject cases default => by
    simp [Node.mapFloats, Node.parts, subject.parts_mapFloats, partsOfCases_withFloats cases,
      partsOfBlock?_withFloats default]
  | .doCatch body catches => by
    simp [Node.mapFloats, Node.parts, partsOfNodes_withFloats body, partsOfCatches_withFloats catches]
  | .returnStmt value => partsOfNode?_withFloats value
  | .throwStmt error => error.parts_mapFloats
  | .deferStmt body => partsOfNodes_withFloats body
  | .pattern p => Pattern.parts_mapFloats p
  | .associatedType _ => rfl
  | .typeAlias _ => rfl
  | .importDecl _ => rfl
  | .jump _ _ => rfl
  | .comment _ => rfl
  | .blank => rfl
  | .raw _ => rfl
  | .empty => rfl

theorem partsOfNodes_withFloats : (nodes : List Node) →
    partsOfNodes (nodesWithFloats f nodes) = (partsOfNodes nodes).map (Part.mapFloats f)
  | [] => rfl
  | node :: rest => by
    simp [nodesWithFloats, partsOfNodes, node.parts_mapFloats, partsOfNodes_withFloats rest]

theorem partsOfBlock?_withFloats : (block : Option (List Node)) →
    partsOfBlock? (blockWithFloats? f block) = (partsOfBlock? block).map (Part.mapFloats f)
  | none => rfl
  | some body => partsOfNodes_withFloats body

theorem partsOfNode?_withFloats : (node : Option Node) →
    partsOfNode? (nodeWithFloats? f node) = (partsOfNode? node).map (Part.mapFloats f)
  | none => rfl
  | some node => node.parts_mapFloats

theorem partsOfLiteral?_withFloats : (literal : Option Literal) →
    partsOfLiteral? (literalWithFloats? f literal) = (partsOfLiteral? literal).map (Part.mapFloats f)
  | none => rfl
  | some literal => Literal.parts_mapFloats literal

theorem partsOfParams_withFloats : (params : List Param) →
    partsOfParams (paramsWithFloats f params) = (partsOfParams params).map (Part.mapFloats f)
  | [] => rfl
  | ⟨_, default⟩ :: rest => by
    simp [paramsWithFloats, partsOfParams, Param.mapFloats, Param.parts, partsOfNode?_withFloats default,
      partsOfParams_withFloats rest]

theorem Condition.parts_mapFloats : (c : Condition) → (c.mapFloats f).parts = c.parts.map (Part.mapFloats f)
  | .expr value => by simp [Condition.mapFloats, Condition.parts, value.parts_mapFloats, Part.mapFloats]
  | .binding _ _ value => by simp [Condition.mapFloats, Condition.parts, partsOfNode?_withFloats value, Part.mapFloats]
  | .caseMatch pattern value => by
    simp [Condition.mapFloats, Condition.parts, pattern.parts_mapFloats, value.parts_mapFloats, Part.mapFloats]

theorem partsOfConditions_withFloats : (conditions : List Condition) →
    partsOfConditions (conditionsWithFloats f conditions) = (partsOfConditions conditions).map (Part.mapFloats f)
  | [] => rfl
  | condition :: rest => by
    simp [conditionsWithFloats, partsOfConditions, Condition.parts_mapFloats condition,
      partsOfConditions_withFloats rest]

theorem Branch.parts_mapFloats : (b : Branch) → (b.mapFloats f).parts = b.parts.map (Part.mapFloats f)
  | ⟨conditions, body⟩ => by
    simp [Branch.mapFloats, Branch.parts, partsOfConditions_withFloats conditions, partsOfNodes_withFloats body]

theorem partsOfBranches_withFloats : (branches : List Branch) →
    partsOfBranches (branchesWithFloats f branches) = (partsOfBranches branches).map (Part.mapFloats f)
  | [] => rfl
  | branch :: rest => by
    simp [branchesWithFloats, partsOfBranches, Branch.parts_mapFloats branch, partsOfBranches_withFloats rest]

theorem partsOfCases_withFloats : (cases : List SwitchCase) →
    partsOfCases (casesWithFloats f cases) = (partsOfCases cases).map (Part.mapFloats f)
  | [] => rfl
  | ⟨patterns, guard, body⟩ :: rest => by
    simp [casesWithFloats, partsOfCases, SwitchCase.mapFloats, SwitchCase.parts, partsOfNodes_withFloats patterns,
      partsOfNode?_withFloats guard, partsOfNodes_withFloats body, partsOfCases_withFloats rest, Part.mapFloats]

theorem partsOfCatches_withFloats : (catches : List Catch) →
    partsOfCatches (catchesWithFloats f catches) = (partsOfCatches catches).map (Part.mapFloats f)
  | [] => rfl
  | ⟨pattern, body⟩ :: rest => by
    simp [catchesWithFloats, partsOfCatches, Catch.mapFloats, Catch.parts, partsOfNode?_withFloats pattern,
      partsOfNodes_withFloats body, partsOfCatches_withFloats rest, Part.mapFloats]

theorem Expr.parts_mapFloats : (e : Expr) → (e.mapFloats f).parts = e.parts.map (Part.mapFloats f)
  | .literal value => Literal.parts_mapFloats value
  | .call callee args trailing _ => by
    simp [Expr.mapFloats, Expr.parts, callee.parts_mapFloats, partsOfArguments_withFloats args,
      partsOfClosure?_withFloats trailing]
  | .member base _ => partsOfNode?_withFloats base
  | .binary lhs _ rhs _ => by simp [Expr.mapFloats, Expr.parts, lhs.parts_mapFloats, rhs.parts_mapFloats]
  | .unary _ operand => operand.parts_mapFloats
  | .postfixed operand _ => operand.parts_mapFloats
  | .closure ⟨_, body⟩ => partsOfNodes_withFloats body

theorem Literal.parts_mapFloats : (l : Literal) → (l.mapFloats f).parts = l.parts.map (Part.mapFloats f)
  | .tuple elements => by simp [Literal.mapFloats, Literal.parts, partsOfNodes_withFloats elements, Part.mapFloats]
  | .array elements => by simp [Literal.mapFloats, Literal.parts, partsOfNodes_withFloats elements, Part.mapFloats]
  | .dictionary entries => by
    simp [Literal.mapFloats, Literal.parts, partsOfEntries_withFloats entries, Part.mapFloats]
  | .string _ => rfl
  | .integer _ => rfl
  | .float _ => rfl
  | .boolean _ => rfl
  | .nil => rfl
  | .reference _ => rfl

theorem partsOfEntries_withFloats : (entries : List Entry) →
    partsOfEntries (entriesWithFloats f entries) = (partsOfEntries entries).map (Part.mapFloats f)
  | [] => rfl
  | ⟨key, value⟩ :: rest => by
    simp [entriesWithFloats, partsOfEntries, Entry.mapFloats, Entry.parts, key.parts_mapFloats, value.parts_mapFloats,
      partsOfEntries_withFloats rest]

theorem partsOfArguments_withFloats : (args : List Argument) →
    partsOfArguments (argumentsWithFloats f args) = (partsOfArguments args).map (Part.mapFloats f)
  | [] => rfl
  | ⟨_, value⟩ :: rest => by
    simp [argumentsWithFloats, partsOfArguments, Argument.mapFloats, Argument.parts, value.parts_mapFloats,
      partsOfArguments_withFloats rest]

theorem partsOfClosure?_withFloats : (closure : Option Closure) →
    partsOfClosure? (closureWithFloats? f closure) = (partsOfClosure? closure).map (Part.mapFloats f)
  | none => rfl
  | some ⟨_, body⟩ => partsOfNodes_withFloats body

theorem Pattern.parts_mapFloats : (p : Pattern) → (p.mapFloats f).parts = p.parts.map (Part.mapFloats f)
  | .tuple elements => partsOfPatterns_withFloats elements
  | .expression value => value.parts_mapFloats
  | .identifier _ => rfl
  | .enumCase _ _ => rfl
  | .wildcard => rfl

theorem partsOfPatterns_withFloats : (patterns : List Pattern) →
    partsOfPatterns (patternsWithFloats f patterns) = (partsOfPatterns patterns).map (Part.mapFloats f)
  | [] => rfl
  | pattern :: rest => by
    simp [patternsWithFloats, partsOfPatterns, Pattern.parts_mapFloats pattern, partsOfPatterns_withFloats rest]

end

/-! ### Floats that stay -/

mutual

/-- Where no float changes, nothing does. -/
theorem Node.mapFloats_eq_self : (n : Node) → (∀ p ∈ n.parts, p.FloatIn fun d => f d = d) → n.mapFloats f = n
  | .typeDecl head members, h => congrArg (Node.typeDecl head) (nodesWithFloats_eq_self members h)
  | .enumCase head rawValue, h =>
    congrArg (Node.enumCase head) (literalWithFloats?_eq_self rawValue (List.forall_mem_append.1 h).1)
  | .protocolDecl head members, h => congrArg (Node.protocolDecl head) (nodesWithFloats_eq_self members h)
  | .extensionDecl head members, h => congrArg (Node.extensionDecl head) (nodesWithFloats_eq_self members h)
  | .function head params body, h => by
    obtain ⟨hparams, hbody⟩ := List.forall_mem_append.1 h
    rw [Node.mapFloats, paramsWithFloats_eq_self params hparams, nodesWithFloats_eq_self body hbody]
  | .initializer head params body, h => by
    obtain ⟨hparams, hbody⟩ := List.forall_mem_append.1 h
    rw [Node.mapFloats, paramsWithFloats_eq_self params hparams, nodesWithFloats_eq_self body hbody]
  | .property head value getter, h => by
    obtain ⟨hvalue, hgetter⟩ := List.forall_mem_append.1 (List.forall_mem_append.1 h).1
    rw [Node.mapFloats, nodeWithFloats?_eq_self value hvalue, blockWithFloats?_eq_self getter hgetter]
  | .expression e, h => congrArg Node.expression (Expr.mapFloats_eq_self e h)
  | .assignment target op value, h => by
    obtain ⟨htarget, hvalue⟩ := List.forall_mem_append.1 h
    rw [Node.mapFloats, target.mapFloats_eq_self htarget, value.mapFloats_eq_self hvalue]
  | .tupleAssignment names value mode, h => by
    rw [Node.mapFloats, value.mapFloats_eq_self (List.forall_mem_append.1 h).1]
  | .ifStmt first elseIfs otherwise, h => by
    obtain ⟨hbranches, hotherwise⟩ := List.forall_mem_append.1 h
    obtain ⟨hfirst, helseIfs⟩ := List.forall_mem_append.1 hbranches
    rw [Node.mapFloats, Branch.mapFloats_eq_self first hfirst, branchesWithFloats_eq_self elseIfs helseIfs,
      blockWithFloats?_eq_self otherwise hotherwise]
  | .guardStmt conditions otherwise, h => by
    obtain ⟨hconditions, hotherwise⟩ := List.forall_mem_append.1 h
    rw [Node.mapFloats, conditionsWithFloats_eq_self conditions hconditions,
      nodesWithFloats_eq_self otherwise hotherwise]
  | .loop style condition body, h => by
    obtain ⟨hcondition, hbody⟩ := List.forall_mem_append.1 (List.forall_mem_append.1 h).1
    rw [Node.mapFloats, condition.mapFloats_eq_self hcondition, nodesWithFloats_eq_self body hbody]
  | .forIn pattern sequence filter body, h => by
    obtain ⟨hplaces, hbody⟩ := List.forall_mem_append.1 (List.forall_mem_append.1 h).1
    obtain ⟨hboth, hfilter⟩ := List.forall_mem_append.1 hplaces
    obtain ⟨hpattern, hsequence⟩ := List.forall_mem_append.1 hboth
    rw [Node.mapFloats, pattern.mapFloats_eq_self hpattern, sequence.mapFloats_eq_self hsequence,
      nodeWithFloats?_eq_self filter hfilter, nodesWithFloats_eq_self body hbody]
  | .switchStmt subject cases default, h => by
    obtain ⟨hclauses, hdefault⟩ := List.forall_mem_append.1 h
    obtain ⟨hsubject, hcases⟩ := List.forall_mem_append.1 hclauses
    rw [Node.mapFloats, subject.mapFloats_eq_self hsubject, casesWithFloats_eq_self cases hcases,
      blockWithFloats?_eq_self default hdefault]
  | .doCatch body catches, h => by
    obtain ⟨hbody, hcatches⟩ := List.forall_mem_append.1 h
    rw [Node.mapFloats, nodesWithFloats_eq_self body hbody, catchesWithFloats_eq_self catches hcatches]
  | .returnStmt value, h => congrArg Node.returnStmt (nodeWithFloats?_eq_self value h)
  | .throwStmt error, h => congrArg Node.throwStmt (error.mapFloats_eq_self h)
  | .deferStmt body, h => congrArg Node.deferStmt (nodesWithFloats_eq_self body h)
  | .pattern p, h => congrArg Node.pattern (Pattern.mapFloats_eq_self p h)
  | .associatedType _, _ => rfl
  | .typeAlias _, _ => rfl
  | .importDecl _, _ => rfl
  | .jump _ _, _ => rfl
  | .comment _, _ => rfl
  | .blank, _ => rfl
  | .raw _, _ => rfl
  | .empty, _ => rfl

theorem nodesWithFloats_eq_self : (nodes : List Node) →
    (∀ p ∈ partsOfNodes nodes, p.FloatIn fun d => f d = d) → nodesWithFloats f nodes = nodes
  | [], _ => rfl
  | node :: rest, h => by
    obtain ⟨hnode, hrest⟩ := List.forall_mem_append.1 h
    rw [nodesWithFloats, node.mapFloats_eq_self hnode, nodesWithFloats_eq_self rest hrest]

theorem blockWithFloats?_eq_self : (block : Option (List Node)) →
    (∀ p ∈ partsOfBlock? block, p.FloatIn fun d => f d = d) → blockWithFloats? f block = block
  | none, _ => rfl
  | some body, h => congrArg some (nodesWithFloats_eq_self body h)

theorem nodeWithFloats?_eq_self : (node : Option Node) →
    (∀ p ∈ partsOfNode? node, p.FloatIn fun d => f d = d) → nodeWithFloats? f node = node
  | none, _ => rfl
  | some node, h => congrArg some (node.mapFloats_eq_self h)

theorem literalWithFloats?_eq_self : (literal : Option Literal) →
    (∀ p ∈ partsOfLiteral? literal, p.FloatIn fun d => f d = d) → literalWithFloats? f literal = literal
  | none, _ => rfl
  | some literal, h => congrArg some (Literal.mapFloats_eq_self literal h)

theorem paramsWithFloats_eq_self : (params : List Param) →
    (∀ p ∈ partsOfParams params, p.FloatIn fun d => f d = d) → paramsWithFloats f params = params
  | [], _ => rfl
  | ⟨_, default⟩ :: rest, h => by
    obtain ⟨hdefault, hrest⟩ := List.forall_mem_append.1 h
    rw [paramsWithFloats, Param.mapFloats, nodeWithFloats?_eq_self default hdefault,
      paramsWithFloats_eq_self rest hrest]

theorem Condition.mapFloats_eq_self : (c : Condition) → (∀ p ∈ c.parts, p.FloatIn fun d => f d = d) →
    c.mapFloats f = c
  | .expr value, h => congrArg Condition.expr (value.mapFloats_eq_self (List.forall_mem_append.1 h).1)
  | .binding keyword name value, h =>
    congrArg (Condition.binding keyword name) (nodeWithFloats?_eq_self value (List.forall_mem_append.1 h).1)
  | .caseMatch pattern value, h => by
    obtain ⟨hpattern, hvalue⟩ := List.forall_mem_append.1 (List.forall_mem_append.1 h).1
    rw [Condition.mapFloats, pattern.mapFloats_eq_self hpattern, value.mapFloats_eq_self hvalue]

theorem conditionsWithFloats_eq_self : (conditions : List Condition) →
    (∀ p ∈ partsOfConditions conditions, p.FloatIn fun d => f d = d) → conditionsWithFloats f conditions = conditions
  | [], _ => rfl
  | condition :: rest, h => by
    obtain ⟨hcondition, hrest⟩ := List.forall_mem_append.1 h
    rw [conditionsWithFloats, Condition.mapFloats_eq_self condition hcondition, conditionsWithFloats_eq_self rest hrest]

theorem Branch.mapFloats_eq_self : (b : Branch) → (∀ p ∈ b.parts, p.FloatIn fun d => f d = d) → b.mapFloats f = b
  | ⟨conditions, body⟩, h => by
    obtain ⟨hconditions, hbody⟩ := List.forall_mem_append.1 h
    rw [Branch.mapFloats, conditionsWithFloats_eq_self conditions hconditions, nodesWithFloats_eq_self body hbody]

theorem branchesWithFloats_eq_self : (branches : List Branch) →
    (∀ p ∈ partsOfBranches branches, p.FloatIn fun d => f d = d) → branchesWithFloats f branches = branches
  | [], _ => rfl
  | branch :: rest, h => by
    obtain ⟨hbranch, hrest⟩ := List.forall_mem_append.1 h
    rw [branchesWithFloats, Branch.mapFloats_eq_self branch hbranch, branchesWithFloats_eq_self rest hrest]

theorem casesWithFloats_eq_self : (cases : List SwitchCase) →
    (∀ p ∈ partsOfCases cases, p.FloatIn fun d => f d = d) → casesWithFloats f cases = cases
  | [], _ => rfl
  | ⟨patterns, guard, body⟩ :: rest, h => by
    obtain ⟨hclause, hrest⟩ := List.forall_mem_append.1 h
    obtain ⟨hfront, hbody⟩ := List.forall_mem_append.1 (List.forall_mem_append.1 hclause).1
    obtain ⟨hpatterns, hguard⟩ := List.forall_mem_append.1 hfront
    rw [casesWithFloats, SwitchCase.mapFloats, nodesWithFloats_eq_self patterns hpatterns,
      nodeWithFloats?_eq_self guard hguard, nodesWithFloats_eq_self body hbody, casesWithFloats_eq_self rest hrest]

theorem catchesWithFloats_eq_self : (catches : List Catch) →
    (∀ p ∈ partsOfCatches catches, p.FloatIn fun d => f d = d) → catchesWithFloats f catches = catches
  | [], _ => rfl
  | ⟨pattern, body⟩ :: rest, h => by
    obtain ⟨hclause, hrest⟩ := List.forall_mem_append.1 h
    obtain ⟨hpattern, hbody⟩ := List.forall_mem_append.1 (List.forall_mem_append.1 hclause).1
    rw [catchesWithFloats, Catch.mapFloats, nodeWithFloats?_eq_self pattern hpattern,
      nodesWithFloats_eq_self body hbody, catchesWithFloats_eq_self rest hrest]

theorem Expr.mapFloats_eq_self : (e : Expr) → (∀ p ∈ e.parts, p.FloatIn fun d => f d = d) → e.mapFloats f = e
  | .literal value, h => congrArg Expr.literal (Literal.mapFloats_eq_self value h)
  | .call callee args trailing effects, h => by
    obtain ⟨hfront, htrailing⟩ := List.forall_mem_append.1 h
    obtain ⟨hcallee, hargs⟩ := List.forall_mem_append.1 hfront
    rw [Expr.mapFloats, callee.mapFloats_eq_self hcallee, argumentsWithFloats_eq_self args hargs,
      closureWithFloats?_eq_self trailing htrailing]
  | .member base name, h => congrArg (Expr.member · name) (nodeWithFloats?_eq_self base h)
  | .binary lhs op rhs isParenthesized, h => by
    obtain ⟨hlhs, hrhs⟩ := List.forall_mem_append.1 h
    rw [Expr.mapFloats, lhs.mapFloats_eq_self hlhs, rhs.mapFloats_eq_self hrhs]
  | .unary op operand, h => congrArg (Expr.unary op) (operand.mapFloats_eq_self h)
  | .postfixed operand mark, h => congrArg (Expr.postfixed · mark) (operand.mapFloats_eq_self h)
  | .closure ⟨head, body⟩, h => congrArg (fun body => Expr.closure ⟨head, body⟩) (nodesWithFloats_eq_self body h)

theorem Literal.mapFloats_eq_self : (l : Literal) → (∀ p ∈ l.parts, p.FloatIn fun d => f d = d) → l.mapFloats f = l
  | .tuple elements, h => congrArg Literal.tuple (nodesWithFloats_eq_self elements (List.forall_mem_append.1 h).1)
  | .array elements, h => congrArg Literal.array (nodesWithFloats_eq_self elements (List.forall_mem_append.1 h).1)
  | .dictionary entries, h =>
    congrArg Literal.dictionary (entriesWithFloats_eq_self entries (List.forall_mem_append.1 h).1)
  | .float value, h => congrArg Literal.float (h (.literal (.float value)) (List.mem_singleton_self _))
  | .string _, _ => rfl
  | .integer _, _ => rfl
  | .boolean _, _ => rfl
  | .nil, _ => rfl
  | .reference _, _ => rfl

theorem entriesWithFloats_eq_self : (entries : List Entry) →
    (∀ p ∈ partsOfEntries entries, p.FloatIn fun d => f d = d) → entriesWithFloats f entries = entries
  | [], _ => rfl
  | ⟨key, value⟩ :: rest, h => by
    obtain ⟨hentry, hrest⟩ := List.forall_mem_append.1 h
    obtain ⟨hkey, hvalue⟩ := List.forall_mem_append.1 hentry
    rw [entriesWithFloats, Entry.mapFloats, key.mapFloats_eq_self hkey, value.mapFloats_eq_self hvalue,
      entriesWithFloats_eq_self rest hrest]

theorem argumentsWithFloats_eq_self : (args : List Argument) →
    (∀ p ∈ partsOfArguments args, p.FloatIn fun d => f d = d) → argumentsWithFloats f args = args
  | [], _ => rfl
  | ⟨_, value⟩ :: rest, h => by
    obtain ⟨hvalue, hrest⟩ := List.forall_mem_append.1 h
    rw [argumentsWithFloats, Argument.mapFloats, value.mapFloats_eq_self hvalue, argumentsWithFloats_eq_self rest hrest]

theorem closureWithFloats?_eq_self : (closure : Option Closure) →
    (∀ p ∈ partsOfClosure? closure, p.FloatIn fun d => f d = d) → closureWithFloats? f closure = closure
  | none, _ => rfl
  | some ⟨head, body⟩, h => congrArg (some <| Closure.mk head ·) (nodesWithFloats_eq_self body h)

theorem Pattern.mapFloats_eq_self : (p : Pattern) → (∀ q ∈ p.parts, q.FloatIn fun d => f d = d) → p.mapFloats f = p
  | .tuple elements, h => congrArg Pattern.tuple (patternsWithFloats_eq_self elements h)
  | .expression value, h => congrArg Pattern.expression (value.mapFloats_eq_self h)
  | .identifier _, _ => rfl
  | .enumCase _ _, _ => rfl
  | .wildcard, _ => rfl

theorem patternsWithFloats_eq_self : (patterns : List Pattern) →
    (∀ p ∈ partsOfPatterns patterns, p.FloatIn fun d => f d = d) → patternsWithFloats f patterns = patterns
  | [], _ => rfl
  | pattern :: rest, h => by
    obtain ⟨hpattern, hrest⟩ := List.forall_mem_append.1 h
    rw [patternsWithFloats, Pattern.mapFloats_eq_self pattern hpattern, patternsWithFloats_eq_self rest hrest]

end

/-! ### Rules -/

theorem nodesWithFloats_eq (nodes : List Node) : nodesWithFloats f nodes = nodes.map (Node.mapFloats f) := by
  induction nodes with
  | nil => rfl
  | cons node rest ih => rw [nodesWithFloats, ih, List.map_cons]

theorem Literal.kindName_mapFloats (l : Literal) : (l.mapFloats f).kindName = l.kindName := by cases l <;> rfl

theorem Literal.isRawValue_mapFloats (l : Literal) : (l.mapFloats f).isRawValue = l.isRawValue := by cases l <;> rfl

namespace Node

theorem kindName_mapFloats (n : Node) : (n.mapFloats f).kindName = n.kindName := by
  cases n with
  | expression e =>
    cases e with
    | literal value => exact value.kindName_mapFloats
    | _ => rfl
  | _ => rfl

theorem isExpression_mapFloats (n : Node) : (n.mapFloats f).isExpression = n.isExpression := by cases n <;> rfl

theorem isPattern_mapFloats (n : Node) : (n.mapFloats f).isPattern = n.isPattern := by
  cases n with
  | expression e => cases e <;> rfl
  | _ => rfl

theorem tupleArity?_mapFloats (n : Node) : (n.mapFloats f).tupleArity? = n.tupleArity? := by
  cases n with
  | expression e =>
    cases e with
    | literal value =>
      cases value with
      | tuple elements =>
        have hlength : (nodesWithFloats f elements).length = elements.length := by
          rw [nodesWithFloats_eq, List.length_map]
        exact congrArg some hlength
      | _ => rfl
    | _ => rfl
  | _ => rfl

end Node

namespace Part

theorem clauseBreaches_mapFloats (clause : Clause) (pattern : Node) :
    clauseBreaches clause (pattern.mapFloats f) = clauseBreaches clause pattern := by
  rw [clauseBreaches, clauseBreaches, pattern.isPattern_mapFloats, pattern.kindName_mapFloats]

/-- No rule looks at the value of a literal. -/
theorem breaches_mapFloats (p : Part) : (p.mapFloats f).breaches = p.breaches := by
  cases p with
  | literal l => rfl
  | enumCase c =>
    obtain ⟨head, rawValue⟩ := c
    cases rawValue with
    | none => rfl
    | some raw =>
      have hraw : (raw.mapFloats f).isRawValue = raw.isRawValue := raw.isRawValue_mapFloats
      cases hkind : raw.isRawValue with
      | false => simp [mapFloats, breaches, literalWithFloats?, hraw, hkind, raw.kindName_mapFloats]
      | true => simp [mapFloats, breaches, literalWithFloats?, hraw, hkind]
  | property p =>
    obtain ⟨head, value, getter⟩ := p
    cases value <;> cases getter <;> rfl
  | condition c =>
    cases c with
    | expr value => rfl
    | binding binding name value => rfl
    | caseMatch pattern value => exact clauseBreaches_mapFloats .condition pattern
  | switchCase c =>
    obtain ⟨patterns, guard, body⟩ := c
    simp [mapFloats, SwitchCase.mapFloats, breaches, nodesWithFloats_eq, List.flatMap_map, clauseBreaches_mapFloats]
  | catchClause c =>
    obtain ⟨pattern, body⟩ := c
    cases pattern with
    | none => rfl
    | some pattern => simp [mapFloats, Catch.mapFloats, breaches, nodeWithFloats?, clauseBreaches_mapFloats]
  | loop l => simp [mapFloats, breaches, Node.isExpression_mapFloats, Node.kindName_mapFloats]
  | forIn l => simp [mapFloats, breaches, Node.isPattern_mapFloats, Node.kindName_mapFloats]
  | tupleAssignment a => simp [mapFloats, breaches, Node.tupleArity?_mapFloats]

theorem flatMap_breaches_mapFloats (parts : List Part) :
    (parts.map (mapFloats f)).flatMap breaches = parts.flatMap breaches := by
  rw [List.flatMap_map]
  exact congrArg (parts.flatMap ·) (funext breaches_mapFloats)

end Part

end

/-- A source file with other floats. -/
def SourceFile.mapFloats (f : Double → Double) (file : SourceFile) : SourceFile :=
  { file with nodes := nodesWithFloats f file.nodes }

end SwiftForge
