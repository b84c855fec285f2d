import SwiftForge.Proofs.Render.Sites
import SwiftForge.Tree.SourceFile

/-! Trees without placeholders in their statement lists. Pruning takes them out of every list of members, statements or
    top-level nodes, at every depth, and touches nothing else: in the place of an expression or a pattern a placeholder
    stays, since something is wanted there. -/

namespace SwiftForge

mutual

/-- A node whose statement lists, at any depth, are without placeholders. -/
def Node.pruned : Node → Node
  | .typeDecl head members => .typeDecl head (prunedBlock members)
  | .enumCase head rawValue => .enumCase head (prunedLiteral? rawValue)
  | .protocolDecl head members => .protocolDecl head (prunedBlock members)
  | .extensionDecl head members => .extensionDecl head (prunedBlock members)
  | .function head params body => .function head (prunedParams params) (prunedBlock body)
  | .initializer head params body => .initializer head (prunedParams params) (prunedBlock body)
  | .property head value getter => .property head (prunedNode? value) (prunedBlock? getter)
  | .expression expr => .expression expr.pruned
  | .assignment target op value => .assignment target.pruned op value.pruned
  | .tupleAssignment names value mode => .tupleAssignment names value.pruned mode
  | .ifStmt first elseIfs otherwise => .ifStmt first.pruned (prunedBranches elseIfs) (prunedBlock? otherwise)
  | .guardStmt conditions otherwise => .guardStmt (prunedConditions conditions) (prunedBlock otherwise)
  | .loop style condition body => .loop style condition.pruned (prunedBlock body)
  | .forIn pattern sequence filter body =>
    .forIn pattern.pruned sequence.pruned (prunedNode? filter) (prunedBlock body)
  | .switchStmt subject cases default => .switchStmt subject.pruned (prunedCases cases) (prunedBlock? default)
  | .doCatch body catches => .doCatch (prunedBlock body) (prunedCatches catches)
  | .returnStmt value => .returnStmt (prunedNode? value)
  | .throwStmt error => .throwStmt error.pruned
  | .deferStmt body => .deferStmt (prunedBlock body)
  | .pattern p => .pattern p.pruned
  | node => node

/-- Nodes in statement position, without the placeholders among them. -/
def prunedBlock : List Node → List Node
  | [] => []
  | node :: rest => if node.isPlaceholder then prunedBlock rest else node.pruned :: prunedBlock rest

def prunedBlock? : Option (List Node) → Option (List Node)
  | none => none
  | some body => some (prunedBlock body)

/-- Nodes in expression or pattern position: each of them stays. -/
def prunedNodes : List Node → List Node
  | [] => []
  | node :: rest => node.pruned :: prunedNodes rest

def prunedNode? : Option Node → Option Node
  | none => none
  | some node => some node.pruned

def Param.pruned : Param → Param
  | ⟨head, default⟩ => ⟨head, prunedNode? default⟩

def prunedParams : List Param → List Param
  | [] => []
  | param :: rest => param.pruned :: prunedParams rest

def Entry.pruned : Entry → Entry
  | ⟨key, value⟩ => ⟨key.pruned, value.pruned⟩

def prunedEntries : List Entry → List Entry
  | [] => []
  | entry :: rest => entry.pruned :: prunedEntries rest

def Literal.pruned : Literal → Literal
  | .tuple elements => .tuple (prunedNodes elements)
  | .array elements => .array (prunedNodes elements)
  | .dictionary entries => .dictionary (prunedEntries entries)
  | literal => literal

def prunedLiteral? : Option Literal → Option Literal
  | none => none
  | some literal => some literal.pruned

def Argument.pruned : Argument → Argument
  | ⟨label, value⟩ => ⟨label, value.pruned⟩

def prunedArguments : List Argument → List Argument
  | [] => []
  | argument :: rest => argument.pruned :: prunedArguments rest

def Closure.pruned : Closure → Closure
  | ⟨head, body⟩ => ⟨head, prunedBlock body⟩

def prunedClosure? : Option Closure → Option Closure
  | none => none
  | some closure => some closure.pruned

def Expr.pruned : Expr → Expr
  | .literal value => .literal value.pruned
  | .call callee args trailing effects =>
    .call callee.pruned (prunedArguments args) (prunedClosure? trailing) effects
  | .member base name => .member (prunedNode? base) name
  | .binary lhs op rhs isParenthesized => .binary lhs.pruned op rhs.pruned isParenthesized
  | .unary op operand => .unary op operand.pruned
  | .postfixed operand mark => .postfixed operand.pruned mark
  | .closure closure => .closure closure.pruned

def Condition.pruned : Condition → Condition
  | .expr value => .expr value.pruned
  | .binding binding name value => .binding binding name (prunedNode? value)
  | .caseMatch pattern value => .caseMatch pattern.pruned value.pruned

def prunedConditions : List Condition → List Condition
  | [] => []
  | condition :: rest => condition.pruned :: prunedConditions rest

def Branch.pruned : Branch → Branch
  | ⟨conditions, body⟩ => ⟨prunedConditions conditions, prunedBlock body⟩

def prunedBranches : List Branch → List Branch
  | [] => []
  | branch :: rest => branch.pruned :: prunedBranches rest

def SwitchCase.pruned : SwitchCase → SwitchCase
  | ⟨patterns, guard, body⟩ => ⟨prunedNodes patterns, prunedNode? guard, prunedBlock body⟩

def prunedCases : List SwitchCase → List SwitchCase
  | [] => []
  | clause :: rest => clause.pruned :: prunedCases rest

def Catch.pruned : Catch → Catch
  | ⟨pattern, body⟩ => ⟨prunedNode? pattern, prunedBlock body⟩

def prunedCatches : List Catch → List Catch
  | [] => []
  | clause :: rest => clause.pruned :: prunedCatches rest

def Pattern.pruned : Pattern → Pattern
  | .tuple elements => .tuple (prunedPatterns elements)
  | .expression value => .expression value.pruned
  | pattern => pattern

def prunedPatterns : List Pattern → List Pattern
  | [] => []
  | pattern :: rest => pattern.pruned :: prunedPatterns rest

end

def SourceFile.pruned (file : SourceFile) : SourceFile := { file with nodes := prunedBlock file.nodes }

/-! ### Lists -/

/-- In statement position the placeholders go and what is left is pruned. -/
theorem prunedBlock_eq (nodes : List Node) :
    prunedBlock nodes = (nodes.filter fun n => !n.isPlaceholder).map Node.pruned := by
  induction nodes with
  | nil => rfl
  | cons n rest ih => cases h : n.isPlaceholder <;> simp [prunedBlock, h, ih]

theorem prunedNodes_eq (nodes : List Node) : prunedNodes nodes = nodes.map Node.pruned := by
  induction nodes with
  | nil => rfl
  | cons n rest ih => rw [prunedNodes, ih, List.map_cons]

theorem prunedParams_eq (params : List Param) : prunedParams params = params.map Param.pruned := by
  induction params with
  | nil => rfl
  | cons p rest ih => rw [prunedParams, ih, List.map_cons]

theorem prunedEntries_eq (entries : List Entry) : prunedEntries entries = entries.map Entry.pruned := by
  induction entries with
  | nil => rfl
  | cons e rest ih => rw [prunedEntries, ih, List.map_cons]

theorem prunedArguments_eq (args : List Argument) : prunedArguments args = args.map Argument.pruned := by
  induction args with
  | nil => rfl
  | cons a rest ih => rw [prunedArguments, ih, List.map_cons]

theorem prunedConditions_eq (list : List Condition) : prunedConditions list = list.map Condition.pruned := by
  induction list with
  | nil => rfl
  | cons k rest ih => rw [prunedConditions, ih, List.map_cons]

theorem prunedBranches_eq (branches : List Branch) : prunedBranches branches = branches.map Branch.pruned := by
  induction branches with
  | nil => rfl
  | cons b rest ih => rw [prunedBranches, ih, List.map_cons]

theorem prunedCases_eq (cases : List SwitchCase) : prunedCases cases = cases.map SwitchCase.pruned := by
  induction cases with
  | nil => rfl
  | cons k rest ih => rw [prunedCases, ih, List.map_cons]

theorem prunedCatches_eq (catches : List Catch) : prunedCatches catches = catches.map Catch.pruned := by
  induction catches with
  | nil => rfl
  | cons k rest ih => rw [prunedCatches, ih, List.map_cons]

/-! ### No placeholder is left -/

/-- The statement lists right in a node. -/
def Node.blocks : Node → List (List Node)
  | .typeDecl _ members => [members]
  | .protocolDecl _ members => [members]
  | .extensionDecl _ members => [members]
  | .function _ _ body => [body]
  | .initializer _ _ body => [body]
  | .property _ _ getter => getter.toList
  | .expression (.closure k) => [k.body]
  | .expression (.call _ _ trailing _) => trailing.toList.map Closure.body
  | .ifStmt first elseIfs otherwise => first.body :: elseIfs.map Branch.body ++ otherwise.toList
  | .guardStmt _ otherwise => [otherwise]
  | .loop _ _ body => [body]
  | .forIn _ _ _ body => [body]
  | .switchStmt _ cases default => cases.map SwitchCase.body ++ default.toList
  | .doCatch body catches => body :: catches.map Catch.body
  | .deferStmt body => [body]
  | _ => []

@[simp] theorem Closure.body_pruned (k : Closure) : k.pruned.body = prunedBlock k.body := by
  cases k
  rfl

@[simp] theorem Branch.body_pruned (b : Branch) : b.pruned.body = prunedBlock b.body := by
  cases b
  rfl

@[simp] theorem SwitchCase.body_pruned (k : SwitchCase) : k.pruned.body = prunedBlock k.body := by
  cases k
  rfl

@[simp] theorem Catch.body_pruned (k : Catch) : k.pruned.body = prunedBlock k.body := by
  cases k
  rfl

theorem Node.blocks_pruned (n : Node) : n.pruned.blocks = n.blocks.map prunedBlock := by
  cases n with
  | property head value getter => cases getter <;> rfl
  | expression e =>
    cases e with
    | call callee args trailing effects =>
      cases trailing <;> simp [pruned, Expr.pruned, blocks, prunedClosure?]
    | closure k => simp [pruned, Expr.pruned, blocks]
    | _ => rfl
  | ifStmt first elseIfs otherwise =>
    cases otherwise <;> simp [pruned, blocks, prunedBranches_eq, prunedBlock?]
  | switchStmt subject cases default => cases default <;> simp [pruned, blocks, prunedCases_eq, prunedBlock?]
  | doCatch body catches => simp [pruned, blocks, prunedCatches_eq]
  | _ => rfl

/-- Nodes that are pruned nodes of a list. -/
def PrunedFrom (pruned nodes : List Node) : Prop := pruned ⊆ nodes.map Node.pruned

namespace PrunedFrom

theorem nodes (nodes : List Node) : PrunedFrom (prunedNodes nodes) nodes := by
  rw [PrunedFrom, prunedNodes_eq]
  exact List.Subset.refl _

theorem block (nodes : List Node) : PrunedFrom (prunedBlock nodes) nodes := by
  rw [PrunedFrom, prunedBlock_eq]
  exact List.map_subset _ (List.filter_subset_self nodes)

theorem node? (node : Option Node) : PrunedFrom (prunedNode? node).toList node.toList := by
  cases node with
  | none => exact nodes []
  | some node => exact nodes [node]

theorem block? (body : Option (List Node)) : PrunedFrom ((prunedBlock? body).getD []) (body.getD []) := by
  cases body with
  | none => exact nodes []
  | some body => exact block body

variable {a b c d : List Node}

theorem append (h : PrunedFrom a b) (h' : PrunedFrom c d) : PrunedFrom (a ++ c) (b ++ d) := by
  rw [PrunedFrom, List.map_append, List.append_subset]
  exact ⟨List.subset_append_of_subset_left _ h, List.subset_append_of_subset_right _ h'⟩

theorem flatMap {α : Type} {f : α → List Node} {g : α → α} (h : ∀ x, PrunedFrom (f (g x)) (f x)) (xs : List α) :
    PrunedFrom ((xs.map g).flatMap f) (xs.flatMap f) := by
  induction xs with
  | nil => exact nodes []
  | cons x xs ih =>
    rw [List.map_cons, List.flatMap_cons, List.flatMap_cons]
    exact (h x).append ih

theorem params (params : List Param) :
    PrunedFrom ((prunedParams params).flatMap Param.children) (params.flatMap Param.children) := by
  rw [prunedParams_eq]
  refine flatMap (fun p => ?_) params
  obtain ⟨head, default⟩ := p
  exact node? default

theorem literal (l : Literal) : PrunedFrom l.pruned.children l.children := by
  cases l with
  | tuple elements => exact nodes elements
  | array elements => exact nodes elements
  | dictionary entries =>
    rw [Literal.pruned, prunedEntries_eq]
    refine flatMap (fun e => ?_) entries
    obtain ⟨key, value⟩ := e
    exact nodes [key, value]
  | _ => exact nodes []

theorem closure (k : Closure) : PrunedFrom k.pruned.children k.children := by
  obtain ⟨head, body⟩ := k
  exact block body

theorem expr (e : Expr) : PrunedFrom e.pruned.children e.children := by
  cases e with
  | literal value => exact literal value
  | call callee args trailing effects =>
    have hargs : PrunedFrom ((prunedArguments args).flatMap Argument.children) (args.flatMap Argument.children) := by
      rw [prunedArguments_eq]
      refine flatMap (fun a => ?_) args
      obtain ⟨label, value⟩ := a
      exact nodes [value]
    have htrailing : PrunedFrom ((prunedClosure? trailing).toList.flatMap Closure.children)
        (trailing.toList.flatMap Closure.children) := by
      cases trailing with
      | none => exact nodes []
      | some k => exact flatMap closure [k]
    exact ((nodes [callee]).append hargs).append htrailing
  | member base name => exact node? base
  | binary lhs op rhs isParenthesized => exact nodes [lhs, rhs]
  | unary op operand => exact nodes [operand]
  | postfixed operand mark => exact nodes [operand]
  | closure k => exact closure k

theorem conditions (list : List Condition) :
    PrunedFrom ((prunedConditions list).flatMap Condition.children) (list.flatMap Condition.children) := by
  rw [prunedConditions_eq]
  refine flatMap (fun k => ?_) list
  cases k with
  | expr value => exact nodes [value]
  | binding keyword name value => exact node? value
  | caseMatch pattern value => exact nodes [pattern, value]

theorem branch (b : Branch) : PrunedFrom b.pruned.children b.children := by
  obtain ⟨list, body⟩ := b
  exact (conditions list).append (block body)

theorem branches (list : List Branch) :
    PrunedFrom ((prunedBranches list).flatMap Branch.children) (list.flatMap Branch.children) := by
  rw [prunedBranches_eq]
  exact flatMap branch list

theorem cases (list : List SwitchCase) :
    PrunedFrom ((prunedCases list).flatMap SwitchCase.children) (list.flatMap SwitchCase.children) := by
  rw [prunedCases_eq]
  refine flatMap (fun k => ?_) list
  obtain ⟨patterns, guard, body⟩ := k
  exact ((nodes patterns).append (node? guard)).append (block body)

theorem catches (list : List Catch) :
    PrunedFrom ((prunedCatches list).flatMap Catch.children) (list.flatMap Catch.children) := by
  rw [prunedCatches_eq]
  refine flatMap (fun k => ?_) list
  obtain ⟨pattern, body⟩ := k
  exact (node? pattern).append (block body)

mutual

theorem pattern : (p : Pattern) → PrunedFrom p.pruned.children p.children
  | .tuple elements => patterns elements
  | .expression value => nodes [value]
  | .identifier _ => nodes []
  | .enumCase _ _ => nodes []
  | .wildcard => nodes []

theorem patterns : (ps : List Pattern) → PrunedFrom (childrenOfPatterns (prunedPatterns ps)) (childrenOfPatterns ps)
  | [] => nodes []
  | p :: rest => (pattern p).append (patterns rest)

end

end PrunedFrom

open PrunedFrom in
/-- What is right below a pruned node was right below the node, and is pruned. -/
theorem Node.prunedFrom_children (n : Node) : PrunedFrom n.pruned.children n.children := by
  cases n with
  | typeDecl head members => exact block members
  | enumCase head rawValue =>
    cases rawValue with
    | none => exact nodes []
    | some value => exact flatMap literal [value]
  | protocolDecl head members => exact block members
  | extensionDecl head members => exact block members
  | function head list body => exact (params list).append (block body)
  | initializer head list body => exact (params list).append (block body)
  | property head value getter => exact (node? value).append (block? getter)
  | expression e => exact expr e
  | assignment target op value => exact nodes [target, value]
  | tupleAssignment names value mode => exact nodes [value]
  | ifStmt first elseIfs otherwise => exact ((branch first).append (branches elseIfs)).append (block? otherwise)
  | guardStmt list otherwise => exact (conditions list).append (block otherwise)
  | loop style condition body => exact (nodes [condition]).append (block body)
  | forIn binding sequence filter body =>
    exact ((nodes [binding, sequence]).append (node? filter)).append (block body)
  | switchStmt subject list default => exact ((nodes [subject]).append (cases list)).append (block? default)
  | doCatch body list => exact (block body).append (catches list)
  | returnStmt value => exact node? value
  | throwStmt error => exact nodes [error]
  | deferStmt body => exact block body
  | pattern p => exact PrunedFrom.pattern p
  | _ => exact nodes []

theorem Node.isPlaceholder_pruned (n : Node) : n.pruned.isPlaceholder = n.isPlaceholder := by cases n <;> rfl

theorem isPlaceholder_of_mem_prunedBlock {nodes : List Node} {n : Node} (h : n ∈ prunedBlock nodes) :
    n.isPlaceholder = false := by
  rw [prunedBlock_eq] at h
  obtain ⟨m, hm, rfl⟩ := List.mem_map.1 h
  rw [Node.isPlaceholder_pruned]
  simpa using (List.mem_filter.1 hm).2

/-- No statement list in these trees has a placeholder in it. -/
structure PlaceholderFree (nodes : List Node) : Prop where
  top : ∀ n ∈ nodes, n.isPlaceholder = false
  below : ∀ n ∈ nodes.flatMap Node.subtree, ∀ block ∈ n.blocks, ∀ c ∈ block, c.isPlaceholder = false

theorem Node.isPlaceholder_of_mem_blocks (n : Node) :
    ∀ m ∈ n.pruned.subtree, ∀ block ∈ m.blocks, ∀ c ∈ block, c.isPlaceholder = false := by
  induction n using Node.induct with
  | step n ih =>
    intro m hm block hblock c hc
    rw [Node.subtree_eq] at hm
    rcases List.mem_cons.1 hm with rfl | hm
    · rw [Node.blocks_pruned] at hblock
      obtain ⟨body, -, rfl⟩ := List.mem_map.1 hblock
      exact isPlaceholder_of_mem_prunedBlock hc
    · obtain ⟨k, hk, hm⟩ := List.mem_flatMap.1 hm
      obtain ⟨child, hchild, rfl⟩ := List.mem_map.1 (n.prunedFrom_children hk)
      exact ih child hchild m hm block hblock c hc

theorem placeholderFree_prunedBlock (nodes : List Node) : PlaceholderFree (prunedBlock nodes) where
  top _ h := isPlaceholder_of_mem_prunedBlock h
  below m hm := by
    obtain ⟨n, hn, hm⟩ := List.mem_flatMap.1 hm
    obtain ⟨k, -, rfl⟩ := List.mem_map.1 (PrunedFrom.block nodes hn)
    exact k.isPlaceholder_of_mem_blocks m hm

end SwiftForge
