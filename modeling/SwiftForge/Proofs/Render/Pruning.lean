import SwiftForge.Proofs.Render.Congruence
import SwiftForge.Proofs.Tree.Pruning

/-! Placeholders in statement position leave no trace in the text. A switch clause and a section of a file look at the
    fragments of their nodes, to which a placeholder adds none, and an `else` or a getter looks at whether there is a
    list; a closure alone looks at the nodes, so a closure whose only nodes are placeholders is not the empty one. -/

namespace SwiftForge

open List (Forall₂)
open Option (Rel)

/-- A closure that has a node keeps one. -/
def Closure.Kept (k : Closure) : Prop := k.body ≠ [] → prunedBlock k.body ≠ []

/-- The closures right in an expression. -/
def Expr.closures : Expr → List Closure
  | .closure k => [k]
  | .call _ _ trailing _ => trailing.toList
  | _ => []

def Node.closures : Node → List Closure
  | .expression e => e.closures
  | _ => []

/-- Pruning empties no closure in these trees that was not empty before. -/
def ClosuresKept (nodes : List Node) : Prop := ∀ n ∈ nodes.flatMap Node.subtree, ∀ k ∈ n.closures, k.Kept

/-- Nodes with the text of their pruned nodes, wherever they stand. The warnings are left aside. -/
abbrev PrunedAlike : List Node → Prop := AllNodes fun n => n.pruned.SameText False n

/-! ### One layer -/

/-- What holds of each element by itself holds along a list. -/
theorem PrunedAlike.each {α : Type} {children : α → List Node} {pruned : α → α} {R : α → α → Prop} {xs : List α}
    (h : PrunedAlike (xs.flatMap children)) (hR : ∀ x, PrunedAlike (children x) → R (pruned x) x) :
    Forall₂ R (xs.map pruned) xs := by
  induction xs with
  | nil => exact .nil
  | cons x xs ih => exact .cons (hR x h.left) (ih h.right)

theorem Node.eq_empty_of_isPlaceholder {n : Node} (h : n.isPlaceholder = true) : n = .empty := by
  cases n with
  | empty => rfl
  | _ => cases h

section

variable {nodes : List Node}

/-- A placeholder adds no fragment to those of its list. -/
theorem sameBody_prunedBlock (h : PrunedAlike nodes) : SameBody False (prunedBlock nodes) nodes := by
  induction nodes with
  | nil => exact .refl _
  | cons n rest ih =>
    rw [prunedBlock]
    split
    · obtain rfl := Node.eq_empty_of_isPlaceholder ‹_›
      exact ⟨(ih h.tail).value, False.elim⟩
    · exact .cons h.head.fragments (ih h.tail)

theorem requirements_pruned (h : PrunedAlike nodes) :
    SameFragments False (requirements (prunedBlock nodes)) (requirements nodes) := by
  induction nodes with
  | nil => exact .refl _
  | cons n rest ih =>
    rw [prunedBlock]
    split
    · obtain rfl := Node.eq_empty_of_isPlaceholder ‹_›
      exact ⟨(ih h.tail).value, False.elim⟩
    · exact requirements_cons_congr h.head.requirement (ih h.tail)

theorem sameBody_prunedBlock? {block : Option (List Node)} (h : PrunedAlike (block.getD [])) :
    Rel (SameBody False) (prunedBlock? block) block := by
  cases block with
  | none => exact .none
  | some body => exact .some (sameBody_prunedBlock h)

theorem sameInline_prunedNodes (role : Role) (h : PrunedAlike nodes) :
    Forall₂ (SameInline False role) (prunedNodes nodes) nodes := by
  induction nodes with
  | nil => exact .nil
  | cons n rest ih => exact .cons (h.head.inline role) (ih h.tail)

theorem sameInline_prunedNode? (role : Role) {o : Option Node} (h : PrunedAlike o.toList) :
    Rel (SameInline False role) (prunedNode? o) o := by
  cases o with
  | none => exact .none
  | some n => exact .some (h.head.inline role)

end

/-! ### Expressions -/

theorem sameText_prunedParams {params : List Param} (h : PrunedAlike (params.flatMap Param.children)) :
    Forall₂ (Param.SameText False) (prunedParams params) params := by
  rw [prunedParams_eq]
  refine PrunedAlike.each h fun param hparam => ?_
  obtain ⟨head, default⟩ := param
  exact .mk (sameInline_prunedNode? _ hparam)

theorem sameText_prunedArguments {args : List Argument} (h : PrunedAlike (args.flatMap Argument.children)) :
    Forall₂ (Argument.SameText False) (prunedArguments args) args := by
  rw [prunedArguments_eq]
  refine PrunedAlike.each h fun argument hargument => ?_
  obtain ⟨label, value⟩ := argument
  exact .mk (hargument.head.inline _)

theorem Literal.sameText_pruned {l : Literal} (h : PrunedAlike l.children) : l.pruned.SameText False l := by
  cases l with
  | tuple elements => exact .tuple (sameInline_prunedNodes _ h)
  | array elements => exact .array (sameInline_prunedNodes _ h)
  | dictionary entries =>
    rw [pruned, prunedEntries_eq]
    refine .dictionary (PrunedAlike.each h fun entry hentry => ?_)
    obtain ⟨key, value⟩ := entry
    exact .mk (hentry.head.inline _) (hentry.tail.head.inline _)
  | _ => exact .refl _

/-- A closure that has nodes keeps one, or it would lose the line of its body. -/
theorem Closure.sameText_pruned {k : Closure} (hkept : k.Kept) (h : PrunedAlike k.children) :
    k.pruned.SameText False k := by
  obtain ⟨head, body⟩ := k
  have hempty : (prunedBlock body).isEmpty = body.isEmpty := by
    cases body with
    | nil => rfl
    | cons n rest => exact List.isEmpty_eq_false_iff.2 (hkept (List.cons_ne_nil n rest))
  exact .mk (sameBody_prunedBlock h) hempty

theorem Expr.sameText_pruned {e : Expr} (hkept : ∀ k ∈ e.closures, k.Kept) (h : PrunedAlike e.children) :
    e.pruned.SameText False e := by
  cases e with
  | literal value => exact .literal (value.sameText_pruned h)
  | call callee args trailing effects =>
    have hplaces : PrunedAlike (_ :: _) := h.left
    have htrailing : Rel (Closure.SameText False) (prunedClosure? trailing) trailing := by
      cases trailing with
      | none => exact .none
      | some k => exact .some (k.sameText_pruned (hkept k (List.mem_singleton_self k)) h.right.left)
    exact .call (hplaces.head.inline _) (sameText_prunedArguments hplaces.tail) htrailing _
  | member base name => exact .member (sameInline_prunedNode? _ h) _
  | binary lhs op rhs isParenthesized => exact .binary (h.head.inline _) _ (h.tail.head.inline _) _
  | unary op operand => exact .unary _ (h.head.inline _)
  | postfixed operand mark => exact .postfixed (h.head.inline _) _
  | closure k => exact .closure (k.sameText_pruned (hkept k (List.mem_singleton_self k)) h)

/-! ### Patterns -/

mutual

theorem Pattern.sameText_pruned : (p : Pattern) → PrunedAlike p.children → p.pruned.SameText False p
  | .identifier _, _ => .refl _
  | .enumCase _ _, _ => .refl _
  | .wildcard, _ => .refl _
  | .tuple elements, h => .tuple (sameText_prunedPatterns elements h)
  | .expression _, h => .expression (h.head.inline _)

theorem sameText_prunedPatterns : (ps : List Pattern) → PrunedAlike (childrenOfPatterns ps) →
    Forall₂ (Pattern.SameText False) (prunedPatterns ps) ps
  | [], _ => .nil
  | p :: rest, h => .cons (p.sameText_pruned h.left) (sameText_prunedPatterns rest h.right)

end

/-! ### Clauses -/

theorem sameText_prunedConditions {list : List Condition} (h : PrunedAlike (list.flatMap Condition.children)) :
    Forall₂ (Condition.SameText False) (prunedConditions list) list := by
  rw [prunedConditions_eq]
  refine PrunedAlike.each h fun condition hcondition => ?_
  cases condition with
  | expr value => exact .expr (hcondition.head.inline _)
  | binding keyword name value => exact .binding _ _ (sameInline_prunedNode? _ hcondition)
  | caseMatch pattern value => exact .caseMatch (hcondition.head.inline _) (hcondition.tail.head.inline _)

theorem Branch.sameText_pruned {b : Branch} (h : PrunedAlike b.children) : b.pruned.SameText False b := by
  obtain ⟨conditions, body⟩ := b
  exact .mk (sameText_prunedConditions h.left) (sameBody_prunedBlock h.right)

theorem sameText_prunedBranches {list : List Branch} (h : PrunedAlike (list.flatMap Branch.children)) :
    Forall₂ (Branch.SameText False) (prunedBranches list) list := by
  rw [prunedBranches_eq]
  exact PrunedAlike.each h fun _ hbranch => Branch.sameText_pruned hbranch

theorem sameText_prunedCases {list : List SwitchCase} (h : PrunedAlike (list.flatMap SwitchCase.children)) :
    Forall₂ (SwitchCase.SameText False) (prunedCases list) list := by
  rw [prunedCases_eq]
  refine PrunedAlike.each h fun clause hclause => ?_
  obtain ⟨patterns, guard, body⟩ := clause
  have hplaces : PrunedAlike (_ ++ _) := hclause.left
  exact .mk (sameInline_prunedNodes _ hplaces.left) (sameInline_prunedNode? _ hplaces.right)
    (sameBody_prunedBlock hclause.right)

theorem sameText_prunedCatches {list : List Catch} (h : PrunedAlike (list.flatMap Catch.children)) :
    Forall₂ (Catch.SameText False) (prunedCatches list) list := by
  rw [prunedCatches_eq]
  refine PrunedAlike.each h fun clause hclause => ?_
  obtain ⟨pattern, body⟩ := clause
  exact .mk (sameInline_prunedNode? _ hclause.left) (sameBody_prunedBlock hclause.right)

/-! ### Nodes -/

theorem Node.sameText_pruned_of_children {n : Node} (hkept : ∀ k ∈ n.closures, k.Kept) (h : PrunedAlike n.children) :
    n.pruned.SameText False n := by
  cases n with
  | typeDecl head members => exact .typeDecl (sameBody_prunedBlock h)
  | enumCase head rawValue =>
    have hvalue : Rel (Literal.SameText False) (prunedLiteral? rawValue) rawValue := by
      cases rawValue with
      | none => exact .none
      | some value => exact .some (value.sameText_pruned h.left)
    exact .enumCase hvalue
  | protocolDecl head members => exact .protocolDecl (requirements_pruned h)
  | extensionDecl head members => exact .extensionDecl (sameBody_prunedBlock h)
  | function head params body =>
    exact .function (sameText_prunedParams h.left) (sameBody_prunedBlock h.right) False.elim
  | initializer head params body => exact .initializer (sameText_prunedParams h.left) (sameBody_prunedBlock h.right)
  | property head value getter => exact .property (sameInline_prunedNode? _ h.left) (sameBody_prunedBlock? h.right)
  | expression e => exact .expression (e.sameText_pruned hkept h)
  | assignment target op value => exact .assignment (h.head.inline _) _ (h.tail.head.inline _)
  | tupleAssignment names value mode => exact .tupleAssignment _ (h.head.inline _) _
  | ifStmt first elseIfs otherwise =>
    have hbranches : PrunedAlike (_ ++ _) := h.left
    exact .ifStmt (first.sameText_pruned hbranches.left) (sameText_prunedBranches hbranches.right)
      (sameBody_prunedBlock? h.right)
  | guardStmt conditions otherwise =>
    exact .guardStmt (sameText_prunedConditions h.left) (sameBody_prunedBlock h.right)
  | loop style condition body => exact .loop _ (h.head.inline _) (sameBody_prunedBlock h.tail)
  | forIn binding sequence filter body =>
    have hplaces : PrunedAlike (_ :: _ :: _) := h.left
    exact .forIn hplaces.head.binding (hplaces.tail.head.inline _) (sameInline_prunedNode? _ hplaces.tail.tail)
      (sameBody_prunedBlock h.right)
  | switchStmt subject cases default =>
    have hplaces : PrunedAlike (_ :: _) := h.left
    exact .switchStmt (hplaces.head.inline _) (sameText_prunedCases hplaces.tail) (sameBody_prunedBlock? h.right)
  | doCatch body catches => exact .doCatch (sameBody_prunedBlock h.left) (sameText_prunedCatches h.right)
  | returnStmt value => exact .returnStmt (sameInline_prunedNode? _ h)
  | throwStmt error => exact .throwStmt (h.head.inline _)
  | deferStmt body => exact .deferStmt (sameBody_prunedBlock h)
  | pattern p => exact .pattern (p.sameText_pruned h)
  | _ => exact .refl _

theorem Node.sameText_pruned {n : Node} (hkept : ∀ m ∈ n.subtree, ∀ k ∈ m.closures, k.Kept) :
    n.pruned.SameText False n := by
  induction n using Node.induct with
  | step n ih =>
    rw [subtree_eq] at hkept
    refine sameText_pruned_of_children (hkept n List.mem_cons_self) fun c hc => ?_
    exact ih c hc fun m hm => hkept m (List.mem_cons_of_mem _ (List.mem_flatMap.2 ⟨c, hc, hm⟩))

/-- Without the placeholders in its statement lists a list of nodes has the same text, and so has a file, as long as no
    closure with nodes loses all of them. -/
theorem render_pruned (indent : Indent) (nodes : List Node) (hkept : ClosuresKept nodes) :
    PlaceholderFree (prunedBlock nodes) ∧ (render indent (prunedBlock nodes)).value = (render indent nodes).value ∧
      ∀ file : SourceFile, file.nodes = nodes → (file.pruned.render indent).value = (file.render indent).value := by
  have hbody : SameBody False (prunedBlock nodes) nodes :=
    sameBody_prunedBlock fun n hn => n.sameText_pruned fun m hm => hkept m (List.mem_flatMap.2 ⟨n, hn, hm⟩)
  refine ⟨placeholderFree_prunedBlock nodes, (render_congr indent hbody).value, ?_⟩
  rintro file rfl
  exact (SourceFile.render_congr (f := file.pruned) (g := file) indent rfl rfl hbody).value

/-- Placeholders alone in a `default` clause and next to other nodes in a `defer` and in a closure. -/
def sparse : List Node :=
  [.empty,
    .deferStmt [.empty, .expression (.call (.reference "run") [] (some { body := [.raw "work()", .empty] }) {})],
    .switchStmt (.reference "x") [] (some [.empty, .empty])]

theorem render_pruned_sparse : ClosuresKept sparse ∧ prunedBlock sparse ≠ sparse ∧
    (render .swift (prunedBlock sparse)).value = (render .swift sparse).value := by
  have hkept : ClosuresKept sparse := by
    simp [ClosuresKept, sparse, Node.subtree_eq, Node.children, Expr.children, Closure.children, Node.reference,
      Literal.children, Node.closures, Expr.closures, Closure.Kept, prunedBlock, Node.isPlaceholder]
  refine ⟨hkept, fun h => ?_, (render_pruned .swift sparse hkept).2.1⟩
  exact absurd (congrArg List.length h) (by decide)

/-- A closure whose only node is a placeholder has a line for its body, and the empty one has none. -/
example : (render .swift [.expression (.closure { body := [.empty] })]).value = "\x7b\n\x7d\n" ∧
    (render .swift [.expression (.closure { body := prunedBlock [.empty] })]).value = "\x7b\x7d\n" := by
  decide +kernel

end SwiftForge
