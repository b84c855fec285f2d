import Mathlib.Data.List.Basic
import SwiftForge.Tree.Node

/-! The nodes directly below a part of a tree. What holds of a node as soon as it holds of those below it holds of
    every node, so a statement about trees is proved for one layer at a time. -/

namespace SwiftForge

def Param.children (p : Param) : List Node := p.default.toList

def Entry.children (e : Entry) : List Node := [e.key, e.value]

def Literal.children : Literal → List Node
  | .tuple elements => elements
  | .array elements => elements
  | .dictionary entries => entries.flatMap Entry.children
  | _ => []

def Argument.children (a : Argument) : List Node := [a.value]

def Closure.children (c : Closure) : List Node := c.body

def Expr.children : Expr → List Node
  | .literal value => value.children
  | .call callee args trailing _ =>
    callee :: args.flatMap Argument.children ++ trailing.toList.flatMap Closure.children
  | .member base _ => base.toList
  | .binary lhs _ rhs _ => [lhs, rhs]
  | .unary _ operand => [operand]
  | .postfixed operand _ => [operand]
  | .closure k => k.children

def Condition.children : Condition → List Node
  | .expr value => [value]
  | .binding _ _ value => value.toList
  | .caseMatch pattern value => [pattern, value]

def Branch.children : Branch → List Node
  | ⟨conditions, body⟩ => conditions.flatMap Condition.children ++ body

def SwitchCase.children : SwitchCase → List Node
  | ⟨patterns, guard, body⟩ => patterns ++ guard.toList ++ body

def Catch.children : Catch → List Node
  | ⟨pattern, body⟩ => pattern.toList ++ body

mutual

/-- The expressions that a pattern matches against, through all patterns inside it. -/
def Pattern.children : Pattern → List Node
  | .tuple elements => childrenOfPatterns elements
  | .expression value => [value]
  | _ => []

def childrenOfPatterns : List Pattern → List Node
  | [] => []
  | pattern :: rest => pattern.children ++ childrenOfPatterns rest

end

def Node.children : Node → List Node
  | .typeDecl _ members => members
  | .enumCase _ rawValue => rawValue.toList.flatMap Literal.children
  | .protocolDecl _ members => members
  | .extensionDecl _ members => members
  | .function _ params body => params.flatMap Param.children ++ body
  | .initializer _ params body => params.flatMap Param.children ++ body
  | .property _ value getter => value.toList ++ getter.getD []
  | .expression expr => expr.children
  | .assignment target _ value => [target, value]
  | .tupleAssignment _ value _ => [value]
  | .ifStmt first elseIfs otherwise =>
    first.children ++ elseIfs.flatMap Branch.children ++ otherwise.getD []
  | .guardStmt conditions otherwise => conditions.flatMap Condition.children ++ otherwise
  | .loop _ condition body => condition :: body
  | .forIn binding sequence filter body => binding :: sequence :: filter.toList ++ body
  | .switchStmt subject cases default => subject :: cases.flatMap SwitchCase.children ++ default.getD []
  | .doCatch body catches => body ++ catches.flatMap Catch.children
  | .returnStmt value => value.toList
  | .throwStmt error => [error]
  | .deferStmt body => body
  | .pattern p => p.children
  | _ => []

/-! ### Size -/

theorem sizeOf_lt_of_mem_toList {α : Type} [SizeOf α] {x : α} {o : Option α} (h : x ∈ o.toList) :
    sizeOf x < sizeOf o := by
  obtain rfl := Option.mem_toList.1 h
  simp

theorem sizeOf_lt_of_mem_getD {α : Type} [SizeOf α] {x : α} {o : Option (List α)} (h : x ∈ o.getD []) :
    sizeOf x < sizeOf o := by
  cases o with
  | none => simp at h
  | some xs =>
    have := List.sizeOf_lt_of_mem (show x ∈ xs from h)
    simp only [Option.some.sizeOf_spec]
    omega

/-- What is smaller than one of several parts is smaller than all of them together. -/
theorem sizeOf_lt_of_mem_flatMap {α : Type} [SizeOf α] {f : α → List Node} {c : Node} {xs : List α}
    (hf : ∀ x, c ∈ f x → sizeOf c < sizeOf x) (h : c ∈ xs.flatMap f) : sizeOf c < sizeOf xs := by
  obtain ⟨x, hx, hc⟩ := List.mem_flatMap.1 h
  have := List.sizeOf_lt_of_mem hx
  have := hf x hc
  omega

theorem sizeOf_lt_of_mem_toList_flatMap {α : Type} [SizeOf α] {f : α → List Node} {c : Node} {o : Option α}
    (hf : ∀ x, c ∈ f x → sizeOf c < sizeOf x) (h : c ∈ o.toList.flatMap f) : sizeOf c < sizeOf o := by
  obtain ⟨x, hx, hc⟩ := List.mem_flatMap.1 h
  have := sizeOf_lt_of_mem_toList hx
  have := hf x hc
  omega

variable {c : Node}

theorem Param.sizeOf_child (p : Param) (h : c ∈ p.children) : sizeOf c < sizeOf p := by
  obtain ⟨head, default⟩ := p
  have := sizeOf_lt_of_mem_toList (show c ∈ default.toList from h)
  rw [Param.mk.sizeOf_spec]
  omega

theorem Entry.sizeOf_child (e : Entry) (h : c ∈ e.children) : sizeOf c < sizeOf e := by
  obtain ⟨key, value⟩ := e
  rw [Entry.mk.sizeOf_spec]
  rcases List.mem_pair.1 h with rfl | rfl <;> omega

theorem Literal.sizeOf_child (l : Literal) (h : c ∈ l.children) : sizeOf c < sizeOf l := by
  cases l with
  | tuple elements =>
    have := List.sizeOf_lt_of_mem (show c ∈ elements from h)
    rw [Literal.tuple.sizeOf_spec]
    omega
  | array elements =>
    have := List.sizeOf_lt_of_mem (show c ∈ elements from h)
    rw [Literal.array.sizeOf_spec]
    omega
  | dictionary entries =>
    have := sizeOf_lt_of_mem_flatMap Entry.sizeOf_child h
    rw [Literal.dictionary.sizeOf_spec]
    omega
  | _ => simp [children] at h

theorem Argument.sizeOf_child (a : Argument) (h : c ∈ a.children) : sizeOf c < sizeOf a := by
  obtain ⟨label, value⟩ := a
  obtain rfl := List.mem_singleton.1 h
  rw [Argument.mk.sizeOf_spec]
  omega

theorem Closure.sizeOf_child (k : Closure) (h : c ∈ k.children) : sizeOf c < sizeOf k := by
  obtain ⟨head, body⟩ := k
  have := List.sizeOf_lt_of_mem (show c ∈ body from h)
  rw [Closure.mk.sizeOf_spec]
  omega

theorem Expr.sizeOf_child (e : Expr) (h : c ∈ e.children) : sizeOf c < sizeOf e := by
  cases e with
  | literal value =>
    have := value.sizeOf_child h
    simp only [Expr.literal.sizeOf_spec]
    omega
  | call callee args trailing effects =>
    simp only [Expr.call.sizeOf_spec]
    rcases List.mem_append.1 h with h | h
    · rcases List.mem_cons.1 h with rfl | h
      · omega
      · have := sizeOf_lt_of_mem_flatMap Argument.sizeOf_child h
        omega
    · have := sizeOf_lt_of_mem_toList_flatMap Closure.sizeOf_child h
      omega
  | member base name =>
    have := sizeOf_lt_of_mem_toList h
    simp only [Expr.member.sizeOf_spec]
    omega
  | binary lhs op rhs isParenthesized =>
    simp only [Expr.binary.sizeOf_spec]
    rcases List.mem_pair.1 h with rfl | rfl <;> omega
  | unary op operand =>
    obtain rfl := List.mem_singleton.1 h
    simp only [Expr.unary.sizeOf_spec]
    omega
  | postfixed operand mark =>
    obtain rfl := List.mem_singleton.1 h
    simp only [Expr.postfixed.sizeOf_spec]
    omega
  | closure closure =>
    have := closure.sizeOf_child h
    simp only [Expr.closure.sizeOf_spec]
    omega

theorem Condition.sizeOf_child (k : Condition) (h : c ∈ k.children) : sizeOf c < sizeOf k := by
  cases k with
  | expr value =>
    obtain rfl := List.mem_singleton.1 h
    simp only [Condition.expr.sizeOf_spec]
    omega
  | binding binding name value =>
    have := sizeOf_lt_of_mem_toList h
    simp only [Condition.binding.sizeOf_spec]
    omega
  | caseMatch pattern value =>
    simp only [Condition.caseMatch.sizeOf_spec]
    rcases List.mem_pair.1 h with rfl | rfl <;> omega

theorem Branch.sizeOf_child (b : Branch) (h : c ∈ b.children) : sizeOf c < sizeOf b := by
  obtain ⟨conditions, body⟩ := b
  rw [Branch.mk.sizeOf_spec]
  rcases List.mem_append.1 h with h | h
  · have := sizeOf_lt_of_mem_flatMap Condition.sizeOf_child h
    omega
  · have := List.sizeOf_lt_of_mem h
    omega

theorem SwitchCase.sizeOf_child (k : SwitchCase) (h : c ∈ k.children) : sizeOf c < sizeOf k := by
  obtain ⟨patterns, guard, body⟩ := k
  rw [SwitchCase.mk.sizeOf_spec]
  rcases List.mem_append.1 h with h | h
  · rcases List.mem_append.1 h with h | h
    · have := List.sizeOf_lt_of_mem h
      omega
    · have := sizeOf_lt_of_mem_toList h
      omega
  · have := List.sizeOf_lt_of_mem h
    omega

theorem Catch.sizeOf_child (k : Catch) (h : c ∈ k.children) : sizeOf c < sizeOf k := by
  obtain ⟨pattern, body⟩ := k
  rw [Catch.mk.sizeOf_spec]
  rcases List.mem_append.1 h with h | h
  · have := sizeOf_lt_of_mem_toList h
    omega
  · have := List.sizeOf_lt_of_mem h
    omega

mutual

theorem Pattern.sizeOf_child : (p : Pattern) → c ∈ p.children → sizeOf c < sizeOf p
  | .tuple elements, h => by
    have := sizeOf_lt_of_mem_patterns elements h
    rw [Pattern.tuple.sizeOf_spec]
    omega
  | .expression value, h => by
    obtain rfl := List.mem_singleton.1 h
    rw [Pattern.expression.sizeOf_spec]
    omega
  | .identifier _, h => by simp [Pattern.children] at h
  | .enumCase _ _, h => by simp [Pattern.children] at h
  | .wildcard, h => by simp [Pattern.children] at h

theorem sizeOf_lt_of_mem_patterns : (ps : List Pattern) → c ∈ childrenOfPatterns ps → sizeOf c < sizeOf ps
  | [], h => by simp [childrenOfPatterns] at h
  | p :: rest, h => by
    rw [List.cons.sizeOf_spec]
    rcases List.mem_append.1 h with h | h
    · have := p.sizeOf_child h
      omega
    · have := sizeOf_lt_of_mem_patterns rest h
      omega

end

theorem Node.sizeOf_child (n : Node) (h : c ∈ n.children) : sizeOf c < sizeOf n := by
  cases n with
  | typeDecl head members =>
    have := List.sizeOf_lt_of_mem (show c ∈ members from h)
    rw [Node.typeDecl.sizeOf_spec]
    omega
  | enumCase head rawValue =>
    have := sizeOf_lt_of_mem_toList_flatMap Literal.sizeOf_child h
    rw [Node.enumCase.sizeOf_spec]
    omega
  | protocolDecl head members =>
    have := List.sizeOf_lt_of_mem (show c ∈ members from h)
    rw [Node.protocolDecl.sizeOf_spec]
    omega
  | extensionDecl head members =>
    have := List.sizeOf_lt_of_mem (show c ∈ members from h)
    rw [Node.extensionDecl.sizeOf_spec]
    omega
  | function head params body =>
    rw [Node.function.sizeOf_spec]
    rcases List.mem_append.1 h with h | h
    · have := sizeOf_lt_of_mem_flatMap Param.sizeOf_child h
      omega
    · have := List.sizeOf_lt_of_mem h
      omega
  | initializer head params body =>
    rw [Node.initializer.sizeOf_spec]
    rcases List.mem_append.1 h with h | h
    · have := sizeOf_lt_of_mem_flatMap Param.sizeOf_child h
      omega
    · have := List.sizeOf_lt_of_mem h
      omega
  | property head value getter =>
    rw [Node.property.sizeOf_spec]
    rcases List.mem_append.1 h with h | h
    · have := sizeOf_lt_of_mem_toList h
      omega
    · have := sizeOf_lt_of_mem_getD h
      omega
  | expression expr =>
    have := expr.sizeOf_child h
    rw [Node.expression.sizeOf_spec]
    omega
  | assignment target op value =>
    rw [Node.assignment.sizeOf_spec]
    rcases List.mem_pair.1 h with rfl | rfl <;> omega
  | tupleAssignment names value mode =>
    obtain rfl := List.mem_singleton.1 h
    rw [Node.tupleAssignment.sizeOf_spec]
    omega
  | ifStmt first elseIfs otherwise =>
    rw [Node.ifStmt.sizeOf_spec]
    rcases List.mem_append.1 h with h | h
    · rcases List.mem_append.1 h with h | h
      · have := first.sizeOf_child h
        omega
      · have := sizeOf_lt_of_mem_flatMap Branch.sizeOf_child h
        omega
    · have := sizeOf_lt_of_mem_getD h
      omega
  | guardStmt conditions otherwise =>
    rw [Node.guardStmt.sizeOf_spec]
    rcases List.mem_append.1 h with h | h
    · have := sizeOf_lt_of_mem_flatMap Condition.sizeOf_child h
      omega
    · have := List.sizeOf_lt_of_mem h
      omega
  | loop style condition body =>
    rw [Node.loop.sizeOf_spec]
    rcases List.mem_cons.1 h with rfl | h
    · omega
    · have := List.sizeOf_lt_of_mem h
      omega
  | forIn pattern sequence filter body =>
    rw [Node.forIn.sizeOf_spec]
    rcases List.mem_append.1 h with h | h
    · rcases List.mem_cons.1 h with rfl | h
      · omega
      · rcases List.mem_cons.1 h with rfl | h
        · omega
        · have := sizeOf_lt_of_mem_toList h
          omega
    · have := List.sizeOf_lt_of_mem h
      omega
  | switchStmt subject cases default =>
    rw [Node.switchStmt.sizeOf_spec]
    rcases List.mem_append.1 h with h | h
    · rcases List.mem_cons.1 h with rfl | h
      · omega
      · have := sizeOf_lt_of_mem_flatMap SwitchCase.sizeOf_child h
        omega
    · have := sizeOf_lt_of_mem_getD h
      omega
  | doCatch body catches =>
    rw [Node.doCatch.sizeOf_spec]
    rcases List.mem_append.1 h with h | h
    · have := List.sizeOf_lt_of_mem h
      omega
    · have := sizeOf_lt_of_mem_flatMap Catch.sizeOf_child h
      omega
  | returnStmt value =>
    have := sizeOf_lt_of_mem_toList (show c ∈ value.toList from h)
    rw [Node.returnStmt.sizeOf_spec]
    omega
  | throwStmt error =>
    obtain rfl := List.mem_singleton.1 h
    rw [Node.throwStmt.sizeOf_spec]
    omega
  | deferStmt body =>
    have := List.sizeOf_lt_of_mem (show c ∈ body from h)
    rw [Node.deferStmt.sizeOf_spec]
    omega
  | pattern p =>
    have := p.sizeOf_child h
    rw [Node.pattern.sizeOf_spec]
    omega
  | _ => simp [children] at h

/-- What holds of a node as soon as it holds of its children holds of every node. -/
theorem Node.induct {P : Node → Prop} (step : ∀ n : Node, (∀ c ∈ n.children, P c) → P n) (n : Node) : P n :=
  step n fun c hc =>
    have := Node.sizeOf_child n hc
    Node.induct step c
termination_by sizeOf n

end SwiftForge
