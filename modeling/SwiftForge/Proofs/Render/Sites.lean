import Mathlib.Data.List.Perm.Basic
import SwiftForge.Proofs.Tree.Children
import SwiftForge.Render.Node

/-! The places that a rendering comes to, each with what is wrong there, with the places right below it and with the
    nodes that are left out there. Together the places and what is left out are the whole tree, each node of it once. -/

namespace SwiftForge

inductive Site where
  /-- A node in statement position. -/
  | statement (node : Node)
  /-- A direct member of a protocol. -/
  | requirement (node : Node)
  /-- A node in expression or pattern position. -/
  | slot (role : Role) (node : Node)
  /-- The condition list of an `if` or a `guard`. -/
  | conditions (keyword : String) (list : List Condition)

/-- What is wrong with a place, by itself. -/
def Site.defect : Site → Option Warning
  | .slot role node => if role.fits node then none else some (.unfit node.kindName role)
  | .conditions keyword list => if list.isEmpty then some (.noConditions keyword) else none
  | .statement (.pattern _) | .requirement (.pattern _) => some .strayPattern
  | .requirement (.function head _ body) => if body.isEmpty then none else some (.requirementBody head.name)
  | _ => none

/-! ### Right below a place -/

def Param.sites (p : Param) : List Site := p.default.toList.map (.slot .defaultArgument)

def Entry.sites (e : Entry) : List Site := [.slot .dictionaryKey e.key, .slot .dictionaryValue e.value]

def Literal.sites : Literal → List Site
  | .tuple elements => elements.map (.slot .tupleElement)
  | .array elements => elements.map (.slot .arrayElement)
  | .dictionary entries => entries.flatMap Entry.sites
  | _ => []

def Argument.sites (a : Argument) : List Site := [.slot .callArgument a.value]

def Closure.sites (k : Closure) : List Site := k.body.map .statement

def Expr.sites : Expr → List Site
  | .literal value => value.sites
  | .call callee args trailing _ =>
    .slot .callee callee :: args.flatMap Argument.sites ++ trailing.toList.flatMap Closure.sites
  | .member base _ => base.toList.map (.slot .memberBase)
  | .binary lhs _ rhs _ => [.slot .operand lhs, .slot .operand rhs]
  | .unary _ operand => [.slot .operand operand]
  | .postfixed operand _ => [.slot .operand operand]
  | .closure k => k.sites

def Condition.sites : Condition → List Site
  | .expr value => [.slot .condition value]
  | .binding _ _ value => value.toList.map (.slot .boundValue)
  | .caseMatch pattern value => [.slot .caseCondition pattern, .slot .matchedValue value]

/-- A condition list, then its clauses. -/
def sitesOfConditions (keyword : String) (list : List Condition) : List Site :=
  .conditions keyword list :: list.flatMap Condition.sites

def Branch.sites : Branch → List Site
  | ⟨conditions, body⟩ => sitesOfConditions "if" conditions ++ body.map .statement

def SwitchCase.sites : SwitchCase → List Site
  | ⟨patterns, guard, body⟩ =>
    patterns.map (.slot .casePattern) ++ guard.toList.map (.slot .caseGuard) ++ body.map .statement

def Catch.sites : Catch → List Site
  | ⟨pattern, body⟩ => pattern.toList.map (.slot .catchPattern) ++ body.map .statement

/-- Below a node in statement position. -/
def Node.sites : Node → List Site
  | .typeDecl _ members => members.map .statement
  | .enumCase _ rawValue => rawValue.toList.flatMap Literal.sites
  | .protocolDecl _ members => members.map .requirement
  | .extensionDecl _ members => members.map .statement
  | .function _ params body => params.flatMap Param.sites ++ body.map .statement
  | .initializer _ params body => params.flatMap Param.sites ++ body.map .statement
  -- A getter replaces the value.
  | .property _ _ (some getter) => getter.map .statement
  | .property _ value none => value.toList.map (.slot .propertyValue)
  | .expression expr => expr.sites
  | .assignment target _ value => [.slot .assignmentTarget target, .slot .assignedValue value]
  | .tupleAssignment _ value _ => [.slot .tupleValue value]
  | .ifStmt first elseIfs otherwise =>
    first.sites ++ elseIfs.flatMap Branch.sites ++ (otherwise.getD []).map .statement
  | .guardStmt conditions otherwise => sitesOfConditions "guard" conditions ++ otherwise.map .statement
  | .loop _ condition body => .slot .loopCondition condition :: body.map .statement
  | .forIn binding sequence filter body =>
    .slot .loopPattern binding :: .slot .loopSequence sequence :: filter.toList.map (.slot .loopFilter) ++
      body.map .statement
  | .switchStmt subject cases default =>
    .slot .switchSubject subject :: cases.flatMap SwitchCase.sites ++ (default.getD []).map .statement
  | .doCatch body catches => body.map .statement ++ catches.flatMap Catch.sites
  | .returnStmt value => value.toList.map (.slot .returnValue)
  | .throwStmt error => [.slot .thrownError error]
  | .deferStmt body => body.map .statement
  | _ => []

/-- Below a direct member of a protocol: functions, initializers and properties are declared without their bodies. -/
def Node.memberSites : Node → List Site
  | .function _ params _ => params.flatMap Param.sites
  | .initializer _ params _ => params.flatMap Param.sites
  | .property .. => []
  | node => node.sites

/-- Below a node in expression or pattern position that fits there. -/
def Node.inlineSites : Node → List Site
  | .expression expr => expr.sites
  | .pattern p => p.children.map (.slot .expressionPattern)
  | _ => []

namespace Site

/-- The places right below a place, in the order in which they are read. -/
def below : Site → List Site
  | .statement node => node.sites
  | .requirement node => node.memberSites
  | .slot role node => if role.fits node then node.inlineSites else []
  | .conditions _ _ => []

/-- The nodes right below a place that are never read: what stands in the body, value or getter of a direct member of a
    protocol, in the value of a property with a getter, in the raw value of an enum case that is an expression or a
    pattern, and in a node that was replaced by a placeholder. -/
def leftOut : Site → List Node
  | .statement (.property _ value (some _)) => value.toList
  | .statement (.pattern p) | .requirement (.pattern p) => p.children
  | .requirement (.function _ _ body) => body
  | .requirement (.initializer _ _ body) => body
  | .requirement (.property _ value getter) => value.toList ++ getter.getD []
  | .slot _ (.enumCase _ rawValue) => rawValue.toList.flatMap Literal.children
  | .slot role node => if role.fits node then [] else node.children
  | _ => []

/-- The node at a place; a condition list is none. -/
def nodes : Site → List Node
  | .statement node | .requirement node | .slot _ node => [node]
  | .conditions _ _ => []

end Site

/-! ### Nothing twice, nothing lost -/

def nodesAt (sites : List Site) : List Node := sites.flatMap Site.nodes

section

variable {α : Type}

@[simp] theorem nodesAt_nil : nodesAt [] = [] := rfl

@[simp] theorem nodesAt_cons (s : Site) (rest : List Site) : nodesAt (s :: rest) = s.nodes ++ nodesAt rest :=
  List.flatMap_cons

@[simp] theorem nodesAt_append (a b : List Site) : nodesAt (a ++ b) = nodesAt a ++ nodesAt b := List.flatMap_append

theorem nodesAt_map {f : Node → Site} (hf : ∀ node, (f node).nodes = [node]) (xs : List Node) :
    nodesAt (xs.map f) = xs := by
  induction xs with
  | nil => rfl
  | cons x xs ih => rw [List.map_cons, nodesAt_cons, hf, ih, List.singleton_append]

@[simp] theorem nodesAt_statements (xs : List Node) : nodesAt (xs.map .statement) = xs := nodesAt_map (fun _ => rfl) xs

@[simp] theorem nodesAt_requirements (xs : List Node) : nodesAt (xs.map .requirement) = xs :=
  nodesAt_map (fun _ => rfl) xs

@[simp] theorem nodesAt_slots (role : Role) (xs : List Node) : nodesAt (xs.map (.slot role)) = xs :=
  nodesAt_map (fun _ => rfl) xs

theorem nodesAt_flatMap {f : α → List Site} {g : α → List Node} (h : ∀ x, nodesAt (f x) = g x) (xs : List α) :
    nodesAt (xs.flatMap f) = xs.flatMap g := by
  induction xs with
  | nil => rfl
  | cons x xs ih => rw [List.flatMap_cons, nodesAt_append, h, ih, List.flatMap_cons]

end

@[simp] theorem Param.nodesAt_sites (p : Param) : nodesAt p.sites = p.children := nodesAt_slots _ _

@[simp] theorem nodesAt_params (ps : List Param) : nodesAt (ps.flatMap Param.sites) = ps.flatMap Param.children :=
  nodesAt_flatMap Param.nodesAt_sites ps

@[simp] theorem Literal.nodesAt_sites (l : Literal) : nodesAt l.sites = l.children := by
  cases l with
  | tuple elements => exact nodesAt_slots _ _
  | array elements => exact nodesAt_slots _ _
  | dictionary entries => exact nodesAt_flatMap (fun _ => rfl) entries
  | _ => rfl

@[simp] theorem Closure.nodesAt_sites (k : Closure) : nodesAt k.sites = k.children := nodesAt_statements _

@[simp] theorem Expr.nodesAt_sites (e : Expr) : nodesAt e.sites = e.children := by
  cases e with
  | literal value => exact value.nodesAt_sites
  | call callee args trailing effects =>
    have hargs : nodesAt (args.flatMap Argument.sites) = args.flatMap Argument.children :=
      nodesAt_flatMap (fun _ => rfl) args
    have htrailing : nodesAt (trailing.toList.flatMap Closure.sites) = trailing.toList.flatMap Closure.children :=
      nodesAt_flatMap Closure.nodesAt_sites _
    simp only [sites, children, nodesAt_append, nodesAt_cons, hargs, htrailing]
    rfl
  | member base name => exact nodesAt_slots _ _
  | closure k => exact k.nodesAt_sites
  | _ => rfl

@[simp] theorem Condition.nodesAt_sites (k : Condition) : nodesAt k.sites = k.children := by
  cases k with
  | binding keyword name value => exact nodesAt_slots _ _
  | _ => rfl

@[simp] theorem nodesAt_sitesOfConditions (keyword : String) (list : List Condition) :
    nodesAt (sitesOfConditions keyword list) = list.flatMap Condition.children :=
  nodesAt_flatMap Condition.nodesAt_sites list

@[simp] theorem Branch.nodesAt_sites (b : Branch) : nodesAt b.sites = b.children := by
  obtain ⟨conditions, body⟩ := b
  simp [sites, children]

@[simp] theorem SwitchCase.nodesAt_sites (k : SwitchCase) : nodesAt k.sites = k.children := by
  obtain ⟨patterns, guard, body⟩ := k
  simp [sites, children]

@[simp] theorem Catch.nodesAt_sites (k : Catch) : nodesAt k.sites = k.children := by
  obtain ⟨pattern, body⟩ := k
  simp [sites, children]

namespace Site

/-- The nodes right below a place of the tree. -/
def children (s : Site) : List Node := s.nodes.flatMap Node.children

theorem below_statement (n : Node) :
    (nodesAt (statement n).below ++ (statement n).leftOut).Perm n.children := by
  cases n with
  | property head value getter =>
    cases getter with
    | none => simp [below, leftOut, Node.sites, Node.children]
    | some getter => simpa [below, leftOut, Node.sites, Node.children] using List.perm_append_comm
  | ifStmt first elseIfs otherwise =>
    simp [below, leftOut, Node.sites, Node.children, nodesAt_flatMap Branch.nodesAt_sites]
  | switchStmt subject cases default =>
    simp [below, leftOut, Node.sites, Node.children, nodesAt_flatMap SwitchCase.nodesAt_sites, nodes]
  | doCatch body catches =>
    simp [below, leftOut, Node.sites, Node.children, nodesAt_flatMap Catch.nodesAt_sites]
  | enumCase head rawValue =>
    simp [below, leftOut, Node.sites, Node.children, nodesAt_flatMap Literal.nodesAt_sites]
  | _ => simp [below, leftOut, Node.sites, Node.children, nodes]

/-- A direct member of a protocol has its body, value and getter left out, and is otherwise a statement. -/
theorem below_requirement (n : Node) :
    (nodesAt (requirement n).below ++ (requirement n).leftOut).Perm n.children := by
  have hstatement := below_statement n
  cases n with
  | function head params body => simp [below, leftOut, Node.memberSites, Node.children]
  | initializer head params body => simp [below, leftOut, Node.memberSites, Node.children]
  | property head value getter => simp [below, leftOut, Node.memberSites, Node.children]
  | _ => exact hstatement

theorem below_slot (role : Role) (n : Node) :
    (nodesAt (slot role n).below ++ (slot role n).leftOut).Perm n.children := by
  by_cases hfit : role.fits n = true
  · cases n with
    | expression e => simp [below, leftOut, hfit, Node.inlineSites, Node.children]
    | pattern p => simp [below, leftOut, hfit, Node.inlineSites, Node.children]
    | enumCase head rawValue => simp [below, leftOut, Node.inlineSites, Node.children]
    | raw code => simp [below, leftOut, hfit, Node.inlineSites, Node.children]
    -- No other node fits any role.
    | _ => simp [Role.fits, Node.isPattern, Node.isExpression] at hfit
  · cases n with
    | enumCase head rawValue => simp [Role.fits, Node.isPattern, Node.isExpression] at hfit
    | _ => simp [below, leftOut, hfit]

/-- Everything right below a place is read there or left out there. -/
theorem below_perm (s : Site) : (nodesAt s.below ++ s.leftOut).Perm s.children := by
  cases s with
  | statement n => simpa [children, nodes] using below_statement n
  | requirement n => simpa [children, nodes] using below_requirement n
  | slot role n => simpa [children, nodes] using below_slot role n
  | conditions keyword list => rfl

noncomputable def size : Site → Nat
  | .statement node | .requirement node | .slot _ node => sizeOf node + 1
  | .conditions _ _ => 0

theorem size_lt_of_mem_below {s t : Site} (h : t ∈ s.below) : t.size < s.size := by
  have hchild : ∀ c ∈ t.nodes, c ∈ s.children := by
    intro c hc
    refine s.below_perm.subset (List.mem_append_left _ ?_)
    exact List.mem_flatMap.2 ⟨t, h, hc⟩
  -- Only a condition list holds no node, and nothing is below it.
  obtain ⟨n, hn, hsize⟩ : ∃ n, s.nodes = [n] ∧ s.size = sizeOf n + 1 := by
    cases s with
    | conditions keyword list => cases h
    | statement n => exact ⟨n, rfl, rfl⟩
    | requirement n => exact ⟨n, rfl, rfl⟩
    | slot role n => exact ⟨n, rfl, rfl⟩
  rw [children, hn, List.flatMap_singleton] at hchild
  rw [hsize]
  cases t with
  | conditions keyword list => exact Nat.succ_pos _
  | statement c => exact Nat.succ_lt_succ (Node.sizeOf_child n (hchild c (List.mem_singleton_self c)))
  | requirement c => exact Nat.succ_lt_succ (Node.sizeOf_child n (hchild c (List.mem_singleton_self c)))
  | slot role c => exact Nat.succ_lt_succ (Node.sizeOf_child n (hchild c (List.mem_singleton_self c)))

/-- All places that a rendering comes to from a place on, in order. -/
def reached (s : Site) : List Site := s :: s.below.attach.flatMap fun t => reached t.1
termination_by s.size
decreasing_by exact size_lt_of_mem_below t.2

theorem reached_eq (s : Site) : s.reached = s :: s.below.flatMap reached := by
  rw [reached, List.flatMap_subtype, List.unattach_attach]
  intro t ht
  rfl

/-- What holds of a place as soon as it holds of those right below it holds of every place. -/
theorem induct {P : Site → Prop} (step : ∀ s : Site, (∀ t ∈ s.below, P t) → P s) (s : Site) : P s :=
  step s fun t ht =>
    have := size_lt_of_mem_below ht
    induct step t
termination_by s.size

end Site

/-- A node and all nodes below it, as occurrences. -/
def Node.subtree (n : Node) : List Node := n :: n.children.attach.flatMap fun c => subtree c.1
termination_by sizeOf n
decreasing_by exact Node.sizeOf_child n c.2

theorem Node.subtree_eq (n : Node) : n.subtree = n :: n.children.flatMap Node.subtree := by
  rw [Node.subtree, List.flatMap_subtype, List.unattach_attach]
  intro c hc
  rfl

namespace Site

/-- The nodes that a place accounts for: its own, and whole trees that are left out there. -/
def covered (s : Site) : List Node := s.nodes ++ s.leftOut.flatMap Node.subtree

theorem subtree_nodes (s : Site) : s.nodes.flatMap Node.subtree = s.nodes ++ s.children.flatMap Node.subtree := by
  cases s with
  | conditions keyword list => rfl
  | _ => simp [nodes, children, Node.subtree_eq]

open scoped List in
/-- From a place on, each node of its tree is accounted for exactly once. -/
theorem covered_reached (s : Site) : s.reached.flatMap covered ~ s.nodes.flatMap Node.subtree := by
  induction s using induct with
  | step s ih =>
    have hbelow : (s.below.flatMap reached).flatMap covered ~ (nodesAt s.below).flatMap Node.subtree := by
      rw [List.flatMap_assoc, nodesAt, List.flatMap_assoc]
      exact List.Perm.flatMap_left _ ih
    calc s.reached.flatMap covered
        = s.nodes ++ s.leftOut.flatMap Node.subtree ++ (s.below.flatMap reached).flatMap covered := by
          rw [reached_eq, List.flatMap_cons, covered]
      _ ~ s.nodes ++ s.leftOut.flatMap Node.subtree ++ (nodesAt s.below).flatMap Node.subtree :=
          hbelow.append_left _
      _ ~ s.nodes ++ (nodesAt s.below ++ s.leftOut).flatMap Node.subtree := by
          rw [List.flatMap_append, List.append_assoc]
          exact List.perm_append_comm.append_left _
      _ ~ s.nodes ++ s.children.flatMap Node.subtree := (s.below_perm.flatMap_right _).append_left _
      _ = s.nodes.flatMap Node.subtree := s.subtree_nodes.symm

end Site

end SwiftForge
