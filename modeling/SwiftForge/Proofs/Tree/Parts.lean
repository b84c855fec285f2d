import SwiftForge.Proofs.Tree.Children
import SwiftForge.Tree.Rule

/-! The parts of a tree on which a rule or a number limit bears, in the order in which they are complete when the
    tree is gone through from its first field to its last: the parts inside a part come before it. The rules
    broken in a tree are those broken in its parts, in the same order. -/

namespace SwiftForge

/-- A part under a rule, or a literal, whose number may have no spelling. -/
inductive Part where
  | literal (value : Literal)
  | enumCase (value : EnumCase)
  | property (value : Property)
  | condition (value : Condition)
  | switchCase (value : SwitchCase)
  | catchClause (value : Catch)
  | loop (value : ConditionLoop)
  | forIn (value : ForIn)
  | tupleAssignment (value : TupleAssignment)

/-! ### Rules -/

namespace Part

/-- The rule of a part; a literal has none. -/
def check : Part → Except Breach Unit
  | .literal _ => .ok ()
  | .enumCase c => c.check
  | .property p => p.check
  | .condition c => c.check
  | .switchCase c => c.check
  | .catchClause c => c.check
  | .loop l => l.check
  | .forIn l => l.check
  | .tupleAssignment a => a.check

/-- Whether a part is no float literal beyond the finite numbers. -/
def isFinite : Part → Bool
  | .literal (.float value) => value.isFinite
  | _ => true

/-- Whether the value of a float literal is as wanted; the other parts have none. -/
def FloatIn (double : Double → Prop) : Part → Prop
  | .literal (.float value) => double value
  | _ => True

instance (double : Double → Prop) [DecidablePred double] : (p : Part) → Decidable (p.FloatIn double)
  | .literal (.float value) => inferInstanceAs (Decidable (double value))
  | .literal (.string _) | .literal (.integer _) | .literal (.boolean _) | .literal .nil | .literal (.reference _)
  | .literal (.tuple _) | .literal (.array _) | .literal (.dictionary _) | .enumCase _ | .property _ | .condition _
  | .switchCase _ | .catchClause _ | .loop _ | .forIn _ | .tupleAssignment _ => .isTrue trivial

theorem FloatIn.mono {double double' : Double → Prop} {p : Part} (h : p.FloatIn double)
    (himp : ∀ value, double value → double' value) : p.FloatIn double' := by
  cases p with
  | literal value =>
    cases value with
    | float value => exact himp value h
    | _ => trivial
  | _ => trivial

theorem isFinite_iff (p : Part) : p.isFinite = true ↔ p.FloatIn fun d => d.isFinite = true := by
  cases p with
  | literal value => cases value <;> simp [isFinite, FloatIn]
  | _ => simp [isFinite, FloatIn]

/-- A pattern of a clause that is none. -/
def clauseBreaches (clause : Clause) (pattern : Node) : List Breach :=
  if pattern.isPattern then [] else [.clausePattern clause pattern.kindName]

/-- Everything that is wrong with a part by itself: for an enum case its access level, then the kind of its raw
    value, then a raw value beside associated values; for a computed property a `let`, then an initial value; for a
    `switch` clause no pattern at all, then each that is none; for a tuple assignment no name at all, then a tuple
    of another length. -/
def breaches : Part → List Breach
  | .literal _ => []
  | .enumCase c =>
    c.decor.access.toList.map (.caseAccess c.name) ++
      (c.rawValue.toList.filter (!·.isRawValue)).map (fun raw => .caseRawKind c.name raw.kindName) ++
      (if c.rawValue.isSome ∧ c.associatedValues ≠ [] then [.caseRawAndPayload c.name] else [])
  | .property p =>
    (if p.getter.isSome ∧ p.binding ≠ .varBinding then [.computedConstant p.name] else []) ++
      (if p.getter.isSome ∧ p.value.isSome then [.computedWithValue p.name] else [])
  | .condition (.caseMatch pattern _) => clauseBreaches .condition pattern
  | .condition _ => []
  | .switchCase c =>
    (if c.patterns = [] then [.noPatterns] else []) ++ c.patterns.flatMap (clauseBreaches .switchCase)
  | .catchClause c => c.pattern.toList.flatMap (clauseBreaches .catchClause)
  | .loop l => if l.condition.isExpression then [] else [.notExpression l.style.place l.condition.kindName]
  | .forIn l => if l.pattern.isPattern then [] else [.notPattern .forInPattern l.pattern.kindName]
  | .tupleAssignment a =>
    (if a.names = [] then [.noNames] else []) ++
      (a.value.tupleArity?.toList.filter (· ≠ a.names.length)).map (.arity a.names.length)

end Part

/-- The first of several breaches, if there is one. -/
def firstBreach : List Breach → Except Breach Unit
  | [] => .ok ()
  | b :: _ => .error b

namespace Part

theorem firstBreach_append (bs cs : List Breach) :
    firstBreach (bs ++ cs) = (do firstBreach bs; firstBreach cs) := by
  cases bs with
  | nil => rfl
  | cons b bs => rfl

theorem requireClausePattern_eq (clause : Clause) (pattern : Node) :
    requireClausePattern clause pattern = firstBreach (clauseBreaches clause pattern) := by
  unfold requireClausePattern clauseBreaches
  split <;> rfl

theorem forM_requireClausePattern (clause : Clause) (patterns : List Node) :
    patterns.forM (requireClausePattern clause) = firstBreach (patterns.flatMap (clauseBreaches clause)) := by
  induction patterns with
  | nil => rfl
  | cons pattern patterns ih =>
    rw [List.flatMap_cons, firstBreach_append, ← requireClausePattern_eq, ← ih]
    rfl

theorem enumCase_check (c : EnumCase) : c.check = firstBreach (breaches (.enumCase c)) := by
  unfold EnumCase.check
  cases haccess : c.decor.access with
  | some level => simp [breaches, haccess, firstBreach]
  | none =>
    cases hraw : c.rawValue with
    | none => simp [breaches, haccess, hraw, firstBreach]
    | some raw =>
      by_cases hkind : raw.isRawValue = true
      · by_cases hpayload : c.associatedValues = []
        · simp [breaches, haccess, hraw, hkind, hpayload, firstBreach]
        · simp [breaches, haccess, hraw, hkind, hpayload, firstBreach]
      · simp [breaches, haccess, hraw, hkind, firstBreach]

theorem property_check (p : Property) : p.check = firstBreach (breaches (.property p)) := by
  unfold Property.check Property.isComputed Property.checkComputable
  by_cases hgetter : p.getter.isSome = true
  · by_cases hbinding : p.binding = .varBinding
    · by_cases hvalue : p.value.isSome = true
      · simp [breaches, hgetter, hbinding, hvalue, firstBreach]
      · simp [breaches, hgetter, hbinding, hvalue, firstBreach]
    · simp [breaches, hgetter, hbinding, firstBreach]
  · simp [breaches, hgetter, firstBreach]

theorem tupleAssignment_check (a : TupleAssignment) :
    a.check = firstBreach (breaches (.tupleAssignment a)) := by
  unfold TupleAssignment.check
  by_cases hnames : a.names = []
  · simp [breaches, hnames, firstBreach]
  · cases harity : a.value.tupleArity? with
    | none => simp [breaches, hnames, harity, firstBreach]
    | some n =>
      by_cases hn : n = a.names.length
      · simp [breaches, hnames, harity, hn, firstBreach]
      · simp [breaches, hnames, harity, hn, firstBreach]

/-- The rule of a part reports the first of its breaches. -/
theorem check_eq (p : Part) : p.check = firstBreach p.breaches := by
  cases p with
  | literal l => rfl
  | enumCase c => exact enumCase_check c
  | property p => exact property_check p
  | condition c =>
    cases c with
    | expr value => rfl
    | binding binding name value => rfl
    | caseMatch pattern value => exact requireClausePattern_eq .condition pattern
  | switchCase c =>
    have hforM := forM_requireClausePattern .switchCase c.patterns
    unfold check SwitchCase.check
    by_cases hpatterns : c.patterns = []
    · simp [breaches, hpatterns, firstBreach]
    · simp [breaches, hpatterns, hforM]
  | catchClause c =>
    unfold check Catch.check
    cases hpattern : c.pattern with
    | none => simp [breaches, hpattern, firstBreach]
    | some pattern => simp [breaches, hpattern, requireClausePattern_eq]
  | loop l =>
    rw [check, ConditionLoop.check, requireExpression, breaches]
    split <;> rfl
  | forIn l =>
    rw [check, ForIn.check, requirePattern, breaches]
    split <;> rfl
  | tupleAssignment a => exact tupleAssignment_check a

theorem check_eq_ok_iff (p : Part) : p.check = .ok () ↔ p.breaches = [] := by
  rw [check_eq]
  cases p.breaches with
  | nil => simp [firstBreach]
  | cons b bs => simp [firstBreach]

end Part

/-! ### Going through a tree -/

mutual

def Node.parts : Node → List Part
  | .typeDecl _ members => partsOfNodes members
  | .enumCase head rawValue => partsOfLiteral? rawValue ++ [.enumCase { head with rawValue }]
  | .protocolDecl _ members => partsOfNodes members
  | .extensionDecl _ members => partsOfNodes members
  | .function _ params body => partsOfParams params ++ partsOfNodes body
  | .initializer _ params body => partsOfParams params ++ partsOfNodes body
  | .property head value getter =>
    partsOfNode? value ++ partsOfBlock? getter ++ [.property { head with value, getter }]
  | .expression e => e.parts
  | .assignment target _ value => target.parts ++ value.parts
  | .tupleAssignment names value mode => value.parts ++ [.tupleAssignment { names, value, mode }]
  | .ifStmt first elseIfs otherwise => first.parts ++ partsOfBranches elseIfs ++ partsOfBlock? otherwise
  | .guardStmt conditions otherwise => partsOfConditions conditions ++ partsOfNodes otherwise
  | .loop style condition body =>
    condition.parts ++ partsOfNodes body ++ [.loop { style, condition, body }]
  | .forIn binding sequence filter body =>
    binding.parts ++ sequence.parts ++ partsOfNode? filter ++ partsOfNodes body ++
      [.forIn { pattern := binding, sequence, filter, body }]
  | .switchStmt subject cases default => subject.parts ++ partsOfCases cases ++ partsOfBlock? default
  | .doCatch body catches => partsOfNodes body ++ partsOfCatches catches
  | .returnStmt value => partsOfNode? value
  | .throwStmt error => error.parts
  | .deferStmt body => partsOfNodes body
  | .pattern p => p.parts
  | .associatedType _ | .typeAlias _ | .importDecl _ | .jump .. | .comment _ | .blank | .raw _ | .empty => []

def partsOfNodes : List Node → List Part
  | [] => []
  | node :: rest => node.parts ++ partsOfNodes rest

def partsOfBlock? : Option (List Node) → List Part
  | none => []
  | some nodes => partsOfNodes nodes

def partsOfNode? : Option Node → List Part
  | none => []
  | some node => node.parts

def partsOfLiteral? : Option Literal → List Part
  | none => []
  | some value => value.parts

def Param.parts : Param → List Part
  | ⟨_, default⟩ => partsOfNode? default

def partsOfParams : List Param → List Part
  | [] => []
  | param :: rest => param.parts ++ partsOfParams rest

def Condition.parts : Condition → List Part
  | .expr value => value.parts ++ [.condition (.expr value)]
  | .binding keyword name value => partsOfNode? value ++ [.condition (.binding keyword name value)]
  | .caseMatch pattern value => pattern.parts ++ value.parts ++ [.condition (.caseMatch pattern value)]

def partsOfConditions : List Condition → List Part
  | [] => []
  | condition :: rest => condition.parts ++ partsOfConditions rest

def Branch.parts : Branch → List Part
  | ⟨conditions, body⟩ => partsOfConditions conditions ++ partsOfNodes body

def partsOfBranches : List Branch → List Part
  | [] => []
  | branch :: rest => branch.parts ++ partsOfBranches rest

def SwitchCase.parts : SwitchCase → List Part
  | ⟨patterns, guard, body⟩ =>
    partsOfNodes patterns ++ partsOfNode? guard ++ partsOfNodes body ++ [.switchCase ⟨patterns, guard, body⟩]

def partsOfCases : List SwitchCase → List Part
  | [] => []
  | clause :: rest => clause.parts ++ partsOfCases rest

def Catch.parts : Catch → List Part
  | ⟨pattern, body⟩ => partsOfNode? pattern ++ partsOfNodes body ++ [.catchClause ⟨pattern, body⟩]

def partsOfCatches : List Catch → List Part
  | [] => []
  | clause :: rest => clause.parts ++ partsOfCatches rest

def Expr.parts : Expr → List Part
  | .literal value => value.parts
  | .call callee args trailing _ => callee.parts ++ partsOfArguments args ++ partsOfClosure? trailing
  | .member base _ => partsOfNode? base
  | .binary lhs _ rhs _ => lhs.parts ++ rhs.parts
  | .unary _ operand => operand.parts
  | .postfixed operand _ => operand.parts
  | .closure k => k.parts

def Literal.parts : Literal → List Part
  | .tuple elements => partsOfNodes elements ++ [.literal (.tuple elements)]
  | .array elements => partsOfNodes elements ++ [.literal (.array elements)]
  | .dictionary entries => partsOfEntries entries ++ [.literal (.dictionary entries)]
  | .string value => [.literal (.string value)]
  | .integer value => [.literal (.integer value)]
  | .float value => [.literal (.float value)]
  | .boolean value => [.literal (.boolean value)]
  | .nil => [.literal .nil]
  | .reference name => [.literal (.reference name)]

def Entry.parts : Entry → List Part
  | ⟨key, value⟩ => key.parts ++ value.parts

def partsOfEntries : List Entry → List Part
  | [] => []
  | entry :: rest => entry.parts ++ partsOfEntries rest

def Argument.parts : Argument → List Part
  | ⟨_, value⟩ => value.parts

def partsOfArguments : List Argument → List Part
  | [] => []
  | argument :: rest => argument.parts ++ partsOfArguments rest

def Closure.parts : Closure → List Part
  | ⟨_, body⟩ => partsOfNodes body

def partsOfClosure? : Option Closure → List Part
  | none => []
  | some k => k.parts

def Pattern.parts : Pattern → List Part
  | .tuple elements => partsOfPatterns elements
  | .expression value => value.parts
  | .identifier _ | .enumCase .. | .wildcard => []

def partsOfPatterns : List Pattern → List Part
  | [] => []
  | pattern :: rest => pattern.parts ++ partsOfPatterns rest

end

/-! ### Lists and options as such -/

theorem partsOfNodes_eq (nodes : List Node) : partsOfNodes nodes = nodes.flatMap Node.parts := by
  induction nodes with
  | nil => rfl
  | cons node nodes ih => rw [partsOfNodes, ih, List.flatMap_cons]

theorem partsOfBlock?_eq (block : Option (List Node)) :
    partsOfBlock? block = block.toList.flatMap fun nodes => nodes.flatMap Node.parts := by
  cases block with
  | none => rfl
  | some nodes => rw [partsOfBlock?, partsOfNodes_eq, Option.toList_some, List.flatMap_singleton]

theorem partsOfNode?_eq (node : Option Node) : partsOfNode? node = node.toList.flatMap Node.parts := by
  cases node with
  | none => rfl
  | some node => rw [partsOfNode?, Option.toList_some, List.flatMap_singleton]

theorem partsOfLiteral?_eq (value : Option Literal) : partsOfLiteral? value = value.toList.flatMap Literal.parts := by
  cases value with
  | none => rfl
  | some value => rw [partsOfLiteral?, Option.toList_some, List.flatMap_singleton]

theorem partsOfClosure?_eq (k : Option Closure) : partsOfClosure? k = k.toList.flatMap Closure.parts := by
  cases k with
  | none => rfl
  | some k => rw [partsOfClosure?, Option.toList_some, List.flatMap_singleton]

theorem partsOfParams_eq (params : List Param) : partsOfParams params = params.flatMap Param.parts := by
  induction params with
  | nil => rfl
  | cons param params ih => rw [partsOfParams, ih, List.flatMap_cons]

theorem partsOfConditions_eq (conditions : List Condition) :
    partsOfConditions conditions = conditions.flatMap Condition.parts := by
  induction conditions with
  | nil => rfl
  | cons condition conditions ih => rw [partsOfConditions, ih, List.flatMap_cons]

theorem partsOfBranches_eq (branches : List Branch) : partsOfBranches branches = branches.flatMap Branch.parts := by
  induction branches with
  | nil => rfl
  | cons branch branches ih => rw [partsOfBranches, ih, List.flatMap_cons]

theorem partsOfCases_eq (cases : List SwitchCase) : partsOfCases cases = cases.flatMap SwitchCase.parts := by
  induction cases with
  | nil => rfl
  | cons clause cases ih => rw [partsOfCases, ih, List.flatMap_cons]

theorem partsOfCatches_eq (catches : List Catch) : partsOfCatches catches = catches.flatMap Catch.parts := by
  induction catches with
  | nil => rfl
  | cons clause catches ih => rw [partsOfCatches, ih, List.flatMap_cons]

theorem partsOfEntries_eq (entries : List Entry) : partsOfEntries entries = entries.flatMap Entry.parts := by
  induction entries with
  | nil => rfl
  | cons entry entries ih => rw [partsOfEntries, ih, List.flatMap_cons]

theorem partsOfArguments_eq (args : List Argument) : partsOfArguments args = args.flatMap Argument.parts := by
  induction args with
  | nil => rfl
  | cons argument args ih => rw [partsOfArguments, ih, List.flatMap_cons]

theorem partsOfPatterns_eq (patterns : List Pattern) : partsOfPatterns patterns = patterns.flatMap Pattern.parts := by
  induction patterns with
  | nil => rfl
  | cons pattern patterns ih => rw [partsOfPatterns, ih, List.flatMap_cons]

/-! ### Checked places -/

/-- The nodes in the places that are checked fit there: conditions of loops are expressions, and what a loop, a
    clause or a condition matches against is a pattern. -/
def Part.Fits : Part → Prop
  | .condition (.caseMatch pattern _) => pattern.isPattern
  | .switchCase c => ∀ pattern ∈ c.patterns, pattern.isPattern
  | .catchClause c => ∀ pattern ∈ c.pattern, pattern.isPattern
  | .loop l => l.condition.isExpression
  | .forIn l => l.pattern.isPattern
  | _ => True

theorem Part.clauseBreaches_eq_nil {clause : Clause} {pattern : Node} (h : clauseBreaches clause pattern = []) :
    pattern.isPattern := by
  by_contra hpattern
  simp [clauseBreaches, hpattern] at h

/-- A part that obeys its rule has only fitting nodes in its checked places. -/
theorem Part.fits_of_check {p : Part} (h : p.check = .ok ()) : p.Fits := by
  rw [check_eq_ok_iff] at h
  cases p with
  | literal l => trivial
  | enumCase c => trivial
  | property p => trivial
  | condition c =>
    cases c with
    | expr value => trivial
    | binding keyword name value => trivial
    | caseMatch pattern value => exact clauseBreaches_eq_nil h
  | switchCase c =>
    have hpatterns := List.flatMap_eq_nil_iff.1 (List.append_eq_nil_iff.1 h).2
    exact fun pattern hpattern => clauseBreaches_eq_nil (hpatterns pattern hpattern)
  | catchClause c =>
    have hpattern := List.flatMap_eq_nil_iff.1 h
    exact fun pattern hmem => clauseBreaches_eq_nil (hpattern pattern (Option.mem_toList.2 hmem))
  | loop l =>
    by_contra hcondition
    simp [breaches, Fits] at h hcondition
    simp [h] at hcondition
  | forIn l =>
    by_contra hpattern
    simp [breaches, Fits] at h hpattern
    simp [h] at hpattern
  | tupleAssignment a => trivial

def AllFit (ps : List Part) : Prop := ∀ p ∈ ps, p.Fits

@[simp] theorem allFit_nil : AllFit [] := by simp [AllFit]

@[simp] theorem allFit_append (ps qs : List Part) : AllFit (ps ++ qs) ↔ AllFit ps ∧ AllFit qs := by
  simp [AllFit, or_imp, forall_and]

@[simp] theorem allFit_singleton (p : Part) : AllFit [p] ↔ p.Fits := by simp [AllFit]

@[simp] theorem allFit_flatMap {α : Type} (xs : List α) (f : α → List Part) :
    AllFit (xs.flatMap f) ↔ ∀ x ∈ xs, AllFit (f x) := by
  simp only [AllFit, List.mem_flatMap]
  exact ⟨fun h x hx p hp => h p ⟨x, hx, hp⟩, fun h p ⟨x, hx, hp⟩ => h x hx p hp⟩

/-! ### Obedient trees -/

def Obeys (ps : List Part) : Prop := ∀ p ∈ ps, p.check = .ok ()

theorem Obeys.allFit {ps : List Part} (h : Obeys ps) : AllFit ps := fun p hp => Part.fits_of_check (h p hp)

@[simp] theorem obeys_nil : Obeys [] := by simp [Obeys]

@[simp] theorem obeys_append (ps qs : List Part) : Obeys (ps ++ qs) ↔ Obeys ps ∧ Obeys qs := by
  simp [Obeys, or_imp, forall_and]

@[simp] theorem obeys_singleton (p : Part) : Obeys [p] ↔ p.check = .ok () := by simp [Obeys]

@[simp] theorem obeys_flatMap {α : Type} (xs : List α) (f : α → List Part) :
    Obeys (xs.flatMap f) ↔ ∀ x ∈ xs, Obeys (f x) := by
  simp only [Obeys, List.mem_flatMap]
  exact ⟨fun h x hx p hp => h p ⟨x, hx, hp⟩, fun h p ⟨x, hx, hp⟩ => h x hx p hp⟩

end SwiftForge
