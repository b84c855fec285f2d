import SwiftForge.Proofs.Render.Log

/-! Requirements of a protocol. A direct member is declared without its body and its initial value. The log notes what
    is left out of a function, and of nothing else: initializers and properties lose theirs without a word. -/

namespace SwiftForge

open Logged (value_bind value_pure warnings_bind warnings_pure)

/-- A warning about what a requirement leaves out. -/
def Warning.isDrop : Warning → Bool
  | .requirementBody _ => true
  | _ => false

namespace Node

/-- Whether a direct member of a protocol has a body or an initial value, which its requirement leaves out. -/
def losesContent : Node → Bool
  | .function _ _ body => !body.isEmpty
  | .initializer _ _ body => !body.isEmpty
  | .property _ value _ => value.isSome
  | _ => false

/-- A direct member of a protocol without what its requirement leaves out. -/
def bared : Node → Node
  | .function head params _ => .function head params []
  | .initializer head params _ => .initializer head params []
  | .property head _ getter => .property head none getter
  | node => node

/-- The warning that a direct member of a protocol gets for what its requirement leaves out. -/
def dropWarning? : Node → Option Warning
  | .function head _ body => if body.isEmpty then none else some (.requirementBody head.name)
  | _ => none

/-- What a requirement leaves out is missing from its text, and the warning for it comes before all others. -/
theorem requirement_bared (m : Node) :
    (requirements [m]).value = (requirements [m.bared]).value ∧
      (requirements [m]).warnings = m.dropWarning?.toList ++ (requirements [m.bared]).warnings := by
  cases m with
  | function head params body => cases body <;> exact ⟨rfl, rfl⟩
  | _ => exact ⟨rfl, rfl⟩

theorem bared_eq_self_iff (m : Node) : m.bared = m ↔ m.losesContent = false := by
  cases m with
  | function head params body => cases body <;> simp [bared, losesContent]
  | initializer head params body => cases body <;> simp [bared, losesContent]
  | property head value getter => cases value <;> simp [bared, losesContent]
  | _ => exact iff_of_true rfl rfl

/-- Of all members that lose something, functions alone are noted. -/
theorem isSome_dropWarning?_iff (m : Node) :
    m.dropWarning?.isSome = true ↔ m.losesContent = true ∧ m.kindName = "function" := by
  cases m with
  | function head params body => cases body <;> simp [dropWarning?, losesContent, kindName]
  | initializer head params body => simp [dropWarning?, kindName]
  | property head value getter => simp [dropWarning?, kindName]
  | _ => simp [dropWarning?, losesContent]

end Node

/-! ### Members that are reached -/

namespace Site

/-- The node at the place of a direct member of a protocol. -/
def member? : Site → Option Node
  | .requirement node => some node
  | _ => none

/-- The direct members of the protocol at a place. -/
def members : Site → List Node
  | .statement (.protocolDecl _ members) | .requirement (.protocolDecl _ members) => members
  | _ => []

/-- Only direct members of a protocol get a warning for what is left out of them. -/
theorem filter_defect (s : Site) : s.defect.filter Warning.isDrop = s.member?.bind Node.dropWarning? := by
  cases s with
  | statement n => cases n <;> rfl
  | requirement n =>
    cases n with
    | function head params body => cases body <;> rfl
    | _ => rfl
  | slot role n =>
    rw [defect]
    split <;> rfl
  | conditions keyword list =>
    rw [defect]
    split <;> rfl

end Site

/-- The direct members of protocols among some places. -/
def membersAt (sites : List Site) : List Node := sites.filterMap Site.member?

section

variable {α : Type}

@[simp] theorem membersAt_requirements (xs : List Node) : membersAt (xs.map .requirement) = xs := by
  rw [membersAt, List.filterMap_map]
  exact List.filterMap_some

/-- Places among which there is no direct member of a protocol. -/
def Memberless (sites : List Site) : Prop := ∀ s ∈ sites, s.member? = none

theorem Memberless.membersAt_eq {sites : List Site} (h : Memberless sites) : membersAt sites = [] :=
  List.filterMap_eq_nil_iff.2 h

theorem Memberless.append {a b : List Site} (ha : Memberless a) (hb : Memberless b) : Memberless (a ++ b) :=
  List.forall_mem_append.2 ⟨ha, hb⟩

theorem memberless_statements (xs : List Node) : Memberless (xs.map .statement) := by simp [Memberless, Site.member?]

theorem memberless_slots (role : Role) (xs : List Node) : Memberless (xs.map (.slot role)) := by
  simp [Memberless, Site.member?]

theorem memberless_flatMap {f : α → List Site} (h : ∀ x, Memberless (f x)) (xs : List α) :
    Memberless (xs.flatMap f) := by
  intro s hs
  obtain ⟨x, -, hs⟩ := List.mem_flatMap.1 hs
  exact h x s hs

end

theorem memberless_params (params : List Param) : Memberless (params.flatMap Param.sites) :=
  memberless_flatMap (fun _ => memberless_slots _ _) params

theorem Literal.memberless (l : Literal) : Memberless l.sites := by
  cases l with
  | tuple elements => exact memberless_slots _ _
  | array elements => exact memberless_slots _ _
  | dictionary entries => exact memberless_flatMap (fun _ => by simp [Memberless, Entry.sites, Site.member?]) entries
  | _ => exact memberless_statements []

theorem Expr.memberless (e : Expr) : Memberless e.sites := by
  cases e with
  | literal value => exact value.memberless
  | call callee args trailing effects =>
    have hargs : Memberless (args.flatMap Argument.sites) := memberless_flatMap (fun _ => memberless_slots _ [_]) args
    have htrailing : Memberless (trailing.toList.flatMap Closure.sites) :=
      memberless_flatMap (fun _ => memberless_statements _) _
    exact ((memberless_slots .callee [callee]).append hargs).append htrailing
  | member base name => exact memberless_slots _ _
  | binary lhs op rhs isParenthesized => exact memberless_slots .operand [lhs, rhs]
  | unary op operand => exact memberless_slots .operand [operand]
  | postfixed operand mark => exact memberless_slots .operand [operand]
  | closure k => exact memberless_statements _

theorem memberless_conditions (keyword : String) (list : List Condition) :
    Memberless (sitesOfConditions keyword list) := by
  have hclauses : Memberless (list.flatMap Condition.sites) := by
    refine memberless_flatMap (fun k => ?_) list
    cases k with
    | expr value => exact memberless_slots .condition [value]
    | binding keyword name value => exact memberless_slots _ _
    | caseMatch pattern value => simp [Memberless, Condition.sites, Site.member?]
  exact List.forall_mem_cons.2 ⟨rfl, hclauses⟩

theorem Branch.memberless (b : Branch) : Memberless b.sites := by
  obtain ⟨conditions, body⟩ := b
  exact (memberless_conditions "if" conditions).append (memberless_statements body)

theorem SwitchCase.memberless (k : SwitchCase) : Memberless k.sites := by
  obtain ⟨patterns, guard, body⟩ := k
  exact ((memberless_slots _ patterns).append (memberless_slots _ guard.toList)).append (memberless_statements body)

theorem Catch.memberless (k : Catch) : Memberless k.sites := by
  obtain ⟨pattern, body⟩ := k
  exact (memberless_slots _ pattern.toList).append (memberless_statements body)

/-- Below a statement there are direct members of a protocol only if it declares one. -/
theorem Node.membersAt_sites (n : Node) : membersAt n.sites = (Site.statement n).members := by
  cases n with
  | protocolDecl head members => exact membersAt_requirements members
  | typeDecl head members => exact (memberless_statements members).membersAt_eq
  | enumCase head rawValue => exact (memberless_flatMap Literal.memberless _).membersAt_eq
  | extensionDecl head members => exact (memberless_statements members).membersAt_eq
  | function head params body => exact ((memberless_params params).append (memberless_statements body)).membersAt_eq
  | initializer head params body => exact ((memberless_params params).append (memberless_statements body)).membersAt_eq
  | property head value getter =>
    cases getter with
    | none => exact (memberless_slots _ _).membersAt_eq
    | some getter => exact (memberless_statements getter).membersAt_eq
  | expression e => exact e.memberless.membersAt_eq
  | ifStmt first elseIfs otherwise =>
    exact ((first.memberless.append (memberless_flatMap Branch.memberless elseIfs)).append
      (memberless_statements _)).membersAt_eq
  | guardStmt conditions otherwise =>
    exact ((memberless_conditions "guard" conditions).append (memberless_statements otherwise)).membersAt_eq
  | loop style condition body => exact (memberless_statements body).membersAt_eq
  | forIn binding sequence filter body =>
    exact ((memberless_slots .loopFilter filter.toList).append (memberless_statements body)).membersAt_eq
  | switchStmt subject cases default =>
    exact ((memberless_flatMap SwitchCase.memberless cases).append (memberless_statements _)).membersAt_eq
  | doCatch body catches =>
    exact ((memberless_statements body).append (memberless_flatMap Catch.memberless catches)).membersAt_eq
  | returnStmt value => exact (memberless_slots _ value.toList).membersAt_eq
  | deferStmt body => exact (memberless_statements body).membersAt_eq
  | _ => rfl

theorem Site.membersAt_below (s : Site) : membersAt s.below = s.members := by
  cases s with
  | statement n => exact n.membersAt_sites
  | requirement n =>
    have hstatement := n.membersAt_sites
    cases n with
    | function head params body => exact (memberless_params params).membersAt_eq
    | initializer head params body => exact (memberless_params params).membersAt_eq
    | property head value getter => rfl
    | _ => exact hstatement
  | slot role n =>
    rw [below]
    split
    · cases n with
      | expression e => exact e.memberless.membersAt_eq
      | pattern p => exact (memberless_slots _ _).membersAt_eq
      | _ => rfl
    · rfl
  | conditions keyword list => rfl

/-- The members that are reached from a place on are the place itself, if it is one, and the direct members of the
    protocols that are reached. -/
theorem Site.mem_membersAt_reached_iff {m : Node} (s : Site) :
    m ∈ membersAt s.reached ↔ s.member? = some m ∨ m ∈ s.reached.flatMap Site.members := by
  induction s using induct with
  | step s ih =>
    have hbelow : (∃ t ∈ s.below, t.member? = some m) ↔ m ∈ s.members := by
      rw [← s.membersAt_below, membersAt, List.mem_filterMap]
    have hdeeper : m ∈ membersAt (s.below.flatMap reached) ↔
        m ∈ s.members ∨ m ∈ (s.below.flatMap reached).flatMap Site.members := by
      rw [membersAt, List.filterMap_flatMap, List.flatMap_assoc, List.mem_flatMap, List.mem_flatMap, ← hbelow,
        ← exists_or]
      refine exists_congr fun t => ?_
      rw [← and_or_left]
      exact and_congr_right (ih t)
    rw [reached_eq, List.flatMap_cons, List.mem_append, ← hdeeper]
    simp only [membersAt, List.mem_filterMap, List.mem_cons, or_and_right, exists_or, exists_eq_left]

/-- The direct members of the protocols that a rendering comes to, in order. -/
def membersReached (nodes : List Node) : List Node := membersAt (sitesReached nodes)

theorem mem_membersReached_iff {nodes : List Node} {m : Node} :
    m ∈ membersReached nodes ↔ ∃ s ∈ sitesReached nodes, m ∈ s.members := by
  have hroot : ∀ n : Node, m ∈ membersAt (Site.statement n).reached ↔
      m ∈ (Site.statement n).reached.flatMap Site.members := by
    intro n
    rw [Site.mem_membersAt_reached_iff]
    exact or_iff_right (by simp [Site.member?])
  rw [membersReached, membersAt, sitesReached, List.filterMap_flatMap, ← List.mem_flatMap, List.flatMap_assoc,
    List.mem_flatMap, List.mem_flatMap]
  exact exists_congr fun n => and_congr_right fun _ => hroot n

theorem filter_warnings_statements (nodes : List Node) :
    (statements nodes).warnings.filter Warning.isDrop = (membersReached nodes).filterMap Node.dropWarning? := by
  rw [warnings_statements, List.filter_filterMap, membersReached, membersAt, List.filterMap_filterMap]
  exact List.filterMap_congr fun s _ => s.filter_defect

/-! ### What a protocol notes -/

theorem value_requirements_bared (members : List Node) :
    (requirements (members.map Node.bared)).value = (requirements members).value := by
  induction members with
  | nil => rfl
  | cons m rest ih =>
    rw [List.map_cons, value_requirements_cons, value_requirements_cons m, ← m.requirement_bared.1, ih]

theorem warnings_requirements_flatMap (members : List Node) : (requirements members).warnings =
    members.flatMap fun m => m.dropWarning?.toList ++ (requirements [m.bared]).warnings := by
  induction members with
  | nil => rfl
  | cons m rest ih => rw [warnings_requirements_cons, m.requirement_bared.2, ih, List.flatMap_cons]

/-- What a protocol says of its direct members with a body or an initial value: its text is the text without these, and
    its log is the log without these, with one warning in front of what each function has below it, none for an
    initializer or a property and none for a member that loses nothing. In the log of nodes and of a file, the warnings
    about what is left out are, in order, those of the direct members of all protocols that are reached, at any
    depth. -/
theorem requirement_drops (indent : Indent) (nodes : List Node) (file : SourceFile) :
    (∀ (head : ProtocolHead) (members : List Node),
      (Node.protocolDecl head members).fragments.value =
        (Node.protocolDecl head (members.map Node.bared)).fragments.value ∧
      (Node.protocolDecl head members).fragments.warnings =
        members.flatMap fun m => m.dropWarning?.toList ++ (requirements [m.bared]).warnings) ∧
    (∀ m : Node, (m.bared = m ↔ m.losesContent = false) ∧
      (m.dropWarning?.isSome = true ↔ m.losesContent = true ∧ m.kindName = "function")) ∧
    (render indent nodes).warnings.filter Warning.isDrop = (membersReached nodes).filterMap Node.dropWarning? ∧
    (file.render indent).warnings.filter Warning.isDrop = (membersReached file.nodes).filterMap Node.dropWarning? ∧
    ∀ m : Node, m ∈ membersReached nodes ↔ ∃ s ∈ sitesReached nodes, m ∈ s.members := by
  refine ⟨fun head members => ⟨?_, ?_⟩, fun m => ⟨m.bared_eq_self_iff, m.isSome_dropWarning?_iff⟩, ?_, ?_,
    fun m => mem_membersReached_iff⟩
  · simp only [Node.fragments, value_bind, value_pure, value_requirements_bared]
  · rw [← warnings_requirements_flatMap]
    simp only [Node.fragments, warnings_bind, warnings_pure, List.append_nil]
  · rw [warnings_render, filter_warnings_statements]
  · rw [SourceFile.warnings_render_eq, filter_warnings_statements]

/-- The statement `setUp()`. -/
def setUp : Node := .expression (.call (.reference "setUp") [] none {})

/-- An initializer with a body and a property with a value are direct members of a protocol, and nothing is logged. -/
theorem dropped_silently :
    (Node.initializer {} [] [setUp]).losesContent = true ∧
      (Node.property { name := "count" } (some (.reference "zero")) none).losesContent = true ∧
      (render .swift [.protocolDecl { name := "P" }
        [.initializer {} [] [setUp], .property { name := "count" } (some (.reference "zero")) none]]).warnings = [] ∧
      (render .swift [.protocolDecl { name := "P" }
        [.initializer {} [] [setUp], .property { name := "count" } (some (.reference "zero")) none]]).value =
        "protocol P \x7b\n    init()\n    var count \x7b get set \x7d\n\x7d\n" := by
  refine ⟨rfl, rfl, rfl, by decide +kernel⟩

end SwiftForge
