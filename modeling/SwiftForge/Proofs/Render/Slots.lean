import SwiftForge.Proofs.Render.Log
import SwiftForge.Proofs.Tree.Parts

/-! A tree whose checked places hold fitting nodes renders without a warning about such a place, at any depth: the log
    has the defects of the places that are reached, and a place reached from one whose parts fit is one whose parts
    fit. -/

namespace SwiftForge

/-- The roles of the checked places. -/
def Role.isChecked : Role → Bool
  | .loopCondition | .loopPattern | .casePattern | .catchPattern | .caseCondition => true
  | _ => false

/-- Nothing was left out of a checked place. -/
def Logged.Clean {α : Type} (x : Logged α) : Prop :=
  ∀ kind role, .unfit kind role ∈ x.warnings → role.isChecked = false

namespace Site

/-- The parts at a place fit, and so does its node if the place is checked. -/
def Fits : Site → Prop
  | .statement n | .requirement n => AllFit n.parts
  | .slot role n => AllFit n.parts ∧ (role.isChecked → role.fits n)
  | .conditions _ _ => True

/-! ### Lists and options of nodes -/

section

variable {role : Role}

theorem fits_statements {nodes : List Node} (h : AllFit (partsOfNodes nodes)) :
    ∀ t ∈ nodes.map statement, t.Fits := by
  rw [partsOfNodes_eq, allFit_flatMap] at h
  exact List.forall_mem_map.2 h

theorem fits_requirements {nodes : List Node} (h : AllFit (partsOfNodes nodes)) :
    ∀ t ∈ nodes.map requirement, t.Fits := by
  rw [partsOfNodes_eq, allFit_flatMap] at h
  exact List.forall_mem_map.2 h

theorem fits_block {block : Option (List Node)} (h : AllFit (partsOfBlock? block)) :
    ∀ t ∈ (block.getD []).map statement, t.Fits := by
  cases block with
  | none => simp
  | some body => exact fits_statements h

theorem fits_unchecked (hrole : role.isChecked = false) {n : Node} (h : AllFit n.parts) : (slot role n).Fits :=
  ⟨h, fun hchecked => by rw [hrole] at hchecked; cases hchecked⟩

theorem fits_slots (hrole : role.isChecked = false) {nodes : List Node} (h : AllFit (partsOfNodes nodes)) :
    ∀ t ∈ nodes.map (slot role), t.Fits := by
  rw [partsOfNodes_eq, allFit_flatMap] at h
  exact List.forall_mem_map.2 fun n hn => fits_unchecked hrole (h n hn)

theorem fits_optional (hrole : role.isChecked = false) {o : Option Node} (h : AllFit (partsOfNode? o)) :
    ∀ t ∈ o.toList.map (slot role), t.Fits := by
  cases o with
  | none => simp
  | some n => exact List.forall_mem_singleton.2 (fits_unchecked hrole h)

/-- Parts taken together, places taken together. -/
theorem fits_flatMap {α : Type} {f : α → List Part} {g : α → List Site} {xs : List α}
    (hstep : ∀ x, AllFit (f x) → ∀ t ∈ g x, t.Fits) (h : AllFit (xs.flatMap f)) : ∀ t ∈ xs.flatMap g, t.Fits := by
  rw [allFit_flatMap] at h
  intro t ht
  obtain ⟨x, hx, ht⟩ := List.mem_flatMap.1 ht
  exact hstep x (h x hx) t ht

end

/-! ### Expressions -/

theorem fits_params {params : List Param} (h : AllFit (partsOfParams params)) :
    ∀ t ∈ params.flatMap Param.sites, t.Fits := by
  rw [partsOfParams_eq] at h
  refine fits_flatMap (fun param hparam => ?_) h
  obtain ⟨head, default⟩ := param
  exact fits_optional rfl hparam

theorem fits_entries {entries : List Entry} (h : AllFit (partsOfEntries entries)) :
    ∀ t ∈ entries.flatMap Entry.sites, t.Fits := by
  rw [partsOfEntries_eq] at h
  refine fits_flatMap (fun entry hentry => ?_) h
  obtain ⟨key, value⟩ := entry
  rw [Entry.parts, allFit_append] at hentry
  exact List.forall_mem_cons.2 ⟨fits_unchecked rfl hentry.1, List.forall_mem_singleton.2 (fits_unchecked rfl hentry.2)⟩

theorem fits_arguments {args : List Argument} (h : AllFit (partsOfArguments args)) :
    ∀ t ∈ args.flatMap Argument.sites, t.Fits := by
  rw [partsOfArguments_eq] at h
  refine fits_flatMap (fun argument hargument => ?_) h
  obtain ⟨label, value⟩ := argument
  exact List.forall_mem_singleton.2 (fits_unchecked rfl hargument)

theorem fits_literal {l : Literal} (h : AllFit l.parts) : ∀ t ∈ l.sites, t.Fits := by
  cases l with
  | tuple elements =>
    rw [Literal.parts, allFit_append] at h
    exact fits_slots rfl h.1
  | array elements =>
    rw [Literal.parts, allFit_append] at h
    exact fits_slots rfl h.1
  | dictionary entries =>
    rw [Literal.parts, allFit_append] at h
    exact fits_entries h.1
  | _ => simp [Literal.sites]

theorem fits_expr {e : Expr} (h : AllFit e.parts) : ∀ t ∈ e.sites, t.Fits := by
  cases e with
  | literal value => exact fits_literal h
  | call callee args trailing effects =>
    rw [Expr.parts, allFit_append, allFit_append] at h
    refine List.forall_mem_append.2 ⟨List.forall_mem_cons.2 ⟨fits_unchecked rfl h.1.1, fits_arguments h.1.2⟩, ?_⟩
    cases trailing with
    | none => simp
    | some k =>
      obtain ⟨head, body⟩ := k
      rw [Option.toList_some, List.flatMap_singleton]
      exact fits_statements h.2
  | member base name => exact fits_optional rfl h
  | binary lhs op rhs isParenthesized =>
    rw [Expr.parts, allFit_append] at h
    exact List.forall_mem_cons.2 ⟨fits_unchecked rfl h.1, List.forall_mem_singleton.2 (fits_unchecked rfl h.2)⟩
  | unary op operand => exact List.forall_mem_singleton.2 (fits_unchecked rfl h)
  | postfixed operand mark => exact List.forall_mem_singleton.2 (fits_unchecked rfl h)
  | closure k =>
    obtain ⟨head, body⟩ := k
    exact fits_statements h

mutual

theorem fits_pattern : (p : Pattern) → AllFit p.parts → ∀ t ∈ p.children.map (slot .expressionPattern), t.Fits
  | .identifier _, _ => by simp [Pattern.children]
  | .enumCase _ _, _ => by simp [Pattern.children]
  | .wildcard, _ => by simp [Pattern.children]
  | .tuple elements, h => fits_patterns elements h
  | .expression _, h => List.forall_mem_singleton.2 (fits_unchecked rfl h)

theorem fits_patterns : (ps : List Pattern) → AllFit (partsOfPatterns ps) →
    ∀ t ∈ (childrenOfPatterns ps).map (slot .expressionPattern), t.Fits
  | [], _ => by simp [childrenOfPatterns]
  | p :: rest, h => by
    rw [partsOfPatterns, allFit_append] at h
    rw [childrenOfPatterns, List.map_append]
    exact List.forall_mem_append.2 ⟨fits_pattern p h.1, fits_patterns rest h.2⟩

end

/-! ### Clauses -/

theorem fits_condition {clause : Condition} (h : AllFit clause.parts) : ∀ t ∈ clause.sites, t.Fits := by
  cases clause with
  | expr value =>
    rw [Condition.parts, allFit_append] at h
    exact List.forall_mem_singleton.2 (fits_unchecked rfl h.1)
  | binding keyword name value =>
    rw [Condition.parts, allFit_append] at h
    exact fits_optional rfl h.1
  | caseMatch pattern value =>
    rw [Condition.parts, allFit_append, allFit_append, allFit_singleton] at h
    obtain ⟨⟨hpattern, hvalue⟩, hslot⟩ := h
    exact List.forall_mem_cons.2 ⟨⟨hpattern, fun _ => hslot⟩, List.forall_mem_singleton.2 (fits_unchecked rfl hvalue)⟩

theorem fits_conditions (keyword : String) {list : List Condition} (h : AllFit (partsOfConditions list)) :
    ∀ t ∈ sitesOfConditions keyword list, t.Fits := by
  rw [partsOfConditions_eq] at h
  exact List.forall_mem_cons.2 ⟨trivial, fits_flatMap (fun _ => fits_condition) h⟩

theorem fits_branch {b : Branch} (h : AllFit b.parts) : ∀ t ∈ b.sites, t.Fits := by
  obtain ⟨conditions, body⟩ := b
  rw [Branch.parts, allFit_append] at h
  exact List.forall_mem_append.2 ⟨fits_conditions "if" h.1, fits_statements h.2⟩

theorem fits_switchCase {c : SwitchCase} (h : AllFit c.parts) : ∀ t ∈ c.sites, t.Fits := by
  obtain ⟨patterns, guard, body⟩ := c
  simp only [SwitchCase.parts, allFit_append, allFit_singleton] at h
  obtain ⟨⟨⟨hpatterns, hguard⟩, hbody⟩, hslot⟩ := h
  rw [partsOfNodes_eq, allFit_flatMap] at hpatterns
  refine List.forall_mem_append.2 ⟨List.forall_mem_append.2 ⟨?_, fits_optional rfl hguard⟩, fits_statements hbody⟩
  exact List.forall_mem_map.2 fun n hn => ⟨hpatterns n hn, fun _ => hslot n hn⟩

theorem fits_catch {c : Catch} (h : AllFit c.parts) : ∀ t ∈ c.sites, t.Fits := by
  obtain ⟨pattern, body⟩ := c
  simp only [Catch.parts, allFit_append, allFit_singleton] at h
  obtain ⟨⟨hpattern, hbody⟩, hslot⟩ := h
  refine List.forall_mem_append.2 ⟨?_, fits_statements hbody⟩
  cases pattern with
  | none => simp
  | some n => exact List.forall_mem_singleton.2 ⟨hpattern, fun _ => hslot n rfl⟩

/-! ### Nodes -/

theorem fits_sites {n : Node} (h : AllFit n.parts) : ∀ t ∈ n.sites, t.Fits := by
  cases n with
  | typeDecl head members => exact fits_statements h
  | enumCase head rawValue =>
    rw [Node.parts, allFit_append] at h
    cases rawValue with
    | none => simp [Node.sites]
    | some value =>
      rw [Node.sites, Option.toList_some, List.flatMap_singleton]
      exact fits_literal h.1
  | protocolDecl head members => exact fits_requirements h
  | extensionDecl head members => exact fits_statements h
  | function head params body =>
    rw [Node.parts, allFit_append] at h
    exact List.forall_mem_append.2 ⟨fits_params h.1, fits_statements h.2⟩
  | initializer head params body =>
    rw [Node.parts, allFit_append] at h
    exact List.forall_mem_append.2 ⟨fits_params h.1, fits_statements h.2⟩
  | property head value getter =>
    rw [Node.parts, allFit_append, allFit_append] at h
    cases getter with
    | none => exact fits_optional rfl h.1.1
    | some getter => exact fits_statements h.1.2
  | expression e => exact fits_expr h
  | assignment target op value =>
    rw [Node.parts, allFit_append] at h
    exact List.forall_mem_cons.2 ⟨fits_unchecked rfl h.1, List.forall_mem_singleton.2 (fits_unchecked rfl h.2)⟩
  | tupleAssignment names value mode =>
    rw [Node.parts, allFit_append] at h
    exact List.forall_mem_singleton.2 (fits_unchecked rfl h.1)
  | ifStmt first elseIfs otherwise =>
    rw [Node.parts, allFit_append, allFit_append, partsOfBranches_eq] at h
    have helseIfs := fits_flatMap (fun _ => fits_branch) h.1.2
    exact List.forall_mem_append.2 ⟨List.forall_mem_append.2 ⟨fits_branch h.1.1, helseIfs⟩, fits_block h.2⟩
  | guardStmt conditions otherwise =>
    rw [Node.parts, allFit_append] at h
    exact List.forall_mem_append.2 ⟨fits_conditions "guard" h.1, fits_statements h.2⟩
  | loop style condition body =>
    rw [Node.parts, allFit_append, allFit_append, allFit_singleton] at h
    exact List.forall_mem_cons.2 ⟨⟨h.1.1, fun _ => h.2⟩, fits_statements h.1.2⟩
  | forIn binding sequence filter body =>
    simp only [Node.parts, allFit_append, allFit_singleton] at h
    obtain ⟨⟨⟨⟨hbinding, hsequence⟩, hfilter⟩, hbody⟩, hslot⟩ := h
    refine List.forall_mem_append.2 ⟨List.forall_mem_cons.2 ⟨⟨hbinding, fun _ => hslot⟩, ?_⟩, fits_statements hbody⟩
    exact List.forall_mem_cons.2 ⟨fits_unchecked rfl hsequence, fits_optional rfl hfilter⟩
  | switchStmt subject cases default =>
    rw [Node.parts, allFit_append, allFit_append, partsOfCases_eq] at h
    have hcases := fits_flatMap (fun _ => fits_switchCase) h.1.2
    exact List.forall_mem_append.2 ⟨List.forall_mem_cons.2 ⟨fits_unchecked rfl h.1.1, hcases⟩, fits_block h.2⟩
  | doCatch body catches =>
    rw [Node.parts, allFit_append, partsOfCatches_eq] at h
    exact List.forall_mem_append.2 ⟨fits_statements h.1, fits_flatMap (fun _ => fits_catch) h.2⟩
  | returnStmt value => exact fits_optional rfl h
  | throwStmt error => exact List.forall_mem_singleton.2 (fits_unchecked rfl h)
  | deferStmt body => exact fits_statements h
  | _ => simp [Node.sites]

theorem fits_memberSites {n : Node} (h : AllFit n.parts) : ∀ t ∈ n.memberSites, t.Fits := by
  have hsites := fits_sites h
  cases n with
  | function head params body => exact fun t ht => hsites t (List.mem_append_left _ ht)
  | initializer head params body => exact fun t ht => hsites t (List.mem_append_left _ ht)
  | property head value getter => simp [Node.memberSites]
  | _ => exact hsites

theorem fits_inlineSites {n : Node} (h : AllFit n.parts) : ∀ t ∈ n.inlineSites, t.Fits := by
  cases n with
  | expression e => exact fits_expr h
  | pattern p => exact fits_pattern p h
  | _ => simp [Node.inlineSites]

theorem Fits.below {s : Site} (h : s.Fits) : ∀ t ∈ s.below, t.Fits := by
  cases s with
  | statement n => exact fits_sites h
  | requirement n => exact fits_memberSites h
  | slot role n =>
    rw [Site.below]
    split
    · exact fits_inlineSites h.1
    · simp
  | conditions keyword list => simp [Site.below]

theorem Fits.reached {s : Site} (h : s.Fits) : ∀ t ∈ s.reached, t.Fits := by
  induction s using induct with
  | step s ih =>
    rw [reached_eq]
    refine List.forall_mem_cons.2 ⟨h, fun t ht => ?_⟩
    obtain ⟨u, hu, ht⟩ := List.mem_flatMap.1 ht
    exact ih u hu (h.below u hu) t ht

/-- Where the node fits there is no warning about a checked place. -/
theorem Fits.isChecked_eq_false {s : Site} (h : s.Fits) {kind : String} {role : Role}
    (hdefect : s.defect = some (.unfit kind role)) : role.isChecked = false := by
  cases s with
  | slot r n =>
    rw [defect] at hdefect
    split at hdefect
    · cases hdefect
    · rename_i hunfit
      cases hdefect
      exact Bool.eq_false_iff.2 fun hchecked => hunfit (h.2 hchecked)
  | statement n => cases n <;> cases hdefect
  | requirement n =>
    cases n with
    | function head params body => cases body <;> cases hdefect
    | _ => cases hdefect
  | conditions keyword list => cases list <;> cases hdefect

end Site

theorem clean_statements {nodes : List Node} (hfit : AllFit (partsOfNodes nodes)) : (statements nodes).Clean := by
  intro kind role hwarning
  rw [warnings_statements] at hwarning
  obtain ⟨s, hs, hdefect⟩ := List.mem_filterMap.1 hwarning
  obtain ⟨n, hn, hs⟩ := List.mem_flatMap.1 hs
  exact (Site.Fits.reached (Site.fits_statements hfit _ (List.mem_map_of_mem hn)) s hs).isChecked_eq_false hdefect

theorem clean_render (indent : Indent) {nodes : List Node} (hfit : AllFit (partsOfNodes nodes)) :
    (render indent nodes).Clean := by
  intro kind role hwarning
  rw [warnings_render] at hwarning
  exact clean_statements hfit kind role hwarning

theorem SourceFile.clean_render (indent : Indent) {file : SourceFile} (hfit : AllFit (partsOfNodes file.nodes)) :
    (file.render indent).Clean := by
  intro kind role hwarning
  rw [SourceFile.warnings_render_eq] at hwarning
  exact clean_statements hfit kind role hwarning

end SwiftForge
