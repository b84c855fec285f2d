import SwiftForge.Proofs.Render.Composition

/-! The warnings of a rendering are the defects of the places it comes to, in order: one warning for each of them and no
    other. -/

namespace SwiftForge

open Logged

/-- The defects at a place and below it. -/
def Site.log (s : Site) : List Warning := s.reached.filterMap Site.defect

def logOf (sites : List Site) : List Warning := sites.flatMap Site.log

theorem Site.log_eq (s : Site) : s.log = s.defect.toList ++ logOf s.below := by
  rw [log, reached_eq, List.filterMap_cons, List.filterMap_flatMap]
  cases s.defect <;> rfl

@[simp] theorem logOf_nil : logOf [] = [] := rfl

@[simp] theorem logOf_cons (s : Site) (rest : List Site) : logOf (s :: rest) = s.log ++ logOf rest := List.flatMap_cons

@[simp] theorem logOf_append (a b : List Site) : logOf (a ++ b) = logOf a ++ logOf b := List.flatMap_append

/-- What is to be shown of a node: in each position its warnings are the defects there. -/
structure Node.Logs (n : Node) : Prop where
  fragments : n.fragments.warnings = (Site.statement n).log
  requirement : (requirements [n]).warnings = (Site.requirement n).log
  inline : ∀ role, (n.inline role).warnings = (Site.slot role n).log

/-! ### Lists and options of nodes -/

theorem log_statements {nodes : List Node} (h : ∀ c ∈ nodes, c.Logs) :
    (statements nodes).warnings = logOf (nodes.map .statement) := by
  induction nodes with
  | nil => rfl
  | cons node nodes ih =>
    rw [List.map_cons, logOf_cons, ← (h node (by simp)).fragments, ← ih fun c hc => h c (List.mem_cons_of_mem _ hc)]
    simp [statements]

theorem log_requirements {nodes : List Node} (h : ∀ c ∈ nodes, c.Logs) :
    (requirements nodes).warnings = logOf (nodes.map .requirement) := by
  induction nodes with
  | nil => rfl
  | cons node nodes ih =>
    rw [List.map_cons, logOf_cons, warnings_requirements_cons, (h node (by simp)).requirement,
      ih fun c hc => h c (List.mem_cons_of_mem _ hc)]

theorem log_inlines {role : Role} {nodes : List Node} (h : ∀ c ∈ nodes, c.Logs) :
    (inlines role nodes).warnings = logOf (nodes.map (.slot role)) := by
  induction nodes with
  | nil => rfl
  | cons node nodes ih =>
    rw [List.map_cons, logOf_cons, ← (h node (by simp)).inline, ← ih fun c hc => h c (List.mem_cons_of_mem _ hc)]
    simp [inlines]

theorem log_optionalInline {lead : String} {role : Role} {o : Option Node} (h : ∀ c ∈ o.toList, c.Logs) :
    (optionalInline lead role o).warnings = logOf (o.toList.map (.slot role)) := by
  cases o with
  | none => rfl
  | some node => simp [optionalInline, (h node (by simp)).inline]

/-! ### Expressions -/

theorem log_paramInlines {params : List Param} (h : ∀ c ∈ params.flatMap Param.children, c.Logs) :
    (paramInlines params).warnings = logOf (params.flatMap Param.sites) := by
  induction params with
  | nil => rfl
  | cons param params ih =>
    obtain ⟨head, default⟩ := param
    rw [List.flatMap_cons] at h
    have hdefault : ∀ c ∈ default.toList, c.Logs := fun c hc => h c (List.mem_append_left _ hc)
    rw [List.flatMap_cons, logOf_append, ← ih fun c hc => h c (List.mem_append_right _ hc)]
    simp [paramInlines, Param.sites, log_optionalInline hdefault]

theorem log_entryInlines {entries : List Entry} (h : ∀ c ∈ entries.flatMap Entry.children, c.Logs) :
    (entryInlines entries).warnings = logOf (entries.flatMap Entry.sites) := by
  induction entries with
  | nil => rfl
  | cons entry entries ih =>
    obtain ⟨key, value⟩ := entry
    rw [List.flatMap_cons] at h
    have hkey : key.Logs := h key (by simp [Entry.children])
    have hvalue : value.Logs := h value (by simp [Entry.children])
    rw [List.flatMap_cons, logOf_append, ← ih fun c hc => h c (List.mem_append_right _ hc)]
    simp [entryInlines, Entry.sites, hkey.inline, hvalue.inline]

theorem log_argumentInlines {args : List Argument} (h : ∀ c ∈ args.flatMap Argument.children, c.Logs) :
    (argumentInlines args).warnings = logOf (args.flatMap Argument.sites) := by
  induction args with
  | nil => rfl
  | cons argument args ih =>
    obtain ⟨label, value⟩ := argument
    rw [List.flatMap_cons] at h
    have hvalue : value.Logs := h value (by simp [Argument.children])
    rw [List.flatMap_cons, logOf_append, ← ih fun c hc => h c (List.mem_append_right _ hc)]
    simp [argumentInlines, Argument.sites, hvalue.inline]

theorem Literal.log_inline (l : Literal) (h : ∀ c ∈ l.children, c.Logs) : l.inline.warnings = logOf l.sites := by
  cases l with
  | tuple elements => simp [Literal.inline, sites, log_inlines (show ∀ c ∈ elements, c.Logs from h)]
  | array elements => simp [Literal.inline, sites, log_inlines (show ∀ c ∈ elements, c.Logs from h)]
  | dictionary entries => simp [Literal.inline, sites, log_entryInlines h]
  | _ => rfl

theorem Closure.log_inline (k : Closure) (h : ∀ c ∈ k.children, c.Logs) : k.inline.warnings = logOf k.sites := by
  obtain ⟨head, body⟩ := k
  have hbody : ∀ c ∈ body, c.Logs := h
  simp [Closure.inline, sites, log_statements hbody]

theorem log_trailingInline {trailing : Option Closure} (h : ∀ c ∈ trailing.toList.flatMap Closure.children, c.Logs) :
    (trailingInline trailing).warnings = logOf (trailing.toList.flatMap Closure.sites) := by
  cases trailing with
  | none => rfl
  | some k => simp [trailingInline, k.log_inline fun c hc => h c (by simpa using hc)]

theorem Expr.log_inline (e : Expr) (h : ∀ c ∈ e.children, c.Logs) : e.inline.warnings = logOf e.sites := by
  cases e with
  | literal value => exact value.log_inline h
  | call callee args trailing effects =>
    have hcallee : callee.Logs := h callee (by simp [children])
    have hargs := log_argumentInlines fun c hc => h c (List.mem_append_left _ (List.mem_cons_of_mem callee hc))
    have htrailing := log_trailingInline fun c hc => h c (List.mem_append_right _ hc)
    simp [Expr.inline, sites, hcallee.inline, hargs, htrailing]
  | member base name => simp [Expr.inline, sites, log_optionalInline (show ∀ c ∈ base.toList, c.Logs from h)]
  | binary lhs op rhs isParenthesized =>
    have hlhs : lhs.Logs := h lhs (by simp [children])
    have hrhs : rhs.Logs := h rhs (by simp [children])
    simp [Expr.inline, sites, hlhs.inline, hrhs.inline]
  | unary op operand => simp [Expr.inline, sites, (h operand (List.mem_singleton_self _)).inline]
  | postfixed operand mark => simp [Expr.inline, sites, (h operand (List.mem_singleton_self _)).inline]
  | closure k => exact k.log_inline h

mutual

theorem Pattern.log_inline : (p : Pattern) → (∀ c ∈ p.children, c.Logs) →
    p.inline.warnings = logOf (p.children.map (.slot .expressionPattern))
  | .identifier _, _ => rfl
  | .enumCase _ _, _ => rfl
  | .wildcard, _ => rfl
  | .tuple elements, h => by simp [Pattern.inline, Pattern.children, log_patternInlines elements h]
  | .expression value, h => by
    simp [Pattern.inline, Pattern.children, (h value (List.mem_singleton_self _)).inline]

theorem log_patternInlines : (ps : List Pattern) → (∀ c ∈ childrenOfPatterns ps, c.Logs) →
    (patternInlines ps).warnings = logOf ((childrenOfPatterns ps).map (.slot .expressionPattern))
  | [], _ => rfl
  | p :: rest, h => by
    have hp := p.log_inline fun c hc => h c (List.mem_append_left _ hc)
    have hrest := log_patternInlines rest fun c hc => h c (List.mem_append_right _ hc)
    simp [patternInlines, childrenOfPatterns, hp, hrest]

end

mutual

/-- After `for` a pattern is worded otherwise but leaves out the same. -/
theorem Pattern.warnings_bindingInline : (p : Pattern) → p.bindingInline.warnings = p.inline.warnings
  | .identifier _ => rfl
  | .enumCase _ _ => rfl
  | .wildcard => rfl
  | .tuple elements => by
    simp only [Pattern.bindingInline, Pattern.inline, warnings_bind, warnings_pure, List.append_nil]
    exact warnings_bindingInlines elements
  | .expression value => by
    simp only [Pattern.bindingInline, Pattern.inline, warnings_bind, warnings_pure, List.append_nil]

theorem warnings_bindingInlines : (ps : List Pattern) → (bindingInlines ps).warnings = (patternInlines ps).warnings
  | [] => rfl
  | p :: rest => by
    simp only [bindingInlines, patternInlines, warnings_bind, warnings_pure, List.append_nil]
    rw [p.warnings_bindingInline, warnings_bindingInlines rest]

end

/-! ### Clauses -/

theorem Condition.log_inline (k : Condition) (h : ∀ c ∈ k.children, c.Logs) : k.inline.warnings = logOf k.sites := by
  cases k with
  | expr value => simp [Condition.inline, sites, (h value (List.mem_singleton_self _)).inline]
  | binding keyword name value =>
    simp [Condition.inline, sites, log_optionalInline (show ∀ c ∈ value.toList, c.Logs from h)]
  | caseMatch pattern value =>
    have hpattern : pattern.Logs := h pattern (by simp [children])
    have hvalue : value.Logs := h value (by simp [children])
    simp [Condition.inline, sites, hpattern.inline, hvalue.inline]

theorem log_conditionInlines {list : List Condition} (h : ∀ c ∈ list.flatMap Condition.children, c.Logs) :
    (conditionInlines list).warnings = logOf (list.flatMap Condition.sites) := by
  induction list with
  | nil => rfl
  | cons condition list ih =>
    rw [List.flatMap_cons] at h
    rw [List.flatMap_cons, logOf_append, ← ih fun c hc => h c (List.mem_append_right _ hc),
      ← condition.log_inline fun c hc => h c (List.mem_append_left _ hc)]
    simp [conditionInlines]

/-- An empty condition list is noted before its clauses would be. -/
theorem log_conditions (keyword : String) {list : List Condition} (h : ∀ c ∈ list.flatMap Condition.children, c.Logs) :
    (checkConditions keyword list).warnings ++ (conditionInlines list).warnings =
      logOf (sitesOfConditions keyword list) := by
  rw [sitesOfConditions, logOf_cons, log_conditionInlines h, Site.log_eq]
  cases list <;> rfl

theorem log_elseIfBlocks {branches : List Branch} (h : ∀ c ∈ branches.flatMap Branch.children, c.Logs) :
    (elseIfBlocks branches).warnings = logOf (branches.flatMap Branch.sites) := by
  induction branches with
  | nil => rfl
  | cons branch branches ih =>
    obtain ⟨conditions, body⟩ := branch
    rw [List.flatMap_cons, Branch.children] at h
    have hbody : ∀ c ∈ body, c.Logs := fun c hc => h c (by simp [hc])
    rw [List.flatMap_cons, logOf_append, ← ih fun c hc => h c (List.mem_append_right _ hc), Branch.sites, logOf_append,
      ← log_conditions "if" fun c hc => h c (by simp [hc]), ← log_statements hbody]
    simp [elseIfBlocks]

theorem log_elseBlock {block : Option (List Node)} (h : ∀ c ∈ block.getD [], c.Logs) :
    (elseBlock block).warnings = logOf ((block.getD []).map .statement) := by
  cases block with
  | none => rfl
  | some body => simp [elseBlock, log_statements (show ∀ c ∈ body, c.Logs from h)]

theorem log_switchClauses {cases : List SwitchCase} (h : ∀ c ∈ cases.flatMap SwitchCase.children, c.Logs) :
    (switchClauses cases).warnings = logOf (cases.flatMap SwitchCase.sites) := by
  induction cases with
  | nil => rfl
  | cons clause cases ih =>
    obtain ⟨patterns, guard, body⟩ := clause
    rw [List.flatMap_cons, SwitchCase.children] at h
    have hpatterns : ∀ c ∈ patterns, c.Logs := fun c hc => h c (by simp [hc])
    have hguard : ∀ c ∈ guard.toList, c.Logs := fun c hc => h c (by simp [Option.mem_toList.1 hc])
    have hbody : ∀ c ∈ body, c.Logs := fun c hc => h c (by simp [hc])
    rw [List.flatMap_cons, logOf_append, ← ih fun c hc => h c (List.mem_append_right _ hc)]
    simp [switchClauses, SwitchCase.sites, log_inlines hpatterns, log_optionalInline hguard, log_statements hbody]

theorem log_defaultClause {block : Option (List Node)} (h : ∀ c ∈ block.getD [], c.Logs) :
    (defaultClause block).warnings = logOf ((block.getD []).map .statement) := by
  cases block with
  | none => rfl
  | some body => simp [defaultClause, log_statements (show ∀ c ∈ body, c.Logs from h)]

theorem log_catchBlocks {catches : List Catch} (h : ∀ c ∈ catches.flatMap Catch.children, c.Logs) :
    (catchBlocks catches).warnings = logOf (catches.flatMap Catch.sites) := by
  induction catches with
  | nil => rfl
  | cons clause catches ih =>
    obtain ⟨pattern, body⟩ := clause
    rw [List.flatMap_cons, Catch.children] at h
    have hpattern : ∀ c ∈ pattern.toList, c.Logs := fun c hc => h c (by simp [Option.mem_toList.1 hc])
    have hbody : ∀ c ∈ body, c.Logs := fun c hc => h c (by simp [hc])
    rw [List.flatMap_cons, logOf_append, ← ih fun c hc => h c (List.mem_append_right _ hc)]
    simp [catchBlocks, Catch.sites, log_optionalInline hpattern, log_statements hbody]

/-! ### Nodes -/

namespace Node

/-- A node that fits its place has the warnings of what stands in it. -/
theorem log_inline_of_fit {n : Node} (h : ∀ c ∈ n.children, c.Logs) {role : Role} (hfit : role.fits n = true) :
    (n.inline role).warnings = logOf n.inlineSites := by
  cases n with
  | expression e =>
    rw [inline_expression hfit]
    exact e.log_inline h
  | pattern p =>
    rw [inline_pattern hfit]
    exact p.log_inline h
  | enumCase head rawValue => rfl
  | raw code => rfl
  | _ => simp [Role.fits, isPattern, isExpression] at hfit

/-- In expression or pattern position a node is rendered, or it is replaced and nothing in it is looked at. -/
theorem log_inline (n : Node) (h : ∀ c ∈ n.children, c.Logs) (role : Role) :
    (n.inline role).warnings = (Site.slot role n).log := by
  rw [Site.log_eq, Site.defect, Site.below]
  cases hfit : role.fits n with
  | true => simpa using log_inline_of_fit h hfit
  | false =>
    rw [inline_of_unfit hfit]
    rfl

/-- After `for` a pattern is worded otherwise; what it leaves out is the same as in any other pattern position. -/
theorem warnings_forIn (binding sequence : Node) (filter : Option Node) (body : List Node) :
    (forIn binding sequence filter body).fragments.warnings =
      (binding.inline .loopPattern).warnings ++ (sequence.inline .loopSequence).warnings ++
        (optionalInline " where " .loopFilter filter).warnings ++ (statements body).warnings := by
  cases binding with
  | pattern p => simp [Node.fragments, Node.inline, Role.wantsPattern, p.warnings_bindingInline]
  | _ => simp [Node.fragments]

theorem log_fragments (n : Node) (h : ∀ c ∈ n.children, c.Logs) :
    n.fragments.warnings = (Site.statement n).log := by
  rw [Site.log_eq, Site.below]
  cases n with
  | typeDecl head members => simp [Node.fragments, sites, Site.defect, log_statements (show ∀ c ∈ members, _ from h)]
  | enumCase head rawValue =>
    cases rawValue with
    | none => rfl
    | some value =>
      have hvalue := value.log_inline fun c hc => h c (by simpa [children] using hc)
      simp [Node.fragments, rawValueInline, sites, Site.defect, hvalue]
  | protocolDecl head members =>
    simp [Node.fragments, sites, Site.defect, log_requirements (show ∀ c ∈ members, _ from h)]
  | extensionDecl head members =>
    simp [Node.fragments, sites, Site.defect, log_statements (show ∀ c ∈ members, _ from h)]
  | function head params body =>
    have hparams := log_paramInlines fun c hc => h c (List.mem_append_left _ hc)
    have hbody := log_statements fun c hc => h c (List.mem_append_right _ hc)
    simp [Node.fragments, sites, Site.defect, hparams, hbody]
  | initializer head params body =>
    have hparams := log_paramInlines fun c hc => h c (List.mem_append_left _ hc)
    have hbody := log_statements fun c hc => h c (List.mem_append_right _ hc)
    simp [Node.fragments, sites, Site.defect, hparams, hbody]
  | property head value getter =>
    cases getter with
    | none =>
      have hvalue : ∀ c ∈ value.toList, c.Logs := fun c hc => h c (List.mem_append_left _ hc)
      simp [Node.fragments, sites, Site.defect, log_optionalInline hvalue]
    | some getter =>
      have hgetter : ∀ c ∈ getter, c.Logs := fun c hc => h c (List.mem_append_right _ hc)
      simp [Node.fragments, sites, Site.defect, log_statements hgetter]
  | expression e => simp [Node.fragments, sites, Site.defect, e.log_inline h]
  | assignment target op value =>
    have htarget : target.Logs := h target (by simp [children])
    have hvalue : value.Logs := h value (by simp [children])
    simp [Node.fragments, sites, Site.defect, htarget.inline, hvalue.inline]
  | tupleAssignment names value mode =>
    simp [Node.fragments, sites, Site.defect, (h value (List.mem_singleton_self _)).inline]
  | ifStmt first elseIfs otherwise =>
    obtain ⟨conditions, body⟩ := first
    rw [children, Branch.children] at h
    have hconditions : ∀ c ∈ conditions.flatMap Condition.children, c.Logs := fun c hc => h c (by simp [hc])
    have hbody : ∀ c ∈ body, c.Logs := fun c hc => h c (by simp [hc])
    have helseIfs := log_elseIfBlocks fun c hc => h c (List.mem_append_left _ (List.mem_append_right _ hc))
    have hotherwise := log_elseBlock fun c hc => h c (List.mem_append_right _ hc)
    simp [Node.fragments, sites, Branch.sites, Site.defect, ← log_conditions "if" hconditions, log_statements hbody,
      helseIfs, hotherwise]
  | guardStmt conditions otherwise =>
    have hconditions := log_conditions "guard" fun c hc => h c (List.mem_append_left _ hc)
    have hotherwise := log_statements fun c hc => h c (List.mem_append_right _ hc)
    simp [Node.fragments, sites, Site.defect, ← hconditions, hotherwise]
  | loop style condition body =>
    have hcondition : condition.Logs := h condition (by simp [children])
    have hbody := log_statements fun c hc => h c (List.mem_cons_of_mem _ hc)
    cases style <;> simp [Node.fragments, sites, Site.defect, hcondition.inline, hbody]
  | forIn binding sequence filter body =>
    have hbinding : binding.Logs := h binding (by simp [children])
    have hsequence : sequence.Logs := h sequence (by simp [children])
    have hfilter : ∀ c ∈ filter.toList, c.Logs := fun c hc => h c (by simp [children, Option.mem_toList.1 hc])
    have hbody : ∀ c ∈ body, c.Logs := fun c hc => h c (List.mem_append_right _ hc)
    simp [warnings_forIn, sites, Site.defect, hbinding.inline, hsequence.inline, log_optionalInline hfilter,
      log_statements hbody]
  | switchStmt subject cases default =>
    have hsubject : subject.Logs := h subject (by simp [children])
    have hcases := log_switchClauses fun c hc => h c (List.mem_append_left _ (List.mem_cons_of_mem _ hc))
    have hdefault := log_defaultClause fun c hc => h c (List.mem_append_right _ hc)
    simp [Node.fragments, sites, Site.defect, hsubject.inline, hcases, hdefault]
  | doCatch body catches =>
    have hbody := log_statements fun c hc => h c (List.mem_append_left _ hc)
    have hcatches := log_catchBlocks fun c hc => h c (List.mem_append_right _ hc)
    simp [Node.fragments, sites, Site.defect, hbody, hcatches]
  | returnStmt value =>
    simp [Node.fragments, sites, Site.defect, log_optionalInline (show ∀ c ∈ value.toList, _ from h)]
  | throwStmt error => simp [Node.fragments, sites, Site.defect, (h error (List.mem_singleton_self _)).inline]
  | deferStmt body => simp [Node.fragments, sites, Site.defect, log_statements (show ∀ c ∈ body, _ from h)]
  | _ => rfl

/-- A direct member of a protocol is a statement, but for functions, initializers and properties. -/
theorem log_requirement (n : Node) (h : ∀ c ∈ n.children, c.Logs) :
    (requirements [n]).warnings = (Site.requirement n).log := by
  have hstatement := n.log_fragments h
  rw [Site.log_eq] at hstatement ⊢
  cases n with
  | function head params body =>
    have hparams := log_paramInlines fun c hc => h c (List.mem_append_left _ hc)
    cases body <;> simp [requirements, Site.below, memberSites, Site.defect, hparams, warn]
  | initializer head params body =>
    have hparams := log_paramInlines fun c hc => h c (List.mem_append_left _ hc)
    simp [requirements, Site.below, memberSites, Site.defect, hparams]
  | property head value getter => rfl
  | _ =>
    simp only [requirements, warnings_bind, warnings_pure, List.append_nil]
    exact hstatement

/-- In every position the warnings of a node are the defects there. -/
theorem logs (n : Node) : n.Logs := by
  induction n using Node.induct with
  | step n ih => exact ⟨n.log_fragments ih, n.log_requirement ih, n.log_inline ih⟩

end Node

/-! ### The log -/

/-- The places that a rendering of nodes comes to, in order. -/
def sitesReached (nodes : List Node) : List Site := nodes.flatMap fun n => (Site.statement n).reached

theorem warnings_statements (nodes : List Node) :
    (statements nodes).warnings = (sitesReached nodes).filterMap Site.defect := by
  rw [log_statements fun n _ => n.logs]
  simp [sitesReached, logOf, List.filterMap_flatMap, List.flatMap_map, Site.log]

theorem SourceFile.warnings_render_eq (indent : Indent) (file : SourceFile) :
    (file.render indent).warnings = (statements file.nodes).warnings := by
  rw [SourceFile.warnings_render, SourceFile.fragments, warnings_bind, warnings_pure, List.append_nil]

/-- The log is exact: it has one warning for each defective place that is reached, in order, and no other, so that it is
    empty exactly when no place is defective. Each node of the tree is reached at one place or is left out at one. -/
theorem render_log_exact (indent : Indent) (nodes : List Node) :
    (render indent nodes).warnings = (sitesReached nodes).filterMap Site.defect ∧
      ((render indent nodes).warnings = [] ↔ ∀ s ∈ sitesReached nodes, s.defect = none) ∧
      ((sitesReached nodes).flatMap Site.covered).Perm (nodes.flatMap Node.subtree) := by
  have hlog : (render indent nodes).warnings = (sitesReached nodes).filterMap Site.defect := by
    rw [warnings_render, warnings_statements]
  refine ⟨hlog, ?_, ?_⟩
  · rw [hlog, List.filterMap_eq_nil_iff]
  · rw [sitesReached, List.flatMap_assoc]
    refine List.Perm.flatMap_left _ fun n _ => ?_
    simpa [Site.nodes] using (Site.statement n).covered_reached

end SwiftForge
