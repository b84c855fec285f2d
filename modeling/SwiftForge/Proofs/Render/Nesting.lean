import SwiftForge.Proofs.Render.Headers
import SwiftForge.Render.File

/-! What a tree renders nests. Each kind of node writes its brackets in pairs around the text of its children, also
    where a pair is spread over several fragments: a header of an `else` or `catch` chain closes the block before it, a
    `repeat` is closed by the line that tests its condition, a `switch` by a line of its own. A child that cannot play
    its role leaves nothing behind, so it leaves no bracket open either. -/

namespace SwiftForge

open Logged (value_bind value_pure)
open Inline (nests_empty nests_ofText nests_word nests_joinWith)
open Fragment (Nest nest_nil nest_line nest_singleton nest_braced nest_chain)

variable {A : Char → Prop}

/-- The texts of a node nest in statement position, as a member of a protocol, in every role and after `for`. -/
structure Node.Nests (A : Char → Prop) (n : Node) : Prop where
  fragments : Nest A n.fragments.value
  requirement : Nest A (requirements [n]).value
  inline : ∀ role : Role, (n.inline role).value.Nests A
  binding : ∀ p, n = .pattern p → p.bindingInline.value.Nests A

/-! ### Lists and options of nodes -/

theorem nest_statements {nodes : List Node} (h : ∀ c ∈ nodes, c.Nests A) : Nest A (statements nodes).value := by
  induction nodes with
  | nil => exact nest_nil
  | cons node nodes ih =>
    rw [statements]
    exact (h node (by simp)).fragments.append (ih fun c hc => h c (List.mem_cons_of_mem _ hc))

theorem nests_inlines {role : Role} {nodes : List Node} (h : ∀ c ∈ nodes, c.Nests A) :
    ∀ t ∈ (inlines role nodes).value, t.Nests A := by
  induction nodes with
  | nil => simp [inlines]
  | cons node nodes ih =>
    rw [inlines]
    exact List.forall_mem_cons.2
      ⟨(h node (by simp)).inline role, ih fun c hc => h c (List.mem_cons_of_mem _ hc)⟩

theorem nests_optionalInline {lead : String} (hlead : Text.Nests A lead) {role : Role} {o : Option Node}
    (h : ∀ c ∈ o.toList, c.Nests A) : (optionalInline lead role o).value.Nests A := by
  cases o with
  | none => exact nests_empty
  | some node =>
    rw [optionalInline]
    exact (nests_ofText hlead).append ((h node (by simp)).inline role)

/-! ### Expressions -/

theorem nests_paramInlines {params : List Param} (h : ∀ c ∈ params.flatMap Param.children, c.Nests A)
    (ha : PermitsAll A (params.flatMap (·.head.authored))) : ∀ t ∈ (paramInlines params).value, t.Nests A := by
  induction params with
  | nil => simp [paramInlines]
  | cons param params ih =>
    obtain ⟨head, default⟩ := param
    rw [List.flatMap_cons] at h ha
    rw [permitsAll_append] at ha
    have hdefault : (optionalInline " = " .defaultArgument default).value.Nests A :=
      nests_optionalInline (Text.nests_word rfl) fun c hc => h c (List.mem_append_left _ hc)
    rw [paramInlines]
    exact List.forall_mem_cons.2 ⟨(nests_ofText (ParamHead.nests_text ha.1)).append hdefault,
      ih (fun c hc => h c (List.mem_append_right _ hc)) ha.2⟩

theorem nests_entryInlines {entries : List Entry} (h : ∀ c ∈ entries.flatMap Entry.children, c.Nests A) :
    ∀ t ∈ (entryInlines entries).value, t.Nests A := by
  induction entries with
  | nil => simp [entryInlines]
  | cons entry entries ih =>
    obtain ⟨key, value⟩ := entry
    rw [List.flatMap_cons] at h
    have hkey := (h key (by simp [Entry.children])).inline .dictionaryKey
    have hvalue := (h value (by simp [Entry.children])).inline .dictionaryValue
    rw [entryInlines]
    exact List.forall_mem_cons.2 ⟨(hkey.append (nests_word rfl)).append hvalue,
      ih fun c hc => h c (List.mem_append_right _ hc)⟩

theorem nests_argumentInlines {args : List Argument} (h : ∀ c ∈ args.flatMap Argument.children, c.Nests A)
    (ha : PermitsAll A (args.flatMap (·.label.toList))) : ∀ t ∈ (argumentInlines args).value, t.Nests A := by
  induction args with
  | nil => simp [argumentInlines]
  | cons argument args ih =>
    obtain ⟨label, value⟩ := argument
    rw [List.flatMap_cons] at h ha
    rw [permitsAll_append] at ha
    have hvalue := (h value (by simp [Argument.children])).inline .callArgument
    have hrest := ih (fun c hc => h c (List.mem_append_right _ hc)) ha.2
    unfold argumentInlines
    cases label with
    | none => exact List.forall_mem_cons.2 ⟨(nests_word rfl).append hvalue, hrest⟩
    | some label =>
      have hlabel : (Inline.ofText label).Nests A := nests_ofText (Text.nests_of_permits (ha.1 label (by simp)))
      exact List.forall_mem_cons.2 ⟨(hlabel.append (nests_word rfl)).append hvalue, hrest⟩

theorem Literal.nests_inline {l : Literal} (h : ∀ c ∈ l.children, c.Nests A) (ha : PermitsAll A l.own) :
    l.inline.value.Nests A := by
  cases l with
  | string value => exact nests_ofText (nests_swiftString (ha value (by simp [own])))
  | integer value => exact nests_ofText (nests_intText _)
  | float value => exact nests_ofText (nests_swiftFloat _)
  | boolean value => cases value <;> exact nests_word rfl
  | nil => exact nests_word rfl
  | reference name => exact nests_ofText (Text.nests_of_permits (ha name (by simp [own])))
  | tuple elements =>
    rw [Literal.inline]
    exact (nests_joinWith (nests_inlines h)).round
  | array elements =>
    rw [Literal.inline]
    exact (nests_joinWith (nests_inlines h)).square
  | dictionary entries =>
    rw [Literal.inline, value_bind, value_pure]
    split
    · exact Inline.nests_ofText (Text.Nests.square (Text.nests_word rfl : Text.Nests A ":"))
    · exact (nests_joinWith (nests_entryInlines h)).square

/-- A closure's body stands between the braces that its first and last line hold. -/
theorem nests_closureInline {signature : Option String} (hsignature : ∀ s ∈ signature, Text.Nests A s)
    {body : Option (List Line)} (hbody : ∀ lines ∈ body, Nested A (Line.chars lines)) :
    (closureInline signature body).Nests A := by
  rw [Inline.Nests]
  cases signature with
  | none =>
    cases body with
    | none => simpa [closureInline, Text.flat] using (Nested.nil : Nested A []).braces
    | some lines => simpa [closureInline, Text.flat] using (hbody lines rfl).braces
  | some signature =>
    have hspace : Nested A [' '] := .plain rfl
    have hhead := hspace.append (hsignature signature rfl)
    cases body with
    | none => simpa [closureInline, Text.flat] using (hhead.append hspace).braces
    | some lines => simpa [closureInline, Text.flat] using (hhead.append (hbody lines rfl)).braces

theorem Closure.nests_inline {k : Closure} (h : ∀ c ∈ k.children, c.Nests A) (ha : PermitsAll A k.head.authored) :
    k.inline.value.Nests A := by
  obtain ⟨head, body⟩ := k
  rw [Closure.inline]
  refine nests_closureInline (head.nests_signature ha) fun lines hlines => ?_
  split at hlines
  · cases hlines
  · obtain rfl := Option.mem_some_iff.1 hlines
    rw [Fragment.chars_linesOf]
    exact nest_statements h

theorem nests_callInline {lead : String} (hlead : Text.Nests A lead) {callee : Inline} (hcallee : callee.Nests A)
    {args : List Inline} (hargs : ∀ t ∈ args, t.Nests A) {trailing : Option Inline}
    (htrailing : ∀ t ∈ trailing, t.Nests A) : (callInline lead callee args trailing).Nests A := by
  have hlist := (nests_joinWith hargs).round
  have hhead := (nests_ofText hlead).append hcallee
  cases trailing with
  | none => exact hhead.append hlist
  | some closure =>
    have hclosure := htrailing closure rfl
    unfold callInline
    dsimp only
    split
    · exact (hhead.append (nests_word rfl)).append hclosure
    · exact ((hhead.append hlist).append (nests_word rfl)).append hclosure

theorem Expr.nests_inline {e : Expr} (h : ∀ c ∈ e.children, c.Nests A) (ha : PermitsAll A e.own) :
    e.inline.value.Nests A := by
  cases e with
  | literal value => exact value.nests_inline h ha
  | call callee args trailing effects =>
    rw [Expr.own, permitsAll_append] at ha
    rw [Expr.children] at h
    have hcallee := (h callee (by simp)).inline .callee
    have hargs := nests_argumentInlines
      (fun c hc => h c (List.mem_append_left _ (List.mem_cons_of_mem _ hc))) ha.1
    have htrailing : ∀ t ∈ (trailingInline trailing).value, t.Nests A := by
      cases trailing with
      | none => simp [trailingInline]
      | some k =>
        intro t ht
        obtain rfl := Option.mem_some_iff.1 (show t ∈ some k.inline.value by simpa [trailingInline] using ht)
        exact k.nests_inline (fun c hc => h c (by simp [hc])) (ha.2.flatMap (by simp))
    rw [Expr.inline]
    exact nests_callInline effects.nests_lead hcallee hargs htrailing
  | member base name =>
    have hbase : (optionalInline "" .memberBase base).value.Nests A := nests_optionalInline Text.nests_empty h
    have hname : (Inline.ofText name).Nests A := nests_ofText (Text.nests_of_permits (ha name (by simp [own])))
    rw [Expr.inline]
    exact (hbase.append (nests_word rfl)).append hname
  | binary lhs op rhs isParenthesized =>
    have hlhs := (h lhs (by simp [children])).inline .operand
    have hrhs := (h rhs (by simp [children])).inline .operand
    have hop : (Inline.ofText op).Nests A := nests_ofText (Text.nests_of_permits (ha op (by simp [own])))
    have hspace : (Inline.ofText " ").Nests A := nests_word rfl
    have htext := (((hlhs.append hspace).append hop).append hspace).append hrhs
    rw [Expr.inline]
    cases isParenthesized with
    | true => exact htext.round
    | false => exact htext
  | unary op operand =>
    have hop : (Inline.ofText op).Nests A := nests_ofText (Text.nests_of_permits (ha op (by simp [own])))
    rw [Expr.inline]
    exact hop.append ((h operand (by simp [children])).inline .operand)
  | postfixed operand mark =>
    have hmark : (Inline.ofText mark.text).Nests A := by cases mark <;> exact nests_word rfl
    rw [Expr.inline]
    exact ((h operand (by simp [children])).inline .operand).append hmark
  | closure k => exact k.nests_inline h ha

/-! ### Patterns -/

mutual

theorem Pattern.nests_inline : (p : Pattern) → (∀ c ∈ p.children, c.Nests A) → PermitsAll A p.own →
    p.inline.value.Nests A
  | .identifier name, _, ha =>
    (nests_word rfl).append (nests_ofText (Text.nests_of_permits (ha name (by simp [Pattern.own]))))
  | .enumCase name bindings, _, ha => nests_ofText (nests_casePatternText ha)
  | .wildcard, _, _ => nests_word rfl
  | .tuple elements, h, ha => by
    rw [Pattern.inline]
    exact (nests_joinWith (nests_patternInlines elements h ha)).round
  | .expression value, h, _ => by
    rw [Pattern.inline]
    exact (h value (by simp [Pattern.children])).inline .expressionPattern

theorem nests_patternInlines : (ps : List Pattern) → (∀ c ∈ childrenOfPatterns ps, c.Nests A) →
    PermitsAll A (ownOfPatterns ps) → ∀ t ∈ (patternInlines ps).value, t.Nests A
  | [], _, _ => by simp [patternInlines]
  | p :: rest, h, ha => by
    rw [ownOfPatterns, permitsAll_append] at ha
    rw [patternInlines]
    exact List.forall_mem_cons.2 ⟨p.nests_inline (fun c hc => h c (List.mem_append_left _ hc)) ha.1,
      nests_patternInlines rest (fun c hc => h c (List.mem_append_right _ hc)) ha.2⟩

end

mutual

theorem Pattern.nests_bindingInline : (p : Pattern) → (∀ c ∈ p.children, c.Nests A) → PermitsAll A p.own →
    p.bindingInline.value.Nests A
  | .identifier name, _, ha => nests_ofText (Text.nests_of_permits (ha name (by simp [Pattern.own])))
  | .enumCase name bindings, _, ha => (nests_word rfl).append (nests_ofText (nests_casePatternText ha))
  | .wildcard, _, _ => nests_word rfl
  | .tuple elements, h, ha => by
    rw [Pattern.bindingInline]
    exact (nests_joinWith (nests_bindingInlines elements h ha)).round
  | .expression value, h, _ => by
    rw [Pattern.bindingInline]
    exact (nests_word rfl).append ((h value (by simp [Pattern.children])).inline .expressionPattern)

theorem nests_bindingInlines : (ps : List Pattern) → (∀ c ∈ childrenOfPatterns ps, c.Nests A) →
    PermitsAll A (ownOfPatterns ps) → ∀ t ∈ (bindingInlines ps).value, t.Nests A
  | [], _, _ => by simp [bindingInlines]
  | p :: rest, h, ha => by
    rw [ownOfPatterns, permitsAll_append] at ha
    rw [bindingInlines]
    exact List.forall_mem_cons.2 ⟨p.nests_bindingInline (fun c hc => h c (List.mem_append_left _ hc)) ha.1,
      nests_bindingInlines rest (fun c hc => h c (List.mem_append_right _ hc)) ha.2⟩

end

/-! ### Clauses -/

theorem Condition.nests_inline {k : Condition} (h : ∀ c ∈ k.children, c.Nests A) (ha : PermitsAll A k.own) :
    k.inline.value.Nests A := by
  cases k with
  | expr value =>
    rw [Condition.inline]
    exact (h value (by simp [children])).inline .condition
  | binding keyword name value =>
    have hname : (Inline.ofText name).Nests A := nests_ofText (Text.nests_of_permits (ha name (by simp [own])))
    rw [Condition.inline]
    exact (((nests_ofText keyword.nests_keyword).append (nests_word rfl)).append hname).append
      (nests_optionalInline (Text.nests_word rfl) h)
  | caseMatch pattern value =>
    have hpattern := (h pattern (by simp [children])).inline .caseCondition
    have hvalue := (h value (by simp [children])).inline .matchedValue
    rw [Condition.inline]
    exact (((nests_word rfl).append hpattern).append (nests_word rfl)).append hvalue

theorem nests_conditionInlines {conditions : List Condition}
    (h : ∀ c ∈ conditions.flatMap Condition.children, c.Nests A)
    (ha : PermitsAll A (conditions.flatMap Condition.own)) : ∀ t ∈ (conditionInlines conditions).value, t.Nests A := by
  induction conditions with
  | nil => simp [conditionInlines]
  | cons condition conditions ih =>
    rw [List.flatMap_cons] at h ha
    rw [permitsAll_append] at ha
    rw [conditionInlines]
    exact List.forall_mem_cons.2 ⟨condition.nests_inline (fun c hc => h c (List.mem_append_left _ hc)) ha.1,
      ih (fun c hc => h c (List.mem_append_right _ hc)) ha.2⟩

/-- A header that starts with the brace of the block before it. -/
theorem Inline.Nests.reopens {word : String} {rest : List Char} (hword : Text.flat word = '\x7d' :: rest)
    (hrest : Nested A rest) {t : Inline} (h : t.Nests A) :
    Reopens A (Inline.ofText word ++ t ++ Inline.ofText " \x7b").chars := by
  refine ⟨rest ++ t.chars ++ [' ', '\x7b'], ⟨rest ++ t.chars ++ [' '], ?_, by simp⟩, ?_⟩
  · exact (hrest.append h).append (.plain rfl)
  · simp only [chars_append, chars_ofText, hword]
    rfl

theorem reopens_elseIfBlocks {branches : List Branch} (h : ∀ c ∈ branches.flatMap Branch.children, c.Nests A)
    (ha : PermitsAll A (branches.flatMap fun b => b.conditions.flatMap Condition.own)) :
    ∀ b ∈ (elseIfBlocks branches).value, Reopens A b.1.chars ∧ Nest A b.2 := by
  induction branches with
  | nil => simp [elseIfBlocks]
  | cons branch branches ih =>
    obtain ⟨conditions, body⟩ := branch
    rw [List.flatMap_cons] at h ha
    rw [Branch.children] at h
    rw [permitsAll_append] at ha
    have hheader := nests_joinWith (nests_conditionInlines (fun c hc => h c (by simp [hc])) ha.1)
    rw [elseIfBlocks]
    exact List.forall_mem_cons.2 ⟨⟨hheader.reopens rfl (.plain rfl), nest_statements fun c hc => h c (by simp [hc])⟩,
      ih (fun c hc => h c (List.mem_append_right _ hc)) ha.2⟩

theorem reopens_elseBlock {block : Option (List Node)} (h : ∀ c ∈ block.getD [], c.Nests A) :
    ∀ b ∈ (elseBlock block).value, Reopens A b.1.chars ∧ Nest A b.2 := by
  cases block with
  | none => simp [elseBlock]
  | some body =>
    have hheader : Reopens A (Inline.ofText "\x7d else \x7b").chars :=
      ⟨_, ⟨" else ".toList, .plain rfl, rfl⟩, by rw [Inline.chars_ofText]; rfl⟩
    rw [elseBlock]
    exact List.forall_mem_singleton.2 ⟨hheader, nest_statements h⟩

theorem nest_clauseBody {body : List Fragment} (h : Nest A body) : Nest A [clauseBody body] := by
  refine nest_singleton ?_
  rw [clauseBody, Fragment.chars]
  split
  · exact nest_line (nests_word rfl)
  · exact h

theorem nest_switchClauses {cases : List SwitchCase} (h : ∀ c ∈ cases.flatMap SwitchCase.children, c.Nests A) :
    Nest A (switchClauses cases).value := by
  induction cases with
  | nil => exact nest_nil
  | cons clause cases ih =>
    obtain ⟨patterns, guard, body⟩ := clause
    rw [List.flatMap_cons, SwitchCase.children] at h
    have hpatterns : (Inline.joinWith ", " (inlines .casePattern patterns).value).Nests A :=
      nests_joinWith (nests_inlines fun c hc => h c (by simp [hc]))
    have hguard : (optionalInline " where " .caseGuard guard).value.Nests A :=
      nests_optionalInline (Text.nests_word rfl) fun c hc => h c (by simp [Option.mem_toList.1 hc])
    have hbody : Nest A [clauseBody (statements body).value] :=
      nest_clauseBody (nest_statements fun c hc => h c (by simp [hc]))
    rw [switchClauses]
    exact (nest_line ((((nests_word rfl).append hpatterns).append hguard).append (nests_word rfl))).append
      (hbody.append (ih fun c hc => h c (List.mem_append_right _ hc)))

theorem nest_defaultClause {block : Option (List Node)} (h : ∀ c ∈ block.getD [], c.Nests A) :
    Nest A (defaultClause block).value := by
  cases block with
  | none => exact nest_nil
  | some body =>
    rw [defaultClause]
    exact (nest_line (nests_word rfl)).append (nest_clauseBody (nest_statements h))

theorem reopens_catchBlocks {catches : List Catch} (h : ∀ c ∈ catches.flatMap Catch.children, c.Nests A) :
    ∀ b ∈ (catchBlocks catches).value, Reopens A b.1.chars ∧ Nest A b.2 := by
  induction catches with
  | nil => simp [catchBlocks]
  | cons clause catches ih =>
    obtain ⟨pattern, body⟩ := clause
    rw [List.flatMap_cons, Catch.children] at h
    have hpattern : (optionalInline " " .catchPattern pattern).value.Nests A :=
      nests_optionalInline (Text.nests_word rfl) fun c hc =>
        h c (List.mem_append_left _ (List.mem_append_left _ hc))
    rw [catchBlocks]
    exact List.forall_mem_cons.2
      ⟨⟨hpattern.reopens rfl (.plain rfl), nest_statements fun c hc => h c (by simp [hc])⟩,
        ih fun c hc => h c (List.mem_append_right _ hc)⟩

/-! ### Nodes -/

theorem nests_signatureInline {lead trail : String} (hlead : Text.Nests A lead) {params : List Inline}
    (hparams : ∀ t ∈ params, t.Nests A) (htrail : Text.Nests A trail) :
    (signatureInline lead params trail).Nests A := by
  have h := ((nests_ofText hlead).append (nests_joinWith hparams).round).append (nests_ofText htrail)
  simpa [signatureInline, Inline.Nests] using h

theorem nest_requirements {nodes : List Node} (h : ∀ c ∈ nodes, c.Nests A) : Nest A (requirements nodes).value := by
  induction nodes with
  | nil => exact nest_nil
  | cons node nodes ih =>
    rw [value_requirements_cons]
    exact (h node (by simp)).requirement.append (ih fun c hc => h c (List.mem_cons_of_mem _ hc))

theorem Node.nests_inline {n : Node} (h : ∀ c ∈ n.children, c.Nests A) (ha : PermitsAll A n.own) (role : Role) :
    (n.inline role).value.Nests A := by
  cases hfit : role.fits n with
  | false =>
    rw [inline_of_unfit hfit]
    exact nests_empty
  | true =>
    cases n with
    | expression e =>
      rw [inline_expression hfit]
      exact e.nests_inline h ha
    | enumCase head rawValue =>
      rw [Node.own, permitsAll_append] at ha
      have hlead : Text.Nests A (if role.wantsPattern then "let " else "") := by
        split
        · exact Text.nests_word rfl
        · exact Text.nests_empty
      rw [Node.inline]
      exact nests_ofText (CaseHead.nests_applied ha.1 hlead)
    | raw code => exact nests_ofText (Text.nests_of_permits (ha code (by simp [own])))
    | pattern p =>
      rw [inline_pattern hfit]
      exact p.nests_inline h ha
    | _ => simp [Role.fits, isPattern, isExpression] at hfit

/-- One layer of a tree in statement position. -/
theorem Node.nest_fragments {n : Node} (h : ∀ c ∈ n.children, c.Nests A) (ha : PermitsAll A n.own) :
    Nest A n.fragments.value := by
  cases n with
  | typeDecl head members =>
    have hdecor : Nest A head.decor.leading :=
      Decor.nest_leading fun s hs => ha s (by simp [own, TypeHead.authored, hs])
    rw [Node.fragments]
    exact hdecor.append (nest_braced (TypeHead.opens_opening ha) (nest_statements h))
  | enumCase head rawValue =>
    rw [Node.own, permitsAll_append] at ha
    have hdecor : Nest A head.decor.leading :=
      Decor.nest_leading fun s hs => ha.1 s (by simp [CaseHead.authored, hs])
    have hraw : (rawValueInline rawValue).value.Nests A := by
      cases rawValue with
      | none => exact nests_empty
      | some value =>
        rw [rawValueInline]
        exact (nests_word rfl).append
          (value.nests_inline (fun c hc => h c (by simp [children, hc])) (ha.2.flatMap (by simp)))
    rw [Node.fragments]
    exact hdecor.append (nest_line ((nests_ofText (CaseHead.nests_declared ha.1)).append hraw))
  | protocolDecl head members =>
    have hdecor : Nest A head.decor.leading :=
      Decor.nest_leading fun s hs => ha s (by simp [own, ProtocolHead.authored, hs])
    rw [Node.fragments]
    exact hdecor.append (nest_braced (ProtocolHead.opens_opening ha) (nest_requirements h))
  | associatedType decl =>
    have hdecor : Nest A decl.decor.leading :=
      Decor.nest_leading fun s hs => ha s (by simp [own, AssociatedType.authored, hs])
    exact hdecor.append (nest_line (nests_ofText (AssociatedType.nests_text ha)))
  | extensionDecl head members =>
    have hdecor : Nest A head.decor.leading :=
      Decor.nest_leading fun s hs => ha s (by simp [own, ExtensionHead.authored, hs])
    rw [Node.fragments]
    exact hdecor.append (nest_braced (ExtensionHead.opens_opening ha) (nest_statements h))
  | function head params body =>
    rw [Node.own, permitsAll_append] at ha
    have hdecor : Nest A head.decor.leading :=
      Decor.nest_leading fun s hs => ha.1 s (by simp [FunctionHead.authored, hs])
    have hparams := nests_paramInlines (fun c hc => h c (List.mem_append_left _ hc)) ha.2
    have hsignature := nests_signatureInline (FunctionHead.nests_lead ha.1) hparams (FunctionHead.nests_trail ha.1)
    have hbody := nest_statements fun c hc => h c (List.mem_append_right _ hc)
    rw [Node.fragments]
    exact hdecor.append (nest_braced hsignature.opens hbody)
  | initializer head params body =>
    rw [Node.own, permitsAll_append] at ha
    have hdecor : Nest A head.decor.leading :=
      Decor.nest_leading fun s hs => ha.1 s (by simp [InitHead.authored, hs])
    have hparams := nests_paramInlines (fun c hc => h c (List.mem_append_left _ hc)) ha.2
    have hsignature := nests_signatureInline head.nests_lead hparams (InitHead.nests_trail ha.1)
    have hbody := nest_statements fun c hc => h c (List.mem_append_right _ hc)
    rw [Node.fragments]
    exact hdecor.append (nest_braced hsignature.opens hbody)
  | property head value getter =>
    have hdecor : Nest A head.decor.leading :=
      Decor.nest_leading fun s hs => ha s (by simp [own, PropertyHead.authored, hs])
    have hlead : (Inline.ofText head.lead).Nests A := nests_ofText (PropertyHead.nests_lead ha)
    cases getter with
    | none =>
      have hvalue : (optionalInline " = " .propertyValue value).value.Nests A :=
        nests_optionalInline (Text.nests_word rfl) fun c hc => h c (List.mem_append_left _ hc)
      rw [Node.fragments]
      exact hdecor.append (nest_line (hlead.append hvalue))
    | some body =>
      rw [Node.fragments]
      exact hdecor.append
        (nest_braced hlead.opens (nest_statements fun c hc => h c (List.mem_append_right _ hc)))
  | typeAlias decl =>
    have hdecor : Nest A decl.decor.leading :=
      Decor.nest_leading fun s hs => ha s (by simp [own, TypeAlias.authored, hs])
    exact hdecor.append (nest_line (nests_ofText (TypeAlias.nests_text ha)))
  | importDecl decl =>
    have hdecor : Nest A decl.decor.leading :=
      Decor.nest_leading fun s hs => ha s (by simp [own, ImportDecl.authored, hs])
    exact hdecor.append (nest_line (nests_ofText (ImportDecl.nests_text ha)))
  | expression e =>
    rw [Node.fragments]
    exact nest_line (e.nests_inline h ha)
  | assignment target op value =>
    have htarget := (h target (by simp [children])).inline .assignmentTarget
    have hvalue := (h value (by simp [children])).inline .assignedValue
    have hop : (Inline.ofText op).Nests A := nests_ofText (Text.nests_of_permits (ha op (by simp [own])))
    rw [Node.fragments]
    exact nest_line ((((htarget.append (nests_word rfl)).append hop).append (nests_word rfl)).append hvalue)
  | tupleAssignment names value mode =>
    have hkeyword : (Inline.ofText mode.bindingKeyword).Nests A := by cases mode <;> exact nests_word rfl
    have hlead : (Inline.ofText mode.valueLead).Nests A := by cases mode <;> exact nests_word rfl
    have hvalue := (h value (by simp [children])).inline .tupleValue
    rw [Node.fragments]
    exact nest_line (((((hkeyword.append (nests_word rfl)).append (nests_ofText (nests_bindingTarget ha))).append
      (nests_word rfl)).append hlead).append hvalue)
  | ifStmt first elseIfs otherwise =>
    obtain ⟨conditions, body⟩ := first
    rw [Node.own, List.flatMap_cons, permitsAll_append] at ha
    simp only [Node.children, Branch.children] at h
    have hheader := nests_joinWith (nests_conditionInlines (fun c hc => h c (by simp [hc])) ha.1)
    have hbody : Nest A (statements body).value := nest_statements fun c hc => h c (by simp [hc])
    have hmiddle := reopens_elseIfBlocks
      (fun c hc => h c (List.mem_append_left _ (List.mem_append_right _ hc))) ha.2
    have hlast := reopens_elseBlock fun c hc => h c (List.mem_append_right _ hc)
    rw [Node.fragments]
    exact nest_chain ((nests_word rfl).append hheader).opens hbody (List.forall_mem_append.2 ⟨hmiddle, hlast⟩)
  | guardStmt conditions otherwise =>
    have hheader := nests_joinWith (nests_conditionInlines (fun c hc => h c (List.mem_append_left _ hc)) ha)
    have hbody := nest_statements fun c hc => h c (List.mem_append_right _ hc)
    have htext : (Inline.ofText "guard " ++ Inline.joinWith ", " (conditionInlines conditions).value).Nests A :=
      (nests_word rfl).append hheader
    have hopens : Opens A (Inline.ofText "guard " ++ Inline.joinWith ", " (conditionInlines conditions).value ++
        Inline.ofText " else \x7b").chars :=
      htext.opens_word (.plain rfl : Nested A " else ".toList) rfl
    rw [Node.fragments]
    exact nest_braced hopens hbody
  | loop style condition body =>
    have hcondition := (h condition (by simp [children])).inline .loopCondition
    have hbody := nest_statements fun c hc => h c (List.mem_cons_of_mem _ hc)
    cases style with
    | whileLoop =>
      rw [Node.fragments]
      exact nest_braced ((nests_word rfl).append hcondition).opens hbody
    | repeatWhile =>
      -- The brace of the header is closed by the line that tests the condition.
      have hclosed := ((Nested.plain rfl : Nested A "repeat ".toList).append (Nested.braces hbody)).append
        ((Nested.plain rfl : Nested A " while ".toList).append hcondition)
      rw [Node.fragments]
      refine nest_singleton ?_
      simpa [Fragment.chars, Text.flat] using hclosed
  | forIn pattern sequence filter body =>
    have hsequence := (h sequence (by simp [children])).inline .loopSequence
    have hfilter : (optionalInline " where " .loopFilter filter).value.Nests A := by
      refine nests_optionalInline (Text.nests_word rfl) fun c hc => h c ?_
      exact List.mem_append_left _ (List.mem_cons_of_mem _ (List.mem_cons_of_mem _ hc))
    have hbody := nest_statements fun c hc => h c (List.mem_append_right _ hc)
    have hpattern := h pattern (by simp [children])
    cases pattern with
    | pattern p =>
      have hbinding := hpattern.binding p rfl
      rw [Node.fragments]
      exact nest_braced
        (((((nests_word rfl).append hbinding).append (nests_word rfl)).append hsequence).append hfilter).opens hbody
    | _ =>
      rw [Node.fragments]
      · exact nest_braced (((((nests_word rfl).append (hpattern.inline .loopPattern)).append (nests_word rfl)).append
          hsequence).append hfilter).opens hbody
      all_goals simp
  | switchStmt subject cases default =>
    have hsubject := (h subject (by simp [children])).inline .switchSubject
    have hclauses := nest_switchClauses fun c hc => h c (List.mem_append_left _ (List.mem_cons_of_mem _ hc))
    have hlast := nest_defaultClause fun c hc => h c (List.mem_append_right _ hc)
    have hclosed := (((Nested.plain rfl : Nested A "switch ".toList).append hsubject).append
      (Nested.plain rfl : Nested A [' '])).append (hclauses.append hlast).braces
    rw [Node.fragments, Nest]
    simpa [Fragment.charsOf, Fragment.chars, Text.flat] using hclosed
  | doCatch body catches =>
    have hbody := nest_statements fun c hc => h c (List.mem_append_left _ hc)
    have hclauses := reopens_catchBlocks fun c hc => h c (List.mem_append_right _ hc)
    have hheader : Opens A (Inline.ofText "do \x7b").chars :=
      ⟨"do ".toList, .plain rfl, by rw [Inline.chars_ofText]; rfl⟩
    rw [Node.fragments]
    exact nest_chain hheader hbody hclauses
  | returnStmt value =>
    have hvalue : (optionalInline " " .returnValue value).value.Nests A :=
      nests_optionalInline (Text.nests_word rfl) h
    rw [Node.fragments]
    exact nest_line ((nests_word rfl).append hvalue)
  | throwStmt error =>
    rw [Node.fragments]
    exact nest_line ((nests_word rfl).append ((h error (by simp [children])).inline .thrownError))
  | jump kind label =>
    have hkeyword : Text.Nests A kind.keyword := by cases kind <;> exact Text.nests_word rfl
    exact nest_line (nests_ofText (nests_jumpText hkeyword ha))
  | deferStmt body =>
    have hheader : Opens A (Inline.ofText "defer \x7b").chars :=
      ⟨"defer ".toList, .plain rfl, by rw [Inline.chars_ofText]; rfl⟩
    rw [Node.fragments]
    exact nest_braced hheader (nest_statements h)
  | pattern p => exact nest_nil
  | comment text => exact nest_comments (ha text (by simp [own]))
  | blank => exact nest_singleton .nil
  | raw code => exact nest_line (nests_ofText (Text.nests_of_permits (ha code (by simp [own]))))
  | empty => exact nest_nil

/-- A member of a protocol: functions, initializers and properties stand without their bodies. -/
theorem Node.nest_requirement {n : Node} (h : ∀ c ∈ n.children, c.Nests A) (ha : PermitsAll A n.own) :
    Nest A (requirements [n]).value := by
  have hfragments := Node.nest_fragments h ha
  cases n with
  | function head params body =>
    rw [Node.own, permitsAll_append] at ha
    have hdecor : Nest A head.decor.leading :=
      Decor.nest_leading fun s hs => ha.1 s (by simp [FunctionHead.authored, hs])
    have hparams := nests_paramInlines (fun c hc => h c (List.mem_append_left _ hc)) ha.2
    have hsignature := nests_signatureInline (FunctionHead.nests_lead ha.1) hparams (FunctionHead.nests_trail ha.1)
    rw [requirements]
    cases body <;> exact hdecor.append (nest_line hsignature)
  | initializer head params body =>
    rw [Node.own, permitsAll_append] at ha
    have hdecor : Nest A head.decor.leading :=
      Decor.nest_leading fun s hs => ha.1 s (by simp [InitHead.authored, hs])
    have hparams := nests_paramInlines (fun c hc => h c (List.mem_append_left _ hc)) ha.2
    rw [requirements]
    exact hdecor.append (nest_line (nests_signatureInline head.nests_lead hparams (InitHead.nests_trail ha.1)))
  | property head value getter =>
    have hdecor : Nest A head.decor.leading :=
      Decor.nest_leading fun s hs => ha s (by simp [own, PropertyHead.authored, hs])
    rw [requirements]
    exact hdecor.append (nest_line (nests_ofText (PropertyHead.nests_requirement ha getter.isSome)))
  | _ =>
    rw [requirements]
    · exact hfragments.append nest_nil
    all_goals simp

/-- Every tree whose authored texts hold only brackets that are allowed renders texts that nest. -/
theorem Node.nests (n : Node) (ha : PermitsAll A n.authored) : n.Nests A := by
  induction n using Node.induct with
  | step n ih =>
    rw [Node.authored_eq, permitsAll_append] at ha
    have h : ∀ c ∈ n.children, c.Nests A := fun c hc => ih c hc (ha.2.flatMap hc)
    refine ⟨Node.nest_fragments h ha.1, Node.nest_requirement h ha.1, Node.nests_inline h ha.1, ?_⟩
    rintro p rfl
    exact p.nests_bindingInline h ha.1

/-- The sections of a file, with a blank line between neighbours. -/
theorem nest_joinSections {sections : List (List Fragment)} (h : ∀ fs ∈ sections, Nest A fs) :
    Nest A (joinSections sections) := by
  induction sections with
  | nil => exact nest_nil
  | cons part rest ih =>
    cases rest with
    | nil => exact h part (by simp)
    | cons next rest =>
      have hblank : Nest A [.blank] := nest_singleton .nil
      exact (h part (by simp)).append (hblank.append (ih fun fs hfs => h fs (List.mem_cons_of_mem _ hfs)))

theorem SourceFile.nest_fragments {file : SourceFile} (ha : PermitsAll A file.authored) :
    Nest A file.fragments.value := by
  rw [SourceFile.authored, permitsAll_append, permitsAll_append] at ha
  obtain ⟨⟨hheader, himports⟩, hnodes⟩ := ha
  refine nest_joinSections fun fs hfs => ?_
  have hmem := (List.mem_filter.1 hfs).1
  simp only [List.mem_cons, List.not_mem_nil, or_false] at hmem
  rcases hmem with rfl | rfl | rfl
  · exact Fragment.nest_flatMap fun text ht => nest_comments (hheader text ht)
  · refine Fragment.nest_map fun name hname => ?_
    rw [Fragment.chars]
    exact (nests_word rfl).append (nests_ofText (Text.nests_of_permits (himports name hname)))
  · exact nest_statements fun n hn => n.nests (hnodes.flatMap hn)

end SwiftForge
