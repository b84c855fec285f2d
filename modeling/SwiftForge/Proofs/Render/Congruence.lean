import SwiftForge.Proofs.Render.Bindings
import SwiftForge.Proofs.Render.Written

/-! Two trees of one text. The rendering of a node is put together from what is rendered right below it, so nodes whose
    parts cannot be told apart cannot be told apart either; there is one lemma for each way a text is put together.

    Everything that stands inside a line is the same text piece by piece. The header of a `for` loop can be cut into
    other pieces, so what is said of fragments is that they have the same lines at every depth. Whether the warnings are
    the same as well is left to `W`: without its placeholders a protocol function can lose the body that its warning is
    about. -/

namespace SwiftForge

open List (Forall₂)
open Option (Rel)
open Logged (Agree)

/-! ### Lines -/

namespace Fragment

/-- Fragments with the same lines, wherever they stand. -/
def SameLines (f g : Fragment) : Prop := ∀ depth, f.lines depth = g.lines depth

theorem SameLines.refl (f : Fragment) : SameLines f f := fun _ => rfl

theorem sameLines_refl (fs : List Fragment) : Forall₂ SameLines fs fs := List.forall₂_same.2 fun f _ => .refl f

theorem linesOf_eq {fs gs : List Fragment} (h : Forall₂ SameLines fs gs) (depth : Nat) :
    linesOf depth fs = linesOf depth gs := by
  induction h with
  | nil => rfl
  | cons hf _ ih => rw [linesOf, linesOf, hf, ih]

theorem SameLines.block {header header' : Inline} {body body' : List Fragment}
    (hheader : ∀ depth, header.lines depth = header'.lines depth) (hbody : Forall₂ SameLines body body')
    (close : Option Inline) : SameLines (.block header body close) (.block header' body' close) := fun depth => by
  cases close <;> rw [lines, lines, hheader, linesOf_eq hbody]

theorem SameLines.braced (header : Inline) {body body' : List Fragment} (h : Forall₂ SameLines body body') :
    SameLines (.braced header body) (.braced header body') := .block (fun _ => rfl) h _

theorem SameLines.indented {body body' : List Fragment} (h : Forall₂ SameLines body body') :
    SameLines (.indented body) (.indented body') := fun depth => by
  rw [lines, lines, linesOf_eq h]

theorem SameLines.clauseBody {body body' : List Fragment} (h : Forall₂ SameLines body body') :
    SameLines (clauseBody body) (clauseBody body') := by
  cases h with
  | nil => exact .refl _
  | cons hf hrest => exact .indented (.cons hf hrest)

/-- Blocks of a chain with the same header and the same lines below it. -/
def SameBlock (a b : Inline × List Fragment) : Prop := a.1 = b.1 ∧ Forall₂ SameLines a.2 b.2

theorem sameLines_chain {blocks blocks' : List (Inline × List Fragment)} (h : Forall₂ SameBlock blocks blocks') :
    Forall₂ SameLines (chain blocks) (chain blocks') := by
  induction h with
  | nil => exact .nil
  | @cons block block' rest rest' hblock hrest ih =>
    obtain ⟨header, body⟩ := block
    obtain ⟨header', body'⟩ := block'
    obtain ⟨hheader, hbody⟩ := hblock
    cases hheader
    cases hrest with
    | nil => exact .cons (.braced header hbody) .nil
    | cons _ _ => exact .cons (.block (fun _ => rfl) hbody none) ih

theorem sameLines_trans {fs gs hs : List Fragment} (h : Forall₂ SameLines fs gs) (h' : Forall₂ SameLines gs hs) :
    Forall₂ SameLines fs hs := by
  induction h generalizing hs with
  | nil => exact h'
  | cons hf _ ih =>
    cases h' with
    | cons hg hrest => exact .cons (fun depth => (hf depth).trans (hg depth)) (ih hrest)

end Fragment

open Fragment (SameLines SameBlock)

section

variable {α β : Type} {R : α → β → Prop}

theorem isEmpty_eq {xs : List α} {ys : List β} (h : Forall₂ R xs ys) : xs.isEmpty = ys.isEmpty := by
  cases h <;> rfl

end

variable {W : Prop}

/-- Fragments with the same lines, one by one. -/
abbrev SameFragments (W : Prop) (x y : Logged (List Fragment)) : Prop := Agree W (Forall₂ SameLines) x y

abbrev SameBlocks (W : Prop) (x y : Logged (List (Inline × List Fragment))) : Prop := Agree W (Forall₂ SameBlock) x y

namespace SameFragments

variable {x y z : Logged (List Fragment)}

theorem refl (x : Logged (List Fragment)) : SameFragments W x x := ⟨Fragment.sameLines_refl _, fun _ => rfl⟩

theorem trans (h : SameFragments W x y) (h' : SameFragments W y z) : SameFragments W x z :=
  ⟨Fragment.sameLines_trans h.value h'.value, fun hW => (h.warnings hW).trans (h'.warnings hW)⟩

theorem symm (h : SameFragments W x y) : SameFragments W y x :=
  ⟨(h.value.imp fun _ _ hf depth => (hf depth).symm).flip, fun hW => (h.warnings hW).symm⟩

/-- A declaration with its block stands below comments and attributes. -/
theorem below (h : SameFragments W x y) (above : List Fragment) (header : Inline) :
    SameFragments W (x >>= fun body => pure (above ++ [.braced header body]))
      (y >>= fun body => pure (above ++ [.braced header body])) :=
  h.bind fun hbody => .pure (List.rel_append (Fragment.sameLines_refl above) (.cons (.braced header hbody) .nil))

/-- A block with nothing around it. -/
theorem braced (h : SameFragments W x y) (header : Inline) :
    SameFragments W (x >>= fun body => pure [.braced header body]) (y >>= fun body => pure [.braced header body]) :=
  h.below [] header

end SameFragments

/-! ### Lists of nodes -/

/-- What is asked of each of these nodes. -/
def AllNodes (P : Node → Prop) (nodes : List Node) : Prop := ∀ n ∈ nodes, P n

namespace AllNodes

variable {P : Node → Prop} {n : Node} {xs ys : List Node}

theorem left (h : AllNodes P (xs ++ ys)) : AllNodes P xs := fun n hn => h n (List.mem_append_left _ hn)

theorem right (h : AllNodes P (xs ++ ys)) : AllNodes P ys := fun n hn => h n (List.mem_append_right _ hn)

theorem head (h : AllNodes P (n :: xs)) : P n := h n List.mem_cons_self

theorem tail (h : AllNodes P (n :: xs)) : AllNodes P xs := fun m hm => h m (List.mem_cons_of_mem _ hm)

end AllNodes

/-- Nodes that cannot be told apart in a role. -/
abbrev SameInline (W : Prop) (role : Role) (n m : Node) : Prop := Agree W Eq (n.inline role) (m.inline role)

/-- Statement lists that cannot be told apart. -/
abbrev SameBody (W : Prop) (a b : List Node) : Prop := SameFragments W (statements a) (statements b)

section

variable {n m : Node} {a b : List Node} {role : Role}

theorem SameBody.cons (h : SameFragments W n.fragments m.fragments) (hrest : SameBody W a b) :
    SameBody W (n :: a) (m :: b) := by
  rw [SameBody, statements, statements]
  exact h.bind fun hhere => hrest.bind fun hafter => .pure (List.rel_append hhere hafter)

theorem requirements_cons_congr (h : SameFragments W (requirements [n]) (requirements [m]))
    (hrest : SameFragments W (requirements a) (requirements b)) :
    SameFragments W (requirements (n :: a)) (requirements (m :: b)) := by
  refine ⟨?_, fun hW => ?_⟩
  · rw [value_requirements_cons n, value_requirements_cons m]
    exact List.rel_append h.value hrest.value
  · rw [warnings_requirements_cons n, warnings_requirements_cons m, h.warnings hW, hrest.warnings hW]

theorem inlines_congr (h : Forall₂ (SameInline W role) a b) : Agree W Eq (inlines role a) (inlines role b) := by
  induction h with
  | nil => exact .refl _
  | cons hn _ ih =>
    rw [inlines, inlines]
    exact hn.bind_eq fun _ => ih.bind_eq fun _ => .refl _

theorem optionalInline_congr (lead : String) {x y : Option Node} (h : Rel (SameInline W role) x y) :
    Agree W Eq (optionalInline lead role x) (optionalInline lead role y) := by
  cases h with
  | none => exact .refl _
  | some h =>
    rw [optionalInline, optionalInline]
    exact h.bind_eq fun _ => .refl _

end

/-! ### Expressions -/

/-- A parameter with the same name, type and default value. -/
inductive Param.SameText (W : Prop) : Param → Param → Prop where
  | mk {head default default'} : Rel (SameInline W .defaultArgument) default default' →
    SameText W ⟨head, default⟩ ⟨head, default'⟩

inductive Entry.SameText (W : Prop) : Entry → Entry → Prop where
  | mk {key key' value value'} : SameInline W .dictionaryKey key key' → SameInline W .dictionaryValue value value' →
    SameText W ⟨key, value⟩ ⟨key', value'⟩

inductive Argument.SameText (W : Prop) : Argument → Argument → Prop where
  | mk {label value value'} : SameInline W .callArgument value value' → SameText W ⟨label, value⟩ ⟨label, value'⟩

abbrev Literal.SameText (W : Prop) (a b : Literal) : Prop := Agree W Eq a.inline b.inline

abbrev Closure.SameText (W : Prop) (a b : Closure) : Prop := Agree W Eq a.inline b.inline

/-- Expressions of one text, which fit the same roles. -/
structure Expr.SameText (W : Prop) (a b : Expr) : Prop where
  inline : Agree W Eq a.inline b.inline
  isPattern : a.isPattern = b.isPattern

theorem paramInlines_congr {a b : List Param} (h : Forall₂ (Param.SameText W) a b) :
    Agree W Eq (paramInlines a) (paramInlines b) := by
  induction h with
  | nil => exact .refl _
  | cons hparam _ ih =>
    obtain ⟨hdefault⟩ := hparam
    rw [paramInlines, paramInlines]
    exact (optionalInline_congr _ hdefault).bind_eq fun _ => ih.bind_eq fun _ => .refl _

theorem entryInlines_congr {a b : List Entry} (h : Forall₂ (Entry.SameText W) a b) :
    Agree W Eq (entryInlines a) (entryInlines b) := by
  induction h with
  | nil => exact .refl _
  | cons hentry _ ih =>
    obtain ⟨hkey, hvalue⟩ := hentry
    rw [entryInlines, entryInlines]
    exact hkey.bind_eq fun _ => hvalue.bind_eq fun _ => ih.bind_eq fun _ => .refl _

theorem argumentInlines_congr {a b : List Argument} (h : Forall₂ (Argument.SameText W) a b) :
    Agree W Eq (argumentInlines a) (argumentInlines b) := by
  induction h with
  | nil => exact .refl _
  | cons hargument _ ih =>
    obtain ⟨hvalue⟩ := hargument
    simp only [argumentInlines]
    exact hvalue.bind_eq fun _ => ih.bind_eq fun _ => .refl _

theorem rawValueInline_congr {a b : Option Literal} (h : Rel (Literal.SameText W) a b) :
    Agree W Eq (rawValueInline a) (rawValueInline b) := by
  cases h with
  | none => exact .refl _
  | some h =>
    rw [rawValueInline, rawValueInline]
    exact h.bind_eq fun _ => .refl _

theorem trailingInline_congr {a b : Option Closure} (h : Rel (Closure.SameText W) a b) :
    Agree W Eq (trailingInline a) (trailingInline b) := by
  cases h with
  | none => exact .refl _
  | some h =>
    rw [trailingInline, trailingInline]
    exact h.bind_eq fun _ => .refl _

namespace Literal.SameText

theorem tuple {a b : List Node} (h : Forall₂ (SameInline W .tupleElement) a b) :
    Literal.SameText W (.tuple a) (.tuple b) :=
  (inlines_congr h).bind_eq fun _ => .refl _

theorem array {a b : List Node} (h : Forall₂ (SameInline W .arrayElement) a b) :
    Literal.SameText W (.array a) (.array b) :=
  (inlines_congr h).bind_eq fun _ => .refl _

theorem dictionary {a b : List Entry} (h : Forall₂ (Entry.SameText W) a b) :
    Literal.SameText W (.dictionary a) (.dictionary b) :=
  (entryInlines_congr h).bind_eq fun _ => .refl _

end Literal.SameText

/-- A closure without nodes has no lines; any other has those of its nodes, even if they are none. -/
theorem Closure.SameText.mk {head : ClosureHead} {a b : List Node} (h : SameBody W a b)
    (hempty : a.isEmpty = b.isEmpty) : Closure.SameText W ⟨head, a⟩ ⟨head, b⟩ := by
  rw [Closure.SameText, Closure.inline, Closure.inline, hempty]
  exact h.bind fun hlines => .pure (by rw [Fragment.linesOf_eq hlines])

namespace Expr.SameText

theorem literal {a b : Literal} (h : a.SameText W b) : Expr.SameText W (.literal a) (.literal b) where
  inline := h
  isPattern := rfl

theorem call {callee callee' : Node} {args args' : List Argument} {trailing trailing' : Option Closure}
    (hcallee : SameInline W .callee callee callee') (hargs : Forall₂ (Argument.SameText W) args args')
    (htrailing : Rel (Closure.SameText W) trailing trailing') (effects : CallEffects) :
    Expr.SameText W (.call callee args trailing effects) (.call callee' args' trailing' effects) where
  inline := hcallee.bind_eq fun _ => (argumentInlines_congr hargs).bind_eq fun _ =>
    (trailingInline_congr htrailing).bind_eq fun _ => .refl _
  isPattern := rfl

theorem member {base base' : Option Node} (h : Rel (SameInline W .memberBase) base base') (name : String) :
    Expr.SameText W (.member base name) (.member base' name) where
  inline := (optionalInline_congr _ h).bind_eq fun _ => .refl _
  isPattern := rfl

theorem binary {lhs lhs' rhs rhs' : Node} (hlhs : SameInline W .operand lhs lhs') (op : String)
    (hrhs : SameInline W .operand rhs rhs') (isParenthesized : Bool) :
    Expr.SameText W (.binary lhs op rhs isParenthesized) (.binary lhs' op rhs' isParenthesized) where
  inline := hlhs.bind_eq fun _ => hrhs.bind_eq fun _ => .refl _
  isPattern := rfl

theorem unary {operand operand' : Node} (op : String) (h : SameInline W .operand operand operand') :
    Expr.SameText W (.unary op operand) (.unary op operand') where
  inline := h.bind_eq fun _ => .refl _
  isPattern := rfl

theorem postfixed {operand operand' : Node} (h : SameInline W .operand operand operand') (mark : PostfixMark) :
    Expr.SameText W (.postfixed operand mark) (.postfixed operand' mark) where
  inline := h.bind_eq fun _ => .refl _
  isPattern := rfl

theorem closure {a b : Closure} (h : a.SameText W b) : Expr.SameText W (.closure a) (.closure b) where
  inline := h
  isPattern := rfl

end Expr.SameText

/-! ### Patterns -/

/-- Patterns that cannot be told apart, behind `case` and behind `for`. -/
structure Pattern.SameText (W : Prop) (p q : Pattern) : Prop where
  inline : Agree W Eq p.inline q.inline
  binding : Agree W Eq p.bindingInline q.bindingInline

theorem patternInlines_congr {a b : List Pattern} (h : Forall₂ (Pattern.SameText W) a b) :
    Agree W Eq (patternInlines a) (patternInlines b) := by
  induction h with
  | nil => exact .refl _
  | cons hp _ ih =>
    rw [patternInlines, patternInlines]
    exact hp.inline.bind_eq fun _ => ih.bind_eq fun _ => .refl _

theorem bindingInlines_congr {a b : List Pattern} (h : Forall₂ (Pattern.SameText W) a b) :
    Agree W Eq (bindingInlines a) (bindingInlines b) := by
  induction h with
  | nil => exact .refl _
  | cons hp _ ih =>
    rw [bindingInlines, bindingInlines]
    exact hp.binding.bind_eq fun _ => ih.bind_eq fun _ => .refl _

namespace Pattern.SameText

theorem refl (p : Pattern) : p.SameText W p := ⟨.refl _, .refl _⟩

theorem tuple {a b : List Pattern} (h : Forall₂ (Pattern.SameText W) a b) :
    Pattern.SameText W (.tuple a) (.tuple b) where
  inline := (patternInlines_congr h).bind_eq fun _ => .refl _
  binding := (bindingInlines_congr h).bind_eq fun _ => .refl _

theorem expression {a b : Node} (h : SameInline W .expressionPattern a b) :
    Pattern.SameText W (.expression a) (.expression b) where
  inline := h
  binding := h.bind_eq fun _ => .refl _

end Pattern.SameText

/-! ### Clauses -/

abbrev Condition.SameText (W : Prop) (a b : Condition) : Prop := Agree W Eq a.inline b.inline

namespace Condition.SameText

theorem expr {a b : Node} (h : SameInline W .condition a b) : Condition.SameText W (.expr a) (.expr b) :=
  h

theorem binding (keyword : Binding) (name : String) {a b : Option Node}
    (h : Rel (SameInline W .boundValue) a b) :
    Condition.SameText W (.binding keyword name a) (.binding keyword name b) :=
  (optionalInline_congr _ h).bind_eq fun _ => .refl _

theorem caseMatch {pattern pattern' value value' : Node} (hpattern : SameInline W .caseCondition pattern pattern')
    (hvalue : SameInline W .matchedValue value value') :
    Condition.SameText W (.caseMatch pattern value) (.caseMatch pattern' value') :=
  hpattern.bind_eq fun _ => hvalue.bind_eq fun _ => .refl _

end Condition.SameText

inductive Branch.SameText (W : Prop) : Branch → Branch → Prop where
  | mk {conditions conditions' body body'} : Forall₂ (Condition.SameText W) conditions conditions' →
    SameBody W body body' → SameText W ⟨conditions, body⟩ ⟨conditions', body'⟩

inductive SwitchCase.SameText (W : Prop) : SwitchCase → SwitchCase → Prop where
  | mk {patterns patterns' guard guard' body body'} : Forall₂ (SameInline W .casePattern) patterns patterns' →
    Rel (SameInline W .caseGuard) guard guard' → SameBody W body body' →
    SameText W ⟨patterns, guard, body⟩ ⟨patterns', guard', body'⟩

inductive Catch.SameText (W : Prop) : Catch → Catch → Prop where
  | mk {pattern pattern' body body'} : Rel (SameInline W .catchPattern) pattern pattern' → SameBody W body body' →
    SameText W ⟨pattern, body⟩ ⟨pattern', body'⟩

theorem conditionInlines_congr {a b : List Condition} (h : Forall₂ (Condition.SameText W) a b) :
    Agree W Eq (conditionInlines a) (conditionInlines b) := by
  induction h with
  | nil => exact .refl _
  | cons hcondition _ ih =>
    rw [conditionInlines, conditionInlines]
    exact hcondition.bind_eq fun _ => ih.bind_eq fun _ => .refl _

/-- A list of conditions is checked for being empty and then rendered. -/
theorem checkConditions_congr (keyword : String) {α : Type} {R : α → α → Prop} {f g : List Inline → Logged α}
    {a b : List Condition} (h : Forall₂ (Condition.SameText W) a b) (hf : ∀ texts, Agree W R (f texts) (g texts)) :
    Agree W R (checkConditions keyword a >>= fun _ => conditionInlines a >>= f)
      (checkConditions keyword b >>= fun _ => conditionInlines b >>= g) := by
  rw [checkConditions, checkConditions, isEmpty_eq h]
  exact .after fun _ => (conditionInlines_congr h).bind_eq hf

theorem elseIfBlocks_congr {a b : List Branch} (h : Forall₂ (Branch.SameText W) a b) :
    SameBlocks W (elseIfBlocks a) (elseIfBlocks b) := by
  induction h with
  | nil => exact .pure .nil
  | cons hbranch _ ih =>
    obtain ⟨hconditions, hbody⟩ := hbranch
    rw [elseIfBlocks, elseIfBlocks]
    exact checkConditions_congr _ hconditions fun _ => hbody.bind fun hbody => ih.bind fun hafter =>
      .pure (.cons ⟨rfl, hbody⟩ hafter)

theorem elseBlock_congr {a b : Option (List Node)} (h : Rel (SameBody W) a b) :
    SameBlocks W (elseBlock a) (elseBlock b) := by
  cases h with
  | none => exact .pure .nil
  | some h =>
    rw [elseBlock, elseBlock]
    exact h.bind fun hbody => .pure (.cons ⟨rfl, hbody⟩ .nil)

theorem switchClauses_congr {a b : List SwitchCase} (h : Forall₂ (SwitchCase.SameText W) a b) :
    SameFragments W (switchClauses a) (switchClauses b) := by
  induction h with
  | nil => exact .refl _
  | cons hclause _ ih =>
    obtain ⟨hpatterns, hguard, hbody⟩ := hclause
    rw [switchClauses, switchClauses]
    exact (inlines_congr hpatterns).bind_eq fun _ => (optionalInline_congr _ hguard).bind_eq fun _ =>
      hbody.bind fun hbody => ih.bind fun hafter => .pure (.cons (.refl _) (.cons (.clauseBody hbody) hafter))

theorem defaultClause_congr {a b : Option (List Node)} (h : Rel (SameBody W) a b) :
    SameFragments W (defaultClause a) (defaultClause b) := by
  cases h with
  | none => exact .refl _
  | some h =>
    rw [defaultClause, defaultClause]
    exact h.bind fun hbody => .pure (.cons (.refl _) (.cons (.clauseBody hbody) .nil))

theorem catchBlocks_congr {a b : List Catch} (h : Forall₂ (Catch.SameText W) a b) :
    SameBlocks W (catchBlocks a) (catchBlocks b) := by
  induction h with
  | nil => exact .pure .nil
  | cons hclause _ ih =>
    obtain ⟨hpattern, hbody⟩ := hclause
    rw [catchBlocks, catchBlocks]
    exact (optionalInline_congr _ hpattern).bind_eq fun _ => hbody.bind fun hbody => ih.bind fun hafter =>
      .pure (.cons ⟨rfl, hbody⟩ hafter)

/-! ### Loops -/

/-- What stands between `for` and `in` for a node in the place of the pattern. -/
def Node.loopBinding : Node → Logged Inline
  | .pattern p => p.bindingInline
  | n => do
    let text ← n.inline .loopPattern
    pure ("case " ++ text)

theorem Node.fragments_forIn {binding : Node} (h : ∀ p, binding ≠ .pattern p) (sequence : Node) (filter : Option Node)
    (body : List Node) :
    (Node.forIn binding sequence filter body).fragments = (do
      let binding ← binding.inline .loopPattern
      let sequence ← sequence.inline .loopSequence
      let filter ← optionalInline " where " .loopFilter filter
      let body ← statements body
      pure [.braced ("for case " ++ binding ++ " in " ++ sequence ++ filter ++ " \x7b") body]) := by
  cases binding with
  | pattern p => exact absurd rfl (h p)
  | _ => rfl

theorem Node.loopBinding_eq {n : Node} (h : ∀ p, n ≠ .pattern p) :
    n.loopBinding = n.inline .loopPattern >>= fun text => pure ("case " ++ text) := by
  cases n with
  | pattern p => exact absurd rfl (h p)
  | _ => rfl

/-- A pattern and any other node go the same way, but for the pieces of the header. -/
theorem sameFragments_forLoop (binding sequence : Node) (filter : Option Node) (body : List Node) :
    SameFragments W (Node.forIn binding sequence filter body).fragments
      (forLoop binding.loopBinding sequence filter body) := by
  by_cases h : ∃ p, binding = .pattern p
  · obtain ⟨p, rfl⟩ := h
    exact .refl _
  · rw [Node.fragments_forIn (not_exists.1 h), Node.loopBinding_eq (not_exists.1 h)]
    refine ⟨.cons (.block (fun _ => rfl) (Fragment.sameLines_refl _) _) .nil, fun _ => ?_⟩
    simp [forLoop]

/-! ### Nodes -/

namespace Node

/-- Two nodes that cannot be told apart in what is rendered, wherever they stand. -/
structure SameText (W : Prop) (a b : Node) : Prop where
  fragments : SameFragments W a.fragments b.fragments
  requirement : SameFragments W (requirements [a]) (requirements [b])
  inline : ∀ role, SameInline W role a b
  binding : Agree W Eq a.loopBinding b.loopBinding

/-- Whether a node has a form of its own as a protocol requirement. -/
def isRequirement : Node → Bool
  | .function .. | .initializer .. | .property .. => true
  | _ => false

/-- Whether a node is a statement or a declaration and nothing else. -/
def isPlainStatement (n : Node) : Bool := !n.isExpression && !n.isPattern && !n.isRequirement

variable {a b : Node}

theorem requirements_singleton (h : a.isRequirement = false) :
    requirements [a] = a.fragments >>= fun here => pure (here ++ []) := by
  cases a with
  | function => cases h
  | initializer => cases h
  | property => cases h
  | _ => rfl

theorem requirement_of_fragments (h : SameFragments W a.fragments b.fragments) (ha : a.isRequirement = false)
    (hb : b.isRequirement = false) : SameFragments W (requirements [a]) (requirements [b]) := by
  rw [requirements_singleton ha, requirements_singleton hb]
  exact h.bind fun hfragments => .pure (List.rel_append hfragments .nil)

theorem inline_of_statement (ha : a.isExpression = false) (ha' : a.isPattern = false) (role : Role) :
    a.inline role = placeholder a.kindName role := by
  refine inline_of_unfit ?_
  rw [Role.fits]
  split <;> assumption

/-- Only a closure is an expression that does not fit every role. -/
theorem kindName_of_unfit {e : Expr} {role : Role} (h : role.fits (.expression e) = false) :
    (expression e).kindName = "closure" := by
  cases e with
  | closure => rfl
  | _ => simp [Role.fits, isPattern, isExpression, Expr.isPattern] at h

/-- A body is left out of a requirement, with a warning. -/
theorem requirements_function (head : FunctionHead) (params : List Param) (body : List Node) :
    requirements [.function head params body] =
      (if body.isEmpty then pure () else Logged.warn (.requirementBody head.name)) >>= fun _ =>
        paramInlines params >>= fun params =>
          pure (head.decor.leading ++ [.line (signatureInline head.lead params head.trail)]) := by
  cases body <;> rw [requirements] <;> rfl

namespace SameText

theorem refl (n : Node) : n.SameText W n := ⟨.refl _, .refl _, fun _ => .refl _, .refl _⟩

/-- A declaration or statement has nothing else to be told apart by. -/
theorem statement (h : SameFragments W a.fragments b.fragments) (ha : a.isPlainStatement = true)
    (hb : b.isPlainStatement = true) (hkind : a.kindName = b.kindName) : a.SameText W b := by
  simp only [isPlainStatement, Bool.and_eq_true, Bool.not_eq_true'] at ha hb
  obtain ⟨⟨hexpression, hpattern⟩, hrequirement⟩ := ha
  obtain ⟨⟨hexpression', hpattern'⟩, hrequirement'⟩ := hb
  have hinline : ∀ role, SameInline W role a b := fun role => by
    rw [SameInline, inline_of_statement hexpression hpattern, inline_of_statement hexpression' hpattern', hkind]
    exact .refl _
  have hne : ∀ {n : Node}, n.isPattern = false → ∀ p, n ≠ .pattern p := by
    rintro _ hn p rfl
    cases hn
  exact
    { fragments := h
      requirement := requirement_of_fragments h hrequirement hrequirement'
      inline := hinline
      binding := by
        rw [loopBinding_eq (hne hpattern), loopBinding_eq (hne hpattern')]
        exact (hinline _).bind_eq fun _ => .refl _ }

theorem typeDecl {head : TypeHead} {members members' : List Node} (h : SameBody W members members') :
    SameText W (.typeDecl head members) (.typeDecl head members') :=
  .statement (h.below _ _) rfl rfl rfl

theorem enumCase {head : CaseHead} {rawValue rawValue' : Option Literal}
    (h : Rel (Literal.SameText W) rawValue rawValue') :
    SameText W (.enumCase head rawValue) (.enumCase head rawValue') := by
  have hfragments : SameFragments W (Node.enumCase head rawValue).fragments (Node.enumCase head rawValue').fragments :=
    (rawValueInline_congr h).bind_eq fun _ => SameFragments.refl _
  exact
    { fragments := hfragments
      requirement := requirement_of_fragments hfragments rfl rfl
      inline := fun _ => .refl _
      binding := .refl _ }

theorem protocolDecl {head : ProtocolHead} {members members' : List Node}
    (h : SameFragments W (requirements members) (requirements members')) :
    SameText W (.protocolDecl head members) (.protocolDecl head members') :=
  .statement (h.below _ _) rfl rfl rfl

theorem extensionDecl {head : ExtensionHead} {members members' : List Node} (h : SameBody W members members') :
    SameText W (.extensionDecl head members) (.extensionDecl head members') :=
  .statement (h.below _ _) rfl rfl rfl

theorem function {head : FunctionHead} {params params' : List Param} {body body' : List Node}
    (hparams : Forall₂ (Param.SameText W) params params') (hbody : SameBody W body body')
    (hempty : W → body.isEmpty = body'.isEmpty) :
    SameText W (.function head params body) (.function head params' body') where
  fragments := (paramInlines_congr hparams).bind_eq fun _ => hbody.below _ _
  requirement := by
    rw [requirements_function, requirements_function]
    refine Agree.bind_eq ⟨rfl, fun hW => ?_⟩ fun _ => (paramInlines_congr hparams).bind_eq fun _ =>
      SameFragments.refl _
    rw [hempty hW]
  inline _ := .refl _
  binding := .refl _

theorem initializer {head : InitHead} {params params' : List Param} {body body' : List Node}
    (hparams : Forall₂ (Param.SameText W) params params') (hbody : SameBody W body body') :
    SameText W (.initializer head params body) (.initializer head params' body') where
  fragments := (paramInlines_congr hparams).bind_eq fun _ => hbody.below _ _
  requirement := (paramInlines_congr hparams).bind_eq fun _ => SameFragments.refl _
  inline _ := .refl _
  binding := .refl _

theorem property {head : PropertyHead} {value value' : Option Node} {getter getter' : Option (List Node)}
    (hvalue : Rel (SameInline W .propertyValue) value value') (hgetter : Rel (SameBody W) getter getter') :
    SameText W (.property head value getter) (.property head value' getter') where
  fragments := by
    cases hgetter with
    | none => exact (optionalInline_congr _ hvalue).bind_eq fun _ => SameFragments.refl _
    | some hbody => exact hbody.below _ _
  requirement := by cases hgetter <;> exact .refl _
  inline _ := .refl _
  binding := .refl _

theorem expression {e e' : Expr} (h : e.SameText W e') : SameText W (.expression e) (.expression e') := by
  have hfragments : SameFragments W (Node.expression e).fragments (Node.expression e').fragments :=
    h.inline.bind_eq fun _ => SameFragments.refl _
  have hinline : ∀ role, SameInline W role (.expression e) (.expression e') := fun role => by
    have hfits : role.fits (.expression e) = role.fits (.expression e') := by
      simp only [Role.fits, isPattern, isExpression, h.isPattern]
    by_cases hrole : role.fits (.expression e) = true
    · rw [SameInline, inline_expression hrole, inline_expression (hfits ▸ hrole)]
      exact h.inline
    · rw [Bool.not_eq_true] at hrole
      have hrole' : role.fits (.expression e') = false := hfits ▸ hrole
      rw [SameInline, inline_of_unfit hrole, inline_of_unfit hrole', kindName_of_unfit hrole, kindName_of_unfit hrole']
      exact .refl _
  exact
    { fragments := hfragments
      requirement := requirement_of_fragments hfragments rfl rfl
      inline := hinline
      binding := by
        rw [loopBinding_eq (by simp), loopBinding_eq (by simp)]
        exact (hinline _).bind_eq fun _ => .refl _ }

theorem assignment {target target' value value' : Node} (htarget : SameInline W .assignmentTarget target target')
    (op : String) (hvalue : SameInline W .assignedValue value value') :
    SameText W (.assignment target op value) (.assignment target' op value') :=
  .statement (htarget.bind_eq fun _ => hvalue.bind_eq fun _ => SameFragments.refl _) rfl rfl rfl

theorem tupleAssignment (names : List String) {value value' : Node} (h : SameInline W .tupleValue value value')
    (mode : AssignmentMode) : SameText W (.tupleAssignment names value mode) (.tupleAssignment names value' mode) :=
  .statement (h.bind_eq fun _ => SameFragments.refl _) rfl rfl rfl

theorem ifStmt {first first' : Branch} {elseIfs elseIfs' : List Branch} {otherwise otherwise' : Option (List Node)}
    (hfirst : first.SameText W first') (helse : Forall₂ (Branch.SameText W) elseIfs elseIfs')
    (hlast : Rel (SameBody W) otherwise otherwise') :
    SameText W (.ifStmt first elseIfs otherwise) (.ifStmt first' elseIfs' otherwise') := by
  obtain ⟨hconditions, hbody⟩ := hfirst
  refine .statement ?_ rfl rfl rfl
  rw [Node.fragments, Node.fragments]
  exact checkConditions_congr _ hconditions fun _ => hbody.bind fun hbody =>
    (elseIfBlocks_congr helse).bind fun hmiddle => (elseBlock_congr hlast).bind fun hlast =>
      .pure (Fragment.sameLines_chain (.cons ⟨rfl, hbody⟩ (List.rel_append hmiddle hlast)))

theorem guardStmt {conditions conditions' : List Condition} {otherwise otherwise' : List Node}
    (hconditions : Forall₂ (Condition.SameText W) conditions conditions') (hbody : SameBody W otherwise otherwise') :
    SameText W (.guardStmt conditions otherwise) (.guardStmt conditions' otherwise') :=
  .statement (checkConditions_congr _ hconditions fun _ => hbody.braced _) rfl rfl rfl

theorem loop (style : LoopStyle) {condition condition' : Node} {body body' : List Node}
    (hcondition : SameInline W .loopCondition condition condition') (hbody : SameBody W body body') :
    SameText W (.loop style condition body) (.loop style condition' body') := by
  refine .statement ?_ rfl rfl rfl
  rw [Node.fragments, Node.fragments]
  refine hcondition.bind_eq fun _ => ?_
  cases style with
  | whileLoop => exact hbody.braced _
  | repeatWhile => exact hbody.bind fun hbody => .pure (.cons (.block (fun _ => rfl) hbody _) .nil)

theorem forIn {binding binding' sequence sequence' : Node} {filter filter' : Option Node} {body body' : List Node}
    (hbinding : Agree W Eq binding.loopBinding binding'.loopBinding)
    (hsequence : SameInline W .loopSequence sequence sequence')
    (hfilter : Rel (SameInline W .loopFilter) filter filter') (hbody : SameBody W body body') :
    SameText W (.forIn binding sequence filter body) (.forIn binding' sequence' filter' body') := by
  refine .statement ?_ rfl rfl rfl
  refine (sameFragments_forLoop ..).trans (.trans ?_ (sameFragments_forLoop ..).symm)
  exact hbinding.bind_eq fun _ => hsequence.bind_eq fun _ => (optionalInline_congr _ hfilter).bind_eq fun _ =>
    hbody.braced _

theorem switchStmt {subject subject' : Node} {cases cases' : List SwitchCase} {default default' : Option (List Node)}
    (hsubject : SameInline W .switchSubject subject subject') (hcases : Forall₂ (SwitchCase.SameText W) cases cases')
    (hdefault : Rel (SameBody W) default default') :
    SameText W (.switchStmt subject cases default) (.switchStmt subject' cases' default') := by
  refine .statement ?_ rfl rfl rfl
  rw [Node.fragments, Node.fragments]
  exact hsubject.bind_eq fun _ => (switchClauses_congr hcases).bind fun hclauses =>
    (defaultClause_congr hdefault).bind fun hlast =>
      .pure (List.rel_append (List.rel_append (.cons (.refl _) hclauses) hlast) (Fragment.sameLines_refl _))

theorem doCatch {body body' : List Node} {catches catches' : List Catch} (hbody : SameBody W body body')
    (hcatches : Forall₂ (Catch.SameText W) catches catches') :
    SameText W (.doCatch body catches) (.doCatch body' catches') := by
  refine .statement ?_ rfl rfl rfl
  rw [Node.fragments, Node.fragments]
  exact hbody.bind fun hbody => (catchBlocks_congr hcatches).bind fun hclauses =>
    .pure (Fragment.sameLines_chain (.cons ⟨rfl, hbody⟩ hclauses))

theorem returnStmt {value value' : Option Node} (h : Rel (SameInline W .returnValue) value value') :
    SameText W (.returnStmt value) (.returnStmt value') :=
  .statement ((optionalInline_congr _ h).bind_eq fun _ => SameFragments.refl _) rfl rfl rfl

theorem throwStmt {error error' : Node} (h : SameInline W .thrownError error error') :
    SameText W (.throwStmt error) (.throwStmt error') :=
  .statement (h.bind_eq fun _ => SameFragments.refl _) rfl rfl rfl

theorem deferStmt {body body' : List Node} (h : SameBody W body body') :
    SameText W (.deferStmt body) (.deferStmt body') :=
  .statement (h.braced _) rfl rfl rfl

theorem pattern {p q : Pattern} (h : p.SameText W q) : SameText W (.pattern p) (.pattern q) where
  fragments := .refl _
  requirement := .refl _
  inline role := by
    rw [SameInline, Node.inline, Node.inline]
    split
    · exact h.inline
    · exact .refl _
  binding := h.binding

end SameText

end Node

/-! ### Whole texts -/

theorem joinSections_congr {a b : List (List Fragment)} (h : Forall₂ (Forall₂ SameLines) a b) :
    Forall₂ SameLines (joinSections a) (joinSections b) := by
  induction h with
  | nil => exact .nil
  | cons hpart hrest ih =>
    cases hrest with
    | nil => exact hpart
    | cons _ _ => exact List.rel_append hpart (.cons (.refl _) ih)

theorem SourceFile.fragments_congr {f g : SourceFile} (hheader : f.header = g.header) (himports : f.imports = g.imports)
    (h : SameBody W f.nodes g.nodes) : SameFragments W f.fragments g.fragments := by
  rw [fragments, fragments, hheader, himports]
  refine h.bind fun hbody => .pure (joinSections_congr (List.rel_filter (fun _ _ hpart => ?_)
    (.cons (Fragment.sameLines_refl _) (.cons (Fragment.sameLines_refl _) (.cons hbody .nil)))))
  simp only [isEmpty_eq hpart]

theorem render_congr (indent : Indent) {a b : List Node} (h : SameBody W a b) :
    Agree W Eq (render indent a) (render indent b) := by
  refine ⟨?_, fun hW => ?_⟩
  · rw [value_render, value_render, Fragment.linesOf_eq h.value]
  · rw [warnings_render, warnings_render, h.warnings hW]

theorem SourceFile.render_congr (indent : Indent) {f g : SourceFile} (hheader : f.header = g.header)
    (himports : f.imports = g.imports) (h : SameBody W f.nodes g.nodes) :
    Agree W Eq (f.render indent) (g.render indent) := by
  have hfragments := fragments_congr hheader himports h
  refine ⟨?_, fun hW => ?_⟩
  · rw [SourceFile.value_render, SourceFile.value_render, Fragment.linesOf_eq hfragments.value]
  · rw [SourceFile.warnings_render, SourceFile.warnings_render, hfragments.warnings hW]

theorem renderInline_congr (indent : Indent) {role : Role} {n m : Node} (h : SameInline W role n m) :
    Agree W Eq (renderInline indent role n) (renderInline indent role m) := by
  refine ⟨?_, fun hW => ?_⟩
  · rw [value_renderInline, value_renderInline, h.value]
  · rw [warnings_renderInline, warnings_renderInline, h.warnings hW]

end SwiftForge
