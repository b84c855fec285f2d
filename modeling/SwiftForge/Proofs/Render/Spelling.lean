import SwiftForge.Proofs.Render.Congruence
import SwiftForge.Proofs.Tree.Children
import SwiftForge.Proofs.Tree.Spelling

/-! Respelled trees render alike. Where a pattern is wanted the two spellings have one text, behind `case` and behind
    `for`; what stands around them has no other parts, so it has one text and the same warnings. -/

namespace SwiftForge

open List (Forall₂)
open Option (Rel)
open Logged (Agree)

/-! ### The two spellings -/

namespace Node

/-- Two nodes that cannot be told apart in the place of a pattern. -/
structure SamePattern (a b : Node) : Prop where
  inline : ∀ role : Role, role.wantsPattern = true → SameInline True role a b
  binding : Agree True Eq a.loopBinding b.loopBinding

theorem SameText.samePattern {a b : Node} (h : a.SameText True b) : a.SamePattern b :=
  ⟨fun role _ => h.inline role, h.binding⟩

/-- The names of the payload are bound by the case and by the case pattern alike. -/
theorem applied_eq (head : CaseHead) : head.applied "let " = casePatternText head.name head.bindings := by
  unfold CaseHead.applied casePatternText CaseHead.bindings
  rw [List.map_map, Function.comp_def]
  cases head.associatedValues <;> simp [String.append_assoc]

theorem samePattern_enumCase (head : CaseHead) (rawValue : Option Literal) :
    SamePattern (.enumCase head rawValue) (.pattern (.enumCase head.name head.bindings)) where
  inline role hrole := by
    rw [SameInline, inline, inline, if_pos hrole, if_pos hrole, Pattern.inline, applied_eq]
    exact .refl _
  binding := by
    rw [loopBinding_eq (by simp), inline, Role.wantsPattern, if_pos rfl, applied_eq]
    exact .refl _

theorem fits_expression {e : Expr} (h : e.isPattern = true) (role : Role) : role.fits (.expression e) = true := by
  rw [Role.fits]
  split
  · exact h
  · rfl

theorem samePattern_expression {e e' : Expr} (he : e.isPattern = true) (h : e.SameText True e') :
    SamePattern (.expression e) (.pattern (.expression (.expression e'))) := by
  have he' := h.isPattern ▸ he
  refine ⟨fun role hrole => ?_, ?_⟩
  · rw [SameInline, inline_expression (fits_expression he role), inline, if_pos hrole, Pattern.inline,
      inline_expression (fits_expression he' _)]
    exact h.inline
  · rw [loopBinding_eq (by simp), inline_expression (fits_expression he _), loopBinding, Pattern.bindingInline,
      inline_expression (fits_expression he' _)]
    exact h.inline.bind_eq fun _ => .refl _

theorem samePattern_raw (code : String) : SamePattern (.raw code) (.pattern (.expression (.raw code))) where
  inline role hrole := by
    rw [SameInline, inline, inline, if_pos hrole, Pattern.inline, inline]
    exact .refl _
  binding := .refl _

end Node

/-! ### One layer -/

/-- These nodes have the same text however they are respelled. -/
abbrev Respellable : List Node → Prop := AllNodes fun n => ∀ m, n.Respelled m → n.SameText True m

section

variable {xs ys : List Node}

/-- What holds of each pair by itself holds along two lists. -/
theorem Respellable.each {α : Type} {children : α → List Node} {R S : α → α → Prop} {as bs : List α}
    (ih : Respellable (as.flatMap children)) (h : Forall₂ R as bs)
    (hS : ∀ {a b}, R a b → Respellable (children a) → S a b) : Forall₂ S as bs := by
  induction h with
  | nil => exact .nil
  | cons hab _ hrest => exact .cons (hS hab ih.left) (hrest ih.right)

theorem Respelled.sameText_each (h : Forall₂ Node.Respelled xs ys) (ih : Respellable xs) :
    Forall₂ (Node.SameText True) xs ys := by
  induction h with
  | nil => exact .nil
  | cons hn _ hrest => exact .cons (ih.head _ hn) (hrest ih.tail)

theorem Respelled.sameInline_each (role : Role) (h : Forall₂ Node.Respelled xs ys) (ih : Respellable xs) :
    Forall₂ (SameInline True role) xs ys :=
  (sameText_each h ih).imp fun _ _ hn => hn.inline role

theorem Respelled.sameInline? (role : Role) {x y : Option Node} (h : Rel Node.Respelled x y)
    (ih : Respellable x.toList) : Rel (SameInline True role) x y := by
  cases h with
  | none => exact .none
  | some h => exact .some ((ih.head _ h).inline role)

theorem sameBody_of_sameText (h : Forall₂ (Node.SameText True) xs ys) : SameBody True xs ys := by
  induction h with
  | nil => exact .refl _
  | cons hn _ ih => exact .cons hn.fragments ih

theorem Respelled.sameBody (h : Forall₂ Node.Respelled xs ys) (ih : Respellable xs) : SameBody True xs ys :=
  sameBody_of_sameText (sameText_each h ih)

theorem Respelled.sameBody? {a b : Option (List Node)} (h : Rel (Forall₂ Node.Respelled) a b)
    (ih : Respellable (a.getD [])) : Rel (SameBody True) a b := by
  cases h with
  | none => exact .none
  | some h => exact .some (sameBody h ih)

theorem Respelled.requirements (h : Forall₂ Node.Respelled xs ys) (ih : Respellable xs) :
    SameFragments True (SwiftForge.requirements xs) (SwiftForge.requirements ys) := by
  induction h with
  | nil => exact .refl _
  | cons hn _ hrest => exact requirements_cons_congr (ih.head _ hn).requirement (hrest ih.tail)

end

theorem Expr.Respelled.isPattern_eq {e e' : Expr} (h : e.Respelled e') : e.isPattern = e'.isPattern := by
  cases h <;> rfl

/-- In the place of a pattern the other spelling makes no difference. -/
theorem Node.PatternRespelled.samePattern {n m : Node} (h : n.PatternRespelled m)
    (ih : ∀ m, n.Respelled m → n.SameText True m) : n.SamePattern m := by
  cases h with
  | keep h => exact (ih _ h).samePattern
  | enumCase head rawValue => exact samePattern_enumCase head rawValue
  | expression he h =>
    have he' := h.isPattern_eq ▸ he
    have hinline := (ih _ (.expression h)).inline .expression
    rw [SameInline, inline_expression (fits_expression he _), inline_expression (fits_expression he' _)] at hinline
    exact samePattern_expression he ⟨hinline, h.isPattern_eq⟩
  | raw code => exact samePattern_raw code

theorem Node.PatternRespelled.sameInline_each (role : Role) (hrole : role.wantsPattern = true) {a b : List Node}
    (h : Forall₂ Node.PatternRespelled a b) (ih : Respellable a) : Forall₂ (SameInline True role) a b := by
  induction h with
  | nil => exact .nil
  | cons hn _ hrest => exact .cons ((hn.samePattern ih.head).inline role hrole) (hrest ih.tail)

/-! ### Expressions -/

theorem Param.Respelled.sameText {a b : Param} (h : a.Respelled b) (ih : Respellable a.children) :
    a.SameText True b := by
  obtain ⟨hdefault⟩ := h
  exact .mk (Respelled.sameInline? _ hdefault ih)

theorem Argument.Respelled.sameText {a b : Argument} (h : a.Respelled b) (ih : Respellable a.children) :
    a.SameText True b := by
  obtain ⟨hvalue⟩ := h
  exact .mk ((ih.head _ hvalue).inline _)

theorem Entry.Respelled.sameText {a b : Entry} (h : a.Respelled b) (ih : Respellable a.children) :
    a.SameText True b := by
  obtain ⟨hkey, hvalue⟩ := h
  exact .mk ((ih.head _ hkey).inline _) ((ih.tail.head _ hvalue).inline _)

theorem Literal.Respelled.sameText {a b : Literal} (h : a.Respelled b) (ih : Respellable a.children) :
    a.SameText True b := by
  cases h with
  | refl => exact .refl _
  | tuple h => exact .tuple (Respelled.sameInline_each _ h ih)
  | array h => exact .array (Respelled.sameInline_each _ h ih)
  | dictionary h => exact .dictionary (Respellable.each ih h Entry.Respelled.sameText)

theorem Closure.Respelled.sameText {a b : Closure} (h : a.Respelled b) (ih : Respellable a.children) :
    a.SameText True b := by
  obtain ⟨hbody⟩ := h
  exact .mk (Respelled.sameBody hbody ih) (isEmpty_eq hbody)

theorem Expr.Respelled.sameText {a b : Expr} (h : a.Respelled b) (ih : Respellable a.children) :
    a.SameText True b := by
  cases h with
  | literal h => exact .literal (h.sameText ih)
  | call hcallee hargs htrailing =>
    have hplaces : Respellable (_ :: _) := ih.left
    have hargs := Respellable.each hplaces.tail hargs Argument.Respelled.sameText
    refine .call ((hplaces.head _ hcallee).inline _) hargs ?_ _
    cases htrailing with
    | none => exact .none
    | some h => exact .some (h.sameText ih.right.left)
  | member h => exact .member (Respelled.sameInline? _ h ih) _
  | binary hlhs hrhs => exact .binary ((ih.head _ hlhs).inline _) _ ((ih.tail.head _ hrhs).inline _) _
  | unary h => exact .unary _ ((ih.head _ h).inline _)
  | postfixed h => exact .postfixed ((ih.head _ h).inline _) _
  | closure h => exact .closure (h.sameText ih)

/-! ### Patterns -/

mutual

theorem Pattern.Respelled.sameText : (p : Pattern) → {q : Pattern} → p.Respelled q → Respellable p.children →
    p.SameText True q
  | _, _, .refl _, _ => .refl _
  | .tuple elements, _, .tuple h, ih => .tuple (Pattern.Respelled.sameText_each elements h ih)
  | .expression _, _, .expression h, ih => .expression ((ih.head _ h).inline _)

theorem Pattern.Respelled.sameText_each : (ps : List Pattern) → {qs : List Pattern} → Forall₂ Pattern.Respelled ps qs →
    Respellable (childrenOfPatterns ps) → Forall₂ (Pattern.SameText True) ps qs
  | [], _, .nil, _ => .nil
  | p :: rest, _, .cons h t, ih =>
    .cons (Pattern.Respelled.sameText p h ih.left) (Pattern.Respelled.sameText_each rest t ih.right)

end

/-! ### Clauses -/

theorem Condition.Respelled.sameText {a b : Condition} (h : a.Respelled b) (ih : Respellable a.children) :
    a.SameText True b := by
  cases h with
  | expr h => exact .expr ((ih.head _ h).inline _)
  | binding h => exact .binding _ _ (Respelled.sameInline? _ h ih)
  | caseMatch hpattern hvalue =>
    exact .caseMatch ((hpattern.samePattern ih.head).inline _ rfl) ((ih.tail.head _ hvalue).inline _)

theorem Branch.Respelled.sameText {a b : Branch} (h : a.Respelled b) (ih : Respellable a.children) :
    a.SameText True b := by
  obtain ⟨hconditions, hbody⟩ := h
  have hconditions := Respellable.each ih.left hconditions Condition.Respelled.sameText
  exact .mk hconditions (Respelled.sameBody hbody ih.right)

theorem SwitchCase.Respelled.sameText {a b : SwitchCase} (h : a.Respelled b) (ih : Respellable a.children) :
    a.SameText True b := by
  obtain ⟨hpatterns, hguard, hbody⟩ := h
  have hplaces : Respellable (_ ++ _) := ih.left
  have hpatterns := Node.PatternRespelled.sameInline_each .casePattern rfl hpatterns hplaces.left
  exact .mk hpatterns (Respelled.sameInline? _ hguard hplaces.right) (Respelled.sameBody hbody ih.right)

theorem Catch.Respelled.sameText {a b : Catch} (h : a.Respelled b) (ih : Respellable a.children) :
    a.SameText True b := by
  obtain ⟨hpattern, hbody⟩ := h
  have hplaces : Respellable (Option.toList _) := ih.left
  refine .mk ?_ (Respelled.sameBody hbody ih.right)
  cases hpattern with
  | none => exact .none
  | some h => exact .some ((h.samePattern hplaces.head).inline _ rfl)

/-! ### Nodes -/

theorem Node.Respelled.sameText_of_children {n m : Node} (h : n.Respelled m) (ih : Respellable n.children) :
    n.SameText True m := by
  cases h with
  | refl => exact .refl n
  | typeDecl hmembers => exact .typeDecl (Respelled.sameBody hmembers ih)
  | enumCase hvalue =>
    refine .enumCase ?_
    cases hvalue with
    | none => exact .none
    | some h => exact .some (h.sameText ih.left)
  | protocolDecl hmembers => exact .protocolDecl (Respelled.requirements hmembers ih)
  | extensionDecl hmembers => exact .extensionDecl (Respelled.sameBody hmembers ih)
  | function hparams hbody =>
    have hparams := Respellable.each ih.left hparams Param.Respelled.sameText
    exact .function hparams (Respelled.sameBody hbody ih.right) fun _ => isEmpty_eq hbody
  | initializer hparams hbody =>
    have hparams := Respellable.each ih.left hparams Param.Respelled.sameText
    exact .initializer hparams (Respelled.sameBody hbody ih.right)
  | property hvalue hgetter =>
    exact .property (Respelled.sameInline? _ hvalue ih.left) (Respelled.sameBody? hgetter ih.right)
  | expression h => exact .expression (h.sameText ih)
  | assignment htarget hvalue =>
    exact .assignment ((ih.head _ htarget).inline _) _ ((ih.tail.head _ hvalue).inline _)
  | tupleAssignment hvalue => exact .tupleAssignment _ ((ih.head _ hvalue).inline _) _
  | ifStmt hfirst helse hlast =>
    have hbranches : Respellable (_ ++ _) := ih.left
    exact .ifStmt (hfirst.sameText hbranches.left) (Respellable.each hbranches.right helse Branch.Respelled.sameText)
      (Respelled.sameBody? hlast ih.right)
  | guardStmt hconditions hbody =>
    have hconditions := Respellable.each ih.left hconditions Condition.Respelled.sameText
    exact .guardStmt hconditions (Respelled.sameBody hbody ih.right)
  | loop hcondition hbody => exact .loop _ ((ih.head _ hcondition).inline _) (Respelled.sameBody hbody ih.tail)
  | forIn hpattern hsequence hfilter hbody =>
    have hplaces : Respellable (_ :: _ :: _) := ih.left
    exact .forIn (hpattern.samePattern hplaces.head).binding ((hplaces.tail.head _ hsequence).inline _)
      (Respelled.sameInline? _ hfilter hplaces.tail.tail) (Respelled.sameBody hbody ih.right)
  | switchStmt hsubject hcases hdefault =>
    have hplaces : Respellable (_ :: _) := ih.left
    have hcases := Respellable.each hplaces.tail hcases SwitchCase.Respelled.sameText
    exact .switchStmt ((hplaces.head _ hsubject).inline _) hcases (Respelled.sameBody? hdefault ih.right)
  | doCatch hbody hcatches =>
    have hcatches := Respellable.each ih.right hcatches Catch.Respelled.sameText
    exact .doCatch (Respelled.sameBody hbody ih.left) hcatches
  | returnStmt hvalue => exact .returnStmt (Respelled.sameInline? _ hvalue ih)
  | throwStmt herror => exact .throwStmt ((ih.head _ herror).inline _)
  | deferStmt hbody => exact .deferStmt (Respelled.sameBody hbody ih)
  | pattern h => exact .pattern (Pattern.Respelled.sameText _ h ih)

theorem Node.Respelled.sameText {n m : Node} (h : n.Respelled m) : n.SameText True m := by
  induction n using Node.induct generalizing m with
  | step n ih => exact h.sameText_of_children fun c hc m hm => ih c hc hm

/-- Trees that differ in the spelling of patterns, in any of their places and at any depth, have the same text and the
    same warnings: as lists of nodes, as files, and as single nodes in expression or pattern position. -/
theorem render_respelled (indent : Indent) :
    (∀ a b : List Node, Forall₂ Node.Respelled a b → render indent a = render indent b) ∧
      (∀ f g : SourceFile, f.header = g.header → f.imports = g.imports → Forall₂ Node.Respelled f.nodes g.nodes →
        f.render indent = g.render indent) ∧
      (∀ n m : Node, n.Respelled m → ∀ role, renderInline indent role n = renderInline indent role m) ∧
      ∀ n m : Node, n.PatternRespelled m → ∀ role : Role, role.wantsPattern = true →
        renderInline indent role n = renderInline indent role m := by
  have hlists : ∀ {a b : List Node}, Forall₂ Node.Respelled a b → SameBody True a b :=
    fun h => sameBody_of_sameText (h.imp fun _ _ hn => hn.sameText)
  refine ⟨fun a b h => ?_, fun f g hheader himports h => ?_, fun n m h role => ?_, fun n m h role hrole => ?_⟩
  · exact (render_congr indent (hlists h)).eq
  · exact (SourceFile.render_congr indent hheader himports (hlists h)).eq
  · exact (renderInline_congr indent (h.sameText.inline role)).eq
  · exact (renderInline_congr indent ((h.samePattern fun _ hm => hm.sameText).inline role hrole)).eq

/-- A case, a literal and raw code in the places of patterns. -/
def bareSpelling : Node :=
  .forIn (.enumCase { name := "some", associatedValues := [⟨"x", .named "Int"⟩] } none) (.reference "xs") none
    [.switchStmt (.reference "x") [⟨[.expression (.literal (.integer 1)), .raw "2...4"], none, [.raw "f()"]⟩] none]

/-- The same loop with a pattern in each of these places. -/
def patternSpelling : Node :=
  .forIn (.pattern (.enumCase "some" ["x"])) (.reference "xs") none
    [.switchStmt (.reference "x")
      [⟨[.pattern (.expression (.expression (.literal (.integer 1)))), .pattern (.expression (.raw "2...4"))], none,
        [.raw "f()"]⟩] none]

theorem bareSpelling_respelled : bareSpelling.Respelled patternSpelling := by
  have hclause : SwitchCase.Respelled
      ⟨[.expression (.literal (.integer 1)), .raw "2...4"], none, [.raw "f()"]⟩
      ⟨[.pattern (.expression (.expression (.literal (.integer 1)))), .pattern (.expression (.raw "2...4"))], none,
        [.raw "f()"]⟩ :=
    .mk (.cons (.expression rfl (.literal (.refl _))) (.cons (.raw _) .nil)) .none (.cons (.refl _) .nil)
  exact .forIn (.enumCase _ _) (.refl _) .none (.cons (.switchStmt (.refl _) (.cons hclause .nil) .none) .nil)

theorem render_respelled_loop :
    render .swift [bareSpelling] = render .swift [patternSpelling] ∧
      (render .swift [patternSpelling]).value =
        "for case .some(let x) in xs \x7b\n    switch x \x7b\n    case 1, 2...4:\n        f()\n    \x7d\n\x7d\n" :=
  ⟨(render_respelled .swift).1 _ _ (.cons bareSpelling_respelled .nil), by decide +kernel⟩

end SwiftForge
