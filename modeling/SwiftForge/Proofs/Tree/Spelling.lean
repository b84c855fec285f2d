import Mathlib.Data.List.Forall2
import SwiftForge.Tree.Kind

/-! Two spellings of a pattern. Where a pattern is wanted, an enum case with the names of its payload says the same as
    the case pattern that binds these names, and an expression or raw code the same as the pattern that holds it. A tree
    is respelled by taking the other spelling in any of these places, at any depth, and by nothing else. -/

namespace SwiftForge

open List (Forall₂)
open Option (Rel)

namespace CaseHead

/-- The names that a case binds where it stands for a pattern. -/
def bindings (head : CaseHead) : List String := head.associatedValues.map (·.name)

end CaseHead

mutual

/-- Two nodes that differ in the spelling of patterns below them. -/
inductive Node.Respelled : Node → Node → Prop where
  | refl (n : Node) : Node.Respelled n n
  | typeDecl {head members members'} : Forall₂ Node.Respelled members members' →
    Node.Respelled (.typeDecl head members) (.typeDecl head members')
  | enumCase {head rawValue rawValue'} : Rel Literal.Respelled rawValue rawValue' →
    Node.Respelled (.enumCase head rawValue) (.enumCase head rawValue')
  | protocolDecl {head members members'} : Forall₂ Node.Respelled members members' →
    Node.Respelled (.protocolDecl head members) (.protocolDecl head members')
  | extensionDecl {head members members'} : Forall₂ Node.Respelled members members' →
    Node.Respelled (.extensionDecl head members) (.extensionDecl head members')
  | function {head params params' body body'} : Forall₂ Param.Respelled params params' →
    Forall₂ Node.Respelled body body' → Node.Respelled (.function head params body) (.function head params' body')
  | initializer {head params params' body body'} : Forall₂ Param.Respelled params params' →
    Forall₂ Node.Respelled body body' →
    Node.Respelled (.initializer head params body) (.initializer head params' body')
  | property {head value value' getter getter'} : Rel Node.Respelled value value' →
    Rel (Forall₂ Node.Respelled) getter getter' →
    Node.Respelled (.property head value getter) (.property head value' getter')
  | expression {e e'} : Expr.Respelled e e' → Node.Respelled (.expression e) (.expression e')
  | assignment {target target' op value value'} : Node.Respelled target target' → Node.Respelled value value' →
    Node.Respelled (.assignment target op value) (.assignment target' op value')
  | tupleAssignment {names value value' mode} : Node.Respelled value value' →
    Node.Respelled (.tupleAssignment names value mode) (.tupleAssignment names value' mode)
  | ifStmt {first first' elseIfs elseIfs' otherwise otherwise'} : Branch.Respelled first first' →
    Forall₂ Branch.Respelled elseIfs elseIfs' → Rel (Forall₂ Node.Respelled) otherwise otherwise' →
    Node.Respelled (.ifStmt first elseIfs otherwise) (.ifStmt first' elseIfs' otherwise')
  | guardStmt {conditions conditions' otherwise otherwise'} : Forall₂ Condition.Respelled conditions conditions' →
    Forall₂ Node.Respelled otherwise otherwise' →
    Node.Respelled (.guardStmt conditions otherwise) (.guardStmt conditions' otherwise')
  | loop {style condition condition' body body'} : Node.Respelled condition condition' →
    Forall₂ Node.Respelled body body' → Node.Respelled (.loop style condition body) (.loop style condition' body')
  | forIn {pattern pattern' sequence sequence' filter filter' body body'} : Node.PatternRespelled pattern pattern' →
    Node.Respelled sequence sequence' → Rel Node.Respelled filter filter' → Forall₂ Node.Respelled body body' →
    Node.Respelled (.forIn pattern sequence filter body) (.forIn pattern' sequence' filter' body')
  | switchStmt {subject subject' cases cases' default default'} : Node.Respelled subject subject' →
    Forall₂ SwitchCase.Respelled cases cases' → Rel (Forall₂ Node.Respelled) default default' →
    Node.Respelled (.switchStmt subject cases default) (.switchStmt subject' cases' default')
  | doCatch {body body' catches catches'} : Forall₂ Node.Respelled body body' →
    Forall₂ Catch.Respelled catches catches' → Node.Respelled (.doCatch body catches) (.doCatch body' catches')
  | returnStmt {value value'} : Rel Node.Respelled value value' →
    Node.Respelled (.returnStmt value) (.returnStmt value')
  | throwStmt {error error'} : Node.Respelled error error' → Node.Respelled (.throwStmt error) (.throwStmt error')
  | deferStmt {body body'} : Forall₂ Node.Respelled body body' →
    Node.Respelled (.deferStmt body) (.deferStmt body')
  | pattern {p p'} : Pattern.Respelled p p' → Node.Respelled (.pattern p) (.pattern p')

/-- Two nodes in the place of a pattern, where the second may have the other spelling as well. -/
inductive Node.PatternRespelled : Node → Node → Prop where
  | keep {n n'} : Node.Respelled n n' → Node.PatternRespelled n n'
  | enumCase (head : CaseHead) (rawValue : Option Literal) :
    Node.PatternRespelled (.enumCase head rawValue) (.pattern (.enumCase head.name head.bindings))
  | expression {e e'} : e.isPattern = true → Expr.Respelled e e' →
    Node.PatternRespelled (.expression e) (.pattern (.expression (.expression e')))
  | raw (code : String) : Node.PatternRespelled (.raw code) (.pattern (.expression (.raw code)))

inductive Param.Respelled : Param → Param → Prop where
  | mk {head default default'} : Rel Node.Respelled default default' → Param.Respelled ⟨head, default⟩ ⟨head, default'⟩

inductive Entry.Respelled : Entry → Entry → Prop where
  | mk {key key' value value'} : Node.Respelled key key' → Node.Respelled value value' →
    Entry.Respelled ⟨key, value⟩ ⟨key', value'⟩

inductive Literal.Respelled : Literal → Literal → Prop where
  | refl (l : Literal) : Literal.Respelled l l
  | tuple {elements elements'} : Forall₂ Node.Respelled elements elements' →
    Literal.Respelled (.tuple elements) (.tuple elements')
  | array {elements elements'} : Forall₂ Node.Respelled elements elements' →
    Literal.Respelled (.array elements) (.array elements')
  | dictionary {entries entries'} : Forall₂ Entry.Respelled entries entries' →
    Literal.Respelled (.dictionary entries) (.dictionary entries')

inductive Argument.Respelled : Argument → Argument → Prop where
  | mk {label value value'} : Node.Respelled value value' → Argument.Respelled ⟨label, value⟩ ⟨label, value'⟩

inductive Closure.Respelled : Closure → Closure → Prop where
  | mk {head body body'} : Forall₂ Node.Respelled body body' → Closure.Respelled ⟨head, body⟩ ⟨head, body'⟩

inductive Expr.Respelled : Expr → Expr → Prop where
  | literal {l l'} : Literal.Respelled l l' → Expr.Respelled (.literal l) (.literal l')
  | call {callee callee' args args' trailing trailing' effects} : Node.Respelled callee callee' →
    Forall₂ Argument.Respelled args args' → Rel Closure.Respelled trailing trailing' →
    Expr.Respelled (.call callee args trailing effects) (.call callee' args' trailing' effects)
  | member {base base' name} : Rel Node.Respelled base base' → Expr.Respelled (.member base name) (.member base' name)
  | binary {lhs lhs' op rhs rhs' isParenthesized} : Node.Respelled lhs lhs' → Node.Respelled rhs rhs' →
    Expr.Respelled (.binary lhs op rhs isParenthesized) (.binary lhs' op rhs' isParenthesized)
  | unary {op operand operand'} : Node.Respelled operand operand' →
    Expr.Respelled (.unary op operand) (.unary op operand')
  | postfixed {operand operand' mark} : Node.Respelled operand operand' →
    Expr.Respelled (.postfixed operand mark) (.postfixed operand' mark)
  | closure {k k'} : Closure.Respelled k k' → Expr.Respelled (.closure k) (.closure k')

inductive Condition.Respelled : Condition → Condition → Prop where
  | expr {value value'} : Node.Respelled value value' → Condition.Respelled (.expr value) (.expr value')
  | binding {keyword name value value'} : Rel Node.Respelled value value' →
    Condition.Respelled (.binding keyword name value) (.binding keyword name value')
  | caseMatch {pattern pattern' value value'} : Node.PatternRespelled pattern pattern' → Node.Respelled value value' →
    Condition.Respelled (.caseMatch pattern value) (.caseMatch pattern' value')

inductive Branch.Respelled : Branch → Branch → Prop where
  | mk {conditions conditions' body body'} : Forall₂ Condition.Respelled conditions conditions' →
    Forall₂ Node.Respelled body body' → Branch.Respelled ⟨conditions, body⟩ ⟨conditions', body'⟩

inductive SwitchCase.Respelled : SwitchCase → SwitchCase → Prop where
  | mk {patterns patterns' guard guard' body body'} : Forall₂ Node.PatternRespelled patterns patterns' →
    Rel Node.Respelled guard guard' → Forall₂ Node.Respelled body body' →
    SwitchCase.Respelled ⟨patterns, guard, body⟩ ⟨patterns', guard', body'⟩

inductive Catch.Respelled : Catch → Catch → Prop where
  | mk {pattern pattern' body body'} : Rel Node.PatternRespelled pattern pattern' → Forall₂ Node.Respelled body body' →
    Catch.Respelled ⟨pattern, body⟩ ⟨pattern', body'⟩

inductive Pattern.Respelled : Pattern → Pattern → Prop where
  | refl (p : Pattern) : Pattern.Respelled p p
  | tuple {elements elements'} : Forall₂ Pattern.Respelled elements elements' →
    Pattern.Respelled (.tuple elements) (.tuple elements')
  | expression {value value'} : Node.Respelled value value' → Pattern.Respelled (.expression value) (.expression value')

end

end SwiftForge
