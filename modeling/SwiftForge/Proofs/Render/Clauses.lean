import Mathlib.Data.List.Forall2
import SwiftForge.Render.Written

/-! The clauses of a `switch`. A clause is given a `break` exactly if none of its nodes yields a fragment. Comments and
    blank lines are fragments, so a clause is without a statement exactly if it has one of these and, apart from
    placeholders and stray patterns, nothing else. -/

namespace SwiftForge

open Logged (value_bind value_pure)

/-- Whether a fragment is more than a comment or a blank line. -/
def Fragment.isStatement : Fragment → Bool
  | .blank | .comment _ | .docComment _ => false
  | _ => true

namespace Node

/-- Whether a node in statement position yields nothing: a placeholder, or a pattern, which cannot stand there. -/
def isSilent : Node → Bool
  | .empty | .pattern _ => true
  | _ => false

/-- Whether a node is a comment or a blank line. -/
def isTrivia : Node → Bool
  | .comment _ | .blank => true
  | _ => false

end Node

/-! ### What nodes yield -/

def HasStatement (fs : List Fragment) : Prop := ∃ f ∈ fs, f.isStatement = true

theorem hasStatement_append {fs gs : List Fragment} : HasStatement (fs ++ gs) ↔ HasStatement fs ∨ HasStatement gs := by
  simp only [HasStatement, List.mem_append, or_and_right, exists_or]

theorem hasStatement_of_mem {f : Fragment} {fs : List Fragment} (h : f ∈ fs) (hf : f.isStatement = true) :
    HasStatement fs := ⟨f, h, hf⟩

/-- A declaration stands below its comments and attributes. -/
theorem hasStatement_below (above : List Fragment) {f : Fragment} (hf : f.isStatement = true) :
    HasStatement (above ++ [f]) := hasStatement_append.2 (.inr (hasStatement_of_mem (List.mem_singleton_self f) hf))

theorem hasStatement_chain (block : Inline × List Fragment) (rest : List (Inline × List Fragment)) :
    HasStatement (Fragment.chain (block :: rest)) := by
  cases rest with
  | nil => exact hasStatement_of_mem (List.mem_singleton_self _) rfl
  | cons next rest => exact hasStatement_of_mem List.mem_cons_self rfl

theorem Fragment.comments_ne_nil (text : String) : Fragment.comments text ≠ [] := by
  simp [Fragment.comments, Text.physicalLines, Text.splitAt_ne_nil]

theorem not_hasStatement_comments (text : String) : ¬HasStatement (Fragment.comments text) := by
  rintro ⟨f, hf, hstatement⟩
  obtain ⟨line, -, rfl⟩ := List.mem_map.1 hf
  cases hstatement

namespace Node

theorem hasStatement_fragments {n : Node} (hsilent : n.isSilent = false) (htrivia : n.isTrivia = false) :
    HasStatement n.fragments.value := by
  cases n with
  | property head value getter => cases getter <;> exact hasStatement_below _ rfl
  | ifStmt first elseIfs otherwise =>
    obtain ⟨conditions, body⟩ := first
    exact hasStatement_chain _ _
  | loop style condition body => cases style <;> exact hasStatement_of_mem (List.mem_singleton_self _) rfl
  | forIn binding sequence filter body =>
    cases binding <;> exact hasStatement_of_mem (List.mem_singleton_self _) rfl
  | switchStmt subject cases default => exact hasStatement_of_mem List.mem_cons_self rfl
  | doCatch body catches => exact hasStatement_chain _ _
  | pattern p => cases hsilent
  | empty => cases hsilent
  | comment text => cases htrivia
  | blank => cases htrivia
  | expression _ | assignment _ _ _ | tupleAssignment _ _ _ | guardStmt _ _ | returnStmt _ | throwStmt _ | jump _ _
  | deferStmt _ | raw _ => exact hasStatement_of_mem (List.mem_singleton_self _) rfl
  | _ => exact hasStatement_below _ rfl

theorem hasStatement_fragments_iff (n : Node) :
    HasStatement n.fragments.value ↔ n.isSilent = false ∧ n.isTrivia = false := by
  refine ⟨fun h => ?_, fun h => hasStatement_fragments h.1 h.2⟩
  cases n with
  | comment text => exact absurd h (not_hasStatement_comments text)
  | blank =>
    obtain ⟨f, hf, hstatement⟩ := h
    obtain rfl := List.mem_singleton.1 hf
    cases hstatement
  | pattern p =>
    obtain ⟨f, hf, -⟩ := h
    cases hf
  | empty =>
    obtain ⟨f, hf, -⟩ := h
    cases hf
  | _ => exact ⟨rfl, rfl⟩

theorem fragments_eq_nil_iff (n : Node) : n.fragments.value = [] ↔ n.isSilent = true := by
  cases hsilent : n.isSilent with
  | true =>
    cases n with
    | pattern p => exact iff_of_true rfl rfl
    | empty => exact iff_of_true rfl rfl
    | _ => cases hsilent
  | false =>
    refine ⟨fun h => ?_, fun h => by cases h⟩
    cases htrivia : n.isTrivia with
    | false =>
      obtain ⟨f, hf, -⟩ := hasStatement_fragments hsilent htrivia
      rw [h] at hf
      cases hf
    | true =>
      cases n with
      | comment text => exact absurd h (Fragment.comments_ne_nil text)
      | blank => cases h
      | _ => cases htrivia

end Node

theorem statements_eq_nil_iff (nodes : List Node) :
    (statements nodes).value = [] ↔ ∀ n ∈ nodes, n.isSilent = true := by
  induction nodes with
  | nil => simp [statements]
  | cons n rest ih => simp [statements, ih, n.fragments_eq_nil_iff]

theorem hasStatement_statements_iff (nodes : List Node) :
    HasStatement (statements nodes).value ↔ ∃ n ∈ nodes, n.isSilent = false ∧ n.isTrivia = false := by
  induction nodes with
  | nil => simp [statements, HasStatement]
  | cons n rest ih =>
    simp [statements, hasStatement_append, ih, n.hasStatement_fragments_iff]

/-! ### Clauses -/

/-- What is written below the label of a clause with these nodes. -/
structure ClauseBody (nodes : List Node) (body : List Fragment) : Prop where
  /-- A `break` is supplied if no node yields anything, and only then. -/
  written : body = if ∀ n ∈ nodes, n.isSilent = true then [.line "break"] else (statements nodes).value
  /-- There is a statement unless comments and blank lines are all that the nodes yield. -/
  filled : HasStatement body ↔ (∀ n ∈ nodes, n.isSilent = true) ∨ ∃ n ∈ nodes, n.isSilent = false ∧ n.isTrivia = false

theorem exists_clauseBody (nodes : List Node) :
    ∃ body, clauseBody (statements nodes).value = .indented body ∧ ClauseBody nodes body := by
  have heq : (if (statements nodes).value.isEmpty then [.line "break"] else (statements nodes).value) =
      if ∀ n ∈ nodes, n.isSilent = true then [.line "break"] else (statements nodes).value := by
    simp only [List.isEmpty_iff, statements_eq_nil_iff]
  refine ⟨_, rfl, heq, ?_⟩
  rw [heq]
  split
  · rename_i hsilent
    exact iff_of_true (hasStatement_of_mem (List.mem_singleton_self _) rfl) (.inl hsilent)
  · rename_i hsilent
    rw [hasStatement_statements_iff, or_iff_right hsilent]

/-- A clause as written: a label and what stands below it. -/
def clauseLines (clause : Inline × List Fragment) : List Fragment := [.line clause.1, .indented clause.2]

theorem exists_switchClauses (cases : List SwitchCase) :
    ∃ clauses : List (Inline × List Fragment), (switchClauses cases).value = clauses.flatMap clauseLines ∧
      List.Forall₂ ClauseBody (cases.map SwitchCase.body) (clauses.map Prod.snd) := by
  induction cases with
  | nil => exact ⟨[], rfl, .nil⟩
  | cons clause cases ih =>
    obtain ⟨patterns, guard, nodes⟩ := clause
    obtain ⟨clauses, hclauses, hbodies⟩ := ih
    obtain ⟨body, hbody, hfilled⟩ := exists_clauseBody nodes
    refine ⟨("case " ++ Inline.joinWith ", " (inlines .casePattern patterns).value ++
      (optionalInline " where " .caseGuard guard).value ++ ":", body) :: clauses, ?_, .cons hfilled hbodies⟩
    simp only [switchClauses, value_bind, value_pure, hbody, hclauses, List.flatMap_cons, clauseLines,
      List.cons_append, List.nil_append]

theorem exists_defaultClause (default : Option (List Node)) :
    ∃ clauses : List (Inline × List Fragment), (defaultClause default).value = clauses.flatMap clauseLines ∧
      List.Forall₂ ClauseBody default.toList (clauses.map Prod.snd) := by
  cases default with
  | none => exact ⟨[], rfl, .nil⟩
  | some nodes =>
    obtain ⟨body, hbody, hfilled⟩ := exists_clauseBody nodes
    refine ⟨[("default:", body)], ?_, .cons hfilled .nil⟩
    simp only [defaultClause, value_bind, value_pure, hbody, List.flatMap_singleton, clauseLines]

/-- A `switch` is written as its clauses in order, the `default` clause last, between an opening and a closing line. A
    clause is given a `break` exactly if its nodes yield nothing at all, and it has a statement exactly if they yield
    nothing or one of them yields more than comments and blank lines. -/
theorem switch_clauses_filled_iff (subject : Node) (cases : List SwitchCase) (default : Option (List Node)) :
    ∃ (opening : Inline) (clauses : List (Inline × List Fragment)),
      (Node.switchStmt subject cases default).fragments.value =
        .line opening :: clauses.flatMap clauseLines ++ [.line "\x7d"] ∧
      List.Forall₂ ClauseBody (cases.map SwitchCase.body ++ default.toList) (clauses.map Prod.snd) := by
  obtain ⟨clauses, hclauses, hbodies⟩ := exists_switchClauses cases
  obtain ⟨last, hlast, hfilled⟩ := exists_defaultClause default
  refine ⟨"switch " ++ (subject.inline .switchSubject).value ++ " \x7b", clauses ++ last, ?_, ?_⟩
  · simp only [Node.fragments, value_bind, value_pure, hclauses, hlast, List.flatMap_append, List.cons_append,
      List.append_assoc]
  · rw [List.map_append]
    exact List.rel_append hbodies hfilled

/-- A clause with nothing but a comment in it is given no `break` and is left without a statement. -/
theorem clause_of_comment :
    (∃ opening : Inline, (Node.switchStmt (.reference "x") [] (some [.comment "nothing to do"])).fragments.value =
        .line opening :: clauseLines ("default:", [.comment "nothing to do"]) ++ [.line "\x7d"]) ∧
      ¬HasStatement [.comment "nothing to do"] ∧
      (render .swift [.switchStmt (.reference "x") [] (some [.comment "nothing to do"])]).value =
        "switch x \x7b\ndefault:\n    // nothing to do\n\x7d\n" := by
  have hline : Text.physicalLines "nothing to do" = ["nothing to do"] := by decide +kernel
  refine ⟨⟨"switch " ++ ((Node.reference "x").inline .switchSubject).value ++ " \x7b", ?_⟩, ?_, by decide +kernel⟩
  · simp only [Node.fragments, value_bind, value_pure, switchClauses, defaultClause, statements, Fragment.comments,
      hline]
    rfl
  · rintro ⟨f, hf, hstatement⟩
    obtain rfl := List.mem_singleton.1 hf
    cases hstatement

end SwiftForge
