import SwiftForge.Proofs.Layout.Blocks
import SwiftForge.Proofs.Layout.Remarks
import SwiftForge.Proofs.Render.Clauses
import SwiftForge.Proofs.Render.Composition

/-! The sections of a file as text. Nodes that yield a fragment at all are written on at least one line, so what is left
    out of a file for want of fragments is what has no text; the sections that have one stand in their order with one
    empty line between neighbours, and there is nothing before the first of them or after the last. -/

namespace SwiftForge

/-! ### Text or none -/

namespace Line

theorem writeAll_eq_empty_iff (unit : String) (lines : List Line) : writeAll unit lines = "" ↔ lines = [] := by
  cases lines with
  | nil => exact iff_of_true rfl rfl
  | cons line rest =>
    refine iff_of_false (fun h => ?_) (List.cons_ne_nil _ _)
    rw [writeAll, write_eq, ← String.toList_inj] at h
    simp at h

/-- Lines at level zero are written as they are. -/
theorem writeAll_zero (unit : String) (texts : List String) :
    writeAll unit (texts.map (Line.mk 0)) = String.join (texts.map (· ++ "\n")) := by
  induction texts with
  | nil => rfl
  | cons text rest ih => rw [List.map_cons, writeAll, write_zero, ih, List.map_cons, String.join_cons]

end Line

namespace Fragment

/-- Whether a fragment has a line of its own, whatever is inside it. -/
def hasLine : Fragment → Bool
  | .indented _ => false
  | _ => true

theorem lines_ne_nil {f : Fragment} (h : f.hasLine = true) (depth : Nat) : f.lines depth ≠ [] := by
  have hcomment : ∀ mark text, commentLines depth mark text ≠ [] := by
    intro mark text
    unfold commentLines
    split
    · rename_i hnil
      exact absurd (List.map_eq_nil_iff.1 hnil) (Text.splitAt_ne_nil _ _)
    · exact List.cons_ne_nil _ _
  cases f with
  | line text =>
    rw [lines]
    exact text.lines_ne_nil depth
  | blank =>
    rw [lines]
    exact List.cons_ne_nil _ _
  | block header body close =>
    cases close <;> simp [lines, header.lines_ne_nil]
  | indented body => cases h
  | comment text =>
    rw [lines]
    exact hcomment _ _
  | docComment text =>
    rw [lines]
    exact hcomment _ _

theorem linesOf_ne_nil {f : Fragment} {fs : List Fragment} (hmem : f ∈ fs) (h : f.hasLine = true) (depth : Nat) :
    linesOf depth fs ≠ [] := by
  obtain ⟨before, after, rfl⟩ := List.append_of_mem hmem
  rw [linesOf_append, linesOf]
  simp [lines_ne_nil h]

theorem linesOf_eq_nil_iff {fs : List Fragment} (h : ∀ f ∈ fs, f.hasLine = true) (depth : Nat) :
    linesOf depth fs = [] ↔ fs = [] := by
  refine ⟨fun hlines => ?_, fun hnil => by rw [hnil, linesOf]⟩
  by_contra hne
  obtain ⟨f, hf⟩ := List.exists_mem_of_ne_nil fs hne
  exact linesOf_ne_nil hf (h f hf) depth hlines

theorem exists_hasLine_chain (block : Inline × List Fragment) (rest : List (Inline × List Fragment)) :
    ∃ f ∈ chain (block :: rest), f.hasLine = true := by
  cases rest with
  | nil => exact ⟨_, List.mem_singleton_self _, rfl⟩
  | cons next rest => exact ⟨_, List.mem_cons_self, rfl⟩

end Fragment

/-- What a node yields begins with, or leads up to, a line of its own. -/
theorem Node.exists_hasLine {n : Node} (h : n.isSilent = false) : ∃ f ∈ n.fragments.value, f.hasLine = true := by
  have below (above : List Fragment) {f : Fragment} (hf : f.hasLine = true) :
      ∃ g ∈ above ++ [f], g.hasLine = true := ⟨f, by simp, hf⟩
  cases n with
  | property head value getter => cases getter <;> exact below _ rfl
  | ifStmt first elseIfs otherwise =>
    obtain ⟨conditions, body⟩ := first
    exact Fragment.exists_hasLine_chain _ _
  | loop style condition body => cases style <;> exact ⟨_, List.mem_singleton_self _, rfl⟩
  | forIn binding sequence filter body => cases binding <;> exact ⟨_, List.mem_singleton_self _, rfl⟩
  | switchStmt subject cases default => exact ⟨_, List.mem_cons_self, rfl⟩
  | doCatch body catches => exact Fragment.exists_hasLine_chain _ _
  | comment text =>
    obtain ⟨f, hf⟩ := List.exists_mem_of_ne_nil _ (Fragment.comments_ne_nil text)
    obtain ⟨line, -, rfl⟩ := List.mem_map.1 hf
    exact ⟨_, hf, rfl⟩
  | pattern p => cases h
  | empty => cases h
  | blank | expression _ | assignment _ _ _ | tupleAssignment _ _ _ | guardStmt _ _ | returnStmt _ | throwStmt _
  | jump _ _ | deferStmt _ | raw _ => exact ⟨_, List.mem_singleton_self _, rfl⟩
  | _ => exact below _ rfl

theorem Node.linesOf_fragments_eq_nil_iff (depth : Nat) (n : Node) :
    Fragment.linesOf depth n.fragments.value = [] ↔ n.isSilent = true := by
  refine ⟨fun h => ?_, fun h => by rw [n.fragments_eq_nil_iff.2 h, Fragment.linesOf]⟩
  cases hsilent : n.isSilent with
  | true => rfl
  | false =>
    obtain ⟨f, hf, hline⟩ := n.exists_hasLine hsilent
    exact absurd h (Fragment.linesOf_ne_nil hf hline depth)

theorem linesOf_statements_eq_nil_iff (depth : Nat) (nodes : List Node) :
    Fragment.linesOf depth (statements nodes).value = [] ↔ ∀ n ∈ nodes, n.isSilent = true := by
  induction nodes with
  | nil => simp [statements, Fragment.linesOf]
  | cons n rest ih => simp [statements, ih, n.linesOf_fragments_eq_nil_iff]

/-- Nodes have no text exactly if none of them yields anything. -/
theorem value_render_eq_empty_iff (indent : Indent) (nodes : List Node) :
    (render indent nodes).value = "" ↔ ∀ n ∈ nodes, n.isSilent = true := by
  rw [value_render, Line.writeAll_eq_empty_iff, linesOf_statements_eq_nil_iff]

/-! ### Sections -/

theorem text_joinSections (indent : Indent) (parts : List (List Fragment)) :
    Writer.text indent (joinSections parts) = Text.joinWith "\n" (parts.map (Writer.text indent)) := by
  induction parts with
  | nil => rfl
  | cons part rest ih =>
    cases rest with
    | nil => rfl
    | cons next rest =>
      have hblank : Fragment.lines 0 .blank = [⟨0, ""⟩] := by rw [Fragment.lines]
      rw [List.map_cons, List.map_cons, Text.joinWith, ← List.map_cons, ← ih, joinSections, Writer.text_eq,
        Writer.text_eq, Writer.text_eq, Fragment.linesOf_append, Fragment.linesOf, hblank, Line.writeAll_append,
        List.singleton_append, Line.writeAll, Line.write_zero, String.empty_append, String.append_assoc]

namespace SourceFile

/-- The texts of header, imports and nodes, each as far as there is something to write. -/
def sections (indent : Indent) (file : SourceFile) : List String := [
  String.join ((file.header.flatMap fun text => (Remark.comment text).lines).map (· ++ "\n")),
  String.join (file.imports.map fun name => "import " ++ name ++ "\n"),
  (SwiftForge.render indent file.nodes).value]

theorem text_header (indent : Indent) (header : List String) : Writer.text indent (header.flatMap Fragment.comments) =
    String.join ((header.flatMap fun text => (Remark.comment text).lines).map (· ++ "\n")) := by
  have hlines : Fragment.linesOf 0 (header.flatMap Fragment.comments) =
      (header.flatMap fun text => (Remark.comment text).lines).map (Line.mk 0) := by
    induction header with
    | nil => rw [List.flatMap_nil, Fragment.linesOf, List.flatMap_nil, List.map_nil]
    | cons text rest ih =>
      have htext := Remark.linesOf_fragments 0 (.comment text)
      rw [Remark.fragments] at htext
      rw [List.flatMap_cons, Fragment.linesOf_append, htext, ih, List.flatMap_cons, List.map_append]
  rw [Writer.text_eq, hlines, Line.writeAll_zero]

theorem text_imports (indent : Indent) (imports : List String) :
    Writer.text indent (imports.map fun (name : String) => Fragment.line ("import " ++ name)) =
      String.join (imports.map fun name => "import " ++ name ++ "\n") := by
  rw [Writer.text_eq]
  induction imports with
  | nil => rfl
  | cons name rest ih =>
    have hspells := (Inline.spells_ofText "import ").append (Inline.spells_ofText name)
    have hlines : (Inline.ofText "import " ++ Inline.ofText name).lines 0 =
        (Text.physicalLines ("import " ++ name)).map (Line.mk 0) := hspells.lines_eq 0
    rw [List.map_cons, Fragment.linesOf, Fragment.lines, Line.writeAll_append, ih, hlines, Line.writeAll_physicalLines,
      List.map_cons, String.join_cons]

/-- The fragments of header, imports and nodes. -/
def sectionFragments (file : SourceFile) : List (List Fragment) := [
  file.header.flatMap Fragment.comments,
  file.imports.map fun (name : String) => .line ("import " ++ name),
  (statements file.nodes).value]

theorem sections_eq (indent : Indent) (file : SourceFile) :
    file.sections indent = file.sectionFragments.map (Writer.text indent) := by
  rw [sectionFragments, List.map_cons, List.map_cons, List.map_singleton, text_header, text_imports, sections,
    SwiftForge.value_render, Writer.text_eq]

/-- What has fragments in a file has lines. -/
theorem linesOf_part_eq_nil_iff {file : SourceFile} {part : List Fragment} (h : part ∈ file.sectionFragments) :
    Fragment.linesOf 0 part = [] ↔ part = [] := by
  simp only [sectionFragments, List.mem_cons, List.not_mem_nil, or_false] at h
  rcases h with rfl | rfl | rfl
  · refine Fragment.linesOf_eq_nil_iff (fun f hf => ?_) 0
    obtain ⟨text, -, hf⟩ := List.mem_flatMap.1 hf
    obtain ⟨line, -, rfl⟩ := List.mem_map.1 hf
    rfl
  · refine Fragment.linesOf_eq_nil_iff (fun f hf => ?_) 0
    obtain ⟨name, -, rfl⟩ := List.mem_map.1 hf
    rfl
  · rw [linesOf_statements_eq_nil_iff, statements_eq_nil_iff]

/-- A file is written section by section, with an empty line between neighbours. -/
theorem value_render_sections (indent : Indent) (file : SourceFile) :
    (file.render indent).value = Text.joinWith "\n" ((file.sections indent).filter (· ≠ "")) := by
  have hrender : (file.render indent).value =
      Writer.text indent (joinSections (file.sectionFragments.filter fun part => !part.isEmpty)) := by
    rw [value_render, Writer.text_eq]
    rfl
  have hfilter : (file.sectionFragments.filter fun part => !part.isEmpty) =
      file.sectionFragments.filter ((fun text => decide (text ≠ "")) ∘ Writer.text indent) := by
    refine List.filter_congr fun part hpart => ?_
    have hempty : Writer.text indent part = "" ↔ part = [] := by
      rw [Writer.text_eq, Line.writeAll_eq_empty_iff, linesOf_part_eq_nil_iff hpart]
    simp only [Function.comp_apply, ne_eq, decide_not, hempty, ← List.isEmpty_iff, Bool.decide_eq_true]
  rw [hrender, text_joinSections, sections_eq, List.filter_map, hfilter]

/-- Every section that is there ends with a line feed. -/
theorem sections_feed (indent : Indent) (file : SourceFile) :
    ∀ text ∈ file.sections indent, text = "" ∨ ∃ body, text = body ++ "\n" := by
  rw [sections_eq]
  intro text htext
  obtain ⟨part, -, rfl⟩ := List.mem_map.1 htext
  rw [Writer.text_eq]
  exact Line.writeAll_eq_empty_or _ _

end SourceFile

end SwiftForge
