import SwiftForge.Proofs.Render.Written

/-! Rendering goes by lines. The nodes of a list are rendered one after the other and none of them leaves a trace on the
    next; the lines, each with a depth and a text on one line, are the same for every indentation style, also those of
    statements inside closures, which are written early into the middle of an expression. -/

namespace SwiftForge

/-- The text of two lists of nodes is the text of the first, then that of the second, and so are the warnings; a text
    that is not empty ends with a line feed. -/
theorem render_append (indent : Indent) (a b : List Node) :
    (render indent (a ++ b)).value = (render indent a).value ++ (render indent b).value ∧
      (render indent (a ++ b)).warnings = (render indent a).warnings ++ (render indent b).warnings ∧
      ((render indent a).value = "" ∨ ∃ text, (render indent a).value = text ++ "\n") := by
  refine ⟨?_, ?_, ?_⟩
  · rw [value_render, value_render, value_render, value_statements_append, Fragment.linesOf_append,
      Line.writeAll_append]
  · rw [warnings_render, warnings_render, warnings_render, warnings_statements_append]
  · rw [value_render]
    exact Line.writeAll_eq_empty_or _ _

/-! ### One line each -/

theorem newline_not_mem_lines {fs : List Fragment} (h : '\n' ∉ Fragment.charsOf fs) (depth : Nat) :
    ∀ line ∈ Fragment.linesOf depth fs, '\n' ∉ line.text.toList := by
  intro line hline hmem
  refine h ?_
  rw [← Fragment.chars_linesOf depth]
  exact List.mem_flatMap.2 ⟨line, hline, hmem⟩

/-- For every list of nodes and every file there are lines, without line feeds inside, that are written for every
    indentation style, and one log. The same holds of a node in expression or pattern position: its text, written early
    with the style of the writer and then given to the writer as plain text, comes out as the same lines at the
    writer's level. -/
theorem exists_lines_of_render :
    (∀ nodes : List Node, ∃ (lines : List Line) (log : List Warning), (∀ line ∈ lines, '\n' ∉ line.text.toList) ∧
      ∀ indent : Indent, (render indent nodes).value = Line.writeAll indent.unit lines ∧
        (render indent nodes).warnings = log) ∧
    (∀ file : SourceFile, ∃ (lines : List Line) (log : List Warning), (∀ line ∈ lines, '\n' ∉ line.text.toList) ∧
      ∀ indent : Indent, (file.render indent).value = Line.writeAll indent.unit lines ∧
        (file.render indent).warnings = log) ∧
    ∀ (node : Node) (role : Role), ∃ (lines : List Line) (log : List Warning),
      (∀ line ∈ lines, '\n' ∉ line.text.toList) ∧
      ∀ w : Writer, (w.pushLine (Inline.ofText (renderInline w.indent role node).value)).buffer =
          w.buffer ++ Line.writeAll w.indent.unit (lines.map (Line.deepen w.level)) ∧
        (renderInline w.indent role node).warnings = log := by
  refine ⟨fun nodes => ?_, fun file => ?_, fun node role => ?_⟩
  · exact ⟨_, (statements nodes).warnings, newline_not_mem_lines (newline_not_mem_statements nodes) 0,
      fun indent => ⟨value_render indent nodes, warnings_render indent nodes⟩⟩
  · exact ⟨_, file.fragments.warnings, newline_not_mem_lines file.newline_not_mem_fragments 0,
      fun indent => ⟨file.value_render indent, file.warnings_render indent⟩⟩
  · have hsingle := Inline.newline_not_mem_lines (node.newline_not_mem_inline role) 0
    refine ⟨_, (node.inline role).warnings, hsingle, fun w => ⟨?_, warnings_renderInline w.indent role node⟩⟩
    have hwrite := (alike_inline w.indent role node).value.writeAll_lines w.indent.not_mem_unit w.level
    rw [Inline.lines_eq_deepen w.level (node.inline role).value] at hwrite
    rw [hwrite]
    rfl

end SwiftForge
