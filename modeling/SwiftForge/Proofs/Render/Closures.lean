import SwiftForge.Proofs.Render.Composition
import SwiftForge.Tree.Record

/-! Closures inside a line. The statements of a closure stand one level deeper the way any fragments do. Hence a line
    with a closure in it, whether the closure was written early and is indented as plain text or is kept as a piece of
    the line, comes out as a block: what stands before the closure opens it and what stands after the closure closes
    it. -/

namespace SwiftForge

open Logged (value_bind value_pure)
open Fragment (RemarksFit)

namespace Closure

/-- What a closure opens with. -/
def opening (k : Closure) : String :=
  match k.head.signature? with
  | none => "\x7b"
  | some signature => "\x7b " ++ signature

theorem exists_block {k : Closure} (h : k.body ≠ []) : ∃ head : Inline, Inline.Spells head.pieces k.opening ∧
    k.inline.value = Inline.block head (Fragment.linesOf 0 (statements k.body).value) (Inline.ofText "\x7d") := by
  obtain ⟨head, body⟩ := k
  have hbody : body.isEmpty = false := by simpa using h
  rw [Closure.inline, opening, value_bind, value_pure, hbody]
  cases head.signature? with
  | none => exact ⟨_, Inline.spells_ofText _, rfl⟩
  | some signature => exact ⟨_, (Inline.spells_ofText _).append (Inline.spells_ofText _), rfl⟩

/-- The text of a closure: its statements are written one level deep between its first and its last line. -/
theorem value_renderInline {k : Closure} (h : k.body ≠ []) (indent : Indent) :
    (renderInline indent .expression k.node).value = k.opening ++ "\n" ++
      Line.writeAll indent.unit (Fragment.linesOf 1 (statements k.body).value) ++ "\x7d" := by
  obtain ⟨head, hhead, hblock⟩ := exists_block h
  have hinline : k.node.inline .expression = k.inline := rfl
  have hlines : '\n' ∉ Line.chars (Fragment.linesOf 0 (statements k.body).value) := by
    rw [Fragment.chars_linesOf]
    exact newline_not_mem_statements k.body
  have hwrite := Inline.writtenAs_block hhead.writtenAs hlines (Inline.writtenAs_ofText indent.unit "\x7d")
  rw [SwiftForge.value_renderInline, hinline, hblock, hwrite.write_eq,
    ← Fragment.writeAll_linesOf_add _ 1 0 _ (remarksFit_statements k.body)]

end Closure

/-- The block that a closure with `before` and `after` around it stands for. -/
def blockAround (k : Closure) (before after : String) : Fragment :=
  .block (Inline.ofText (before ++ k.opening)) (statements k.body).value (some (Inline.ofText ("\x7d" ++ after)))

section

variable {k : Closure} {before after : String} {w : Writer}

/-- Lines are those of the block as soon as the lines between its first and its last text are written alike. -/
theorem pushLines_eq_blockAround {body : List Line} (h : Line.writeAll w.indent.unit body =
      Line.writeAll w.indent.unit (Fragment.linesOf (w.level + 1) (statements k.body).value)) :
    w.pushLines ((Text.physicalLines (before ++ k.opening)).map (Line.mk w.level) ++ body ++
      (Text.physicalLines ("\x7d" ++ after)).map (Line.mk w.level)) = w.apply (blockAround k before after) := by
  rw [Writer.apply_eq, blockAround, Fragment.lines, Inline.lines_ofText, Inline.lines_ofText]
  simp only [Writer.pushLines, Line.writeAll_append, h]

/-- The closure is written first and the line is cut and indented as plain text. -/
theorem apply_line_early (h : k.body ≠ []) :
    w.apply (.line (Inline.ofText (before ++ (renderInline w.indent .expression k.node).value ++ after))) =
      w.apply (blockAround k before after) := by
  have hfit : RemarksFit (statements k.body).value := remarksFit_statements k.body
  have hsingle : ∀ line ∈ Fragment.linesOf 1 (statements k.body).value, '\n' ∉ line.text.toList :=
    newline_not_mem_lines (newline_not_mem_statements k.body) 1
  have htext : before ++ (renderInline w.indent .expression k.node).value ++ after = before ++ k.opening ++ "\n" ++
      (Line.writeAll w.indent.unit (Fragment.linesOf 1 (statements k.body).value) ++ ("\x7d" ++ after)) := by
    rw [Closure.value_renderInline h]
    simp only [String.append_assoc]
  rw [← pushLines_eq_blockAround (Fragment.writeAll_linesOf_add w.indent.unit w.level 1 _ hfit).symm, Writer.apply_eq,
    Fragment.lines, Inline.lines_ofText, htext, Text.physicalLines_feed,
    Line.physicalLines_writeAll w.indent.not_mem_unit hsingle, List.map_append, List.map_append]
  simp only [Writer.pushLines, Line.writeAll_append, Line.writeAll_shown, String.append_assoc]

/-- The closure stays a piece of the line. -/
theorem apply_line_inline (h : k.body ≠ []) :
    w.apply (.line (Inline.ofText before ++ k.inline.value ++ Inline.ofText after)) =
      w.apply (blockAround k before after) := by
  have hfit : RemarksFit (statements k.body).value := remarksFit_statements k.body
  obtain ⟨head, hhead, hblock⟩ := Closure.exists_block h
  have hfirst : Inline.Spells (Inline.ofText before ++ head).pieces (before ++ k.opening) :=
    (Inline.spells_ofText before).append hhead
  have hlast : Inline.Spells (Inline.ofText "\x7d" ++ Inline.ofText after).pieces ("\x7d" ++ after) :=
    (Inline.spells_ofText _).append (Inline.spells_ofText after)
  rw [← pushLines_eq_blockAround (Fragment.writeAll_linesOf_add w.indent.unit (w.level + 1) 0 _ hfit).symm,
    Writer.apply_eq, Fragment.lines, hblock, Inline.append_block_append, Inline.lines_block, hfirst.lines_eq,
    hlast.lines_eq]

end

/-- A closure with statements in the middle of a line comes out as a block at the writer's level: the text before the
    closure and the closure's opening are its header, the statements its body, and the brace with the text after the
    closure its last line. This holds of the closure's own text, written early with the style of the writer, and of the
    closure as a piece of the line. -/
theorem line_of_closure_eq_block (k : Closure) (hbody : k.body ≠ []) (before after : String) (w : Writer) :
    w.apply (.line (Inline.ofText (before ++ (renderInline w.indent .expression k.node).value ++ after))) =
        w.apply (blockAround k before after) ∧
      w.apply (.line (Inline.ofText before ++ k.inline.value ++ Inline.ofText after)) =
        w.apply (blockAround k before after) := by
  refine ⟨?_, ?_⟩
  · exact apply_line_early hbody
  · exact apply_line_inline hbody

/-- A closure with a signature, and in it a comment on two lines, a line of blanks and a call with a closure. -/
def runner : Closure where
  head := { params := [{ name := "x" }] }
  body := [.comment "a\nb", .raw "  ",
    .expression (.call (.reference "run") [] (some { body := [.raw "work()", .blank] }) {})]

theorem line_of_closure_eq_block_runner :
    runner.body ≠ [] ∧ ∀ w : Writer,
      w.apply (.line (Inline.ofText ("f(" ++ (renderInline w.indent .expression runner.node).value ++ ")\n.g()"))) =
        w.apply (.block (Inline.ofText ("f(" ++ "\x7b x in")) (statements runner.body).value
          (some (Inline.ofText ("\x7d" ++ ")\n.g()")))) :=
  ⟨List.cons_ne_nil _ _, fun w => (line_of_closure_eq_block runner (List.cons_ne_nil _ _) "f(" ")\n.g()" w).1⟩

end SwiftForge
