import Mathlib.Algebra.Order.PUnit
import SwiftForge.Proofs.Layout.Written
import SwiftForge.Proofs.Render.Tracks
import SwiftForge.Render.File

/-! Rendering with a style against the layout without one. In the rendering the statements of a closure are text early,
    with the indentation of the style in it, and this text is cut and indented again at each closure around it; in the
    layout they are lines with a depth. By induction over the places of a tree the rendering writes the lines of the
    layout, with the same warnings, however deep closures stand in closures. -/

namespace SwiftForge

open Logged (Alike value_bind value_pure warnings_bind warnings_pure)

namespace Written

theorem nestedText_eq (indent : Indent) (fs : List Fragment) :
    nestedText indent fs = Line.writeAll indent.unit (Fragment.linesOf 1 fs) := by
  rw [nestedText, Writer.emit_eq]
  exact String.empty_append

end Written

/-- The statements of a closure between its signature and its brace. -/
theorem Inline.writtenAs_closure (indent : Indent) (signature : Option String) {fs gs : List Fragment}
    (h : Fragment.WrittenAs indent.unit fs gs) :
    Inline.WrittenAs indent.unit (closureInline signature (some (Fragment.linesOf 0 fs))).pieces
      (Written.closureText signature (some (Written.nestedText indent gs))) := by
  have hlines : '\n' ∉ Line.chars (Fragment.linesOf 0 fs) := by
    rw [Fragment.chars_linesOf]
    exact h.newline_not_mem
  rw [Written.nestedText_eq, ← h.writeAll_deepen]
  cases signature with
  | none => exact Inline.writtenAs_block (Inline.writtenAs_ofText _ "\x7b") hlines (Inline.writtenAs_ofText _ "\x7d")
  | some signature =>
    have hhead := (Inline.writtenAs_ofText indent.unit "\x7b ").append (Inline.writtenAs_ofText _ signature)
    exact Inline.writtenAs_block hhead hlines (Inline.writtenAs_ofText _ "\x7d")

/-- A clause without statements is one with a `break` in both. -/
theorem Fragment.WrittenAs.clauseBody (indent : Indent) {fs gs : List Fragment}
    (h : Fragment.WrittenAs indent.unit fs gs) :
    Fragment.WrittenAs indent.unit [SwiftForge.clauseBody fs] [SwiftForge.clauseBody gs] := by
  unfold SwiftForge.clauseBody
  rw [← h.isEmpty]
  split
  · exact (line indent.not_mem_unit (Inline.writtenAs_ofText _ "break")).indented
  · exact h.indented

/-- Layout and text as it is written with a style. No place weighs anything. -/
def Track.written (indent : Indent) : Track indent Unit where
  text _ t s := Inline.WrittenAs indent.unit t.pieces s
  fragments _ fs gs := Fragment.WrittenAs indent.unit fs gs
  own _ := ()
  empty := .nil
  ofText s := Inline.writtenAs_ofText _ s
  ofString value := Inline.writtenAs_ofText _ (swiftString value)
  append ht hu := ht.append hu
  closure signature h := Inline.writtenAs_closure indent signature h
  nil := .nil
  concat hf hg := hf.append hg
  line h := .line indent.not_mem_unit h
  block h hbody hclose := .block indent.not_mem_unit h hbody hclose
  openBlock h hbody := .openBlock indent.not_mem_unit h hbody
  clause h := h.clauseBody indent
  blank := .blank
  comments text := .comments text
  docComments text := .docComments text

theorem Track.written_at (indent : Indent) (s : Site) : (Track.written indent).At () s :=
  everywhere (w := fun _ => ()) (fun _ => rfl) s

/-! ### Nodes and files -/

/-- Each line of statements is written as it is laid out. -/
theorem alike_statements (indent : Indent) (nodes : List Node) :
    Alike (Fragment.WrittenAs indent.unit) (statements nodes) (Written.statements indent nodes) :=
  Track.statements (K := Track.written indent) (w := fun _ => ()) fun c _ => Track.written_at indent c

theorem alike_inline (indent : Indent) (role : Role) (node : Node) :
    Alike (fun t s => Inline.WrittenAs indent.unit t.pieces s) (node.inline role) (renderInline indent role node) :=
  (Track.written_at indent (.slot role node)).1

/-- Sections with an empty line between neighbours. -/
theorem writtenAs_joinSections {unit : String} {parts parts' : List (List Fragment)}
    (h : List.Forall₂ (Fragment.WrittenAs unit) parts parts') :
    Fragment.WrittenAs unit (joinSections parts) (joinSections parts') := by
  induction h with
  | nil => exact .nil
  | cons hpart hrest ih =>
    cases hrest with
    | nil => exact hpart
    | cons => exact hpart.append (Fragment.WrittenAs.blank.append ih)

theorem SourceFile.alike_fragments (indent : Indent) (file : SourceFile) :
    Alike (Fragment.WrittenAs indent.unit) file.fragments (file.written indent) := by
  have hheader := Track.flatMap (K := Track.written indent) file.header fun text => .comments text
  have himports : Fragment.WrittenAs indent.unit
      (file.imports.map fun (name : String) => Fragment.line ("import " ++ name))
      (file.imports.map fun (name : String) => Written.line ("import " ++ name)) := by
    induction file.imports with
    | nil => exact .nil
    | cons name rest ih =>
      have hname := (Inline.writtenAs_ofText indent.unit "import ").append (Inline.writtenAs_ofText _ name)
      exact (Fragment.WrittenAs.line indent.not_mem_unit hname).append ih
  refine (alike_statements indent file.nodes).bind fun hbody => .pure ?_
  refine writtenAs_joinSections (List.rel_filter ?_ (.cons hheader (.cons himports (.cons hbody .nil))))
  intro fs gs h
  dsimp only
  rw [h.isEmpty]

/-! ### Rendered text -/

theorem value_render (indent : Indent) (nodes : List Node) :
    (render indent nodes).value = Line.writeAll indent.unit (Fragment.linesOf 0 (statements nodes).value) := by
  rw [render, value_bind, value_pure, Writer.text_eq]
  exact ((alike_statements indent nodes).value.lines 0).symm

theorem warnings_render (indent : Indent) (nodes : List Node) :
    (render indent nodes).warnings = (statements nodes).warnings := by
  rw [render, warnings_bind, warnings_pure, List.append_nil]
  exact ((alike_statements indent nodes).warnings trivial).symm

theorem SourceFile.value_render (indent : Indent) (file : SourceFile) :
    (file.render indent).value = Line.writeAll indent.unit (Fragment.linesOf 0 file.fragments.value) := by
  rw [render, value_bind, value_pure, Writer.text_eq]
  exact ((file.alike_fragments indent).value.lines 0).symm

theorem SourceFile.warnings_render (indent : Indent) (file : SourceFile) :
    (file.render indent).warnings = file.fragments.warnings := by
  rw [render, warnings_bind, warnings_pure, List.append_nil]
  exact ((file.alike_fragments indent).warnings trivial).symm

/-- In expression or pattern position the text is what is written of the lines in the layout. -/
theorem value_renderInline (indent : Indent) (role : Role) (node : Node) :
    (renderInline indent role node).value = (node.inline role).value.write indent.unit :=
  (alike_inline indent role node).value.write_eq.symm

theorem warnings_renderInline (indent : Indent) (role : Role) (node : Node) :
    (renderInline indent role node).warnings = (node.inline role).warnings :=
  ((alike_inline indent role node).warnings trivial).symm

/-! ### Lines and comments of the layout -/

theorem newline_not_mem_statements (nodes : List Node) : '\n' ∉ Fragment.charsOf (statements nodes).value :=
  (alike_statements default nodes).value.newline_not_mem

theorem SourceFile.newline_not_mem_fragments (file : SourceFile) : '\n' ∉ Fragment.charsOf file.fragments.value :=
  (file.alike_fragments default).value.newline_not_mem

theorem Node.newline_not_mem_inline (node : Node) (role : Role) : '\n' ∉ (node.inline role).value.chars :=
  (alike_inline default role node).value.newline_not_mem

/-- The comments of rendered nodes stay on one line. -/
theorem remarksFit_statements (nodes : List Node) : Fragment.RemarksFit (statements nodes).value :=
  (alike_statements default nodes).value.remarksFit

end SwiftForge
