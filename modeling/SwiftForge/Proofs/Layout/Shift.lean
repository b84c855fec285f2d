import SwiftForge.Proofs.Layout.Nested
import SwiftForge.Proofs.Text.Lines

/-! What a call on a writer can do: it appends, and only `pushIndent` and `pushDedent` change the level. A fragment at
    level `n` writes what it writes at level zero with `n` indent units in front of every line that is not empty. Only
    a remark (a comment of either kind) with a line feed in it breaks this: its further lines are never indented. -/

namespace SwiftForge

/-! ### Lines put deeper -/

namespace Text

/-- The text with a lead in front of every line; empty lines stay empty. -/
def withLead (lead s : String) : String :=
  String.ofList ((terminatedLines s.toList).flatMap fun line => if line = ['\n'] then line else lead.toList ++ line)

/-- The first line of a text gets the lead on its own. -/
theorem withLead_line (lead : String) {line : String} (h : '\n' ∉ line.toList) (rest : String) :
    withLead lead (line ++ "\n" ++ rest) =
      (if line = "" then "\n" else lead ++ line ++ "\n") ++ withLead lead rest := by
  have hlines : terminatedLines (line ++ "\n" ++ rest).toList =
      (line.toList ++ ['\n']) :: terminatedLines rest.toList := by
    rw [String.toList_append, String.toList_append, List.append_assoc]
    exact terminatedLines_line h rest.toList
  rw [withLead, hlines, List.flatMap_cons, String.ofList_append, withLead]
  congr 1
  by_cases hempty : line = ""
  · rw [hempty]
    rfl
  · have hne : line.toList ++ ['\n'] ≠ ['\n'] := by simpa using hempty
    rw [if_neg hne, if_neg hempty, String.ofList_append, String.ofList_append, String.ofList_toList,
      String.ofList_toList, String.append_assoc]

theorem newline_not_mem_flat (s : String) : '\n' ∉ flat s := by
  simp [flat]

end Text

namespace Line

theorem deepen_deepen (m n : Nat) (line : Line) : (line.deepen m).deepen n = line.deepen (n + m) := by
  rw [deepen, deepen, deepen, Nat.add_assoc]

theorem write_of_empty (unit : String) {line : Line} (h : line.text = "") : line.write unit = "\n" := by
  rw [write, h]
  rfl

/-- Putting lines deeper is putting a lead in front of what is written of them. -/
theorem writeAll_deepen {unit : String} (hunit : '\n' ∉ unit.toList) (n : Nat) {lines : List Line}
    (h : ∀ line ∈ lines, '\n' ∉ line.text.toList) :
    writeAll unit (lines.map (deepen n)) = Text.withLead (leading unit n) (writeAll unit lines) := by
  induction lines with
  | nil => rfl
  | cons line rest ih =>
    obtain ⟨hline, hrest⟩ := List.forall_mem_cons.1 h
    rw [List.map_cons, writeAll, writeAll, write_eq unit line, Text.withLead_line _ (not_mem_shown hunit hline),
      ih hrest]
    congr 1
    rw [← write_shown, write]
    simp only [String.isEmpty_iff]

end Line

/-! ### Fragments put deeper -/

namespace Fragment

mutual

/-- The texts of the comments in a fragment. -/
def remarks : Fragment → List String
  | .line _ => []
  | .blank => []
  | .block _ body _ => remarksOf body
  | .indented body => remarksOf body
  | .comment text => [text]
  | .docComment text => [text]

def remarksOf : List Fragment → List String
  | [] => []
  | f :: rest => f.remarks ++ remarksOf rest

end

/-- Every comment stays on one line. -/
def RemarksFit (fs : List Fragment) : Prop := ∀ text ∈ remarksOf fs, '\n' ∉ text.toList

/-- The texts of a fragment were cut at their line feeds: no piece holds one. -/
def Cut (f : Fragment) : Prop := '\n' ∉ f.chars

/-- A fragment whose texts are plain strings. -/
inductive OfTexts : Fragment → Prop
  | line (s : String) : OfTexts (.line (.ofText s))
  | blank : OfTexts .blank
  | block (header : String) {body : List Fragment} (close : Option String) (h : ∀ f ∈ body, OfTexts f) :
    OfTexts (.block (.ofText header) body (close.map Inline.ofText))
  | indented {body : List Fragment} (h : ∀ f ∈ body, OfTexts f) : OfTexts (.indented body)
  | comment (text : String) : OfTexts (.comment text)
  | docComment (text : String) : OfTexts (.docComment text)

theorem remarksOf_append (fs gs : List Fragment) : remarksOf (fs ++ gs) = remarksOf fs ++ remarksOf gs := by
  induction fs with
  | nil => rfl
  | cons f fs ih => rw [List.cons_append, remarksOf, remarksOf, ih, List.append_assoc]

theorem remarksFit_cons {f : Fragment} {fs : List Fragment} :
    RemarksFit (f :: fs) ↔ RemarksFit [f] ∧ RemarksFit fs := by
  simp [RemarksFit, remarksOf, or_imp, forall_and]

theorem commentLines_eq (depth : Nat) {mark text : String} (hmark : '\n' ∉ mark.toList) (h : '\n' ∉ text.toList) :
    commentLines depth mark text = [⟨depth, commentText mark text⟩] := by
  have hwhole : '\n' ∉ (commentText mark text).toList := by
    unfold commentText
    split
    · exact hmark
    · simp [hmark, h]
  have hlines : Text.physicalLines (commentText mark text) = [commentText mark text] := by
    rw [Text.physicalLines, Text.splitAt_eq_singleton hwhole]
    simp
  rw [commentLines, hlines]
  rfl

end Fragment

theorem Inline.lines_add (n m : Nat) (t : Inline) : t.lines (n + m) = (t.lines m).map (Line.deepen n) := by
  rw [lines_eq_deepen (n + m), lines_eq_deepen m, List.map_map]
  exact List.map_congr_left fun line _ => (line.deepen_deepen m n).symm

namespace Fragment

open Line (writeAll writeAll_append deepen)

mutual

/-- A fragment that stands deeper writes its lines deeper. -/
theorem writeAll_lines_add (unit : String) (n m : Nat) : (f : Fragment) → RemarksFit [f] →
    writeAll unit (f.lines (n + m)) = writeAll unit ((f.lines m).map (deepen n))
  | .line text, _ => by rw [lines, lines, text.lines_add]
  | .blank, _ => by
    -- A blank line is at level zero wherever it stands, so the lines differ but not what is written.
    rw [lines, lines, List.map_singleton, writeAll, writeAll, Line.write_of_empty unit rfl, writeAll, writeAll,
      Line.write_of_empty unit rfl]
  | .block header body close, h => by
    have hbody := writeAll_linesOf_add unit n (m + 1) body (by simpa [RemarksFit, remarksOf, remarks] using h)
    cases close with
    | none =>
      simp only [lines, header.lines_add, List.map_append, List.map_nil, writeAll_append, ← hbody, Nat.add_assoc]
    | some text =>
      simp only [lines, header.lines_add, text.lines_add, List.map_append, writeAll_append, ← hbody, Nat.add_assoc]
  | .indented body, h => by
    have hbody := writeAll_linesOf_add unit n (m + 1) body (by simpa [RemarksFit, remarksOf, remarks] using h)
    rw [lines, lines, Nat.add_assoc, hbody]
  | .comment text, h => by
    have htext : '\n' ∉ text.toList := h text (by simp [remarksOf, remarks])
    rw [lines, lines, commentLines_eq _ (by decide) htext, commentLines_eq _ (by decide) htext]
    rfl
  | .docComment text, h => by
    have htext : '\n' ∉ text.toList := h text (by simp [remarksOf, remarks])
    rw [lines, lines, commentLines_eq _ (by decide) htext, commentLines_eq _ (by decide) htext]
    rfl

theorem writeAll_linesOf_add (unit : String) (n m : Nat) : (fs : List Fragment) → RemarksFit fs →
    writeAll unit (linesOf (n + m) fs) = writeAll unit ((linesOf m fs).map (deepen n))
  | [], _ => rfl
  | f :: rest, h => by
    obtain ⟨hf, hrest⟩ := remarksFit_cons.1 h
    rw [linesOf, linesOf, List.map_append, writeAll_append, writeAll_append, writeAll_lines_add unit n m f hf,
      writeAll_linesOf_add unit n m rest hrest]

end

theorem Cut.newline_not_mem {f : Fragment} (h : f.Cut) (depth : Nat) :
    ∀ line ∈ f.lines depth, '\n' ∉ line.text.toList := by
  intro line hline hmem
  refine h ?_
  rw [← chars_lines depth f]
  exact List.mem_flatMap.2 ⟨line, hline, hmem⟩

theorem newline_not_mem_charsOf {fs : List Fragment} (h : ∀ f ∈ fs, f.Cut) : '\n' ∉ charsOf fs := by
  induction fs with
  | nil => simp [charsOf]
  | cons f fs ih =>
    obtain ⟨hf, hfs⟩ := List.forall_mem_cons.1 h
    rw [charsOf, List.mem_append, not_or]
    exact ⟨hf, ih hfs⟩

theorem OfTexts.cut {f : Fragment} (h : f.OfTexts) : f.Cut := by
  induction h with
  | line s => simp [Cut, chars, Text.newline_not_mem_flat]
  | blank => simp [Cut, chars]
  | block header close _ ih =>
    have hbody := newline_not_mem_charsOf ih
    cases close <;> simp [Cut, chars, hbody, Text.newline_not_mem_flat]
  | indented _ ih => simpa [Cut, chars] using newline_not_mem_charsOf ih
  | comment text => simp [Cut, chars, Text.newline_not_mem_flat]
  | docComment text => simp [Cut, chars, Text.newline_not_mem_flat]

end Fragment

/-! ### Calls -/

namespace Writer

/-- A call on a writer. -/
inductive Call where
  | pushLine (text : Inline)
  | pushBlank
  | pushIndent
  | pushDedent
  | apply (f : Fragment)
  | emit (fs : List Fragment)

/-- The writer after a call. -/
def Call.run : Call → Writer → Writer
  | .pushLine text, w => w.pushLine text
  | .pushBlank, w => w.pushBlank
  | .pushIndent, w => w.pushIndent
  | .pushDedent, w => w.pushDedent
  | .apply f, w => w.apply f
  | .emit fs, w => w.emit fs

/-- The writer after several calls. -/
def after (w : Writer) (calls : List Call) : Writer := calls.foldl (fun w call => call.run w) w

/-- The same writer with nothing written yet. -/
def fresh (w : Writer) : Writer := { w with buffer := "" }

/-- A writer goes on as another one of the same style, from the same level, after what was written before. -/
structure Follows (before : String) (w v : Writer) : Prop where
  indent : w.indent = v.indent
  level : w.level = v.level
  buffer : w.buffer = before ++ v.buffer

theorem Follows.pushLines {before : String} {w v : Writer} (h : Follows before w v) (lines : List Line) :
    Follows before (w.pushLines lines) (v.pushLines lines) := by
  refine ⟨h.indent, h.level, ?_⟩
  rw [Writer.pushLines, Writer.pushLines, h.indent, h.buffer, String.append_assoc]

/-- No call looks at what was written before. -/
theorem Follows.run {before : String} {w v : Writer} (h : Follows before w v) (call : Call) :
    Follows before (call.run w) (call.run v) := by
  cases call with
  | pushLine text =>
    simp only [Call.run, Writer.pushLine, h.level]
    exact h.pushLines _
  | pushBlank => exact h.pushLines _
  | pushIndent => exact ⟨h.indent, congrArg (· + 1) h.level, h.buffer⟩
  | pushDedent => exact ⟨h.indent, congrArg (· - 1) h.level, h.buffer⟩
  | apply f =>
    simp only [Call.run, apply_eq, h.level]
    exact h.pushLines _
  | emit fs =>
    simp only [Call.run, emit_eq, h.level]
    exact h.pushLines _

theorem Follows.after {before : String} {w v : Writer} (h : Follows before w v) (calls : List Call) :
    Follows before (w.after calls) (v.after calls) := by
  induction calls generalizing w v with
  | nil => exact h
  | cons call calls ih => exact ih (h.run call)

theorem follows_fresh (w : Writer) : Follows w.buffer w w.fresh := ⟨rfl, rfl, String.append_empty.symm⟩

/-- The text of a fragment at level zero, put deeper, is what it appends at the level of a writer. -/
theorem buffer_apply (w : Writer) {f : Fragment} (hcut : f.Cut) (hremarks : Fragment.RemarksFit [f]) :
    (w.apply f).buffer = w.buffer ++ Text.withLead (Line.leading w.indent.unit w.level) (text w.indent [f]) := by
  have hlevel := Fragment.writeAll_lines_add w.indent.unit w.level 0 f hremarks
  have htext : text w.indent [f] = Line.writeAll w.indent.unit (f.lines 0) := by
    rw [text_eq, Fragment.linesOf, Fragment.linesOf, List.append_nil]
  rw [apply_eq, htext, ← Line.writeAll_deepen w.indent.not_mem_unit _ (hcut.newline_not_mem 0), ← hlevel]
  rfl

end Writer

/-- Calls on a writer, in whatever state, only append: they add what they write to an empty buffer at the same level. A
    fragment or a list of fragments leaves the level as it was. What a fragment without line feeds in its comments adds
    is its text at level zero with the indentation of the level in front of every line that is not empty; the other
    texts of a fragment are cut at their line feeds, whatever strings they come from. -/
theorem calls_append_and_shift (w : Writer) :
    (∀ calls, (w.after calls).buffer = w.buffer ++ (w.fresh.after calls).buffer) ∧
    (∀ f, (w.apply f).level = w.level) ∧ (∀ fs, (w.emit fs).level = w.level) ∧
    (∀ f : Fragment, f.OfTexts → f.Cut) ∧ ∀ f : Fragment, f.Cut → (∀ text ∈ f.remarks, '\n' ∉ text.toList) →
      (w.apply f).buffer =
        w.buffer ++ Text.withLead (Line.leading w.indent.unit w.level) (Writer.text w.indent [f]) := by
  refine ⟨fun calls => ?_, fun f => ?_, fun fs => ?_, fun f hf => hf.cut, fun f hcut hremarks => ?_⟩
  · exact (w.follows_fresh.after calls).buffer
  · rw [Writer.apply_eq]
    rfl
  · rw [Writer.emit_eq]
    rfl
  · exact w.buffer_apply hcut (by simpa [Fragment.RemarksFit, Fragment.remarksOf] using hremarks)

/-- A block left open, with a blank line, a text on three lines of which the second is empty, and a comment. -/
def openBlock : Fragment :=
  .block (Inline.ofText "if a \x7b") [.blank, .indented [.line (Inline.ofText "x\n\ny")], .comment "c"] none

/-- A writer that went back too often before it went two levels deeper. -/
def shaken : Writer :=
  ({ indent := .tab } : Writer).after [.pushDedent, .pushLine (Inline.ofText "z"), .pushIndent, .pushIndent]

theorem calls_append_and_shift_openBlock :
    openBlock.OfTexts ∧ (∀ text ∈ openBlock.remarks, '\n' ∉ text.toList) ∧ (shaken.apply openBlock).level = 2 ∧
      (shaken.apply openBlock).buffer = "z\n" ++ Text.withLead "\t\t" (Writer.text .tab [openBlock]) := by
  have htexts : openBlock.OfTexts := by
    refine .block "if a \x7b" none fun f hf => ?_
    simp only [List.mem_cons, List.not_mem_nil, or_false] at hf
    rcases hf with rfl | rfl | rfl
    · exact .blank
    · exact .indented (by simpa using .line "x\n\ny")
    · exact .comment "c"
  have hremarks : ∀ text ∈ openBlock.remarks, '\n' ∉ text.toList := by decide
  obtain ⟨-, hlevel, -, hcut, hshift⟩ := calls_append_and_shift shaken
  exact ⟨htexts, hremarks, hlevel openBlock, hshift openBlock (hcut openBlock htexts) hremarks⟩

example : Text.withLead "\t\t" "if a \x7b\n\n\t\tx\n\n" = "\t\tif a \x7b\n\n\t\t\t\tx\n\n" := by decide

end SwiftForge
