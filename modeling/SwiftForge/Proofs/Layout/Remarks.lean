import SwiftForge.Proofs.Layout.Shift
import SwiftForge.Proofs.Text.Remarks
import SwiftForge.Tree.Decor

/-! Comments as written. A text is cut at its line feeds and each part gets a mark of its own, so a comment is one line
    per line feed; whether Swift reads all of it as a comment depends on its carriage returns alone, and neither on the
    depth nor on the indentation style. -/

namespace SwiftForge

/-- An authored comment. -/
inductive Remark where
  | comment (text : String)
  | doc (text : String)

namespace Remark

def text : Remark → String
  | comment text => text
  | doc text => text

def mark : Remark → String
  | comment _ => "//"
  | doc _ => "///"

def fragments : Remark → List Fragment
  | comment text => Fragment.comments text
  | doc text => Fragment.docComments text

/-- The texts of the lines of a comment. -/
def lines (r : Remark) : List String := (Text.physicalLines r.text).map (Fragment.commentText r.mark)

/-- What a comment contributes at a depth. -/
def written (indent : Indent) (depth : Nat) (r : Remark) : String :=
  Line.writeAll indent.unit (Fragment.linesOf depth r.fragments)

theorem newline_not_mem {text s : String} (h : s ∈ Text.physicalLines text) : '\n' ∉ s.toList := by
  obtain ⟨part, hpart, rfl⟩ := List.mem_map.1 h
  rw [String.toList_ofList]
  exact Text.not_mem_of_mem_splitAt hpart

theorem newline_not_mem_mark (r : Remark) : '\n' ∉ r.mark.toList := by cases r <;> simp [mark]

/-- A comment has one line for each physical line of its text. -/
theorem linesOf_fragments (depth : Nat) (r : Remark) :
    Fragment.linesOf depth r.fragments = r.lines.map (Line.mk depth) := by
  have hparts : ∀ (f : String → Fragment) (parts : List String), (∀ s ∈ parts, '\n' ∉ s.toList) →
      (∀ s, (f s).lines depth = Fragment.commentLines depth r.mark s) →
      Fragment.linesOf depth (parts.map f) = (parts.map (Fragment.commentText r.mark)).map (Line.mk depth) := by
    intro f parts hparts hf
    induction parts with
    | nil => rfl
    | cons s rest ih =>
      obtain ⟨hs, hrest⟩ := List.forall_mem_cons.1 hparts
      rw [List.map_cons, Fragment.linesOf, hf, Fragment.commentLines_eq depth r.newline_not_mem_mark hs, ih hrest]
      rfl
  cases r with
  | comment text => exact hparts .comment _ (fun s hs => newline_not_mem hs) fun s => by rw [Fragment.lines, mark]
  | doc text => exact hparts .docComment _ (fun s hs => newline_not_mem hs) fun s => by rw [Fragment.lines, mark]

end Remark

/-! ### Code in comments -/

open Text (CodeFree swiftLines StaysRemark)

theorem Indent.blank_of_mem_leading (indent : Indent) (depth : Nat) :
    ∀ c ∈ (Line.leading indent.unit depth).toList, c = ' ' ∨ c = '\t' := by
  have hunit : ∀ c ∈ indent.unit.toList, c = ' ' ∨ c = '\t' := by
    unfold unit
    split <;> simp
  induction depth with
  | zero => simp [Line.leading]
  | succ n ih =>
    intro c hc
    rw [Line.leading, String.toList_append] at hc
    rcases List.mem_append.1 hc with hc | hc
    · exact hunit c hc
    · exact ih c hc

theorem codeFree_swiftLines_nil : CodeFree (swiftLines []) := by decide

namespace Remark

/-- A mark and what separates it from the text. -/
theorem exists_opening (r : Remark) (s : String) : ∃ mark : List Char, (∀ c ∈ mark, c ≠ '\n' ∧ c ≠ '\r') ∧
    (Fragment.commentText r.mark s).toList = '/' :: '/' :: mark ++ s.toList := by
  unfold Fragment.commentText
  split
  · rename_i hempty
    obtain rfl := String.isEmpty_iff.1 hempty
    cases r with
    | comment text => exact ⟨[], by simp, by simp [mark]⟩
    | doc text => exact ⟨['/'], by simp, by simp [mark]⟩
  · cases r with
    | comment text => exact ⟨[' '], by simp, by simp [mark]⟩
    | doc text => exact ⟨['/', ' '], by simp, by simp [mark]⟩

theorem codeFree_line (indent : Indent) (depth : Nat) (r : Remark) {s : String} (hs : '\n' ∉ s.toList) :
    CodeFree (swiftLines (Line.shown indent.unit ⟨depth, Fragment.commentText r.mark s⟩).toList) ↔
      CodeFree (Text.splitAt '\r' s.toList).tail := by
  obtain ⟨mark, hmark, htext⟩ := r.exists_opening s
  have hne : (Fragment.commentText r.mark s).isEmpty = false := by
    rw [Bool.eq_false_iff, ne_eq, String.isEmpty_iff, ← String.toList_inj, htext]
    simp
  rw [Line.shown, hne, if_neg Bool.false_ne_true, String.toList_append, htext, ← List.append_assoc]
  exact Text.codeFree_swiftLines_remark (indent.blank_of_mem_leading depth) hmark hs

/-- Swift reads no part of a written comment as code exactly if the text stays a comment behind each of its carriage
    returns. -/
theorem codeFree_written_iff (indent : Indent) (depth : Nat) (r : Remark) :
    CodeFree (swiftLines (r.written indent depth).toList) ↔ StaysRemark r.text := by
  have hlines : ∀ parts : List String, (∀ s ∈ parts, '\n' ∉ s.toList) →
      (CodeFree (swiftLines (Line.writeAll indent.unit
        ((parts.map (Fragment.commentText r.mark)).map (Line.mk depth))).toList) ↔
        ∀ s ∈ parts, CodeFree (Text.splitAt '\r' s.toList).tail) := by
    intro parts hparts
    induction parts with
    | nil => exact iff_of_true codeFree_swiftLines_nil (by simp)
    | cons s rest ih =>
      obtain ⟨hs, hrest⟩ := List.forall_mem_cons.1 hparts
      have hfeed : ∀ a b : String, (a ++ "\n" ++ b).toList = a.toList ++ '\n' :: b.toList := by simp
      rw [List.map_cons, List.map_cons, Line.writeAll, Line.write_eq, hfeed, Text.codeFree_swiftLines_feed,
        codeFree_line indent depth r hs, ih hrest, List.forall_mem_cons]
  rw [written, linesOf_fragments, lines, hlines _ fun s hs => newline_not_mem hs, StaysRemark, Text.physicalLines,
    List.forall_mem_map]
  simp only [String.toList_ofList]

/-- A line feed starts a line of comment, a carriage return a line of code. -/
example : CodeFree (swiftLines ((comment "a\nb").written .tab 1).toList) ∧
    ¬CodeFree (swiftLines ((comment "a\rb").written .tab 1).toList) := by
  rw [codeFree_written_iff, codeFree_written_iff]
  decide

end Remark

end SwiftForge
