import SwiftForge.Proofs.Layout.Blocks
import SwiftForge.Proofs.Layout.Shift

/-! Text that is written early. An inline text with lines in the middle of it and the plain text that comes of it when
    these lines are written with a style belong together: cut into lines and indented wherever it ends up, the plain
    text gives the lines of the inline text. Fragments with such texts in them are written alike at every depth. -/

namespace SwiftForge

open Line (writeAll deepen)

/-! ### Inline texts -/

namespace Inline

/-- The pieces of an inline text and the text as it is written with a style: stretches of code, and lines one level
    deeper between two line feeds. -/
inductive WrittenAs (unit : String) : List Piece → String → Prop
  | nil : WrittenAs unit [] ""
  | text {s r : String} {rest : List Piece} (hs : '\n' ∉ s.toList) (h : WrittenAs unit rest r) :
    WrittenAs unit (.text s :: rest) (s ++ r)
  | body {r : String} {rest : List Piece} (lines : List Line) (hlines : '\n' ∉ Line.chars lines)
    (h : WrittenAs unit rest r) :
    WrittenAs unit (bodyPieces lines ++ .feed 0 :: rest) ("\n" ++ writeAll unit (lines.map (deepen 1)) ++ r)

variable {unit : String}

theorem WrittenAs.append {a b : List Piece} {s t : String} (ha : WrittenAs unit a s) (hb : WrittenAs unit b t) :
    WrittenAs unit (a ++ b) (s ++ t) := by
  induction ha with
  | nil => rwa [String.empty_append]
  | text hs _ ih =>
    rw [String.append_assoc]
    exact .text hs ih
  | body lines hlines _ ih =>
    rw [String.append_assoc, List.append_assoc]
    exact .body lines hlines ih

/-- Plain text is written as it is. -/
theorem Spells.writtenAs {pieces : List Piece} {s : String} (h : Spells pieces s) : WrittenAs unit pieces s := by
  induction h with
  | nil => exact .nil
  | text hs _ ih => exact .text hs ih
  | feed _ ih => exact .body [] (by simp [Line.chars]) ih

theorem writtenAs_ofText (unit s : String) : WrittenAs unit (ofText s).pieces s := (spells_ofText s).writtenAs

theorem writtenAs_block {opening closing : Inline} {head tail : String} (hopening : WrittenAs unit opening.pieces head)
    {lines : List Line} (hlines : '\n' ∉ Line.chars lines) (hclosing : WrittenAs unit closing.pieces tail) :
    WrittenAs unit (block opening lines closing).pieces
      (head ++ "\n" ++ writeAll unit (lines.map (deepen 1)) ++ tail) := by
  have hall := hopening.append (.body lines hlines hclosing)
  rw [pieces_block]
  simpa only [String.append_assoc, List.append_assoc] using hall

theorem WrittenAs.newline_not_mem {t : Inline} {s : String} (h : WrittenAs unit t.pieces s) : '\n' ∉ t.chars := by
  have hpieces : ∀ {pieces : List Piece} {r : String}, WrittenAs unit pieces r → '\n' ∉ pieces.flatMap Piece.chars := by
    intro pieces r h
    induction h with
    | nil => simp
    | text hs _ ih =>
      rw [List.flatMap_cons, List.mem_append, not_or]
      exact ⟨hs, ih⟩
    | body lines hlines _ ih =>
      have hbody : (bodyPieces lines).flatMap Piece.chars = Line.chars lines := by
        simp [bodyPieces, Piece.chars, Line.chars, List.flatMap_assoc]
      rw [List.flatMap_append, hbody, List.mem_append, not_or]
      exact ⟨hlines, ih⟩
  exact hpieces h

/-- The text is what is written of the lines. -/
theorem WrittenAs.write_eq {t : Inline} {s : String} (h : WrittenAs unit t.pieces s) : t.write unit = s := by
  have hpieces : ∀ {pieces : List Piece} {r : String}, WrittenAs unit pieces r → ∀ current : String,
      writePieces unit (linesFrom 0 ⟨0, current⟩ pieces) = current ++ r := by
    intro pieces r h
    induction h with
    | nil => exact fun current => by rw [linesFrom, writePieces_zero, String.append_empty]
    | text _ _ ih => exact fun current => by rw [linesFrom, ih, String.append_assoc]
    | @body r rest lines hlines _ ih =>
      intro current
      have hrest : linesFrom 0 ⟨0, ""⟩ rest ≠ [] := lines_ne_nil 0 ⟨rest⟩
      have hlines := linesFrom_body 0 ⟨0, current⟩ [] lines rest
      rw [List.nil_append, linesFrom, List.singleton_append] at hlines
      rw [hlines, writePieces_append unit _ hrest, ih, writeAll, Line.write_zero, String.empty_append]
      simp only [String.append_assoc]
  rw [write, lines, hpieces h, String.empty_append]

theorem newline_not_mem_lines {t : Inline} (h : '\n' ∉ t.chars) (base : Nat) :
    ∀ line ∈ t.lines base, '\n' ∉ line.text.toList := by
  intro line hline hmem
  refine h ?_
  rw [← t.chars_lines base]
  exact List.mem_flatMap.2 ⟨line, hline, hmem⟩

/-- Cut into lines at whatever depth, the text gives the lines that it stands for. -/
theorem WrittenAs.writeAll_lines (hunit : '\n' ∉ unit.toList) {t : Inline} {s : String}
    (h : WrittenAs unit t.pieces s) (depth : Nat) :
    writeAll unit (t.lines depth) = writeAll unit ((ofText s).lines depth) := by
  rw [← h.write_eq, writeAll_ofText_write hunit (newline_not_mem_lines h.newline_not_mem 0)]

end Inline

/-! ### Comments stay on one line -/

namespace Fragment

theorem remarksFit_nil : RemarksFit [] := by simp [RemarksFit, remarksOf]

theorem RemarksFit.append {fs gs : List Fragment} (hf : RemarksFit fs) (hg : RemarksFit gs) :
    RemarksFit (fs ++ gs) := by
  intro text htext
  rw [remarksOf_append] at htext
  rcases List.mem_append.1 htext with htext | htext
  · exact hf text htext
  · exact hg text htext

theorem remarksFit_line (t : Inline) : RemarksFit [.line t] := by simp [RemarksFit, remarksOf, remarks]

theorem RemarksFit.block {body : List Fragment} (h : RemarksFit body) (header : Inline) (close : Option Inline) :
    RemarksFit [.block header body close] := by
  simpa [RemarksFit, remarksOf, remarks] using h

theorem RemarksFit.indented {body : List Fragment} (h : RemarksFit body) : RemarksFit [.indented body] := by
  simpa [RemarksFit, remarksOf, remarks] using h

theorem remarksFit_flatMap {α : Type} {f : α → List Fragment} {xs : List α} (h : ∀ x ∈ xs, RemarksFit (f x)) :
    RemarksFit (xs.flatMap f) := by
  induction xs with
  | nil => exact remarksFit_nil
  | cons x xs ih =>
    rw [List.flatMap_cons]
    exact (h x (by simp)).append (ih fun y hy => h y (List.mem_cons_of_mem _ hy))

/-- Fragments of one kind of comment, one for each physical line of a text. -/
theorem remarksFit_physicalLines {mark : String → Fragment} (hmark : ∀ s, remarks (mark s) = [s]) (text : String) :
    RemarksFit ((Text.physicalLines text).map mark) := by
  rw [List.map_eq_flatMap]
  refine remarksFit_flatMap fun s hs => ?_
  obtain ⟨part, hpart, rfl⟩ := List.mem_map.1 hs
  intro t ht
  obtain rfl : t = String.ofList part := by simpa [remarksOf, hmark] using ht
  rw [String.toList_ofList]
  exact Text.not_mem_of_mem_splitAt hpart

theorem remarksFit_comments (text : String) : RemarksFit (comments text) :=
  remarksFit_physicalLines (fun _ => by rw [remarks]) text

theorem remarksFit_docComments (text : String) : RemarksFit (docComments text) :=
  remarksFit_physicalLines (fun _ => by rw [remarks]) text

/-! ### Fragments -/

/-- Fragments and what they become when the texts in them are written early. -/
structure WrittenAs (unit : String) (fs gs : List Fragment) : Prop where
  lines : ∀ depth, writeAll unit (linesOf depth fs) = writeAll unit (linesOf depth gs)
  isEmpty : fs.isEmpty = gs.isEmpty
  newline_not_mem : '\n' ∉ charsOf fs
  remarksFit : RemarksFit fs

variable {unit : String}

namespace WrittenAs

variable {fs gs fs' gs' : List Fragment}

theorem refl (hcut : '\n' ∉ charsOf fs) (hremarks : RemarksFit fs) : WrittenAs unit fs fs :=
  ⟨fun _ => rfl, rfl, hcut, hremarks⟩

theorem nil : WrittenAs unit [] [] := refl (by simp [charsOf]) remarksFit_nil

theorem blank : WrittenAs unit [.blank] [.blank] :=
  refl (by simp [charsOf, chars]) (by simp [RemarksFit, remarksOf, remarks])

theorem comments (text : String) : WrittenAs unit (Fragment.comments text) (Fragment.comments text) := by
  refine refl (newline_not_mem_charsOf fun f hf => ?_) (remarksFit_comments text)
  obtain ⟨s, -, rfl⟩ := List.mem_map.1 hf
  exact (OfTexts.comment s).cut

theorem docComments (text : String) : WrittenAs unit (Fragment.docComments text) (Fragment.docComments text) := by
  refine refl (newline_not_mem_charsOf fun f hf => ?_) (remarksFit_docComments text)
  obtain ⟨s, -, rfl⟩ := List.mem_map.1 hf
  exact (OfTexts.docComment s).cut

theorem append (h : WrittenAs unit fs gs) (h' : WrittenAs unit fs' gs') : WrittenAs unit (fs ++ fs') (gs ++ gs') where
  lines depth := by
    rw [linesOf_append, linesOf_append, Line.writeAll_append, Line.writeAll_append, h.lines, h'.lines]
  isEmpty := by
    have hempty := h.isEmpty
    cases fs with
    | nil =>
      rw [List.isEmpty_iff.1 hempty.symm]
      exact h'.isEmpty
    | cons f fs =>
      cases gs with
      | nil => cases hempty
      | cons g gs => rfl
  newline_not_mem := by
    rw [charsOf_append, List.mem_append, not_or]
    exact ⟨h.newline_not_mem, h'.newline_not_mem⟩
  remarksFit := h.remarksFit.append h'.remarksFit

variable (hunit : '\n' ∉ unit.toList)
include hunit

theorem line {t : Inline} {s : String} (h : Inline.WrittenAs unit t.pieces s) :
    WrittenAs unit [.line t] [.line (.ofText s)] where
  lines depth := by
    simp only [linesOf, Fragment.lines, List.append_nil]
    exact h.writeAll_lines hunit depth
  isEmpty := rfl
  newline_not_mem := by simpa [charsOf, chars] using h.newline_not_mem
  remarksFit := remarksFit_line t

theorem openBlock {t : Inline} {s : String} (h : Inline.WrittenAs unit t.pieces s) (hbody : WrittenAs unit fs gs) :
    WrittenAs unit [.block t fs none] [.block (.ofText s) gs none] where
  lines depth := by
    simp only [linesOf, Fragment.lines, List.append_nil, Line.writeAll_append]
    rw [h.writeAll_lines hunit, hbody.lines]
  isEmpty := rfl
  newline_not_mem := by simpa [charsOf, chars] using ⟨h.newline_not_mem, hbody.newline_not_mem⟩
  remarksFit := hbody.remarksFit.block t none

theorem block {t u : Inline} {s v : String} (h : Inline.WrittenAs unit t.pieces s) (hbody : WrittenAs unit fs gs)
    (hclose : Inline.WrittenAs unit u.pieces v) :
    WrittenAs unit [.block t fs (some u)] [.block (.ofText s) gs (some (.ofText v))] where
  lines depth := by
    simp only [linesOf, Fragment.lines, List.append_nil, Line.writeAll_append]
    rw [h.writeAll_lines hunit, hbody.lines, hclose.writeAll_lines hunit]
  isEmpty := rfl
  newline_not_mem := by
    simpa [charsOf, chars] using ⟨h.newline_not_mem, hbody.newline_not_mem, hclose.newline_not_mem⟩
  remarksFit := hbody.remarksFit.block t (some u)

omit hunit

theorem indented (h : WrittenAs unit fs gs) : WrittenAs unit [.indented fs] [.indented gs] where
  lines depth := by
    simp only [linesOf, Fragment.lines, List.append_nil]
    exact h.lines (depth + 1)
  isEmpty := rfl
  newline_not_mem := by simpa [charsOf, chars] using h.newline_not_mem
  remarksFit := h.remarksFit.indented

/-- Put one level deeper, the lines are those that are written one level deep. -/
theorem writeAll_deepen (h : WrittenAs unit fs gs) :
    writeAll unit ((linesOf 0 fs).map (deepen 1)) = writeAll unit (linesOf 1 gs) := by
  rw [← writeAll_linesOf_add unit 1 0 fs h.remarksFit, h.lines]

end WrittenAs

end Fragment

end SwiftForge
