import Mathlib.Data.List.Basic
import SwiftForge.Layout.Writer

/-! Fragments as lines. Emitting fragments leaves the level as it was and appends the lines that the fragments have at
    that level, so what is written depends on the indentation style through the written form of each line only. A text
    that was written early, with its own indentation in it, and is cut into lines and indented once more comes out as
    if it had been laid out at that level from the start. -/

namespace SwiftForge

/-! ### Lines as written -/

namespace Line

/-- The same line `n` levels deeper. -/
def deepen (n : Nat) (line : Line) : Line := ⟨n + line.depth, line.text⟩

/-- A line as written, up to its line feed. -/
def shown (unit : String) (line : Line) : String :=
  if line.text.isEmpty then "" else leading unit line.depth ++ line.text

theorem write_eq (unit : String) (line : Line) : line.write unit = line.shown unit ++ "\n" := by
  unfold write shown
  split <;> simp

theorem leading_add (unit : String) (m n : Nat) : leading unit (m + n) = leading unit m ++ leading unit n := by
  induction m with
  | zero => simp [leading]
  | succ m ih => rw [Nat.succ_add, leading, leading, ih, String.append_assoc]

/-- What is written is empty or ends with a line feed. -/
theorem writeAll_eq_empty_or (unit : String) (lines : List Line) :
    writeAll unit lines = "" ∨ ∃ text, writeAll unit lines = text ++ "\n" := by
  induction lines with
  | nil => exact .inl rfl
  | cons line rest ih =>
    right
    rw [writeAll, write_eq]
    rcases ih with h | ⟨text, h⟩
    · exact ⟨line.shown unit, by rw [h, String.append_empty]⟩
    · exact ⟨line.shown unit ++ "\n" ++ text, by rw [h]; simp only [String.append_assoc]⟩

theorem not_mem_leading {unit : String} {c : Char} (h : c ∉ unit.toList) (n : Nat) : c ∉ (leading unit n).toList := by
  induction n with
  | zero => simp [leading]
  | succ n ih => simp [leading, h, ih]

theorem not_mem_shown {unit : String} {c : Char} {line : Line} (hunit : c ∉ unit.toList) (h : c ∉ line.text.toList) :
    c ∉ (line.shown unit).toList := by
  unfold shown
  split
  · simp
  · simp [h, not_mem_leading hunit]

/-- Indenting what is written of a line puts the line deeper. -/
theorem write_shown (unit : String) (n : Nat) (line : Line) :
    write unit ⟨n, line.shown unit⟩ = (line.deepen n).write unit := by
  unfold write shown deepen
  by_cases h : line.text = ""
  · simp [h]
  · simp [h, leading_add, String.append_assoc]

theorem writeAll_shown (unit : String) (n : Nat) (lines : List Line) :
    writeAll unit ((lines.map (shown unit)).map (Line.mk n)) = writeAll unit (lines.map (deepen n)) := by
  induction lines with
  | nil => rfl
  | cons line rest ih =>
    simp only [List.map_cons, writeAll, ih]
    rw [← write_shown]

end Line

/-! ### Emitting -/

namespace Fragment

@[simp] theorem linesOf_append (depth : Nat) (fs gs : List Fragment) :
    linesOf depth (fs ++ gs) = linesOf depth fs ++ linesOf depth gs := by
  induction fs with
  | nil => rfl
  | cons f fs ih => rw [List.cons_append, linesOf, linesOf, ih, List.append_assoc]

end Fragment

namespace Writer

theorem pushLines_pushLines (w : Writer) (a b : List Line) : (w.pushLines a).pushLines b = w.pushLines (a ++ b) := by
  simp [pushLines, Line.writeAll_append, String.append_assoc]

mutual

/-- A fragment appends its lines at the current level, which it leaves as it is. -/
theorem apply_eq (w : Writer) : (f : Fragment) → w.apply f = w.pushLines (f.lines w.level)
  | .line text => by rw [apply, Fragment.lines, pushLine]
  | .blank => by rw [apply, Fragment.lines, pushBlank]
  | .block header body close => by
    have hbody := emit_eq ((w.pushLine header).pushIndent) body
    have hinside : (((w.pushLine header).pushIndent).emit body).pushDedent =
        w.pushLines (header.lines w.level ++ Fragment.linesOf (w.level + 1) body) := by
      rw [hbody, ← pushLines_pushLines]
      rfl
    cases close with
    | none => rw [apply, Fragment.lines, hinside, List.append_nil]
    | some text =>
      rw [apply, Fragment.lines, hinside, ← pushLines_pushLines w (header.lines w.level ++ _)]
      rfl
  | .indented body => by
    have hbody := emit_eq w.pushIndent body
    rw [apply, Fragment.lines, hbody]
    rfl
  | .comment text => by rw [apply, Fragment.lines]
  | .docComment text => by rw [apply, Fragment.lines]

theorem emit_eq (w : Writer) : (fs : List Fragment) → w.emit fs = w.pushLines (Fragment.linesOf w.level fs)
  | [] => by simp [emit, Fragment.linesOf, pushLines, Line.writeAll]
  | f :: rest => by
    have hrest := emit_eq (w.pushLines (f.lines w.level)) rest
    rw [emit, apply_eq w f, hrest, pushLines_pushLines, Fragment.linesOf]
    rfl

end

theorem text_eq (indent : Indent) (fs : List Fragment) :
    text indent fs = Line.writeAll indent.unit (Fragment.linesOf 0 fs) := by
  rw [text, emit_eq]
  exact String.empty_append

end Writer

/-! ### Text that is cut into lines again -/

namespace Text

theorem splitAt_eq_singleton {sep : Char} {cs : List Char} (h : sep ∉ cs) : splitAt sep cs = [cs] := by
  induction cs with
  | nil => rfl
  | cons c rest ih =>
    have hc : c ≠ sep := fun e => h (e ▸ List.mem_cons_self)
    have hrest : sep ∉ rest := fun m => h (List.mem_cons_of_mem _ m)
    simp [splitAt, hc, ih hrest]

theorem splitAt_append {sep : Char} {cs : List Char} (h : sep ∉ cs) (rest : List Char) :
    splitAt sep (cs ++ sep :: rest) = cs :: splitAt sep rest := by
  induction cs with
  | nil => simp [splitAt]
  | cons c cs ih =>
    have hc : c ≠ sep := fun e => h (e ▸ List.mem_cons_self)
    have hcs : sep ∉ cs := fun m => h (List.mem_cons_of_mem _ m)
    simp [splitAt, hc, ih hcs]

theorem splitAt_separator (sep : Char) (a b : List Char) :
    splitAt sep (a ++ sep :: b) = splitAt sep a ++ splitAt sep b := by
  induction a with
  | nil => simp [splitAt]
  | cons c a ih =>
    rw [List.cons_append, splitAt, splitAt, ih]
    split
    · rfl
    · obtain ⟨part, parts, h⟩ := List.exists_cons_of_ne_nil (splitAt_ne_nil sep a)
      rw [h]
      rfl

end Text

namespace Inline

theorem lines_ofText (base : Nat) (s : String) :
    (ofText s).lines base = (Text.physicalLines s).map (Line.mk base) := by
  have hparts : ∀ (current : String) (part : String) (parts : List String),
      linesFrom base ⟨base, current⟩ (piecesOf (part :: parts)) =
        ⟨base, current ++ part⟩ :: parts.map (Line.mk base) := by
    intro current part parts
    induction parts generalizing current part with
    | nil => rfl
    | cons next rest ih =>
      rw [piecesOf, linesFrom, linesFrom, Nat.add_zero, ih, String.empty_append, List.map_cons]
  obtain ⟨part, parts, h⟩ := List.exists_cons_of_ne_nil (Text.splitAt_ne_nil '\n' s.toList)
  rw [ofText, lines, Text.physicalLines, h, List.map_cons, hparts, String.empty_append, List.map_cons]

/-- Depths inside an inline text count from the level it starts at. -/
theorem lines_eq_deepen (base : Nat) (t : Inline) : t.lines base = (t.lines 0).map (Line.deepen base) := by
  have hfrom : ∀ (current : Line) (pieces : List Piece),
      linesFrom base (current.deepen base) pieces = (linesFrom 0 current pieces).map (Line.deepen base) := by
    intro current pieces
    induction pieces generalizing current with
    | nil => rfl
    | cons piece pieces ih =>
      cases piece with
      | text s => exact ih ⟨current.depth, current.text ++ s⟩
      | feed depth =>
        rw [linesFrom, linesFrom, List.map_cons, Nat.zero_add, ← ih]
        rfl
  exact hfrom ⟨0, ""⟩ t.pieces

theorem lines_ne_nil (base : Nat) (t : Inline) : t.lines base ≠ [] := by
  have hfrom : ∀ (current : Line) (pieces : List Piece), linesFrom base current pieces ≠ [] := by
    intro current pieces
    induction pieces generalizing current with
    | nil => simp [linesFrom]
    | cons piece pieces ih =>
      cases piece with
      | text s => exact ih _
      | feed depth => simp [linesFrom]
  exact hfrom _ _

/-- The physical lines of lines that are written together are these lines as they are written. -/
theorem physicalLines_writePieces {unit : String} (hunit : '\n' ∉ unit.toList) {lines : List Line} (hne : lines ≠ [])
    (h : ∀ line ∈ lines, '\n' ∉ line.text.toList) :
    Text.physicalLines (writePieces unit lines) = lines.map (Line.shown unit) := by
  induction lines with
  | nil => exact absurd rfl hne
  | cons line rest ih =>
    have hline : '\n' ∉ (line.shown unit).toList := Line.not_mem_shown hunit (h line (by simp))
    cases rest with
    | nil =>
      have hwrite : writePieces unit [line] = line.shown unit := rfl
      rw [hwrite, Text.physicalLines, Text.splitAt_eq_singleton hline]
      simp
    | cons next rest =>
      have hrest := ih (by simp) fun l hl => h l (List.mem_cons_of_mem _ hl)
      have hlist : (writePieces unit (line :: next :: rest)).toList =
          (line.shown unit).toList ++ '\n' :: (writePieces unit (next :: rest)).toList := by
        rw [writePieces, Line.write_eq]
        simp
      rw [Text.physicalLines, hlist, Text.splitAt_append hline, List.map_cons, String.ofList_toList, List.map_cons,
        ← hrest, Text.physicalLines]

/-- A text written early and laid out at level `n` as plain text gives the lines it has at that level. -/
theorem writeAll_ofText_write {unit : String} (hunit : '\n' ∉ unit.toList) {t : Inline}
    (h : ∀ line ∈ t.lines 0, '\n' ∉ line.text.toList) (n : Nat) :
    Line.writeAll unit ((ofText (t.write unit)).lines n) = Line.writeAll unit (t.lines n) := by
  rw [lines_ofText, write, physicalLines_writePieces hunit (lines_ne_nil 0 t) h, Line.writeAll_shown, ← lines_eq_deepen]

end Inline

theorem Indent.not_mem_unit (indent : Indent) : '\n' ∉ indent.unit.toList := by
  unfold unit
  split <;> decide

end SwiftForge
