import SwiftForge.Proofs.Layout.Lines

/-! Blocks inside a line. An inline text with a body between an opening and a closing text has the lines of the opening
    text, those of the body one level deeper and those of the closing text; written out it is these texts with the
    written body between them, and a text around it that is cut into lines again gives the same lines. -/

namespace SwiftForge

/-! ### Cutting at line feeds -/

namespace Text

theorem physicalLines_feed (a b : String) : physicalLines (a ++ "\n" ++ b) = physicalLines a ++ physicalLines b := by
  have hlist : (a ++ "\n" ++ b).toList = a.toList ++ '\n' :: b.toList := by
    simp
  rw [physicalLines, hlist, splitAt_separator, List.map_append, physicalLines, physicalLines]

theorem physicalLines_eq_singleton {s : String} (h : '\n' ∉ s.toList) : physicalLines s = [s] := by
  rw [physicalLines, splitAt_eq_singleton h, List.map_singleton, String.ofList_toList]

/-- Lines that are written with their line feeds come apart into them and an empty rest. -/
theorem physicalLines_join {lines : List String} (h : ∀ line ∈ lines, '\n' ∉ line.toList) :
    physicalLines (String.join (lines.map (· ++ "\n"))) = lines ++ [""] := by
  induction lines with
  | nil => rfl
  | cons line lines ih =>
    obtain ⟨hline, hlines⟩ := List.forall_mem_cons.1 h
    rw [List.map_cons, String.join_cons, physicalLines_feed, physicalLines_eq_singleton hline, ih hlines]
    rfl

/-- A text is one line, or a line and a line feed in front of a shorter text. -/
theorem induct_lines {P : String → Prop} (one : ∀ line, '\n' ∉ line.toList → P line)
    (more : ∀ line rest, '\n' ∉ line.toList → P rest → P (line ++ "\n" ++ rest)) (s : String) : P s := by
  induction hlength : s.toList.length using Nat.strongRecOn generalizing s with
  | ind n ih =>
    by_cases hfeed : '\n' ∈ s.toList
    · obtain ⟨line, rest, hs, hline⟩ := List.eq_append_cons_of_mem hfeed
      have hparts : s = String.ofList line ++ "\n" ++ String.ofList rest := by
        rw [← String.toList_inj, hs]
        simp
      rw [hparts]
      refine more _ _ (by rwa [String.toList_ofList]) (ih _ ?_ _ rfl)
      rw [← hlength, hs, String.toList_ofList, List.length_append, List.length_cons]
      omega
    · exact one s hfeed

end Text

namespace Line

theorem write_zero (unit s : String) : write unit ⟨0, s⟩ = s ++ "\n" := by
  by_cases h : s = ""
  · simp [write, h]
  · simp [write, h, leading]

/-- The lines of a text at level zero, written one after the other, are the text. -/
theorem writeAll_physicalLines (unit s : String) :
    writeAll unit ((Text.physicalLines s).map (Line.mk 0)) = s ++ "\n" := by
  induction s using Text.induct_lines with
  | one line hline =>
    rw [Text.physicalLines_eq_singleton hline, List.map_singleton, writeAll, writeAll, write_zero, String.append_empty]
  | more line rest hline ih =>
    rw [Text.physicalLines_feed, Text.physicalLines_eq_singleton hline, List.singleton_append, List.map_cons, writeAll,
      ih, write_zero]
    simp only [String.append_assoc]

/-- What is written of lines comes apart into them, whatever follows. -/
theorem physicalLines_writeAll {unit : String} (hunit : '\n' ∉ unit.toList) {lines : List Line}
    (h : ∀ line ∈ lines, '\n' ∉ line.text.toList) (rest : String) :
    Text.physicalLines (writeAll unit lines ++ rest) = lines.map (shown unit) ++ Text.physicalLines rest := by
  induction lines with
  | nil => rw [writeAll, String.empty_append, List.map_nil, List.nil_append]
  | cons line lines ih =>
    obtain ⟨hline, hlines⟩ := List.forall_mem_cons.1 h
    rw [writeAll, write_eq, String.append_assoc, Text.physicalLines_feed, ih hlines,
      Text.physicalLines_eq_singleton (not_mem_shown hunit hline)]
    rfl

end Line

/-! ### Pieces of a text -/

namespace Inline

/-- Pieces that are what a text is cut into, maybe with some cuts between its line feeds. -/
inductive Spells : List Piece → String → Prop
  | nil : Spells [] ""
  | text {s r : String} {rest : List Piece} (hs : '\n' ∉ s.toList) (h : Spells rest r) :
    Spells (.text s :: rest) (s ++ r)
  | feed {r : String} {rest : List Piece} (h : Spells rest r) : Spells (.feed 0 :: rest) ("\n" ++ r)

theorem Spells.append {a b : List Piece} {s t : String} (ha : Spells a s) (hb : Spells b t) :
    Spells (a ++ b) (s ++ t) := by
  induction ha with
  | nil => rwa [String.empty_append]
  | text hs _ ih =>
    rw [String.append_assoc]
    exact .text hs ih
  | feed _ ih =>
    rw [String.append_assoc]
    exact .feed ih

theorem pieces_ofText_feed {line : String} (hline : '\n' ∉ line.toList) (rest : String) :
    (ofText (line ++ "\n" ++ rest)).pieces = .text line :: .feed 0 :: (ofText rest).pieces := by
  simp only [ofText, Text.physicalLines_feed, Text.physicalLines_eq_singleton hline, List.singleton_append]
  obtain ⟨part, parts, h⟩ := List.exists_cons_of_ne_nil (Text.splitAt_ne_nil '\n' rest.toList)
  rw [Text.physicalLines, h]
  rfl

theorem spells_ofText (s : String) : Spells (ofText s).pieces s := by
  induction s using Text.induct_lines with
  | one line hline =>
    have hpieces : (ofText line).pieces = [.text line] := by
      rw [ofText, Text.physicalLines_eq_singleton hline, piecesOf]
    have h := Spells.text hline .nil
    rwa [String.append_empty, ← hpieces] at h
  | more line rest hline ih =>
    rw [pieces_ofText_feed hline, String.append_assoc]
    exact .text hline (.feed ih)

theorem Spells.linesFrom_eq {pieces : List Piece} {r : String} (h : Spells pieces r) (base : Nat) {current : String}
    (hcurrent : '\n' ∉ current.toList) :
    linesFrom base ⟨base, current⟩ pieces = (Text.physicalLines (current ++ r)).map (Line.mk base) := by
  induction h generalizing current with
  | nil => rw [linesFrom, String.append_empty, Text.physicalLines_eq_singleton hcurrent, List.map_singleton]
  | text hs _ ih =>
    rw [linesFrom, ih (by simp [hcurrent, hs]), String.append_assoc]
  | feed _ ih =>
    rw [linesFrom, Nat.add_zero, ih (by simp), ← String.append_assoc, Text.physicalLines_feed,
      Text.physicalLines_eq_singleton hcurrent, String.empty_append]
    rfl

theorem Spells.lines_eq {t : Inline} {s : String} (h : Spells t.pieces s) (base : Nat) :
    t.lines base = (Text.physicalLines s).map (Line.mk base) := by
  rw [lines, h.linesFrom_eq base (by simp), String.empty_append]

/-! ### Blocks -/

theorem linesFrom_feed (base depth : Nat) (current : Line) (a b : List Piece) :
    linesFrom base current (a ++ .feed depth :: b) =
      linesFrom base current a ++ linesFrom base ⟨base + depth, ""⟩ b := by
  induction a generalizing current with
  | nil => rfl
  | cons piece a ih =>
    cases piece with
    | text s => exact ih _
    | feed d => rw [List.cons_append, linesFrom, linesFrom, ih, List.cons_append]

/-- The pieces of lines that stand one level deeper. -/
def bodyPieces (lines : List Line) : List Piece := lines.flatMap fun line => [.feed (line.depth + 1), .text line.text]

theorem pieces_block (opening : Inline) (lines : List Line) (closing : Inline) :
    (block opening lines closing).pieces = opening.pieces ++ bodyPieces lines ++ .feed 0 :: closing.pieces := by
  change opening.pieces ++ bodyPieces lines ++ [.feed 0] ++ closing.pieces = _
  rw [List.append_assoc _ [Piece.feed 0], List.singleton_append]

theorem linesFrom_body (base : Nat) (current : Line) (before : List Piece) (lines : List Line) (after : List Piece) :
    linesFrom base current (before ++ bodyPieces lines ++ .feed 0 :: after) =
      linesFrom base current before ++ lines.map (Line.deepen (base + 1)) ++ linesFrom base ⟨base, ""⟩ after := by
  induction lines generalizing current before with
  | nil =>
    rw [bodyPieces, List.flatMap_nil, List.append_nil, linesFrom_feed, List.map_nil, List.append_nil, Nat.add_zero]
  | cons line lines ih =>
    have hline : linesFrom base ⟨base + (line.depth + 1), ""⟩ [.text line.text] = [line.deepen (base + 1)] := by
      simp only [linesFrom, String.empty_append, Line.deepen]
      rw [Nat.add_assoc, Nat.add_comm 1]
    have hpieces : before ++ bodyPieces (line :: lines) ++ .feed 0 :: after =
        before ++ .feed (line.depth + 1) :: ([.text line.text] ++ bodyPieces lines ++ .feed 0 :: after) := by
      simp [bodyPieces]
    rw [hpieces, linesFrom_feed, ih, hline]
    simp

/-- The lines of a block: the opening text, the body one level deeper, the closing text. -/
theorem lines_block (base : Nat) (opening : Inline) (body : List Line) (closing : Inline) :
    (block opening body closing).lines base =
      opening.lines base ++ body.map (Line.deepen (base + 1)) ++ closing.lines base := by
  rw [lines, pieces_block, linesFrom_body]
  rfl

/-- Texts around a block belong to its opening and closing texts. -/
theorem append_block_append (a opening : Inline) (body : List Line) (closing b : Inline) :
    a ++ block opening body closing ++ b = block (a ++ opening) body (closing ++ b) := by
  change (⟨_⟩ : Inline) = ⟨_⟩
  simp only [block, Inline.mk.injEq]
  change a.pieces ++ (opening.pieces ++ _ ++ _ ++ closing.pieces) ++ b.pieces =
    a.pieces ++ opening.pieces ++ _ ++ _ ++ (closing.pieces ++ b.pieces)
  simp only [List.append_assoc]

theorem writePieces_zero (unit s : String) : writePieces unit [⟨0, s⟩] = s := by
  by_cases h : s = ""
  · simp [writePieces, h]
  · simp [writePieces, h, Line.leading]

theorem writePieces_append (unit : String) (before : List Line) {lines : List Line} (h : lines ≠ []) :
    writePieces unit (before ++ lines) = Line.writeAll unit before ++ writePieces unit lines := by
  induction before with
  | nil => rw [List.nil_append, Line.writeAll, String.empty_append]
  | cons line before ih =>
    obtain ⟨next, rest, hrest⟩ := List.exists_cons_of_ne_nil (List.append_ne_nil_of_right_ne_nil before h)
    rw [List.cons_append, hrest, writePieces, ← hrest, ih, Line.writeAll, String.append_assoc]

end Inline

end SwiftForge
