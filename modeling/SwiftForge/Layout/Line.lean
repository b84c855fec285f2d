/-!
Lines of generated code: a depth and a text. The depth is turned into blanks only when a line is
written, so the same lines serve every indentation style.
-/

namespace SwiftForge

/-- One physical line, `depth` levels deep. -/
structure Line where
  depth : Nat
  text : String
deriving DecidableEq, Repr

namespace Line

/-- The indent unit once per level. -/
def leading (unit : String) : Nat → String
  | 0 => ""
  | n + 1 => unit ++ leading unit n

/-- A line as written: indentation, text and a line feed. A line without text gets no indentation. -/
def write (unit : String) (line : Line) : String :=
  if line.text.isEmpty then "\n" else leading unit line.depth ++ line.text ++ "\n"

/-- Lines written one after the other. -/
def writeAll (unit : String) : List Line → String
  | [] => ""
  | line :: rest => line.write unit ++ writeAll unit rest

theorem writeAll_append (unit : String) (a b : List Line) :
    writeAll unit (a ++ b) = writeAll unit a ++ writeAll unit b := by
  induction a with
  | nil => simp [writeAll]
  | cons line rest ih => simp [writeAll, ih, String.append_assoc]

end Line

end SwiftForge
