import SwiftForge.Text.Lines
import SwiftForge.Layout.Line

/-!
Inline text: what an expression contributes to the line it stands on. It may run over several
lines, as a closure with a body does; the lines after the first carry a depth of their own,
counted from the depth of the line on which the text starts.
-/

namespace SwiftForge

/-- A stretch of text on one line, or a line feed that puts what follows on a line of its own. -/
inductive Piece where
  | text (text : String)
  | feed (depth : Nat)
deriving DecidableEq, Repr

/-- A sequence of pieces. Gluing two inline texts is appending their pieces. -/
structure Inline where
  pieces : List Piece
deriving DecidableEq, Repr

namespace Inline

instance : Append Inline := ⟨fun a b => ⟨a.pieces ++ b.pieces⟩⟩

instance : EmptyCollection Inline := ⟨⟨[]⟩⟩

/-- Pieces of the parts of an authored text, a feed between neighbours. -/
def piecesOf : List String → List Piece
  | [] => []
  | [s] => [.text s]
  | s :: t :: rest => .text s :: .feed 0 :: piecesOf (t :: rest)

/-- Authored text: each of its line feeds starts a line at the depth of the first. -/
def ofText (s : String) : Inline := ⟨piecesOf (Text.physicalLines s)⟩

instance : Coe String Inline := ⟨ofText⟩

/-- Glues inline texts with a separator between neighbours. -/
def joinWith (sep : String) : List Inline → Inline
  | [] => ∅
  | [t] => t
  | t :: u :: rest => t ++ ofText sep ++ joinWith sep (u :: rest)

/-- Lines that stand one level deeper between an opening and a closing text. -/
def block (opening : Inline) (body : List Line) (closing : Inline) : Inline :=
  opening ++ ⟨body.flatMap fun line => [.feed (line.depth + 1), .text line.text]⟩ ++
    ⟨[.feed 0]⟩ ++ closing

/-- The lines of a sequence of pieces, given the line that is being filled. -/
def linesFrom (base : Nat) : Line → List Piece → List Line
  | current, [] => [current]
  | current, .text s :: rest => linesFrom base ⟨current.depth, current.text ++ s⟩ rest
  | current, .feed depth :: rest => current :: linesFrom base ⟨base + depth, ""⟩ rest

/-- The lines of an inline text that starts a line at depth `base`. -/
def lines (base : Nat) (t : Inline) : List Line :=
  linesFrom base ⟨base, ""⟩ t.pieces

/-- An inline text on its own, as it reads at depth zero, without a final line feed. -/
def writePieces (unit : String) : List Line → String
  | [] => ""
  | [line] => if line.text.isEmpty then "" else Line.leading unit line.depth ++ line.text
  | line :: next :: rest => line.write unit ++ writePieces unit (next :: rest)

/-- The text of an inline text that stands alone. -/
def write (unit : String) (t : Inline) : String := writePieces unit (t.lines 0)

end Inline

end SwiftForge
