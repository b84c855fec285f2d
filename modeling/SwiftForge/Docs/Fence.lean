import SwiftForge.Text.Blank

/-!
Code fences of Markdown documents.
-/

namespace SwiftForge.Docs

/-- A line of at least three backticks or tildes, and the info that follows them. -/
structure Fence where
  marker : Char
  width : Nat
  info : List Char
deriving DecidableEq, Repr

namespace Fence

/-- Characters that fences are made of. -/
def isMarker (c : Char) : Bool := c == '\x60' || c == '~'

/-- A line as a fence: at most three spaces, at least three markers of one sort, and an info, which
after backticks holds none. -/
def ofLine? (line : List Char) : Option Fence :=
  let indent := line.takeWhile (· == ' ')
  match line.dropWhile (· == ' ') with
  | [] => none
  | marker :: rest =>
    let width := 1 + (rest.takeWhile (· == marker)).length
    let info := Text.trim (rest.dropWhile (· == marker))
    if indent.length > 3 then none
    else if !isMarker marker then none
    else if width < 3 then none
    else if marker == '\x60' && info.contains '\x60' then none
    else some { marker, width, info }

/-- Whether a line ends the block that the fence opens: a fence of the same marker, at least as wide,
without an info. -/
def isClosedBy (open_ : Fence) (line : List Char) : Bool :=
  match ofLine? line with
  | some close => close.marker == open_.marker && open_.width ≤ close.width && close.info.isEmpty
  | none => false

end Fence

end SwiftForge.Docs
