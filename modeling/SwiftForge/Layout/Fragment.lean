import SwiftForge.Layout.Inline

/-!
Fragments: pieces of generated code before indentation is applied, and the lines they stand for.
-/

namespace SwiftForge

/-- A piece of generated code. -/
inductive Fragment where
  /-- A line of code; text that runs over several lines is kept together. -/
  | line (text : Inline)
  | blank
  /-- A header, a body one level deeper, and a closing line unless what follows closes the block. -/
  | block (header : Inline) (body : List Fragment) (close : Option Inline)
  | indented (body : List Fragment)
  /-- A `//` comment. -/
  | comment (text : String)
  /-- A `///` comment. -/
  | docComment (text : String)

namespace Fragment

/-- A block closed by a brace. -/
def braced (header : Inline) (body : List Fragment) : Fragment :=
  .block header body (some (Inline.ofText "\x7d"))

/-- Blocks whose headers close the block before them, as in an `else` chain; the last block is
closed by a brace of its own. -/
def chain : List (Inline × List Fragment) → List Fragment
  | [] => []
  | [(header, body)] => [.braced header body]
  | (header, body) :: next :: rest => .block header body none :: chain (next :: rest)

/-- The text of a comment: the mark, then a blank and the authored text if there is any. -/
def commentText (mark text : String) : String :=
  if text.isEmpty then mark else mark ++ " " ++ text

/-- The lines of a comment. The mark and its indentation stand on the first line only: further
physical lines of the text are written as they are. -/
def commentLines (depth : Nat) (mark text : String) : List Line :=
  match Text.physicalLines (commentText mark text) with
  | [] => []
  | first :: rest => ⟨depth, first⟩ :: rest.map fun s => ⟨0, s⟩

/-- One `//` fragment for each physical line of a text. -/
def comments (text : String) : List Fragment := (Text.physicalLines text).map .comment

/-- One `///` fragment for each physical line of a text. -/
def docComments (text : String) : List Fragment := (Text.physicalLines text).map .docComment

mutual

/-- The lines of a fragment that stands at a given depth. -/
def lines (depth : Nat) : Fragment → List Line
  | .line text => text.lines depth
  | .blank => [⟨0, ""⟩]
  | .block header body close =>
    header.lines depth ++ linesOf (depth + 1) body ++
      match close with
      | some text => text.lines depth
      | none => []
  | .indented body => linesOf (depth + 1) body
  | .comment text => commentLines depth "//" text
  | .docComment text => commentLines depth "///" text

/-- The lines of fragments in order. -/
def linesOf (depth : Nat) : List Fragment → List Line
  | [] => []
  | f :: rest => f.lines depth ++ linesOf depth rest

end

end Fragment

end SwiftForge
