import SwiftForge.Layout.Indent
import SwiftForge.Layout.Fragment

/-!
The writer: a buffer that grows line by line at a current indentation level.
-/

namespace SwiftForge

/-- An indentation style, the current level and the text written so far. -/
structure Writer where
  indent : Indent
  level : Nat := 0
  buffer : String := ""

namespace Writer

/-- Appends lines as they are. -/
def pushLines (w : Writer) (lines : List Line) : Writer :=
  { w with buffer := w.buffer ++ Line.writeAll w.indent.unit lines }

/-- Adds a text at the current level; each of its lines is indented. -/
def pushLine (w : Writer) (text : Inline) : Writer := w.pushLines (text.lines w.level)

def pushBlank (w : Writer) : Writer := w.pushLines [⟨0, ""⟩]

def pushIndent (w : Writer) : Writer := { w with level := w.level + 1 }

/-- Goes one level back; level zero stays. -/
def pushDedent (w : Writer) : Writer := { w with level := w.level - 1 }

mutual

def apply (w : Writer) : Fragment → Writer
  | .line text => w.pushLine text
  | .blank => w.pushBlank
  | .block header body close =>
    let inside := (((w.pushLine header).pushIndent).emit body).pushDedent
    match close with
    | some text => inside.pushLine text
    | none => inside
  | .indented body => ((w.pushIndent).emit body).pushDedent
  | .comment text => w.pushLines (Fragment.commentLines w.level "//" text)
  | .docComment text => w.pushLines (Fragment.commentLines w.level "///" text)

def emit (w : Writer) : List Fragment → Writer
  | [] => w
  | f :: rest => (w.apply f).emit rest

end

/-- The text of fragments written from level zero. -/
def text (indent : Indent) (fragments : List Fragment) : String :=
  (Writer.emit { indent := indent } fragments).buffer

end Writer

end SwiftForge
