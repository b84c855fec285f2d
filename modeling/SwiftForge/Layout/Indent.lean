/-!
How one level of indentation is written.
-/

namespace SwiftForge

/-- An indentation style: a number of spaces or a tab per level. -/
inductive Indent where
  | spaces (width : UInt8)
  | tab
deriving DecidableEq, Repr

namespace Indent

/-- Four spaces, the convention for Swift. -/
def swift : Indent := .spaces 4

instance : Inhabited Indent := ⟨swift⟩

/-- The text of one level. Widths other than 2, 3 and 8 are written as four spaces. -/
def unit : Indent → String
  | .spaces 2 => "  "
  | .spaces 3 => "   "
  | .spaces 8 => "        "
  | .spaces _ => "    "
  | .tab => "\t"

end Indent

end SwiftForge
