/-!
Blank characters: the Unicode property White_Space, trimming and splitting at blanks.
-/

namespace SwiftForge.Text

/-- The 25 characters with the property White_Space. -/
def isBlank (c : Char) : Bool :=
  let n := c.toNat
  (0x09 ≤ n && n ≤ 0x0d) || n == 0x20 || n == 0x85 || n == 0xa0 || n == 0x1680 ||
    (0x2000 ≤ n && n ≤ 0x200a) || n == 0x2028 || n == 0x2029 || n == 0x202f || n == 0x205f ||
    n == 0x3000

/-- A control character: U+0000 to U+001F and U+007F to U+009F. -/
def isControl (c : Char) : Bool :=
  let n := c.toNat
  n < 0x20 || (0x7f ≤ n && n ≤ 0x9f)

/-- Without the blanks in front. -/
def trimStart (cs : List Char) : List Char := cs.dropWhile isBlank

/-- Without the characters at the end that satisfy `p`. -/
def dropEndWhile (p : Char → Bool) (cs : List Char) : List Char :=
  (cs.reverse.dropWhile p).reverse

/-- Without the blanks at the end. -/
def trimEnd (cs : List Char) : List Char := dropEndWhile isBlank cs

/-- Without the blanks at either end. -/
def trim (cs : List Char) : List Char := trimEnd (trimStart cs)

/-- The longest runs of characters that do not satisfy `p`, given the run that is being read. -/
def runsFrom (p : Char → Bool) : List Char → List Char → List (List Char)
  | [], [] => []
  | run, [] => [run.reverse]
  | [], c :: rest => if p c then runsFrom p [] rest else runsFrom p [c] rest
  | d :: run, c :: rest =>
    if p c then (d :: run).reverse :: runsFrom p [] rest else runsFrom p (c :: d :: run) rest

/-- The words of a text: its longest runs without blanks. -/
def words (cs : List Char) : List (List Char) := runsFrom isBlank [] cs

end SwiftForge.Text
