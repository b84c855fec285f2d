import SwiftForge.Json.Reading
import SwiftForge.Toml.Table

/-!
TOML numbers. Whether a word has the shape of a number is one question; whether the number has a value
that can be held is another, and only matters where the number is read.
-/

namespace SwiftForge.Toml

/-- The sign of a number. -/
inductive Sign where
  | plus
  | minus
deriving DecidableEq, Repr

def splitSign : List Char → Option Sign × List Char
  | '+' :: rest => (some .plus, rest)
  | '-' :: rest => (some .minus, rest)
  | cs => (none, cs)

/-- A number with a sign. -/
def signed (sign : Option Sign) (n : Nat) : Int := if sign = some .minus then -n else n

/-- Whether every underscore has a digit on both sides, given whether a digit stands before the text. -/
def underscoresFitAfter (isDigit : Char → Bool) (before : Bool) : List Char → Bool
  | [] => true
  | ['_'] => false
  | '_' :: c :: rest => before && isDigit c && underscoresFitAfter isDigit true rest
  | c :: rest => underscoresFitAfter isDigit (isDigit c) rest

/-- Whether every underscore has a digit on both sides. -/
def underscoresFit (isDigit : Char → Bool) (cs : List Char) : Bool :=
  underscoresFitAfter isDigit false cs

/-! ### Integers -/

/-- Whether a character is a digit in a base of at most sixteen. -/
def isDigitIn (base : Nat) (c : Char) : Bool := (Reading.hexValue? c).any (· < base)

/-- The number of digits in a base. -/
def numberIn (base : Nat) (digits : List Char) : Nat :=
  digits.foldl (fun n c => n * base + (Reading.hexValue? c).getD 0) 0

/-- The integer of digits in a base, underscores left out. It is unreadable without a digit, with
anything that is no digit of the base, and beyond 128 bits. -/
def integerOf (base : Nat) (sign : Option Sign) (cs : List Char) : Toml :=
  let digits := cs.filter (· ≠ '_')
  let n := signed sign (numberIn base digits)
  if !digits.isEmpty && digits.all (isDigitIn base)
      && decide (-(Nat.pow 2 127 : Int) ≤ n ∧ n < (Nat.pow 2 128 : Int)) then
    .integer n
  else .unreadable

/-- An integer in a base other than ten, after the mark of the base. -/
def basedInteger? (base : Nat) (cs : List Char) : Option Toml :=
  if cs.all (fun c => isDigitIn base c || c == '_') && underscoresFit (isDigitIn base) cs then
    some (integerOf base none cs)
  else none

/-- A decimal integer after its sign: no superfluous zero in front. Behind an underscore only the
characters beside underscores are looked at, and those may be digits of base sixteen; a word that is
let through in this way is unreadable. -/
def decimalInteger? (sign : Option Sign) (cs : List Char) : Option Toml :=
  match cs, cs.dropWhile Char.isDigit with
  | ['0'], _ => some (.integer 0)
  | [], _ | '0' :: _, _ => none
  | cs, [] | cs, '_' :: _ =>
    if underscoresFit (isDigitIn 16) cs then some (integerOf 10 sign cs) else none
  | _, _ => none

/-! ### Floats -/

/-- The digits in front, with underscores among them; there must be one. -/
def digitRun? (cs : List Char) : Option (List Char × List Char) :=
  let isPart (c : Char) : Bool := c.isDigit || c == '_'
  let digits := (cs.takeWhile isPart).filter Char.isDigit
  if digits.isEmpty then none else some (digits, cs.dropWhile isPart)

/-- The fraction in front, if there is one. -/
def fraction? : List Char → Option (List Char × List Char)
  | '.' :: rest => digitRun? rest
  | cs => some ([], cs)

/-- The exponent that is the whole of a text; an empty one is zero. -/
def exponent? : List Char → Option Int
  | [] => some 0
  | c :: rest =>
    let (sign, rest) := splitSign rest
    match digitRun? rest with
    | some (digits, []) =>
      if c == 'e' || c == 'E' then some (signed sign (numberIn 10 digits)) else none
    | _ => none

/-- A float after its sign: digits without a superfluous zero in front, a fraction and an exponent. It
is unreadable beyond the doubles. -/
def float? (cs : List Char) : Option Toml := do
  let (whole, rest) ← digitRun? cs
  let (fraction, rest) ← fraction? rest
  let exponent ← exponent? rest
  if cs.head? = some '0' ∧ 1 < whole.length then none
  else if underscoresFit Char.isDigit cs then
    let value := Double.ofDecimal false (numberIn 10 (whole ++ fraction)) (exponent - fraction.length)
    some (if value.isFinite then .float else .unreadable)
  else none

/-- The words for values beyond numbers. -/
def specialFloats : List (List Char) := ["inf".toList, "nan".toList]

/-- A number; the marks of a fraction or an exponent after the digits in front make it a float. -/
def number? (word : List Char) : Option Toml :=
  match word with
  | '0' :: 'x' :: rest => basedInteger? 16 rest
  | '0' :: 'o' :: rest => basedInteger? 8 rest
  | '0' :: 'b' :: rest => basedInteger? 2 rest
  | word =>
    let (sign, body) := splitSign word
    if body ∈ specialFloats then some .float
    else if (body.dropWhile Char.isDigit).any fun c => c == '.' || c == 'e' || c == 'E' then
      float? body
    else decimalInteger? sign body

end SwiftForge.Toml
