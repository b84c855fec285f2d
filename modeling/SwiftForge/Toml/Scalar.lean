import SwiftForge.Toml.Moment
import SwiftForge.Toml.Quoted

/-!
TOML values without quotes and brackets.
-/

namespace SwiftForge.Toml

/-- Characters that a value without quotes ends before. -/
def endsWord (c : Char) : Bool :=
  isSpace c || c ∈ ['\n', '\r', '#', ',', '=', '[', ']', '\x7b', '\x7d', '"', '\'']

/-- A word in front; a date and a time may have one space between them. -/
def word (cs : List Char) : List Char × List Char :=
  let first := cs.takeWhile (!endsWord ·)
  match cs.dropWhile (!endsWord ·) with
  | ' ' :: d :: rest =>
    if d.isDigit && date? first == some [] then
      (first ++ ' ' :: (d :: rest).takeWhile (!endsWord ·), (d :: rest).dropWhile (!endsWord ·))
    else (first, ' ' :: d :: rest)
  | rest => (first, rest)

/-- The value of a word: a truth value, a date or time, or a number. -/
def wordValue? (w : List Char) : Option Toml :=
  if w == "true".toList then some (.boolean true)
  else if w == "false".toList then some (.boolean false)
  else if isDatetime w then some .datetime
  else number? w

end SwiftForge.Toml
