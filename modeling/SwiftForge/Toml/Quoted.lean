import SwiftForge.Json.Reading

/-!
TOML strings and keys.
-/

namespace SwiftForge.Toml

def isSpace (c : Char) : Bool := c == ' ' || c == '\t'

def skipSpace (cs : List Char) : List Char := cs.dropWhile isSpace

/-- Controls that may not stand in strings and comments. -/
def isForbidden (c : Char) : Bool := (c.toNat < 0x20 && c != '\t') || c.toNat == 0x7f

/-! ### Strings -/

/-- The number of hexadecimal digits. -/
def hexNumber? : List Char → Option Nat
  | [] => some 0
  | cs => cs.foldlM (fun n c => (Reading.hexValue? c).map (n * 16 + ·)) 0

/-- The character of a code point. -/
def charOf? (n : Nat) : Option Char := if n.isValidChar then some (Char.ofNat n) else none

/-- The character of an escape of `width` hexadecimal digits. -/
def hexEscape (width : Nat) (cs : List Char) : Option (Char × List Char) := do
  let digits := cs.take width
  if digits.length < width then none
  else
    let c ← (hexNumber? digits).bind charOf?
    pure (c, cs.drop width)

/-- The character of an escape, after the backslash. -/
def escape : List Char → Option (Char × List Char)
  | 'b' :: rest => some ('\x08', rest)
  | 't' :: rest => some ('\t', rest)
  | 'n' :: rest => some ('\n', rest)
  | 'f' :: rest => some ('\x0c', rest)
  | 'r' :: rest => some ('\r', rest)
  | 'e' :: rest => some ('\x1b', rest)
  | '"' :: rest => some ('"', rest)
  | '\\' :: rest => some ('\\', rest)
  | 'x' :: rest => hexEscape 2 rest
  | 'u' :: rest => hexEscape 4 rest
  | 'U' :: rest => hexEscape 8 rest
  | _ => none

/-- The rest of a basic string. The fuel is the length of the text. -/
def basicString : Nat → List Char → Option (List Char × List Char)
  | 0, _ => none
  | fuel + 1, cs =>
    match cs with
    | '"' :: rest => some ([], rest)
    | '\\' :: rest => do
      let (c, rest) ← escape rest
      let (text, rest) ← basicString fuel rest
      pure (c :: text, rest)
    | c :: rest => do
      if isForbidden c then none
      let (text, rest) ← basicString fuel rest
      pure (c :: text, rest)
    | [] => none

/-- The rest of a literal string. -/
def literalString : List Char → Option (List Char × List Char)
  | '\'' :: rest => some ([], rest)
  | c :: rest => do
    if isForbidden c then none
    let (text, rest) ← literalString rest
    pure (c :: text, rest)
  | [] => none

/-- A line feed, alone or after a carriage return. -/
def lineFeed? : List Char → Option (List Char)
  | '\n' :: rest => some rest
  | '\r' :: '\n' :: rest => some rest
  | _ => none

/-- Drops a line feed in front. -/
def dropLineFeed (cs : List Char) : List Char := (lineFeed? cs).getD cs

/-- Drops blanks and line feeds in front; the fuel is the length of the text. -/
def dropBlankLines : Nat → List Char → List Char
  | 0, cs => cs
  | fuel + 1, cs =>
    match lineFeed? cs with
    | some rest => dropBlankLines fuel rest
    | none =>
      match cs with
      | c :: rest => if isSpace c then dropBlankLines fuel rest else cs
      | [] => []

/-- The quotes at the end of a string of several lines: three close it, and up to two before them
belong to it. -/
def closingQuotes (quote : Char) (cs : List Char) : Option (List Char × List Char) :=
  let run := (cs.takeWhile (· == quote)).length
  if run < 3 then none
  else
    let inside := min (run - 3) 2
    some (List.replicate inside quote, cs.drop (inside + 3))

/-- The rest of a basic string of several lines. Line ends stay as they are written; a backslash before
one skips to the next character that is no blank. -/
def longBasicString : Nat → List Char → Option (List Char × List Char)
  | 0, _ => none
  | fuel + 1, cs =>
    match closingQuotes '"' cs with
    | some done => some done
    | none =>
      match cs with
      | '\\' :: rest =>
        match lineFeed? (skipSpace rest) with
        | some after => longBasicString fuel (dropBlankLines after.length after)
        | none => do
          let (c, rest) ← escape rest
          let (text, rest) ← longBasicString fuel rest
          pure (c :: text, rest)
      | c :: rest => do
        if isForbidden c && (lineFeed? cs).isNone then none
        let (text, rest) ← longBasicString fuel rest
        pure (c :: text, rest)
      | [] => none

/-- The rest of a literal string of several lines. Line ends stay as they are written. -/
def longLiteralString : Nat → List Char → Option (List Char × List Char)
  | 0, _ => none
  | fuel + 1, cs =>
    match closingQuotes '\'' cs with
    | some done => some done
    | none =>
      match cs with
      | c :: rest => do
        if isForbidden c && (lineFeed? cs).isNone then none
        let (text, rest) ← longLiteralString fuel rest
        pure (c :: text, rest)
      | [] => none

/-- A string value of any sort. The outer `none` says that there is no string here, the inner one that
it is malformed. -/
def stringValue (cs : List Char) : Option (Option (String × List Char)) :=
  let text (s : Option (List Char × List Char)) : Option (String × List Char) :=
    s.map fun (cs, rest) => (String.ofList cs, rest)
  match cs with
  | '"' :: '"' :: '"' :: rest =>
    some (text (longBasicString (rest.length + 1) (dropLineFeed rest)))
  | '"' :: rest => some (text (basicString (rest.length + 1) rest))
  | '\'' :: '\'' :: '\'' :: rest =>
    some (text (longLiteralString (rest.length + 1) (dropLineFeed rest)))
  | '\'' :: rest => some (text (literalString rest))
  | _ => none

/-! ### Keys -/

/-- Characters of keys without quotes. -/
def isBareKeyChar (c : Char) : Bool := c.isAlphanum || c == '_' || c == '-'

def simpleKey (cs : List Char) : Option (String × List Char) :=
  match cs with
  | '"' :: rest => (basicString (rest.length + 1) rest).map fun (k, rest) => (String.ofList k, rest)
  | '\'' :: rest => (literalString rest).map fun (k, rest) => (String.ofList k, rest)
  | cs =>
    let key := cs.takeWhile isBareKeyChar
    if key.isEmpty then none else some (String.ofList key, cs.dropWhile isBareKeyChar)

/-- The most parts of a key with dots. -/
def partLimit : Nat := 80

/-- A key with the keys before its dots, of at most `limit` parts. -/
def keyWithin (limit : Nat) (cs : List Char) : Option ((List String × String) × List Char) :=
  match limit with
  | 0 => none
  | limit + 1 => do
    let (key, rest) ← simpleKey cs
    match skipSpace rest with
    | '.' :: rest =>
      let ((path, last), rest) ← keyWithin limit (skipSpace rest)
      pure ((key :: path, last), rest)
    | rest => pure (([], key), rest)

/-- A key with the keys before its dots. -/
def dottedKey (cs : List Char) : Option ((List String × String) × List Char) := keyWithin partLimit cs

end SwiftForge.Toml
