import SwiftForge.Toml.Scalar

/-!
Reading TOML documents.
-/

namespace SwiftForge.Toml

/-- The deepest nesting of arrays and tables in braces. -/
def nestingLimit : Nat := 80

/-- Skips a comment if there is one; controls may not stand in it. -/
def skipComment (cs : List Char) : Option (List Char) :=
  match cs with
  | '#' :: rest =>
    let body := rest.takeWhile fun c => c ≠ '\n' && c ≠ '\r'
    if body.any isForbidden then none else some (rest.dropWhile fun c => c ≠ '\n' && c ≠ '\r')
  | cs => some cs

/-- Skips blanks, comments and line feeds; the fuel is the length of the text. -/
def skipLines : Nat → List Char → Option (List Char)
  | 0, cs => some cs
  | fuel + 1, cs => do
    let cs ← skipComment (skipSpace cs)
    match lineFeed? cs with
    | some rest => skipLines fuel rest
    | none => some cs

def skipAll (cs : List Char) : Option (List Char) := skipLines (cs.length + 1) cs

mutual

/-- A value. The first argument is fuel, three for each character; the second is the nesting that is
still allowed. -/
def value : Nat → Nat → List Char → Option (Toml × List Char)
  | 0, _, _ => none
  | fuel + 1, depth, cs =>
    match cs with
    | '[' :: rest =>
      match depth with
      | 0 => none
      | depth + 1 => do
        let (items, rest) ← items fuel depth (← skipAll rest)
        pure (.array items, rest)
    | '\x7b' :: rest =>
      match depth with
      | 0 => none
      | depth + 1 => do
        let (entries, rest) ← pairs fuel depth [] (← skipAll rest)
        pure (.table .braces entries, rest)
    | cs =>
      match stringValue cs with
      | some scan => scan.map fun (s, rest) => (.string s, rest)
      | none =>
        let (w, rest) := word cs
        (wordValue? w).map fun v => (v, rest)

/-- The items of an array, up to its end. -/
def items : Nat → Nat → List Char → Option (List Toml × List Char)
  | 0, _, _ => none
  | _ + 1, _, ']' :: rest => some ([], rest)
  | fuel + 1, depth, cs => do
    let (item, rest) ← value fuel depth cs
    match ← skipAll rest with
    | ',' :: rest =>
      let (items, rest) ← items fuel depth (← skipAll rest)
      pure (item :: items, rest)
    | ']' :: rest => pure ([item], rest)
    | _ => none

/-- The pairs of a table in braces, up to its end, added to those before them. Line ends and comments
may stand between all its parts. -/
def pairs : Nat → Nat → Entries → List Char → Option (Entries × List Char)
  | 0, _, _, _ => none
  | _ + 1, _, entries, '\x7d' :: rest => some (entries, rest)
  | fuel + 1, depth, entries, cs => do
    let ((path, key), rest) ← dottedKey cs
    match ← skipAll rest with
    | '=' :: rest =>
      let (item, rest) ← value fuel depth (← skipAll rest)
      let entries ← insert path key item ⟨.header, entries⟩
      match ← skipAll rest with
      | ',' :: rest => pairs fuel depth entries (← skipAll rest)
      | '\x7d' :: rest => pure (entries, rest)
      | _ => none
    | _ => none

end

/-- A whole value with enough fuel. -/
def valueOf (cs : List Char) : Option (Toml × List Char) := value (3 * cs.length + 3) nestingLimit cs

/-- A document being read: its root and the table that pairs go to. -/
structure State where
  root : Entries := []
  header : List String := []

/-- The end of a line: blanks, a comment, and a line feed or the end of the text. -/
def endOfLine (cs : List Char) : Option (List Char) := do
  let cs ← skipComment (skipSpace cs)
  match cs with
  | [] => some []
  | cs => lineFeed? cs

/-- A header after its opening brackets. -/
def headerLine (isArray : Bool) (state : State) (cs : List Char) : Option (State × List Char) := do
  let ((path, key), rest) ← dottedKey (skipSpace cs)
  let header := path ++ [key]
  if isArray then
    match skipSpace rest with
    | ']' :: ']' :: rest => pure ({ root := ← openTables path key state.root, header }, rest)
    | _ => none
  else
    match skipSpace rest with
    | ']' :: rest => pure ({ root := ← openTable path key state.root, header }, rest)
    | _ => none

/-- One line of a document that is neither blank nor a comment. -/
def line (state : State) (cs : List Char) : Option (State × List Char) :=
  match cs with
  | '[' :: '[' :: rest => headerLine true state rest
  | '[' :: rest => headerLine false state rest
  | cs => do
    let ((path, key), rest) ← dottedKey cs
    match skipSpace rest with
    | '=' :: rest =>
      let (item, rest) ← valueOf (skipSpace rest)
      pure ({ state with root := ← insertUnder state.header path key item state.root }, rest)
    | _ => none

/-- The lines of a document; the fuel is the length of the text. -/
def readLines : Nat → State → List Char → Option Entries
  | 0, _, _ => none
  | fuel + 1, state, cs => do
    match ← skipAll cs with
    | [] => pure state.root
    | cs =>
      let (state, rest) ← line state cs
      readLines fuel state (← endOfLine rest)

/-- The root table of a document; a byte order mark in front is skipped. -/
def parse? (text : String) : Option Entries :=
  let cs :=
    match text.toList with
    | '\uFEFF' :: rest => rest
    | cs => cs
  readLines (cs.length + 1) {} cs

end SwiftForge.Toml
