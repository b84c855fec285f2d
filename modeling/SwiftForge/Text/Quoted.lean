import SwiftForge.Text.Hidden

/-!
Quoting text for diagnostics: in double quotes, on one line, with every character that would not
show named by its number.
-/

namespace SwiftForge.Text

/-- The digit characters of a number in base sixteen, in lower case. -/
def hexDigits (n : Nat) : List Char := Nat.toDigits 16 n

/-- A character by its number: `\u{hex}`. -/
def numbered (c : Char) : List Char := "\\u\x7b".toList ++ hexDigits c.toNat ++ "\x7d".toList

/-- A character as it stands between the quotes. -/
def quotedChar (c : Char) : List Char :=
  match c with
  | '"' => ['\\', '"']
  | '\\' => ['\\', '\\']
  | '\n' => ['\\', 'n']
  | '\r' => ['\\', 'r']
  | '\t' => ['\\', 't']
  | '\x00' => ['\\', '0']
  | c => if isHidden c then numbered c else [c]

/-- A text in double quotes. -/
def quoted (s : String) : String :=
  String.ofList ('"' :: s.toList.flatMap quotedChar ++ ['"'])

end SwiftForge.Text
