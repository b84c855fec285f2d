import SwiftForge.Decimal.Format
import SwiftForge.Text.Lines

/-!
JSON values and their compact text: no blanks, members in the order given, every character above
the controls as it is.
-/

namespace SwiftForge

inductive Json where
  | null
  | bool (value : Bool)
  | integer (value : Int)
  | float (value : Double)
  | string (value : String)
  | array (items : List Json)
  | object (members : List (String × Json))

namespace Json

/-- JSON floats are positional from `0.00001` up to `10 ^ 16` and keep a fraction digit there; a
positive exponent has a sign, and a tie between two shortest decimals goes to the even digit. -/
def floatFormat : Decimal.Format := { low := -5, high := 16, plus := "+", tie := .toEven }

/-- A double in JSON text; there is no spelling for one that is not finite. -/
def floatText (d : Double) : String :=
  match d.view with
  | .finite negative significand exponent => floatFormat.finite negative significand exponent
  | _ => "null"

/-- A digit of base sixteen in lower case. -/
def hexDigit (n : Nat) : Char := Nat.digitChar (n % 16)

/-- A character inside a JSON string. -/
def escapedChar (c : Char) : List Char :=
  match c with
  | '"' => ['\\', '"']
  | '\\' => ['\\', '\\']
  | '\x08' => ['\\', 'b']
  | '\x0c' => ['\\', 'f']
  | '\n' => ['\\', 'n']
  | '\r' => ['\\', 'r']
  | '\t' => ['\\', 't']
  | c =>
    if c.toNat < 0x20 then ['\\', 'u', '0', '0', hexDigit (c.toNat / 16), hexDigit c.toNat] else [c]

/-- A text as a JSON string. -/
def stringText (s : String) : String :=
  String.ofList ('"' :: s.toList.flatMap escapedChar ++ ['"'])

mutual

/-- The compact text of a value. -/
def text : Json → String
  | .null => "null"
  | .bool true => "true"
  | .bool false => "false"
  | .integer value => Decimal.intText value
  | .float value => floatText value
  | .string value => stringText value
  | .array items => "[" ++ Text.joinWith "," (itemTexts items) ++ "]"
  | .object members => "\x7b" ++ Text.joinWith "," (memberTexts members) ++ "\x7d"

def itemTexts : List Json → List String
  | [] => []
  | item :: rest => item.text :: itemTexts rest

/-- The texts of members: a key, a colon and a value. -/
def memberTexts : List (String × Json) → List String
  | [] => []
  | (key, value) :: rest => (stringText key ++ ":" ++ value.text) :: memberTexts rest

end

end Json

end SwiftForge
