import SwiftForge.Decimal.Shortest

/-!
Writing doubles as decimal text. The digits come from the shortest decimal; a format says where
positional notation ends and how an exponent looks.
-/

namespace SwiftForge.Decimal

/-- The decisions of a decimal text format. -/
structure Format where
  /-- Magnitudes from `10 ^ low` on are positional. -/
  low : Int
  /-- Magnitudes from `10 ^ high` on have an exponent. -/
  high : Int
  /-- What stands before a positive exponent. -/
  plus : String
  tie : Tie

/-- The digits of a natural number. -/
def digitChars (n : Nat) : List Char := Nat.toDigits 10 n

def intText : Int → String
  | .ofNat n => String.ofList (digitChars n)
  | .negSucc n => "-" ++ String.ofList (digitChars (n + 1))

/-- Digits with the point after the first `point` of them; missing digits are zeros, and a
fraction digit is always written. -/
def positional (digits : List Char) (point : Int) : List Char :=
  match point with
  | .ofNat n =>
    let whole := digits.take n ++ List.replicate (n - digits.length) '0'
    let fraction := digits.drop n
    (if whole.isEmpty then ['0'] else whole) ++ ['.'] ++ if fraction.isEmpty then ['0'] else fraction
  | .negSucc n => ['0', '.'] ++ List.replicate (n + 1) '0' ++ digits

/-- One digit, the others after a point, and an exponent. -/
def scientific (plus : String) (digits : List Char) (point : Int) : List Char :=
  let e := point - 1
  let mantissa :=
    match digits with
    | [] => ['0']
    | [d] => [d]
    | d :: rest => d :: '.' :: rest
  mantissa ++ ['e'] ++ (if e < 0 then [] else plus.toList) ++ (intText e).toList

/-- The text of a finite number `significand · 2 ^ exponent`. -/
def Format.finite (f : Format) (negative : Bool) (significand : Nat) (exponent : Int) : String :=
  let d := shortest f.tie significand exponent
  let digits := digitChars d.digits
  let point : Int := digits.length + d.exponent
  let body :=
    if d.digits = 0 then ['0', '.', '0']
    else if f.low < point ∧ point ≤ f.high then positional digits point
    else scientific f.plus digits point
  String.ofList (if negative then '-' :: body else body)

end SwiftForge.Decimal
