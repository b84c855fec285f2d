/-!
Double-precision numbers by their bits, and the double nearest to a quotient of natural numbers.
Everything is exact arithmetic on natural numbers, so nothing depends on the machine.
-/

namespace SwiftForge

/-- A double-precision number, given by its 64 bits. -/
structure Double where
  bits : UInt64
deriving DecidableEq, Repr

namespace Double

/-- What a pattern of bits stands for. A finite value is `significand · 2 ^ exponent`. -/
inductive View where
  | nan
  | infinite (negative : Bool)
  | finite (negative : Bool) (significand : Nat) (exponent : Int)
deriving DecidableEq, Repr

def isNegative (d : Double) : Bool := d.bits.toNat / Nat.pow 2 63 == 1

def exponentField (d : Double) : Nat := d.bits.toNat / Nat.pow 2 52 % Nat.pow 2 11

def fractionField (d : Double) : Nat := d.bits.toNat % Nat.pow 2 52

/-- The number that the bits stand for. -/
def view (d : Double) : View :=
  if d.exponentField = 2047 then
    if d.fractionField = 0 then .infinite d.isNegative else .nan
  else if d.exponentField = 0 then .finite d.isNegative d.fractionField (-1074)
  else .finite d.isNegative (Nat.pow 2 52 + d.fractionField) (d.exponentField - 1075)

/-- The double with the given sign and the given bits below the sign. -/
def ofMagnitude (negative : Bool) (magnitude : Nat) : Double :=
  ⟨UInt64.ofNat (magnitude + if negative then Nat.pow 2 63 else 0)⟩

/-- Bits of infinity below the sign. -/
def infiniteMagnitude : Nat := 2047 * Nat.pow 2 52

def infinity (negative : Bool) : Double := ofMagnitude negative infiniteMagnitude

/-- A number that is not a number. -/
def nan : Double := ofMagnitude false (infiniteMagnitude + Nat.pow 2 51)

/-- Neither infinite nor a NaN. -/
def isFinite (d : Double) : Bool := d.exponentField != 2047

/-- Numeric equality: a NaN differs from itself and the two zeros agree. -/
def numEq (a b : Double) : Bool :=
  match a.view, b.view with
  | .nan, _ => false
  | _, .nan => false
  | .finite _ 0 _, .finite _ 0 _ => true
  | _, _ => a.bits == b.bits

instance : BEq Double := ⟨numEq⟩

/-- A quotient rounded to the nearest natural number, a half to the even one. -/
def roundDiv (num den : Nat) : Nat :=
  let q := num / den
  let r := num % den
  if 2 * r < den then q
  else if 2 * r > den then q + 1
  else if q % 2 = 0 then q else q + 1

/-- `num / den` times `2 ^ e`, as a numerator and a denominator. -/
def scaleBinary (num den : Nat) (e : Int) : Nat × Nat :=
  match e with
  | .ofNat n => (num * Nat.pow 2 n, den)
  | .negSucc n => (num, den * Nat.pow 2 (n + 1))

/-- The exponent of the leading bit of a positive quotient. -/
def leadingBit (num den : Nat) : Int :=
  let guess : Int := (num.log2 : Int) - den.log2
  let (n, d) := scaleBinary num den (-guess)
  if n < d then guess - 1 else guess

/-- The double nearest to `num / den`, a half to the even neighbour; too large a quotient gives
infinity. The bits below the sign count the doubles between zero and the result, so a carry out of
the significand moves to the next exponent by itself. -/
def ofQuotient (negative : Bool) (num den : Nat) : Double :=
  if num = 0 then ofMagnitude negative 0
  else
    let exponent := max (leadingBit num den - 52) (-1074)
    let (n, d) := scaleBinary num den (-exponent)
    let magnitude := roundDiv n d + (exponent + 1074).toNat * Nat.pow 2 52
    ofMagnitude negative (min magnitude infiniteMagnitude)

/-- The number of decimal digits of a natural number, by repeated division. -/
def digitCount (n : Nat) : Nat := (Nat.toDigits 10 n).length

/-- The double nearest to `digits · 10 ^ exponent`. Values that are certainly beyond the largest or
below half the smallest double are settled without the power of ten. -/
def ofDecimal (negative : Bool) (digits : Nat) (exponent : Int) : Double :=
  let top : Int := exponent + digitCount digits
  if digits = 0 then ofMagnitude negative 0
  else if top > 310 then infinity negative
  else if top < -330 then ofMagnitude negative 0
  else
    match exponent with
    | .ofNat n => ofQuotient negative (digits * Nat.pow 10 n) 1
    | .negSucc n => ofQuotient negative digits (Nat.pow 10 (n + 1))

/-- A sign in front: whether it is a minus, and what follows it. -/
def splitSign : List Char → Bool × List Char
  | '-' :: rest => (true, rest)
  | '+' :: rest => (false, rest)
  | cs => (false, cs)

/-- A decimal without its sign: digits with an optional point, an optional exponent. -/
def ofDigits? (negative : Bool) (cs : List Char) : Option Double :=
  let (whole, cs) := cs.span Char.isDigit
  let (fraction, cs) :=
    match cs with
    | '.' :: rest => rest.span Char.isDigit
    | cs => ([], cs)
  let digits := whole ++ fraction
  let value : Nat := digits.foldl (fun n c => n * 10 + (c.toNat - '0'.toNat)) 0
  if digits.isEmpty then none
  else
    match cs with
    | [] => some (ofDecimal negative value (-fraction.length))
    | e :: cs =>
      if e ≠ 'e' ∧ e ≠ 'E' then none
      else
        let (down, cs) := splitSign cs
        if cs.isEmpty ∨ !cs.all Char.isDigit then none
        else
          let power : Nat := cs.foldl (fun n c => n * 10 + (c.toNat - '0'.toNat)) 0
          some (ofDecimal negative value ((if down then -(power : Int) else power) - fraction.length))

/-- A double in a text: an optional sign before a decimal or, in letters of either case, before a word
for infinity or for what is not a number. -/
def ofText? (s : String) : Option Double :=
  let (negative, cs) := splitSign s.toList
  let word := cs.map Char.toLower
  if word = "inf".toList ∨ word = "infinity".toList then some (infinity negative)
  else if word = "nan".toList then some nan
  else ofDigits? negative cs

end Double

end SwiftForge
