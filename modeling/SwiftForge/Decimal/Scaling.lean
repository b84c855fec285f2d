import SwiftForge.Decimal.Double

/-!
Products and quotients of doubles, and decimals that are put together with them: the digits first,
then a power of ten, with a rounding at each step. The result can miss the nearest double by its
last bit.
-/

namespace SwiftForge.Double

/-- `num / den · 2 ^ e`, rounded to the nearest double. -/
def ofScaled (negative : Bool) (num den : Nat) (e : Int) : Double :=
  let (n, d) := scaleBinary num den e
  ofQuotient negative n d

/-- The product of two doubles, rounded to the nearest. -/
def product (a b : Double) : Double :=
  match a.view, b.view with
  | .finite s m e, .finite t n f => ofScaled (s != t) (m * n) 1 (e + f)
  | .infinite s, .infinite t => infinity (s != t)
  | .infinite s, .finite t n _ => if n = 0 then nan else infinity (s != t)
  | .finite s m _, .infinite t => if m = 0 then nan else infinity (s != t)
  | .nan, _ => nan
  | _, .nan => nan

/-- The quotient of two doubles, rounded to the nearest. -/
def quotient (a b : Double) : Double :=
  match a.view, b.view with
  | .finite s m e, .finite t n f =>
    if n = 0 then if m = 0 then nan else infinity (s != t)
    else ofScaled (s != t) m n (e - f)
  | .infinite _, .infinite _ => nan
  | .infinite s, .finite t _ _ => infinity (s != t)
  | .finite s _ _, .infinite t => ofMagnitude (s != t) 0
  | .nan, _ => nan
  | _, .nan => nan

def isZero (d : Double) : Bool :=
  match d.view with
  | .finite _ 0 _ => true
  | _ => false

/-- The exponent of the largest power of ten that is not beyond the doubles. -/
def topPower : Nat := 308

/-- The double nearest to a power of ten. -/
def powerOfTen (n : Nat) : Double := ofQuotient false (Nat.pow 10 n) 1

/-- Divides by the largest power of ten so many times, or until nothing is left. -/
def lower : Nat → Double → Double
  | 0, d => d
  | rounds + 1, d => if d.isZero then d else lower rounds (d.quotient (powerOfTen topPower))

/-- `digits · 10 ^ exponent` by one product or by quotients of doubles; infinite if it is beyond the
doubles. Rounding is the same on both sides of zero, so the sign is there from the start. -/
def scaleDecimal (negative : Bool) (digits : Nat) (exponent : Int) : Double :=
  let start := ofQuotient negative digits 1
  match exponent with
  | .ofNat n =>
    if n ≤ topPower then start.product (powerOfTen n)
    else if digits = 0 then start
    else infinity negative
  | .negSucc n =>
    let rounds := n / topPower
    (lower rounds start).quotient (powerOfTen (n + 1 - rounds * topPower))

end SwiftForge.Double
