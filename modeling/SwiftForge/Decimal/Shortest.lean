import SwiftForge.Decimal.Double

/-!
The shortest decimal of a double: the fewest digits that read back, and of those the nearest to the
value. The reals that round to `significand · 2 ^ exponent` form an interval; for one digit, then
two, and so on, the two neighbours of the value on that decimal grid are tried against it.
-/

namespace SwiftForge.Decimal

/-- Which of two equally near decimals is taken. -/
inductive Tie where
  /-- The one with an even last digit. -/
  | toEven
  /-- The larger one. -/
  | up
deriving DecidableEq, Repr

/-- The decimal `digits · 10 ^ exponent`. -/
structure Numeral where
  digits : Nat
  exponent : Int
deriving DecidableEq, Repr

/-- A value and the ends of the interval that rounds to it, over one denominator. -/
structure Interval where
  low : Nat
  value : Nat
  high : Nat
  den : Nat
  /-- The ends themselves round to the value. -/
  closed : Bool

namespace Interval

/-- The interval of `significand · 2 ^ exponent`. Below a power of two the neighbour is half as far,
except at the smallest exponent. -/
def ofBinary (significand : Nat) (exponent : Int) : Interval :=
  let below := if significand = Nat.pow 2 52 ∧ exponent ≠ -1074 then 1 else 2
  let closed := significand % 2 = 0
  match exponent - 2 with
  | .ofNat n =>
    let p := Nat.pow 2 n
    ⟨(4 * significand - below) * p, 4 * significand * p, (4 * significand + 2) * p, 1, closed⟩
  | .negSucc n =>
    ⟨4 * significand - below, 4 * significand, 4 * significand + 2, Nat.pow 2 (n + 1), closed⟩

/-- The same interval counted in units of `10 ^ e`. -/
def inUnits (i : Interval) (e : Int) : Interval :=
  match e with
  | .ofNat n => { i with den := i.den * Nat.pow 10 n }
  | .negSucc n =>
    let p := Nat.pow 10 (n + 1)
    { i with low := i.low * p, value := i.value * p, high := i.high * p }

/-- Whether a whole number of units rounds to the value. -/
def holds (i : Interval) (n : Nat) : Bool :=
  if i.closed then i.low ≤ n * i.den && n * i.den ≤ i.high
  else i.low < n * i.den && n * i.den < i.high

/-- The neighbour of the value on the grid of whole units that rounds to the value, the nearer one
if both do. -/
def pick (tie : Tie) (i : Interval) : Option Nat :=
  let lower := i.value / i.den
  let upper := lower + 1
  match i.holds lower, i.holds upper with
  | false, false => none
  | true, false => some lower
  | false, true => some upper
  | true, true =>
    let down := i.value - lower * i.den
    let up := upper * i.den - i.value
    if down < up then some lower
    else if up < down then some upper
    else
      match tie with
      | .up => some upper
      | .toEven => some (if lower % 2 = 0 then lower else upper)

end Interval

/-- Drops the zeros at the end of a decimal; the fuel bounds their number. -/
def trimZeros : Nat → Numeral → Numeral
  | 0, d => d
  | fuel + 1, d =>
    if d.digits ≠ 0 ∧ d.digits % 10 = 0 then trimZeros fuel ⟨d.digits / 10, d.exponent + 1⟩ else d

/-- Whether a quotient is less than `10 ^ k`. -/
def isBelowPower (num den : Nat) (k : Int) : Bool :=
  match k with
  | .ofNat n => decide (num < den * Nat.pow 10 n)
  | .negSucc n => decide (num * Nat.pow 10 (n + 1) < den)

/-- The decimal position of the leading digit of a positive quotient: the least `k` with
`num / den < 10 ^ k`, found by going down from an upper bound. -/
def leadingPosition (num den : Nat) : Nat → Int → Int
  | 0, k => k
  | fuel + 1, k =>
    if isBelowPower num den (k - 1) then leadingPosition num den fuel (k - 1) else k

/-- Tries grids with ever more digits. Seventeen digits always suffice. -/
def search (tie : Tie) (i : Interval) (position : Int) : Nat → Nat → Numeral
  | 0, n =>
    let e := position - n
    ⟨((i.inUnits e).value) / (i.inUnits e).den, e⟩
  | fuel + 1, n =>
    let e := position - n
    match (i.inUnits e).pick tie with
    | some digits => ⟨digits, e⟩
    | none => search tie i position fuel (n + 1)

/-- The shortest decimal that reads back as `significand · 2 ^ exponent`. -/
def shortest (tie : Tie) (significand : Nat) (exponent : Int) : Numeral :=
  if significand = 0 then ⟨0, 0⟩
  else
    let i := Interval.ofBinary significand exponent
    let bits : Int := (i.value.log2 : Int) - i.den.log2 + 1
    let start : Int := if bits ≥ 0 then bits * 31 / 100 + 2 else bits * 30 / 100 + 2
    let position := leadingPosition i.value i.den 400 start
    trimZeros 20 (search tie i position 17 1)

end SwiftForge.Decimal
