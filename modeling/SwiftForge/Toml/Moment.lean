import SwiftForge.Toml.Number

/-!
TOML dates and times.
-/

namespace SwiftForge.Toml

/-- The number of exactly `width` digits in front. -/
def fixedDigits (width : Nat) (cs : List Char) : Option (Nat × List Char) :=
  let digits := cs.take width
  if digits.length = width ∧ digits.all Char.isDigit then some (numberIn 10 digits, cs.drop width)
  else none

/-- The days of a month. -/
def daysIn (year month : Nat) : Nat :=
  if month = 2 then
    if year % 4 = 0 ∧ (year % 100 ≠ 0 ∨ year % 400 = 0) then 29 else 28
  else if month = 4 ∨ month = 6 ∨ month = 9 ∨ month = 11 then 30
  else 31

/-- What follows a date in front. -/
def date? (cs : List Char) : Option (List Char) := do
  let (year, rest) ← fixedDigits 4 cs
  match rest with
  | '-' :: rest =>
    let (month, rest) ← fixedDigits 2 rest
    match rest with
    | '-' :: rest =>
      let (day, rest) ← fixedDigits 2 rest
      if 1 ≤ month ∧ month ≤ 12 ∧ 1 ≤ day ∧ day ≤ daysIn year month then some rest else none
    | _ => none
  | _ => none

/-- What follows the seconds of a time, if it has them, and their fraction. -/
def seconds? (cs : List Char) : Option (List Char) :=
  match cs with
  | ':' :: rest => do
    let (second, rest) ← fixedDigits 2 rest
    if second > 60 then none
    match rest with
    | '.' :: fraction =>
      if (fraction.takeWhile Char.isDigit).isEmpty then none
      else some (fraction.dropWhile Char.isDigit)
    | rest => some rest
  | cs => some cs

/-- What follows hours and minutes in front. -/
def hourMinute? (cs : List Char) : Option (List Char) := do
  let (hour, rest) ← fixedDigits 2 cs
  match rest with
  | ':' :: rest =>
    let (minute, rest) ← fixedDigits 2 rest
    if hour ≤ 23 ∧ minute ≤ 59 then some rest else none
  | _ => none

/-- What follows a time in front. -/
def time? (cs : List Char) : Option (List Char) := (hourMinute? cs).bind seconds?

/-- Whether a text is empty or the offset of a time zone. -/
def isOffset (cs : List Char) : Bool :=
  match cs with
  | [] => true
  | ['Z'] | ['z'] => true
  | '+' :: rest | '-' :: rest => hourMinute? rest == some []
  | _ => false

/-- Whether a word is a date, a time, or both with an optional offset. -/
def isDatetime (word : List Char) : Bool :=
  match date? word with
  | some [] => true
  | some (c :: rest) =>
    (c == 'T' || c == 't' || c == ' ') && ((time? rest).map isOffset).getD false
  | none => time? word == some []

end SwiftForge.Toml
