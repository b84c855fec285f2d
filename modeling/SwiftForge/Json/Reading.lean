import SwiftForge.Decimal.Scaling

/-!
Reading JSON text. A text is read once from the front into a reading: a value in which every fault
stays where it stands, so that whoever walks it in order meets the faults in the order of the text.

Two sorts of fault are kept apart. Where the text is malformed nothing after that place is read.
A value that is well formed but cannot be used (a number beyond the doubles, a string with half a
surrogate pair, a container nested too deep) only matters to those who look at it.
-/

namespace SwiftForge

inductive Ending where
  | closed
  /-- The text is malformed where the next item or the end should be. -/
  | broken
deriving DecidableEq, Repr

/-- A JSON text as read. -/
inductive Reading where
  | null
  | bool (value : Bool)
  /-- A whole number from `-2 ^ 63` up to `2 ^ 64 - 1`. -/
  | integer (value : Int)
  | float (value : Double)
  /-- A number beyond the doubles. -/
  | hugeNumber
  | string (value : String)
  /-- A string with half a surrogate pair. -/
  | badString
  | array (tooDeep : Bool) (items : List Reading) (ending : Ending)
  /-- Members in order, each key as it was read. Only the key of a malformed object can be anything
  but a string. -/
  | object (tooDeep : Bool) (members : List (Reading × Reading)) (ending : Ending)
  /-- Malformed text. -/
  | broken

namespace Reading

/-- The deepest nesting of arrays and objects that may be used. -/
def nestingLimit : Nat := 127

def isSpace (c : Char) : Bool := c == ' ' || c == '\n' || c == '\t' || c == '\r'

def skipSpace (cs : List Char) : List Char := cs.dropWhile isSpace

/-- The value of a hexadecimal digit of either case. -/
def hexValue? (c : Char) : Option Nat :=
  if '0' ≤ c ∧ c ≤ '9' then some (c.toNat - '0'.toNat)
  else if 'a' ≤ c ∧ c ≤ 'f' then some (c.toNat - 'a'.toNat + 10)
  else if 'A' ≤ c ∧ c ≤ 'F' then some (c.toNat - 'A'.toNat + 10)
  else none

/-- The number of four hexadecimal digits. -/
def hex4? (a b c d : Char) : Option Nat := do
  let a ← hexValue? a
  let b ← hexValue? b
  let c ← hexValue? c
  let d ← hexValue? d
  pure (((a * 16 + b) * 16 + c) * 16 + d)

def isHighSurrogate (n : Nat) : Bool := 0xD800 ≤ n && n ≤ 0xDBFF

def isLowSurrogate (n : Nat) : Bool := 0xDC00 ≤ n && n ≤ 0xDFFF

/-- The character of a surrogate pair. -/
def pairChar (high low : Nat) : Char := Char.ofNat (0x10000 + (high - 0xD800) * 0x400 + (low - 0xDC00))

/-- The character of a one-letter escape. -/
def simpleEscape? : Char → Option Char
  | '"' => some '"'
  | '\\' => some '\\'
  | '/' => some '/'
  | 'b' => some '\x08'
  | 'f' => some '\x0c'
  | 'n' => some '\n'
  | 'r' => some '\r'
  | 't' => some '\t'
  | _ => none

/-- The rest of a string after its opening quote: its characters, or nothing for a bad string, and
what follows the closing quote. The outer `none` is malformed text. -/
def readString : List Char → Option (Option (List Char) × List Char)
  | [] => none
  | '"' :: rest => some (some [], rest)
  | '\\' :: 'u' :: a :: b :: c :: d :: '\\' :: 'u' :: e :: f :: g :: h :: rest =>
    match hex4? a b c d with
    | none => none
    | some high =>
      if isHighSurrogate high then
        match hex4? e f g h with
        | none => none
        | some low =>
          (readString rest).map fun (text, rest) =>
            (if isLowSurrogate low then text.map (pairChar high low :: ·) else none, rest)
      else
        (readString ('\\' :: 'u' :: e :: f :: g :: h :: rest)).map fun (text, rest) =>
          (if isLowSurrogate high then none else text.map (Char.ofNat high :: ·), rest)
  | '\\' :: 'u' :: a :: b :: c :: d :: rest =>
    match hex4? a b c d with
    | none => none
    | some n =>
      (readString rest).map fun (text, rest) =>
        (if isHighSurrogate n || isLowSurrogate n then none else text.map (Char.ofNat n :: ·), rest)
  | '\\' :: c :: rest =>
    match simpleEscape? c with
    | none => none
    | some c => (readString rest).map fun (text, rest) => (text.map (c :: ·), rest)
  | c :: rest =>
    if c.toNat < 0x20 then none
    else (readString rest).map fun (text, rest) => (text.map (c :: ·), rest)

/-- The number that a run of digits spells. -/
def digitsValue (digits : List Char) : Nat :=
  digits.foldl (fun n c => n * 10 + (c.toNat - '0'.toNat)) 0

/-- The digits in front and what follows them. -/
def spanDigits (cs : List Char) : List Char × List Char :=
  (cs.takeWhile Char.isDigit, cs.dropWhile Char.isDigit)

/-- A number with a fraction or an exponent. -/
def floatNumber (negative : Bool) (digits : Nat) (exponent : Int) : Reading :=
  let value := Double.scaleDecimal negative digits exponent
  if value.isFinite then .float value else .hugeNumber

/-- A whole number below `2 ^ 64`; a minus in front makes it a float if it is zero or not one of the
64-bit integers. -/
def wholeNumber (negative : Bool) (n : Nat) : Reading :=
  if negative then
    if 0 < n ∧ n ≤ Nat.pow 2 63 then .integer (-n) else floatNumber true n 0
  else .integer n

/-- Takes digits into a number as long as it stays below `2 ^ 64`: the number, and how many digits
are left from the first one on that does not fit. -/
def takeDigits : Nat → List Char → Nat × Nat
  | n, [] => (n, 0)
  | n, c :: rest =>
    let next := n * 10 + (c.toNat - '0'.toNat)
    if next < Nat.pow 2 64 then takeDigits next rest else (n, rest.length + 1)

/-- The rest of a number after its whole part and fraction, given the digits that were taken and the
exponent of the last of them. -/
def readExponent (negative : Bool) (digits : Nat) (exponent : Int) (isWhole : Bool)
    (cs : List Char) : Option (Reading × List Char) :=
  match cs with
  | c :: rest =>
    if c == 'e' || c == 'E' then
      let (sign, rest) :=
        match rest with
        | '+' :: rest => (false, rest)
        | '-' :: rest => (true, rest)
        | rest => (false, rest)
      let (power, rest) := spanDigits rest
      if power.isEmpty then none
      else
        let power : Int := digitsValue power
        some (floatNumber negative digits ((if sign then -power else power) + exponent), rest)
    else some (plain, cs)
  | [] => some (plain, cs)
where
  /-- The number if no exponent follows. -/
  plain : Reading := if isWhole then wholeNumber negative digits else floatNumber negative digits exponent

/-- A number from its first digit on: no superfluous zero in front, and a digit after a point. Whole
digits that do not fit only count as powers of ten, and digits of the fraction not at all. -/
def readNumber (negative : Bool) (cs : List Char) : Option (Reading × List Char) :=
  let (whole, rest) := spanDigits cs
  let (digits, more) := takeDigits 0 whole
  match whole with
  | [] => none
  | '0' :: _ :: _ => none
  | _ =>
    match rest with
    | '.' :: rest =>
      let (fraction, rest) := spanDigits rest
      if fraction.isEmpty then none
      else
        let (digits, dropped) := takeDigits digits fraction
        readExponent negative digits ((more + dropped : Nat) - (fraction.length : Int)) false rest
    | rest => readExponent negative digits more (more == 0) rest

/-- A reading that does not go on: nothing after it is read. -/
def stop : Reading × Option (List Char) := (.broken, none)

/-- The reading of a scalar, if the text allows it. -/
def scalar : Option (Reading × List Char) → Reading × Option (List Char)
  | some (r, rest) => (r, some rest)
  | none => stop

/-- A string value after its opening quote. -/
def readText (cs : List Char) : Reading × Option (List Char) :=
  match readString cs with
  | none => stop
  | some (some text, rest) => (.string (String.ofList text), some rest)
  | some (none, rest) => (.badString, some rest)

mutual

/-- One value from the front of a text, and what follows it unless the text is malformed. The first
argument is fuel: of three steps in a row one takes a character, so three for each character and
three more suffice. The second is the nesting so far. -/
def readValue : Nat → Nat → List Char → Reading × Option (List Char)
  | 0, _, _ => stop
  | fuel + 1, depth, cs =>
    match skipSpace cs with
    | 'n' :: 'u' :: 'l' :: 'l' :: rest => (.null, some rest)
    | 't' :: 'r' :: 'u' :: 'e' :: rest => (.bool true, some rest)
    | 'f' :: 'a' :: 'l' :: 's' :: 'e' :: rest => (.bool false, some rest)
    | '"' :: rest => readText rest
    | '-' :: rest => scalar (readNumber true rest)
    | '[' :: rest =>
      let (items, ending, rest) := readItems fuel (depth + 1) rest
      (.array (nestingLimit ≤ depth) items ending, rest)
    | '\x7b' :: rest =>
      let (members, ending, rest) := readMembers fuel (depth + 1) rest
      (.object (nestingLimit ≤ depth) members ending, rest)
    | c :: rest => if c.isDigit then scalar (readNumber false (c :: rest)) else stop
    | [] => stop

/-- The items of an array after its opening bracket. -/
def readItems : Nat → Nat → List Char → List Reading × Ending × Option (List Char)
  | 0, _, _ => ([], .broken, none)
  | fuel + 1, depth, cs =>
    match skipSpace cs with
    | ']' :: rest => ([], .closed, some rest)
    | cs => readItem fuel depth cs

/-- An item of an array and those after it. -/
def readItem : Nat → Nat → List Char → List Reading × Ending × Option (List Char)
  | 0, _, _ => ([], .broken, none)
  | fuel + 1, depth, cs =>
    let (item, rest) := readValue fuel depth cs
    match rest.map skipSpace with
    | some (']' :: rest) => ([item], .closed, some rest)
    | some (',' :: rest) =>
      match skipSpace rest with
      | ']' :: _ => ([item], .broken, none)
      | rest =>
        let (items, ending, rest) := readItem fuel depth rest
        (item :: items, ending, rest)
    | _ => ([item], .broken, none)

/-- The members of an object after its opening brace. -/
def readMembers : Nat → Nat → List Char → List (Reading × Reading) × Ending × Option (List Char)
  | 0, _, _ => ([], .broken, none)
  | fuel + 1, depth, cs =>
    match skipSpace cs with
    | '\x7d' :: rest => ([], .closed, some rest)
    | '"' :: rest => readMember fuel depth rest
    | cs => ([((readValue fuel depth cs).1, .broken)], .broken, none)

/-- A member of an object after the quote that opens its key, and those after it. -/
def readMember : Nat → Nat → List Char → List (Reading × Reading) × Ending × Option (List Char)
  | 0, _, _ => ([], .broken, none)
  | fuel + 1, depth, cs =>
    let (key, rest) := readText cs
    match rest.map skipSpace with
    | some (':' :: rest) =>
      let (value, rest) := readValue fuel depth rest
      match rest.map skipSpace with
      | some ('\x7d' :: rest) => ([(key, value)], .closed, some rest)
      | some (',' :: rest) =>
        match skipSpace rest with
        | '"' :: rest =>
          let (members, ending, rest) := readMember fuel depth rest
          ((key, value) :: members, ending, rest)
        | _ => ([(key, value)], .broken, none)
      | _ => ([(key, value)], .broken, none)
    | _ => ([(key, .broken)], .broken, none)

end

/-- A whole text: one value, and whether only blanks follow it. -/
def ofText (text : List Char) : Reading × Bool :=
  let (value, rest) := readValue (3 * text.length + 3) 0 text
  (value, (rest.map fun rest => (skipSpace rest).isEmpty).getD false)

/-! ### Faults below a value -/

mutual

/-- Whether a value is well formed to its end. -/
def isIntact : Reading → Bool
  | .broken => false
  | .array _ items ending => ending = .closed && itemsIntact items
  | .object _ members ending => ending = .closed && membersIntact members
  | _ => true

/-- Whether all values are well formed. -/
def itemsIntact : List Reading → Bool
  | [] => true
  | item :: rest => item.isIntact && itemsIntact rest

/-- Whether all keys and values are well formed. -/
def membersIntact : List (Reading × Reading) → Bool
  | [] => true
  | (key, value) :: rest => key.isIntact && value.isIntact && membersIntact rest

end

mutual

/-- Whether a value is well formed and nothing in it is beyond use. -/
def isUsable : Reading → Bool
  | .broken | .hugeNumber | .badString => false
  | .array tooDeep items ending => !tooDeep && ending = .closed && itemsUsable items
  | .object tooDeep members ending => !tooDeep && ending = .closed && membersUsable members
  | _ => true

/-- Whether all values can be used. -/
def itemsUsable : List Reading → Bool
  | [] => true
  | item :: rest => item.isUsable && itemsUsable rest

/-- Whether all keys and values can be used. -/
def membersUsable : List (Reading × Reading) → Bool
  | [] => true
  | (key, value) :: rest => key.isUsable && value.isUsable && membersUsable rest

end

end Reading

end SwiftForge
