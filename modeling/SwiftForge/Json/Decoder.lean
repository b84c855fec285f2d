import SwiftForge.Json.Reading
import SwiftForge.Json.Value
import SwiftForge.Text.Quoted

/-!
Decoders: from a reading to a typed value, or to the first fault in the order of the text. A decoder
looks at a value while the text is being read (`streamed`), or at one that was read to its end and
put aside because what it is was only said later (`buffered`). Values put aside are free of faults,
and a few mismatches are reported in other words there.
-/

namespace SwiftForge

/-- What was found where something else was wanted. -/
inductive Found where
  | null
  | boolean (value : Bool)
  | integer (value : Int)
  | float (value : Double)
  | text (value : String)
  | sequence
  | map
  | unitVariant

def Found.description : Found → String
  | .null => "null"
  | .boolean value => "boolean `" ++ (if value then "true" else "false") ++ "`"
  | .integer value => "integer `" ++ Decimal.intText value ++ "`"
  | .float value => "floating point `" ++ Json.floatText value ++ "`"
  | .text value => "string " ++ Text.quoted value
  | .sequence => "sequence"
  | .map => "map"
  | .unitVariant => "unit variant"

/-- Why a text does not decode. `R` are the faults that a checked part may report. -/
inductive DecodeError (R : Type) where
  /-- The text is malformed, or a value is beyond use. -/
  | malformed
  | missingField (name : String)
  | duplicateField (name : String)
  | unknownField (name : String) (expected : List String)
  | unknownVariant (name : String) (expected : List String)
  | invalidType (found : Found)
  | invalidValue (found : Found)
  | invalidLength (length : Nat)
  | rule (breach : R)

/-- When a decoder looks at a value. -/
inductive Mode where
  | streamed
  | buffered
deriving DecidableEq, Repr

/-- A way to turn a reading into a value. -/
abbrev Decoder (R α : Type) := Mode → Reading → Except (DecodeError R) α

namespace Decoder

variable {R α β : Type}

/-- The fault of a value that is not of the wanted type. -/
def mismatch : Reading → DecodeError R
  | .null => .invalidType .null
  | .bool value => .invalidType (.boolean value)
  | .integer value => .invalidType (.integer value)
  | .float value => .invalidType (.float value)
  | .string value => .invalidType (.text value)
  | .array .. => .invalidType .sequence
  | .object .. => .invalidType .map
  | .hugeNumber | .badString | .broken => .malformed

/-- As `mismatch`, for one who opens a container before finding it unwanted. -/
def mismatchInside : Reading → DecodeError R
  | .array true _ _ | .object true _ _ => .malformed
  | r => mismatch r

def string : Decoder R String
  | _, .string value => .ok value
  | _, r => .error (mismatch r)

def bool : Decoder R Bool
  | _, .bool value => .ok value
  | _, r => .error (mismatch r)

def int64 : Decoder R Int64
  | _, .integer value =>
    if value < (Nat.pow 2 63 : Int) then .ok (Int64.ofInt value)
    else .error (.invalidValue (.integer value))
  | _, r => .error (mismatch r)

/-- A double; whole numbers count as doubles. -/
def double : Decoder R Double
  | _, .float value => .ok value
  | _, .integer value => .ok (.ofDecimal (value < 0) value.natAbs 0)
  | _, r => .error (mismatch r)

/-- A value that may be `null`. -/
def nullable (d : Decoder R α) : Decoder R (Option α)
  | _, .null => .ok none
  | mode, r => (d mode r).map some

/-- A container must end properly once its content is read. -/
def expectEnd : Ending → Except (DecodeError R) Unit
  | .closed => .ok ()
  | .broken => .error .malformed

def list (d : Decoder R α) : Decoder R (List α)
  | _, .array true _ _ => .error .malformed
  | mode, .array false items ending => do
    let values ← items.mapM (d mode)
    expectEnd ending
    pure values
  | _, r => .error (mismatch r)

/-- A value under a rule. -/
def checked (d : Decoder R α) (rule : α → Except R Unit) : Decoder R α := fun mode r => do
  let value ← d mode r
  match rule value with
  | .ok () => pure value
  | .error breach => .error (.rule breach)

def map (f : α → β) (d : Decoder R α) : Decoder R β := fun mode r => (d mode r).map f

/-! ### Records -/

/-- A record under construction from its fields, in the order of their declaration. Fields may come
in any order by key, or in this order without keys. -/
structure Fields (R : Type) (α : Type) where
  /-- The fields read so far. -/
  State : Type
  start : State
  keys : List String
  /-- Reads a field by its key. -/
  feed : Mode → String → Reading → State → Except (DecodeError R) State
  /-- The record, once all fields are read. -/
  finish : State → Except (DecodeError R) α
  /-- Reads the fields from the front of the items of an array, given how many went before and how
  the array ends. -/
  take : Mode → Nat → List Reading → Ending → Except (DecodeError R) (α × List Reading)

namespace Fields

/-- One field; `absent` is its value if it is left out. -/
def one (key : String) (absent : Option α) (d : Decoder R α) : Fields R α where
  State := Option α
  start := none
  keys := [key]
  feed mode _ r
    | some _ => .error (.duplicateField key)
    | none => (d mode r).map some
  finish
    | some value => .ok value
    | none =>
      match absent with
      | some value => .ok value
      | none => .error (.missingField key)
  take mode index items ending :=
    match items with
    | r :: rest => (d mode r).map fun value => (value, rest)
    | [] => do
      expectEnd ending
      match absent with
      | some value => .ok (value, [])
      | none => .error (.invalidLength index)

/-- A field that must be there. -/
def required (key : String) (d : Decoder R α) : Fields R α := one key none d

/-- A field with a value if it is left out. -/
def withDefault (key : String) (absent : α) (d : Decoder R α) : Fields R α := one key (some absent) d

/-- A field that may be left out or `null`. -/
def nullableField (key : String) (d : Decoder R α) : Fields R (Option α) :=
  one key (some none) (nullable d)

/-- A list that may be left out. -/
def listOf (key : String) (d : Decoder R α) : Fields R (List α) := one key (some []) (list d)

/-- A flag that may be left out. -/
def flag (key : String) : Fields R Bool := one key (some false) bool

def pure (value : α) : Fields R α where
  State := Unit
  start := ()
  keys := []
  feed _ _ _ s := .ok s
  finish _ := .ok value
  take _ _ items _ := .ok (value, items)

/-- A record with one more field. -/
def and (f : Fields R (α → β)) (a : Fields R α) : Fields R β where
  State := f.State × a.State
  start := (f.start, a.start)
  keys := f.keys ++ a.keys
  feed mode key r s :=
    if key ∈ f.keys then (f.feed mode key r s.1).map fun t => (t, s.2)
    else (a.feed mode key r s.2).map fun t => (s.1, t)
  finish s := do
    let make ← f.finish s.1
    let value ← a.finish s.2
    Except.ok (make value)
  take mode index items ending := do
    let (make, rest) ← f.take mode index items ending
    let (value, rest) ← a.take mode (index + f.keys.length) rest ending
    Except.ok (make value, rest)

instance : Applicative (Fields R) where
  pure := Fields.pure
  seq f a := f.and (a ())

/-- What happens to a key that is no field. -/
inductive Unknown where
  | ignore
  | refuse
deriving DecidableEq

/-- A value nobody looks at need only be well formed; one put aside is. -/
def skip (mode : Mode) (r : Reading) : Except (DecodeError R) Unit :=
  if mode = .buffered || r.isIntact then .ok () else .error .malformed

/-- Reads the members of an object in order. -/
def feedAll (f : Fields R α) (unknown : Unknown) (mode : Mode) :
    List (Reading × Reading) → f.State → Except (DecodeError R) f.State
  | [], s => .ok s
  | (.string key, r) :: rest, s =>
    if key ∈ f.keys then do
      let s ← f.feed mode key r s
      f.feedAll unknown mode rest s
    else
      match unknown with
      | .refuse => .error (.unknownField key f.keys)
      | .ignore => do
        skip mode r
        f.feedAll unknown mode rest s
  | _, _ => .error .malformed

/-- Items beyond the last field: malformed in a text, a wrong length in a value put aside. -/
def expectNone (mode : Mode) (length : Nat) (rest : List Reading) : Except (DecodeError R) Unit :=
  if rest.isEmpty then .ok ()
  else
    match mode with
    | .streamed => .error .malformed
    | .buffered => .error (.invalidLength length)

/-- A record as an object, or as an array of its fields. -/
def decoderWith (unknown : Unknown) (f : Fields R α) : Decoder R α
  | mode, .object false members ending => do
    let s ← f.feedAll unknown mode members f.start
    expectEnd ending
    f.finish s
  | mode, .array false items ending => do
    let (value, rest) ← f.take mode 0 items ending
    expectNone mode items.length rest
    expectEnd ending
    Except.ok value
  | _, r => .error (mismatchInside r)

/-- A record in which unknown keys are ignored. -/
def decoder (f : Fields R α) : Decoder R α := decoderWith .ignore f

/-- A record as an object only. -/
def objectDecoder (f : Fields R α) : Decoder R α
  | mode, .object false members ending => f.decoder mode (.object false members ending)
  | _, r => .error (mismatchInside r)

end Fields

/-- Two values in an array. -/
def pair (a : Decoder R α) (b : Decoder R β) : Decoder R (α × β)
  | mode, .array tooDeep items ending =>
    (Prod.mk <$> Fields.required "0" a <*> Fields.required "1" b).decoder mode
      (.array tooDeep items ending)
  | _, r => .error (mismatch r)

/-! ### Alternatives -/

/-- An alternative: a name alone, or a name with content. -/
inductive Variant (R α : Type) where
  | unit (value : α)
  | content (d : Decoder R α)

/-- The alternatives by name, in the order of their declaration. -/
abbrev Variants (R α : Type) := List (String × Variant R α)

namespace Variants

def names (vs : Variants R α) : List String := vs.map (·.1)

/-- The alternative of a name. -/
def find (vs : Variants R α) (name : String) : Except (DecodeError R) (Variant R α) :=
  match vs.lookup name with
  | some v => .ok v
  | none => .error (.unknownVariant name vs.names)

/-- An alternative given by its name alone. -/
def bare : Variant R α → Except (DecodeError R) α
  | .unit value => .ok value
  | .content _ => .error (.invalidType .unitVariant)

/-- The content of an alternative under its own name. -/
def named (v : Variant R α) : Decoder R α := fun mode r =>
  match v with
  | .content d => d mode r
  | .unit value =>
    match mode, r with
    | _, .null => .ok value
    | .buffered, .object _ [] _ => .ok value
    | _, r => .error (mismatch r)

/-- Alternatives that are a name, or an object with the name as its only key. -/
def external (vs : Variants R α) : Decoder R α
  | _, .string name => do bare (← vs.find name)
  | .streamed, .object false ((.string name, content) :: rest) ending => do
    let result ← named (← vs.find name) .streamed content
    if rest.isEmpty then expectEnd ending else .error .malformed
    pure result
  | .streamed, _ => .error .malformed
  | .buffered, .object _ [(.string name, content)] _ => do named (← vs.find name) .buffered content
  | .buffered, .object .. => .error (.invalidValue .map)
  | .buffered, r => .error (mismatch r)

/-- The alternative that the `kind` of an object names. The names are alternatives without content
themselves, so `null` may stand under a name. -/
def kind (vs : Variants R α) : Decoder R (Variant R α) :=
  external (vs.map fun (name, v) => (name, .unit v))

/-- The alternative that the first item of an array names. In a value put aside it may also be given
by its number. -/
def firstItem (vs : Variants R α) : Decoder R (Variant R α)
  | _, .string name => vs.find name
  | .buffered, .integer value =>
    if value < 0 then .error (.invalidType (.integer value))
    else
      match vs[value.toNat]? with
      | some (_, v) => .ok v
      | none => .error (.invalidValue (.integer value))
  | _, r => .error (mismatch r)

/-- The content of an alternative under `value`. -/
def value (v : Variant R α) : Decoder R α := fun mode r =>
  match v with
  | .content d => d mode r
  | .unit value =>
    match r with
    | .null => .ok value
    | r => .error (mismatchInside r)

/-- An alternative without a `value`. -/
def valueless : Variant R α → Except (DecodeError R) α
  | .unit value => .ok value
  | .content _ => .error (.missingField "value")

/-- The members that count in an alternative. -/
inductive Key where
  | kind
  | value
deriving DecidableEq

def Key.name : Key → String
  | .kind => "kind"
  | .value => "value"

/-- The next member that counts, its value and the members after it; others are skipped. -/
def nextKey (mode : Mode) (ending : Ending) : List (Reading × Reading) →
    Except (DecodeError R) (Option (Key × Reading × List (Reading × Reading)))
  | [] => do
    expectEnd ending
    pure none
  | (.string "kind", r) :: rest => .ok (some (.kind, r, rest))
  | (.string "value", r) :: rest => .ok (some (.value, r, rest))
  | (.string _, r) :: rest => do
    Fields.skip mode r
    nextKey mode ending rest
  | _ => .error .malformed

/-- No member that counts may come again. -/
def expectNoKey (mode : Mode) (ending : Ending) (rest : List (Reading × Reading)) :
    Except (DecodeError R) Unit := do
  match ← nextKey mode ending rest with
  | some (key, _) => .error (.duplicateField key.name)
  | none => pure ()

/-- A value put aside must be free of faults. -/
def putAside (mode : Mode) (r : Reading) : Except (DecodeError R) Unit :=
  if mode = .buffered || r.isUsable then .ok () else .error .malformed

/-- An alternative as an object with `kind` and `value`, in either order. A `value` that comes first
is put aside until the `kind` is known. -/
def ofMembers (vs : Variants R α) (mode : Mode) (members : List (Reading × Reading))
    (ending : Ending) : Except (DecodeError R) α := do
  match ← nextKey mode ending members with
  | none => .error (.missingField "kind")
  | some (.kind, kind, rest) =>
    let v ← vs.kind mode kind
    match ← nextKey mode ending rest with
    | none => valueless v
    | some (.kind, _, _) => .error (.duplicateField "kind")
    | some (.value, content, rest) =>
      let result ← value v mode content
      expectNoKey mode ending rest
      pure result
  | some (.value, content, rest) =>
    putAside mode content
    match ← nextKey mode ending rest with
    | none => .error (.missingField "kind")
    | some (.value, _, _) => .error (.duplicateField "value")
    | some (.kind, kind, rest) =>
      let v ← vs.kind mode kind
      let result ← value v .buffered content
      expectNoKey mode ending rest
      pure result

/-- An alternative as an array of its kind and its value. -/
def ofItems (vs : Variants R α) (mode : Mode) (items : List Reading) (ending : Ending) :
    Except (DecodeError R) α := do
  match items with
  | [] =>
    expectEnd ending
    .error (.invalidLength 0)
  | kind :: rest =>
    let v ← vs.firstItem mode kind
    match rest with
    | [] =>
      expectEnd ending
      .error (.invalidLength 1)
    | content :: rest =>
      let result ← value v mode content
      Fields.expectNone mode items.length rest
      expectEnd ending
      pure result

/-- Alternatives with a `kind` and a `value`. -/
def tagged (vs : Variants R α) : Decoder R α
  | mode, .object false members ending => vs.ofMembers mode members ending
  | mode, .array false items ending => vs.ofItems mode items ending
  | _, r => .error (mismatchInside r)

def ofNames (names : List (String × α)) : Variants R α :=
  names.map fun (name, value) => (name, .unit value)

end Variants

end Decoder

end SwiftForge
