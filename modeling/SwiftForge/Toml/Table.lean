/-!
TOML values and tables, with the rules on defining a table more than once. Every function that adds
to a table gives nothing if the addition is not allowed.
-/

namespace SwiftForge

/-- How a table came about. -/
inductive TableOrigin where
  /-- By a header of its own, or as the whole document. -/
  | header
  /-- By the header of a table below it. -/
  | implied
  /-- By a dotted key. -/
  | dotted
  /-- In braces; nothing can be added to it. -/
  | braces
deriving DecidableEq, Repr

/-- A TOML value. Floats and dates are told apart from other values and not kept. -/
inductive Toml where
  | string (value : String)
  /-- An integer of at most 128 bits. -/
  | integer (value : Int)
  | float
  /-- What has the shape of a number but no value that can be held: a float beyond the doubles, an
  integer beyond 128 bits or without digits. It is a fault only where it is read. -/
  | unreadable
  | boolean (value : Bool)
  | datetime
  | array (items : List Toml)
  | table (origin : TableOrigin) (entries : List (String × Toml))
  /-- Tables under a header in double brackets, the latest first. -/
  | tables (latest : List (String × Toml)) (earlier : List (List (String × Toml)))

namespace Toml

abbrev Entries := List (String × Toml)

/-- The value of a key. -/
def get? (key : String) (entries : Entries) : Option Toml := entries.lookup key

/-- Sets the value of a key, in its place if it has one. -/
def set (key : String) (value : Toml) : Entries → Entries
  | [] => [(key, value)]
  | (k, v) :: rest => if k = key then (key, value) :: rest else (k, v) :: set key value rest

mutual

/-- Whether the numbers in a value can be read and its integers fit. -/
def numbersFit (fits : Int → Bool) : Toml → Bool
  | .integer n => fits n
  | .unreadable => false
  | .array items => itemsFit fits items
  | .table _ entries => entriesFit fits entries
  | .tables latest earlier => entriesFit fits latest && tablesFit fits earlier
  | _ => true

def itemsFit (fits : Int → Bool) : List Toml → Bool
  | [] => true
  | item :: rest => item.numbersFit fits && itemsFit fits rest

def entriesFit (fits : Int → Bool) : List (String × Toml) → Bool
  | [] => true
  | (_, value) :: rest => value.numbersFit fits && entriesFit fits rest

def tablesFit (fits : Int → Bool) : List (List (String × Toml)) → Bool
  | [] => true
  | entries :: rest => entriesFit fits entries && tablesFit fits rest

end

/-- Whether all numbers in a value can be read. -/
def isReadable (value : Toml) : Bool := value.numbersFit fun _ => true

/-- Whether the integers in a value are moreover those of 64-bit words, with or without a sign. -/
def fitsWords (value : Toml) : Bool :=
  value.numbersFit fun n => decide (-(Nat.pow 2 63 : Int) ≤ n ∧ n < (Nat.pow 2 64 : Int))

/-- A table and its entries, for changing the entries. -/
structure Place where
  origin : TableOrigin
  entries : Entries

/-- Changes the table at the end of a path. Tables that are missing on the way are made: dotted ones
on the way of a dotted key, implied ones on the way of a header. A dotted key cannot go through a
table with a header of its own, and nothing goes through a table in braces or through a value. -/
def changeAt (isDotted : Bool) (change : Place → Option Entries) :
    List String → Place → Option Entries
  | [], place => change place
  | key :: path, place =>
    match get? key place.entries with
    | none =>
      let origin := if isDotted then .dotted else .implied
      (changeAt isDotted change path ⟨origin, []⟩).map fun entries =>
        set key (.table origin entries) place.entries
    | some (.table origin entries) =>
      if origin = .braces || (isDotted && origin = .header) then none
      else
        (changeAt isDotted change path ⟨origin, entries⟩).map fun entries =>
          set key (.table origin entries) place.entries
    | some (.tables latest earlier) =>
      (changeAt isDotted change path ⟨.header, latest⟩).map fun entries =>
        set key (.tables entries earlier) place.entries
    | some _ => none

/-- Adds a value under a key with a path before it. A key alone cannot add to a table made by dotted
keys, and a dotted key adds to no other. -/
def insert (path : List String) (key : String) (value : Toml) (place : Place) : Option Entries :=
  changeAt true (fun target =>
    if (target.origin = .dotted) = path.isEmpty then none
    else if (get? key target.entries).isSome then none
    else some (target.entries ++ [(key, value)])) path place

/-- Opens the table of a header: it must be new, or known only from the headers of tables below
it. -/
def openTable (path : List String) (key : String) (root : Entries) : Option Entries :=
  changeAt false (fun target =>
    match get? key target.entries with
    | none => some (target.entries ++ [(key, .table .header [])])
    | some (.table .implied entries) => some (set key (.table .header entries) target.entries)
    | some _ => none) path ⟨.header, root⟩

/-- Opens one more table of a header in double brackets. -/
def openTables (path : List String) (key : String) (root : Entries) : Option Entries :=
  changeAt false (fun target =>
    match get? key target.entries with
    | none => some (target.entries ++ [(key, .tables [] [])])
    | some (.tables latest earlier) => some (set key (.tables [] (latest :: earlier)) target.entries)
    | some _ => none) path ⟨.header, root⟩

/-- Adds a value to the table of the latest header. -/
def insertUnder (header path : List String) (key : String) (value : Toml) (root : Entries) :
    Option Entries :=
  changeAt false (fun target => insert path key value target) header ⟨.header, root⟩

end Toml

end SwiftForge
