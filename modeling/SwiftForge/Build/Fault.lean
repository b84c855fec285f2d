import SwiftForge.Tree.Rule

/-!
Building trees step by step. A step that breaks a rule ends the building with a fault.
-/

namespace SwiftForge

/-- What a place holds exactly one of. -/
inductive Wanted where
  | expression
  | pattern
deriving DecidableEq, Repr

def Wanted.text : Wanted → String
  | .expression => "expression"
  | .pattern => "pattern"

inductive BuildFault where
  | breach (breach : Breach)
  /-- A second raw value for one enum case. -/
  | rawValueTwice (name : String)
  /-- A raw value for an enum case with associated values. -/
  | rawValueOnPayload (name : String)
  /-- An associated value for an enum case with a raw value. -/
  | payloadOnRawValue (name : String)
  /-- A place for one node got another number of them. -/
  | notSingle (place : Place) (wanted : Wanted) (count : Nat)
  /-- `rethrows` with an error type. -/
  | typedRethrows (error : TypeRef)

def BuildFault.message : BuildFault → String
  | .breach b => b.message
  | .rawValueTwice name => "case `" ++ name ++ "` already has a raw value"
  | .rawValueOnPayload name =>
    "case `" ++ name ++ "` has associated values and cannot take a raw value"
  | .payloadOnRawValue name =>
    "case `" ++ name ++ "` has a raw value and cannot take associated values"
  | .notSingle place wanted count =>
    place.text ++ " must yield exactly one " ++ wanted.text ++ ", got " ++ Decimal.intText count
  | .typedRethrows error => "`rethrows` cannot carry a typed error (got `" ++ error.text ++ "`)"

/-- The outcome of a building. -/
abbrev Built (α : Type) := Except BuildFault α

/-- A rule as a step of a building. -/
def Built.ofRule : Except Breach Unit → Built Unit
  | .ok () => .ok ()
  | .error b => .error (.breach b)

/-- The states that steps lead through, and the fault that ended them early. -/
def trace {α : Type} (start : α) : List (α → Built α) → List α × Option BuildFault
  | [] => ([], none)
  | step :: rest =>
    match step start with
    | .error fault => ([], some fault)
    | .ok next =>
      let (states, fault) := trace next rest
      (next :: states, fault)

end SwiftForge
