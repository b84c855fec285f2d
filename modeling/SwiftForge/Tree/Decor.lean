import SwiftForge.Layout.Fragment

/-!
What stands around a declaration: comments, documentation, attributes and an access level.
-/

namespace SwiftForge

/-- Who may use a declaration. -/
inductive AccessLevel where
  | openLevel
  | publicLevel
  | packageLevel
  | internalLevel
  | fileprivateLevel
  | privateLevel
deriving BEq, DecidableEq, Repr

namespace AccessLevel

/-- The levels from the widest to the narrowest. -/
def all : List AccessLevel :=
  [.openLevel, .publicLevel, .packageLevel, .internalLevel, .fileprivateLevel, .privateLevel]

def keyword : AccessLevel → String
  | .openLevel => "open"
  | .publicLevel => "public"
  | .packageLevel => "package"
  | .internalLevel => "internal"
  | .fileprivateLevel => "fileprivate"
  | .privateLevel => "private"

end AccessLevel

/-- An attribute such as `@MainActor` or `@available(iOS 17, *)`. -/
structure Attribute where
  name : String
  args : List String := []
deriving BEq, DecidableEq, Repr

/-- The Swift spelling; parentheses only with arguments. -/
def Attribute.text (a : Attribute) : String :=
  if a.args.isEmpty then "@" ++ a.name
  else "@" ++ a.name ++ "(" ++ Text.joinWith ", " a.args ++ ")"

/-- Comments, documentation, attributes and access level of a declaration. -/
structure Decor where
  comments : List String := []
  doc : List String := []
  attributes : List Attribute := []
  access : Option AccessLevel := none
deriving BEq, DecidableEq, Repr, Inhabited

namespace Decor

/-- The lines above a declaration: comments, documentation, attributes. -/
def leading (d : Decor) : List Fragment :=
  d.comments.flatMap Fragment.comments ++ d.doc.flatMap Fragment.docComments ++
    d.attributes.map fun a => .line a.text

/-- The access keyword and a space, or nothing. -/
def accessLead (d : Decor) : String :=
  match d.access with
  | some level => level.keyword ++ " "
  | none => ""

end Decor

end SwiftForge
