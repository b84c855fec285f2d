import SwiftForge.Build.Fault

/-!
Steps that several kinds of declarations share: comments, attributes, access, conformances, generic
parameters and effects.
-/

namespace SwiftForge

/-- Parts that take comments, documentation and attributes. -/
class Annotated (α : Type) where
  modifyDecor : (Decor → Decor) → α → α

/-- Parts that take an access level too. -/
class Accessible (α : Type) extends Annotated α

/-- Parts with a conformance clause. -/
class Conforming (α : Type) where
  modifyConformances : (List TypeRef → List TypeRef) → α → α

class Generic (α : Type) where
  modifyGenerics : (List GenericParam → List GenericParam) → α → α

class Effectful (α : Type) where
  modifyEffects : (Effects → Effects) → α → α

section

variable {α : Type}

/-- Adds a comment line above. -/
def withComment [Annotated α] (line : String) : α → α :=
  Annotated.modifyDecor fun d => { d with comments := d.comments ++ [line] }

/-- Adds a documentation line above. -/
def withDoc [Annotated α] (line : String) : α → α :=
  Annotated.modifyDecor fun d => { d with doc := d.doc ++ [line] }

def withAttribute [Annotated α] (a : Attribute) : α → α :=
  Annotated.modifyDecor fun d => { d with attributes := d.attributes ++ [a] }

/-- Sets the access level; the last one counts. -/
def withAccess [Accessible α] (level : AccessLevel) : α → α :=
  Annotated.modifyDecor fun d => { d with access := some level }

/-- Adds conformances in order; repeated ones stay. -/
def inheriting [Conforming α] (types : List TypeRef) : α → α :=
  Conforming.modifyConformances (· ++ types)

def withGeneric [Generic α] (param : GenericParam) : α → α :=
  Generic.modifyGenerics (· ++ [param])

end

/-! ### Effects -/

/-- The throwing part of an optional error type; `rethrows` takes none. -/
def Throws.ofParts (error : Option TypeRef) (rethrows : Bool) : Built Throws :=
  match error, rethrows with
  | none, true => .ok .rethrows
  | error, false => .ok (.throws error)
  | some error, true => .error (.typedRethrows error)

inductive EffectStep where
  | async
  | throwing (throws : Throws)

/-- The effects after a change. -/
def EffectStep.apply : EffectStep → Effects → Effects
  | .async, e => e.withAsync
  | .throwing t, e => e.withThrows t

/-- The effects after several changes. -/
def EffectStep.applyAll (steps : List EffectStep) (e : Effects) : Effects :=
  steps.foldl (fun e step => step.apply e) e

def withEffect {α : Type} [Effectful α] (step : EffectStep) : α → α :=
  Effectful.modifyEffects step.apply

end SwiftForge
