import SwiftForge.Build.Decorate

/-!
Steps that build declarations.
-/

namespace SwiftForge

instance : Accessible TypeDecl where
  modifyDecor f d := { d with decor := f d.decor }

instance : Conforming TypeDecl where
  modifyConformances f d := { d with conformances := f d.conformances }

instance : Generic TypeDecl where
  modifyGenerics f d := { d with generics := f d.generics }

instance : Accessible ProtocolDecl where
  modifyDecor f d := { d with decor := f d.decor }

instance : Conforming ProtocolDecl where
  modifyConformances f d := { d with conformances := f d.conformances }

instance : Accessible AssociatedType where
  modifyDecor f d := { d with decor := f d.decor }

instance : Conforming AssociatedType where
  modifyConformances f d := { d with conformances := f d.conformances }

instance : Accessible ExtensionDecl where
  modifyDecor f d := { d with decor := f d.decor }

instance : Conforming ExtensionDecl where
  modifyConformances f d := { d with conformances := f d.conformances }

instance : Accessible FunctionDecl where
  modifyDecor f d := { d with decor := f d.decor }

instance : Generic FunctionDecl where
  modifyGenerics f d := { d with generics := f d.generics }

instance : Effectful FunctionDecl where
  modifyEffects f d := { d with effects := f d.effects }

instance : Accessible InitDecl where
  modifyDecor f d := { d with decor := f d.decor }

instance : Effectful InitDecl where
  modifyEffects f d := { d with effects := f d.effects }

instance : Accessible Property where
  modifyDecor f d := { d with decor := f d.decor }

instance : Accessible TypeAlias where
  modifyDecor f d := { d with decor := f d.decor }

instance : Generic TypeAlias where
  modifyGenerics f d := { d with generics := f d.generics }

instance : Accessible ImportDecl where
  modifyDecor f d := { d with decor := f d.decor }

/-- Enum cases take comments and attributes but no access level. -/
instance : Annotated EnumCase where
  modifyDecor f c := { c with decor := f c.decor }

/-! ### Types -/

namespace TypeDecl

def newStruct (name : String) : TypeDecl := { flavor := .structType, name }

def newClass (name : String) : TypeDecl := { flavor := .classType false, name }

def newEnum (name : String) : TypeDecl := { flavor := .enumType false, name }

def makeFinal (d : TypeDecl) : TypeDecl :=
  match d.flavor with
  | .classType _ => { d with flavor := .classType true }
  | _ => d

def makeIndirect (d : TypeDecl) : TypeDecl :=
  match d.flavor with
  | .enumType _ => { d with flavor := .enumType true }
  | _ => d

def addMembers (members : List Node) (d : TypeDecl) : TypeDecl :=
  { d with members := d.members ++ members }

end TypeDecl

def ProtocolDecl.addMembers (members : List Node) (d : ProtocolDecl) : ProtocolDecl :=
  { d with members := d.members ++ members }

namespace ExtensionDecl

/-- Adds a requirement to the `where` clause. -/
def addRequirement (requirement : String) (d : ExtensionDecl) : ExtensionDecl :=
  { d with requirements := d.requirements ++ [requirement] }

def addMembers (members : List Node) (d : ExtensionDecl) : ExtensionDecl :=
  { d with members := d.members ++ members }

end ExtensionDecl

/-! ### Enum cases -/

namespace EnumCase

/-- Sets the raw value: a plain literal, once, and without associated values. -/
def setRawValue (value : Literal) (c : EnumCase) : Built EnumCase :=
  if !value.isRawValue then .error (.breach (.caseRawKind c.name value.kindName))
  else if c.rawValue.isSome then .error (.rawValueTwice c.name)
  else if !c.associatedValues.isEmpty then .error (.rawValueOnPayload c.name)
  else .ok { c with rawValue := some value }

/-- Adds an associated value, unless there is a raw value. -/
def addAssociatedValue (value : AssociatedValue) (c : EnumCase) : Built EnumCase :=
  if c.rawValue.isSome then .error (.payloadOnRawValue c.name)
  else .ok { c with associatedValues := c.associatedValues ++ [value] }

end EnumCase

/-! ### Functions -/

namespace Param

def new (name : String) (ty : TypeRef) : Param := { head := { name, ty } }

def withLabel (label : String) (p : Param) : Param :=
  { p with head := { p.head with label := some label } }

def unlabeled : Param → Param := withLabel "_"

def withDefault (value : Node) (p : Param) : Param := { p with default := some value }

def makeInout (p : Param) : Param := { p with head := { p.head with isInout := true } }

def makeVariadic (p : Param) : Param := { p with head := { p.head with isVariadic := true } }

end Param

namespace FunctionDecl

def addParams (params : List Param) (d : FunctionDecl) : FunctionDecl :=
  { d with params := d.params ++ params }

def returning (ty : TypeRef) (d : FunctionDecl) : FunctionDecl := { d with returnType := some ty }

def makeStatic (d : FunctionDecl) : FunctionDecl := { d with isStatic := true }

def makeOverride (d : FunctionDecl) : FunctionDecl := { d with isOverride := true }

def makeMutating (d : FunctionDecl) : FunctionDecl := { d with isMutating := true }

def addBody (body : List Node) (d : FunctionDecl) : FunctionDecl := { d with body := d.body ++ body }

end FunctionDecl

namespace InitDecl

def addParam (param : Param) (d : InitDecl) : InitDecl := { d with params := d.params ++ [param] }

def makeFailable (d : InitDecl) : InitDecl := { d with isFailable := true }

def makeConvenience (d : InitDecl) : InitDecl := { d with isConvenience := true }

def addBody (body : List Node) (d : InitDecl) : InitDecl := { d with body := d.body ++ body }

end InitDecl

/-! ### Properties -/

namespace Property

def newLet (name : String) : Property := { name, binding := .letBinding }

def newVar (name : String) : Property := { name, binding := .varBinding }

def withType (ty : TypeRef) (p : Property) : Property := { p with ty := some ty }

def withValue (value : Node) (p : Property) : Property := { p with value := some value }

def makeStatic (p : Property) : Property := { p with isStatic := true }

def makeLazy (p : Property) : Property := { p with isLazy := true }

def makeWeak (p : Property) : Property := { p with isWeak := true }

/-- Makes the property computed. Whether it may be is settled before the getter is put together. -/
def withGetter (body : Built (List Node)) (p : Property) : Built Property := do
  Built.ofRule p.checkComputable
  let body ← body
  pure { p with getter := some body }

end Property

end SwiftForge
