import SwiftForge.Proofs.Tree.Children
import SwiftForge.Tree.SourceFile

/-! The texts of a tree that its author chose: names, labels, operators, names of types, attributes and their arguments,
    comments, requirements, code taken as it is, string literals and modules. A node has texts of its own and those of
    the nodes below it. -/

namespace SwiftForge

mutual

def TypeRef.authored : TypeRef → List String
  | .named name => [name]
  | .optional wrapped => wrapped.authored
  | .array element => element.authored
  | .dictionary key value => key.authored ++ value.authored
  | .tuple elements => authoredOfTypes elements
  | .generic base args => base :: authoredOfTypes args
  | .function params effects returns => authoredOfTypes params ++ effects.authored ++ returns.authored

def authoredOfTypes : List TypeRef → List String
  | [] => []
  | t :: rest => t.authored ++ authoredOfTypes rest

def Throws.authored : Throws → List String
  | .throws (.some error) => error.authored
  | .throws .none => []
  | .rethrows => []

def Effects.authored : Effects → List String
  | .throws t => t.authored
  | .asyncThrows t => t.authored
  | .none => []
  | .async => []

end

/-! ### Heads -/

def authoredOfType? (t : Option TypeRef) : List String := t.toList.flatMap TypeRef.authored

def GenericParam.authored (p : GenericParam) : List String := p.name :: authoredOfTypes p.bounds

def Attribute.authored (a : Attribute) : List String := a.name :: a.args

def Decor.authored (d : Decor) : List String := d.comments ++ d.doc ++ d.attributes.flatMap Attribute.authored

def AssociatedValue.authored (v : AssociatedValue) : List String := v.name :: v.ty.authored

def AssociatedType.authored (t : AssociatedType) : List String :=
  t.name :: t.decor.authored ++ authoredOfTypes t.conformances

def TypeAlias.authored (t : TypeAlias) : List String :=
  t.name :: t.decor.authored ++ t.generics.flatMap GenericParam.authored ++ t.target.authored

def ImportDecl.authored (i : ImportDecl) : List String := i.moduleName :: i.decor.authored

def TypeHead.authored (h : TypeHead) : List String :=
  h.name :: h.decor.authored ++ h.generics.flatMap GenericParam.authored ++ authoredOfTypes h.conformances

def ProtocolHead.authored (h : ProtocolHead) : List String :=
  h.name :: h.decor.authored ++ authoredOfTypes h.conformances

def ExtensionHead.authored (h : ExtensionHead) : List String :=
  h.extended.authored ++ h.decor.authored ++ authoredOfTypes h.conformances ++ h.requirements

def CaseHead.authored (h : CaseHead) : List String :=
  h.name :: h.decor.authored ++ h.associatedValues.flatMap AssociatedValue.authored

def ParamHead.authored (h : ParamHead) : List String := h.label.toList ++ h.name :: h.ty.authored

def FunctionHead.authored (h : FunctionHead) : List String :=
  h.name :: h.decor.authored ++ h.generics.flatMap GenericParam.authored ++ h.effects.authored ++
    authoredOfType? h.returnType

def InitHead.authored (h : InitHead) : List String := h.decor.authored ++ h.effects.authored

def PropertyHead.authored (h : PropertyHead) : List String := h.name :: h.decor.authored ++ authoredOfType? h.ty

def ClosureParam.authored (p : ClosureParam) : List String := p.name :: authoredOfType? p.ty

def ClosureHead.authored (h : ClosureHead) : List String :=
  h.attributes.flatMap Attribute.authored ++ h.captures.map (·.name) ++ h.params.flatMap ClosureParam.authored ++
    h.effects.authored ++ authoredOfType? h.returnType

/-! ### Nodes -/

def Literal.own : Literal → List String
  | .string value => [value]
  | .reference name => [name]
  | _ => []

def Expr.own : Expr → List String
  | .literal value => value.own
  | .call _ args trailing _ => args.flatMap (·.label.toList) ++ trailing.toList.flatMap (·.head.authored)
  | .member _ name => [name]
  | .binary _ op _ _ => [op]
  | .unary op _ => [op]
  | .postfixed _ _ => []
  | .closure k => k.head.authored

def Condition.own : Condition → List String
  | .binding _ name _ => [name]
  | _ => []

mutual

def Pattern.own : Pattern → List String
  | .identifier name => [name]
  | .enumCase name bindings => name :: bindings
  | .tuple elements => ownOfPatterns elements
  | _ => []

def ownOfPatterns : List Pattern → List String
  | [] => []
  | p :: rest => p.own ++ ownOfPatterns rest

end

/-- The authored texts of a node that do not belong to a node below it. -/
def Node.own : Node → List String
  | .typeDecl head _ => head.authored
  | .enumCase head rawValue => head.authored ++ rawValue.toList.flatMap Literal.own
  | .protocolDecl head _ => head.authored
  | .associatedType decl => decl.authored
  | .extensionDecl head _ => head.authored
  | .function head params _ => head.authored ++ params.flatMap (·.head.authored)
  | .initializer head params _ => head.authored ++ params.flatMap (·.head.authored)
  | .property head _ _ => head.authored
  | .typeAlias decl => decl.authored
  | .importDecl decl => decl.authored
  | .expression e => e.own
  | .assignment _ op _ => [op]
  | .tupleAssignment names _ _ => names
  | .ifStmt first elseIfs _ => (first :: elseIfs).flatMap fun b => b.conditions.flatMap Condition.own
  | .guardStmt conditions _ => conditions.flatMap Condition.own
  | .jump _ label => label.toList
  | .pattern p => p.own
  | .comment text => [text]
  | .raw code => [code]
  | _ => []

/-- All authored texts of a tree. -/
def Node.authored (n : Node) : List String :=
  n.own ++ n.children.attach.flatMap fun c => Node.authored c.1
termination_by sizeOf n
decreasing_by exact Node.sizeOf_child n c.2

theorem Node.authored_eq (n : Node) : n.authored = n.own ++ n.children.flatMap Node.authored := by
  rw [Node.authored, List.flatMap_subtype, List.unattach_attach]
  intro c hc
  rfl

def SourceFile.authored (file : SourceFile) : List String :=
  file.header ++ file.imports ++ file.nodes.flatMap Node.authored

end SwiftForge
