import SwiftForge.Proofs.Document.Nodes
import SwiftForge.Proofs.Tree.Floats

/-! What is written of a tree with other floats is what is written of the tree, with other floats: the floats of a text
    stand where the float literals of the tree do, and nothing else in a tree is written as a float. -/

namespace SwiftForge

open Document Json

section

variable {f : Double → Double}

/-! ### Members -/

namespace Json

theorem mapItems_eq (items : List Json) : mapItems f items = items.map (mapFloats f) := by
  induction items with
  | nil => rfl
  | cons item items ih => rw [mapItems, ih, List.map_cons]

theorem mapMembers_append (ms ns : Members) : mapMembers f (ms ++ ns) = mapMembers f ms ++ mapMembers f ns := by
  induction ms with
  | nil => rfl
  | cons m ms ih =>
    obtain ⟨key, value⟩ := m
    rw [List.cons_append, mapMembers, ih, mapMembers, List.cons_append]

theorem mapMembers_optional {key : String} (o : Option Json) :
    mapMembers f (optional key o) = optional key (o.map (mapFloats f)) := by
  cases o <;> rfl

theorem mapMembers_listField {key : String} (items : List Json) :
    mapMembers f (listField key items) = listField key (mapItems f items) := by
  cases items <;> rfl

/-- An option of values without floats. -/
theorem mapMembers_optional_map {key : String} {α : Type} {encode : α → Json}
    (h : ∀ x, (encode x).mapFloats f = encode x) (o : Option α) :
    mapMembers f (optional key (o.map encode)) = optional key (o.map encode) := by
  cases o with
  | none => rfl
  | some x => rw [mapMembers_optional, Option.map_some, Option.map_some, h]

/-- A list of values without floats. -/
theorem mapMembers_listField_map {key : String} {α : Type} {encode : α → Json}
    (h : ∀ x, (encode x).mapFloats f = encode x) (xs : List α) :
    mapMembers f (listField key (xs.map encode)) = listField key (xs.map encode) := by
  have hmap : (xs.map encode).map (mapFloats f) = xs.map encode := by
    rw [List.map_map]
    exact List.map_congr_left fun x _ => h x
  rw [mapMembers_listField, mapItems_eq, hmap]

theorem mapMembers_optional_text {key : String} (text : Option String) :
    mapMembers f (optional key (text.map .string)) = optional key (text.map .string) :=
  mapMembers_optional_map (fun _ => rfl) text

theorem mapMembers_textsField {key : String} (texts : List String) :
    mapMembers f (textsField key texts) = textsField key texts :=
  mapMembers_listField_map (fun _ => rfl) texts

end Json

/-! ### Heads -/

/-- What is loaded without parts holds no floats. -/
theorem Document.Loads.mapFloats_eq {α : Type} {d : Load α} {j : Json} {value : α} (h : Loads 0 d j [] value) :
    j.mapFloats f = j :=
  mapFloats_eq_self j (h.spellable (by simp))

theorem TypeRef.encode_mapFloats (t : TypeRef) : t.encode.mapFloats f = t.encode :=
  (t.loads (Nat.zero_le _)).mapFloats_eq

theorem Effects.encode_mapFloats (e : Effects) : e.encode.mapFloats f = e.encode :=
  (e.loads (Nat.zero_le _)).mapFloats_eq

theorem Decor.encode_mapFloats (d : Decor) : d.encode.mapFloats f = d.encode := d.loads.mapFloats_eq

theorem mapMembers_typesField {key : String} (types : List TypeRef) :
    mapMembers f (typesField key types) = typesField key types := by
  rw [typesField, TypeRef.encodeAll_eq]
  exact mapMembers_listField_map TypeRef.encode_mapFloats types

theorem mapMembers_genericsField (params : List GenericParam) :
    mapMembers f (genericsField params) = genericsField params :=
  mapMembers_listField_map (fun p => (p.loads (Nat.zero_le _)).mapFloats_eq) params

theorem TypeHead.fields_mapFloats (h : TypeHead) : mapMembers f h.fields = h.fields := by
  have hflag : mapMembers f h.flavor.flag = h.flavor.flag := by cases h.flavor <;> rfl
  simp only [fields, field, mapMembers_append, mapMembers, mapFloats, h.decor.encode_mapFloats, hflag,
    mapMembers_genericsField, mapMembers_typesField]

theorem ProtocolHead.fields_mapFloats (h : ProtocolHead) : mapMembers f h.fields = h.fields := by
  simp only [fields, field, mapMembers_append, mapMembers, mapFloats, h.decor.encode_mapFloats, mapMembers_typesField]

theorem ExtensionHead.fields_mapFloats (h : ExtensionHead) : mapMembers f h.fields = h.fields := by
  simp only [fields, field, mapMembers_append, mapMembers, h.extended.encode_mapFloats, h.decor.encode_mapFloats,
    mapMembers_typesField, mapMembers_textsField]

theorem FunctionHead.fields_mapFloats (h : FunctionHead) (params : Members) :
    mapMembers f (h.fields params) = h.fields (mapMembers f params) := by
  simp only [fields, field, mapMembers_append, mapMembers, mapFloats, h.decor.encode_mapFloats,
    h.effects.encode_mapFloats, mapMembers_genericsField, mapMembers_optional_map TypeRef.encode_mapFloats]

theorem InitHead.fields_mapFloats (h : InitHead) (params : Members) :
    mapMembers f (h.fields params) = h.fields (mapMembers f params) := by
  simp only [fields, field, mapMembers_append, mapMembers, mapFloats, h.decor.encode_mapFloats,
    h.effects.encode_mapFloats]

theorem PropertyHead.fields_mapFloats (h : PropertyHead) (value : Members) :
    mapMembers f (h.fields value) = h.fields (mapMembers f value) := by
  simp only [fields, field, mapMembers_append, mapMembers, mapFloats, h.decor.encode_mapFloats,
    mapMembers_optional_map TypeRef.encode_mapFloats]

theorem ClosureHead.fields_mapFloats (h : ClosureHead) : mapMembers f h.fields = h.fields := by
  simp only [fields, field, mapMembers_append, mapMembers, h.effects.encode_mapFloats,
    mapMembers_listField_map (fun a : Attribute => a.loads.mapFloats_eq),
    mapMembers_listField_map (fun c : Capture => c.loads.mapFloats_eq),
    mapMembers_listField_map (fun p : ClosureParam => (p.loads (Nat.zero_le _)).mapFloats_eq),
    mapMembers_optional_map TypeRef.encode_mapFloats]

/-- The names of a tuple assignment, the payload of a case and the label of a jump. -/
theorem mapItems_texts (texts : List String) : mapItems f (texts.map .string) = texts.map .string := by
  rw [mapItems_eq, List.map_map]
  exact List.map_congr_left fun _ _ => rfl

/-- The branches of a chain, and its last block, keep their places. -/
theorem mapMembers_nestElse (branches : List Members) (last : Option Json) :
    mapMembers f (nestElse branches last) = nestElse (branches.map (mapMembers f)) (last.map (mapFloats f)) := by
  induction branches with
  | nil => cases last <;> rfl
  | cons branch branches ih =>
    simp only [nestElse, field, tagged, mapMembers, mapFloats, mapMembers_append, ih, List.map_cons]

/-! ### Nodes -/

mutual

/-- What is written of a node with other floats is what is written of the node, with other floats. -/
theorem Node.encode_mapFloats : (n : Node) → (n.mapFloats f).encode = n.encode.mapFloats f
  | .typeDecl head members => by
    simp only [Node.mapFloats, Node.encode, tagged, mapFloats, mapMembers, mapMembers_append, head.fields_mapFloats,
      nodesField_withFloats members]
  | .enumCase head rawValue => by
    have hpayload (values : List AssociatedValue) : mapMembers f
        (listField "associated_values" (values.map AssociatedValue.encode)) = _ :=
      mapMembers_listField_map (fun v => (v.loads (Nat.zero_le _)).mapFloats_eq) values
    simp only [Node.mapFloats, Node.encode, tagged, field, mapFloats, mapMembers, mapMembers_append,
      head.decor.encode_mapFloats, hpayload, rawValueField_withFloats rawValue]
  | .protocolDecl head members => by
    simp only [Node.mapFloats, Node.encode, tagged, mapFloats, mapMembers, mapMembers_append, head.fields_mapFloats,
      nodesField_withFloats members]
  | .associatedType decl => congrArg (tagged "associated_type") (decl.loads (Nat.zero_le _)).mapFloats_eq.symm
  | .extensionDecl head members => by
    simp only [Node.mapFloats, Node.encode, tagged, mapFloats, mapMembers, mapMembers_append, head.fields_mapFloats,
      nodesField_withFloats members]
  | .function head params body => by
    simp only [Node.mapFloats, Node.encode, tagged, mapFloats, mapMembers, mapMembers_append, head.fields_mapFloats,
      mapMembers_listField, encodeParams_withFloats params, nodesField_withFloats body]
  | .initializer head params body => by
    simp only [Node.mapFloats, Node.encode, tagged, mapFloats, mapMembers, mapMembers_append, head.fields_mapFloats,
      mapMembers_listField, encodeParams_withFloats params, nodesField_withFloats body]
  | .property head value getter => by
    simp only [Node.mapFloats, Node.encode, tagged, mapFloats, mapMembers, mapMembers_append, head.fields_mapFloats,
      nodeField?_withFloats value, nodesField?_withFloats getter]
  | .typeAlias decl => congrArg (tagged "type_alias") (decl.loads (Nat.zero_le _)).mapFloats_eq.symm
  | .importDecl decl => congrArg (tagged "import") decl.loads.mapFloats_eq.symm
  | .expression e => Expr.encode_mapFloats e
  | .assignment target op value => by
    simp only [Node.mapFloats, Node.encode, tagged, mapFloats, mapMembers, target.encode_mapFloats,
      value.encode_mapFloats]
  | .tupleAssignment names value mode => by
    simp only [Node.mapFloats, Node.encode, tagged, mapFloats, mapMembers, mapItems_texts, value.encode_mapFloats]
  | .ifStmt first elseIfs otherwise => by
    simp only [Node.mapFloats, Node.encode, tagged, mapFloats, mapMembers, mapMembers_append, mapMembers_nestElse,
      Branch.fields_withFloats first, encodeBranches_withFloats elseIfs, encodeBlock?_withFloats otherwise]
  | .guardStmt conditions otherwise => by
    simp only [Node.mapFloats, Node.encode, tagged, field, mapFloats, mapMembers, mapMembers_append,
      encodeConditions_withFloats conditions, nodesField_withFloats otherwise]
  | .loop style condition body => by
    simp only [Node.mapFloats, Node.encode, tagged, field, mapFloats, mapMembers, mapMembers_append,
      condition.encode_mapFloats, nodesField_withFloats body]
  | .forIn pattern sequence filter body => by
    simp only [Node.mapFloats, Node.encode, tagged, field, mapFloats, mapMembers, mapMembers_append,
      pattern.encode_mapFloats, sequence.encode_mapFloats, nodeField?_withFloats filter, nodesField_withFloats body]
  | .switchStmt subject cases default => by
    simp only [Node.mapFloats, Node.encode, tagged, field, mapFloats, mapMembers, mapMembers_append,
      mapMembers_listField, subject.encode_mapFloats, encodeCases_withFloats cases, nodesField?_withFloats default]
  | .doCatch body catches => by
    simp only [Node.mapFloats, Node.encode, tagged, mapFloats, mapMembers, mapMembers_append, mapMembers_listField,
      nodesField_withFloats body, encodeCatches_withFloats catches]
  | .returnStmt value => by
    simp only [Node.mapFloats, Node.encode, tagged, mapFloats, mapMembers, nodeField?_withFloats value]
  | .throwStmt error => by
    simp only [Node.mapFloats, Node.encode, tagged, mapFloats, mapMembers, error.encode_mapFloats]
  | .jump _ label => by cases label <;> rfl
  | .deferStmt body => by
    simp only [Node.mapFloats, Node.encode, tagged, mapFloats, mapMembers, nodesField_withFloats body]
  | .pattern p => congrArg (tagged "pattern") (Pattern.encode_mapFloats p)
  | .comment _ => rfl
  | .blank => rfl
  | .raw _ => rfl
  | .empty => rfl

theorem encodeNodes_withFloats : (nodes : List Node) →
    encodeNodes (nodesWithFloats f nodes) = mapItems f (encodeNodes nodes)
  | [] => rfl
  | node :: rest => congrArg₂ List.cons node.encode_mapFloats (encodeNodes_withFloats rest)

theorem nodesField_withFloats {key : String} : (nodes : List Node) →
    nodesField key (nodesWithFloats f nodes) = mapMembers f (nodesField key nodes)
  | [] => rfl
  | node :: rest => by
    simp only [nodesWithFloats, nodesField, mapMembers, mapFloats, mapItems, node.encode_mapFloats,
      encodeNodes_withFloats rest]

theorem nodesField?_withFloats {key : String} : (block : Option (List Node)) →
    nodesField? key (blockWithFloats? f block) = mapMembers f (nodesField? key block)
  | none => rfl
  | some body => by
    simp only [blockWithFloats?, nodesField?, mapMembers, mapFloats, encodeNodes_withFloats body]

theorem encodeBlock?_withFloats : (block : Option (List Node)) →
    encodeBlock? (blockWithFloats? f block) = (encodeBlock? block).map (mapFloats f)
  | none => rfl
  | some body => congrArg (some ∘ Json.array) (encodeNodes_withFloats body)

theorem nodeField?_withFloats {key : String} : (node : Option Node) →
    nodeField? key (nodeWithFloats? f node) = mapMembers f (nodeField? key node)
  | none => rfl
  | some node => congrArg (fun j => [(key, j)]) node.encode_mapFloats

theorem encodeNode?_withFloats : (node : Option Node) →
    encodeNode? (nodeWithFloats? f node) = (encodeNode? node).mapFloats f
  | none => rfl
  | some node => node.encode_mapFloats

theorem rawValueField_withFloats : (value : Option Literal) →
    rawValueField (literalWithFloats? f value) = mapMembers f (rawValueField value)
  | none => rfl
  | some value => congrArg (fun j => [("raw_value", j)]) (Literal.encode_mapFloats value)

theorem encodeParams_withFloats : (params : List Param) →
    encodeParams (paramsWithFloats f params) = mapItems f (encodeParams params)
  | [] => rfl
  | ⟨head, default⟩ :: rest => by
    simp only [paramsWithFloats, encodeParams, Param.mapFloats, Param.encode, field, mapItems, mapFloats, mapMembers,
      mapMembers_append, mapMembers_optional_text, head.ty.encode_mapFloats,
      nodeField?_withFloats default, encodeParams_withFloats rest]

theorem Condition.encode_mapFloats : (c : Condition) → (c.mapFloats f).encode = c.encode.mapFloats f
  | .expr value => congrArg (tagged "expr") value.encode_mapFloats
  | .binding _ _ value => by
    simp only [Condition.mapFloats, Condition.encode, tagged, mapFloats, mapMembers, encodeNode?_withFloats value]
  | .caseMatch pattern value => by
    simp only [Condition.mapFloats, Condition.encode, tagged, mapFloats, mapMembers, pattern.encode_mapFloats,
      value.encode_mapFloats]

theorem encodeConditions_withFloats : (conditions : List Condition) →
    encodeConditions (conditionsWithFloats f conditions) = mapItems f (encodeConditions conditions)
  | [] => rfl
  | condition :: rest =>
    congrArg₂ List.cons (Condition.encode_mapFloats condition) (encodeConditions_withFloats rest)

theorem Branch.fields_withFloats : (b : Branch) → (b.mapFloats f).fields = mapMembers f b.fields
  | ⟨conditions, body⟩ => by
    simp only [Branch.mapFloats, Branch.fields, field, mapMembers, mapFloats, mapMembers_append,
      encodeConditions_withFloats conditions, nodesField_withFloats body]

theorem encodeBranches_withFloats : (branches : List Branch) →
    encodeBranches (branchesWithFloats f branches) = (encodeBranches branches).map (mapMembers f)
  | [] => rfl
  | branch :: rest => congrArg₂ List.cons (Branch.fields_withFloats branch) (encodeBranches_withFloats rest)

theorem encodeCases_withFloats : (cases : List SwitchCase) →
    encodeCases (casesWithFloats f cases) = mapItems f (encodeCases cases)
  | [] => rfl
  | ⟨patterns, guard, body⟩ :: rest => by
    simp only [casesWithFloats, encodeCases, SwitchCase.mapFloats, SwitchCase.encode, field, mapItems, mapFloats,
      mapMembers, mapMembers_append, encodeNodes_withFloats patterns, nodeField?_withFloats guard,
      nodesField_withFloats body, encodeCases_withFloats rest]

theorem encodeCatches_withFloats : (catches : List Catch) →
    encodeCatches (catchesWithFloats f catches) = mapItems f (encodeCatches catches)
  | [] => rfl
  | ⟨pattern, body⟩ :: rest => by
    simp only [catchesWithFloats, encodeCatches, Catch.mapFloats, Catch.encode, mapItems, mapFloats, mapMembers_append,
      nodeField?_withFloats pattern, nodesField_withFloats body, encodeCatches_withFloats rest]

theorem Expr.encode_mapFloats : (e : Expr) → (e.mapFloats f).encode = e.encode.mapFloats f
  | .literal value => congrArg (tagged "literal") (Literal.encode_mapFloats value)
  | .call callee args trailing effects => by
    have heffects : effects.encode.mapFloats f = effects.encode := effects.loads.mapFloats_eq
    simp only [Expr.mapFloats, Expr.encode, tagged, field, mapFloats, mapMembers, mapMembers_append,
      mapMembers_listField, callee.encode_mapFloats, encodeArguments_withFloats args, closureField?_withFloats trailing,
      heffects]
  | .member base _ => by
    simp only [Expr.mapFloats, Expr.encode, tagged, field, mapFloats, mapMembers, mapMembers_append,
      nodeField?_withFloats base]
  | .binary lhs _ rhs _ => by
    simp only [Expr.mapFloats, Expr.encode, tagged, mapFloats, mapMembers, lhs.encode_mapFloats, rhs.encode_mapFloats]
  | .unary _ operand => by
    simp only [Expr.mapFloats, Expr.encode, tagged, mapFloats, mapMembers, operand.encode_mapFloats]
  | .postfixed operand _ => by
    simp only [Expr.mapFloats, Expr.encode, tagged, mapFloats, mapMembers, operand.encode_mapFloats]
  | .closure k => congrArg (tagged "closure") (Closure.encode_mapFloats k)

theorem Literal.encode_mapFloats : (l : Literal) → (l.mapFloats f).encode = l.encode.mapFloats f
  | .tuple elements => congrArg (tagged "tuple" <| .array ·) (encodeNodes_withFloats elements)
  | .array elements => congrArg (tagged "array" <| .array ·) (encodeNodes_withFloats elements)
  | .dictionary entries => congrArg (tagged "dictionary" <| .array ·) (encodeEntries_withFloats entries)
  | .string _ => rfl
  | .integer _ => rfl
  | .float _ => rfl
  | .boolean _ => rfl
  | .nil => rfl
  | .reference _ => rfl

theorem encodeEntries_withFloats : (entries : List Entry) →
    encodeEntries (entriesWithFloats f entries) = mapItems f (encodeEntries entries)
  | [] => rfl
  | ⟨key, value⟩ :: rest => by
    simp only [entriesWithFloats, encodeEntries, Entry.mapFloats, Entry.encode, mapItems, mapFloats,
      key.encode_mapFloats, value.encode_mapFloats, encodeEntries_withFloats rest]

theorem encodeArguments_withFloats : (args : List Argument) →
    encodeArguments (argumentsWithFloats f args) = mapItems f (encodeArguments args)
  | [] => rfl
  | ⟨label, value⟩ :: rest => by
    simp only [argumentsWithFloats, encodeArguments, Argument.mapFloats, Argument.encode, field, mapItems, mapFloats,
      mapMembers, mapMembers_append, mapMembers_optional_text, value.encode_mapFloats,
      encodeArguments_withFloats rest]

theorem Closure.encode_mapFloats : (k : Closure) → (k.mapFloats f).encode = k.encode.mapFloats f
  | ⟨head, body⟩ => by
    simp only [Closure.mapFloats, Closure.encode, mapFloats, mapMembers_append, head.fields_mapFloats,
      nodesField_withFloats body]

theorem closureField?_withFloats {key : String} : (closure : Option Closure) →
    closureField? key (closureWithFloats? f closure) = mapMembers f (closureField? key closure)
  | none => rfl
  | some k => congrArg (fun j => [(key, j)]) (Closure.encode_mapFloats k)

theorem Pattern.encode_mapFloats : (p : Pattern) → (p.mapFloats f).encode = p.encode.mapFloats f
  | .identifier _ => rfl
  | .enumCase _ bindings => by
    simp only [Pattern.mapFloats, Pattern.encode, tagged, mapFloats, mapMembers, mapItems_texts]
  | .wildcard => rfl
  | .tuple elements => congrArg (tagged "tuple" <| .array ·) (encodePatterns_withFloats elements)
  | .expression value => congrArg (tagged "expression") value.encode_mapFloats

theorem encodePatterns_withFloats : (patterns : List Pattern) →
    encodePatterns (patternsWithFloats f patterns) = mapItems f (encodePatterns patterns)
  | [] => rfl
  | pattern :: rest => congrArg₂ List.cons (Pattern.encode_mapFloats pattern) (encodePatterns_withFloats rest)

end

theorem SourceFile.encode_mapFloats (file : SourceFile) : (file.mapFloats f).encode = file.encode.mapFloats f := by
  simp only [SourceFile.mapFloats, SourceFile.encode, Json.mapFloats, mapMembers_append, mapMembers_textsField,
    nodesField_withFloats file.nodes]

theorem SourceFile.parts_mapFloats (file : SourceFile) :
    (file.mapFloats f).parts = file.parts.map (Part.mapFloats f) := partsOfNodes_withFloats file.nodes

end

/-! ### Documents -/

namespace Document

/-- A document with other floats. -/
def mapFloats (f : Double → Double) : Document → Document
  | .nodes list => .nodes (nodesWithFloats f list)
  | .file source => .file (source.mapFloats f)

/-- A document with each float as it is read of its text. -/
def reread (d : Document) : Document := d.mapFloats Double.reread

variable {f : Double → Double}

theorem mapFloats_eq_self (d : Document) (h : ∀ p ∈ d.parts, p.FloatIn fun v => f v = v) : d.mapFloats f = d := by
  cases d with
  | nodes list => exact congrArg Document.nodes (nodesWithFloats_eq_self list h)
  | file source =>
    have hnodes : nodesWithFloats f source.nodes = source.nodes := nodesWithFloats_eq_self source.nodes h
    rw [mapFloats, SourceFile.mapFloats, hnodes]

end Document

end SwiftForge
