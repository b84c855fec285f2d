import SwiftForge.Build.Decl
import SwiftForge.Build.Expr
import SwiftForge.Build.File
import SwiftForge.Build.Stmt
import SwiftForge.Document.Decode
import SwiftForge.Proofs.Tree.Children

/-! What calls can put together. For each kind of part, the parts that some sequence of its calls ends with; a call
    that ends with a fault leads nowhere. The nodes handed to the calls are those of a predicate, so the calls on
    parts are apart from the question where the nodes come from. -/

namespace SwiftForge

section

variable (P : Node → Prop)

/-! ### Scripts -/

namespace Script

mutual

/-- The outcomes that an operation is given, whether it uses them or not. -/
def stepOutcomes : Step → List (Built Node)
  | .push node => [node]
  | .pushOptional node => node.toList
  | .extend nodes => nodes
  | .append script => outcomes script
  | .onlyIf _ script => outcomes script
  | .either _ yes no => outcomes yes ++ outcomes no
  | .each scripts => outcomesOfEach scripts

def outcomes : List Step → List (Built Node)
  | [] => []
  | step :: rest => stepOutcomes step ++ outcomes rest

def outcomesOfEach : List (List Step) → List (Built Node)
  | [] => []
  | script :: rest => outcomes script ++ outcomesOfEach rest

end

/-- Some script over the given nodes puts the list together. -/
def Makes (nodes : List Node) : Prop :=
  ∃ script : Script, (∀ n, .ok n ∈ outcomes script → P n) ∧ script.run = .ok nodes

end Script

/-! ### Shared calls -/

section

variable {α : Type}

/-- Calls that add a comment line, a documentation line or an attribute. -/
inductive Annotates [Annotated α] : (α → α) → Prop
  | withComment (line : String) : Annotates (withComment line)
  | withDoc (line : String) : Annotates (withDoc line)
  | withAttribute (a : Attribute) : Annotates (withAttribute a)

/-- Calls that annotate a declaration or set its access level. -/
inductive Decorates [Accessible α] : (α → α) → Prop
  | annotate {f : α → α} (hf : Annotates f) : Decorates f
  | withAccess (level : AccessLevel) : Decorates (withAccess level)

end

/-! ### Declarations -/

inductive TypeDecl.Made : TypeDecl → Prop
  | newStruct (name : String) : Made (.newStruct name)
  | newClass (name : String) : Made (.newClass name)
  | newEnum (name : String) : Made (.newEnum name)
  | makeFinal {d : TypeDecl} (hd : Made d) : Made d.makeFinal
  | makeIndirect {d : TypeDecl} (hd : Made d) : Made d.makeIndirect
  | addMembers {d : TypeDecl} {members : List Node} (hd : Made d) (hmembers : Script.Makes P members) :
    Made (d.addMembers members)
  | decorate {d : TypeDecl} {f : TypeDecl → TypeDecl} (hd : Made d) (hf : Decorates f) : Made (f d)
  | inherit {d : TypeDecl} (types : List TypeRef) (hd : Made d) : Made (inheriting types d)
  | generic {d : TypeDecl} (param : GenericParam) (hd : Made d) : Made (withGeneric param d)

/-- A call on an enum case. -/
inductive EnumCase.Edit where
  | setRawValue (value : Literal)
  | addAssociatedValue (value : AssociatedValue)
  | withComment (line : String)
  | withDoc (line : String)
  | withAttribute (a : Attribute)

namespace EnumCase

/-- The case after a call. -/
def Edit.apply : Edit → EnumCase → Built EnumCase
  | .setRawValue value, c => c.setRawValue value
  | .addAssociatedValue value, c => c.addAssociatedValue value
  | .withComment line, c => .ok (SwiftForge.withComment line c)
  | .withDoc line, c => .ok (SwiftForge.withDoc line c)
  | .withAttribute a, c => .ok (SwiftForge.withAttribute a c)

def Edit.children : Edit → List Node
  | .setRawValue value => value.children
  | _ => []

/-- The case after several calls. -/
def chain (edits : List Edit) (c : EnumCase) : Built EnumCase := edits.foldlM (fun c edit => edit.apply c) c

/-- The cases that calls lead to, from a case that has but its name. -/
def Made (c : EnumCase) : Prop :=
  ∃ name edits, (∀ edit ∈ edits, ∀ n ∈ Edit.children edit, P n) ∧ chain edits { name } = .ok c

end EnumCase

inductive ProtocolDecl.Made : ProtocolDecl → Prop
  | new (name : String) : Made { name }
  | addMembers {d : ProtocolDecl} {members : List Node} (hd : Made d) (hmembers : Script.Makes P members) :
    Made (d.addMembers members)
  | decorate {d : ProtocolDecl} {f : ProtocolDecl → ProtocolDecl} (hd : Made d) (hf : Decorates f) : Made (f d)
  | inherit {d : ProtocolDecl} (types : List TypeRef) (hd : Made d) : Made (inheriting types d)

inductive ExtensionDecl.Made : ExtensionDecl → Prop
  | new (extended : TypeRef) : Made { extended }
  | addRequirement {d : ExtensionDecl} (requirement : String) (hd : Made d) : Made (d.addRequirement requirement)
  | addMembers {d : ExtensionDecl} {members : List Node} (hd : Made d) (hmembers : Script.Makes P members) :
    Made (d.addMembers members)
  | decorate {d : ExtensionDecl} {f : ExtensionDecl → ExtensionDecl} (hd : Made d) (hf : Decorates f) : Made (f d)
  | inherit {d : ExtensionDecl} (types : List TypeRef) (hd : Made d) : Made (inheriting types d)

/-- `unlabeled` is the label `_`. -/
inductive Param.Made : Param → Prop
  | new (name : String) (ty : TypeRef) : Made (.new name ty)
  | withLabel {p : Param} (label : String) (hp : Made p) : Made (p.withLabel label)
  | withDefault {p : Param} {value : Node} (hp : Made p) (hvalue : P value) : Made (p.withDefault value)
  | makeInout {p : Param} (hp : Made p) : Made p.makeInout
  | makeVariadic {p : Param} (hp : Made p) : Made p.makeVariadic

inductive FunctionDecl.Made : FunctionDecl → Prop
  | new (name : String) : Made { name }
  | addParams {d : FunctionDecl} {params : List Param} (hd : Made d) (hparams : ∀ p ∈ params, Param.Made P p) :
    Made (d.addParams params)
  | returning {d : FunctionDecl} (ty : TypeRef) (hd : Made d) : Made (d.returning ty)
  | makeStatic {d : FunctionDecl} (hd : Made d) : Made d.makeStatic
  | makeOverride {d : FunctionDecl} (hd : Made d) : Made d.makeOverride
  | makeMutating {d : FunctionDecl} (hd : Made d) : Made d.makeMutating
  | addBody {d : FunctionDecl} {body : List Node} (hd : Made d) (hbody : Script.Makes P body) : Made (d.addBody body)
  | decorate {d : FunctionDecl} {f : FunctionDecl → FunctionDecl} (hd : Made d) (hf : Decorates f) : Made (f d)
  | generic {d : FunctionDecl} (param : GenericParam) (hd : Made d) : Made (withGeneric param d)
  | effect {d : FunctionDecl} (step : EffectStep) (hd : Made d) : Made (withEffect step d)

inductive InitDecl.Made : InitDecl → Prop
  | new : Made {}
  | makeFailable {d : InitDecl} (hd : Made d) : Made d.makeFailable
  | makeConvenience {d : InitDecl} (hd : Made d) : Made d.makeConvenience
  | addParam {d : InitDecl} {param : Param} (hd : Made d) (hparam : Param.Made P param) : Made (d.addParam param)
  | addBody {d : InitDecl} {body : List Node} (hd : Made d) (hbody : Script.Makes P body) : Made (d.addBody body)
  | decorate {d : InitDecl} {f : InitDecl → InitDecl} (hd : Made d) (hf : Decorates f) : Made (f d)
  | effect {d : InitDecl} (step : EffectStep) (hd : Made d) : Made (withEffect step d)

inductive Property.Made : Property → Prop
  | newLet (name : String) : Made (.newLet name)
  | newVar (name : String) : Made (.newVar name)
  | withType {p : Property} (ty : TypeRef) (hp : Made p) : Made (p.withType ty)
  | withValue {p : Property} {value : Node} (hp : Made p) (hvalue : P value) : Made (p.withValue value)
  | makeStatic {p : Property} (hp : Made p) : Made p.makeStatic
  | makeLazy {p : Property} (hp : Made p) : Made p.makeLazy
  | makeWeak {p : Property} (hp : Made p) : Made p.makeWeak
  | withGetter {p q : Property} {body : List Node} (hp : Made p) (hbody : Script.Makes P body)
    (hq : p.withGetter (.ok body) = .ok q) : Made q
  | decorate {p : Property} {f : Property → Property} (hp : Made p) (hf : Decorates f) : Made (f p)

/-! ### Expressions -/

inductive Closure.Made : Closure → Prop
  | new : Made {}
  | addCaptures {k : Closure} (captures : List Capture) (hk : Made k) : Made (k.addCaptures captures)
  | addParam {k : Closure} (param : ClosureParam) (hk : Made k) : Made (k.addParam param)
  | returning {k : Closure} (ty : TypeRef) (hk : Made k) : Made (k.returning ty)
  | addAttribute {k : Closure} (a : Attribute) (hk : Made k) : Made (k.addAttribute a)
  | addBody {k : Closure} {body : List Node} (hk : Made k) (hbody : Script.Makes P body) : Made (k.addBody body)
  | effect {k : Closure} (step : EffectStep) (hk : Made k) : Made (withEffect step k)

inductive Call.Made : Call → Prop
  | new {callee : Node} (hcallee : P callee) : Made (.new callee)
  | named (name : String) : Made (.named name)
  | addArgument {c : Call} (label : Option String) {value : Node} (hc : Made c) (hvalue : P value) :
    Made (c.addArgument label value)
  | withTrailing {c : Call} {k : Closure} (hc : Made c) (hk : Closure.Made P k) : Made (c.withTrailing k)
  | makeTry {c : Call} (hc : Made c) : Made c.makeTry
  | makeAwait {c : Call} (hc : Made c) : Made c.makeAwait

inductive Binary.Made : Binary → Prop
  | new {lhs rhs : Node} (op : String) (hlhs : P lhs) (hrhs : P rhs) : Made { lhs, op, rhs }
  | parenthesize {b : Binary} (hb : Made b) : Made b.parenthesize

/-! ### Statements -/

inductive TupleAssignment.Made : TupleAssignment → Prop
  | new {names : List String} {value : Node} {a : TupleAssignment} (hvalue : P value)
    (ha : TupleAssignment.new names value = .ok a) : Made a
  | withMode {a : TupleAssignment} (mode : AssignmentMode) (ha : Made a) : Made (a.withMode mode)

inductive Condition.Made : Condition → Prop
  | expr {value : Node} (hvalue : P value) : Made (.expr value)
  | letBound (name : String) {value : Node} (hvalue : P value) : Made (.letBound name value)
  | unwrap (name : String) : Made (.unwrap name)
  | matching {pattern value : Node} {k : Condition} (hpattern : P pattern) (hvalue : P value)
    (hk : Condition.matching pattern value = .ok k) : Made k

inductive If.Made : If → Prop
  | new {k : Condition} (hk : Condition.Made P k) : Made (.new k)
  | addCondition {i : If} {k : Condition} (hi : Made i) (hk : Condition.Made P k) : Made (i.addCondition k)
  | addBody {i : If} {body : List Node} (hi : Made i) (hbody : Script.Makes P body) : Made (i.addBody body)
  | withElse {i : If} {body : List Node} (hi : Made i) (hbody : Script.Makes P body) : Made (i.withElse body)
  | withElseIf {i next : If} (hi : Made i) (hnext : Made next) : Made (i.withElseIf next)

inductive Guard.Made : Guard → Prop
  | new {k : Condition} (hk : Condition.Made P k) : Made (.new k)
  | addCondition {g : Guard} {k : Condition} (hg : Made g) (hk : Condition.Made P k) : Made (g.addCondition k)
  | addElse {g : Guard} {body : List Node} (hg : Made g) (hbody : Script.Makes P body) : Made (g.addElse body)

inductive ConditionLoop.Made : ConditionLoop → Prop
  | new {style : LoopStyle} {condition : List Node} {l : ConditionLoop} (hcondition : Script.Makes P condition)
    (hl : ConditionLoop.new style (.ok condition) = .ok l) : Made l
  | addBody {l : ConditionLoop} {body : List Node} (hl : Made l) (hbody : Script.Makes P body) :
    Made (l.addBody body)

inductive ForIn.Made : ForIn → Prop
  | new {pattern : List Node} {sequence : Node} {l : ForIn} (hpattern : Script.Makes P pattern)
    (hsequence : P sequence) (hl : ForIn.new (.ok pattern) sequence = .ok l) : Made l
  | binding {name : String} {sequence : Node} {l : ForIn} (hsequence : P sequence)
    (hl : ForIn.binding name sequence = .ok l) : Made l
  | withFilter {l : ForIn} {filter : Node} (hl : Made l) (hfilter : P filter) : Made (l.withFilter filter)
  | addBody {l : ForIn} {body : List Node} (hl : Made l) (hbody : Script.Makes P body) : Made (l.addBody body)

inductive SwitchCase.Made : SwitchCase → Prop
  | new {pattern : Node} {c : SwitchCase} (hpattern : P pattern) (hc : SwitchCase.new pattern = .ok c) : Made c
  | ofPatterns {patterns : List Node} {c : SwitchCase} (hpatterns : Script.Makes P patterns)
    (hc : SwitchCase.ofPatterns (.ok patterns) = .ok c) : Made c
  | addPattern {b c : SwitchCase} {pattern : Node} (hb : Made b) (hpattern : P pattern)
    (hc : b.addPattern pattern = .ok c) : Made c
  | withGuard {c : SwitchCase} {guard : Node} (hc : Made c) (hguard : P guard) : Made (c.withGuard guard)
  | addBody {c : SwitchCase} {body : List Node} (hc : Made c) (hbody : Script.Makes P body) : Made (c.addBody body)

inductive Switch.Made : Switch → Prop
  | new {subject : Node} (hsubject : P subject) : Made (.new subject)
  | addCase {s : Switch} {c : SwitchCase} (hs : Made s) (hc : SwitchCase.Made P c) : Made (s.addCase c)
  | addDefault {s : Switch} {body : List Node} (hs : Made s) (hbody : Script.Makes P body) : Made (s.addDefault body)

inductive Catch.Made : Catch → Prop
  | all : Made .all
  | matching {pattern : Node} {c : Catch} (hpattern : P pattern) (hc : Catch.matching pattern = .ok c) : Made c
  | addBody {c : Catch} {body : List Node} (hc : Made c) (hbody : Script.Makes P body) : Made (c.addBody body)

inductive DoCatch.Made : DoCatch → Prop
  | new : Made {}
  | addBody {d : DoCatch} {body : List Node} (hd : Made d) (hbody : Script.Makes P body) : Made (d.addBody body)
  | addCatch {d : DoCatch} {c : Catch} (hd : Made d) (hc : Catch.Made P c) : Made (d.addCatch c)

end

/-! ### Nodes and files -/

/-- The nodes that calls put together. A part becomes a node once its calls are over; the nodes that its calls are
    given were put together before, or loaded. Literals, patterns and the other nodes without steps of their own come
    about in one call. -/
inductive Node.Made : Node → Prop
  | loaded {text : String} {nodes : List Node} {n : Node} (h : Document.load text = .ok (.nodes nodes))
    (hn : n ∈ nodes) : Made n
  | typeDecl {P : Node → Prop} {d : TypeDecl} (hP : ∀ n, P n → Made n) (hd : d.Made P) : Made d.node
  | enumCase {P : Node → Prop} {c : EnumCase} (hP : ∀ n, P n → Made n) (hc : c.Made P) : Made c.node
  | protocolDecl {P : Node → Prop} {d : ProtocolDecl} (hP : ∀ n, P n → Made n) (hd : d.Made P) : Made d.node
  | associatedType (decl : AssociatedType) : Made (.associatedType decl)
  | extensionDecl {P : Node → Prop} {d : ExtensionDecl} (hP : ∀ n, P n → Made n) (hd : d.Made P) : Made d.node
  | function {P : Node → Prop} {d : FunctionDecl} (hP : ∀ n, P n → Made n) (hd : d.Made P) : Made d.node
  | initializer {P : Node → Prop} {d : InitDecl} (hP : ∀ n, P n → Made n) (hd : d.Made P) : Made d.node
  | property {P : Node → Prop} {p : Property} (hP : ∀ n, P n → Made n) (hp : p.Made P) : Made p.node
  | typeAlias (decl : TypeAlias) : Made (.typeAlias decl)
  | importDecl (decl : ImportDecl) : Made (.importDecl decl)
  | literal {l : Literal} (hl : ∀ n ∈ l.children, Made n) : Made l.node
  | call {P : Node → Prop} {c : Call} (hP : ∀ n, P n → Made n) (hc : c.Made P) : Made c.node
  | member {base : Option Node} (name : String) (hbase : ∀ n ∈ base, Made n) : Made (.expression (.member base name))
  | binary {P : Node → Prop} {b : Binary} (hP : ∀ n, P n → Made n) (hb : b.Made P) : Made b.node
  | unary {operand : Node} (op : String) (hoperand : Made operand) : Made (.expression (.unary op operand))
  | postfixed {operand : Node} (mark : PostfixMark) (hoperand : Made operand) :
    Made (.expression (.postfixed operand mark))
  | closure {P : Node → Prop} {k : Closure} (hP : ∀ n, P n → Made n) (hk : k.Made P) : Made k.node
  | assignment {target value : Node} (op : String) (htarget : Made target) (hvalue : Made value) :
    Made (.assignment target op value)
  | tupleAssignment {P : Node → Prop} {a : TupleAssignment} (hP : ∀ n, P n → Made n) (ha : a.Made P) : Made a.node
  | ifStmt {P : Node → Prop} {i : If} (hP : ∀ n, P n → Made n) (hi : i.Made P) : Made i.node
  | guardStmt {P : Node → Prop} {g : Guard} (hP : ∀ n, P n → Made n) (hg : g.Made P) : Made g.node
  | loop {P : Node → Prop} {l : ConditionLoop} (hP : ∀ n, P n → Made n) (hl : l.Made P) : Made l.node
  | forIn {P : Node → Prop} {l : ForIn} (hP : ∀ n, P n → Made n) (hl : l.Made P) : Made l.node
  | switchStmt {P : Node → Prop} {s : Switch} (hP : ∀ n, P n → Made n) (hs : s.Made P) : Made s.node
  | doCatch {P : Node → Prop} {d : DoCatch} (hP : ∀ n, P n → Made n) (hd : d.Made P) : Made d.node
  | returnStmt {value : Option Node} (hvalue : ∀ n ∈ value, Made n) : Made (.returnStmt value)
  | throwStmt {error : Node} (herror : Made error) : Made (.throwStmt error)
  | jump (kind : Jump) (label : Option String) : Made (.jump kind label)
  | deferStmt {P : Node → Prop} {body : List Node} (hP : ∀ n, P n → Made n) (hbody : Script.Makes P body) :
    Made (.deferStmt body)
  | pattern {p : Pattern} (hp : ∀ n ∈ p.children, Made n) : Made (.pattern p)
  | comment (text : String) : Made (.comment text)
  | blank : Made .blank
  | raw (code : String) : Made (.raw code)
  | empty : Made .empty
  | singleExpression {P : Node → Prop} {place : Place} {nodes : List Node} {n : Node} (hP : ∀ n, P n → Made n)
    (hnodes : Script.Makes P nodes) (hn : singleExpression place (.ok nodes) = .ok n) : Made n
  | singlePattern {P : Node → Prop} {place : Place} {nodes : List Node} {n : Node} (hP : ∀ n, P n → Made n)
    (hnodes : Script.Makes P nodes) (hn : singlePattern place (.ok nodes) = .ok n) : Made n

inductive SourceFile.Made : SourceFile → Prop
  | loaded {text : String} {f : SourceFile} (h : Document.load text = .ok (.file f)) : Made f
  | new : Made {}
  | addHeader {f : SourceFile} (line : String) (hf : Made f) : Made (f.addHeader line)
  | addImport {f : SourceFile} (name : String) (hf : Made f) : Made (f.addImport name)
  | addNodes {f : SourceFile} {nodes : List Node} (hf : Made f) (hnodes : Script.Makes Node.Made nodes) :
    Made (f.addNodes nodes)

def Document.Made : Document → Prop
  | .nodes list => Script.Makes Node.Made list
  | .file f => f.Made

end SwiftForge
