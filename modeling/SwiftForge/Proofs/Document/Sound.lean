import SwiftForge.Proofs.Document.Loads
import SwiftForge.Proofs.Json.Ensures

/-! Whatever text a tree is loaded from, all its parts obey their rules. -/

namespace SwiftForge

open Document Decoder

variable {node : Load Node}

/-- A way to load nodes that gives only obedient ones. -/
def SoundNode (node : Load Node) : Prop := Decoder.Ensures node fun n => Obeys n.parts

theorem obeys_nodes {nodes : List Node} (h : ∀ n ∈ nodes, Obeys n.parts) : Obeys (partsOfNodes nodes) := by
  rw [partsOfNodes_eq, obeys_flatMap]
  exact h

theorem obeys_node? {o : Option Node} (h : ∀ n ∈ o, Obeys n.parts) : Obeys (partsOfNode? o) := by
  rw [partsOfNode?_eq, obeys_flatMap]
  exact fun n hn => h n (Option.mem_toList.1 hn)

theorem obeys_block? {o : Option (List Node)} (h : ∀ nodes ∈ o, Obeys (partsOfNodes nodes)) :
    Obeys (partsOfBlock? o) := by
  cases o with
  | none => exact obeys_nil
  | some nodes => exact h nodes rfl

namespace SoundNode

theorem list (h : SoundNode node) : Decoder.Ensures (Decoder.list node) fun nodes => Obeys (partsOfNodes nodes) :=
  (Ensures.list h).mono fun _ => obeys_nodes

theorem nodesOf (h : SoundNode node) (key : String) :
    (nodesOf node key).Ensures fun nodes => Obeys (partsOfNodes nodes) := .one h.list (by simp [partsOfNodes])

theorem node? (h : SoundNode node) (key : String) :
    (Fields.nullableField key node).Ensures fun o => Obeys (partsOfNode? o) :=
  .one ((Ensures.nullable h).mono fun _ => obeys_node?) (by simp [partsOfNode?])

theorem block? (h : SoundNode node) (key : String) :
    (Fields.nullableField key (Decoder.list node)).Ensures fun o => Obeys (partsOfBlock? o) :=
  .one (h.list.nullable.mono fun _ => obeys_block?) (by simp [partsOfBlock?])

theorem param (h : SoundNode node) : Decoder.Ensures (param node) fun p => Obeys p.parts :=
  Fields.Ensures.decoder (.andAny (.andAny (.and (.andAny (.andAny (.andAny (.pure
    fun _ _ _ _ hdefault _ _ => hdefault)))) (h.node? _))))

theorem params (h : SoundNode node) (key : String) :
    (Fields.listOf key (Document.param node)).Ensures fun ps => Obeys (partsOfParams ps) := by
  refine .one (h.param.list.mono fun ps hps => ?_) (by simp [partsOfParams])
  rw [partsOfParams_eq, obeys_flatMap]
  exact hps

theorem literal (h : SoundNode node) : Decoder.Ensures (literal node) fun l => Obeys l.parts := by
  have hentries : Decoder.Ensures
      (Decoder.list (Decoder.map (fun kv => Entry.mk kv.1 kv.2) (Decoder.pair node node)))
      fun es => Obeys (partsOfEntries es) := by
    have hentry : Decoder.Ensures (Decoder.map (fun kv => Entry.mk kv.1 kv.2) (Decoder.pair node node))
        fun e => Obeys e.parts := .map ((Ensures.pair h h).mono fun _ hv => (obeys_append _ _).2 hv)
    refine hentry.list.mono fun es hes => ?_
    rw [partsOfEntries_eq, obeys_flatMap]
    exact hes
  refine Variants.Ensures.tagged ?_
  simp only [Variants.Ensures, List.forall_mem_cons]
  refine ⟨.map (.all fun _ => ?_), .map (.all fun _ => ?_), .map (.all fun _ => ?_), .map (.all fun _ => ?_), ?_,
    .map (.all fun _ => ?_), .map (h.list.mono fun nodes hnodes => ?_), .map (h.list.mono fun nodes hnodes => ?_),
    .map (hentries.mono fun es hes => ?_), by simp⟩
  · exact (obeys_singleton _).2 rfl
  · exact (obeys_singleton _).2 rfl
  · exact (obeys_singleton _).2 rfl
  · exact (obeys_singleton _).2 rfl
  · exact (obeys_singleton _).2 rfl
  · exact (obeys_singleton _).2 rfl
  · exact (obeys_append _ _).2 ⟨hnodes, (obeys_singleton _).2 rfl⟩
  · exact (obeys_append _ _).2 ⟨hnodes, (obeys_singleton _).2 rfl⟩
  · exact (obeys_append _ _).2 ⟨hes, (obeys_singleton _).2 rfl⟩

theorem enumCase (h : SoundNode node) : Decoder.Ensures (enumCase node) fun c => Obeys c.node.parts := by
  have hraw : (Fields.nullableField "raw_value" (Document.literal node)).Ensures fun o =>
      Obeys (partsOfLiteral? o) := by
    refine .one (h.literal.nullable.mono fun o ho => ?_) (by simp [partsOfLiteral?])
    rw [partsOfLiteral?_eq, obeys_flatMap]
    exact fun l hl => ho l (Option.mem_toList.1 hl)
  refine .checked (Fields.Ensures.decoder (.andAny (.and (.andAny (.andAny (.pure ?_))) hraw)))
  intro name decor rawValue hrawValue values hcheck
  exact (obeys_append _ _).2 ⟨hrawValue, (obeys_singleton _).2 hcheck⟩

theorem property (h : SoundNode node) : Decoder.Ensures (property node) fun p => Obeys p.node.parts := by
  refine .checked (Fields.Ensures.decoder (.and (.andAny (.andAny (.andAny (.and (.andAny (.andAny (.andAny (.andAny
    (.pure ?_))))) (h.node? _))))) (h.block? _)))
  intro name decor binding ty value hvalue isStatic isLazy isWeak getter hgetter hcheck
  exact (obeys_append _ _).2 ⟨(obeys_append _ _).2 ⟨hvalue, hgetter⟩, (obeys_singleton _).2 hcheck⟩

theorem argument (h : SoundNode node) : Decoder.Ensures (argument node) fun a => Obeys a.parts :=
  Fields.Ensures.decoder (.and (.andAny (.pure fun _ _ hvalue => hvalue)) (.required h))

theorem closure (h : SoundNode node) : Decoder.Ensures (closure node) fun k => Obeys k.parts :=
  Fields.Ensures.decoder (.and (.andAny (.andAny (.andAny (.andAny (.andAny
    (.pure fun _ _ _ _ _ _ hbody => hbody)))))) (h.nodesOf _))

theorem call (h : SoundNode node) : Decoder.Ensures (call node) fun c => Obeys c.node.parts := by
  have hargs : (Fields.listOf "args" (Document.argument node)).Ensures fun as => Obeys (partsOfArguments as) := by
    refine .one (h.argument.list.mono fun as has => ?_) (by simp [partsOfArguments])
    rw [partsOfArguments_eq, obeys_flatMap]
    exact has
  have htrailing : (Fields.nullableField "trailing_closure" (Document.closure node)).Ensures fun o =>
      Obeys (partsOfClosure? o) := by
    refine .one (h.closure.nullable.mono fun o ho => ?_) (by simp [partsOfClosure?])
    rw [partsOfClosure?_eq, obeys_flatMap]
    exact fun k hk => ho k (Option.mem_toList.1 hk)
  refine Fields.Ensures.decoder (.andAny (.and (.and (.and (.pure ?_) (.required h)) hargs) htrailing))
  intro callee hcallee args hargs trailing htrailing effects
  exact (obeys_append _ _).2 ⟨(obeys_append _ _).2 ⟨hcallee, hargs⟩, htrailing⟩

theorem binary (h : SoundNode node) : Decoder.Ensures (binary node) fun b => Obeys b.node.parts :=
  Fields.Ensures.decoder (.andAny (.and (.andAny (.and
    (.pure fun _ hl _ _ hr _ => (obeys_append _ _).2 ⟨hl, hr⟩) (.required h))) (.required h)))

theorem condition (h : SoundNode node) : Decoder.Ensures (condition node) fun k => Obeys k.parts := by
  refine .checked (Variants.Ensures.tagged ?_)
  simp only [Variants.Ensures, List.forall_mem_cons]
  refine ⟨.map (Ensures.mono h fun n hn hcheck => ?_), Fields.Ensures.objectDecoder (.and (.andAny (.andAny (.pure ?_)))
    (h.node? _)), Fields.Ensures.objectDecoder (.and (.and (.pure ?_) (.required h)) (.required h)), by simp⟩
  · exact (obeys_append _ _).2 ⟨hn, (obeys_singleton _).2 hcheck⟩
  · intro keyword name value hvalue hcheck
    exact (obeys_append _ _).2 ⟨hvalue, (obeys_singleton _).2 hcheck⟩
  · intro pattern hpattern value hvalue hcheck
    exact (obeys_append _ _).2 ⟨(obeys_append _ _).2 ⟨hpattern, hvalue⟩, (obeys_singleton _).2 hcheck⟩

theorem conditions (h : SoundNode node) :
    Decoder.Ensures (Decoder.list (Document.condition node)) fun ks => Obeys (partsOfConditions ks) := by
  refine h.condition.list.mono fun ks hks => ?_
  rw [partsOfConditions_eq, obeys_flatMap]
  exact hks

/-- The parts of what follows a branch of an `if`. -/
def partsOfTail : Option Tail → List Part
  | none => []
  | some (.block body) => partsOfNodes body
  | some (.next chain) => chain.node.parts

theorem parts_joinTail (conditions : List Condition) (body : List Node) (tail : Option Tail) :
    (joinTail conditions body tail).node.parts =
      partsOfConditions conditions ++ partsOfNodes body ++ partsOfTail tail := by
  match tail with
  | none => simp [joinTail, If.node, Node.parts, Branch.parts, partsOfBranches, partsOfBlock?, partsOfTail]
  | some (.block _) => simp [joinTail, If.node, Node.parts, Branch.parts, partsOfBranches, partsOfBlock?, partsOfTail]
  | some (.next _) => simp [joinTail, If.node, Node.parts, Branch.parts, partsOfBranches, partsOfTail]

theorem ifWithin (h : SoundNode node) (depth : Nat) :
    Decoder.Ensures (ifWithin node depth) fun i => Obeys i.node.parts := by
  induction depth with
  | zero =>
    intro mode r value hvalue
    cases hvalue
  | succ depth ih =>
    have htail : Decoder.Ensures (tailVariants node (Document.ifWithin node depth)).tagged
        fun tail => Obeys (partsOfTail (some tail)) := by
      refine Variants.Ensures.tagged ?_
      simp only [tailVariants, Variants.Ensures, List.forall_mem_cons]
      exact ⟨.map (h.list.mono fun _ hnodes => hnodes), .map (ih.mono fun _ hchain => hchain), by simp⟩
    have hfield : (Fields.nullableField "otherwise" (tailVariants node (Document.ifWithin node depth)).tagged).Ensures
        fun tail => Obeys (partsOfTail tail) := by
      refine .one (htail.nullable.mono fun tail htail => ?_) (by simp [partsOfTail])
      cases tail with
      | none => exact obeys_nil
      | some tail => exact htail tail rfl
    refine Fields.Ensures.decoder (.and (.and (.and (.pure ?_) (.required h.conditions)) (h.nodesOf _)) hfield)
    intro conditions hconditions body hbody tail htail
    rw [parts_joinTail]
    exact (obeys_append _ _).2 ⟨(obeys_append _ _).2 ⟨hconditions, hbody⟩, htail⟩

theorem guardStmt (h : SoundNode node) : Decoder.Ensures (guardStmt node) fun g => Obeys g.node.parts :=
  Fields.Ensures.decoder (.and (.and (.pure fun _ hconditions _ hbody => (obeys_append _ _).2 ⟨hconditions, hbody⟩)
    (.required h.conditions)) (h.nodesOf _))

theorem conditionLoop (h : SoundNode node) (style : LoopStyle) :
    Decoder.Ensures (conditionLoop node style) fun l => Obeys l.node.parts := by
  refine .checked (Fields.Ensures.decoder (.and (.and (.pure ?_) (.required h)) (h.nodesOf _)))
  intro condition hcondition body hbody hcheck
  exact (obeys_append _ _).2 ⟨(obeys_append _ _).2 ⟨hcondition, hbody⟩, (obeys_singleton _).2 hcheck⟩

theorem forIn (h : SoundNode node) : Decoder.Ensures (forIn node) fun l => Obeys l.node.parts := by
  refine .checked (Fields.Ensures.decoder (.and (.and (.and (.and (.pure ?_) (.required h)) (.required h)) (h.node? _))
    (h.nodesOf _)))
  intro pattern hpattern sequence hsequence filter hfilter body hbody hcheck
  simp only [ForIn.node, Node.parts, obeys_append, obeys_singleton]
  exact ⟨⟨⟨⟨hpattern, hsequence⟩, hfilter⟩, hbody⟩, hcheck⟩

theorem switchCase (h : SoundNode node) : Decoder.Ensures (switchCase node) fun k => Obeys k.parts := by
  refine .checked (Fields.Ensures.decoder (.and (.and (.and (.pure ?_) (.required h.list)) (h.node? _)) (h.nodesOf _)))
  intro patterns hpatterns guard hguard body hbody hcheck
  simp only [SwitchCase.parts, obeys_append, obeys_singleton]
  exact ⟨⟨⟨hpatterns, hguard⟩, hbody⟩, hcheck⟩

theorem switchStmt (h : SoundNode node) : Decoder.Ensures (switchStmt node) fun s => Obeys s.node.parts := by
  have hcases : (Fields.listOf "cases" (Document.switchCase node)).Ensures fun ks => Obeys (partsOfCases ks) := by
    refine .one (h.switchCase.list.mono fun ks hks => ?_) (by simp [partsOfCases])
    rw [partsOfCases_eq, obeys_flatMap]
    exact hks
  refine Fields.Ensures.decoder (.and (.and (.and (.pure ?_) (.required h)) hcases) (h.block? _))
  intro subject hsubject cases hcases default hdefault
  exact (obeys_append _ _).2 ⟨(obeys_append _ _).2 ⟨hsubject, hcases⟩, hdefault⟩

theorem catchClause (h : SoundNode node) : Decoder.Ensures (catchClause node) fun k => Obeys k.parts := by
  refine .checked (Fields.Ensures.decoder (.and (.and (.pure ?_) (h.node? _)) (h.nodesOf _)))
  intro pattern hpattern body hbody hcheck
  exact (obeys_append _ _).2 ⟨(obeys_append _ _).2 ⟨hpattern, hbody⟩, (obeys_singleton _).2 hcheck⟩

theorem doCatch (h : SoundNode node) : Decoder.Ensures (doCatch node) fun d => Obeys d.node.parts := by
  have hcatches : (Fields.listOf "catches" (Document.catchClause node)).Ensures
      fun ks => Obeys (partsOfCatches ks) := by
    refine .one (h.catchClause.list.mono fun ks hks => ?_) (by simp [partsOfCatches])
    rw [partsOfCatches_eq, obeys_flatMap]
    exact hks
  exact Fields.Ensures.decoder (.and (.and
    (.pure fun _ hbody _ hcatches => (obeys_append _ _).2 ⟨hbody, hcatches⟩) (h.nodesOf _)) hcatches)

theorem tupleAssignment (h : SoundNode node) :
    Decoder.Ensures (tupleAssignment node) fun a => Obeys a.node.parts := by
  refine .checked (Fields.Ensures.decoder (.andAny (.and (.andAny (.pure ?_)) (.required h))))
  intro names value hvalue mode hcheck
  exact (obeys_append _ _).2 ⟨hvalue, (obeys_singleton _).2 hcheck⟩

theorem patternWithin (h : SoundNode node) (depth : Nat) :
    Decoder.Ensures (patternWithin node depth) fun p => Obeys p.parts := by
  induction depth with
  | zero =>
    intro mode r value hvalue
    cases hvalue
  | succ depth ih =>
    have hvariants : (patternVariants node (Document.patternWithin node depth)).Ensures fun p => Obeys p.parts := by
      simp only [patternVariants, Variants.Ensures, List.forall_mem_cons]
      refine ⟨.map (.all fun _ => obeys_nil),
        Fields.Ensures.objectDecoder (.andAny (.andAny (.pure fun _ _ => obeys_nil))), obeys_nil,
        .map (ih.list.mono fun ps hps => ?_), .map (Ensures.mono h fun _ hn => hn), by simp⟩
      rw [Pattern.parts, partsOfPatterns_eq, obeys_flatMap]
      exact hps
    exact hvariants.tagged

/-! ### Nodes without rules of their own -/

theorem structDecl (h : SoundNode node) : Ensures (structDecl node) fun d => Obeys d.node.parts := by
  refine Fields.Ensures.decoder (.and (.andAny (.andAny (.andAny (.andAny (.pure ?_))))) (h.nodesOf _))
  exact fun _ _ _ _ _ hmembers => hmembers

theorem classDecl (h : SoundNode node) : Ensures (classDecl node) fun d => Obeys d.node.parts := by
  refine Fields.Ensures.decoder (.and (.andAny (.andAny (.andAny (.andAny (.andAny (.pure ?_)))))) (h.nodesOf _))
  exact fun _ _ _ _ _ _ hmembers => hmembers

theorem enumDecl (h : SoundNode node) : Ensures (enumDecl node) fun d => Obeys d.node.parts := by
  refine Fields.Ensures.decoder (.and (.andAny (.andAny (.andAny (.andAny (.andAny (.pure ?_)))))) (h.nodesOf _))
  exact fun _ _ _ _ _ _ hmembers => hmembers

theorem protocolDecl (h : SoundNode node) : Ensures (protocolDecl node) fun d => Obeys d.node.parts := by
  refine Fields.Ensures.decoder (.and (.andAny (.andAny (.andAny (.pure ?_)))) (h.nodesOf _))
  exact fun _ _ _ _ hmembers => hmembers

theorem extensionDecl (h : SoundNode node) : Ensures (extensionDecl node) fun d => Obeys d.node.parts := by
  refine Fields.Ensures.decoder (.and (.andAny (.andAny (.andAny (.andAny (.pure ?_))))) (h.nodesOf _))
  exact fun _ _ _ _ _ hmembers => hmembers

theorem functionDecl (h : SoundNode node) : Ensures (functionDecl node) fun d => Obeys d.node.parts := by
  refine Fields.Ensures.decoder (.and (.andAny (.andAny (.and (.andAny (.andAny (.andAny (.andAny (.andAny (.andAny
    (.pure ?_))))))) (h.params _)))) (h.nodesOf _))
  exact fun _ _ _ _ _ _ _ hparams _ _ _ hbody => (obeys_append _ _).2 ⟨hparams, hbody⟩

theorem initDecl (h : SoundNode node) : Ensures (initDecl node) fun d => Obeys d.node.parts := by
  refine Fields.Ensures.decoder (.and (.andAny (.and (.andAny (.andAny (.andAny (.pure ?_)))) (h.params _)))
    (h.nodesOf _))
  exact fun _ _ _ _ hparams _ _ hbody => (obeys_append _ _).2 ⟨hparams, hbody⟩

theorem member (h : SoundNode node) : Ensures (member node) fun e => Obeys e.parts := by
  refine Fields.Ensures.decoder (.andAny (.and (.pure ?_) (h.node? _)))
  exact fun _ hbase _ => hbase

theorem unary (h : SoundNode node) : Ensures (unary node) fun e => Obeys e.parts := by
  refine Fields.Ensures.decoder (.and (.andAny (.pure ?_)) (.required h))
  exact fun _ _ hoperand => hoperand

theorem postfixed (h : SoundNode node) : Ensures (postfixed node) fun e => Obeys e.parts := by
  refine Fields.Ensures.decoder (.andAny (.and (.pure ?_) (.required h)))
  exact fun _ hoperand _ => hoperand

theorem assignment (h : SoundNode node) : Ensures (assignment node) fun n => Obeys n.parts := by
  refine Fields.Ensures.decoder (.and (.andAny (.and (.pure ?_) (.required h))) (.required h))
  exact fun _ htarget _ _ hvalue => (obeys_append _ _).2 ⟨htarget, hvalue⟩

/-- One layer of a tree: what is loaded around obedient nodes is obedient. -/
theorem nodeVariants (h : SoundNode node) : (nodeVariants node).Ensures fun n => Obeys n.parts := by
  simp only [Document.nodeVariants, Variants.Ensures, List.forall_mem_cons]
  -- One item for each variant of the table, in its order.
  refine ⟨
    .map h.structDecl,
    .map h.classDecl,
    .map h.enumDecl,
    .map h.enumCase,
    .map h.protocolDecl,
    .map (.all fun _ => obeys_nil),
    .map h.extensionDecl,
    .map h.functionDecl,
    .map h.initDecl,
    .map h.property,
    .map (.all fun _ => obeys_nil),
    .map (.all fun _ => obeys_nil),
    .map (h.literal.mono fun _ hl => hl),
    .map h.call,
    .map (h.member.mono fun _ he => he),
    .map h.binary,
    .map (h.unary.mono fun _ he => he),
    .map (h.postfixed.mono fun _ he => he),
    .map (h.closure.mono fun _ hk => hk),
    h.assignment,
    .map h.tupleAssignment,
    .map (h.ifWithin _),
    .map h.guardStmt,
    .map (h.conditionLoop _),
    .map (h.conditionLoop _),
    .map h.forIn,
    .map h.switchStmt,
    .map h.doCatch,
    Fields.Ensures.decoder (.and (.pure ?_) (h.node? _)),
    Fields.Ensures.decoder (.and (.pure ?_) (.required h)),
    Fields.Ensures.decoder (.andAny (.pure fun _ => obeys_nil)),
    Fields.Ensures.decoder (.andAny (.pure fun _ => obeys_nil)),
    Fields.Ensures.decoder (.and (.pure ?_) (h.nodesOf _)),
    .map ((h.patternWithin _).mono fun _ hp => hp),
    Fields.Ensures.decoder (.andAny (.pure fun _ => obeys_nil)),
    obeys_nil,
    Fields.Ensures.decoder (.andAny (.pure fun _ => obeys_nil)),
    obeys_nil, by simp⟩
  · exact fun _ hvalue => hvalue
  · exact fun _ herror => herror
  · exact fun _ hbody => hbody

end SoundNode

theorem soundNode_nodeWithin (depth : Nat) : SoundNode (nodeWithin depth) := by
  induction depth with
  | zero =>
    intro mode r value hvalue
    cases hvalue
  | succ depth ih => exact ih.nodeVariants.tagged

theorem ensures_sourceFile : Decoder.Ensures sourceFile fun file => Obeys file.parts := by
  refine Fields.Ensures.decoderWith (.and (.andAny (.andAny (.pure ?_)))
    ((soundNode_nodeWithin depthLimit).nodesOf _)) .refuse
  exact fun _ _ _ hnodes => hnodes

theorem ensures_loadText {α : Type} {d : Load α} {P : α → Prop} (h : d.Ensures P) {text : String} {value : α}
    (hvalue : loadText d text = .ok value) : P value := by
  obtain ⟨v, hv, hvalue⟩ := bind_eq_ok.1 hvalue
  split at hvalue
  · cases hvalue
    exact h _ _ value hv
  · cases hvalue

/-- Whatever the text, a document that is loaded obeys all rules. -/
theorem Document.obeys_of_load {text : String} {d : Document} (h : load text = .ok d) : Obeys d.parts := by
  unfold load at h
  split at h
  · obtain ⟨nodes, hnodes, rfl⟩ := map_eq_ok.1 h
    exact ensures_loadText (soundNode_nodeWithin depthLimit).list hnodes
  · obtain ⟨file, hfile, rfl⟩ := map_eq_ok.1 h
    exact ensures_loadText ensures_sourceFile hfile

end SwiftForge
