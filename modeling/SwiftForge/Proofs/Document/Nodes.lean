import SwiftForge.Proofs.Document.Heads

/-! Every node loads as the parts inside it decide, by induction on the tree: the fields of a node are written and
    read in the same order, so their verdicts follow each other as the parts do. -/

namespace SwiftForge

open Document Decoder

/-! ### Written lists and options -/

theorem encodeNodes_eq (nodes : List Node) : encodeNodes nodes = nodes.map Node.encode := by
  induction nodes with
  | nil => rfl
  | cons node nodes ih => rw [encodeNodes, ih, List.map_cons]

theorem nodesField_eq (key : String) (nodes : List Node) :
    nodesField key nodes = listField key (nodes.map Node.encode) := by
  cases nodes with
  | nil => rfl
  | cons node nodes => rw [nodesField, encodeNodes_eq, listField, List.map_cons, List.isEmpty_cons, if_neg (by simp)]

theorem nodesField?_eq (key : String) (block : Option (List Node)) :
    nodesField? key block = optional key (block.map fun nodes => .array (nodes.map Node.encode)) := by
  cases block with
  | none => rfl
  | some nodes => rw [nodesField?, encodeNodes_eq]; rfl

theorem nodeField?_eq (key : String) (node : Option Node) :
    nodeField? key node = optional key (node.map Node.encode) := by
  cases node <;> rfl

theorem encodeParams_eq (params : List Param) : encodeParams params = params.map Param.encode := by
  induction params with
  | nil => rfl
  | cons param params ih => rw [encodeParams, ih, List.map_cons]

theorem encodeConditions_eq (conditions : List Condition) :
    encodeConditions conditions = conditions.map Condition.encode := by
  induction conditions with
  | nil => rfl
  | cons condition conditions ih => rw [encodeConditions, ih, List.map_cons]

theorem encodeCases_eq (cases : List SwitchCase) : encodeCases cases = cases.map SwitchCase.encode := by
  induction cases with
  | nil => rfl
  | cons clause cases ih => rw [encodeCases, ih, List.map_cons]

theorem encodeCatches_eq (catches : List Catch) : encodeCatches catches = catches.map Catch.encode := by
  induction catches with
  | nil => rfl
  | cons clause catches ih => rw [encodeCatches, ih, List.map_cons]

theorem encodeEntries_eq (entries : List Entry) : encodeEntries entries = entries.map Entry.encode := by
  induction entries with
  | nil => rfl
  | cons entry entries ih => rw [encodeEntries, ih, List.map_cons]

theorem encodeArguments_eq (args : List Argument) : encodeArguments args = args.map Argument.encode := by
  induction args with
  | nil => rfl
  | cons argument args ih => rw [encodeArguments, ih, List.map_cons]

theorem encodePatterns_eq (patterns : List Pattern) : encodePatterns patterns = patterns.map Pattern.encode := by
  induction patterns with
  | nil => rfl
  | cons pattern patterns ih => rw [encodePatterns, ih, List.map_cons]

theorem Literal.encode_ne_null (l : Literal) : l.encode ≠ .null := by
  cases l <;> simp [Literal.encode, tagged, bare]

theorem Closure.encode_ne_null (k : Closure) : k.encode ≠ .null := by
  cases k
  simp [Closure.encode]

theorem Node.encode_ne_null (n : Node) : n.encode ≠ .null := by
  cases n with
  | expression e => cases e <;> simp [Node.encode, Expr.encode, tagged]
  | _ => simp [Node.encode, tagged, bare]

/-! ### Literals by themselves -/

namespace Document.Loads

variable {α β : Type} {limit : Nat} {d : Load α} {j : Json} {parts : List Part} {value : α}

/-- A literal is under no rule. -/
theorem andLiteral (h : Loads limit d j parts value) (l : Literal) :
    Loads limit d j (parts ++ [.literal l]) value where
  spellable hparts := h.spellable fun p hp => hparts p (List.mem_append_left _ hp)
  decodes hj := by
    rw [h.decodes hj, verdict, verdict, List.flatMap_append]
    simp [Part.breaches]

theorem int64 (value : Int64) : Loads limit Decoder.int64 (.integer value.toInt) [] value where
  spellable _ := by
    have hlow := value.le_toInt
    have hhigh := value.toInt_lt
    exact ⟨by omega, by omega⟩
  decodes _ := by
    have hhigh : value.toInt < (Nat.pow 2 63 : Int) := value.toInt_lt
    rw [Json.reading, Decoder.int64, if_pos hhigh, Int64.ofInt_toInt, verdict_nil]

/-- A float is spelled by its text if it is finite. -/
theorem double (value : Double) :
    Loads limit Decoder.double (.float value) [.literal (.float value)] value where
  spellable hparts := hparts _ (List.mem_singleton_self _)
  decodes _ := rfl

theorem pair_array (a : Load α) (b : Load β) (r s : Reading) :
    Decoder.pair a b .streamed (.array false [r, s] .closed) =
      (do let x ← a .streamed r; (b .streamed s).map (Prod.mk x)) := by
  have htake : (Prod.mk <$> Fields.required "0" a <*> Fields.required "1" b).take .streamed 0 [r, s] .closed =
      (do let x ← a .streamed r; (b .streamed s).map fun y => ((x, y), [])) := by
    simp only [Seq.seq, Functor.map, Fields.and, Fields.pure, Fields.required, Fields.one, bind, Except.bind]
    cases a .streamed r with
    | error e => rfl
    | ok x => cases hy : b .streamed s <;> simp [Except.map, hy]
  rw [Decoder.pair, Fields.decoder, Fields.decoderWith, htake]
  cases a .streamed r with
  | error e => rfl
  | ok x => cases hy : b .streamed s <;> rfl

theorem pair {a : Load α} {b : Load β} {ja jb : Json} {ps qs : List Part} {x : α} {y : β}
    (ha : Loads limit a ja ps x) (hb : Loads limit b jb qs y) :
    Loads limit (Decoder.pair a b) (.array [ja, jb]) (ps ++ qs) (x, y) where
  spellable hparts := ⟨ha.spellable fun p hp => hparts p (List.mem_append_left _ hp),
    hb.spellable fun p hp => hparts p (List.mem_append_right _ hp), trivial⟩
  decodes hj := by
    have hnesting : ja.nesting ≤ limit ∧ jb.nesting ≤ limit := by
      simp only [Json.nesting, Json.itemsNesting] at hj
      omega
    have hx := ha.decodes hnesting.1
    have hy := hb.decodes hnesting.2
    rw [Json.reading, Json.itemReadings, Json.itemReadings, Json.itemReadings, pair_array, hx]
    refine verdict_bind ?_
    rw [hy]
    exact verdict_map qs y (Prod.mk x)

end Document.Loads

/-! ### Parts with nodes -/

/-- A node loads as the parts inside it decide. -/
def LoadsNode (limit : Nat) (node : Load Node) (c : Node) : Prop := Loads limit node c.encode c.parts c

section

variable {limit : Nat} {node : Load Node} {key : String}

theorem loads_nodes {nodes : List Node} (h : ∀ c ∈ nodes, LoadsNode limit node c) :
    Loads limit (Decoder.list node) (.array (encodeNodes nodes)) (partsOfNodes nodes) nodes := by
  rw [encodeNodes_eq, partsOfNodes_eq]
  exact Loads.list h

@[simp] theorem keys_nodesOf : (nodesOf node key).keys = [key] := rfl

theorem loads_nodesOf {nodes : List Node} (h : ∀ c ∈ nodes, LoadsNode limit node c) :
    LoadsFields limit (nodesOf node key) (nodesField key nodes) (partsOfNodes nodes) nodes := by
  rw [nodesField_eq, partsOfNodes_eq]
  exact LoadsFields.listOf h

theorem loads_node? {o : Option Node} (h : ∀ c ∈ o.toList, LoadsNode limit node c) :
    LoadsFields limit (Fields.nullableField key node) (nodeField? key o) (partsOfNode? o) o := by
  rw [nodeField?_eq, partsOfNode?_eq]
  exact LoadsFields.nullableField (fun c hc => h c (Option.mem_toList.2 hc)) Node.encode_ne_null

theorem loads_block? {o : Option (List Node)} (h : ∀ c ∈ o.getD [], LoadsNode limit node c) :
    LoadsFields limit (Fields.nullableField key (Decoder.list node)) (nodesField? key o) (partsOfBlock? o) o := by
  rw [nodesField?_eq, partsOfBlock?_eq]
  refine LoadsFields.nullableField (fun nodes hnodes => Loads.list fun c hc => ?_) fun _ => by simp
  cases hnodes
  exact h c hc

theorem loads_label (label : Option String) :
    LoadsFields limit (Fields.nullableField key Decoder.string) (optional key (label.map .string)) [] label :=
  .nullablePlain (fun s _ => Loads.string s) fun _ => by simp

theorem Param.loads (p : Param) (hlimit : limit ≤ depthLimit) (h : ∀ c ∈ p.children, LoadsNode limit node c) :
    Loads limit (param node) p.encode p.parts p := by
  obtain ⟨head, default⟩ := p
  rw [Param.encode, Param.parts]
  exact Loads.of_eq (((((((LoadsFields.pure _).andPlain (loads_label head.label)).andPlain (.string head.name)).andPlain
    (.required (head.ty.loads hlimit))).and (loads_node? h)).andPlain (.flag head.isInout)).andPlain
    (.flag head.isVariadic) |>.decoder (by simp)) rfl

theorem loads_params {params : List Param} (hlimit : limit ≤ depthLimit)
    (h : ∀ c ∈ params.flatMap Param.children, LoadsNode limit node c) :
    LoadsFields limit (Fields.listOf "params" (param node)) (listField "params" (encodeParams params))
      (partsOfParams params) params := by
  rw [encodeParams_eq, partsOfParams_eq]
  exact .listOf fun p hp => p.loads hlimit fun c hc => h c (List.mem_flatMap.2 ⟨p, hp, hc⟩)

theorem Entry.loads (e : Entry) (h : ∀ c ∈ e.children, LoadsNode limit node c) :
    Loads limit (Decoder.map (fun (k, v) => Entry.mk k v) (Decoder.pair node node)) e.encode e.parts e := by
  obtain ⟨key, value⟩ := e
  rw [Entry.encode, Entry.parts]
  exact Loads.of_eq ((Loads.pair (h key (by simp [Entry.children])) (h value (by simp [Entry.children]))).map _) rfl

theorem Literal.loads (l : Literal) (h : ∀ c ∈ l.children, LoadsNode (limit - 1) node c) :
    Loads limit (literal node) l.encode l.parts l := by
  cases l with
  | string value => exact Loads.deeper (((Loads.string value).map Literal.string).andLiteral _) rfl
  | integer value => exact Loads.deeper (((Loads.int64 value).map Literal.integer).andLiteral _) rfl
  | float value => exact Loads.deeper ((Loads.double value).map Literal.float) rfl
  | boolean value => exact Loads.deeper (((Loads.bool value).map Literal.boolean).andLiteral _) rfl
  | nil => exact (Loads.bare rfl).andLiteral _
  | reference name => exact Loads.deeper (((Loads.string name).map Literal.reference).andLiteral _) rfl
  | tuple elements => exact Loads.deeper (((loads_nodes h).map Literal.tuple).andLiteral _) rfl
  | array elements => exact Loads.deeper (((loads_nodes h).map Literal.array).andLiteral _) rfl
  | dictionary entries =>
    rw [Literal.encode, Literal.parts, encodeEntries_eq, partsOfEntries_eq]
    have hentries : ∀ e ∈ entries, Loads (limit - 1)
        (Decoder.map (fun (k, v) => Entry.mk k v) (Decoder.pair node node)) e.encode e.parts e :=
      fun e he => e.loads fun c hc => h c (List.mem_flatMap.2 ⟨e, he, hc⟩)
    exact Loads.deeper (((Loads.list hentries).map Literal.dictionary).andLiteral _) rfl

theorem EnumCase.loads (head : CaseHead) (rawValue : Option Literal) (hlimit : limit ≤ depthLimit)
    (h : ∀ c ∈ rawValue.toList.flatMap Literal.children, LoadsNode limit node c) :
    Loads limit (enumCase node)
      (.object (field "name" (.string head.name) ++ field "decor" head.decor.encode ++ rawValueField rawValue ++
        listField "associated_values" (head.associatedValues.map AssociatedValue.encode)))
      (partsOfLiteral? rawValue ++ [.enumCase { head with rawValue }]) { head with rawValue } := by
  have hraw : LoadsFields limit (Fields.nullableField "raw_value" (literal node)) (rawValueField rawValue)
      (partsOfLiteral? rawValue) rawValue := by
    have hfield : rawValueField rawValue = optional "raw_value" (rawValue.map Literal.encode) := by
      cases rawValue <;> rfl
    rw [hfield, partsOfLiteral?_eq]
    refine .nullableField (fun l hl => l.loads fun c hc => ?_) Literal.encode_ne_null
    exact (h c (List.mem_flatMap.2 ⟨l, Option.mem_toList.2 hl, hc⟩)).mono (Nat.sub_le _ _)
  refine Loads.checked (Loads.of_eq ?_ rfl) (.enumCase { head with rawValue }) rfl
  exact (((((LoadsFields.pure _).andPlain (.string head.name)).andPlain (loads_decorField head.decor)).and
    hraw).andPlain (.listPlain fun v _ => v.loads hlimit)).decoder (by simp)

theorem Property.loads (head : PropertyHead) (value : Option Node) (getter : Option (List Node))
    (hlimit : limit ≤ depthLimit) (h : ∀ c ∈ value.toList ++ getter.getD [], LoadsNode limit node c) :
    Loads limit (property node) (.object (head.fields (nodeField? "value" value) ++ nodesField? "getter" getter))
      (partsOfNode? value ++ partsOfBlock? getter ++ [.property { head with value, getter }])
      { head with value, getter } := by
  refine Loads.checked (Loads.of_eq ?_ rfl) (.property { head with value, getter }) rfl
  exact ((((((((((LoadsFields.pure _).andPlain (.string head.name)).andPlain (loads_decorField head.decor)).andPlain
    (.withDefault head.binding.loads _)).andPlain
    (.nullablePlain (fun t _ => t.loads hlimit) TypeRef.encode_ne_null)).and
    (loads_node? fun c hc => h c (List.mem_append_left _ hc))).andPlain (.flag head.isStatic)).andPlain
    (.flag head.isLazy)).andPlain (.flag head.isWeak)).and
    (loads_block? fun c hc => h c (List.mem_append_right _ hc))).decoder (by simp)

theorem Argument.loads (a : Argument) (h : ∀ c ∈ a.children, LoadsNode limit node c) :
    Loads limit (argument node) a.encode a.parts a := by
  obtain ⟨label, value⟩ := a
  rw [Argument.encode, Argument.parts]
  exact Loads.of_eq (((LoadsFields.pure _).andPlain (loads_label label)).and
    (.required (h value (List.mem_singleton_self _))) |>.decoder (by simp)) rfl

theorem Closure.loads (k : Closure) (hlimit : limit ≤ depthLimit) (h : ∀ c ∈ k.children, LoadsNode limit node c) :
    Loads limit (closure node) k.encode k.parts k := by
  obtain ⟨head, body⟩ := k
  rw [Closure.encode, Closure.parts]
  exact Loads.of_eq (((((((LoadsFields.pure _).andPlain (.listPlain fun a _ => a.loads)).andPlain
    (.listPlain fun c _ => c.loads)).andPlain (.listPlain fun p _ => p.loads hlimit)).andPlain
    (loads_effectsField head.effects hlimit)).andPlain (loads_returnType head.returnType hlimit)).and
    (loads_nodesOf h) |>.decoder (by simp)) rfl

theorem Call.loads (callee : Node) (args : List Argument) (trailing : Option Closure) (effects : CallEffects)
    (hlimit : limit ≤ depthLimit)
    (h : ∀ c ∈ (Expr.call callee args trailing effects).children, LoadsNode limit node c) :
    Loads limit (call node) (.object (field "callee" callee.encode ++ listField "args" (encodeArguments args) ++
        closureField? "trailing_closure" trailing ++ field "effects" effects.encode))
      (callee.parts ++ partsOfArguments args ++ partsOfClosure? trailing) ⟨callee, args, trailing, effects⟩ := by
  have hchildren : ∀ c ∈ callee :: args.flatMap Argument.children, LoadsNode limit node c :=
    fun c hc => h c (List.mem_append_left _ hc)
  have hargs : LoadsFields limit (Fields.listOf "args" (argument node)) (listField "args" (encodeArguments args))
      (partsOfArguments args) args := by
    rw [encodeArguments_eq, partsOfArguments_eq]
    exact .listOf fun a ha => a.loads fun c hc =>
      hchildren c (List.mem_cons_of_mem _ (List.mem_flatMap.2 ⟨a, ha, hc⟩))
  have htrailing : LoadsFields limit (Fields.nullableField "trailing_closure" (closure node))
      (closureField? "trailing_closure" trailing) (partsOfClosure? trailing) trailing := by
    have hfield : closureField? "trailing_closure" trailing =
        optional "trailing_closure" (trailing.map Closure.encode) := by cases trailing <;> rfl
    rw [hfield, partsOfClosure?_eq]
    refine .nullableField (fun k hk => k.loads hlimit fun c hc => ?_) Closure.encode_ne_null
    exact h c (List.mem_append_right _ (List.mem_flatMap.2 ⟨k, Option.mem_toList.2 hk, hc⟩))
  exact (((((LoadsFields.pure Call.mk).and (.required (hchildren callee (by simp)))).and hargs).and htrailing).andPlain
    (.withDefault effects.loads _)).decoder (by simp)

theorem Condition.loads (k : Condition) (h : ∀ c ∈ k.children, LoadsNode (limit - 1) node c) :
    Loads limit (condition node) k.encode k.parts k := by
  cases k with
  | expr value =>
    refine Loads.checked ?_ (.condition (.expr value)) rfl
    exact Loads.deeper ((h value (List.mem_singleton_self _)).map Condition.expr) rfl
  | binding keyword name value =>
    have hvalue : Loads (limit - 1) (Decoder.nullable node) (encodeNode? value) (partsOfNode? value) value := by
      cases value with
      | none => exact Loads.null node
      | some value => exact (h value (List.mem_singleton_self _)).nullable value.encode_ne_null
    refine Loads.checked ?_ (.condition (.binding keyword name value)) rfl
    refine Loads.deeper ?_ rfl
    exact ((((LoadsFields.pure Condition.binding).andPlain (.required keyword.loads)).andPlain (.string name)).and
      (.one hvalue _)).objectDecoder (by simp)
  | caseMatch pattern value =>
    refine Loads.checked ?_ (.condition (.caseMatch pattern value)) rfl
    refine Loads.deeper ?_ rfl
    exact (((LoadsFields.pure Condition.caseMatch).and (.required (h pattern (by simp [Condition.children])))).and
      (.required (h value (by simp [Condition.children])))).objectDecoder (by simp)

theorem loads_conditions {conditions : List Condition}
    (h : ∀ c ∈ conditions.flatMap Condition.children, LoadsNode limit node c) :
    Loads limit (Decoder.list (condition node)) (.array (encodeConditions conditions)) (partsOfConditions conditions)
      conditions := by
  rw [encodeConditions_eq, partsOfConditions_eq]
  exact Loads.list fun k hk => k.loads fun c hc =>
    (h c (List.mem_flatMap.2 ⟨k, hk, hc⟩)).mono (Nat.sub_le _ _)

theorem SwitchCase.loads (k : SwitchCase) (h : ∀ c ∈ k.children, LoadsNode limit node c) :
    Loads limit (switchCase node) k.encode k.parts k := by
  obtain ⟨patterns, guard, body⟩ := k
  rw [SwitchCase.encode, SwitchCase.parts]
  have hhead : ∀ c ∈ patterns ++ guard.toList, LoadsNode limit node c := fun c hc => h c (List.mem_append_left _ hc)
  refine Loads.checked ?_ (.switchCase ⟨patterns, guard, body⟩) rfl
  exact ((((LoadsFields.pure SwitchCase.mk).and
    (.required (loads_nodes fun c hc => hhead c (List.mem_append_left _ hc)))).and
    (loads_node? fun c hc => hhead c (List.mem_append_right _ hc))).and
    (loads_nodesOf fun c hc => h c (List.mem_append_right _ hc))).decoder (by simp)

theorem Catch.loads (k : Catch) (h : ∀ c ∈ k.children, LoadsNode limit node c) :
    Loads limit (catchClause node) k.encode k.parts k := by
  obtain ⟨pattern, body⟩ := k
  rw [Catch.encode, Catch.parts]
  refine Loads.checked ?_ (.catchClause ⟨pattern, body⟩) rfl
  exact (((LoadsFields.pure Catch.mk).and (loads_node? fun c hc => h c (List.mem_append_left _ hc))).and
    (loads_nodesOf fun c hc => h c (List.mem_append_right _ hc))).decoder (by simp)

theorem Branch.loads (b : Branch) {depth : Nat} {ms : Members} {parts : List Part} {tail : Option Tail}
    (h : ∀ c ∈ b.children, LoadsNode limit node c)
    (htail : LoadsFields limit (Fields.nullableField "otherwise" (tailVariants node (ifWithin node depth)).tagged) ms
      parts tail) :
    Loads limit (ifWithin node (depth + 1)) (.object (b.fields ++ ms)) (b.parts ++ parts)
      (joinTail b.conditions b.body tail) := by
  obtain ⟨conditions, body⟩ := b
  exact ((((LoadsFields.pure joinTail).and
    (.required (loads_conditions fun c hc => h c (List.mem_append_left _ hc)))).and
    (loads_nodesOf fun c hc => h c (List.mem_append_right _ hc))).and htail).decoder (by simp)

/-- Each further branch of an `if` stands inside the one before it, and the last holds the `else` block. -/
theorem If.loads (otherwise : Option (List Node)) (elseIfs : List Branch) (first : Branch) {depth : Nat}
    (hle : limit ≤ depth + 1)
    (h : ∀ c ∈ first.children ++ elseIfs.flatMap Branch.children ++ otherwise.getD [], LoadsNode limit node c) :
    Loads limit (ifWithin node (depth + 1))
      (.object (first.fields ++ nestElse (encodeBranches elseIfs) (encodeBlock? otherwise)))
      (first.parts ++ partsOfBranches elseIfs ++ partsOfBlock? otherwise) ⟨first, elseIfs, otherwise⟩ := by
  induction elseIfs generalizing first depth limit with
  | nil =>
    have hfirst : ∀ c ∈ first.children, LoadsNode limit node c := fun c hc => h c (by simp [hc])
    rw [partsOfBranches, List.append_nil]
    cases otherwise with
    | none => exact Loads.of_eq (first.loads hfirst (.absent none _)) (by cases first; rfl)
    | some body =>
      have hbody : ∀ c ∈ body, LoadsNode (limit - 1) node c := fun c hc => (h c (by simp [hc])).mono (Nat.sub_le _ _)
      have hblock : Loads limit (tailVariants node (ifWithin node depth)).tagged
          (tagged "block" (.array (encodeNodes body))) (partsOfNodes body) (.block body) :=
        Loads.deeper ((loads_nodes hbody).map Tail.block) rfl
      exact Loads.of_eq (first.loads hfirst (.one (hblock.nullable (by simp [tagged])) _)) (by cases first; rfl)
  | cons next rest ih =>
    have hfirst : ∀ c ∈ first.children, LoadsNode limit node c := fun c hc => h c (by simp [hc])
    have hrest : ∀ c ∈ next.children ++ rest.flatMap Branch.children ++ otherwise.getD [],
        LoadsNode limit node c := fun c hc => h c (by
      rw [List.flatMap_cons, List.append_assoc]
      exact List.mem_append_right _ (by simpa using hc))
    have hnext : Loads limit (tailVariants node (ifWithin node depth)).tagged
        (tagged "if" (.object (next.fields ++ nestElse (encodeBranches rest) (encodeBlock? otherwise))))
        (next.parts ++ partsOfBranches rest ++ partsOfBlock? otherwise) (.next ⟨next, rest, otherwise⟩) := by
      cases depth with
      | zero =>
        -- No branch fits any more; one level deeper it would be spelled all the same.
        refine Loads.of_lt (fun hparts => ⟨trivial, (ih next hle hrest).spellable hparts, trivial⟩) ?_
        simp only [tagged, Json.nesting, Json.membersNesting]
        omega
      | succ depth =>
        have hinner := ih next (by omega : limit - 1 ≤ depth + 1) fun c hc => (hrest c hc).mono (Nat.sub_le _ _)
        exact Loads.deeper (hinner.map Tail.next) rfl
    rw [partsOfBranches, List.append_assoc, List.append_assoc, ← List.append_assoc next.parts]
    exact Loads.of_eq (first.loads hfirst (.one (hnext.nullable (by simp [tagged])) _)) (by cases first; rfl)

mutual

theorem Pattern.loads : (p : Pattern) → ∀ {depth limit : Nat}, limit ≤ depth →
    (∀ c ∈ p.children, LoadsNode limit node c) → Loads limit (patternWithin node depth) p.encode p.parts p
  | .identifier name, _, _, hle, _ =>
    Loads.within (fun _ => rfl) (fun _ => rfl) hle fun _ _ _ _ => (Loads.string name).map Pattern.identifier
  | .enumCase name bindings, _, _, hle, _ =>
    Loads.within (fun _ => rfl) (fun _ => rfl) hle fun _ _ _ _ =>
      (((LoadsFields.pure Pattern.enumCase).andPlain (.string name)).andPlain
        (.required (Loads.strings bindings))).objectDecoder (by simp)
  | .wildcard, _, _, hle, _ => Loads.bareWithin (fun _ => rfl) (fun _ => rfl) hle
  | .tuple elements, _, _, hle, h =>
    Loads.within (fun _ => rfl) (fun _ => rfl) hle fun k l hl hlimit => by
      rw [encodePatterns_eq, Pattern.parts, partsOfPatterns_eq]
      exact (Loads.list fun p hp => Pattern.loadsAll elements p hp hl fun c hc =>
        (h c hc).mono hlimit).map Pattern.tuple
  | .expression value, _, _, hle, h =>
    Loads.within (fun _ => rfl) (fun _ => rfl) hle fun _ _ _ hlimit =>
      ((h value (List.mem_singleton_self _)).mono hlimit).map Pattern.expression

theorem Pattern.loadsAll : (ps : List Pattern) → ∀ p ∈ ps, ∀ {depth limit : Nat}, limit ≤ depth →
    (∀ c ∈ childrenOfPatterns ps, LoadsNode limit node c) → Loads limit (patternWithin node depth) p.encode p.parts p
  | [], _, hp, _, _, _, _ => by simp at hp
  | p :: rest, q, hq, _, _, hle, h => by
    rcases List.mem_cons.1 hq with heq | hq
    · rw [heq]
      exact p.loads hle fun c hc => h c (List.mem_append_left _ hc)
    · exact Pattern.loadsAll rest q hq hle fun c hc => h c (List.mem_append_right _ hc)

end

/-! ### Declarations -/

section

variable (name : String) (decor : Decor) (generics : List GenericParam) (conformances : List TypeRef)

theorem loads_structDecl {members : List Node} (hlimit : limit ≤ depthLimit)
    (h : ∀ c ∈ members, LoadsNode limit node c) :
    Loads limit (structDecl node)
      (.object (TypeHead.fields ⟨.structType, name, decor, generics, conformances⟩ ++ nodesField "members" members))
      (partsOfNodes members) ⟨⟨.structType, name, decor, generics, conformances⟩, members⟩ := by
  rw [TypeHead.fields, Flavor.flag, List.append_nil]
  exact Loads.of_eq ((((((LoadsFields.pure _).andPlain (.string name)).andPlain (loads_decorField decor)).andPlain
    (loads_genericParams generics hlimit)).andPlain (loads_conformances conformances hlimit)).and
    (loads_nodesOf h) |>.decoder (by simp)) rfl

theorem loads_classDecl (isFinal : Bool) {members : List Node} (hlimit : limit ≤ depthLimit)
    (h : ∀ c ∈ members, LoadsNode limit node c) :
    Loads limit (classDecl node)
      (.object (TypeHead.fields ⟨.classType isFinal, name, decor, generics, conformances⟩ ++
        nodesField "members" members))
      (partsOfNodes members) ⟨⟨.classType isFinal, name, decor, generics, conformances⟩, members⟩ :=
  Loads.of_eq (((((((LoadsFields.pure _).andPlain (.string name)).andPlain (loads_decorField decor)).andPlain
    (.flag isFinal)).andPlain (loads_genericParams generics hlimit)).andPlain
    (loads_conformances conformances hlimit)).and (loads_nodesOf h) |>.decoder (by simp)) rfl

theorem loads_enumDecl (isIndirect : Bool) {members : List Node} (hlimit : limit ≤ depthLimit)
    (h : ∀ c ∈ members, LoadsNode limit node c) :
    Loads limit (enumDecl node)
      (.object (TypeHead.fields ⟨.enumType isIndirect, name, decor, generics, conformances⟩ ++
        nodesField "members" members))
      (partsOfNodes members) ⟨⟨.enumType isIndirect, name, decor, generics, conformances⟩, members⟩ :=
  Loads.of_eq (((((((LoadsFields.pure _).andPlain (.string name)).andPlain (loads_decorField decor)).andPlain
    (.flag isIndirect)).andPlain (loads_genericParams generics hlimit)).andPlain
    (loads_conformances conformances hlimit)).and (loads_nodesOf h) |>.decoder (by simp)) rfl

end

theorem loads_protocolDecl (head : ProtocolHead) {members : List Node} (hlimit : limit ≤ depthLimit)
    (h : ∀ c ∈ members, LoadsNode limit node c) :
    Loads limit (protocolDecl node) (.object (head.fields ++ nodesField "members" members)) (partsOfNodes members)
      ⟨head, members⟩ :=
  Loads.of_eq (((((LoadsFields.pure _).andPlain (.string head.name)).andPlain (loads_decorField head.decor)).andPlain
    (loads_conformances head.conformances hlimit)).and (loads_nodesOf h) |>.decoder (by simp)) rfl

theorem loads_extensionDecl (head : ExtensionHead) {members : List Node} (hlimit : limit ≤ depthLimit)
    (h : ∀ c ∈ members, LoadsNode limit node c) :
    Loads limit (extensionDecl node) (.object (head.fields ++ nodesField "members" members)) (partsOfNodes members)
      ⟨head, members⟩ :=
  Loads.of_eq ((((((LoadsFields.pure _).andPlain (.required (head.extended.loads hlimit))).andPlain
    (loads_decorField head.decor)).andPlain (loads_conformances head.conformances hlimit)).andPlain
    (.strings head.requirements)).and (loads_nodesOf h) |>.decoder (by simp)) rfl

theorem loads_functionDecl (head : FunctionHead) {params : List Param} {body : List Node}
    (hlimit : limit ≤ depthLimit) (h : ∀ c ∈ params.flatMap Param.children ++ body, LoadsNode limit node c) :
    Loads limit (functionDecl node)
      (.object (head.fields (listField "params" (encodeParams params)) ++ nodesField "body" body))
      (partsOfParams params ++ partsOfNodes body) ⟨head, params, body⟩ :=
  Loads.of_eq (((((((((((LoadsFields.pure _).andPlain (.string head.name)).andPlain
    (loads_decorField head.decor)).andPlain (.flag head.isStatic)).andPlain (.flag head.isOverride)).andPlain
    (.flag head.isMutating)).andPlain (loads_genericParams head.generics hlimit)).and
    (loads_params hlimit fun c hc => h c (List.mem_append_left _ hc))).andPlain
    (loads_effectsField head.effects hlimit)).andPlain (loads_returnType head.returnType hlimit)).and
    (loads_nodesOf fun c hc => h c (List.mem_append_right _ hc)) |>.decoder (by simp)) rfl

theorem loads_initDecl (head : InitHead) {params : List Param} {body : List Node}
    (hlimit : limit ≤ depthLimit) (h : ∀ c ∈ params.flatMap Param.children ++ body, LoadsNode limit node c) :
    Loads limit (initDecl node)
      (.object (head.fields (listField "params" (encodeParams params)) ++ nodesField "body" body))
      (partsOfParams params ++ partsOfNodes body) ⟨head, params, body⟩ :=
  Loads.of_eq (((((((LoadsFields.pure _).andPlain (loads_decorField head.decor)).andPlain
    (.flag head.isFailable)).andPlain (.flag head.isConvenience)).and
    (loads_params hlimit fun c hc => h c (List.mem_append_left _ hc))).andPlain
    (loads_effectsField head.effects hlimit)).and
    (loads_nodesOf fun c hc => h c (List.mem_append_right _ hc)) |>.decoder (by simp)) rfl

/-! ### Statements -/

theorem loads_tupleAssignment (names : List String) (value : Node) (mode : AssignmentMode)
    (h : LoadsNode limit node value) :
    Loads limit (tupleAssignment node)
      (.object [("names", .array (names.map .string)), ("value", value.encode), ("mode", .string mode.name)])
      (value.parts ++ [.tupleAssignment ⟨names, value, mode⟩]) ⟨names, value, mode⟩ := by
  refine Loads.checked ?_ (.tupleAssignment ⟨names, value, mode⟩) rfl
  exact ((((LoadsFields.pure TupleAssignment.mk).andPlain (.required (Loads.strings names))).and
    (.required h)).andPlain (.withDefault mode.loads _)).decoder (by simp)

theorem loads_guardStmt {conditions : List Condition} {otherwise : List Node}
    (h : ∀ c ∈ conditions.flatMap Condition.children ++ otherwise, LoadsNode limit node c) :
    Loads limit (guardStmt node)
      (.object (field "conditions" (.array (encodeConditions conditions)) ++ nodesField "otherwise" otherwise))
      (partsOfConditions conditions ++ partsOfNodes otherwise) ⟨conditions, otherwise⟩ :=
  (((LoadsFields.pure Guard.mk).and
    (.required (loads_conditions fun c hc => h c (List.mem_append_left _ hc)))).and
    (loads_nodesOf fun c hc => h c (List.mem_append_right _ hc))).decoder (by simp)

theorem loads_conditionLoop (style : LoopStyle) {condition : Node} {body : List Node}
    (h : ∀ c ∈ condition :: body, LoadsNode limit node c) :
    Loads limit (conditionLoop node style)
      (.object (field "condition" condition.encode ++ nodesField "body" body))
      (condition.parts ++ partsOfNodes body ++ [.loop ⟨style, condition, body⟩]) ⟨style, condition, body⟩ := by
  refine Loads.checked ?_ (.loop ⟨style, condition, body⟩) rfl
  exact (((LoadsFields.pure (ConditionLoop.mk style)).and (.required (h condition (by simp)))).and
    (loads_nodesOf fun c hc => h c (List.mem_cons_of_mem _ hc))).decoder (by simp)

theorem loads_forIn {pattern sequence : Node} {filter : Option Node} {body : List Node}
    (h : ∀ c ∈ pattern :: sequence :: filter.toList ++ body, LoadsNode limit node c) :
    Loads limit (forIn node)
      (.object (field "pattern" pattern.encode ++ field "sequence" sequence.encode ++
        nodeField? "filter" filter ++ nodesField "body" body))
      (pattern.parts ++ sequence.parts ++ partsOfNode? filter ++ partsOfNodes body ++
        [.forIn ⟨pattern, sequence, filter, body⟩]) ⟨pattern, sequence, filter, body⟩ := by
  refine Loads.checked ?_ (.forIn ⟨pattern, sequence, filter, body⟩) rfl
  exact (((((LoadsFields.pure ForIn.mk).and (.required (h pattern (by simp)))).and
    (.required (h sequence (by simp)))).and (loads_node? fun c hc => h c (by simp_all))).and
    (loads_nodesOf fun c hc => h c (List.mem_append_right _ hc))).decoder (by simp)

theorem loads_switchStmt {subject : Node} {cases : List SwitchCase} {default : Option (List Node)}
    (h : ∀ c ∈ subject :: cases.flatMap SwitchCase.children ++ default.getD [], LoadsNode limit node c) :
    Loads limit (switchStmt node)
      (.object (field "subject" subject.encode ++ listField "cases" (encodeCases cases) ++
        nodesField? "default" default))
      (subject.parts ++ partsOfCases cases ++ partsOfBlock? default) ⟨subject, cases, default⟩ := by
  rw [encodeCases_eq, partsOfCases_eq]
  have hcases : ∀ k ∈ cases, Loads limit (switchCase node) k.encode k.parts k := fun k hk => k.loads fun c hc =>
    h c (List.mem_append_left _ (List.mem_cons_of_mem _ (List.mem_flatMap.2 ⟨k, hk, hc⟩)))
  exact ((((LoadsFields.pure Switch.mk).and (.required (h subject (by simp)))).and (.listOf hcases)).and
    (loads_block? fun c hc => h c (List.mem_append_right _ hc))).decoder (by simp)

theorem loads_doCatch {body : List Node} {catches : List Catch}
    (h : ∀ c ∈ body ++ catches.flatMap Catch.children, LoadsNode limit node c) :
    Loads limit (doCatch node)
      (.object (nodesField "body" body ++ listField "catches" (encodeCatches catches)))
      (partsOfNodes body ++ partsOfCatches catches) ⟨body, catches⟩ := by
  rw [encodeCatches_eq, partsOfCatches_eq]
  have hcatches : ∀ k ∈ catches, Loads limit (catchClause node) k.encode k.parts k := fun k hk =>
    k.loads fun c hc => h c (List.mem_append_right _ (List.mem_flatMap.2 ⟨k, hk, hc⟩))
  exact (((LoadsFields.pure DoCatch.mk).and (loads_nodesOf fun c hc => h c (List.mem_append_left _ hc))).and
    (.listOf hcatches)).decoder (by simp)

end

/-! ### Nodes -/

theorem Expr.loadsWithin (e : Expr) {depth limit : Nat} (hle : limit ≤ depth) (hlimit : limit ≤ depthLimit)
    (h : ∀ k l, l ≤ k → l ≤ limit → ∀ c ∈ e.children, LoadsNode l (nodeWithin k) c) :
    Loads limit (nodeWithin depth) e.encode e.parts (.expression e) := by
  cases e with
  | literal value =>
    refine Loads.within (fun _ => rfl) (fun _ => rfl) hle fun k l hl hle => ?_
    exact (value.loads fun c hc => h k (l - 1) (by omega) (by omega) c hc).map Literal.node
  | call callee args trailing effects =>
    refine Loads.within (fun _ => rfl) (fun _ => rfl) hle fun k l hl hle => ?_
    exact (Call.loads callee args trailing effects (Nat.le_trans hle hlimit) (h k l hl hle)).map Call.node
  | member base name =>
    refine Loads.within (fun _ => rfl) (fun _ => rfl) hle fun k l hl hle => ?_
    exact ((((LoadsFields.pure Expr.member).and (loads_node? (h k l hl hle))).andPlain (.string name)).decoder
      (by simp)).map Node.expression
  | binary lhs op rhs isParenthesized =>
    refine Loads.within (fun _ => rfl) (fun _ => rfl) hle fun k l hl hle => ?_
    exact ((((((LoadsFields.pure Binary.mk).and (.required (h k l hl hle lhs (by simp [Expr.children])))).andPlain
      (.string op)).and (.required (h k l hl hle rhs (by simp [Expr.children])))).andPlain
      (.flag isParenthesized)).decoder (by simp)).map Binary.node
  | unary op operand =>
    refine Loads.within (fun _ => rfl) (fun _ => rfl) hle fun k l hl hle => ?_
    exact ((((LoadsFields.pure Expr.unary).andPlain (.string op)).and
      (.required (h k l hl hle operand (List.mem_singleton_self _)))).decoder (by simp)).map Node.expression
  | postfixed operand mark =>
    refine Loads.within (fun _ => rfl) (fun _ => rfl) hle fun k l hl hle => ?_
    exact ((((LoadsFields.pure Expr.postfixed).and
      (.required (h k l hl hle operand (List.mem_singleton_self _)))).andPlain
      (.required mark.loads)).decoder (by simp)).map Node.expression
  | closure body =>
    refine Loads.within (fun _ => rfl) (fun _ => rfl) hle fun k l hl hle => ?_
    exact (body.loads (Nat.le_trans hle hlimit) (h k l hl hle)).map Closure.node

/-- One layer of a tree: a node loads if its children do. -/
theorem Node.loads_of_children (n : Node) {depth limit : Nat} (hle : limit ≤ depth) (hlimit : limit ≤ depthLimit)
    (h : ∀ k l, l ≤ k → l ≤ limit → ∀ c ∈ n.children, LoadsNode l (nodeWithin k) c) :
    LoadsNode limit (nodeWithin depth) n := by
  unfold LoadsNode
  -- The tag leads to one decoder of the table, which is left one level less for what is inside.
  cases n with
  | typeDecl head members =>
    obtain ⟨flavor, name, decor, generics, conformances⟩ := head
    cases flavor with
    | structType =>
      refine Loads.within (fun _ => rfl) (fun _ => rfl) hle fun k l hl hle => ?_
      exact (loads_structDecl name decor generics conformances (Nat.le_trans hle hlimit)
        (h k l hl hle)).map TypeDecl.node
    | classType isFinal =>
      refine Loads.within (fun _ => rfl) (fun _ => rfl) hle fun k l hl hle => ?_
      exact (loads_classDecl name decor generics conformances isFinal (Nat.le_trans hle hlimit)
        (h k l hl hle)).map TypeDecl.node
    | enumType isIndirect =>
      refine Loads.within (fun _ => rfl) (fun _ => rfl) hle fun k l hl hle => ?_
      exact (loads_enumDecl name decor generics conformances isIndirect (Nat.le_trans hle hlimit)
        (h k l hl hle)).map TypeDecl.node
  | enumCase head rawValue =>
    refine Loads.within (fun _ => rfl) (fun _ => rfl) hle fun k l hl hle => ?_
    exact (EnumCase.loads head rawValue (Nat.le_trans hle hlimit) (h k l hl hle)).map EnumCase.node
  | protocolDecl head members =>
    refine Loads.within (fun _ => rfl) (fun _ => rfl) hle fun k l hl hle => ?_
    exact (loads_protocolDecl head (Nat.le_trans hle hlimit) (h k l hl hle)).map ProtocolDecl.node
  | associatedType decl =>
    refine Loads.within (fun _ => rfl) (fun _ => rfl) hle fun k l hl hle => ?_
    exact (decl.loads (Nat.le_trans hle hlimit)).map Node.associatedType
  | extensionDecl head members =>
    refine Loads.within (fun _ => rfl) (fun _ => rfl) hle fun k l hl hle => ?_
    exact (loads_extensionDecl head (Nat.le_trans hle hlimit) (h k l hl hle)).map ExtensionDecl.node
  | function head params body =>
    refine Loads.within (fun _ => rfl) (fun _ => rfl) hle fun k l hl hle => ?_
    exact (loads_functionDecl head (Nat.le_trans hle hlimit) (h k l hl hle)).map FunctionDecl.node
  | initializer head params body =>
    refine Loads.within (fun _ => rfl) (fun _ => rfl) hle fun k l hl hle => ?_
    exact (loads_initDecl head (Nat.le_trans hle hlimit) (h k l hl hle)).map InitDecl.node
  | property head value getter =>
    refine Loads.within (fun _ => rfl) (fun _ => rfl) hle fun k l hl hle => ?_
    exact (Property.loads head value getter (Nat.le_trans hle hlimit) (h k l hl hle)).map Property.node
  | typeAlias decl =>
    refine Loads.within (fun _ => rfl) (fun _ => rfl) hle fun k l hl hle => ?_
    exact (decl.loads (Nat.le_trans hle hlimit)).map Node.typeAlias
  | importDecl decl =>
    exact Loads.within (fun _ => rfl) (fun _ => rfl) hle fun _ _ _ _ => decl.loads.map Node.importDecl
  | expression e => exact e.loadsWithin hle hlimit h
  | assignment target op value =>
    refine Loads.within (fun _ => rfl) (fun _ => rfl) hle fun k l hl hle => ?_
    exact ((((LoadsFields.pure Node.assignment).and (.required (h k l hl hle target (by simp [children])))).andPlain
      (.string op)).and (.required (h k l hl hle value (by simp [children])))).decoder (by simp)
  | tupleAssignment names value mode =>
    refine Loads.within (fun _ => rfl) (fun _ => rfl) hle fun k l hl hle => ?_
    exact (loads_tupleAssignment names value mode
      (h k l hl hle value (List.mem_singleton_self _))).map TupleAssignment.node
  | ifStmt first elseIfs otherwise =>
    refine Loads.within (fun _ => rfl) (fun _ => rfl) hle fun k l hl hle => ?_
    exact (If.loads otherwise elseIfs first (Nat.le_trans hle hlimit) (h k l hl hle)).map If.node
  | guardStmt conditions otherwise =>
    refine Loads.within (fun _ => rfl) (fun _ => rfl) hle fun k l hl hle => ?_
    exact (loads_guardStmt (h k l hl hle)).map Guard.node
  | loop style condition body =>
    cases style with
    | whileLoop =>
      refine Loads.within (fun _ => rfl) (fun _ => rfl) hle fun k l hl hle => ?_
      exact (loads_conditionLoop .whileLoop (h k l hl hle)).map ConditionLoop.node
    | repeatWhile =>
      refine Loads.within (fun _ => rfl) (fun _ => rfl) hle fun k l hl hle => ?_
      exact (loads_conditionLoop .repeatWhile (h k l hl hle)).map ConditionLoop.node
  | forIn pattern sequence filter body =>
    refine Loads.within (fun _ => rfl) (fun _ => rfl) hle fun k l hl hle => ?_
    exact (loads_forIn (h k l hl hle)).map ForIn.node
  | switchStmt subject cases default =>
    refine Loads.within (fun _ => rfl) (fun _ => rfl) hle fun k l hl hle => ?_
    exact (loads_switchStmt (h k l hl hle)).map Switch.node
  | doCatch body catches =>
    refine Loads.within (fun _ => rfl) (fun _ => rfl) hle fun k l hl hle => ?_
    exact (loads_doCatch (h k l hl hle)).map DoCatch.node
  | returnStmt value =>
    refine Loads.within (fun _ => rfl) (fun _ => rfl) hle fun k l hl hle => ?_
    exact ((LoadsFields.pure Node.returnStmt).and (loads_node? (h k l hl hle))).decoder (by simp)
  | throwStmt error =>
    refine Loads.within (fun _ => rfl) (fun _ => rfl) hle fun k l hl hle => ?_
    exact ((LoadsFields.pure Node.throwStmt).and
      (.required (h k l hl hle error (List.mem_singleton_self _)))).decoder (by simp)
  | jump kind label =>
    cases kind with
    | breakOut =>
      refine Loads.within (fun _ => rfl) (fun _ => rfl) hle fun _ _ _ _ => ?_
      exact ((LoadsFields.pure (Node.jump .breakOut)).andPlain (loads_label label)).decoder (by simp)
    | continueOn =>
      refine Loads.within (fun _ => rfl) (fun _ => rfl) hle fun _ _ _ _ => ?_
      exact ((LoadsFields.pure (Node.jump .continueOn)).andPlain (loads_label label)).decoder (by simp)
  | deferStmt body =>
    refine Loads.within (fun _ => rfl) (fun _ => rfl) hle fun k l hl hle => ?_
    exact ((LoadsFields.pure Node.deferStmt).and (loads_nodesOf (h k l hl hle))).decoder (by simp)
  | pattern p =>
    refine Loads.within (fun _ => rfl) (fun _ => rfl) hle fun k l hl hle => ?_
    exact (p.loads (Nat.le_trans hle hlimit) (h k l hl hle)).map Node.pattern
  | comment text =>
    refine Loads.within (fun _ => rfl) (fun _ => rfl) hle fun _ _ _ _ => ?_
    exact ((LoadsFields.pure Node.comment).andPlain (.string text)).decoder (by simp)
  | blank => exact Loads.bareWithin (fun _ => rfl) (fun _ => rfl) hle
  | raw code =>
    refine Loads.within (fun _ => rfl) (fun _ => rfl) hle fun _ _ _ _ => ?_
    exact ((LoadsFields.pure Node.raw).andPlain (.string code)).decoder (by simp)
  | empty => exact Loads.bareWithin (fun _ => rfl) (fun _ => rfl) hle

/-- Every tree loads as the parts inside it decide. -/
theorem Node.loads (n : Node) {depth limit : Nat} (hle : limit ≤ depth) (hlimit : limit ≤ depthLimit) :
    LoadsNode limit (nodeWithin depth) n := by
  induction n using Node.induct generalizing depth limit with
  | step n ih => exact n.loads_of_children hle hlimit fun k l hl hle c hc => ih c hc hl (Nat.le_trans hle hlimit)

end SwiftForge
