import SwiftForge.Proofs.Build.Fits
import SwiftForge.Proofs.Render.Composition

/-! What scripts put together. Every operation contributes nodes of its own, whatever stands in the list before it, and
    the list is what it was, followed by the contributions in the order of the operations. So two scripts that are
    handed to a part one after the other do what the longer script does at once. -/

namespace SwiftForge

/-! ### What stands in a list stays -/

namespace Script

theorem map_nil_append (x : Built (List Node)) : x.map (fun nodes => [] ++ nodes) = x := by
  cases x <;> rfl

theorem map_append_append (x : Built (List Node)) (a b : List Node) :
    x.map (fun nodes => a ++ b ++ nodes) = (x.map fun nodes => b ++ nodes).map fun nodes => a ++ nodes := by
  cases x with
  | error fault => rfl
  | ok nodes => exact congrArg Except.ok (List.append_assoc a b nodes)

/-- Scripts that run one after the other leave the list before them as it is. -/
theorem runEach_eq_map (list : List Node) (scripts : List (List Step)) :
    runEach list scripts = (runEach [] scripts).map fun nodes => list ++ nodes := by
  induction scripts generalizing list with
  | nil => exact congrArg Except.ok (List.append_nil list).symm
  | cons script rest ih =>
    rw [runEach, runEach]
    cases runFrom [] script with
    | error fault => rfl
    | ok nodes =>
      change runEach (list ++ nodes) rest = (runEach ([] ++ nodes) rest).map fun more => list ++ more
      rw [ih, ih ([] ++ nodes), List.nil_append, map_append_append]

/-- An operation leaves the list before it as it is. -/
theorem applyStep_eq_map (list : List Node) (step : Step) :
    applyStep list step = (applyStep [] step).map fun nodes => list ++ nodes := by
  cases step with
  | push node => cases node <;> rfl
  | pushOptional node =>
    rcases node with _ | _ | _ <;> rfl
  | extend nodes => rw [applyStep, applyStep, map_nil_append]
  | append script => rw [applyStep, applyStep, map_nil_append]
  | onlyIf condition script =>
    cases condition with
    | false => exact congrArg Except.ok (List.append_nil list).symm
    | true => rw [applyStep, applyStep, map_nil_append]
  | either condition yes no => cases condition <;> rw [applyStep, applyStep, map_nil_append]
  -- the one operation that hands the list on from script to script
  | each scripts => rw [applyStep, applyStep, runEach_eq_map]

/-- A script leaves the list before it as it is. -/
theorem runFrom_eq_map (list : List Node) (script : Script) :
    runFrom list script = script.run.map fun nodes => list ++ nodes := by
  rw [run]
  induction script generalizing list with
  | nil => exact congrArg Except.ok (List.append_nil list).symm
  | cons step rest ih =>
    rw [runFrom, runFrom, applyStep_eq_map]
    cases applyStep [] step with
    | error fault => rfl
    | ok nodes =>
      change runFrom (list ++ nodes) rest = (runFrom nodes rest).map fun more => list ++ more
      rw [ih, ih nodes, map_append_append]

theorem run_cons (step : Step) (rest : Script) :
    run (step :: rest) = applyStep [] step >>= fun nodes => rest.run.map fun more => nodes ++ more := by
  rw [run, runFrom]
  exact bind_congr fun nodes => runFrom_eq_map nodes rest

theorem runFrom_append (list : List Node) (s t : Script) :
    runFrom list (s ++ t) = runFrom list s >>= fun nodes => runFrom nodes t := by
  induction s generalizing list with
  | nil => rfl
  | cons step s ih =>
    rw [List.cons_append, runFrom, runFrom, bind_assoc]
    exact bind_congr ih

theorem run_append (s t : Script) :
    run (s ++ t) = s.run >>= fun nodes => t.run.map fun more => nodes ++ more := by
  rw [run, runFrom_append]
  exact bind_congr fun nodes => runFrom_eq_map nodes t

end Script

/-! ### Contributions -/

/-- The nodes that an operation contributes to a list. -/
inductive Step.Adds : Step → List Node → Prop
  | push (node : Node) : Adds (.push (.ok node)) [node]
  | present (node : Node) : Adds (.pushOptional (some (.ok node))) [node]
  | absent : Adds (.pushOptional none) [.empty]
  | extend (nodes : List Node) : Adds (.extend (nodes.map .ok)) nodes
  | append {script : List Step} {parts : List (List Node)} (h : List.Forall₂ Adds script parts) :
    Adds (.append script) parts.flatten
  | holds {script : List Step} {parts : List (List Node)} (h : List.Forall₂ Adds script parts) :
    Adds (.onlyIf true script) parts.flatten
  | fails (script : List Step) : Adds (.onlyIf false script) []
  | yes {yes no : List Step} {parts : List (List Node)} (h : List.Forall₂ Adds yes parts) :
    Adds (.either true yes no) parts.flatten
  | no {yes no : List Step} {parts : List (List Node)} (h : List.Forall₂ Adds no parts) :
    Adds (.either false yes no) parts.flatten
  | each {scripts : List (List Step)} {items : List (List (List Node))}
    (h : List.Forall₂ (List.Forall₂ Adds) scripts items) : Adds (.each scripts) (items.map List.flatten).flatten

namespace Script

/-- The nodes are the contributions of the operations, one after the other. -/
def Adds (script : Script) (nodes : List Node) : Prop :=
  ∃ parts, List.Forall₂ Step.Adds script parts ∧ nodes = parts.flatten

theorem adds_nil_iff {nodes : List Node} : Adds [] nodes ↔ nodes = [] := by
  constructor
  · rintro ⟨parts, ⟨⟩, rfl⟩
    rfl
  · rintro rfl
    exact ⟨[], .nil, rfl⟩

theorem adds_cons_iff {step : Step} {rest : Script} {nodes : List Node} :
    Adds (step :: rest) nodes ↔ ∃ first, step.Adds first ∧ ∃ more, rest.Adds more ∧ first ++ more = nodes := by
  constructor
  · rintro ⟨parts, hparts, rfl⟩
    obtain ⟨first, others, hfirst, hothers, rfl⟩ := List.forall₂_cons_left_iff.1 hparts
    exact ⟨first, hfirst, others.flatten, ⟨others, hothers, rfl⟩, rfl⟩
  · rintro ⟨first, hfirst, more, ⟨parts, hparts, rfl⟩, rfl⟩
    exact ⟨first :: parts, .cons hfirst hparts, rfl⟩

theorem allBuilt_eq_ok_iff {outcomes : List (Built Node)} {nodes : List Node} :
    allBuilt outcomes = .ok nodes ↔ outcomes = nodes.map .ok :=
  ⟨eq_of_allBuilt, fun h => h ▸ allBuilt_map_ok nodes⟩

mutual

theorem applyStep_eq_ok_iff {nodes : List Node} : (step : Step) → (applyStep [] step = .ok nodes ↔ step.Adds nodes)
  | .push node => by
    rw [applyStep, map_eq_ok]
    constructor
    · rintro ⟨n, rfl, rfl⟩
      exact .push n
    · rintro ⟨⟩
      exact ⟨_, rfl, rfl⟩
  | .pushOptional none => by
    rw [applyStep]
    constructor
    · rintro ⟨⟩
      exact .absent
    · rintro ⟨⟩
      rfl
  | .pushOptional (some node) => by
    rw [applyStep, map_eq_ok]
    constructor
    · rintro ⟨n, rfl, rfl⟩
      exact .present n
    · rintro ⟨⟩
      exact ⟨_, rfl, rfl⟩
  | .extend outcomes => by
    rw [applyStep, map_nil_append, allBuilt_eq_ok_iff]
    constructor
    · rintro rfl
      exact .extend nodes
    · rintro ⟨⟩
      rfl
  | .append script => by
    rw [applyStep, map_nil_append]
    refine (run_eq_ok_iff script).trans ⟨?_, ?_⟩
    · rintro ⟨parts, hparts, rfl⟩
      exact .append hparts
    · rintro ⟨⟩
      exact ⟨_, ‹_›, rfl⟩
  | .onlyIf true script => by
    rw [applyStep, map_nil_append]
    refine (run_eq_ok_iff script).trans ⟨?_, ?_⟩
    · rintro ⟨parts, hparts, rfl⟩
      exact .holds hparts
    · rintro ⟨⟩
      exact ⟨_, ‹_›, rfl⟩
  | .onlyIf false script => by
    rw [applyStep]
    constructor
    · rintro ⟨⟩
      exact .fails script
    · rintro ⟨⟩
      rfl
  | .either true yes no => by
    rw [applyStep, map_nil_append]
    refine (run_eq_ok_iff yes).trans ⟨?_, ?_⟩
    · rintro ⟨parts, hparts, rfl⟩
      exact .yes hparts
    · rintro ⟨⟩
      exact ⟨_, ‹_›, rfl⟩
  | .either false yes no => by
    rw [applyStep, map_nil_append]
    refine (run_eq_ok_iff no).trans ⟨?_, ?_⟩
    · rintro ⟨parts, hparts, rfl⟩
      exact .no hparts
    · rintro ⟨⟩
      exact ⟨_, ‹_›, rfl⟩
  | .each scripts => by
    rw [applyStep]
    refine (runEach_eq_ok_iff scripts).trans ⟨?_, ?_⟩
    · rintro ⟨items, hitems, rfl⟩
      exact .each hitems
    · rintro ⟨⟩
      exact ⟨_, ‹_›, rfl⟩

theorem run_eq_ok_iff {nodes : List Node} : (script : List Step) → (run script = .ok nodes ↔ Adds script nodes)
  | [] => by
    rw [adds_nil_iff]
    exact ⟨fun h => (Except.ok.inj h).symm, fun h => congrArg _ h.symm⟩
  | step :: rest => by
    rw [run_cons, bind_eq_ok, adds_cons_iff]
    refine exists_congr fun first => and_congr (applyStep_eq_ok_iff step) ?_
    rw [map_eq_ok]
    exact exists_congr fun more => and_congr_left' (run_eq_ok_iff rest)

theorem runEach_eq_ok_iff {nodes : List Node} : (scripts : List (List Step)) →
    (runEach [] scripts = .ok nodes ↔
      ∃ items, List.Forall₂ (List.Forall₂ Step.Adds) scripts items ∧ nodes = (items.map List.flatten).flatten)
  | [] => by
    rw [runEach]
    constructor
    · rintro ⟨⟩
      exact ⟨[], .nil, rfl⟩
    · rintro ⟨items, ⟨⟩, rfl⟩
      rfl
  | script :: rest => by
    rw [runEach, bind_eq_ok]
    constructor
    · rintro ⟨first, hscript, hrest⟩
      rw [runEach_eq_map, map_eq_ok] at hrest
      obtain ⟨more, hrest, rfl⟩ := hrest
      obtain ⟨parts, hparts, rfl⟩ := (run_eq_ok_iff script).1 hscript
      obtain ⟨items, hitems, rfl⟩ := (runEach_eq_ok_iff rest).1 hrest
      exact ⟨parts :: items, .cons hparts hitems, rfl⟩
    · rintro ⟨items, hall, rfl⟩
      obtain ⟨parts, others, hparts, hothers, rfl⟩ := List.forall₂_cons_left_iff.1 hall
      refine ⟨parts.flatten, (run_eq_ok_iff script).2 ⟨parts, hparts, rfl⟩, ?_⟩
      rw [runEach_eq_map, (runEach_eq_ok_iff rest).2 ⟨others, hothers, rfl⟩]
      rfl

end

/-! ### Parts that scripts are handed to -/

section

variable {α : Type}

/-- A call that runs a script and hands a part the nodes it puts together. -/
def call (add : List Node → α → α) (script : Script) (part : α) : Built α := do
  let nodes ← script.run
  pure (add nodes part)

/-- A method that has a script fill one list of a part: the script goes on behind what stands in that list, and the
    rest of the part stays. -/
def Fills (add : List Node → α → α) (list : α → List Node) (withList : α → List Node → α) : Prop :=
  ∀ (script : Script) (part : α), call add script part = (runFrom (list part) script).map (withList part)

theorem fills_of_append {add : List Node → α → α} {list : α → List Node} {withList : α → List Node → α}
    (h : ∀ nodes part, add nodes part = withList part (list part ++ nodes)) : Fills add list withList := by
  intro script part
  rw [call, runFrom_eq_map]
  cases script.run with
  | error fault => rfl
  | ok nodes => exact congrArg Except.ok (h nodes part)

/-- Two scripts in two calls do what both do in one call. -/
def Splices (add : List Node → α → α) : Prop :=
  ∀ (s t : Script) (part : α), (do let next ← call add s part; call add t next) = call add (s ++ t) part

/-- A list that is put in is the one that the next call finds, so the nodes of a later call stand after those of an
    earlier one. -/
theorem Fills.splices {add : List Node → α → α} {list : α → List Node} {withList : α → List Node → α}
    (h : Fills add list withList) (hlist : ∀ part nodes, list (withList part nodes) = nodes)
    (hlast : ∀ part a b, withList (withList part a) b = withList part b) : Splices add := by
  intro s t part
  rw [h, h, runFrom_append]
  cases runFrom (list part) s with
  | error fault => rfl
  | ok nodes =>
    change call add t (withList part nodes) = (runFrom nodes t).map (withList part)
    rw [h, hlist]
    exact congrArg ((runFrom nodes t).map ·) (funext (hlast part nodes))

end

theorem fills_addMembers :
    Fills TypeDecl.addMembers TypeDecl.members (fun d members => { d with members }) ∧
    Fills ProtocolDecl.addMembers ProtocolDecl.members (fun d members => { d with members }) ∧
    Fills ExtensionDecl.addMembers ExtensionDecl.members (fun d members => { d with members }) :=
  ⟨fills_of_append fun _ _ => rfl, fills_of_append fun _ _ => rfl, fills_of_append fun _ _ => rfl⟩

theorem fills_addBody :
    Fills FunctionDecl.addBody FunctionDecl.body (fun d body => { d with body }) ∧
    Fills InitDecl.addBody InitDecl.body (fun d body => { d with body }) ∧
    Fills Closure.addBody Closure.body (fun c body => { c with body }) ∧
    Fills ConditionLoop.addBody ConditionLoop.body (fun l body => { l with body }) ∧
    Fills ForIn.addBody ForIn.body (fun l body => { l with body }) ∧
    Fills SwitchCase.addBody SwitchCase.body (fun c body => { c with body }) ∧
    Fills Catch.addBody Catch.body (fun c body => { c with body }) ∧
    Fills DoCatch.addBody DoCatch.body (fun d body => { d with body }) ∧
    Fills If.addBody (fun i => i.first.body) (fun i body => { i with first := { i.first with body } }) :=
  ⟨fills_of_append fun _ _ => rfl, fills_of_append fun _ _ => rfl, fills_of_append fun _ _ => rfl,
    fills_of_append fun _ _ => rfl, fills_of_append fun _ _ => rfl, fills_of_append fun _ _ => rfl,
    fills_of_append fun _ _ => rfl, fills_of_append fun _ _ => rfl, fills_of_append fun _ _ => rfl⟩

/-- A `default` clause is there from the first call on, with or without nodes. -/
theorem fills_addDefault :
    Fills Switch.addDefault (fun s => s.default.getD []) (fun s body => { s with default := some body }) :=
  fills_of_append fun _ _ => rfl

theorem fills_addElse : Fills Guard.addElse Guard.otherwise (fun g body => { g with otherwise := body }) :=
  fills_of_append fun _ _ => rfl

theorem fills_addNodes : Fills SourceFile.addNodes SourceFile.nodes (fun f nodes => { f with nodes }) :=
  fills_of_append fun _ _ => rfl

theorem splices_addMembers : Splices TypeDecl.addMembers ∧ Splices ProtocolDecl.addMembers ∧
    Splices ExtensionDecl.addMembers := by
  obtain ⟨htype, hprotocol, hextension⟩ := fills_addMembers
  exact ⟨htype.splices (fun _ _ => rfl) (fun _ _ _ => rfl), hprotocol.splices (fun _ _ => rfl) (fun _ _ _ => rfl),
    hextension.splices (fun _ _ => rfl) (fun _ _ _ => rfl)⟩

theorem splices_addBody : Splices FunctionDecl.addBody ∧ Splices InitDecl.addBody ∧ Splices Closure.addBody ∧
    Splices ConditionLoop.addBody ∧ Splices ForIn.addBody ∧ Splices SwitchCase.addBody ∧ Splices Catch.addBody ∧
    Splices DoCatch.addBody ∧ Splices If.addBody := by
  obtain ⟨hfunction, hinit, hclosure, hloop, hforIn, hcase, hcatch, hdo, hif⟩ := fills_addBody
  exact ⟨hfunction.splices (fun _ _ => rfl) (fun _ _ _ => rfl), hinit.splices (fun _ _ => rfl) (fun _ _ _ => rfl),
    hclosure.splices (fun _ _ => rfl) (fun _ _ _ => rfl), hloop.splices (fun _ _ => rfl) (fun _ _ _ => rfl),
    hforIn.splices (fun _ _ => rfl) (fun _ _ _ => rfl), hcase.splices (fun _ _ => rfl) (fun _ _ _ => rfl),
    hcatch.splices (fun _ _ => rfl) (fun _ _ _ => rfl), hdo.splices (fun _ _ => rfl) (fun _ _ _ => rfl),
    hif.splices (fun _ _ => rfl) (fun _ _ _ => rfl)⟩

theorem splices_addDefault : Splices Switch.addDefault :=
  fills_addDefault.splices (fun _ _ => rfl) (fun _ _ _ => rfl)

theorem splices_addElse : Splices Guard.addElse := fills_addElse.splices (fun _ _ => rfl) (fun _ _ _ => rfl)

theorem splices_addNodes : Splices SourceFile.addNodes :=
  fills_addNodes.splices (fun _ _ => rfl) (fun _ _ _ => rfl)

/-! ### Order -/

theorem value_render_join (indent : Indent) (nodes : List Node) :
    (render indent nodes).value = String.join (nodes.map fun n => (render indent [n]).value) := by
  induction nodes with
  | nil => rfl
  | cons n rest ih =>
    rw [List.map_cons, String.join_cons, ← ih, value_render, value_render, value_render, ← List.singleton_append,
      value_statements_append, Fragment.linesOf_append, Line.writeAll_append]

theorem warnings_render_flatMap (indent : Indent) (nodes : List Node) :
    (render indent nodes).warnings = nodes.flatMap fun n => (render indent [n]).warnings := by
  induction nodes with
  | nil => rfl
  | cons n rest ih =>
    rw [List.flatMap_cons, ← ih, warnings_render, warnings_render, warnings_render, ← List.singleton_append,
      warnings_statements_append]

/-- A script that ends without a fault leaves the list as it was, followed by what each of its operations contributes,
    in their order and at any depth of nesting; what is rendered of the list comes in the same order, node by node.
    Every method that takes a script has it go on behind the one list of the part it fills and leaves all else of the
    part as it is, so it adds the nodes of two scripts in a row as it adds those of the longer script. -/
theorem script_keeps_order :
    (∀ (list result : List Node) (script : Script), runFrom list script = .ok result ↔
      ∃ parts, List.Forall₂ Step.Adds script parts ∧ result = list ++ parts.flatten ∧
        ∀ indent : Indent,
          (render indent result).value = (render indent list).value ++
            String.join (parts.flatten.map fun n => (render indent [n]).value) ∧
          (render indent result).warnings = (render indent list).warnings ++
            parts.flatten.flatMap fun n => (render indent [n]).warnings) ∧
    (Fills TypeDecl.addMembers TypeDecl.members (fun d members => { d with members }) ∧
      Fills ProtocolDecl.addMembers ProtocolDecl.members (fun d members => { d with members }) ∧
      Fills ExtensionDecl.addMembers ExtensionDecl.members (fun d members => { d with members })) ∧
    (Fills FunctionDecl.addBody FunctionDecl.body (fun d body => { d with body }) ∧
      Fills InitDecl.addBody InitDecl.body (fun d body => { d with body }) ∧
      Fills Closure.addBody Closure.body (fun c body => { c with body }) ∧
      Fills ConditionLoop.addBody ConditionLoop.body (fun l body => { l with body }) ∧
      Fills ForIn.addBody ForIn.body (fun l body => { l with body }) ∧
      Fills SwitchCase.addBody SwitchCase.body (fun c body => { c with body }) ∧
      Fills Catch.addBody Catch.body (fun c body => { c with body }) ∧
      Fills DoCatch.addBody DoCatch.body (fun d body => { d with body }) ∧
      Fills If.addBody (fun i => i.first.body) (fun i body => { i with first := { i.first with body } })) ∧
    Fills Guard.addElse Guard.otherwise (fun g body => { g with otherwise := body }) ∧
    Fills Switch.addDefault (fun s => s.default.getD []) (fun s body => { s with default := some body }) ∧
    Fills SourceFile.addNodes SourceFile.nodes (fun f nodes => { f with nodes }) ∧
    (Splices TypeDecl.addMembers ∧ Splices ProtocolDecl.addMembers ∧ Splices ExtensionDecl.addMembers) ∧
    (Splices FunctionDecl.addBody ∧ Splices InitDecl.addBody ∧ Splices Closure.addBody ∧ Splices ConditionLoop.addBody ∧
      Splices ForIn.addBody ∧ Splices SwitchCase.addBody ∧ Splices Catch.addBody ∧ Splices DoCatch.addBody ∧
      Splices If.addBody) ∧
    Splices Guard.addElse ∧ Splices Switch.addDefault ∧ Splices SourceFile.addNodes := by
  refine ⟨fun list result script => ?_, fills_addMembers, fills_addBody, fills_addElse, fills_addDefault,
    fills_addNodes, splices_addMembers, splices_addBody, splices_addElse, splices_addDefault, splices_addNodes⟩
  rw [runFrom_eq_map, map_eq_ok]
  constructor
  · rintro ⟨nodes, hnodes, rfl⟩
    obtain ⟨parts, hparts, rfl⟩ := (run_eq_ok_iff script).1 hnodes
    refine ⟨parts, hparts, rfl, fun indent => ⟨?_, ?_⟩⟩
    · rw [value_render_join, List.map_append, String.join_append, ← value_render_join]
    · rw [warnings_render_flatMap, List.flatMap_append, ← warnings_render_flatMap]
  · rintro ⟨parts, hparts, rfl, -⟩
    exact ⟨parts.flatten, (run_eq_ok_iff script).2 ⟨parts, hparts, rfl⟩, rfl⟩

end Script

end SwiftForge
