import SwiftForge.Build.File
import SwiftForge.Proofs.Build.Scripts

/-! Calls that build a source file. Header lines, imports and nodes go into three lists that do not see each other, so
    however the calls are mixed, what comes out depends on the calls of each kind alone; a fault in a node ends the
    building whatever the other calls are. Of the imports the first mentions stay, in their order. -/

namespace SwiftForge

namespace SourceFile

/-! ### Imports -/

/-- The imports are the names that are mentioned, each once, in the order in which they are mentioned first. -/
structure FirstMentions (names imports : List String) : Prop where
  nodup : imports.Nodup
  mem_iff : ∀ name, name ∈ imports ↔ name ∈ names
  ordered : imports.Pairwise fun a b => names.idxOf a < names.idxOf b

theorem FirstMentions.insert {names imports : List String} (h : FirstMentions names imports) (name : String) :
    FirstMentions (names ++ [name]) (insertImport imports name) := by
  have hmem : ∀ {a}, a ∈ imports → (names ++ [name]).idxOf a = names.idxOf a := fun ha =>
    List.idxOf_append_of_mem ((h.mem_iff _).1 ha)
  have hordered : imports.Pairwise fun a b => (names ++ [name]).idxOf a < (names ++ [name]).idxOf b :=
    h.ordered.imp_of_mem fun ha hb hlt => by rwa [hmem ha, hmem hb]
  refine ⟨nodup_insertImport h.nodup name, fun a => ?_, ?_⟩
  · rw [List.mem_append, List.mem_singleton, ← h.mem_iff]
    unfold insertImport
    split
    · rename_i hname
      exact ⟨.inl, fun ha => ha.elim id fun heq => heq ▸ hname⟩
    · rw [List.mem_append, List.mem_singleton]
  · unfold insertImport
    split
    · exact hordered
    · rename_i hname
      refine List.pairwise_append.2 ⟨hordered, List.pairwise_singleton _ _, fun a ha b hb => ?_⟩
      obtain rfl := List.mem_singleton.1 hb
      rw [hmem ha, List.idxOf_append_of_notMem fun hb => hname ((h.mem_iff b).2 hb)]
      exact Nat.lt_add_right _ (List.idxOf_lt_length_iff.2 ((h.mem_iff a).1 ha))

theorem firstMentions_distinct (names : List String) : FirstMentions names (distinct names) := by
  induction names using List.reverseRecOn with
  | nil => exact ⟨.nil, by simp [distinct], .nil⟩
  | append_singleton names name ih =>
    rw [distinct, List.foldl_append, List.foldl_cons, List.foldl_nil]
    exact ih.insert name

theorem firstMentions_iff {names imports : List String} : FirstMentions names imports ↔ imports = distinct names := by
  refine ⟨fun h => ?_, fun h => h ▸ firstMentions_distinct names⟩
  have hdistinct := firstMentions_distinct names
  refine List.Perm.eq_of_pairwise (fun a b _ _ hab hba => absurd hba (Nat.lt_asymm hab)) h.ordered hdistinct.ordered ?_
  exact (List.perm_ext_iff_of_nodup h.nodup hdistinct.nodup).2 fun a => (h.mem_iff a).trans (hdistinct.mem_iff a).symm

/-! ### Calls -/

/-- A call that builds a file. A node is the outcome of its own building. -/
inductive Call where
  | header (line : String)
  | importModule (name : String)
  | node (outcome : Built Node)
  | nodes (script : Script)

namespace Call

/-- The file after one call. -/
def apply (file : SourceFile) : Call → Built SourceFile
  | .header line => .ok (file.addHeader line)
  | .importModule name => .ok (file.addImport name)
  | .node outcome => outcome.map fun n => file.addNodes [n]
  | .nodes script => Script.call addNodes script file

def headerLine? : Call → Option String
  | .header line => some line
  | _ => none

def moduleName? : Call → Option String
  | .importModule name => some name
  | _ => none

/-- What a call does to the list of nodes. -/
def step? : Call → Option Step
  | .node outcome => some (.push outcome)
  | .nodes script => some (.append script)
  | _ => none

end Call

/-- The file after calls in a row. -/
def applyAll (file : SourceFile) (calls : List Call) : Built SourceFile := calls.foldlM Call.apply file

/-- The file that calls build. -/
def ofCalls (calls : List Call) : Built SourceFile := applyAll {} calls

/-- The file with more in each of its lists. -/
def extended (file : SourceFile) (lines names : List String) (nodes : List Node) : SourceFile where
  header := file.header ++ lines
  imports := names.foldl insertImport file.imports
  nodes := file.nodes ++ nodes
  imports_nodup := nodup_foldl_insertImport names file.imports_nodup

theorem extended_nil (file : SourceFile) : file.extended [] [] [] = file := by
  simp [extended]

theorem extended_extended (file : SourceFile) (lines lines' names names' : List String) (nodes nodes' : List Node) :
    (file.extended lines names nodes).extended lines' names' nodes' =
      file.extended (lines ++ lines') (names ++ names') (nodes ++ nodes') := by
  simp [extended]

/-- Every call extends the lists; only one for nodes can fail. -/
theorem Call.apply_eq (file : SourceFile) (call : Call) : call.apply file =
    (Script.run call.step?.toList).map (file.extended call.headerLine?.toList call.moduleName?.toList) := by
  cases call with
  | header line => exact congrArg Except.ok (by simp [extended, addHeader, headerLine?, moduleName?])
  | importModule name => exact congrArg Except.ok (by simp [extended, addImport, headerLine?, moduleName?])
  | node outcome =>
    cases outcome with
    | error fault => rfl
    | ok n => exact congrArg Except.ok (by simp [extended, addNodes, headerLine?, moduleName?])
  | nodes script =>
    have hrun : Script.run (Call.nodes script).step?.toList = Script.run script := by
      rw [step?, Option.toList_some, Script.run, Script.runFrom, Script.applyStep, Script.map_nil_append]
      exact bind_pure _
    rw [hrun, apply, Script.call]
    cases Script.run script with
    | error fault => rfl
    | ok nodes => exact congrArg Except.ok (by simp [extended, addNodes, headerLine?, moduleName?])

/-- Calls in a row extend each list by what the calls of its kind say, in their order. -/
theorem applyAll_eq (file : SourceFile) (calls : List Call) : applyAll file calls =
    (Script.run (calls.filterMap Call.step?)).map
      (file.extended (calls.filterMap Call.headerLine?) (calls.filterMap Call.moduleName?)) := by
  simp only [List.filterMap_eq_flatMap_toList]
  induction calls generalizing file with
  | nil => exact congrArg Except.ok file.extended_nil.symm
  | cons call rest ih =>
    simp only [List.flatMap_cons]
    rw [applyAll, List.foldlM_cons, Call.apply_eq, Script.run_append]
    cases Script.run call.step?.toList with
    | error fault => rfl
    | ok nodes =>
      refine (ih _).trans ?_
      change (Script.run _).map _ = ((Script.run _).map _).map _
      cases Script.run (rest.flatMap fun call => call.step?.toList) with
      | error fault => rfl
      | ok more => exact congrArg Except.ok (extended_extended ..)

/-- What a file is given, list by list, with the imports as often as they are mentioned. -/
structure Lists where
  header : List String
  names : List String
  nodes : List Node

/-- The file that is given these lists. -/
def Lists.file (lists : Lists) : SourceFile where
  header := lists.header
  imports := distinct lists.names
  nodes := lists.nodes
  imports_nodup := nodup_distinct lists.names

theorem ofCalls_eq (calls : List Call) : ofCalls calls =
    (Script.run (calls.filterMap Call.step?)).map fun nodes =>
      Lists.file ⟨calls.filterMap Call.headerLine?, calls.filterMap Call.moduleName?, nodes⟩ := applyAll_eq {} calls

end SourceFile

end SwiftForge
