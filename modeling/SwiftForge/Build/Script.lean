import SwiftForge.Build.Fault

/-!
Scripts: programs that put a list of nodes together. Every operation appends to the end of the list,
so the order of the nodes is the order in which the script runs. A node in a script is the outcome of
its own building, so a fault counts only if the operation is run.
-/

namespace SwiftForge

/-- An operation on a list of nodes. -/
inductive Step where
  | push (node : Built Node)
  /-- Appends a node, or a placeholder in place of an absent one. -/
  | pushOptional (node : Option (Built Node))
  | extend (nodes : List (Built Node))
  /-- Appends what a script of its own puts together. -/
  | append (script : List Step)
  /-- Appends what a script puts together, if the condition holds. -/
  | onlyIf (condition : Bool) (script : List Step)
  /-- Appends what the chosen one of two scripts puts together. -/
  | either (condition : Bool) (yes no : List Step)
  /-- Appends what each script puts together. -/
  | each (scripts : List (List Step))

/-- Operations that run one after the other. -/
abbrev Script := List Step

namespace Script

/-- The nodes of a list of outcomes, up to the first fault. -/
def allBuilt : List (Built Node) → Built (List Node)
  | [] => .ok []
  | node :: rest => do
    let node ← node
    let nodes ← allBuilt rest
    pure (node :: nodes)

mutual

/-- The list after one operation. -/
def applyStep (list : List Node) : Step → Built (List Node)
  | .push node => node.map fun node => list ++ [node]
  | .pushOptional none => .ok (list ++ [.empty])
  | .pushOptional (some node) => node.map fun node => list ++ [node]
  | .extend nodes => (allBuilt nodes).map fun nodes => list ++ nodes
  | .append script => (runFrom [] script).map fun nodes => list ++ nodes
  | .onlyIf true script => (runFrom [] script).map fun nodes => list ++ nodes
  | .onlyIf false _ => .ok list
  | .either true yes _ => (runFrom [] yes).map fun nodes => list ++ nodes
  | .either false _ no => (runFrom [] no).map fun nodes => list ++ nodes
  | .each scripts => runEach list scripts

/-- The list after several operations. -/
def runFrom (list : List Node) : List Step → Built (List Node)
  | [] => .ok list
  | step :: rest => do
    let list ← applyStep list step
    runFrom list rest

/-- The list after each script has added its own. -/
def runEach (list : List Node) : List (List Step) → Built (List Node)
  | [] => .ok list
  | script :: rest => do
    let nodes ← runFrom [] script
    runEach (list ++ nodes) rest

end

/-- The list that a script puts together. -/
def run (script : Script) : Built (List Node) := runFrom [] script

end Script

/-- The one node of a list, if it obeys the rule of the place. -/
def single (wanted : Wanted) (rule : Place → Node → Except Breach Unit) (place : Place)
    (nodes : Built (List Node)) : Built Node := do
  match ← nodes with
  | [node] =>
    Built.ofRule (rule place node)
    pure node
  | nodes => .error (.notSingle place wanted nodes.length)

/-- The one node of a list, if it can stand as an expression. -/
def singleExpression : Place → Built (List Node) → Built Node := single .expression requireExpression

/-- The one node of a list, if it can stand as a pattern. -/
def singlePattern : Place → Built (List Node) → Built Node := single .pattern requirePattern

end SwiftForge
