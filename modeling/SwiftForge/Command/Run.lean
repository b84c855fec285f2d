import SwiftForge.Command.Invocation
import SwiftForge.Config
import SwiftForge.Document.Decode
import SwiftForge.Render.File

/-!
Running commands. A run is a function of the files, the standard input and the programs it can start,
and gives an exit status, the standard output and the messages for the standard error.
-/

namespace SwiftForge

/-- The text of a document, and the warnings. -/
def Document.render (indent : Indent) : Document → Logged String
  | .nodes list => SwiftForge.render indent list
  | .file source => source.render indent

end SwiftForge

namespace SwiftForge.Command

/-- What a run can use. -/
structure Environment where
  files : Docs.FileTree
  /-- The standard input, if it is UTF-8. -/
  input : Option String := some ""
  launch : Docs.Launcher

structure Ending where
  exit : Nat := 0
  stdout : String := ""
  messages : List String := []
deriving DecidableEq, Repr

namespace Ending

/-- Nothing is printed when a run fails. -/
def failed (message : String) : Ending := { exit := 1, messages := [message] }

/-- The forms of a command line. -/
def usage : List String :=
  ["usage:", "  [-c FILE] [-v] render [--tabs] [FILE]",
    "  [-c FILE] [-v] check-docs [--swiftc PROGRAM] PATH...", "  [-c FILE] [-v] completions SHELL"]

/-- A command line that was not understood has a status of its own. -/
def ofStop : Stop → Ending
  | .usage => { exit := 2, messages := usage }
  | .answer => {}

end Ending

/-- Renders the text of a document. -/
def renderText (indent : Indent) (text : String) : Ending :=
  match Document.load text with
  | .error _ => .failed "input is not a valid syntax tree"
  | .ok document =>
    let rendered := document.render indent
    { stdout := rendered.value, messages := rendered.warnings.map (·.message) }

/-- Checks documentation and prints the report. -/
def checkDocs (inspection : Docs.Inspection) (files : Docs.FileTree) (paths : List String) : Ending :=
  match (inspection.checkPaths files paths).report with
  | .error e => .failed e.text
  | .ok report =>
    { exit := if report.isSuccess then 0 else 1, stdout := report.text,
      messages := report.failures.map (·.failureTitle) }

namespace Invocation

/-- Runs a task under a configuration. -/
def runTask (env : Environment) (config : Config) : Task → Ending
  | .render file tabs =>
    let indent := if tabs then .tab else config.indent
    match file with
    | some path =>
      match env.files.read? path with
      | some text => renderText indent text
      | none => .failed ("failed to read '" ++ path ++ "'")
    | none =>
      match env.input with
      | some text => renderText indent text
      | none => .failed "failed to read stdin"
  | .checkDocs paths swiftc =>
    let program := (swiftc.or config.swiftc).getD Docs.Launcher.defaultProgram
    checkDocs { settings := config.docs, checker := env.launch.checker program } env.files paths
  | .completions _ => {}

/-- Runs an invocation. The configuration comes first: without it nothing is done. -/
def run (env : Environment) (invocation : Invocation) : Ending :=
  match Config.load env.files invocation.config with
  | .error e => .failed e.text
  | .ok config => runTask env config invocation.task

/-- The files that an invocation names. -/
def namedFiles (invocation : Invocation) : List String :=
  invocation.config.toList ++
    match invocation.task with
    | .render file _ => file.toList
    | .checkDocs paths _ => paths
    | .completions _ => []

end Invocation

def run (env : Environment) (args : List String) : Ending :=
  match Invocation.parse args with
  | .error stop => .ofStop stop
  | .ok invocation => invocation.run env

end SwiftForge.Command
