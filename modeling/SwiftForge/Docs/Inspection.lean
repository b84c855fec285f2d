import SwiftForge.Docs.Checker
import SwiftForge.Docs.FileTree
import SwiftForge.Docs.Report

/-!
Checking documentation: every Swift sample of every document goes through preparation and, if it is
ready, to the checker. The first failure to read a file or to run the checker ends a run.
-/

namespace SwiftForge.Docs

/-- Which files are documents and which imports are safe. -/
structure Settings where
  extensions : List String := ["md"]
  safeImports : List String := ["Foundation", "Swiftwright"]
deriving DecidableEq, Repr

/-- Why a run ended early. -/
inductive RunFailure where
  | io (path : String)
  | checker (cause : CheckFailure)
deriving DecidableEq, Repr

def RunFailure.text : RunFailure → String
  | .io path => "failed to read '" ++ path ++ "'"
  | .checker _ => "could not run the Swift syntax checker"

/-- What a run has done: its findings, the sources that went to the checker, and what ended it
early. -/
structure Run where
  findings : List Finding := []
  consulted : List String := []
  failure : Option RunFailure := none
deriving DecidableEq, Repr

namespace Run

/-- One run after another; nothing follows a failure. -/
def append (a b : Run) : Run :=
  match a.failure with
  | some _ => a
  | none =>
    { findings := a.findings ++ b.findings, consulted := a.consulted ++ b.consulted,
      failure := b.failure }

instance : Append Run := ⟨append⟩

/-- Runs one after the other. -/
def sequence : List Run → Run
  | [] => {}
  | run :: rest => run ++ sequence rest

/-- The report of a run that came to its end. -/
def report (r : Run) : Except RunFailure Report :=
  match r.failure with
  | some error => .error error
  | none => .ok { findings := r.findings }

/-- The skips that the log notes. -/
def notes (r : Run) : List String := r.findings.filterMap Finding.note?

end Run

/-- Walking a directory: what is below it, in the order it is come to. -/
abbrev Walk := List (String × FileTree) → List FileTree.Found

structure Inspection where
  settings : Settings := {}
  checker : Checker
  walk : Walk := FileTree.walk

namespace Inspection

/-- The finding on a sample with its outcome. -/
def findingOf (s : Sample) (outcome : Outcome) : Finding :=
  { path := s.path, line := s.line, offset := s.offset, len := s.len, outcome }

/-- What the checker said, for the report: its output, or its message if the output is blank. -/
def diagnostics (message output : String) : String :=
  if (Text.trim output.toList).isEmpty then message else output

def checkSample (i : Inspection) (s : Sample) : Run :=
  match s.content? with
  | none => {}
  | some .manifest => { findings := [findingOf s (.skipped .manifest)] }
  | some .shell => { findings := [findingOf s (.skipped .shell)] }
  | some .codeExample =>
    match Preparation.ofBody i.settings.safeImports s.body with
    | .skip reason => { findings := [findingOf s (.skipped reason)] }
    | .ready source =>
      match i.checker source with
      | .ok () => { findings := [findingOf s .passed], consulted := [source] }
      | .error (.rejected message output) =>
        { findings := [findingOf s (.failed (diagnostics message output))], consulted := [source] }
      | .error (.launch program cause) =>
        { consulted := [source], failure := some (.checker (.launch program cause)) }

/-- Checks the samples of a document. -/
def checkText (i : Inspection) (path text : String) : Run :=
  Run.sequence ((Sample.extract path text).map i.checkSample)

/-- Checks a document of a directory. -/
def checkFile (i : Inspection) (root : FileTree) (path : String) : Run :=
  match root.read? path with
  | some text => i.checkText path text
  | none => { failure := some (.io path) }

/-- Whether a file found in a directory is a document. -/
def isWanted (i : Inspection) (name : String) : Bool :=
  match FileTree.extension? name with
  | some ext => i.settings.extensions.contains ext
  | none => false

/-- Whether what a walk has come to is a document. -/
def takes (i : Inspection) (found : FileTree.Found) : Bool :=
  found.isFile && found.way.getLast?.any i.isWanted

/-- The files of a path: those of a directory that are wanted, or else the path itself. -/
def collect (i : Inspection) (root : FileTree) (path : String) : List String :=
  match root.resolve? path with
  | some (.directory entries) =>
    ((i.walk entries).filter i.takes).map fun found => FileTree.along path found.way
  | _ => [path]

/-- Checks files and directories in order. -/
def checkPaths (i : Inspection) (root : FileTree) (paths : List String) : Run :=
  Run.sequence ((paths.flatMap (i.collect root)).map (i.checkFile root))

end Inspection

end SwiftForge.Docs
