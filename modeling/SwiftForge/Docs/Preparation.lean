import SwiftForge.Docs.Sample

/-!
Making a sample checkable on its own: imports of known modules are taken out, and samples that
cannot stand alone are skipped.
-/

namespace SwiftForge.Docs

/-- Why a sample is not checked. -/
inductive SkipCause where
  | manifest
  | shell
  /-- It imports a module that is not known to be safe. -/
  | foreignImport (moduleName : String)
  /-- It declares an entry point. -/
  | entryPoint
  /-- It leaves something out. -/
  | fragment
  /-- Nothing but imports and blank lines. -/
  | empty
deriving DecidableEq, Repr

def SkipCause.text : SkipCause → String
  | .manifest => "package manifest"
  | .shell => "shell commands"
  | .foreignImport moduleName => "imports " ++ moduleName
  | .entryPoint => "entry point"
  | .fragment => "fragment"
  | .empty => "empty"

/-- A sample made ready, or a reason to skip it. -/
inductive Preparation where
  | ready (source : String)
  | skip (reason : SkipCause)
deriving DecidableEq, Repr

namespace Preparation

/-- Keywords that may stand between `import` and what is imported. -/
def importKinds : List (List Char) :=
  ["typealias", "struct", "class", "enum", "protocol", "let", "var", "func"].map String.toList

/-- The module that a line imports, if it is an import: attributes, `import`, perhaps a kind, and a
path that starts with the module. -/
def importedModule? (line : List Char) : Option (List Char) :=
  match (Text.words line).dropWhile fun word => word.head? == some '@' with
  | word :: path :: rest =>
    if word ≠ "import".toList then none
    else if importKinds.contains path then rest.head?.map (·.takeWhile (· ≠ '.'))
    else some (path.takeWhile (· ≠ '.'))
  | _ => none

/-- Whether a line starts an entry point. -/
def isEntryPoint (line : List Char) : Bool := Sample.startsWith (Text.trimStart line) "@main".toList

/-- Whether a line stands for something left out. -/
def isElision (line : List Char) : Bool :=
  let line := Text.trim line
  line == "...".toList || line == "…".toList || Sample.startsWith line "// ...".toList ||
    Sample.startsWith line "// …".toList

def isBlankLine (line : List Char) : Bool := (Text.trim line).isEmpty

/-- The lines that are no imports, or the first module that is not safe. -/
def withoutImports (safe : List String) : List (List Char) → Except String (List (List Char))
  | [] => .ok []
  | line :: rest =>
    match importedModule? line with
    | none => (withoutImports safe rest).map (line :: ·)
    | some name =>
      if safe.contains (String.ofList name) then withoutImports safe rest
      else .error (String.ofList name)

/-- Prepares the body of a sample. A foreign import weighs more than an entry point, that more than an
elision, and that more than emptiness. -/
def ofBody (safe : List String) (body : String) : Preparation :=
  match withoutImports safe (Text.lines body.toList) with
  | .error name => .skip (.foreignImport name)
  | .ok kept =>
    if kept.any isEntryPoint then .skip .entryPoint
    else if kept.any isElision then .skip .fragment
    else if kept.all isBlankLine then .skip .empty
    else .ready (String.ofList (kept.flatMap fun line => line ++ ['\n']))

end Preparation

end SwiftForge.Docs
