import SwiftForge.Render.Written
import SwiftForge.Tree.SourceFile

/-!
Rendering source files: sections for header, imports and nodes, an empty line between neighbours.
-/

namespace SwiftForge

/-- Joins the sections that have content, with a blank line between neighbours. -/
def joinSections : List (List Fragment) → List Fragment
  | [] => []
  | [part] => part
  | part :: next :: rest => part ++ .blank :: joinSections (next :: rest)

namespace SourceFile

/-- The fragments of a file; sections without content are left out. -/
def fragments (file : SourceFile) : Logged (List Fragment) := do
  let body ← statements file.nodes
  let header := file.header.flatMap Fragment.comments
  let imports := file.imports.map fun (name : String) => Fragment.line ("import " ++ name)
  pure (joinSections ([header, imports, body].filter fun part => !part.isEmpty))

/-- The fragments of a file with the statements of closures written early. -/
def written (indent : Indent) (file : SourceFile) : Logged (List Fragment) := do
  let body ← Written.statements indent file.nodes
  let header := file.header.flatMap Fragment.comments
  let imports := file.imports.map fun (name : String) => Written.line ("import " ++ name)
  pure (joinSections ([header, imports, body].filter fun part => !part.isEmpty))

/-- The text of a file, and the warnings. -/
def render (indent : Indent) (file : SourceFile) : Logged String := do
  let fragments ← file.written indent
  pure (Writer.text indent fragments)

end SourceFile

end SwiftForge
