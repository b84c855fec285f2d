import SwiftForge.Tree.SourceFile

/-!
Steps that build source files.
-/

namespace SwiftForge.SourceFile

/-- Adds a line to the header comment. -/
def addHeader (line : String) (f : SourceFile) : SourceFile := { f with header := f.header ++ [line] }

/-- Adds an import; one that is there already stays where it is. -/
def addImport (name : String) (f : SourceFile) : SourceFile :=
  { f with imports := insertImport f.imports name, imports_nodup := nodup_insertImport f.imports_nodup name }

def addNodes (nodes : List Node) (f : SourceFile) : SourceFile := { f with nodes := f.nodes ++ nodes }

end SwiftForge.SourceFile
