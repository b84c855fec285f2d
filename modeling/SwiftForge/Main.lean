import SwiftForge.Command.Run

/-!
The command line program. Files that are named are read before the run; directories are not listed
and no compiler is started from here.
-/

namespace SwiftForge.Program

/-- Adds a file to those that a run can read, if it is there. -/
def addFile (files : Docs.FileTree) (path : String) : IO Docs.FileTree := do
  try
    let text ← IO.FS.readFile path
    pure (files.insert path (.file (some text)))
  catch _ => pure files

/-- Reads the files that an invocation names, and the default configuration. -/
def readFiles (invocation : Command.Invocation) : IO Docs.FileTree :=
  (Config.defaultFile :: invocation.namedFiles).foldlM addFile (.directory [])

/-- The standard input, if it is wanted and is UTF-8. -/
def readInput (invocation : Command.Invocation) : IO (Option String) := do
  match invocation.task with
  | .render none _ =>
    let bytes ← (← IO.getStdin).readBinToEnd
    pure (String.fromUTF8? bytes)
  | _ => pure (some "")

def launch : Docs.Launcher := fun _ => .error "programs are not started from here"

/-- How a command line ends. -/
def ending (args : List String) : IO Command.Ending := do
  match Command.Invocation.parse args with
  | .error stop => pure (.ofStop stop)
  | .ok invocation =>
    let files ← readFiles invocation
    let input ← readInput invocation
    pure (invocation.run { files, input, launch })

end SwiftForge.Program

def main (args : List String) : IO UInt32 := do
  let result ← SwiftForge.Program.ending args
  result.messages.forM fun message => IO.eprintln message
  IO.print result.stdout
  pure (UInt32.ofNat result.exit)
