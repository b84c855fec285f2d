/-!
Syntax checkers: what decides whether a piece of Swift parses.
-/

namespace SwiftForge.Docs

/-- Why a checker did not accept a source. -/
inductive CheckFailure where
  /-- The checker could not be run. -/
  | launch (program cause : String)
  /-- The checker ran and refused the source. -/
  | rejected (message output : String)
deriving DecidableEq, Repr

namespace CheckFailure

def text : CheckFailure → String
  | .launch program cause => "failed to run `" ++ program ++ "`: " ++ cause
  | .rejected message output => message ++ "\n\nOutput:\n" ++ output

/-- What the checker wrote, if it ran. -/
def output? : CheckFailure → Option String
  | .launch _ _ => none
  | .rejected _ output => some output

end CheckFailure

/-- A checker gives its verdict on a source. -/
abbrev Checker := String → Except CheckFailure Unit

/-! ### Compilers -/

structure Completion where
  success : Bool
  stdout : String := ""
  stderr : String := ""

/-- A program that can be started, by how it ends when it is asked for its version. -/
structure Compiler extends Completion where
  /-- How it ends when it is asked to parse a file with a source in it, or why it was not given one.
  A program that does not look at what it is asked ends as before. -/
  parse : String → Except String Completion := fun _ => .ok toCompletion

/-- Starting a program by its name gives a compiler, or the reason why it did not start. -/
abbrev Launcher := String → Except String Compiler

namespace Launcher

/-- The compiler that is used if none is named. -/
def defaultProgram : String := "swiftc"

/-- A checker that asks a compiler to parse each source. -/
def checker (launch : Launcher) (program : String) : Checker := fun source =>
  match launch program >>= fun compiler => compiler.parse source with
  | .error cause => .error (.launch program cause)
  | .ok done =>
    if done.success then .ok ()
    else
      .error (.rejected "swiftc -parse failed"
        ("stderr:\n" ++ done.stderr ++ "\n\nstdout:\n" ++ done.stdout))

/-- Whether a program can be run with success. -/
def isAvailable (launch : Launcher) (program : String) : Bool :=
  match launch program with
  | .ok compiler => compiler.success
  | .error _ => false

end Launcher

end SwiftForge.Docs
