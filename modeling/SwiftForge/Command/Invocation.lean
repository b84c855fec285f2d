import SwiftForge.Command.Arguments

/-!
The commands of the program and their arguments.
-/

namespace SwiftForge.Command

/-- Shells that completions can be asked for. -/
inductive Shell where
  | bash
  | elvish
  | fish
  | powershell
  | zsh
deriving DecidableEq, Repr

namespace Shell

def all : List Shell := [.bash, .elvish, .fish, .powershell, .zsh]

def name : Shell → String
  | .bash => "bash"
  | .elvish => "elvish"
  | .fish => "fish"
  | .powershell => "powershell"
  | .zsh => "zsh"

def ofName? (name : String) : Option Shell := all.find? fun shell => shell.name = name

end Shell

/-- What the program is asked to do. -/
inductive Task where
  /-- Render the document of a file, or of the standard input if none is named. -/
  | render (file : Option String) (tabs : Bool)
  /-- Check the samples of files and directories. -/
  | checkDocs (paths : List String) (swiftc : Option String)
  | completions (shell : Shell)
deriving DecidableEq, Repr

/-- A command line that was understood. -/
structure Invocation where
  config : Option String := none
  verbosity : Nat := 0
  task : Task
deriving DecidableEq, Repr

namespace Invocation

/-- Options that every command has. -/
def sharedOptions : List OptionSpec :=
  [{ long := "config", letter := some 'c', action := .value },
    { long := "verbose", letter := some 'v', action := .count },
    { long := "help", letter := some 'h', action := .answer }]

/-- The program itself, before a command. -/
def programGrammar : Grammar where
  options := sharedOptions ++ [{ long := "version", letter := some 'V', action := .answer }]
  subcommands := ["render", "check-docs", "completions", "help"]

def renderGrammar : Grammar where
  options := sharedOptions ++ [{ long := "tabs", action := .flag }]
  limit := some 1

def checkDocsGrammar : Grammar where
  options := sharedOptions ++ [{ long := "swiftc", action := .value }]
  limit := none

def completionsGrammar : Grammar where
  options := sharedOptions
  limit := some 1
  words := some (Shell.all.map Shell.name)

/-- The task of `render`; a dash stands for the standard input. -/
def renderTask (p : Parsed) : Task :=
  .render (p.positionals.head?.filter (· ≠ "-")) (p.hasFlag "tabs")

/-- The task of `check-docs`, which needs a path. -/
def checkDocsTask (p : Parsed) : Except Stop Task :=
  if p.positionals.isEmpty then .error .usage
  else .ok (.checkDocs p.positionals (p.value? "swiftc"))

/-- The task of `completions`, which needs a shell. -/
def completionsTask (p : Parsed) : Except Stop Task :=
  match p.positionals.head?.bind Shell.ofName? with
  | some shell => .ok (.completions shell)
  | none => .error .usage

/-- Help on the program or on one command. -/
def helpTask : List String → Stop
  | [] => .answer
  | [name] => if programGrammar.subcommands.contains name then .answer else .usage
  | _ => .usage

/-- An option for every command that is given before and after the command counts after it. -/
def combine (before after : Parsed) (task : Task) : Invocation :=
  { config := (after.value? "config").or (before.value? "config")
    verbosity := (before.flags ++ after.flags).count "verbose"
    task }

/-- Reads the arguments of a command. -/
def within (before : Parsed) (g : Grammar) (task : Parsed → Except Stop Task)
    (args : List String) : Except Stop Invocation := do
  let (after, _) ← g.scan args {}
  let task ← task after
  pure (combine before after task)

def parse (args : List String) : Except Stop Invocation := do
  let (before, rest) ← programGrammar.scan args {}
  match rest with
  | "render" :: args => within before renderGrammar (fun p => .ok (renderTask p)) args
  | "check-docs" :: args => within before checkDocsGrammar checkDocsTask args
  | "completions" :: args => within before completionsGrammar completionsTask args
  | "help" :: args => .error (helpTask args)
  | _ => .error .usage

end Invocation

end SwiftForge.Command
