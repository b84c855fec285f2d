/-!
Command lines: options, values and positional arguments, read from left to right. The first argument
that does not fit ends the reading.
-/

namespace SwiftForge.Command

inductive OptionAction where
  /-- Takes a value, which is not empty; allowed once. -/
  | value
  /-- Stands for itself; allowed once. -/
  | flag
  /-- Stands for itself; its occurrences count. -/
  | count
  /-- Ends the reading with an answer of its own, such as a help text. -/
  | answer
deriving DecidableEq, Repr

/-- An option with its long name and, if it has one, its letter. -/
structure OptionSpec where
  long : String
  letter : Option Char := none
  action : OptionAction
deriving DecidableEq, Repr

structure Grammar where
  options : List OptionSpec
  /-- The number of positional arguments, if it is bounded. -/
  limit : Option Nat := some 0
  /-- The words that positional arguments may be, if not any. -/
  words : Option (List String) := none
  /-- Names that end the options of this command and start those of another. -/
  subcommands : List String := []
deriving DecidableEq, Repr

/-- Why reading a command line ended early. -/
inductive Stop where
  | usage
  | answer
deriving DecidableEq, Repr

/-- What was read of a command line. -/
structure Parsed where
  values : List (String × String) := []
  flags : List String := []
  positionals : List String := []
deriving DecidableEq, Repr

namespace Parsed

def value? (p : Parsed) (long : String) : Option String := p.values.lookup long

def hasFlag (p : Parsed) (long : String) : Bool := p.flags.contains long

/-- Adds the value of an option. -/
def addValue (p : Parsed) (spec : OptionSpec) (value : String) : Except Stop Parsed :=
  if value.isEmpty || (p.value? spec.long).isSome then .error .usage
  else .ok { p with values := p.values ++ [(spec.long, value)] }

/-- Adds an option without a value. -/
def addFlag (p : Parsed) (spec : OptionSpec) : Except Stop Parsed :=
  if spec.action = .flag && p.hasFlag spec.long then .error .usage
  else .ok { p with flags := p.flags ++ [spec.long] }

end Parsed

namespace Grammar

/-- Adds a positional argument, which is one of the words if there are any and never empty. -/
def addPositional (g : Grammar) (p : Parsed) (arg : String) : Except Stop Parsed :=
  let isOver :=
    match g.limit with
    | some n => n ≤ p.positionals.length
    | none => false
  let isWord :=
    match g.words with
    | some words => words.contains arg
    | none => !arg.isEmpty
  if isOver || !isWord then .error .usage
  else .ok { p with positionals := p.positionals ++ [arg] }

/-- Whether an argument is an option or the mark that ends the options. A dash alone is
neither. -/
def isOptionLike (arg : String) : Bool :=
  match arg.toList with
  | '-' :: _ :: _ => true
  | _ => false

/-- A long option and what stands after its equals sign. -/
def splitLong (body : List Char) : String × Option String :=
  let name := String.ofList (body.takeWhile (· ≠ '='))
  match body.dropWhile (· ≠ '=') with
  | [] => (name, none)
  | _ :: value => (name, some (String.ofList value))

/-- Letters behind one dash. A letter that takes a value takes the rest, with or without an equals
sign; if nothing is left it is given back, for its value is the next argument. -/
def cluster (g : Grammar) : List Char → Parsed → Except Stop (Parsed × Option OptionSpec)
  | [], p => .ok (p, none)
  | letter :: rest, p =>
    match g.options.find? fun spec => spec.letter = some letter with
    | none => .error .usage
    | some spec =>
      match spec.action, rest with
      | .answer, _ => .error .answer
      | .value, [] => .ok (p, some spec)
      | .value, '=' :: value => (p.addValue spec (String.ofList value)).map (·, none)
      | .value, value => (p.addValue spec (String.ofList value)).map (·, none)
      | _, rest => do cluster g rest (← p.addFlag spec)

/-- An argument that starts with a dash. An option that still needs its value is given back. -/
def option (g : Grammar) (body : List Char) (p : Parsed) : Except Stop (Parsed × Option OptionSpec) :=
  match body with
  | '-' :: body =>
    let (name, attached) := splitLong body
    match g.options.find? fun spec => spec.long = name with
    | none => .error .usage
    | some spec =>
      match spec.action, attached with
      | .value, some value => (p.addValue spec value).map (·, none)
      | .value, none => .ok (p, some spec)
      | _, some _ => .error .usage
      | .answer, none => .error .answer
      | _, none => (p.addFlag spec).map (·, none)
  | letters => g.cluster letters p

/-- Reads arguments up to a subcommand, which is left with what follows it. After two dashes every
argument is positional. -/
def scan (g : Grammar) : List String → Parsed → Except Stop (Parsed × List String)
  | [], p => .ok (p, [])
  | arg :: rest, p =>
    if g.subcommands.contains arg then .ok (p, arg :: rest)
    else if arg = "--" then do
      let p ← rest.foldlM g.addPositional p
      pure (p, [])
    else if isOptionLike arg then
      match g.option (arg.toList.drop 1) p with
      | .error stop => .error stop
      | .ok (p, none) => scan g rest p
      | .ok (p, some spec) =>
        match rest with
        | [] => .error .usage
        | value :: rest =>
          if isOptionLike value then .error .usage
          else
            match p.addValue spec value with
            | .error stop => .error stop
            | .ok p => scan g rest p
    else
      match g.addPositional p arg with
      | .error stop => .error stop
      | .ok p => scan g rest p

end Grammar

end SwiftForge.Command
