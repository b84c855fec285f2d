import SwiftForge.Docs.Inspection
import SwiftForge.Layout.Indent
import SwiftForge.Toml.Document

/-!
Configuration files. A file has a table `render` with the indentation and a table `docs` with the
settings of the documentation check; what it leaves out has a default, and keys that are not known
are ignored.
-/

namespace SwiftForge

/-- The settings of a project. -/
structure Config where
  indent : Indent := .swift
  docs : Docs.Settings := {}
  /-- The compiler that checks samples. -/
  swiftc : Option String := none
deriving DecidableEq, Repr

/-- Why there is no configuration. -/
inductive ConfigError where
  | io (path : String)
  | parse (filename : String)
  | indent (width : UInt8)
deriving DecidableEq, Repr

def ConfigError.text : ConfigError → String
  | .io path => "failed to read '" ++ path ++ "'"
  | .parse filename => "failed to parse " ++ filename
  | .indent width => "unsupported indent width " ++ Decimal.intText width.toNat

namespace Config

/-- The file that is looked for if none is named. -/
def defaultFile : String := "swiftwright.toml"

/-! ### Settings as TOML values -/

/-- An indentation: a width that fits a byte, or the word for a tab. -/
def indent? : Toml → Option Indent
  | .integer n => if 0 ≤ n ∧ n < 256 then some (.spaces (UInt8.ofNat n.toNat)) else none
  | .string word => if word = "tab" then some .tab else none
  | _ => none

def string? : Toml → Option String
  | .string s => some s
  | _ => none

def strings? : Toml → Option (List String)
  | .array items => items.mapM string?
  | _ => none

/-- A setting that may be missing. -/
def setting {α : Type} (read? : Toml → Option α) (fallback : α) : Option Toml → Option α
  | none => some fallback
  | some value => read? value

/-- The indentation of the table `render`. An array stands for a table by the order of its settings,
and what comes after them is not read. A date stands for a table without known keys. -/
def renderTable? : Toml → Option Indent
  | .table origin entries =>
    if (Toml.table origin entries).isReadable then
      setting indent? .swift (Toml.get? "indent" entries)
    else none
  | .array items => setting indent? .swift items.head?
  | .datetime => some .swift
  | _ => none

/-- The settings of the table `docs`. Its numbers, also those under keys that are not known, have at
most 64 bits. A date stands for a table without known keys. -/
def docsTable? : Toml → Option (Docs.Settings × Option String)
  | .table origin entries => do
    if !(Toml.table origin entries).fitsWords then none
    let fallback : Docs.Settings := {}
    let extensions ← setting strings? fallback.extensions (Toml.get? "extensions" entries)
    let safeImports ← setting strings? fallback.safeImports (Toml.get? "safe-imports" entries)
    let swiftc ← setting (fun value => (string? value).map some) none (Toml.get? "swiftc" entries)
    pure ({ extensions, safeImports }, swiftc)
  | .datetime => some ({}, none)
  | _ => none

/-- The configuration of a document's root table. Values under keys that are not known are read too. -/
def ofEntries? (entries : Toml.Entries) : Option Config := do
  let indent ← setting renderTable? .swift (Toml.get? "render" entries)
  let (docs, swiftc) ← setting docsTable? ({}, none) (Toml.get? "docs" entries)
  if entries.all fun (key, value) => key == "render" || value.isReadable then
    pure { indent, docs, swiftc }
  else none

/-! ### Files -/

/-- The indentations that a configuration may ask for. -/
def isSupported : Indent → Bool
  | .spaces width => width == 2 || width == 3 || width == 4 || width == 8
  | .tab => true

/-- Reads the text of a configuration file. -/
def parse (filename text : String) : Except ConfigError Config :=
  match (Toml.parse? text).bind ofEntries? with
  | none => .error (.parse filename)
  | some config =>
    match config.indent with
    | .tab => .ok config
    | .spaces width =>
      if isSupported (.spaces width) then .ok config else .error (.indent width)

/-- Reads the configuration file that is named, or the default one if it is there. -/
def load (files : Docs.FileTree) : Option String → Except ConfigError Config
  | some path => read path
  | none => if files.isFile defaultFile then read defaultFile else .ok {}
where
  read (path : String) : Except ConfigError Config :=
    match files.read? path with
    | some text => parse path text
    | none => .error (.io path)

end Config

end SwiftForge
