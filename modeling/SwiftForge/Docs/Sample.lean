import SwiftForge.Docs.Fence
import SwiftForge.Text.Lines

/-!
Samples: the fenced code blocks of a document, with their places, and what they hold.
-/

namespace SwiftForge.Docs

structure Sample where
  path : String
  /-- What follows the opening fence. -/
  info : String
  /-- The line of the first body line, counted from one. -/
  line : Nat
  /-- The place of the body in the document, in bytes. -/
  offset : Nat
  len : Nat
  body : String
deriving DecidableEq, Repr

/-- What a code block holds. -/
inductive BlockContent where
  /-- Swift code. -/
  | codeExample
  /-- The manifest of a package. -/
  | manifest
  | shell
deriving DecidableEq, Repr

/-- A block that is not closed yet. -/
structure OpenBlock where
  fence : Fence
  line : Nat
  offset : Nat
  body : List (List Char)

/-- The sample of a block with its lines so far. -/
def OpenBlock.sample (path : String) (b : OpenBlock) : Sample :=
  { path, info := String.ofList b.fence.info, line := b.line, offset := b.offset,
    len := Text.byteLength b.body.flatten, body := String.ofList b.body.flatten }

namespace Sample

/-- A line without the line feeds and carriage returns at its end. -/
def bareLine (line : List Char) : List Char :=
  Text.dropEndWhile (fun c => c == '\n' || c == '\r') line

/-- The samples in the lines of a document, given the number of lines and bytes before them and the
block that is open. A block that is never closed runs to the end. -/
def fromLines (path : String) : Nat → Nat → Option OpenBlock → List (List Char) → List Sample
  | _, _, none, [] => []
  | _, _, some block, [] => [block.sample path]
  | index, offset, none, line :: rest =>
    let next := offset + Text.byteLength line
    let block := (Fence.ofLine? (bareLine line)).map fun fence =>
      { fence, line := index + 2, offset := next, body := [] }
    fromLines path (index + 1) next block rest
  | index, offset, some block, line :: rest =>
    let next := offset + Text.byteLength line
    if block.fence.isClosedBy (bareLine line) then
      block.sample path :: fromLines path (index + 1) next none rest
    else
      fromLines path (index + 1) next (some { block with body := block.body ++ [line] }) rest

/-- The samples of a document in order. -/
def extract (path text : String) : List Sample :=
  fromLines path 0 0 none (Text.terminatedLines text.toList)

/-- The first word of the info in lower case; commas and braces end a word too. -/
def language (s : Sample) : String :=
  let ends (c : Char) : Bool := Text.isBlank c || c == ',' || c == '\x7b'
  String.ofList (((Text.runsFrom ends [] s.info.toList).head?.getD []).map Char.toLower)

def shellLanguages : List String := ["sh", "bash", "shell", "console", "zsh"]

/-- Whether a text starts with another. -/
def startsWith (text start : List Char) : Bool := start.isPrefixOf text

/-- Whether a text occurs in another. -/
def occursIn (part : List Char) : List Char → Bool
  | [] => part.isEmpty
  | c :: rest => startsWith (c :: rest) part || occursIn part rest

/-- A line that only a package manifest has. -/
def isManifestLine (line : List Char) : Bool :=
  startsWith (Text.trim line) "// swift-tools-version".toList ||
    occursIn "Package(".toList (Text.trim line)

/-- What a sample holds; other languages are of no interest. -/
def content? (s : Sample) : Option BlockContent :=
  if shellLanguages.contains s.language then some .shell
  else if s.language ≠ "swift" then none
  else if (Text.lines s.body.toList).any isManifestLine then some .manifest
  else some .codeExample

end Sample

end SwiftForge.Docs
