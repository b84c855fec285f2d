import SwiftForge.Build.Decl
import SwiftForge.Build.Expr
import SwiftForge.Build.File
import SwiftForge.Build.Stmt
import SwiftForge.Decimal.Format
import SwiftForge.Decimal.Scaling
import SwiftForge.Docs.Inspection
import SwiftForge.Document.Decode
import SwiftForge.Document.Encode
import SwiftForge.Json.Decoder
import SwiftForge.Json.Reading
import SwiftForge.Json.Value
import SwiftForge.Layout.Writer
import SwiftForge.Main
import SwiftForge.Render.File
import SwiftForge.Render.Written
import SwiftForge.Text.Blank
import SwiftForge.Text.Quoted
import SwiftForge.Toml.Document
import SwiftForge.Toml.Moment
import SwiftForge.Toml.Number
import SwiftForge.Toml.Quoted
import SwiftForge.Tree.Decor
import SwiftForge.Tree.Node
import SwiftForge.Tree.Rule
import SwiftForge.Tree.TypeRef
import SwiftForge.Proofs.Decimal.Order
import SwiftForge.Proofs.Decimal.Shortest
import SwiftForge.Proofs.Decimal.Scaling
import SwiftForge.Proofs.Json.Number
import SwiftForge.Proofs.Json.Text
import SwiftForge.Proofs.Tree.Children
import SwiftForge.Proofs.Tree.Parts
import SwiftForge.Proofs.Document.Loads
import SwiftForge.Proofs.Document.Heads
import SwiftForge.Proofs.Document.Nodes
import SwiftForge.Proofs.Tree.Floats
import SwiftForge.Proofs.Document.Floats
import SwiftForge.Proofs.Document.RoundTrip
import SwiftForge.Proofs.Render.Slots
import SwiftForge.Proofs.Document.Sound
import SwiftForge.Proofs.Build.Calls
import SwiftForge.Proofs.Build.Rules
import SwiftForge.Proofs.Build.Fits
import SwiftForge.Proofs.Layout.Lines
import SwiftForge.Proofs.Layout.Nested
import SwiftForge.Proofs.Tree.Authored
import SwiftForge.Proofs.Render.Headers
import SwiftForge.Proofs.Render.Nesting
import SwiftForge.Proofs.Render.Composition
import SwiftForge.Proofs.Render.Brackets
import SwiftForge.Proofs.Render.Sites
import SwiftForge.Proofs.Render.Tracks
import SwiftForge.Proofs.Render.Written
import SwiftForge.Proofs.Render.Log
import SwiftForge.Proofs.Build.Scripts
import SwiftForge.Proofs.Text.Lines
import SwiftForge.Proofs.Docs.Fences
import SwiftForge.Proofs.Docs.Blocks
import SwiftForge.Proofs.Docs.Samples
import SwiftForge.Proofs.Docs.Verdicts
import SwiftForge.Proofs.Layout.Blocks
import SwiftForge.Proofs.Layout.Shift
import SwiftForge.Proofs.Layout.Written
import SwiftForge.Proofs.Render.Closures
import SwiftForge.Proofs.Build.Computed
import SwiftForge.Proofs.Docs.Trees
import SwiftForge.Proofs.Docs.Walk
import SwiftForge.Proofs.Docs.Printed
import SwiftForge.Proofs.Docs.Runs
import SwiftForge.Proofs.Text.Names
import SwiftForge.Proofs.Tree.TypeText
import SwiftForge.Proofs.Text.Literals
import SwiftForge.Proofs.Layout.Literals
import SwiftForge.Proofs.Render.Literals
import SwiftForge.Proofs.Render.Operators
import SwiftForge.Proofs.Render.Bindings
import SwiftForge.Proofs.Render.Clauses
import SwiftForge.Proofs.Render.Requirements
import SwiftForge.Proofs.Tree.Pruning
import SwiftForge.Proofs.Render.Pruning
import SwiftForge.Proofs.Text.Remarks
import SwiftForge.Proofs.Layout.Remarks
import SwiftForge.Proofs.Layout.Standing
import SwiftForge.Proofs.Render.Standing
import SwiftForge.Proofs.Render.Remarks
import SwiftForge.Proofs.Docs.Imports
import SwiftForge.Proofs.Build.Files
import SwiftForge.Proofs.Build.Effects
import SwiftForge.Proofs.Docs.Preparations
import SwiftForge.Proofs.Document.Lists
import SwiftForge.Proofs.Render.Spelling
