import SwiftForge.Text.Lines

/-!
A directory of documents, and the paths into it. The entries of a directory are kept in the order of
their names.
-/

namespace SwiftForge.Docs

/-- A file or a directory. A file without a text is one that is not UTF-8. -/
inductive FileTree where
  | file (text : Option String)
  | directory (entries : List (String × FileTree))

namespace FileTree

/-- The entry of a name. -/
def find? (name : String) : List (String × FileTree) → Option FileTree
  | [] => none
  | (key, tree) :: rest => if key = name then some tree else find? name rest

/-- Puts an entry in its place; an entry of the same name is replaced. -/
def place (name : String) (tree : FileTree) :
    List (String × FileTree) → List (String × FileTree)
  | [] => [(name, tree)]
  | (key, other) :: rest =>
    if key = name then (name, tree) :: rest
    else if name < key then (name, tree) :: (key, other) :: rest
    else (key, other) :: place name tree rest

/-- The parts of a path between slashes. A path from the root of the file system has a slash as its
first part. -/
def components (path : String) : List String :=
  match path.toList with
  | '/' :: rest => "/" :: (Text.splitAt '/' rest).map String.ofList
  | cs => (Text.splitAt '/' cs).map String.ofList

/-- Adds a file or directory, with the directories on the way to it. An empty directory leaves one
that is there as it is. -/
def insertAt (tree : FileTree) : List String → FileTree → FileTree
  | [], here =>
    match tree, here with
    | .directory [], .directory entries => .directory entries
    | tree, _ => tree
  | name :: rest, .directory entries =>
    .directory (place name (insertAt tree rest ((find? name entries).getD (.directory []))) entries)
  | name :: rest, .file _ => .directory [(name, insertAt tree rest (.directory []))]

/-- The way after one more part of a path, as names with the last in front. An empty part or a dot
stays, two dots go back. Two dots at the top lead out of the tree and count as a name. -/
def step (way : List String) (part : String) : List String :=
  if part = "" ∨ part = "." then way
  else if part = ".." then
    match way with
    | [] => [".."]
    | name :: back => if name = ".." then ".." :: way else back
  else part :: way

/-- Adds a file or directory at the end of a way with more parts. Every part starts from a directory,
which is made if it is missing. -/
def insertAlong (tree : FileTree) (way : List String) : List String → FileTree → FileTree
  | [], root => insertAt tree way.reverse root
  | part :: rest, root =>
    insertAlong tree (step way part) rest (insertAt (.directory []) way.reverse root)

/-- Adds a file or directory under a path. -/
def insert (root : FileTree) (path : String) (tree : FileTree) : FileTree :=
  insertAlong tree [] (components path) root

/-- Follows the parts of a path. `above` are the directories that lead here, the nearest first. An
empty part or a dot stays, two dots go up; only a directory has parts below it. Two dots at the top
lead out of the tree, to the entry of that name if it has one. -/
def follow (above : List FileTree) (here : FileTree) : List String → Option FileTree
  | [] => some here
  | part :: rest =>
    match here with
    | .file _ => none
    | .directory entries =>
      if part = "" ∨ part = "." then follow above here rest
      else if part = ".." then
        match above with
        | [] => (find? ".." entries).bind fun outside => follow [] outside rest
        | parent :: above => follow above parent rest
      else
        match find? part entries with
        | some next => follow (here :: above) next rest
        | none => none

/-- What a path leads to. Paths from the root of the file system lead out of the tree, unless it has
an entry for that root. -/
def resolve? (root : FileTree) (path : String) : Option FileTree :=
  if path.isEmpty then none else follow [] root (components path)

def read? (root : FileTree) (path : String) : Option String :=
  match root.resolve? path with
  | some (.file text) => text
  | _ => none

def isFile (root : FileTree) (path : String) : Bool :=
  match root.resolve? path with
  | some (.file _) => true
  | _ => false

/-- A path and a name below it. -/
def join (path name : String) : String :=
  if path.toList.getLast? = some '/' then path ++ name else path ++ "/" ++ name

/-- The extension of a file name: what follows its last dot, unless that dot is its first
character. -/
def extension? (name : String) : Option String :=
  let reversed := name.toList.reverse
  let after := reversed.takeWhile (· ≠ '.')
  match reversed.dropWhile (· ≠ '.') with
  | [] | [_] => none
  | _ => some (String.ofList after.reverse)

/-- Names of entries that lead out of the tree. -/
def isOutside (name : String) : Bool := name == "/" || name == ".."

/-- The path at the end of a way. -/
def along (path : String) (way : List String) : String := way.foldl join path

/-- Something below a directory that a walk has come to: the names on the way down to it, and whether
it is a file. -/
@[ext]
structure Found where
  way : List String
  isFile : Bool
deriving DecidableEq, Repr

/-- The same seen from the directory above, where the way starts with one more name. -/
def Found.under (name : String) (found : Found) : Found := { found with way := name :: found.way }

/-- Walks what is below a directory, depth first: every entry, and after a directory what is in it. -/
def walk : List (String × FileTree) → List Found
  | [] => []
  | (name, .file _) :: rest => { way := [name], isFile := true } :: walk rest
  | (name, .directory entries) :: rest =>
    (if isOutside name then [] else { way := [name], isFile := false } :: (walk entries).map (·.under name))
      ++ walk rest

end FileTree

end SwiftForge.Docs
