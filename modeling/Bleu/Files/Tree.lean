import Bleu.Fault
import Bleu.Files.Path

/-!
# Trees of files

A tree of folders and files as a value, with the folder in it that paths start from unless a slash stands in front of
them. Those with a slash start at the top, which is the folder above itself. `write` creates a file or replaces one, and
`changes` lists what became different below the starting folder between two trees.
-/
namespace Bleu.Files

inductive Node
  | file (content : ByteArray)
  | folder (entries : List (String × Node))

inductive Kind
  | file
  | folder
deriving DecidableEq, Repr

namespace Node

def empty : Node := folder []

def kind : Node → Kind
  | file _ => .file
  | folder _ => .folder

def at? (node : Node) : List String → Option Node
  | [] => some node
  | name :: names =>
    match node with
    | file _ => none
    | folder entries => (entries.lookup name).bind (at? · names)

/-- Entries with the node of a name replaced, or added at the end. -/
def replaceEntry (name : String) (node : Node) : List (String × Node) → List (String × Node)
  | [] => [(name, node)]
  | entry :: rest => if entry.1 = name then (name, node) :: rest else entry :: replaceEntry name node rest

/-- The tree with a node put under a list of names; folders on the way are made where they are missing. -/
def put (new : Node) (tree : Node) : List String → Node
  | [] => new
  | name :: names =>
    let entries :=
      match tree with
      | folder entries => entries
      | file _ => []
    folder (replaceEntry name (put new ((entries.lookup name).getD empty) names) entries)

mutual

/-- The files of a tree with their paths, `path` being that of the tree. -/
def filesFrom (path : List String) : Node → List (String × ByteArray)
  | file content => [("/".intercalate path, content)]
  | folder entries => entryFiles path entries

def entryFiles (path : List String) : List (String × Node) → List (String × ByteArray)
  | [] => []
  | entry :: rest => entry.2.filesFrom (path ++ [entry.1]) ++ entryFiles path rest

end

end Node

/-- A tree of files, and the names that lead from its top to the folder that paths start from. -/
structure FileTree where
  top : Node
  working : List String := []

namespace FileTree

/-- The greatest length of a name, in bytes. -/
def nameLimit : Nat := 255

/-- What the length of a path stays below, in bytes. -/
def pathLimit : Nat := 4096

/-- Refuses what cannot be a path. -/
def checkPath (path : String) : Except OsFault Unit :=
  if path.toList.contains '\x00' then .error .nulInPath
  else if pathLimit ≤ path.utf8ByteSize then .error .nameTooLong
  else .ok ()

/-- Follows the pieces of a path from a place in a tree, given by its names. The folder above the top is the top. -/
def follow (top : Node) (place : List String) : List String → Except OsFault (List String)
  | [] => .ok place
  | piece :: rest =>
    match top.at? place with
    | some (.folder entries) =>
      if piece = "" ∨ piece = "." then follow top place rest
      else if piece = ".." then follow top place.dropLast rest
      else if nameLimit < piece.utf8ByteSize then .error .nameTooLong
      else if (entries.lookup piece).isSome then follow top (place ++ [piece]) rest
      else .error .notFound
    | some (.file _) => .error .notFolder
    | none => .error .notFound

/-- The place that a path starts from. -/
def start (tree : FileTree) (path : String) : List String := if isAbsolute path then [] else tree.working

def find (tree : FileTree) (path : String) : Except OsFault Node := do
  checkPath path
  if path = "" then throw .notFound
  match tree.top.at? (← follow tree.top (tree.start path) (pieces path)) with
  | some node => return node
  | none => throw .notFound

def kindAt? (tree : FileTree) (path : String) : Option Kind := (tree.find path).toOption.map Node.kind

def content (tree : FileTree) (path : String) : Except OsFault ByteArray := do
  match ← tree.find path with
  | .file content => return content
  | .folder _ => throw .isFolder

def names (tree : FileTree) (path : String) : List String :=
  match tree.find path with
  | .ok (.folder entries) => entries.map Prod.fst
  | _ => []

/-- The pieces of a path without the empty ones at its end. -/
def trimPieces (path : String) : List String := ((pieces path).reverse.dropWhile (· = "")).reverse

/-- Creates a file, or replaces its content. Its folder must exist, and it cannot be a folder itself. -/
def write (tree : FileTree) (path : String) (content : ByteArray) : Except OsFault FileTree := do
  checkPath path
  let way := trimPieces path
  let some last := way.getLast? | throw (if isAbsolute path then .isFolder else .notFound)
  let place ← follow tree.top (tree.start path) way.dropLast
  match tree.top.at? place with
  | some (.folder entries) =>
    if way.length < (pieces path).length ∨ last = "." ∨ last = ".." then throw .isFolder
    if nameLimit < last.utf8ByteSize then throw .nameTooLong
    if let some (.folder _) := entries.lookup last then throw .isFolder
    return { tree with top := Node.put (.file content) tree.top (place ++ [last]) }
  | some (.file _) => throw .notFolder
  | none => throw .notFound

/-- The files below the folder that paths start from, with their paths. -/
def files (tree : FileTree) : List (String × ByteArray) := ((tree.top.at? tree.working).map (Node.filesFrom [])).getD []

/-- The files of a tree that an earlier one does not have, or has with another content. -/
def changes (before after : FileTree) : List (String × ByteArray) :=
  let known := before.files
  after.files.filter fun file => known.lookup file.1 != some file.2

end FileTree

end Bleu.Files
