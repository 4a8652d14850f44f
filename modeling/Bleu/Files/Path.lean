import Bleu.Text.Split

/-!
# Paths

A path is a text with slashes. Its `parts` are the names between them, without empty ones and without dots for the
place itself, save a dot at the front. Paths are compared part by part.
-/
namespace Bleu.Files

inductive Part
  | root
  /-- A dot at the front. -/
  | here
  | parent
  | name (text : String)
deriving DecidableEq, Repr

def Part.rank : Part → Nat
  | root => 0
  | here => 1
  | parent => 2
  | name _ => 3

/-- The order of parts: by kind, names by their characters. -/
def Part.compare : Part → Part → Ordering
  | .name a, .name b => Ord.compare a b
  | a, b => Ord.compare a.rank b.rank

def pieces (path : String) : List String := (Text.splitAt '/' path.toList).map String.ofList

def isAbsolute (path : String) : Bool := path.toList.head? == some '/'

def parts (path : String) : List Part :=
  let names := ((pieces path).filter fun piece => piece ≠ "" ∧ piece ≠ ".").map fun piece =>
    if piece = ".." then Part.parent else .name piece
  if isAbsolute path then .root :: names
  else if (pieces path).head? = some "." then .here :: names
  else names

/-- The order of lists of parts: by the first part that differs, a shorter list in front. -/
def compareParts : List Part → List Part → Ordering
  | [], [] => .eq
  | [], _ :: _ => .lt
  | _ :: _, [] => .gt
  | a :: as, b :: bs => (a.compare b).then (compareParts as bs)

def comparePaths (a b : String) : Ordering := compareParts (parts a) (parts b)

/-- Whether a path is the place itself. -/
def isHere (path : String) : Bool := parts path == [.here]

def join (path name : String) : String :=
  if path.toList.getLast? = some '/' then path ++ name else path ++ "/" ++ name

/-- The path of an entry of a folder; entries of the place itself go by their names. -/
def child (folder name : String) : String := if isHere folder then name else join folder name

/-- Keeps the first of equal paths that follow each other. -/
def dropRepeats : List String → List String
  | [] => []
  | path :: rest =>
    match dropRepeats rest with
    | next :: others => if comparePaths path next = .eq then path :: others else path :: next :: others
    | [] => [path]

/-- Paths in ascending order, each once. -/
def sortPaths (paths : List String) : List String :=
  dropRepeats (paths.mergeSort fun a b => comparePaths a b != .gt)

end Bleu.Files
