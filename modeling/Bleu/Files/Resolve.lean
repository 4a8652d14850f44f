import Bleu.Files.Pattern
import Bleu.Files.Reading

/-!
# Resolving patterns

`expand` lists the paths that fit a pattern. `resolveBy` takes the files of several patterns together, in the order of
their paths and each once; every pattern must be well formed and fit some file. It works with any way to list the paths
of a pattern, and `resolvePatterns` is the one with `expand`.
-/
namespace Bleu.Files
open Reading

def isFolder (path : String) : Reading Bool := do return (← readKind path) == some .folder

/-- The entries that lead to the place itself and to the folder above. They fit only patterns with a dot in front. -/
def dotNames (tokens : List Token) : List String :=
  if tokens.head? = some (.char '.') then [".", ".."].filter (fitsName tokens ·.toList) else []

/-- Whether a name without wildcards leads on from a folder: a dot name from every folder, another one if something
goes by it. -/
def leadsOn (folder name : String) : Reading Bool :=
  if name = "." ∨ name = ".." then isFolder folder else do return (← readKind (child folder name)).isSome

/-- The paths that fit components from a path on, at most `fuel` steps away. -/
def expandFrom : Nat → List Component → String → Reading (List String)
  | 0, _, _ => pure []
  | _, [], path => pure [path]
  | fuel + 1, .literal name :: rest, path => do
    if ← leadsOn path name then expandFrom fuel rest (child path name) else return []
  | fuel + 1, .wild tokens :: rest, path => do
    let names := (← readNames path).filter (fitsName tokens ·.toList)
    let dots := if ← isFolder path then dotNames tokens else []
    let found ← (names.map (child path) ++ dots.map (join path)).mapM (expandFrom fuel rest)
    return found.flatten
  | fuel + 1, .folders :: .folders :: rest, path => expandFrom fuel (.folders :: rest) path
  | fuel + 1, .folders :: rest, path => do
    let found ← (← readNames path).mapM fun name => do
      let below ← expandFrom fuel (.folders :: rest) (child path name)
      match rest with
      | [] => if ← isFolder (child path name) then return child path name :: below else return below
      | next :: others =>
        if next.fits name then return below ++ (← expandFrom fuel others (child path name)) else return below
    return found.flatten

/-- The paths that are of a kind. -/
def keepKind (kind : Kind) : List String → Reading (List String)
  | [] => pure []
  | path :: rest => do
    let kept ← keepKind kind rest
    return if (← readKind path) = some kind then path :: kept else kept

/-- The paths that fit a pattern. Folders are no deeper than paths are long. -/
def expand (p : Pattern) : Reading (List String) := do
  let found ← expandFrom (FileTree.pathLimit + p.components.length) p.components p.start
  if p.onlyFolders then keepKind .folder found else return found

inductive PatternFault
  | invalid (pattern : String)
  | unmatched (pattern : String)
deriving DecidableEq, Repr

/-- A way to list the paths of a pattern; there is nothing to list for one that is not well formed. -/
abbrev Listing := String → Reading (Option (List String))

/-- The files of one pattern, at least one. -/
def resolvePattern (listing : Listing) (pattern : String) : ExceptT PatternFault Reading (List String) := do
  let some paths ← listing pattern | throw (.invalid pattern)
  let found ← keepKind .file paths
  if found.isEmpty then throw (.unmatched pattern)
  return found

/-- The files of several patterns, sorted and each once. -/
def resolveBy (listing : Listing) (patterns : List String) : ExceptT PatternFault Reading (List String) := do
  return sortPaths (← patterns.mapM (resolvePattern listing)).flatten

/-- Lists the paths that fit a pattern with wildcards. -/
def fittingPaths : Listing := fun pattern => (Pattern.parse? pattern).mapM expand

def resolvePatterns (patterns : List String) : ExceptT PatternFault Reading (List String) :=
  resolveBy fittingPaths patterns

end Bleu.Files
