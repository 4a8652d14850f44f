import Bleu.Command.Failure
import Bleu.Files.Resolve
import Bleu.Text.Lines

/-!
# The files of a command

Texts, lines and patterns, with the words of commands for what can go wrong. A corpus is read from a file of
hypotheses and from files of references, whose lines belong together by their numbers.
-/
namespace Bleu.Command
open Files (Reading)

def readText (path : String) : ExceptT Failure Reading String :=
  ExceptT.mk do return inContext (.readingFile path) (orOs (← Reading.readText path))

def readLines (path : String) : ExceptT Failure Reading (List String) := do
  return (Text.lines (← readText path).toList).map String.ofList

def Failure.ofPattern : Files.PatternFault → Failure
  | .invalid pattern => { cause := .invalidPattern pattern }
  | .unmatched pattern => { cause := .unmatchedPattern pattern }

def resolvePatterns (patterns : List String) : ExceptT Failure Reading (List String) :=
  ExceptT.mk do return (← (Files.resolvePatterns patterns).run).mapError Failure.ofPattern

/-- Hypotheses with the references of each. -/
structure AlignedCorpus where
  hypotheses : List String
  referenceSets : List (List String)
deriving DecidableEq, Repr

/-- The lines of a file of references, one for every hypothesis. -/
def readReferences (hypotheses : Nat) (path : String) : ExceptT Failure Reading (List String) := do
  let lines ← readLines path
  if lines.length ≠ hypotheses then throw { cause := .lineCount path hypotheses lines.length }
  return lines

/-- Sets with one more entry each, as far as there are entries. -/
def addColumn {β : Type} : List (List β) → List β → List (List β)
  | set :: sets, entry :: entries => (set ++ [entry]) :: addColumn sets entries
  | sets, _ => sets

def AlignedCorpus.read (hypotheses : String) (patterns : List String) : ExceptT Failure Reading AlignedCorpus := do
  let hypotheses ← readLines hypotheses
  let files ← resolvePatterns patterns
  let references ← files.mapM (readReferences hypotheses.length)
  return { hypotheses, referenceSets := references.foldl addColumn (List.replicate hypotheses.length []) }

end Bleu.Command
