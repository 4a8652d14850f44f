import Bleu.Fault

/-!
# Failures of commands

A failure is a cause and what the command was about when it came up, from the outermost part to the innermost. The
message names all of them.
-/
namespace Bleu.Command

inductive Cause
  /-- A score, or what it is computed with, is refused. -/
  | fault (fault : Fault)
  | os (fault : OsFault)
  | invalidPattern (pattern : String)
  | unmatchedPattern (pattern : String)
  | unreadablePreferences
  /-- More decimal places are asked for than a report may have. -/
  | tooManyPlaces (places limit : Nat)
  | noReferences
  /-- A file of references does not have a line for every hypothesis. -/
  | lineCount (path : String) (expected found : Nat)
deriving DecidableEq, Repr

def Cause.message : Cause → String
  | fault f => f.message
  | os f => f.message
  | invalidPattern pattern => s!"Invalid file pattern: {pattern}"
  | unmatchedPattern pattern => s!"No files found matching: {pattern}"
  | unreadablePreferences => "Configuration error: <toml>"
  | tooManyPlaces places limit => s!"Configuration error: output.precision must be at most {limit}, got {places}"
  | noReferences => "At least one reference is required"
  | lineCount path expected found =>
    s!"Reference file {path} has {found} lines but the hypothesis file has {expected}"

/-- Whether the program ends on the spot. -/
def Cause.isBreakdown : Cause → Bool
  | fault f => f.isBreakdown
  | _ => false

inductive Context
  | readingFile (path : String)
  | readingPreferences (path : String)
  | preferences (path : String)
  | validation
  | scorer
  | sentence
  | corpus
  | workers
  | line (number : Nat)
  | creatingOutput (path : String)
  | writing (path : String)
deriving DecidableEq, Repr

def Context.message : Context → String
  | readingFile path => s!"Failed to read file: {path}"
  | readingPreferences path => s!"Failed to read config file: {path}"
  | preferences path => s!"Invalid config file: {path}"
  | validation => "Validation failed"
  | scorer => "Invalid scoring configuration"
  | sentence => "Failed to score sentence"
  | corpus => "Failed to score corpus"
  | workers => "Failed to build thread pool"
  | line number => s!"Failed to score line {number}"
  | creatingOutput path => s!"Failed to create output file: {path}"
  | writing path => s!"Failed to write to {path}"

structure Failure where
  /-- From the outermost one to the innermost. -/
  contexts : List Context := []
  cause : Cause
deriving DecidableEq, Repr

namespace Failure

/-- The message of a failure: its contexts and its cause with colons between them. -/
def message (f : Failure) : String := ": ".intercalate (f.contexts.map Context.message ++ [f.cause.message])

/-- The status that the program ends with. -/
def exitStatus (f : Failure) : Nat := if f.cause.isBreakdown then 101 else 1

def within (f : Failure) (context : Context) : Failure := { f with contexts := context :: f.contexts }

def ofFault (fault : Fault) : Failure where
  cause := .fault fault

def ofOs (fault : OsFault) : Failure where
  cause := .os fault

end Failure

/-- A result, or the failure within a context. -/
def inContext {α : Type} (context : Context) : Except Failure α → Except Failure α
  | .ok a => .ok a
  | .error f => .error (f.within context)

def orFault {α : Type} (result : Except Fault α) : Except Failure α := result.mapError .ofFault

def orOs {α : Type} (result : Except OsFault α) : Except Failure α := result.mapError .ofOs

end Bleu.Command
