import Bleu.Command.Line
import Bleu.Command.Run

/-!
# The program

Reads the command line, answers what the command asks about files, and carries out its script. The machine is asked
for contents only; it does not tell the names in a folder, so that patterns with wildcards fit no file here.
-/
namespace Bleu.Command

def refusalOf : IO.Error → OsFault
  | .noFileOrDirectory _ _ _ => .notFound
  | .inappropriateType _ code _ => if code = 21 then .isFolder else .notFolder
  | e => .other (toString e)

def machineContent (path : String) : IO (Except OsFault ByteArray) :=
  try return .ok (← IO.FS.readBinFile path) catch e => return .error (refusalOf e)

def machineKind (path : String) : IO (Option Files.Kind) := do
  match ← machineContent path with
  | .ok _ => return some .file
  | .error .isFolder => return some .folder
  | .error _ => return none

/-- Answers a reading from the files of the machine. -/
def answer {α : Type} : Files.Reading α → IO α
  | .done result => pure result
  | .content path next => do answer (next (← machineContent path))
  | .kind path next => do answer (next (← machineKind path))
  | .names _ next => answer (next [])

def machineSave (path text : String) : IO (Except OsFault Unit) :=
  try return .ok (← IO.FS.writeFile path text) catch e => return .error (refusalOf e)

/-- Carries out deeds, up to one that fails. -/
def perform : List Deed → IO (Except Failure Unit)
  | [] => pure (.ok ())
  | .print text :: rest => do
    IO.print text
    perform rest
  | .save path text context :: rest => do
    match inContext context (orOs (← machineSave path text)) with
    | .ok _ => perform rest
    | .error f => return .error f

def execute (c : Command) : IO UInt32 := do
  let script ← answer c.script
  let failure? :=
    match ← perform script.deeds with
    | .ok _ => script.failure
    | .error f => some f
  match failure? with
  | none => return 0
  | some f =>
    IO.eprintln s!"Error: {f.message}"
    return f.exitStatus.toUInt32

def refuse (u : Usage) : IO UInt32 := do
  if u.isAnswer then IO.println u.message else IO.eprintln s!"error: {u.message}"
  return u.exitStatus.toUInt32

end Bleu.Command

def main (words : List String) : IO UInt32 := do
  match Bleu.Command.ofArguments (← IO.getEnv "BLEURS_CONFIG") words with
  | .ok command => Bleu.Command.execute command
  | .error usage => Bleu.Command.refuse usage
