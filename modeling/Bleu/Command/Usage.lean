/-!
# Command lines that are no commands

A command line may ask for help or for the version, or be refused with the word or option that is to blame.
-/
namespace Bleu.Command

/-- Why a command line gives no command. -/
inductive Usage
  | help
  | version
  | missingSubcommand
  | unknownSubcommand (word : String)
  | unknownArgument (word : String)
  | missingValue (option : String)
  /-- A value that is empty or not on the option's list. -/
  | unlistedValue (option word : String)
  | unreadableValue (option word : String)
  | needlessValue (option : String)
  | repeated (option : String)
  | missingOption (option : String)
deriving DecidableEq, Repr

namespace Usage

def message : Usage → String
  | help => "Commands: score, corpus, list, generate-config, validate, help"
  | version => "0.1.0"
  | missingSubcommand => "a subcommand is required"
  | unknownSubcommand word => s!"unrecognized subcommand '{word}'"
  | unknownArgument word => s!"unexpected argument '{word}' found"
  | missingValue option => s!"a value is required for '--{option}' but none was supplied"
  | unlistedValue option word | unreadableValue option word => s!"invalid value '{word}' for '--{option}'"
  | needlessValue option => s!"unexpected value for '--{option}' found; no more were expected"
  | repeated option => s!"the argument '--{option}' cannot be used multiple times"
  | missingOption option => s!"the required argument '--{option}' was not provided"

def isAnswer : Usage → Bool
  | help | version => true
  | _ => false

def exitStatus (u : Usage) : Nat := if u.isAnswer then 0 else 2

end Usage

end Bleu.Command
