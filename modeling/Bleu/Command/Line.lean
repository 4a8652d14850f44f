import Bleu.Command.Arguments
import Bleu.Command.Options

/-!
# The command line

`Command.ofArguments` reads a command line. Its first word is the name of a subcommand, which has options of its own;
a file of preferences may also come from the environment. What must be given is looked for at the end.
-/
namespace Bleu.Command

/-! ## Values -/

/-- A path has characters. -/
def readPath (word : String) : Except Refusal String := if word.isEmpty then .error .unlisted else .ok word

/-- A number of sixty-four bits in digits, perhaps with a plus sign. -/
def readCount (word : String) : Except Refusal Nat :=
  let ds :=
    match word.toList with
    | '+' :: rest => rest
    | ds => ds
  if !ds.isEmpty && ds.all Char.isDigit && Decimal.valueOf ds < Decimal.wordSize then .ok (Decimal.valueOf ds)
  else .error .unreadable

/-- The name of a format, as it is. -/
def readFormat (word : String) : Except Refusal Report.Format :=
  match Report.Format.all.find? fun f => f.name == word with
  | some format => .ok format
  | none => .error .unlisted

def readable {α : Type} (result : Except Fault α) : Except Refusal α := result.mapError fun _ => .unreadable

/-! ## Options -/

def helpSwitch {σ : Type} : Switch σ := ⟨"help", some 'h', .help⟩

/-- The options of every command that scores; `lift` changes the options within its form. -/
def scoringSwitches {σ : Type} (lift : (ScoringOptions → ScoringOptions) → σ → σ) : List (Switch σ) :=
  let value {α : Type} (read : String → Except Refusal α) (set : α → ScoringOptions → ScoringOptions) : Role σ :=
    .value fun word form => do return lift (set (← read word)) form
  [ ⟨"config", some 'c', value readPath fun path o => { o with preferencesFile := some path }⟩,
    ⟨"smoothing", some 's', value (readable ∘ Smoothing.ofName) fun m o => { o with smoothing := some m }⟩,
    ⟨"weights", some 'w', value (readable ∘ Weights.ofText) fun w o => { o with weights := some w }⟩,
    ⟨"max-order", some 'n', value readCount fun n o => { o with maxOrder := some n }⟩,
    ⟨"tokenizer", some 't', value (readable ∘ Tokenization.ofName) fun t o => { o with tokenization := some t }⟩,
    ⟨"format", some 'f', value readFormat fun f o => { o with format := some f }⟩,
    ⟨"output", some 'o', value readPath fun path o => { o with output := some path }⟩,
    ⟨"quiet", some 'q', .flag id⟩,
    ⟨"verbose", some 'v', .counted id⟩,
    helpSwitch ]

structure ScoreForm where
  hypothesis : Option String := none
  references : List String := []
  referenceFiles : List String := []
  options : ScoringOptions := {}

def scoreSwitches : List (Switch ScoreForm) :=
  [ ⟨"hypothesis", some 'H', .value fun word f => .ok { f with hypothesis := some word }⟩,
    ⟨"reference", some 'r', .values fun word f => .ok { f with references := f.references ++ [word] }⟩,
    ⟨"references-file", none, .values fun word f => do
      return { f with referenceFiles := f.referenceFiles ++ [← readPath word] }⟩ ] ++
  scoringSwitches fun change f => { f with options := change f.options }

structure CorpusForm where
  hypotheses : Option String := none
  references : List String := []
  withRows : Bool := false
  workers : Option Nat := none
  options : ScoringOptions := {}

def corpusSwitches : List (Switch CorpusForm) :=
  [ ⟨"hypotheses", some 'H', .value fun word f => do return { f with hypotheses := some (← readPath word) }⟩,
    ⟨"references", some 'r', .values fun word f => .ok { f with references := f.references ++ [word] }⟩,
    ⟨"sentences", none, .flag fun f => { f with withRows := true }⟩,
    ⟨"threads", some 'j', .value fun word f => do return { f with workers := some (← readCount word) }⟩ ] ++
  scoringSwitches fun change f => { f with options := change f.options }

def pathSwitches (long : String) (short : Char) : List (Switch (Option String)) :=
  [ ⟨long, some short, .value fun word _ => do return some (← readPath word)⟩, helpSwitch ]

/-! ## Commands -/

def required {α : Type} (option : String) : Option α → Except Usage α
  | some a => .ok a
  | none => .error (.missingOption option)

/-- Options with the file of preferences from the environment, unless another one is given. -/
def withEnvironment (preferencesFile? : Option String) (o : ScoringOptions) : Except Usage ScoringOptions :=
  match o.preferencesFile, preferencesFile? with
  | none, some path =>
    match readPath path with
    | .ok path => .ok { o with preferencesFile := some path }
    | .error _ => .error (.unlistedValue "config" path)
  | _, _ => .ok o

def readScore (preferencesFile? : Option String) (words : List String) : Except Usage Command := do
  let { form, .. } ← readArguments scoreSwitches {} words
  let options ← withEnvironment preferencesFile? form.options
  return .score (← required "hypothesis" form.hypothesis) form.references form.referenceFiles options

def readCorpus (preferencesFile? : Option String) (words : List String) : Except Usage Command := do
  let { form, .. } ← readArguments corpusSwitches {} words
  let options ← withEnvironment preferencesFile? form.options
  let hypotheses ← required "hypotheses" form.hypotheses
  if form.references.isEmpty then throw (.missingOption "references")
  return .corpus hypotheses form.references form.withRows form.workers options

def readPathCommand (command : String → Command) (long : String) (short : Char) (words : List String) :
    Except Usage Command := do
  let { form, .. } ← readArguments (pathSwitches long short) none words
  return command (← required long form)

/-! ## Subcommands -/

/-- Names of subcommands under each other. -/
inductive Menu
  | leaf (name : String)
  | node (name : String) (entries : List Menu)

def Menu.name : Menu → String
  | leaf name | node name _ => name

def Menu.entries : Menu → List Menu
  | leaf _ => []
  | node _ entries => entries

def listMenu : List Menu := [.leaf "smoothing", .leaf "tokenizers", .leaf "formats", .leaf "help"]

def mainMenu : List Menu :=
  [.leaf "score", .leaf "corpus", .node "list" listMenu, .leaf "generate-config", .leaf "validate", .leaf "help"]

/-- The answer to a call for help on subcommands, one under the other. -/
def helpOn (menu : List Menu) : List String → Usage
  | [] => .help
  | word :: rest =>
    match menu.find? fun entry => entry.name == word with
    | some entry => helpOn entry.entries rest
    | none => .unknownSubcommand word

/-- The refusal of a word that is no subcommand. There may be options for help and the version. -/
def refuseWord (hasVersion : Bool) (word : String) : Usage :=
  match Argument.ofText word with
  | .long name attached =>
    match (if name = "help" then some Usage.help else if hasVersion ∧ name = "version" then some .version else none),
        attached with
    | some _, some _ => .needlessValue name
    | some answer, none => answer
    | none, _ => .unknownArgument word
  | .short ('h' :: _) => .help
  | .short ('V' :: _) => if hasVersion then .version else .unknownArgument word
  | .short _ => .unknownArgument word
  | _ => .unknownSubcommand word

/-- Reads the name of a subcommand, which `select` goes on with. No name can follow two dashes. -/
def readSubcommand (menu : List Menu) (hasVersion : Bool) (select : String → List String → Except Usage Command) :
    List String → Except Usage Command
  | [] => .error .missingSubcommand
  | "--" :: [] => .error .missingSubcommand
  | "--" :: word :: _ =>
    .error (if menu.any fun entry => entry.name == word then .unknownArgument word else .unknownSubcommand word)
  | word :: rest =>
    if word = "help" then .error (helpOn menu rest)
    else if menu.any fun entry => entry.name == word then select word rest
    else .error (refuseWord hasVersion word)

/-- A command without options of its own but the one for help. -/
def readBare (command : Command) (words : List String) : Except Usage Command := do
  let _ ← readArguments [helpSwitch] () words
  return command

def readList : String → List String → Except Usage Command
  | "smoothing" => readBare (.list .smoothing)
  | "tokenizers" => readBare (.list .tokenizers)
  | "formats" => readBare (.list .formats)
  | name => fun _ => .error (.unknownSubcommand name)

def readNamed (preferencesFile? : Option String) : String → List String → Except Usage Command
  | "score" => readScore preferencesFile?
  | "corpus" => readCorpus preferencesFile?
  | "list" => readSubcommand listMenu false readList
  | "generate-config" => readPathCommand .template "output" 'o'
  | "validate" => readPathCommand .validate "config" 'c'
  | name => fun _ => .error (.unknownSubcommand name)

/-- The command of a command line; a file of preferences may come from the environment. -/
def ofArguments (preferencesFile? : Option String) (words : List String) : Except Usage Command :=
  readSubcommand mainMenu true (readNamed preferencesFile?) words

end Bleu.Command
