import Bleu.Command.Usage

/-!
# Reading arguments

Arguments fill in a form of some type `σ`. A `Switch` is an option: its names and how it changes the form. Arguments
are taken from left to right. An option whose value is the next argument waits for it; its value counts, and is looked
at, once another option comes or the arguments end. An argument that has no place is refused at once, whatever waits.
-/
namespace Bleu.Command

inductive Refusal
  /-- It is empty or not on a list. -/
  | unlisted
  | unreadable
deriving DecidableEq, Repr

inductive Role (σ : Type)
  | flag (set : σ → σ)
  /-- By being there, any number of times. -/
  | counted (set : σ → σ)
  | value (set : String → σ → Except Refusal σ)
  /-- By values, each with the option in front. -/
  | values (set : String → σ → Except Refusal σ)
  | help

structure Switch (σ : Type) where
  long : String
  short : Option Char
  role : Role σ

def Role.takesValue {σ : Type} : Role σ → Bool
  | value _ | values _ => true
  | flag _ | counted _ | help => false

def Role.repeats {σ : Type} : Role σ → Bool
  | counted _ | values _ | help => true
  | flag _ | value _ => false

/-- An argument by its look. -/
inductive Argument
  /-- Two dashes, after which there are no options. -/
  | separator
  /-- Two dashes and a name, perhaps with a value after an equals sign. -/
  | long (name : String) (attached : Option String)
  | short (letters : List Char)
  | plain
deriving DecidableEq, Repr

/-- What stands in front of the first equals sign, and what after it. -/
def splitAtEquals (text : List Char) : List Char × Option (List Char) :=
  (text.takeWhile (· ≠ '='), match text.dropWhile (· ≠ '=') with
    | [] => none
    | _ :: after => some after)

def Argument.ofText (text : String) : Argument :=
  match text.toList with
  | ['-', '-'] => separator
  | '-' :: '-' :: rest =>
    let (name, attached) := splitAtEquals rest
    long (String.ofList name) (attached.map String.ofList)
  | '-' :: first :: rest => short (first :: rest)
  | _ => plain

structure Filling (σ : Type) where
  form : σ
  given : List String := []
  /-- The option that waits, and its value once it has come. -/
  waiting : Option (Switch σ × Option String) := none

namespace Filling
variable {σ : Type}

/-- A form changed by the value of an option. -/
def setValue (s : Switch σ) (set : String → σ → Except Refusal σ) (word : String) (form : σ) : Except Usage σ :=
  match set word form with
  | .ok form => .ok form
  | .error .unlisted => .error (.unlistedValue s.long word)
  | .error .unreadable => .error (.unreadableValue s.long word)

def change (s : Switch σ) (word? : Option String) : Except Usage (σ → Except Usage σ) :=
  match s.role, word? with
  | .flag set, _ | .counted set, _ => .ok fun form => .ok (set form)
  | .value set, some word | .values set, some word => .ok (setValue s set word)
  | .value _, none | .values _, none => .error (.missingValue s.long)
  | .help, _ => .error .help

/-- Applies an option. That it lacks its value is found first, then that it has come before, then what is wrong with
its value. -/
def apply (f : Filling σ) (s : Switch σ) (word? : Option String) : Except Usage (Filling σ) := do
  let change ← change s word?
  if !s.role.repeats ∧ s.long ∈ f.given then throw (.repeated s.long)
  return { f with form := ← change f.form, given := s.long :: f.given }

/-- Applies the option that waits. -/
def settle (f : Filling σ) : Except Usage (Filling σ) :=
  match f.waiting with
  | none => .ok f
  | some (s, word?) => { f with waiting := none }.apply s word?

/-- Applies an option, after the one that waits. -/
def take (f : Filling σ) (s : Switch σ) (word? : Option String) : Except Usage (Filling σ) := do
  (← f.settle).apply s word?

/-- Takes an option that may have a value attached, or else waits for it. -/
def takeValued (f : Filling σ) (s : Switch σ) (attached : Option String) : Except Usage (Filling σ) := do
  match attached with
  | some word => f.take s (some word)
  | none => return { ← f.settle with waiting := some (s, none) }

/-- The value attached to a letter, without an equals sign in front. -/
def attachedTo : List Char → Option String
  | [] => none
  | '=' :: rest => some (String.ofList rest)
  | rest => some (String.ofList rest)

/-- Takes letters: options without values one after another, up to one with a value. -/
def takeLetters (switches : List (Switch σ)) (f : Filling σ) : List Char → Except Usage (Filling σ)
  | [] => .ok f
  | c :: rest =>
    match switches.find? fun s => s.short == some c with
    | none => .error (.unknownArgument s!"-{c}")
    | some s =>
      if s.role.takesValue then f.takeValued s (attachedTo rest)
      else do takeLetters switches (← f.take s none) rest

def takeLong (switches : List (Switch σ)) (f : Filling σ) (name : String) (attached : Option String) :
    Except Usage (Filling σ) :=
  match switches.find? fun s => s.long == name with
  | none => .error (.unknownArgument s!"--{name}")
  | some s =>
    if s.role.takesValue then f.takeValued s attached
    else
      match attached with
      | some _ => .error (.needlessValue s.long)
      | none => f.take s none

/-- Takes an argument that is no option: the value of the option that waits for one. -/
def takePlain (f : Filling σ) (word : String) : Except Usage (Filling σ) :=
  match f.waiting with
  | some (s, none) => .ok { f with waiting := some (s, some word) }
  | _ => .error (.unknownArgument word)

/-- Takes arguments. Nothing can follow two dashes. -/
def takeAll (switches : List (Switch σ)) (f : Filling σ) : List String → Except Usage (Filling σ)
  | [] => f.settle
  | word :: rest =>
    match Argument.ofText word with
    | .separator =>
      match rest with
      | [] => f.settle
      | next :: _ => .error (.unknownArgument next)
    | .long name attached => do takeAll switches (← f.takeLong switches name attached) rest
    | .short letters => do takeAll switches (← f.takeLetters switches letters) rest
    | .plain => do takeAll switches (← f.takePlain word) rest

end Filling

def readArguments {σ : Type} (switches : List (Switch σ)) (form : σ) (words : List String) :
    Except Usage (Filling σ) :=
  Filling.takeAll switches { form } words

end Bleu.Command
