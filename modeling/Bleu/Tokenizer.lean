import Bleu.Fault
import Bleu.Tokenizer.Simple

/-!
# Tokenizers

A tokenizer turns a text into the tokens that are counted. Scoring takes any `Tokenizer`; `Tokenization` lists
those that have a name.
-/
namespace Bleu

structure Tokenizer where
  name : String
  tokenize : String → List String

inductive Tokenization
  /-- Symbols and punctuation are tokens of their own. -/
  | simple
  /-- Tokens are what blanks separate. -/
  | whitespace
deriving DecidableEq, Repr

namespace Tokenization

def all : List Tokenization := [simple, whitespace]

def name : Tokenization → String
  | simple => "simple"
  | whitespace => "whitespace"

def description : Tokenization → String
  | simple => "whitespace and punctuation splitting (13a style)"
  | whitespace => "whitespace splitting only"

def split : Tokenization → List Char → List (List Char)
  | simple => Tokenizer.simpleTokens
  | whitespace => Text.words

/-- The tokenizer with a name or a second name, in any case and with blanks around it. -/
def ofName (text : String) : Except Fault Tokenization :=
  match Text.normalName text with
  | "simple" | "13a" => .ok simple
  | "whitespace" | "space" => .ok whitespace
  | other => .error (.unknownTokenizer other)

def tokenizer (t : Tokenization) : Tokenizer where
  name := t.name
  tokenize text := (t.split text.toList).map String.ofList

end Tokenization

instance : Inhabited Tokenization := ⟨.simple⟩

end Bleu
