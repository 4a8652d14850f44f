import Bleu.Files.Path

/-!
# Patterns

In a pattern `?` stands for any character, `*` for any characters, and brackets for one of those they list, or one of
the others after an exclamation mark. A component `**` stands for any number of folders. `Pattern.parse?` refuses
brackets without end, and stars that are neither one nor a component of two.
-/
namespace Bleu.Files

inductive Token
  | char (c : Char)
  | anyChar
  | anyText
  | anyFolders
  /-- A character within or outside of some ranges. -/
  | range (within : Bool) (ranges : List (Char × Char))
deriving DecidableEq, Repr

/-- The ranges that the characters between brackets describe: a dash between two characters makes a range. -/
def rangesOf : List Char → List (Char × Char)
  | first :: '-' :: last :: rest => (first, last) :: rangesOf rest
  | c :: rest => (c, c) :: rangesOf rest
  | [] => []

/-- The characters up to the next closing bracket, and what follows it. -/
def untilBracket? : List Char → Option (List Char × List Char)
  | [] => none
  | ']' :: rest => some ([], rest)
  | c :: rest => (untilBracket? rest).map fun (cs, rest) => (c :: cs, rest)

/-- The element that an opening bracket starts, and what follows it. The first character between the brackets may be
a closing bracket. -/
def takeRange? : List Char → Option (Token × List Char)
  | '!' :: first :: rest => (untilBracket? rest).map fun (cs, rest) => (.range false (rangesOf (first :: cs)), rest)
  | '!' :: [] => none
  | first :: rest => (untilBracket? rest).map fun (cs, rest) => (.range true (rangesOf (first :: cs)), rest)
  | [] => none

/-- The elements of a pattern, at most `fuel`. Whether the last character was a slash, or there was none, decides if
two stars may stand. -/
def readTokens? : Nat → Bool → List Char → Option (List Token)
  | 0, _, _ => none
  | _, _, [] => some []
  | fuel + 1, _, '?' :: rest => (readTokens? fuel false rest).map (.anyChar :: ·)
  | fuel + 1, afterSlash, '*' :: '*' :: rest =>
    if afterSlash then
      match rest with
      | [] => some [.anyFolders]
      | '/' :: rest => (readTokens? fuel true rest).map (.anyFolders :: ·)
      | _ => none
    else none
  | fuel + 1, _, '*' :: rest => (readTokens? fuel false rest).map (.anyText :: ·)
  | fuel + 1, _, '[' :: rest => do
    let (token, rest) ← takeRange? rest
    return token :: (← readTokens? fuel false rest)
  | fuel + 1, _, c :: rest => (readTokens? fuel (c = '/') rest).map (.char c :: ·)

def tokens? (pattern : List Char) : Option (List Token) := readTokens? (pattern.length + 1) true pattern

def Token.fits (t : Token) (c : Char) : Bool :=
  match t with
  | .char d => c == d
  | .anyChar => true
  | .range within ranges => (ranges.any fun (first, last) => first ≤ c && c ≤ last) == within
  | .anyText | .anyFolders => false

def fitsName : List Token → List Char → Bool
  | [], [] => true
  | [], _ :: _ => false
  | .anyText :: ts, [] => fitsName ts []
  | .anyText :: ts, c :: cs => fitsName ts (c :: cs) || fitsName (.anyText :: ts) cs
  | _ :: _, [] => false
  | t :: ts, c :: cs => t.fits c && fitsName ts cs
termination_by ts cs => ts.length + cs.length

inductive Component
  | literal (name : String)
  | wild (tokens : List Token)
  /-- Any number of folders. -/
  | folders
deriving DecidableEq, Repr

/-- The character of an element that stands for itself. -/
def Token.char? : Token → Option Char
  | .char c => some c
  | _ => none

def Component.ofTokens (ts : List Token) : Component :=
  if ts = [.anyFolders] then .folders
  else
    match ts.mapM Token.char? with
    | some cs => .literal (String.ofList cs)
    | none => .wild ts

def Component.fits (c : Component) (name : String) : Bool :=
  match c with
  | .literal text => name == text
  | .wild tokens => fitsName tokens name.toList
  | .folders => true

/-- A pattern: where it starts, its components, and whether a slash at its end asks for folders. -/
structure Pattern where
  start : String
  components : List Component
  onlyFolders : Bool
deriving DecidableEq, Repr

/-- Reads a pattern. Both the pattern and each component by itself must be well formed. -/
def Pattern.parse? (text : String) : Option Pattern := do
  let _ ← tokens? text.toList
  let absolute := isAbsolute text
  let relative := if absolute then text.toList.drop 1 else text.toList
  let names := Text.splitAt '/' relative
  let names := if names.getLast? = some [] then names.dropLast else names
  let components ← names.mapM tokens?
  return {
    start := if absolute then "/" else "."
    components := components.map Component.ofTokens
    onlyFolders := text.toList.getLast? = some '/' }

end Bleu.Files
