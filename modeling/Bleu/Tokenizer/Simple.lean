import Bleu.Text.Blank
import Bleu.Tokenizer.Normal

/-!
# Splitting off punctuation

The simple tokenizer makes symbols tokens of their own, and dots and commas unless they stand between digits; a
dash after a digit is split off as well. It puts blanks around them, in four passes over the normalized text, and
takes the words of the result.
-/
namespace Bleu.Tokenizer

/-- The ranges of ASCII symbols that are always tokens of their own. Of the ASCII punctuation they leave out the
apostrophe, comma, dash and dot. -/
def symbolRanges : List (Char × Char) :=
  [('\x7b', '~'), ('[', '`'), (' ', '&'), ('(', '+'), (':', '@'), ('/', '/')]

/-- Whether a character is always a token of its own. -/
def isSymbol (c : Char) : Bool := symbolRanges.any fun (first, last) => first ≤ c && c ≤ last

/-- Whether a character separates digits within a number. -/
def isSeparator (c : Char) : Bool := c == '.' || c == ','

def spaceSymbols (text : List Char) : List Char := text.flatMap fun c => if isSymbol c then [' ', c, ' '] else [c]

/-- Puts spaces around separators that follow anything but a digit. -/
def spaceAfterNonDigit : List Char → List Char
  | c :: s :: rest =>
    if !c.isDigit && isSeparator s then c :: ' ' :: s :: ' ' :: spaceAfterNonDigit rest
    else c :: spaceAfterNonDigit (s :: rest)
  | rest => rest

/-- Puts spaces around separators that anything but a digit follows. -/
def spaceBeforeNonDigit : List Char → List Char
  | s :: c :: rest =>
    if isSeparator s && !c.isDigit then ' ' :: s :: ' ' :: c :: spaceBeforeNonDigit rest
    else s :: spaceBeforeNonDigit (c :: rest)
  | rest => rest

/-- Puts spaces around dashes that follow a digit. -/
def spaceDashes : List Char → List Char
  | c :: s :: rest =>
    if c.isDigit && s == '-' then c :: ' ' :: s :: ' ' :: spaceDashes rest else c :: spaceDashes (s :: rest)
  | rest => rest

/-- A normalized text with spaces around everything that becomes a token of its own. -/
def spaced (text : List Char) : List Char :=
  spaceDashes (spaceBeforeNonDigit (spaceAfterNonDigit (spaceSymbols (' ' :: text ++ [' ']))))

def simpleTokens (text : List Char) : List (List Char) := Text.words (spaced (normalize text))

end Bleu.Tokenizer
