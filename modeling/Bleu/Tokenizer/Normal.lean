import Bleu.Text.Replace

/-!
# Normalized text

Before punctuation is split off, markers of skipped segments go, words that a line break divides are joined, line
breaks become spaces, and the character entities of markup become the characters.
-/
namespace Bleu.Tokenizer

/-- The entities with their characters, in the order of replacement. -/
def entities : List (String × Char) := [("&quot;", '"'), ("&amp;", '&'), ("&lt;", '<'), ("&gt;", '>')]

/-- A text without markers, line breaks and entities. -/
def normalize (text : List Char) : List Char :=
  let unmarked := Text.replaceAll "<skipped>".toList [] text
  let joined := Text.replaceAll ['-', '\n'] [] unmarked
  let line := Text.replaceAll ['\n'] [' '] joined
  entities.foldl (fun text (entity, c) => Text.replaceAll entity.toList [c] text) line

end Bleu.Tokenizer
