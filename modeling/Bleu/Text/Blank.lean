/-!
# Blanks and words

`isBlank` is the Unicode property `White_Space`. `words` cuts a text at its blanks, `trim` takes the blanks off
both ends.
-/
namespace Bleu.Text

/-- The ranges of code points with the property `White_Space`. -/
def blankRanges : List (Nat × Nat) :=
  [(0x09, 0x0D), (0x20, 0x20), (0x85, 0x85), (0xA0, 0xA0), (0x1680, 0x1680), (0x2000, 0x200A), (0x2028, 0x2029),
    (0x202F, 0x202F), (0x205F, 0x205F), (0x3000, 0x3000)]

def isBlank (c : Char) : Bool := blankRanges.any fun (first, last) => first ≤ c.toNat && c.toNat ≤ last

example : (blankRanges.map fun (first, last) => last + 1 - first).sum = 25 := by decide

/-- The words of a text, `current` being the characters of the word that is under way, the last one first. -/
def wordsFrom (current : List Char) : List Char → List (List Char)
  | [] => if current.isEmpty then [] else [current.reverse]
  | c :: rest =>
    if isBlank c then
      if current.isEmpty then wordsFrom [] rest else current.reverse :: wordsFrom [] rest
    else wordsFrom (c :: current) rest

/-- The longest pieces of a text without blanks. -/
def words (text : List Char) : List (List Char) := wordsFrom [] text

example : words " a\tbc \n".toList = [['a'], ['b', 'c']] := by decide

/-- A text without the blanks at its ends. -/
def trim (text : List Char) : List Char :=
  ((text.dropWhile isBlank).reverse.dropWhile isBlank).reverse

/-- A name as it is looked up: without blanks at its ends, its ASCII letters in lower case. -/
def normalName (text : String) : String := String.ofList ((trim text.toList).map Char.toLower)

end Bleu.Text
