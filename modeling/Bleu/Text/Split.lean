/-!
# Cutting a text

`splitAt` cuts a text at every occurrence of a character. There is one piece more than occurrences.
-/
namespace Bleu.Text

/-- The pieces of a text between the occurrences of a character. -/
def splitAt (separator : Char) : List Char → List (List Char)
  | [] => [[]]
  | c :: rest =>
    if c = separator then [] :: splitAt separator rest
    else
      match splitAt separator rest with
      | first :: others => (c :: first) :: others
      | [] => [[c]]

example : splitAt ',' "a,,b,".toList = [['a'], [], ['b'], []] := by decide

end Bleu.Text
