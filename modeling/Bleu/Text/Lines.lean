/-!
# Lines

A line ends with a line feed, or a carriage return and a line feed; the last one need not. A carriage return
anywhere else belongs to its line. `lines` cuts a text, `joinLines` puts one together.
-/
namespace Bleu.Text

/-- A line whose characters are given from last to first, without the carriage return of its end. -/
def endLine : List Char → List Char
  | '\r' :: current => current.reverse
  | current => current.reverse

/-- The lines of a text, `current` being the characters of the line that is under way, the last one first. -/
def linesFrom (current : List Char) : List Char → List (List Char)
  | [] => if current.isEmpty then [] else [current.reverse]
  | c :: rest => if c = '\n' then endLine current :: linesFrom [] rest else linesFrom (c :: current) rest

/-- The lines of a text without their ends. -/
def lines (text : List Char) : List (List Char) := linesFrom [] text

/-- Lines as one text, each with a line feed at its end. -/
def joinLines (lines : List String) : String := String.join (lines.map fun line => line ++ "\n")

example : lines "a\r\n\nb\r".toList = [['a'], [], ['b', '\r']] := by decide

end Bleu.Text
