/-!
# Replacing a text within a text

`replaceAll` looks for a pattern from left to right and puts a replacement for each find; finds do not overlap.
-/
namespace Bleu.Text

/-- Replaces the pattern, after `skip` characters that belong to the last find. -/
def replaceFrom (pattern replacement : List Char) : Nat → List Char → List Char
  | _, [] => []
  | skip + 1, _ :: rest => replaceFrom pattern replacement skip rest
  | 0, c :: rest =>
    if pattern.isPrefixOf (c :: rest) then replacement ++ replaceFrom pattern replacement (pattern.length - 1) rest
    else c :: replaceFrom pattern replacement 0 rest

/-- Replaces every find of a pattern that has characters. -/
def replaceAll (pattern replacement text : List Char) : List Char := replaceFrom pattern replacement 0 text

example : replaceAll ['a', 'a'] ['b'] ['a', 'a', 'a'] = ['b', 'a'] := by decide

end Bleu.Text
