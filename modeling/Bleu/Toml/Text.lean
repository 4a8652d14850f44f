import Bleu.Toml.Scalar

/-!
# Quoted texts

A text stands in double quotes, with escapes, or in single quotes, without. Three quotes instead of one let it run
over several lines; a line break right after them does not count. Control characters other than the tab are refused.
-/
namespace Bleu.Toml

/-- Whether a character may stand in a text or comment as it is. -/
def isPrintable (c : Char) : Bool := c == '\t' || (0x20 ≤ c.toNat && c.toNat ≠ 0x7f)

/-- The character that a hexadecimal number of `width` digits stands for, and what follows. -/
def takeCode? (width : Nat) (text : List Char) : Option (Char × List Char) :=
  let ds := text.take width
  let n := valueInBase 16 ds
  if ds.length = width ∧ ds.all isHexDigit ∧ (n < 0xD800 ∨ (0xDFFF < n ∧ n < 0x110000)) then
    some (Char.ofNat n, text.drop width)
  else none

/-- The character of an escape, and what follows. -/
def takeEscape? : List Char → Option (Char × List Char)
  | 'b' :: rest => some ('\x08', rest)
  | 't' :: rest => some ('\t', rest)
  | 'n' :: rest => some ('\n', rest)
  | 'f' :: rest => some ('\x0c', rest)
  | 'r' :: rest => some ('\r', rest)
  | 'e' :: rest => some ('\x1b', rest)
  | '"' :: rest => some ('"', rest)
  | '\\' :: rest => some ('\\', rest)
  | 'x' :: rest => takeCode? 2 rest
  | 'u' :: rest => takeCode? 4 rest
  | 'U' :: rest => takeCode? 8 rest
  | _ => none

def takeNewline? : List Char → Option (List Char)
  | '\n' :: rest => some rest
  | '\r' :: '\n' :: rest => some rest
  | _ => none

/-- Whether a character is a space or tab. -/
def isGap (c : Char) : Bool := c == ' ' || c == '\t'

/-- What follows the blanks and line breaks at the front. -/
def skipBreaks : List Char → List Char
  | ' ' :: rest | '\t' :: rest | '\n' :: rest => skipBreaks rest
  | '\r' :: '\n' :: rest => skipBreaks rest
  | rest => rest

/-- What follows the blanks and line breaks after a backslash at the end of a line. -/
def takeContinuation? (text : List Char) : Option (List Char) :=
  (takeNewline? (text.dropWhile isGap)).map skipBreaks

structure Quoting where
  quote : Char
  /-- Whether a backslash starts an escape. -/
  escapes : Bool
  /-- Whether the text may run over several lines. -/
  multiline : Bool

/-- The number of quotes around a text. -/
def Quoting.width (q : Quoting) : Nat := if q.multiline then 3 else 1

/-- The quotes that a run of quotes adds to a text before it ends there, or nothing if the text goes on. Up to two
quotes may stand in front of three that end a text. -/
def Quoting.ending? (q : Quoting) (run : Nat) : Option Nat :=
  if q.multiline then if 3 ≤ run then some (Nat.min (run - 3) 2) else none
  else if 1 ≤ run then some 0 else none

/-- The rest of a quoted text, given at most `fuel` characters, and what follows it. -/
def Quoting.takeRest? (q : Quoting) : Nat → List Char → Option (List Char × List Char)
  | 0, _ => none
  | _, [] => none
  | fuel + 1, c :: rest =>
    let more (taken : List Char) (rest : List Char) : Option (List Char × List Char) :=
      (q.takeRest? fuel rest).map fun (s, rest) => (taken ++ s, rest)
    if c = q.quote then
      let run := ((c :: rest).takeWhile (· = q.quote)).length
      match q.ending? run with
      | some extra => some (List.replicate extra c, (c :: rest).drop (extra + q.width))
      | none => more (List.replicate run c) ((c :: rest).drop run)
    else if q.escapes ∧ c = '\\' then
      match if q.multiline then takeContinuation? rest else none with
      | some rest => more [] rest
      | none => (takeEscape? rest).bind fun (escaped, rest) => more [escaped] rest
    else if isPrintable c then more [c] rest
    else if q.multiline then (takeNewline? (c :: rest)).bind fun rest => more ['\n'] rest
    else none

/-- A text after its first quotes, and what follows it. -/
def Quoting.take? (q : Quoting) (text : List Char) : Option (String × List Char) :=
  let start := if q.multiline then (takeNewline? text).getD text else text
  (q.takeRest? (start.length + 1) start).map fun (s, rest) => (String.ofList s, rest)

/-- A text of one line, and what follows it. -/
def takeLine? : List Char → Option (String × List Char)
  | '"' :: rest => Quoting.take? ⟨'"', true, false⟩ rest
  | '\'' :: rest => Quoting.take? ⟨'\'', false, false⟩ rest
  | _ => none

def takeText? : List Char → Option (String × List Char)
  | '"' :: '"' :: '"' :: rest => Quoting.take? ⟨'"', true, true⟩ rest
  | '\'' :: '\'' :: '\'' :: rest => Quoting.take? ⟨'\'', false, true⟩ rest
  | text => takeLine? text

end Bleu.Toml
