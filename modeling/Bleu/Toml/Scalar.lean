import Bleu.Decimal.Reader
import Bleu.Toml.Value

/-!
# Bare values

A bare value is a run of characters up to a mark, a blank or a line break: a truth value, a date or time, an integer in
one of four bases, or a float. `readBare?` tells these apart and refuses all others. It takes a decimal integer by its
first digits and its underscores alone; one that then has a wrong digit, and a number that cannot be held, is no fault
of the document but the value `unreadable`.
-/
namespace Bleu.Toml

/-- Whether a character may belong to a bare value. -/
def isBare (c : Char) : Bool := !"=,[]\x7b\x7d# \t\r\n".toList.contains c

/-- The digits of a number with underscores between them taken out. An underscore stands between two digits. -/
def plainDigits? (isDigit : Char → Bool) : List Char → Option (List Char)
  | [] => none
  | [d] => if isDigit d then some [d] else none
  | d :: '_' :: rest => if isDigit d then (plainDigits? isDigit rest).map (d :: ·) else none
  | d :: rest => if isDigit d then (plainDigits? isDigit rest).map (d :: ·) else none

/-- Whether a text has a zero in front of other characters. -/
def isPadded : List Char → Bool
  | '0' :: _ :: _ => true
  | _ => false

def hexValue (c : Char) : Nat :=
  if c.isDigit then c.toNat - '0'.toNat else c.toLower.toNat - 'a'.toNat + 10

def isHexDigit (c : Char) : Bool := c.isDigit || ('a' ≤ c.toLower && c.toLower ≤ 'f')

/-- The number that digits spell in a base. -/
def valueInBase (base : Nat) (ds : List Char) : Nat := ds.foldl (fun n c => base * n + hexValue c) 0

def leastInteger : Int := -Int.ofNat (Decimal.wordSize / 2)

def integerLimit : Int := Int.ofNat Decimal.wordSize

/-- An integer that sixty-four bits hold, with or without a sign, or one that cannot be read. -/
def Value.ofInteger (n : Int) : Value := if leastInteger ≤ n ∧ n < integerLimit then .integer n else .unreadable

/-- Whether each underscore of a text stands between two digits of some base. -/
def dividesDigits : List Char → Bool
  | [] => true
  | '_' :: _ => false
  | [_, '_'] => false
  | c :: '_' :: d :: rest => isHexDigit c && isHexDigit d && dividesDigits (d :: rest)
  | _ :: rest => dividesDigits rest

/-- Groups of digits that stand for a decimal integer with a sign. The ends of the groups are digits of some base; if a
character is no decimal digit, the integer cannot be read. Points and exponents belong to floats. -/
def readGroups? (sign : Int) (text : List Char) : Option Value :=
  let isFloatMark (c : Char) : Bool := ['.', 'e', 'E'].contains c
  let ds := text.filter (· ≠ '_')
  if text.head?.any isHexDigit && dividesDigits text && !text.any isFloatMark then
    some (if ds.all Char.isDigit then .ofInteger (sign * valueInBase 10 ds) else .unreadable)
  else none

/-- A decimal integer with a sign: digits without superfluous zeros in front, and groups of digits after them. -/
def readDecimal? (sign : Int) (text : List Char) : Option Value :=
  let after := text.dropWhile Char.isDigit
  if text.head?.any Char.isDigit && !isPadded text && (after.isEmpty || after.head? == some '_') then
    readGroups? sign text
  else none

/-- An integer in another base than ten, after the mark of the base. -/
def readInBase? (base : Nat) (isDigit : Char → Bool) : List Char → Option Value
  | [] => some .unreadable
  | text => (plainDigits? isDigit text).map fun ds => .ofInteger (valueInBase base ds)

/-- An integer, in base ten with a sign or in another base without one. After a sign and an underscore there may be zeros
in front. -/
def readInteger? (text : List Char) : Option Value :=
  match text with
  | '0' :: 'x' :: ds => readInBase? 16 isHexDigit ds
  | '0' :: 'o' :: ds => readInBase? 8 (fun c => '0' ≤ c && c ≤ '7') ds
  | '0' :: 'b' :: ds => readInBase? 2 (fun c => c == '0' || c == '1') ds
  | '-' :: '_' :: ds => readGroups? (-1) ds
  | '+' :: '_' :: ds => readGroups? 1 ds
  | '-' :: ds => readDecimal? (-1) ds
  | '+' :: ds => readDecimal? 1 ds
  | ds => readDecimal? 1 ds

/-- An exponent mark with its number, or nothing. -/
def isExponent (text : List Char) : Bool :=
  match text with
  | [] => true
  | mark :: rest => (mark == 'e' || mark == 'E') && (plainDigits? Char.isDigit (Decimal.takeSign rest).2).isSome

/-- Whether a text without sign is a float: digits, then a point with digits, an exponent, or both, with zeros or without
them in front. -/
def isFloat (text : List Char) : Bool :=
  let isPart (c : Char) : Bool := c.isDigit || c == '_'
  let rest := text.dropWhile isPart
  let exponent :=
    match rest with
    | '.' :: after =>
      if (plainDigits? Char.isDigit (after.takeWhile isPart)).isSome then some (after.dropWhile isPart) else none
    | [] => none
    | _ => some rest
  (plainDigits? Char.isDigit (text.takeWhile isPart)).isSome && exponent.any isExponent

/-- Whether a text is a float with or without a sign. Superfluous zeros stand in front only after a sign and an
underscore. -/
def isSignedFloat : List Char → Bool
  | '+' :: '_' :: magnitude | '-' :: '_' :: magnitude => isFloat magnitude
  | text =>
    let magnitude := (Decimal.takeSign text).2
    isFloat magnitude && !isPadded (magnitude.takeWhile fun c => c.isDigit || c == '_')

def readTomlFloat? (text : List Char) : Option Value :=
  let magnitude := (Decimal.takeSign text).2
  if magnitude = "inf".toList ∨ magnitude = "nan".toList then
    (Decimal.readFloat text).toOption.map .float
  else if isSignedFloat text then
    match Decimal.readFloat (text.filter (· ≠ '_')) with
    | .ok x => some (if x.isInf then .unreadable else .float x)
    | .error _ => none
  else none

/-- Takes a number of exactly `width` digits that lies between two bounds. -/
def takeField? (width least greatest : Nat) (text : List Char) : Option (Nat × List Char) :=
  let ds := text.takeWhile Char.isDigit
  let n := Decimal.valueOf ds
  if ds.length = width ∧ least ≤ n ∧ n ≤ greatest then some (n, text.drop width) else none

def takeMark? (marks : List Char) : List Char → Option (List Char)
  | c :: rest => if marks.contains c then some rest else none
  | [] => none

def daysIn (year month : Nat) : Nat :=
  if month = 2 then
    if year % 4 = 0 ∧ (year % 100 ≠ 0 ∨ year % 400 = 0) then 29 else 28
  else if [4, 6, 9, 11].contains month then 30 else 31

def takeDate? (text : List Char) : Option (List Char) := do
  let (year, rest) ← takeField? 4 0 9999 text
  let (month, rest) ← takeField? 2 1 12 (← takeMark? ['-'] rest)
  let (_, rest) ← takeField? 2 1 (daysIn year month) (← takeMark? ['-'] rest)
  return rest

/-- Takes the part of a second behind the point. -/
def takeFraction? : List Char → Option (List Char)
  | '.' :: rest => if (rest.takeWhile Char.isDigit).isEmpty then none else some (rest.dropWhile Char.isDigit)
  | rest => some rest

/-- Takes a time of day; seconds may be left out. -/
def takeTime? (text : List Char) : Option (List Char) := do
  let (_, rest) ← takeField? 2 0 23 text
  let (_, rest) ← takeField? 2 0 59 (← takeMark? [':'] rest)
  match rest with
  | ':' :: rest =>
    let (_, rest) ← takeField? 2 0 60 rest
    takeFraction? rest
  | rest => some rest

/-- Whether a text is an offset from universal time, or nothing. -/
def isOffset (text : List Char) : Bool :=
  match text with
  | [] | ['Z'] | ['z'] => true
  | sign :: rest =>
    (sign == '+' || sign == '-') &&
      (do
        let (_, rest) ← takeField? 2 0 23 rest
        let (_, rest) ← takeField? 2 0 59 (← takeMark? [':'] rest)
        return rest) == some ([] : List Char)

/-- Whether a text is a date, a time, or both, and then perhaps an offset. -/
def isMoment (text : List Char) : Bool :=
  match takeDate? text with
  | some [] => true
  | some rest => ((takeMark? ['T', 't', ' '] rest).bind takeTime?).any isOffset
  | none => takeTime? text == some []

/-- The bare values other than integers, floats and dates. -/
def readName? (text : List Char) : Option Value :=
  if text = "true".toList then some (.boolean true)
  else if text = "false".toList then some (.boolean false)
  else none

def readBare? (text : List Char) : Option Value :=
  (readName? text).or <| (if isMoment text then some (.moment (String.ofList text)) else none).or <|
    (readInteger? text).or (readTomlFloat? text)

/-- Takes a bare value: a run of characters, with a space in it where a time follows a date. -/
def takeBare? (text : List Char) : Option (Value × List Char) := do
  let run := text.takeWhile isBare
  let rest := text.dropWhile isBare
  let joined :=
    match rest with
    | ' ' :: after => if takeDate? run == some [] ∧ after.head?.any Char.isDigit then some after else none
    | _ => none
  match joined with
  | some after => return (← readBare? (run ++ ' ' :: after.takeWhile isBare), after.dropWhile isBare)
  | none => return (← readBare? run, rest)

end Bleu.Toml
