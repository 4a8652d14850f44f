import Bleu.Decimal.Reader

/-!
# Arrays of numbers in JSON

`readNumbers?` reads a JSON array that holds numbers only. The digits of a number go into a word of sixty-four
bits; digits that no longer fit are dropped. The word becomes a double and is then multiplied or divided by a power
of ten, so that a number of many digits may come out next to the nearest double. Numbers above every double are
refused.
-/
namespace Bleu.Json

/-- Whether a character separates the parts of a document. -/
def isSpace (c : Char) : Bool := c == ' ' || c == '\n' || c == '\t' || c == '\r'

/-- Takes the digits of a number into a word, as far as they fit: the word, how many digits went in, and what
follows, from the first digit that does not fit. -/
def takeDigits (word count : Nat) : List Char → Nat × Nat × List Char
  | [] => (word, count, [])
  | c :: rest =>
    if c.isDigit then
      let next := 10 * word + (c.toNat - '0'.toNat)
      if next < Decimal.wordSize then takeDigits next (count + 1) rest else (word, count, c :: rest)
    else (word, count, c :: rest)

/-- The greatest power of ten among the doubles. -/
def greatestPower : Nat := 308

def powerOfTen (n : Nat) : Float := OfScientific.ofScientific 1 false n

/-- Divides by a power of ten, the greatest power among the doubles at a time. -/
def divideByPower (x : Float) (n : Nat) : Float :=
  if x == 0 then x
  else if n ≤ greatestPower then x / powerOfTen n
  else divideByPower (x / powerOfTen greatestPower) (n - greatestPower)
termination_by n
decreasing_by simp only [greatestPower] at *; omega

/-- A word times a power of ten, unless it exceeds every double. -/
def scale? (word : Nat) (exponent : Int) : Option Float :=
  let x := Float.ofNat word
  if exponent < 0 then some (divideByPower x exponent.natAbs)
  else if greatestPower < exponent.toNat then if word = 0 then some x else none
  else
    let y := x * powerOfTen exponent.toNat
    if y.isInf then none else some y

def takeExponent? (text : List Char) : Option (Int × List Char) :=
  let (negative, rest) := Decimal.takeSign text
  let ds := rest.takeWhile Char.isDigit
  if ds.isEmpty then none
  else
    let n : Int := Decimal.valueOf ds
    some (if negative then -n else n, rest.dropWhile Char.isDigit)

/-- The rest of a number after its digits, and what follows. -/
def finishNumber? (word : Nat) (exponent : Int) : List Char → Option (Float × List Char)
  | c :: rest =>
    if c = 'e' ∨ c = 'E' then do
      let (shift, rest) ← takeExponent? rest
      return (← scale? word (exponent + shift), rest)
    else do return (← scale? word exponent, c :: rest)
  | [] => do return (← scale? word exponent, [])

/-- A number without its sign, and what follows. A zero stands alone in front of the point. -/
def takeMagnitude? (text : List Char) : Option (Float × List Char) := do
  let whole := text.takeWhile Char.isDigit
  if whole.isEmpty || (whole.head? == some '0' && whole.length ≠ 1) then none
  let (word, taken, _) := takeDigits 0 0 whole
  let exponent := whole.length - taken
  match text.dropWhile Char.isDigit with
  | '.' :: after =>
    let fraction := after.takeWhile Char.isDigit
    if fraction.isEmpty then none
    let (word, taken, _) := takeDigits word 0 fraction
    finishNumber? word (exponent - taken) (after.dropWhile Char.isDigit)
  | rest => finishNumber? word exponent rest

def takeNumber? : List Char → Option (Float × List Char)
  | '-' :: rest => (takeMagnitude? rest).map fun (x, rest) => (-x, rest)
  | text => takeMagnitude? text

/-- The items of an array after the first bracket, given at most `fuel` of them, with what follows the array. -/
def takeItems? : Nat → List Char → Option (List Float × List Char)
  | 0, _ => none
  | fuel + 1, text => do
    let (x, rest) ← takeNumber? (text.dropWhile isSpace)
    match rest.dropWhile isSpace with
    | ',' :: rest => do
      let (xs, rest) ← takeItems? fuel rest
      return (x :: xs, rest)
    | ']' :: rest => some ([x], rest)
    | _ => none

def takeArray? (text : List Char) : Option (List Float × List Char) :=
  match text.dropWhile isSpace with
  | '[' :: rest =>
    match rest.dropWhile isSpace with
    | ']' :: rest => some ([], rest)
    | _ => takeItems? rest.length rest
  | _ => none

/-- The numbers of a document that is one array of them. -/
def readNumbers? (text : List Char) : Option (List Float) :=
  match takeArray? text with
  | some (xs, rest) => if rest.all isSpace then some xs else none
  | none => none

end Bleu.Json
