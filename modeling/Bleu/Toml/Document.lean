import Bleu.Toml.Table
import Bleu.Toml.Text

/-!
# Reading a document

A document is a list of lines that give values to keys, with headers between them that say in which table. Values
are texts, bare values, arrays and inline tables; the last two may run over several lines, end with a comma, and nest
to a limited depth. Within them a line may end wherever a blank may stand, except inside a dotted key.
`readDocument?` gives the document's table, or nothing if it is not well formed.
-/
namespace Bleu.Toml

def skipGap (text : List Char) : List Char := text.dropWhile isGap

/-- What follows a comment, if there is one. -/
def skipComment? : List Char → Option (List Char)
  | '#' :: rest =>
    let after := rest.dropWhile isPrintable
    if after.isEmpty || (takeNewline? after).isSome then some after else none
  | text => some text

/-- What follows blanks, comments and line breaks, given at most `fuel` lines. -/
def skipLines? : Nat → List Char → Option (List Char)
  | 0, _ => none
  | fuel + 1, text => do
    let rest ← skipComment? (skipGap text)
    match takeNewline? rest with
    | some rest => skipLines? fuel rest
    | none => some rest

def skipSpace? (text : List Char) : Option (List Char) := skipLines? (text.length + 1) text

/-- Whether a character may stand in a bare key. -/
def isKeyChar (c : Char) : Bool := c.isAlphanum || c == '-' || c == '_'

/-- A key, and what follows it. -/
def takeKey? (text : List Char) : Option (String × List Char) :=
  let bare := text.takeWhile isKeyChar
  if bare.isEmpty then takeLine? text else some (String.ofList bare, text.dropWhile isKeyChar)

/-- Keys with dots between them, at most `fuel`: those before the last, the last, and what follows. -/
def takePath? : Nat → List Char → Option (List String × String × List Char)
  | 0, _ => none
  | fuel + 1, text => do
    let (key, rest) ← takeKey? (skipGap text)
    match skipGap rest with
    | '.' :: rest =>
      let (path, last, rest) ← takePath? fuel rest
      return (key :: path, last, rest)
    | rest => return ([], key, rest)

/-- The greatest depth of arrays and inline tables within each other. -/
def depthLimit : Nat := 80

mutual

/-- A value that holds at most `depth` levels of others, and what follows it. -/
def takeValue? (fuel depth : Nat) (text : List Char) : Option (Value × List Char) :=
  match fuel, depth, text with
  | fuel + 1, depth + 1, '[' :: rest => do
    let (items, rest) ← takeItems? fuel depth rest
    return (.array items, rest)
  | fuel + 1, depth + 1, '\x7b' :: rest => do
    let (fields, rest) ← takeEntries? fuel depth [] rest
    return (.table (closeFields fields), rest)
  | _, _, '"' :: _ | _, _, '\'' :: _ => (takeText? text).map fun (s, rest) => (.string s, rest)
  | _, _, _ => takeBare? text
termination_by fuel

/-- The items of an array after its first bracket, and what follows it. -/
def takeItems? (fuel depth : Nat) (text : List Char) : Option (List Value × List Char) :=
  match fuel with
  | 0 => none
  | fuel + 1 => do
    match ← skipSpace? text with
    | ']' :: rest => some ([], rest)
    | text =>
      let (item, rest) ← takeValue? fuel depth text
      match ← skipSpace? rest with
      | ',' :: rest =>
        let (items, rest) ← takeItems? fuel depth rest
        return (item :: items, rest)
      | ']' :: rest => some ([item], rest)
      | _ => none
termination_by fuel

/-- The entries of an inline table after its first brace, added to `fields`, and what follows it. -/
def takeEntries? (fuel depth : Nat) (fields : Fields) (text : List Char) : Option (Fields × List Char) :=
  match fuel with
  | 0 => none
  | fuel + 1 => do
    match ← skipSpace? text with
    | '\x7d' :: rest => some (fields, rest)
    | text =>
      let (path, key, rest) ← takePath? (text.length + 1) text
      let rest ← takeMark? ['='] (← skipSpace? rest)
      let (v, rest) ← takeValue? fuel depth (← skipSpace? rest)
      let fields ← assign? path key v fields
      match ← skipSpace? rest with
      | ',' :: rest => takeEntries? fuel depth fields rest
      | '\x7d' :: rest => some (fields, rest)
      | _ => none
termination_by fuel

end

inductive Statement
  /-- Starts a table. -/
  | header (path : List String) (key : String)
  /-- Starts another table of an array. -/
  | item (path : List String) (key : String)
  /-- Gives a value to a key. -/
  | entry (path : List String) (key : String) (v : Value)

def takeStatement? (text : List Char) : Option (Statement × List Char) :=
  let fuel := text.length + 1
  match text with
  | '[' :: '[' :: rest => do
    let (path, key, rest) ← takePath? fuel rest
    return (.item path key, ← takeMark? [']'] (← takeMark? [']'] rest))
  | '[' :: rest => do
    let (path, key, rest) ← takePath? fuel rest
    return (.header path key, ← takeMark? [']'] rest)
  | _ => do
    let (path, key, rest) ← takePath? fuel text
    let (v, rest) ← takeValue? fuel depthLimit (skipGap (← takeMark? ['='] rest))
    return (.entry path key v, rest)

def takeLineEnd? (text : List Char) : Option (List Char) := do
  let rest ← skipComment? (skipGap text)
  if rest.isEmpty then some [] else takeNewline? rest

/-- The statements of a document, at most `fuel`. -/
def readStatements? : Nat → List Char → Option (List Statement)
  | 0, _ => none
  | fuel + 1, text => do
    match ← skipSpace? text with
    | [] => some []
    | text =>
      let (statement, rest) ← takeStatement? text
      return statement :: (← readStatements? fuel (← takeLineEnd? rest))

/-- Carries out statements one after the other, the table of the last header being known by its path. -/
def fill? (header : List String) (root : Fields) : List Statement → Option Fields
  | [] => some root
  | .entry path key v :: rest => do fill? header (← assignIn? header path key v root) rest
  | .header path key :: rest => do fill? (path ++ [key]) (← openTable? path key root) rest
  | .item path key :: rest => do fill? (path ++ [key]) (← openItem? path key root) rest

/-- The mark that may stand in front of a document. -/
def byteOrderMark : Char := '\ufeff'

def readDocument? (document : String) : Option (List (String × Value)) := do
  let text := document.toList
  let text := if text.head? = some byteOrderMark then text.drop 1 else text
  let statements ← readStatements? (text.length + 1) text
  return closeFields (← fill? [] [] statements)

end Bleu.Toml
