import Bleu.Decimal.Notation

/-!
# JSON documents

A `Json.Value` is written on one line or indented by two spaces a level. Fields keep their order. JSON has no
infinities and no value that is not a number; `null` stands for them.
-/
namespace Bleu.Json

inductive Value
  | nat (n : Nat)
  | float (x : Float)
  | string (s : String)
  | array (items : List Value)
  | object (fields : List (String × Value))

inductive Layout
  | compact
  | indented
deriving DecidableEq, Repr

def Layout.ofBool (indented : Bool) : Layout := if indented then .indented else .compact

def hexDigit (n : Nat) : Char := (Nat.toDigits 16 n).headD '0'

def escape (c : Char) : List Char :=
  match c with
  | '"' => ['\\', '"']
  | '\\' => ['\\', '\\']
  | '\x08' => ['\\', 'b']
  | '\x0c' => ['\\', 'f']
  | '\n' => ['\\', 'n']
  | '\r' => ['\\', 'r']
  | '\t' => ['\\', 't']
  | c => if c.toNat < 0x20 then ['\\', 'u', '0', '0', hexDigit (c.toNat / 16), hexDigit (c.toNat % 16)] else [c]

def quote (s : String) : String := String.ofList ('"' :: s.toList.flatMap escape ++ ['"'])

/-- The break in front of an item at a depth. -/
def Layout.lineBreak (layout : Layout) (depth : Nat) : String :=
  match layout with
  | .compact => ""
  | .indented => "\n" ++ String.ofList (List.replicate (2 * depth) ' ')

def Layout.enclose (layout : Layout) (depth : Nat) (opening closing : String) (items : List String) : String :=
  if items.isEmpty then opening ++ closing
  else
    let separator := layout.lineBreak (depth + 1)
    opening ++ separator ++ ("," ++ separator).intercalate items ++ layout.lineBreak depth ++ closing

def Layout.colon : Layout → String
  | .compact => ":"
  | .indented => ": "

mutual

def Value.writeAt (layout : Layout) (depth : Nat) : Value → String
  | .nat n => toString n
  | .float x => Decimal.write Decimal.jsonNotation x
  | .string s => quote s
  | .array items => layout.enclose depth "[" "]" (writeItems layout (depth + 1) items)
  | .object fields => layout.enclose depth "\x7b" "\x7d" (writeFields layout (depth + 1) fields)

def writeItems (layout : Layout) (depth : Nat) : List Value → List String
  | [] => []
  | item :: rest => item.writeAt layout depth :: writeItems layout depth rest

def writeFields (layout : Layout) (depth : Nat) : List (String × Value) → List String
  | [] => []
  | field :: rest => (quote field.1 ++ layout.colon ++ field.2.writeAt layout depth) :: writeFields layout depth rest

end

def Value.write (layout : Layout) (v : Value) : String := v.writeAt layout 0

end Bleu.Json
