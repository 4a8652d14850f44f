import Bleu.Toml.Scalar

/-!
# Records

A record is a table with known keys. Keys may be left out, and unknown ones are refused. A record may also be written
as an array of its values in the order of the keys, and a name as a table whose only key is the name, over nothing.
-/
namespace Bleu.Toml.Value

/-- The entries of a record with known keys. -/
def entries? (keys : List String) : Value → Option (List (String × Value))
  | table fields => if fields.all fun field => keys.contains field.1 then some fields else none
  | array items => some (keys.zip items)
  | _ => none

/-- A natural number of sixty-four bits. -/
def nat? : Value → Option Nat
  | integer n => if 0 ≤ n ∧ n < integerLimit then some n.toNat else none
  | _ => none

/-- A double; an integer stands for the nearest one. -/
def float? : Value → Option Float
  | float x => some x
  | integer n => some (Float.ofInt n)
  | _ => none

def bool? : Value → Option Bool
  | boolean b => some b
  | _ => none

def name? : Value → Option String
  | string s => some s
  | table [(key, array [])] => some key
  | table [(key, table [])] => some key
  | _ => none

/-- One of the things that a list names. -/
def choice? {α : Type} (all : List α) (nameOf : α → String) (v : Value) : Option α := do
  let name ← v.name?
  all.find? fun x => nameOf x == name

/-- Reads the entry of a key, which may be missing. -/
def entryOr? {α : Type} (fields : List (String × Value)) (key : String) (standard : α) (read? : Value → Option α) :
    Option α :=
  match fields.lookup key with
  | some v => read? v
  | none => some standard

end Bleu.Toml.Value
