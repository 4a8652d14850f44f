/-!
# TOML values

What a TOML document says once its syntax is forgotten: tables of named values. Dates and times are told apart from
other values but not interpreted. A document may write numbers that no word or double holds; they are values too, and
`Value.isReadable` says that there are none of them in a value.
-/
namespace Bleu.Toml

inductive Value
  | string (s : String)
  | integer (n : Int)
  | float (x : Float)
  | boolean (b : Bool)
  | moment (text : String)
  /-- A number without digits, with digits of another base, of more than sixty-four bits, or above every double. -/
  | unreadable
  | array (items : List Value)
  | table (fields : List (String × Value))
deriving Repr

mutual

/-- Whether all numbers of a value can be read. -/
def Value.isReadable : Value → Bool
  | .unreadable => false
  | .array items => areItemsReadable items
  | .table fields => areFieldsReadable fields
  | _ => true

/-- Whether all numbers of an array can be read. -/
def areItemsReadable : List Value → Bool
  | [] => true
  | item :: rest => item.isReadable && areItemsReadable rest

/-- Whether all numbers of a table can be read. -/
def areFieldsReadable : List (String × Value) → Bool
  | [] => true
  | field :: rest => field.2.isReadable && areFieldsReadable rest

end

end Bleu.Toml
