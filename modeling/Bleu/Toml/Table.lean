import Bleu.Toml.Value

/-!
# Filling tables

A document fills its tables entry by entry. Each table is defined once: by a header, by dotted keys, or on the way
to a table that a header names. `assign?` and `openTable?` refuse entries that would define something twice, or
extend what is complete.
-/
namespace Bleu.Toml

/-- How a table came about. -/
inductive Origin
  /-- On the way to a table that a header names. -/
  | implied
  /-- By dotted keys. -/
  | dotted
  /-- By a header of its own. -/
  | header
deriving DecidableEq, Repr

inductive Node
  | value (v : Value)
  /-- A table that may grow. -/
  | table (origin : Origin) (fields : List (String × Node))
  /-- An array of tables, of which the last may grow. -/
  | tables (closed : List (List (String × Node))) (last : List (String × Node))

/-- The fields of a table under construction, in the order of their first mention. -/
abbrev Fields := List (String × Node)

/-- Replaces the entry of a key, or adds one at the end. -/
def alterField? (key : String) (f : Option Node → Option Node) : Fields → Option Fields
  | [] => (f none).map fun node => [(key, node)]
  | field :: rest =>
    if field.1 = key then (f (some field.2)).map fun node => (key, node) :: rest
    else (alterField? key f rest).map (field :: ·)

/-- Goes down a path of keys and changes the fields at its end. Tables that are missing are made, with `origin`; the
change is told whether the fields belong to a table of dotted keys. A header's table does not grow by dotted keys. -/
def descend? (origin : Origin) (change : Bool → Fields → Option Fields) : List String → Bool → Fields → Option Fields
  | [], isDotted, fields => change isDotted fields
  | key :: path, _, fields =>
    alterField? key (fun
      | none => (descend? origin change path (origin = .dotted) []).map (.table origin)
      | some (.table known inner) =>
        if origin = .dotted ∧ known = .header then none
        else (descend? origin change path (known = .dotted) inner).map (.table known)
      | some (.tables closed last) => (descend? origin change path false last).map (.tables closed)
      | some (.value _) => none)
      fields

/-- Adds a key that is not there. -/
def addField? (key : String) (node : Node) (fields : Fields) : Option Fields :=
  alterField? key (fun | none => some node | some _ => none) fields

/-- Gives a value to a key of the fields, through a path of dotted keys. -/
def assign? (path : List String) (key : String) (v : Value) (fields : Fields) : Option Fields :=
  descend? .dotted
    (fun isDotted inner => if isDotted = !path.isEmpty then addField? key (.value v) inner else none) path false fields

/-- Gives a value to a key of the table that the last header named. -/
def assignIn? (header path : List String) (key : String) (v : Value) (root : Fields) : Option Fields :=
  descend? .implied (fun _ fields => assign? path key v fields) header false root

def openTable? (path : List String) (key : String) (root : Fields) : Option Fields :=
  descend? .implied
    (fun _ fields =>
      alterField? key (fun
        | none => some (.table .header [])
        | some (.table .implied inner) => some (.table .header inner)
        | some _ => none)
        fields)
    path false root

/-- Starts another table of an array of tables. -/
def openItem? (path : List String) (key : String) (root : Fields) : Option Fields :=
  descend? .implied
    (fun _ fields =>
      alterField? key (fun
        | none => some (.tables [] [])
        | some (.tables closed last) => some (.tables (closed ++ [last]) [])
        | some _ => none)
        fields)
    path false root

mutual

def Node.close : Node → Value
  | .value v => v
  | .table _ fields => .table (closeFields fields)
  | .tables closed last => .array (closeItems closed ++ [.table (closeFields last)])

def closeFields : List (String × Node) → List (String × Value)
  | [] => []
  | field :: rest => (field.1, field.2.close) :: closeFields rest

/-- The values of the finished tables of an array. -/
def closeItems : List (List (String × Node)) → List Value
  | [] => []
  | fields :: rest => .table (closeFields fields) :: closeItems rest

end

end Bleu.Toml
