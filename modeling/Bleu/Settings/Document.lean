import Bleu.Settings
import Bleu.Toml.Document
import Bleu.Toml.Record

/-!
# Settings in documents

Settings are written as TOML records, each key standing for one of them; keys that are left out keep the standard
value. A smoothing method is its name and its parameter.
-/
namespace Bleu.Settings
open Toml (Value)

def weights? : Value → Option Weights
  | .array items => do (Weights.ofList (← items.mapM Value.float?)).toOption
  | _ => none

/-- The method with exactly this name or numbered name. -/
def method? (name : String) : Option Smoothing :=
  Smoothing.all.find? fun m => m.name == name || m.numberedName == name

def parameter? : Smoothing → Option SmoothingParameter
  | .epsilon _ => some .epsilon
  | .lengthScaled _ => some .k
  | _ => none

def withParameter (x : Float) : Smoothing → Smoothing
  | .epsilon _ => .epsilon x
  | .lengthScaled _ => .lengthScaled x
  | method => method

/-- A smoothing method: the name under `method` and perhaps its parameter. Other keys do not matter, as long as their
values can be read. -/
def smoothing? : Value → Option Smoothing
  | .table fields => do
    guard (Toml.areFieldsReadable fields)
    let .string name ← fields.lookup "method" | none
    let method ← method? name
    match (parameter? method).bind fun p => fields.lookup p.name with
    | some v => return withParameter (← v.float?) method
    | none => return method
  | .array (.string name :: rest) => do
    let method ← method? name
    match rest, parameter? method with
    | [], _ => return method
    | [v], some _ => return withParameter (← v.float?) method
    | _, _ => none
  | _ => none

def keys : List String := ["max_order", "tokenizer", "weights", "smoothing"]

def ofValue? (v : Value) : Option Settings := do
  let fields ← v.entries? keys
  let maxOrder ← Value.entryOr? fields "max_order" standard.maxOrder Value.nat?
  let tokenization ← Value.entryOr? fields "tokenizer" standard.tokenization
    (Value.choice? Tokenization.all Tokenization.name)
  let weights ← Value.entryOr? fields "weights" standard.weights fun v => (weights? v).map some
  let smoothing ← Value.entryOr? fields "smoothing" standard.smoothing smoothing?
  return { maxOrder, tokenization, weights, smoothing }

def ofDocument (document : String) : Except Fault Settings := do
  match (Toml.readDocument? document).bind fun fields => ofValue? (.table fields) with
  | some settings =>
    settings.validate
    return settings
  | none => throw .unreadableSettings

end Bleu.Settings
