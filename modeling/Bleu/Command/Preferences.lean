import Bleu.Command.Failure
import Bleu.Files.Reading
import Bleu.Report.Format
import Bleu.Settings.Document

/-!
# Preferences

A document of preferences has three records: how reports are written, when a corpus is divided among workers, and
the settings of the scorer. What is left out has a standard value.
-/
namespace Bleu.Command
open Toml (Value)

/-- When and among how many workers the pairs of a corpus are divided. -/
structure Workload where
  /-- The number of pairs that are worth dividing. -/
  threshold : Nat := 1000
  /-- The number of workers; zero leaves it to the machine. -/
  workers : Nat := 0
deriving DecidableEq, Repr

/-- The number of workers, unless it is left to the machine. -/
def Workload.workers? (w : Workload) : Option Nat := if w.workers = 0 then none else some w.workers

/-- What a user may settle once for many commands. -/
structure Preferences where
  report : Report.Style := {}
  workload : Workload := {}
  scoring : Settings := .standard
deriving DecidableEq, Repr

namespace Preferences

def standard : Preferences := {}

def placesLimit : Nat := 17

def validate (p : Preferences) : Except Failure Unit := do
  orFault p.scoring.validate
  if placesLimit < p.report.places then throw { cause := .tooManyPlaces p.report.places placesLimit }

def style? (v : Value) : Option Report.Style := do
  let standard : Report.Style := {}
  let fields ← v.entries? ["default_format", "pretty_json", "precision"]
  let format ← Value.entryOr? fields "default_format" standard.format
    (Value.choice? Report.Format.all Report.Format.name)
  let layout ← Value.entryOr? fields "pretty_json" standard.layout fun v => v.bool?.map Json.Layout.ofBool
  let places ← Value.entryOr? fields "precision" standard.places Value.nat?
  return { format, layout, places }

def workload? (v : Value) : Option Workload := do
  let standard : Workload := {}
  let fields ← v.entries? ["parallel_threshold", "worker_threads"]
  let threshold ← Value.entryOr? fields "parallel_threshold" standard.threshold Value.nat?
  let workers ← Value.entryOr? fields "worker_threads" standard.workers Value.nat?
  return { threshold, workers }

def ofValue? (v : Value) : Option Preferences := do
  let fields ← v.entries? ["output", "performance", "scoring"]
  let report ← Value.entryOr? fields "output" standard.report style?
  let workload ← Value.entryOr? fields "performance" standard.workload workload?
  let scoring ← Value.entryOr? fields "scoring" standard.scoring Settings.ofValue?
  return { report, workload, scoring }

def ofDocument (document : String) : Except Failure Preferences := do
  match (Toml.readDocument? document).bind fun fields => ofValue? (.table fields) with
  | some preferences =>
    preferences.validate
    return preferences
  | none => throw { cause := .unreadablePreferences }

def ofFile (path : String) : ExceptT Failure Files.Reading Preferences :=
  ExceptT.mk do
    let text ← Files.Reading.readText path
    return do
      let document ← inContext (.readingPreferences path) (orOs text)
      inContext (.preferences path) (ofDocument document)

end Preferences

end Bleu.Command
