import Bleu.Command.Inputs
import Bleu.Command.Options
import Bleu.Command.Script
import Bleu.Corpus.Workers
import Bleu.Report.Draft

/-!
# Scoring commands

A sentence is scored against its references, and a corpus line by line. Every pair is counted once; the counts are
added up for the corpus and serve again for the rows of single lines. Whether and how the pairs are divided among
workers does not show in what is counted.
-/
namespace Bleu.Command
open Files (Reading)
variable [Elementary] [Workforce]

/-- The workers that share a number of pairs, by default one for each processor; one of them takes few pairs alone. -/
def effectiveWorkers (asked : Option Nat) (w : Workload) (pairs : Nat) : Nat :=
  if pairs < w.threshold then 1 else max 1 ((asked.orElse fun _ => w.workers?).getD Workforce.processors)

/-- Asks the machine for workers. One is there already. -/
def hire (workers : Nat) : Except Failure Unit :=
  if workers ≤ 1 then .ok ()
  else
    match Workforce.refusal? workers with
    | some fault => .error { contexts := [.workers], cause := .os fault }
    | none => .ok ()

/-- The statistics of every pair, in order. -/
def countPairs (scorer : Scorer) (workers : Nat) (corpus : AlignedCorpus) : Except Failure (List Statistics) :=
  mapShared workers (fun entry => inContext (.line entry.2) (orFault (scorer.pairStatistics entry.1.1 entry.1.2)))
    ((corpus.referenceSets.zip corpus.hypotheses).zipIdx 1)

def total (counted : List Statistics) : Statistics := counted.foldl Statistics.combine .identity

/-- Adds the rows of pairs to a report, as far as they can be scored; then the failure, if there is one. -/
def addRows (scorer : Scorer) (draft : Report.Draft) : List (Statistics × Nat) → Report.Draft × Option Failure
  | [] => (draft, none)
  | (pair, line) :: rest =>
    match inContext (.line line) (orFault (scorer.scoreStatistics pair)) with
    | .ok result => addRows scorer (draft.add (.row line result)) rest
    | .error f => (draft, some f)

def header (level : String) (sentences : Nat) (s : Settings) : Report.Header where
  level
  sentences
  smoothing := s.smoothing.text
  tokenizer := s.tokenization.name

/-- Writes a text to the file of the options, or prints it. -/
def deliver (output : Option String) (text : String) : Deed :=
  match output with
  | some path => .save path text (.creatingOutput path)
  | none => .print text

/-- The report on a counted corpus. A line that cannot be scored by itself ends it after the rows before. -/
def corpusReport (scorer : Scorer) (style : Report.Style) (output : Option String) (withRows : Bool)
    (counted : List Statistics) : Except Failure Script := do
  let result ← inContext .corpus (orFault (scorer.scoreStatistics (total counted)))
  let (draft, failure) := addRows scorer (.start style) (if withRows then counted.zipIdx 1 else [])
  match failure with
  | some f => return { deeds := [deliver output draft.written], failure := some f }
  | none =>
    let draft := draft.add (.summary (header "corpus" counted.length scorer.settings) result)
    return { deeds := [deliver output draft.finish] }

def scoreFiles (hypotheses : String) (references : List String) (withRows : Bool) (workers : Option Nat)
    (options : ScoringOptions) : ExceptT Failure Reading Script := do
  let preferences ← options.preferences
  let scorer ← preferences.scorer
  let corpus ← AlignedCorpus.read hypotheses references
  let workers := effectiveWorkers workers preferences.workload corpus.hypotheses.length
  hire workers
  let counted ← countPairs scorer workers corpus
  corpusReport scorer preferences.report options.output withRows counted

/-- Scores a sentence. Blank lines in files of references do not count. -/
def scoreSentence (hypothesis : String) (references referenceFiles : List String) (options : ScoringOptions) :
    ExceptT Failure Reading Script := do
  let preferences ← options.preferences
  let scorer ← preferences.scorer
  let lines ← referenceFiles.mapM readLines
  let references := references ++ lines.flatten.filter fun line => !line.toList.all Text.isBlank
  if references.isEmpty then throw { cause := .noReferences }
  let result ← inContext .sentence (orFault (scorer.scoreText references hypothesis))
  return { deeds := [deliver options.output (Report.write preferences.report
    [.summary (header "sentence" 1 scorer.settings) result])] }

end Bleu.Command
