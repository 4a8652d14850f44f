import Bleu.Command.Run
import Bleu.Proofs.Lines
import Bleu.Proofs.Readings

/-!
# What failing commands leave behind

A scoring command reads and scores before it writes, and then writes one text (`Script.Atomic`). So it leaves nothing
behind when it fails, but for one case. The rows of single lines are scored when the report is under way. A line whose
orders all have weight zero ends the report after the rows before, though the corpus as a whole has a score: the command
comes to a `Halt`. `outcome_of_scoring` says that this is the only case, and what is left behind then.
-/
namespace Bleu.Command
open Files Outcomes

/-- The commands that score. -/
def IsScoring : Command → Prop
  | score .. | corpus .. => True
  | _ => False

/-- Nothing is printed, and no file is created or changed. -/
def Outcome.LeavesNothing (o : Outcome) (files : FileTree) : Prop := o.files = files ∧ o.printed = ""

/-! ## Scripts -/

/-- Whether a script does one thing at most, and does not fail after it. -/
def Script.Atomic (s : Script) : Prop := s.deeds = [] ∨ s.failure = none ∧ ∃ deed, s.deeds = [deed]

theorem Script.Atomic.leavesNothing {s : Script} (atomic : s.Atomic) {files : FileTree}
    (failed : (s.run files).failure ≠ none) : (s.run files).LeavesNothing files := by
  rcases atomic with idle | ⟨succeeds, deed, single⟩
  · rw [Script.run, idle]
    exact ⟨rfl, rfl⟩
  · rw [Script.run, succeeds, single] at failed ⊢
    cases deed with
    | print text => exact absurd rfl failed
    | save path text context =>
      cases written : inContext context (orOs (files.write path text.toUTF8)) with
      | ok changed =>
        simp only [runFrom, written] at failed
        exact absurd rfl failed
      | error f =>
        simp only [runFrom, written]
        exact ⟨rfl, rfl⟩

theorem Script.atomic_fail (f : Failure) : (fail f).Atomic := .inl rfl

theorem Script.atomic_deliver (output : Option String) (text : String) : Atomic { deeds := [deliver output text] } :=
  .inr ⟨rfl, _, rfl⟩

/-- What a script leaves behind that delivers a text. -/
theorem Script.run_deliver (output : Option String) (text : String) (ending : Option Failure) (files : FileTree) :
    Script.run { deeds := [deliver output text], failure := ending } files =
      match output with
      | none => { files, printed := text, failure := ending }
      | some path =>
        match files.write path text.toUTF8 with
        | .ok changed => { files := changed, printed := "", failure := ending }
        | .error fault =>
          { files, printed := "", failure := some { contexts := [.creatingOutput path], cause := .os fault } } := by
  cases output with
  | none => simp [Script.run, Script.runFrom, deliver]
  | some path =>
    cases written : files.write path text.toUTF8 with
    | ok changed => simp only [Script.run, Script.runFrom, deliver, written, orOs_ok, inContext_ok]
    | error fault =>
      simp only [Script.run, Script.runFrom, deliver, written, orOs_error, inContext_error, Failure.ofOs, Failure.within]

/-! ## Reports that end before the last line -/

/-- The rows of lines with consecutive numbers. -/
def rowsFrom (first : Nat) (scores : List Score) : List Report.Entry :=
  (scores.zipIdx first).map fun entry => .row entry.2 entry.1

/-- A report that ends at a line: its style and place, the scores of the lines before, and the number of orders in which
the line has tokens but no weights. -/
structure Halt where
  style : Report.Style
  output : Option String
  before : List Score
  orders : Nat

namespace Halt

/-- What is written before the line. -/
def text (h : Halt) : String := ((rowsFrom 1 h.before).foldl Report.Draft.add (.start h.style)).written

/-- The failure at the line. -/
def failure (h : Halt) : Failure where
  contexts := [.line (h.before.length + 1)]
  cause := .fault (.unresolvableWeights h.orders)

/-- What is left behind: what was written before, unless the file cannot be written. -/
def outcome (h : Halt) (files : FileTree) : Outcome :=
  match h.output with
  | none => { files, printed := h.text, failure := some h.failure }
  | some path =>
    match files.write path h.text.toUTF8 with
    | .ok changed => { files := changed, printed := "", failure := some h.failure }
    | .error fault => { files, printed := "", failure := some { contexts := [.creatingOutput path], cause := .os fault } }

/-- A script that writes this much and fails leaves this behind. -/
theorem run_eq (h : Halt) (files : FileTree) :
    Script.run { deeds := [deliver h.output h.text], failure := some h.failure } files = h.outcome files :=
  Script.run_deliver h.output h.text (some h.failure) files

end Halt

section
variable [Elementary]

theorem addRows_append {scorer : Scorer} {pairs : List Statistics} {scores : List Score}
    (scored : pairs.mapM scorer.scoreStatistics = .ok scores) (draft : Report.Draft) (first : Nat)
    (rest : List (Statistics × Nat)) :
    addRows scorer draft (pairs.zipIdx first ++ rest) =
      addRows scorer ((rowsFrom first scores).foldl Report.Draft.add draft) rest := by
  induction pairs generalizing scores draft first with
  | nil =>
    cases scored
    rfl
  | cons pair others ih =>
    obtain ⟨score, rest, one, later, rfl⟩ := mapM_cons_eq_ok.mp scored
    rw [List.zipIdx_cons, List.cons_append, addRows, inContext_eq_ok.mpr (orFault_eq_ok.mpr one)]
    exact ih later _ _

theorem addRows_stuck {scorer : Scorer} {pair : Statistics} {fault : Fault}
    (refused : scorer.scoreStatistics pair = .error fault) (draft : Report.Draft) (number : Nat)
    (rest : List (Statistics × Nat)) :
    addRows scorer draft ((pair, number) :: rest) =
      (draft, some { contexts := [.line number], cause := .fault fault }) := by
  rw [addRows, refused]
  rfl

section Report
variable {scorer : Scorer} {counted : List Statistics} {whole : Score} (style : Report.Style) (output : Option String)

/-- With a score of the corpus, the rows decide how the report ends. -/
theorem corpusReport_eq (total : scorer.scoreStatistics (total counted) = .ok whole) (withRows : Bool) :
    corpusReport scorer style output withRows counted = .ok
      (match addRows scorer (.start style) (if withRows then counted.zipIdx 1 else []) with
      | (draft, some f) => { deeds := [deliver output draft.written], failure := some f }
      | (draft, none) =>
        { deeds := [deliver output
            (draft.add (.summary (header "corpus" counted.length scorer.settings) whole)).finish] }) := by
  simp only [corpusReport, total, orFault_ok, inContext_ok, ok_bind]
  obtain ⟨draft, failure⟩ := addRows scorer (.start style) (if withRows then counted.zipIdx 1 else [])
  cases failure with
  | none => rfl
  | some f => rfl

theorem exists_total {style : Report.Style} {output : Option String} {withRows : Bool} {script : Script}
    (done : corpusReport scorer style output withRows counted = .ok script) :
    ∃ whole, scorer.scoreStatistics (total counted) = .ok whole := by
  rw [corpusReport] at done
  obtain ⟨whole, total, _⟩ := bind_eq_ok.mp done
  exact ⟨whole, orFault_eq_ok.mp (inContext_eq_ok.mp total)⟩

/-- A report on lines that all have a score, or on none of them, is written as a whole. -/
theorem corpusReport_atomic (total : scorer.scoreStatistics (total counted) = .ok whole) {withRows : Bool}
    (scored : withRows = true → ∃ scores, counted.mapM scorer.scoreStatistics = .ok scores) {script : Script}
    (done : corpusReport scorer style output withRows counted = .ok script) : script.Atomic := by
  rw [corpusReport_eq style output total] at done
  cases withRows with
  | false =>
    cases done
    exact Script.atomic_deliver _ _
  | true =>
    obtain ⟨scores, scored⟩ := scored rfl
    have rows := addRows_append scored (.start style) 1 []
    rw [List.append_nil] at rows
    rw [if_pos rfl, rows, addRows] at done
    cases done
    exact Script.atomic_deliver _ _

/-- A report on lines of which one has no score ends there. -/
theorem corpusReport_stuck (total : scorer.scoreStatistics (total counted) = .ok whole)
    {before after : List Statistics} {pair : Statistics} (lines : counted = before ++ pair :: after)
    {scores : List Score} (scored : before.mapM scorer.scoreStatistics = .ok scores) {fault : Fault}
    (refused : scorer.scoreStatistics pair = .error fault) :
    corpusReport scorer style output true counted = .ok {
      deeds := [deliver output ((rowsFrom 1 scores).foldl Report.Draft.add (.start style)).written]
      failure := some { contexts := [.line (scores.length + 1)], cause := .fault fault } } := by
  rw [corpusReport_eq style output total, if_pos rfl, lines, List.zipIdx_append, List.zipIdx_cons,
    addRows_append scored, addRows_stuck refused, length_of_mapM scored, Nat.add_comm]

end Report

/-! ## Commands that score -/

theorem scoreSentence_atomic {hypothesis : String} {references referenceFiles : List String} {options : ScoringOptions}
    {files : FileTree} {script : Script}
    (done : (scoreSentence hypothesis references referenceFiles options).run.eval files = .ok script) :
    script.Atomic := by
  unfold scoreSentence at done
  simp only [Reading.eval_run_bind, bind_eq_ok] at done
  obtain ⟨preferences, _, scorer, _, lines, _, done⟩ := done
  split at done
  · cases done
  · simp only [Reading.eval_run_bind, bind_eq_ok] at done
    obtain ⟨result, _, done⟩ := done
    cases done
    exact Script.atomic_deliver _ _

variable [Workforce]

/-- The commands that come to a halt: those that report on a corpus line by line and can score all of it, but not some
line by itself. -/
inductive HaltsWith (files : FileTree) : Command → Halt → Prop
  | corpus {hypotheses : String} {references : List String} {workers : Option Nat} {options : ScoringOptions}
      {preferences : Preferences} {scorer : Scorer} {corpus : AlignedCorpus} {counted : List Statistics} {whole : Score}
      {before after : List (List String × String)} {line : List String × String} {scores : List Score}
      (followed : options.preferences.run.eval files = .ok preferences)
      (built : preferences.scorer = .ok scorer)
      (read : (AlignedCorpus.read hypotheses references).run.eval files = .ok corpus)
      (hired : hire (effectiveWorkers workers preferences.workload corpus.hypotheses.length) = .ok ())
      (counts : (corpus.lines.mapM fun line => scorer.pairStatistics line.1 line.2) = .ok counted)
      (total : scorer.scoreStatistics (total counted) = .ok whole)
      (lines : corpus.lines = before ++ line :: after)
      (scored : (before.mapM fun line => scorer.scoreText line.1 line.2) = .ok scores)
      (short : ¬ scorer.Reaches line.2) :
      HaltsWith files (.corpus hypotheses references true workers options)
        { style := preferences.report, output := options.output, before := scores
          orders := min scorer.weights.maxOrder (scorer.tokenize line.2).length }

theorem scoreFiles_eval (hypotheses : String) (references : List String) (withRows : Bool) (workers : Option Nat)
    (options : ScoringOptions) (files : FileTree) :
    (scoreFiles hypotheses references withRows workers options).run.eval files = (do
      let preferences ← options.preferences.run.eval files
      let scorer ← preferences.scorer
      let corpus ← (AlignedCorpus.read hypotheses references).run.eval files
      hire (effectiveWorkers workers preferences.workload corpus.hypotheses.length)
      let counted ← countPairs scorer (effectiveWorkers workers preferences.workload corpus.hypotheses.length) corpus
      corpusReport scorer preferences.report options.output withRows counted) := by
  simp only [scoreFiles, Reading.eval_run_bind, Reading.eval_run_lift]

/-- A command that comes to a halt leaves behind what was written before. -/
theorem HaltsWith.outcome_eq {c : Command} {files : FileTree} {h : Halt} (halts : HaltsWith files c h) :
    c.outcome files = h.outcome files := by
  cases halts with
  | @corpus hypotheses references workers options preferences scorer corpus counted whole before after line scores
      followed built read hired counts total lines scored short =>
    have split := counts
    rw [lines] at split
    obtain ⟨first, pair, last, start, one, _, rfl⟩ := mapM_around_eq_ok.mp split
    have refused := Scorer.scoreStatistics_eq one
    rw [(Scorer.scoreText_cases (Scorer.references_ne_nil one) line.2).2 short] at refused
    rw [← Scorer.mapM_scoreStatistics_eq start] at scored
    have reported := corpusReport_stuck preferences.report options.output total rfl scored refused
    rw [← Halt.run_eq, outcome, script, Reading.eval_map, scoreFiles_eval, followed, ok_bind, built, ok_bind, read,
      ok_bind, hired, ok_bind, countPairs_eq_ok.mpr counts, ok_bind, reported]
    rfl

theorem scoreFiles_atomic {hypotheses : String} {references : List String} {withRows : Bool} {workers : Option Nat}
    {options : ScoringOptions} {files : FileTree} {script : Script}
    (done : (scoreFiles hypotheses references withRows workers options).run.eval files = .ok script)
    (unhalted : ¬ ∃ h, HaltsWith files (.corpus hypotheses references withRows workers options) h) :
    script.Atomic := by
  rw [scoreFiles_eval] at done
  obtain ⟨preferences, followed, done⟩ := bind_eq_ok.mp done
  obtain ⟨scorer, built, done⟩ := bind_eq_ok.mp done
  obtain ⟨corpus, read, done⟩ := bind_eq_ok.mp done
  obtain ⟨_, hired, done⟩ := bind_eq_ok.mp done
  obtain ⟨counted, counts, done⟩ := bind_eq_ok.mp done
  rw [countPairs_eq_ok] at counts
  obtain ⟨whole, total⟩ := exists_total done
  refine corpusReport_atomic preferences.report options.output total (fun rows => ?_) done
  rw [Scorer.mapM_scoreStatistics_eq counts]
  rcases mapM_cases (fun line => scorer.scoreText line.1 line.2) corpus.lines with
    scored | ⟨before, line, after, scores, fault, lines, scored, refused⟩
  · exact scored
  · subst rows
    have short : ¬ scorer.Reaches line.2 := by
      intro reaches
      rw [lines] at counts
      obtain ⟨_, _, _, _, one, _, _⟩ := mapM_around_eq_ok.mp counts
      obtain ⟨score, same⟩ := (Scorer.scoreText_cases (Scorer.references_ne_nil one) line.2).1 reaches
      rw [same] at refused
      cases refused
    exact absurd ⟨_, .corpus followed built read hired counts total lines scored short⟩ unhalted

/-- A scoring command that fails leaves nothing behind, unless it comes to a halt. Then it leaves behind what was
written before the line that has no score. -/
theorem outcome_of_scoring {c : Command} (scoring : c.IsScoring) (files : FileTree) :
    ((c.outcome files).failure ≠ none → (¬ ∃ h, HaltsWith files c h) → (c.outcome files).LeavesNothing files) ∧
      ∀ h, HaltsWith files c h → c.outcome files = h.outcome files := by
  refine ⟨fun failed unhalted => ?_, fun h halts => halts.outcome_eq⟩
  suffices atomic : (c.script.eval files).Atomic from atomic.leavesNothing failed
  cases c with
  | score hypothesis references referenceFiles options =>
    rw [script, Reading.eval_map]
    cases done : (scoreSentence hypothesis references referenceFiles options).run.eval files with
    | error f => exact Script.atomic_fail f
    | ok script => exact scoreSentence_atomic done
  | corpus hypotheses references withRows workers options =>
    rw [script, Reading.eval_map]
    cases done : (scoreFiles hypotheses references withRows workers options).run.eval files with
    | error f => exact Script.atomic_fail f
    | ok script => exact scoreFiles_atomic done unhalted
  | list | template | validate => exact absurd scoring not_false

end

/-- Hypotheses of no, one and three tokens, their references, and a report from before. -/
def threeLines : FileTree where
  top := .folder [("hyp.txt", .file "\na\nb c d\n".toUTF8), ("ref.txt", .file "a\na\ne f\n".toUTF8),
    ("out.txt", .file "old report\n".toUTF8)]

/-- Scores the lines with a weight for order two only. -/
def scoreThreeLines : Command :=
  .corpus "hyp.txt" ["ref.txt"] true none
    { weights := some ⟨[0, 1], by simp⟩, tokenization := some .whitespace, output := some "out.txt" }

/-- The second line has no weight. The old report is gone, and the row of the first line is in its place. Without
references a command fails before it writes. -/
theorem outcome_three_lines :
    (scoreThreeLines.outcome threeLines).files.content "out.txt" = .ok "1\t0.0000\t\n".toUTF8 ∧
      (scoreThreeLines.outcome threeLines).failure =
        some { contexts := [.line 2], cause := .fault (.unresolvableWeights 1) } ∧
      ((score "a" [] [] {}).outcome threeLines).LeavesNothing threeLines := by
  let scorer : Scorer :=
    { settings := { maxOrder := 2, tokenization := .whitespace, weights := some ⟨[0, 1], by simp⟩ }
      weights := ⟨[0, 1], by simp⟩
      tokenizer := Tokenization.whitespace.tokenizer }
  have built : Preferences.scorer { scoring := scorer.settings } = .ok scorer := rfl
  have read : (AlignedCorpus.read "hyp.txt" ["ref.txt"]).run.eval threeLines =
      .ok ⟨["", "a", "b c d"], [["a"], ["a"], ["e f"]]⟩ := by decide +kernel
  have counts : ([(["a"], ""), (["a"], "a"), (["e f"], "b c d")].mapM fun line => scorer.pairStatistics line.1 line.2) =
      .ok [⟨[], [], 0, 1, 1⟩, ⟨[1], [1], 1, 1, 1⟩, ⟨[0, 0], [3, 2], 3, 2, 1⟩] := by decide +kernel
  have total : scorer.scoreStatistics ⟨[1, 0], [4, 2], 4, 4, 3⟩ =
      .ok ⟨0, [⟨1, 4, by decide⟩, ⟨0, 2, by decide⟩], [0.25, 0], [0, 1], 1, 4, 4⟩ := by decide +kernel
  have scored : ([(["a"], "")].mapM fun line => scorer.scoreText line.1 line.2) = .ok [⟨0, [], [], [], 0, 0, 1⟩] := by
    decide +kernel
  have short : ¬ scorer.Reaches "a" := by
    rintro (empty | positive)
    · exact absurd empty (by decide +kernel)
    · exact positive (by decide +kernel)
  have halts : HaltsWith threeLines scoreThreeLines _ := .corpus rfl built read rfl counts total rfl scored short
  have unhalted : ¬ ∃ h, HaltsWith threeLines (.score "a" [] [] {}) h := by
    rintro ⟨h, halts⟩
    cases halts
  rw [(outcome_of_scoring (c := scoreThreeLines) trivial threeLines).2 _ halts]
  refine ⟨by decide +kernel, by decide +kernel, ?_⟩
  exact (outcome_of_scoring (c := .score "a" [] [] {}) trivial threeLines).1 (by decide +kernel) unhalted

end Bleu.Command
