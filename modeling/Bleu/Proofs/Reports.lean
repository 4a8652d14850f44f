import Bleu.Proofs.Faults
import Bleu.Proofs.Leftovers
import Bleu.Proofs.Transposition

/-!
# Reports on a corpus

The command that scores a corpus counts line by line, shares the lines among workers, adds up and scores what was
counted. What it reports is what the scorer computes of the corpus and of each line by itself: `Scorer.Reports` says so
of the entries of a report, and `outcome_of_corpus` of all that a command leaves behind that succeeds. Workers, and the
number of lines that are worth sharing, do not show, unless the machine refuses to provide the workers.
-/
namespace Bleu.Command
open Files Outcomes

/-! ## The corpus that is read -/

theorem AlignedCorpus.length_of_counted {β : Type} {corpus : AlignedCorpus}
    (paired : corpus.referenceSets.length = corpus.hypotheses.length) {count : List String × String → Except Fault β}
    {counted : List β} (counts : corpus.lines.mapM count = .ok counted) : counted.length = corpus.hypotheses.length := by
  rw [length_of_mapM counts]
  simp [lines, paired]

theorem countPairs_workers (scorer : Scorer) (workers others : Nat) (corpus : AlignedCorpus) :
    countPairs scorer workers corpus = countPairs scorer others corpus := by
  rw [countPairs, countPairs, mapShared_eq, mapShared_eq]

/-! ## What is written -/

/-- What a command leaves behind that writes a text and succeeds. -/
inductive Delivered (files : FileTree) (text : String) : Option String → Outcome → Prop
  | printed : Delivered files text none { files, printed := text, failure := none }
  | saved {path : String} {changed : FileTree} (written : files.write path text.toUTF8 = .ok changed) :
      Delivered files text (some path) { files := changed, printed := "", failure := none }

theorem Script.failure_of_run {s : Script} {files : FileTree} (succeeds : (s.run files).failure = none) :
    s.failure = none := by
  suffices general : ∀ (deeds : List Deed) (start : Outcome), (runFrom start s.failure deeds).failure = none →
      s.failure = none from general s.deeds _ succeeds
  intro deeds
  induction deeds with
  | nil => exact fun start succeeds => succeeds
  | cons deed rest ih =>
    intro start succeeds
    cases deed with
    | print text => exact ih _ succeeds
    | save path text context =>
      rw [runFrom] at succeeds
      split at succeeds
      next => exact ih _ succeeds
      next => cases succeeds

theorem Script.ofResult_whole_iff {result : Except Failure Script} {s : Script} :
    ofResult result = s ∧ s.failure = none ↔ result = .ok s ∧ s.failure = none := by
  cases result with
  | ok made => simp [ofResult]
  | error f =>
    constructor
    · rintro ⟨rfl, whole⟩
      cases whole
    · rintro ⟨⟨⟩, _⟩

theorem run_deliver_iff {output : Option String} {text : String} {files : FileTree} {o : Outcome} :
    Script.run { deeds := [deliver output text] } files = o ∧ o.failure = none ↔ Delivered files text output o := by
  cases output with
  | none =>
    constructor
    · rintro ⟨rfl, _⟩
      exact .printed
    · rintro ⟨⟩
      exact ⟨rfl, rfl⟩
  | some path =>
    cases written : files.write path text.toUTF8 with
    | error fault =>
      simp only [Script.run_deliver, written]
      constructor
      · rintro ⟨rfl, succeeds⟩
        cases succeeds
      · intro delivered
        cases delivered with
        | saved wrote => cases written.symm.trans wrote
    | ok changed =>
      simp only [Script.run_deliver, written]
      constructor
      · rintro ⟨rfl, _⟩
        exact .saved written
      · intro delivered
        cases delivered with
        | saved wrote =>
          cases written.symm.trans wrote
          exact ⟨rfl, rfl⟩

/-! ## What the entries say -/

section
variable [Elementary]

/-- The scores of the lines by themselves, one for every hypothesis. -/
def ScoresLines (scorer : Scorer) (corpus : AlignedCorpus) (rows : List Score) : Prop :=
  rows.length = corpus.hypotheses.length ∧
    ∀ (i : Nat) (row : Score), rows[i]? = some row → ∃ references hypothesis,
      corpus.referenceSets[i]? = some references ∧ corpus.hypotheses[i]? = some hypothesis ∧
        scorer.scoreText references hypothesis = .ok row

/-- The entries of a report on a corpus: the score of the corpus, and before it the rows of the lines if they are asked
for, with numbers from one on. -/
inductive Reports (scorer : Scorer) (corpus : AlignedCorpus) : Bool → List Report.Entry → Prop
  | brief {whole : Score} (total : scorer.scoreCorpus corpus.referenceSets corpus.hypotheses = .ok whole) :
      Reports scorer corpus false [.summary (header "corpus" corpus.hypotheses.length scorer.settings) whole]
  | full {whole : Score} {rows : List Score}
      (total : scorer.scoreCorpus corpus.referenceSets corpus.hypotheses = .ok whole)
      (lines : ScoresLines scorer corpus rows) :
      Reports scorer corpus true
        (rowsFrom 1 rows ++ [.summary (header "corpus" corpus.hypotheses.length scorer.settings) whole])

section
variable {scorer : Scorer} {corpus : AlignedCorpus} (paired : corpus.referenceSets.length = corpus.hypotheses.length)
include paired

theorem scoresLines_iff {rows : List Score} :
    ScoresLines scorer corpus rows ↔ (corpus.lines.mapM fun line => scorer.scoreText line.1 line.2) = .ok rows := by
  have length : corpus.lines.length = corpus.hypotheses.length := by simp [AlignedCorpus.lines, paired]
  rw [mapM_eq_ok_iff, ScoresLines, length]
  refine and_congr_right fun _ => forall₃_congr fun i row _ => ?_
  constructor
  · rintro ⟨references, hypothesis, first, second, scored⟩
    exact ⟨(references, hypothesis), List.getElem?_zip_eq_some.mpr ⟨first, second⟩, scored⟩
  · rintro ⟨line, listed, scored⟩
    obtain ⟨first, second⟩ := List.getElem?_zip_eq_some.mp listed
    exact ⟨line.1, line.2, first, second, scored⟩

/-- What is counted line by line comes to the score of the corpus. -/
theorem scoreStatistics_total {counted : List Statistics}
    (counts : (corpus.lines.mapM fun line => scorer.pairStatistics line.1 line.2) = .ok counted) :
    scorer.scoreStatistics (total counted) = scorer.scoreCorpus corpus.referenceSets corpus.hypotheses := by
  have summed := scorer.foldlM_pairStatistics counts .identity
  rw [scorer.scoreCorpus_eq paired, Scorer.sumPairs]
  rw [AlignedCorpus.lines] at summed
  rw [summed, ok_bind, total]

/-- All lines of a corpus that has a score can be counted. -/
theorem exists_counted {whole : Score}
    (scored : scorer.scoreCorpus corpus.referenceSets corpus.hypotheses = .ok whole) :
    ∃ counted, (corpus.lines.mapM fun line => scorer.pairStatistics line.1 line.2) = .ok counted := by
  refine scorer.exists_mapM_pairStatistics fun line member empty => ?_
  have missing : [] ∈ corpus.referenceSets := empty ▸ (List.of_mem_zip member).1
  have refused := (scorer.scoreCorpus_eq_error_iff corpus.referenceSets corpus.hypotheses .emptyReferences).mpr
    ⟨paired, missing⟩
  rw [scored] at refused
  cases refused

end

section
variable {scorer : Scorer} {style : Report.Style} {output : Option String} {counted : List Statistics} {whole : Score}

theorem corpusReport_brief (total : scorer.scoreStatistics (total counted) = .ok whole) :
    corpusReport scorer style output false counted = .ok { deeds := [deliver output (Report.write style
      [.summary (header "corpus" counted.length scorer.settings) whole])] } := by
  rw [corpusReport_eq style output total]
  rfl

theorem corpusReport_full (total : scorer.scoreStatistics (total counted) = .ok whole) {rows : List Score}
    (scored : counted.mapM scorer.scoreStatistics = .ok rows) :
    corpusReport scorer style output true counted = .ok { deeds := [deliver output (Report.write style
      (rowsFrom 1 rows ++ [.summary (header "corpus" counted.length scorer.settings) whole]))] } := by
  have added := addRows_append scored (.start style) 1 []
  rw [List.append_nil, addRows] at added
  rw [corpusReport_eq style output total, if_pos rfl, added, Report.write, List.foldl_append]
  rfl

end

/-- A report that is written as a whole has the entries of the corpus. -/
theorem corpusReport_succeeds_iff {scorer : Scorer} {corpus : AlignedCorpus}
    (paired : corpus.referenceSets.length = corpus.hypotheses.length) (style : Report.Style) (output : Option String)
    (withRows : Bool) (workers : Nat) (script : Script) :
    (countPairs scorer workers corpus >>= corpusReport scorer style output withRows) = .ok script ∧
        script.failure = none ↔
      ∃ entries, Reports scorer corpus withRows entries ∧
        script = { deeds := [deliver output (Report.write style entries)] } := by
  constructor
  · rintro ⟨done, succeeds⟩
    obtain ⟨counted, counts, done⟩ := bind_eq_ok.mp done
    rw [countPairs_eq_ok] at counts
    have lines := AlignedCorpus.length_of_counted paired counts
    obtain ⟨whole, total⟩ := exists_total done
    have scored := total
    rw [scoreStatistics_total paired counts] at scored
    cases withRows with
    | false =>
      rw [corpusReport_brief total, lines] at done
      cases done
      exact ⟨_, .brief scored, rfl⟩
    | true =>
      rcases mapM_cases scorer.scoreStatistics counted with
        ⟨rows, rowsScored⟩ | ⟨before, pair, after, scores, fault, split, first, refused⟩
      · rw [corpusReport_full total rowsScored, lines] at done
        cases done
        rw [Scorer.mapM_scoreStatistics_eq counts, ← scoresLines_iff paired] at rowsScored
        exact ⟨_, .full scored rowsScored, rfl⟩
      · rw [corpusReport_stuck style output total split first refused] at done
        cases done
        cases succeeds
  · rintro ⟨entries, reports, rfl⟩
    refine ⟨?_, rfl⟩
    cases reports with
    | brief scored =>
      obtain ⟨counted, counts⟩ := exists_counted paired scored
      rw [← scoreStatistics_total paired counts] at scored
      rw [countPairs_eq_ok.mpr counts, ok_bind, corpusReport_brief scored,
        AlignedCorpus.length_of_counted paired counts]
    | full scored lines =>
      obtain ⟨counted, counts⟩ := exists_counted paired scored
      rw [← scoreStatistics_total paired counts] at scored
      rw [scoresLines_iff paired, ← Scorer.mapM_scoreStatistics_eq counts] at lines
      rw [countPairs_eq_ok.mpr counts, ok_bind, corpusReport_full scored lines,
        AlignedCorpus.length_of_counted paired counts]

/-! ## Runs of the command -/

variable [Workforce]

/-- Whether all that a script does is to fail because the machine refuses it the workers. -/
def Script.LacksWorkers (s : Script) : Prop := ∃ fault, s = fail { contexts := [.workers], cause := .os fault }

omit [Elementary] [Workforce] in
theorem Script.LacksWorkers.failure_ne_none {s : Script} (lacks : s.LacksWorkers) : s.failure ≠ none := by
  obtain ⟨fault, rfl⟩ := lacks
  exact Option.some_ne_none _

omit [Elementary] in
/-- Workers are there, or a command that asks for them fails. -/
theorem hire_cases (workers : Nat) : hire workers = .ok () ∨
    ∃ fault, hire workers = .error { contexts := [.workers], cause := .os fault } := by
  unfold hire
  split
  · exact .inl rfl
  · split
    · exact .inr ⟨_, rfl⟩
    · exact .inl rfl

theorem script_corpus (hypotheses : String) (references : List String) (withRows : Bool) (workers : Option Nat)
    (options : ScoringOptions) (files : FileTree) :
    (Command.corpus hypotheses references withRows workers options).script.eval files = Script.ofResult (do
      let preferences ← options.preferences.run.eval files
      let scorer ← preferences.scorer
      let corpus ← (AlignedCorpus.read hypotheses references).run.eval files
      hire (effectiveWorkers workers preferences.workload corpus.hypotheses.length)
      countPairs scorer 1 corpus >>= corpusReport scorer preferences.report options.output withRows) := by
  rw [script, Reading.eval_map, scoreFiles_eval]
  simp only [countPairs_workers _ (effectiveWorkers _ _ _) 1]

omit [Elementary] in
/-- A script that asks for workers does the rest, or it is refused them and does nothing else. -/
theorem ofResult_hire (workers : Nat) (rest : Except Failure Script) :
    Script.ofResult (hire workers >>= fun _ => rest) = Script.ofResult rest ∨
      hire workers ≠ .ok () ∧ (Script.ofResult (hire workers >>= fun _ => rest)).LacksWorkers := by
  rcases hire_cases workers with hired | ⟨fault, refused⟩
  · exact .inl (by rw [hired, ok_bind])
  · refine .inr ⟨?_, fault, ?_⟩
    · rw [refused]
      exact nofun
    · rw [refused]
      rfl

/-- The script of a command that scores a corpus and is not bound to fail delivers a report on the corpus. -/
theorem script_whole_iff {hypotheses : String} {references : List String} {withRows : Bool} {workers : Option Nat}
    {options : ScoringOptions} {files : FileTree} {s : Script} :
    (Command.corpus hypotheses references withRows workers options).script.eval files = s ∧ s.failure = none ↔
      ∃ preferences scorer corpus entries,
        options.preferences.run.eval files = .ok preferences ∧ preferences.scorer = .ok scorer ∧
        (AlignedCorpus.read hypotheses references).run.eval files = .ok corpus ∧
        hire (effectiveWorkers workers preferences.workload corpus.hypotheses.length) = .ok () ∧
        Reports scorer corpus withRows entries ∧
        s = { deeds := [deliver options.output (Report.write preferences.report entries)] } := by
  rw [script_corpus, Script.ofResult_whole_iff]
  constructor
  · rintro ⟨done, whole⟩
    obtain ⟨preferences, followed, done⟩ := bind_eq_ok.mp done
    obtain ⟨scorer, built, done⟩ := bind_eq_ok.mp done
    obtain ⟨corpus, read, done⟩ := bind_eq_ok.mp done
    obtain ⟨_, hired, done⟩ := bind_eq_ok.mp done
    obtain ⟨entries, reports, same⟩ :=
      (corpusReport_succeeds_iff (AlignedCorpus.length_of_read read) _ _ _ _ _).mp ⟨done, whole⟩
    exact ⟨preferences, scorer, corpus, entries, followed, built, read, hired, reports, same⟩
  · rintro ⟨preferences, scorer, corpus, entries, followed, built, read, hired, reports, same⟩
    rw [followed, ok_bind, built, ok_bind, read, ok_bind, hired, ok_bind]
    exact (corpusReport_succeeds_iff (AlignedCorpus.length_of_read read) _ _ _ _ _).mpr ⟨entries, reports, same⟩

/-- The command succeeds just when the preferences can be followed, the corpus can be read and scored, with every line
if rows are asked for, the workers are there, and the report can be written. It reports the scores of the corpus and of
its lines. Two runs that differ in nothing but workers and the workload that is worth sharing do the same, unless the
machine refuses one of them its workers. Then that one fails. -/
theorem outcome_of_corpus (hypotheses : String) (references : List String) (withRows : Bool) (workers : Option Nat)
    (options : ScoringOptions) (files : FileTree) :
    (∀ o : Outcome,
      (Command.corpus hypotheses references withRows workers options).outcome files = o ∧ o.failure = none ↔
        ∃ preferences scorer corpus entries,
          options.preferences.run.eval files = .ok preferences ∧ preferences.scorer = .ok scorer ∧
          (AlignedCorpus.read hypotheses references).run.eval files = .ok corpus ∧
          hire (effectiveWorkers workers preferences.workload corpus.hypotheses.length) = .ok () ∧
          Reports scorer corpus withRows entries ∧
          Delivered files (Report.write preferences.report entries) options.output o) ∧
    ∀ (otherWorkers : Option Nat) (others : ScoringOptions) (otherFiles : FileTree) (preferences : Preferences)
        (workload : Workload),
      options.preferences.run.eval files = .ok preferences →
      others.preferences.run.eval otherFiles = .ok { preferences with workload } →
      others.output = options.output →
      (AlignedCorpus.read hypotheses references).run.eval otherFiles =
        (AlignedCorpus.read hypotheses references).run.eval files →
      (Command.corpus hypotheses references withRows otherWorkers others).script.eval otherFiles =
          (Command.corpus hypotheses references withRows workers options).script.eval files ∨
        ∃ corpus, (AlignedCorpus.read hypotheses references).run.eval files = .ok corpus ∧
          (hire (effectiveWorkers otherWorkers workload corpus.hypotheses.length) ≠ .ok () ∧
              ((Command.corpus hypotheses references withRows otherWorkers others).script.eval otherFiles).LacksWorkers ∨
            hire (effectiveWorkers workers preferences.workload corpus.hypotheses.length) ≠ .ok () ∧
              ((Command.corpus hypotheses references withRows workers options).script.eval files).LacksWorkers) := by
  constructor
  · intro o
    constructor
    · rintro ⟨rfl, succeeds⟩
      obtain ⟨preferences, scorer, corpus, entries, followed, built, read, hired, reports, same⟩ :=
        script_whole_iff.mp ⟨rfl, Script.failure_of_run succeeds⟩
      rw [outcome, same] at succeeds ⊢
      exact ⟨preferences, scorer, corpus, entries, followed, built, read, hired, reports,
        run_deliver_iff.mp ⟨rfl, succeeds⟩⟩
    · rintro ⟨preferences, scorer, corpus, entries, followed, built, read, hired, reports, delivered⟩
      obtain ⟨same, _⟩ :=
        script_whole_iff.mpr ⟨preferences, scorer, corpus, entries, followed, built, read, hired, reports, rfl⟩
      rw [outcome, same]
      exact run_deliver_iff.mpr delivered
  · intro otherWorkers others otherFiles preferences workload followed otherFollowed output read
    have alike : Preferences.scorer { preferences with workload } = preferences.scorer := rfl
    rw [script_corpus, script_corpus, followed, otherFollowed, output, read, ok_bind, ok_bind, alike]
    cases preferences.scorer with
    | error f => exact .inl rfl
    | ok scorer =>
      cases (AlignedCorpus.read hypotheses references).run.eval files with
      | error f => exact .inl rfl
      | ok corpus =>
        rcases ofResult_hire (effectiveWorkers otherWorkers workload corpus.hypotheses.length) _ with same | refused
        · rcases ofResult_hire (effectiveWorkers workers preferences.workload corpus.hypotheses.length) _ with
            alike | refused
          · exact .inl (same.trans alike.symm)
          · exact .inr ⟨corpus, rfl, .inr refused⟩
        · exact .inr ⟨corpus, rfl, .inl refused⟩

end

/-- Two lines, of which none has all its orders matched, and preferences that share any number of lines. -/
def twoLines : FileTree where
  top := .folder [("hyp.txt", .file "a b\nc\n".toUTF8), ("ref.txt", .file "b a\nd\n".toUTF8),
    ("share.toml", .file "[performance]\nparallel_threshold = 0\n".toUTF8)]

/-- Two rows and the score of both lines, whoever counts them. -/
theorem outcome_corpus_two_lines :
    (Command.corpus "hyp.txt" ["ref.txt"] true none {}).outcome twoLines =
        { files := twoLines
          printed := "1\t0.0000\t2/2 0/1\n" ++ "2\t0.0000\t0/1\n" ++ "BLEU = 0.0000\n  precisions:      2/3 0/1\n" ++
            "  brevity penalty: 1.0000 (hypothesis 3, reference 3)\n" ++
            "  corpus level, 2 sentence(s), smoothing none, tokenizer simple\n"
          failure := none } ∧
      (Command.corpus "hyp.txt" ["ref.txt"] true (some 4) { preferencesFile := some "share.toml" }).script.eval twoLines =
        (Command.corpus "hyp.txt" ["ref.txt"] true none {}).script.eval twoLines := by
  obtain ⟨succeeds, same⟩ := outcome_of_corpus "hyp.txt" ["ref.txt"] true none {} twoLines
  have followed : (ScoringOptions.preferences {}).run.eval twoLines = .ok .standard := rfl
  have shared : (ScoringOptions.preferences { preferencesFile := some "share.toml" }).run.eval twoLines =
      .ok { Preferences.standard with workload := { threshold := 0 } } := by decide +kernel
  have built : Preferences.standard.scorer = .ok Scorer.standard := rfl
  have read : (AlignedCorpus.read "hyp.txt" ["ref.txt"]).run.eval twoLines =
      .ok ⟨["a b", "c"], [["b a"], ["d"]]⟩ := by decide +kernel
  have whole : Scorer.standard.scoreCorpus [["b a"], ["d"]] ["a b", "c"] =
      .ok ⟨0, [⟨2, 3, by decide⟩, ⟨0, 1, by decide⟩], [Float.ofNat 2 / Float.ofNat 3, 0], [0.5, 0.5], 1, 3, 3⟩ := by
    decide +kernel
  have rows : ([(["b a"], "a b"), (["d"], "c")].mapM fun line => Scorer.standard.scoreText line.1 line.2) =
      .ok [⟨0, [⟨2, 2, by decide⟩, ⟨0, 1, by decide⟩], [1, 0], [0.5, 0.5], 1, 2, 2⟩,
        ⟨0, [⟨0, 1, by decide⟩], [], [1], 1, 1, 1⟩] := by
    decide +kernel
  have reports : Reports Scorer.standard ⟨["a b", "c"], [["b a"], ["d"]]⟩ true _ :=
    .full whole ((scoresLines_iff rfl).mpr rows)
  have alike := same (some 4) { preferencesFile := some "share.toml" } twoLines _ _ followed shared rfl rfl
  have alone : ((Command.corpus "hyp.txt" ["ref.txt"] true none {}).script.eval twoLines).failure = none := by
    decide +kernel
  have shares : ((Command.corpus "hyp.txt" ["ref.txt"] true (some 4)
      { preferencesFile := some "share.toml" }).script.eval twoLines).failure = none := by decide +kernel
  refine ⟨((succeeds _).mpr ⟨_, _, _, _, followed, built, read, rfl, reports, ?_⟩).1, alike.resolve_right ?_⟩
  swap
  · rintro ⟨_, _, ⟨_, lacks⟩ | ⟨_, lacks⟩⟩
    · exact lacks.failure_ne_none shares
    · exact lacks.failure_ne_none alone
  refine cast (congrArg (Delivered twoLines · none _) ?_) .printed
  decide +kernel

end Bleu.Command
