import Bleu.Command.Run
import Bleu.Proofs.Overrides

/-!
# The check of preferences

The check accepts preferences once, when it reads them. A scoring command that names the same file accepts them again,
as they are, and then makes a scorer of them. `scorer_of_check` says where the two agree: on whether the file can be
followed, on the failure if it cannot, and on the orders, the smoothing and the tokenizer that are shown of it. But the
check does not ask whether there is room for the weights of the scorer.
-/
namespace Bleu.Command
open Files (FileTree)
open Outcomes Text

/-- Options that name a file of preferences and put nothing in the place of its settings. -/
structure ScoringOptions.Follows (o : ScoringOptions) (path : String) : Prop where
  preferencesFile : o.preferencesFile = some path
  smoothing : o.smoothing = none
  weights : o.weights = none
  maxOrder : o.maxOrder = none
  tokenization : o.tokenization = none

namespace ScoringOptions.Follows
variable {o : ScoringOptions} {path : String} (follows : o.Follows path)
include follows

theorem scoring_overridePreferences (p : Preferences) : (o.overridePreferences p).scoring = p.scoring := by
  change o.overrideSettings p.scoring = p.scoring
  rw [overrideSettings_own o p.scoring follows.weights follows.maxOrder, follows.smoothing, follows.tokenization]
  rfl

/-- Preferences that were accepted are accepted again. -/
theorem validate_overridePreferences {base : Preferences} (accepted : base.validate = .ok ()) :
    (o.overridePreferences base).validate = .ok () := by
  rw [Preferences.validate_eq_ok_iff, follows.scoring_overridePreferences]
  exact (Preferences.validate_eq_ok_iff base).mp accepted

theorem basePreferences_eq : o.basePreferences = Preferences.ofFile path := by
  rw [basePreferences, follows.preferencesFile]

/-- What is followed are the preferences of the file, but for the format. -/
theorem eval_preferences (files : FileTree) : o.preferences.run.eval files =
    (Preferences.ofFile path).run.eval files >>= fun base => .ok (o.overridePreferences base) := by
  simp only [preferences, Files.Reading.eval_run_bind, Files.Reading.eval_run_lift, follows.basePreferences_eq]
  cases loaded : (Preferences.ofFile path).run.eval files with
  | error f => rfl
  | ok base =>
    have accepted := follows.validate_overridePreferences (Preferences.validate_of_ofFile loaded)
    rw [ok_bind, accepted]
    rfl

/-- The orders, the smoothing and the tokenizer that are shown of the file are those of the scorer. -/
theorem verdict_eq {base : Preferences} {scorer : Scorer} (serves : (o.overridePreferences base).ServedBy scorer) :
    verdict (.ok base) = [
      "✓ Configuration is valid!",
      s!"  Orders: {scorer.weights.maxOrder}",
      s!"  Smoothing: {scorer.settings.smoothing.text}",
      s!"  Tokenizer: {scorer.settings.tokenization.name}",
      s!"  Output format: {base.report.format.name}"] := by
  rw [verdict, serves.orders, serves.settings, follows.scoring_overridePreferences base]

end ScoringOptions.Follows

/-- The failure of the check, if it read preferences that cannot be followed. -/
def refusal? : Except Failure Preferences → Option Failure
  | .ok _ => none
  | .error f => some (f.within .validation)

section
variable [Elementary] [Workforce]

/-- What the check leaves behind: the files as they were, a verdict, and the failure if it is one. -/
theorem outcome_validate {path : String} {files : FileTree} {result : Except Failure Preferences}
    (loaded : (Preferences.ofFile path).run.eval files = result) :
    (Command.validate path).outcome files =
      { files
        printed := joinLines (s!"Validating configuration: {path}" :: verdict result)
        failure := refusal? result } := by
  subst loaded
  change Script.run ((checkPreferences path).eval files) files = _
  rw [checkPreferences, Files.Reading.eval_bind, Files.Reading.eval_pure, Script.run, Script.runFrom, Script.runFrom,
    String.empty_append]
  rfl

/-- The check succeeds just when a scoring command can follow the file, and shows how many orders the scorer has, its
smoothing and its tokenizer. Otherwise both fail, and for the same reason. But there is a scorer only if there is room for
its weights; without room a file that passed the check makes the command break down. -/
theorem scorer_of_check {o : ScoringOptions} {path : String} (follows : o.Follows path) (files : FileTree) :
    (((Command.validate path).outcome files).failure = none ↔ ∃ p, o.preferences.run.eval files = .ok p) ∧
    (∀ p, o.preferences.run.eval files = .ok p →
      (p.scoring.HasRoom → ∃ scorer, p.scorer = .ok scorer) ∧
      (¬ p.scoring.HasRoom →
        p.scorer = .error { contexts := [.scorer], cause := .fault (.noRoomForWeights p.scoring.maxOrder) })) ∧
    (∀ p scorer, o.preferences.run.eval files = .ok p → p.scorer = .ok scorer →
      ∃ base, o.basePreferences.run.eval files = .ok base ∧
        ((Command.validate path).outcome files).printed = joinLines [
          s!"Validating configuration: {path}",
          "✓ Configuration is valid!",
          s!"  Orders: {scorer.weights.maxOrder}",
          s!"  Smoothing: {scorer.settings.smoothing.text}",
          s!"  Tokenizer: {scorer.settings.tokenization.name}",
          s!"  Output format: {base.report.format.name}"]) ∧
    ∀ f, ((Command.validate path).outcome files).failure = some (f.within .validation) ↔
      o.preferences.run.eval files = .error f := by
  have same := follows.eval_preferences files
  cases loaded : (Preferences.ofFile path).run.eval files with
  | ok base =>
    have accepted := follows.validate_overridePreferences (Preferences.validate_of_ofFile loaded)
    rw [loaded, ok_bind] at same
    rw [outcome_validate loaded, same]
    refine ⟨⟨fun _ => ⟨_, rfl⟩, fun _ => rfl⟩, fun p followed => ?_, fun p scorer followed made => ?_, fun f => ?_⟩
    · cases followed
      refine ⟨fun room => ?_, Preferences.scorer_of_not_hasRoom accepted⟩
      obtain ⟨scorer, built, _⟩ := Preferences.exists_scorer accepted room
      exact ⟨scorer, built⟩
    · cases followed
      refine ⟨base, ?_, ?_⟩
      · rw [follows.basePreferences_eq, loaded]
      · rw [follows.verdict_eq (Preferences.servedBy_of_scorer made)]
    · simp [refusal?]
  | error refusal =>
    obtain ⟨contexts, cause⟩ := refusal
    rw [loaded, error_bind] at same
    rw [outcome_validate loaded, same]
    refine ⟨by simp [refusal?], fun p followed => ?_, fun p scorer followed _ => ?_, fun f => ?_⟩
    · cases followed
    · cases followed
    · obtain ⟨others, reason⟩ := f
      simp [refusal?, Failure.within]

end

/-- A file with the greatest number of orders that a document can have. -/
def manyOrders : FileTree where
  top := .folder [("bleu.toml", .file "[scoring]\nmax_order = 9223372036854775807\n".toUTF8)]

/-- A file with three weights, and options that ask for another format of the report. A file with many orders passes the
check as well, but there is no scorer for it. -/
theorem scorer_of_check_three_weights :
    ∃ o : ScoringOptions, o.Follows "bleu.toml" ∧
      (∃ (p : Preferences) (scorer : Scorer), o.preferences.run.eval threeWeights = .ok p ∧ p.scorer = .ok scorer ∧
        p.report.format = .json ∧ ((Command.validate "bleu.toml").outcome threeWeights).failure = none ∧
        ((Command.validate "bleu.toml").outcome threeWeights).printed = joinLines [
          "Validating configuration: bleu.toml", "✓ Configuration is valid!", "  Orders: 3", "  Smoothing: none",
          "  Tokenizer: simple", "  Output format: text"]) ∧
      ∃ p, o.preferences.run.eval manyOrders = .ok p ∧
        ((Command.validate "bleu.toml").outcome manyOrders).failure = none ∧
        p.scorer = .error { contexts := [.scorer], cause := .fault (.noRoomForWeights 9223372036854775807) } := by
  let o : ScoringOptions := { preferencesFile := some "bleu.toml", format := some .json }
  have follows : o.Follows "bleu.toml" := ⟨rfl, rfl, rfl, rfl, rfl⟩
  refine ⟨o, follows, ?_, ?_⟩
  · have followed : o.preferences.run.eval threeWeights =
        .ok { report := { format := .json, places := 6 }
              scoring := { weights := some ⟨[0.5, 0.25, 0.25], by simp⟩ } } := by decide +kernel
    have loaded : o.basePreferences.run.eval threeWeights =
        .ok { report := { places := 6 }, scoring := { weights := some ⟨[0.5, 0.25, 0.25], by simp⟩ } } := by
      decide +kernel
    obtain ⟨succeeds, fits, shows, _⟩ := scorer_of_check follows threeWeights
    obtain ⟨scorer, built⟩ := (fits _ followed).1 nofun
    obtain ⟨base, again, printed⟩ := shows _ scorer followed built
    cases loaded.symm.trans again
    refine ⟨_, scorer, followed, built, rfl, succeeds.mpr ⟨_, followed⟩, ?_⟩
    cases built
    rw [printed]
    decide +kernel
  · have followed : o.preferences.run.eval manyOrders =
        .ok { report := { format := .json }, scoring := { maxOrder := 9223372036854775807 } } := by decide +kernel
    obtain ⟨succeeds, fits, _⟩ := scorer_of_check follows manyOrders
    exact ⟨_, followed, succeeds.mpr ⟨_, followed⟩, (fits _ followed).2 (by decide +kernel)⟩

end Bleu.Command
