import Bleu.Proofs.CommandLine
import Bleu.Proofs.Readings
import Bleu.Proofs.Settings
import Mathlib.Control.Monad.Basic

/-!
# Options over preferences

Options stand in front of preferences. Weights come before a highest order, whichever of the two the preferences have
(`ScoringOptions.orderCount_overrideSettings`). A method of smoothing among the options comes by its name, so that its
parameter can be used. Of all that options put in the place of preferences that can be followed, only a highest order of
zero without weights beside it is refused (`ScoringOptions.validate_overridePreferences_iff`). There is a scorer for what
results as long as there is room for its weights (`preferences_of_arguments`).
-/
namespace Bleu
open Outcomes

theorem Smoothing.validate_of_mem_all {m : Smoothing} (listed : m ∈ all) : m.validate = .ok () := by
  have epsilon : isParameter defaultEpsilon = true := by decide +kernel
  have k : isParameter defaultK = true := by decide +kernel
  simp only [all, List.mem_cons, List.not_mem_nil, or_false] at listed
  rcases listed with rfl | rfl | rfl | rfl | rfl
  · rfl
  · simp [validate, epsilon]
  · rfl
  · rfl
  · simp [validate, k]

theorem Smoothing.validate_of_ofName {text : String} {m : Smoothing} (named : ofName text = .ok m) :
    m.validate = .ok () := by
  unfold ofName at named
  split at named
  · rename_i found
    cases named
    exact validate_of_mem_all (List.mem_of_find?_eq_some found)
  · cases named

namespace Command
open Files (FileTree)

theorem ReadBy.validate {given : Option Smoothing} (named : ReadBy (readable ∘ Smoothing.ofName) given) :
    ∀ m ∈ given, m.validate = .ok () := by
  intro m chosen
  obtain ⟨word, read⟩ := named m chosen
  exact Smoothing.validate_of_ofName (mapError_eq_ok.mp read)

namespace Preferences

theorem validate_eq_ok_iff (p : Preferences) :
    p.validate = .ok () ↔ p.scoring.validate = .ok () ∧ p.report.places ≤ placesLimit := by
  rw [validate, bind_eq_ok]
  constructor
  · rintro ⟨⟨⟩, accepted, rest⟩
    refine ⟨orFault_eq_ok.mp accepted, ?_⟩
    by_cases many : placesLimit < p.report.places
    · simp [many, throw_eq_error] at rest
    · omega
  · rintro ⟨accepted, within⟩
    have few : ¬ placesLimit < p.report.places := by omega
    exact ⟨(), orFault_eq_ok.mpr accepted, by simp [few, pure, Except.pure]⟩

/-- What a scorer owes to the preferences that it is made of. -/
structure ServedBy (p : Preferences) (scorer : Scorer) : Prop where
  orders : scorer.weights.maxOrder = orderCount p.scoring
  weights : ∀ w ∈ p.scoring.weights, scorer.weights = w
  uniform : p.scoring.weights = none → Weights.even p.scoring.maxOrder = .ok scorer.weights
  settings : scorer.settings = p.scoring
  tokenizer : scorer.tokenizer = p.scoring.tokenization.tokenizer

theorem servedBy_of_scorer {p : Preferences} {s : Scorer} (built : p.scorer = .ok s) : p.ServedBy s := by
  obtain ⟨accepted, made, settings, tokenizer⟩ :=
    Scorer.ofSettings_eq_ok_iff.mp (orFault_eq_ok.mp (inContext_eq_ok.mp built))
  refine ⟨Settings.maxOrder_of_effectiveWeights made, fun w given => ?_, fun absent => ?_, settings, tokenizer⟩
  · rw [Settings.effectiveWeights, given] at made
    cases made
    rfl
  · rw [Settings.effectiveWeights, absent] at made
    exact (Weights.uniform_eq_ok_iff.mp made).2

/-- There is a scorer for accepted preferences with room for its weights. -/
theorem exists_scorer {p : Preferences} (accepted : p.validate = .ok ()) (room : p.scoring.HasRoom) :
    ∃ scorer : Scorer, p.scorer = .ok scorer ∧ p.ServedBy scorer := by
  obtain ⟨scorer, built⟩ := Scorer.exists_ofSettings ((validate_eq_ok_iff p).mp accepted).1 room
  have made : p.scorer = .ok scorer := inContext_eq_ok.mpr (orFault_eq_ok.mpr built)
  exact ⟨scorer, made, servedBy_of_scorer made⟩

/-- Without room for its weights, making the scorer of preferences breaks down. -/
theorem scorer_of_not_hasRoom {p : Preferences} (accepted : p.validate = .ok ()) (full : ¬ p.scoring.HasRoom) :
    p.scorer = .error { contexts := [.scorer], cause := .fault (.noRoomForWeights p.scoring.maxOrder) } := by
  rw [scorer, Scorer.ofSettings_of_not_hasRoom ((validate_eq_ok_iff p).mp accepted).1 full]
  rfl

theorem validate_of_ofDocument {document : String} {p : Preferences} (read : ofDocument document = .ok p) :
    p.validate = .ok () := by
  unfold ofDocument at read
  split at read
  · obtain ⟨_, accepted, ⟨⟩⟩ := bind_eq_ok.mp read
    exact accepted
  · cases read

theorem validate_of_ofFile {path : String} {files : FileTree} {p : Preferences}
    (loaded : (ofFile path).run.eval files = .ok p) : p.validate = .ok () := by
  obtain ⟨document, _, read⟩ := bind_eq_ok.mp loaded
  exact validate_of_ofDocument (inContext_eq_ok.mp read)

end Preferences

namespace ScoringOptions
variable {o : ScoringOptions}

theorem validate_of_basePreferences {files : FileTree} {base : Preferences}
    (loaded : o.basePreferences.run.eval files = .ok base) : base.validate = .ok () := by
  unfold basePreferences at loaded
  cases file : o.preferencesFile with
  | none =>
    simp only [file] at loaded
    cases loaded
    rfl
  | some path =>
    simp only [file] at loaded
    exact Preferences.validate_of_ofFile loaded

theorem preferences_eq_ok_iff {files : FileTree} {p : Preferences} :
    o.preferences.run.eval files = .ok p ↔
      ∃ base, o.basePreferences.run.eval files = .ok base ∧ p = o.overridePreferences base ∧ p.validate = .ok () := by
  simp only [preferences, Files.Reading.eval_run_bind, Files.Reading.eval_run_lift, bind_eq_ok]
  constructor
  · rintro ⟨base, loaded, _, accepted, ⟨⟩⟩
    exact ⟨base, loaded, rfl, accepted⟩
  · rintro ⟨base, loaded, rfl, accepted⟩
    exact ⟨base, loaded, (), accepted, rfl⟩

section
variable (o) (s : Settings)

theorem overrideSettings_weights {w : Weights} (weights : o.weights = some w) :
    o.overrideSettings s = ⟨w.maxOrder, o.tokenization.getD s.tokenization, some w, o.smoothing.getD s.smoothing⟩ := by
  simp [overrideSettings, weights]

theorem overrideSettings_maxOrder {n : Nat} (weights : o.weights = none) (order : o.maxOrder = some n) :
    o.overrideSettings s = ⟨n, o.tokenization.getD s.tokenization, none, o.smoothing.getD s.smoothing⟩ := by
  simp [overrideSettings, weights, order]

theorem overrideSettings_own (weights : o.weights = none) (order : o.maxOrder = none) :
    o.overrideSettings s =
      ⟨s.maxOrder, o.tokenization.getD s.tokenization, s.weights, o.smoothing.getD s.smoothing⟩ := by
  simp [overrideSettings, weights, order]

theorem methods_overrideSettings : (o.overrideSettings s).smoothing = o.smoothing.getD s.smoothing ∧
    (o.overrideSettings s).tokenization = o.tokenization.getD s.tokenization := by
  unfold overrideSettings
  split
  · exact ⟨rfl, rfl⟩
  · exact ⟨rfl, rfl⟩
  · exact ⟨rfl, rfl⟩

theorem orderCount_overrideSettings : orderCount (o.overrideSettings s) =
    ((o.weights.map Weights.maxOrder).or (o.maxOrder.or (s.weights.map Weights.maxOrder))).getD s.maxOrder := by
  cases weights : o.weights with
  | some w =>
    rw [overrideSettings_weights o s weights]
    rfl
  | none =>
    cases order : o.maxOrder with
    | some n =>
      rw [overrideSettings_maxOrder o s weights order]
      rfl
    | none =>
      rw [overrideSettings_own o s weights order, orderCount]
      cases s.weights with
      | some w => rfl
      | none => rfl

end

/-- Only a highest order of zero in the place of accepted settings is refused, and weights keep it out. -/
theorem validate_overrideSettings_iff {s : Settings} (methods : ∀ m ∈ o.smoothing, m.validate = .ok ())
    (accepted : s.validate = .ok ()) :
    (o.overrideSettings s).validate = .ok () ↔ ¬ (o.maxOrder = some 0 ∧ o.weights = none) := by
  obtain ⟨positive, agrees, method⟩ := (Settings.validate_eq_ok_iff s).mp accepted
  have smoothed : (o.smoothing.getD s.smoothing).validate = .ok () := by
    cases chosen : o.smoothing with
    | none => exact method
    | some m => exact methods m chosen
  cases weights : o.weights with
  | some w =>
    have counted : w.maxOrder ≠ 0 := by
      rw [Weights.maxOrder, ne_eq, List.length_eq_zero_iff]
      exact w.values_ne_nil
    rw [overrideSettings_weights o s weights, Settings.validate_eq_ok_iff]
    simp [Settings.Agrees, counted, smoothed]
  | none =>
    cases order : o.maxOrder with
    | some n =>
      rw [overrideSettings_maxOrder o s weights order, Settings.validate_eq_ok_iff]
      simp [Settings.Agrees, smoothed]
    | none =>
      -- Weights and a highest order beside them stay as they are, and go on agreeing.
      rw [overrideSettings_own o s weights order, Settings.validate_eq_ok_iff]
      have same : Settings.Agrees ⟨s.maxOrder, o.tokenization.getD s.tokenization, s.weights,
        o.smoothing.getD s.smoothing⟩ := agrees
      simp [positive, same, smoothed]

theorem validate_overridePreferences_iff {base : Preferences} (methods : ∀ m ∈ o.smoothing, m.validate = .ok ())
    (accepted : base.validate = .ok ()) :
    (o.overridePreferences base).validate = .ok () ↔ ¬ (o.maxOrder = some 0 ∧ o.weights = none) := by
  obtain ⟨scoring, places⟩ := (Preferences.validate_eq_ok_iff base).mp accepted
  rw [Preferences.validate_eq_ok_iff]
  constructor
  · rintro ⟨overridden, _⟩
    exact (validate_overrideSettings_iff methods scoring).mp overridden
  · intro ordered
    exact ⟨(validate_overrideSettings_iff methods scoring).mpr ordered, places⟩

/-- What preferences owe to options and what to the preferences under them. -/
structure Override (o : ScoringOptions) (base p : Preferences) : Prop where
  orders : orderCount p.scoring =
    ((o.weights.map Weights.maxOrder).or (o.maxOrder.or (base.scoring.weights.map Weights.maxOrder))).getD
      base.scoring.maxOrder
  weights : ∀ w ∈ o.weights, p.scoring.weights = some w
  uniform : o.weights = none → ∀ n ∈ o.maxOrder, p.scoring.weights = none ∧ p.scoring.maxOrder = n
  own : o.weights = none → o.maxOrder = none →
    p.scoring.weights = base.scoring.weights ∧ p.scoring.maxOrder = base.scoring.maxOrder
  smoothing : p.scoring.smoothing = o.smoothing.getD base.scoring.smoothing
  tokenization : p.scoring.tokenization = o.tokenization.getD base.scoring.tokenization
  format : p.report.format = o.format.getD base.report.format
  layout : p.report.layout = base.report.layout
  places : p.report.places = base.report.places
  workload : p.workload = base.workload

theorem override_overridePreferences (base : Preferences) : o.Override base (o.overridePreferences base) := by
  obtain ⟨smoothing, tokenization⟩ := o.methods_overrideSettings base.scoring
  constructor
  case orders => exact o.orderCount_overrideSettings base.scoring
  case weights => exact fun _ given => congrArg Settings.weights (o.overrideSettings_weights base.scoring given)
  case uniform =>
    intro weights n order
    have scoring := o.overrideSettings_maxOrder base.scoring weights order
    exact ⟨congrArg Settings.weights scoring, congrArg Settings.maxOrder scoring⟩
  case own =>
    intro weights order
    have scoring : (o.overridePreferences base).scoring = _ := o.overrideSettings_own base.scoring weights order
    rw [scoring]
    exact ⟨rfl, rfl⟩
  case smoothing => exact smoothing
  case tokenization => exact tokenization
  all_goals rfl

end ScoringOptions

/-- Whatever an accepted command line puts in the place of preferences can be followed, but for a highest order of zero
without weights; and each part of it comes from the options or else from the preferences. There is a scorer for it as long
as there is room for its weights. -/
theorem preferences_of_arguments {environment? : Option String} {words : List String} {c : Command} {o : ScoringOptions}
    (read : ofArguments environment? words = .ok c) (scores : c.scoringOptions? = some o) (files : FileTree) :
    ((∃ p, o.preferences.run.eval files = .ok p) ↔
      (∃ base, o.basePreferences.run.eval files = .ok base) ∧ ¬ (o.maxOrder = some 0 ∧ o.weights = none)) ∧
    ∀ p, o.preferences.run.eval files = .ok p →
      (∃ base, o.basePreferences.run.eval files = .ok base ∧ o.Override base p) ∧
      (p.scoring.HasRoom → ∃ scorer, p.scorer = .ok scorer ∧ p.ServedBy scorer) ∧
      (¬ p.scoring.HasRoom →
        p.scorer = .error { contexts := [.scorer], cause := .fault (.noRoomForWeights p.scoring.maxOrder) }) := by
  have methods := (readable_of_arguments read scores).smoothing.validate
  constructor
  · constructor
    · rintro ⟨p, followed⟩
      obtain ⟨base, loaded, rfl, accepted⟩ := ScoringOptions.preferences_eq_ok_iff.mp followed
      have own := ScoringOptions.validate_of_basePreferences loaded
      exact ⟨⟨base, loaded⟩, (ScoringOptions.validate_overridePreferences_iff methods own).mp accepted⟩
    · rintro ⟨⟨base, loaded⟩, ordered⟩
      have own := ScoringOptions.validate_of_basePreferences loaded
      have accepted := (ScoringOptions.validate_overridePreferences_iff methods own).mpr ordered
      exact ⟨_, ScoringOptions.preferences_eq_ok_iff.mpr ⟨base, loaded, rfl, accepted⟩⟩
  · intro p followed
    obtain ⟨base, loaded, rfl, accepted⟩ := ScoringOptions.preferences_eq_ok_iff.mp followed
    exact ⟨⟨base, loaded, ScoringOptions.override_overridePreferences base⟩, Preferences.exists_scorer accepted,
      Preferences.scorer_of_not_hasRoom accepted⟩

/-- Three weights and six decimal places. -/
def threeWeights : FileTree where
  top := .folder [("bleu.toml", .file "[scoring]\nweights = [0.5, 0.25, 0.25]\n[output]\nprecision = 6\n".toUTF8)]

/-- A highest order of two puts an end to the three weights, and the decimal places stay. The greatest number is accepted
as well, but has no room for its weights. -/
theorem preferences_of_second_order :
    (∃ c o p scorer, ofArguments none ["score", "-H", "a b", "-r", "a b", "--config=bleu.toml", "-n2", "-s", "method1"] =
        .ok c ∧ c.scoringOptions? = some o ∧ o.preferences.run.eval threeWeights = .ok p ∧ p.scorer = .ok scorer ∧
      scorer.weights.values = [0.5, 0.5] ∧ scorer.settings.smoothing = .epsilon 0.1 ∧ p.report.places = 6) ∧
    ∃ c o p, ofArguments none ["score", "-q", "-H", "a", "-r", "a", "-n", "18446744073709551615"] = .ok c ∧
      c.scoringOptions? = some o ∧ o.preferences.run.eval threeWeights = .ok p ∧
      p.scorer = .error { contexts := [.scorer], cause := .fault (.noRoomForWeights (18446744073709551615)) } := by
  constructor
  · let o : ScoringOptions :=
      { preferencesFile := some "bleu.toml", smoothing := some (.epsilon 0.1), maxOrder := some 2 }
    have read : ofArguments none ["score", "-H", "a b", "-r", "a b", "--config=bleu.toml", "-n2", "-s", "method1"] =
        .ok (.score "a b" ["a b"] [] o) := by decide +kernel
    have loaded : o.basePreferences.run.eval threeWeights =
        .ok { report := { places := 6 }, scoring := { weights := some ⟨[0.5, 0.25, 0.25], by simp⟩ } } := by
      decide +kernel
    obtain ⟨followed, overrides⟩ := preferences_of_arguments read rfl threeWeights
    obtain ⟨p, whole⟩ := followed.mpr ⟨⟨_, loaded⟩, fun zero => absurd zero.1 (by simp [o])⟩
    obtain ⟨⟨base, again, parts⟩, fits, _⟩ := overrides p whole
    cases loaded.symm.trans again
    obtain ⟨absent, order⟩ := parts.uniform rfl 2 rfl
    obtain ⟨scorer, built, serves⟩ := fits fun _ => by rw [order]; decide
    refine ⟨_, o, p, scorer, read, rfl, whole, built, ?_, ?_, parts.places⟩
    · rw [(Weights.even_eq_ok_iff.mp (serves.uniform absent)).2, order]
      decide +kernel
    · rw [serves.settings, parts.smoothing]
      rfl
  · let o : ScoringOptions := { maxOrder := some (18446744073709551615) }
    have read : ofArguments none ["score", "-q", "-H", "a", "-r", "a", "-n", "18446744073709551615"] =
        .ok (.score "a" ["a"] [] o) := by decide +kernel
    obtain ⟨followed, overrides⟩ := preferences_of_arguments read rfl threeWeights
    obtain ⟨p, whole⟩ := followed.mpr ⟨⟨_, rfl⟩, fun zero => absurd zero.1 (by simp [o])⟩
    obtain ⟨⟨base, _, parts⟩, _, breaks⟩ := overrides p whole
    obtain ⟨absent, order⟩ := parts.uniform rfl (18446744073709551615) rfl
    have full : ¬ p.scoring.HasRoom := fun room => absurd (room absent) (by rw [order]; decide +kernel)
    exact ⟨_, o, p, read, rfl, whole, order ▸ breaks full⟩

end Command

end Bleu
