import Bleu.Proofs.Batches
import Bleu.Proofs.Invariant
import Bleu.Proofs.Settings

/-!
# The faults of a scorer

Many things can be refused between a hypothesis and its score, but a scorer for accepted settings meets few of them:
missing references, a corpus that does not pair up, and weights without a sum to divide by for the orders that are
reached. `SentenceFault`, `CorpusFault` and `StatisticsFault` say for each fault exactly when it comes up, and never for
all faults not listed. `faults_of_settings` proves them of every call.
-/
namespace Bleu
open Outcomes

/-! ## Statistics -/

section
variable [Elementary]

/-- With a method of smoothing, regular statistics are refused only for their weights, and only if they have orders. -/
theorem Statistics.Regular.score_eq_error_iff {t : Statistics} (regular : t.Regular) (w : Weights)
    (method : Smoothing) (fault : Fault) :
    t.score (some w) method.smoother = .error fault ↔
      0 < t.totals.length ∧ fault = .unresolvableWeights t.totals.length ∧
        Weights.sum (w.values.take t.totals.length) ≤ 0 := by
  have orders : t.precisions.length = t.totals.length := by rw [← regular.quotients_eq.2.2, List.length_map]
  rw [score, regular.quotients_eq.1, ok_bind, ← orders]
  obtain ⟨scored, refused⟩ := aggregate_method method t.precisions t.hypothesisLength t.referenceLength (some w)
  by_cases empty : t.precisions = []
  · obtain ⟨score, same⟩ := scored (.inl empty)
    rw [same]
    simp [empty]
  · have nonempty : 0 < t.precisions.length := List.length_pos_iff.mpr empty
    by_cases nonpos : Weights.sum (w.values.take t.precisions.length) ≤ 0
    · rw [refused _ empty (Weights.restrict_of_sum_nonpos nonpos)]
      simp [nonempty, nonpos, eq_comm]
    · obtain ⟨score, same⟩ := scored (.inr (Weights.exists_restrict nonpos))
      simp [same, nonpos]

end

/-! ## Calls -/

namespace Scorer

/-- The weights of the first orders have no sum to divide by. -/
def LacksWeight (s : Scorer) (orders : Nat) : Prop := Weights.sum (s.weights.values.take orders) ≤ 0

/-- When a hypothesis with a number of tokens is refused. -/
def SentenceFault {β : Type} (s : Scorer) (references : List β) (tokens : Nat) : Fault → Prop
  | .emptyReferences => references = []
  | .unresolvableWeights orders =>
    references ≠ [] ∧ 0 < tokens ∧ orders = min s.weights.maxOrder tokens ∧ s.LacksWeight orders
  | _ => False

/-- When a corpus is refused. -/
def CorpusFault (s : Scorer) (referenceSets : List (List String)) (hypotheses : List String) : Fault → Prop
  | .lengthMismatch found given =>
    referenceSets.length ≠ hypotheses.length ∧ found = hypotheses.length ∧ given = referenceSets.length
  | .emptyReferences => referenceSets.length = hypotheses.length ∧ [] ∈ referenceSets
  | .unresolvableWeights orders =>
    referenceSets.length = hypotheses.length ∧ [] ∉ referenceSets ∧ (∃ h ∈ hypotheses, s.tokenize h ≠ []) ∧
      orders = min s.weights.maxOrder (longest (hypotheses.map s.tokenize)) ∧ s.LacksWeight orders
  | _ => False

/-- When statistics are refused. -/
def StatisticsFault (s : Scorer) (t : Statistics) : Fault → Prop
  | .unresolvableWeights orders => 0 < t.hypothesisLength ∧ orders = t.totals.length ∧ s.LacksWeight orders
  | _ => False

/-- The statistics that a scorer's own counts come to. -/
inductive Accumulates (s : Scorer) : Statistics → Prop
  | identity : s.Accumulates .identity
  | pair {references : List String} {hypothesis : String} {t : Statistics}
      (counted : s.pairStatistics references hypothesis = .ok t) : s.Accumulates t
  | combine {a b : Statistics} (first : s.Accumulates a) (second : s.Accumulates b) : s.Accumulates (a.combine b)

theorem Accumulates.reachable {s : Scorer} {t : Statistics} (accumulates : s.Accumulates t) : t.Reachable := by
  induction accumulates with
  | identity => exact .identity
  | pair counted =>
    have given := s.references_ne_nil counted
    exact .ofPair (by simpa using given) s.maxOrder_pos counted
  | combine _ _ first second => exact .combine first second

theorem pairStatistics_eq_error_iff (s : Scorer) (references : List String) (hypothesis : String) (fault : Fault) :
    s.pairStatistics references hypothesis = .error fault ↔ references = [] ∧ fault = .emptyReferences := by
  by_cases empty : references = []
  · subst empty
    rw [pairStatistics, List.map_nil, Statistics.ofPair_nil]
    simp [eq_comm]
  · have nonempty : references.map s.tokenize ≠ [] := by simpa using empty
    obtain ⟨t, counted, _⟩ := Statistics.ofPair_eq s.maxOrder_pos nonempty (s.tokenize hypothesis)
    rw [pairStatistics, counted]
    simp [empty]

/-- The statistics of pairs of texts are regular and have the orders that the longest hypothesis reaches. -/
theorem of_sumPairs (s : Scorer) {pairs : List (List String × String)} {t : Statistics}
    (summed : s.sumPairs pairs = .ok t) :
    t.Regular ∧ t.totals.length = min s.weights.maxOrder (longest ((pairs.map Prod.snd).map s.tokenize)) := by
  rw [sumPairs_eq_ofPairs] at summed
  have orders := Statistics.length_totals_ofPairs s.maxOrder_pos summed
  rw [List.map_map] at orders ⊢
  exact ⟨(Statistics.reachable_of_ofPairs s.maxOrder_pos summed).regular, orders⟩

theorem hypothesisLength_pos_iff (s : Scorer) {pairs : List (List String × String)} {t : Statistics}
    (summed : s.sumPairs pairs = .ok t) :
    0 < t.hypothesisLength ↔ ∃ h ∈ pairs.map Prod.snd, s.tokenize h ≠ [] := by
  obtain ⟨regular, orders⟩ := s.of_sumPairs summed
  have empty := regular.length_totals_eq_zero
  have positive := s.maxOrder_pos
  have pos_iff (texts : List String) : 0 < longest (texts.map s.tokenize) ↔ ∃ h ∈ texts, s.tokenize h ≠ [] := by
    simpa using longest_pos_iff (texts.map s.tokenize)
  rw [← pos_iff]
  omega

theorem sumPairs_missing (s : Scorer) {pairs : List (List String × String)} (missing : [] ∈ pairs.map Prod.fst) :
    s.sumPairs pairs = .error .emptyReferences := by
  obtain ⟨pair, member, empty⟩ := List.mem_map.mp missing
  rw [sumPairs_eq_ofPairs, Statistics.ofPairs_eq_error s.maxOrder_pos]
  exact ⟨rfl, s.tokenizePair pair, List.mem_map_of_mem member, by simp [tokenizePair, empty]⟩

section
variable [Elementary] (s : Scorer)

theorem scoreStatistics_eq_error_iff {t : Statistics} (regular : t.Regular) (fault : Fault) :
    s.scoreStatistics t = .error fault ↔ s.StatisticsFault t fault := by
  have counted : 0 < t.totals.length ↔ 0 < t.hypothesisLength := by
    have empty := regular.length_totals_eq_zero
    omega
  rw [scoreStatistics, smoother, regular.score_eq_error_iff, counted]
  cases fault with
  | unresolvableWeights orders =>
    simp only [StatisticsFault, LacksWeight, Fault.unresolvableWeights.injEq]
    constructor
    · rintro ⟨reached, rfl, nonpos⟩
      exact ⟨reached, rfl, nonpos⟩
    · rintro ⟨reached, rfl, nonpos⟩
      exact ⟨reached, rfl, nonpos⟩
  | _ => simp [StatisticsFault]

theorem scoreTokens_eq_error_iff {α : Type} [DecidableEq α] (references : List (List α)) (hypothesis : List α)
    (fault : Fault) :
    s.scoreTokens references hypothesis = .error fault ↔ s.SentenceFault references hypothesis.length fault := by
  rw [scoreTokens, Score.ofSentence_eq]
  by_cases empty : references = []
  · subst empty
    rw [Statistics.ofPair_nil, error_bind]
    cases fault with
    | emptyReferences => simp [SentenceFault]
    | _ => simp [SentenceFault]
  · obtain ⟨t, counted, _, _, length⟩ := Statistics.ofPair_eq s.maxOrder_pos empty hypothesis
    have regular := Statistics.regular_ofPair s.maxOrder_pos empty counted
    have orders := Statistics.length_totals_ofPair s.maxOrder_pos counted
    have scored := s.scoreStatistics_eq_error_iff regular fault
    rw [scoreStatistics] at scored
    have order : scoredOrder (some s.weights) = s.weights.maxOrder := rfl
    rw [order, counted, ok_bind, scored]
    cases fault with
    | emptyReferences => simp [SentenceFault, StatisticsFault, empty]
    | unresolvableWeights n => simp [SentenceFault, StatisticsFault, empty, length, orders]
    | _ => simp [SentenceFault, StatisticsFault]

theorem scoreText_eq_error_iff (references : List String) (hypothesis : String) (fault : Fault) :
    s.scoreText references hypothesis = .error fault ↔
      s.SentenceFault references (s.tokenize hypothesis).length fault := by
  rw [scoreText, scoreTokens_eq_error_iff]
  cases fault with
  | emptyReferences => simp [SentenceFault]
  | unresolvableWeights n => simp [SentenceFault]
  | _ => simp [SentenceFault]

theorem scoreCorpus_eq_error_iff (referenceSets : List (List String)) (hypotheses : List String) (fault : Fault) :
    s.scoreCorpus referenceSets hypotheses = .error fault ↔ s.CorpusFault referenceSets hypotheses fault := by
  by_cases aligned : referenceSets.length = hypotheses.length
  · rw [s.scoreCorpus_eq aligned]
    by_cases missing : [] ∈ referenceSets
    · have refused := s.sumPairs_missing ((List.map_fst_zip aligned.le).symm ▸ missing)
      rw [refused, error_bind]
      cases fault with
      | emptyReferences => simp [CorpusFault, aligned, missing]
      | unresolvableWeights n => simp [CorpusFault, missing]
      | lengthMismatch found given => simp [CorpusFault, aligned]
      | _ => simp [CorpusFault]
    · have given : ∀ pair ∈ referenceSets.zip hypotheses, pair.1 ≠ [] := by
        intro pair member empty
        exact missing (empty ▸ (List.of_mem_zip member).1)
      obtain ⟨t, summed⟩ := s.exists_sumPairs given
      obtain ⟨regular, orders⟩ := s.of_sumPairs summed
      have counted := s.hypothesisLength_pos_iff summed
      rw [List.map_snd_zip aligned.ge] at orders counted
      rw [summed, ok_bind, s.scoreStatistics_eq_error_iff regular]
      cases fault with
      | emptyReferences => simp [StatisticsFault, CorpusFault, missing]
      | unresolvableWeights n => simp only [StatisticsFault, CorpusFault, aligned, missing, counted, orders,
          not_false_eq_true, true_and]
      | lengthMismatch found given => simp [StatisticsFault, CorpusFault, aligned]
      | _ => simp [StatisticsFault, CorpusFault]
  · rw [scoreCorpus, alignPairs_mismatch aligned, error_bind]
    cases fault with
    | lengthMismatch found given => simp [CorpusFault, aligned, eq_comm]
    | _ => simp [CorpusFault, aligned]

/-- Every call is refused just when its faults say so. A scorer does not change, so what was called before does not
matter. -/
structure Documented : Prop where
  tokens : ∀ (α : Type) [DecidableEq α] (references : List (List α)) (hypothesis : List α) (fault : Fault),
    s.scoreTokens references hypothesis = .error fault ↔ s.SentenceFault references hypothesis.length fault
  text : ∀ (references : List String) (hypothesis : String) (fault : Fault),
    s.scoreText references hypothesis = .error fault ↔ s.SentenceFault references (s.tokenize hypothesis).length fault
  corpus : ∀ (referenceSets : List (List String)) (hypotheses : List String) (fault : Fault),
    s.scoreCorpus referenceSets hypotheses = .error fault ↔ s.CorpusFault referenceSets hypotheses fault
  pairs : ∀ (references : List String) (hypothesis : String) (fault : Fault),
    s.pairStatistics references hypothesis = .error fault ↔ references = [] ∧ fault = .emptyReferences
  statistics : ∀ (t : Statistics) (fault : Fault), s.Accumulates t →
    (s.scoreStatistics t = .error fault ↔ s.StatisticsFault t fault)

theorem documented : s.Documented where
  tokens _ _ references hypothesis fault := s.scoreTokens_eq_error_iff references hypothesis fault
  text references hypothesis fault := s.scoreText_eq_error_iff references hypothesis fault
  corpus referenceSets hypotheses fault := s.scoreCorpus_eq_error_iff referenceSets hypotheses fault
  pairs references hypothesis fault := s.pairStatistics_eq_error_iff references hypothesis fault
  statistics _ fault accumulates := s.scoreStatistics_eq_error_iff accumulates.reachable.regular fault

/-- There is a scorer for accepted settings just when there is room for its weights. Its calls are refused only for
missing references, for lists that do not pair up, and for weights that sum to zero over the orders of at least one
token, also with another tokenizer. Without room making the scorer breaks down. -/
theorem faults_of_settings {settings : Settings} (accepted : settings.validate = .ok ()) :
    (settings.HasRoom → ∃ s : Scorer, ofSettings settings = .ok s ∧ s.Documented ∧
      ∀ tokenizer : Tokenizer, (s.withTokenizer tokenizer).Documented) ∧
    (¬ settings.HasRoom → ofSettings settings = .error (.noRoomForWeights settings.maxOrder)) := by
  refine ⟨fun room => ?_, ofSettings_of_not_hasRoom accepted⟩
  obtain ⟨s, built⟩ := exists_ofSettings accepted room
  exact ⟨s, built, s.documented, fun tokenizer => (s.withTokenizer tokenizer).documented⟩

end

/-- With a weight for order two only, one token is refused, but a corpus in which another line has two tokens is not. The
greatest number of orders is accepted without weights, but there is no room for them. -/
theorem faults_of_second_order :
    (Settings.validate { maxOrder := 2 ^ 64 - 1 } = .ok () ∧
      ofSettings { maxOrder := 2 ^ 64 - 1 } = .error (.noRoomForWeights (2 ^ 64 - 1))) ∧
    Settings.validate { maxOrder := 2, tokenization := .whitespace, weights := some ⟨[0, 1], by simp⟩ } = .ok () ∧
      ∃ s : Scorer, s.weights.values = [0, 1] ∧ s.scoreText ["a"] "a" = .error (.unresolvableWeights 1) ∧
        s.scoreText [] "a" = .error .emptyReferences ∧
        s.scoreCorpus [["a"], []] ["a"] = .error (.lengthMismatch 1 2) ∧
        ∀ fault, s.scoreCorpus [["a"], ["b"]] ["a", "b c"] ≠ .error fault := by
  have accepted :
      Settings.validate { maxOrder := 2, tokenization := .whitespace, weights := some ⟨[0, 1], by simp⟩ } = .ok () := rfl
  obtain ⟨s, built, documented, _⟩ := (faults_of_settings accepted).1 nofun
  have given : s.weights.values = [0, 1] := by
    cases built
    rfl
  have one : (s.tokenize "a").length = 1 ∧ s.weights.maxOrder = 2 := by
    cases built
    decide +kernel
  have reached : longest (["a", "b c"].map s.tokenize) = 2 := by
    cases built
    decide +kernel
  have weighs : ¬ s.LacksWeight 2 := by
    rw [LacksWeight, given]
    decide +kernel
  have greatest : Settings.validate { maxOrder := 2 ^ 64 - 1 } = .ok () := rfl
  have full : ¬ Settings.HasRoom { maxOrder := 2 ^ 64 - 1 } := by decide +kernel
  refine ⟨⟨greatest, (faults_of_settings greatest).2 full⟩, accepted, s, given,
    (documented.text _ _ _).mpr ⟨by simp, ?_, ?_, ?_⟩, (documented.text _ _ _).mpr rfl,
    (documented.corpus _ _ _).mpr ⟨by decide, rfl, rfl⟩, fun fault refused => ?_⟩
  · rw [one.1]
    exact Nat.one_pos
  · rw [one.1, one.2]
    rfl
  · rw [LacksWeight, given]
    decide +kernel
  · rw [documented.corpus] at refused
    cases fault with
    | unresolvableWeights n =>
      obtain ⟨_, _, _, rfl, nonpos⟩ := refused
      rw [reached, one.2] at nonpos
      exact weighs nonpos
    | emptyReferences => exact absurd refused.2 (by simp)
    | lengthMismatch found given => exact refused.1 rfl
    | _ => exact refused

end Scorer

end Bleu
