import Bleu.Command.Line
import Bleu.Proofs.Arguments

/-!
# Accepted command lines

An accepted command line is read into a command. If the command scores, then each of its options is what some word stands
for (`readable_of_arguments`): whatever the arguments are and in which order they come, no option has a value that its
reader would not give. Every option of the two scoring commands keeps this, and the file of preferences from the
environment is read like one from an argument.
-/
namespace Bleu.Command
open Outcomes

/-- An option, if it is given, is what some word stands for. -/
def ReadBy {α : Type} (read : String → Except Refusal α) (given : Option α) : Prop :=
  ∀ a ∈ given, ∃ word, read word = .ok a

theorem ReadBy.none {α : Type} {read : String → Except Refusal α} : ReadBy read none := nofun

theorem ReadBy.some {α : Type} {read : String → Except Refusal α} {word : String} {a : α} (known : read word = .ok a) :
    ReadBy read (some a) := by
  rintro _ ⟨⟩
  exact ⟨word, known⟩

/-- Every option is what some word stands for. -/
structure ScoringOptions.Readable (o : ScoringOptions) : Prop where
  preferencesFile : ReadBy readPath o.preferencesFile
  smoothing : ReadBy (readable ∘ Smoothing.ofName) o.smoothing
  weights : ReadBy (readable ∘ Weights.ofText) o.weights
  maxOrder : ReadBy readCount o.maxOrder
  tokenization : ReadBy (readable ∘ Tokenization.ofName) o.tokenization
  format : ReadBy readFormat o.format
  output : ReadBy readPath o.output

theorem ScoringOptions.readable_none : Readable {} := ⟨.none, .none, .none, .none, .none, .none, .none⟩

section
variable {σ : Type} {options : σ → ScoringOptions} {lift : (ScoringOptions → ScoringOptions) → σ → σ}

theorem value_keeps_readable {α : Type} {read : String → Except Refusal α} {set : α → ScoringOptions → ScoringOptions}
    (lifted : ∀ change form, options (lift change form) = change (options form))
    (keeps : ∀ word a o, read word = .ok a → o.Readable → (set a o).Readable) :
    Role.Keeps (fun form => (options form).Readable)
      (.value fun word form => do return lift (set (← read word)) form) := by
  intro word form form' changed start
  obtain ⟨a, known, ⟨⟩⟩ := bind_eq_ok.mp changed
  rw [lifted]
  exact keeps word a _ known start

theorem scoringSwitches_keep_readable (lifted : ∀ change form, options (lift change form) = change (options form)) :
    ∀ s ∈ scoringSwitches lift, s.role.Keeps fun form => (options form).Readable := by
  simp only [scoringSwitches, List.forall_mem_cons]
  refine ⟨value_keeps_readable lifted ?_, value_keeps_readable lifted ?_, value_keeps_readable lifted ?_,
    value_keeps_readable lifted ?_, value_keeps_readable lifted ?_, value_keeps_readable lifted ?_,
    value_keeps_readable lifted ?_, fun form start => start, fun form start => start, trivial, nofun⟩
  all_goals intro word a o known start
  · exact { start with preferencesFile := .some known }
  · exact { start with smoothing := .some known }
  · exact { start with weights := .some known }
  · exact { start with maxOrder := .some known }
  · exact { start with tokenization := .some known }
  · exact { start with format := .some known }
  · exact { start with output := .some known }

end

theorem scoreSwitches_keep_readable : ∀ s ∈ scoreSwitches, s.role.Keeps fun form => form.options.Readable := by
  simp only [scoreSwitches, List.forall_mem_append, List.forall_mem_cons]
  refine ⟨⟨?_, ?_, ?_, nofun⟩, scoringSwitches_keep_readable fun _ _ => rfl⟩
  · rintro word form _ ⟨⟩ start
    exact start
  · rintro word form _ ⟨⟩ start
    exact start
  · intro word form form' changed start
    obtain ⟨path, _, ⟨⟩⟩ := bind_eq_ok.mp changed
    exact start

theorem corpusSwitches_keep_readable : ∀ s ∈ corpusSwitches, s.role.Keeps fun form => form.options.Readable := by
  simp only [corpusSwitches, List.forall_mem_append, List.forall_mem_cons]
  refine ⟨⟨?_, ?_, fun form start => start, ?_, nofun⟩, scoringSwitches_keep_readable fun _ _ => rfl⟩
  · intro word form form' changed start
    obtain ⟨path, _, ⟨⟩⟩ := bind_eq_ok.mp changed
    exact start
  · rintro word form _ ⟨⟩ start
    exact start
  · intro word form form' changed start
    obtain ⟨count, _, ⟨⟩⟩ := bind_eq_ok.mp changed
    exact start

theorem withEnvironment_readable {environment? : Option String} {o o' : ScoringOptions} (start : o.Readable)
    (completed : withEnvironment environment? o = .ok o') : o'.Readable := by
  unfold withEnvironment at completed
  split at completed
  · split at completed
    · rename_i known
      cases completed
      exact { start with preferencesFile := .some known }
    · cases completed
  · cases completed
    exact start

/-- The options of a command that scores. -/
def scoringOptions? : Command → Option ScoringOptions
  | score _ _ _ options | corpus _ _ _ _ options => some options
  | list _ | template _ | validate _ => none

theorem readScore_readable {environment? : Option String} {words : List String} {c : Command}
    (read : readScore environment? words = .ok c) : ∃ o, c.scoringOptions? = some o ∧ o.Readable := by
  obtain ⟨filled, filling, read⟩ := bind_eq_ok.mp read
  obtain ⟨o, completed, read⟩ := bind_eq_ok.mp read
  obtain ⟨hypothesis, _, ⟨⟩⟩ := bind_eq_ok.mp read
  have good := readArguments_keeps scoreSwitches_keep_readable ScoringOptions.readable_none filling
  exact ⟨o, rfl, withEnvironment_readable good completed⟩

theorem readCorpus_readable {environment? : Option String} {words : List String} {c : Command}
    (read : readCorpus environment? words = .ok c) : ∃ o, c.scoringOptions? = some o ∧ o.Readable := by
  obtain ⟨filled, filling, read⟩ := bind_eq_ok.mp read
  obtain ⟨o, completed, read⟩ := bind_eq_ok.mp read
  obtain ⟨hypotheses, _, read⟩ := bind_eq_ok.mp read
  have good := readArguments_keeps corpusSwitches_keep_readable ScoringOptions.readable_none filling
  by_cases missing : filled.form.references.isEmpty = true
  · simp only [missing] at read
    cases read
  · simp only [missing] at read
    cases read
    exact ⟨o, rfl, withEnvironment_readable good completed⟩

theorem readPathCommand_eq_ok {command : String → Command} {long : String} {short : Char} {words : List String}
    {c : Command} (read : readPathCommand command long short words = .ok c) : ∃ path, c = command path := by
  obtain ⟨filled, _, read⟩ := bind_eq_ok.mp read
  obtain ⟨path, _, ⟨⟩⟩ := bind_eq_ok.mp read
  exact ⟨path, rfl⟩

theorem readSubcommand_eq_ok {menu : List Menu} {hasVersion : Bool} {select : String → List String → Except Usage Command}
    {words : List String} {c : Command} (read : readSubcommand menu hasVersion select words = .ok c) :
    ∃ name rest, words = name :: rest ∧ select name rest = .ok c := by
  unfold readSubcommand at read
  split at read
  · cases read
  · cases read
  · cases read
  · rename_i word rest _ _
    by_cases help : word = "help"
    · simp [help] at read
    · by_cases known : (menu.any fun entry => entry.name == word) = true
      · simp only [help, known] at read
        exact ⟨word, rest, rfl, read⟩
      · simp [help, known] at read

theorem readList_eq_ok {name : String} {words : List String} {c : Command} (read : readList name words = .ok c) :
    ∃ catalogue, c = .list catalogue := by
  unfold readList at read
  split at read
  case h_4 => cases read
  all_goals
    obtain ⟨_, _, ⟨⟩⟩ := bind_eq_ok.mp read
    exact ⟨_, rfl⟩

/-- Every option of an accepted command line is what some word stands for. -/
theorem readable_of_arguments {environment? : Option String} {words : List String} {c : Command} {o : ScoringOptions}
    (read : ofArguments environment? words = .ok c) (scores : c.scoringOptions? = some o) : o.Readable := by
  obtain ⟨name, rest, rfl, chosen⟩ := readSubcommand_eq_ok read
  unfold readNamed at chosen
  split at chosen
  · obtain ⟨o', same, good⟩ := readScore_readable chosen
    cases same.symm.trans scores
    exact good
  · obtain ⟨o', same, good⟩ := readCorpus_readable chosen
    cases same.symm.trans scores
    exact good
  · obtain ⟨_, _, rfl, listed⟩ := readSubcommand_eq_ok chosen
    obtain ⟨_, rfl⟩ := readList_eq_ok listed
    cases scores
  · obtain ⟨_, rfl⟩ := readPathCommand_eq_ok chosen
    cases scores
  · obtain ⟨_, rfl⟩ := readPathCommand_eq_ok chosen
    cases scores
  · cases chosen

end Bleu.Command
