import Bleu.Tokenizer
import Bleu.Proofs.Spacing

/-!
# Texts side by side

Nothing that the simple tokenizer looks for reaches over a space. The patterns of the normalization have none
(`replaceAll_append`), and no rule finds two of them (`SpacingRule.apply_append_spaces`), of which there are three around
every space once symbols are set apart. So the tokens of texts with a space between them are those of the texts, one
after the other (`tokenize_join`).
-/
namespace Bleu.Text

/-! ## Replacing on both sides of a character -/

theorem isPrefix_append_cons_iff {pattern : List Char} {c : Char} (absent : c ∉ pattern) (x y : List Char) :
    pattern <+: x ++ c :: y ↔ pattern <+: x := by
  constructor
  · intro found
    rcases Nat.lt_or_ge x.length pattern.length with long | short
    · -- A find beyond `x` would hold the character.
      have reached : x ++ [c] <+: x ++ c :: y := ⟨y, by simp⟩
      have fits : (x ++ [c]).length ≤ pattern.length := by simpa [Nat.succ_le_iff] using long
      have held : x ++ [c] <+: pattern := List.prefix_of_prefix_length_le reached found fits
      exact absurd (held.mem (by simp)) absent
    · exact List.prefix_of_prefix_length_le found (List.prefix_append x _) short
  · intro found
    exact found.trans (List.prefix_append x _)

theorem replaceFrom_append {pattern : List Char} (nonempty : pattern ≠ []) {c : Char} (absent : c ∉ pattern)
    (replacement : List Char) {skip : Nat} {x : List Char} (within : skip ≤ x.length) (y : List Char) :
    replaceFrom pattern replacement skip (x ++ c :: y) =
      replaceFrom pattern replacement skip x ++ c :: replaceFrom pattern replacement 0 y := by
  induction x generalizing skip with
  | nil =>
    have apart : ¬ pattern.isPrefixOf (c :: y) = true := by
      rw [List.isPrefixOf_iff_prefix]
      intro found
      exact nonempty (List.prefix_nil.mp ((isPrefix_append_cons_iff absent [] y).mp found))
    obtain rfl : skip = 0 := Nat.le_zero.mp within
    simp only [List.nil_append, replaceFrom, if_neg apart]
  | cons d rest ih =>
    cases skip with
    | succ skip => exact ih (Nat.le_of_succ_le_succ within)
    | zero =>
      have same : pattern.isPrefixOf (d :: (rest ++ c :: y)) = pattern.isPrefixOf (d :: rest) := by
        rw [Bool.eq_iff_iff, List.isPrefixOf_iff_prefix, List.isPrefixOf_iff_prefix]
        exact isPrefix_append_cons_iff absent (d :: rest) y
      rw [List.cons_append, replaceFrom, replaceFrom, same]
      split_ifs with found
      · have fits : pattern.length ≤ rest.length + 1 := (List.isPrefixOf_iff_prefix.mp found).length_le
        rw [ih (by omega), List.append_assoc]
      · rw [ih (Nat.zero_le _), List.cons_append]

/-- What a pattern does not hold parts the text for it. -/
theorem replaceAll_append {pattern : List Char} (nonempty : pattern ≠ []) {c : Char} (absent : c ∉ pattern)
    (replacement x y : List Char) :
    replaceAll pattern replacement (x ++ c :: y) =
      replaceAll pattern replacement x ++ c :: replaceAll pattern replacement y :=
  replaceFrom_append nonempty absent replacement (Nat.zero_le _) y

end Bleu.Text

namespace Bleu.Tokenizer
open Text

/-! ## Normalizing on both sides of a space -/

theorem foldl_replaceAll_append {table : List (String × Char)}
    (unspaced : ∀ entry ∈ table, entry.1.toList ≠ [] ∧ ' ' ∉ entry.1.toList) (x y : List Char) :
    table.foldl (fun text (entity, c) => replaceAll entity.toList [c] text) (x ++ ' ' :: y) =
      table.foldl (fun text (entity, c) => replaceAll entity.toList [c] text) x ++
        ' ' :: table.foldl (fun text (entity, c) => replaceAll entity.toList [c] text) y := by
  induction table generalizing x y with
  | nil => rfl
  | cons entry rest ih =>
    obtain ⟨⟨nonempty, absent⟩, later⟩ := List.forall_mem_cons.mp unspaced
    simp only [List.foldl_cons]
    rw [replaceAll_append nonempty absent, ih later]

theorem normalize_append (x y : List Char) : normalize (x ++ ' ' :: y) = normalize x ++ ' ' :: normalize y := by
  have unspaced : ∀ entry ∈ entities, entry.1.toList ≠ [] ∧ ' ' ∉ entry.1.toList := by decide
  have marker : "<skipped>".toList ≠ [] ∧ ' ' ∉ "<skipped>".toList := by decide
  simp only [normalize]
  rw [replaceAll_append marker.1 marker.2, replaceAll_append (by simp) (by decide),
    replaceAll_append (by simp) (by decide), foldl_replaceAll_append unspaced]

/-! ## Splitting between two spaces -/

/-- A text that ends and one that begins with a space, so that there are two of them between the texts. -/
structure SpacesBetween (x y : List Char) : Prop where
  last : ∃ before, x = before ++ [' ']
  first : ∃ after, y = ' ' :: after

/-- Spaces that are put in behind a space leave one at the end. -/
theorem exists_append_space {spaces : List Char} (only : Widened [] spaces) : ∃ rest, ' ' :: spaces = rest ++ [' '] := by
  generalize empty : ([] : List Char) = none at only
  induction only with
  | nil => exact ⟨[], rfl⟩
  | keep c _ => cases empty
  | space _ ih =>
    obtain ⟨rest, same⟩ := ih empty
    exact ⟨' ' :: rest, by rw [same, List.cons_append]⟩

theorem SpacesBetween.widened {x y x' y' : List Char} (between : SpacesBetween x y) (left : Widened x x')
    (right : Widened y y') : SpacesBetween x' y' where
  last := by
    obtain ⟨before, rfl⟩ := between.last
    obtain ⟨before', spaces, rfl, _, only⟩ := left.of_append_cons
    obtain ⟨rest, same⟩ := exists_append_space only
    exact ⟨before' ++ rest, by rw [same, List.append_assoc]⟩
  first := by
    obtain ⟨after, rfl⟩ := between.first
    cases right with
    | keep _ _ => exact ⟨_, rfl⟩
    | space _ => exact ⟨_, rfl⟩

/-- A rule that does not fit two spaces does not reach over them. -/
theorem SpacingRule.apply_append_spaces (rule : SpacingRule) (apart : rule.fits ' ' ' ' = false) {x y : List Char}
    (between : SpacesBetween x y) : rule.apply (x ++ y) = rule.apply x ++ rule.apply y := by
  obtain ⟨before, rfl⟩ := between.last
  obtain ⟨after, rfl⟩ := between.first
  refine rule.apply_append ?_ after
  simp [endsFind, apart]

theorem splitOff_append {x y : List Char} (between : SpacesBetween x y) :
    splitOff (x ++ y) = splitOff x ++ splitOff y := by
  have second := between.widened (afterNonDigit.widened_apply x) (afterNonDigit.widened_apply y)
  have third := second.widened (beforeNonDigit.widened_apply _) (beforeNonDigit.widened_apply _)
  simp only [splitOff]
  rw [afterNonDigit.apply_append_spaces (by decide) between, beforeNonDigit.apply_append_spaces (by decide) second,
    dashes.apply_append_spaces (by decide) third]

theorem words_splitOff_append {x y : List Char} (between : SpacesBetween x y) :
    words (splitOff (x ++ y)) = words (splitOff x) ++ words (splitOff y) := by
  have border : BlankFirst (splitOff y) := by
    obtain ⟨after, same⟩ := (between.widened (.refl x) (widened_splitOff y)).first
    simp [same, BlankFirst, isBlank_space]
  rw [splitOff_append between, words_append_of_first _ border]

/-! ## Tokens on both sides of a space -/

theorem simpleTokens_append (x y : List Char) : simpleTokens (x ++ ' ' :: y) = simpleTokens x ++ simpleTokens y := by
  simp only [simpleTokens, normalize_append, spaced_eq]
  generalize normalize x = x
  generalize normalize y = y
  -- Every space becomes three. The cut is behind the first one, so that there are two on either side of it.
  have tripled : spaceSymbols [' '] = [' '] ++ [' ', ' '] := by decide
  generalize start : spaceSymbols (' ' :: x) = before
  generalize finish : spaceSymbols (y ++ [' ']) = after
  have joined : spaceSymbols (' ' :: (x ++ ' ' :: y) ++ [' ']) = (before ++ [' ']) ++ (' ' :: ' ' :: after) := by
    have parts : ' ' :: (x ++ ' ' :: y) ++ [' '] = (' ' :: x) ++ [' '] ++ (y ++ [' ']) := by simp
    rw [parts, spaceSymbols_append, spaceSymbols_append, start, finish, tripled]
    simp
  have ended : spaceSymbols (' ' :: x ++ [' ']) = (before ++ [' ']) ++ [' ', ' '] := by
    rw [spaceSymbols_append, start, tripled, List.append_assoc]
  have begun : spaceSymbols (' ' :: y ++ [' ']) = [' '] ++ (' ' :: ' ' :: after) := by
    rw [← finish]
    rfl
  have left : words (splitOff ((before ++ [' ']) ++ [' ', ' '])) = words (splitOff (before ++ [' '])) := by
    rw [words_splitOff_append ⟨⟨_, rfl⟩, ⟨_, rfl⟩⟩]
    exact List.append_nil _
  have right : words (splitOff ([' '] ++ (' ' :: ' ' :: after))) = words (splitOff (' ' :: ' ' :: after)) :=
    words_splitOff_append ⟨⟨[], rfl⟩, ⟨_, rfl⟩⟩
  rw [joined, ended, begun, left, right, words_splitOff_append ⟨⟨_, rfl⟩, ⟨_, rfl⟩⟩]

end Bleu.Tokenizer

namespace Bleu.Tokenization
open Tokenizer

theorem tokenize_append (first second : String) :
    simple.tokenizer.tokenize (first ++ " " ++ second) =
      simple.tokenizer.tokenize first ++ simple.tokenizer.tokenize second := by
  have parts : (first ++ " " ++ second).toList = first.toList ++ ' ' :: second.toList := by simp
  simp only [tokenizer, split, parts, simpleTokens_append, List.map_append]

/-- The tokens of texts with a space between them are those of the texts, one after the other. -/
theorem tokenize_join :
    (∀ first second : String, simple.tokenizer.tokenize (first ++ " " ++ second) =
      simple.tokenizer.tokenize first ++ simple.tokenizer.tokenize second) ∧
    ∀ texts : List String, simple.tokenizer.tokenize (" ".intercalate texts) =
      texts.flatMap simple.tokenizer.tokenize := by
  refine ⟨tokenize_append, fun texts => ?_⟩
  induction texts with
  | nil => decide
  | cons text rest ih =>
    cases rest with
    | nil => simp
    | cons next others => rw [String.intercalate_cons_cons, tokenize_append, ih, ← List.flatMap_cons]

end Bleu.Tokenization
