import Bleu.Proofs.Spacing

/-!
# Tokens and words

The simple tokenizer cuts the words of the normalized text and loses nothing of them, and every symbol in them is a token
(`simpleTokens_refines`).
-/
namespace Bleu.Tokenizer
open Text

theorem words_padded (text : List Char) : words (' ' :: text ++ [' ']) = words text := by
  rw [words_append_blank isBlank_space, words_cons_blank isBlank_space]
  exact List.append_nil _

theorem widened_spaced (text : List Char) : Widened (' ' :: text ++ [' ']) (spaced text) := by
  rw [spaced_eq]
  exact (widened_spaceSymbols _).trans (widened_splitOff _)

theorem flatten_simpleTokens (text : List Char) : (simpleTokens text).flatten = unblanked (normalize text) := by
  rw [simpleTokens, flatten_words, (widened_spaced _).unblanked_eq]
  simp

theorem exists_symbolRange {c : Char} (symbol : isSymbol c = true) :
    ∃ range ∈ symbolRanges, range.1.toNat ≤ c.toNat ∧ c.toNat ≤ range.2.toNat := by
  obtain ⟨range, listed, within⟩ := List.any_eq_true.mp symbol
  rw [Bool.and_eq_true, decide_eq_true_eq, decide_eq_true_eq] at within
  exact ⟨range, listed, UInt32.le_iff_toNat_le.mp within.1, UInt32.le_iff_toNat_le.mp within.2⟩

/-- Of the blanks, only the space is a symbol. -/
theorem isBlank_of_isSymbol {c : Char} (symbol : isSymbol c = true) (other : c ≠ ' ') : isBlank c = false := by
  have beyond : c.toNat ≠ 0x20 := fun same => other (Char.toNat_inj.mp same)
  have bounds : 0x20 ≤ c.toNat ∧ c.toNat ≤ 0x7E := by
    have ranges : ∀ range ∈ symbolRanges, 0x20 ≤ range.1.toNat ∧ range.2.toNat ≤ 0x7E := by decide
    obtain ⟨range, listed, above, below⟩ := exists_symbolRange symbol
    have outer := ranges range listed
    omega
  simp only [isBlank, blankRanges, List.any_cons, List.any_nil, Bool.or_false, Bool.or_eq_false_iff,
    Bool.and_eq_false_iff, decide_eq_false_iff_not]
  omega

theorem spaceSymbols_symbol {c : Char} (symbol : isSymbol c = true) (before after : List Char) :
    spaceSymbols (' ' :: (before ++ c :: after) ++ [' ']) =
      spaceSymbols (' ' :: before) ++ [' ', c, ' '] ++ spaceSymbols (after ++ [' ']) := by
  have one : spaceSymbols [c] = [' ', c, ' '] := by simp [spaceSymbols, symbol]
  have parts : ' ' :: (before ++ c :: after) ++ [' '] = (' ' :: before) ++ [c] ++ (after ++ [' ']) := by simp
  rw [parts, spaceSymbols_append, spaceSymbols_append, one]

/-- A symbol that is not a space is a token wherever it stands. -/
theorem isPiece_symbol {text before after : List Char} {c : Char} (place : normalize text = before ++ c :: after)
    (symbol : isSymbol c = true) (other : c ≠ ' ') : IsPiece (simpleTokens text) before [c] after := by
  rw [simpleTokens, spaced_eq, place, spaceSymbols_symbol symbol]
  exact (isPiece_of_spaces (isBlank_of_isSymbol symbol other) (widened_splitOff _)).congr (by simp) (by simp)

/-- The tokens are got by cutting the words of the normalized text, of which nothing is lost. They are not empty and have
no blanks. Every symbol but the space is a token wherever it stands. -/
theorem simpleTokens_refines (text : List Char) :
    Refines (simpleTokens text) (words (normalize text)) ∧
    (simpleTokens text).flatten = unblanked (normalize text) ∧
    (∀ token ∈ simpleTokens text, token ≠ [] ∧ Unbroken token) ∧
    ∀ before c after, normalize text = before ++ c :: after → isSymbol c = true → c ≠ ' ' →
      IsPiece (simpleTokens text) before [c] after := by
  refine ⟨?_, flatten_simpleTokens text, fun token listed => mem_words listed, fun before c after place => ?_⟩
  · rw [← words_padded]
    exact (widened_spaced _).refines
  · exact isPiece_symbol place

/-- A tab parts the words, and the dash after the digit is cut off although it is no symbol. -/
theorem simpleTokens_refines_two_words :
    normalize "f(x\t2-y)".toList = ['f'] ++ '(' :: "x\t2-y)".toList ∧ isSymbol '(' = true ∧
      words (normalize "f(x\t2-y)".toList) = [['f', '(', 'x'], ['2', '-', 'y', ')']] ∧
      simpleTokens "f(x\t2-y)".toList = [['f'], ['('], ['x'], ['2'], ['-'], ['y'], [')']] ∧
      Refines (simpleTokens "f(x\t2-y)".toList) (words (normalize "f(x\t2-y)".toList)) ∧
      IsPiece (simpleTokens "f(x\t2-y)".toList) ['f'] ['('] "x\t2-y)".toList := by
  have place : normalize "f(x\t2-y)".toList = ['f'] ++ '(' :: "x\t2-y)".toList := by decide
  obtain ⟨cut, _, _, symbols⟩ := simpleTokens_refines "f(x\t2-y)".toList
  exact ⟨place, by decide, by decide, by decide, cut, symbols _ '(' _ place (by decide) (by decide)⟩

end Bleu.Tokenizer
