import Bleu.Tokenizer.Simple
import Bleu.Proofs.Words

/-!
# Spaces put into a text

The passes that split off punctuation put spaces into a text and leave it as it is otherwise (`Widened`). That cuts words
but never joins them: every word of the text is a group of words of the wider one (`Widened.refines`), and a word of one
character stays a word (`IsPiece.widened`). Symbols get their spaces one by one. The other three passes look for two
neighbours from left to right, and a character that ends one find does not begin another (`SpacingRule.apply`). So what a
pass does from a place on depends on the text before it only by whether a find ends there (`SpacingRule.apply_append`).
-/
namespace Bleu.Text

/-- The second text is the first one with spaces put in. -/
inductive Widened : List Char → List Char → Prop
  | nil : Widened [] []
  | keep (c : Char) {text wide : List Char} : Widened text wide → Widened (c :: text) (c :: wide)
  | space {text wide : List Char} : Widened text wide → Widened text (' ' :: wide)

/-- The pieces are got by cutting the words, none of which is lost. -/
def Refines (pieces words : List (List Char)) : Prop :=
  ∃ groups : List (List (List Char)), groups.flatten = pieces ∧ groups.map List.flatten = words ∧
    ∀ group ∈ groups, group ≠ []

namespace Widened
variable {text wide wider : List Char}

theorem refl (text : List Char) : Widened text text := by
  induction text with
  | nil => exact .nil
  | cons c rest ih => exact .keep c ih

theorem trans (first : Widened text wide) (second : Widened wide wider) : Widened text wider := by
  induction second generalizing text with
  | nil => exact first
  | keep c _ ih =>
    cases first with
    | keep _ first => exact .keep c (ih first)
    | space first => exact .space (ih first)
  | space _ ih => exact .space (ih first)

theorem append {text' wide' : List Char} (first : Widened text wide) (second : Widened text' wide') :
    Widened (text ++ text') (wide ++ wide') := by
  induction first with
  | nil => exact second
  | keep c _ ih => exact .keep c ih
  | space _ ih => exact .space ih

theorem unblanked_eq (widened : Widened text wide) : unblanked wide = unblanked text := by
  induction widened with
  | nil => rfl
  | keep c _ ih => simp only [unblanked, List.filter_cons] at ih ⊢; rw [ih]
  | space _ ih => rw [unblanked_cons_space, ih]

/-- A character of the text is found again in the wider one, between what the two sides became. -/
theorem of_append_cons {x y : List Char} {c : Char} (widened : Widened (x ++ c :: y) wide) :
    ∃ x' y', wide = x' ++ c :: y' ∧ Widened x x' ∧ Widened y y' := by
  generalize same : x ++ c :: y = text at widened
  induction widened generalizing x with
  | nil => simp at same
  | keep d later ih =>
    cases x with
    | nil =>
      obtain ⟨rfl, rfl⟩ := List.cons.inj same
      exact ⟨[], _, rfl, .nil, later⟩
    | cons e x =>
      obtain ⟨rfl, rest⟩ := List.cons.inj same
      obtain ⟨x', y', rfl, left, right⟩ := ih rest
      exact ⟨e :: x', y', rfl, .keep e left, right⟩
  | space _ ih =>
    obtain ⟨x', y', rfl, left, right⟩ := ih same
    exact ⟨' ' :: x', y', rfl, .space left, right⟩

/-- Spaces that are put in cut words and lose none. -/
theorem refines (widened : Widened text wide) : Refines (words wide) (words text) := by
  induction text using induction_at_blanks generalizing wide with
  | unbroken w solid =>
    have held : (words wide).flatten = w := by
      rw [flatten_words, widened.unblanked_eq, solid.unblanked_eq]
    rw [words_unbroken solid]
    split_ifs with empty
    · have wordless : words wide = [] := List.eq_nil_iff_forall_not_mem.mpr fun v listed =>
        (mem_words listed).1 (List.flatten_eq_nil_iff.mp (held.trans empty) v listed)
      exact ⟨[], by simp [wordless], rfl, by simp⟩
    · refine ⟨[words wide], by simp, by simp [held], ?_⟩
      rintro group member rfl
      rw [List.mem_singleton] at member
      exact empty (by simpa [← member] using held.symm)
  | cut x c y blank left right =>
    obtain ⟨x', y', rfl, before, after⟩ := widened.of_append_cons
    obtain ⟨first, pieces, words, nonempty⟩ := left before
    obtain ⟨second, pieces', words', nonempty'⟩ := right after
    refine ⟨first ++ second, ?_, ?_, ?_⟩
    · rw [List.flatten_append, pieces, pieces', words_append_blank blank]
    · rw [List.map_append, words, words', words_append_blank blank]
    · exact List.forall_mem_append.mpr ⟨nonempty, nonempty'⟩

end Widened

theorem eq_singleton_of_flatten {pieces : List (List Char)} {c : Char} (nonempty : ∀ piece ∈ pieces, piece ≠ [])
    (joined : pieces.flatten = [c]) : pieces = [[c]] := by
  cases pieces with
  | nil => cases joined
  | cons first others =>
    rw [List.flatten_cons, List.append_eq_singleton_iff] at joined
    rcases joined with ⟨empty, _⟩ | ⟨rfl, empties⟩
    · exact absurd empty (nonempty first List.mem_cons_self)
    · obtain rfl : others = [] := List.eq_nil_iff_forall_not_mem.mpr fun piece member =>
        nonempty piece (List.mem_cons_of_mem _ member) (List.flatten_eq_nil_iff.mp empties piece member)
      rfl

/-- A word of one character stays one. -/
theorem IsPiece.widened {text wide before after : List Char} {c : Char}
    (piece : IsPiece (words text) before [c] after) (widened : Widened text wide) :
    IsPiece (words wide) before [c] after := by
  obtain ⟨left, right, cut, place, rest⟩ := piece
  obtain ⟨groups, pieces, same, _⟩ := widened.refines
  rw [cut, List.map_eq_append_iff] at same
  obtain ⟨first, later, rfl, rfl, same⟩ := same
  rw [List.map_eq_cons_iff] at same
  obtain ⟨group, others, rfl, alone, rfl⟩ := same
  rw [List.flatten_append, List.flatten_cons] at pieces
  have listed : ∀ piece ∈ group, piece ≠ [] := by
    intro piece member
    have word : piece ∈ words wide := by simp [← pieces, member]
    exact (mem_words word).1
  rw [eq_singleton_of_flatten listed alone] at pieces
  exact ⟨first.flatten, others.flatten, pieces.symm, List.flatten_flatten.trans place, List.flatten_flatten.trans rest⟩

/-- A character between two spaces is a word, and it stays one. -/
theorem isPiece_of_spaces {x y wide : List Char} {c : Char} (solid : isBlank c = false)
    (widened : Widened (x ++ [' ', c, ' '] ++ y) wide) : IsPiece (words wide) x [c] y := by
  have parts : x ++ [' ', c, ' '] ++ y = (x ++ [' ']) ++ [c] ++ ' ' :: y := by simp
  have first : BlankLast (x ++ [' ']) := by simp [BlankLast, isBlank_space]
  have last : BlankFirst (' ' :: y) := by simp [BlankFirst, isBlank_space]
  rw [parts] at widened
  exact ((isPiece_words first (List.cons_ne_nil c []) (.cons solid .nil) last).widened widened).congr (by simp) (by simp)

end Bleu.Text

namespace Bleu.Tokenizer
open Text

/-! ## Rules for two neighbours -/

/-- Two neighbours that fit, and what they become when spaces are put around one of them. -/
structure SpacingRule where
  fits : Char → Char → Bool
  spread : Char → Char → List Char
  widened : ∀ a b, Widened [a, b] (spread a b)

namespace SpacingRule

/-- Spreads the finds of a rule from left to right. No character belongs to two of them. -/
def apply (rule : SpacingRule) : List Char → List Char
  | a :: b :: rest => if rule.fits a b then rule.spread a b ++ rule.apply rest else a :: rule.apply (b :: rest)
  | rest => rest

/-- Whether a find ends with a character, given the characters before it, the last one first. -/
def endsFind (rule : SpacingRule) : List Char → Char → Bool
  | [], _ => false
  | a :: before, b => rule.fits a b && !rule.endsFind before a

variable (rule : SpacingRule)

theorem apply_of_fits {a b : Char} (fits : rule.fits a b = true) (rest : List Char) :
    rule.apply (a :: b :: rest) = rule.spread a b ++ rule.apply rest := by rw [apply, if_pos fits]

theorem apply_of_not_fits {a b : Char} (apart : rule.fits a b = false) (rest : List Char) :
    rule.apply (a :: b :: rest) = a :: rule.apply (b :: rest) := by rw [apply, if_neg (by simp [apart])]

/-- A pass is known by what it does to the first two characters. -/
theorem apply_unique {pass : List Char → List Char} (empty : pass [] = []) (one : ∀ c, pass [c] = [c])
    (step : ∀ a b rest, pass (a :: b :: rest) =
      if rule.fits a b then rule.spread a b ++ pass rest else a :: pass (b :: rest)) : rule.apply = pass := by
  funext text
  fun_induction rule.apply text with
  | case1 a b rest fits ih => rw [step, if_pos fits, ih]
  | case2 a b rest apart ih => rw [step, if_neg apart, ih]
  | case3 rest short =>
    match rest, short with
    | [], _ => exact empty.symm
    | [c], _ => exact (one c).symm
    | a :: b :: rest, short => exact absurd rfl (short a b rest)

theorem widened_apply (text : List Char) : Widened text (rule.apply text) := by
  fun_induction rule.apply text with
  | case1 a b rest fits ih => exact (rule.widened a b).append ih
  | case2 a b rest apart ih => exact .keep a ih
  | case3 rest short => exact .refl rest

theorem apply_reverse_append : ∀ (before : List Char) {b : Char} (after : List Char),
    rule.endsFind before b = false →
      rule.apply (before.reverse ++ b :: after) = rule.apply before.reverse ++ rule.apply (b :: after)
  | [], _, _, _ => rfl
  | a :: before, b, after, apart => by
    cases ended : rule.endsFind before a with
    | false =>
      have unfit : rule.fits a b = false := by simpa [endsFind, ended] using apart
      have alone := apply_reverse_append before [] ended
      rw [List.reverse_cons, alone, List.append_assoc, List.singleton_append, apply_reverse_append before _ ended,
        rule.apply_of_not_fits unfit, List.append_assoc]
      rfl
    | true =>
      -- The find that ends with `a` begins one character earlier, and there no other one ends.
      cases before with
      | nil => cases ended
      | cons z rest =>
        obtain ⟨fits, free⟩ : rule.fits z a = true ∧ rule.endsFind rest z = false := by
          simpa [endsFind] using ended
        have alone := apply_reverse_append rest [a] free
        rw [rule.apply_of_fits fits] at alone
        simp only [List.reverse_cons, List.append_assoc, List.cons_append, List.nil_append]
        rw [alone, apply_reverse_append rest _ free, rule.apply_of_fits fits, List.append_assoc, List.append_assoc]
        rfl

@[simp] theorem unblanked_apply (text : List Char) : unblanked (rule.apply text) = unblanked text :=
  (rule.widened_apply text).unblanked_eq

/-- Where no find ends, the scan goes on as if the text began there. -/
theorem apply_append {x : List Char} {b : Char} (apart : rule.endsFind x.reverse b = false) (after : List Char) :
    rule.apply (x ++ b :: after) = rule.apply x ++ rule.apply (b :: after) := by
  simpa using rule.apply_reverse_append x.reverse after apart

/-- Where a find ends, it has been spread, and the scan goes on behind it. -/
theorem exists_apply_find {x : List Char} {b : Char} (found : rule.endsFind x.reverse b = true) (after : List Char) :
    ∃ before a, x = before ++ [a] ∧
      rule.apply (x ++ b :: after) = rule.apply before ++ rule.spread a b ++ rule.apply after := by
  rcases x.eq_nil_or_concat' with rfl | ⟨before, a, rfl⟩
  · cases found
  · obtain ⟨fits, free⟩ : rule.fits a b = true ∧ rule.endsFind before.reverse a = false := by
      simpa [endsFind] using found
    refine ⟨before, a, rfl, ?_⟩
    rw [List.append_assoc, List.singleton_append, rule.apply_append free, rule.apply_of_fits fits, List.append_assoc]

theorem endsFind_eq_false {b : Char} (never : ∀ a, rule.fits a b = false) (before : List Char) :
    rule.endsFind before b = false := by
  cases before with
  | nil => rfl
  | cons a before => rw [endsFind, never, Bool.false_and]

theorem apply_append_singleton {x : List Char} {b : Char} (apart : rule.endsFind x.reverse b = false) :
    rule.apply (x ++ [b]) = rule.apply x ++ [b] := rule.apply_append apart []

/-- A character that begins no find is left as it is. -/
theorem apply_cons {a : Char} (never : ∀ b, rule.fits a b = false) (rest : List Char) :
    rule.apply (a :: rest) = a :: rule.apply rest := by
  cases rest with
  | nil => rfl
  | cons b rest => exact rule.apply_of_not_fits (never b) rest

/-- If finds keep their first character in front, then so does the text. -/
theorem exists_apply_cons (front : ∀ a b, ∃ rest, rule.spread a b = a :: rest) (a : Char) (rest : List Char) :
    ∃ rest', rule.apply (a :: rest) = a :: rest' := by
  cases rest with
  | nil => exact ⟨[], rfl⟩
  | cons b rest =>
    cases fits : rule.fits a b with
    | false => exact ⟨_, rule.apply_of_not_fits fits rest⟩
    | true =>
      obtain ⟨wide, same⟩ := front a b
      exact ⟨wide ++ rule.apply rest, by rw [rule.apply_of_fits fits, same, List.cons_append]⟩

end SpacingRule

/-! ## The passes -/

def afterNonDigit : SpacingRule where
  fits c s := !c.isDigit && isSeparator s
  spread c s := [c, ' ', s, ' ']
  widened c s := .keep c (.space (.keep s (.space .nil)))

def beforeNonDigit : SpacingRule where
  fits s c := isSeparator s && !c.isDigit
  spread s c := [' ', s, ' ', c]
  widened s c := .space (.keep s (.space (.keep c .nil)))

def dashes : SpacingRule where
  fits c s := c.isDigit && s == '-'
  spread c s := [c, ' ', s, ' ']
  widened c s := .keep c (.space (.keep s (.space .nil)))

theorem apply_afterNonDigit : afterNonDigit.apply = spaceAfterNonDigit :=
  afterNonDigit.apply_unique rfl (fun _ => rfl) fun _ _ _ => rfl

theorem apply_beforeNonDigit : beforeNonDigit.apply = spaceBeforeNonDigit :=
  beforeNonDigit.apply_unique rfl (fun _ => rfl) fun _ _ _ => rfl

theorem apply_dashes : dashes.apply = spaceDashes := dashes.apply_unique rfl (fun _ => rfl) fun _ _ _ => rfl

/-- The three rules, one after the other. -/
def splitOff (text : List Char) : List Char := dashes.apply (beforeNonDigit.apply (afterNonDigit.apply text))

theorem spaced_eq (text : List Char) : spaced text = splitOff (spaceSymbols (' ' :: text ++ [' '])) := by
  rw [splitOff, apply_afterNonDigit, apply_beforeNonDigit, apply_dashes]
  rfl

theorem widened_splitOff (text : List Char) : Widened text (splitOff text) :=
  ((afterNonDigit.widened_apply _).trans (beforeNonDigit.widened_apply _)).trans (dashes.widened_apply _)

theorem spaceSymbols_append (x y : List Char) : spaceSymbols (x ++ y) = spaceSymbols x ++ spaceSymbols y :=
  List.flatMap_append

theorem widened_spaceSymbols (text : List Char) : Widened text (spaceSymbols text) := by
  induction text with
  | nil => exact .nil
  | cons c rest ih =>
    have one : Widened [c] (if isSymbol c then [' ', c, ' '] else [c]) := by
      split
      · exact .space (.keep c (.space .nil))
      · exact .refl [c]
    exact one.append ih

@[simp] theorem unblanked_splitOff (text : List Char) : unblanked (splitOff text) = unblanked text :=
  (widened_splitOff text).unblanked_eq

@[simp] theorem unblanked_spaceSymbols (text : List Char) : unblanked (spaceSymbols text) = unblanked text :=
  (widened_spaceSymbols text).unblanked_eq

end Bleu.Tokenizer
