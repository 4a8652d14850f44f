import Bleu.Text.Blank
import Mathlib.Data.List.Basic

/-!
# Words and the places of a text

A text falls apart at its blanks: the words on either side of one are cut independently (`words_append_blank`), and what
has no blank inside and blanks around it is a word (`words_around`). Words keep every other character of a text in its
place (`flatten_words`). So a place in a text can be found again among pieces of it by the characters before and after
it: `IsPiece` says that a segment is one of the pieces, `WithinPiece` that it lies inside of one.
-/
namespace Bleu.Text

/-- A text without its blanks. -/
def unblanked (text : List Char) : List Char := text.filter fun c => !isBlank c

@[simp] theorem unblanked_nil : unblanked [] = [] := rfl

@[simp] theorem unblanked_append (x y : List Char) : unblanked (x ++ y) = unblanked x ++ unblanked y :=
  List.filter_append x y

theorem unblanked_cons_blank {c : Char} (blank : isBlank c = true) (rest : List Char) :
    unblanked (c :: rest) = unblanked rest := by simp [unblanked, blank]

theorem isBlank_space : isBlank ' ' = true := by decide

@[simp] theorem unblanked_cons_space (rest : List Char) : unblanked (' ' :: rest) = unblanked rest :=
  unblanked_cons_blank isBlank_space rest

@[simp] theorem unblanked_cons_inj {c : Char} {x y : List Char} :
    unblanked (c :: x) = unblanked (c :: y) ↔ unblanked x = unblanked y := by
  cases blank : isBlank c <;> simp [unblanked, blank]

/-- A text that has no blanks. -/
def Unbroken (text : List Char) : Prop := ∀ c ∈ text, isBlank c = false

theorem Unbroken.nil : Unbroken [] := fun _ member => absurd member List.not_mem_nil

theorem Unbroken.cons {c : Char} {text : List Char} (solid : isBlank c = false) (unbroken : Unbroken text) :
    Unbroken (c :: text) := List.forall_mem_cons.mpr ⟨solid, unbroken⟩

theorem Unbroken.append {x y : List Char} (left : Unbroken x) (right : Unbroken y) : Unbroken (x ++ y) :=
  List.forall_mem_append.mpr ⟨left, right⟩

theorem Unbroken.unblanked_eq {text : List Char} (unbroken : Unbroken text) : unblanked text = text :=
  List.filter_eq_self.mpr fun c member => by simp [unbroken c member]

/-- Texts are put together from such without blanks, with a blank between every two of them. -/
@[elab_as_elim] theorem induction_at_blanks {motive : List Char → Prop} (unbroken : ∀ w, Unbroken w → motive w)
    (cut : ∀ x c y, isBlank c = true → motive x → motive y → motive (x ++ c :: y)) (text : List Char) :
    motive text := by
  suffices grown : ∀ current, Unbroken current → motive (current ++ text) from grown [] .nil
  induction text with
  | nil =>
    intro current solid
    rw [List.append_nil]
    exact unbroken current solid
  | cons c rest ih =>
    intro current solid
    cases blank : isBlank c with
    | true => exact cut current c rest blank (unbroken current solid) (ih [] .nil)
    | false =>
      rw [List.append_cons]
      exact ih _ (solid.append (.cons blank .nil))

/-! ## Cutting at blanks -/

theorem wordsFrom_append_blank {c : Char} (blank : isBlank c = true) (current x y : List Char) :
    wordsFrom current (x ++ c :: y) = wordsFrom current x ++ words y := by
  induction x generalizing current with
  | nil => cases current <;> simp [wordsFrom, blank, words]
  | cons d rest ih =>
    rw [List.cons_append, wordsFrom, wordsFrom]
    by_cases broken : isBlank d = true
    · rw [if_pos broken, if_pos broken, ih]
      split <;> simp
    · rw [if_neg broken, if_neg broken, ih]

theorem words_append_blank {c : Char} (blank : isBlank c = true) (x y : List Char) :
    words (x ++ c :: y) = words x ++ words y := wordsFrom_append_blank blank [] x y

theorem words_cons_blank {c : Char} (blank : isBlank c = true) (y : List Char) : words (c :: y) = words y :=
  words_append_blank blank [] y

theorem wordsFrom_unbroken {w : List Char} (unbroken : Unbroken w) (current : List Char) :
    wordsFrom current w = wordsFrom (w.reverse ++ current) [] := by
  induction w generalizing current with
  | nil => rfl
  | cons c rest ih =>
    obtain ⟨solid, later⟩ := List.forall_mem_cons.mp unbroken
    have step : wordsFrom current (c :: rest) = wordsFrom (c :: current) rest := by simp [wordsFrom, solid]
    rw [step, ih later, List.reverse_cons, List.append_assoc, List.singleton_append]

theorem words_unbroken {w : List Char} (unbroken : Unbroken w) : words w = if w = [] then [] else [w] := by
  rw [words, wordsFrom_unbroken unbroken, List.append_nil, wordsFrom]
  simp

/-- The words of a text hold all of it but the blanks. -/
theorem flatten_words (text : List Char) : (words text).flatten = unblanked text := by
  induction text using induction_at_blanks with
  | unbroken w solid =>
    rw [words_unbroken solid, solid.unblanked_eq]
    split_ifs with empty
    · exact empty.symm
    · exact List.flatten_singleton
  | cut x c y blank left right =>
    rw [words_append_blank blank, List.flatten_append, left, right, unblanked_append, unblanked_cons_blank blank]

/-- Words are not empty and have no blanks. -/
theorem mem_words {text w : List Char} (listed : w ∈ words text) : w ≠ [] ∧ Unbroken w := by
  induction text using induction_at_blanks with
  | unbroken v solid =>
    rw [words_unbroken solid] at listed
    split_ifs at listed with empty
    · cases listed
    · cases List.mem_singleton.mp listed
      exact ⟨empty, solid⟩
  | cut x c y blank left right =>
    rw [words_append_blank blank, List.mem_append] at listed
    exact listed.elim left right

/-! ## Borders -/

/-- Nothing but a blank can be next to the beginning of what follows. -/
def BlankFirst (text : List Char) : Prop := ∀ c ∈ text.head?, isBlank c = true

def BlankLast (text : List Char) : Prop := ∀ c ∈ text.getLast?, isBlank c = true

theorem words_append_of_first (x : List Char) {y : List Char} (border : BlankFirst y) :
    words (x ++ y) = words x ++ words y := by
  cases y with
  | nil => simp [words, wordsFrom]
  | cons c rest =>
    have blank : isBlank c = true := border c rfl
    rw [words_append_blank blank, words_cons_blank blank]

theorem words_append_of_last {x : List Char} (border : BlankLast x) (y : List Char) :
    words (x ++ y) = words x ++ words y := by
  rcases x.eq_nil_or_concat' with rfl | ⟨before, c, rfl⟩
  · rfl
  · have blank : isBlank c = true := border c (by simp)
    have last : words (before ++ [c]) = words before := by
      rw [words_append_blank blank]
      exact List.append_nil _
    rw [last, List.append_assoc, List.singleton_append, words_append_blank blank]

/-- What has no blank inside and only blanks next to it is a word. -/
theorem words_around {x w y : List Char} (left : BlankLast x) (filled : w ≠ []) (unbroken : Unbroken w)
    (right : BlankFirst y) : words (x ++ w ++ y) = words x ++ w :: words y := by
  rw [words_append_of_first _ right, words_append_of_last left, words_unbroken unbroken, if_neg filled,
    List.append_assoc, List.singleton_append]

theorem exists_unbroken_append (text : List Char) :
    ∃ w rest, text = w ++ rest ∧ Unbroken w ∧ BlankFirst rest := by
  induction text with
  | nil => exact ⟨[], [], rfl, .nil, by simp [BlankFirst]⟩
  | cons c rest ih =>
    cases blank : isBlank c with
    | true => exact ⟨[], c :: rest, rfl, .nil, by simpa [BlankFirst] using blank⟩
    | false =>
      obtain ⟨w, later, rfl, solid, border⟩ := ih
      exact ⟨c :: w, later, rfl, .cons blank solid, border⟩

theorem exists_append_unbroken (text : List Char) :
    ∃ rest w, text = rest ++ w ∧ Unbroken w ∧ BlankLast rest := by
  obtain ⟨w, rest, same, solid, border⟩ := exists_unbroken_append text.reverse
  refine ⟨rest.reverse, w.reverse, ?_, fun c member => solid c (List.mem_reverse.mp member), ?_⟩
  · rw [← List.reverse_append, ← same, List.reverse_reverse]
  · simpa only [BlankLast, BlankFirst, List.getLast?_reverse] using border

/-! ## Places -/

/-- The segment `w` between `before` and `after` is one of the pieces that a text is cut into at its blanks and
elsewhere. -/
def IsPiece (pieces : List (List Char)) (before w after : List Char) : Prop :=
  ∃ left right, pieces = left ++ w :: right ∧ left.flatten = unblanked before ∧ right.flatten = unblanked after

/-- The segment `w` between `before` and `after` lies within one of the pieces. -/
def WithinPiece (pieces : List (List Char)) (before w after : List Char) : Prop :=
  ∃ left x y right, pieces = left ++ (x ++ w ++ y) :: right ∧ left.flatten ++ x = unblanked before ∧
    y ++ right.flatten = unblanked after

theorem IsPiece.congr {pieces : List (List Char)} {x w y before after : List Char} (piece : IsPiece pieces x w y)
    (left : unblanked x = unblanked before) (right : unblanked y = unblanked after) :
    IsPiece pieces before w after := by
  obtain ⟨first, later, cut, place, rest⟩ := piece
  exact ⟨first, later, cut, place.trans left, rest.trans right⟩

theorem WithinPiece.congr {pieces : List (List Char)} {x w y before after : List Char} (within : WithinPiece pieces x w y)
    (left : unblanked x = unblanked before) (right : unblanked y = unblanked after) :
    WithinPiece pieces before w after := by
  obtain ⟨first, v, v', later, cut, place, rest⟩ := within
  exact ⟨first, v, v', later, cut, place.trans left, rest.trans right⟩

theorem isPiece_words {x w y : List Char} (left : BlankLast x) (filled : w ≠ []) (unbroken : Unbroken w)
    (right : BlankFirst y) : IsPiece (words (x ++ w ++ y)) x w y :=
  ⟨words x, words y, words_around left filled unbroken right, flatten_words x, flatten_words y⟩

theorem withinPiece_words (before : List Char) {w : List Char} (filled : w ≠ []) (unbroken : Unbroken w)
    (after : List Char) : WithinPiece (words (before ++ w ++ after)) before w after := by
  obtain ⟨rest, x, rfl, left, border⟩ := exists_append_unbroken before
  obtain ⟨y, later, rfl, right, border'⟩ := exists_unbroken_append after
  refine ⟨words rest, x, y, words later, ?_, ?_, ?_⟩
  · have joined : rest ++ x ++ w ++ (y ++ later) = rest ++ (x ++ w ++ y) ++ later := by simp
    rw [joined, words_around border (by simp [filled]) ((left.append unbroken).append right) border']
  · rw [flatten_words, unblanked_append, left.unblanked_eq]
  · rw [flatten_words, unblanked_append, right.unblanked_eq]

/-- What lies within a piece, at the place of another one, is the beginning of that one. -/
theorem IsPiece.isPrefix {pieces : List (List Char)} {before w v after after' : List Char}
    (piece : IsPiece pieces before w after) (filled : w ≠ []) (within : WithinPiece pieces before v after')
    (given : v ≠ []) : v <+: w := by
  obtain ⟨left, right, cut, place, _⟩ := piece
  obtain ⟨left', x, y, right', cut', place', _⟩ := within
  have long : 0 < w.length := List.length_pos_iff.mpr filled
  have long' : 0 < v.length := List.length_pos_iff.mpr given
  have lengths : left.flatten.length = left'.flatten.length + x.length := by
    rw [← List.length_append, place, place']
  -- The two pieces are the same, as neither of them can be among those before the other.
  obtain ⟨rfl, same⟩ : left = left' ∧ w = x ++ v ++ y := by
    rw [cut] at cut'
    rcases List.append_eq_append_iff.mp cut' with ⟨between, later, rest⟩ | ⟨between, later, rest⟩ <;>
      cases between with
      | nil => simp_all
      | cons first others =>
        simp only [List.cons_append, List.cons.injEq] at rest
        obtain ⟨rfl, _⟩ := rest
        simp only [later, List.flatten_append, List.flatten_cons, List.length_append] at lengths
        omega
  have empty : x = [] := List.eq_nil_of_length_eq_zero (by omega)
  rw [same, empty]
  exact ⟨y, rfl⟩

end Bleu.Text
