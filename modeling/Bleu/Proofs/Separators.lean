import Bleu.Proofs.Tokens
import Mathlib.Algebra.Group.Nat.Even
import Mathlib.Data.List.Induction

/-!
# Dots and commas

A dot or comma between digits stays with them, and any other one should be a token. The rules that split it off look at
pairs of neighbours, and a separator that ends one find of a rule does not begin another. So in a row of separators every
other one is found with the one before it. The last one of a row is not found at all if a digit follows and the one
before it has been used up: it stays with that digit. `isPiece_separator_iff` says exactly which separators are tokens.
-/
namespace Bleu.Tokenizer
open Text

/-! ## Digits, symbols and separators -/

section
variable {c : Char}

theorem isDigit_of_isSeparator (separator : isSeparator c = true) : c.isDigit = false := by
  rcases (by simpa [isSeparator] using separator : c = '.' ∨ c = ',') with rfl | rfl <;> decide

theorem isSymbol_of_isSeparator (separator : isSeparator c = true) : isSymbol c = false := by
  rcases (by simpa [isSeparator] using separator : c = '.' ∨ c = ',') with rfl | rfl <;> decide

theorem isBlank_of_isSeparator (separator : isSeparator c = true) : isBlank c = false := by
  rcases (by simpa [isSeparator] using separator : c = '.' ∨ c = ',') with rfl | rfl <;> decide

theorem ne_dash_of_isSeparator (separator : isSeparator c = true) : c ≠ '-' := by
  rintro rfl
  cases separator

theorem toNat_of_isDigit (digit : c.isDigit = true) : 0x30 ≤ c.toNat ∧ c.toNat ≤ 0x39 := by
  rw [Char.isDigit, Bool.and_eq_true, decide_eq_true_eq, decide_eq_true_eq] at digit
  exact digit

theorem isDigit_of_isSymbol (symbol : isSymbol c = true) : c.isDigit = false := by
  have ranges : ∀ range ∈ symbolRanges, range.2.toNat < 0x30 ∨ 0x39 < range.1.toNat := by decide
  obtain ⟨range, listed, above, below⟩ := exists_symbolRange symbol
  have outer := ranges range listed
  by_contra digit
  have bounds := toNat_of_isDigit (Bool.not_eq_false _ ▸ digit)
  omega

theorem isSeparator_of_isDigit (digit : c.isDigit = true) : isSeparator c = false :=
  Bool.eq_false_iff.mpr fun separator => by simp [isDigit_of_isSeparator separator] at digit

theorem isSymbol_of_isDigit (digit : c.isDigit = true) : isSymbol c = false :=
  Bool.eq_false_iff.mpr fun symbol => by simp [isDigit_of_isSymbol symbol] at digit

theorem isBlank_of_isDigit (digit : c.isDigit = true) : isBlank c = false := by
  have bounds := toNat_of_isDigit digit
  simp only [isBlank, blankRanges, List.any_cons, List.any_nil, Bool.or_false, Bool.or_eq_false_iff,
    Bool.and_eq_false_iff, decide_eq_false_iff_not]
  omega

end

/-! ## What stands next to a separator -/

/-- The separators right before a place. -/
def separatorsBefore (before : List Char) : List Char := before.reverse.takeWhile isSeparator

/-- Whether a digit stands before a place and the separators right before it. -/
def digitBefore (before : List Char) : Bool := (before.reverse.dropWhile isSeparator).head?.any Char.isDigit

/-- Whether a digit stands right after a place. -/
def digitAfter (after : List Char) : Bool := after.head?.any Char.isDigit

/-- Whether a separator stays with a digit after it: the separators right before it are even in number and follow a digit,
or they are odd in number and follow something else. -/
def KeepsDigit (before after : List Char) : Prop :=
  digitAfter after = true ∧ (digitBefore before = true ↔ Even (separatorsBefore before).length)

instance (before after : List Char) : Decidable (KeepsDigit before after) := inferInstanceAs (Decidable (_ ∧ _))

theorem spaceSymbols_separator {c : Char} (separator : isSeparator c = true) : spaceSymbols [c] = [c] := by
  simp [spaceSymbols, isSymbol_of_isSeparator separator]

theorem spaceSymbols_digit {c : Char} (digit : c.isDigit = true) : spaceSymbols [c] = [c] := by
  simp [spaceSymbols, isSymbol_of_isDigit digit]

/-- What a character other than a separator becomes begins and ends with something that is no separator either, and is a
digit just if the character is one. -/
theorem spaceSymbols_border {c : Char} (border : isSeparator c = false) :
    (∃ e rest, spaceSymbols [c] = e :: rest ∧ isSeparator e = false ∧ e.isDigit = c.isDigit) ∧
      ∃ q rest, spaceSymbols [c] = rest ++ [q] ∧ isSeparator q = false ∧ q.isDigit = c.isDigit := by
  cases symbol : isSymbol c with
  | true =>
    have spread : spaceSymbols [c] = [' ', c, ' '] := by simp [spaceSymbols, symbol]
    have digit : ' '.isDigit = c.isDigit := (isDigit_of_isSymbol symbol).symm
    exact ⟨⟨' ', _, spread, rfl, digit⟩, ' ', [' ', c], spread, rfl, digit⟩
  | false =>
    have spread : spaceSymbols [c] = [c] := by simp [spaceSymbols, symbol]
    exact ⟨⟨c, [], spread, border, rfl⟩, c, [], spread, border, rfl⟩

theorem spaceSymbols_before (before : List Char) :
    ∃ q rest, (spaceSymbols (' ' :: before)).reverse = separatorsBefore before ++ q :: rest ∧
      isSeparator q = false ∧ q.isDigit = digitBefore before := by
  induction before using List.reverseRecOn with
  | nil => exact ⟨' ', [' ', ' '], rfl, rfl, rfl⟩
  | append_singleton before c ih =>
    have step : (spaceSymbols (' ' :: (before ++ [c]))).reverse =
        (spaceSymbols [c]).reverse ++ (spaceSymbols (' ' :: before)).reverse := by
      rw [← List.cons_append, spaceSymbols_append, List.reverse_append]
    cases separator : isSeparator c with
    | true =>
      obtain ⟨q, rest, same, border, digit⟩ := ih
      refine ⟨q, rest, ?_, border, ?_⟩
      · rw [step, same, spaceSymbols_separator separator]
        simp [separatorsBefore, separator]
      · rw [digit]
        simp [digitBefore, separator]
    | false =>
      obtain ⟨_, q, rest, spread, border, digit⟩ := spaceSymbols_border separator
      refine ⟨q, rest.reverse ++ (spaceSymbols (' ' :: before)).reverse, ?_, border, ?_⟩
      · rw [step, spread]
        simp [separatorsBefore, separator]
      · rw [digit]
        simp [digitBefore, separator]

theorem spaceSymbols_after (after : List Char) :
    ∃ e rest, spaceSymbols (after ++ [' ']) = e :: rest ∧ e.isDigit = digitAfter after := by
  cases after with
  | nil => exact ⟨' ', _, rfl, rfl⟩
  | cons c after =>
    have step : spaceSymbols (c :: after ++ [' ']) = spaceSymbols [c] ++ spaceSymbols (after ++ [' ']) := by
      rw [← spaceSymbols_append]
      rfl
    cases separator : isSeparator c with
    | true => exact ⟨c, _, by rw [step, spaceSymbols_separator separator]; rfl, rfl⟩
    | false =>
      obtain ⟨⟨e, rest, spread, _, digit⟩, _⟩ := spaceSymbols_border separator
      exact ⟨e, rest ++ spaceSymbols (after ++ [' ']), by rw [step, spread]; rfl, digit⟩

/-- A find of the first rule ends with every other one of a row of separators. -/
theorem endsFind_separators {separators rest : List Char} {q s : Char} (row : ∀ c ∈ separators, isSeparator c = true)
    (border : isSeparator q = false) (separator : isSeparator s = true) :
    afterNonDigit.endsFind (separators ++ q :: rest) s = false ↔ (q.isDigit = true ↔ Even separators.length) := by
  induction separators generalizing s with
  | nil =>
    have apart : afterNonDigit.endsFind rest q = false := by
      cases rest <;> simp [SpacingRule.endsFind, afterNonDigit, border]
    rw [List.nil_append, SpacingRule.endsFind, apart]
    simp [afterNonDigit, separator]
  | cons c others ih =>
    obtain ⟨first, later⟩ := List.forall_mem_cons.mp row
    have fits : afterNonDigit.fits c s = true := by simp [afterNonDigit, isDigit_of_isSeparator first, separator]
    have step := ih later first
    rw [List.cons_append, SpacingRule.endsFind, fits, Bool.true_and, Bool.not_eq_false', ← Bool.not_eq_false, step,
      List.length_cons, Nat.even_add_one]
    tauto

/-! ## What becomes of a separator -/

section
variable {s : Char} (separator : isSeparator s = true) {x y : List Char}
include separator

/-- A separator that the first rule has found is a token. -/
theorem isPiece_of_endsFind (found : afterNonDigit.endsFind x.reverse s = true) :
    IsPiece (words (splitOff (x ++ s :: y))) x [s] y := by
  obtain ⟨before, a, rfl, spread⟩ := afterNonDigit.exists_apply_find found y
  have parts : afterNonDigit.apply before ++ afterNonDigit.spread a s ++ afterNonDigit.apply y =
      (afterNonDigit.apply before ++ [a]) ++ [' ', s, ' '] ++ afterNonDigit.apply y := by simp [afterNonDigit]
  rw [splitOff, spread, parts]
  exact (isPiece_of_spaces (isBlank_of_isSeparator separator)
    ((beforeNonDigit.widened_apply _).trans (dashes.widened_apply _))).congr (by simp) (by simp)

/-- A separator that the first rule has not found does not follow a separator any more. -/
theorem endsFind_apply (apart : afterNonDigit.endsFind x.reverse s = false) :
    beforeNonDigit.endsFind (afterNonDigit.apply x).reverse s = false := by
  suffices border : ∀ before a, afterNonDigit.apply x = before ++ [a] → isSeparator a = false by
    rcases (afterNonDigit.apply x).eq_nil_or_concat' with empty | ⟨before, a, same⟩
    · rw [empty]
      rfl
    · rw [same, List.reverse_append]
      simp [SpacingRule.endsFind, beforeNonDigit, border before a same]
  intro before a same
  rcases x.eq_nil_or_concat' with rfl | ⟨first, c, rfl⟩
  · simp [SpacingRule.apply] at same
  rw [List.reverse_append] at apart
  cases row : isSeparator c with
  | false =>
    have unfound : afterNonDigit.endsFind first.reverse c = false :=
      afterNonDigit.endsFind_eq_false (fun z => by simp [afterNonDigit, row]) _
    rw [afterNonDigit.apply_append_singleton unfound] at same
    obtain ⟨_, rfl⟩ := List.append_singleton_inj.mp same
    exact row
  | true =>
    -- The separator before was found, and now there is a space behind it.
    have fits : afterNonDigit.fits c s = true := by simp [afterNonDigit, isDigit_of_isSeparator row, separator]
    have found : afterNonDigit.endsFind first.reverse c = true := by
      simpa [SpacingRule.endsFind, fits] using apart
    obtain ⟨start, z, rfl, spread⟩ := afterNonDigit.exists_apply_find found []
    have ended : afterNonDigit.apply start ++ afterNonDigit.spread z c ++ afterNonDigit.apply [] =
        (afterNonDigit.apply start ++ [z, ' ', c]) ++ [' '] := by simp [afterNonDigit, SpacingRule.apply]
    rw [spread, ended] at same
    obtain ⟨_, rfl⟩ := List.append_singleton_inj.mp same
    rfl

/-- A separator that the first rule has not found, and that no digit follows, is a token by the second rule. -/
theorem isPiece_of_not_digit (apart : afterNonDigit.endsFind x.reverse s = false) {e : Char} (other : e.isDigit = false) :
    IsPiece (words (splitOff (x ++ s :: e :: y))) x [s] (e :: y) := by
  obtain ⟨f, rest, spread, border⟩ :
      ∃ f rest, afterNonDigit.apply (s :: e :: y) = s :: f :: rest ∧ f.isDigit = false := by
    cases fits : afterNonDigit.fits s e with
    | true => exact ⟨' ', e :: ' ' :: afterNonDigit.apply y, afterNonDigit.apply_of_fits fits y, rfl⟩
    | false =>
      obtain ⟨rest, same⟩ := afterNonDigit.exists_apply_cons (fun a b => ⟨_, rfl⟩) e y
      exact ⟨e, rest, by rw [afterNonDigit.apply_of_not_fits fits, same], other⟩
  have held : unblanked (f :: rest) = unblanked (e :: y) := by
    have all := afterNonDigit.unblanked_apply (s :: e :: y)
    rwa [spread, unblanked_cons_inj] at all
  have fits : beforeNonDigit.fits s f = true := by simp [beforeNonDigit, separator, border]
  have parts : beforeNonDigit.apply (afterNonDigit.apply (x ++ s :: e :: y)) =
      beforeNonDigit.apply (afterNonDigit.apply x) ++ [' ', s, ' '] ++ f :: beforeNonDigit.apply rest := by
    rw [afterNonDigit.apply_append apart, spread, beforeNonDigit.apply_append (endsFind_apply separator apart),
      beforeNonDigit.apply_of_fits fits]
    simp [beforeNonDigit]
  rw [splitOff, parts]
  refine (isPiece_of_spaces (isBlank_of_isSeparator separator) (dashes.widened_apply _)).congr (by simp) ?_
  rw [← held]
  exact (Widened.keep f (beforeNonDigit.widened_apply rest)).unblanked_eq

/-- A separator that the first rule has not found stays with a digit that follows. -/
theorem splitOff_of_digit (apart : afterNonDigit.endsFind x.reverse s = false) {d : Char} (digit : d.isDigit = true) :
    ∃ y', splitOff (x ++ s :: d :: y) = splitOff x ++ s :: d :: y' ∧ unblanked y' = unblanked y := by
  have whole : s.isDigit = false := isDigit_of_isSeparator separator
  have border : isSeparator d = false := isSeparator_of_isDigit digit
  have first : afterNonDigit.apply (x ++ s :: d :: y) = afterNonDigit.apply x ++ s :: d :: afterNonDigit.apply y := by
    rw [afterNonDigit.apply_append apart, afterNonDigit.apply_of_not_fits (by simp [afterNonDigit, border]),
      afterNonDigit.apply_cons (by simp [afterNonDigit, digit])]
  have second : beforeNonDigit.apply (afterNonDigit.apply (x ++ s :: d :: y)) =
      beforeNonDigit.apply (afterNonDigit.apply x) ++ s :: d :: beforeNonDigit.apply (afterNonDigit.apply y) := by
    rw [first, beforeNonDigit.apply_append (endsFind_apply separator apart),
      beforeNonDigit.apply_of_not_fits (by simp [beforeNonDigit, digit]),
      beforeNonDigit.apply_cons (by simp [beforeNonDigit, border])]
  have undashed : ∀ before, dashes.endsFind before s = false :=
    dashes.endsFind_eq_false fun a => by simp [dashes, ne_dash_of_isSeparator separator]
  obtain ⟨y', third⟩ := dashes.exists_apply_cons (fun a b => ⟨_, rfl⟩) d (beforeNonDigit.apply (afterNonDigit.apply y))
  refine ⟨y', ?_, ?_⟩
  · rw [splitOff, second, dashes.apply_append (undashed _), dashes.apply_cons (by simp [dashes, whole]), third]
    rfl
  · have all := dashes.unblanked_apply (d :: beforeNonDigit.apply (afterNonDigit.apply y))
    rw [third, unblanked_cons_inj] at all
    rw [all, beforeNonDigit.unblanked_apply, afterNonDigit.unblanked_apply]

end

/-- The rules leave a digit at the end where it is. -/
theorem splitOff_append_digit (x : List Char) {d : Char} (digit : d.isDigit = true) :
    splitOff (x ++ [d]) = splitOff x ++ [d] := by
  have border : isSeparator d = false := isSeparator_of_isDigit digit
  have dash : d ≠ '-' := by
    rintro rfl
    cases digit
  have first : ∀ before, afterNonDigit.endsFind before d = false :=
    afterNonDigit.endsFind_eq_false fun a => by simp [afterNonDigit, border]
  have second : ∀ before, beforeNonDigit.endsFind before d = false :=
    beforeNonDigit.endsFind_eq_false fun a => by simp [beforeNonDigit, digit]
  have third : ∀ before, dashes.endsFind before d = false :=
    dashes.endsFind_eq_false fun a => by simp [dashes, dash]
  rw [splitOff, afterNonDigit.apply_append_singleton (first _), beforeNonDigit.apply_append_singleton (second _),
    dashes.apply_append_singleton (third _)]
  rfl

/-! ## Which separators are tokens -/

theorem endsFind_before (before : List Char) {s : Char} (separator : isSeparator s = true) :
    afterNonDigit.endsFind (spaceSymbols (' ' :: before)).reverse s = false ↔
      (digitBefore before = true ↔ Even (separatorsBefore before).length) := by
  obtain ⟨q, rest, same, border, digit⟩ := spaceSymbols_before before
  rw [same, ← digit]
  exact endsFind_separators (List.all_eq_true.mp List.all_takeWhile) border separator

theorem simpleTokens_around {text before after : List Char} {s : Char} (place : normalize text = before ++ s :: after)
    (separator : isSeparator s = true) :
    simpleTokens text = words (splitOff (spaceSymbols (' ' :: before) ++ s :: spaceSymbols (after ++ [' ']))) := by
  have parts : ' ' :: (before ++ s :: after) ++ [' '] = (' ' :: before) ++ [s] ++ (after ++ [' ']) := by simp
  rw [simpleTokens, spaced_eq, place, parts, spaceSymbols_append, spaceSymbols_append, spaceSymbols_separator separator,
    List.append_assoc, List.singleton_append]

theorem isPiece_separator {text before after : List Char} {s : Char} (place : normalize text = before ++ s :: after)
    (separator : isSeparator s = true) (free : ¬ KeepsDigit before after) :
    IsPiece (simpleTokens text) before [s] after := by
  rw [simpleTokens_around place separator]
  suffices piece : IsPiece (words (splitOff (spaceSymbols (' ' :: before) ++ s :: spaceSymbols (after ++ [' ']))))
      (spaceSymbols (' ' :: before)) [s] (spaceSymbols (after ++ [' '])) from piece.congr (by simp) (by simp)
  cases found : afterNonDigit.endsFind (spaceSymbols (' ' :: before)).reverse s with
  | true => exact isPiece_of_endsFind separator found
  | false =>
    obtain ⟨e, rest, same, digit⟩ := spaceSymbols_after after
    have other : e.isDigit = false := by
      rw [digit, ← Bool.not_eq_true]
      exact fun follows => free ⟨follows, (endsFind_before before separator).mp found⟩
    rw [same]
    exact isPiece_of_not_digit separator found other

/-- Where a separator keeps the digit after it, no space is put between the two. -/
theorem words_of_keepsDigit {text before rest : List Char} {s d : Char}
    (place : normalize text = before ++ s :: d :: rest) (separator : isSeparator s = true)
    (keeps : KeepsDigit before (d :: rest)) :
    ∃ y, simpleTokens text = words (splitOff (spaceSymbols (' ' :: before)) ++ s :: d :: y) ∧
      unblanked y = unblanked rest := by
  obtain ⟨digit, row⟩ := keeps
  have found := (endsFind_before before separator).mpr row
  have begun : spaceSymbols (d :: rest ++ [' ']) = d :: spaceSymbols (rest ++ [' ']) := by
    rw [List.cons_append, ← List.singleton_append, spaceSymbols_append, spaceSymbols_digit digit, List.singleton_append]
  obtain ⟨y, same, held⟩ := splitOff_of_digit separator found digit
  rw [simpleTokens_around place separator, begun]
  exact ⟨y, by rw [same], by simpa using held⟩

theorem withinPiece_separator {text before rest : List Char} {s d : Char}
    (place : normalize text = before ++ s :: d :: rest) (separator : isSeparator s = true)
    (keeps : KeepsDigit before (d :: rest)) : WithinPiece (simpleTokens text) before [s, d] rest := by
  obtain ⟨y, same, held⟩ := words_of_keepsDigit place separator keeps
  generalize wide : splitOff (spaceSymbols (' ' :: before)) = x at same
  have solid : Unbroken [s, d] := .cons (isBlank_of_isSeparator separator) (.cons (isBlank_of_isDigit keeps.1) .nil)
  have parts : x ++ s :: d :: y = x ++ [s, d] ++ y := by simp
  rw [same, parts]
  exact (withinPiece_words x (List.cons_ne_nil s [d]) solid y).congr (by simp [← wide]) held

theorem withinPiece_number {text before rest : List Char} {c s d : Char}
    (place : normalize text = before ++ c :: s :: d :: rest) (separator : isSeparator s = true)
    (left : c.isDigit = true) (right : d.isDigit = true) : WithinPiece (simpleTokens text) before [c, s, d] rest := by
  have keeps : KeepsDigit (before ++ [c]) (d :: rest) :=
    ⟨right, by simp [digitBefore, separatorsBefore, isSeparator_of_isDigit left, left]⟩
  obtain ⟨y, same, held⟩ := words_of_keepsDigit (by rw [place, List.append_cons]) separator keeps
  rw [← List.cons_append, spaceSymbols_append, spaceSymbols_digit left, splitOff_append_digit _ left] at same
  generalize wide : splitOff (spaceSymbols (' ' :: before)) = x at same
  have solid : Unbroken [c, s, d] :=
    .cons (isBlank_of_isDigit left) (.cons (isBlank_of_isSeparator separator) (.cons (isBlank_of_isDigit right) .nil))
  have parts : x ++ [c] ++ s :: d :: y = x ++ [c, s, d] ++ y := by simp
  rw [same, parts]
  exact (withinPiece_words x (List.cons_ne_nil c [s, d]) solid y).congr (by simp [← wide]) held

/-- A separator between digits lies within one token with both of them. A separator anywhere is a token of its own, except
that it lies within one token with a digit that follows if the separators right before it are even in number and come
after a digit, or odd in number and come after anything else. -/
theorem isPiece_separator_iff {text before after : List Char} {s : Char} (place : normalize text = before ++ s :: after)
    (separator : isSeparator s = true) :
    (IsPiece (simpleTokens text) before [s] after ↔ ¬ KeepsDigit before after) ∧
    (∀ d rest, after = d :: rest → KeepsDigit before after → WithinPiece (simpleTokens text) before [s, d] rest) ∧
    ∀ b c d rest, before = b ++ [c] → after = d :: rest → c.isDigit = true → d.isDigit = true →
      WithinPiece (simpleTokens text) b [c, s, d] rest := by
  have kept : ∀ d rest, after = d :: rest → KeepsDigit before after →
      WithinPiece (simpleTokens text) before [s, d] rest := by
    rintro d rest rfl keeps
    exact withinPiece_separator place separator keeps
  refine ⟨⟨fun piece keeps => ?_, isPiece_separator place separator⟩, kept, ?_⟩
  · cases after with
    | nil => cases keeps.1
    | cons d rest =>
      have longer := piece.isPrefix (List.cons_ne_nil s []) (kept d rest rfl keeps) (List.cons_ne_nil s [d])
      simpa using longer.length_le
  · rintro b c d rest rfl rfl left right
    exact withinPiece_number (by rw [place, List.append_assoc, List.singleton_append]) separator left right

/-- Of two dots between a letter and a digit, the second one is no token. -/
theorem isPiece_separator_two_dots :
    normalize "a..5".toList = ['a', '.'] ++ '.' :: ['5'] ∧ isSeparator '.' = true ∧ KeepsDigit ['a', '.'] ['5'] ∧
      simpleTokens "a..5".toList = [['a'], ['.'], ['.', '5']] ∧
      ¬ IsPiece (simpleTokens "a..5".toList) ['a', '.'] ['.'] ['5'] ∧
      WithinPiece (simpleTokens "a..5".toList) ['a', '.'] ['.', '5'] [] := by
  have place : normalize "a..5".toList = ['a', '.'] ++ '.' :: ['5'] := by decide
  have keeps : KeepsDigit ['a', '.'] ['5'] := by decide
  obtain ⟨alone, within, _⟩ := isPiece_separator_iff place (by decide)
  exact ⟨place, by decide, keeps, by decide, fun piece => alone.mp piece keeps, within '5' [] rfl keeps⟩

/-- After a digit it is the third of three. -/
example : simpleTokens "1...5 2..5 25,000".toList =
    [['1'], ['.'], ['.'], ['.', '5'], ['2'], ['.'], ['.'], ['5'], "25,000".toList] := by decide

end Bleu.Tokenizer
