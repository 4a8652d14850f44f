import Bleu.Report.Draft
import Mathlib.Data.List.Forall2

/-!
# What an entry says

The row of a line says its number, its score to some decimal places, and its precisions (`rowCells`). Numbers are
written with letters, digits, points and hyphens only (`Plain`), so that a row is one line whose cells can be told
apart, and rows that are equal say the same (`Tells.of_cells`). A summary is written as the lines of `summaryLines` or
`summaryTable`. In a document a row is an object with the number of the line and all fields of its score, and nothing
of these is lost (`RowDocument.leftUnique`, `HoldsSummary.eq`).
-/
namespace Bleu.Report
open Json (Value)

/-! ## Characters of numbers -/

def IsPlain (c : Char) : Prop := c.isAlphanum = true ∨ c = '.' ∨ c = '-'

instance (c : Char) : Decidable (IsPlain c) := inferInstanceAs (Decidable (_ ∨ _))

def Plain (text : List Char) : Prop := ∀ c ∈ text, IsPlain c

instance (text : List Char) : Decidable (Plain text) := List.decidableBAll IsPlain text

theorem Plain.append {a b : List Char} (first : Plain a) (second : Plain b) : Plain (a ++ b) :=
  List.forall_mem_append.mpr ⟨first, second⟩

theorem Plain.cons {c : Char} {text : List Char} (first : IsPlain c) (rest : Plain text) : Plain (c :: text) :=
  List.forall_mem_cons.mpr ⟨first, rest⟩

theorem plain_digits (n : Nat) : Plain (Decimal.digits n) := by
  intro c member
  have digit := Nat.isDigit_of_mem_toDigits (by decide) (by decide) member
  exact .inl (by simp [Char.isAlphanum, digit])

theorem plain_withPlaces (units places : Nat) : Plain (Decimal.withPlaces units places) := by
  unfold Decimal.withPlaces
  split
  · exact plain_digits units
  · have zeros : Plain (List.replicate (places + 1 - (Decimal.digits units).length) '0') := by
      intro c member
      rw [(List.mem_replicate.mp member).2]
      decide
    have padded := zeros.append (plain_digits units)
    refine Plain.append (fun c member => padded c (List.mem_of_mem_take member)) (.cons (by decide) ?_)
    exact fun c member => padded c (List.mem_of_mem_drop member)

theorem plain_writePlaces (places : Nat) (x : Float) : Plain (Decimal.writePlaces places x).toList := by
  unfold Decimal.writePlaces
  cases Decimal.Binary.ofFloat x with
  | nan =>
    change Plain "NaN".toList
    decide
  | infinite negative =>
    change Plain (Decimal.infinityText negative).toList
    cases negative
    · decide
    · decide
  | finite negative mantissa exponent =>
    dsimp only
    rw [Decimal.signed, String.toList_ofList]
    split
    · exact .cons (by decide) (plain_withPlaces _ _)
    · exact plain_withPlaces _ _

/-! ## Cells -/

/-- The precisions of a score, each a numerator over a denominator. -/
def spelledPrecisions (s : Score) : String :=
  " ".intercalate (s.precisions.map fun p => toString p.numerator ++ "/" ++ toString p.denominator)

/-- What a row says: the number of the line, the score and the precisions. -/
def rowCells (places line : Nat) (s : Score) : List String :=
  [toString line, Decimal.writePlaces places s.score, spelledPrecisions s]

theorem takeWhile_cut {c : Char} {a : List Char} (absent : c ∉ a) (x : List Char) :
    (a ++ c :: x).takeWhile (· != c) = a := by
  have kept : ∀ d ∈ a, (d != c) = true := by
    intro d member
    exact bne_iff_ne.mpr fun same => absent (same ▸ member)
  rw [List.takeWhile_append_of_pos kept, List.takeWhile_cons_of_neg (by simp), List.append_nil]

/-- A text is known from what stands before and after the first occurrence of a character. -/
theorem cut_unique {c : Char} {a b x y : List Char} (left : c ∉ a) (right : c ∉ b)
    (same : a ++ c :: x = b ++ c :: y) : a = b ∧ x = y := by
  obtain rfl : a = b := by rw [← takeWhile_cut left x, same, takeWhile_cut right y]
  exact ⟨rfl, by simpa using same⟩

theorem Plain.notMem {text : List Char} (plain : Plain text) {c : Char} (other : ¬ IsPlain c) : c ∉ text :=
  fun member => other (plain c member)

theorem digits_injective : Function.Injective Decimal.digits := by
  intro m n same
  rw [← Nat.ofDigitChars_ten_toDigits (n := m), ← Nat.ofDigitChars_ten_toDigits (n := n)]
  exact congrArg (Nat.ofDigitChars 10 · 0) same

/-- The characters of a spelled fraction. -/
def spelled (p : Fraction) : List Char := Decimal.digits p.numerator ++ '/' :: Decimal.digits p.denominator

theorem notMem_spelled (p : Fraction) {c : Char} (other : ¬ IsPlain c) (apart : c ≠ '/') : c ∉ spelled p := by
  rw [spelled, List.mem_append, List.mem_cons, not_or, not_or]
  exact ⟨(plain_digits _).notMem other, apart, (plain_digits _).notMem other⟩

theorem spelled_injective : Function.Injective spelled := by
  intro p q same
  have slash : ¬ IsPlain '/' := by decide
  obtain ⟨numerators, denominators⟩ := cut_unique ((plain_digits _).notMem slash) ((plain_digits _).notMem slash) same
  cases p
  cases q
  cases digits_injective numerators
  cases digits_injective denominators
  rfl

theorem toList_spelledPrecisions (s : Score) :
    (spelledPrecisions s).toList = [' '].intercalate (s.precisions.map spelled) := by
  simp only [spelledPrecisions, String.toList_intercalate, List.map_map]
  refine congrArg ([' '].intercalate ·) (List.map_congr_left fun p _ => ?_)
  simp [spelled, Decimal.digits]

theorem notMem_intercalate {β : Type} {x : β} {gap : List β} {pieces : List (List β)} (between : x ∉ gap)
    (within : ∀ piece ∈ pieces, x ∉ piece) : x ∉ gap.intercalate pieces := by
  induction pieces with
  | nil => simp
  | cons first others ih =>
    obtain ⟨start, later⟩ := List.forall_mem_cons.mp within
    cases others with
    | nil => simpa using start
    | cons second rest =>
      rw [List.intercalate_cons_cons, List.mem_append, List.mem_append, not_or, not_or]
      exact ⟨⟨start, between⟩, ih later⟩

theorem feed_notMem_spelledPrecisions (s : Score) : '\n' ∉ (spelledPrecisions s).toList := by
  rw [toList_spelledPrecisions]
  refine notMem_intercalate (by decide) fun text member => ?_
  obtain ⟨p, _, rfl⟩ := List.mem_map.mp member
  exact notMem_spelled p (by decide) (by decide)

theorem splitOn_spelled {ps : List Fraction} (given : ps ≠ []) :
    List.splitOn ' ' ([' '].intercalate (ps.map spelled)) = ps.map spelled := by
  refine List.splitOn_intercalate ' ' (fun text member => ?_) (by simpa using given)
  obtain ⟨p, _, rfl⟩ := List.mem_map.mp member
  exact notMem_spelled p (by decide) (by decide)

/-- Precisions that are spelled alike are the same. -/
theorem spelledPrecisions_inj {s t : Score} (same : spelledPrecisions s = spelledPrecisions t) :
    s.precisions = t.precisions := by
  have pieces := congrArg (List.splitOn ' ') (congrArg String.toList same)
  rw [toList_spelledPrecisions, toList_spelledPrecisions] at pieces
  by_cases first : s.precisions = []
  · by_cases second : t.precisions = []
    · rw [first, second]
    · rw [first, splitOn_spelled second] at pieces
      obtain ⟨q, rest, listed⟩ := List.exists_cons_of_ne_nil second
      simp [listed, spelled] at pieces
  · by_cases second : t.precisions = []
    · rw [second, splitOn_spelled first] at pieces
      obtain ⟨p, rest, listed⟩ := List.exists_cons_of_ne_nil first
      simp [listed, spelled] at pieces
    · rw [splitOn_spelled first, splitOn_spelled second] at pieces
      exact List.map_injective_iff.mpr spelled_injective pieces

/-! ## Rows -/

/-- What rows say: each is one line with the cells in it, and rows that are equal have the same cells, so the same number
of the line, the same decimal places of the score and the same precisions. -/
structure Tells (places : Nat) (opening gap closing : String) (row : Nat → Score → String) : Prop where
  written : ∀ line s, row line s = opening ++ gap.intercalate (rowCells places line s) ++ closing ++ "\n"
  oneLine : ∀ line s, (row line s).toList.count '\n' = 1
  lossless : ∀ line s other t, row line s = row other t →
    line = other ∧ Decimal.writePlaces places s.score = Decimal.writePlaces places t.score ∧
      s.precisions = t.precisions

section
variable {places : Nat} {opening gap closing : String} {row : Nat → Score → String}
  (written : ∀ line s, row line s = opening ++ gap.intercalate (rowCells places line s) ++ closing ++ "\n")
include written

theorem toList_row (line : Nat) (s : Score) : (row line s).toList = opening.toList ++
    (Decimal.digits line ++ (gap.toList ++ ((Decimal.writePlaces places s.score).toList ++
      (gap.toList ++ (spelledPrecisions s).toList)))) ++ closing.toList ++ ['\n'] := by
  rw [written]
  simp [rowCells, Decimal.digits]

/-- Cells can be told apart that have something between them which numbers do not begin with. -/
theorem Tells.of_cells {c : Char} {rest : List Char} (gaps : gap.toList = c :: rest) (apart : ¬ IsPlain c)
    (unbroken : '\n' ∉ opening.toList ++ gap.toList ++ closing.toList) : Tells places opening gap closing row := by
  refine ⟨written, fun line s => ?_, fun line s other t same => ?_⟩
  · have feed : ¬ IsPlain '\n' := by decide
    simp only [List.mem_append, not_or] at unbroken
    rw [toList_row written, List.count_append, List.count_eq_zero_of_not_mem, List.count_singleton_self]
    simp only [List.mem_append, not_or]
    exact ⟨⟨unbroken.1.1, (plain_digits line).notMem feed, unbroken.1.2, (plain_writePlaces places _).notMem feed,
      unbroken.1.2, feed_notMem_spelledPrecisions s⟩, unbroken.2⟩
  · have texts := congrArg String.toList same
    simp only [toList_row written, List.append_cancel_right_eq, List.append_cancel_left_eq, gaps,
      List.cons_append] at texts
    obtain ⟨lines, texts⟩ := cut_unique ((plain_digits _).notMem apart) ((plain_digits _).notMem apart) texts
    rw [List.append_cancel_left_eq] at texts
    obtain ⟨scores, texts⟩ :=
      cut_unique ((plain_writePlaces places _).notMem apart) ((plain_writePlaces places _).notMem apart) texts
    rw [List.append_cancel_left_eq] at texts
    exact ⟨digits_injective lines, String.toList_inj.mp scores, spelledPrecisions_inj (String.toList_inj.mp texts)⟩

end

theorem precisionList_eq (s : Score) : precisionList s = spelledPrecisions s := rfl

theorem joinLines_singleton (line : String) : Text.joinLines [line] = line ++ "\n" := by
  simp [Text.joinLines]

theorem tells_text (places : Nat) : Tells places "" "\t" "" fun line s => Entry.text places (.row line s) := by
  have gaps : "\t".toList = ['\t'] := rfl
  refine Tells.of_cells (fun line s => ?_) gaps (by decide) (by decide)
  rw [Entry.text, textRow, joinLines_singleton, precisionList_eq, rowCells, String.empty_append, String.append_empty]

theorem tells_markdown (places : Nat) : Tells places "| " " | " " |" (markdownRow places) := by
  refine Tells.of_cells (fun line s => ?_) rfl (by decide) (by decide)
  rw [markdownRow, joinLines_singleton, tableRow, precisionList_eq, rowCells]

/-! ## Summaries -/

/-- The lines of a summary as text. -/
def summaryLines (places : Nat) (h : Header) (s : Score) : List String :=
  ["BLEU = " ++ Decimal.writePlaces places s.score,
    "  precisions:      " ++ spelledPrecisions s,
    "  brevity penalty: " ++ Decimal.writePlaces places s.brevityPenalty ++ " (hypothesis " ++
      toString s.hypothesisLength ++ ", reference " ++ toString s.referenceLength ++ ")",
    "  " ++ h.level ++ " level, " ++ toString h.sentences ++ " sentence(s), smoothing " ++ h.smoothing ++
      ", tokenizer " ++ h.tokenizer]

theorem text_summary (places : Nat) (h : Header) (s : Score) :
    Entry.text places (.summary h s) = Text.joinLines (summaryLines places h s) := rfl

theorem tableRow_pair (left right : String) : tableRow [left, right] = "| " ++ left ++ " | " ++ right ++ " |" := by
  simp [tableRow, String.append_assoc]

/-- The row of an order in the table of a summary. -/
def orderRow (order : Nat) (p : Fraction) : String :=
  "| Precision " ++ toString order ++ " | " ++ toString p.numerator ++ "/" ++ toString p.denominator ++ " |"

theorem tableRow_order (order : Nat) (p : Fraction) :
    tableRow ["Precision " ++ toString order, p.text] = orderRow order p := by
  have text : p.text = toString p.numerator ++ "/" ++ toString p.denominator := rfl
  have start : "| " ++ "Precision " = "| Precision " := by decide
  rw [tableRow_pair, text]
  simp only [← String.append_assoc, start]
  rfl

theorem precisionRows_eq (order : Nat) (ps : List Fraction) :
    precisionRows order ps = ps.mapIdx fun i p => orderRow (order + i) p := by
  induction ps generalizing order with
  | nil => rfl
  | cons p rest ih =>
    have next : ∀ i p, orderRow (order + 1 + i) p = orderRow (order + (i + 1)) p := by
      intro i p
      rw [Nat.add_assoc, Nat.add_comm 1 i]
    rw [precisionRows, ih, List.mapIdx_cons]
    simp only [next]
    exact congrArg (· :: _) (tableRow_order order p)

/-- The lines of a summary as a table, with a row for every order. -/
def summaryTable (places : Nat) (h : Header) (s : Score) : List String :=
  ["## BLEU (" ++ h.level ++ " level)", "", "| Metric | Value |", "|--------|-------|",
    "| BLEU | " ++ Decimal.writePlaces places s.score ++ " |"] ++
  (s.precisions.mapIdx fun i p => orderRow (1 + i) p) ++
  ["| Brevity penalty | " ++ Decimal.writePlaces places s.brevityPenalty ++ " |",
    "| Hypothesis length | " ++ toString s.hypothesisLength ++ " |",
    "| Reference length | " ++ toString s.referenceLength ++ " |", "", "---",
    "*Sentences: " ++ toString h.sentences ++ ", smoothing: " ++ h.smoothing ++ ", tokenizer: " ++ h.tokenizer ++ "*"]

theorem tableRow_value {name start : String} (value : String) (begins : "| " ++ name ++ " | " = start) :
    tableRow [name, value] = start ++ value ++ " |" := by
  rw [tableRow_pair, begins]

theorem markdown_summary (places : Nat) (h : Header) (s : Score) :
    markdownSummary places h s = Text.joinLines (summaryTable places h s) := by
  have metrics : tableRow ["Metric", "Value"] = "| Metric | Value |" := by decide
  have score := @tableRow_value "BLEU" "| BLEU | " (Decimal.writePlaces places s.score) (by decide)
  have penalty := @tableRow_value "Brevity penalty" "| Brevity penalty | "
    (Decimal.writePlaces places s.brevityPenalty) (by decide)
  have hypothesis := @tableRow_value "Hypothesis length" "| Hypothesis length | " (toString s.hypothesisLength)
    (by decide)
  have reference := @tableRow_value "Reference length" "| Reference length | " (toString s.referenceLength)
    (by decide)
  rw [markdownSummary, summaryTable, precisionRows_eq, metrics, score, penalty, hypothesis, reference]
  rfl

/-! ## Documents -/

/-- The names of the fields of a score. -/
def scoreKeys : List String :=
  ["score", "precisions", "smoothed", "weights", "brevity_penalty", "hypothesis_length", "reference_length"]

/-- The fields hold a score: each field of the score stands under its own name. -/
structure HoldsScore (s : Score) (fields : List (String × Value)) : Prop where
  score : fields.lookup "score" = some (.float s.score)
  precisions : fields.lookup "precisions" = some (.array (s.precisions.map fun p =>
    .object [("numerator", .nat p.numerator), ("denominator", .nat p.denominator)]))
  smoothed : fields.lookup "smoothed" = some (.array (s.smoothed.map .float))
  weights : fields.lookup "weights" = some (.array (s.weights.map .float))
  brevityPenalty : fields.lookup "brevity_penalty" = some (.float s.brevityPenalty)
  hypothesisLength : fields.lookup "hypothesis_length" = some (.nat s.hypothesisLength)
  referenceLength : fields.lookup "reference_length" = some (.nat s.referenceLength)

/-- The fields of a row hold the number of the line and the score, and nothing else. -/
structure HoldsRow (line : Nat) (s : Score) (fields : List (String × Value)) : Prop extends HoldsScore s fields where
  line : fields.lookup "line" = some (.nat line)
  keys : fields.map Prod.fst = "line" :: scoreKeys

/-- The fields of a summary hold the header and the score. -/
structure HoldsSummary (h : Header) (s : Score) (fields : List (String × Value)) : Prop
    extends HoldsScore s fields where
  level : fields.lookup "level" = some (.string h.level)
  sentences : fields.lookup "sentences" = some (.nat h.sentences)
  smoothing : fields.lookup "smoothing" = some (.string h.smoothing)
  tokenizer : fields.lookup "tokenizer" = some (.string h.tokenizer)

/-- The document is the one of a row. -/
def RowDocument (row : Nat × Score) (document : Value) : Prop :=
  ∃ fields, document = .object fields ∧ HoldsRow row.1 row.2 fields

theorem rowDocument_rowJson (row : Nat × Score) : RowDocument row (rowJson row.1 row.2) :=
  ⟨_, rfl, ⟨⟨rfl, rfl, rfl, rfl, rfl, rfl, rfl⟩, rfl, rfl⟩⟩

theorem holdsSummary_append (h : Header) (s : Score) (others : List (String × Value)) :
    HoldsSummary h s (summaryFields (some (h, s)) ++ others) :=
  ⟨⟨rfl, rfl, rfl, rfl, rfl, rfl, rfl⟩, rfl, rfl, rfl, rfl⟩

/-! Nothing is lost: fields hold one score only, one row only and one summary only. -/

theorem array_injective {β : Type} {f : β → Value} (injective : Function.Injective f) :
    Function.Injective fun xs : List β => Value.array (xs.map f) :=
  fun _ _ same => List.map_injective_iff.mpr injective (Value.array.inj same)

theorem fractionJson_injective : Function.Injective fun p : Fraction =>
    Value.object [("numerator", .nat p.numerator), ("denominator", .nat p.denominator)] := by
  intro p q same
  cases p
  cases q
  simpa using same

section
variable {fields : List (String × Value)} {s t : Score}

theorem eq_of_lookup {β : Type} {f : β → Value} (injective : Function.Injective f) {key : String} {x y : β}
    (first : fields.lookup key = some (f x)) (second : fields.lookup key = some (f y)) : x = y :=
  injective (Option.some.inj (first.symm.trans second))

theorem nat_of_lookup {key : String} {m n : Nat} (first : fields.lookup key = some (.nat m))
    (second : fields.lookup key = some (.nat n)) : m = n :=
  eq_of_lookup (fun _ _ => Value.nat.inj) first second

theorem HoldsScore.eq (first : HoldsScore s fields) (second : HoldsScore t fields) : s = t := by
  have float : Function.Injective Value.float := fun _ _ => Value.float.inj
  have score := eq_of_lookup float first.score second.score
  have precisions := eq_of_lookup (array_injective fractionJson_injective) first.precisions second.precisions
  have smoothed := eq_of_lookup (array_injective float) first.smoothed second.smoothed
  have weights := eq_of_lookup (array_injective float) first.weights second.weights
  have penalty := eq_of_lookup float first.brevityPenalty second.brevityPenalty
  have hypothesis := nat_of_lookup first.hypothesisLength second.hypothesisLength
  have reference := nat_of_lookup first.referenceLength second.referenceLength
  cases s
  cases t
  simp only at score precisions smoothed weights penalty hypothesis reference
  rw [score, precisions, smoothed, weights, penalty, hypothesis, reference]

theorem HoldsSummary.eq {h g : Header} (first : HoldsSummary h s fields) (second : HoldsSummary g t fields) :
    (h, s) = (g, t) := by
  have string : Function.Injective Value.string := fun _ _ => Value.string.inj
  have level := eq_of_lookup string first.level second.level
  have sentences := nat_of_lookup first.sentences second.sentences
  have smoothing := eq_of_lookup string first.smoothing second.smoothing
  have tokenizer := eq_of_lookup string first.tokenizer second.tokenizer
  cases h
  cases g
  simp only at level sentences smoothing tokenizer
  rw [level, sentences, smoothing, tokenizer, first.toHoldsScore.eq second.toHoldsScore]

theorem RowDocument.leftUnique : Relator.LeftUnique RowDocument := by
  rintro ⟨line, s⟩ ⟨other, t⟩ document ⟨fields, rfl, first⟩ ⟨_, same, second⟩
  cases same
  exact Prod.ext (nat_of_lookup first.line second.line) (first.toHoldsScore.eq second.toHoldsScore)

end

end Bleu.Report
