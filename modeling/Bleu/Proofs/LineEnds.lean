import Bleu.Proofs.Transposition
import Mathlib.Data.List.Basic

/-!
# The ends of lines

`Lined text lines` says what the lines of a text are, without a line under way: one constructor for each way that a line
can end, the last one being cut off by the end of the text. `lined_iff` says that the cut computes these lines. From this
relation follow the two directions of reading and writing: lines that are written with ends of any kind are read back
(`Lined.of_written`), and a text is known from its lines up to the carriage returns that belong to its ends
(`Lined.length_eq`, `Lined.feeds_eq`).
-/
namespace Bleu.Text

/-! ## Lines and their ends -/

inductive LineEnd
  | feed
  | returnFeed
deriving DecidableEq, Repr

def LineEnd.text : LineEnd → String
  | feed => "\n"
  | returnFeed => "\r\n"

/-- What a line must be like for its end to be told from it. -/
def IsLine (line : List Char) : Prop := '\n' ∉ line ∧ line.getLast? ≠ some '\r'

instance (line : List Char) : Decidable (IsLine line) := inferInstanceAs (Decidable (_ ∧ _))

/-- Lines as one text, each with an end of its own. -/
def writeLines (lines : List (String × LineEnd)) : String := String.join (lines.map fun line => line.1 ++ line.2.text)

/-- The lines of a text. -/
inductive Lined : List Char → List (List Char) → Prop
  | empty : Lined [] []
  | last {line : List Char} (given : line ≠ []) (whole : '\n' ∉ line) : Lined line [line]
  | feed {line rest : List Char} {lines : List (List Char)} (isLine : IsLine line) (more : Lined rest lines) :
      Lined (line ++ '\n' :: rest) (line :: lines)
  | returnFeed {line rest : List Char} {lines : List (List Char)} (whole : '\n' ∉ line) (more : Lined rest lines) :
      Lined (line ++ '\r' :: '\n' :: rest) (line :: lines)

/-! ## The cut -/

/-- A line that is under way at a line feed ends there, with the carriage return that was read last if there is one. -/
theorem Lined.endLine {current : List Char} (whole : '\n' ∉ current) {rest : List Char} {ls : List (List Char)}
    (more : Lined rest ls) : Lined (current.reverse ++ '\n' :: rest) (endLine current :: ls) := by
  unfold Text.endLine
  split
  next before =>
    have unbroken : '\n' ∉ before.reverse := by simpa using whole
    simpa using Lined.returnFeed unbroken more
  next other =>
    have bare : current.reverse.getLast? ≠ some '\r' := by
      rw [List.getLast?_reverse]
      intro read
      obtain ⟨before, shape⟩ := List.head?_eq_some_iff.mp read
      exact other before shape
    exact .feed ⟨by simpa using whole, bare⟩ more

/-- Whatever is under way, the cut gives the lines of it and the rest together. -/
theorem lined_linesFrom {current : List Char} (whole : '\n' ∉ current) (text : List Char) :
    Lined (current.reverse ++ text) (linesFrom current text) := by
  -- What is read moves over to the line under way, so that both together stay the same text.
  induction text generalizing current with
  | nil =>
    by_cases started : current = []
    · simp [started, linesFrom, Lined.empty]
    · have given : current.reverse ≠ [] := by simpa using started
      have unbroken : '\n' ∉ current.reverse := by simpa using whole
      simpa [linesFrom, started] using Lined.last given unbroken
  | cons c rest ih =>
    by_cases feed : c = '\n'
    · subst feed
      rw [linesFrom, if_pos rfl]
      exact .endLine whole (ih List.not_mem_nil)
    · have unbroken : '\n' ∉ c :: current := by
        simp only [List.mem_cons, not_or]
        exact ⟨fun same => feed same.symm, whole⟩
      rw [linesFrom, if_neg feed]
      simpa using ih unbroken

/-- Characters before the next line feed join the line that is under way. -/
theorem linesFrom_append {piece : List Char} (whole : '\n' ∉ piece) (current text : List Char) :
    linesFrom current (piece ++ text) = linesFrom (piece.reverse ++ current) text := by
  induction piece generalizing current with
  | nil => rfl
  | cons c rest ih =>
    simp only [List.mem_cons, not_or] at whole
    have other : c ≠ '\n' := fun same => whole.1 same.symm
    rw [List.cons_append, linesFrom, if_neg other, ih whole.2]
    simp

theorem endLine_reverse {line : List Char} (bare : line.getLast? ≠ some '\r') : endLine line.reverse = line := by
  unfold endLine
  split
  next before shape =>
    have ends : line = before.reverse ++ ['\r'] := by simpa using congrArg List.reverse shape
    simp [ends] at bare
  next => simp

theorem Lined.lines_eq {text : List Char} {ls : List (List Char)} (lined : Lined text ls) : lines text = ls := by
  induction lined with
  | empty => rfl
  | @last line given whole =>
    have read := linesFrom_append whole [] []
    rw [List.append_nil] at read
    simp [lines, read, linesFrom, given]
  | @feed line rest ls isLine more ih =>
    rw [lines, linesFrom_append isLine.1, List.append_nil, linesFrom, if_pos rfl, endLine_reverse isLine.2]
    exact congrArg (line :: ·) ih
  | @returnFeed line rest ls whole more ih =>
    have unbroken : '\n' ∉ line ++ ['\r'] := by simpa using whole
    rw [List.append_cons, lines, linesFrom_append unbroken, linesFrom, if_pos rfl]
    simpa [Text.endLine, lines] using ih

/-- The cut computes the lines. -/
theorem lined_iff {text : List Char} {ls : List (List Char)} : Lined text ls ↔ lines text = ls := by
  constructor
  · exact Lined.lines_eq
  · rintro rfl
    exact lined_linesFrom List.not_mem_nil text

/-! ## Writing -/

/-- Lines that are written in front of a text come in front of its lines. -/
theorem Lined.of_written {written : List (String × LineEnd)} (each : ∀ line ∈ written, IsLine line.1.toList)
    {text : List Char} {ls : List (List Char)} (more : Lined text ls) :
    Lined ((writeLines written).toList ++ text) (written.map (·.1.toList) ++ ls) := by
  induction written with
  | nil => simpa [writeLines] using more
  | cons first rest ih =>
    obtain ⟨line, ending⟩ := first
    rw [List.forall_mem_cons] at each
    have later := ih each.2
    have text : (writeLines ((line, ending) :: rest)).toList =
        line.toList ++ (ending.text.toList ++ (writeLines rest).toList) := by
      simp [writeLines, String.toList_join]
    rw [text, List.map_cons]
    cases ending with
    | feed => simpa [LineEnd.text] using Lined.feed each.1 later
    | returnFeed => simpa [LineEnd.text] using Lined.returnFeed each.1.1 later

/-! ## What the lines keep of a text -/

/-- Whether a text ends before the end of its last line. -/
def EndsInLine (text : List Char) : Prop := text ≠ [] ∧ text.getLast? ≠ some '\n'

instance (text : List Char) : Decidable (EndsInLine text) := inferInstanceAs (Decidable (_ ∧ _))

/-- A text without the carriage returns right before a line feed. -/
def withoutReturns : List Char → List Char
  | [] => []
  | c :: rest => if c = '\r' ∧ rest.head? = some '\n' then withoutReturns rest else c :: withoutReturns rest

theorem endsInLine_of_whole {line : List Char} (given : line ≠ []) (whole : '\n' ∉ line) : EndsInLine line :=
  ⟨given, fun ends => whole (List.mem_of_getLast? ends)⟩

theorem endsInLine_after_feed (before rest : List Char) : EndsInLine (before ++ '\n' :: rest) ↔ EndsInLine rest := by
  by_cases empty : rest = []
  · simp [EndsInLine, empty]
  · have ends : (before ++ '\n' :: rest).getLast? = rest.getLast? := by
      rw [List.append_cons, List.getLast?_append_of_ne_nil _ empty]
    simp [EndsInLine, empty, ends]

theorem endsInLine_after_returnFeed (before rest : List Char) :
    EndsInLine (before ++ '\r' :: '\n' :: rest) ↔ EndsInLine rest := by
  rw [List.append_cons]
  exact endsInLine_after_feed _ rest

theorem Lined.feed_notMem {text : List Char} {ls : List (List Char)} (lined : Lined text ls) :
    ∀ line ∈ ls, '\n' ∉ line := by
  induction lined with
  | empty => simp
  | last given whole => simpa using whole
  | feed isLine more ih => exact List.forall_mem_cons.mpr ⟨isLine.1, ih⟩
  | returnFeed whole more ih => exact List.forall_mem_cons.mpr ⟨whole, ih⟩

/-- There are as many lines as line feeds, and one more in a text that ends before the end of its last line. -/
theorem Lined.length_eq {text : List Char} {ls : List (List Char)} (lined : Lined text ls) :
    ls.length = text.count '\n' + if EndsInLine text then 1 else 0 := by
  induction lined with
  | empty => simp [EndsInLine]
  | last given whole => simp [endsInLine_of_whole given whole, List.count_eq_zero_of_not_mem whole]
  | @feed line rest ls isLine more ih =>
    have unbroken : line.count '\n' = 0 := List.count_eq_zero_of_not_mem isLine.1
    rw [List.length_cons, ih]
    simp [unbroken, endsInLine_after_feed]
    omega
  | @returnFeed line rest ls whole more ih =>
    have unbroken : line.count '\n' = 0 := List.count_eq_zero_of_not_mem whole
    rw [List.length_cons, ih]
    simp [unbroken, endsInLine_after_returnFeed]
    omega

theorem withoutReturns_append {piece : List Char} (whole : '\n' ∉ piece) {rest : List Char}
    (apart : piece.getLast? = some '\r' → rest.head? ≠ some '\n') :
    withoutReturns (piece ++ rest) = piece ++ withoutReturns rest := by
  induction piece with
  | nil => rfl
  | cons c others ih =>
    simp only [List.mem_cons, not_or] at whole
    have single : ¬ (c = '\r' ∧ (others ++ rest).head? = some '\n') := by
      rintro ⟨rfl, next⟩
      cases others with
      | nil => exact apart rfl next
      | cons d more => simp_all
    have later : others.getLast? = some '\r' → rest.head? ≠ some '\n' := by
      intro ends
      apply apart
      rw [List.getLast?_cons, ends]
      rfl
    rw [List.cons_append, withoutReturns, if_neg single, ih whole.2 later, List.cons_append]

/-- The lines, with a line feed after each, are the text without the carriage returns of its ends. -/
theorem Lined.feeds_eq {text : List Char} {ls : List (List Char)} (lined : Lined text ls) :
    ls.flatMap (· ++ ['\n']) = withoutReturns text ++ if EndsInLine text then ['\n'] else [] := by
  induction lined with
  | empty => simp [withoutReturns, EndsInLine]
  | @last line given whole =>
    have kept : withoutReturns (line ++ []) = line ++ withoutReturns [] := withoutReturns_append whole (by simp)
    rw [List.append_nil] at kept
    simp [kept, withoutReturns, endsInLine_of_whole given whole]
  | @feed line rest ls isLine more ih =>
    have kept : withoutReturns (line ++ '\n' :: rest) = line ++ withoutReturns ('\n' :: rest) :=
      withoutReturns_append isLine.1 fun ends => absurd ends isLine.2
    simp [kept, withoutReturns, ih, endsInLine_after_feed]
  | @returnFeed line rest ls whole more ih =>
    have kept : withoutReturns (line ++ '\r' :: '\n' :: rest) = line ++ withoutReturns ('\r' :: '\n' :: rest) :=
      withoutReturns_append whole (by simp)
    simp [kept, withoutReturns, ih, endsInLine_after_returnFeed]

end Bleu.Text

namespace Bleu.Command
open Files Text

/-! ## Files of lines -/

theorem readLines_of_lined {tree : FileTree} {path : String} {text : String}
    (read : tree.content path = .ok text.toUTF8) {lines : List String}
    (lined : Lined text.toList (lines.map String.toList)) : (readLines path).run.eval tree = .ok lines := by
  have decoded : String.fromUTF8? text.toUTF8 = some text := dif_pos text.isValidUTF8
  refine readLines_eq_ok_iff.mpr ⟨_, text, read, decoded, ?_⟩
  simp [lined_iff.mp lined, Function.comp_def]

/-- Reading lines undoes writing them, whichever ends they are written with, and whether or not a last line that is not
empty has one. Of any text there are as many lines as line feeds, and one more if it ends within a line. None has a line
feed; with one after each, and so for a last one that had none, they are the text without the carriage returns right
before line feeds. -/
theorem readLines_of_text (tree : FileTree) (path : String) :
    (∀ written : List (String × LineEnd), (∀ line ∈ written, IsLine line.1.toList) →
      tree.content path = .ok (writeLines written).toUTF8 →
      (readLines path).run.eval tree = .ok (written.map Prod.fst)) ∧
    (∀ (written : List (String × LineEnd)) (last : String), (∀ line ∈ written, IsLine line.1.toList) →
      IsLine last.toList → last ≠ "" → tree.content path = .ok (writeLines written ++ last).toUTF8 →
      (readLines path).run.eval tree = .ok (written.map Prod.fst ++ [last])) ∧
    ∀ text : String, tree.content path = .ok text.toUTF8 →
      ∃ lines, (readLines path).run.eval tree = .ok lines ∧
        lines.length = text.toList.count '\n' + (if text ≠ "" ∧ text.toList.getLast? ≠ some '\n' then 1 else 0) ∧
        (∀ line ∈ lines, '\n' ∉ line.toList) ∧
        (joinLines lines).toList = withoutReturns text.toList ++
          if text ≠ "" ∧ text.toList.getLast? ≠ some '\n' then ['\n'] else [] := by
  refine ⟨fun written each read => ?_, fun written last each isLine given read => ?_, fun text read => ?_⟩
  · have lined := Lined.of_written each .empty
    rw [List.append_nil, List.append_nil] at lined
    exact readLines_of_lined read (by simpa [Function.comp_def] using lined)
  · have given : last.toList ≠ [] := by simpa using given
    have lined := Lined.of_written each (.last given isLine.1)
    exact readLines_of_lined read (by simpa [Function.comp_def] using lined)
  · have lined : Lined text.toList (Text.lines text.toList) := lined_iff.mpr rfl
    have ends : EndsInLine text.toList ↔ text ≠ "" ∧ text.toList.getLast? ≠ some '\n' := by simp [EndsInLine]
    refine ⟨(Text.lines text.toList).map String.ofList, ?_, ?_, ?_, ?_⟩
    · exact readLines_of_lined read (by simpa [Function.comp_def] using lined)
    · simpa [ends] using lined.length_eq
    · simpa using lined.feed_notMem
    · have feeds := lined.feeds_eq
      simpa [ends, joinLines, String.toList_join, List.flatMap_map] using feeds

/-- Lines with ends of both kinds, the same without the last end, and a text with returns that end no line. -/
def linesOfAllEnds : FileTree where
  top := .folder [("whole", .file "a\r\n\nb\r\n".toUTF8), ("cut", .file "a\r\n\nb".toUTF8),
    ("returns", .file "a\r\r\n\r\n\rb\r".toUTF8)]

theorem readLines_of_all_ends :
    (readLines "whole").run.eval linesOfAllEnds = .ok ["a", "", "b"] ∧
      (readLines "cut").run.eval linesOfAllEnds = .ok ["a", "", "b"] ∧
      ∃ lines, (readLines "returns").run.eval linesOfAllEnds = .ok lines ∧ lines.length = 3 ∧
        (joinLines lines).toList = ['a', '\r', '\n', '\n', '\r', 'b', '\r', '\n'] := by
  obtain ⟨whole, _, _⟩ := readLines_of_text linesOfAllEnds "whole"
  obtain ⟨_, cut, _⟩ := readLines_of_text linesOfAllEnds "cut"
  obtain ⟨_, _, returns⟩ := readLines_of_text linesOfAllEnds "returns"
  refine ⟨?_, ?_, ?_⟩
  · exact whole [("a", .returnFeed), ("", .feed), ("b", .returnFeed)] (by decide) (by decide +kernel)
  · exact cut [("a", .returnFeed), ("", .feed)] "b" (by decide) (by decide) (by decide) (by decide +kernel)
  · obtain ⟨lines, read, length, _, feeds⟩ := returns "a\r\r\n\r\n\rb\r" (by decide +kernel)
    exact ⟨lines, read, length.trans (by decide), feeds.trans (by decide)⟩

end Bleu.Command
