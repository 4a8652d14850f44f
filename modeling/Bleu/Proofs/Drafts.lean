import Bleu.Proofs.Entries
import Mathlib.Data.List.Basic
import Mathlib.Data.List.Induction
import Mathlib.Data.List.TakeWhile

/-!
# What a report holds

A report under way is known from the entries that were added to it (`Draft.Follows`): one entry more keeps this
(`Draft.Follows.add`), so that it holds of any entries in any order (`Draft.follows_foldl_add`). Text has the blocks of
all entries in a row. Tables have them too, with the head of the rows before the first row, and an empty line before
every summary after it. A document is written at the end only, with all rows and the last summary.
-/
namespace Bleu.Report
open Json (Value)

/-! ## Entries by kind -/

def Entry.row? : Entry → Option (Nat × Score)
  | row line s => some (line, s)
  | summary _ _ => none

def Entry.summary? : Entry → Option (Header × Score)
  | row _ _ => none
  | summary h s => some (h, s)

/-- The rows with the numbers of their lines. -/
def rowsOf (entries : List Entry) : List (Nat × Score) := entries.filterMap Entry.row?

def lastSummary (entries : List Entry) : Option (Header × Score) := (entries.filterMap Entry.summary?).getLast?

@[simp] theorem rowsOf_concat (entries : List Entry) (e : Entry) :
    rowsOf (entries ++ [e]) = rowsOf entries ++ e.row?.toList := by
  cases e with
  | row line s => simp [rowsOf, Entry.row?]
  | summary h s => simp [rowsOf, Entry.row?, List.filterMap]

@[simp] theorem lastSummary_concat (entries : List Entry) (e : Entry) :
    lastSummary (entries ++ [e]) = e.summary?.or (lastSummary entries) := by
  cases e with
  | row line s => simp [lastSummary, Entry.summary?]
  | summary h s => simp [lastSummary, Entry.summary?]

/-! ## Tables -/

theorem tableHead_eq : tableHead = "| Line | BLEU | Precisions |\n|-----:|-----:|------------|\n" := by
  decide

/-- The lines of an entry that belong to it alone. -/
def Entry.block (places : Nat) : Entry → String
  | row line s => markdownRow places line s
  | summary h s => markdownSummary places h s

/-- The lines of an entry once there are rows: an empty line sets a summary apart. -/
def Entry.laterBlock (places : Nat) (e : Entry) : String := (if e.isRow then "" else "\n") ++ e.block places

/-- The entries before the first row, the head of the rows if there are any, and the entries from the first row on. -/
def tables (places : Nat) (entries : List Entry) : String :=
  String.join ((entries.takeWhile (!·.isRow)).map (Entry.block places)) ++
    (if entries.any (·.isRow) then tableHead else "") ++
    String.join ((entries.dropWhile (!·.isRow)).map (Entry.laterBlock places))

section
variable (places : Nat) {before : List Entry} (rowless : ∀ e ∈ before, e.isRow = false)
include rowless

theorem tables_of_no_row : tables places before = String.join (before.map (Entry.block places)) := by
  have taken : before.takeWhile (!·.isRow) = before := List.takeWhile_eq_self_iff.mpr (by simpa using rowless)
  have dropped : before.dropWhile (!·.isRow) = [] := List.dropWhile_eq_nil_iff.mpr (by simpa using rowless)
  have absent : before.any (·.isRow) = false := by simpa using rowless
  rw [tables, taken, dropped, absent]
  simp

theorem tables_of_first_row {first : Entry} (row : first.isRow = true) (after : List Entry) :
    tables places (before ++ first :: after) = String.join (before.map (Entry.block places)) ++ tableHead ++
      String.join ((first :: after).map (Entry.laterBlock places)) := by
  have early : ∀ e ∈ before, (!e.isRow) = true := by simpa using rowless
  have present : (before ++ first :: after).any (·.isRow) = true := by simp [row]
  rw [tables, present, List.takeWhile_append_of_pos early, List.dropWhile_append_of_pos early]
  simp [row]

end

theorem Entry.markdown_later (places : Nat) (e : Entry) : e.markdown places true = e.laterBlock places := by
  cases e with
  | row line s => rfl
  | summary h s => rfl

/-- One entry more adds its own text to tables, as rows were before it or were not. -/
theorem tables_concat (places : Nat) (entries : List Entry) (e : Entry) :
    tables places (entries ++ [e]) = tables places entries ++ e.markdown places (entries.any (·.isRow)) := by
  cases found : entries.find? (·.isRow) with
  | none =>
    have rowless : ∀ e ∈ entries, e.isRow = false := by simpa using found
    have absent : entries.any (·.isRow) = false := by simpa using rowless
    rw [absent, tables_of_no_row places rowless]
    cases e with
    | row line s =>
      -- The new entry is the first row, with nothing after it.
      rw [tables_of_first_row places rowless rfl]
      simp [Entry.markdown, Entry.laterBlock, Entry.block, Entry.isRow, String.append_assoc]
    | summary h s =>
      have still : ∀ e ∈ entries ++ [.summary h s], e.isRow = false := by
        intro e member
        rcases List.mem_append.mp member with early | last
        · exact rowless e early
        · rw [List.mem_singleton.mp last]
          rfl
      rw [tables_of_no_row places still]
      simp [Entry.markdown, Entry.block]
  | some first =>
    obtain ⟨row, before, after, rfl, early⟩ := List.find?_eq_some_iff_append.mp found
    have rowless : ∀ e ∈ before, e.isRow = false := by simpa using early
    have present : (before ++ first :: after).any (·.isRow) = true := by simp [row]
    -- The first row stays where it is, and the new entry comes last behind it.
    rw [present, Entry.markdown_later, List.append_assoc, List.cons_append, tables_of_first_row places rowless row,
      tables_of_first_row places rowless row]
    simp [String.append_assoc]

/-! ## Entries in a row -/

namespace Draft

/-- What a report under way holds by the entries that were added. -/
def Holds (style : Style) (entries : List Entry) (d : Draft) : Prop :=
  match style.format with
  | .text => d.written = String.join (entries.map (Entry.text style.places))
  | .markdown => d.written = tables style.places entries ∧ d.hasRow = entries.any (·.isRow)
  | .json => d.written = "" ∧ d.summary = lastSummary entries ∧
      d.rows.toList = (rowsOf entries).map fun row => rowJson row.1 row.2

structure Follows (style : Style) (entries : List Entry) (d : Draft) : Prop where
  styled : d.style = style
  holds : d.Holds style entries

theorem follows_start (style : Style) : (start style).Follows style [] := by
  refine ⟨rfl, ?_⟩
  unfold Holds
  cases style.format with
  | text => rfl
  | markdown => exact ⟨rfl, rfl⟩
  | json => exact ⟨rfl, rfl, rfl⟩

/-- One entry more is written or kept behind what came before it. -/
theorem Follows.add {style : Style} {entries : List Entry} {d : Draft} (follows : d.Follows style entries) (e : Entry) :
    (d.add e).Follows style (entries ++ [e]) := by
  obtain ⟨rfl, holds⟩ := follows
  unfold Holds at holds
  unfold Draft.add
  cases format : d.style.format with
  | text =>
    rw [format] at holds
    refine ⟨rfl, ?_⟩
    simp only at holds
    simp [Holds, format, append, holds]
  | markdown =>
    rw [format] at holds
    obtain ⟨written, hasRow⟩ := holds
    refine ⟨rfl, ?_⟩
    simp [Holds, format, append, written, hasRow, tables_concat]
  | json =>
    rw [format] at holds
    obtain ⟨written, summary, rows⟩ := holds
    cases e with
    | row line s =>
      refine ⟨rfl, ?_⟩
      simp [Holds, format, keep, written, summary, rows, Entry.row?, Entry.summary?]
    | summary h s =>
      refine ⟨rfl, ?_⟩
      simp [Holds, format, keep, written, rows, Entry.row?, Entry.summary?]

theorem follows_foldl_add (style : Style) (entries : List Entry) :
    (entries.foldl add (start style)).Follows style entries := by
  induction entries using List.reverseRecOn with
  | nil => exact follows_start style
  | append_singleton before e ih =>
    rw [List.foldl_concat]
    exact ih.add e

end Draft

/-! ## Documents -/

/-- What the fields of a document hold: the documents of all rows in their order under `lines`, or no such field if there
are none, and the last summary besides. There is nothing else, and nothing twice. -/
structure Documents (entries : List Entry) (fields : List (String × Value)) : Prop where
  rows : rowsOf entries ≠ [] →
    ∃ documents, fields.lookup "lines" = some (.array documents) ∧ (rowsOf entries).Forall₂ RowDocument documents
  summary : ∀ h s, lastSummary entries = some (h, s) → HoldsSummary h s fields
  keys : fields.map Prod.fst =
    ((lastSummary entries).elim [] fun _ => "level" :: "sentences" :: "smoothing" :: "tokenizer" :: scoreKeys) ++
      if rowsOf entries = [] then [] else ["lines"]

theorem lookup_eq_none_of_keys {fields : List (String × Value)} {keys : List String}
    (named : fields.map Prod.fst = keys) {key : String} (absent : key ∉ keys) : fields.lookup key = none := by
  rw [List.lookup_eq_none_iff]
  intro field member
  have other : key ≠ field.1 := fun same => absent (named ▸ same ▸ List.mem_map_of_mem member)
  simpa using other

theorem exists_documents (entries : List Entry) :
    ∃ fields, documentJson (lastSummary entries) ((rowsOf entries).map fun row => rowJson row.1 row.2) = .object fields ∧
      Documents entries fields := by
  refine ⟨_, rfl, fun given => ⟨(rowsOf entries).map fun row => rowJson row.1 row.2, ?_, ?_⟩, ?_, ?_⟩
  · have apart : (summaryFields (lastSummary entries)).lookup "lines" = none := by
      cases lastSummary entries with
      | none => rfl
      | some last => rfl
    rw [List.lookup_append, apart, Option.none_or, if_neg (by simpa using given)]
    rfl
  · exact List.forall₂_map_right_iff.mpr (List.forall₂_same.mpr fun row _ => rowDocument_rowJson row)
  · intro h s last
    rw [last]
    exact holdsSummary_append h s _
  · rw [List.map_append, apply_ite (List.map Prod.fst)]
    cases lastSummary entries with
    | none => simp [summaryFields]
    | some last => simp [summaryFields, Header.fields, Score.fields, scoreKeys]

section
variable {entries others : List Entry} {fields : List (String × Value)}

/-- Whether there is a row is seen in a document. -/
theorem Documents.rowless_iff (holds : Documents entries fields) :
    rowsOf entries = [] ↔ fields.lookup "lines" = none := by
  constructor
  · intro rowless
    refine lookup_eq_none_of_keys holds.keys ?_
    rw [if_pos rowless]
    cases lastSummary entries with
    | none => simp
    | some last => simp [scoreKeys]
  · intro absent
    by_contra given
    obtain ⟨documents, present, _⟩ := holds.rows given
    simp [absent] at present

/-- Whether there is a summary is seen in a document. -/
theorem Documents.unsummarized_iff (holds : Documents entries fields) :
    lastSummary entries = none ↔ fields.lookup "level" = none := by
  constructor
  · intro unsummarized
    refine lookup_eq_none_of_keys holds.keys ?_
    rw [unsummarized]
    split <;> simp
  · intro absent
    by_contra given
    obtain ⟨⟨h, s⟩, last⟩ := Option.ne_none_iff_exists'.mp given
    have level := (holds.summary h s last).level
    simp [absent] at level

/-- A document has the rows and the last summary of one report only. -/
theorem Documents.unique (first : Documents entries fields) (second : Documents others fields) :
    rowsOf entries = rowsOf others ∧ lastSummary entries = lastSummary others := by
  constructor
  · by_cases rowless : rowsOf entries = []
    · rw [rowless, second.rowless_iff.mpr (first.rowless_iff.mp rowless)]
    · obtain ⟨documents, present, related⟩ := first.rows rowless
      have given : rowsOf others ≠ [] := fun absent => rowless (first.rowless_iff.mpr (second.rowless_iff.mp absent))
      obtain ⟨_, same, alike⟩ := second.rows given
      cases present.symm.trans same
      exact List.left_unique_forall₂' RowDocument.leftUnique related alike
  · cases found : lastSummary entries with
    | none => exact (second.unsummarized_iff.mpr (first.unsummarized_iff.mp found)).symm
    | some last =>
      cases besides : lastSummary others with
      | none => simp [first.unsummarized_iff.mpr (second.unsummarized_iff.mp besides)] at found
      | some other =>
        have same := (first.summary _ _ found).eq (second.summary _ _ besides)
        exact congrArg some same

end

/-! ## Reports -/

/-- A report of any entries in any order. As text it has the lines of every entry in a row. As tables it has them too, and
besides them the two lines of the head right before the first row, if there is one, and an empty line before every
summary that comes after a row. A row is one line with its number, its score and its precisions in it, and a summary has
the lines that say what was scored and how. A document is written at the end only, as one value and a line feed; it has
all rows with all fields of their scores, or no place for them if there are none, and the last summary. -/
theorem write_of_entries (layout : Json.Layout) (places : Nat) (entries : List Entry) :
    ((entries.foldl Draft.add (.start ⟨.text, layout, places⟩)).written =
        String.join (entries.map (Entry.text places)) ∧
      write ⟨.text, layout, places⟩ entries = String.join (entries.map (Entry.text places)) ∧
      Tells places "" "\t" "" (fun line s => Entry.text places (.row line s)) ∧
      ∀ h s, Entry.text places (.summary h s) = Text.joinLines (summaryLines places h s)) ∧
    ((entries.foldl Draft.add (.start ⟨.markdown, layout, places⟩)).written = tables places entries ∧
      write ⟨.markdown, layout, places⟩ entries =
        String.join ((entries.takeWhile (!·.isRow)).map (Entry.block places)) ++
          (if entries.any (·.isRow) then "| Line | BLEU | Precisions |\n|-----:|-----:|------------|\n" else "") ++
          String.join ((entries.dropWhile (!·.isRow)).map fun e =>
            (if e.isRow then "" else "\n") ++ e.block places) ∧
      Tells places "| " " | " " |" (fun line s => Entry.block places (.row line s)) ∧
      ∀ h s, Entry.block places (.summary h s) = Text.joinLines (summaryTable places h s)) ∧
    ((entries.foldl Draft.add (.start ⟨.json, layout, places⟩)).written = "" ∧
      ∃ fields, write ⟨.json, layout, places⟩ entries = (Value.object fields).write layout ++ "\n" ∧
        Documents entries fields ∧
        ∀ others, Documents others fields →
          rowsOf others = rowsOf entries ∧ lastSummary others = lastSummary entries) := by
  refine ⟨?_, ?_, ?_⟩
  · obtain ⟨styled, written⟩ := Draft.follows_foldl_add ⟨.text, layout, places⟩ entries
    rw [write, Draft.finish, styled]
    exact ⟨written, written, tells_text places, text_summary places⟩
  · obtain ⟨styled, written, _⟩ := Draft.follows_foldl_add ⟨.markdown, layout, places⟩ entries
    rw [write, Draft.finish, styled, ← tableHead_eq]
    exact ⟨written, written, tells_markdown places, markdown_summary places⟩
  · obtain ⟨styled, written, summary, rows⟩ := Draft.follows_foldl_add ⟨.json, layout, places⟩ entries
    obtain ⟨fields, same, documents⟩ := exists_documents entries
    refine ⟨written, fields, ?_, documents, fun others too => too.unique documents⟩
    rw [write, Draft.finish, styled]
    simp only [written, summary, rows, same, String.empty_append]

end Bleu.Report
