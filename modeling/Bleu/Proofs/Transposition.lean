import Bleu.Command.Inputs
import Bleu.Proofs.Patterns

/-!
# Reading a corpus

A corpus is read when the file of hypotheses and all files of references can be read and have equally many lines. The
references of a line are then its entries in these files, in the order of the paths (`AlignedCorpus.Transposes`).
Otherwise the first step that cannot be taken decides the failure (`AlignedCorpus.FirstFailure`):
`AlignedCorpus.read_transposes` says both.
-/
namespace Bleu.Command
open Files Outcomes

/-! ## Files of lines -/

/-- The lines of a file, which is text. -/
def HasLines (tree : FileTree) (path : String) (lines : List String) : Prop :=
  ∃ bytes text, tree.content path = .ok bytes ∧ String.fromUTF8? bytes = some text ∧
    lines = (Text.lines text.toList).map String.ofList

/-- Why a file has no lines: its content cannot be read, or it is not text. -/
inductive Unreadable (tree : FileTree) (path : String) : OsFault → Prop
  | content {fault : OsFault} (refused : tree.content path = .error fault) : Unreadable tree path fault
  | notUtf8 {bytes : ByteArray} (read : tree.content path = .ok bytes) (other : String.fromUTF8? bytes = none) :
      Unreadable tree path .notUtf8

section
variable {tree : FileTree} {path : String}

theorem eval_readText : (readText path).run.eval tree =
    inContext (.readingFile path) (orOs (tree.content path >>= Reading.decode)) := rfl

theorem eval_readLines : (readLines path).run.eval tree =
    (do return (Text.lines (← (readText path).run.eval tree).toList).map String.ofList) := by
  rw [readLines, Reading.eval_run_bind]
  rfl

theorem decode_eq_ok_iff {bytes : ByteArray} {text : String} :
    Reading.decode bytes = .ok text ↔ String.fromUTF8? bytes = some text := by
  unfold Reading.decode
  cases String.fromUTF8? bytes with
  | none => simp
  | some other => simp

theorem readLines_eq_ok_iff {lines : List String} :
    (readLines path).run.eval tree = .ok lines ↔ HasLines tree path lines := by
  simp only [eval_readLines, eval_readText, HasLines, bind_eq_ok, inContext_eq_ok, orOs, mapError_eq_ok]
  constructor
  · rintro ⟨text, ⟨bytes, read, decoded⟩, cut⟩
    cases cut
    exact ⟨bytes, text, read, decode_eq_ok_iff.mp decoded, rfl⟩
  · rintro ⟨bytes, text, read, decoded, rfl⟩
    exact ⟨text, ⟨bytes, read, decode_eq_ok_iff.mpr decoded⟩, rfl⟩

theorem HasLines.eq {lines others : List String} (first : HasLines tree path lines) (second : HasLines tree path others) :
    lines = others :=
  Except.ok.inj ((readLines_eq_ok_iff.mpr first).symm.trans (readLines_eq_ok_iff.mpr second))

theorem readLines_eq_error_iff {f : Failure} :
    (readLines path).run.eval tree = .error f ↔
      ∃ fault, Unreadable tree path fault ∧ f = { contexts := [.readingFile path], cause := .os fault } := by
  rw [eval_readLines, eval_readText]
  constructor
  · intro refused
    cases read : tree.content path with
    | error fault =>
      rw [read] at refused
      cases refused
      exact ⟨fault, .content read, rfl⟩
    | ok bytes =>
      cases decoded : String.fromUTF8? bytes with
      | none =>
        rw [read, ok_bind, Reading.decode, decoded] at refused
        cases refused
        exact ⟨.notUtf8, .notUtf8 read decoded, rfl⟩
      | some text =>
        rw [read, ok_bind, Reading.decode, decoded] at refused
        cases refused
  · rintro ⟨fault, unreadable, rfl⟩
    cases unreadable with
    | content refused =>
      rw [refused]
      rfl
    | notUtf8 read other =>
      rw [read, ok_bind, Reading.decode, other]
      rfl

/-- A file of references is read that has a line for every hypothesis. -/
theorem readReferences_eq_ok_iff {n : Nat} {lines : List String} :
    (readReferences n path).run.eval tree = .ok lines ↔ HasLines tree path lines ∧ lines.length = n := by
  rw [readReferences, Reading.eval_run_bind, bind_eq_ok, ← readLines_eq_ok_iff]
  constructor
  · rintro ⟨found, read, checked⟩
    split at checked
    next => cases checked
    next count =>
      cases checked
      exact ⟨read, not_not.mp count⟩
  · rintro ⟨read, count⟩
    refine ⟨lines, read, ?_⟩
    rw [if_neg (not_not.mpr count)]
    rfl

theorem exists_mapM_readReferences_iff {n : Nat} {files : List String} :
    (∃ columns, (files.mapM fun path => (readReferences n path).run.eval tree) = .ok columns) ↔
      ∀ path ∈ files, ∃ found, HasLines tree path found ∧ found.length = n := by
  simp only [exists_mapM_iff, readReferences_eq_ok_iff]

/-- A file of references is refused that cannot be read or has another number of lines. -/
theorem readReferences_eq_error_iff {n : Nat} {f : Failure} :
    (readReferences n path).run.eval tree = .error f ↔
      (∃ fault, Unreadable tree path fault ∧ f = { contexts := [.readingFile path], cause := .os fault }) ∨
      ∃ lines, HasLines tree path lines ∧ lines.length ≠ n ∧ f = { cause := .lineCount path n lines.length } := by
  rw [readReferences, Reading.eval_run_bind, bind_eq_error, readLines_eq_error_iff]
  refine or_congr_right (exists_congr fun lines => ?_)
  rw [readLines_eq_ok_iff]
  refine and_congr_right fun _ => ?_
  by_cases count : lines.length = n
  · rw [if_neg (not_not.mpr count)]
    constructor
    · rintro ⟨⟩
    · rintro ⟨uneven, _⟩
      exact absurd count uneven
  · rw [if_pos count]
    constructor
    · rintro ⟨⟩
      exact ⟨count, rfl⟩
    · rintro ⟨_, rfl⟩
      rfl

end

/-! ## Columns -/

theorem getElem?_addColumn {β : Type} (sets : List (List β)) (entries : List β) (i : Nat) :
    (addColumn sets entries)[i]? = sets[i]?.map fun set => set ++ entries[i]?.toList := by
  fun_induction addColumn sets entries generalizing i with
  | case1 set sets entry entries ih =>
    cases i with
    | zero => rfl
    | succ i => exact ih i
  | case2 sets entries short =>
    cases sets with
    | nil => rfl
    | cons set others =>
      cases entries with
      | nil => simp
      | cons entry rest => exact absurd rfl (short set others entry rest rfl)

theorem length_addColumn {β : Type} (sets : List (List β)) (entries : List β) :
    (addColumn sets entries).length = sets.length := by
  fun_induction addColumn sets entries with
  | case1 set sets entry entries ih => rw [List.length_cons, List.length_cons, ih]
  | case2 => rfl

theorem length_foldl_addColumn {β : Type} (columns sets : List (List β)) :
    (columns.foldl addColumn sets).length = sets.length := by
  induction columns generalizing sets with
  | nil => rfl
  | cons column rest ih => rw [List.foldl_cons, ih, length_addColumn]

/-- A set takes up its entries in the columns, in their order. -/
theorem getElem?_foldl_addColumn {β : Type} (columns sets : List (List β)) (i : Nat) :
    (columns.foldl addColumn sets)[i]? = sets[i]?.map fun set => set ++ columns.filterMap (·[i]?) := by
  induction columns generalizing sets with
  | nil => simp
  | cons column rest ih =>
    rw [List.foldl_cons, ih, getElem?_addColumn, Option.map_map]
    refine congrArg (Option.map · sets[i]?) (funext fun set => ?_)
    cases entry : column[i]? with
    | none => simp [entry]
    | some x => simp [entry]

/-- Columns that all reach a row have it in their order. -/
theorem filterMap_row {β : Type} {columns : List (List β)} {i : Nat} (reach : ∀ c ∈ columns, i < c.length) :
    (columns.filterMap (·[i]?)).length = columns.length ∧
      ∀ j : Nat, (columns.filterMap (·[i]?))[j]? = columns[j]?.bind (·[i]?) := by
  induction columns with
  | nil => simp
  | cons column rest ih =>
    obtain ⟨inside, later⟩ := List.forall_mem_cons.mp reach
    obtain ⟨length, entries⟩ := ih later
    have kept : (column :: rest).filterMap (·[i]?) = column[i] :: rest.filterMap (·[i]?) :=
      List.filterMap_cons_some (List.getElem?_eq_getElem inside)
    rw [kept]
    refine ⟨by rw [List.length_cons, List.length_cons, length], fun j => ?_⟩
    cases j with
    | zero => exact (List.getElem?_eq_getElem inside).symm
    | succ j => exact entries j

/-! ## Corpora -/

namespace AlignedCorpus

/-- The references of a line are its entries in files that have a line for every hypothesis, in the order of the files. -/
structure Transposes (tree : FileTree) (files : List String) (corpus : AlignedCorpus) : Prop where
  aligned : ∀ path ∈ files, ∃ lines, HasLines tree path lines ∧ lines.length = corpus.hypotheses.length
  sets : corpus.referenceSets.length = corpus.hypotheses.length
  entries : ∀ set ∈ corpus.referenceSets, set.length = files.length
  entry : ∀ (i j : Nat) (set lines : List String) (path : String), corpus.referenceSets[i]? = some set →
    files[j]? = some path → HasLines tree path lines → set[j]? = lines[i]?

/-- What goes wrong first in reading a corpus: with the hypotheses, with a pattern, or with a file of references, which
is read before its lines are counted. -/
inductive FirstFailure (tree : FileTree) (hypotheses : String) (patterns : List String) : Failure → Prop
  | hypotheses {fault : OsFault} (unreadable : Unreadable tree hypotheses fault) :
      FirstFailure tree hypotheses patterns { contexts := [.readingFile hypotheses], cause := .os fault }
  | pattern {lines before after : List String} {pattern : String} {fault : PatternFault}
      (read : HasLines tree hypotheses lines) (split : patterns = before ++ pattern :: after)
      (earlier : ∀ p ∈ before, ∃ path, Matches fittingPaths tree p path)
      (refuses : Refuses fittingPaths tree pattern fault) :
      FirstFailure tree hypotheses patterns (.ofPattern fault)
  | references {lines files before after : List String} {path : String} {fault : OsFault}
      (read : HasLines tree hypotheses lines) (resolved : (Files.resolvePatterns patterns).run.eval tree = .ok files)
      (split : files = before ++ path :: after)
      (earlier : ∀ p ∈ before, ∃ found, HasLines tree p found ∧ found.length = lines.length)
      (unreadable : Unreadable tree path fault) :
      FirstFailure tree hypotheses patterns { contexts := [.readingFile path], cause := .os fault }
  | lineCount {lines files before after found : List String} {path : String}
      (read : HasLines tree hypotheses lines) (resolved : (Files.resolvePatterns patterns).run.eval tree = .ok files)
      (split : files = before ++ path :: after)
      (earlier : ∀ p ∈ before, ∃ found, HasLines tree p found ∧ found.length = lines.length)
      (counted : HasLines tree path found) (uneven : found.length ≠ lines.length) :
      FirstFailure tree hypotheses patterns { cause := .lineCount path lines.length found.length }

section
variable {tree : FileTree} {hypotheses : String} {patterns : List String}

theorem eval_resolvePatterns : (resolvePatterns patterns).run.eval tree =
    ((Files.resolvePatterns patterns).run.eval tree).mapError Failure.ofPattern :=
  Reading.eval_bind tree _ _

theorem eval_read : (AlignedCorpus.read hypotheses patterns).run.eval tree = (do
    let lines ← (readLines hypotheses).run.eval tree
    let files ← ((Files.resolvePatterns patterns).run.eval tree).mapError Failure.ofPattern
    let references ← files.mapM fun path => (readReferences lines.length path).run.eval tree
    return { hypotheses := lines, referenceSets := references.foldl addColumn (List.replicate lines.length []) }) := by
  simp only [AlignedCorpus.read, Reading.eval_run_bind, Reading.eval_run_mapM, eval_resolvePatterns]
  rfl

/-- There is only one way to put lines of the same files together. -/
theorem Transposes.eq {files : List String} {c d : AlignedCorpus} (first : c.Transposes tree files)
    (second : d.Transposes tree files) (same : c.hypotheses = d.hypotheses) : c = d := by
  obtain ⟨hypotheses, sets⟩ := c
  obtain ⟨_, others⟩ := d
  cases same
  congr 1
  refine List.ext_getElem (first.sets.trans second.sets.symm) fun i left right => ?_
  have width := first.entries _ (List.getElem_mem left)
  have otherWidth := second.entries _ (List.getElem_mem right)
  refine List.ext_getElem? fun j => ?_
  cases listed : files[j]? with
  | none =>
    have outside := List.getElem?_eq_none_iff.mp listed
    rw [List.getElem?_eq_none (by omega), List.getElem?_eq_none (by omega)]
  | some path =>
    obtain ⟨lines, read, _⟩ := first.aligned path (List.mem_of_getElem? listed)
    rw [first.entry i j _ lines path (List.getElem?_eq_getElem left) listed read,
      second.entry i j _ lines path (List.getElem?_eq_getElem right) listed read]

/-- Columns of lines that were read one file after the other make up a corpus. -/
theorem transposes_of_mapM {files lines : List String} {columns : List (List String)}
    (read : (files.mapM fun path => (readReferences lines.length path).run.eval tree) = .ok columns) :
    Transposes tree files
      { hypotheses := lines, referenceSets := columns.foldl addColumn (List.replicate lines.length []) } := by
  obtain ⟨length, each⟩ := mapM_eq_ok_iff.mp read
  have column : ∀ (j : Nat) (c : List String), columns[j]? = some c →
      ∃ path, files[j]? = some path ∧ HasLines tree path c ∧ c.length = lines.length := by
    intro j c listed
    obtain ⟨path, file, one⟩ := each j c listed
    exact ⟨path, file, readReferences_eq_ok_iff.mp one⟩
  have reach : ∀ i < lines.length, ∀ c ∈ columns, i < c.length := by
    intro i inside c member
    obtain ⟨j, listed⟩ := List.mem_iff_getElem?.mp member
    obtain ⟨_, _, _, same⟩ := column j c listed
    omega
  -- The sets start out empty, one for every hypothesis, so that no row is beyond the lines of the hypotheses.
  have rows : ∀ (i : Nat) (set : List String),
      (columns.foldl addColumn (List.replicate lines.length []))[i]? = some set →
        i < lines.length ∧ set = columns.filterMap (·[i]?) := by
    intro i set listed
    rw [getElem?_foldl_addColumn, List.getElem?_replicate] at listed
    split at listed
    next inside =>
      cases listed
      exact ⟨inside, List.nil_append _⟩
    next => cases listed
  constructor
  · exact exists_mapM_readReferences_iff.mp ⟨columns, read⟩
  · rw [length_foldl_addColumn, List.length_replicate]
  · intro set member
    obtain ⟨i, listed⟩ := List.mem_iff_getElem?.mp member
    obtain ⟨inside, rfl⟩ := rows i set listed
    rw [(filterMap_row (reach i inside)).1, length]
  · intro i j set found path listed file has
    obtain ⟨inside, rfl⟩ := rows i set listed
    have reached : j < columns.length := length ▸ (List.getElem?_eq_some_iff.mp file).1
    obtain ⟨_, same, lines, _⟩ := column j _ (List.getElem?_eq_getElem reached)
    cases file.symm.trans same
    rw [(filterMap_row (reach i inside)).2, List.getElem?_eq_getElem reached, has.eq lines, Option.bind_some]

theorem read_eq_ok_iff (corpus : AlignedCorpus) :
    (AlignedCorpus.read hypotheses patterns).run.eval tree = .ok corpus ↔
      HasLines tree hypotheses corpus.hypotheses ∧
        ∃ files, (Files.resolvePatterns patterns).run.eval tree = .ok files ∧ corpus.Transposes tree files := by
  simp only [eval_read, bind_eq_ok, mapError_eq_ok, ← readLines_eq_ok_iff]
  constructor
  · rintro ⟨lines, read, files, resolved, columns, columnsRead, built⟩
    cases built
    exact ⟨read, files, resolved, transposes_of_mapM columnsRead⟩
  · rintro ⟨read, files, resolved, transposes⟩
    obtain ⟨columns, columnsRead⟩ := exists_mapM_readReferences_iff.mpr transposes.aligned
    refine ⟨_, read, files, resolved, columns, columnsRead, ?_⟩
    exact congrArg Except.ok ((transposes_of_mapM columnsRead).eq transposes rfl)

/-- A corpus that is read has a set of references for every hypothesis. -/
theorem length_of_read {corpus : AlignedCorpus}
    (read : (AlignedCorpus.read hypotheses patterns).run.eval tree = .ok corpus) :
    corpus.referenceSets.length = corpus.hypotheses.length := by
  obtain ⟨_, _, _, transposes⟩ := (read_eq_ok_iff corpus).mp read
  exact transposes.sets

/-- After files that can be read, the first one that is refused decides. -/
theorem read_of_refused {lines files before after : List String} {path : String} {f : Failure}
    (read : HasLines tree hypotheses lines) (resolved : (Files.resolvePatterns patterns).run.eval tree = .ok files)
    (split : files = before ++ path :: after)
    (earlier : ∀ p ∈ before, ∃ found, HasLines tree p found ∧ found.length = lines.length)
    (refused : (readReferences lines.length path).run.eval tree = .error f) :
    (AlignedCorpus.read hypotheses patterns).run.eval tree = .error f := by
  have stuck : (files.mapM fun path => (readReferences lines.length path).run.eval tree) = .error f :=
    mapM_eq_error_iff.mpr ⟨before, path, after, split,
      exists_mapM_iff.mp (exists_mapM_readReferences_iff.mpr earlier), refused⟩
  rw [eval_read, readLines_eq_ok_iff.mpr read, ok_bind, mapError_eq_ok.mpr resolved, ok_bind, stuck, error_bind]

theorem read_eq_error_iff (f : Failure) :
    (AlignedCorpus.read hypotheses patterns).run.eval tree = .error f ↔ FirstFailure tree hypotheses patterns f := by
  constructor
  · intro failed
    rw [eval_read] at failed
    rcases bind_eq_error.mp failed with refused | ⟨lines, read, failed⟩
    · obtain ⟨fault, unreadable, rfl⟩ := readLines_eq_error_iff.mp refused
      exact .hypotheses unreadable
    rw [readLines_eq_ok_iff] at read
    rcases bind_eq_error.mp failed with refused | ⟨files, resolved, failed⟩
    · obtain ⟨fault, unresolved, rfl⟩ := mapError_eq_error.mp refused
      obtain ⟨before, pattern, after, split, earlier, refuses⟩ := (resolveBy_eq_error_iff patterns fault).mp unresolved
      exact .pattern read split earlier refuses
    rw [mapError_eq_ok] at resolved
    rcases bind_eq_error.mp failed with refused | ⟨_, _, ⟨⟩⟩
    obtain ⟨before, path, after, split, earlier, stuck⟩ := mapM_eq_error_iff.mp refused
    have aligned := exists_mapM_readReferences_iff.mp (exists_mapM_iff.mpr earlier)
    rcases readReferences_eq_error_iff.mp stuck with ⟨fault, unreadable, rfl⟩ | ⟨found, counted, uneven, rfl⟩
    · exact .references read resolved split aligned unreadable
    · exact .lineCount read resolved split aligned counted uneven
  · intro first
    cases first with
    | hypotheses unreadable => rw [eval_read, readLines_eq_error_iff.mpr ⟨_, unreadable, rfl⟩, error_bind]
    | pattern read split earlier refuses =>
      have unresolved : (Files.resolvePatterns patterns).run.eval tree = .error _ :=
        (resolveBy_eq_error_iff patterns _).mpr ⟨_, _, _, split, earlier, refuses⟩
      rw [eval_read, readLines_eq_ok_iff.mpr read, ok_bind, mapError_eq_error.mpr ⟨_, unresolved, rfl⟩, error_bind]
    | references read resolved split earlier unreadable =>
      exact read_of_refused read resolved split earlier
        (readReferences_eq_error_iff.mpr (.inl ⟨_, unreadable, rfl⟩))
    | lineCount read resolved split earlier counted uneven =>
      exact read_of_refused read resolved split earlier
        (readReferences_eq_error_iff.mpr (.inr ⟨_, counted, uneven, rfl⟩))

/-- Some file is found by patterns that resolve, if there is a pattern. -/
theorem files_ne_nil (given : patterns ≠ []) {files : List String}
    (resolved : (Files.resolvePatterns patterns).run.eval tree = .ok files) : files ≠ [] := by
  obtain ⟨pattern, member⟩ := List.exists_mem_of_ne_nil patterns given
  obtain ⟨path, found⟩ := (exists_resolveBy_iff patterns).mp ⟨files, resolved⟩ pattern member
  obtain ⟨same, listed, _⟩ := (union_of_resolveBy resolved).complete pattern member path found
  exact List.ne_nil_of_mem listed

end

/-- A corpus is read just when the hypotheses and all files of references can be read, the patterns resolve, and every
file of references has a line for every hypothesis. Its references are then the lines of these files, transposed, in the
order of the paths, and no hypothesis is without any. Otherwise the first step that fails decides the failure. -/
theorem read_transposes (hypotheses : String) {patterns : List String} (given : patterns ≠ []) (tree : FileTree) :
    ((∃ corpus, (AlignedCorpus.read hypotheses patterns).run.eval tree = .ok corpus) ↔
      ∃ lines files, HasLines tree hypotheses lines ∧ (Files.resolvePatterns patterns).run.eval tree = .ok files ∧
        ∀ path ∈ files, ∃ found, HasLines tree path found ∧ found.length = lines.length) ∧
    (∀ corpus, (AlignedCorpus.read hypotheses patterns).run.eval tree = .ok corpus ↔
      HasLines tree hypotheses corpus.hypotheses ∧
        ∃ files, (Files.resolvePatterns patterns).run.eval tree = .ok files ∧ corpus.Transposes tree files) ∧
    (∀ corpus files, (AlignedCorpus.read hypotheses patterns).run.eval tree = .ok corpus →
      (Files.resolvePatterns patterns).run.eval tree = .ok files →
        Union fittingPaths tree patterns files ∧ ∀ references ∈ corpus.referenceSets, references ≠ []) ∧
    ∀ f, (AlignedCorpus.read hypotheses patterns).run.eval tree = .error f ↔ FirstFailure tree hypotheses patterns f := by
  refine ⟨?_, read_eq_ok_iff, fun corpus files read resolved => ?_, read_eq_error_iff⟩
  · constructor
    · rintro ⟨corpus, read⟩
      obtain ⟨has, files, resolved, transposes⟩ := (read_eq_ok_iff corpus).mp read
      exact ⟨corpus.hypotheses, files, has, resolved, transposes.aligned⟩
    · rintro ⟨lines, files, has, resolved, aligned⟩
      obtain ⟨columns, columnsRead⟩ := exists_mapM_readReferences_iff.mpr aligned
      have transposes := transposes_of_mapM columnsRead
      exact ⟨_, (read_eq_ok_iff _).mpr ⟨has, files, resolved, transposes⟩⟩
  · refine ⟨union_of_resolveBy resolved, fun references member empty => ?_⟩
    obtain ⟨_, others, same, transposes⟩ := (read_eq_ok_iff corpus).mp read
    cases same.symm.trans resolved
    have width := transposes.entries references member
    rw [empty] at width
    exact files_ne_nil given resolved (List.eq_nil_of_length_eq_zero width.symm)

/-- Hypotheses with a blank line, references for all of them, for one of them, and some that are not text. -/
def unevenReferences : FileTree where
  top := .folder [("hyp.txt", .file "a\n\nb".toUTF8), ("ref.a", .file "c\r\n\nd\n".toUTF8), ("ref.b", .file "e\n".toUTF8),
    ("ref.c", .file ⟨#[255]⟩)]

/-- The file of too few lines comes before the one that is not text. Without both the corpus is read. -/
theorem read_transposes_uneven :
    (AlignedCorpus.read "hyp.txt" ["ref.*"]).run.eval unevenReferences = .error { cause := .lineCount "ref.b" 3 1 } ∧
      ∀ references ∈ [["c"], [""], ["d"]], references ≠ [] := by
  have hypotheses : HasLines unevenReferences "hyp.txt" ["a", "", "b"] :=
    readLines_eq_ok_iff.mp (by decide +kernel)
  have first : HasLines unevenReferences "ref.a" ["c", "", "d"] := readLines_eq_ok_iff.mp (by decide +kernel)
  have second : HasLines unevenReferences "ref.b" ["e"] := readLines_eq_ok_iff.mp (by decide +kernel)
  have resolved : (Files.resolvePatterns ["ref.*"]).run.eval unevenReferences = .ok ["ref.a", "ref.b", "ref.c"] := by
    have each : (["ref.*"].mapM fun pattern => (resolvePattern fittingPaths pattern).run.eval unevenReferences) =
        .ok [["ref.a", "ref.b", "ref.c"]] := by decide +kernel
    have sorted : sortPaths ["ref.a", "ref.b", "ref.c"] = ["ref.a", "ref.b", "ref.c"] := by
      rw [sortPaths, List.mergeSort_of_pairwise (by decide +kernel)]
      decide +kernel
    rw [Files.resolvePatterns, eval_resolveBy, each]
    exact congrArg Except.ok sorted
  have failure : FirstFailure unevenReferences "hyp.txt" ["ref.*"] { cause := .lineCount "ref.b" 3 1 } :=
    .lineCount hypotheses resolved (show _ = ["ref.a"] ++ "ref.b" :: ["ref.c"] from rfl)
      (by simpa using ⟨_, first, rfl⟩) second (by decide)
  have read : (AlignedCorpus.read "hyp.txt" ["ref.a"]).run.eval unevenReferences =
      .ok ⟨["a", "", "b"], [["c"], [""], ["d"]]⟩ := by decide +kernel
  have alone : (Files.resolvePatterns ["ref.a"]).run.eval unevenReferences = .ok ["ref.a"] := by decide +kernel
  exact ⟨((read_transposes "hyp.txt" (by simp) unevenReferences).2.2.2 _).mpr failure,
    ((read_transposes "hyp.txt" (by simp) unevenReferences).2.2.1 _ _ read alone).2⟩

end AlignedCorpus

end Bleu.Command
