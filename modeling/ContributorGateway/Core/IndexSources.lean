import ContributorGateway.Core.ContentReads
import ContributorGateway.Core.QaStatus
import ContributorGateway.Core.SymbolIndex
import ContributorGateway.Foundation.CsvReader
import ContributorGateway.Foundation.LineNumbers

/-!
# Sources of the indexes

What the task index and the symbol index share: the texts of the snapshot, the rows of delimited
texts, and the places that records are read from.
-/

namespace ContributorGateway

open RepositoryContent

/-- What the indexes take from Python's Unicode tables. -/
structure CharacterTables where
  /-- `str.lower`. -/
  lower : List Char → List Char
  fold : Symbols.CasefoldTable
  upper : UpperTable
  /-- `\d` in a pattern. -/
  isDecimal : Char → Bool
  /-- `str.isdigit` on one character. -/
  isDigit : Char → Bool

/-- `text.casefold()`. -/
def CharacterTables.casefold (tables : CharacterTables) (text : List Char) : List Char :=
  text.flatMap tables.fold.map

/-- The exceptions while an index is built. -/
inductive SourceError where
  /-- A `TaskIndexError` or a `SymbolIndexError`. -/
  | index (message : String)
  | content (error : ContentError)
  deriving DecidableEq

/-- `_text`. -/
def sourceText (tables : CharacterTables) (snapshot : Snapshot) (path : String) :
    Except SourceError (List Char) := do
  let item ← (resolveRelativeFile tables.lower snapshot path.toList).mapError .content
  let (text, _) ← (readTextBounded snapshot item maxFileBytes).mapError .content
  .ok text

/-! ## Places -/

/-- Where a record stands in a text: on a line of `str.splitlines` with its number from one, or in
a row of a delimited text. -/
inductive Place where
  | line (text : List Char) (number : ℕ)
  | row (text : List Char) (row : Csv.Row)

/-- The text that a place lies in. -/
def Place.text : Place → List Char
  | .line text _ => text
  | .row text _ => text

/-- The text before the line or the row. -/
def Place.before : Place → List Char
  | .line text number => beforeLine text number
  | .row text source => source.before text

/-- The number that the indexes give: that of `enumerate(text.splitlines(), start=1)` or the
`line_num` of the reader. -/
def Place.cited : Place → ℕ
  | .line _ number => number
  | .row _ source => source.lineNum

/-- The number, among the lines of `text.split("\n")`, of the one where the place starts. -/
def Place.start (place : Place) : ℕ := (place.before.splitOn '\n').length

/-- A record with the place that it was read from and cites. -/
structure Placed {α : Type} (lineOf : α → ℕ) where
  place : Place
  value : α
  cites : lineOf value = place.cited

/-- The lines of `enumerate(text.splitlines(), start=1)`. -/
def numberedLines (text : List Char) : List (Place × List Char) :=
  ((splitlines text).zipIdx 1).map fun line => (.line text line.2, line.1)

/-- `_csv_rows` and `_strict_csv_rows`: the cells of the rows below the header. -/
def delimitedRows (d : Csv.Dialect) (invalid path : String) (headers : List String)
    (text : List Char) : Except SourceError (List (Place × List (List Char))) :=
  let output := Csv.reader d text
  match output.rows with
  | [] =>
      if output.failed then .error (.index (path ++ invalid))
      else .error (.index (path ++ " has unexpected headers"))
  | header :: rows =>
      if header.cells ≠ headers.map String.toList then
        .error (.index (path ++ " has unexpected headers"))
      else do
        let kept ← (rows.filter fun row => row.cells ≠ []).mapM fun row =>
          if row.cells.length ≠ headers.length then
            .error (.index (path ++ " contains a malformed row"))
          else .ok (.row text row, row.cells)
        if output.failed then .error (.index (path ++ invalid)) else .ok kept

/-- The value of `dict(zip(headers, cells))` at a header. -/
def cellOf (headers : List String) (cells : List (List Char)) (header : String) : List Char :=
  ((headers.zip cells).lookup header).getD []

/-! ## Where places start -/

/-- A line of a text, or a row that a reader delivers. -/
inductive Place.Stands : Place → Prop where
  | line {text : List Char} {number : ℕ} (hpos : 1 ≤ number)
      (hnumber : number ≤ (splitlines text).length) : Place.Stands (.line text number)
  | row {text : List Char} {row : Csv.Row} (d : Csv.Dialect)
      (hrow : row ∈ (Csv.reader d text).rows) : Place.Stands (.row text row)

/-- A line is plain if every break before it is a line feed, perhaps behind a carriage return, and
a row is plain if no cell of it has a line feed. -/
def Place.IsPlain : Place → Prop
  | .line text number => ∀ l ∈ (brokenLines text).take (number - 1), IsNewlineBreak l.2
  | .row _ source => ∀ cell ∈ source.cells, '\n' ∉ cell

instance : DecidablePred Place.IsPlain
  | .line text number => inferInstanceAs (Decidable
      (∀ l ∈ (brokenLines text).take (number - 1), IsNewlineBreak l.2))
  | .row _ source => inferInstanceAs (Decidable (∀ cell ∈ source.cells, '\n' ∉ cell))

/-- The numbered lines of a text stand in it. -/
theorem stands_of_mem_numberedLines {text : List Char} {line : Place × List Char}
    (h : line ∈ numberedLines text) : line.1.Stands ∧ line.1.text = text := by
  obtain ⟨⟨content, number⟩, hmem, rfl⟩ := List.mem_map.mp h
  obtain ⟨hpos, hget⟩ := List.mem_zipIdx_iff_le_and_getElem?_sub.mp hmem
  obtain ⟨hlength, -⟩ := List.getElem?_eq_some_iff.mp hget
  exact ⟨.line hpos (by omega), rfl⟩

/-- The rows of a delimited text stand in it. -/
theorem stands_of_mem_delimitedRows {d : Csv.Dialect} {invalid path : String}
    {headers : List String} {text : List Char} {rows : List (Place × List (List Char))}
    (h : delimitedRows d invalid path headers text = .ok rows)
    {row : Place × List (List Char)} (hrow : row ∈ rows) :
    row.1.Stands ∧ row.1.text = text := by
  rw [delimitedRows] at h
  split at h
  · split at h
    · cases h
    · cases h
  · next header output hrows =>
    split at h
    · cases h
    obtain ⟨kept, hkept, h⟩ := bind_eq_ok.mp h
    split at h
    · cases h
    obtain rfl := Except.ok.inj h
    obtain ⟨source, hsource, hmap⟩ := exists_of_mem_mapM hkept hrow
    split_ifs at hmap
    obtain rfl := Except.ok.inj hmap
    refine ⟨.row d ?_, rfl⟩
    rw [hrows]
    exact List.mem_cons_of_mem _ (List.mem_of_mem_filter hsource)

/-- The lines of `text.split("\n")` are one more than the line feeds. -/
theorem length_splitOn_newline (text : List Char) :
    (text.splitOn '\n').length = 1 + text.count '\n' := by
  induction text with
  | nil => rfl
  | cons c text ih =>
    rw [List.splitOn, List.splitOnP_cons_eq_if_modifyHead, ← List.splitOn]
    split_ifs with hc
    · rw [List.length_cons, ih, eq_of_beq hc, List.count_cons_self]
      omega
    · rw [List.length_modifyHead, ih, List.count_cons_of_ne (fun heq => hc (by simp [heq]))]

/-- A place cites the line where it starts if and only if it is plain. -/
theorem Place.Stands.cited_eq_start_iff {place : Place} (h : place.Stands) :
    place.cited = place.start ↔ place.IsPlain := by
  rw [Place.start, length_splitOn_newline]
  cases h with
  | line hpos hnumber => exact number_eq_iff hpos hnumber
  | @row text row d hrow =>
    obtain ⟨-, hstart, hspans⟩ := Csv.lines_of_mem_reader hrow
    have hcount : row.cells.flatten.count '\n' = 0 ↔ ∀ cell ∈ row.cells, '\n' ∉ cell := by
      rw [List.count_eq_zero, List.mem_flatten]
      exact ⟨fun hnone cell hcell hmem => hnone ⟨cell, hcell, hmem⟩,
        fun hcells ⟨cell, hcell, hmem⟩ => hcells cell hcell hmem⟩
    rw [Place.IsPlain, ← hcount, Place.cited, Place.before, ← hstart, hspans]
    omega

end ContributorGateway
