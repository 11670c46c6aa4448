import Mathlib.Data.List.Basic
import Mathlib.Tactic.SplitIfs

/-!
# The reader of delimited texts

`csv.reader` in strict mode on the lines of a stream. A quoted field may go on in the next line,
so that a record takes as many lines as its fields have line feeds, and one more.
-/

namespace ContributorGateway

/-- The lines of a stream: a line feed ends a line and belongs to it. -/
def streamLines : List Char → List (List Char)
  | [] => []
  | c :: rest =>
      if c = '\n' then ['\n'] :: streamLines rest
      else
        match streamLines rest with
        | [] => [[c]]
        | line :: lines => (c :: line) :: lines

namespace Csv

/-! ## The source -/

/-- The states of the reader. -/
inductive State where
  | startRecord
  | startField
  | inField
  | inQuotedField
  | quoteInQuotedField
  | eatNewline
  deriving DecidableEq

/-- A dialect with double quotes, in strict mode. -/
structure Dialect where
  delimiter : Char
  skipInitialSpace : Bool
  delimiter_ne : delimiter ≠ '\n'

/-- A comma can separate fields. -/
theorem comma_ne_newline : ',' ≠ '\n' := by decide

/-- `csv.field_size_limit()`. -/
def fieldSizeLimit : ℕ := 131072

/-- A record as far as it is read. -/
structure Record where
  state : State
  fields : List (List Char)
  field : List Char
  deriving DecidableEq

/-- The record before its first line. -/
def Record.empty : Record := ⟨.startRecord, [], []⟩

/-- `parse_save_field`. -/
def Record.save (r : Record) (state : State) : Record := ⟨state, r.fields ++ [r.field], []⟩

/-- `parse_add_char`. -/
def Record.add (r : Record) (state : State) (c : Char) : Option Record :=
  if fieldSizeLimit ≤ r.field.length then none else some ⟨state, r.fields, r.field ++ [c]⟩

/-- Whether a character ends an unquoted field with its line. -/
def isNewline (c : Char) : Bool := c = '\n' || c = '\r'

/-- A character where a field starts. -/
def startField (d : Dialect) (r : Record) (c : Char) : Option Record :=
  if isNewline c then some (r.save .eatNewline)
  else if c = '"' then some { r with state := .inQuotedField }
  else if c = ' ' && d.skipInitialSpace then some { r with state := .startField }
  else if c = d.delimiter then some (r.save .startField)
  else r.add .inField c

/-- `parse_process_char` on a character; `none` is a `csv.Error`. -/
def processChar (d : Dialect) (r : Record) (c : Char) : Option Record :=
  match r.state with
  | .startRecord =>
      if isNewline c then some { r with state := .eatNewline } else startField d r c
  | .startField => startField d r c
  | .inField =>
      if isNewline c then some (r.save .eatNewline)
      else if c = d.delimiter then some (r.save .startField)
      else r.add .inField c
  | .inQuotedField =>
      if c = '"' then some { r with state := .quoteInQuotedField } else r.add .inQuotedField c
  | .quoteInQuotedField =>
      if c = '"' then r.add .inQuotedField c
      else if c = d.delimiter then some (r.save .startField)
      else if isNewline c then some (r.save .eatNewline)
      else none
  | .eatNewline => if isNewline c then some r else none

/-- `parse_process_char` at the end of a line. -/
def endLine (r : Record) : Record :=
  match r.state with
  | .startRecord => r
  | .startField => r.save .startRecord
  | .inField => r.save .startRecord
  | .inQuotedField => r
  | .quoteInQuotedField => r.save .startRecord
  | .eatNewline => { r with state := .startRecord }

/-- A line of the stream. -/
def processLine (d : Dialect) (r : Record) (line : List Char) : Option Record :=
  (line.foldlM (processChar d) r).map endLine

/-- A record with the lines where it starts and ends. The reader's `line_num` after the record
is the line where it ends. -/
structure Row where
  startLine : ℕ
  lineNum : ℕ
  cells : List (List Char)
  deriving DecidableEq

/-- The records of a stream until it ends or a `csv.Error` is raised. -/
structure Output where
  rows : List Row
  failed : Bool
  deriving DecidableEq

/-- The records from a line on, where a record that has started is read. -/
def readFrom (d : Dialect) (startLine : ℕ) (r : Record) : ℕ → List (List Char) → Output
  | _, [] => ⟨[], decide (r.field ≠ [] ∨ r.state = .inQuotedField)⟩
  | lineNum, line :: rest =>
      match processLine d r line with
      | none => ⟨[], true⟩
      | some r =>
          if r.state = .startRecord then
            let output := readFrom d (lineNum + 2) .empty (lineNum + 1) rest
            ⟨⟨startLine, lineNum + 1, r.fields⟩ :: output.rows, output.failed⟩
          else readFrom d startLine r (lineNum + 1) rest

/-- `csv.reader(io.StringIO(text), strict=True)`. -/
def reader (d : Dialect) (text : List Char) : Output :=
  readFrom d 1 .empty 0 (streamLines text)

/-! ## Lines of records -/

/-- The line feeds in the fields of a record. -/
def Record.newlines (r : Record) : ℕ := r.fields.flatten.count '\n' + r.field.count '\n'

variable {d : Dialect} {r r' : Record} {c : Char}

theorem newlines_save (r : Record) (state : State) : (r.save state).newlines = r.newlines := by
  simp [Record.newlines, Record.save]

theorem newlines_add {state : State} (h : r.add state c = some r') :
    r'.newlines = r.newlines + [c].count '\n' ∧ r'.state = state := by
  rw [Record.add] at h
  split_ifs at h
  obtain rfl := Option.some.inj h
  refine ⟨?_, rfl⟩
  simp only [Record.newlines, List.count_append]
  omega

/-- What a character does to the line feeds of a record: one in a quoted field is kept and leaves
the field open, another one ends the record, and no other character adds any. -/
def Keeps (c : Char) (r r' : Record) : Prop :=
  if c = '\n' then
    (r'.state = .inQuotedField ∧ r'.newlines = r.newlines + 1) ∨
      (r'.state = .eatNewline ∧ r'.newlines = r.newlines)
  else r'.newlines = r.newlines

/-- A record that is saved keeps its line feeds. -/
theorem keeps_save (hc : c ≠ '\n') (state : State) : Keeps c r (r.save state) := by
  rw [Keeps, if_neg hc]
  exact newlines_save r state

/-- A line feed ends a field. -/
theorem keeps_end (r : Record) (c : Char) : Keeps c r (r.save .eatNewline) := by
  rw [Keeps]
  split_ifs
  · exact .inr ⟨rfl, newlines_save r .eatNewline⟩
  · exact newlines_save r .eatNewline

/-- A character other than a line feed is added. -/
theorem keeps_add {state : State} (hc : c ≠ '\n') (h : r.add state c = some r') :
    Keeps c r r' := by
  obtain ⟨hcount, -⟩ := newlines_add h
  rw [Keeps, if_neg hc, hcount, List.count_singleton, if_neg (by simpa using hc), Nat.add_zero]

theorem keeps_startField (h : startField d r c = some r') : Keeps c r r' := by
  rw [startField] at h
  split at h
  · obtain rfl := Option.some.inj h
    exact keeps_end r c
  · next hline =>
    have hc : c ≠ '\n' := by
      rintro rfl
      exact hline (by decide)
    split_ifs at h
    · obtain rfl := Option.some.inj h
      rw [Keeps, if_neg hc]
      rfl
    · obtain rfl := Option.some.inj h
      rw [Keeps, if_neg hc]
      rfl
    · obtain rfl := Option.some.inj h
      exact keeps_save hc .startField
    · exact keeps_add hc h

theorem keeps_processChar (h : processChar d r c = some r') : Keeps c r r' := by
  rw [processChar] at h
  split at h
  · split_ifs at h
    · obtain rfl := Option.some.inj h
      rw [Keeps]
      split_ifs
      · exact .inr ⟨rfl, rfl⟩
      · rfl
    · exact keeps_startField h
  · exact keeps_startField h
  · split at h
    · obtain rfl := Option.some.inj h
      exact keeps_end r c
    · next hline =>
      have hc : c ≠ '\n' := by
        rintro rfl
        exact hline (by decide)
      split_ifs at h
      · obtain rfl := Option.some.inj h
        exact keeps_save hc .startField
      · exact keeps_add hc h
  · split_ifs at h with hquote
    · obtain rfl := Option.some.inj h
      subst hquote
      rw [Keeps, if_neg (by decide)]
      rfl
    · obtain ⟨hcount, hstate⟩ := newlines_add h
      rw [Keeps]
      split_ifs with hc
      · subst hc
        exact .inl ⟨hstate, hcount⟩
      · exact hcount.trans (by simp [hc])
  · split_ifs at h with hquote hdelimiter
    · subst hquote
      exact keeps_add (by decide) h
    · obtain rfl := Option.some.inj h
      exact keeps_save (hdelimiter ▸ d.delimiter_ne) .startField
    · obtain rfl := Option.some.inj h
      exact keeps_end r c
  · split_ifs at h
    obtain rfl := Option.some.inj h
    rw [Keeps]
    split_ifs
    · exact .inr ⟨‹_›, rfl⟩
    · rfl

/-- Characters other than line feeds add none. -/
theorem newlines_foldlM {body : List Char} (hbody : '\n' ∉ body)
    (h : body.foldlM (processChar d) r = some r') : r'.newlines = r.newlines := by
  induction body generalizing r with
  | nil => rw [Option.some.inj h]
  | cons c body ih =>
    rw [List.mem_cons, not_or] at hbody
    rw [List.foldlM_cons] at h
    obtain ⟨r₁, hfirst, hrest⟩ := Option.bind_eq_some_iff.mp h
    have hkeeps := keeps_processChar hfirst
    rw [Keeps, if_neg (Ne.symm hbody.1)] at hkeeps
    rw [ih hbody.2 hrest, hkeeps]

/-- The end of a line leaves a quoted field open and ends the record otherwise. -/
theorem endLine_cases (r : Record) : (endLine r).newlines = r.newlines ∧
    ((endLine r).state = .startRecord ∨
      (endLine r).state = .inQuotedField ∧ r.state = .inQuotedField) := by
  rw [endLine]
  split
  · next hstate => exact ⟨rfl, .inl hstate⟩
  · exact ⟨newlines_save r _, .inl rfl⟩
  · exact ⟨newlines_save r _, .inl rfl⟩
  · next hstate => exact ⟨rfl, .inr ⟨hstate, hstate⟩⟩
  · exact ⟨newlines_save r _, .inl rfl⟩
  · exact ⟨rfl, .inl rfl⟩

/-- Between fields nothing of a field is read. -/
def Record.Clean (r : Record) : Prop :=
  r.state = .startRecord ∨ r.state = .startField ∨ r.state = .eatNewline → r.field = []

theorem clean_empty : Record.empty.Clean := fun _ => rfl

theorem clean_save (r : Record) (state : State) : (r.save state).Clean := fun _ => rfl

theorem clean_add {state : State} (hstate : state = .inField ∨ state = .inQuotedField)
    (h : r.add state c = some r') : r'.Clean := by
  obtain ⟨-, hadded⟩ := newlines_add h
  intro hbetween
  rcases hstate with rfl | rfl
  · simp [hadded] at hbetween
  · simp [hadded] at hbetween

theorem clean_startField (hclean : r.field = []) (h : startField d r c = some r') : r'.Clean := by
  rw [startField] at h
  split_ifs at h
  · obtain rfl := Option.some.inj h
    exact clean_save r _
  · obtain rfl := Option.some.inj h
    exact fun _ => hclean
  · obtain rfl := Option.some.inj h
    exact fun _ => hclean
  · obtain rfl := Option.some.inj h
    exact clean_save r _
  · exact clean_add (.inl rfl) h

theorem clean_processChar (hclean : r.Clean) (h : processChar d r c = some r') : r'.Clean := by
  rw [processChar] at h
  split at h
  · next hstate =>
    have hfield : r.field = [] := hclean (.inl hstate)
    split_ifs at h
    · obtain rfl := Option.some.inj h
      exact fun _ => hfield
    · exact clean_startField hfield h
  · next hstate => exact clean_startField (hclean (.inr (.inl hstate))) h
  · split_ifs at h
    · obtain rfl := Option.some.inj h
      exact clean_save r _
    · obtain rfl := Option.some.inj h
      exact clean_save r _
    · exact clean_add (.inl rfl) h
  · split_ifs at h
    · obtain rfl := Option.some.inj h
      simp [Record.Clean]
    · exact clean_add (.inr rfl) h
  · split_ifs at h
    · exact clean_add (.inr rfl) h
    · obtain rfl := Option.some.inj h
      exact clean_save r _
    · obtain rfl := Option.some.inj h
      exact clean_save r _
  · next hstate =>
    split_ifs at h
    obtain rfl := Option.some.inj h
    exact hclean

theorem clean_foldlM {line : List Char} (hclean : r.Clean)
    (h : line.foldlM (processChar d) r = some r') : r'.Clean := by
  induction line generalizing r with
  | nil => rwa [← Option.some.inj h]
  | cons c line ih =>
    rw [List.foldlM_cons] at h
    obtain ⟨r₁, hfirst, hrest⟩ := Option.bind_eq_some_iff.mp h
    exact ih (clean_processChar hclean hfirst) hrest

theorem clean_endLine (hclean : r.Clean) : (endLine r).Clean := by
  rw [endLine]
  split
  · exact hclean
  · exact clean_save r _
  · exact clean_save r _
  · exact hclean
  · exact clean_save r _
  · next hstate => exact fun _ => hclean (.inr (.inr hstate))

theorem clean_processLine {line : List Char} (hclean : r.Clean)
    (h : processLine d r line = some r') : r'.Clean := by
  obtain ⟨r₁, hfold, rfl⟩ := Option.map_eq_some_iff.mp h
  exact clean_endLine (clean_foldlM hclean hfold)

/-- A line of a stream has one line feed, at its end, unless it is the last one. -/
def Streamed : List (List Char) → Prop
  | [] => True
  | line :: rest =>
      (∃ body, '\n' ∉ body ∧ (line = body ++ ['\n'] ∨ line = body ∧ rest = [])) ∧ Streamed rest

/-- The lines of a text are those of a stream. -/
theorem streamed_streamLines (text : List Char) : Streamed (streamLines text) := by
  induction text with
  | nil => trivial
  | cons c rest ih =>
    rw [streamLines]
    split_ifs with hc
    · exact ⟨⟨[], List.not_mem_nil, .inl rfl⟩, ih⟩
    · cases hlines : streamLines rest with
      | nil => exact ⟨⟨[c], by simpa using Ne.symm hc, .inr ⟨rfl, rfl⟩⟩, trivial⟩
      | cons line lines =>
        rw [hlines] at ih
        obtain ⟨⟨body, hbody, hline⟩, hrest⟩ := ih
        refine ⟨⟨c :: body, ?_, ?_⟩, hrest⟩
        · rw [List.mem_cons, not_or]
          exact ⟨Ne.symm hc, hbody⟩
        · rcases hline with rfl | ⟨rfl, rfl⟩
          · exact .inl rfl
          · exact .inr ⟨rfl, rfl⟩

/-- The lines of a text are the text. -/
theorem flatten_streamLines (text : List Char) : (streamLines text).flatten = text := by
  induction text with
  | nil => rfl
  | cons c rest ih =>
    rw [streamLines]
    split_ifs with hc
    · rw [List.flatten_cons, ih, hc, List.singleton_append]
    · cases hlines : streamLines rest with
      | nil =>
        rw [hlines] at ih
        rw [← ih]
        rfl
      | cons line lines =>
        rw [hlines, List.flatten_cons] at ih
        rw [List.flatten_cons, List.cons_append, ih]

/-- As many lines of a stream have as many line feeds, before the last one. -/
theorem count_take_of_streamed {lines : List (List Char)} (h : Streamed lines) {n : ℕ}
    (hn : n < lines.length) : (lines.take n).flatten.count '\n' = n := by
  induction lines generalizing n with
  | nil => cases hn
  | cons line rest ih =>
    cases n with
    | zero => rfl
    | succ n =>
      obtain ⟨⟨body, hbody, hline⟩, hrest⟩ := h
      rw [List.length_cons] at hn
      have hends : line = body ++ ['\n'] := by
        rcases hline with hline | ⟨-, rfl⟩
        · exact hline
        · rw [List.length_nil] at hn
          omega
      rw [List.take_succ_cons, List.flatten_cons, List.count_append, ih hrest (by omega), hends,
        List.count_append, List.count_eq_zero_of_not_mem hbody, List.count_singleton_self]
      omega

/-- A line ends the record or leaves a quoted field open that keeps its line feed. -/
theorem processLine_cases {line body : List Char} {rest : List (List Char)} (hbody : '\n' ∉ body)
    (hline : line = body ++ ['\n'] ∨ line = body ∧ rest = [])
    (h : processLine d r line = some r') :
    (r'.state = .startRecord ∧ r'.newlines = r.newlines) ∨
      (r'.state = .inQuotedField ∧ (rest ≠ [] → r'.newlines = r.newlines + 1)) := by
  obtain ⟨r₁, hfold, rfl⟩ := Option.map_eq_some_iff.mp h
  obtain ⟨hnewlines, hstate⟩ := endLine_cases r₁
  rcases hline with rfl | ⟨rfl, rfl⟩
  · rw [List.foldlM_append] at hfold
    obtain ⟨r₂, hfold, hlast⟩ := Option.bind_eq_some_iff.mp hfold
    have hlast : processChar d r₂ '\n' = some r₁ := by
      rw [List.foldlM_cons] at hlast
      obtain ⟨r₃, hlast, hnil⟩ := Option.bind_eq_some_iff.mp hlast
      rw [← Option.some.inj hnil]
      exact hlast
    have hkeeps := keeps_processChar hlast
    rw [Keeps, if_pos rfl, newlines_foldlM hbody hfold] at hkeeps
    rcases hkeeps with ⟨hopen, hcount⟩ | ⟨hended, hcount⟩
    · refine .inr ⟨?_, fun _ => hnewlines.trans hcount⟩
      simp only [endLine, hopen]
    · refine .inl ⟨?_, hnewlines.trans hcount⟩
      simp only [endLine, hended]
  · rw [newlines_foldlM hbody hfold] at hnewlines
    rcases hstate with hended | ⟨hopen, -⟩
    · exact .inl ⟨hended, hnewlines⟩
    · exact .inr ⟨hopen, fun hne => absurd rfl hne⟩

/-- The lines of a record: it ends as many lines after its first one as its fields have line
feeds, within the stream. -/
structure Row.Spans (row : Row) (startLine total : ℕ) : Prop where
  starts : startLine ≤ row.startLine
  spans : row.lineNum = row.startLine + row.cells.flatten.count '\n'
  ends : row.lineNum ≤ total

/-- Every record spans its lines. -/
theorem spans_of_mem_readFrom {lines : List (List Char)} (hlines : Streamed lines)
    (hclean : r.Clean) {startLine lineNum : ℕ} (hstart : lineNum + 1 = startLine + r.newlines)
    {row : Row} (hrow : row ∈ (readFrom d startLine r lineNum lines).rows) :
    row.Spans startLine (lineNum + lines.length) := by
  induction lines generalizing startLine lineNum r with
  | nil => cases hrow
  | cons line rest ih =>
    obtain ⟨⟨body, hbody, hline⟩, hrest⟩ := hlines
    rw [readFrom] at hrow
    rw [List.length_cons]
    cases hprocess : processLine d r line with
    | none =>
      rw [hprocess] at hrow
      cases hrow
    | some r' =>
      have hclean' := clean_processLine hclean hprocess
      rw [hprocess] at hrow
      dsimp only at hrow
      rcases processLine_cases hbody hline hprocess with ⟨hstate, hcount⟩ | ⟨hstate, hcount⟩
      · rw [if_pos hstate] at hrow
        rcases List.mem_cons.mp hrow with rfl | hrow
        · have hcells : r'.newlines = r'.fields.flatten.count '\n' := by
            rw [Record.newlines, hclean' (.inl hstate), List.count_nil, Nat.add_zero]
          refine ⟨Nat.le_refl _, ?_, ?_⟩
          · dsimp only
            omega
          · dsimp only
            omega
        · obtain ⟨hstarts, hspans, hends⟩ := ih hrest clean_empty (by rfl) hrow
          exact ⟨by omega, hspans, by omega⟩
      · rw [hstate, if_neg (by decide)] at hrow
        cases rest with
        | nil => cases hrow
        | cons next rest =>
          have hadded := hcount (List.cons_ne_nil next rest)
          obtain ⟨hstarts, hspans, hends⟩ := ih hrest hclean' (by omega) hrow
          exact ⟨hstarts, hspans, by omega⟩

/-- The text before a record, up to the line where it starts. -/
def Row.before (row : Row) (text : List Char) : List Char :=
  ((streamLines text).take (row.startLine - 1)).flatten

/-- A record starts on the line after as many line feeds as there are before it, and its fields
have a line feed for each line that follows. -/
theorem lines_of_mem_reader {text : List Char} {row : Row} (hrow : row ∈ (reader d text).rows) :
    row.before text <+: text ∧ row.startLine = 1 + (row.before text).count '\n' ∧
      row.lineNum = row.startLine + row.cells.flatten.count '\n' := by
  have hstreamed := streamed_streamLines text
  obtain ⟨hstarts, hspans, hends⟩ := spans_of_mem_readFrom hstreamed clean_empty (by rfl) hrow
  rw [Nat.zero_add] at hends
  refine ⟨?_, ?_, hspans⟩
  · refine ⟨((streamLines text).drop (row.startLine - 1)).flatten, ?_⟩
    rw [Row.before, ← List.flatten_append, List.take_append_drop, flatten_streamLines]
  · rw [Row.before, count_take_of_streamed hstreamed (by omega)]
    omega

end Csv

end ContributorGateway
