import ContributorGateway.Core.ReachableFiles
import ContributorGateway.Core.SymbolSources
import ContributorGateway.Core.TaskIndex

/-!
# Cited lines

The indexes number lines as `str.splitlines` and the CSV reader do, and citations and searches
count line feeds alone. The numbers agree exactly for the records at plain places.
-/

namespace ContributorGateway

open CommittedTasks Node RepositoryContent

/-! ## Lines of searches -/

/-- A text without line feeds is one line. -/
theorem splitOn_of_notMem {text : List Char} (htext : '\n' ∉ text) :
    text.splitOn '\n' = [text] := by
  refine List.splitOnP_eq_singleton fun c hc => ?_
  rw [beq_eq_false_iff_ne]
  rintro rfl
  exact htext hc

/-- A line feed separates the lines before it from those after it. -/
theorem splitOn_append_newline (front back : List Char) :
    (front ++ '\n' :: back).splitOn '\n' = front.splitOn '\n' ++ back.splitOn '\n' :=
  List.splitOnP_append_cons front back (beq_self_eq_true '\n')

/-- The first line goes on to the first line feed. -/
theorem exists_first_line (back : List Char) : ∃ first, first <+: back ∧ '\n' ∉ first ∧
    ∀ last, '\n' ∉ last → ((last ++ back).splitOn '\n')[0]? = some (last ++ first) := by
  by_cases hback : '\n' ∈ back
  · obtain ⟨first, rest, rfl, hfirst⟩ := List.eq_append_cons_of_mem hback
    refine ⟨first, List.prefix_append first _, hfirst, fun last hlast => ?_⟩
    have hline : '\n' ∉ last ++ first := by
      rw [List.mem_append, not_or]
      exact ⟨hlast, hfirst⟩
    rw [← List.append_assoc, splitOn_append_newline, splitOn_of_notMem hline]
    rfl
  · refine ⟨back, List.prefix_rfl, hback, fun last hlast => ?_⟩
    have hline : '\n' ∉ last ++ back := by
      rw [List.mem_append, not_or]
      exact ⟨hlast, hback⟩
    rw [splitOn_of_notMem hline]
    rfl

/-- The line of a text in which a back of it begins. -/
theorem getElem?_splitOn_append (front back : List Char) :
    ∃ last first, last <:+ front ∧ first <+: back ∧ '\n' ∉ last ++ first ∧
      ((front ++ back).splitOn '\n')[(front.splitOn '\n').length - 1]? = some (last ++ first) := by
  obtain ⟨first, hprefix, hfirst, hsplit⟩ := exists_first_line back
  by_cases hfront : '\n' ∈ front
  · obtain ⟨rest, lines, hreverse, hrest⟩ :=
      List.eq_append_cons_of_mem (List.mem_reverse.mpr hfront)
    obtain rfl : front = lines.reverse ++ '\n' :: rest.reverse := by
      rw [← List.reverse_reverse front, hreverse]
      simp
    have hlast : '\n' ∉ rest.reverse := by rwa [List.mem_reverse]
    refine ⟨rest.reverse, first, ?_, hprefix, ?_, ?_⟩
    · exact (List.suffix_cons _ _).trans (List.suffix_append _ _)
    · rw [List.mem_append, not_or]
      exact ⟨hlast, hfirst⟩
    · rw [List.append_assoc, List.cons_append, splitOn_append_newline, splitOn_append_newline,
        splitOn_of_notMem hlast, List.length_append, List.length_singleton, Nat.add_sub_cancel,
        List.getElem?_append_right (Nat.le_refl _), Nat.sub_self]
      exact hsplit _ hlast
  · refine ⟨front, first, List.suffix_rfl, hprefix, ?_, ?_⟩
    · rw [List.mem_append, not_or]
      exact ⟨hfront, hfirst⟩
    · rw [splitOn_of_notMem hfront]
      exact hsplit front hfront

/-- A search finds the beginning of a place on the line with its number. -/
def Place.StartsOnLine (place : Place) : Prop :=
  ∃ last first rest, place.text = place.before ++ rest ∧ last <:+ place.before ∧
    first <+: rest ∧ '\n' ∉ last ++ first ∧
    ContentSearch.lineAt place.text place.start = some (last ++ first)

theorem Place.Stands.startsOnLine {place : Place} (h : place.Stands) : place.StartsOnLine := by
  have hprefix : place.before <+: place.text := by
    cases h with
    | @line text number hpos hnumber => exact beforeLine_prefix text number
    | @row text row d hrow => exact (Csv.lines_of_mem_reader hrow).1
  obtain ⟨rest, hrest⟩ := hprefix
  obtain ⟨last, first, hlast, hfirst, hline, hget⟩ := getElem?_splitOn_append place.before rest
  refine ⟨last, first, rest, hrest.symm, hlast, hfirst, hline, ?_⟩
  have hpos : (1 : ℤ) ≤ place.start := by
    rw [Place.start, length_splitOn_newline]
    omega
  rw [ContentSearch.lineAt, if_pos hpos, Int.toNat_natCast, ← hrest]
  exact hget

/-! ## Records -/

/-- The records of both indexes cite the line where the item, the table row or the CSV row of the
record starts, and where a search finds its beginning, if and only if it stands at a plain place.
Each is read from the file that it cites. -/
theorem cited_line_iff (tables : CharacterTables) (snapshot : Snapshot) :
    (∀ index, taskIndex tables snapshot = .ok index → ∀ task ∈ index.tasks,
      sourceText tables snapshot task.record.sourcePath = .ok task.place.text ∧
        task.place.StartsOnLine ∧ (task.record.sourceLine = task.place.start ↔ task.place.IsPlain)) ∧
    ∀ sources, Symbols.symbolSources tables snapshot = .ok sources →
      (∀ place record, (place, record) ∈ sources.citedRecords →
        sourceText tables snapshot record.source.path = .ok place.text ∧
          place.StartsOnLine ∧ (record.source.line = some place.start ↔ place.IsPlain)) ∧
      ∀ symbols, sources.index snapshot = .ok symbols → ∀ record ∈ symbols.records,
        record.kind ≠ .fourcc → ∃ place, (place, record) ∈ sources.citedRecords := by
  refine ⟨fun index hindex task htask => ?_, fun sources hsources => ⟨?_, ?_⟩⟩
  · obtain ⟨text, htext, hread⟩ := readFrom_of_mem_taskIndex hindex htask
    refine ⟨hread.text ▸ htext, hread.stands.startsOnLine, ?_⟩
    rw [(TaskEntry.records task.built).line]
    exact hread.stands.cited_eq_start_iff
  · intro place record hmem
    obtain ⟨hstands, htext, hline⟩ := Symbols.citesPlace_of_mem hsources hmem
    refine ⟨htext, hstands.startsOnLine, ?_⟩
    rw [hline, Option.some.injEq]
    exact hstands.cited_eq_start_iff
  · intro symbols hsymbols record hrecord hkind
    exact Symbols.exists_place hsymbols hrecord hkind

/-! ## A snapshot with both indexes -/

/-- The approved root files and directories, and the files of both indexes. -/
def sourceEntries : Entries :=
  [("AGENTS.md".toList, .file 0), ("README.md".toList, .file 1), ("Makefile".toList, .file 2),
    ("src".toList, .dir []), ("instrument".toList, .dir []), ("tools".toList, .dir []),
    ("docs".toList, .dir [
      ("_gam_classids.tsv".toList, .file 3),
      ("asset_catalog".toList, .dir [("behavior_todo.md".toList, .file 4)]),
      ("decomp".toList, .dir [("Ant.md".toList, .file 5), ("_next_session.md".toList, .file 6)]),
      ("decomp_ledger.csv".toList, .file 7),
      ("linkage_certificates.csv".toList, .file 8),
      ("qa".toList, .dir [("qa_backlog_campaign_handoff.md".toList, .file 9)])]),
    ("web".toList, .dir [])]

/-- A row of a table. -/
def tableLine (cells : List String) : List Char :=
  '|' :: cells.flatMap (fun cell => cell.toList ++ ['|']) ++ ['\n']

/-- A row of a delimited text. -/
def delimitedLine (delimiter : Char) (cells : List String) : List Char :=
  [delimiter].intercalate (cells.map String.toList) ++ ['\n']

/-- The texts of the files, with a handoff and a decomp ledger below its header. -/
def sourceTexts (handoff ledger : List Char) : List (List Char) := [
  "a line\n".toList, "a line\n".toList, "a line\n".toList,
  delimitedLine ' ' Symbols.classIdHeaders ++ "ABCD DCBA @00000001 ?? Ant\n".toList,
  "## ".toList ++ queueSection.toList ++ '\n' :: tableLine catalogQueueHeaders ++
    "## ".toList ++ unusedSection.toList ++ '\n' :: tableLine catalogUnusedHeaders,
  "## Identity\n".toList ++ tableLine ["Item", "Value"] ++ tableLine ["---", "---"] ++
    tableLine ["RTTI name", "Ant"] ++ "## Vtable Methods\n".toList,
  handoff,
  delimitedLine ',' decompHeaders ++ ledger,
  delimitedLine ',' linkageHeaders,
  "## Master report ledger\n".toList ++ tableLine qaHeaders]

theorem wellNamed_sourceEntries : (Node.dir sourceEntries).WellNamed := by
  simp [sourceEntries, Node.WellNamed, Node.WellNamedEntries, IsFileName, PurePosixPath.IsName,
    PurePosixPath.isDropped, nul]

theorem counted_sourceEntries (inode : ℕ) :
    ((filesIn [] sourceEntries).map Prod.snd).count inode ≤ 1 :=
  List.nodup_iff_count_le_one.mp (by decide +kernel) inode

/-- A disk with the files of both indexes. -/
def sourceDisk (handoff ledger : List Char) : Disk where
  entries := sourceEntries
  links _ := 1
  data inode := utf8Encode ((sourceTexts handoff ledger)[inode]?.getD [])
  wellNamed := wellNamed_sourceEntries
  counted := counted_sourceEntries

/-- The manifest of the disk, with a digest of no characters. -/
def sourceManifest (totalBytes : ℕ) : SnapshotManifest where
  commit := List.replicate 40 'a'
  fileCount := 10
  totalBytes := totalBytes
  contentSha256 := []
  isCommit := ContentSearch.isCommit_guideManifest

/-- Tables for texts of ASCII letters. -/
def asciiTables : CharacterTables where
  lower := List.map Char.toLower
  fold := Symbols.asciiCasefold
  upper := asciiUpperTable
  isDecimal := Char.isDigit
  isDigit := Char.isDigit

/-- Construct both indexes, and inspect the tasks of the one and the records of the other. -/
def inspectIndexes (snapshot : Snapshot)
    (onTasks : List (BuiltTask asciiTables snapshot.commit) → Bool)
    (onRecords : List (Place × Symbols.SymbolRecord) → Bool) : Except SourceError Bool := do
  let index ← taskIndex asciiTables snapshot
  let sources ← Symbols.symbolSources asciiTables snapshot
  let _ ← sources.index snapshot
  .ok (onTasks index.tasks && onRecords sources.citedRecords)

/-- What an inspection finds is so in the indexes. -/
theorem inspectIndexes_eq_ok {snapshot : Snapshot}
    {onTasks : List (BuiltTask asciiTables snapshot.commit) → Bool}
    {onRecords : List (Place × Symbols.SymbolRecord) → Bool}
    (h : inspectIndexes snapshot onTasks onRecords = .ok true) :
    ∃ index sources symbols, taskIndex asciiTables snapshot = .ok index ∧
      Symbols.symbolSources asciiTables snapshot = .ok sources ∧
      sources.index snapshot = .ok symbols ∧ onTasks index.tasks = true ∧
      onRecords sources.citedRecords = true := by
  obtain ⟨index, hindex, h⟩ := bind_eq_ok.mp h
  obtain ⟨sources, hsources, h⟩ := bind_eq_ok.mp h
  obtain ⟨symbols, hsymbols, h⟩ := bind_eq_ok.mp h
  obtain ⟨htasks, hrecords⟩ := (Bool.and_eq_true _ _).mp (Except.ok.inj h)
  exact ⟨index, sources, symbols, hindex, hsources, hsymbols, htasks, hrecords⟩

/-- The records of plain texts cite the lines where they start. -/
theorem plain_sources_cited : ∃ snapshot index sources,
    validateSnapshot (List.map Char.toLower) (fun _ => []) (sourceManifest 604) false false
      (sourceDisk "## Live options\n- fix it\n".toList "Ant,,,,,,,todo,,,\n".toList).toTree =
        .ok snapshot ∧
    taskIndex asciiTables snapshot = .ok index ∧
    Symbols.symbolSources asciiTables snapshot = .ok sources ∧
    (∀ task ∈ index.tasks, task.record.sourceLine = task.place.start) ∧
    ∀ place record, (place, record) ∈ sources.citedRecords →
      record.source.line = some place.start := by
  have hplain : ((validateSnapshot (List.map Char.toLower) (fun _ => []) (sourceManifest 604) false
      false (sourceDisk "## Live options\n- fix it\n".toList
        "Ant,,,,,,,todo,,,\n".toList).toTree).map fun snapshot =>
      inspectIndexes snapshot (·.all fun task => task.place.IsPlain)
        (·.all fun record => record.1.IsPlain)) = .ok (.ok true) := by
    decide +kernel
  obtain ⟨snapshot, haccepted, hinspect⟩ := map_eq_ok.mp hplain
  obtain ⟨index, sources, symbols, hindex, hsources, -, htasks, hrecords⟩ :=
    inspectIndexes_eq_ok hinspect
  obtain ⟨hcitedTasks, hcitedRecords⟩ := cited_line_iff asciiTables snapshot
  refine ⟨snapshot, index, sources, haccepted, hindex, hsources, fun task htask => ?_,
    fun place record hmem => ?_⟩
  · have hplace := of_decide_eq_true (List.all_eq_true.mp htasks task htask)
    exact (hcitedTasks index hindex task htask).2.2.mpr hplace
  · have hplace := of_decide_eq_true (List.all_eq_true.mp hrecords (place, record) hmem)
    exact ((hcitedRecords sources hsources).1 place record hmem).2.2.mpr hplace

/-- A form feed before a task, and a line feed in the row of a class, are not counted as citations
count lines. -/
theorem lines_miscounted : ∃ snapshot index sources symbols,
    validateSnapshot (List.map Char.toLower) (fun _ => []) (sourceManifest 610) false false
      (sourceDisk "## Live options\x0c\n- fix it\n".toList
        "Ant,,,,,,,todo,,,\"a\nb\"\n".toList).toTree = .ok snapshot ∧
    taskIndex asciiTables snapshot = .ok index ∧
    Symbols.symbolSources asciiTables snapshot = .ok sources ∧
    sources.index snapshot = .ok symbols ∧
    (∃ task ∈ index.tasks, task.record.sourceLine = 3 ∧ task.place.start = 2) ∧
    ∃ record ∈ sources.citedRecords, record.2.source.line = some 3 ∧ record.1.start = 2 := by
  have hmiscounted : ((validateSnapshot (List.map Char.toLower) (fun _ => []) (sourceManifest 610)
      false false (sourceDisk "## Live options\x0c\n- fix it\n".toList
        "Ant,,,,,,,todo,,,\"a\nb\"\n".toList).toTree).map fun snapshot =>
      inspectIndexes snapshot
        (·.any fun task => task.record.sourceLine = 3 ∧ task.place.start = 2)
        (·.any fun record => record.2.source.line = some 3 ∧ record.1.start = 2)) =
          .ok (.ok true) := by
    decide +kernel
  obtain ⟨snapshot, haccepted, hinspect⟩ := map_eq_ok.mp hmiscounted
  obtain ⟨index, sources, symbols, hindex, hsources, hsymbols, htasks, hrecords⟩ :=
    inspectIndexes_eq_ok hinspect
  obtain ⟨task, htask, hline⟩ := List.any_eq_true.mp htasks
  obtain ⟨record, hrecord, hrow⟩ := List.any_eq_true.mp hrecords
  exact ⟨snapshot, index, sources, symbols, haccepted, hindex, hsources, hsymbols,
    ⟨task, htask, of_decide_eq_true hline⟩, record, hrecord, of_decide_eq_true hrow⟩

end ContributorGateway
