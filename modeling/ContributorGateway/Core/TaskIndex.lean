import ContributorGateway.Core.ContentSearch
import ContributorGateway.Core.IndexSources
import ContributorGateway.Core.MarkdownTables

/-!
# The task index

`TaskIndex` reads its tasks from the handoff, the QA ledger, the linkage table, the decomp ledger
and the behavior catalog of a snapshot. Each task keeps the place and the entry that it was read
from; the source keeps the record alone.
-/

namespace ContributorGateway.CommittedTasks

open Markdown RepositoryContent

/-! ## Sources -/

/-- `MAX_TASKS`. -/
def maxTasks : ℕ := 10000

/-- `MAX_TASK_DETAIL_CHARS`. -/
def maxTaskDetailChars : ℕ := 1000

/-- `MAX_TASK_TITLE_CHARS`. -/
def maxTaskTitleChars : ℕ := 500

/-- `MAX_TASK_LIMIT`. -/
def maxTaskLimit : ℤ := 100

/-- `HANDOFF_PATH`. -/
def handoffPath : String := "docs/decomp/_next_session.md"

/-- `QA_PATH`. -/
def qaPath : String := "docs/qa/qa_backlog_campaign_handoff.md"

/-- `LINKAGE_PATH`. -/
def linkagePath : String := "docs/linkage_certificates.csv"

/-- `CATALOG_PATH`. -/
def catalogPath : String := "docs/asset_catalog/behavior_todo.md"

/-- `DECOMP_HEADERS`. -/
def decompHeaders : List String :=
  ["class", "base_chain", "vftable", "ctor", "n_methods", "family", "wave", "status", "owner",
    "confidence", "notes"]

/-- `LINKAGE_HEADERS`. -/
def linkageHeaders : List String :=
  ["class", "aspect", "domain", "status", "oracle", "linkage_doc", "note"]

/-- `QA_HEADERS`. -/
def qaHeaders : List String := ["#", "Level", "Model", "Cat", "Issue", "Group", "Status"]

/-- `CATALOG_QUEUE_HEADERS`. -/
def catalogQueueHeaders : List String :=
  ["Rank", "Score", "FourCC", "Class", "Family", "Inst", "Lvls", "Visual", "Levels"]

/-- `CATALOG_UNUSED_HEADERS`. -/
def catalogUnusedHeaders : List String := ["FourCC", "Class", "Visual status", "Decomp doc"]

/-- The dialect of both CSV sources. -/
def commaDialect : Csv.Dialect := ⟨',', false, Csv.comma_ne_newline⟩

/-! ## Texts -/

/-- The class `[a-z0-9]`. -/
def isSlugChar (c : Char) : Bool := ('a' ≤ c && c ≤ 'z') || ('0' ≤ c && c ≤ '9')

/-- `_semantic_slug`: the runs of other characters become hyphens, and those at the ends go. -/
def semanticSlug (tables : CharacterTables) (value : List Char) : List Char :=
  let slug := Words.collapse (fun c => !isSlugChar c) '-' (tables.casefold value)
  if slug.take 96 = [] then "task".toList else slug.take 96

/-- The class `[a-z0-9]` under `re.IGNORECASE`. -/
def isLabelChar (c : Char) : Bool :=
  isAsciiAlnum c || c = longS || c = dotlessI || c = dottedI || c = kelvinSign

/-- The group of a match of `^\(([a-z0-9]+)\)\s*` under `re.IGNORECASE`. -/
def handoffLabel (plain : List Char) : Option (List Char) :=
  match plain with
  | '(' :: rest =>
      let label := rest.takeWhile isLabelChar
      if label ≠ [] ∧ (rest.dropWhile isLabelChar).head? = some ')' then some label else none
  | _ => none

/-- The part of the ID of a handoff task that tells it from the others. -/
def handoffSemantic (tables : CharacterTables) (plain : List Char) : List Char :=
  (handoffLabel plain).getD (semanticSlug tables plain)

/-- A backtick or a space. -/
def isCellMark (c : Char) : Bool := c = backtick || c = ' '

/-- `cell.strip("\x60 ")`. -/
def stripMarks (cell : List Char) : List Char := (cell.dropWhile isCellMark).rdropWhile isCellMark

/-- `text.isdigit()`. -/
def isDigits (tables : CharacterTables) (text : List Char) : Bool :=
  !text.isEmpty && text.all tables.isDigit

/-! ## Entries -/

/-- What a task is read from: the title of a list item, or the cells of a row. -/
inductive TaskEntry where
  | handoff (status : TaskStatus) (title : List Char)
  | qa (status : TaskStatus) (cells : List (List Char))
  | linkage (status : TaskStatus) (cells : List (List Char))
  | decomp (status : TaskStatus) (cells : List (List Char))
  | catalog (headers : List String) (cells : List (List Char))

/-- `_record`. -/
def recordOf (tables : CharacterTables) (commit taskId title : List Char) (status : TaskStatus)
    (sourceKind : TaskSourceKind) (category detail : List Char) (path : String) (line : ℕ) :
    Except SourceError TaskRecord := do
  let url ← (citationUrl tables.lower commit path.toList (some line)).mapError SourceError.content
  .ok {
    id := String.ofList taskId
    title := String.ofList ((plainMarkdown title).take maxTaskTitleChars)
    status := status
    sourceKind := sourceKind
    category := bounded (String.ofList category) 200
    detail := bounded (String.ofList detail) maxTaskDetailChars
    sourcePath := path
    sourceLine := line
    sourceUrl := String.ofList url
    commit := String.ofList commit }

namespace TaskEntry

variable (tables : CharacterTables)

/-- The status of a task. -/
def status : TaskEntry → TaskStatus
  | .handoff status _ => status
  | .qa status _ => status
  | .linkage status _ => status
  | .decomp status _ => status
  | .catalog _ _ => .open

/-- The ID of a task. -/
def taskId : TaskEntry → List Char
  | .handoff _ title =>
      "handoff:".toList ++ tables.casefold (handoffSemantic tables (plainMarkdown title))
  | .qa _ cells => "qa:".toList ++ cellOf qaHeaders cells "#"
  | .linkage _ cells =>
      "linkage:".toList ++ tables.casefold (stripText (cellOf linkageHeaders cells "class")) ++
        ':' :: semanticSlug tables (stripText (cellOf linkageHeaders cells "aspect"))
  | .decomp _ cells =>
      "decomp:".toList ++ tables.casefold (stripText (cellOf decompHeaders cells "class"))
  | .catalog headers cells =>
      "catalog:".toList ++ tables.casefold (stripMarks (cellOf headers cells "FourCC")) ++
        ':' :: tables.casefold (stripMarks (cellOf headers cells "Class"))

/-- The file that a task is read from. -/
def path : TaskEntry → String
  | .handoff _ _ => handoffPath
  | .qa _ _ => qaPath
  | .linkage _ _ => linkagePath
  | .decomp _ _ => Symbols.decompPath
  | .catalog _ _ => catalogPath

/-- `detail_parts` of a catalog row. -/
def detailParts (headers : List String) (cells : List (List Char)) : List (List Char) :=
  ((headers.zip cells).filter fun cell => cell.1 ≠ "FourCC" && cell.1 ≠ "Class" &&
    cell.2 ≠ [] && cell.2 ≠ ['-']).map fun cell => cell.1.toList ++ '=' :: cell.2

/-- The record of a task that is read from a line or a row. -/
def record (commit : List Char) (entry : TaskEntry) (line : ℕ) : Except SourceError TaskRecord :=
  match entry with
  | .handoff status title =>
      recordOf tables commit (entry.taskId tables) (plainMarkdown title) status .handoff
        "current".toList title entry.path line
  | .qa status cells =>
      let cell := cellOf qaHeaders cells
      recordOf tables commit (entry.taskId tables)
        ("QA #".toList ++ cell "#" ++ ' ' :: cell "Level" ++ ' ' :: cell "Model" ++ ": ".toList ++
          cell "Issue")
        status .qa (cell "Cat")
        ("group=".toList ++ cell "Group" ++ "; status=".toList ++ cell "Status") entry.path line
  | .linkage status cells =>
      let cell := cellOf linkageHeaders cells
      let oracle := if cell "oracle" = [] then "none".toList else cell "oracle"
      recordOf tables commit (entry.taskId tables)
        (stripText (cell "class") ++ " / ".toList ++ stripText (cell "aspect")) status .linkage
        (cell "domain")
        ("status=".toList ++ cell "status" ++ "; oracle=".toList ++ oracle ++ "; ".toList ++
          cell "note")
        entry.path line
  | .decomp status cells =>
      let cell := cellOf decompHeaders cells
      recordOf tables commit (entry.taskId tables) (stripText (cell "class")) status .decomp
        (cell "family")
        ("status=".toList ++ cell "status" ++ "; wave=".toList ++ cell "wave" ++
          "; confidence=".toList ++ cell "confidence" ++ "; ".toList ++ cell "notes")
        entry.path line
  | .catalog headers cells =>
      let cell := cellOf headers cells
      recordOf tables commit (entry.taskId tables)
        (stripMarks (cell "FourCC") ++ ' ' :: stripMarks (cell "Class")) .open .catalog
        (if cell "Family" = [] then "unplaced".toList else cell "Family")
        ("; ".toList.intercalate (detailParts headers cells)) entry.path line

end TaskEntry

/-- A task with the place and the entry that its record is made of. -/
structure BuiltTask (tables : CharacterTables) (commit : List Char) where
  place : Place
  entry : TaskEntry
  record : TaskRecord
  built : entry.record tables commit place.cited = .ok record

/-- The task of an entry at a place. -/
def TaskEntry.build (tables : CharacterTables) (commit : List Char) (place : Place)
    (entry : TaskEntry) : Except SourceError (BuiltTask tables commit) :=
  match h : entry.record tables commit place.cited with
  | .ok record => .ok ⟨place, entry, record, h⟩
  | .error e => .error e

section Parsers

variable (tables : CharacterTables) (commit : List Char)

/-- A loop over lines or rows that appends a task wherever it reads an entry. -/
def scanTasks {σ β : Type} (step : σ → β → Except SourceError (σ × Option TaskEntry)) :
    σ → List (Place × β) → Except SourceError (σ × List (BuiltTask tables commit))
  | s, [] => .ok (s, [])
  | s, (place, item) :: rest => do
      let (s, entry) ← step s item
      let task ← entry.mapM (TaskEntry.build tables commit place)
      let (s, tasks) ← scanTasks step s rest
      .ok (s, task.toList ++ tasks)

/-! ## Parsers -/

/-- Whether a folded heading starts the section of the current tasks. -/
def isTaskSection (title : List Char) : Bool :=
  startsWith "your task this session".toList title || startsWith "live options".toList title ||
    startsWith "recommended next campaign".toList title

/-- The status and the title of a list item. -/
def listItem (line : List Char) : Option (TaskStatus × List Char) :=
  match checkboxText line with
  | some (checked, title) =>
      some (if tables.casefold [checked] = ['x'] then .done else .open, title)
  | none =>
      ((bulletText line).or (numberedText tables.isDecimal line)).map fun title => (.open, title)

/-- The body of the loop of `_parse_handoff`. -/
def handoffStep (inSection : Bool) (line : List Char) :
    Except SourceError (Bool × Option TaskEntry) :=
  match headingTitle line with
  | some title => .ok (isTaskSection (tables.casefold title), none)
  | none =>
      .ok (inSection,
        if inSection then (listItem tables line).map fun item => .handoff item.1 item.2 else none)

/-- `_parse_handoff`. -/
def parseHandoff (text : List Char) : Except SourceError (List (BuiltTask tables commit)) := do
  let (_, tasks) ← scanTasks tables commit (handoffStep tables) false (numberedLines text)
  if tasks.isEmpty then .error (.index "handoff current-task section contains no tasks")
  else .ok tasks

/-- The variables of the loop of `_parse_qa`, which a `break` stops. -/
structure QaState where
  inSection : Bool
  headerSeen : Bool
  stopped : Bool

/-- A row of the table of `_parse_qa` below its header. -/
def qaEntry (cells : List (List Char)) : Except SourceError (Option TaskEntry) :=
  if cells.length ≠ qaHeaders.length then .error (.index "QA ledger contains a malformed row")
  else if !isDigits tables (cellOf qaHeaders cells "#") then .ok none
  else
    .ok ((normalizeQaStatus tables.upper (String.ofList (cellOf qaHeaders cells "Status"))).map
      fun status => .qa status cells)

/-- The body of the loop of `_parse_qa`. -/
def qaStep (s : QaState) (line : List Char) : Except SourceError (QaState × Option TaskEntry) :=
  if s.stopped then .ok (s, none)
  else
    match headingTitle line with
    | some title =>
        let inSection := startsWith "Master report ledger".toList title
        .ok (⟨inSection, s.headerSeen, s.headerSeen && !inSection⟩, none)
    | none =>
        if !s.inSection then .ok (s, none)
        else
          match tableCells line with
          | none => .ok (⟨s.inSection, s.headerSeen, s.headerSeen && stripText line ≠ []⟩, none)
          | some cells =>
              if cells = qaHeaders.map String.toList then .ok (⟨s.inSection, true, false⟩, none)
              else if isSeparatorRow cells || !s.headerSeen then .ok (s, none)
              else (qaEntry tables cells).map fun entry => (s, entry)

/-- `_parse_qa`. -/
def parseQa (text : List Char) : Except SourceError (List (BuiltTask tables commit)) := do
  let (s, tasks) ← scanTasks tables commit (qaStep tables) ⟨false, false, false⟩
    (numberedLines text)
  if s.headerSeen then .ok tasks else .error (.index "QA master ledger header is missing")

/-- The status of a linkage row, unless it is unknown. -/
def linkageStatus (cells : List (List Char)) : Option TaskStatus :=
  let rawStatus := tables.casefold (stripText (cellOf linkageHeaders cells "status"))
  if rawStatus = "linked".toList then some .done
  else if rawStatus = "linked-blocked".toList then some .blocked
  else none

/-- The body of the loop of `_parse_linkage`. -/
def linkageStep (s : Unit) (cells : List (List Char)) :
    Except SourceError (Unit × Option TaskEntry) :=
  match linkageStatus tables cells with
  | none => .ok (s, none)
  | some status =>
      if stripText (cellOf linkageHeaders cells "class") = [] ∨
          stripText (cellOf linkageHeaders cells "aspect") = [] then
        .error (.index "linkage row is missing class or aspect")
      else .ok (s, some (.linkage status cells))

/-- `_parse_linkage`. -/
def parseLinkage (text : List Char) : Except SourceError (List (BuiltTask tables commit)) := do
  let rows ← delimitedRows commaDialect " is not valid CSV" linkagePath linkageHeaders text
  let (_, tasks) ← scanTasks tables commit (linkageStep tables) () rows
  .ok tasks

/-- `status_map`. -/
def statusMap : List (String × TaskStatus) := [
  ("todo", .open),
  ("in_progress", .open),
  ("spec", .done),
  ("ported", .done),
  ("ported(optional)", .done),
  ("validated", .done)]

/-- The body of the loop of `_parse_decomp`. -/
def decompStep (s : Unit) (cells : List (List Char)) :
    Except SourceError (Unit × Option TaskEntry) :=
  match statusMap.lookup
      (String.ofList (tables.casefold (stripText (cellOf decompHeaders cells "status")))) with
  | none => .ok (s, none)
  | some status =>
      if stripText (cellOf decompHeaders cells "class") = [] then
        .error (.index "decomp row is missing its class")
      else .ok (s, some (.decomp status cells))

/-- `_parse_decomp`. -/
def parseDecomp (text : List Char) : Except SourceError (List (BuiltTask tables commit)) := do
  let rows ← delimitedRows commaDialect " is not valid CSV" Symbols.decompPath decompHeaders text
  let (_, tasks) ← scanTasks tables commit (decompStep tables) () rows
  .ok tasks

/-- The section of the queue in the catalog. -/
def queueSection : String := "Full Missing Native Behavior Queue"

/-- The section of the specs without a placement in the catalog. -/
def unusedSection : String := "Enemy-Family Specs With No Current `.gam` Placement"

/-- The variables of the loops of `_parse_catalog` and `_parse_catalog_table`: the headers of the
table that is read, with `header_seen`, and the sections that were found. -/
structure CatalogState where
  table : Option (List String × Bool)
  found : List String

/-- A line of the loop of `_parse_catalog`. -/
def catalogSection (found : List String) (line : List Char) : CatalogState :=
  if headingTitle line = some queueSection.toList then
    ⟨some (catalogQueueHeaders, false), queueSection :: found⟩
  else if headingTitle line = some unusedSection.toList then
    ⟨some (catalogUnusedHeaders, false), unusedSection :: found⟩
  else ⟨none, found⟩

/-- A row of the table of `_parse_catalog_table` below its header. -/
def catalogEntry (headers : List String) (cells : List (List Char)) :
    Except SourceError (Option TaskEntry) :=
  if cells.length ≠ headers.length then .error (.index "catalog contains a malformed table row")
  else
    let fourcc := stripMarks (cellOf headers cells "FourCC")
    let className := stripMarks (cellOf headers cells "Class")
    if fourcc = ['-'] ∧ className = ['-'] then .ok none
    else if fourcc.length ≠ 4 ∨ className = [] then
      .error (.index "catalog task has invalid FourCC or class")
    else .ok (some (.catalog headers cells))

/-- A line of the loop of `_parse_catalog_table`, or of `_parse_catalog` where no table is read.
The heading that ends a table is a line of `_parse_catalog` again. -/
def catalogStep (s : CatalogState) (line : List Char) :
    Except SourceError (CatalogState × Option TaskEntry) :=
  match s.table with
  | none => .ok (catalogSection s.found line, none)
  | some (headers, headerSeen) =>
      if startsWith "## ".toList line then
        if headerSeen then .ok (catalogSection s.found line, none)
        else .error (.index "catalog named section is missing its table header")
      else
        match tableCells line with
        | none => .ok (s, none)
        | some cells =>
            if cells = headers.map String.toList then .ok (⟨some (headers, true), s.found⟩, none)
            else if isSeparatorRow cells || !headerSeen then .ok (s, none)
            else (catalogEntry headers cells).map fun entry => (s, entry)

/-- `_parse_catalog`. -/
def parseCatalog (text : List Char) : Except SourceError (List (BuiltTask tables commit)) := do
  let (s, tasks) ← scanTasks tables commit catalogStep ⟨none, []⟩ (numberedLines text)
  if s.table.any fun table => !table.2 then
    .error (.index "catalog named section is missing its table header")
  else if queueSection ∈ s.found ∧ unusedSection ∈ s.found then .ok tasks
  else .error (.index "catalog required sections are missing")

end Parsers

/-! ## The index -/

/-- `status_order`. -/
def statusOrder : TaskStatus → ℕ
  | .open => 0
  | .blocked => 1
  | .done => 2

/-- `source_order`. -/
def sourceOrder : TaskSourceKind → ℕ
  | .handoff => 0
  | .qa => 1
  | .linkage => 2
  | .catalog => 3
  | .decomp => 4

/-- The key that tasks are sorted by. -/
def taskKey (task : TaskRecord) : ℕ ×ₗ ℕ ×ₗ ℕ ×ₗ List Char :=
  toLex (statusOrder task.status,
    toLex (sourceOrder task.sourceKind, toLex (task.sourceLine, task.id.toList)))

/-- A `TaskIndex`: no two of its tasks have one ID. -/
structure TaskIndex (tables : CharacterTables) (commit : List Char) where
  tasks : List (BuiltTask tables commit)
  distinct : (tasks.map fun task => task.record.id).Nodup

/-- The end of `TaskIndex.__init__`. -/
def indexTasks {tables : CharacterTables} {commit : List Char}
    (tasks : List (BuiltTask tables commit)) : Except SourceError (TaskIndex tables commit) :=
  if maxTasks < tasks.length then .error (.index "task index exceeds 10000 records")
  else if hdistinct : (tasks.map fun task => task.record.id).Nodup then
    .ok {
      tasks := tasks.insertionSort fun a b => taskKey a.record ≤ taskKey b.record
      distinct := ((tasks.perm_insertionSort _).map _).nodup_iff.mpr hdistinct }
  else .error (.index "task index contains duplicate semantic IDs")

/-- `TaskIndex.__init__`. -/
def taskIndex (tables : CharacterTables) (snapshot : Snapshot) :
    Except SourceError (TaskIndex tables snapshot.commit) :=
  if ContentSearch.taskSourcePaths.any fun path => (snapshot.file path).isNone then
    .error (.index "one or more required task sources are missing")
  else do
    let handoff ← sourceText tables snapshot handoffPath >>= parseHandoff tables snapshot.commit
    let qa ← sourceText tables snapshot qaPath >>= parseQa tables snapshot.commit
    let linkage ← sourceText tables snapshot linkagePath >>= parseLinkage tables snapshot.commit
    let decomp ← sourceText tables snapshot Symbols.decompPath >>=
      parseDecomp tables snapshot.commit
    let catalog ← sourceText tables snapshot catalogPath >>= parseCatalog tables snapshot.commit
    indexTasks (handoff ++ qa ++ linkage ++ decomp ++ catalog)

/-- `TaskStatusFilter`. -/
inductive TaskStatusFilter where
  | «open»
  | blocked
  | done
  | all
  deriving DecidableEq

/-- `TaskStatusFilter(value)`. -/
def TaskStatusFilter.ofText : String → Option TaskStatusFilter
  | "open" => some .open
  | "blocked" => some .blocked
  | "done" => some .done
  | "all" => some .all
  | _ => none

/-- Whether a filter selects a status. -/
def TaskStatusFilter.selects : TaskStatusFilter → TaskStatus → Bool
  | .open, status => status = .open
  | .blocked, status => status = .blocked
  | .done, status => status = .done
  | .all, _ => true

/-- `TaskSourceFilter`. -/
inductive TaskSourceFilter where
  | all
  | only (sourceKind : TaskSourceKind)
  deriving DecidableEq

/-- `TaskSourceFilter(value)`. -/
def TaskSourceFilter.ofText : String → Option TaskSourceFilter
  | "all" => some .all
  | "handoff" => some (.only .handoff)
  | "qa" => some (.only .qa)
  | "linkage" => some (.only .linkage)
  | "decomp" => some (.only .decomp)
  | "catalog" => some (.only .catalog)
  | _ => none

/-- Whether a filter selects a source. -/
def TaskSourceFilter.selects : TaskSourceFilter → TaskSourceKind → Bool
  | .all, _ => true
  | .only selected, sourceKind => sourceKind = selected

/-- `TaskList`. -/
structure TaskList where
  status : TaskStatusFilter
  source : TaskSourceFilter
  count : ℕ
  tasks : List TaskRecord
  deriving DecidableEq

namespace TaskIndex

variable {tables : CharacterTables} {commit : List Char} (index : TaskIndex tables commit)

/-- `list_tasks`; the error is the message of a `TaskRequestError`. -/
def listTasks (status source : String) (limit : ℤ) : Except String TaskList :=
  match TaskStatusFilter.ofText status, TaskSourceFilter.ofText source with
  | some selectedStatus, some selectedSource =>
      if ¬ (1 ≤ limit ∧ limit ≤ maxTaskLimit) then .error "limit must be in 1..100"
      else
        let tasks := ((index.tasks.map BuiltTask.record).filter fun task =>
          selectedStatus.selects task.status && selectedSource.selects task.sourceKind).take
            limit.toNat
        .ok ⟨selectedStatus, selectedSource, tasks.length, tasks⟩
  | _, _ => .error "task status or source filter is invalid"

/-- `get_task`. -/
def getTask (taskId : String) : Option TaskRecord :=
  ((index.tasks.find? fun task => task.record.id = taskId)).map BuiltTask.record

/-- What the claim service uses of the index. -/
def toTasks : Tasks := ⟨index.getTask, String.ofList commit⟩

end TaskIndex

/-! ## Tasks that are read -/

section Reads

variable {tables : CharacterTables} {commit text : List Char}

/-- What the records of an entry have of it. -/
structure TaskEntry.Records (tables : CharacterTables) (entry : TaskEntry) (line : ℕ)
    (record : TaskRecord) : Prop where
  id : record.id = String.ofList (entry.taskId tables)
  status : record.status = entry.status
  path : record.sourcePath = entry.path
  line : record.sourceLine = line

/-- A record has the ID, the status, the path and the line that it is made with. -/
theorem recordOf_eq_ok {taskId title category detail : List Char} {status : TaskStatus}
    {sourceKind : TaskSourceKind} {path : String} {line : ℕ} {record : TaskRecord}
    (h : recordOf tables commit taskId title status sourceKind category detail path line =
      .ok record) : record.id = String.ofList taskId ∧ record.status = status ∧
        record.sourcePath = path ∧ record.sourceLine = line := by
  obtain ⟨url, -, h⟩ := bind_eq_ok.mp h
  obtain rfl := Except.ok.inj h
  exact ⟨rfl, rfl, rfl, rfl⟩

/-- The record of an entry. -/
theorem TaskEntry.records {entry : TaskEntry} {line : ℕ} {record : TaskRecord}
    (h : entry.record tables commit line = .ok record) : entry.Records tables line record := by
  cases entry with
  | handoff status title =>
    obtain ⟨hid, hstatus, hpath, hline⟩ := recordOf_eq_ok h
    exact ⟨hid, hstatus, hpath, hline⟩
  | qa status cells =>
    obtain ⟨hid, hstatus, hpath, hline⟩ := recordOf_eq_ok h
    exact ⟨hid, hstatus, hpath, hline⟩
  | linkage status cells =>
    obtain ⟨hid, hstatus, hpath, hline⟩ := recordOf_eq_ok h
    exact ⟨hid, hstatus, hpath, hline⟩
  | decomp status cells =>
    obtain ⟨hid, hstatus, hpath, hline⟩ := recordOf_eq_ok h
    exact ⟨hid, hstatus, hpath, hline⟩
  | catalog headers cells =>
    obtain ⟨hid, hstatus, hpath, hline⟩ := recordOf_eq_ok h
    exact ⟨hid, hstatus, hpath, hline⟩

/-- A task is built of its entry at its place. -/
theorem TaskEntry.build_eq_ok {place : Place} {entry : TaskEntry}
    {task : BuiltTask tables commit} (h : entry.build tables commit place = .ok task) :
    task.place = place ∧ task.entry = entry := by
  rw [TaskEntry.build] at h
  split at h
  · obtain rfl := Except.ok.inj h
    exact ⟨rfl, rfl⟩
  · cases h

/-- A task of a loop has the entry that a step reads at its place. -/
theorem exists_of_mem_scanTasks {σ β : Type}
    {step : σ → β → Except SourceError (σ × Option TaskEntry)} {s s' : σ}
    {items : List (Place × β)} {tasks : List (BuiltTask tables commit)}
    (h : scanTasks tables commit step s items = .ok (s', tasks))
    {task : BuiltTask tables commit} (htask : task ∈ tasks) :
    ∃ item, (task.place, item) ∈ items ∧ ∃ t t', step t item = .ok (t', some task.entry) := by
  induction items generalizing s tasks with
  | nil =>
    obtain ⟨rfl, rfl⟩ := Prod.mk.inj (Except.ok.inj h)
    cases htask
  | cons first rest ih =>
    obtain ⟨place, item⟩ := first
    obtain ⟨⟨t, entry⟩, hstep, h⟩ := bind_eq_ok.mp h
    obtain ⟨built, hbuilt, h⟩ := bind_eq_ok.mp h
    obtain ⟨⟨t', others⟩, hrest, h⟩ := bind_eq_ok.mp h
    obtain ⟨rfl, rfl⟩ := Prod.mk.inj (Except.ok.inj h)
    rcases List.mem_append.mp htask with hfirst | hother
    · cases entry with
      | none =>
        obtain rfl := Except.ok.inj hbuilt
        cases hfirst
      | some entry =>
        obtain ⟨task', htask', hsome⟩ := map_eq_ok.mp hbuilt
        subst hsome
        obtain rfl := List.mem_singleton.mp hfirst
        obtain ⟨rfl, rfl⟩ := TaskEntry.build_eq_ok htask'
        exact ⟨item, List.mem_cons_self .., s, t, hstep⟩
    · obtain ⟨item', hmem, hread⟩ := ih hrest hother
      exact ⟨item', List.mem_cons_of_mem _ hmem, hread⟩

/-- What the parsers know of the entries that they read. -/
def TaskEntry.Read (tables : CharacterTables) : TaskEntry → Prop
  | .handoff _ _ => True
  | .qa _ cells => isDigits tables (cellOf qaHeaders cells "#") = true
  | .linkage _ cells => stripText (cellOf linkageHeaders cells "class") ≠ [] ∧
      stripText (cellOf linkageHeaders cells "aspect") ≠ []
  | .decomp _ cells => stripText (cellOf decompHeaders cells "class") ≠ []
  | .catalog headers cells => (stripMarks (cellOf headers cells "FourCC")).length = 4 ∧
      stripMarks (cellOf headers cells "Class") ≠ []

/-- A task that is read from a text stands in it, and its entry is one of a file. -/
structure BuiltTask.ReadFrom (task : BuiltTask tables commit) (path : String)
    (text : List Char) : Prop where
  stands : task.place.Stands
  text : task.place.text = text
  path : task.entry.path = path
  read : task.entry.Read tables

/-- A line of the handoff. -/
theorem read_of_handoffStep {s s' : Bool} {line : List Char} {entry : TaskEntry}
    (h : handoffStep tables s line = .ok (s', some entry)) :
    entry.path = handoffPath ∧ entry.Read tables := by
  rw [handoffStep] at h
  split at h
  · cases h
  · obtain ⟨-, h⟩ := Prod.mk.inj (Except.ok.inj h)
    split_ifs at h
    obtain ⟨item, -, rfl⟩ := Option.map_eq_some_iff.mp h
    exact ⟨rfl, trivial⟩

theorem readFrom_of_mem_parseHandoff {tasks : List (BuiltTask tables commit)}
    (h : parseHandoff tables commit text = .ok tasks) {task : BuiltTask tables commit}
    (htask : task ∈ tasks) : task.ReadFrom handoffPath text := by
  obtain ⟨⟨s, tasks'⟩, hscan, h⟩ := bind_eq_ok.mp h
  dsimp only at h
  split at h
  · cases h
  obtain rfl := Except.ok.inj h
  obtain ⟨line, hline, t, t', hstep⟩ := exists_of_mem_scanTasks hscan htask
  obtain ⟨hstands, htext⟩ := stands_of_mem_numberedLines hline
  obtain ⟨hpath, hread⟩ := read_of_handoffStep hstep
  exact ⟨hstands, htext, hpath, hread⟩

/-- A line of the QA ledger is a row whose status is known. -/
theorem exists_row_of_qaStep {s s' : QaState} {line : List Char} {entry : TaskEntry}
    (h : qaStep tables s line = .ok (s', some entry)) : ∃ status cells,
      entry = .qa status cells ∧ isDigits tables (cellOf qaHeaders cells "#") = true ∧
      normalizeQaStatus tables.upper (String.ofList (cellOf qaHeaders cells "Status")) =
        some status := by
  rw [qaStep] at h
  split at h
  · cases h
  split at h
  · cases h
  split at h
  · cases h
  split at h
  · cases h
  · next cells _ =>
    split at h
    · cases h
    split at h
    · cases h
    obtain ⟨read, hentry, h⟩ := map_eq_ok.mp h
    obtain ⟨-, rfl⟩ := Prod.mk.inj h
    rw [qaEntry] at hentry
    split at hentry
    · cases hentry
    split at hentry
    · cases hentry
    · next hdigits =>
      obtain ⟨status, hstatus, rfl⟩ := Option.map_eq_some_iff.mp (Except.ok.inj hentry)
      rw [Bool.not_eq_true', Bool.not_eq_false] at hdigits
      exact ⟨status, cells, rfl, hdigits, hstatus⟩

/-- A task of the QA ledger is read from a row at its place. -/
theorem exists_row_of_mem_parseQa {tasks : List (BuiltTask tables commit)}
    (h : parseQa tables commit text = .ok tasks) {task : BuiltTask tables commit}
    (htask : task ∈ tasks) : (∃ line, (task.place, line) ∈ numberedLines text) ∧
      ∃ status cells, task.entry = .qa status cells ∧
        isDigits tables (cellOf qaHeaders cells "#") = true ∧
        normalizeQaStatus tables.upper (String.ofList (cellOf qaHeaders cells "Status")) =
          some status := by
  obtain ⟨⟨s, tasks'⟩, hscan, h⟩ := bind_eq_ok.mp h
  dsimp only at h
  split at h
  · obtain rfl := Except.ok.inj h
    obtain ⟨line, hline, t, t', hstep⟩ := exists_of_mem_scanTasks hscan htask
    exact ⟨⟨line, hline⟩, exists_row_of_qaStep hstep⟩
  · cases h

theorem readFrom_of_mem_parseQa {tasks : List (BuiltTask tables commit)}
    (h : parseQa tables commit text = .ok tasks) {task : BuiltTask tables commit}
    (htask : task ∈ tasks) : task.ReadFrom qaPath text := by
  obtain ⟨⟨line, hline⟩, status, cells, hentry, hdigits, -⟩ := exists_row_of_mem_parseQa h htask
  obtain ⟨hstands, htext⟩ := stands_of_mem_numberedLines hline
  exact ⟨hstands, htext, by rw [hentry]; rfl, by rwa [hentry]⟩

/-- The detail and the status of a QA task come from the cells of its row. -/
theorem qaDetail_of_mem_parseQa {tasks : List (BuiltTask tables commit)}
    (h : parseQa tables commit text = .ok tasks) {task : BuiltTask tables commit}
    (htask : task ∈ tasks) : ∃ cells,
      task.record.detail = qaDetail (String.ofList (cellOf qaHeaders cells "Group"))
        (String.ofList (cellOf qaHeaders cells "Status")) ∧
      normalizeQaStatus tables.upper (String.ofList (cellOf qaHeaders cells "Status")) =
        some task.record.status := by
  obtain ⟨-, status, cells, hentry, -, hstatus⟩ := exists_row_of_mem_parseQa h htask
  have hbuilt := task.built
  rw [hentry] at hbuilt
  obtain ⟨url, -, hrecord⟩ := bind_eq_ok.mp hbuilt
  have hdetail : String.ofList ("group=".toList ++ cellOf qaHeaders cells "Group" ++
      "; status=".toList ++ cellOf qaHeaders cells "Status") =
        "group=" ++ String.ofList (cellOf qaHeaders cells "Group") ++ "; status=" ++
          String.ofList (cellOf qaHeaders cells "Status") := by
    apply String.toList_inj.mp
    simp
  refine ⟨cells, ?_, ?_⟩
  · rw [← Except.ok.inj hrecord, qaDetail, ← hdetail, maxTaskDetailChars]
  · rw [hstatus, ← Except.ok.inj hrecord]

/-- A row of the linkage table. -/
theorem read_of_linkageStep {s s' : Unit} {cells : List (List Char)} {entry : TaskEntry}
    (h : linkageStep tables s cells = .ok (s', some entry)) :
    entry.path = linkagePath ∧ entry.Read tables := by
  rw [linkageStep] at h
  split at h
  · cases h
  split at h
  · cases h
  · next hnamed =>
    obtain ⟨-, h⟩ := Prod.mk.inj (Except.ok.inj h)
    obtain rfl := Option.some.inj h
    exact ⟨rfl, not_or.mp hnamed⟩

theorem readFrom_of_mem_parseLinkage {tasks : List (BuiltTask tables commit)}
    (h : parseLinkage tables commit text = .ok tasks) {task : BuiltTask tables commit}
    (htask : task ∈ tasks) : task.ReadFrom linkagePath text := by
  obtain ⟨rows, hrows, h⟩ := bind_eq_ok.mp h
  obtain ⟨⟨s, tasks'⟩, hscan, h⟩ := bind_eq_ok.mp h
  obtain rfl := Except.ok.inj h
  obtain ⟨cells, hcells, t, t', hstep⟩ := exists_of_mem_scanTasks hscan htask
  obtain ⟨hstands, htext⟩ := stands_of_mem_delimitedRows hrows hcells
  obtain ⟨hpath, hread⟩ := read_of_linkageStep hstep
  exact ⟨hstands, htext, hpath, hread⟩

/-- A row of the decomp ledger. -/
theorem read_of_decompStep {s s' : Unit} {cells : List (List Char)} {entry : TaskEntry}
    (h : decompStep tables s cells = .ok (s', some entry)) :
    entry.path = Symbols.decompPath ∧ entry.Read tables := by
  rw [decompStep] at h
  split at h
  · cases h
  split at h
  · cases h
  · next hnamed =>
    obtain ⟨-, h⟩ := Prod.mk.inj (Except.ok.inj h)
    obtain rfl := Option.some.inj h
    exact ⟨rfl, hnamed⟩

theorem readFrom_of_mem_parseDecomp {tasks : List (BuiltTask tables commit)}
    (h : parseDecomp tables commit text = .ok tasks) {task : BuiltTask tables commit}
    (htask : task ∈ tasks) : task.ReadFrom Symbols.decompPath text := by
  obtain ⟨rows, hrows, h⟩ := bind_eq_ok.mp h
  obtain ⟨⟨s, tasks'⟩, hscan, h⟩ := bind_eq_ok.mp h
  obtain rfl := Except.ok.inj h
  obtain ⟨cells, hcells, t, t', hstep⟩ := exists_of_mem_scanTasks hscan htask
  obtain ⟨hstands, htext⟩ := stands_of_mem_delimitedRows hrows hcells
  obtain ⟨hpath, hread⟩ := read_of_decompStep hstep
  exact ⟨hstands, htext, hpath, hread⟩

/-- A line of the catalog. -/
theorem read_of_catalogStep {s s' : CatalogState} {line : List Char} {entry : TaskEntry}
    (h : catalogStep s line = .ok (s', some entry)) :
    entry.path = catalogPath ∧ entry.Read tables := by
  rw [catalogStep] at h
  split at h
  · cases h
  split at h
  · split at h
    · cases h
    · cases h
  split at h
  · cases h
  split at h
  · cases h
  split at h
  · cases h
  obtain ⟨read, hentry, h⟩ := map_eq_ok.mp h
  obtain ⟨-, rfl⟩ := Prod.mk.inj h
  rw [catalogEntry] at hentry
  split at hentry
  · cases hentry
  dsimp only at hentry
  split at hentry
  · cases hentry
  split at hentry
  · cases hentry
  · next hnamed =>
    obtain rfl := Option.some.inj (Except.ok.inj hentry)
    rw [not_or, not_not] at hnamed
    exact ⟨rfl, hnamed⟩

theorem readFrom_of_mem_parseCatalog {tasks : List (BuiltTask tables commit)}
    (h : parseCatalog tables commit text = .ok tasks) {task : BuiltTask tables commit}
    (htask : task ∈ tasks) : task.ReadFrom catalogPath text := by
  obtain ⟨⟨s, tasks'⟩, hscan, h⟩ := bind_eq_ok.mp h
  dsimp only at h
  split at h
  · cases h
  split at h
  · obtain rfl := Except.ok.inj h
    obtain ⟨line, hline, t, t', hstep⟩ := exists_of_mem_scanTasks hscan htask
    obtain ⟨hstands, htext⟩ := stands_of_mem_numberedLines hline
    obtain ⟨hpath, hread⟩ := read_of_catalogStep hstep
    exact ⟨hstands, htext, hpath, hread⟩
  · cases h

/-- The index has the tasks that were read. -/
theorem mem_of_indexTasks {tasks : List (BuiltTask tables commit)}
    {index : TaskIndex tables commit} (h : indexTasks tasks = .ok index)
    {task : BuiltTask tables commit} (htask : task ∈ index.tasks) : task ∈ tasks := by
  rw [indexTasks] at h
  split at h
  · cases h
  split at h
  · obtain rfl := Except.ok.inj h
    exact (List.mem_insertionSort _).mp htask
  · cases h

/-- Every task of the index is read from the text of the file that it cites. -/
theorem readFrom_of_mem_taskIndex {snapshot : Snapshot}
    {index : TaskIndex tables snapshot.commit} (h : taskIndex tables snapshot = .ok index)
    {task : BuiltTask tables snapshot.commit} (htask : task ∈ index.tasks) :
    ∃ text, sourceText tables snapshot task.record.sourcePath = .ok text ∧
      task.ReadFrom task.record.sourcePath text := by
  have hfound : ∃ path text, sourceText tables snapshot path = .ok text ∧
      task.ReadFrom path text := by
    rw [taskIndex] at h
    split at h
    · cases h
    obtain ⟨handoff, hhandoff, h⟩ := bind_eq_ok.mp h
    obtain ⟨qa, hqa, h⟩ := bind_eq_ok.mp h
    obtain ⟨linkage, hlinkage, h⟩ := bind_eq_ok.mp h
    obtain ⟨decomp, hdecomp, h⟩ := bind_eq_ok.mp h
    obtain ⟨catalog, hcatalog, h⟩ := bind_eq_ok.mp h
    have hmem := mem_of_indexTasks h htask
    simp only [List.mem_append] at hmem
    rcases hmem with (((hmem | hmem) | hmem) | hmem) | hmem
    · obtain ⟨text, htext, hparse⟩ := bind_eq_ok.mp hhandoff
      exact ⟨_, text, htext, readFrom_of_mem_parseHandoff hparse hmem⟩
    · obtain ⟨text, htext, hparse⟩ := bind_eq_ok.mp hqa
      exact ⟨_, text, htext, readFrom_of_mem_parseQa hparse hmem⟩
    · obtain ⟨text, htext, hparse⟩ := bind_eq_ok.mp hlinkage
      exact ⟨_, text, htext, readFrom_of_mem_parseLinkage hparse hmem⟩
    · obtain ⟨text, htext, hparse⟩ := bind_eq_ok.mp hdecomp
      exact ⟨_, text, htext, readFrom_of_mem_parseDecomp hparse hmem⟩
    · obtain ⟨text, htext, hparse⟩ := bind_eq_ok.mp hcatalog
      exact ⟨_, text, htext, readFrom_of_mem_parseCatalog hparse hmem⟩
  obtain ⟨path, text, htext, hread⟩ := hfound
  rw [(TaskEntry.records task.built).path, hread.path]
  exact ⟨text, htext, hread⟩

end Reads

end ContributorGateway.CommittedTasks
