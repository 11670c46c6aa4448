import ContributorGateway.Core.StaleBranches
import ContributorGateway.Core.TaskIndex
import ContributorGateway.Foundation.Outline

/-!
# The project context

The contributor briefing over eight files of the snapshot: a summary, the current state, the
titles of the files, the open tasks and excerpts of named sections, cut to the requested length.
-/

namespace ContributorGateway.ContextAssembly

open ContributorGateway.ProjectContext CommittedTasks

/-! ## The files -/

/-- `ContextFileSpec`. -/
structure ContextFileSpec where
  path : String
  role : String
  sectionPrefixes : List String

/-- The path of the contributor rules. -/
def agentsPath : String := "AGENTS.md"

/-- The path of the project overview. -/
def readmePath : String := "README.md"

/-- The path of the project history. -/
def historyPath : String := "docs/PROJECT_HISTORY.md"

/-- `CONTEXT_FILE_SPECS`. -/
def contextFileSpecs : List ContextFileSpec := [
  ⟨agentsPath, "Mission, contributor rules, current frontier, and repository gotchas",
    ["Mission", "Shared memory", "The current frontier", "Gotchas"]⟩,
  ⟨readmePath, "Project overview, build entry points, and repository layout",
    ["Build", "Repo layout"]⟩,
  ⟨"docs/ARCHITECTURE.md", "Current architecture, runtime modes, build map, and invariants",
    ["1. The 10,000-foot view", "9. Build & run", "12. The invariants"]⟩,
  ⟨historyPath, "Settled project history, latest dated state, and durable invariants",
    ["Invariants", "Where to go next"]⟩,
  ⟨handoffPath, "Active handoff, live work, hard rules, and session completion checks",
    ["Current state", "Your task this session", "Hard rules", "Definition of done"]⟩,
  ⟨"docs/native_port_plan.md", "Native-port implementation contract, sequencing, and validation",
    ["0. Where the engine stands", "1. The implementation contract", "3. Validation"]⟩,
  ⟨"docs/local_env.md", "Local environment safety and instrumentation setup",
    ["Required variables", "Recommended setup", "Rebuilding the proxy"]⟩,
  ⟨"docs/claude_code_failure_patterns.md",
    "Measured JN Engine failure patterns and operating cautions",
    ["1. Repeating known conclusions", "2. Fixing the wrong layer", "3. Making proxy assumptions",
      "4. Trusting deployed binaries", "5. Launching the game",
      "9. Blocking the game render thread", "10. Misreading alpha",
      "11. Continuing a known dead-end"]⟩]

/-- `HANDOFF_SECTION_ALTERNATIVES`. -/
def handoffSectionAlternatives : List (String × List String) := [
  ("Current state", ["Current state", "What just landed"]),
  ("Your task this session", ["Your task this session", "Recommended next campaign"]),
  ("Hard rules", ["Hard rules", "Standard validation"])]

/-- `MAX_SUMMARY_CHARS`. -/
def maxSummaryChars : ℕ := 500

/-- `MAX_EXCERPT_CHARS`. -/
def maxExcerptChars : ℕ := 1600

/-- `MAX_CONTEXT_TASKS`. -/
def maxContextTasks : ℕ := 10

/-! ## Markdown -/

/-- A match of `\[([^]]+)]\([^)]+\)` at the start of a text: its group and the text behind it. -/
def linkAt (text : List Char) : Option (List Char × List Char) :=
  match text with
  | '[' :: rest =>
      let label := rest.takeWhile (· ≠ ']')
      match rest.dropWhile (· ≠ ']') with
      | ']' :: '(' :: target =>
          match target.dropWhile (· ≠ ')') with
          | ')' :: after =>
              if label = [] ∨ target.takeWhile (· ≠ ')') = [] then none else some (label, after)
          | _ => none
      | _ => none
  | _ => none

/-- `re.sub(r"\[([^]]+)]\([^)]+\)", r"\1", text)`; the characters to skip belong to the last
match. -/
def unlinkFrom : ℕ → List Char → List Char
  | _, [] => []
  | skip + 1, _ :: text => unlinkFrom skip text
  | 0, c :: text =>
      match linkAt (c :: text) with
      | some (label, after) => label ++ unlinkFrom (text.length - after.length) text
      | none => c :: unlinkFrom 0 text

/-- `_plain_markdown`. -/
def plainMarkdown (value : List Char) : List Char :=
  Words.collapse isSpace ' ' (replaceAll ['*'] [] (replaceAll ['_', '_'] []
    (replaceAll ['*', '*'] [] (Markdown.unquoteFrom false (unlinkFrom 0 value)))))

/-- `_bounded_plain`. -/
def boundedPlain (value : List Char) (limit : ℕ) : List Char := (plainMarkdown value).take limit

/-- The groups of a full match of `MARKDOWN_HEADING` on a line. -/
def markdownHeading (line : List Char) : Option (ℕ × List Char) :=
  let level := (line.takeWhile (· = '#')).length
  if level = 0 ∨ 6 < level then none
  else
    (Markdown.afterBlanks (line.drop level)).map fun body =>
      let trimmed := body.rdropWhile isSpace
      (level, if trimmed = [] then body else trimmed)

/-- An entry of `headings`. -/
structure Heading where
  index : ℕ
  level : ℕ
  title : List Char

/-- `_HeadingSection`. -/
structure HeadingSection where
  level : ℕ
  title : List Char
  line : ℕ
  body : List Char
  deriving DecidableEq

/-- The headings among lines. -/
def headingsOf (lines : List (List Char)) : List Heading :=
  lines.zipIdx.filterMap fun line =>
    (markdownHeading line.1).map fun heading => ⟨line.2, heading.1, heading.2⟩

/-- The headings among lines with the ends of their sections. -/
def headingExtents (lines : List (List Char)) : List (Heading × ℕ) :=
  Outline.extents Heading.index Heading.level lines.length (headingsOf lines)

/-- `"\n".join(lines[first:last])`. -/
def joinLines (lines : List (List Char)) (first last : ℕ) : List Char :=
  ['\n'].intercalate ((lines.take last).drop first)

/-- The section of a heading. -/
def sectionOf (lines : List (List Char)) (extent : Heading × ℕ) : HeadingSection where
  level := extent.1.level
  title := extent.1.title
  line := extent.1.index + 1
  body := stripText (joinLines lines (extent.1.index + 1) extent.2)

/-- `_heading_sections`. -/
def headingSections (text : List Char) : List HeadingSection :=
  (headingExtents (splitlines text)).map (sectionOf (splitlines text))

/-- Whether a line is quoted, in a table or at the fence of a listing. -/
def isAside (line : List Char) : Bool :=
  [['>'], ['|'], [backquote, backquote, backquote]].any fun mark =>
    startsWith mark (line.dropWhile isSpace)

/-- The loop of `_first_description_paragraph`. -/
def paragraphFrom (passedTitle : Bool) (paragraph : List (List Char)) :
    List (List Char) → List (List Char)
  | [] => paragraph
  | line :: rest =>
      if !passedTitle && (markdownHeading line).isSome then paragraphFrom true paragraph rest
      else if !passedTitle then paragraphFrom false paragraph rest
      else if stripText line = [] || isAside line then
        if paragraph ≠ [] then paragraph else paragraphFrom true paragraph rest
      else paragraphFrom true (paragraph ++ [stripText line]) rest

/-- The summary that `_first_description_paragraph` takes from a text, or nothing. -/
def descriptionOf (text : List Char) : List Char :=
  boundedPlain ([' '].intercalate (paragraphFrom false [] (splitlines text))) maxSummaryChars

/-- `_first_description_paragraph`. -/
def firstDescriptionParagraph (text : List Char) : Except SourceError (List Char) :=
  if descriptionOf text = [] then
    .error (.index "README has no project-description paragraph")
  else .ok (descriptionOf text)

section Assembler

variable (tables : CharacterTables) (isWord : Char → Bool) (order : SetOrder)

/-- Ten characters of the form `20\d{2}-\d{2}-\d{2}`. -/
def isDate (text : List Char) : Bool :=
  match text with
  | ['2', '0', a, b, '-', c, d, '-', e, f] => [a, b, c, d, e, f].all tables.isDecimal
  | _ => false

/-- `DATED_HEADING`. -/
def datedHeading : Pattern (List Char) := fun before text =>
  if isBoundary isWord before text.head? && isDate tables (text.take 10) &&
      isBoundary isWord (text.take 10).getLast? (text.drop 10).head? then
    some (text.take 10, 10)
  else none

/-- The group of `DATED_HEADING.search(title)`. -/
def dateOf (title : List Char) : Option (List Char) :=
  (findAll (datedHeading tables isWord) title).head?

/-! ## The assembler -/

/-- The `_texts` of an assembler. -/
abbrev Texts := String → List Char

/-- `self._sections[path]`. -/
def sectionsOf (texts : Texts) (path : String) : List HeadingSection :=
  headingSections (texts path)

/-- `ImportantFile`. -/
structure ImportantFile where
  title : List Char
  role : String
  path : String
  line : ℕ
  url : List Char

/-- `_source_url`. -/
def sourceUrl (commit : List Char) (path : String) (line : ℕ) : Except SourceError (List Char) :=
  (RepositoryContent.citationUrl tables.lower commit path.toList (some line)).mapError .content

/-- `_build_important_files` for one of the files. -/
def importantFile (commit : List Char) (texts : Texts) (spec : ContextFileSpec) :
    Except SourceError ImportantFile :=
  match (sectionsOf texts spec.path).find? fun s => s.level = 1 with
  | none => .error (.index "project-context file is missing its title")
  | some h1 => do
      let url ← sourceUrl tables commit spec.path h1.line
      .ok ⟨boundedPlain h1.title 300, spec.role, spec.path, h1.line, url⟩

/-- `_mission_state`. -/
def missionState (texts : Texts) : Except SourceError (List Char) :=
  match (sectionsOf texts agentsPath).find? fun s =>
      s.level = 2 && startsWith "Mission".toList s.title with
  | none => .error (.index "AGENTS.md is missing its Mission section")
  | some mission =>
      let state := boundedPlain mission.body maxStateChars
      if state = [] then .error (.index "AGENTS.md Mission section is empty") else .ok state

/-- `dated`: the sections of the second level of the history that a date stands in, with it. -/
def datedSections (texts : Texts) : List (List Char × HeadingSection) :=
  ((sectionsOf texts historyPath).filter fun s => s.level = 2).filterMap fun s =>
    (dateOf tables isWord s.title).map fun date => (date, s)

/-- `max(dates)`, or the empty text. -/
def latestDate (dates : List (List Char)) : List Char := dates.foldr max []

/-- `_latest_history_states`. -/
def latestHistoryStates (texts : Texts) : Except SourceError (List (List Char)) :=
  let dated := datedSections tables isWord texts
  if dated = [] then .error (.index "PROJECT_HISTORY has no dated level-two entry")
  else
    let latest := latestDate (dated.map Prod.fst)
    .ok ((dated.filter fun entry => entry.1 = latest).map fun entry =>
      boundedPlain ("Latest project history (".toList ++ latest ++ "): ".toList ++ entry.2.title)
        maxStateChars)

/-- How many of the tasks have a status. -/
def countStatus (tasks : List TaskRecord) (status : TaskStatus) : List Char :=
  Nat.toDigits 10 (tasks.countP fun task => task.status = status)

/-- `_task_states`. -/
def taskStates (tasks : List TaskRecord) : List (List Char) :=
  let linkage := tasks.filter fun task => task.sourceKind = .linkage
  ["Committed task surface: ".toList ++ countStatus tasks .open ++ " open, ".toList ++
    countStatus tasks .blocked ++ " blocked, and ".toList ++ countStatus tasks .done ++
    " done records across the frozen task sources.".toList,
  "Committed linkage certificates: ".toList ++ countStatus linkage .done ++ " linked and ".toList ++
    countStatus linkage .blocked ++
    " linked-blocked records in docs/linkage_certificates.csv.".toList]

/-- `_build_current_state`. -/
def buildCurrentState (commit : List Char) (tasks : List TaskRecord) (texts : Texts) :
    Except SourceError (List (List Char)) := do
  let mission ← missionState texts
  let history ← latestHistoryStates tables isWord texts
  .ok (staleBranchStates isWord order commit (texts handoffPath) ++ mission :: history ++
    taskStates tasks)

/-- The titles that a named heading of a file may start with. -/
def alternatives (path start : String) : List String :=
  if path = handoffPath then (handoffSectionAlternatives.lookup start).getD [start] else [start]

/-- Whether the title of a section starts with one of the alternatives. -/
def isNamed (path start : String) (s : HeadingSection) : Bool :=
  (alternatives path start).any fun option => startsWith option.toList s.title

/-- `selected.extend(s for s in found if s not in selected)`. -/
def extendNew (selected found : List HeadingSection) : List HeadingSection :=
  found.foldl (fun selected s => if s ∈ selected then selected else selected ++ [s]) selected

/-- The sections of a file that its named headings select. -/
def namedSections (texts : Texts) (spec : ContextFileSpec) :
    Except SourceError (List HeadingSection) :=
  spec.sectionPrefixes.foldlM (fun selected start =>
    let found := (sectionsOf texts spec.path).filter (isNamed spec.path start)
    if found = [] then .error (.index "project-context file is missing a named heading")
    else .ok (extendNew selected found)) []

/-- `_selected_sections`. -/
def selectedSections (texts : Texts) (spec : ContextFileSpec) :
    Except SourceError (List HeadingSection) := do
  let named ← namedSections texts spec
  let selected :=
    if spec.path = historyPath then
      let dated := datedSections tables isWord texts
      let latest := latestDate (dated.map Prod.fst)
      extendNew named ((dated.filter fun entry => entry.1 = latest).map Prod.snd)
    else named
  let sorted := selected.insertionSort fun a b => a.line ≤ b.line
  if sorted = [] then .error (.index "project-context file has no selected named headings")
  else .ok sorted

/-- The text of an excerpt. -/
def excerptText (s : HeadingSection) : List Char :=
  let heading := List.replicate s.level '#' ++ ' ' :: s.title
  let body := stripText s.body
  if body ≠ [] then heading ++ '\n' :: '\n' :: body else heading

/-- The excerpt of a section. -/
def excerptOf (commit : List Char) (path : String) (s : HeadingSection) :
    Except SourceError (List Char) := do
  let url ← sourceUrl tables commit path s.line
  .ok ("Source: ".toList ++ path.toList ++ " (".toList ++ url ++ ")\n".toList ++
    (excerptText s).take maxExcerptChars)

/-- `_build_excerpts`. -/
def buildExcerpts (commit : List Char) (texts : Texts) : Except SourceError (List (List Char)) := do
  let excerpts ← contextFileSpecs.mapM fun spec => do
    let selected ← selectedSections tables isWord texts spec
    selected.mapM (excerptOf tables commit spec.path)
  .ok excerpts.flatten

/-- `ProjectContextAssembler`. -/
structure Assembler where
  commit : List Char
  tasks : List TaskRecord
  summary : List Char
  importantFiles : List ImportantFile
  currentState : List (List Char)
  excerpts : List (List Char)

/-- The end of `ProjectContextAssembler.__init__`, with the texts. -/
def assembleTexts (commit : List Char) (tasks : List TaskRecord) (texts : Texts) :
    Except SourceError Assembler := do
  let summary ← firstDescriptionParagraph (texts readmePath)
  let importantFiles ← contextFileSpecs.mapM (importantFile tables commit texts)
  let currentState ← buildCurrentState tables isWord order commit tasks texts
  let excerpts ← buildExcerpts tables isWord commit texts
  .ok ⟨commit, tasks, summary, importantFiles, currentState, excerpts⟩

/-- `ProjectContextAssembler.__init__`. -/
def assemble (snapshot : Snapshot) {commit : List Char}
    (index : TaskIndex tables commit) : Except SourceError Assembler :=
  if snapshot.commit ≠ commit then
    .error (.index "task index and project context use different snapshots")
  else if contextFileSpecs.any fun spec => (snapshot.file spec.path.toList).isNone then
    .error (.index "one or more required project-context files are missing")
  else do
    let texts ← contextFileSpecs.mapM fun spec =>
      (sourceText tables snapshot spec.path).map fun text => (spec.path, text)
    assembleTexts tables isWord order snapshot.commit (index.tasks.map BuiltTask.record)
      fun path => (texts.lookup path).getD []

end Assembler

/-! ## The briefing -/

/-- `ProjectContext`. -/
structure ProjectContext where
  summary : List Char
  currentState : List (List Char)
  importantFiles : List ImportantFile
  openTasks : List TaskRecord
  context : List Char

/-- `_open_tasks`. -/
def Assembler.openTasks (assembler : Assembler) : List TaskRecord :=
  (assembler.tasks.filter fun task => task.status = .open || task.status = .blocked).take
    maxContextTasks

/-- The value of a status. -/
def statusValue : TaskStatus → String
  | .open => "open"
  | .blocked => "blocked"
  | .done => "done"

/-- The line about a task. -/
def taskLine (task : TaskRecord) : List Char :=
  "- [".toList ++ (statusValue task.status).toList ++ "] ".toList ++ task.title.toList ++
    " (".toList ++ task.sourcePath.toList ++ "#L".toList ++ Nat.toDigits 10 task.sourceLine ++ [')']

/-- What stands before the excerpts. -/
def Assembler.front (assembler : Assembler) : List Char :=
  let stateLines := ['\n'].intercalate (assembler.currentState.map ("- ".toList ++ ·))
  let taskLines := ['\n'].intercalate (assembler.openTasks.map taskLine)
  "# JN Engine contributor context\n\n".toList ++
    "Snapshot: alexscott2718-gif/jn-engine refs/heads/master ".toList ++
    assembler.commit ++ "\n\n".toList ++
    "Summary: ".toList ++ assembler.summary ++ "\n\n".toList ++
    "## Current state\n".toList ++ stateLines ++ "\n\n".toList ++
    "## Open and blocked tasks\n".toList ++
    (if taskLines = [] then "- None in the committed task index.".toList else taskLines) ++
    "\n\n".toList ++ "## Grounded excerpts\n\n".toList

/-- The context before it is cut. -/
def Assembler.text (assembler : Assembler) : List Char :=
  assembler.front ++ "\n\n".toList.intercalate assembler.excerpts

/-- `ProjectContextAssembler.build`; the error is the message of a `ProjectContextRequestError`. -/
def Assembler.build (assembler : Assembler) (maxChars : ℤ) : Except String ProjectContext :=
  if ¬ (1000 ≤ maxChars ∧ maxChars ≤ 20000) then .error "max_chars must be in 1000..20000"
  else
    .ok {
      summary := assembler.summary
      currentState := assembler.currentState
      importantFiles := assembler.importantFiles
      openTasks := assembler.openTasks
      context := assembler.text.take maxChars.toNat }

end ContributorGateway.ContextAssembly
