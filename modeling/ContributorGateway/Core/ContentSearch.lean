import ContributorGateway.Core.ContentReads
import ContributorGateway.Core.RipgrepEvents
import Mathlib.Data.Prod.Lex
import Mathlib.Data.List.Lex

/-!
# Search and fetch in the engine repository

`ContentSearch`. Two engines find the numbers of the lines that match, and a shared path reads
the files again, checks the lines and orders the results.
-/

namespace ContributorGateway.ContentSearch

open RepositoryContent

/-! ## The source -/

/-- `MAX_QUERY_CHARS`. -/
def maxQueryChars : ℕ := 200

/-- `MAX_SEARCH_RESULTS`. -/
def maxSearchResults : ℤ := 50

/-- `MAX_MATCH_TEXT_CHARS`. -/
def maxMatchTextChars : ℕ := 500

/-- `MAX_SEARCH_CONTENT_CHARS`. -/
def maxSearchContentChars : ℕ := 10000

/-- `TASK_SOURCE_PATHS`. -/
def taskSourcePaths : List (List Char) :=
  ["docs/decomp/_next_session.md", "docs/qa/qa_backlog_campaign_handoff.md",
    "docs/linkage_certificates.csv", "docs/decomp_ledger.csv",
    "docs/asset_catalog/behavior_todo.md"].map String.toList

/-- `SearchScope`. -/
inductive SearchScope where
  | all
  | source
  | docs
  | re
  | tasks
  deriving DecidableEq

/-- `SearchScope(value)`. -/
def SearchScope.ofText : String → Option SearchScope
  | "all" => some .all
  | "source" => some .source
  | "docs" => some .docs
  | "re" => some .re
  | "tasks" => some .tasks
  | _ => none

/-- `ContentKind`. -/
inductive ContentKind where
  | source
  | documentation
  | reverseEngineering
  | task
  deriving DecidableEq

/-- The exceptions of a search or a fetch. -/
inductive SearchError where
  /-- A `SearchRequestError`. -/
  | request (message : String)
  /-- A `SearchEngineError`. -/
  | engine (message : String)
  | content (error : ContentError)
  /-- The `ValueError` for a NUL in an argument of ripgrep. -/
  | nulArgument
  /-- An exception while the events of ripgrep are read: `AttributeError`, or the name of a
  content error. -/
  | event (message : String)
  deriving DecidableEq

/-- What the service takes from Python's Unicode tables. -/
structure Unicode where
  /-- `str.lower`. -/
  lower : List Char → List Char
  /-- `str.casefold`. -/
  casefold : List Char → List Char

/-- The program `rg` and the paths that it reports. -/
structure Ripgrep where
  /-- `shutil.which("rg") is not None`. -/
  installed : Bool
  /-- The return code and the decoded output for a query without NUL, or `none` for an `OSError`
  or a `SubprocessError`. -/
  run : List Char → Option (ℤ × List Char)
  /-- `Path(path_text).resolve(strict=True).relative_to(root).as_posix()`, or `none` for an
  `OSError` or a `ValueError`. -/
  resolve : String → Option String
  /-- `int(value)`, or `none` for a `TypeError` or a `ValueError`. -/
  toInt : Json → Option ℤ
  toInt_int : ∀ n, toInt (.int n) = some n

/-- `_is_re_path`. -/
def isRePath (path : List Char) : Bool :=
  startsWith "docs/decomp/".toList path || path = "docs/decomp_ledger.csv".toList ||
    path = "docs/_gam_classids.tsv".toList || startsWith "docs/ghidra".toList path ||
    path = "docs/gam_schema.md".toList || startsWith "docs/linkage".toList path ||
    startsWith "docs/vtable".toList path || startsWith "tools/ghidra/".toList path ||
    startsWith "tools/linkage_oracles/".toList path ||
    path = "instrument/proxy/protocol.h".toList

/-- `path in {"AGENTS.md", "README.md"}`. -/
def isRootDocument (path : List Char) : Bool :=
  path = "AGENTS.md".toList || path = "README.md".toList

/-- Whether `classify_file` puts a path in a scope. -/
def inScope (path : List Char) : SearchScope → Bool
  | .all => true
  | .source =>
      path = "Makefile".toList || startsWith "src/".toList path ||
        startsWith "instrument/".toList path || startsWith "tools/".toList path ||
        startsWith "web/".toList path
  | .re => isRePath path
  | .tasks => taskSourcePaths.contains path
  | .docs =>
      isRootDocument path ||
        (startsWith "docs/".toList path && !taskSourcePaths.contains path && !isRePath path)

/-- The kind that `classify_file` gives a path. -/
def kindOf (path : List Char) : ContentKind :=
  if taskSourcePaths.contains path then .task
  else if isRePath path then .reverseEngineering
  else if isRootDocument path || startsWith "docs/".toList path then .documentation
  else .source

/-- `_selected_files`. -/
def selectedFiles (snapshot : Snapshot) (scope : SearchScope) : List CorpusFile :=
  snapshot.files.filter fun item => inScope item.relativePath scope

/-- The numbers of lines that were found in each file. -/
abbrev LineMap := List Char → List ℤ

/-- The text of a file as a search reads it. -/
def readForSearch (snapshot : Snapshot) (item : CorpusFile) : Except ContentError (List Char) :=
  (readTextBounded snapshot item maxFileBytes).map Prod.fst

/-- The numbers of the first lines of a text that satisfy a predicate. -/
def firstLines (isMatch : List Char → Bool) (text : List Char) : List ℤ :=
  (((text.splitOn '\n').zipIdx 1).filter fun line => isMatch line.1).map (fun line => (line.2 : ℤ))
    |>.take maxMatchesPerFile

/-- `_python_line_map`. -/
def pythonLineMap (unicode : Unicode) (snapshot : Snapshot) (query : List Char)
    (selected : List CorpusFile) : Except SearchError LineMap := do
  let needle := unicode.casefold query
  let found ← selected.mapM fun item => do
    let text ← (readForSearch snapshot item).mapError SearchError.content
    .ok (item.relativePath, firstLines (fun line => occursIn needle (unicode.casefold line)) text)
  .ok fun path => ((found.filter fun entry => entry.2 ≠ []).reverse.lookup path).getD []

/-- The name and the message of a content error. -/
def errorText : ContentError → String
  | .unsafePath message => "UnsafePathError: " ++ message
  | .invalidContentId message => "InvalidContentIdError: " ++ message
  | .staleContentId message => "StaleContentIdError: " ++ message
  | .contentNotFound message => "ContentNotFoundError: " ++ message
  | .contentUnavailable message => "ContentUnavailableError: " ++ message
  | .indexError => "IndexError"

/-- `resolve_content_id(snapshot, encode_content_id(commit, relative_path))`. -/
def recheck (unicode : Unicode) (snapshot : Snapshot) (path : List Char) :
    Except ContentError CorpusFile := do
  let contentId ← encodeContentId unicode.lower snapshot.commit path
  resolveContentId unicode.lower snapshot contentId

/-- What the loop over the events of ripgrep takes from the program and the snapshot. -/
def Ripgrep.host (rg : Ripgrep) (unicode : Unicode) (snapshot : Snapshot) : Host where
  resolve := rg.resolve
  toInt := rg.toInt
  toInt_int := rg.toInt_int
  revalidate path := ((recheck unicode snapshot path.toList).mapError errorText).map fun _ => ()

/-- `_ripgrep_line_map`. -/
def ripgrepSearch (unicode : Unicode) (rg : Ripgrep) (snapshot : Snapshot) (query : List Char)
    (selected : List CorpusFile) : Except SearchError LineMap :=
  if !rg.installed then .error (.engine "ripgrep is unavailable")
  else if nul ∈ query then .error .nulArgument
  else
    match rg.run query with
    | none => .error (.engine "ripgrep execution failed")
    | some (code, stdout) =>
        if code ≠ 0 ∧ code ≠ 1 then .error (.engine "ripgrep returned an unexpected status")
        else
          ((ripgrepLineMap (rg.host unicode snapshot)
            (selected.map fun item => String.ofList item.relativePath) stdout).mapError
              SearchError.event).map fun lineMap path => lineMap (String.ofList path)

/-- `_line_map`, for the engine of the request or else of the settings. -/
def lineMapOf (unicode : Unicode) (rg : Ripgrep) (snapshot : Snapshot) (query : List Char)
    (selected : List CorpusFile) (choice : String) : Except SearchError LineMap :=
  if choice ≠ "auto" ∧ choice ≠ "ripgrep" ∧ choice ≠ "python" then
    .error (.request "search engine is invalid")
  else if choice = "python" ∨ (choice = "auto" ∧ rg.installed = false) then
    pythonLineMap unicode snapshot query selected
  else
    match ripgrepSearch unicode rg snapshot query selected with
    | .error (.engine message) =>
        if choice = "ripgrep" then .error (.engine message)
        else pythonLineMap unicode snapshot query selected
    | result => result

/-- `SearchMatch`. -/
structure SearchMatch where
  line : ℤ
  text : List Char
  deriving DecidableEq

/-- `SearchResult`. -/
structure SearchResult where
  id : List Char
  path : List Char
  title : List Char
  kind : ContentKind
  found : List SearchMatch
  url : List Char
  content : Option (List Char)
  deriving DecidableEq

/-- A line of a text by its number, counted from one. -/
def lineAt (text : List Char) (number : ℤ) : Option (List Char) :=
  if 1 ≤ number then (text.splitOn '\n')[number.toNat - 1]? else none

/-- The matches of a file: the reported lines that contain the query. -/
def matchesIn (unicode : Unicode) (needle text : List Char) (numbers : List ℤ) :
    List SearchMatch :=
  (numbers.filterMap fun number => (lineAt text number).bind fun line =>
    if occursIn needle (unicode.casefold line) then
      some ⟨number, line.take maxMatchTextChars⟩
    else none).take maxMatchesPerFile

/-- The result for a file with its text and matches. -/
def resultOf (unicode : Unicode) (snapshot : Snapshot) (path text : List Char)
    (includeContent : Bool) (first : SearchMatch) (rest : List SearchMatch) :
    Except ContentError SearchResult := do
  let contentId ← encodeContentId unicode.lower snapshot.commit path
  let url ← citationUrl unicode.lower snapshot.commit path (some first.line)
  .ok {
    id := contentId
    path := path
    title := titleFromText unicode.lower path text
    kind := kindOf path
    found := first :: rest
    url := url
    content := if includeContent then some (text.take maxSearchContentChars) else none }

/-- The body of the loop of `search`. -/
def searchFile (unicode : Unicode) (snapshot : Snapshot) (needle : List Char) (lineMap : LineMap)
    (includeContent : Bool) (item : CorpusFile) : Except SearchError (Option SearchResult) :=
  if lineMap item.relativePath = [] then .ok none
  else
    match readForSearch snapshot item with
    | .error (.contentUnavailable _) => .ok none
    | .error e => .error (.content e)
    | .ok text =>
        match matchesIn unicode needle text (lineMap item.relativePath) with
        | [] => .ok none
        | first :: rest =>
            ((resultOf unicode snapshot item.relativePath text includeContent first rest).map
              some).mapError SearchError.content

/-- `kind_order`. -/
def ContentKind.order : ContentKind → ℕ
  | .task => 0
  | .reverseEngineering => 1
  | .documentation => 2
  | .source => 3

/-- The rank of a result by its name, title and path. -/
def matchRank (unicode : Unicode) (needle path title : List Char) : ℕ :=
  let filename := unicode.casefold (PurePosixPath.ofText path).name
  let foldedPath := unicode.casefold path
  if needle = filename ∨ needle = unicode.casefold title then 0
  else if occursIn needle filename || occursIn needle foldedPath then 1
  else 2

/-- `sort_key`. -/
def sortKey (unicode : Unicode) (needle : List Char) (result : SearchResult) :
    ℕ ×ₗ ℕ ×ₗ List Char ×ₗ List Char :=
  toLex (matchRank unicode needle result.path result.title,
    toLex (result.kind.order, toLex (unicode.casefold result.path, result.path)))

/-- `SearchResponse`. -/
structure SearchResponse where
  query : List Char
  scope : SearchScope
  count : ℕ
  results : List SearchResult
  deriving DecidableEq

/-- The arguments of a search; the engine is that of the request or else of the settings. -/
structure SearchRequest where
  query : String
  scope : String
  limit : ℤ
  includeContent : Bool
  engine : String

/-- `search`. -/
def search (unicode : Unicode) (rg : Ripgrep) (snapshot : Snapshot) (request : SearchRequest) :
    Except SearchError SearchResponse := do
  let query := stripText request.query.toList
  if query = [] ∨ query.length > maxQueryChars then
    .error (.request "query must contain 1..200 characters after trimming")
  else if ¬ (1 ≤ request.limit ∧ request.limit ≤ maxSearchResults) then
    .error (.request "limit must be in 1..50")
  else
    match SearchScope.ofText request.scope with
    | none => .error (.request "scope must be all, source, docs, re, or tasks")
    | some scope => do
        let selected := selectedFiles snapshot scope
        let lineMap ← lineMapOf unicode rg snapshot query selected request.engine
        let needle := unicode.casefold query
        let results ← selected.mapM
          (searchFile unicode snapshot needle lineMap request.includeContent)
        let sorted := (results.filterMap id).insertionSort fun a b =>
          sortKey unicode needle a ≤ sortKey unicode needle b
        let bounded := sorted.take request.limit.toNat
        .ok ⟨query, scope, bounded.length, bounded⟩

/-- `FetchRecord`. -/
structure FetchRecord where
  id : List Char
  title : List Char
  text : List Char
  url : List Char
  path : List Char
  kind : ContentKind
  language : Option String
  repository : String
  ref : String
  commit : List Char
  textChars : ℕ
  truncated : Bool
  deriving DecidableEq

/-- `fetch`. -/
def fetch (unicode : Unicode) (snapshot : Snapshot) (contentId : List Char) :
    Except ContentError FetchRecord := do
  let item ← resolveContentId unicode.lower snapshot contentId
  let (text, truncated) ← readTextBounded snapshot item maxFetchChars
  let url ← citationUrl unicode.lower snapshot.commit item.relativePath none
  .ok {
    id := contentId
    title := titleFromText unicode.lower item.relativePath text
    text := text
    url := url
    path := item.relativePath
    kind := kindOf item.relativePath
    language := languageForPath unicode.lower item.relativePath
    repository := "alexscott2718-gif/jn-engine"
    ref := "refs/heads/master"
    commit := snapshot.commit
    textChars := text.length
    truncated := truncated }

end ContributorGateway.ContentSearch
