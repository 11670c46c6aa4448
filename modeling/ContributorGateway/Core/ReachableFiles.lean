import ContributorGateway.Core.ContentSearch

/-!
# Files are reached by their IDs

Every file of an accepted snapshot is found by its ID and read. A search raises no content
error, and the IDs that it returns fetch the files that it reports.
-/

namespace ContributorGateway.ContentSearch

open Node RepositoryContent

variable {unicode : Unicode} {rg : Ripgrep} {snapshot : Snapshot} {item : CorpusFile}
  {needle text query : List Char} {numbers : List ℤ} {lineMap : LineMap} {selected : List CorpusFile}

/-! ## Texts and matches -/

/-- The text of a file as a search reads it. -/
def searchText (item : CorpusFile) : List Char := (utf8Replace item.data).take maxFileBytes

/-- An inventoried file is read for a search. -/
theorem readForSearch_of_mem (h : snapshot.Validated (repositoryCorpus unicode.lower))
    (hitem : item ∈ snapshot.files) : readForSearch snapshot item = .ok (searchText item) := by
  rw [readForSearch, readTextBounded_of_mem h hitem]
  rfl

/-- A selected file is an inventoried one. -/
theorem mem_files_of_mem_selected {scope : SearchScope} (h : item ∈ selectedFiles snapshot scope) :
    item ∈ snapshot.files :=
  (List.mem_filter.mp h).1

/-- A line that is found has a positive number. -/
theorem line_pos_of_mem_matchesIn {found : SearchMatch}
    (h : found ∈ matchesIn unicode needle text numbers) : 1 ≤ found.line := by
  obtain ⟨number, -, hfound⟩ := List.mem_filterMap.mp (List.mem_of_mem_take h)
  obtain ⟨line, hline, hmatch⟩ := Option.bind_eq_some_iff.mp hfound
  split_ifs at hmatch
  obtain rfl := Option.some.inj hmatch
  rw [lineAt] at hline
  split_ifs at hline with hpos
  exact hpos

/-- A result reports an inventoried file under its ID. -/
structure Reports (unicode : Unicode) (snapshot : Snapshot) (item : CorpusFile)
    (result : SearchResult) : Prop where
  id : result.id = contentIds.text snapshot.commit item.relativePath
  path : result.path = item.relativePath
  title : result.title = titleFromText unicode.lower item.relativePath (searchText item)
  kind : result.kind = kindOf item.relativePath

/-- The result for an inventoried file with a match. -/
theorem resultOf_of_mem (h : snapshot.Validated (repositoryCorpus unicode.lower))
    (hitem : item ∈ snapshot.files) (includeContent : Bool) {first : SearchMatch}
    (hfirst : 1 ≤ first.line) (rest : List SearchMatch) :
    ∃ result, resultOf unicode snapshot item.relativePath (searchText item) includeContent first
        rest = .ok result ∧ Reports unicode snapshot item result ∧ result.found = first :: rest := by
  have hline : ∀ n ∈ some first.line, 1 ≤ n := fun n hn => Option.some.inj hn ▸ hfirst
  obtain ⟨url, hurl⟩ := citationUrl_of_mem h hitem hline
  rw [resultOf, encodeContentId_of_mem h hitem, hurl]
  exact ⟨_, rfl, ⟨rfl, rfl, rfl, rfl⟩, rfl⟩

/-- An inventoried file gives a result if and only if one of its reported lines matches. -/
theorem searchFile_of_mem (h : snapshot.Validated (repositoryCorpus unicode.lower))
    (hitem : item ∈ snapshot.files) (needle : List Char) (lineMap : LineMap)
    (includeContent : Bool) :
    ∃ result, searchFile unicode snapshot needle lineMap includeContent item = .ok result ∧
      (result.map SearchResult.found).getD [] =
        matchesIn unicode needle (searchText item) (lineMap item.relativePath) ∧
      ∀ r ∈ result, Reports unicode snapshot item r ∧ r.found ≠ [] := by
  rw [searchFile]
  split_ifs with hnumbers
  · rw [hnumbers]
    exact ⟨none, rfl, rfl, fun r hr => by cases hr⟩
  · rw [readForSearch_of_mem h hitem]
    dsimp only
    cases hmatches : matchesIn unicode needle (searchText item) (lineMap item.relativePath) with
    | nil => exact ⟨none, rfl, rfl, fun r hr => by cases hr⟩
    | cons first rest =>
      have hfirst : 1 ≤ first.line := by
        have hmem : first ∈ matchesIn unicode needle (searchText item)
            (lineMap item.relativePath) := by
          rw [hmatches]
          exact List.mem_cons_self ..
        exact line_pos_of_mem_matchesIn hmem
      obtain ⟨result, hresult, hreports, hfound⟩ :=
        resultOf_of_mem h hitem includeContent hfirst rest
      dsimp only
      rw [hresult]
      refine ⟨some result, rfl, hfound, fun r hr => ?_⟩
      obtain rfl := Option.some.inj hr
      rw [hfound]
      exact ⟨hreports, List.cons_ne_nil _ _⟩

/-! ## Line maps -/

/-- The loop over the events fails only on an event that is no object, if every selected file
passes the checks. -/
theorem acceptEvent_eq_error {host : Host} {paths : List String}
    (hchecks : ∀ path ∈ paths, host.revalidate path = .ok ()) {rawEvent : List Char}
    {message : String} (h : acceptEvent host paths rawEvent = .error message) :
    message = "AttributeError" := by
  rcases bind_eq_error.mp h with hread | ⟨read, -, haccept⟩
  · rw [readEvent.eq_def] at hread
    split at hread
    · cases hread
    · cases hread
    · exact (Except.error.inj hread).symm
  · cases read with
    | none => cases haccept
    | some found =>
      obtain ⟨relative, line⟩ := found
      dsimp only at haccept
      split_ifs at haccept with hselected
      rw [hchecks relative hselected] at haccept
      cases haccept

/-- The line map of ripgrep fails only on an event that is no object, if every selected file
passes the checks. -/
theorem ripgrepLineMap_eq_error {host : Host} {paths : List String}
    (hchecks : ∀ path ∈ paths, host.revalidate path = .ok ()) {stdout : List Char}
    {message : String} (h : ripgrepLineMap host paths stdout = .error message) :
    message = "AttributeError" := by
  rcases bind_eq_error.mp h with hfold | ⟨lineMap, -, hsort⟩
  · obtain ⟨lineMap, rawEvent, -, hstep⟩ := exists_of_foldlM_eq_error hfold
    rcases bind_eq_error.mp hstep with haccept | ⟨accepted, -, hadd⟩
    · exact acceptEvent_eq_error hchecks haccept
    · cases accepted <;> cases hadd
  · cases hsort

/-- The lines of a file with a predicate, as the engine in Python collects them. -/
def entryOf (isMatch : List Char → Bool) (item : CorpusFile) : List Char × List ℤ :=
  (item.relativePath, firstLines isMatch (searchText item))

/-- The dictionary of the engine in Python. -/
def linesFound (isMatch : List Char → Bool) (selected : List CorpusFile) : LineMap :=
  fun path => (((selected.map (entryOf isMatch)).filter fun entry =>
    entry.2 ≠ []).reverse.lookup path).getD []

/-- The dictionary has the lines of every file. -/
theorem linesFound_of_mem (h : snapshot.Validated (repositoryCorpus unicode.lower))
    (hselected : ∀ item ∈ selected, item ∈ snapshot.files) (isMatch : List Char → Bool)
    (hitem : item ∈ selected) :
    linesFound isMatch selected item.relativePath = firstLines isMatch (searchText item) := by
  rw [linesFound]
  have hunique : ∀ entry ∈ ((selected.map (entryOf isMatch)).filter fun entry =>
      entry.2 ≠ []).reverse, entry.1 = item.relativePath →
        entry.2 = firstLines isMatch (searchText item) ∧ entry.2 ≠ [] := by
    intro entry hentry hpath
    obtain ⟨hmem, hnonempty⟩ := List.mem_filter.mp (List.mem_reverse.mp hentry)
    obtain ⟨item', hitem', rfl⟩ := List.mem_map.mp hmem
    obtain rfl := h.eq_of_path (hselected item' hitem') (hselected item hitem) hpath
    exact ⟨rfl, of_decide_eq_true hnonempty⟩
  by_cases hnone : firstLines isMatch (searchText item) = []
  · rw [hnone, lookup_of_notMem]
    · rfl
    · intro entry hentry hpath
      obtain ⟨hlines, hnonempty⟩ := hunique entry hentry hpath
      exact hnonempty (hlines.trans hnone)
  · have hmem : (item.relativePath, firstLines isMatch (searchText item)) ∈
        ((selected.map (entryOf isMatch)).filter fun entry => entry.2 ≠ []).reverse := by
      refine List.mem_reverse.mpr (List.mem_filter.mpr ⟨List.mem_map_of_mem hitem, ?_⟩)
      exact decide_eq_true hnone
    rw [lookup_of_unique (fun entry hentry hpath => (hunique entry hentry hpath).1) hmem]
    rfl

/-- The engine in Python finds the first lines of each file that match. -/
theorem pythonLineMap_of_mem (h : snapshot.Validated (repositoryCorpus unicode.lower))
    (query : List Char) (hselected : ∀ item ∈ selected, item ∈ snapshot.files) :
    ∃ lineMap, pythonLineMap unicode snapshot query selected = .ok lineMap ∧
      ∀ item ∈ selected, lineMap item.relativePath = firstLines
        (fun line => occursIn (unicode.casefold query) (unicode.casefold line))
        (searchText item) := by
  have hread : ∀ item ∈ selected, (do
      let text ← (readForSearch snapshot item).mapError SearchError.content
      .ok (item.relativePath, firstLines
        (fun line => occursIn (unicode.casefold query) (unicode.casefold line)) text)) =
      Except.ok (ε := SearchError) (entryOf
        (fun line => occursIn (unicode.casefold query) (unicode.casefold line)) item) := by
    intro item hitem
    rw [readForSearch_of_mem h (hselected item hitem)]
    rfl
  refine ⟨linesFound _ selected, ?_, fun item hitem => linesFound_of_mem h hselected _ hitem⟩
  rw [pythonLineMap, mapM_eq_map hread]
  rfl

/-! ## Searches -/

/-- The ID of a file is not too long to be read back. -/
def HasShortId (snapshot : Snapshot) (item : CorpusFile) : Prop :=
  (contentIds.text snapshot.commit item.relativePath).length ≤ maxContentIdChars

/-- An inventoried file passes the checks that ripgrep's output goes through. -/
theorem recheck_of_mem (h : snapshot.Validated (repositoryCorpus unicode.lower))
    (hitem : item ∈ snapshot.files) (hshort : HasShortId snapshot item) :
    recheck unicode snapshot item.relativePath = .ok item := by
  rw [recheck, encodeContentId_of_mem h hitem]
  exact resolveContentId_of_mem h hitem hshort

/-- Every selected file passes the checks. -/
theorem revalidate_of_mem (h : snapshot.Validated (repositoryCorpus unicode.lower))
    (hselected : ∀ item ∈ selected, item ∈ snapshot.files)
    (hshort : ∀ item ∈ snapshot.files, HasShortId snapshot item) :
    ∀ path ∈ selected.map fun item => String.ofList item.relativePath,
      (rg.host unicode snapshot).revalidate path = .ok () := by
  intro path hpath
  obtain ⟨item, hitem, rfl⟩ := List.mem_map.mp hpath
  have hitem := hselected item hitem
  change ((recheck unicode snapshot (String.ofList item.relativePath).toList).mapError
    errorText).map (fun _ => ()) = .ok ()
  rw [String.toList_ofList, recheck_of_mem h hitem (hshort item hitem)]
  rfl

/-- What a search of an accepted snapshot fails on: the request, the program and its arguments, or
an event of ripgrep that is no object. -/
def IsOutsideError : SearchError → Prop
  | .request _ => True
  | .engine _ => True
  | .content _ => False
  | .nulArgument => True
  | .event message => message = "AttributeError"

/-- Ripgrep's line map fails on no content error. -/
theorem ripgrepSearch_eq_error (h : snapshot.Validated (repositoryCorpus unicode.lower))
    (hselected : ∀ item ∈ selected, item ∈ snapshot.files)
    (hshort : ∀ item ∈ snapshot.files, HasShortId snapshot item) {e : SearchError}
    (herror : ripgrepSearch unicode rg snapshot query selected = .error e) :
    IsOutsideError e := by
  rw [ripgrepSearch] at herror
  split_ifs at herror
  · obtain rfl := Except.error.inj herror
    trivial
  · obtain rfl := Except.error.inj herror
    trivial
  · split at herror
    · obtain rfl := Except.error.inj herror
      trivial
    · next code stdout _ =>
      split_ifs at herror
      · obtain rfl := Except.error.inj herror
        trivial
      · cases hmap : ripgrepLineMap (rg.host unicode snapshot)
          (selected.map fun item => String.ofList item.relativePath) stdout with
        | ok lineMap =>
          rw [hmap] at herror
          cases herror
        | error message =>
          rw [hmap] at herror
          obtain rfl := Except.error.inj herror
          exact ripgrepLineMap_eq_error (revalidate_of_mem h hselected hshort) hmap

/-- No line map fails on a content error. -/
theorem lineMapOf_eq_error (h : snapshot.Validated (repositoryCorpus unicode.lower))
    (hselected : ∀ item ∈ selected, item ∈ snapshot.files)
    (hshort : ∀ item ∈ snapshot.files, HasShortId snapshot item) {choice : String}
    {e : SearchError} (herror : lineMapOf unicode rg snapshot query selected choice = .error e) :
    IsOutsideError e := by
  obtain ⟨lineMap, hpython, -⟩ := pythonLineMap_of_mem h query hselected
  rw [lineMapOf, hpython] at herror
  split at herror
  · obtain rfl := Except.error.inj herror
    trivial
  · split at herror
    · cases herror
    · split at herror
      · split at herror
        · obtain rfl := Except.error.inj herror
          trivial
        · cases herror
      · exact ripgrepSearch_eq_error h hselected hshort herror

/-- The query and the scope of a request that passes the checks of the arguments. -/
structure IsRequest (request : SearchRequest) (query : List Char) (scope : SearchScope) : Prop where
  stripped : stripText request.query.toList = query
  nonempty : query ≠ []
  bounded : query.length ≤ maxQueryChars
  limited : 1 ≤ request.limit ∧ request.limit ≤ maxSearchResults
  known : SearchScope.ofText request.scope = some scope

/-- The result of a search for a file, if there is one. -/
def reportOf (unicode : Unicode) (snapshot : Snapshot) (needle : List Char) (lineMap : LineMap)
    (includeContent : Bool) (item : CorpusFile) : Option SearchResult :=
  (searchFile unicode snapshot needle lineMap includeContent item).toOption.join

/-- The response with the first results in their order. -/
def responseOf (unicode : Unicode) (snapshot : Snapshot) (request : SearchRequest)
    (query : List Char) (scope : SearchScope) (lineMap : LineMap) : SearchResponse :=
  let needle := unicode.casefold query
  let results := (selectedFiles snapshot scope).filterMap
    (reportOf unicode snapshot needle lineMap request.includeContent)
  let bounded := (results.insertionSort fun a b =>
    sortKey unicode needle a ≤ sortKey unicode needle b).take request.limit.toNat
  ⟨query, scope, bounded.length, bounded⟩

/-- The body of the loop succeeds on an inventoried file. -/
theorem searchFile_eq_reportOf (h : snapshot.Validated (repositoryCorpus unicode.lower))
    (hitem : item ∈ snapshot.files) (needle : List Char) (lineMap : LineMap)
    (includeContent : Bool) : searchFile unicode snapshot needle lineMap includeContent item =
      .ok (reportOf unicode snapshot needle lineMap includeContent item) := by
  obtain ⟨result, hresult, -⟩ := searchFile_of_mem h hitem needle lineMap includeContent
  rw [reportOf, hresult]
  cases result <;> rfl

/-- A search of an accepted snapshot depends on the engine for the line map alone. -/
theorem search_eq (h : snapshot.Validated (repositoryCorpus unicode.lower))
    {request : SearchRequest} {scope : SearchScope} (hrequest : IsRequest request query scope) :
    search unicode rg snapshot request =
      (lineMapOf unicode rg snapshot query (selectedFiles snapshot scope) request.engine).map
        (responseOf unicode snapshot request query scope) := by
  obtain ⟨rfl, hnonempty, hbounded, hlimit, hscope⟩ := hrequest
  have hquery : ¬ (stripText request.query.toList = [] ∨
      (stripText request.query.toList).length > maxQueryChars) := by
    rintro (hempty | hlong)
    · exact hnonempty hempty
    · omega
  rw [search]
  dsimp only
  rw [if_neg hquery, if_neg (not_not.mpr hlimit), hscope]
  dsimp only
  cases lineMapOf unicode rg snapshot (stripText request.query.toList)
    (selectedFiles snapshot scope) request.engine with
  | error e => rfl
  | ok lineMap =>
    have hresults := mapM_eq_map (l := selectedFiles snapshot scope) fun item hitem =>
      searchFile_eq_reportOf h (mem_files_of_mem_selected hitem)
        (unicode.casefold (stripText request.query.toList)) lineMap request.includeContent
    dsimp only [bind, Except.bind]
    rw [hresults]
    dsimp only
    rw [List.filterMap_map, Function.id_comp]
    rfl

/-- A search with other arguments is refused. -/
theorem search_of_not_isRequest {request : SearchRequest}
    (h : ∀ query scope, ¬ IsRequest request query scope) :
    ∃ message, search unicode rg snapshot request = .error (.request message) := by
  rw [search]
  dsimp only
  split_ifs with hquery hlimit
  · exact ⟨_, rfl⟩
  · cases hscope : SearchScope.ofText request.scope with
    | none => exact ⟨_, rfl⟩
    | some scope =>
      rw [not_or] at hquery
      exact absurd ⟨rfl, hquery.1, by omega, hlimit, hscope⟩ (h _ scope)
  · exact ⟨_, rfl⟩

/-- Every result reports an inventoried file. -/
theorem exists_of_mem_responseOf (h : snapshot.Validated (repositoryCorpus unicode.lower))
    {request : SearchRequest} {scope : SearchScope} {result : SearchResult}
    (hresult : result ∈ (responseOf unicode snapshot request query scope lineMap).results) :
    ∃ item ∈ snapshot.files, Reports unicode snapshot item result := by
  have hmem := (List.mem_insertionSort _).mp (List.mem_of_mem_take hresult)
  obtain ⟨item, hselected, hreport⟩ := List.mem_filterMap.mp hmem
  have hitem := mem_files_of_mem_selected hselected
  obtain ⟨reported, hsearch, -, hreports⟩ := searchFile_of_mem h hitem
    (unicode.casefold query) lineMap request.includeContent
  rw [searchFile_eq_reportOf h hitem, hreport] at hsearch
  obtain rfl := Except.ok.inj hsearch
  exact ⟨item, hitem, (hreports result rfl).1⟩

/-! ## Fetches -/

/-- An inventoried file is fetched by its ID. -/
theorem fetch_of_mem (h : snapshot.Validated (repositoryCorpus unicode.lower))
    (hitem : item ∈ snapshot.files) (hshort : HasShortId snapshot item) :
    ∃ record, fetch unicode snapshot (contentIds.text snapshot.commit item.relativePath) =
        .ok record ∧
      record.id = contentIds.text snapshot.commit item.relativePath ∧
      record.path = item.relativePath ∧ record.kind = kindOf item.relativePath ∧
      record.text = (utf8Replace item.data).take maxFetchChars := by
  have hline : ∀ n ∈ (none : Option ℤ), 1 ≤ n := nofun
  obtain ⟨url, hurl⟩ := citationUrl_of_mem h hitem hline
  rw [fetch, resolveContentId_of_mem h hitem hshort]
  dsimp only [bind, Except.bind]
  rw [readTextBounded_of_mem h hitem]
  dsimp only
  rw [hurl]
  exact ⟨_, rfl, rfl, rfl, rfl, rfl⟩

/-- The policies of the scan and of a request agree on a file, its ID is read back and leads to
it, and it is read. -/
structure Reachable (unicode : Unicode) (snapshot : Snapshot) (item : CorpusFile) : Prop where
  requested : validateRelativePath unicode.lower item.relativePath = .ok item.relativePath
  identified : ∃ contentId,
    encodeContentId unicode.lower snapshot.commit item.relativePath = .ok contentId ∧
    decodeContentId unicode.lower contentId = .ok ⟨snapshot.commit, item.relativePath⟩ ∧
    resolveContentId unicode.lower snapshot contentId = .ok item
  read : ∀ maxChars, ∃ text truncated,
    readTextBounded snapshot item maxChars = .ok (text, truncated)

/-- A result reports an inventoried file, and its ID fetches that file. -/
def Fetches (unicode : Unicode) (snapshot : Snapshot) (result : SearchResult) : Prop :=
  ∃ item ∈ snapshot.files, Reports unicode snapshot item result ∧
    ∃ record, fetch unicode snapshot result.id = .ok record ∧ record.id = result.id ∧
      record.path = result.path ∧ record.kind = result.kind ∧
      record.text = (utf8Replace item.data).take maxFetchChars

/-- Every file of an accepted snapshot is reached by its ID, no search of the snapshot fails on a
content error, and every result of a search is fetched. -/
theorem reachable_of_validateSnapshot (unicode : Unicode) (sha256 : List UInt8 → List Char)
    (manifest : SnapshotManifest) (requireReadOnly writable : Bool) (disk : Disk)
    (snapshot : Snapshot)
    (haccepted : validateSnapshot unicode.lower sha256 manifest requireReadOnly writable
      disk.toTree = .ok snapshot)
    (hshort : ∀ item ∈ snapshot.files, HasShortId snapshot item) :
    (∀ item ∈ snapshot.files, Reachable unicode snapshot item) ∧
      ∀ (rg : Ripgrep) (request : SearchRequest),
        match search unicode rg snapshot request with
        | .error e => IsOutsideError e
        | .ok response => ∀ result ∈ response.results, Fetches unicode snapshot result := by
  have h := validated_of_validateSnapshot haccepted
  constructor
  · intro item hitem
    refine ⟨validateRelativePath_of_mem h hitem, ⟨_, encodeContentId_of_mem h hitem,
      decodeContentId_of_mem h hitem (hshort item hitem),
      resolveContentId_of_mem h hitem (hshort item hitem)⟩, fun maxChars => ?_⟩
    exact ⟨_, _, readTextBounded_of_mem h hitem maxChars⟩
  · intro rg request
    by_cases hrequest : ∃ query scope, IsRequest request query scope
    · obtain ⟨query, scope, hrequest⟩ := hrequest
      rw [search_eq h hrequest]
      cases hlines : lineMapOf unicode rg snapshot query (selectedFiles snapshot scope)
        request.engine with
      | error e =>
        exact lineMapOf_eq_error h (fun item => mem_files_of_mem_selected) hshort hlines
      | ok lineMap =>
        intro result hresult
        obtain ⟨item, hitem, hreports⟩ := exists_of_mem_responseOf h hresult
        obtain ⟨record, hfetch, hid, hpath, hkind, htext⟩ :=
          fetch_of_mem h hitem (hshort item hitem)
        refine ⟨item, hitem, hreports, record, ?_, ?_, ?_, ?_, htext⟩
        · rw [hreports.id, hfetch]
        · rw [hid, hreports.id]
        · rw [hpath, hreports.path]
        · rw [hkind, hreports.kind]
    · have hrefused : ∃ message, search unicode rg snapshot request = .error (.request message) :=
        search_of_not_isRequest fun query scope h => hrequest ⟨query, scope, h⟩
      obtain ⟨message, hmessage⟩ := hrefused
      rw [hmessage]
      trivial

/-- The approved root files and directories, and a document. -/
def guideEntries : Entries :=
  [("AGENTS.md".toList, .file 0), ("README.md".toList, .file 1), ("Makefile".toList, .file 2),
    ("src".toList, .dir []), ("instrument".toList, .dir []), ("tools".toList, .dir []),
    ("docs".toList, .dir [("guide.md".toList, .file 3)]), ("web".toList, .dir [])]

theorem wellNamed_guideEntries : (Node.dir guideEntries).WellNamed := by
  simp [guideEntries, Node.WellNamed, Node.WellNamedEntries, IsFileName, PurePosixPath.IsName,
    PurePosixPath.isDropped, nul]

theorem counted_guideEntries (inode : ℕ) :
    ((filesIn [] guideEntries).map Prod.snd).count inode ≤ 1 :=
  List.nodup_iff_count_le_one.mp (by decide +kernel) inode

/-- A disk with three files of one line and a document. -/
def guideDisk (document : List Char) : Disk where
  entries := guideEntries
  links _ := 1
  data inode := utf8Encode (if inode = 3 then document else "a line\n".toList)
  wellNamed := wellNamed_guideEntries
  counted := counted_guideEntries

theorem isCommit_guideManifest : isCommit (List.replicate 40 'a') = true := by decide

/-- The manifest of the disk with a document of seven bytes, and a digest of no characters. -/
def guideManifest : SnapshotManifest where
  commit := List.replicate 40 'a'
  fileCount := 4
  totalBytes := 28
  contentSha256 := []
  isCommit := isCommit_guideManifest

/-- The files of the disk. -/
def guideFiles (document : List Char) : List CorpusFile :=
  (filesIn [] guideEntries).map (guideDisk document).toTree.corpusFile

/-- An accepted snapshot of the disk has its files. -/
theorem files_of_guideDisk {lower : List Char → List Char} {document : List Char}
    (haccepted : validateSnapshot lower (fun _ => []) guideManifest false false
      (guideDisk document).toTree = .ok snapshot) :
    snapshot.commit = guideManifest.commit ∧ ∀ item ∈ snapshot.files, item ∈ guideFiles document := by
  obtain ⟨inventory, hinventory, hmatch⟩ := bind_eq_ok.mp haccepted
  obtain ⟨h, htree, hcommit, -⟩ :=
    validated_of_matchManifest (mapError_eq_ok.mp hinventory) hmatch
  refine ⟨hcommit, fun item hitem => ?_⟩
  obtain ⟨f, hf, rfl⟩ := h.exists_file hitem
  rw [htree] at hf ⊢
  exact List.mem_map_of_mem hf

/-- The IDs of the files are short. -/
theorem hasShortId_of_guideDisk {lower : List Char → List Char} {document : List Char}
    (haccepted : validateSnapshot lower (fun _ => []) guideManifest false false
      (guideDisk document).toTree = .ok snapshot) : ∀ item ∈ snapshot.files,
    HasShortId snapshot item := by
  intro item hitem
  obtain ⟨hcommit, hfiles⟩ := files_of_guideDisk haccepted
  obtain ⟨f, hf, rfl⟩ := List.mem_map.mp (hfiles item hitem)
  have hids : ((filesIn [] guideEntries).map fun f => (contentIds.text guideManifest.commit
      (relativePath f.1)).length).all (· ≤ maxContentIdChars) = true := by decide +kernel
  rw [HasShortId, hcommit]
  exact of_decide_eq_true (List.all_eq_true.mp hids _ (List.mem_map_of_mem hf))

/-- Python's tables on ASCII. -/
def asciiSearch : Unicode := ⟨List.map Char.toLower, List.map Char.toLower⟩

/-- The files of an accepted snapshot of four files are reached. -/
theorem guide_reachable : ∃ snapshot,
    validateSnapshot asciiSearch.lower (fun _ => []) guideManifest false false
      (guideDisk "a guide".toList).toTree = .ok snapshot ∧
    ∀ item ∈ snapshot.files, Reachable asciiSearch snapshot item := by
  have hok : (validateSnapshot asciiSearch.lower (fun _ => []) guideManifest false false
      (guideDisk "a guide".toList).toTree).isOk = true := by decide +kernel
  obtain ⟨snapshot, haccepted⟩ := exists_of_isOk hok
  obtain ⟨hreachable, -⟩ := reachable_of_validateSnapshot asciiSearch (fun _ => []) guideManifest
    false false (guideDisk "a guide".toList) snapshot haccepted (hasShortId_of_guideDisk haccepted)
  exact ⟨snapshot, haccepted, hreachable⟩

end ContributorGateway.ContentSearch
