import ContributorGateway.Core.SearchEngines
import Mathlib.Data.List.Nodup

/-!
# What a search returns

The results of a search are the matching files of the scope in their order, as far as the limit
goes. Whatever ripgrep reports, a result shows lines of its file that contain the query; the
engine in Python misses none of the files.
-/

namespace ContributorGateway.ContentSearch

open Node RepositoryContent

variable {unicode : Unicode} {rg : Ripgrep} {snapshot : Snapshot} {item : CorpusFile}
  {needle text query : List Char} {numbers : List ℤ} {lineMap : LineMap} {includeContent : Bool}

/-! ## One result -/

/-- A match is a line of a text that contains the query, cut to the bound. -/
def IsMatchOf (unicode : Unicode) (needle text : List Char) (found : SearchMatch) : Prop :=
  ∃ line, lineAt text found.line = some line ∧
    occursIn needle (unicode.casefold line) = true ∧ found.text = line.take maxMatchTextChars

/-- A result shows an inventoried file: its lines that contain the query, the place of the first
of them and, if it was asked for, the beginning of the text. -/
structure Shows (unicode : Unicode) (snapshot : Snapshot) (needle : List Char)
    (includeContent : Bool) (item : CorpusFile) (result : SearchResult) : Prop
    extends Reports unicode snapshot item result where
  found : ∀ found ∈ result.found, IsMatchOf unicode needle (searchText item) found
  few : result.found.length ≤ maxMatchesPerFile
  url : ∃ first rest, result.found = first :: rest ∧
    citationUrl unicode.lower snapshot.commit item.relativePath (some first.line) = .ok result.url
  content : result.content =
    if includeContent then some ((searchText item).take maxSearchContentChars) else none

/-- The reported lines that are kept are matches. -/
theorem isMatchOf_of_mem_matchesIn {found : SearchMatch}
    (h : found ∈ matchesIn unicode needle text numbers) : IsMatchOf unicode needle text found := by
  obtain ⟨number, -, hfound⟩ := List.mem_filterMap.mp (List.mem_of_mem_take h)
  obtain ⟨line, hline, hmatch⟩ := Option.bind_eq_some_iff.mp hfound
  split_ifs at hmatch with hoccurs
  obtain rfl := Option.some.inj hmatch
  exact ⟨line, hline, hoccurs, rfl⟩

/-- The result for a file shows it. -/
theorem shows_of_reportOf (h : snapshot.Validated (repositoryCorpus unicode.lower))
    (hitem : item ∈ snapshot.files) {result : SearchResult}
    (hreport : reportOf unicode snapshot needle lineMap includeContent item = some result) :
    Shows unicode snapshot needle includeContent item result := by
  have hsearch := searchFile_eq_reportOf h hitem needle lineMap includeContent
  rw [hreport, searchFile, readForSearch_of_mem h hitem] at hsearch
  split_ifs at hsearch
  · cases Except.ok.inj hsearch
  · dsimp only at hsearch
    cases hmatches : matchesIn unicode needle (searchText item) (lineMap item.relativePath) with
    | nil =>
      rw [hmatches] at hsearch
      cases Except.ok.inj hsearch
    | cons first rest =>
      have hall : ∀ found ∈ first :: rest, IsMatchOf unicode needle (searchText item) found := by
        rw [← hmatches]
        exact fun found => isMatchOf_of_mem_matchesIn
      have hfew : (first :: rest).length ≤ maxMatchesPerFile := by
        rw [← hmatches]
        exact List.length_take_le _ _
      have hline : ∀ n ∈ some first.line, 1 ≤ n := by
        intro n hn
        obtain rfl := Option.some.inj hn
        apply line_pos_of_mem_matchesIn
        rw [hmatches]
        exact List.mem_cons_self
      obtain ⟨url, hurl⟩ := citationUrl_of_mem h hitem hline
      rw [hmatches] at hsearch
      dsimp only at hsearch
      rw [resultOf, encodeContentId_of_mem h hitem, hurl] at hsearch
      obtain rfl := Option.some.inj (Except.ok.inj hsearch)
      exact
        { id := rfl
          path := rfl
          title := rfl
          kind := rfl
          found := hall
          few := hfew
          url := ⟨first, rest, rfl, hurl⟩
          content := rfl }

/-! ## All results -/

/-- No file is listed twice. -/
theorem nodup_filesAt {node : Node} {parts : List (List Char)} (hnode : node.WellNamed) :
    (node.filesAt parts).Nodup := by
  induction node using Node.induct generalizing parts with
  | file inode => exact List.nodup_singleton _
  | symlink toDirectory => exact List.nodup_nil
  | special => exact List.nodup_nil
  | dir entries ih =>
    obtain ⟨hnames, hbelow⟩ := hnode
    rw [wellNamedEntries_iff] at hbelow
    rw [filesAt_dir, filesIn_eq_flatMap, List.nodup_flatMap]
    refine ⟨fun e he => ih e he (hbelow e he).2, ?_⟩
    refine (List.pairwise_map.mp hnames).imp_of_mem fun {e e'} he he' hne f hf hf' => ?_
    obtain ⟨more, hmore, -⟩ := names_of_mem_filesAt (hbelow e he).2 hf
    obtain ⟨more', hmore', -⟩ := names_of_mem_filesAt (hbelow e' he').2 hf'
    rw [hmore, List.append_assoc, List.append_assoc] at hmore'
    exact hne (List.cons.inj (List.append_cancel_left hmore')).1

/-- No file is inventoried twice. -/
theorem nodup_files {c : Corpus} (h : snapshot.Validated c) : snapshot.files.Nodup := by
  refine h.files.nodup_iff.mpr (List.Nodup.map_on ?_ (nodup_filesAt h.wellNamed))
  intro f hf f' hf' hsame
  exact inode_unique h.wellNamed hf hf' (congrArg CorpusFile.relativePath hsame)

/-- The keys tell the files of a scope apart. -/
theorem eq_of_fileKey_selected (h : snapshot.Validated (repositoryCorpus unicode.lower))
    (needle : List Char) (scope : SearchScope) :
    ∀ item ∈ selectedFiles snapshot scope, ∀ item' ∈ selectedFiles snapshot scope,
      fileKey unicode needle item = fileKey unicode needle item' → item = item' :=
  fun _ hitem _ hitem' =>
    eq_of_fileKey h (mem_files_of_mem_selected hitem) (mem_files_of_mem_selected hitem')

/-- The files of a scope in the order of their results. -/
def rankedFiles (unicode : Unicode) (snapshot : Snapshot) (needle : List Char)
    (scope : SearchScope) : List CorpusFile :=
  (selectedFiles snapshot scope).insertionSort fun a b =>
    fileKey unicode needle a ≤ fileKey unicode needle b

/-- The ranked files are those of the scope. -/
theorem mem_rankedFiles {scope : SearchScope} :
    item ∈ rankedFiles unicode snapshot needle scope ↔ item ∈ selectedFiles snapshot scope :=
  List.mem_insertionSort _

/-- The ranked files have increasing keys. -/
theorem pairwise_rankedFiles (h : snapshot.Validated (repositoryCorpus unicode.lower))
    (needle : List Char) (scope : SearchScope) :
    (rankedFiles unicode snapshot needle scope).Pairwise fun a b =>
      fileKey unicode needle a < fileKey unicode needle b := by
  have hnodup : (rankedFiles unicode snapshot needle scope).Nodup :=
    (List.perm_insertionSort _ _).nodup_iff.mpr ((nodup_files h).filter _)
  have hsorted := pairwise_sorted (fileKey unicode needle) (selectedFiles snapshot scope)
  refine (hsorted.and hnodup).imp_of_mem fun {a b} ha hb hab => ?_
  refine lt_of_le_of_ne hab.1 fun heq => hab.2 ?_
  exact eq_of_fileKey_selected h needle scope a (mem_rankedFiles.mp ha) b (mem_rankedFiles.mp hb) heq

variable {request : SearchRequest} {scope : SearchScope}

/-- The results are the first that the ranked files give. -/
theorem results_eq (h : snapshot.Validated (repositoryCorpus unicode.lower)) :
    (responseOf unicode snapshot request query scope lineMap).results =
      ((rankedFiles unicode snapshot (unicode.casefold query) scope).filterMap
        (reportOf unicode snapshot (unicode.casefold query) lineMap request.includeContent)).take
          request.limit.toNat := by
  have hsort := insertionSort_filterMap
    (f := reportOf unicode snapshot (unicode.casefold query) lineMap request.includeContent)
    (fun item hitem result hreport =>
      sortKey_reportOf h (mem_files_of_mem_selected hitem) hreport)
    (eq_of_fileKey_selected h (unicode.casefold query) scope)
  exact congrArg (List.take request.limit.toNat) hsort

/-- A result is the one that some file of the scope gives. -/
theorem exists_of_mem_results (h : snapshot.Validated (repositoryCorpus unicode.lower))
    {result : SearchResult}
    (hresult : result ∈ (responseOf unicode snapshot request query scope lineMap).results) :
    ∃ item ∈ selectedFiles snapshot scope, reportOf unicode snapshot (unicode.casefold query)
      lineMap request.includeContent item = some result := by
  rw [results_eq h] at hresult
  obtain ⟨item, hitem, hreport⟩ := List.mem_filterMap.mp (List.mem_of_mem_take hresult)
  exact ⟨item, mem_rankedFiles.mp hitem, hreport⟩

/-- The results of all files have increasing keys. -/
theorem pairwise_found (h : snapshot.Validated (repositoryCorpus unicode.lower)) :
    ((rankedFiles unicode snapshot needle scope).filterMap
      (reportOf unicode snapshot needle lineMap includeContent)).Pairwise fun a b =>
        sortKey unicode needle a < sortKey unicode needle b := by
  rw [List.pairwise_filterMap]
  refine (pairwise_rankedFiles h needle scope).imp_of_mem fun {a b} ha hb hlt r hr r' hr' => ?_
  have ha := mem_files_of_mem_selected (mem_rankedFiles.mp ha)
  have hb := mem_files_of_mem_selected (mem_rankedFiles.mp hb)
  rw [sortKey_reportOf h ha hr, sortKey_reportOf h hb hr']
  exact hlt

/-- A search with any engine is sound. The results have increasing keys, so that no file is
shown twice, and are at most as many as were asked for; each shows a file of the scope; and its ID,
if that is within the bound of its codec, fetches a text in which the same lines match, if the file
is not too long for a fetch. -/
theorem search_sound (unicode : Unicode) (sha256 : List UInt8 → List Char)
    (manifest : SnapshotManifest) (requireReadOnly writable : Bool) (disk : Disk)
    (snapshot : Snapshot)
    (haccepted : validateSnapshot unicode.lower sha256 manifest requireReadOnly writable
      disk.toTree = .ok snapshot)
    (rg : Ripgrep) (request : SearchRequest) (response : SearchResponse)
    (hsearch : search unicode rg snapshot request = .ok response) :
    ∃ query scope, IsRequest request query scope ∧ response.query = query ∧
      response.scope = scope ∧ response.count = response.results.length ∧
      response.results.length ≤ request.limit.toNat ∧
      (response.results.Pairwise fun a b => sortKey unicode (unicode.casefold query) a <
        sortKey unicode (unicode.casefold query) b) ∧
      ∀ result ∈ response.results, ∃ item ∈ selectedFiles snapshot scope,
        Shows unicode snapshot (unicode.casefold query) request.includeContent item result ∧
        (HasShortId snapshot item → (utf8Replace item.data).length ≤ maxFetchChars →
          ∃ record, fetch unicode snapshot result.id = .ok record ∧
            record.path = result.path ∧ record.kind = result.kind ∧
            ∀ found ∈ result.found,
              IsMatchOf unicode (unicode.casefold query) record.text found) := by
  have h := validated_of_validateSnapshot haccepted
  by_cases hrequest : ∃ query scope, IsRequest request query scope
  · obtain ⟨query, scope, hrequest⟩ := hrequest
    rw [search_eq h hrequest] at hsearch
    obtain ⟨lineMap, -, rfl⟩ := map_eq_ok.mp hsearch
    have hlimit : (responseOf unicode snapshot request query scope lineMap).results.length ≤
        request.limit.toNat := List.length_take_le _ _
    refine ⟨query, scope, hrequest, rfl, rfl, rfl, hlimit, ?_, fun result hresult => ?_⟩
    · rw [results_eq h]
      exact (pairwise_found h).sublist (List.take_sublist _ _)
    · obtain ⟨item, hselected, hreport⟩ := exists_of_mem_results h hresult
      have hitem := mem_files_of_mem_selected hselected
      have hshows := shows_of_reportOf h hitem hreport
      refine ⟨item, hselected, hshows, fun hshort hlength => ?_⟩
      obtain ⟨record, hfetch, -, hpath, hkind, htext⟩ := fetch_of_mem h hitem hshort
      refine ⟨record, ?_, hpath.trans hshows.path.symm, hkind.trans hshows.kind.symm, ?_⟩
      · rw [hshows.id, hfetch]
      · have hwhole : record.text = searchText item := by
          have hbound : maxFetchChars ≤ maxFileBytes := by decide
          rw [htext, searchText, List.take_of_length_le hlength,
            List.take_of_length_le (hlength.trans hbound)]
        rw [hwhole]
        exact hshows.found
  · have hrefused : ∃ message, search unicode rg snapshot request = .error (.request message) :=
      search_of_not_isRequest fun query scope h => hrequest ⟨query, scope, h⟩
    obtain ⟨message, hmessage⟩ := hrefused
    rw [hmessage] at hsearch
    cases hsearch

/-- A line contains a query under the folding of the tables. -/
def contains (unicode : Unicode) (query line : List Char) : Bool :=
  occursIn (unicode.casefold query) (unicode.casefold line)

/-- With the first matching lines of its files, a search shows a file with a matching line, and
shows these lines. -/
theorem exists_reportOf (h : snapshot.Validated (repositoryCorpus unicode.lower))
    (hitem : item ∈ snapshot.files)
    (hlines : lineMap item.relativePath =
      firstLines (contains unicode query) (searchText item))
    (hmatch : ((searchText item).splitOn '\n').any (contains unicode query) = true) :
    ∃ result, reportOf unicode snapshot (unicode.casefold query) lineMap includeContent item =
        some result ∧
      result.found.map SearchMatch.line =
        firstLines (contains unicode query) (searchText item) := by
  have hshown : shownLines (reportOf unicode snapshot (unicode.casefold query) lineMap
      includeContent item) = firstLines (contains unicode query) (searchText item) := by
    rw [← hlines]
    refine shownLines_reportOf h hitem ?_ fun number hnumber => ?_
    · rw [hlines]
      exact length_firstLines_le _ _
    · rw [hlines] at hnumber
      exact lineAt_of_mem_firstLines hnumber
  have hsome : (reportOf unicode snapshot (unicode.casefold query) lineMap includeContent
      item).isSome = true := by
    rw [isSome_reportOf h hitem, hshown]
    exact firstLines_ne_nil_iff.mpr hmatch
  obtain ⟨result, hreport⟩ := Option.isSome_iff_exists.mp hsome
  rw [hreport] at hshown
  exact ⟨result, hreport, hshown⟩

/-- A search with the engine in Python is complete. Every file of the scope with a matching line
is shown with its first matching lines, unless the results are as many as were asked for and all
come before it; and a search for fewer results gives the first of them. -/
theorem python_search_complete (unicode : Unicode) (sha256 : List UInt8 → List Char)
    (manifest : SnapshotManifest) (requireReadOnly writable : Bool) (disk : Disk)
    (snapshot : Snapshot)
    (haccepted : validateSnapshot unicode.lower sha256 manifest requireReadOnly writable
      disk.toTree = .ok snapshot)
    (rg : Ripgrep) (request : SearchRequest) (query : List Char) (scope : SearchScope)
    (hrequest : IsRequest request query scope) (hengine : request.engine = "python") :
    ∃ response, search unicode rg snapshot request = .ok response ∧
      (∀ item ∈ selectedFiles snapshot scope,
        ((searchText item).splitOn '\n').any (contains unicode query) = true →
          (∃ result ∈ response.results,
            Shows unicode snapshot (unicode.casefold query) request.includeContent item result ∧
            result.found.map SearchMatch.line =
              firstLines (contains unicode query) (searchText item)) ∨
          response.results.length = request.limit.toNat ∧
            ∀ result ∈ response.results, sortKey unicode (unicode.casefold query) result <
              fileKey unicode (unicode.casefold query) item) ∧
      ∀ limit, 1 ≤ limit → limit ≤ request.limit →
        ∃ fewer, search unicode rg snapshot { request with limit := limit } = .ok fewer ∧
          fewer.results = response.results.take limit.toNat := by
  have h := validated_of_validateSnapshot haccepted
  have hitems : ∀ item ∈ selectedFiles snapshot scope, item ∈ snapshot.files :=
    fun item => mem_files_of_mem_selected
  obtain ⟨lineMap, hpython, hlines⟩ := pythonLineMap_of_mem h query hitems
  have hsearch {request : SearchRequest} (hrequest : IsRequest request query scope)
      (hengine : request.engine = "python") : search unicode rg snapshot request =
        .ok (responseOf unicode snapshot request query scope lineMap) := by
    rw [search_eq h hrequest, hengine, lineMapOf_python, hpython]
    rfl
  refine ⟨_, hsearch hrequest hengine, fun item hselected hmatch => ?_, ?_⟩
  · obtain ⟨result, hreport, hfound⟩ :=
      exists_reportOf h (hitems item hselected) (hlines item hselected) hmatch
    have hmem : result ∈ (rankedFiles unicode snapshot (unicode.casefold query) scope).filterMap
        (reportOf unicode snapshot (unicode.casefold query) lineMap request.includeContent) :=
      List.mem_filterMap.mpr ⟨item, mem_rankedFiles.mpr hselected, hreport⟩
    rw [results_eq h, ← sortKey_reportOf h (hitems item hselected) hreport]
    rcases mem_take_or (pairwise_found h) hmem request.limit.toNat with hfirst | hfull
    · exact Or.inl ⟨result, hfirst, shows_of_reportOf h (hitems item hselected) hreport, hfound⟩
    · exact Or.inr hfull
  · intro limit hpos hle
    have hfewer : IsRequest { request with limit := limit } query scope :=
      ⟨hrequest.stripped, hrequest.nonempty, hrequest.bounded,
        ⟨hpos, hle.trans hrequest.limited.2⟩, hrequest.known⟩
    refine ⟨_, hsearch hfewer hengine, ?_⟩
    rw [results_eq h, results_eq h, List.take_take, min_eq_left (Int.toNat_le_toNat hle)]

/-- A request for a word with the engine in Python. -/
def pythonRequest : SearchRequest := { wordRequest "guide" with engine := "python" }

/-- The request passes the checks. -/
theorem isRequest_pythonRequest : IsRequest pythonRequest "guide".toList .all := by
  refine ⟨?_, ?_, ?_, ?_, rfl⟩ <;> decide

/-- A search for a word misses no file of the guide's snapshot. -/
theorem guide_search_complete : ∃ snapshot response,
    validateSnapshot asciiSearch.lower (fun _ => []) guideManifest false false
      (guideDisk "a guide".toList).toTree = .ok snapshot ∧
    search asciiSearch guideRipgrep snapshot pythonRequest = .ok response ∧
    ∀ item ∈ selectedFiles snapshot .all,
      ((searchText item).splitOn '\n').any (contains asciiSearch "guide".toList) = true →
        (∃ result ∈ response.results,
          Shows asciiSearch snapshot (asciiSearch.casefold "guide".toList) false item result ∧
          result.found.map SearchMatch.line =
            firstLines (contains asciiSearch "guide".toList) (searchText item)) ∨
        response.results.length = pythonRequest.limit.toNat ∧
          ∀ result ∈ response.results,
            sortKey asciiSearch (asciiSearch.casefold "guide".toList) result <
              fileKey asciiSearch (asciiSearch.casefold "guide".toList) item := by
  have hok : (validateSnapshot asciiSearch.lower (fun _ => []) guideManifest false false
      (guideDisk "a guide".toList).toTree).isOk = true := by decide +kernel
  obtain ⟨snapshot, haccepted⟩ := exists_of_isOk hok
  obtain ⟨response, hsearch, hcomplete, -⟩ := python_search_complete asciiSearch (fun _ => [])
    guideManifest false false (guideDisk "a guide".toList) snapshot haccepted guideRipgrep
    pythonRequest "guide".toList .all isRequest_pythonRequest rfl
  exact ⟨snapshot, response, haccepted, hsearch, hcomplete⟩

/-- A search for a word shows what its results say. -/
theorem guide_search_sound : ∃ snapshot response,
    search asciiSearch guideRipgrep snapshot pythonRequest = .ok response ∧
    ∃ query scope, IsRequest pythonRequest query scope ∧
      ∀ result ∈ response.results, ∃ item ∈ selectedFiles snapshot scope,
        Shows asciiSearch snapshot (asciiSearch.casefold query) false item result := by
  have hok : (validateSnapshot asciiSearch.lower (fun _ => []) guideManifest false false
      (guideDisk "a guide".toList).toTree).isOk = true := by decide +kernel
  obtain ⟨snapshot, haccepted⟩ := exists_of_isOk hok
  have hfound : ∃ response, search asciiSearch guideRipgrep snapshot pythonRequest =
      .ok response := by
    have h := validated_of_validateSnapshot haccepted
    have hitems : ∀ item ∈ selectedFiles snapshot .all, item ∈ snapshot.files :=
      fun item => mem_files_of_mem_selected
    obtain ⟨lineMap, hpython, -⟩ := pythonLineMap_of_mem h "guide".toList hitems
    rw [search_eq h isRequest_pythonRequest]
    change ∃ response, (lineMapOf _ _ _ _ _ "python").map _ = _
    rw [lineMapOf_python, hpython]
    exact ⟨_, rfl⟩
  obtain ⟨response, hsearch⟩ := hfound
  obtain ⟨query, scope, hrequest, -, -, -, -, -, hshown⟩ := search_sound asciiSearch (fun _ => [])
    guideManifest false false (guideDisk "a guide".toList) snapshot haccepted guideRipgrep
    pythonRequest response hsearch
  refine ⟨snapshot, response, hsearch, query, scope, hrequest, fun result hresult => ?_⟩
  obtain ⟨item, hitem, hshows, -⟩ := hshown result hresult
  exact ⟨item, hitem, hshows⟩

end ContributorGateway.ContentSearch
