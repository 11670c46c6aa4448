import ContributorGateway.Core.Citations
import ContributorGateway.GatewayRepo.GatewayIds
import ContributorGateway.GatewayRepo.GatewaySnapshot

/-!
# Search and fetch in the gateway repository

`GatewayRepositoryContent` reads every file that it serves as strict UTF-8. Its search and its
fetch succeed exactly on the files whose bytes are UTF-8.
-/

namespace ContributorGateway.GatewayContent

open Node PurePosixPath

/-! ## The source -/

/-- `MAX_FETCH_CHARS`. -/
def maxFetchChars : ℕ := 200000

/-- `MAX_QUERY_CHARS`. -/
def maxQueryChars : ℕ := 200

/-- `MAX_MATCHES_PER_FILE`. -/
def maxMatchesPerFile : ℕ := 20

/-- `MAX_RESULTS`. -/
def maxResults : ℤ := 50

/-- The exceptions of the service. -/
inductive ServiceError where
  /-- A `GatewayContentError`. -/
  | content (message : String)
  /-- A `GatewayRequestError` that is none of the following. -/
  | request (message : String)
  /-- A `GatewayStaleIdError`. -/
  | staleId (message : String)
  | id (error : GatewayIdError)
  deriving DecidableEq

/-- `GatewaySearchScope`. -/
inductive SearchScope where
  | all
  | source
  | docs
  | tests
  | deploy
  deriving DecidableEq

/-- `GatewaySearchScope(scope)`. -/
def SearchScope.ofText : String → Option SearchScope
  | "all" => some .all
  | "source" => some .source
  | "docs" => some .docs
  | "tests" => some .tests
  | "deploy" => some .deploy
  | _ => none

/-- `_kind`. -/
def kind (path : List Char) : String :=
  if startsWith "tests/".toList path then "test"
  else if (["deploy/", "cloudflared/", ".github/"].any fun start => startsWith start.toList path) ||
      ([".dockerignore", ".env.example", ".env.gateway-repo.example", "Dockerfile",
        "docker-compose.yml", "docker-compose.gateway-repo.yml"].map String.toList).contains path
    then "deployment"
  else if startsWith "docs/".toList path ||
      (["CONTRIBUTING.md", "README.md", "SECURITY.md"].map String.toList).contains path
    then "documentation"
  else "source"

/-- `_in_scope`. -/
def inScope (path : List Char) : SearchScope → Bool
  | .all => true
  | .source => kind path = "source"
  | .docs => kind path = "documentation"
  | .tests => kind path = "test" || startsWith ".github/workflows/".toList path
  | .deploy => kind path = "deployment"

/-- `_language`. -/
def language (lower : List Char → List Char) (path : List Char) : Option String :=
  if path = "Dockerfile".toList then some "dockerfile"
  else
    [(".css", "css"), (".html", "html"), (".json", "json"), (".md", "markdown"), (".py", "python"),
      (".sh", "shell"), (".toml", "toml"), (".yaml", "yaml"), (".yml", "yaml")].lookup
        (String.ofList (lower (PurePosixPath.ofText path).suffix))

/-- `_title`. -/
def title (path text : List Char) : List Char :=
  match ((splitlines text).take 40).findSome? headingText with
  | some heading => heading.take 200
  | none => (PurePosixPath.ofText path).name.take 200

/-- `_citation`. -/
def citation (commit path : List Char) (line : Option ℕ) : List Char :=
  let url := "https://github.com/alexscott2718-gif/jn-engine-contributor-mcp/blob/".toList ++
    commit ++ '/' :: quotePath path
  match line with
  | some number => url ++ '#' :: 'L' :: Nat.toDigits 10 number
  | none => url

/-- The message of a `GatewayContentError` of `_revalidate`. -/
def revalidationMessage : RevalidationError → String
  | .oversized | .changed => "gateway content changed after startup"
  | _ => "gateway content is unavailable"

/-- `_read`. -/
def read (snapshot : Snapshot) (item : CorpusFile) (maxChars : ℕ) :
    Except ServiceError (List Char × Bool) :=
  match snapshot.revalidate item with
  | .error e => .error (.content (revalidationMessage e))
  | .ok inode =>
      match utf8Decode (snapshot.tree.data inode) with
      | none => .error (.content "gateway content cannot be read")
      | some text =>
          if text.length ≤ maxChars then .ok (text, false) else .ok (text.take maxChars, true)

/-- What the service takes from Python's Unicode tables. -/
structure Unicode where
  /-- `str.lower`. -/
  lower : List Char → List Char
  /-- `str.casefold`. -/
  casefold : List Char → List Char

/-- `GatewaySearchResult`. -/
structure SearchResult where
  id : List Char
  title : List Char
  url : List Char
  deriving DecidableEq

/-- A row of `ranked`. -/
structure RankedResult where
  rank : ℕ
  foldedPath : List Char
  result : SearchResult
  deriving DecidableEq

/-- `encode_gateway_id` within the service. -/
def encodeId (unicode : Unicode) (commit path : List Char) : Except ServiceError (List Char) :=
  (encodeGatewayId unicode.lower commit path).mapError .id

/-- The body of the loop of `search` for a file in the scope. -/
def searchFile (unicode : Unicode) (snapshot : Snapshot) (needle : List Char) (item : CorpusFile) :
    Except ServiceError (Option RankedResult) := do
  let (text, _) ← read snapshot item maxFileBytes
  let matched := (((splitlines text).zipIdx 1).filter fun line =>
    occursIn needle (unicode.casefold line.1)).take maxMatchesPerFile
  match matched with
  | [] => .ok none
  | first :: _ =>
      let title := title item.relativePath text
      let filename := unicode.casefold (PurePosixPath.ofText item.relativePath).name
      let rank :=
        if needle = filename ∨ needle = unicode.casefold title then 0
        else if occursIn needle (unicode.casefold item.relativePath) then 1
        else 2
      let id ← encodeId unicode snapshot.commit item.relativePath
      .ok (some ⟨rank, unicode.casefold item.relativePath,
        ⟨id, title, citation snapshot.commit item.relativePath (some first.2)⟩⟩)

/-- The order of `ranked`. -/
def RankedResult.le (a b : RankedResult) : Bool :=
  a.rank < b.rank || (a.rank = b.rank &&
    (a.foldedPath < b.foldedPath || (a.foldedPath = b.foldedPath &&
      a.result.title ≤ b.result.title)))

/-- `search`. -/
def search (unicode : Unicode) (snapshot : Snapshot) (query scope : String) (limit : ℤ) :
    Except ServiceError (List SearchResult) := do
  let clean := stripText query.toList
  if clean = [] ∨ clean.length > maxQueryChars then
    .error (.request "query must contain 1..200 characters")
  else if ¬ (1 ≤ limit ∧ limit ≤ maxResults) then
    .error (.request "limit must be in 1..50")
  else
    match SearchScope.ofText scope with
    | none => .error (.request "scope must be all, source, docs, tests, or deploy")
    | some selected => do
        let needle := unicode.casefold clean
        let files := snapshot.files.filter fun item => inScope item.relativePath selected
        let ranked ← files.mapM (searchFile unicode snapshot needle)
        let sorted := (ranked.filterMap id).insertionSort fun a b => a.le b = true
        .ok ((sorted.take limit.toNat).map RankedResult.result)

/-- `GatewayFetchOutput` with its metadata. -/
structure FetchOutput where
  id : List Char
  title : List Char
  text : List Char
  url : List Char
  path : List Char
  kind : String
  language : Option String
  repository : String
  ref : String
  commit : List Char
  textChars : ℕ
  truncated : Bool
  deriving DecidableEq

/-- `fetch`. -/
def fetch (unicode : Unicode) (snapshot : Snapshot) (contentId : List Char) :
    Except ServiceError FetchOutput := do
  let (commit, path) ← (decodeGatewayId unicode.lower contentId).mapError .id
  if commit ≠ snapshot.commit then .error (.staleId "gateway snapshot changed; search again")
  else
    match snapshot.file path with
    | none => .error (.id (.invalidId "gateway content is not in the active snapshot"))
    | some item => do
        let (text, truncated) ← read snapshot item maxFetchChars
        .ok ⟨contentId, title path text, text, citation commit path none, path, kind path,
          language unicode.lower path, "alexscott2718-gif/jn-engine-contributor-mcp",
          "refs/heads/main", commit, text.length, truncated⟩

variable {unicode : Unicode} {snapshot : Snapshot} {item : CorpusFile} {lower : List Char → List Char}
  {parts : List (List Char)}

/-! ## Inventoried files -/

/-- The bytes of a file are UTF-8. -/
def IsUtf8 (item : CorpusFile) : Prop := ∃ text, utf8Encode text = item.data

theorem isUtf8_iff : IsUtf8 item ↔ ∃ text, utf8Decode item.data = some text := by
  constructor
  · rintro ⟨text, htext⟩
    exact ⟨text, by rw [← htext, utf8Decode_utf8Encode]⟩
  · rintro ⟨text, htext⟩
    exact ⟨text, utf8Encode_of_utf8Decode htext⟩

theorem utf8Decode_eq_none (h : ¬ IsUtf8 item) : utf8Decode item.data = none := by
  cases hdecode : utf8Decode item.data with
  | none => rfl
  | some text => exact absurd (isUtf8_iff.mpr ⟨text, hdecode⟩) h

/-- A file whose bytes are UTF-8 is read. -/
theorem read_eq_ok (h : snapshot.Validated (gatewayCorpus lower)) (hitem : item ∈ snapshot.files)
    {text : List Char} (htext : utf8Decode item.data = some text) (maxChars : ℕ) :
    ∃ truncated, read snapshot item maxChars = .ok (text.take maxChars, truncated) := by
  obtain ⟨inode, hlocate, hdata⟩ := h.revalidate_eq hitem
  rw [read, hlocate]
  dsimp only
  rw [hdata, htext]
  dsimp only
  split_ifs with hlength
  · exact ⟨false, by rw [List.take_of_length_le hlength]⟩
  · exact ⟨true, rfl⟩

/-- A file whose bytes are not UTF-8 cannot be read. -/
theorem read_eq_error (h : snapshot.Validated (gatewayCorpus lower))
    (hitem : item ∈ snapshot.files) (htext : utf8Decode item.data = none) (maxChars : ℕ) :
    read snapshot item maxChars = .error (.content "gateway content cannot be read") := by
  obtain ⟨inode, hlocate, hdata⟩ := h.revalidate_eq hitem
  rw [read, hlocate]
  dsimp only
  rw [hdata, htext]

/-- An inventoried path is admitted, is its own form and has no NUL. -/
theorem path_of_mem (h : snapshot.Validated (gatewayCorpus lower)) (hitem : item ∈ snapshot.files) :
    validatePath lower item.relativePath = .ok item.relativePath ∧ nul ∉ item.relativePath := by
  obtain ⟨f, hf, rfl⟩ := h.exists_file hitem
  obtain ⟨hne, hnames⟩ := names_of_mem_filesIn h.wellNamed hf
  have hadmitted : isAdmittedGatewayPath lower (relativePath f.1) = some true :=
    (h.accepted f hf).admitted
  constructor
  · rw [Tree.corpusFile, validatePath, hadmitted, ofText_relativePath hne hnames]
    rfl
  · intro hnul
    change nul ∈ relativePath f.1 at hnul
    rw [isAdmittedGatewayPath, if_pos (Or.inr (Or.inl hnul))] at hadmitted
    cases hadmitted

/-- The ID of an inventoried file is written. -/
theorem encodeGatewayId_of_mem (h : snapshot.Validated (gatewayCorpus lower))
    (hitem : item ∈ snapshot.files) :
    encodeGatewayId lower snapshot.commit item.relativePath =
      .ok (gatewayIds.text snapshot.commit item.relativePath) := by
  rw [encodeGatewayId, if_neg (not_not.mpr h.commit), (path_of_mem h hitem).1]

/-- The ID of an inventoried file is read back, unless it is too long. -/
theorem decodeGatewayId_of_mem (h : snapshot.Validated (gatewayCorpus lower))
    (hitem : item ∈ snapshot.files)
    (hlength : (gatewayIds.text snapshot.commit item.relativePath).length ≤ maxContentIdChars) :
    decodeGatewayId lower (gatewayIds.text snapshot.commit item.relativePath) =
      .ok (snapshot.commit, item.relativePath) := by
  obtain ⟨hvalid, hnul⟩ := path_of_mem h hitem
  have hreads : gatewayIds.ReadsBack := fun text _ => utf8Decode_utf8Encode text
  rw [decodeGatewayId, IdFormat.payload_text hreads h.commit hnul hlength]
  dsimp only
  rw [hvalid]

/-! ## Search -/

/-- A file is searched if its bytes are UTF-8. -/
theorem searchFile_eq_ok (h : snapshot.Validated (gatewayCorpus unicode.lower))
    (hitem : item ∈ snapshot.files) (hutf8 : IsUtf8 item) (needle : List Char) :
    ∃ row, searchFile unicode snapshot needle item = .ok row := by
  obtain ⟨text, htext⟩ := isUtf8_iff.mp hutf8
  obtain ⟨truncated, hread⟩ := read_eq_ok h hitem htext maxFileBytes
  have hid : encodeId unicode snapshot.commit item.relativePath =
      .ok (gatewayIds.text snapshot.commit item.relativePath) := by
    rw [encodeId, encodeGatewayId_of_mem h hitem]
    rfl
  rw [searchFile, hread]
  dsimp only [bind, Except.bind]
  split
  · exact ⟨none, rfl⟩
  · rw [hid]
    exact ⟨_, rfl⟩

/-- The search of a file fails if its bytes are not UTF-8. -/
theorem searchFile_eq_error (h : snapshot.Validated (gatewayCorpus unicode.lower))
    (hitem : item ∈ snapshot.files) (hutf8 : ¬ IsUtf8 item) (needle : List Char) :
    searchFile unicode snapshot needle item =
      .error (.content "gateway content cannot be read") := by
  rw [searchFile, read_eq_error h hitem (utf8Decode_eq_none hutf8)]
  rfl

/-- A query, a scope and a limit that `search` accepts. -/
def IsRequest (query scope : String) (limit : ℤ) (selected : SearchScope) : Prop :=
  (stripText query.toList ≠ [] ∧ (stripText query.toList).length ≤ maxQueryChars) ∧
    (1 ≤ limit ∧ limit ≤ maxResults) ∧ SearchScope.ofText scope = some selected

instance (query scope : String) (limit : ℤ) (selected : SearchScope) :
    Decidable (IsRequest query scope limit selected) :=
  inferInstanceAs (Decidable ((_ ∧ _) ∧ (_ ∧ _) ∧ _))

/-- A search of an accepted request reads the files in its scope. -/
theorem search_eq {query scope : String} {limit : ℤ} {selected : SearchScope}
    (hrequest : IsRequest query scope limit selected) :
    search unicode snapshot query scope limit =
      ((snapshot.files.filter fun item => inScope item.relativePath selected).mapM
        (searchFile unicode snapshot (unicode.casefold (stripText query.toList)))).map
          fun ranked => (((ranked.filterMap id).insertionSort fun a b => a.le b = true).take
            limit.toNat).map RankedResult.result := by
  obtain ⟨⟨hquery, hlength⟩, hlimit, hscope⟩ := hrequest
  rw [search]
  dsimp only
  rw [if_neg (not_or.mpr ⟨hquery, not_lt.mpr hlength⟩), if_neg (not_not.mpr hlimit), hscope]
  rfl

/-- A search fails if the bytes of a file in its scope are not UTF-8. -/
theorem search_eq_error (h : snapshot.Validated (gatewayCorpus unicode.lower))
    {query scope : String} {limit : ℤ} {selected : SearchScope}
    (hrequest : IsRequest query scope limit selected) (hitem : item ∈ snapshot.files)
    (hscope : inScope item.relativePath selected = true) (hutf8 : ¬ IsUtf8 item) :
    search unicode snapshot query scope limit =
      .error (.content "gateway content cannot be read") := by
  have hfails : ∀ needle, (snapshot.files.filter fun item =>
      inScope item.relativePath selected).mapM (searchFile unicode snapshot needle) =
        .error (.content "gateway content cannot be read") := by
    intro needle
    refine mapM_eq_error (fun other hother => ?_)
      ⟨item, List.mem_filter.mpr ⟨hitem, hscope⟩, searchFile_eq_error h hitem hutf8 needle⟩
    have hmem := (List.mem_filter.mp hother).1
    by_cases hother8 : IsUtf8 other
    · exact Or.inl (searchFile_eq_ok h hmem hother8 needle)
    · exact Or.inr (searchFile_eq_error h hmem hother8 needle)
  rw [search_eq hrequest, hfails]
  rfl

/-- A search succeeds if the bytes of the files in its scope are UTF-8. -/
theorem search_eq_ok (h : snapshot.Validated (gatewayCorpus unicode.lower))
    {query scope : String} {limit : ℤ} {selected : SearchScope}
    (hrequest : IsRequest query scope limit selected)
    (hutf8 : ∀ item ∈ snapshot.files, inScope item.relativePath selected = true → IsUtf8 item) :
    ∃ results, search unicode snapshot query scope limit = .ok results := by
  obtain ⟨rows, hrows⟩ := exists_mapM_eq_ok fun item hitem => by
    obtain ⟨hmem, hscope⟩ := List.mem_filter.mp hitem
    exact searchFile_eq_ok h hmem (hutf8 item hmem hscope)
      (unicode.casefold (stripText query.toList))
  rw [search_eq hrequest, hrows]
  exact ⟨_, rfl⟩

/-! ## Fetch -/

/-- The ID of a file fetches its text, cut to the bound, if and only if its bytes are UTF-8. -/
theorem fetch_iff (h : snapshot.Validated (gatewayCorpus unicode.lower))
    (hitem : item ∈ snapshot.files)
    (hlength : (gatewayIds.text snapshot.commit item.relativePath).length ≤ maxContentIdChars) :
    (∃ output, fetch unicode snapshot (gatewayIds.text snapshot.commit item.relativePath) =
      .ok output ∧ ∀ text, utf8Encode text = item.data → output.text = text.take maxFetchChars) ↔
      IsUtf8 item := by
  have hfetch : ∀ result, read snapshot item maxFetchChars = result →
      (fetch unicode snapshot (gatewayIds.text snapshot.commit item.relativePath)).map
        FetchOutput.text = result.map Prod.fst := by
    rintro result rfl
    rw [fetch, decodeGatewayId_of_mem h hitem hlength]
    dsimp only [Except.mapError, bind, Except.bind]
    rw [if_neg (not_not.mpr rfl), h.file_eq hitem]
    dsimp only
    cases read snapshot item maxFetchChars <;> rfl
  constructor
  · rintro ⟨output, houtput, -⟩
    by_contra hutf8
    have herror := hfetch _ (read_eq_error h hitem (utf8Decode_eq_none hutf8) maxFetchChars)
    rw [houtput] at herror
    cases herror
  · intro hutf8
    obtain ⟨text, htext⟩ := isUtf8_iff.mp hutf8
    obtain ⟨truncated, hread⟩ := read_eq_ok h hitem htext maxFetchChars
    obtain ⟨output, houtput, hcut⟩ := map_eq_ok.mp (hfetch _ hread)
    refine ⟨output, houtput, fun text' htext' => ?_⟩
    have hsame : text' = text := by
      rw [← htext', utf8Decode_utf8Encode] at htext
      exact Option.some.inj htext
    rw [hcut, hsame]

/-! ## Serviceable snapshots -/

/-- An accepted snapshot is validated, on the tree that was accepted. -/
theorem validated_of_validateGatewaySnapshot {sha256 : List UInt8 → List Char}
    {manifest : SnapshotManifest} {requireReadOnly writable : Bool} {disk : Disk}
    (h : validateGatewaySnapshot lower sha256 manifest requireReadOnly writable disk.toTree =
      .ok snapshot) :
    snapshot.Validated (gatewayCorpus lower) ∧ snapshot.tree = disk.toTree := by
  obtain ⟨inventory, hinventory, hmatch⟩ := bind_eq_ok.mp h
  obtain ⟨hvalidated, htree, -⟩ :=
    validated_of_matchManifest (mapError_eq_ok.mp hinventory) hmatch
  exact ⟨hvalidated, htree⟩

/-- An accepted snapshot is serviceable exactly as far as the bytes of its files are UTF-8. A
search raises no content error if and only if those in its scope are, and the ID of a file
fetches its text, cut to the bound, if and only if its own are. -/
theorem serviceable_iff_utf8 (unicode : Unicode) (sha256 : List UInt8 → List Char)
    (manifest : SnapshotManifest) (requireReadOnly writable : Bool) (disk : Disk)
    (snapshot : Snapshot)
    (haccepted : validateGatewaySnapshot unicode.lower sha256 manifest requireReadOnly writable
      disk.toTree = .ok snapshot) :
    (∀ query scope limit selected, IsRequest query scope limit selected →
      ((∀ message, search unicode snapshot query scope limit ≠ .error (.content message)) ↔
        ∀ item ∈ snapshot.files, inScope item.relativePath selected = true → IsUtf8 item)) ∧
    ∀ item ∈ snapshot.files, ∃ contentId,
      encodeGatewayId unicode.lower snapshot.commit item.relativePath = .ok contentId ∧
        (contentId.length ≤ maxContentIdChars →
          ((∃ output, fetch unicode snapshot contentId = .ok output ∧
            ∀ text, utf8Encode text = item.data → output.text = text.take maxFetchChars) ↔
              IsUtf8 item)) := by
  obtain ⟨h, -⟩ := validated_of_validateGatewaySnapshot haccepted
  constructor
  · intro query scope limit selected hrequest
    constructor
    · intro hsearch item hitem hscope
      by_contra hutf8
      exact hsearch _ (search_eq_error h hrequest hitem hscope hutf8)
    · intro hutf8 message
      obtain ⟨results, hresults⟩ := search_eq_ok h hrequest hutf8
      rw [hresults]
      exact nofun
  · intro item hitem
    exact ⟨_, encodeGatewayId_of_mem h hitem, fetch_iff h hitem⟩

/-- The required files and directories. -/
def requiredEntries : Entries :=
  (approvedRootFiles.zipIdx.map fun f => (f.1, .file f.2)) ++
    approvedRootDirectories.map fun name => (name, .dir [])

theorem wellNamed_requiredEntries : (Node.dir requiredEntries).WellNamed := by
  simp [requiredEntries, Node.WellNamed, Node.WellNamedEntries, IsFileName,
    PurePosixPath.IsName, PurePosixPath.isDropped, nul, approvedRootFiles, approvedRootDirectories]

theorem counted_requiredEntries (inode : ℕ) :
    ((filesIn [] requiredEntries).map Prod.snd).count inode ≤ 1 :=
  List.nodup_iff_count_le_one.mp (by decide +kernel) inode

/-- A disk with the required files, of one byte each. -/
def requiredDisk (license : UInt8) : Disk where
  entries := requiredEntries
  links _ := 1
  data inode := if inode = 6 then [license] else [10]
  wellNamed := wellNamed_requiredEntries
  counted := counted_requiredEntries

/-- The manifest of the disk, with a digest of no characters. -/
def requiredManifest : SnapshotManifest where
  commit := List.replicate 40 'a'
  fileCount := 13
  totalBytes := 13
  contentSha256 := []
  isCommit := by decide

/-- Python's tables on ASCII. -/
def asciiUnicode : Unicode := ⟨List.map Char.toLower, List.map Char.toLower⟩

/-- A snapshot of text is searched. -/
theorem required_searched : ∃ snapshot,
    validateGatewaySnapshot asciiUnicode.lower (fun _ => []) requiredManifest false false
      (requiredDisk 10).toTree = .ok snapshot ∧
    ∀ message, search asciiUnicode snapshot "gateway" "all" 20 ≠ .error (.content message) := by
  have hok : (validateGatewaySnapshot asciiUnicode.lower (fun _ => []) requiredManifest false false
      (requiredDisk 10).toTree).isOk = true := by decide +kernel
  obtain ⟨snapshot, haccepted⟩ := exists_of_isOk hok
  obtain ⟨h, htree⟩ := validated_of_validateGatewaySnapshot haccepted
  obtain ⟨hsearch, -⟩ := serviceable_iff_utf8 asciiUnicode (fun _ => []) requiredManifest false false
    (requiredDisk 10) snapshot haccepted
  refine ⟨snapshot, haccepted, (hsearch "gateway" "all" 20 .all (by decide)).mpr ?_⟩
  intro item hitem _
  obtain ⟨f, -, rfl⟩ := h.exists_file hitem
  refine ⟨['\n'], ?_⟩
  rw [htree]
  change utf8Encode ['\n'] = if f.2 = 6 then [10] else [10]
  rw [ite_self]
  rfl

/-- A license in Latin-1 makes every search of the accepted snapshot fail, here one for
`gateway`. -/
theorem latin1_license_unsearchable : ∃ snapshot,
    validateGatewaySnapshot asciiUnicode.lower (fun _ => []) requiredManifest false false
      (requiredDisk 255).toTree = .ok snapshot ∧
    IsRequest "gateway" "all" 20 .all ∧
    search asciiUnicode snapshot "gateway" "all" 20 =
      .error (.content "gateway content cannot be read") := by
  have hok : (validateGatewaySnapshot asciiUnicode.lower (fun _ => []) requiredManifest false false
      (requiredDisk 255).toTree).isOk = true := by decide +kernel
  obtain ⟨snapshot, haccepted⟩ := exists_of_isOk hok
  obtain ⟨h, htree⟩ := validated_of_validateGatewaySnapshot haccepted
  have hlicense : ⟨"LICENSE".toList, [255]⟩ ∈ snapshot.files := by
    rw [h.files.mem_iff, htree]
    refine List.mem_map.mpr ⟨(["LICENSE".toList], 6), ?_, by decide +kernel⟩
    refine mem_filesIn.mpr ⟨("LICENSE".toList, .file 6), ?_, List.mem_singleton_self _⟩
    simp [requiredDisk, requiredEntries, approvedRootFiles]
  have hlatin1 : ¬ IsUtf8 ⟨"LICENSE".toList, [255]⟩ := by
    rw [isUtf8_iff]
    rintro ⟨text, htext⟩
    have hnone : utf8Decode [255] = none := by decide +kernel
    rw [hnone] at htext
    cases htext
  have hrequest : IsRequest "gateway" "all" 20 .all := by decide
  exact ⟨snapshot, haccepted, hrequest, search_eq_error h hrequest hlicense rfl hlatin1⟩

end ContributorGateway.GatewayContent
