import ContributorGateway.Core.Citations
import ContributorGateway.Core.PathGrammar
import ContributorGateway.Core.RepositorySnapshot

/-!
# Reads of the engine repository

`resolve_content_id` and `read_text_bounded`, and what is shown of a file besides its text.
Every file of a validated snapshot is found by its ID and read.
-/

namespace ContributorGateway.RepositoryContent

open Node PurePosixPath

/-! ## The source -/

/-- `MAX_FETCH_CHARS`. -/
def maxFetchChars : ℕ := 200000

/-- The exception of `_revalidate_file`. No inventoried path lacks parts. -/
def revalidationError : RevalidationError → ContentError
  | .noParts => .contentUnavailable "content path failed containment"
  | .missing => .contentNotFound "content file is missing"
  | .symlink => .contentUnavailable "content path became a symlink"
  | .notSingle => .contentUnavailable "content file is no longer a single regular file"
  | .oversized => .contentUnavailable "content file exceeds its size bound"
  | .changed => .contentUnavailable "content file changed after startup"
  | .notDirectory => .contentUnavailable "content path component is not a directory"

/-- `_revalidate_file`. -/
def revalidateFile (snapshot : Snapshot) (item : CorpusFile) : Except ContentError ℕ :=
  (snapshot.revalidate item).mapError revalidationError

/-- `resolve_relative_file`. -/
def resolveRelativeFile (lower : List Char → List Char) (snapshot : Snapshot)
    (rawPath : List Char) : Except ContentError CorpusFile := do
  let relativePath ← validateRelativePath lower rawPath
  match snapshot.file relativePath with
  | none => .error (.contentNotFound "content file is not in the active snapshot")
  | some item =>
      let _ ← revalidateFile snapshot item
      .ok item

/-- `resolve_content_id`. -/
def resolveContentId (lower : List Char → List Char) (snapshot : Snapshot)
    (contentId : List Char) : Except ContentError CorpusFile := do
  let decoded ← decodeContentId lower contentId
  if decoded.commit ≠ snapshot.commit then
    .error (.staleContentId "content ID belongs to a different snapshot")
  else resolveRelativeFile lower snapshot decoded.relativePath

/-- `read_text_bounded`. -/
def readTextBounded (snapshot : Snapshot) (item : CorpusFile) (maxChars : ℕ) :
    Except ContentError (List Char × Bool) := do
  let inode ← revalidateFile snapshot item
  let size := (snapshot.tree.data inode).length
  if snapshot.tree.links inode ≠ 1 || size ≠ item.sizeBytes || size > maxFileBytes then
    .error (.contentUnavailable "content file changed during open")
  else
    let data := (snapshot.tree.data inode).take (maxFileBytes + 1)
    if data.length > maxFileBytes then
      .error (.contentUnavailable "content file exceeds its size bound")
    else if (data.take binaryProbeBytes).contains 0 then
      .error (.contentUnavailable "content file is binary")
    else
      let text := utf8Replace data
      .ok (text.take maxChars, decide (maxChars < text.length))

/-- `title_from_text`, with `str.lower` as a parameter. -/
def titleFromText (lower : List Char → List Char) (relativePath text : List Char) : List Char :=
  let heading :=
    if lower (PurePosixPath.ofText relativePath).suffix = ".md".toList then
      ((splitlines text).find? fun line => stripText line ≠ []).bind fun line =>
        headingText (stripText line)
    else none
  match heading with
  | some heading => (stripText heading).take 200
  | none => relativePath.take 200

/-- `citation_url`. -/
def citationUrl (lower : List Char → List Char) (commit relativePath : List Char)
    (line : Option ℤ) : Except ContentError (List Char) :=
  if ¬ isCommit commit then .error (.unsafePath "citation commit is invalid")
  else do
    let normalized ← validateRelativePath lower relativePath
    let url := "https://github.com/alexscott2718-gif/jn-engine/blob/".toList ++ commit ++
      '/' :: quotePath normalized
    match line with
    | none => .ok url
    | some number =>
        if number < 1 then .error (.unsafePath "citation line must be positive")
        else .ok (url ++ '#' :: 'L' :: Nat.toDigits 10 number.toNat)

/-- `language_for_path`. -/
def languageForPath (lower : List Char → List Char) (relativePath : List Char) : Option String :=
  [(".md", "markdown"), (".txt", "text"), (".rst", "restructuredtext"), (".c", "c"), (".h", "c"),
    (".cc", "cpp"), (".cpp", "cpp"), (".py", "python"), (".java", "java"), (".sh", "shell"),
    (".js", "javascript"), (".css", "css"), (".html", "html"), (".toml", "toml"),
    (".json", "json"), (".yaml", "yaml"), (".yml", "yaml"), (".csv", "csv"), (".tsv", "tsv")].lookup
    (String.ofList (lower (PurePosixPath.ofText relativePath).suffix))

variable {lower : List Char → List Char} {snapshot : Snapshot} {item : CorpusFile}

/-! ## Inventoried files -/

/-- An accepted snapshot is validated. -/
theorem validated_of_validateSnapshot {sha256 : List UInt8 → List Char}
    {manifest : SnapshotManifest} {requireReadOnly writable : Bool} {disk : Disk}
    (h : validateSnapshot lower sha256 manifest requireReadOnly writable disk.toTree =
      .ok snapshot) : snapshot.Validated (repositoryCorpus lower) := by
  obtain ⟨inventory, hinventory, hmatch⟩ := bind_eq_ok.mp h
  obtain ⟨hvalidated, -⟩ := validated_of_matchManifest (mapError_eq_ok.mp hinventory) hmatch
  exact hvalidated

/-- The policy admits only paths without NUL and backslashes. -/
theorem plain_of_admitted {path : List Char}
    (h : isAdmittedRepositoryPath lower path = some true) : nul ∉ path ∧ '\\' ∉ path := by
  rw [isAdmittedRepositoryPath] at h
  split at h
  · cases h
  · next hplain =>
    rw [not_or, not_or] at hplain
    exact hplain.2

/-- The policy admits only the root files and paths below the root directories. -/
theorem place_of_admitted {parts : List (List Char)} (hne : parts ≠ [])
    (hnames : ∀ part ∈ parts, IsFileName part)
    (h : isAdmittedRepositoryPath lower (relativePath parts) = some true) :
    relativePath parts ∈ approvedRootFiles ∨ ∃ first rest,
      (relativePath parts).splitOn '/' = first :: rest ∧ rest ≠ [] ∧
        first ∈ approvedRootDirectories := by
  have hsplit : (relativePath parts).splitOn '/' = parts := by
    rw [relativePath_eq_intercalate hne hnames]
    exact splitOn_intercalate hne fun part hpart => (hnames part hpart).1
  obtain ⟨-, -, hroot⟩ := rules_of_admitted hne hnames h
  obtain ⟨first, rest, rfl⟩ := List.exists_cons_of_ne_nil hne
  cases rest with
  | nil =>
    left
    have hlength : (PurePosixPath.mk [] [first]).parts.length = 1 := rfl
    rw [isAdmittedRepositoryPath, ofText_relativePath hne hnames] at h
    dsimp only at h
    rw [if_pos hlength] at h
    split_ifs at h
    · cases h
    · cases h
    · cases h
    · exact of_decide_eq_true (Option.some.inj h)
  | cons next rest =>
    exact .inr ⟨first, next :: rest, hsplit, List.cons_ne_nil _ _, hroot first next rest rfl⟩

/-- A path that the scan admits is accepted unchanged when it is requested. -/
theorem validateRelativePath_of_mem (h : snapshot.Validated (repositoryCorpus lower))
    (hitem : item ∈ snapshot.files) :
    validateRelativePath lower item.relativePath = .ok item.relativePath := by
  obtain ⟨f, hf, rfl⟩ := h.exists_file hitem
  obtain ⟨hne, hnames⟩ := names_of_mem_filesIn h.wellNamed hf
  have hadmitted : isAdmittedRepositoryPath lower (relativePath f.1) = some true :=
    (h.accepted f hf).admitted
  obtain ⟨hnul, hbackslash⟩ := plain_of_admitted hadmitted
  obtain ⟨hvisible, -⟩ := rules_of_admitted hne hnames hadmitted
  have hsplit : (relativePath f.1).splitOn '/' = f.1 := by
    rw [relativePath_eq_intercalate hne hnames]
    exact splitOn_intercalate hne fun part hpart => (hnames part hpart).1
  have hplain : ∀ segment ∈ (relativePath f.1).splitOn '/', IsPlain segment := by
    intro segment hsegment
    rw [hsplit] at hsegment
    exact isPlain_of_not (hnames segment hsegment).1.ne_nil (hvisible segment hsegment)
  exact validateRelativePath_of_plain hnul hbackslash hplain
    (windowsDrive_eq_none (place_of_admitted hne hnames hadmitted)) hadmitted

/-- The ID of an inventoried file is written. -/
theorem encodeContentId_of_mem (h : snapshot.Validated (repositoryCorpus lower))
    (hitem : item ∈ snapshot.files) :
    encodeContentId lower snapshot.commit item.relativePath =
      .ok (contentIds.text snapshot.commit item.relativePath) :=
  encodeContentId_of_valid h.commit (validateRelativePath_of_mem h hitem)

/-- The ID of an inventoried file is read back, unless it is too long. -/
theorem decodeContentId_of_mem (h : snapshot.Validated (repositoryCorpus lower))
    (hitem : item ∈ snapshot.files)
    (hlength : (contentIds.text snapshot.commit item.relativePath).length ≤ maxContentIdChars) :
    decodeContentId lower (contentIds.text snapshot.commit item.relativePath) =
      .ok ⟨snapshot.commit, item.relativePath⟩ := by
  have hnul : nul ∉ item.relativePath := by
    obtain ⟨hadmitted, -⟩ := validateRelativePath_eq_ok (validateRelativePath_of_mem h hitem)
    exact (plain_of_admitted hadmitted).1
  have hreads : contentIds.ReadsBack := fun text hascii => asciiDecode_utf8Encode hascii
  rw [decodeContentId, IdFormat.payload_text hreads h.commit hnul hlength]
  dsimp only
  rw [validateRelativePath_of_mem h hitem]

/-- An inventoried file is resolved by its ID. -/
theorem resolveContentId_of_mem (h : snapshot.Validated (repositoryCorpus lower))
    (hitem : item ∈ snapshot.files)
    (hlength : (contentIds.text snapshot.commit item.relativePath).length ≤ maxContentIdChars) :
    resolveContentId lower snapshot (contentIds.text snapshot.commit item.relativePath) =
      .ok item := by
  obtain ⟨inode, hrevalidate, -⟩ := h.revalidate_eq hitem
  rw [resolveContentId, decodeContentId_of_mem h hitem hlength]
  change (if _ then _ else _) = _
  rw [if_neg (not_not.mpr rfl), resolveRelativeFile, validateRelativePath_of_mem h hitem]
  change (match snapshot.file item.relativePath with
    | none => _
    | some item => (revalidateFile snapshot item).bind _) = _
  rw [h.file_eq hitem]
  dsimp only
  rw [revalidateFile, hrevalidate]
  rfl

/-- An inventoried file is read. -/
theorem readTextBounded_of_mem (h : snapshot.Validated (repositoryCorpus lower))
    (hitem : item ∈ snapshot.files) (maxChars : ℕ) :
    readTextBounded snapshot item maxChars =
      .ok ((utf8Replace item.data).take maxChars,
        decide (maxChars < (utf8Replace item.data).length)) := by
  obtain ⟨inode, hrevalidate, hdata, hsingle, hbounded, htext⟩ := h.exists_inode hitem
  have htake : item.data.take (maxFileBytes + 1) = item.data :=
    List.take_of_length_le (by omega)
  have hunchanged : (decide (snapshot.tree.links inode ≠ 1) ||
      decide (item.data.length ≠ item.sizeBytes) ||
      decide (item.data.length > maxFileBytes)) = false := by
    simp [hsingle, CorpusFile.sizeBytes, hbounded]
  have hprobe : (item.data.take binaryProbeBytes).contains 0 = false := by
    simpa using htext
  rw [readTextBounded, revalidateFile, hrevalidate]
  dsimp only [Except.mapError, bind, Except.bind]
  rw [hdata, hunchanged, if_neg Bool.false_ne_true, htake, if_neg (not_lt.mpr hbounded), hprobe,
    if_neg Bool.false_ne_true]

/-- An inventoried file is cited. -/
theorem citationUrl_of_mem (h : snapshot.Validated (repositoryCorpus lower))
    (hitem : item ∈ snapshot.files) {line : Option ℤ} (hline : ∀ n ∈ line, 1 ≤ n) :
    ∃ url, citationUrl lower snapshot.commit item.relativePath line = .ok url := by
  rw [citationUrl, if_neg (not_not.mpr h.commit), validateRelativePath_of_mem h hitem]
  dsimp only [bind, Except.bind]
  cases line with
  | none => exact ⟨_, rfl⟩
  | some n =>
    have hn := hline n rfl
    exact ⟨_, if_neg (by omega)⟩

end ContributorGateway.RepositoryContent
