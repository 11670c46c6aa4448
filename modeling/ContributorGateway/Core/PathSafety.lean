import ContributorGateway.Core.ContentIds
import ContributorGateway.Core.RepositoryPolicy

/-!
# Paths and IDs of the engine repository

`validate_relative_path`, `encode_content_id` and `decode_content_id`. A path that is
accepted is returned as it was given.
-/

namespace ContributorGateway.RepositoryContent

open PurePosixPath

/-- The exceptions of `path_safety`, and the `IndexError` of a path without parts. -/
inductive ContentError where
  | unsafePath (message : String)
  | invalidContentId (message : String)
  | staleContentId (message : String)
  | contentNotFound (message : String)
  | contentUnavailable (message : String)
  | indexError
  deriving DecidableEq

/-- `"//" in path`. -/
def hasEmptySegment (path : List Char) : Bool := path.tails.any fun rest => ['/', '/'].isPrefixOf rest

/-- Whether `PureWindowsPath(path)` has a drive, for a path without backslashes and double
slashes. Only a path with a drive is absolute there. -/
def hasDrive : List Char → Bool
  | letter :: ':' :: _ => ('A' ≤ letter && letter ≤ 'Z') || ('a' ≤ letter && letter ≤ 'z')
  | _ => false

/-- `validate_relative_path`. -/
def validateRelativePath (lower : List Char → List Char) (rawPath : List Char) :
    Except ContentError (List Char) :=
  if rawPath = [] ∨ nul ∈ rawPath then
    .error (.unsafePath "path must be nonempty and contain no NUL")
  else if '\\' ∈ rawPath then .error (.unsafePath "backslashes are not allowed")
  else if hasEmptySegment rawPath then
    .error (.unsafePath "empty path segments are not allowed")
  else
    let rawSegments := rawPath.splitOn '/'
    let posix := PurePosixPath.ofText rawPath
    if posix.isAbsolute || hasDrive rawPath then
      .error (.unsafePath "absolute paths and drive letters are not allowed")
    else if rawSegments.any isDotPart then
      .error (.unsafePath "dot path segments are not allowed")
    else if rawSegments.any isHidden then .error (.unsafePath "hidden paths are not allowed")
    else
      match isAdmittedRepositoryPath lower rawPath with
      | none => .error .indexError
      | some false => .error (.unsafePath "path is outside the admitted content policy")
      | some true => .ok posix.asPosix

/-- The IDs of the engine repository, `jn1_` and a payload. -/
def contentIds : IdFormat where
  tag := "jn1_".toList
  oversized := "unknown or oversized content ID"
  alphabet := "content ID payload is not unpadded base64url"
  malformed := "content ID payload is malformed"
  separator := "content ID payload must contain one separator"
  encoding := "content ID payload is not valid UTF-8"
  commit := "content ID commit is malformed"
  decodeCommit := asciiDecode

/-- `DecodedContentId`. -/
structure DecodedContentId where
  commit : List Char
  relativePath : List Char
  deriving DecidableEq

/-- `encode_content_id`. -/
def encodeContentId (lower : List Char → List Char) (commit relativePath : List Char) :
    Except ContentError (List Char) :=
  if ¬ isCommit commit then
    .error (.invalidContentId "commit is not a lowercase 40-character hash")
  else
    match validateRelativePath lower relativePath with
    | .error e => .error e
    | .ok normalized => .ok (contentIds.text commit normalized)

/-- `decode_content_id`. -/
def decodeContentId (lower : List Char → List Char) (contentId : List Char) :
    Except ContentError DecodedContentId :=
  match contentIds.payload contentId with
  | .error message => .error (.invalidContentId message)
  | .ok (commit, relativePath) =>
      match validateRelativePath lower relativePath with
      | .error (.unsafePath _) => .error (.invalidContentId "content ID path is unsafe")
      | .error e => .error e
      | .ok normalized => .ok ⟨commit, normalized⟩

variable {lower : List Char → List Char} {rawPath path commit contentId : List Char}

/-- A part that a path drops is a dot part. -/
theorem isDropped_of_not_isDotPart {part : List Char} (h : isDotPart part = false) :
    isDropped part = false := by
  simp only [isDotPart, Bool.or_eq_false_iff] at h
  simp only [isDropped, Bool.or_eq_false_iff]
  exact h.1

/-- An accepted path is admitted, and its segments are plain names. -/
theorem validateRelativePath_eq_ok (h : validateRelativePath lower rawPath = .ok path) :
    isAdmittedRepositoryPath lower rawPath = some true ∧ rawPath ≠ [] ∧
      (ofText rawPath).root = [] ∧ path = (ofText rawPath).asPosix ∧
      ∀ part ∈ rawPath.splitOn '/', isDotPart part = false := by
  unfold validateRelativePath at h
  dsimp only at h
  split_ifs at h with hempty hslash hdouble habsolute hdot hhidden
  rw [not_or] at hempty
  simp only [Bool.or_eq_true, not_or, isAbsolute, decide_eq_true_eq, not_not] at habsolute
  split at h
  · simp at h
  · simp at h
  · next hadmitted =>
    refine ⟨hadmitted, hempty.1, habsolute.1, (Except.ok.inj h).symm, fun part hpart => ?_⟩
    rw [Bool.not_eq_true, List.any_eq_false] at hdot
    simpa using hdot part hpart

/-- A text without dot segments has names. -/
theorem names_ofText_ne_nil (h : ∀ part ∈ rawPath.splitOn '/', isDropped part = false) :
    (ofText rawPath).names ≠ [] := by
  have hkept : (ofText rawPath).names = rawPath.splitOn '/' :=
    List.filter_eq_self.mpr fun part hpart => by simp [h part hpart]
  rw [hkept]
  exact List.splitOn_ne_nil _ _

/-- An accepted path is returned as it was given. -/
theorem validateRelativePath_self (h : validateRelativePath lower rawPath = .ok path) :
    path = rawPath := by
  obtain ⟨-, -, hroot, rfl, hdot⟩ := validateRelativePath_eq_ok h
  have hkept : ∀ part ∈ rawPath.splitOn '/', isDropped part = false :=
    fun part hpart => isDropped_of_not_isDotPart (hdot part hpart)
  exact (asPosix_eq_iff hroot (names_ofText_ne_nil hkept)).mpr hkept

/-- The commit of an ID is read as ASCII. -/
theorem readsUtf8_contentIds : contentIds.ReadsUtf8 :=
  fun _ _ h => utf8Encode_of_asciiDecode h

/-- An ID is written for a commit and an accepted path. -/
theorem encodeContentId_eq_ok (h : encodeContentId lower commit path = .ok contentId) :
    isCommit commit = true ∧ validateRelativePath lower path = .ok path ∧
      contentId = contentIds.text commit path := by
  unfold encodeContentId at h
  split_ifs at h with hcommit
  split at h
  · simp at h
  · next normalized hvalid =>
    obtain rfl := validateRelativePath_self hvalid
    exact ⟨by simpa using hcommit, hvalid, (Except.ok.inj h).symm⟩

/-- A decoded ID spells its commit and an accepted path. -/
theorem decodeContentId_eq_ok (h : decodeContentId lower contentId = .ok ⟨commit, path⟩) :
    contentIds.payload contentId = .ok (commit, path) ∧
      validateRelativePath lower path = .ok path := by
  unfold decodeContentId at h
  split at h
  · simp at h
  · next commit' spelled hpayload =>
    split at h
    · simp at h
    · simp at h
    · next normalized hvalid =>
      obtain ⟨rfl, rfl⟩ := DecodedContentId.mk.injEq _ _ _ _ ▸ Except.ok.inj h
      obtain rfl := validateRelativePath_self hvalid
      exact ⟨hpayload, hvalid⟩

/-- A commit and an accepted path are written. -/
theorem encodeContentId_of_valid (hcommit : isCommit commit = true)
    (hvalid : validateRelativePath lower path = .ok path) :
    encodeContentId lower commit path = .ok (contentIds.text commit path) := by
  simp [encodeContentId, hcommit, hvalid]

/-- A decoded ID is the one written for its parts, or for any others, exactly when its last
character leaves only zeros over. -/
theorem encodeContentId_iff (h : decodeContentId lower contentId = .ok ⟨commit, path⟩)
    {commit' path' : List Char} :
    encodeContentId lower commit' path' = .ok contentId ↔
      (commit' = commit ∧ path' = path) ∧ contentIds.leftover contentId = 0 := by
  obtain ⟨hpayload, hvalid⟩ := decodeContentId_eq_ok h
  obtain ⟨-, -, hcommit, -⟩ := IdFormat.payload_eq_ok hpayload
  constructor
  · intro hencode
    obtain ⟨hcommit', -, htext⟩ := encodeContentId_eq_ok hencode
    exact (IdFormat.text_eq_iff readsUtf8_contentIds hpayload hcommit').mp htext.symm
  · rintro ⟨⟨rfl, rfl⟩, hleft⟩
    rw [encodeContentId_of_valid hcommit hvalid,
      (IdFormat.text_eq_iff readsUtf8_contentIds hpayload hcommit).mpr ⟨⟨rfl, rfl⟩, hleft⟩]

end ContributorGateway.RepositoryContent
