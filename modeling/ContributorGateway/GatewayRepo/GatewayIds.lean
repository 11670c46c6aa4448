import ContributorGateway.Core.PathSafety
import ContributorGateway.GatewayRepo.GatewayPolicy

/-!
# IDs of the gateway repository

`encode_gateway_id` and `decode_gateway_id`, and how far IDs are canonical. An ID that
decodes is the one its commit and path are encoded as unless its last character leaves bits
over that are not zero, or, in the gateway repository, its payload spells the path with
empty or single-dot segments.
-/

namespace ContributorGateway.GatewayContent

open PurePosixPath

/-- The exceptions of the gateway IDs, and the `IndexError` of a path without parts. -/
inductive GatewayIdError where
  | invalidId (message : String)
  | indexError
  deriving DecidableEq

/-- `_validate_path`. -/
def validatePath (lower : List Char → List Char) (path : List Char) :
    Except GatewayIdError (List Char) :=
  match isAdmittedGatewayPath lower path with
  | none => .error .indexError
  | some false => .error (.invalidId "path is outside the gateway corpus")
  | some true => .ok (PurePosixPath.ofText path).asPosix

/-- The IDs of the gateway repository, `jng1_` and a payload. -/
def gatewayIds : IdFormat where
  tag := "jng1_".toList
  oversized := "unknown or oversized gateway content ID"
  alphabet := "gateway content ID is malformed"
  malformed := "gateway content ID is malformed"
  separator := "gateway content ID is malformed"
  encoding := "gateway content ID is malformed"
  commit := "gateway content ID commit is malformed"
  decodeCommit := utf8Decode

/-- `encode_gateway_id`. -/
def encodeGatewayId (lower : List Char → List Char) (commit path : List Char) :
    Except GatewayIdError (List Char) :=
  if ¬ isCommit commit then .error (.invalidId "commit is malformed")
  else
    match validatePath lower path with
    | .error e => .error e
    | .ok valid => .ok (gatewayIds.text commit valid)

/-- `decode_gateway_id`. -/
def decodeGatewayId (lower : List Char → List Char) (contentId : List Char) :
    Except GatewayIdError (List Char × List Char) :=
  match gatewayIds.payload contentId with
  | .error message => .error (.invalidId message)
  | .ok (commit, path) =>
      match validatePath lower path with
      | .error e => .error e
      | .ok valid => .ok (commit, valid)

/-- The path in the payload of an ID has no empty and no single-dot segments. -/
def SpelledPlainly (contentId : List Char) : Prop :=
  ∀ path, gatewayIds.spelledPath contentId = some path →
    ∀ part ∈ path.splitOn '/', part ≠ [] ∧ part ≠ ['.']

variable {lower : List Char → List Char} {path valid commit contentId : List Char}

/-- An admitted path is relative and has names. -/
theorem names_of_isAdmittedGatewayPath (h : isAdmittedGatewayPath lower path = some true) :
    (ofText path).root = [] ∧ (ofText path).names ≠ [] := by
  have hroot : (ofText path).root = [] := by
    by_contra hroot
    simp [isAdmittedGatewayPath, isAbsolute, hroot] at h
  refine ⟨hroot, fun hnil => ?_⟩
  have hparts : (ofText path).parts = [] := by rw [parts, if_pos hroot, hnil]
  simp [isAdmittedGatewayPath, isAbsolute, hroot, hparts] at h

/-- A valid path is returned in its own form, which is the path that it names. -/
theorem validatePath_eq_ok (h : validatePath lower path = .ok valid) :
    isAdmittedGatewayPath lower path = some true ∧ valid = (ofText path).asPosix ∧
      ofText valid = ofText path := by
  unfold validatePath at h
  split at h
  · simp at h
  · simp at h
  · next hadmitted =>
    obtain ⟨hroot, hnames⟩ := names_of_isAdmittedGatewayPath hadmitted
    obtain rfl := Except.ok.inj h
    exact ⟨hadmitted, rfl, ofText_asPosix hroot hnames⟩

/-- The commit of an ID is read as UTF-8. -/
theorem readsUtf8_gatewayIds : gatewayIds.ReadsUtf8 :=
  fun _ _ h => utf8Encode_of_utf8Decode h

/-- An ID is written for a commit and a path in its own form. -/
theorem encodeGatewayId_eq_ok (h : encodeGatewayId lower commit path = .ok contentId) :
    isCommit commit = true ∧ ∃ valid, validatePath lower path = .ok valid ∧
      contentId = gatewayIds.text commit valid := by
  unfold encodeGatewayId at h
  split_ifs at h with hcommit
  split at h
  · simp at h
  · next valid hvalid => exact ⟨by simpa using hcommit, valid, hvalid, (Except.ok.inj h).symm⟩

/-- A decoded ID spells its commit and a path that is valid. -/
theorem decodeGatewayId_eq_ok (h : decodeGatewayId lower contentId = .ok (commit, valid)) :
    ∃ path, gatewayIds.payload contentId = .ok (commit, path) ∧
      validatePath lower path = .ok valid := by
  unfold decodeGatewayId at h
  split at h
  · simp at h
  · next commit' path hpayload =>
    split at h
    · simp at h
    · next valid' hvalid =>
      obtain ⟨rfl, rfl⟩ := Prod.mk.injEq _ _ _ _ ▸ Except.ok.inj h
      exact ⟨path, hpayload, hvalid⟩

/-- A path is its own form exactly when the ID spells it plainly. -/
theorem asPosix_eq_iff_spelledPlainly (hpayload : gatewayIds.payload contentId = .ok (commit, path))
    (hvalid : validatePath lower path = .ok valid) : valid = path ↔ SpelledPlainly contentId := by
  obtain ⟨hadmitted, rfl, -⟩ := validatePath_eq_ok hvalid
  obtain ⟨hroot, hnames⟩ := names_of_isAdmittedGatewayPath hadmitted
  rw [asPosix_eq_iff hroot hnames]
  simp only [SpelledPlainly, IdFormat.spelledPath_of_payload hpayload, Option.some_inj,
    forall_eq', isDropped, Bool.or_eq_false_iff, decide_eq_false_iff_not, ne_eq]

/-- A decoded ID is written for some commit and path exactly when its last character leaves
only zeros over and its path is spelled plainly. -/
theorem exists_encodeGatewayId_iff (h : decodeGatewayId lower contentId = .ok (commit, valid)) :
    (∃ commit' path', encodeGatewayId lower commit' path' = .ok contentId) ↔
      gatewayIds.leftover contentId = 0 ∧ SpelledPlainly contentId := by
  obtain ⟨path, hpayload, hvalid⟩ := decodeGatewayId_eq_ok h
  obtain ⟨-, hform, -⟩ := validatePath_eq_ok hvalid
  obtain ⟨-, -, hcommit, -⟩ := IdFormat.payload_eq_ok hpayload
  rw [← asPosix_eq_iff_spelledPlainly hpayload hvalid]
  constructor
  · rintro ⟨commit', path', hencode⟩
    obtain ⟨hcommit', valid', hvalid', htext⟩ := encodeGatewayId_eq_ok hencode
    obtain ⟨⟨-, rfl⟩, hleft⟩ :=
      (IdFormat.text_eq_iff readsUtf8_gatewayIds hpayload hcommit').mp htext.symm
    obtain ⟨-, hform', hsame'⟩ := validatePath_eq_ok hvalid'
    exact ⟨hleft, by rw [hform, hsame', ← hform']⟩
  · rintro ⟨hleft, rfl⟩
    have htext := (IdFormat.text_eq_iff readsUtf8_gatewayIds hpayload hcommit).mpr
      ⟨⟨rfl, rfl⟩, hleft⟩
    exact ⟨commit, valid, by simp [encodeGatewayId, hcommit, hvalid, htext]⟩

/-- A decoded ID that is written for some commit and path is written for its own. -/
theorem encodeGatewayId_of_exists (h : decodeGatewayId lower contentId = .ok (commit, valid)) :
    encodeGatewayId lower commit valid = .ok contentId ↔
      ∃ commit' path', encodeGatewayId lower commit' path' = .ok contentId := by
  refine ⟨fun hencode => ⟨commit, valid, hencode⟩, fun hexists => ?_⟩
  obtain ⟨hleft, hplain⟩ := (exists_encodeGatewayId_iff h).mp hexists
  obtain ⟨path, hpayload, hvalid⟩ := decodeGatewayId_eq_ok h
  obtain ⟨-, -, hcommit, -⟩ := IdFormat.payload_eq_ok hpayload
  obtain rfl := (asPosix_eq_iff_spelledPlainly hpayload hvalid).mpr hplain
  have htext := (IdFormat.text_eq_iff readsUtf8_gatewayIds hpayload hcommit).mpr ⟨⟨rfl, rfl⟩, hleft⟩
  simp [encodeGatewayId, hcommit, hvalid, htext]

/-! ## Canonical IDs -/

/-- The IDs that are accepted are those written for their commit and path, and are written at
all, exactly when their last character leaves only zeros over and, in the gateway repository,
their path is spelled plainly. -/
theorem encode_decode_iff (lower : List Char → List Char) (contentId commit path : List Char) :
    (RepositoryContent.decodeContentId lower contentId = .ok ⟨commit, path⟩ →
      (RepositoryContent.encodeContentId lower commit path = .ok contentId ↔
        RepositoryContent.contentIds.leftover contentId = 0) ∧
      ((∃ commit' path', RepositoryContent.encodeContentId lower commit' path' = .ok contentId) ↔
        RepositoryContent.contentIds.leftover contentId = 0)) ∧
    (decodeGatewayId lower contentId = .ok (commit, path) →
      (encodeGatewayId lower commit path = .ok contentId ↔
        gatewayIds.leftover contentId = 0 ∧ SpelledPlainly contentId) ∧
      ((∃ commit' path', encodeGatewayId lower commit' path' = .ok contentId) ↔
        gatewayIds.leftover contentId = 0 ∧ SpelledPlainly contentId)) := by
  constructor
  · intro h
    refine ⟨by simp [RepositoryContent.encodeContentId_iff h], ?_⟩
    simp [RepositoryContent.encodeContentId_iff h]
  · intro h
    have hexists := exists_encodeGatewayId_iff h
    exact ⟨(encodeGatewayId_of_exists h).trans hexists, hexists⟩

/-- `str.lower` of ASCII texts. -/
def asciiLower (text : List Char) : List Char := text.map Char.toLower

/-- A commit. -/
def aCommit : List Char := List.replicate 40 'a'

/-- The payload of `README.md` at the commit. -/
def readmePayload : String := "YWFhYWFhYWFhYWFhYWFhYWFhYWFhYWFhYWFhYWFhYWFhYWFhYWFhYQBSRUFETUUubWQ"

/-- The same bytes with a bit left over. -/
def bentPayload : String := "YWFhYWFhYWFhYWFhYWFhYWFhYWFhYWFhYWFhYWFhYWFhYWFhYWFhYQBSRUFETUUubWR"

/-- The payload of `docs//a.md` at the commit. -/
def doubledPayload : String := "YWFhYWFhYWFhYWFhYWFhYWFhYWFhYWFhYWFhYWFhYWFhYWFhYWFhYQBkb2NzLy9hLm1k"

/-- The IDs of `README.md` in both repositories. -/
theorem encode_decode_iff_readme :
    RepositoryContent.encodeContentId asciiLower aCommit "README.md".toList =
        .ok ("jn1_" ++ readmePayload).toList ∧
      encodeGatewayId asciiLower aCommit "README.md".toList =
        .ok ("jng1_" ++ readmePayload).toList := by
  obtain ⟨hengine, -⟩ := encode_decode_iff asciiLower ("jn1_" ++ readmePayload).toList aCommit
    "README.md".toList
  obtain ⟨-, hgateway⟩ := encode_decode_iff asciiLower ("jng1_" ++ readmePayload).toList aCommit
    "README.md".toList
  refine ⟨(hengine (by decide +kernel)).1.mpr (by decide +kernel), ?_⟩
  have hexists : ∃ commit path,
      encodeGatewayId asciiLower commit path = .ok ("jng1_" ++ readmePayload).toList :=
    ⟨aCommit, "README.md".toList, by decide +kernel⟩
  have hgateway := hgateway (by decide +kernel)
  exact hgateway.1.mpr (hgateway.2.mp hexists)

/-- Two accepted IDs that are not written for what they decode to: one with a bit left over,
and one that spells its path with an empty segment. -/
theorem bent_and_doubled_ids :
    (RepositoryContent.decodeContentId asciiLower ("jn1_" ++ bentPayload).toList =
        .ok ⟨aCommit, "README.md".toList⟩ ∧
      RepositoryContent.encodeContentId asciiLower aCommit "README.md".toList ≠
        .ok ("jn1_" ++ bentPayload).toList) ∧
    (decodeGatewayId asciiLower ("jng1_" ++ doubledPayload).toList =
        .ok (aCommit, "docs/a.md".toList) ∧
      encodeGatewayId asciiLower aCommit "docs/a.md".toList ≠
        .ok ("jng1_" ++ doubledPayload).toList) := by
  decide +kernel

end ContributorGateway.GatewayContent
