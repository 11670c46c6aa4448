import ContributorGateway.Core.SnapshotReads
import ContributorGateway.GatewayRepo.GatewayPolicy

/-!
# Snapshots of the gateway repository

The gateway's corpus and `compute_gateway_inventory`.
-/

namespace ContributorGateway.GatewayContent

open Node PurePosixPath

variable {lower : List Char → List Char} {parts : List (List Char)}

/-- The policy decides about every file, and admits none below an unapproved root. -/
theorem isAdmittedGatewayPath_relativePath (hne : parts ≠ [])
    (hnames : ∀ part ∈ parts, IsFileName part) :
    ∃ admitted, isAdmittedGatewayPath lower (relativePath parts) = some admitted ∧
      (admitted = true → ∀ root next rest, parts = root :: next :: rest →
        root ∈ approvedRootDirectories) := by
  have hparts : (PurePosixPath.mk [] parts).parts = parts := rfl
  have habsolute : (PurePosixPath.mk [] parts).isAbsolute = false := rfl
  rw [isAdmittedGatewayPath, ofText_relativePath hne hnames]
  dsimp only
  rw [hparts, habsolute, Bool.false_or]
  by_cases hcharacters : relativePath parts = [] ∨ nul ∈ relativePath parts ∨
      '\\' ∈ relativePath parts
  · exact ⟨false, if_pos hcharacters, nofun⟩
  rw [if_neg hcharacters]
  by_cases hdotted : parts.any isDotPart = true
  · exact ⟨false, if_pos hdotted, nofun⟩
  rw [if_neg hdotted]
  cases parts with
  | nil => exact absurd rfl hne
  | cons root rest =>
    cases rest with
    | nil =>
      refine ⟨_, if_pos rfl, fun _ => ?_⟩
      rintro root' next rest' ⟨⟩
    | cons next rest =>
      rw [if_neg (by simp), List.head?_cons, Option.bind_some]
      by_cases hroot : (!approvedRootDirectories.contains root) = true
      · exact ⟨false, if_pos hroot, nofun⟩
      have happroved : root ∈ approvedRootDirectories := by simpa using hroot
      rw [if_neg hroot]
      split_ifs
      all_goals
        refine ⟨_, rfl, fun _ => ?_⟩
        rintro root' next' rest' ⟨⟩
        exact happroved

/-- The gateway's corpus. -/
def gatewayCorpus (lower : List Char → List Char) : Corpus where
  rootFiles := approvedRootFiles
  rootDirectories := approvedRootDirectories
  rejectsName := fun _ => false
  excludedDirectories := []
  admits := isAdmittedGatewayPath lower
  maxFiles := 5000
  maxBytes := 64000000
  decides := by
    intro parts hne hnames hnone
    obtain ⟨admitted, hadmitted, -⟩ := isAdmittedGatewayPath_relativePath hne hnames
    rw [hnone] at hadmitted
    cases hadmitted
  names_allowed := fun _ _ _ _ => rfl
  root_approved := by
    intro root next rest hnames hadmits
    obtain ⟨admitted, hadmitted, happroved⟩ :=
      isAdmittedGatewayPath_relativePath (List.cons_ne_nil root (next :: rest)) hnames
    rw [hadmits] at hadmitted
    exact happroved (Option.some.inj hadmitted).symm root next rest rfl
  directory_allowed := fun _ _ _ => List.not_mem_nil
  rootDirectories_allowed := fun _ _ => ⟨rfl, List.not_mem_nil⟩

/-- The message of a `GatewaySnapshotError`. -/
def scanMessage : ScanError → String
  | .missingFile label => "required snapshot file is missing: " ++ String.ofList label
  | .unsafeFile label => "required snapshot file is unsafe: " ++ String.ofList label
  | .multiplyLinked label => "required snapshot file is multiply linked: " ++ String.ofList label
  | .missingDirectory label => String.ofList label ++ "/ is missing or inaccessible"
  | .notDirectory label => String.ofList label ++ "/ must be a real directory"
  | .symlink => "gateway snapshot contains a symlink"
  | .unapprovedRoot => "gateway snapshot has an unapproved root directory"
  | .special => "gateway snapshot contains a special file"
  | .hardLink => "gateway snapshot contains a hard link"
  | .outsidePolicy => "gateway snapshot contains a file outside policy"
  | .oversized => "gateway snapshot contains an oversized file"
  | .binary => "gateway snapshot contains a binary file"
  | .noFiles => "gateway snapshot file-count is outside bounds"
  | .tooManyFiles => "gateway snapshot file-count is outside bounds"
  | .tooManyBytes => "gateway snapshot exceeds the total-byte bound"
  | .indexError => "IndexError"
  -- The gateway's scan has neither of these checks.
  | .hidden | .excludedDirectory => ""

/-- `compute_gateway_inventory`. -/
def computeGatewayInventory (lower : List Char → List Char) (sha256 : List UInt8 → List Char)
    (t : Tree) : Except String Inventory :=
  (computeInventory (gatewayCorpus lower) t sha256).mapError scanMessage

/-- The messages of `validate_gateway_snapshot`. -/
def manifestMessages : ManifestMessages where
  fileCount := "gateway snapshot file_count does not match"
  totalBytes := "gateway snapshot total_bytes does not match"
  contentSha256 := "gateway snapshot content_sha256 does not match"
  writable := "gateway snapshot is writable"

/-- `validate_gateway_snapshot` with the manifest that `load_gateway_manifest` returned. -/
def validateGatewaySnapshot (lower : List Char → List Char) (sha256 : List UInt8 → List Char)
    (manifest : SnapshotManifest) (requireReadOnly writable : Bool) (t : Tree) :
    Except String Snapshot :=
  computeGatewayInventory lower sha256 t >>=
    matchManifest manifestMessages manifest requireReadOnly writable t

end ContributorGateway.GatewayContent
