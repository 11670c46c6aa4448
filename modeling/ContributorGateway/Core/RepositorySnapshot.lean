import ContributorGateway.Core.RepositoryPolicy
import ContributorGateway.Core.SnapshotReads

/-!
# Snapshots of the engine repository

The engine's corpus and `compute_content_inventory`.
-/

namespace ContributorGateway

open Node PurePosixPath

namespace RepositoryContent

variable {lower : List Char → List Char} {parts : List (List Char)}

/-- The policy decides about every file, and admits none below a hidden or excluded directory
or an unapproved root. -/
theorem isAdmittedRepositoryPath_relativePath (hne : parts ≠ [])
    (hnames : ∀ part ∈ parts, IsFileName part) :
    ∃ admitted, isAdmittedRepositoryPath lower (relativePath parts) = some admitted ∧
      (admitted = true → (∀ part ∈ parts, isHidden part = false) ∧
        (∀ p ∈ excludedPrefixes, ¬ p <+: relativePath parts) ∧
        ∀ root next rest, parts = root :: next :: rest → root ∈ approvedRootDirectories) := by
  have hparts : (PurePosixPath.mk [] parts).parts = parts := rfl
  have habsolute : (PurePosixPath.mk [] parts).isAbsolute = false := rfl
  rw [isAdmittedRepositoryPath, ofText_relativePath hne hnames]
  dsimp only
  rw [hparts, habsolute, Bool.false_or]
  by_cases hcharacters : relativePath parts = [] ∨ nul ∈ relativePath parts ∨
      '\\' ∈ relativePath parts
  · exact ⟨false, if_pos hcharacters, nofun⟩
  rw [if_neg hcharacters]
  by_cases hdotted : (parts.any fun part => isDotPart part || isHidden part) = true
  · exact ⟨false, if_pos hdotted, nofun⟩
  rw [if_neg hdotted]
  have hvisible : ∀ part ∈ parts, isHidden part = false := by
    intro part hpart
    rw [Bool.not_eq_true, List.any_eq_false] at hdotted
    have hplain := hdotted part hpart
    rw [Bool.or_eq_true, not_or, Bool.not_eq_true, Bool.not_eq_true] at hplain
    exact hplain.2
  by_cases hexcluded : (relativePath parts ∈ excludedFiles ||
      excludedPrefixes.any fun p => p.isPrefixOf (relativePath parts)) = true
  · exact ⟨false, if_pos hexcluded, nofun⟩
  rw [if_neg hexcluded]
  have hunexcluded : ∀ p ∈ excludedPrefixes, ¬ p <+: relativePath parts := by
    intro p hp hstarts
    refine hexcluded (Bool.or_eq_true _ _ ▸ Or.inr (List.any_eq_true.mpr ⟨p, hp, ?_⟩))
    exact List.isPrefixOf_iff_prefix.mpr hstarts
  split_ifs with hlength
  · refine ⟨_, rfl, fun _ => ⟨hvisible, hunexcluded, ?_⟩⟩
    rintro root next rest rfl
    simp at hlength
  · cases parts with
    | nil => exact absurd rfl hne
    | cons root rest =>
      by_cases hroot : root ∈ approvedRootDirectories
      · refine ⟨_, if_neg (not_not.mpr hroot), fun _ => ⟨hvisible, hunexcluded, ?_⟩⟩
        rintro root' next rest' ⟨⟩
        exact hroot
      · exact ⟨false, if_pos hroot, nofun⟩

/-- An admitted path keeps the rules. -/
theorem rules_of_admitted (hne : parts ≠ []) (hnames : ∀ part ∈ parts, IsFileName part)
    (h : isAdmittedRepositoryPath lower (relativePath parts) = some true) :
    (∀ part ∈ parts, isHidden part = false) ∧
      (∀ p ∈ excludedPrefixes, ¬ p <+: relativePath parts) ∧
      ∀ root next rest, parts = root :: next :: rest → root ∈ approvedRootDirectories := by
  obtain ⟨admitted, hadmitted, hrules⟩ :=
    @isAdmittedRepositoryPath_relativePath lower parts hne hnames
  rw [h] at hadmitted
  exact hrules (Option.some.inj hadmitted).symm

/-- `prefix.rstrip("/")` for the excluded prefixes. -/
def excludedDirectories : List (List Char) :=
  excludedPrefixes.map fun p => p.rdropWhile (· = '/')

/-- Nothing below an excluded directory is admitted. -/
theorem relativePath_not_excluded {next : List Char} {rest : List (List Char)} (hne : parts ≠ [])
    (hnames : ∀ part ∈ parts ++ next :: rest, IsFileName part)
    (h : isAdmittedRepositoryPath lower (relativePath (parts ++ next :: rest)) = some true) :
    relativePath parts ∉ excludedDirectories := by
  obtain ⟨-, hunexcluded, -⟩ := rules_of_admitted (List.append_ne_nil_of_left_ne_nil hne _) hnames h
  rw [relativePath_append hne (List.cons_ne_nil next rest) hnames] at hunexcluded
  intro hexcluded
  obtain ⟨p, hp, hparts⟩ := List.mem_map.mp hexcluded
  have hslash : ∀ p ∈ excludedPrefixes, p.rdropWhile (· = '/') ++ ['/'] = p := by decide
  refine hunexcluded p hp ⟨relativePath (next :: rest), ?_⟩
  rw [← hslash p hp, hparts, List.append_assoc, List.singleton_append]

/-- The engine's corpus. -/
def repositoryCorpus (lower : List Char → List Char) : Corpus where
  rootFiles := approvedRootFiles
  rootDirectories := approvedRootDirectories
  rejectsName := isHidden
  excludedDirectories := excludedDirectories
  admits := isAdmittedRepositoryPath lower
  maxFiles := 20000
  maxBytes := 128000000
  decides := by
    intro parts hne hnames hnone
    obtain ⟨admitted, hadmitted, -⟩ := isAdmittedRepositoryPath_relativePath hne hnames
    rw [hnone] at hadmitted
    cases hadmitted
  names_allowed := by
    intro parts hnames hadmits part hpart
    exact (rules_of_admitted (List.ne_nil_of_mem hpart) hnames hadmits).1 part hpart
  root_approved := by
    intro root next rest hnames hadmits
    exact (rules_of_admitted (List.cons_ne_nil root _) hnames hadmits).2.2 root next rest rfl
  directory_allowed := relativePath_not_excluded
  rootDirectories_allowed := by decide

/-- The message of a `SnapshotError`. -/
def scanMessage : ScanError → String
  | .missingFile label => "required snapshot file is missing: " ++ String.ofList label
  | .unsafeFile label => "required snapshot file is unsafe: " ++ String.ofList label
  | .multiplyLinked label => "required snapshot file is multiply linked: " ++ String.ofList label
  | .missingDirectory label => String.ofList label ++ "/ is missing or inaccessible"
  | .notDirectory label => String.ofList label ++ "/ must be a real directory"
  | .hidden => "snapshot contains a hidden path"
  | .symlink => "snapshot contains a symlink"
  | .unapprovedRoot => "snapshot contains an unapproved root directory"
  | .excludedDirectory => "snapshot contains an excluded vendored directory"
  | .special => "snapshot contains a special file"
  | .hardLink => "snapshot contains a hard link"
  | .outsidePolicy => "snapshot contains a file outside the admitted policy"
  | .oversized => "snapshot contains an oversized file"
  | .binary => "snapshot contains a binary file"
  | .noFiles => "snapshot contains no admitted files"
  | .tooManyFiles => "snapshot exceeds the file-count bound"
  | .tooManyBytes => "snapshot exceeds the total-byte bound"
  | .indexError => "IndexError"

/-- `compute_content_inventory`. -/
def computeContentInventory (lower : List Char → List Char) (sha256 : List UInt8 → List Char)
    (t : Tree) : Except String Inventory :=
  (computeInventory (repositoryCorpus lower) t sha256).mapError scanMessage

/-- The messages of `validate_snapshot`. -/
def manifestMessages : ManifestMessages where
  fileCount := "snapshot file_count does not match the corpus"
  totalBytes := "snapshot total_bytes does not match the corpus"
  contentSha256 := "snapshot content_sha256 does not match the corpus"
  writable := "snapshot is writable"

/-- `validate_snapshot` with the manifest that `load_snapshot_manifest` returned. -/
def validateSnapshot (lower : List Char → List Char) (sha256 : List UInt8 → List Char)
    (manifest : SnapshotManifest) (requireReadOnly writable : Bool) (t : Tree) :
    Except String Snapshot :=
  computeContentInventory lower sha256 t >>=
    matchManifest manifestMessages manifest requireReadOnly writable t

end RepositoryContent

end ContributorGateway
