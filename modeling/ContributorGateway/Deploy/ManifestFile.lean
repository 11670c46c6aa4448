import ContributorGateway.Core.Timestamp
import ContributorGateway.Deploy.ExportSnapshot
import ContributorGateway.Foundation.JsonSize
import ContributorGateway.Foundation.PythonText

/-!
# Manifest files

The manifest of a snapshot as a file: what the exporters write, the strict model that reads it, and
the validation of a snapshot directory. The validation that ends an export never fails.
-/

namespace ContributorGateway.ManifestFile

open Json

/-! ## Fields -/

/-- `MAX_MANIFEST_BYTES`. -/
def maxManifestBytes : ℕ := 65536

/-- The pattern `^[0-9a-f]{64}$`. -/
def isSha256 (digest : List Char) : Bool :=
  digest.length = 64 && digest.all fun c => ('0' ≤ c && c ≤ '9') || ('a' ≤ c && c ≤ 'f')

/-- How a model dumps a datetime in UTC: its microseconds are left out if there are none. -/
def dumpTime (t : Instant) : String :=
  String.ofList (isoformatNaive t ++
    (if t.micros % 1000000 = 0 then [] else '.' :: padded 6 (t.micros % 1000000)) ++ ['Z'])

/-- The validators of the types of the fields, of which only what they do with dumped values is
known. -/
structure FieldReaders where
  /-- `Literal[1]`. -/
  literalOne : Json → Bool
  /-- `int`. -/
  int : Json → Option ℤ
  /-- `datetime`: the local time and the UTC offset in minutes. -/
  datetime : Json → Option (Instant × Option ℤ)
  literalOne_int : literalOne (.int 1) = true
  int_int : ∀ n, int (.int n) = some n
  datetime_dumpTime : ∀ t, datetime (.str (dumpTime t)) = some (t, some 0)

/-- The errors of `load_snapshot_manifest`. -/
inductive LoadError where
  | missing
  | unsafeFile
  | multiplyLinked
  | oversized
  | invalid

/-- The constants of a manifest model, which are short enough for a file within its bound. -/
structure ManifestPolicy where
  /-- `EXPECTED_REPOSITORY`. -/
  repository : String
  /-- `EXPECTED_REF`. -/
  ref : String
  /-- `INCLUDED_ROOTS`. -/
  includedRoots : List String
  /-- `MAX_SNAPSHOT_FILES`. -/
  maxFiles : ℕ
  /-- `MAX_SNAPSHOT_BYTES`. -/
  maxBytes : ℕ
  message : LoadError → String
  /-- What is read of a file. -/
  read : List UInt8 → List UInt8
  read_small : ∀ bytes, bytes.length ≤ maxManifestBytes → read bytes = bytes
  maxFiles_lt : maxFiles < 10 ^ 10
  maxBytes_lt : maxBytes < 10 ^ 10
  constants_short : indentBound 1 (.str repository) + indentBound 1 (.str ref) +
    indentBound 1 (.arr (includedRoots.map .str)) ≤ 32768

/-- The fields of a manifest that are no constants. -/
structure ManifestData where
  commit : List Char
  tree : List Char
  commitTime : Instant
  createdAt : Instant
  fileCount : ℕ
  totalBytes : ℕ
  contentSha256 : List Char

/-- The patterns and bounds of the fields. -/
structure ManifestData.Valid (data : ManifestData) (P : ManifestPolicy) : Prop where
  commit : isCommit data.commit = true
  tree : isCommit data.tree = true
  fileCount : 1 ≤ data.fileCount ∧ data.fileCount ≤ P.maxFiles
  totalBytes : 1 ≤ data.totalBytes ∧ data.totalBytes ≤ P.maxBytes
  contentSha256 : isSha256 data.contentSha256 = true

theorem ManifestData.valid_iff {data : ManifestData} {P : ManifestPolicy} : data.Valid P ↔
    isCommit data.commit = true ∧ isCommit data.tree = true ∧
      (1 ≤ data.fileCount ∧ data.fileCount ≤ P.maxFiles) ∧
      (1 ≤ data.totalBytes ∧ data.totalBytes ≤ P.maxBytes) ∧
      isSha256 data.contentSha256 = true := by
  constructor
  · rintro ⟨hcommit, htree, hfiles, hbytes, hdigest⟩
    exact ⟨hcommit, htree, hfiles, hbytes, hdigest⟩
  · rintro ⟨hcommit, htree, hfiles, hbytes, hdigest⟩
    exact ⟨hcommit, htree, hfiles, hbytes, hdigest⟩

instance (data : ManifestData) (P : ManifestPolicy) : Decidable (data.Valid P) :=
  decidable_of_iff' _ ManifestData.valid_iff

/-- `SnapshotManifest` and `GatewaySnapshotManifest`. -/
@[ext]
structure Manifest (P : ManifestPolicy) extends ManifestData where
  valid : toManifestData.Valid P

variable {P : ManifestPolicy}

/-- What the checks against an inventory use. -/
def Manifest.toSnapshotManifest (manifest : Manifest P) : SnapshotManifest where
  commit := manifest.commit
  fileCount := manifest.fileCount
  totalBytes := manifest.totalBytes
  contentSha256 := manifest.contentSha256
  isCommit := manifest.valid.commit

/-- The validators of the fields. -/
def checkData (P : ManifestPolicy) (data : ManifestData) : Option (Manifest P) :=
  if h : data.Valid P then some ⟨data, h⟩ else none

/-- `model_dump(mode="json")`. -/
def modelDump (manifest : Manifest P) : Json := .obj
  [("schema_version", .int 1),
    ("repository", .str P.repository),
    ("ref", .str P.ref),
    ("commit", .str (String.ofList manifest.commit)),
    ("tree", .str (String.ofList manifest.tree)),
    ("commit_time", .str (dumpTime manifest.commitTime)),
    ("created_at", .str (dumpTime manifest.createdAt)),
    ("file_count", .int manifest.fileCount),
    ("total_bytes", .int manifest.totalBytes),
    ("content_sha256", .str (String.ofList manifest.contentSha256)),
    ("included_roots", .arr (P.includedRoots.map .str))]

/-- The names of the fields; `extra="forbid"`. -/
def fieldNames : List String :=
  ["schema_version", "repository", "ref", "commit", "tree", "commit_time", "created_at",
    "file_count", "total_bytes", "content_sha256", "included_roots"]

variable (R : FieldReaders)

/-- A field of type `str`. -/
def strField (payload : Json) (key : String) : Option String := (Json.get key payload).bind asStr

/-- A field of type `int` that is no less than one. -/
def countField (payload : Json) (key : String) : Option ℕ := do
  let n ← (Json.get key payload).bind R.int
  if 1 ≤ n then some n.toNat else none

/-- A field of type `datetime` with `require_utc`. -/
def utcField (payload : Json) (key : String) : Option Instant := do
  let (time, offset) ← (Json.get key payload).bind R.datetime
  if offset = some 0 then some time else none

/-- A field of type `tuple[str, ...]`. -/
def rootsField (payload : Json) (key : String) : Option (List String) := do
  match ← Json.get key payload with
  | .arr items => items.mapM asStr
  | _ => none

/-- The keys of an object. -/
def keys : Json → Option (List String)
  | .obj members => some (members.map Prod.fst)
  | _ => none

/-- `model_validate`. -/
def modelValidate (P : ManifestPolicy) (payload : Json) : Option (Manifest P) := do
  let names ← keys payload
  let version ← Json.get "schema_version" payload
  let repository ← strField payload "repository"
  let ref ← strField payload "ref"
  let commit ← strField payload "commit"
  let tree ← strField payload "tree"
  let commitTime ← utcField R payload "commit_time"
  let createdAt ← utcField R payload "created_at"
  let fileCount ← countField R payload "file_count"
  let totalBytes ← countField R payload "total_bytes"
  let contentSha256 ← strField payload "content_sha256"
  let includedRoots ← rootsField payload "included_roots"
  if (∀ name ∈ names, name ∈ fieldNames) ∧ R.literalOne version ∧ repository = P.repository ∧
      ref = P.ref ∧ includedRoots = P.includedRoots then
    checkData P ⟨commit.toList, tree.toList, commitTime, createdAt, fileCount, totalBytes,
      contentSha256.toList⟩
  else none

/-! ## Files -/

/-- What `lstat` says of the manifest file, and its bytes. -/
structure ManifestEntry where
  isRegular : Bool
  links : ℕ
  bytes : List UInt8

/-- `load_snapshot_manifest` and `load_gateway_manifest` in a directory. -/
def loadManifest (P : ManifestPolicy) : Option ManifestEntry → Except String (Manifest P)
  | none => .error (P.message .missing)
  | some entry =>
      if ¬ entry.isRegular then .error (P.message .unsafeFile)
      else if entry.links ≠ 1 then .error (P.message .multiplyLinked)
      else if maxManifestBytes < entry.bytes.length then .error (P.message .oversized)
      else
        match ((utf8Decode (P.read entry.bytes)).bind loads).bind (modelValidate R P) with
        | some manifest => .ok manifest
        | none => .error (P.message .invalid)

/-- The text that is written. -/
def manifestText (manifest : Manifest P) : List Char := dumpsIndent 0 (modelDump manifest) ++ ['\n']

/-! ## Round trip -/

variable {R} (manifest : Manifest P)

/-- A dumped time is short. -/
theorem length_dumpTime_le (t : Instant) : (dumpTime t).length ≤ 27 := by
  rw [dumpTime, ← String.length_toList, String.toList_ofList]
  split_ifs <;> simp [isoformatNaive]

/-- The dumped manifest is plain. -/
theorem plain_modelDump : Plain (modelDump manifest) := by
  have hkeys : fieldNames.Nodup := by decide
  refine ⟨hkeys, ?_⟩
  apply (plainMembers_iff _).mpr
  intro m hm
  simp only [List.mem_cons, List.not_mem_nil, or_false] at hm
  rcases hm with rfl | rfl | rfl | rfl | rfl | rfl | rfl | rfl | rfl | rfl | rfl
  case inr.inr.inr.inr.inr.inr.inr.inr.inr.inr =>
    apply (plainItems_iff _).mpr
    intro v hv
    obtain ⟨root, -, rfl⟩ := List.mem_map.mp hv
    trivial
  all_goals trivial

/-- The dumped manifest is well formed. -/
theorem wellFormed_modelDump : WellFormed (modelDump manifest) := by
  have hkeys : fieldNames.Nodup := by decide
  refine .obj hkeys ?_
  intro m hm
  simp only [List.mem_cons, List.not_mem_nil, or_false] at hm
  rcases hm with rfl | rfl | rfl | rfl | rfl | rfl | rfl | rfl | rfl | rfl | rfl
  case inr.inr.inr.inr.inr.inr.inr.inr.inr.inr =>
    apply WellFormed.arr
    intro v hv
    obtain ⟨root, -, rfl⟩ := List.mem_map.mp hv
    exact .str root
  all_goals first | exact .str _ | exact .int _

/-- A number below ten digits is short. -/
theorem length_dumpsInt_le {n : ℕ} (hn : n < 10 ^ 10) : (dumpsInt n).length ≤ 10 :=
  (Nat.length_toDigits_le_iff (by decide) (by decide)).mpr hn

/-- The bound of the dumped manifest is that of the constants and little more. -/
theorem indentBound_modelDump_lt : indentBound 0 (modelDump manifest) < maxManifestBytes := by
  obtain ⟨hcommit, htree, ⟨-, hfiles⟩, ⟨-, hbytes⟩, hdigest⟩ := manifest.valid
  have hlength {commit : List Char} (h : isCommit commit = true) : commit.length = 40 := by
    rw [isCommit, Bool.and_eq_true, decide_eq_true_eq] at h
    exact h.1
  have hsha : manifest.contentSha256.length = 64 := by
    rw [isSha256, Bool.and_eq_true, decide_eq_true_eq] at hdigest
    exact hdigest.1
  have hfileCount := length_dumpsInt_le (lt_of_le_of_lt hfiles P.maxFiles_lt)
  have htotalBytes := length_dumpsInt_le (lt_of_le_of_lt hbytes P.maxBytes_lt)
  have hone : (dumpsInt 1).length ≤ 10 := length_dumpsInt_le (by decide)
  have htime := length_dumpTime_le manifest.commitTime
  have hcreated := length_dumpTime_le manifest.createdAt
  have hconstants := P.constants_short
  rw [maxManifestBytes]
  simp only [modelDump, indentBound, indentBoundMembers, String.length_ofList, hlength hcommit,
    hlength htree, hsha, Nat.reduceAdd] at hconstants ⊢
  have hkeys : "schema_version".length = 14 ∧ "repository".length = 10 ∧ "ref".length = 3 ∧
      "commit".length = 6 ∧ "tree".length = 4 ∧ "commit_time".length = 11 ∧
      "created_at".length = 10 ∧ "file_count".length = 10 ∧ "total_bytes".length = 11 ∧
      "content_sha256".length = 14 ∧ "included_roots".length = 14 := by decide
  omega

/-- The written text is within the bound of the file. -/
theorem length_manifestText_le : (manifestText manifest).length ≤ maxManifestBytes := by
  have htext := length_dumpsIndent_le 0 (modelDump manifest)
  have hbound := indentBound_modelDump_lt manifest
  rw [manifestText, List.length_append, List.length_singleton]
  omega

/-- A field of the dumped manifest, as it is read back. -/
theorem get_modelDump (key : String) :
    Json.get key (canonical (modelDump manifest)) =
      (Json.get key (modelDump manifest)).map canonical :=
  get_canonical (plain_modelDump manifest) key

/-- A text field of the dumped manifest. -/
theorem strField_modelDump {key value : String}
    (h : Json.get key (modelDump manifest) = some (.str value)) :
    strField (canonical (modelDump manifest)) key = some value := by
  rw [strField, get_modelDump, h]
  rfl

/-- A time of the dumped manifest. -/
theorem utcField_modelDump {key : String} {t : Instant}
    (h : Json.get key (modelDump manifest) = some (.str (dumpTime t))) :
    utcField R (canonical (modelDump manifest)) key = some t := by
  have hread : (some (Json.str (dumpTime t))).map canonical = some (.str (dumpTime t)) := rfl
  rw [utcField, get_modelDump, h, hread, Option.bind_some, R.datetime_dumpTime]
  rfl

/-- A count of the dumped manifest. -/
theorem countField_modelDump {key : String} {n : ℕ} (hn : 1 ≤ n)
    (h : Json.get key (modelDump manifest) = some (.int n)) :
    countField R (canonical (modelDump manifest)) key = some n := by
  have hpos : 1 ≤ (n : ℤ) := by omega
  have hread : (some (Json.int n)).map canonical = some (.int n) := rfl
  rw [countField, get_modelDump, h, hread, Option.bind_some, R.int_int]
  exact if_pos hpos

/-- The roots of the dumped manifest. -/
theorem rootsField_modelDump :
    rootsField (canonical (modelDump manifest)) "included_roots" = some P.includedRoots := by
  have hitems : canonicalItems (P.includedRoots.map .str) = P.includedRoots.map .str := by
    induction P.includedRoots with
    | nil => rfl
    | cons root roots ih =>
      rw [List.map_cons, canonicalItems, ih]
      rfl
  have hroots : (P.includedRoots.map Json.str).mapM asStr = some P.includedRoots := by
    induction P.includedRoots with
    | nil => rfl
    | cons root roots ih =>
      rw [List.map_cons, List.mapM_cons, ih]
      rfl
  have hget : Json.get "included_roots" (modelDump manifest) =
      some (.arr (P.includedRoots.map .str)) := rfl
  rw [rootsField, get_modelDump, hget, Option.map_some, canonical, hitems]
  exact hroots

/-- The dumped manifest is validated to itself, also with the fields in key order. -/
theorem modelValidate_modelDump :
    modelValidate R P (canonical (modelDump manifest)) = some manifest := by
  have hkeys : ∃ names, keys (canonical (modelDump manifest)) = some names ∧
      ∀ name ∈ names, name ∈ fieldNames := by
    rw [modelDump, canonical, keys, canonicalMembers_eq_map]
    refine ⟨_, rfl, fun name hname => ?_⟩
    have hsorted := (List.perm_insertionSort _ _).map Prod.fst |>.subset hname
    rw [List.map_map] at hsorted
    exact hsorted
  obtain ⟨names, hnames, hknown⟩ := hkeys
  have hversion : Json.get "schema_version" (canonical (modelDump manifest)) = some (.int 1) := by
    rw [get_modelDump]
    rfl
  have hvalid := manifest.valid
  have hcommit : strField (canonical (modelDump manifest)) "commit" = _ :=
    strField_modelDump manifest rfl
  have htree : strField (canonical (modelDump manifest)) "tree" = _ :=
    strField_modelDump manifest rfl
  have hdigest : strField (canonical (modelDump manifest)) "content_sha256" = _ :=
    strField_modelDump manifest rfl
  have hrepository : strField (canonical (modelDump manifest)) "repository" = _ :=
    strField_modelDump manifest rfl
  have href : strField (canonical (modelDump manifest)) "ref" = _ :=
    strField_modelDump manifest rfl
  have htime : utcField R (canonical (modelDump manifest)) "commit_time" = _ :=
    utcField_modelDump manifest rfl
  have hcreated : utcField R (canonical (modelDump manifest)) "created_at" = _ :=
    utcField_modelDump manifest rfl
  have hfiles : countField R (canonical (modelDump manifest)) "file_count" = _ :=
    countField_modelDump manifest hvalid.fileCount.1 rfl
  have hbytes : countField R (canonical (modelDump manifest)) "total_bytes" = _ :=
    countField_modelDump manifest hvalid.totalBytes.1 rfl
  have hconstants : (∀ name ∈ names, name ∈ fieldNames) ∧ R.literalOne (.int 1) ∧
      P.repository = P.repository ∧ P.ref = P.ref ∧ P.includedRoots = P.includedRoots :=
    ⟨hknown, R.literalOne_int, rfl, rfl, rfl⟩
  rw [modelValidate, hnames, hversion, hrepository, href, hcommit, htree, htime, hcreated, hfiles,
    hbytes, hdigest, rootsField_modelDump]
  refine (if_pos hconstants).trans ?_
  simp only [String.toList_ofList]
  exact dif_pos hvalid

/-- The written file is read back. -/
theorem loads_manifestText :
    loads (manifestText manifest) = some (canonical (modelDump manifest)) := by
  have hended : Ended ['\n'] := by
    rintro c ⟨⟩
    exact Or.inr (Or.inr (Or.inr rfl))
  have hlength : (dumpsIndent 0 (modelDump manifest)).length ≤ 2 * (manifestText manifest).length := by
    rw [manifestText, List.length_append]
    omega
  have hread := readsBackAt 0 (wellFormed_modelDump manifest)
    (2 * (manifestText manifest).length) ['\n'] hlength hended
  rw [loads, manifestText]
  rw [manifestText] at hread
  rw [hread]
  rfl

/-- The written file, as it is on the disk. -/
def manifestEntry : ManifestEntry := ⟨true, 1, utf8Encode (manifestText manifest)⟩

/-- **Manifests are read back.** The file that an exporter writes is within its bound, and the
strict model reads the same manifest from it. -/
theorem loadManifest_manifestEntry : loadManifest R P (some (manifestEntry manifest)) = .ok manifest := by
  have hascii : ∀ c ∈ manifestText manifest, c.toNat ≤ 0x7f := by
    intro c hc
    rcases List.mem_append.mp hc with hc | hc
    · exact ascii_dumpsIndent 0 (plain_modelDump manifest) c hc
    · rw [List.mem_singleton.mp hc]
      decide
  have hsize : (utf8Encode (manifestText manifest)).length ≤ maxManifestBytes := by
    rw [length_utf8Encode_of_ascii hascii]
    exact length_manifestText_le manifest
  rw [loadManifest, manifestEntry, if_neg (not_not.mpr rfl), if_neg (not_not.mpr rfl),
    if_neg (not_lt.mpr hsize), P.read_small _ hsize, utf8Decode_utf8Encode, Option.bind_some,
    loads_manifestText, Option.bind_some, modelValidate_modelDump]

/-! ## Snapshot directories -/

/-- A directory with its manifest file and its content; `writable` says whether a mode bit of a path
allows to write. -/
structure Directory where
  manifest : Option ManifestEntry
  content : Tree
  writable : Bool

/-- The two kinds of snapshots. -/
structure SnapshotKind where
  policy : ManifestPolicy
  /-- `_filter_export`. -/
  filterExport : (List Char → List Char) → Tree → Except String Tree
  /-- `compute_content_inventory` and `compute_gateway_inventory`. -/
  computeInventory : (List Char → List Char) → (List UInt8 → List Char) → Tree →
    Except String Inventory
  messages : ManifestMessages

section Build

variable (R : FieldReaders) (K : SnapshotKind) (lower : List Char → List Char)
  (sha256 : List UInt8 → List Char)

/-- `validate_snapshot` and `validate_gateway_snapshot`. -/
def validateDirectory (requireReadOnly : Bool) (directory : Directory) : Except String Snapshot := do
  let manifest ← loadManifest R K.policy directory.manifest
  let inventory ← K.computeInventory lower sha256 directory.content
  matchManifest K.messages manifest.toSnapshotManifest requireReadOnly directory.writable
    directory.content inventory

/-- `datetime.fromisoformat` of the commit time with its conversion to UTC. -/
def readCommitTime (text : List Char) : Except String Instant :=
  match fromisoformat (replaceAll ['Z'] ['+', '0', '0', ':', '0', '0'] text) with
  | none => .error "ValueError"
  | some (_, none) => .error "Git commit time is missing its timezone"
  | some (seconds, some offset) =>
      if h : 0 ≤ (seconds : ℤ) - 60 * offset ∧
          ((seconds : ℤ) - 60 * offset).toNat * 1000000 < maxMicros then
        .ok ⟨((seconds : ℤ) - 60 * offset).toNat * 1000000, h.2⟩
      else .error "OverflowError"

/-- `build_manifest` and `build_gateway_manifest` over an unpacked archive: the manifest and the
directory with what is written. -/
def buildManifest (archive : Tree) (commit tree commitTime : List Char) (now : Instant) :
    Except String (Manifest K.policy × Directory) := do
  let content ← K.filterExport lower archive
  let inventory ← K.computeInventory lower sha256 content
  let time ← readCommitTime commitTime
  match checkData K.policy ⟨commit, tree, time, now, inventory.fileCount, inventory.totalBytes,
      inventory.contentSha256⟩ with
  | none => .error "ValidationError"
  | some manifest =>
      let directory : Directory := ⟨some (manifestEntry manifest), content, true⟩
      let _ ← validateDirectory R K lower sha256 false directory
      .ok (manifest, directory)

variable {K lower sha256}

/-- A directory with the manifest of its inventory is valid. -/
theorem validateDirectory_manifestEntry {content : Tree} {inventory : Inventory}
    (hinventory : K.computeInventory lower sha256 content = .ok inventory)
    {manifest : Manifest K.policy} (hcount : manifest.fileCount = inventory.fileCount)
    (htotal : manifest.totalBytes = inventory.totalBytes)
    (hdigest : manifest.contentSha256 = inventory.contentSha256) {requireReadOnly writable : Bool}
    (hwritable : (requireReadOnly && writable) = false) :
    validateDirectory R K lower sha256 requireReadOnly
      ⟨some (manifestEntry manifest), content, writable⟩ =
        .ok ⟨content, manifest.commit, inventory.files⟩ := by
  rw [validateDirectory, loadManifest_manifestEntry]
  refine bind_eq_ok.mpr ⟨manifest, rfl, bind_eq_ok.mpr ⟨inventory, hinventory, ?_⟩⟩
  have hfiles : ¬ manifest.toSnapshotManifest.fileCount ≠ inventory.fileCount :=
    not_not.mpr hcount
  have hbytes : ¬ manifest.toSnapshotManifest.totalBytes ≠ inventory.totalBytes :=
    not_not.mpr htotal
  have hsha : ¬ manifest.toSnapshotManifest.contentSha256 ≠ inventory.contentSha256 :=
    not_not.mpr hdigest
  rw [matchManifest, if_neg hfiles, if_neg hbytes, if_neg hsha, hwritable,
    if_neg Bool.false_ne_true]
  rfl

/-- What an export gives: the manifest has the arguments and the values of the inventory. -/
theorem buildManifest_eq_ok {archive : Tree} {commit tree commitTime : List Char} {now : Instant}
    {manifest : Manifest K.policy} {directory : Directory} :
    buildManifest R K lower sha256 archive commit tree commitTime now = .ok (manifest, directory) ↔
      ∃ content inventory time, K.filterExport lower archive = .ok content ∧
        K.computeInventory lower sha256 content = .ok inventory ∧
        readCommitTime commitTime = .ok time ∧
        manifest.toManifestData = ⟨commit, tree, time, now, inventory.fileCount,
          inventory.totalBytes, inventory.contentSha256⟩ ∧
        directory = ⟨some (manifestEntry manifest), content, true⟩ := by
  constructor
  · intro h
    obtain ⟨content, hcontent, h⟩ := bind_eq_ok.mp h
    obtain ⟨inventory, hinventory, h⟩ := bind_eq_ok.mp h
    obtain ⟨time, htime, h⟩ := bind_eq_ok.mp h
    refine ⟨content, inventory, time, hcontent, hinventory, htime, ?_⟩
    rw [checkData] at h
    split_ifs at h with hvalid
    obtain ⟨snapshot, -, h⟩ := bind_eq_ok.mp h
    cases h
    exact ⟨rfl, rfl⟩
  · rintro ⟨content, inventory, time, hcontent, hinventory, htime, hdata, rfl⟩
    obtain ⟨data, hvalid⟩ := manifest
    subst hdata
    have hchecked : validateDirectory R K lower sha256 false
        ⟨some (manifestEntry ⟨_, hvalid⟩), content, true⟩ = _ :=
      validateDirectory_manifestEntry R hinventory rfl rfl rfl (Bool.false_and true)
    refine bind_eq_ok.mpr ⟨content, hcontent, bind_eq_ok.mpr ⟨inventory, hinventory,
      bind_eq_ok.mpr ⟨time, htime, ?_⟩⟩⟩
    rw [checkData, dif_pos hvalid]
    exact bind_eq_ok.mpr ⟨_, hchecked, rfl⟩

/-- **Exports are valid.** An export fails only on the filter, the inventory, the time or a field of
the manifest, and never on the validation that ends it. The manifest file it writes is read back as
the manifest; and the directory is a valid snapshot of the given commit with the files of the
inventory, also if it is required to be read-only, once it is. -/
theorem buildManifest_spec (archive : Tree) (commit tree commitTime : List Char) (now : Instant) :
    ((∃ built, buildManifest R K lower sha256 archive commit tree commitTime now = .ok built) ↔
      ∃ content inventory time, K.filterExport lower archive = .ok content ∧
        K.computeInventory lower sha256 content = .ok inventory ∧
        readCommitTime commitTime = .ok time ∧
        ManifestData.Valid ⟨commit, tree, time, now, inventory.fileCount, inventory.totalBytes,
          inventory.contentSha256⟩ K.policy) ∧
    ∀ manifest directory,
      buildManifest R K lower sha256 archive commit tree commitTime now = .ok (manifest, directory) →
      loadManifest R K.policy directory.manifest = .ok manifest ∧ manifest.commit = commit ∧
      K.filterExport lower archive = .ok directory.content ∧
      ∃ inventory, K.computeInventory lower sha256 directory.content = .ok inventory ∧
        ∀ requireReadOnly writable, (requireReadOnly && writable) = false →
          validateDirectory R K lower sha256 requireReadOnly { directory with writable := writable } =
            .ok ⟨directory.content, commit, inventory.files⟩ := by
  constructor
  · constructor
    · rintro ⟨⟨manifest, directory⟩, h⟩
      obtain ⟨content, inventory, time, hcontent, hinventory, htime, hdata, -⟩ :=
        (buildManifest_eq_ok R).mp h
      refine ⟨content, inventory, time, hcontent, hinventory, htime, ?_⟩
      rw [← hdata]
      exact manifest.valid
    · rintro ⟨content, inventory, time, hcontent, hinventory, htime, hvalid⟩
      refine ⟨(⟨_, hvalid⟩, ⟨some (manifestEntry ⟨_, hvalid⟩), content, true⟩), ?_⟩
      apply (buildManifest_eq_ok R).mpr
      exact ⟨content, inventory, time, hcontent, hinventory, htime, rfl, rfl⟩
  · intro manifest directory h
    obtain ⟨content, inventory, time, hcontent, hinventory, htime, hdata, rfl⟩ :=
      (buildManifest_eq_ok R).mp h
    have hcommit : manifest.commit = commit := by rw [hdata]
    refine ⟨loadManifest_manifestEntry manifest, hcommit, hcontent, inventory, hinventory, ?_⟩
    intro requireReadOnly writable hwritable
    rw [← hcommit]
    exact validateDirectory_manifestEntry R hinventory (by rw [hdata]) (by rw [hdata])
      (by rw [hdata]) hwritable

end Build

/-! ## The engine's and the gateway's snapshots -/

/-- The errors of both loaders, which call a snapshot of the gateway by its name. -/
def loadMessage (name : String) : LoadError → String
  | .missing => "required snapshot file is missing: manifest.json"
  | .unsafeFile => "required snapshot file is unsafe: manifest.json"
  | .multiplyLinked => "required snapshot file is multiply linked: manifest.json"
  | .oversized => name ++ " manifest exceeds its size bound"
  | .invalid => name ++ " manifest is invalid"

/-- The engine's manifest model. -/
def enginePolicy : ManifestPolicy where
  repository := "alexscott2718-gif/jn-engine"
  ref := "refs/heads/master"
  includedRoots := ["AGENTS.md", "README.md", "Makefile", "src", "instrument", "tools", "docs", "web"]
  maxFiles := 20000
  maxBytes := 128000000
  message := loadMessage "snapshot"
  read := List.take (maxManifestBytes + 1)
  read_small := fun _ h => List.take_of_length_le (Nat.le_succ_of_le h)
  maxFiles_lt := by decide
  maxBytes_lt := by decide
  constants_short := by decide

/-- The gateway's manifest model. -/
def gatewayPolicy : ManifestPolicy where
  repository := "alexscott2718-gif/jn-engine-contributor-mcp"
  ref := "refs/heads/main"
  includedRoots := [".dockerignore", ".env.example", ".env.gateway-repo.example", ".github",
    ".gitignore", "CONTRIBUTING.md", "Dockerfile", "LICENSE", "README.md", "SECURITY.md", "app",
    "cloudflared", "deploy", "docker-compose.yml", "docker-compose.gateway-repo.yml", "docs",
    "pyproject.toml", "requirements.lock", "scripts", "tests"]
  maxFiles := 5000
  maxBytes := 64000000
  message := loadMessage "gateway snapshot"
  read := id
  read_small := fun _ _ => rfl
  maxFiles_lt := by decide
  maxBytes_lt := by decide
  constants_short := by decide

/-- The engine's snapshots. -/
def engineKind : SnapshotKind where
  policy := enginePolicy
  filterExport := RepositoryContent.filterExport
  computeInventory := RepositoryContent.computeContentInventory
  messages := RepositoryContent.manifestMessages

/-- The gateway's snapshots. -/
def gatewayKind : SnapshotKind where
  policy := gatewayPolicy
  filterExport := GatewayContent.filterExport
  computeInventory := GatewayContent.computeGatewayInventory
  messages := GatewayContent.manifestMessages

/-- A validated directory of the engine is a snapshot of `validate_snapshot` with its manifest. -/
theorem validateDirectory_engineKind {R : FieldReaders} {lower : List Char → List Char}
    {sha256 : List UInt8 → List Char} {requireReadOnly : Bool} {directory : Directory}
    {snapshot : Snapshot} :
    validateDirectory R engineKind lower sha256 requireReadOnly directory = .ok snapshot ↔
      ∃ manifest, loadManifest R enginePolicy directory.manifest = .ok manifest ∧
        RepositoryContent.validateSnapshot lower sha256 manifest.toSnapshotManifest requireReadOnly
          directory.writable directory.content = .ok snapshot :=
  bind_eq_ok

/-- A validated directory of the gateway is a snapshot of `validate_gateway_snapshot` with its
manifest. -/
theorem validateDirectory_gatewayKind {R : FieldReaders} {lower : List Char → List Char}
    {sha256 : List UInt8 → List Char} {requireReadOnly : Bool} {directory : Directory}
    {snapshot : Snapshot} :
    validateDirectory R gatewayKind lower sha256 requireReadOnly directory = .ok snapshot ↔
      ∃ manifest, loadManifest R gatewayPolicy directory.manifest = .ok manifest ∧
        GatewayContent.validateGatewaySnapshot lower sha256 manifest.toSnapshotManifest
          requireReadOnly directory.writable directory.content = .ok snapshot :=
  bind_eq_ok

/-! ## Readers -/

/-- Read the microseconds behind the seconds. -/
def readMicros : List Char → Option ℕ
  | '.' :: rest => (readDigits 6 rest).map Prod.fst
  | _ => some 0

/-- The instant of a count of microseconds. -/
def instantAt (micros : ℕ) : Option Instant :=
  if h : micros < maxMicros then some ⟨micros, h⟩ else none

/-- Read what `dumpTime` writes. -/
def readTime (text : List Char) : Option (Instant × Option ℤ) :=
  (fromisoformat (text.take 19 ++ ['+', '0', '0', ':', '0', '0'])).bind fun read =>
    (readMicros (text.drop 19)).bind fun micros =>
      (instantAt (read.1 * 1000000 + micros)).map fun t => (t, read.2)

/-- An instant is the one of its microseconds. -/
theorem instantAt_micros (t : Instant) : instantAt t.micros = some t := dif_pos t.inRange

/-- A dumped time is read back. -/
theorem readTime_dumpTime (t : Instant) : readTime (dumpTime t).toList = some (t, some 0) := by
  have hlength : (isoformatNaive t).length = 19 := by simp [isoformatNaive]
  have htake : (dumpTime t).toList.take 19 = isoformatNaive t := by
    rw [dumpTime, String.toList_ofList, List.append_assoc,
      List.take_append_of_le_length hlength.ge, List.take_of_length_le hlength.le]
  have hdrop : (dumpTime t).toList.drop 19 =
      (if t.micros % 1000000 = 0 then [] else '.' :: padded 6 (t.micros % 1000000)) ++ ['Z'] := by
    rw [dumpTime, String.toList_ofList, List.append_assoc,
      List.drop_append_of_le_length hlength.ge, List.drop_of_length_le hlength.le,
      List.nil_append]
  have hmicros : readMicros ((dumpTime t).toList.drop 19) = some (t.micros % 1000000) := by
    rw [hdrop]
    by_cases hzero : t.micros % 1000000 = 0
    · rw [if_pos hzero, hzero]
      rfl
    · have hlt : t.micros % 1000000 < 10 ^ 6 := by omega
      rw [if_neg hzero, List.cons_append, readMicros, readDigits_padded hlt, Option.map_some]
  have hseconds := fromisoformat_isoformat t
  rw [isoformat, ← htake] at hseconds
  have hsum : t.micros / 1000000 * 1000000 + t.micros % 1000000 = t.micros := by omega
  rw [readTime, hseconds, Option.bind_some, hmicros, Option.bind_some]
  dsimp only
  rw [hsum, instantAt_micros, Option.map_some]

/-- Read an integer. -/
def readInt : Json → Option ℤ
  | .int n => some n
  | _ => none

/-- An integer is read as itself. -/
theorem readInt_int (n : ℤ) : readInt (.int n) = some n := rfl

/-- Readers of fields that know the values that are dumped. -/
def isoReaders : FieldReaders where
  literalOne
    | .int n => n = 1
    | _ => false
  int := readInt
  datetime
    | .str s => readTime s.toList
    | _ => none
  literalOne_int := rfl
  int_int := readInt_int
  datetime_dumpTime := readTime_dumpTime

theorem maxMicros_pos : 0 < maxMicros := by decide

/-- A digest of zeros. -/
def zeroDigest (_ : List UInt8) : List Char := List.replicate 64 '0'

/-- The archive of both exporters is exported as a valid snapshot of the engine. -/
theorem buildManifest_spec_archive : ∃ manifest directory snapshot,
    buildManifest isoReaders engineKind (List.map Char.toLower) zeroDigest archiveDisk.toTree
      (List.replicate 40 'a') (List.replicate 40 'b') "2026-07-23T10:00:00+02:00".toList
      ⟨0, maxMicros_pos⟩ = .ok (manifest, directory) ∧
    loadManifest isoReaders enginePolicy directory.manifest = .ok manifest ∧
    validateDirectory isoReaders engineKind (List.map Char.toLower) zeroDigest true
      { directory with writable := false } = .ok snapshot ∧
    snapshot.commit = List.replicate 40 'a' := by
  obtain ⟨hbuilds, hbuilt⟩ := @buildManifest_spec isoReaders engineKind (List.map Char.toLower)
    zeroDigest archiveDisk.toTree (List.replicate 40 'a') (List.replicate 40 'b')
    "2026-07-23T10:00:00+02:00".toList ⟨0, maxMicros_pos⟩
  have hinventory : (engineKind.filterExport (List.map Char.toLower) archiveDisk.toTree >>=
      fun content => (engineKind.computeInventory (List.map Char.toLower) zeroDigest content).map
        fun inventory => decide (1 ≤ inventory.fileCount ∧ inventory.fileCount ≤ 20000) &&
          decide (1 ≤ inventory.totalBytes ∧ inventory.totalBytes ≤ 128000000) &&
            isSha256 inventory.contentSha256) = .ok true := by
    decide +kernel
  obtain ⟨content, hcontent, hinventory⟩ := bind_eq_ok.mp hinventory
  obtain ⟨inventory, hinventory, hvalid⟩ := map_eq_ok.mp hinventory
  rw [Bool.and_eq_true, Bool.and_eq_true, decide_eq_true_eq, decide_eq_true_eq] at hvalid
  obtain ⟨⟨hfiles, hbytes⟩, hdigest⟩ := hvalid
  have hcommit : isCommit (List.replicate 40 'a') = true := by decide
  have htree : isCommit (List.replicate 40 'b') = true := by decide
  have htime : (readCommitTime "2026-07-23T10:00:00+02:00".toList).isOk = true := by decide +kernel
  obtain ⟨time, htime⟩ := exists_of_isOk htime
  obtain ⟨⟨manifest, directory⟩, h⟩ := hbuilds.mpr ⟨content, inventory, time, hcontent, hinventory,
    htime, hcommit, htree, hfiles, hbytes, hdigest⟩
  obtain ⟨hload, -, -, inventory', -, hvalidated⟩ := hbuilt manifest directory h
  exact ⟨manifest, directory, _, h, hload, hvalidated true false rfl, rfl⟩

end ContributorGateway.ManifestFile
