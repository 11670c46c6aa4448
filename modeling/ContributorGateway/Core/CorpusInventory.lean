import ContributorGateway.Core.CorpusDigest
import ContributorGateway.Foundation.Associations
import ContributorGateway.Foundation.FileTree
import Mathlib.Data.List.Sort

/-!
# Inventories of corpora

The scan of a content tree and the inventory computed from it, for any corpus. The scan
succeeds on the trees all of whose entries the corpus allows, and its files are those of the
tree.
-/

namespace ContributorGateway

open Node PurePosixPath

/-- `MAX_FILE_BYTES`. -/
def maxFileBytes : ℕ := 1000000

/-- `BINARY_PROBE_BYTES`. -/
def binaryProbeBytes : ℕ := 4096

/-- A directory on a disk, with the link counts and the bytes of its inodes. -/
structure Tree where
  entries : Entries
  links : ℕ → ℕ
  data : ℕ → List UInt8

/-- A tree as a disk holds it: proper names, none of them twice in a directory, and at least
as many links of an inode as there are entries with it. -/
structure Disk extends Tree where
  wellNamed : (Node.dir entries).WellNamed
  counted : ∀ inode, ((filesIn [] entries).map Prod.snd).count inode ≤ links inode

/-- `PurePosixPath(*parts).as_posix()` for names of files. -/
def relativePath (parts : List (List Char)) : List Char := (PurePosixPath.mk [] parts).asPosix

/-- The path of proper names is their text. -/
theorem relativePath_eq_intercalate {parts : List (List Char)} (hne : parts ≠ [])
    (hnames : ∀ part ∈ parts, IsFileName part) : relativePath parts = ['/'].intercalate parts :=
  asPosix_eq_intercalate rfl hne fun part hpart => (hnames part hpart).1

/-- The text of proper names is read as these names. -/
theorem ofText_relativePath {parts : List (List Char)} (hne : parts ≠ [])
    (hnames : ∀ part ∈ parts, IsFileName part) :
    PurePosixPath.ofText (relativePath parts) = ⟨[], parts⟩ := by
  rw [relativePath_eq_intercalate hne hnames]
  exact ofText_intercalate hne fun part hpart => (hnames part hpart).1

/-- The path below a directory starts with the directory and a slash. -/
theorem relativePath_append {parts rest : List (List Char)} (hne : parts ≠ []) (hrest : rest ≠ [])
    (hnames : ∀ part ∈ parts ++ rest, IsFileName part) :
    relativePath (parts ++ rest) = relativePath parts ++ '/' :: relativePath rest := by
  have hparts : ∀ part ∈ parts, IsFileName part := fun part hpart =>
    hnames part (List.mem_append_left _ hpart)
  have hafter : ∀ part ∈ rest, IsFileName part := fun part hpart =>
    hnames part (List.mem_append_right _ hpart)
  rw [relativePath_eq_intercalate (List.append_ne_nil_of_left_ne_nil hne _) hnames,
    relativePath_eq_intercalate hne hparts, relativePath_eq_intercalate hrest hafter,
    Words.intercalate_append '/' hne hrest]

/-- What the policies of the two snapshots have in common. A path that is admitted leads through
directories that the scan enters. -/
structure Corpus where
  /-- `APPROVED_ROOT_FILES`. -/
  rootFiles : List (List Char)
  /-- `APPROVED_ROOT_DIRECTORIES`. -/
  rootDirectories : List (List Char)
  /-- A name that the scan rejects wherever it stands. -/
  rejectsName : List Char → Bool
  /-- The directories that the scan rejects. -/
  excludedDirectories : List (List Char)
  /-- `is_admitted_…_path`, or `none` for an `IndexError`. -/
  admits : List Char → Option Bool
  /-- `MAX_SNAPSHOT_FILES`. -/
  maxFiles : ℕ
  /-- `MAX_SNAPSHOT_BYTES`. -/
  maxBytes : ℕ
  decides : ∀ {parts}, parts ≠ [] → (∀ part ∈ parts, IsFileName part) →
    admits (relativePath parts) ≠ none
  names_allowed : ∀ {parts}, (∀ part ∈ parts, IsFileName part) →
    admits (relativePath parts) = some true → ∀ part ∈ parts, rejectsName part = false
  root_approved : ∀ {root next rest}, (∀ part ∈ root :: next :: rest, IsFileName part) →
    admits (relativePath (root :: next :: rest)) = some true → root ∈ rootDirectories
  directory_allowed : ∀ {parts next rest}, parts ≠ [] →
    (∀ part ∈ parts ++ next :: rest, IsFileName part) →
    admits (relativePath (parts ++ next :: rest)) = some true →
    relativePath parts ∉ excludedDirectories
  rootDirectories_allowed : ∀ root ∈ rootDirectories,
    rejectsName root = false ∧ relativePath [root] ∉ excludedDirectories

/-- Why an inventory is refused. -/
inductive ScanError where
  | missingFile (label : List Char)
  | unsafeFile (label : List Char)
  | multiplyLinked (label : List Char)
  | missingDirectory (label : List Char)
  | notDirectory (label : List Char)
  | hidden
  | symlink
  | unapprovedRoot
  | excludedDirectory
  | special
  | hardLink
  | outsidePolicy
  | oversized
  | binary
  | noFiles
  | tooManyFiles
  | tooManyBytes
  | indexError
  deriving DecidableEq

/-- `ContentInventory` and `GatewayContentInventory`. -/
structure Inventory where
  files : List CorpusFile
  fileCount : ℕ
  totalBytes : ℕ
  contentSha256 : List Char
  deriving DecidableEq

/-- The file of a tree that certain names lead to. -/
def Tree.corpusFile (t : Tree) (f : List (List Char) × ℕ) : CorpusFile :=
  ⟨relativePath f.1, t.data f.2⟩

/-- Sorted by the bytes of a text. -/
def sortByBytes {α : Type} (text : α → List Char) (items : List α) : List α :=
  items.insertionSort fun a b => utf8Encode (text a) ≤ utf8Encode (text b)

theorem sortByBytes_perm {α : Type} (text : α → List Char) (items : List α) :
    (sortByBytes text items).Perm items :=
  List.perm_insertionSort _ _

/-! ## The source -/

section

variable (c : Corpus) (t : Tree)

/-- The branch of `_scan_directory` for a file. -/
def scanFile (parts : List (List Char)) (inode : ℕ) : Except ScanError (List CorpusFile) :=
  if t.links inode ≠ 1 then .error .hardLink
  else
    match c.admits (relativePath parts) with
    | none => .error .indexError
    | some false => .error .outsidePolicy
    | some true =>
        if (t.data inode).length > maxFileBytes then .error .oversized
        else if (t.data inode).take binaryProbeBytes |>.contains 0 then .error .binary
        else .ok [t.corpusFile (parts, inode)]

mutual
/-- The body of the loop of `_scan_directory`. -/
def scanNode (parts : List (List Char)) (name : List Char) (node : Node) :
    Except ScanError (List CorpusFile) :=
  if c.rejectsName name then .error .hidden
  else
    match node with
    | .symlink _ => .error .symlink
    | .special => .error .special
    | .file inode => scanFile c t (parts ++ [name]) inode
    | .dir entries =>
        if parts.isEmpty && !c.rootDirectories.contains name then .error .unapprovedRoot
        else if c.excludedDirectories.contains (relativePath (parts ++ [name])) then
          .error .excludedDirectory
        else
          ((sortByBytes Prod.fst (scanEntries (parts ++ [name]) entries)).mapM Prod.snd).map
            List.flatten

/-- The entries of a directory with what the loop does for each. -/
def scanEntries (parts : List (List Char)) :
    Entries → List (List Char × Except ScanError (List CorpusFile))
  | [] => []
  | (name, node) :: rest => (name, scanNode parts name node) :: scanEntries parts rest
end

/-- `_scan_directory`: the loop over the entries in the order of the bytes of their names. -/
def scanDirectory (parts : List (List Char)) (entries : Entries) :
    Except ScanError (List CorpusFile) :=
  ((sortByBytes Prod.fst (scanEntries c t parts entries)).mapM Prod.snd).map List.flatten

/-- `_require_real_regular_file`. -/
def requireFile (label : List Char) : Except ScanError Unit :=
  match t.entries.lookup label with
  | none => .error (.missingFile label)
  | some (.file inode) =>
      if t.links inode ≠ 1 then .error (.multiplyLinked label) else .ok ()
  | some _ => .error (.unsafeFile label)

/-- `_require_real_directory`. -/
def requireDirectory (label : List Char) : Except ScanError Unit :=
  match t.entries.lookup label with
  | none => .error (.missingDirectory label)
  | some (.dir _) => .ok ()
  | some _ => .error (.notDirectory label)

/-- `sorted` of texts. -/
def sortTexts (texts : List (List Char)) : List (List Char) := texts.insertionSort (· ≤ ·)

/-- `sum(item.size_bytes for item in files)`. -/
def totalBytes : List CorpusFile → ℕ
  | [] => 0
  | item :: rest => item.sizeBytes + totalBytes rest

/-- The bounds and the digest of an inventory, with SHA-256 as a parameter. -/
def summarize (sha256 : List UInt8 → List Char) (files : List CorpusFile) :
    Except ScanError Inventory :=
  if files.isEmpty then .error .noFiles
  else if files.length > c.maxFiles then .error .tooManyFiles
  else if totalBytes files > c.maxBytes then .error .tooManyBytes
  else .ok ⟨files, files.length, totalBytes files, sha256 (hashedBytes files)⟩

/-- `compute_content_inventory` and `compute_gateway_inventory`. -/
def computeInventory (sha256 : List UInt8 → List Char) : Except ScanError Inventory := do
  forM (sortTexts c.rootFiles) (requireFile t)
  forM (sortTexts c.rootDirectories) (requireDirectory t)
  let scanned ← scanDirectory c t [] t.entries
  summarize c sha256 (sortByBytes CorpusFile.relativePath scanned)

end

variable {c : Corpus} {t : Tree} {parts : List (List Char)} {name : List Char} {node : Node} {entries : Entries}
  {files : List CorpusFile}

/-! ## What the scan accepts -/

/-- A file that the scan accepts. -/
structure AcceptsFile (c : Corpus) (t : Tree) (parts : List (List Char)) (inode : ℕ) : Prop where
  single : t.links inode = 1
  admitted : c.admits (relativePath parts) = some true
  bounded : (t.data inode).length ≤ maxFileBytes
  text : 0 ∉ (t.data inode).take binaryProbeBytes

/-- An entry that the scan accepts, with everything below it. -/
inductive Accepts (c : Corpus) (t : Tree) : List (List Char) → List Char → Node → Prop
  | file {parts : List (List Char)} {name : List Char} {inode : ℕ}
      (hname : c.rejectsName name = false)
      (hfile : AcceptsFile c t (parts ++ [name]) inode) :
      Accepts c t parts name (.file inode)
  | dir {parts : List (List Char)} {name : List Char} {entries : Entries}
      (hname : c.rejectsName name = false)
      (hroot : parts = [] → name ∈ c.rootDirectories)
      (hexcluded : relativePath (parts ++ [name]) ∉ c.excludedDirectories)
      (hentries : ∀ e ∈ entries, Accepts c t (parts ++ [name]) e.1 e.2) :
      Accepts c t parts name (.dir entries)

/-- A file is scanned when it is accepted. -/
theorem scanFile_eq_ok {inode : ℕ} : scanFile c t parts inode = .ok files ↔
    AcceptsFile c t parts inode ∧ files = [t.corpusFile (parts, inode)] := by
  rw [scanFile]
  constructor
  · intro h
    by_cases hlinks : t.links inode = 1
    · rw [if_neg (not_not.mpr hlinks)] at h
      split at h
      · cases h
      · cases h
      · next hadmitted =>
        split_ifs at h with hsize hbinary
        refine ⟨⟨hlinks, hadmitted, not_lt.mp hsize, ?_⟩, (Except.ok.inj h).symm⟩
        simpa using hbinary
    · rw [if_pos hlinks] at h
      cases h
  · rintro ⟨⟨hsingle, hadmitted, hbounded, htext⟩, rfl⟩
    rw [if_neg (not_not.mpr hsingle), hadmitted]
    simp [not_lt.mpr hbounded, htext]

theorem scanEntries_eq_map : scanEntries c t parts entries =
    entries.map fun e => (e.1, scanNode c t parts e.1 e.2) := by
  induction entries with
  | nil => rfl
  | cons e entries ih => rw [scanEntries, ih, List.map_cons]

/-- The entries of a directory are scanned when each is. -/
theorem scanDirectory_eq_ok (h : scanDirectory c t parts entries = .ok files) :
    ∃ results, entries.mapM (fun e => scanNode c t parts e.1 e.2) = .ok results ∧
      results.flatten.Perm files := by
  obtain ⟨sorted, hsorted, rfl⟩ := map_eq_ok.mp h
  obtain ⟨results, hresults, hperm⟩ := mapM_eq_ok_of_perm (sortByBytes_perm _ _).symm hsorted
  rw [scanEntries_eq_map, List.mapM_map] at hresults
  exact ⟨results, hresults, hperm.flatten⟩

/-- A directory is scanned when every entry is. -/
theorem exists_scanDirectory_eq_ok
    (h : ∀ e ∈ entries, ∃ files, scanNode c t parts e.1 e.2 = .ok files) :
    ∃ files, scanDirectory c t parts entries = .ok files := by
  have hsorted : ∀ r ∈ sortByBytes Prod.fst (scanEntries c t parts entries),
      ∃ files, r.2 = .ok files := by
    intro r hr
    rw [(sortByBytes_perm _ _).mem_iff, scanEntries_eq_map] at hr
    obtain ⟨e, he, rfl⟩ := List.mem_map.mp hr
    exact h e he
  obtain ⟨results, hresults⟩ := exists_mapM_eq_ok hsorted
  exact ⟨results.flatten, map_eq_ok.mpr ⟨results, hresults, rfl⟩⟩

/-- The scan of a directory entry is that of its directory. -/
theorem scanNode_dir : scanNode c t parts name (.dir entries) =
    if c.rejectsName name then .error .hidden
    else if parts.isEmpty && !c.rootDirectories.contains name then .error .unapprovedRoot
    else if c.excludedDirectories.contains (relativePath (parts ++ [name])) then
      .error .excludedDirectory
    else scanDirectory c t (parts ++ [name]) entries := by
  rw [scanNode, scanDirectory]

/-- The scan of a directory accepts its entries if that of each entry does. -/
theorem accepts_of_scanDirectory
    (hnodes : ∀ e ∈ entries, ∀ {files}, scanNode c t parts e.1 e.2 = .ok files →
      Accepts c t parts e.1 e.2 ∧
        files.Perm ((e.2.filesAt (parts ++ [e.1])).map t.corpusFile))
    (h : scanDirectory c t parts entries = .ok files) :
    (∀ e ∈ entries, Accepts c t parts e.1 e.2) ∧
      files.Perm ((filesIn parts entries).map t.corpusFile) := by
  obtain ⟨results, hresults, hperm⟩ := scanDirectory_eq_ok h
  have hscanned := mapM_eq_ok.mp hresults
  have haccepted : (∀ e ∈ entries, Accepts c t parts e.1 e.2) ∧
      results.flatten.Perm ((filesIn parts entries).map t.corpusFile) := by
    clear hresults hperm h
    induction hscanned with
    | nil => exact ⟨List.forall_mem_nil _, List.Perm.refl _⟩
    | @cons e result entries results hresult hrest ih =>
      obtain ⟨hhead, hheadperm⟩ := hnodes e (List.mem_cons_self ..) hresult
      obtain ⟨htail, htailperm⟩ := ih fun e' he' => hnodes e' (List.mem_cons_of_mem e he')
      refine ⟨List.forall_mem_cons.mpr ⟨hhead, htail⟩, ?_⟩
      rw [List.flatten_cons, filesIn, List.map_append]
      exact hheadperm.append htailperm
  exact ⟨haccepted.1, hperm.symm.trans haccepted.2⟩

/-- What is scanned is accepted, and the scan gives its files. -/
theorem accepts_of_scanNode (h : scanNode c t parts name node = .ok files) :
    Accepts c t parts name node ∧
      files.Perm ((node.filesAt (parts ++ [name])).map t.corpusFile) := by
  induction node using Node.induct generalizing parts name files with
  | file inode =>
    rw [scanNode] at h
    split_ifs at h with hname
    obtain ⟨hfile, rfl⟩ := scanFile_eq_ok.mp h
    exact ⟨.file (Bool.not_eq_true _ ▸ hname) hfile, List.Perm.refl _⟩
  | symlink toDirectory =>
    rw [scanNode] at h
    split_ifs at h
  | special =>
    rw [scanNode] at h
    split_ifs at h
  | dir entries ih =>
    rw [scanNode_dir] at h
    split_ifs at h with hname hroot hexcluded
    obtain ⟨hentries, hperm⟩ := accepts_of_scanDirectory (fun e he _ => ih e he) h
    have hroot' : parts = [] → name ∈ c.rootDirectories := by
      rintro rfl
      simpa using hroot
    exact ⟨.dir (Bool.not_eq_true _ ▸ hname) hroot' (by simpa using hexcluded) hentries, hperm⟩

/-- Every file below an accepted entry is accepted. -/
theorem Accepts.acceptsFile (h : Accepts c t parts name node) :
    ∀ f ∈ node.filesAt (parts ++ [name]), AcceptsFile c t f.1 f.2 := by
  induction h with
  | file hname hfile =>
    intro f hf
    obtain rfl := List.mem_singleton.mp hf
    exact hfile
  | dir hname hroot hexcluded hentries ih =>
    intro f hf
    obtain ⟨e, he, hf⟩ := mem_filesIn.mp hf
    exact ih e he f hf

/-- What is accepted is scanned. -/
theorem Accepts.scanNode_eq_ok (h : Accepts c t parts name node) :
    ∃ files, scanNode c t parts name node = .ok files := by
  induction h with
  | file hname hfile =>
    rw [scanNode, hname]
    exact ⟨_, scanFile_eq_ok.mpr ⟨hfile, rfl⟩⟩
  | @dir parts name entries hname hroot hexcluded hentries ih =>
    have happroved : (parts.isEmpty && !c.rootDirectories.contains name) = false := by
      cases parts with
      | nil => simpa using hroot rfl
      | cons part parts => rfl
    have hentered : c.excludedDirectories.contains (relativePath (parts ++ [name])) = false := by
      simpa using hexcluded
    rw [scanNode_dir, hname, happroved, hentered]
    exact exists_scanDirectory_eq_ok ih

/-- The scan of a whole tree. -/
theorem scanDirectory_root_eq_ok (h : scanDirectory c t [] t.entries = .ok files) :
    (∀ e ∈ t.entries, Accepts c t [] e.1 e.2) ∧
      files.Perm ((filesIn [] t.entries).map t.corpusFile) :=
  accepts_of_scanDirectory (fun _ _ _ => accepts_of_scanNode) h

/-! ## Inventories -/

/-- The files and directories of the root that the inventory requires. -/
structure HasRequired (c : Corpus) (t : Tree) : Prop where
  files : ∀ label ∈ c.rootFiles, ∃ inode, t.entries.lookup label = some (.file inode) ∧
    t.links inode = 1
  directories : ∀ label ∈ c.rootDirectories, ∃ entries, t.entries.lookup label = some (.dir entries)

theorem requireFile_eq_ok {label : List Char} : requireFile t label = .ok () ↔
    ∃ inode, t.entries.lookup label = some (.file inode) ∧ t.links inode = 1 := by
  rw [requireFile]
  constructor
  · intro h
    split at h
    · cases h
    · next inode hlookup =>
      split_ifs at h with hlinks
      exact ⟨inode, hlookup, not_not.mp hlinks⟩
    · cases h
  · rintro ⟨inode, hlookup, hlinks⟩
    rw [hlookup]
    exact if_neg (not_not.mpr hlinks)

theorem requireDirectory_eq_ok {label : List Char} : requireDirectory t label = .ok () ↔
    ∃ entries, t.entries.lookup label = some (.dir entries) := by
  rw [requireDirectory]
  constructor
  · intro h
    split at h
    · cases h
    · next entries hlookup => exact ⟨entries, hlookup⟩
    · cases h
  · rintro ⟨entries, hlookup⟩
    rw [hlookup]

/-- The required files and directories are there exactly when both loops succeed. -/
theorem hasRequired_iff : HasRequired c t ↔
    forM (sortTexts c.rootFiles) (requireFile t) = .ok () ∧
      forM (sortTexts c.rootDirectories) (requireDirectory t) = .ok () := by
  have hsorted (texts : List (List Char)) : ∀ text, text ∈ sortTexts texts ↔ text ∈ texts :=
    fun text => (List.perm_insertionSort _ _).mem_iff
  simp only [forM_eq_ok, hsorted, requireFile_eq_ok, requireDirectory_eq_ok]
  exact ⟨fun h => ⟨h.files, h.directories⟩, fun h => ⟨h.1, h.2⟩⟩

variable {sha256 : List UInt8 → List Char} {inventory : Inventory}

/-- A computed inventory has the files of a tree that is accepted. -/
theorem computeInventory_eq_ok (h : computeInventory c t sha256 = .ok inventory) :
    HasRequired c t ∧ (∀ e ∈ t.entries, Accepts c t [] e.1 e.2) ∧
      inventory.files.Perm ((filesIn [] t.entries).map t.corpusFile) := by
  obtain ⟨⟨⟩, hfiles, h⟩ := bind_eq_ok.mp h
  obtain ⟨⟨⟩, hdirectories, h⟩ := bind_eq_ok.mp h
  obtain ⟨scanned, hscanned, h⟩ := bind_eq_ok.mp h
  obtain ⟨haccepted, hperm⟩ := scanDirectory_root_eq_ok hscanned
  refine ⟨hasRequired_iff.mpr ⟨hfiles, hdirectories⟩, haccepted, ?_⟩
  rw [summarize] at h
  split_ifs at h
  obtain rfl := Except.ok.inj h
  exact (sortByBytes_perm _ _).trans hperm

/-- The order of the files does not matter to their size. -/
theorem totalBytes_eq_of_perm {files files' : List CorpusFile} (h : files.Perm files') :
    totalBytes files = totalBytes files' := by
  induction h with
  | nil => rfl
  | cons item _ ih => rw [totalBytes, totalBytes, ih]
  | swap item item' rest =>
    simp only [totalBytes]
    omega
  | trans _ _ ih ih' => exact ih.trans ih'

/-- The inventory of a tree with the required files fails at most on a bound if every entry is
accepted. -/
theorem computeInventory_of_accepts (sha256 : List UInt8 → List Char)
    (hrequired : HasRequired c t) (hfile : c.rootFiles ≠ [])
    (haccepted : ∀ e ∈ t.entries, Accepts c t [] e.1 e.2) :
    (∃ inventory, computeInventory c t sha256 = .ok inventory) ∨
      (computeInventory c t sha256 = .error .tooManyFiles ∧
        ((filesIn [] t.entries).map t.corpusFile).length > c.maxFiles) ∨
      (computeInventory c t sha256 = .error .tooManyBytes ∧
        totalBytes ((filesIn [] t.entries).map t.corpusFile) > c.maxBytes) := by
  obtain ⟨hfiles, hdirectories⟩ := hasRequired_iff.mp hrequired
  obtain ⟨scanned, hscanned⟩ := exists_scanDirectory_eq_ok fun e he =>
    (haccepted e he).scanNode_eq_ok
  have hperm := (sortByBytes_perm CorpusFile.relativePath scanned).trans
    (scanDirectory_root_eq_ok hscanned).2
  have hlength := hperm.length_eq
  have hbytes := totalBytes_eq_of_perm hperm
  have hsome : (sortByBytes CorpusFile.relativePath scanned).isEmpty = false := by
    obtain ⟨label, hlabel⟩ := List.exists_mem_of_ne_nil _ hfile
    obtain ⟨inode, hlookup, -⟩ := hrequired.files label hlabel
    have hentry := mem_of_lookup hlookup
    have hmem : ([label], inode) ∈ filesIn [] t.entries :=
      mem_filesIn.mpr ⟨(label, .file inode), hentry, List.mem_singleton.mpr rfl⟩
    rw [List.isEmpty_eq_false_iff, ← List.length_pos_iff, hlength, List.length_map]
    exact List.length_pos_of_mem hmem
  have hcompute : computeInventory c t sha256 =
      summarize c sha256 (sortByBytes CorpusFile.relativePath scanned) := by
    rw [computeInventory, hfiles, hdirectories, hscanned]
    rfl
  rw [hcompute, summarize, hsome, hlength, hbytes, if_neg Bool.false_ne_true]
  split_ifs with hcount hsum
  · exact Or.inr (Or.inl ⟨rfl, hcount⟩)
  · exact Or.inr (Or.inr ⟨rfl, hsum⟩)
  · exact Or.inl ⟨_, rfl⟩

end ContributorGateway
