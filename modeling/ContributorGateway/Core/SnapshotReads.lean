import ContributorGateway.Core.ContentIds
import ContributorGateway.Core.CorpusInventory

/-!
# Reads from a snapshot

Both services walk to an inventoried file again before they read it, and find it where the
scan did as long as the tree is the same.
-/

namespace ContributorGateway

open Node PurePosixPath

/-- Why a file is not found as it was inventoried. -/
inductive RevalidationError where
  | noParts
  | missing
  | symlink
  | notSingle
  | oversized
  | changed
  | notDirectory
  deriving DecidableEq

/-- A snapshot whose manifest was checked: the content tree, the commit and the files of the
inventory. -/
structure Snapshot where
  tree : Tree
  commit : List Char
  files : List CorpusFile

/-- A manifest as it is parsed. The fields that only its own validators read are left out. -/
structure SnapshotManifest where
  commit : List Char
  fileCount : ℕ
  totalBytes : ℕ
  contentSha256 : List Char
  isCommit : isCommit commit = true

/-- The messages of a validation that fails after the inventory. -/
structure ManifestMessages where
  fileCount : String
  totalBytes : String
  contentSha256 : String
  writable : String

/-- The checks of a manifest against an inventory; `writable` says whether a mode bit of a path
of the snapshot allows to write. -/
def matchManifest (messages : ManifestMessages) (manifest : SnapshotManifest)
    (requireReadOnly writable : Bool) (t : Tree) (inventory : Inventory) :
    Except String Snapshot :=
  if manifest.fileCount ≠ inventory.fileCount then .error messages.fileCount
  else if manifest.totalBytes ≠ inventory.totalBytes then .error messages.totalBytes
  else if manifest.contentSha256 ≠ inventory.contentSha256 then .error messages.contentSha256
  else if requireReadOnly && writable then .error messages.writable
  else .ok ⟨t, manifest.commit, inventory.files⟩

/-- `snapshot.file(relative_path)`; of equal paths the last one counts. -/
def Snapshot.file (snapshot : Snapshot) (path : List Char) : Option CorpusFile :=
  (snapshot.files.reverse.map fun item => (item.relativePath, item)).lookup path

/-- The checks of the last component of a path. -/
def Tree.checkFile (t : Tree) (sizeBytes inode : ℕ) : Except RevalidationError ℕ :=
  if t.links inode ≠ 1 then .error .notSingle
  else if (t.data inode).length > maxFileBytes then .error .oversized
  else if (t.data inode).length ≠ sizeBytes then .error .changed
  else .ok inode

/-- `_revalidate_file` from a directory on, and the inode that it leads to. The containment
check after the walk cannot fail: no component is a symlink. -/
def Tree.locate (t : Tree) (sizeBytes : ℕ) :
    List (List Char) → Entries → Except RevalidationError ℕ
  | [], _ => .error .noParts
  | name :: rest, entries =>
      match entries.lookup name with
      | none => .error .missing
      | some (.symlink _) => .error .symlink
      | some (.file inode) =>
          if rest.isEmpty then t.checkFile sizeBytes inode else .error .notDirectory
      | some .special => .error (if rest.isEmpty then .notSingle else .notDirectory)
      | some (.dir below) =>
          if rest.isEmpty then .error .notSingle else t.locate sizeBytes rest below

/-- `_revalidate_file` of an inventoried file. -/
def Snapshot.revalidate (snapshot : Snapshot) (item : CorpusFile) : Except RevalidationError ℕ :=
  snapshot.tree.locate item.sizeBytes (PurePosixPath.ofText item.relativePath).parts
    snapshot.tree.entries

variable {t : Tree} {parts : List (List Char)} {entries : Entries} {f f' : List (List Char) × ℕ}

/-- The walk to a file of the tree leads to its inode. -/
theorem locate_of_mem_filesIn (sizeBytes : ℕ) (hnamed : (Node.dir entries).WellNamed)
    (hf : f ∈ filesIn parts entries) : ∃ more, more ≠ [] ∧ f.1 = parts ++ more ∧
      t.locate sizeBytes more entries = t.checkFile sizeBytes f.2 := by
  have hnode : ∀ node : Node, ∀ entries parts, node = .dir entries → node.WellNamed →
      f ∈ filesIn parts entries → ∃ more, more ≠ [] ∧ f.1 = parts ++ more ∧
        t.locate sizeBytes more entries = t.checkFile sizeBytes f.2 := by
    intro node
    induction node using Node.induct with
    | dir entries ih =>
      rintro _ parts ⟨⟩ ⟨hnodup, hnamed⟩ hf
      obtain ⟨⟨name, node⟩, he, hf⟩ := mem_filesIn.mp hf
      have hlookup : entries.lookup name = some node := lookup_of_mem hnodup he
      have hbelow := (wellNamedEntries_iff.mp hnamed _ he).2
      cases node with
      | file inode =>
        obtain rfl := List.mem_singleton.mp hf
        exact ⟨[name], List.cons_ne_nil _ _, rfl, by rw [Tree.locate, hlookup]; rfl⟩
      | dir below =>
        obtain ⟨more, hmore, hparts, hlocate⟩ := ih _ he below _ rfl hbelow hf
        refine ⟨name :: more, List.cons_ne_nil _ _, ?_, ?_⟩
        · rw [hparts, List.append_assoc, List.singleton_append]
        · rw [Tree.locate, hlookup, ← hlocate]
          exact if_neg (by simpa using hmore)
      | _ => cases hf
    | _ => exact nofun
  exact hnode _ entries parts rfl hnamed hf

/-- The names that lead to a file of a tree. -/
theorem names_of_mem_filesIn (hnamed : (Node.dir entries).WellNamed)
    (hf : f ∈ filesIn [] entries) : f.1 ≠ [] ∧ ∀ part ∈ f.1, IsFileName part := by
  obtain ⟨e, he, hf⟩ := mem_filesIn.mp hf
  obtain ⟨hname, hbelow⟩ := wellNamedEntries_iff.mp hnamed.2 e he
  obtain ⟨more, hparts, hnames⟩ := names_of_mem_filesAt hbelow hf
  rw [hparts]
  exact ⟨List.cons_ne_nil _ _, List.forall_mem_cons.mpr ⟨hname, hnames⟩⟩

/-- One path leads to one inode. -/
theorem inode_unique (hnamed : (Node.dir t.entries).WellNamed) (hf : f ∈ filesIn [] t.entries)
    (hf' : f' ∈ filesIn [] t.entries) (h : relativePath f.1 = relativePath f'.1) : f = f' := by
  obtain ⟨hne, hnames⟩ := names_of_mem_filesIn hnamed hf
  obtain ⟨hne', hnames'⟩ := names_of_mem_filesIn hnamed hf'
  have hread := ofText_relativePath hne hnames
  rw [h, ofText_relativePath hne' hnames'] at hread
  have hparts : f.1 = f'.1 := (PurePosixPath.mk.inj hread).2.symm
  -- The walk reads the inode off the path alone.
  let single : Tree := ⟨t.entries, fun _ => 1, fun _ => []⟩
  obtain ⟨more, -, hmore, hlocate⟩ := locate_of_mem_filesIn (t := single) 0 hnamed hf
  obtain ⟨more', -, hmore', hlocate'⟩ := locate_of_mem_filesIn (t := single) 0 hnamed hf'
  obtain rfl : more = more' := by
    rw [← List.nil_append more, ← hmore, hparts, hmore', List.nil_append]
  exact Prod.ext hparts (Except.ok.inj (hlocate.symm.trans hlocate'))

/-! ## Inventoried files -/

/-- A snapshot that was validated on a tree that has not changed: the inventory has the files
of the tree, and the scan accepts each. -/
structure Snapshot.Validated (c : Corpus) (snapshot : Snapshot) : Prop where
  wellNamed : (Node.dir snapshot.tree.entries).WellNamed
  commit : isCommit snapshot.commit = true
  files : snapshot.files.Perm
    ((filesIn [] snapshot.tree.entries).map snapshot.tree.corpusFile)
  accepted : ∀ f ∈ filesIn [] snapshot.tree.entries, AcceptsFile c snapshot.tree f.1 f.2

variable {c : Corpus} {snapshot : Snapshot} {item : CorpusFile}

/-- A snapshot whose inventory matched its manifest is validated. -/
theorem validated_of_matchManifest {messages : ManifestMessages} {manifest : SnapshotManifest}
    {requireReadOnly writable : Bool} {disk : Disk} {inventory : Inventory}
    {sha256 : List UInt8 → List Char}
    (hinventory : computeInventory c disk.toTree sha256 = .ok inventory)
    (h : matchManifest messages manifest requireReadOnly writable disk.toTree inventory =
      .ok snapshot) :
    snapshot.Validated c ∧ snapshot.tree = disk.toTree ∧ snapshot.commit = manifest.commit ∧
      snapshot.files = inventory.files := by
  obtain ⟨-, haccepted, hfiles⟩ := computeInventory_eq_ok hinventory
  rw [matchManifest] at h
  split_ifs at h
  obtain rfl := Except.ok.inj h
  refine ⟨⟨disk.wellNamed, manifest.isCommit, hfiles, fun f hf => ?_⟩, rfl, rfl, rfl⟩
  obtain ⟨e, he, hf⟩ := mem_filesIn.mp hf
  exact (haccepted e he).acceptsFile f hf

/-- An inventoried file is a file of the tree. -/
theorem Snapshot.Validated.exists_file (h : snapshot.Validated c) (hitem : item ∈ snapshot.files) :
    ∃ f ∈ filesIn [] snapshot.tree.entries, snapshot.tree.corpusFile f = item :=
  List.mem_map.mp (h.files.mem_iff.mp hitem)

/-- An inventoried file is looked up by its path. -/
theorem Snapshot.Validated.file_eq (h : snapshot.Validated c) (hitem : item ∈ snapshot.files) :
    snapshot.file item.relativePath = some item := by
  have hmem : (item.relativePath, item) ∈
      snapshot.files.reverse.map fun item => (item.relativePath, item) :=
    List.mem_map.mpr ⟨item, List.mem_reverse.mpr hitem, rfl⟩
  rw [Snapshot.file]
  cases hlookup : (snapshot.files.reverse.map fun item => (item.relativePath, item)).lookup
      item.relativePath with
  | none =>
    have hnone := List.lookup_eq_none_iff.mp hlookup _ hmem
    rw [bne_self_eq_false] at hnone
    cases hnone
  | some item' =>
    obtain ⟨item'', hitem'', heq⟩ := List.mem_map.mp (mem_of_lookup hlookup)
    obtain ⟨hpath, rfl⟩ := Prod.mk.inj heq
    obtain ⟨f, hf, rfl⟩ := h.exists_file hitem
    obtain ⟨f', hf', rfl⟩ := h.exists_file (List.mem_reverse.mp hitem'')
    rw [inode_unique h.wellNamed hf' hf hpath]

/-- Inventoried files with one path are one. -/
theorem Snapshot.Validated.eq_of_path {item' : CorpusFile} (h : snapshot.Validated c)
    (hitem : item ∈ snapshot.files) (hitem' : item' ∈ snapshot.files)
    (hpath : item.relativePath = item'.relativePath) : item = item' := by
  have hfile := h.file_eq hitem
  rw [hpath, h.file_eq hitem'] at hfile
  exact (Option.some.inj hfile).symm

/-- An inventoried file is revalidated, and its inode is as the scan accepted it. -/
theorem Snapshot.Validated.exists_inode (h : snapshot.Validated c) (hitem : item ∈ snapshot.files) :
    ∃ inode, snapshot.revalidate item = .ok inode ∧ snapshot.tree.data inode = item.data ∧
      snapshot.tree.links inode = 1 ∧ item.data.length ≤ maxFileBytes ∧
      0 ∉ item.data.take binaryProbeBytes := by
  obtain ⟨f, hf, rfl⟩ := h.exists_file hitem
  obtain ⟨hne, hnames⟩ := names_of_mem_filesIn h.wellNamed hf
  obtain ⟨more, -, hmore, hlocate⟩ := locate_of_mem_filesIn
    (t := snapshot.tree) (snapshot.tree.data f.2).length h.wellNamed hf
  obtain rfl : f.1 = more := hmore
  obtain ⟨hsingle, -, hbounded, htext⟩ := h.accepted f hf
  refine ⟨f.2, ?_, rfl, hsingle, hbounded, htext⟩
  rw [Snapshot.revalidate, Tree.corpusFile, ofText_relativePath hne hnames]
  refine hlocate.trans ?_
  rw [Tree.checkFile, if_neg (not_not.mpr hsingle), if_neg (not_lt.mpr hbounded)]
  exact if_neg (not_not.mpr rfl)

/-- An inventoried file is revalidated, and its inode has its bytes. -/
theorem Snapshot.Validated.revalidate_eq (h : snapshot.Validated c)
    (hitem : item ∈ snapshot.files) :
    ∃ inode, snapshot.revalidate item = .ok inode ∧ snapshot.tree.data inode = item.data := by
  obtain ⟨inode, hrevalidate, hdata, -⟩ := h.exists_inode hitem
  exact ⟨inode, hrevalidate, hdata⟩

end ContributorGateway
