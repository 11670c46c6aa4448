import ContributorGateway.Core.CorpusExport
import ContributorGateway.Core.RepositorySnapshot
import ContributorGateway.GatewayRepo.GatewaySnapshot

/-!
# Exporters

`_filter_export` of both exporters, and that what they leave is what the inventories accept.
-/

namespace ContributorGateway

open Node

/-- The message of an error of an export. -/
def exportMessage : ExportError → String
  | .symlink => "Git archive contains a symlink"
  | .special => "Git archive contains a special file"
  | .hardLink => "Git archive contains a hard link"
  | .oversized => "admitted Git file exceeds the size bound"
  | .binary => "admitted Git file is binary"
  | .missingRootFile label => "archive is missing required root file " ++ String.ofList label
  | .missingRootDirectory label =>
      "archive is missing required root directory " ++ String.ofList label
  | .indexError => "IndexError"

/-! ## The engine's exporter -/

namespace RepositoryContent

/-- The checks of `_reject_unsafe_archive_entries` on an entry. -/
def rejectUnsafeEntry (links : ℕ → ℕ) : Node → Except ExportError Unit
  | .symlink _ => .error .symlink
  | .special => .error .special
  | .file inode => if links inode ≠ 1 then .error .hardLink else .ok ()
  | .dir _ => .ok ()

mutual
/-- `os.walk` from the top down with the checks of every listed entry. -/
def rejectUnsafeBelow (links : ℕ → ℕ) : Node → Except ExportError Unit
  | .dir entries => do
      forM (listed entries) fun e => rejectUnsafeEntry links e.2
      rejectUnsafeIn links entries
  | _ => .ok ()

/-- The walk goes on in every directory. -/
def rejectUnsafeIn (links : ℕ → ℕ) : Entries → Except ExportError Unit
  | [] => .ok ()
  | (_, node) :: rest => do
      rejectUnsafeBelow links node
      rejectUnsafeIn links rest
end

/-- `_reject_unsafe_archive_entries`. -/
def rejectUnsafeArchiveEntries (t : Tree) : Except ExportError Unit :=
  rejectUnsafeBelow t.links (.dir t.entries)

/-- The engine's exporter inspects the size and the bytes of a file. -/
def inspect (data : ℕ → List UInt8) (_ : ℕ → ℕ) (inode : ℕ) : Except ExportError Unit :=
  inspectData (data inode)

/-- `_filter_export` of the engine's exporter. -/
def filterExport (lower : List Char → List Char) (t : Tree) : Except String Tree :=
  (do
    rejectUnsafeArchiveEntries t
    filterTree (repositoryCorpus lower) (fun _ => .ok ()) (inspect t.data) t).mapError
      exportMessage

end RepositoryContent

/-! ## The gateway's exporter -/

namespace GatewayContent

/-- The gateway's exporter inspects the link count of a file, its size and its bytes. -/
def inspect (data : ℕ → List UInt8) (links : ℕ → ℕ) (inode : ℕ) : Except ExportError Unit :=
  if links inode ≠ 1 then .error .hardLink else inspectData (data inode)

/-- `_filter_export` of the gateway's exporter. -/
def filterExport (lower : List Char → List Char) (t : Tree) : Except String Tree :=
  (filterTree (gatewayCorpus lower) checkKind (inspect t.data) t).mapError exportMessage

end GatewayContent

/-! ## Ordinary trees -/

variable {entries : Entries} {t t' : Tree} {lower : List Char → List Char}

theorem mem_listed {e : List Char × Node} : e ∈ listed entries ↔ e ∈ entries := by
  rw [listed, List.mem_append, List.mem_filter, List.mem_filter]
  cases isListedDirectory e.2 <;> simp

/-- The walk from the top down rejects symlinks, special files and hard links. -/
theorem ordinary_of_rejectUnsafeBelow {links : ℕ → ℕ} {node : Node}
    (hentry : RepositoryContent.rejectUnsafeEntry links node = .ok ())
    (h : RepositoryContent.rejectUnsafeBelow links node = .ok ()) (parts : List (List Char)) :
    node.Ordinary ∧ ∀ f ∈ node.filesAt parts, links f.2 = 1 := by
  induction node using Node.induct generalizing parts with
  | file inode =>
    refine ⟨trivial, fun f hf => ?_⟩
    obtain rfl := List.mem_singleton.mp hf
    rw [RepositoryContent.rejectUnsafeEntry] at hentry
    split_ifs at hentry with hlinks
    exact not_not.mp hlinks
  | symlink toDirectory => cases hentry
  | special => cases hentry
  | dir entries ih =>
    obtain ⟨⟨⟩, hlisted, hbelow⟩ := bind_eq_ok.mp h
    have hentries : ∀ e ∈ entries, RepositoryContent.rejectUnsafeEntry links e.2 = .ok () :=
      fun e he => forM_eq_ok.mp hlisted e (mem_listed.mpr he)
    have hbelow : ∀ e ∈ entries, RepositoryContent.rejectUnsafeBelow links e.2 = .ok () := by
      clear ih h hlisted hentries hentry
      induction entries with
      | nil => exact List.forall_mem_nil _
      | cons e entries ihentries =>
        obtain ⟨⟨⟩, hhead, htail⟩ := bind_eq_ok.mp hbelow
        exact List.forall_mem_cons.mpr ⟨hhead, ihentries htail⟩
    refine ⟨ordinaryEntries_iff.mpr fun e he => ?_, fun f hf => ?_⟩
    · exact (ih e he (hentries e he) (hbelow e he) []).1
    · obtain ⟨e, he, hf⟩ := mem_filesIn.mp hf
      exact (ih e he (hentries e he) (hbelow e he) _).2 f hf

/-- The gateway's walk rejects symlinks and special files. -/
theorem ordinary_of_walk {c : Corpus} {inspect : (ℕ → ℕ) → ℕ → Except ExportError Unit}
    {links links' : ℕ → ℕ} {entries' : Entries}
    (h : walkBottomUp (visitDirectory c checkKind inspect) links entries = .ok (links', entries')) :
    OrdinaryEntries entries := by
  have hrule : WalkRule (visitDirectory c checkKind inspect)
      (fun _ _ entries _ entries' => ∀ e ∈ entries, e.2.Ordinary ∨
        (∀ es, e.2 ≠ .dir es) ∧ e ∈ entries')
      (fun _ _ entries _ _ => OrdinaryEntries entries) := by
    refine ⟨fun _ _ => List.forall_mem_nil _, ?_, ?_, ?_⟩
    · intro parts links rest links' rest' name node hnode hwalked
      refine List.forall_mem_cons.mpr ⟨Or.inr ⟨hnode, List.mem_cons_self ..⟩, fun e he => ?_⟩
      exact (hwalked e he).imp_right fun h => ⟨h.1, List.mem_cons_of_mem _ h.2⟩
    · intro parts links links₁ links' name es es' rest rest' hvisited hwalked
      refine List.forall_mem_cons.mpr ⟨Or.inl hvisited, fun e he => ?_⟩
      exact (hwalked e he).imp_right fun h => ⟨h.1, List.mem_cons_of_mem _ h.2⟩
    · intro parts links entries links₁ entries₁ links' entries' hwalked hvisit
      obtain ⟨⟨⟩, hlisted, -⟩ := bind_eq_ok.mp hvisit
      refine ordinaryEntries_iff.mpr fun e he => ?_
      rcases hwalked e he with hordinary | ⟨hnode, hsame⟩
      · exact hordinary
      · have hkind := forM_eq_ok.mp hlisted e (mem_listed.mpr hsame)
        obtain ⟨name, node⟩ := e
        cases node with
        | file inode => trivial
        | dir es => exact absurd rfl (hnode es)
        | _ => cases hkind
  exact hrule.bottomUp h

/-! ## Exported trees -/

theorem ensures_inspect_repository (data : ℕ → List UInt8) :
    Ensures (RepositoryContent.inspect data) fun _ inode => inspectData (data inode) = .ok () :=
  ⟨id, fun _ h => h⟩

theorem ensures_inspect_gateway (data : ℕ → List UInt8) :
    Ensures (GatewayContent.inspect data) fun links inode =>
      links inode ≤ 1 ∧ inspectData (data inode) = .ok () := by
  refine ⟨fun {links inode} h => ?_, fun hle h => ⟨(hle _).trans h.1, h.2⟩⟩
  rw [GatewayContent.inspect] at h
  split_ifs at h with hlinks
  exact ⟨(not_not.mp hlinks).le, h⟩

/-- The engine's exporter leaves what the engine's scan accepts. -/
theorem RepositoryContent.exported {disk : Disk}
    (h : RepositoryContent.filterExport lower disk.toTree = .ok t') :
    Exported (repositoryCorpus lower) disk.toTree t' := by
  obtain ⟨⟨⟩, hreject, hfilter⟩ := bind_eq_ok.mp (mapError_eq_ok.mp h)
  obtain ⟨hordinary, hlinks⟩ := ordinary_of_rejectUnsafeBelow rfl hreject []
  refine exported_of_filterTree (ensures_inspect_repository _) hordinary id ?_ hfilter
  intro links f hf hle _
  exact (hle f.2).trans (hlinks f hf).le

/-- The gateway's exporter leaves what the gateway's scan accepts. -/
theorem GatewayContent.exported {disk : Disk}
    (h : GatewayContent.filterExport lower disk.toTree = .ok t') :
    Exported (gatewayCorpus lower) disk.toTree t' := by
  have hfilter := mapError_eq_ok.mp h
  have hordinary : OrdinaryEntries disk.entries := by
    obtain ⟨walked, hwalk, -⟩ := bind_eq_ok.mp hfilter
    exact ordinary_of_walk hwalk
  exact exported_of_filterTree (ensures_inspect_gateway _) hordinary And.right
    (fun _ _ h => h.1) hfilter

/-- An inventory has exactly the admitted files of a tree, or failed on a bound. -/
def HasAdmitted (admits : List Char → Option Bool) (maxFiles maxBytes : ℕ)
    (fileBound byteBound : String) (t : Tree) (result : Except String Inventory) : Prop :=
  (∃ inventory, result = .ok inventory ∧ inventory.files.Perm (t.admittedFiles admits)) ∨
    (result = .error fileBound ∧ (t.admittedFiles admits).length > maxFiles) ∨
    (result = .error byteBound ∧
      totalBytes (t.admittedFiles admits) > maxBytes)

/-- The messages of an inventory that fails at most on a bound. -/
theorem Exported.hasAdmitted {c : Corpus} {sha256 : List UInt8 → List Char}
    (h : Exported c t t') (hfile : c.rootFiles ≠ []) (message : ScanError → String) :
    HasAdmitted c.admits c.maxFiles c.maxBytes (message .tooManyFiles) (message .tooManyBytes) t
      ((computeInventory c t' sha256).mapError message) := by
  rcases h.inventory hfile with ⟨inventory, hinventory, hperm⟩ | ⟨herror, hbound⟩ | ⟨herror, hbound⟩
  · rw [hinventory]
    exact Or.inl ⟨inventory, rfl, hperm⟩
  · rw [herror]
    exact Or.inr (Or.inl ⟨rfl, hbound⟩)
  · rw [herror]
    exact Or.inr (Or.inr ⟨rfl, hbound⟩)

/-- Exporter and inventory implement one policy, in both repositories: the inventory of what an
exporter leaves has exactly the admitted files of the original tree with their bytes, and fails
at most on a bound. -/
theorem export_keeps_admitted (lower : List Char → List Char) (sha256 : List UInt8 → List Char)
    (disk : Disk) :
    (∀ t', RepositoryContent.filterExport lower disk.toTree = .ok t' →
      HasAdmitted (RepositoryContent.isAdmittedRepositoryPath lower) 20000 128000000
        "snapshot exceeds the file-count bound" "snapshot exceeds the total-byte bound"
        disk.toTree (RepositoryContent.computeContentInventory lower sha256 t')) ∧
    ∀ t', GatewayContent.filterExport lower disk.toTree = .ok t' →
      HasAdmitted (GatewayContent.isAdmittedGatewayPath lower) 5000 64000000
        "gateway snapshot file-count is outside bounds"
        "gateway snapshot exceeds the total-byte bound"
        disk.toTree (GatewayContent.computeGatewayInventory lower sha256 t') := by
  constructor
  · intro t' h
    exact (RepositoryContent.exported h).hasAdmitted (List.cons_ne_nil _ _) _
  · intro t' h
    exact (GatewayContent.exported h).hasAdmitted (List.cons_ne_nil _ _) _

/-- An archive with what both exporters require, a binary file, vendored code and a hidden
directory. -/
def archive : Entries :=
  ((RepositoryContent.approvedRootFiles ++
      GatewayContent.approvedRootFiles.erase "README.md".toList).zipIdx.map fun f =>
        (f.1, .file f.2)) ++
    (["src", "instrument", "tools", ".github", "app", "cloudflared", "deploy", "scripts",
        "tests"].map fun name => (name.toList, .dir [])) ++
    [("docs".toList, .dir [("notes.md".toList, .file 20), ("notes.pdf".toList, .file 21)]),
      (".git".toList, .dir [("HEAD".toList, .file 22)]),
      ("web".toList, .dir [("grn-catalog".toList, .dir [("vendor".toList,
        .dir [("three.js".toList, .file 23)])])])]

theorem wellNamed_archive : (Node.dir archive).WellNamed := by
  simp [archive, Node.WellNamed, Node.WellNamedEntries, IsFileName, PurePosixPath.IsName,
    PurePosixPath.isDropped, nul, RepositoryContent.approvedRootFiles,
    GatewayContent.approvedRootFiles]

theorem counted_archive (inode : ℕ) : ((filesIn [] archive).map Prod.snd).count inode ≤ 1 :=
  List.nodup_iff_count_le_one.mp (by decide +kernel) inode

/-- The archive on a disk, with a NUL in the binary file. -/
def archiveDisk : Disk where
  entries := archive
  links _ := 1
  data inode := if inode = 21 then [0] else [10]
  wellNamed := wellNamed_archive
  counted := counted_archive

/-- Both exporters accept the archive, and what they leave has its admitted files. -/
theorem archive_keeps_admitted :
    (∃ t', RepositoryContent.filterExport (List.map Char.toLower) archiveDisk.toTree = .ok t' ∧
      HasAdmitted (RepositoryContent.isAdmittedRepositoryPath (List.map Char.toLower)) 20000
        128000000 "snapshot exceeds the file-count bound" "snapshot exceeds the total-byte bound"
        archiveDisk.toTree
        (RepositoryContent.computeContentInventory (List.map Char.toLower) (fun _ => []) t')) ∧
    ∃ t', GatewayContent.filterExport (List.map Char.toLower) archiveDisk.toTree = .ok t' ∧
      HasAdmitted (GatewayContent.isAdmittedGatewayPath (List.map Char.toLower)) 5000 64000000
        "gateway snapshot file-count is outside bounds"
        "gateway snapshot exceeds the total-byte bound" archiveDisk.toTree
        (GatewayContent.computeGatewayInventory (List.map Char.toLower) (fun _ => []) t') := by
  obtain ⟨hengine, hgateway⟩ :=
    export_keeps_admitted (List.map Char.toLower) (fun _ => []) archiveDisk
  constructor
  · have hok : (RepositoryContent.filterExport (List.map Char.toLower) archiveDisk.toTree).isOk =
        true := by decide +kernel
    obtain ⟨t', h⟩ := exists_of_isOk hok
    exact ⟨t', h, hengine t' h⟩
  · have hok : (GatewayContent.filterExport (List.map Char.toLower) archiveDisk.toTree).isOk =
        true := by decide +kernel
    obtain ⟨t', h⟩ := exists_of_isOk hok
    exact ⟨t', h, hgateway t' h⟩

end ContributorGateway
