import ContributorGateway.Core.ContextAssembly
import ContributorGateway.Deploy.ManifestFile
import ContributorGateway.Deploy.SnapshotRefresh

/-!
# Served snapshots

The validator of a snapshot directory and the start of the service over it. What the refreshes select
and mount is always a directory from which the service starts, with the commit that names it.
-/

namespace ContributorGateway.ServedSnapshot

open ManifestFile SnapshotRetention SnapshotRefresh
open CommittedTasks ContributorGateway.ProjectContext ContextAssembly

/-- What Python's library tells of characters, the order of its sets, SHA-256 and the readers of the
manifest's fields. -/
structure Platform where
  tables : CharacterTables
  isWord : Char → Bool
  order : SetOrder
  sha256 : List UInt8 → List Char
  readers : FieldReaders

variable (p : Platform)

/-- `DataPlane`. The files are classified when they are searched. -/
structure DataPlane where
  snapshot : Snapshot
  tasks : TaskIndex p.tables snapshot.commit
  symbols : Symbols.SymbolIndex
  projects : Assembler

/-- Why the service does not start. -/
inductive StartError where
  /-- A `SnapshotError`. -/
  | snapshot (message : String)
  | source (error : SourceError)
  /-- A `ProjectContextRequestError`. -/
  | request (message : String)

/-- The indexes over a snapshot. -/
def buildIndexes (snapshot : Snapshot) : Except SourceError (DataPlane p) := do
  let tasks ← taskIndex p.tables snapshot
  let symbols ← Symbols.symbolSources p.tables snapshot >>= fun sources => sources.index snapshot
  let projects ← assemble p.tables p.isWord p.order snapshot tasks
  .ok ⟨snapshot, tasks, symbols, projects⟩

/-- `build_data_plane` over a mounted directory. -/
def buildDataPlane (directory : Directory) : Except StartError (DataPlane p) := do
  let snapshot ← (validateDirectory p.readers engineKind p.tables.lower p.sha256 true
    directory).mapError .snapshot
  (buildIndexes p snapshot).mapError .source

/-- `DEFAULT_CONTEXT_CHARS`. -/
def defaultContextChars : ℤ := 12000

/-- `validate_and_build`, up to its report. -/
def validateAndBuild (requireReadOnly : Bool) (directory : Directory) :
    Except StartError (DataPlane p × ProjectContext) := do
  let snapshot ← (validateDirectory p.readers engineKind p.tables.lower p.sha256 requireReadOnly
    directory).mapError .snapshot
  let plane ← (buildIndexes p snapshot).mapError .source
  let context ← (plane.projects.build defaultContextChars).mapError .request
  .ok (plane, context)

/-- The commit in the manifest of a directory. -/
def manifestCommit (directory : Directory) : Option (List Char) :=
  (loadManifest p.readers enginePolicy directory.manifest).toOption.map fun manifest =>
    manifest.commit

/-- The tools of the engine's refreshes. -/
def tools : Tools Directory where
  accepts requireReadOnly directory := (validateAndBuild p requireReadOnly directory).isOk
  commitOf := manifestCommit p

@[simp] theorem tools_accepts (requireReadOnly : Bool) (directory : Directory) :
    (tools p).accepts requireReadOnly directory =
      (validateAndBuild p requireReadOnly directory).isOk :=
  rfl

@[simp] theorem tools_commitOf (directory : Directory) :
    (tools p).commitOf directory = manifestCommit p directory :=
  rfl

variable {p} {directory : Directory} {requireReadOnly : Bool} {history : List Event}
  {s : State Directory}

/-- What the validator accepts is a valid snapshot over which the indexes are built. -/
theorem validateAndBuild_isOk (h : (validateAndBuild p requireReadOnly directory).isOk = true) :
    ∃ snapshot plane, validateDirectory p.readers engineKind p.tables.lower p.sha256 requireReadOnly
        directory = .ok snapshot ∧ buildIndexes p snapshot = .ok plane := by
  obtain ⟨built, h⟩ := exists_of_isOk h
  obtain ⟨snapshot, hsnapshot, h⟩ := bind_eq_ok.mp h
  obtain ⟨plane, hplane, -⟩ := bind_eq_ok.mp h
  exact ⟨snapshot, plane, mapError_eq_ok.mp hsnapshot, mapError_eq_ok.mp hplane⟩

/-- The briefing that ends a validation never fails. -/
theorem validateAndBuild_of_buildIndexes {snapshot : Snapshot} {plane : DataPlane p}
    (hsnapshot : validateDirectory p.readers engineKind p.tables.lower p.sha256 requireReadOnly
      directory = .ok snapshot) (hplane : buildIndexes p snapshot = .ok plane) :
    (validateAndBuild p requireReadOnly directory).isOk = true := by
  have hbounds : 1000 ≤ defaultContextChars ∧ defaultContextChars ≤ 20000 := by decide
  rw [validateAndBuild, hsnapshot]
  simp only [Except.mapError, bind, Except.bind, hplane, Assembler.build, hbounds, and_self,
    not_true_eq_false, if_false]
  rfl

/-- The indexes keep their snapshot. -/
theorem snapshot_of_buildIndexes {snapshot : Snapshot} {plane : DataPlane p}
    (h : buildIndexes p snapshot = .ok plane) : plane.snapshot = snapshot := by
  obtain ⟨tasks, -, h⟩ := bind_eq_ok.mp h
  obtain ⟨symbols, -, h⟩ := bind_eq_ok.mp h
  obtain ⟨projects, -, h⟩ := bind_eq_ok.mp h
  cases h
  rfl

/-- A valid directory is a snapshot of the commit in its manifest. -/
theorem commit_of_validateDirectory {snapshot : Snapshot}
    (h : validateDirectory p.readers engineKind p.tables.lower p.sha256 requireReadOnly directory =
      .ok snapshot) : manifestCommit p directory = some snapshot.commit := by
  obtain ⟨manifest, hmanifest, hvalid⟩ := validateDirectory_engineKind.mp h
  obtain ⟨inventory, -, hmatch⟩ := bind_eq_ok.mp hvalid
  have hcommit : snapshot.commit = manifest.commit := by
    rw [matchManifest] at hmatch
    split_ifs at hmatch
    cases hmatch
    rfl
  rw [manifestCommit, hmanifest, hcommit]
  rfl

/-- The commit of a written manifest. -/
theorem manifestCommit_manifestEntry (manifest : Manifest enginePolicy) (content : Tree)
    (writable : Bool) :
    manifestCommit p ⟨some (manifestEntry manifest), content, writable⟩ = some manifest.commit := by
  rw [manifestCommit, loadManifest_manifestEntry]
  rfl

/-- The service starts over what the validator accepts as read-only, with the commit in its
manifest. -/
theorem buildDataPlane_of_accepted (h : (tools p).accepts true directory = true) :
    ∃ plane, buildDataPlane p directory = .ok plane ∧
      (tools p).commitOf directory = some plane.snapshot.commit := by
  obtain ⟨snapshot, plane, hsnapshot, hplane⟩ := validateAndBuild_isOk h
  refine ⟨plane, bind_eq_ok.mpr ⟨snapshot, mapError_eq_ok.mpr hsnapshot,
    mapError_eq_ok.mpr hplane⟩, ?_⟩
  rw [snapshot_of_buildIndexes hplane]
  exact commit_of_validateDirectory hsnapshot

/-- **The service always starts.** Whatever refreshes were started, failed or were killed, and in
every order: the service starts over the directory that the environment file selects, and over the
one that is mounted, and it serves the commit that is the directory's name. After a completed run
that commit is the fetched one. -/
theorem service_starts (hrun : (machine (tools p)).Run history s) :
    (∀ name ∈ s.env, ∃ c plane, s.root.find name = some c ∧
      buildDataPlane p c.content = .ok plane ∧ plane.snapshot.commit = name) ∧
    (∀ c ∈ s.mounted, s.root.find c.name = some c ∧
      ∃ plane, buildDataPlane p c.content = .ok plane ∧ plane.snapshot.commit = c.name) ∧
    ∀ before i commit, history = before ++ [.complete i commit] →
      ∃ c plane, s.env = some commit ∧ s.mounted = some c ∧
        buildDataPlane p c.content = .ok plane ∧ plane.snapshot.commit = commit := by
  have h := inv_of_run hrun
  have hserved : ∀ c, s.root.find c.name = some c → IsGood (tools p) c →
      ∃ plane, buildDataPlane p c.content = .ok plane ∧ plane.snapshot.commit = c.name := by
    intro c hfind hgood
    obtain ⟨plane, hplane, hcommit⟩ := buildDataPlane_of_accepted hgood.accepted
    exact ⟨plane, hplane, h.commit_eq hfind hgood _ hcommit⟩
  refine ⟨fun name hname => ?_, fun c hc => ?_, ?_⟩
  · obtain ⟨c, hfind, hgood⟩ := h.env name hname
    obtain ⟨-, rfl⟩ := Root.find_eq_some_iff.mp hfind
    obtain ⟨plane, hplane, hcommit⟩ := hserved c hfind hgood
    exact ⟨c, plane, hfind, hplane, hcommit⟩
  · obtain ⟨hfind, hgood⟩ := h.mounted c hc
    exact ⟨hfind, hserved c hfind hgood⟩
  · rintro before i commit rfl
    obtain ⟨henv, ⟨c, hc, rfl, -⟩, -⟩ := completed_of_run hrun
    obtain ⟨hfind, hgood⟩ := h.mounted c hc
    obtain ⟨plane, hplane, hcommit⟩ := hserved c hfind hgood
    exact ⟨c, plane, henv, hc, hplane, hcommit⟩

/-! ## A snapshot that is served -/

open RepositoryContent Node

/-- The approved root files and directories, and the files of the indexes and of the context. -/
def servedEntries : Entries :=
  [("AGENTS.md".toList, .file 10), ("README.md".toList, .file 11), ("Makefile".toList, .file 2),
    ("src".toList, .dir []), ("instrument".toList, .dir []), ("tools".toList, .dir []),
    ("docs".toList, .dir [
      ("ARCHITECTURE.md".toList, .file 12), ("PROJECT_HISTORY.md".toList, .file 13),
      ("_gam_classids.tsv".toList, .file 3),
      ("asset_catalog".toList, .dir [("behavior_todo.md".toList, .file 4)]),
      ("claude_code_failure_patterns.md".toList, .file 14),
      ("decomp".toList, .dir [("Ant.md".toList, .file 5), ("_next_session.md".toList, .file 6)]),
      ("decomp_ledger.csv".toList, .file 7), ("linkage_certificates.csv".toList, .file 8),
      ("local_env.md".toList, .file 15), ("native_port_plan.md".toList, .file 16),
      ("qa".toList, .dir [("qa_backlog_campaign_handoff.md".toList, .file 9)])]),
    ("web".toList, .dir [])]

/-- The texts of the indexes, and those of the context. -/
def servedTexts : List (List Char) :=
  sourceTexts (headedText handoffPath ++ "## Live options\n- fix it\n".toList)
      "Ant,,,,,,,todo,,,\n".toList ++
    [headedText agentsPath, headedText readmePath, headedText "docs/ARCHITECTURE.md",
      headedText historyPath ++ "## Day 2026-01-02\n".toList,
      headedText "docs/claude_code_failure_patterns.md", headedText "docs/local_env.md",
      headedText "docs/native_port_plan.md"]

/-- The content of the snapshot. -/
def servedTree : Tree where
  entries := servedEntries
  links _ := 1
  data inode := utf8Encode (servedTexts[inode]?.getD [])

/-- A platform for ASCII texts, with a digest of zeros. -/
def asciiPlatform : Platform where
  tables := asciiTables
  isWord := isAsciiAlnum
  order := insertionOrder
  sha256 := zeroDigest
  readers := isoReaders

/-- The fields of the manifest. -/
def servedData : ManifestData where
  commit := List.replicate 40 'a'
  tree := List.replicate 40 'b'
  commitTime := ⟨0, maxMicros_pos⟩
  createdAt := ⟨0, maxMicros_pos⟩
  fileCount := 15
  totalBytes := 1526
  contentSha256 := List.replicate 64 '0'

/-- The manifest. -/
def servedManifest : Manifest enginePolicy := ⟨servedData, by decide⟩

theorem servedManifest_commit : servedManifest.commit = List.replicate 40 'a' := rfl

/-- The snapshot is valid, and its indexes are built. -/
theorem exists_validated {requireReadOnly writable : Bool}
    (hwritable : (requireReadOnly && writable) = false) :
    (validateAndBuild asciiPlatform requireReadOnly
      ⟨some (manifestEntry servedManifest), servedTree, writable⟩).isOk = true := by
  have hbuilt : (engineKind.computeInventory asciiTables.lower zeroDigest servedTree).map
      (fun inventory => decide (servedManifest.fileCount = inventory.fileCount) &&
        decide (servedManifest.totalBytes = inventory.totalBytes) &&
          decide (servedManifest.contentSha256 = inventory.contentSha256) &&
            (buildIndexes asciiPlatform ⟨servedTree, servedManifest.commit, inventory.files⟩).isOk) =
              .ok true := by
    decide +kernel
  obtain ⟨inventory, hinventory, hbuilt⟩ := map_eq_ok.mp hbuilt
  simp only [Bool.and_eq_true, decide_eq_true_eq] at hbuilt
  obtain ⟨⟨⟨hcount, htotal⟩, hdigest⟩, hindexes⟩ := hbuilt
  obtain ⟨plane, hplane⟩ := exists_of_isOk hindexes
  have hvalidated := @validateDirectory_manifestEntry isoReaders engineKind asciiTables.lower
    zeroDigest servedTree inventory hinventory servedManifest hcount htotal hdigest
    requireReadOnly writable hwritable
  exact validateAndBuild_of_buildIndexes hvalidated hplane

/-- After the deployment of the snapshot the service starts with its commit. -/
theorem service_starts_deployment : ∃ s c plane,
    (machine (tools asciiPlatform)).Run (deployment (List.replicate 40 'a')) s ∧
    s.env = some (List.replicate 40 'a') ∧ s.mounted = some c ∧
    buildDataPlane asciiPlatform c.content = .ok plane ∧
    plane.snapshot.commit = List.replicate 40 'a' := by
  have hcommit (writable : Bool) : (tools asciiPlatform).commitOf
      ⟨some (manifestEntry servedManifest), servedTree, writable⟩ =
        some (List.replicate 40 'a') := by
    rw [tools_commitOf, manifestCommit_manifestEntry, servedManifest_commit]
  have hwritten : (tools asciiPlatform).accepts false
      ⟨some (manifestEntry servedManifest), servedTree, true⟩ = true := by
    rw [tools_accepts]
    exact exists_validated (Bool.false_and true)
  have hpromoted : (tools asciiPlatform).accepts true
      ⟨some (manifestEntry servedManifest), servedTree, false⟩ = true := by
    rw [tools_accepts]
    exact exists_validated (Bool.and_false true)
  obtain ⟨s, hrun⟩ := exists_deployment (hcommit true) (hcommit false) hwritten hpromoted
  obtain ⟨-, -, hcompleted⟩ := service_starts hrun
  obtain ⟨c, plane, henv, hmounted, hplane, hserved⟩ :=
    hcompleted (deployment (List.replicate 40 'a')).dropLast 0 (List.replicate 40 'a') rfl
  exact ⟨s, c, plane, hrun, henv, hmounted, hplane, hserved⟩

end ContributorGateway.ServedSnapshot
