import ContributorGateway.Core.OpenPr
import ContributorGateway.Foundation.PosixPath

/-!
# Proposed files

What `_validate_files` accepts, as a tree update. Its deny rules look at the front of a path
and its duplicate rule at equality, so an accepted list is a confined tree update exactly when
no path has `.git` below its front and no path continues another one.
-/

namespace ContributorGateway.OpenPr

open PurePosixPath

/-- The slash-separated segments of a path. -/
def segments (path : String) : List (List Char) := path.toList.splitOn '/'

/-- A well-formed, confined tree update. -/
structure TreeUpdate (files : List ProposedFile) : Prop where
  count : 1 ≤ files.length ∧ files.length ≤ 32
  plain : ∀ f ∈ files, ∀ s ∈ segments f.path, s ≠ [] ∧ s ≠ ['.'] ∧ s ≠ ['.', '.']
  notGit : ∀ f ∈ files, ".git".toList ∉ segments f.path
  notWorkflows : ∀ f ∈ files, ¬ [".github".toList, "workflows".toList] <+: segments f.path
  distinct : (files.map ProposedFile.path).Nodup
  notNested : ∀ f ∈ files, ∀ g ∈ files,
    ¬ ∃ rest, rest ≠ [] ∧ segments g.path = segments f.path ++ rest
  contents : ∀ f ∈ files, f.content.length ≤ 200000
  total : (files.map fun f => f.content.length).sum ≤ 1000000

/-- The path of an entry. -/
def entryPath (entry : PyValue) : Option String :=
  match fileEntry entry with
  | .ok (path, _) => path.asStr
  | .error _ => none

/-- The paths of the entries of an argument. -/
def filePaths : PyValue → List String
  | .list items => items.filterMap entryPath
  | _ => []

/-- No path has a `.git` segment after its first one, and no path followed by a slash starts
another one. -/
structure Shallow (paths : List String) : Prop where
  git : ∀ p ∈ paths, ".git".toList ∉ (segments p).tail
  nested : ∀ p ∈ paths, ∀ q ∈ paths, ¬ p.toList ++ ['/'] <+: q.toList

/-- What is checked of an accepted path. -/
structure Admitted (path : String) : Prop where
  plain : ∀ s ∈ segments path, s ≠ [] ∧ s ≠ ['.'] ∧ s ≠ ['.', '.']
  notGit : path.toList ≠ ".git".toList ∧ ¬ ".git/".toList <+: path.toList
  notWorkflows : path.toList ≠ ".github/workflows".toList ∧
    ¬ ".github/workflows/".toList <+: path.toList

/-- An accepted path is admitted and stays as it is. -/
theorem validatePath_eq_ok {value : PyValue} {path : String} (h : validatePath value = .ok path) :
    value = .str path ∧ Admitted path := by
  cases value with
  | str s =>
    simp only [validatePath, refuse] at h
    split_ifs at h with hlength hcontrol hrelative hsegments hforbidden
    obtain rfl := Except.ok.inj h
    simp only [List.isPrefixOf_iff_prefix, Bool.or_eq_true, not_or, beq_iff_eq] at hforbidden
    obtain ⟨⟨⟨hgit, hworkflows⟩, hgit'⟩, hworkflows'⟩ := hforbidden
    refine ⟨rfl, ?_, ⟨fun heq => hgit (String.toList_inj.mp heq), hgit'⟩,
      ⟨fun heq => hworkflows (String.toList_inj.mp heq), hworkflows'⟩⟩
    intro segment hsegment
    simp only [List.any_eq_true, Bool.or_eq_true, beq_iff_eq, not_exists, not_and, not_or]
      at hsegments
    obtain ⟨⟨hempty, hdot⟩, hdots⟩ := hsegments segment hsegment
    exact ⟨hempty, hdot, hdots⟩
  | _ => simp [validatePath, refuse] at h

/-- The loop accepts the entries one by one: their paths are admitted, new and distinct, and
their contents stay within the bounds. -/
theorem filesFrom_eq_ok {seen : List String} {total : ℕ} {items : List PyValue}
    {files : List ProposedFile} (h : filesFrom seen total items = .ok files)
    (htotal : total ≤ maxTotalChars) :
    files.length = items.length ∧ filePaths (.list items) = files.map ProposedFile.path ∧
      (∀ f ∈ files, Admitted f.path ∧ f.path ∉ seen ∧ f.content.length ≤ maxFileChars) ∧
      (files.map ProposedFile.path).Nodup ∧
      total + (files.map fun f => f.content.length).sum ≤ maxTotalChars := by
  induction items generalizing seen total files with
  | nil =>
    obtain rfl : [] = files := Except.ok.inj h
    simp [filePaths, htotal]
  | cons entry rest ih =>
    simp only [filesFrom, refuse] at h
    obtain ⟨⟨path, content⟩, hentry, h⟩ := bind_eq_ok.mp h
    obtain ⟨valid, hpath, h⟩ := bind_eq_ok.mp h
    obtain ⟨rfl, hadmitted⟩ := validatePath_eq_ok hpath
    dsimp only at h
    split_ifs at h with hseen
    cases content with
    | str content =>
      simp only at h
      split_ifs at h with hsize hsum
      obtain ⟨files', hfiles', h⟩ := bind_eq_ok.mp h
      obtain rfl := Except.ok.inj h
      obtain ⟨hlength, hpaths, hall, hnodup, htotal'⟩ := ih hfiles' (not_lt.mp hsum)
      refine ⟨by simp [hlength], ?_, ?_, ?_, ?_⟩
      · have hpath : entryPath entry = some valid := by simp [entryPath, hentry, PyValue.asStr]
        rw [filePaths, List.filterMap_cons_some hpath, List.map_cons, ← hpaths, filePaths]
      · intro f hf
        rcases List.mem_cons.mp hf with rfl | hf
        · exact ⟨hadmitted, hseen, not_lt.mp hsize⟩
        · obtain ⟨hf, hnew, hsize'⟩ := hall f hf
          exact ⟨hf, fun hmem => hnew (by simp [hmem]), hsize'⟩
      · rw [List.map_cons, List.nodup_cons]
        refine ⟨fun hmem => ?_, hnodup⟩
        obtain ⟨f, hf, hsame⟩ := List.mem_map.mp hmem
        exact (hall f hf).2.1 (by simp [hsame])
      · rw [List.map_cons, List.sum_cons]
        dsimp only
        omega
    | _ => simp at h

/-- The rules that the checks of the front of a path leave to its other segments. -/
theorem Admitted.rules {path : String} (h : Admitted path) :
    (".git".toList ∉ segments path ↔ ".git".toList ∉ (segments path).tail) ∧
      ¬ [".github".toList, "workflows".toList] <+: segments path := by
  have hgit : [".git".toList] <+: segments path ↔ path.toList = ['/'].intercalate [".git".toList] ∨
      ['/'].intercalate [".git".toList] ++ ['/'] <+: path.toList :=
    startsWith_segments_iff (by simp) (by simp)
  have hworkflows : [".github".toList, "workflows".toList] <+: segments path ↔
      path.toList = ['/'].intercalate [".github".toList, "workflows".toList] ∨
        ['/'].intercalate [".github".toList, "workflows".toList] ++ ['/'] <+: path.toList :=
    startsWith_segments_iff (by simp) (by simp)
  constructor
  · have hfront : ¬ [".git".toList] <+: segments path := by
      rw [hgit]
      rintro (heq | hslash)
      · exact h.notGit.1 (by simpa using heq)
      · exact h.notGit.2 (by simpa using hslash)
    cases hsplit : segments path with
    | nil => simp
    | cons first rest =>
      rw [hsplit, List.cons_prefix_cons] at hfront
      have hfirst : ".git".toList ≠ first := fun heq => hfront ⟨heq, List.nil_prefix⟩
      rw [List.tail_cons, List.mem_cons, or_iff_right hfirst]
  · rw [hworkflows]
    rintro (heq | hslash)
    · exact h.notWorkflows.1 (by simpa using heq)
    · exact h.notWorkflows.2 (by simpa using hslash)

/-- One path continues another exactly when it starts with it and a slash. -/
theorem continues_iff (p q : String) : (∃ rest, rest ≠ [] ∧ segments q = segments p ++ rest) ↔
    p.toList ++ ['/'] <+: q.toList := by
  have hslash : ∀ s ∈ segments p, '/' ∉ s := fun _ => slash_not_mem_of_mem_splitOn
  have hjoined : ['/'].intercalate (segments p) = p.toList := List.intercalate_splitOn '/'
  have hiff : (∃ rest, rest ≠ [] ∧ segments q = segments p ++ rest) ↔
      ['/'].intercalate (segments p) ++ ['/'] <+: q.toList :=
    splitOn_eq_append_iff (List.splitOn_ne_nil _ _) hslash
  rwa [hjoined] at hiff

/-- An accepted list is a confined tree update exactly when its paths have no `.git` below
their front and do not continue each other. -/
theorem treeUpdate_iff {value : PyValue} {files : List ProposedFile}
    (h : validateFiles value = .ok files) : TreeUpdate files ↔ Shallow (filePaths value) := by
  cases value with
  | list items =>
    simp only [validateFiles, refuse] at h
    split_ifs at h with hcount
    simp only [Bool.or_eq_true, List.isEmpty_iff, decide_eq_true_eq, not_or, not_lt] at hcount
    obtain ⟨hlength, hpaths, hall, hnodup, htotal⟩ := filesFrom_eq_ok h (Nat.zero_le _)
    rw [hpaths]
    constructor
    · intro htree
      refine ⟨fun p hp => ?_, fun p hp q hq => ?_⟩
      · obtain ⟨f, hf, rfl⟩ := List.mem_map.mp hp
        exact (hall f hf).1.rules.1.mp (htree.notGit f hf)
      · obtain ⟨f, hf, rfl⟩ := List.mem_map.mp hp
        obtain ⟨g, hg, rfl⟩ := List.mem_map.mp hq
        rw [← continues_iff]
        exact htree.notNested f hf g hg
    · intro hshallow
      have hpositive : items.length ≠ 0 := fun hzero => hcount.1 (List.length_eq_zero_iff.mp hzero)
      refine
        { count := ?_, plain := ?_, notGit := ?_, notWorkflows := ?_, distinct := hnodup,
          notNested := ?_, contents := ?_, total := ?_ }
      · rw [hlength]
        exact ⟨Nat.one_le_iff_ne_zero.mpr hpositive, hcount.2⟩
      · exact fun f hf => (hall f hf).1.plain
      · exact fun f hf => (hall f hf).1.rules.1.mpr (hshallow.git _ (List.mem_map_of_mem hf))
      · exact fun f hf => (hall f hf).1.rules.2
      · intro f hf g hg
        rw [continues_iff]
        exact hshallow.nested _ (List.mem_map_of_mem hf) _ (List.mem_map_of_mem hg)
      · exact fun f hf => (hall f hf).2.2
      · rwa [Nat.zero_add] at htotal
  | _ => simp [validateFiles, refuse] at h

/-- An entry as a dictionary. -/
def entry (path content : String) : PyValue :=
  .dict [("path", .str path), ("content", .str content)]

/-- Two files beside each other are a confined tree update. -/
theorem treeUpdate_siblings :
    TreeUpdate [⟨"docs/a.md", "a"⟩, ⟨"docs/b.md", "b"⟩] := by
  have hvalid : validateFiles (.list [entry "docs/a.md" "a", entry "docs/b.md" "b"]) =
      .ok [⟨"docs/a.md", "a"⟩, ⟨"docs/b.md", "b"⟩] := by decide +kernel
  have hpaths : filePaths (.list [entry "docs/a.md" "a", entry "docs/b.md" "b"]) =
      ["docs/a.md", "docs/b.md"] := by decide +kernel
  refine (treeUpdate_iff hvalid).mpr ?_
  rw [hpaths]
  refine ⟨fun p hp => ?_, fun p hp q hq => ?_⟩
  · rcases List.mem_pair.mp hp with rfl | rfl <;> decide +kernel
  · rcases List.mem_pair.mp hp with rfl | rfl <;> rcases List.mem_pair.mp hq with rfl | rfl <;>
      decide +kernel

/-- A repository inside a directory, and a path that is both a file and a directory, are
accepted. -/
theorem nested_files_accepted :
    (validateFiles (.list [entry "vendor/.git/config" "x"]) =
        .ok [⟨"vendor/.git/config", "x"⟩] ∧ ¬ TreeUpdate [⟨"vendor/.git/config", "x"⟩]) ∧
      (validateFiles (.list [entry "docs/a" "x", entry "docs/a/b" "y"]) =
        .ok [⟨"docs/a", "x"⟩, ⟨"docs/a/b", "y"⟩] ∧
      ¬ TreeUpdate [⟨"docs/a", "x"⟩, ⟨"docs/a/b", "y"⟩]) := by
  refine ⟨⟨by decide +kernel, fun htree => ?_⟩, by decide +kernel, fun htree => ?_⟩
  · exact htree.notGit ⟨"vendor/.git/config", "x"⟩ (by simp) (by decide +kernel)
  · exact htree.notNested ⟨"docs/a", "x"⟩ (by simp) ⟨"docs/a/b", "y"⟩ (by simp)
      ⟨["b".toList], by simp, by decide +kernel⟩

end ContributorGateway.OpenPr
