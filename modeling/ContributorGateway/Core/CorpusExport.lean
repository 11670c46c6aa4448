import ContributorGateway.Core.CorpusInventory
import Mathlib.Logic.Function.Basic

/-!
# Exports of corpora

The filter that an exporter runs on an unpacked archive, for any corpus. It walks the tree from
the bottom up, unlinks the files that the corpus does not admit and removes the directories
that are empty then. What is left is accepted by the scan.
-/

namespace ContributorGateway

open Node

/-- Why an export fails. -/
inductive ExportError where
  | symlink
  | special
  | hardLink
  | oversized
  | binary
  | missingRootFile (label : List Char)
  | missingRootDirectory (label : List Char)
  | indexError
  deriving DecidableEq

/-! ## The source -/

section

variable (c : Corpus)

/-- Whether `os.walk` lists an entry among the directories. -/
def isListedDirectory : Node → Bool
  | .dir _ => true
  | .symlink toDirectory => toDirectory
  | _ => false

/-- `(*directories, *files)`. -/
def listed (entries : Entries) : Entries :=
  entries.filter (fun e => isListedDirectory e.2) ++
    entries.filter fun e => !isListedDirectory e.2

/-- The checks of an entry that is neither a directory nor a regular file. -/
def checkKind : Node → Except ExportError Unit
  | .symlink _ => .error .symlink
  | .special => .error .special
  | _ => .ok ()

/-- The checks of an admitted file's size and bytes. -/
def inspectData (data : List UInt8) : Except ExportError Unit :=
  if data.length > maxFileBytes then .error .oversized
  else if data.take 4096 |>.contains 0 then .error .binary
  else .ok ()

/-- `for filename in files`: a file that is not admitted is unlinked, any other inspected. -/
def sweepFiles (inspect : (ℕ → ℕ) → ℕ → Except ExportError Unit) (parts : List (List Char))
    (links : ℕ → ℕ) : Entries → Except ExportError ((ℕ → ℕ) × Entries)
  | [] => .ok (links, [])
  | (name, .file inode) :: rest =>
      match c.admits (relativePath (parts ++ [name])) with
      | none => .error .indexError
      | some false => sweepFiles inspect parts (Function.update links inode (links inode - 1)) rest
      | some true => do
          inspect links inode
          let (links, rest) ← sweepFiles inspect parts links rest
          .ok (links, (name, .file inode) :: rest)
  | entry :: rest => do
      let (links, rest) ← sweepFiles inspect parts links rest
      .ok (links, entry :: rest)

/-- An empty directory that is removed. -/
def isRemoved (parts : List (List Char)) (entry : List Char × Node) : Bool :=
  match entry.2 with
  | .dir [] => !parts.isEmpty || !c.rootDirectories.contains entry.1
  | _ => false

/-- The body of the loop of `_filter_export`. -/
def visitDirectory (check : Node → Except ExportError Unit)
    (inspect : (ℕ → ℕ) → ℕ → Except ExportError Unit) (parts : List (List Char))
    (links : ℕ → ℕ) (entries : Entries) : Except ExportError ((ℕ → ℕ) × Entries) := do
  forM (listed entries) fun e => check e.2
  let (links, entries) ← sweepFiles c inspect parts links entries
  .ok (links, entries.filter fun e => !isRemoved c parts e)

/-- `is_file()` of an entry of the root. -/
def Tree.isFile (t : Tree) (label : List Char) : Bool :=
  match t.entries.lookup label with
  | some (.file _) => true
  | _ => false

/-- `is_dir()` of an entry of the root. -/
def Tree.isDir (t : Tree) (label : List Char) : Bool :=
  match t.entries.lookup label with
  | some (.dir _) => true
  | _ => false

/-- The loop of `_filter_export` and the checks after it. -/
def filterTree (check : Node → Except ExportError Unit)
    (inspect : (ℕ → ℕ) → ℕ → Except ExportError Unit) (t : Tree) : Except ExportError Tree := do
  let (links, entries) ← walkBottomUp (visitDirectory c check inspect) t.links t.entries
  let t := { t with links, entries }
  forM c.rootFiles fun label => if t.isFile label then .ok () else .error (.missingRootFile label)
  forM c.rootDirectories fun label =>
    if t.isDir label then .ok () else .error (.missingRootDirectory label)
  .ok t

end

/-! ## What the walk leaves -/

/-- A file that the corpus admits. -/
def Corpus.admitsFile (c : Corpus) (f : List (List Char) × ℕ) : Bool :=
  c.admits (relativePath f.1) == some true

/-- The link counts lose what the entries lose, whatever else the inodes are linked to. -/
def KeepsCount (parts : List (List Char)) (links : ℕ → ℕ) (entries : Entries) (links' : ℕ → ℕ)
    (entries' : Entries) : Prop :=
  ∀ outside : ℕ → ℕ,
    (∀ i, links i = ((filesIn parts entries).map Prod.snd).count i + outside i) →
      ∀ i, links' i = ((filesIn parts entries').map Prod.snd).count i + outside i

/-- What is left of a node: admitted files that were inspected, and directories that are not
empty unless they are approved. -/
inductive Kept (c : Corpus) (Inspected : (ℕ → ℕ) → ℕ → Prop) (links : ℕ → ℕ) :
    List (List Char) → Node → Prop
  | file {parts : List (List Char)} {inode : ℕ}
      (hadmitted : c.admits (relativePath parts) = some true) (hinspected : Inspected links inode) :
      Kept c Inspected links parts (.file inode)
  | dir {parts : List (List Char)} {entries : Entries}
      (hleft : entries ≠ [] ∨ ∃ root ∈ c.rootDirectories, parts = [root])
      (hentries : ∀ e ∈ entries, Kept c Inspected links (parts ++ [e.1]) e.2) :
      Kept c Inspected links parts (.dir entries)

/-- What an inspection ensures, and still does when links are gone. -/
structure Ensures (inspect : (ℕ → ℕ) → ℕ → Except ExportError Unit)
    (Inspected : (ℕ → ℕ) → ℕ → Prop) : Prop where
  of_ok : ∀ {links inode}, inspect links inode = .ok () → Inspected links inode
  fewer : ∀ {links links' : ℕ → ℕ} {inode}, (∀ i, links' i ≤ links i) → Inspected links inode →
    Inspected links' inode

variable {c : Corpus} {check : Node → Except ExportError Unit}
  {inspect : (ℕ → ℕ) → ℕ → Except ExportError Unit} {Inspected : (ℕ → ℕ) → ℕ → Prop}
  {parts : List (List Char)} {links links' : ℕ → ℕ} {entries entries' : Entries} {node : Node}

theorem Kept.fewer (hensures : Ensures inspect Inspected) (hle : ∀ i, links' i ≤ links i)
    (h : Kept c Inspected links parts node) : Kept c Inspected links' parts node := by
  induction h with
  | file hadmitted hinspected => exact .file hadmitted (hensures.fewer hle hinspected)
  | dir hleft hentries ih => exact .dir hleft ih

/-- Every file that is left is admitted and was inspected. -/
theorem Kept.files (h : Kept c Inspected links parts node) :
    ∀ f ∈ node.filesAt parts, c.admitsFile f = true ∧ Inspected links f.2 := by
  induction h with
  | file hadmitted hinspected =>
    intro f hf
    obtain rfl := List.mem_singleton.mp hf
    exact ⟨beq_iff_eq.mpr hadmitted, hinspected⟩
  | dir hleft hentries ih =>
    intro f hf
    obtain ⟨e, he, hf⟩ := mem_filesIn.mp hf
    exact ih e he f hf

theorem inspectData_eq_ok {data : List UInt8} : inspectData data = .ok () ↔
    data.length ≤ maxFileBytes ∧ 0 ∉ data.take binaryProbeBytes := by
  rw [inspectData, binaryProbeBytes]
  split_ifs with hsize hbinary
  · exact iff_of_false nofun fun h => absurd h.1 (not_le.mpr hsize)
  · exact iff_of_false nofun fun h => h.2 (by simpa using hbinary)
  · exact iff_of_true rfl ⟨not_lt.mp hsize, by simpa using hbinary⟩

/-- An entry survives the loop over the files. -/
def survives (c : Corpus) (parts : List (List Char)) (e : List Char × Node) : Bool :=
  match e.2 with
  | .file _ => c.admits (relativePath (parts ++ [e.1])) == some true
  | _ => true

/-- What the loop over the files does. -/
structure Swept (c : Corpus) (Inspected : (ℕ → ℕ) → ℕ → Prop) (parts : List (List Char))
    (links : ℕ → ℕ) (entries : Entries) (links' : ℕ → ℕ) (entries' : Entries) : Prop where
  entries_eq : entries' = entries.filter (survives c parts)
  inspected : ∀ e ∈ entries', ∀ inode, e.2 = .file inode → Inspected links' inode
  links_le : ∀ i, links' i ≤ links i
  keepsCount : KeepsCount parts links entries links' entries'

/-- An entry that stays in front of others. -/
theorem KeepsCount.cons (h : KeepsCount parts links entries links' entries')
    (e : List Char × Node) : KeepsCount parts links (e :: entries) links' (e :: entries') := by
  intro outside hcount i
  have hrest := h (fun i => ((e.2.filesAt (parts ++ [e.1])).map Prod.snd).count i + outside i)
    (fun i => by
      rw [hcount i, filesIn, List.map_append, List.count_append]
      omega) i
  rw [hrest, filesIn, List.map_append, List.count_append]
  omega

/-- The loop over the files removes those that are not admitted and inspects the others. -/
theorem swept_of_sweepFiles (hensures : Ensures inspect Inspected)
    (h : sweepFiles c inspect parts links entries = .ok (links', entries')) :
    Swept c Inspected parts links entries links' entries' := by
  induction entries generalizing links entries' with
  | nil =>
    obtain ⟨rfl, rfl⟩ := Prod.mk.inj (Except.ok.inj h)
    exact ⟨rfl, List.forall_mem_nil _, fun _ => le_rfl, fun _ h => h⟩
  | cons e entries ih =>
    obtain ⟨name, node⟩ := e
    cases node with
    | file inode =>
      rw [sweepFiles] at h
      split at h
      · cases h
      · next hrefused =>
        have hswept := ih h
        have hgone : survives c parts (name, .file inode) = false := by
          simp [survives, hrefused]
        refine ⟨?_, hswept.inspected, fun i => ?_, fun outside hcount => ?_⟩
        · rw [hswept.entries_eq, List.filter_cons, hgone]
          rfl
        · refine (hswept.links_le i).trans ?_
          by_cases hi : i = inode
          · subst hi
            rw [Function.update_self]
            omega
          · rw [Function.update_of_ne hi]
        · refine hswept.keepsCount outside fun i => ?_
          have hi := hcount i
          rw [filesIn, filesAt, List.map_append, List.map_singleton, List.count_append,
            List.count_singleton] at hi
          by_cases hinode : i = inode
          · subst hinode
            rw [Function.update_self, hi, beq_self_eq_true, if_pos rfl]
            omega
          · rw [Function.update_of_ne hinode, hi, if_neg (by simpa using Ne.symm hinode)]
            omega
      · next hadmitted =>
        obtain ⟨⟨⟩, hinspect, h⟩ := bind_eq_ok.mp h
        obtain ⟨⟨links₁, rest⟩, hrest, h⟩ := bind_eq_ok.mp h
        obtain ⟨rfl, rfl⟩ := Prod.mk.inj (Except.ok.inj h)
        have hswept := ih hrest
        have hstays : survives c parts (name, .file inode) = true := by
          simp [survives, hadmitted]
        refine ⟨?_, List.forall_mem_cons.mpr ⟨?_, hswept.inspected⟩, hswept.links_le,
          hswept.keepsCount.cons _⟩
        · rw [hswept.entries_eq, List.filter_cons, hstays]
          rfl
        · intro inode' hinode
          obtain rfl := Node.file.inj hinode
          exact hensures.fewer hswept.links_le (hensures.of_ok hinspect)
    | _ =>
      obtain ⟨⟨links₁, rest⟩, hrest, h⟩ := bind_eq_ok.mp h
      obtain ⟨rfl, rfl⟩ := Prod.mk.inj (Except.ok.inj h)
      have hswept := ih hrest
      refine ⟨?_, List.forall_mem_cons.mpr ⟨?_, hswept.inspected⟩, hswept.links_le,
        hswept.keepsCount.cons _⟩
      · rw [hswept.entries_eq, List.filter_cons]
        rfl
      · intro inode hinode
        cases hinode

/-- The entries of a directory before its visit: what is below them is filtered. -/
structure Walked (c : Corpus) (Inspected : (ℕ → ℕ) → ℕ → Prop) (parts : List (List Char))
    (links : ℕ → ℕ) (entries : Entries) (links' : ℕ → ℕ) (entries' : Entries) : Prop where
  files : (filesIn parts entries').filter c.admitsFile =
    (filesIn parts entries).filter c.admitsFile
  below : ∀ e ∈ entries', (∃ inode, e.2 = .file inode) ∨ ∃ es, e.2 = .dir es ∧
    ∀ e' ∈ es, Kept c Inspected links' (parts ++ [e.1] ++ [e'.1]) e'.2
  links_le : ∀ i, links' i ≤ links i
  keepsCount : KeepsCount parts links entries links' entries'

/-- A directory after its visit: exactly the admitted files are left. -/
structure Visited (c : Corpus) (Inspected : (ℕ → ℕ) → ℕ → Prop) (parts : List (List Char))
    (links : ℕ → ℕ) (entries : Entries) (links' : ℕ → ℕ) (entries' : Entries) : Prop where
  files : filesIn parts entries' = (filesIn parts entries).filter c.admitsFile
  kept : ∀ e ∈ entries', Kept c Inspected links' (parts ++ [e.1]) e.2
  links_le : ∀ i, links' i ≤ links i
  keepsCount : KeepsCount parts links entries links' entries'

/-- Files of directories that are filtered are admitted. -/
theorem admitted_of_kept (h : ∀ e ∈ entries, Kept c Inspected links (parts ++ [e.1]) e.2) :
    (filesIn parts entries).filter c.admitsFile = filesIn parts entries := by
  refine List.filter_eq_self.mpr fun f hf => ?_
  obtain ⟨e, he, hf⟩ := mem_filesIn.mp hf
  exact ((h e he).files f hf).1

/-- The files of the entries that survive. -/
theorem filesIn_filter_survives
    (hbelow : ∀ e ∈ entries, ∀ es, e.2 = .dir es →
      (filesIn (parts ++ [e.1]) es).filter c.admitsFile = filesIn (parts ++ [e.1]) es) :
    filesIn parts (entries.filter (survives c parts)) =
      (filesIn parts entries).filter c.admitsFile := by
  induction entries with
  | nil => rfl
  | cons e entries ih =>
    have ih := ih fun e' he' => hbelow e' (List.mem_cons_of_mem e he')
    obtain ⟨name, node⟩ := e
    rw [filesIn, List.filter_append, ← ih, List.filter_cons]
    cases node with
    | file inode =>
      by_cases hadmitted : c.admits (relativePath (parts ++ [name])) = some true
      · simp [survives, hadmitted, filesIn, filesAt, Corpus.admitsFile]
      · simp [survives, hadmitted, filesAt, Corpus.admitsFile]
    | dir es =>
      rw [filesAt, hbelow _ (List.mem_cons_self ..) es rfl]
      rfl
    | _ => rfl

/-- An empty directory has no files. -/
theorem filesIn_filter_removed : filesIn parts (entries.filter fun e => !isRemoved c parts e) =
    filesIn parts entries := by
  induction entries with
  | nil => rfl
  | cons e entries ih =>
    rw [List.filter_cons]
    split_ifs with hstays
    · rw [filesIn, filesIn, ih]
    · have hremoved : isRemoved c parts e = true := by simpa using hstays
      obtain ⟨name, node⟩ := e
      rw [isRemoved] at hremoved
      split at hremoved
      · next hempty =>
        obtain rfl : node = .dir [] := hempty
        rw [ih, filesIn]
        rfl
      · cases hremoved

/-- A directory in front of others is filtered, and they are walked. -/
theorem Walked.descend (hensures : Ensures inspect Inspected) {links₁ : ℕ → ℕ} {name : List Char}
    {es es' rest rest' : Entries}
    (hvisited : Visited c Inspected (parts ++ [name]) links es links₁ es')
    (hwalked : Walked c Inspected parts links₁ rest links' rest') :
    Walked c Inspected parts links ((name, .dir es) :: rest) links' ((name, .dir es') :: rest') := by
  refine ⟨?_, List.forall_mem_cons.mpr ⟨?_, hwalked.below⟩, fun i => ?_, fun outside hcount => ?_⟩
  · rw [filesIn, filesIn, List.filter_append, List.filter_append, hwalked.files, filesAt_dir,
      filesAt_dir, hvisited.files, List.filter_filter]
    simp
  · exact Or.inr ⟨es', rfl, fun e he => (hvisited.kept e he).fewer hensures hwalked.links_le⟩
  · exact (hwalked.links_le i).trans (hvisited.links_le i)
  · have hcons (d r : Entries) (i : ℕ) :
        ((filesIn parts ((name, .dir d) :: r)).map Prod.snd).count i =
          ((filesIn (parts ++ [name]) d).map Prod.snd).count i +
            ((filesIn parts r).map Prod.snd).count i := by
      rw [filesIn, filesAt_dir, List.map_append, List.count_append]
    have hfirst := hvisited.keepsCount
      (fun i => ((filesIn parts rest).map Prod.snd).count i + outside i) fun i => by
        rw [hcount i, hcons]
        omega
    have hsecond := hwalked.keepsCount
      (fun i => ((filesIn (parts ++ [name]) es').map Prod.snd).count i + outside i) fun i => by
        rw [hfirst i]
        omega
    intro i
    rw [hsecond i, hcons]
    omega

/-- The visit of a directory leaves the admitted files. -/
theorem Walked.visit (hensures : Ensures inspect Inspected) {links₁ : ℕ → ℕ} {entries₁ : Entries}
    (hwalked : Walked c Inspected parts links entries links₁ entries₁)
    (hvisit : visitDirectory c check inspect parts links₁ entries₁ = .ok (links', entries')) :
    Visited c Inspected parts links entries links' entries' := by
  obtain ⟨⟨⟩, -, hvisit⟩ := bind_eq_ok.mp hvisit
  obtain ⟨⟨links₂, entries₂⟩, hsweep, hvisit⟩ := bind_eq_ok.mp hvisit
  obtain ⟨rfl, rfl⟩ := Prod.mk.inj (Except.ok.inj hvisit)
  have hswept := swept_of_sweepFiles hensures hsweep
  have hbelow : ∀ e ∈ entries₁, ∀ es, e.2 = .dir es →
      ∀ e' ∈ es, Kept c Inspected links₂ (parts ++ [e.1] ++ [e'.1]) e'.2 := by
    intro e he es hes e' he'
    rcases hwalked.below e he with ⟨inode, hfile⟩ | ⟨es', hes', hkept⟩
    · rw [hes] at hfile
      cases hfile
    · obtain rfl : es = es' := Node.dir.inj (hes.symm.trans hes')
      exact (hkept e' he').fewer hensures hswept.links_le
  refine ⟨?_, fun e he => ?_, fun i => (hswept.links_le i).trans (hwalked.links_le i), ?_⟩
  · rw [filesIn_filter_removed, hswept.entries_eq, filesIn_filter_survives, hwalked.files]
    exact fun e he es hes => admitted_of_kept (hbelow e he es hes)
  · obtain ⟨he, hstays⟩ := List.mem_filter.mp he
    have hswept' := he
    rw [hswept.entries_eq] at hswept'
    obtain ⟨he₁, hsurvives⟩ := List.mem_filter.mp hswept'
    obtain ⟨name, node⟩ := e
    rcases hwalked.below _ he₁ with ⟨inode, rfl⟩ | ⟨es, rfl, -⟩
    · exact .file (beq_iff_eq.mp hsurvives) (hswept.inspected _ he inode rfl)
    · refine .dir ?_ fun e' he' => hbelow _ he₁ es rfl e' he'
      cases es with
      | nil =>
        right
        cases parts with
        | nil => exact ⟨name, by simpa [isRemoved] using hstays, rfl⟩
        | cons part parts => simp [isRemoved] at hstays
      | cons first es => exact Or.inl (List.cons_ne_nil first es)
  · intro outside hcount
    have hcounted := hswept.keepsCount outside (hwalked.keepsCount outside hcount)
    intro i
    rw [hcounted i, filesIn_filter_removed]

/-- **The rule of the filter.** On a tree without symlinks and special files the walk leaves
exactly the admitted files, all inspected, and no directory without files but approved ones. -/
theorem visited_of_walk (hensures : Ensures inspect Inspected)
    (hordinary : OrdinaryEntries entries)
    (h : walkBottomUp (visitDirectory c check inspect) links entries = .ok (links', entries')) :
    Visited c Inspected [] links entries links' entries' := by
  have hrule : WalkRule (visitDirectory c check inspect)
      (fun parts links entries links' entries' => OrdinaryEntries entries →
        Walked c Inspected parts links entries links' entries')
      (fun parts links entries links' entries' => OrdinaryEntries entries →
        Visited c Inspected parts links entries links' entries') := by
    refine ⟨?_, ?_, ?_, ?_⟩
    · intro parts links _
      exact ⟨rfl, List.forall_mem_nil _, fun _ => le_rfl, fun _ h => h⟩
    · intro parts links rest links' rest' name node hnode hwalked hordinary
      have hwalked := hwalked hordinary.2
      cases node with
      | file inode =>
        refine ⟨?_, List.forall_mem_cons.mpr ⟨Or.inl ⟨inode, rfl⟩, hwalked.below⟩,
          hwalked.links_le, hwalked.keepsCount.cons _⟩
        rw [filesIn, filesIn, List.filter_append, List.filter_append, hwalked.files]
      | symlink toDirectory => exact absurd hordinary.1 id
      | special => exact absurd hordinary.1 id
      | dir es => exact absurd rfl (hnode es)
    · intro parts links links₁ links' name es es' rest rest' hvisited hwalked hordinary
      exact (hwalked hordinary.2).descend hensures (hvisited hordinary.1)
    · intro parts links entries links₁ entries₁ links' entries' hwalked hvisit hordinary
      exact (hwalked hordinary).visit hensures hvisit
  exact hrule.bottomUp h hordinary

/-! ## What the scan makes of it -/

/-- A directory below the root that is left has a file. -/
theorem Kept.exists_file (h : Kept c Inspected links parts node) (hdeep : 2 ≤ parts.length) :
    ∃ f ∈ node.filesAt parts, ∃ more, f.1 = parts ++ more := by
  induction h with
  | file => exact ⟨_, List.mem_singleton_self _, [], (List.append_nil _).symm⟩
  | @dir parts entries hleft hentries ih =>
    have hne : entries ≠ [] := by
      rcases hleft with hne | ⟨root, -, rfl⟩
      · exact hne
      · simp at hdeep
    obtain ⟨e, he⟩ := List.exists_mem_of_ne_nil entries hne
    obtain ⟨f, hf, more, hmore⟩ := ih e he (by
      rw [List.length_append]
      omega)
    exact ⟨f, mem_filesIn.mpr ⟨e, he, hf⟩, e.1 :: more, by simp [hmore]⟩

/-- The scan accepts what is left of a node if it accepts the files. -/
theorem Kept.accepts {t : Tree} {name : List Char}
    (h : Kept c Inspected links (parts ++ [name]) node)
    (hfiles : ∀ f ∈ node.filesAt (parts ++ [name]), (∀ part ∈ f.1, IsFileName part) ∧
      AcceptsFile c t f.1 f.2) : Accepts c t parts name node := by
  induction node using Node.induct generalizing parts name with
  | file inode =>
    obtain ⟨hnames, hfile⟩ := hfiles _ (List.mem_singleton_self _)
    exact .file (c.names_allowed hnames hfile.admitted name (by simp)) hfile
  | symlink toDirectory => cases h
  | special => cases h
  | dir entries ih =>
    cases h with
    | dir hleft hentries =>
      have haccepted : ∀ e ∈ entries, Accepts c t (parts ++ [name]) e.1 e.2 := fun e he =>
        ih e he (hentries e he) fun f hf => hfiles f (mem_filesIn.mpr ⟨e, he, hf⟩)
      rcases hleft with hne | ⟨root, hroot, hparts⟩
      · obtain ⟨e, he⟩ := List.exists_mem_of_ne_nil entries hne
        obtain ⟨f, hf, more, hmore⟩ := (hentries e he).exists_file (by simp)
        obtain ⟨hnames, hfile⟩ := hfiles f (mem_filesIn.mpr ⟨e, he, hf⟩)
        have hadmitted := hfile.admitted
        have hsplit : f.1 = parts ++ [name] ++ e.1 :: more := by simp [hmore]
        rw [hsplit] at hnames hadmitted
        refine .dir (c.names_allowed hnames hadmitted name (by simp)) ?_
          (c.directory_allowed (by simp) hnames hadmitted) haccepted
        rintro rfl
        exact c.root_approved hnames hadmitted
      · have hnil : parts = [] := by
          have hlength := congrArg List.length hparts
          rw [List.length_append, List.length_singleton, List.length_singleton] at hlength
          exact List.length_eq_zero_iff.mp (by omega)
        subst hnil
        obtain rfl : name = root := List.singleton_inj.mp hparts
        obtain ⟨hname, hexcluded⟩ := c.rootDirectories_allowed name hroot
        exact .dir hname (fun _ => hroot) hexcluded haccepted

theorem Tree.isFile_iff {t : Tree} {label : List Char} :
    t.isFile label = true ↔ ∃ inode, t.entries.lookup label = some (.file inode) := by
  rw [Tree.isFile]
  split
  · next inode hlookup => exact iff_of_true rfl ⟨inode, hlookup⟩
  · next hnone => exact iff_of_false Bool.false_ne_true fun ⟨inode, h⟩ => hnone inode h

theorem Tree.isDir_iff {t : Tree} {label : List Char} :
    t.isDir label = true ↔ ∃ entries, t.entries.lookup label = some (.dir entries) := by
  rw [Tree.isDir]
  split
  · next entries hlookup => exact iff_of_true rfl ⟨entries, hlookup⟩
  · next hnone => exact iff_of_false Bool.false_ne_true fun ⟨entries, h⟩ => hnone entries h

/-- What an export leaves of a tree. -/
structure Exported (c : Corpus) (t t' : Tree) : Prop where
  data : t'.data = t.data
  files : filesIn [] t'.entries = (filesIn [] t.entries).filter c.admitsFile
  accepted : ∀ e ∈ t'.entries, Accepts c t' [] e.1 e.2
  required : HasRequired c t'

/-- An export leaves a tree that the scan accepts, with exactly the admitted files. -/
theorem exported_of_filterTree {disk : Disk} {t' : Tree} (hensures : Ensures inspect Inspected)
    (hordinary : OrdinaryEntries disk.entries)
    (hdata : ∀ {links inode}, Inspected links inode →
      inspectData (disk.data inode) = .ok ())
    (hsingle : ∀ {links : ℕ → ℕ} {f}, f ∈ filesIn [] disk.entries →
      (∀ i, links i ≤ disk.links i) → Inspected links f.2 → links f.2 ≤ 1)
    (h : filterTree c check inspect disk.toTree = .ok t') : Exported c disk.toTree t' := by
  obtain ⟨⟨links', entries'⟩, hwalk, h⟩ := bind_eq_ok.mp h
  obtain ⟨⟨⟩, hrootFiles, h⟩ := bind_eq_ok.mp h
  obtain ⟨⟨⟩, hrootDirectories, h⟩ := bind_eq_ok.mp h
  obtain rfl := Except.ok.inj h
  have hvisited := visited_of_walk hensures hordinary hwalk
  have hfile : ∀ f ∈ filesIn [] entries', (∀ part ∈ f.1, IsFileName part) ∧
      AcceptsFile c { disk.toTree with links := links', entries := entries' } f.1 f.2 := by
    intro f hf
    obtain ⟨e, he, hfe⟩ := mem_filesIn.mp hf
    obtain ⟨hadmitted, hinspected⟩ := (hvisited.kept e he).files f hfe
    have hmem : f ∈ filesIn [] disk.entries := by
      rw [hvisited.files] at hf
      exact (List.mem_filter.mp hf).1
    obtain ⟨more, hmore, hnames⟩ := names_of_mem_filesAt disk.wellNamed hmem
    obtain rfl : f.1 = more := hmore
    have hcount := hvisited.keepsCount
      (fun i => disk.links i - ((filesIn [] disk.entries).map Prod.snd).count i)
      (fun i => (Nat.add_sub_cancel' (disk.counted i)).symm) f.2
    have hlinked : 0 < ((filesIn [] entries').map Prod.snd).count f.2 :=
      List.count_pos_iff.mpr (List.mem_map_of_mem hf)
    have hone := hsingle hmem hvisited.links_le hinspected
    obtain ⟨hbounded, htext⟩ := inspectData_eq_ok.mp (hdata hinspected)
    have hlinks : links' f.2 = 1 := by omega
    exact ⟨hnames, hlinks, beq_iff_eq.mp hadmitted, hbounded, htext⟩
  refine ⟨rfl, hvisited.files, fun e he => ?_, ?_, ?_⟩
  · exact (hvisited.kept e he).accepts fun f hf => hfile f (mem_filesIn.mpr ⟨e, he, hf⟩)
  · intro label hlabel
    have hcheck := forM_eq_ok.mp hrootFiles label hlabel
    split_ifs at hcheck with hisFile
    obtain ⟨inode, hlookup⟩ := Tree.isFile_iff.mp hisFile
    have hmem : ([label], inode) ∈ filesIn [] entries' :=
      mem_filesIn.mpr ⟨_, mem_of_lookup hlookup, List.mem_singleton_self _⟩
    exact ⟨inode, hlookup, (hfile _ hmem).2.single⟩
  · intro label hlabel
    have hcheck := forM_eq_ok.mp hrootDirectories label hlabel
    split_ifs at hcheck with hisDir
    exact Tree.isDir_iff.mp hisDir

/-- The files that a corpus admits of a tree. -/
def Tree.admittedFiles (admits : List Char → Option Bool) (t : Tree) : List CorpusFile :=
  ((filesIn [] t.entries).filter fun f => admits (relativePath f.1) == some true).map t.corpusFile

/-- The inventory of an exported tree has exactly the admitted files of the original one, or
fails on a bound. -/
theorem Exported.inventory {t t' : Tree} {sha256 : List UInt8 → List Char}
    (h : Exported c t t') (hfile : c.rootFiles ≠ []) :
    (∃ inventory, computeInventory c t' sha256 = .ok inventory ∧
      inventory.files.Perm (t.admittedFiles c.admits)) ∨
    (computeInventory c t' sha256 = .error .tooManyFiles ∧
      (t.admittedFiles c.admits).length > c.maxFiles) ∨
    (computeInventory c t' sha256 = .error .tooManyBytes ∧
      totalBytes (t.admittedFiles c.admits) > c.maxBytes) := by
  have hfiles : (filesIn [] t'.entries).map t'.corpusFile = t.admittedFiles c.admits := by
    rw [h.files, Tree.admittedFiles]
    refine List.map_congr_left fun f _ => ?_
    rw [Tree.corpusFile, Tree.corpusFile, h.data]
  have hcompute := computeInventory_of_accepts sha256 h.required hfile h.accepted
  rw [hfiles] at hcompute
  rcases hcompute with ⟨inventory, hinventory⟩ | hbound
  · have hperm := (computeInventory_eq_ok hinventory).2.2
    rw [hfiles] at hperm
    exact Or.inl ⟨inventory, hinventory, hperm⟩
  · exact Or.inr hbound

end ContributorGateway
