import ContributorGateway.Foundation.PosixPath
import ContributorGateway.Foundation.Results
import ContributorGateway.Foundation.TextLines

/-!
# File trees

Directories with their entries in the order in which they are listed, files with their inodes,
and the walk that visits every directory after the directories in it.
-/

namespace ContributorGateway

/-- What a name in a directory stands for. -/
inductive Node where
  /-- A regular file. Files with one inode are hard links to the same bytes. -/
  | file (inode : ℕ)
  | symlink (toDirectory : Bool)
  /-- A socket, a pipe or a device. -/
  | special
  | dir (entries : List (List Char × Node))

/-- The entries of a directory. -/
abbrev Entries := List (List Char × Node)

namespace Node

/-- Structural induction in which the entries of directories carry the hypothesis by
membership. -/
@[elab_as_elim]
theorem induct {motive : Node → Prop} (file : ∀ inode, motive (.file inode))
    (symlink : ∀ toDirectory, motive (.symlink toDirectory)) (special : motive .special)
    (dir : ∀ entries, (∀ e ∈ entries, motive e.2) → motive (.dir entries)) :
    ∀ node, motive node := by
  intro node
  refine Node.rec (motive_1 := motive) (motive_2 := fun entries => ∀ e ∈ entries, motive e.2)
    (motive_3 := fun e => motive e.2) file symlink special dir ?_ ?_ ?_ node
  · simp
  · intro head tail hhead htail e he
    rcases List.mem_cons.mp he with rfl | he
    · exact hhead
    · exact htail e he
  · intro _ _ h
    exact h

mutual
/-- The files below a node, each with the names that lead to it and its inode. -/
def filesAt (parts : List (List Char)) : Node → List (List (List Char) × ℕ)
  | file inode => [(parts, inode)]
  | symlink _ => []
  | special => []
  | dir entries => filesIn parts entries

/-- The files below the entries of a directory. -/
def filesIn (parts : List (List Char)) : Entries → List (List (List Char) × ℕ)
  | [] => []
  | (name, node) :: rest => filesAt (parts ++ [name]) node ++ filesIn parts rest
end

mutual
/-- No symlink and no special file is below the node. -/
def Ordinary : Node → Prop
  | file _ => True
  | symlink _ => False
  | special => False
  | dir entries => OrdinaryEntries entries

/-- No symlink and no special file is below the entries. -/
def OrdinaryEntries : Entries → Prop
  | [] => True
  | (_, node) :: rest => Ordinary node ∧ OrdinaryEntries rest
end

/-- A name in a directory: a name of a path, without NUL and other than the parent. -/
def IsFileName (name : List Char) : Prop :=
  PurePosixPath.IsName name ∧ name ≠ ['.', '.'] ∧ nul ∉ name

mutual
/-- Every directory below the node has proper names. -/
def WellNamed : Node → Prop
  | dir entries => (entries.map Prod.fst).Nodup ∧ WellNamedEntries entries
  | _ => True

/-- The names of the entries are proper, and those below them. -/
def WellNamedEntries : Entries → Prop
  | [] => True
  | (name, node) :: rest => (IsFileName name ∧ WellNamed node) ∧ WellNamedEntries rest
end

variable {parts : List (List Char)} {entries : Entries}

theorem filesIn_eq_flatMap :
    filesIn parts entries = entries.flatMap fun e => e.2.filesAt (parts ++ [e.1]) := by
  induction entries with
  | nil => rfl
  | cons e entries ih => rw [filesIn, ih, List.flatMap_cons]

@[simp] theorem filesAt_dir : (dir entries).filesAt parts = filesIn parts entries := rfl

theorem mem_filesIn {f : List (List Char) × ℕ} :
    f ∈ filesIn parts entries ↔ ∃ e ∈ entries, f ∈ e.2.filesAt (parts ++ [e.1]) := by
  rw [filesIn_eq_flatMap, List.mem_flatMap]

@[simp] theorem ordinaryEntries_iff : OrdinaryEntries entries ↔ ∀ e ∈ entries, e.2.Ordinary := by
  induction entries with
  | nil => simp [OrdinaryEntries]
  | cons e entries ih => simp [OrdinaryEntries, ih]

@[simp] theorem wellNamedEntries_iff :
    WellNamedEntries entries ↔ ∀ e ∈ entries, IsFileName e.1 ∧ e.2.WellNamed := by
  induction entries with
  | nil => simp [WellNamedEntries]
  | cons e entries ih => simp [WellNamedEntries, ih]

/-- The names that lead to a file are those that lead to the node, and proper names. -/
theorem names_of_mem_filesAt {node : Node} (hnode : node.WellNamed) {f : List (List Char) × ℕ}
    (hf : f ∈ node.filesAt parts) :
    ∃ more, f.1 = parts ++ more ∧ ∀ part ∈ more, IsFileName part := by
  induction node using Node.induct generalizing parts with
  | file inode =>
    obtain rfl := List.mem_singleton.mp hf
    exact ⟨[], (List.append_nil _).symm, List.forall_mem_nil _⟩
  | symlink toDirectory => cases hf
  | special => cases hf
  | dir entries ih =>
    obtain ⟨e, he, hf⟩ := mem_filesIn.mp hf
    obtain ⟨hname, hbelow⟩ := wellNamedEntries_iff.mp hnode.2 e he
    obtain ⟨more, hmore, hproper⟩ := ih e he hbelow hf
    refine ⟨e.1 :: more, ?_, List.forall_mem_cons.mpr ⟨hname, hproper⟩⟩
    rw [hmore, List.append_assoc, List.singleton_append]

/-! ## The walk -/

section

variable {ε σ : Type} (visit : List (List Char) → σ → Entries → Except ε (σ × Entries))

mutual
/-- Walk a node from the bottom up: a directory is visited after those in it. -/
def walk (parts : List (List Char)) (state : σ) : Node → Except ε (σ × Node)
  | dir entries => do
      let (state, entries) ← walkEntries parts state entries
      let (state, entries) ← visit parts state entries
      .ok (state, dir entries)
  | node => .ok (state, node)

/-- Walk the entries of a directory in their order. -/
def walkEntries (parts : List (List Char)) (state : σ) : Entries → Except ε (σ × Entries)
  | [] => .ok (state, [])
  | (name, node) :: rest => do
      let (state, node) ← walk (parts ++ [name]) state node
      let (state, rest) ← walkEntries parts state rest
      .ok (state, (name, node) :: rest)
end

/-- `os.walk(root, topdown=False)` with the body of its loop. -/
def walkBottomUp (state : σ) (root : Entries) : Except ε (σ × Entries) := do
  let (state, entries) ← walkEntries visit [] state root
  visit [] state entries

/-- **The rule of the walk.** `Visited` holds of a directory before and after its visit when
`Walked` holds of its entries before and after they were walked. -/
structure WalkRule (Walked Visited : List (List Char) → σ → Entries → σ → Entries → Prop) :
    Prop where
  nil : ∀ parts state, Walked parts state [] state []
  keep : ∀ {parts state rest state' rest'} name node, (∀ entries, node ≠ dir entries) →
    Walked parts state rest state' rest' →
      Walked parts state ((name, node) :: rest) state' ((name, node) :: rest')
  descend : ∀ {parts state state₁ state' name entries entries' rest rest'},
    Visited (parts ++ [name]) state entries state₁ entries' →
      Walked parts state₁ rest state' rest' →
        Walked parts state ((name, dir entries) :: rest) state' ((name, dir entries') :: rest')
  visit : ∀ {parts state entries state₁ entries₁ state' entries'},
    Walked parts state entries state₁ entries₁ →
      visit parts state₁ entries₁ = .ok (state', entries') →
        Visited parts state entries state' entries'

variable {visit} {Walked Visited : List (List Char) → σ → Entries → σ → Entries → Prop}

/-- The entries of a directory are walked when every directory in it is. -/
theorem WalkRule.walked (rule : WalkRule visit Walked Visited) {state state' : σ}
    {entries' : Entries}
    (hnodes : ∀ e ∈ entries, ∀ es parts state state' node', e.2 = dir es →
      walk visit parts state e.2 = .ok (state', node') →
        ∃ es', node' = dir es' ∧ Visited parts state es state' es')
    (h : walkEntries visit parts state entries = .ok (state', entries')) :
    Walked parts state entries state' entries' := by
  induction entries generalizing state entries' with
  | nil =>
    obtain ⟨rfl, rfl⟩ := Prod.mk.inj (Except.ok.inj h)
    exact rule.nil parts state
  | cons e entries ih =>
    obtain ⟨⟨state₁, node'⟩, hnode, h⟩ := bind_eq_ok.mp h
    obtain ⟨⟨state₂, rest'⟩, hrest, h⟩ := bind_eq_ok.mp h
    obtain ⟨rfl, rfl⟩ := Prod.mk.inj (Except.ok.inj h)
    have hwalked := ih (fun e' he' => hnodes e' (List.mem_cons_of_mem e he')) hrest
    obtain ⟨name, node⟩ := e
    cases node with
    | dir es =>
      obtain ⟨es', rfl, hvisited⟩ := hnodes _ (List.mem_cons_self ..) es _ _ _ _ rfl hnode
      exact rule.descend hvisited hwalked
    | _ =>
      obtain ⟨rfl, rfl⟩ := Prod.mk.inj (Except.ok.inj hnode)
      exact rule.keep name _ nofun hwalked

/-- A walked directory is visited. -/
theorem WalkRule.visited (rule : WalkRule visit Walked Visited) (node : Node) :
    ∀ es parts state state' node', node = dir es →
      walk visit parts state node = .ok (state', node') →
        ∃ es', node' = dir es' ∧ Visited parts state es state' es' := by
  induction node using Node.induct with
  | dir entries ih =>
    rintro es parts state state' node' ⟨⟩ h
    obtain ⟨⟨state₁, entries₁⟩, hwalk, h⟩ := bind_eq_ok.mp h
    obtain ⟨⟨state₂, entries₂⟩, hvisit, h⟩ := bind_eq_ok.mp h
    obtain ⟨rfl, rfl⟩ := Prod.mk.inj (Except.ok.inj h)
    exact ⟨entries₂, rfl, rule.visit (rule.walked ih hwalk) hvisit⟩
  | _ => exact nofun

/-- The walk of a whole tree visits its root. -/
theorem WalkRule.bottomUp (rule : WalkRule visit Walked Visited) {state state' : σ}
    {root root' : Entries} (h : walkBottomUp visit state root = .ok (state', root')) :
    Visited [] state root state' root' := by
  obtain ⟨⟨state₁, entries₁⟩, hwalk, hvisit⟩ := bind_eq_ok.mp h
  exact rule.visit (rule.walked (fun e _ => rule.visited e.2) hwalk) hvisit

end

end Node

end ContributorGateway
