import ContributorGateway.Core.ContentIds
import ContributorGateway.Foundation.RankedLists
import ContributorGateway.Foundation.Results
import Mathlib.Data.Prod.Lex

/-!
# Retention of snapshots

The snapshot root with its children, and the pruning of old snapshots: those that are neither the
current one nor among the newest.
-/

namespace ContributorGateway.SnapshotRetention

variable {γ : Type}

/-! ## The snapshot root -/

/-- A child of the snapshot root: what `lstat` says of it, and what it contains. -/
structure Child (γ : Type) where
  name : List Char
  /-- A directory, and no link to one. -/
  isDirectory : Bool
  /-- `st_mtime_ns`. -/
  mtime : ℕ
  content : γ

/-- The snapshot root: no two children have one name. -/
@[ext]
structure Root (γ : Type) where
  children : List (Child γ)
  distinct : (children.map Child.name).Nodup

namespace Root

/-- The child with a name. -/
def find (root : Root γ) (name : List Char) : Option (Child γ) :=
  root.children.find? fun c => c.name = name

/-- The children with a property. -/
def filter (root : Root γ) (p : Child γ → Bool) : Root γ where
  children := root.children.filter p
  distinct := root.distinct.sublist (List.filter_sublist.map Child.name)

/-- The root without the child of a name. -/
def erase (root : Root γ) (name : List Char) : Root γ := root.filter fun c => c.name ≠ name

/-- No child that is left has the erased name. -/
theorem notMem_erase (root : Root γ) (name : List Char) :
    name ∉ (root.erase name).children.map Child.name := by
  rintro h
  obtain ⟨c, hc, rfl⟩ := List.mem_map.mp h
  exact of_decide_eq_true (List.mem_filter.mp hc).2 rfl

/-- The root with a child, in place of any of its name. -/
def put (root : Root γ) (child : Child γ) : Root γ where
  children := child :: (root.erase child.name).children
  distinct := List.nodup_cons.mpr ⟨notMem_erase root child.name, (root.erase child.name).distinct⟩

variable {root : Root γ} {name : List Char} {c child : Child γ}

/-- A child is found by its name. -/
theorem find_eq_some_iff : root.find name = some c ↔ c ∈ root.children ∧ c.name = name := by
  constructor
  · intro h
    exact ⟨List.mem_of_find?_eq_some h, of_decide_eq_true
      (List.find?_some (p := fun c : Child γ => decide (c.name = name)) h)⟩
  · rintro ⟨hc, rfl⟩
    cases hfind : root.find c.name with
    | none =>
      have hnone := List.find?_eq_none.mp hfind c hc
      exact absurd (decide_eq_true rfl) hnone
    | some other =>
      have hother : decide (other.name = c.name) = true :=
        List.find?_some (p := fun d : Child γ => decide (d.name = c.name)) hfind
      have hsame := List.inj_on_of_nodup_map root.distinct (List.mem_of_find?_eq_some hfind) hc
        (of_decide_eq_true hother)
      rw [hsame]

/-- What is found after a child was put. -/
theorem find_put (other : List Char) : (root.put child).find other =
    if other = child.name then some child else root.find other := by
  split_ifs with h
  · exact find_eq_some_iff.mpr ⟨List.mem_cons_self, h.symm⟩
  · apply Option.ext
    intro c
    rw [find_eq_some_iff, find_eq_some_iff]
    constructor
    · rintro ⟨hc, rfl⟩
      rcases List.mem_cons.mp hc with rfl | hc
      · exact absurd rfl h
      · exact ⟨(List.mem_filter.mp hc).1, rfl⟩
    · rintro ⟨hc, rfl⟩
      exact ⟨List.mem_cons_of_mem _ (List.mem_filter.mpr ⟨hc, decide_eq_true h⟩), rfl⟩

/-- What is found after a child was erased. -/
theorem find_erase (other : List Char) : (root.erase name).find other =
    if other = name then none else root.find other := by
  apply Option.ext
  intro c
  rw [find_eq_some_iff]
  split_ifs with h
  · refine iff_of_false ?_ nofun
    rintro ⟨hc, hname⟩
    exact of_decide_eq_true (List.mem_filter.mp hc).2 (hname.trans h)
  · rw [find_eq_some_iff]
    constructor
    · rintro ⟨hc, hname⟩
      exact ⟨(List.mem_filter.mp hc).1, hname⟩
    · rintro ⟨hc, hname⟩
      refine ⟨List.mem_filter.mpr ⟨hc, decide_eq_true ?_⟩, hname⟩
      rw [hname]
      exact h

end Root

/-! ## Pruning -/

/-- A directory, and no link, whose name is a commit. -/
def isCandidate (c : Child γ) : Bool := c.isDirectory && isCommit c.name

/-- The key of the order of candidates, of which the greatest come first. -/
def pruneKey (c : Child γ) : (ℕ ×ₗ List Char)ᵒᵈ := OrderDual.toDual (toLex (c.mtime, c.name))

/-- The sorted `candidates`. -/
def candidates (root : Root γ) : List (Child γ) :=
  (root.children.filter isCandidate).insertionSort fun a b => pruneKey a ≤ pruneKey b

/-- The candidates that are not `retained`. -/
def victims (root : Root γ) (selected : List Char) (keep : ℕ) : List (Child γ) :=
  let retained := selected :: ((candidates root).take keep).map Child.name
  (candidates root).filter fun c => !retained.contains c.name

/-- `prune`, with the name of the current snapshot in the root. -/
def prune (root : Root γ) (selected : List Char) (keep : ℕ) :
    Except String (List (List Char) × Root γ) :=
  if (root.find selected).isNone then .error "No such file or directory"
  else if ¬ isCommit selected then
    .error "current snapshot is not a versioned child of the snapshot root"
  else
    let removed := (victims root selected keep).map Child.name
    .ok (removed, root.filter fun c => !removed.contains c.name)

/-- `main`. -/
def pruneMain (root : Root γ) (selected : List Char) (keep : ℤ) :
    Except String (List (List Char) × Root γ) :=
  if ¬ (1 ≤ keep ∧ keep ≤ 10) then .error "keep must be in 1..10"
  else prune root selected keep.toNat

variable {root : Root γ} {selected : List Char} {keep : ℕ} {c : Child γ}

/-- The candidates are the children that are. -/
theorem mem_candidates : c ∈ candidates root ↔ c ∈ root.children ∧ isCandidate c = true := by
  rw [candidates, List.mem_insertionSort, List.mem_filter]

/-- Children have different names. -/
theorem eq_of_name {d : Child γ} (hc : c ∈ root.children) (hd : d ∈ root.children)
    (h : c.name = d.name) : c = d :=
  List.inj_on_of_nodup_map root.distinct hc hd h

/-- The names of the candidates are different. -/
theorem nodup_candidates (root : Root γ) : ((candidates root).map Child.name).Nodup :=
  ((List.perm_insertionSort _ _).map Child.name).nodup_iff.mpr (root.filter isCandidate).distinct

/-- The candidates are in the order of different keys. -/
theorem pairwise_candidates (root : Root γ) :
    (candidates root).Pairwise fun a b => pruneKey a < pruneKey b := by
  have hsorted := pairwise_sorted pruneKey (root.children.filter isCandidate)
  have hdistinct := List.pairwise_map.mp (nodup_candidates root)
  refine hsorted.imp₂ (fun a b hle hne => ?_) hdistinct
  refine lt_of_le_of_ne hle fun heq => hne ?_
  exact congrArg (fun key => (ofLex (OrderDual.ofDual key)).2) heq

/-- How many candidates are newer than a child; of those of one time, a greater name counts as
newer. -/
def newer (root : Root γ) (c : Child γ) : ℕ :=
  root.children.countP fun d => isCandidate d && decide (pruneKey d < pruneKey c)

/-- A candidate is among the first exactly if few are newer. -/
theorem mem_take_candidates (hc : c ∈ candidates root) :
    c ∈ (candidates root).take keep ↔ newer root c < keep := by
  rw [mem_take_iff_countP_lt (pairwise_candidates root) hc, newer]
  have hperm := List.perm_insertionSort (fun a b => pruneKey a ≤ pruneKey b)
    (root.children.filter isCandidate)
  rw [candidates, hperm.countP_eq, List.countP_filter]
  simp only [Bool.and_comm]

/-- The victims are the candidates that are neither current nor among the newest. -/
theorem mem_victims : c ∈ victims root selected keep ↔
    c ∈ root.children ∧ isCandidate c = true ∧ c.name ≠ selected ∧ keep ≤ newer root c := by
  rw [victims, List.mem_filter, mem_candidates, and_assoc]
  refine and_congr_right fun hc => and_congr_right fun hcandidate => ?_
  have hmem := mem_candidates.mpr ⟨hc, hcandidate⟩
  have htake : c.name ∈ ((candidates root).take keep).map Child.name ↔
      c ∈ (candidates root).take keep := by
    constructor
    · intro h
      obtain ⟨d, hd, hname⟩ := List.mem_map.mp h
      have hd' := (mem_candidates.mp (List.mem_of_mem_take hd)).1
      rw [eq_of_name hc hd' hname.symm]
      exact hd
    · exact List.mem_map_of_mem
  rw [Bool.not_eq_true', ← Bool.not_eq_true, List.contains_iff_mem, List.mem_cons, not_or, htake,
    mem_take_candidates hmem, not_lt]

/-- The names of the victims. -/
theorem mem_names_victims (hc : c ∈ root.children) :
    c.name ∈ (victims root selected keep).map Child.name ↔
      isCandidate c = true ∧ c.name ≠ selected ∧ keep ≤ newer root c := by
  constructor
  · intro h
    obtain ⟨d, hd, hname⟩ := List.mem_map.mp h
    obtain ⟨hmem, hvictim⟩ := mem_victims.mp hd
    rw [eq_of_name hc hmem hname.symm]
    exact hvictim
  · intro h
    exact List.mem_map_of_mem (mem_victims.mpr ⟨hc, h⟩)

/-- What pruning gives. -/
theorem prune_eq_ok {removed : List (List Char)} {root' : Root γ} :
    prune root selected keep = .ok (removed, root') ↔
      (root.find selected).isSome = true ∧ isCommit selected = true ∧
        removed = (victims root selected keep).map Child.name ∧
        root' = root.filter fun c => !removed.contains c.name := by
  rw [prune]
  cases hfind : root.find selected with
  | none => exact iff_of_false nofun fun h => by cases h.1
  | some current =>
    rw [if_neg (show ¬ (some current).isNone = true from Bool.false_ne_true)]
    by_cases hcommit : isCommit selected = true
    · rw [if_neg (not_not.mpr hcommit), Except.ok.injEq, Prod.mk.injEq]
      constructor
      · rintro ⟨rfl, rfl⟩
        exact ⟨rfl, hcommit, rfl, rfl⟩
      · rintro ⟨-, -, rfl, rfl⟩
        exact ⟨rfl, rfl⟩
    · rw [if_pos hcommit]
      exact iff_of_false nofun fun h => hcommit h.2.1

/-- The candidates that are retained, counted. -/
theorem countP_retained :
    (root.filter fun c => !((victims root selected keep).map Child.name).contains c.name).children.countP
        isCandidate =
      (candidates root).countP fun c => decide (c.name = selected ∨ newer root c < keep) := by
  have hperm := List.perm_insertionSort (fun a b => pruneKey a ≤ pruneKey b)
    (root.children.filter isCandidate)
  rw [candidates, hperm.countP_eq, List.countP_filter, Root.filter, List.countP_filter]
  refine List.countP_congr fun c hc => ?_
  have hvictim := @mem_names_victims γ root selected keep c hc
  rw [Bool.and_eq_true, Bool.and_eq_true, Bool.not_eq_true', ← Bool.not_eq_true,
    List.contains_iff_mem, hvictim, decide_eq_true_eq]
  constructor
  · rintro ⟨hcandidate, hkept⟩
    refine ⟨?_, hcandidate⟩
    by_contra hother
    rw [not_or, not_lt] at hother
    exact hkept ⟨hcandidate, hother⟩
  · rintro ⟨hkept, hcandidate⟩
    refine ⟨hcandidate, ?_⟩
    rintro ⟨-, hname, hnewer⟩
    rcases hkept with rfl | hlt
    · exact hname rfl
    · omega

/-- At most one candidate more than asked for is retained. -/
theorem countP_retained_le : ((candidates root).countP fun c =>
    decide (c.name = selected ∨ newer root c < keep)) ≤ keep + 1 := by
  have hsplit := List.take_append_drop keep (candidates root)
  have hordered := pairwise_candidates root
  have hnames := nodup_candidates root
  rw [← hsplit] at hordered hnames
  rw [← hsplit, List.countP_append]
  have hfirst : ((candidates root).take keep).countP
      (fun c => decide (c.name = selected ∨ newer root c < keep)) ≤ keep :=
    List.countP_le_length.trans (List.length_take_le _ _)
  have hlater : ((candidates root).drop keep).countP
      (fun c => decide (c.name = selected ∨ newer root c < keep)) ≤
        ((candidates root).drop keep).countP fun c => c.name == selected := by
    refine List.countP_mono_left fun c hc hkept => ?_
    rcases of_decide_eq_true hkept with hname | hnew
    · exact beq_iff_eq.mpr hname
    · have htake := (mem_take_candidates (List.mem_of_mem_drop hc)).mpr hnew
      exact absurd ((List.pairwise_append.mp hordered).2.2 c htake c hc) (lt_irrefl _)
  have hone : ((candidates root).drop keep).countP (fun c => c.name == selected) ≤ 1 := by
    rw [List.map_append] at hnames
    have hcount := List.nodup_iff_count_le_one.mp hnames.of_append_right selected
    rw [List.count, List.countP_map] at hcount
    exact hcount
  omega

/-- Pruning leaves at most one snapshot more than asked for. -/
theorem countP_prune_le {removed : List (List Char)} {root' : Root γ}
    (h : prune root selected keep = .ok (removed, root')) :
    root'.children.countP isCandidate ≤ keep + 1 := by
  obtain ⟨-, -, rfl, rfl⟩ := prune_eq_ok.mp h
  rw [countP_retained]
  exact countP_retained_le

/-- **Retention.** Pruning removes exactly the directories named by a commit that are not current
and have at least as many newer ones as are kept, and touches nothing else. The current snapshot
stays; of the snapshots at least the asked number is left, if there are so many, and at most one
more; and pruning again removes nothing. The script prunes so exactly for the numbers in 1..10. -/
theorem prune_spec {removed : List (List Char)} {root' : Root γ}
    (h : prune root selected keep = .ok (removed, root')) :
    (∀ c ∈ root.children, c.name ∈ removed ↔
      isCandidate c = true ∧ c.name ≠ selected ∧ keep ≤ newer root c) ∧
    (∀ c, c ∈ root'.children ↔ c ∈ root.children ∧ c.name ∉ removed) ∧
    root'.find selected = root.find selected ∧
    min keep (root.children.countP isCandidate) ≤ root'.children.countP isCandidate ∧
    root'.children.countP isCandidate ≤ keep + 1 ∧
    prune root' selected keep = .ok ([], root') ∧
    ∀ asked : ℤ, asked.toNat = keep →
      (pruneMain root selected asked = .ok (removed, root') ↔ 1 ≤ asked ∧ asked ≤ 10) := by
  have hcount := countP_prune_le h
  have hmain : ∀ asked : ℤ, asked.toNat = keep →
      (pruneMain root selected asked = .ok (removed, root') ↔ 1 ≤ asked ∧ asked ≤ 10) := by
    rintro asked rfl
    by_cases hbounds : 1 ≤ asked ∧ asked ≤ 10
    · rw [pruneMain, if_neg (not_not.mpr hbounds)]
      exact iff_of_true h hbounds
    · rw [pruneMain, if_pos hbounds]
      exact iff_of_false nofun hbounds
  obtain ⟨hcurrent, hcommit, rfl, rfl⟩ := prune_eq_ok.mp h
  have hleft : ∀ c, c ∈ (root.filter fun c =>
      !((victims root selected keep).map Child.name).contains c.name).children ↔
        c ∈ root.children ∧ c.name ∉ (victims root selected keep).map Child.name := by
    intro c
    rw [Root.filter, List.mem_filter, Bool.not_eq_true', ← Bool.not_eq_true, List.contains_iff_mem]
  have hfind : (root.filter fun c =>
      !((victims root selected keep).map Child.name).contains c.name).find selected =
        root.find selected := by
    apply Option.ext
    intro c
    rw [Root.find_eq_some_iff, Root.find_eq_some_iff, hleft, and_assoc]
    refine and_congr_right fun hc => and_iff_right_of_imp ?_
    rintro rfl hvictim
    exact ((mem_names_victims hc).mp hvictim).2.1 rfl
  have hlength : (candidates root).length = root.children.countP isCandidate := by
    rw [candidates, List.length_insertionSort, List.countP_eq_length_filter]
  refine ⟨fun c hc => mem_names_victims hc, hleft, hfind, ?_, hcount, ?_, hmain⟩
  · rw [countP_retained]
    have hfirst : ((candidates root).take keep).countP
        (fun c => decide (c.name = selected ∨ newer root c < keep)) =
          ((candidates root).take keep).length := by
      refine List.countP_eq_length.mpr fun c hc => decide_eq_true (Or.inr ?_)
      exact (mem_take_candidates (List.mem_of_mem_take hc)).mp hc
    rw [← hlength, ← List.length_take, ← hfirst]
    exact (List.take_sublist keep (candidates root)).countP_le
  · refine prune_eq_ok.mpr ⟨?_, hcommit, ?_, ?_⟩
    · rw [hfind]
      exact hcurrent
    · refine (List.map_eq_nil_iff.mpr (List.eq_nil_iff_forall_not_mem.mpr fun c hc => ?_)).symm
      obtain ⟨hmem, hcandidate, hname, hnewer⟩ := mem_victims.mp hc
      obtain ⟨hchild, hkept⟩ := (hleft c).mp hmem
      apply hkept
      apply (mem_names_victims hchild).mpr
      refine ⟨hcandidate, hname, hnewer.trans ?_⟩
      exact List.filter_sublist.countP_le
    · apply Root.ext
      exact (List.filter_eq_self.mpr fun c _ => rfl).symm

/-- Five snapshots, named by five digits, with a stage that was left. -/
def fiveSnapshots : Root Unit where
  children := [⟨List.replicate 40 'a', true, 5, ()⟩, ⟨List.replicate 40 'b', true, 1, ()⟩,
    ⟨".staging.x".toList, true, 9, ()⟩, ⟨List.replicate 40 'c', true, 4, ()⟩,
    ⟨List.replicate 40 'd', true, 2, ()⟩, ⟨List.replicate 40 'e', true, 2, ()⟩]
  distinct := by decide

/-- The oldest snapshot is current and stays; of two as old as each other one goes. -/
theorem prune_spec_five : ∃ root',
    prune fiveSnapshots (List.replicate 40 'b') 3 = .ok ([List.replicate 40 'd'], root') ∧
    root'.children.countP isCandidate ≤ 4 ∧
    prune root' (List.replicate 40 'b') 3 = .ok ([], root') ∧
    pruneMain fiveSnapshots (List.replicate 40 'b') 3 = .ok ([List.replicate 40 'd'], root') := by
  have hprune : prune fiveSnapshots (List.replicate 40 'b') 3 =
      .ok ([List.replicate 40 'd'],
        fiveSnapshots.filter fun c => ! [List.replicate 40 'd'].contains c.name) := by
    apply prune_eq_ok.mpr
    refine ⟨by decide, by decide, by decide, rfl⟩
  obtain ⟨-, -, -, -, hcount, hagain, hmain⟩ := prune_spec hprune
  exact ⟨_, hprune, hcount, hagain, (hmain 3 rfl).mpr (by omega)⟩

end ContributorGateway.SnapshotRetention
