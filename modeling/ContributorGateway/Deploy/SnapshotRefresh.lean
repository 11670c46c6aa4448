import ContributorGateway.Deploy.SnapshotRetention
import ContributorGateway.Foundation.Machine

/-!
# Refreshes of the snapshot

The refresh scripts as machines: runs that wait for the lock, fetch a commit, build and promote its
snapshot, select it in the environment file, recreate the gateway, roll back or prune. A run may
fail or be killed at any point, and others may start at any time.
-/

namespace ContributorGateway.SnapshotRefresh

open SnapshotRetention

/-! ## The scripts -/

/-- What the scripts use of the tools, for snapshots of some kind. -/
structure Tools (γ : Type) where
  /-- The validator, with the requirement of a read-only tree. -/
  accepts : Bool → γ → Bool
  /-- The commit in the manifest, if there is one. -/
  commitOf : γ → Option (List Char)

/-- Where a run of the script is. -/
inductive Point where
  /-- Before the lock. -/
  | started
  /-- With the lock, before `git rev-parse`. -/
  | locked
  /-- With `commit` and `target`. -/
  | fetched (commit : List Char)
  /-- While the archive is unpacked and exported into `stage`. -/
  | staging (commit stage : List Char)
  /-- After the validation of the writable stage. -/
  | staged (commit stage : List Char)
  /-- With a target, before its validation. -/
  | promoted (commit : List Char)
  /-- After the validation of the target. -/
  | validated (commit : List Char)
  /-- After the selection of the target, with `previous_target`. -/
  | selected (commit : List Char) (previous : Option (List Char))
  /-- While the health of the recreated gateway is checked. -/
  | deployed (commit : List Char) (previous : Option (List Char))
  /-- After the selection of the previous target. -/
  | restored
  /-- After the health check, before `prune_snapshots`. -/
  | healthy (commit : List Char)
  /-- While the snapshots of these names are removed. -/
  | pruning (commit : List Char) (victims : List (List Char))
  | finished

/-- A run that has the lock. -/
def Point.IsActive : Point → Prop
  | .started | .finished => False
  | _ => True

/-- The stage that the trap removes when a run ends at a point. -/
def Point.stage : Point → Option (List Char)
  | .staging _ stage | .staged _ stage => some stage
  | _ => none

/-- The host: the snapshot root, the target in the environment file, the snapshot that the gateway
has mounted, the holder of the lock and the runs. -/
structure State (γ : Type) where
  root : Root γ
  env : Option (List Char)
  mounted : Option (Child γ)
  holder : Option ℕ
  point : ℕ → Point

/-- The labels of the steps. -/
inductive Event where
  | lock (i : ℕ)
  | busy (i : ℕ)
  | fetch (i : ℕ) (commit : List Char)
  | present (i : ℕ)
  | stage (i : ℕ)
  | write (i : ℕ)
  | signal (i : ℕ)
  | exportStage (i : ℕ)
  | chmod (i : ℕ)
  | promote (i : ℕ)
  | validate (i : ℕ)
  | buildOnly (i : ℕ)
  | select (i : ℕ)
  | recreate (i : ℕ)
  | rollBack (i : ℕ)
  | recreatePrevious (i : ℕ)
  | check (i : ℕ)
  | prune (i : ℕ)
  | damage (i : ℕ)
  | remove (i : ℕ)
  | complete (i : ℕ) (commit : List Char)
  | fail (i : ℕ)
  deriving DecidableEq

/-- How many snapshots `prune_snapshots` keeps. -/
def keepSnapshots : ℕ := 3

variable {γ : Type} (T : Tools γ)

/-- A run goes on at a point. -/
def State.goto (s : State γ) (i : ℕ) (p : Point) : State γ :=
  { s with point := Function.update s.point i p }

/-- A run is over, and the lock is free. -/
def State.finish (s : State γ) (i : ℕ) : State γ :=
  { s.goto i .finished with holder := none }

/-- What may be mounted after `docker compose up`, if it fails: the snapshot of before, none, or
the selected one. -/
def State.MayMount (s : State γ) (mounted : Option (Child γ)) : Prop :=
  mounted = s.mounted ∨ mounted = none ∨ mounted = s.env.bind s.root.find

/-- A step of a script. -/
inductive Step : State γ → Event → State γ → Prop
  | lock {s : State γ} {i : ℕ} (hpoint : s.point i = .started) (hfree : s.holder = none) :
      Step s (.lock i) { s.goto i .locked with holder := some i }
  | busy {s : State γ} {i j : ℕ} (hpoint : s.point i = .started) (hheld : s.holder = some j) :
      Step s (.busy i) (s.goto i .finished)
  | fetch {s : State γ} {i : ℕ} {commit : List Char} (hpoint : s.point i = .locked)
      (hcommit : isCommit commit = true) : Step s (.fetch i commit) (s.goto i (.fetched commit))
  | present {s : State γ} {i : ℕ} {commit : List Char} {c : Child γ}
      (hpoint : s.point i = .fetched commit) (hfind : s.root.find commit = some c)
      (hdirectory : c.isDirectory = true) : Step s (.present i) (s.goto i (.promoted commit))
  | stage {s : State γ} {i : ℕ} {commit suffix : List Char} {mtime : ℕ} {content : γ}
      (hpoint : s.point i = .fetched commit)
      (habsent : ∀ c ∈ s.root.find commit, c.isDirectory = false)
      (hfresh : s.root.find (".staging.".toList ++ suffix) = none) :
      Step s (.stage i)
        { s.goto i (.staging commit (".staging.".toList ++ suffix)) with
          root := s.root.put ⟨".staging.".toList ++ suffix, true, mtime, content⟩ }
  | write {s : State γ} {i : ℕ} {commit stage : List Char} {c : Child γ} {mtime : ℕ} {content : γ}
      (hpoint : s.point i = .staging commit stage) (hfind : s.root.find stage = some c) :
      Step s (.write i) { s with root := s.root.put ⟨stage, true, mtime, content⟩ }
  | signal {s : State γ} {i : ℕ} {stage : List Char} (hstage : stage ∈ (s.point i).stage) :
      Step s (.signal i) { s with root := s.root.erase stage }
  | exportStage {s : State γ} {i : ℕ} {commit stage : List Char} {c : Child γ}
      (hpoint : s.point i = .staging commit stage) (hfind : s.root.find stage = some c)
      (hmanifest : T.commitOf c.content = some commit)
      (haccepted : T.accepts false c.content = true) :
      Step s (.exportStage i) (s.goto i (.staged commit stage))
  | chmod {s : State γ} {i : ℕ} {commit stage : List Char} {c : Child γ} {content : γ}
      (hpoint : s.point i = .staged commit stage) (hfind : s.root.find stage = some c)
      (hsame : T.commitOf content = T.commitOf c.content) :
      Step s (.chmod i) { s with root := s.root.put { c with content := content } }
  | promote {s : State γ} {i : ℕ} {commit stage : List Char} {c : Child γ}
      (hpoint : s.point i = .staged commit stage) (hfind : s.root.find stage = some c)
      (habsent : s.root.find commit = none) :
      Step s (.promote i)
        { s.goto i (.promoted commit) with
          root := (s.root.erase stage).put { c with name := commit } }
  | validate {s : State γ} {i : ℕ} {commit : List Char} {c : Child γ}
      (hpoint : s.point i = .promoted commit) (hfind : s.root.find commit = some c)
      (hdirectory : c.isDirectory = true) (haccepted : T.accepts true c.content = true) :
      Step s (.validate i) (s.goto i (.validated commit))
  | buildOnly {s : State γ} {i : ℕ} {commit : List Char} (hpoint : s.point i = .validated commit) :
      Step s (.buildOnly i) (s.finish i)
  | select {s : State γ} {i : ℕ} {commit : List Char} (hpoint : s.point i = .validated commit) :
      Step s (.select i) { s.goto i (.selected commit s.env) with env := some commit }
  | recreate {s : State γ} {i : ℕ} {commit : List Char} {previous : Option (List Char)}
      (hpoint : s.point i = .selected commit previous) :
      Step s (.recreate i)
        { s.goto i (.deployed commit previous) with mounted := s.env.bind s.root.find }
  | rollBack {s : State γ} {i : ℕ} {commit name : List Char} {c : Child γ}
      (hpoint : s.point i = .deployed commit (some name)) (hfind : s.root.find name = some c)
      (hdirectory : c.isDirectory = true) :
      Step s (.rollBack i) { s.goto i .restored with env := some name }
  | recreatePrevious {s : State γ} {i : ℕ} (hpoint : s.point i = .restored) :
      Step s (.recreatePrevious i) { s.finish i with mounted := s.env.bind s.root.find }
  | check {s : State γ} {i : ℕ} {commit : List Char} {previous : Option (List Char)} {c : Child γ}
      (hpoint : s.point i = .deployed commit previous) (hmounted : s.mounted = some c)
      (hserved : T.commitOf c.content = some commit) :
      Step s (.check i) (s.goto i (.healthy commit))
  | prune {s : State γ} {i : ℕ} {commit : List Char} {removed : List (List Char)} {root' : Root γ}
      (hpoint : s.point i = .healthy commit)
      (hprune : prune s.root commit keepSnapshots = .ok (removed, root')) :
      Step s (.prune i) (s.goto i (.pruning commit removed))
  | damage {s : State γ} {i : ℕ} {commit victim : List Char} {victims : List (List Char)}
      {c : Child γ} {mtime : ℕ} {content : γ}
      (hpoint : s.point i = .pruning commit (victim :: victims))
      (hfind : s.root.find victim = some c)
      (hrest : T.commitOf content = T.commitOf c.content ∨ T.commitOf content = none) :
      Step s (.damage i)
        { s with root := s.root.put { c with mtime := mtime, content := content } }
  | remove {s : State γ} {i : ℕ} {commit victim : List Char} {victims : List (List Char)}
      (hpoint : s.point i = .pruning commit (victim :: victims)) :
      Step s (.remove i)
        { s.goto i (.pruning commit victims) with root := s.root.erase victim }
  | complete {s : State γ} {i : ℕ} {commit : List Char}
      (hpoint : s.point i = .pruning commit []) : Step s (.complete i commit) (s.finish i)
  | fail {s : State γ} {i : ℕ} {root : Root γ} {mounted : Option (Child γ)}
      (hactive : (s.point i).IsActive)
      (hroot : root = s.root ∨ ∃ stage ∈ (s.point i).stage, root = s.root.erase stage)
      (hmounted : s.MayMount mounted) :
      Step s (.fail i) { s.finish i with root := root, mounted := mounted }

/-! ## What is safe -/

/-- A snapshot that is named by a commit and that the validator accepts. -/
structure IsGood (c : Child γ) : Prop where
  directory : c.isDirectory = true
  commit : isCommit c.name = true
  accepted : T.accepts true c.content = true

/-- The root holds a good snapshot of a name. -/
def Holds (root : Root γ) (name : List Char) : Prop := ∃ c, root.find name = some c ∧ IsGood T c

/-- The manifests of the directories that are named by commits are those of these commits. -/
def Genuine (root : Root γ) : Prop :=
  ∀ c ∈ root.children, isCandidate c = true → ∀ commit ∈ T.commitOf c.content, commit = c.name

/-- The host before the first refresh: nothing is selected or mounted but good snapshots. -/
structure IsStart (s : State γ) : Prop where
  genuine : Genuine T s.root
  env : ∀ name ∈ s.env, Holds T s.root name
  mounted : ∀ c ∈ s.mounted, s.root.find c.name = some c ∧ IsGood T c
  holder : s.holder = none
  point : s.point = fun _ => .started

/-- Hosts with refreshes. -/
def machine : Machine (State γ) Event where
  start := IsStart T
  step := Step T

variable {T} {root : Root γ} {name : List Char} {child c : Child γ} {s s' : State γ} {i : ℕ}
  {history : List Event}

/-- The name of a stage is no commit. -/
theorem isCommit_stage (suffix : List Char) : isCommit (".staging.".toList ++ suffix) = false := by
  rw [isCommit, Bool.and_eq_false_iff]
  right
  rw [show ".staging.".toList = '.' :: "staging.".toList from rfl, List.cons_append, List.all_cons,
    Bool.and_eq_false_iff]
  exact Or.inl (by decide)

/-- A snapshot of another name stays. -/
theorem Holds.put (h : Holds T root name) (hne : name ≠ child.name) :
    Holds T (root.put child) name := by
  obtain ⟨c, hfind, hgood⟩ := h
  refine ⟨c, ?_, hgood⟩
  rw [Root.find_put, if_neg hne]
  exact hfind

/-- A snapshot of another name stays. -/
theorem Holds.erase (h : Holds T root name) {other : List Char} (hne : name ≠ other) :
    Holds T (root.erase other) name := by
  obtain ⟨c, hfind, hgood⟩ := h
  refine ⟨c, ?_, hgood⟩
  rw [Root.find_erase, if_neg hne]
  exact hfind

/-- A snapshot that the root holds is named by a commit. -/
theorem Holds.isCommit (h : Holds T root name) : isCommit name = true := by
  obtain ⟨c, hfind, hgood⟩ := h
  rw [← (Root.find_eq_some_iff.mp hfind).2]
  exact hgood.commit

/-- A child may be put that is none of a commit, or has its manifest. -/
theorem Genuine.put (h : Genuine T root) (hchild : isCandidate child = true →
    ∀ commit ∈ T.commitOf child.content, commit = child.name) : Genuine T (root.put child) := by
  intro c hc hcandidate
  rcases List.mem_cons.mp hc with rfl | hc
  · exact hchild hcandidate
  · exact h c (List.mem_filter.mp hc).1 hcandidate

/-- A child may be erased. -/
theorem Genuine.erase (h : Genuine T root) (name : List Char) : Genuine T (root.erase name) :=
  fun c hc => h c (List.mem_filter.mp hc).1

/-! ## The invariant -/

/-- How many snapshots are left besides those that are still to be removed. -/
def countLeft (root : Root γ) (victims : List (List Char)) : ℕ :=
  root.children.countP fun c => isCandidate c && !victims.contains c.name

/-- What holds at a point of a run. -/
def PointHolds (T : Tools γ) (s : State γ) : Point → Prop
  | .fetched commit | .promoted commit => isCommit commit = true
  | .staging commit stage => isCommit commit = true ∧ isCommit stage = false
  | .staged commit stage => isCommit commit = true ∧ isCommit stage = false ∧
      ∀ c, s.root.find stage = some c → T.commitOf c.content = some commit
  | .validated commit => Holds T s.root commit
  | .selected commit previous | .deployed commit previous =>
      s.env = some commit ∧ ∀ name ∈ previous, Holds T s.root name
  | .healthy commit => s.env = some commit ∧
      ∃ c, s.mounted = some c ∧ c.name = commit ∧ T.commitOf c.content = some commit
  | .pruning commit victims => s.env = some commit ∧
      (∃ c, s.mounted = some c ∧ c.name = commit ∧ T.commitOf c.content = some commit) ∧
      (∀ victim ∈ victims, victim ≠ commit) ∧ countLeft s.root victims ≤ keepSnapshots + 1
  | _ => True

/-- What every step keeps. -/
structure Inv (T : Tools γ) (s : State γ) : Prop where
  genuine : Genuine T s.root
  env : ∀ name ∈ s.env, Holds T s.root name
  mounted : ∀ c ∈ s.mounted, s.root.find c.name = some c ∧ IsGood T c
  holder : ∀ i, (s.point i).IsActive → s.holder = some i
  point : ∀ i, PointHolds T s (s.point i)

/-- A snapshot that is still to be removed does not count. -/
theorem countLeft_put {victims : List (List Char)} :
    countLeft (root.put child) (child.name :: victims) ≤
      countLeft root (child.name :: victims) := by
  have hvictim : (isCandidate child && !(child.name :: victims).contains child.name) = false := by
    rw [List.contains_iff_mem.mpr List.mem_cons_self]
    exact Bool.and_false _
  rw [countLeft, Root.put, List.countP_cons_of_neg (by rw [hvictim]; exact Bool.false_ne_true)]
  exact List.filter_sublist.countP_le

/-- A removed snapshot does not count. -/
theorem countLeft_erase {victims : List (List Char)} :
    countLeft (root.erase name) victims = countLeft root (name :: victims) := by
  rw [countLeft, Root.erase, Root.filter, List.countP_filter, countLeft]
  refine List.countP_congr fun c _ => ?_
  simp only [List.contains_cons, Bool.and_eq_true, Bool.not_eq_true', Bool.or_eq_false_iff,
    decide_eq_true_eq, beq_eq_false_iff_ne, ne_eq]
  tauto

/-- At a point without the lock nothing more holds. -/
theorem pointHolds_of_not_isActive {p : Point} (h : ¬ p.IsActive) : PointHolds T s p := by
  cases p with
  | started => trivial
  | finished => trivial
  | _ => exact absurd trivial h

/-- A step of one run has to keep what holds of the host, at its own point and for the other
runs. -/
theorem Inv.move {p : Point} (hpoint : s'.point = Function.update s.point i p)
    (hholder : p.IsActive → s'.holder = some i) (hgenuine : Genuine T s'.root)
    (henv : ∀ name ∈ s'.env, Holds T s'.root name)
    (hmounted : ∀ c ∈ s'.mounted, s'.root.find c.name = some c ∧ IsGood T c)
    (hp : PointHolds T s' p)
    (hother : ∀ j, j ≠ i →
      ((s.point j).IsActive → s'.holder = some j) ∧ PointHolds T s' (s.point j)) : Inv T s' := by
  refine ⟨hgenuine, henv, hmounted, fun j hj => ?_, fun j => ?_⟩
  · rw [hpoint] at hj
    by_cases hji : j = i
    · subst hji
      rw [Function.update_self] at hj
      exact hholder hj
    · rw [Function.update_of_ne hji] at hj
      exact (hother j hji).1 hj
  · rw [hpoint]
    by_cases hji : j = i
    · subst hji
      rw [Function.update_self]
      exact hp
    · rw [Function.update_of_ne hji]
      exact (hother j hji).2

/-- Of a run without the lock nothing has to be kept. -/
theorem kept_of_not_isActive {p : Point} (h : ¬ p.IsActive) :
    (p.IsActive → s.holder = some i) ∧ PointHolds T s p :=
  ⟨fun hactive => absurd hactive h, pointHolds_of_not_isActive h⟩

/-- A step of the run with the lock has to keep what holds of the host and at its own point. -/
theorem Inv.advance (h : Inv T s) (hactive : (s.point i).IsActive) {p : Point}
    (hpoint : s'.point = Function.update s.point i p)
    (hholder : p.IsActive → s'.holder = some i) (hgenuine : Genuine T s'.root)
    (henv : ∀ name ∈ s'.env, Holds T s'.root name)
    (hmounted : ∀ c ∈ s'.mounted, s'.root.find c.name = some c ∧ IsGood T c)
    (hp : PointHolds T s' p) : Inv T s' := by
  refine Inv.move hpoint hholder hgenuine henv hmounted hp fun j hj => ?_
  apply kept_of_not_isActive
  intro hj'
  have hsame := (h.holder j hj').symm.trans (h.holder i hactive)
  exact hj (Option.some.inj hsame)

/-- A good child stays if one of another name is put. -/
theorem mounted_put (hkept : root.find c.name = some c ∧ IsGood T c) (hne : c.name ≠ child.name) :
    (root.put child).find c.name = some c ∧ IsGood T c := by
  rw [Root.find_put, if_neg hne]
  exact hkept

/-- A good child stays if one of another name is erased. -/
theorem mounted_erase (hkept : root.find c.name = some c ∧ IsGood T c) (hne : c.name ≠ name) :
    (root.erase name).find c.name = some c ∧ IsGood T c := by
  rw [Root.find_erase, if_neg hne]
  exact hkept

/-- The mounted snapshot of a selection. -/
theorem mounted_of_env (henv : ∀ name ∈ s.env, Holds T s.root name) :
    ∀ c ∈ s.env.bind s.root.find, s.root.find c.name = some c ∧ IsGood T c := by
  intro c hc
  obtain ⟨name, hname, hfind⟩ := Option.bind_eq_some_iff.mp hc
  obtain ⟨c', hfind', hgood⟩ := henv name hname
  obtain rfl := Option.some.inj (hfind.symm.trans hfind')
  refine ⟨?_, hgood⟩
  rw [(Root.find_eq_some_iff.mp hfind).2]
  exact hfind

/-- Good snapshots stay if a child is put whose name is no commit. -/
theorem Inv.put_stage (h : Inv T s) (hstage : isCommit child.name = false) :
    Genuine T (s.root.put child) ∧ (∀ name ∈ s.env, Holds T (s.root.put child) name) ∧
      ∀ c ∈ s.mounted, (s.root.put child).find c.name = some c ∧ IsGood T c := by
  refine ⟨h.genuine.put fun hcandidate => ?_, fun name hname => ?_, fun c hc => ?_⟩
  · rw [isCandidate, hstage, Bool.and_false] at hcandidate
    cases hcandidate
  · apply (h.env name hname).put
    rintro rfl
    rw [(h.env _ hname).isCommit] at hstage
    cases hstage
  · apply mounted_put (h.mounted c hc)
    intro heq
    rw [← heq, (h.mounted c hc).2.commit] at hstage
    cases hstage

/-- Good snapshots stay if a child is erased whose name is no commit. -/
theorem Inv.erase_stage (h : Inv T s) (hstage : isCommit name = false) :
    Genuine T (s.root.erase name) ∧ (∀ other ∈ s.env, Holds T (s.root.erase name) other) ∧
      ∀ c : Child γ, s.root.find c.name = some c ∧ IsGood T c →
        (s.root.erase name).find c.name = some c ∧ IsGood T c := by
  refine ⟨h.genuine.erase name, fun other hother => ?_, fun c hc => ?_⟩
  · apply (h.env other hother).erase
    rintro rfl
    rw [(h.env _ hother).isCommit] at hstage
    cases hstage
  · apply mounted_erase hc
    intro heq
    rw [← heq, hc.2.commit] at hstage
    cases hstage

/-- What may be mounted after a failure is good. -/
theorem Inv.mounted_of_mayMount (h : Inv T s) {mounted : Option (Child γ)}
    (hmay : s.MayMount mounted) :
    ∀ c ∈ mounted, s.root.find c.name = some c ∧ IsGood T c := by
  rcases hmay with rfl | rfl | rfl
  · exact h.mounted
  · rintro c ⟨⟩
  · exact mounted_of_env h.env

/-- The name of the stage of a run is no commit. -/
theorem Inv.stage (h : Inv T s) {stage : List Char} (hstage : stage ∈ (s.point i).stage) :
    isCommit stage = false := by
  have hpoint := h.point i
  cases hp : s.point i with
  | staging commit stage' =>
    rw [hp] at hpoint hstage
    obtain rfl := Option.some.inj hstage
    exact hpoint.2
  | staged commit stage' =>
    rw [hp] at hpoint hstage
    obtain rfl := Option.some.inj hstage
    exact hpoint.2.1
  | _ =>
    rw [hp] at hstage
    cases hstage

/-- What holds at a point of a run with a stage still holds when the stage was removed. -/
theorem Inv.signal (h : Inv T s) {stage : List Char} (hstage : stage ∈ (s.point i).stage) :
    (s.point i).IsActive ∧ PointHolds T { s with root := s.root.erase stage } (s.point i) := by
  have hpoint := h.point i
  cases hp : s.point i with
  | staging commit stage' =>
    rw [hp] at hpoint
    exact ⟨trivial, hpoint⟩
  | staged commit stage' =>
    rw [hp] at hpoint hstage
    obtain rfl := Option.some.inj hstage
    refine ⟨trivial, hpoint.1, hpoint.2.1, fun c hfind => ?_⟩
    rw [Root.find_erase, if_pos rfl] at hfind
    cases hfind
  | _ =>
    rw [hp] at hstage
    cases hstage

/-- A run at a point with the lock is active. -/
theorem active_of_point {p : Point} (hpoint : s.point i = p) (hp : p.IsActive) :
    (s.point i).IsActive := by
  rw [hpoint]
  exact hp

/-- A run that stays at its point. -/
theorem point_update {p : Point} (hpoint : s.point i = p) :
    s.point = Function.update s.point i p := by
  rw [← hpoint, Function.update_eq_self]

/-- What holds at the point of a run. -/
theorem Inv.at_point (h : Inv T s) {p : Point} (hpoint : s.point i = p) : PointHolds T s p := by
  rw [← hpoint]
  exact h.point i

/-- A run with the lock goes on at a point without a change of the host. -/
theorem Inv.goto (h : Inv T s) {p p' : Point} (hpoint : s.point i = p) (hp : p.IsActive)
    (hp' : PointHolds T (s.goto i p') p') : Inv T (s.goto i p') := by
  have hactive := active_of_point hpoint hp
  exact h.advance hactive rfl (fun _ => h.holder i hactive) h.genuine h.env h.mounted hp'

/-- Every step keeps the invariant. -/
theorem Inv.step (h : Inv T s) {e : Event} (hstep : Step T s e s') : Inv T s' := by
  cases hstep with
  | @lock i hpoint hfree =>
    refine Inv.move rfl (fun _ => rfl) h.genuine h.env h.mounted trivial fun j _ => ?_
    apply kept_of_not_isActive
    intro hj
    rw [h.holder j hj] at hfree
    cases hfree
  | @busy i j hpoint hheld =>
    exact Inv.move rfl False.elim h.genuine h.env h.mounted trivial
      fun k _ => ⟨h.holder k, h.point k⟩
  | @fetch i commit hpoint hcommit => exact h.goto hpoint trivial hcommit
  | @present i commit c hpoint hfind hdirectory =>
    have hcommit : isCommit commit = true := h.at_point hpoint
    exact h.goto hpoint trivial hcommit
  | @stage i commit suffix mtime content hpoint habsent hfresh =>
    have hactive := active_of_point hpoint trivial
    have hcommit : isCommit commit = true := h.at_point hpoint
    obtain ⟨hgenuine, henv, hmounted⟩ :=
      @Inv.put_stage γ T ⟨".staging.".toList ++ suffix, true, mtime, content⟩ s h
        (isCommit_stage suffix)
    exact h.advance hactive rfl (fun _ => h.holder i hactive) hgenuine henv hmounted
      ⟨hcommit, isCommit_stage suffix⟩
  | @write i commit stage c mtime content hpoint hfind =>
    have hactive := active_of_point hpoint trivial
    obtain ⟨hcommit, hstage⟩ := h.at_point hpoint
    obtain ⟨hgenuine, henv, hmounted⟩ :=
      @Inv.put_stage γ T ⟨stage, true, mtime, content⟩ s h hstage
    exact h.advance hactive (point_update hpoint)
      (fun _ => h.holder i hactive) hgenuine henv hmounted ⟨hcommit, hstage⟩
  | @signal i stage hstage =>
    obtain ⟨hactive, hkept⟩ := h.signal hstage
    obtain ⟨hgenuine, henv, hmounted⟩ := h.erase_stage (h.stage hstage)
    exact h.advance hactive (point_update rfl) (fun _ => h.holder i hactive) hgenuine henv
      (fun c hc => hmounted c (h.mounted c hc)) hkept
  | @exportStage i commit stage c hpoint hfind hmanifest haccepted =>
    obtain ⟨hcommit, hstage⟩ := h.at_point hpoint
    refine h.goto hpoint trivial ⟨hcommit, hstage, fun c' hfind' => ?_⟩
    obtain rfl := Option.some.inj (hfind.symm.trans hfind')
    exact hmanifest
  | @chmod i commit stage c content hpoint hfind hsame =>
    have hactive := active_of_point hpoint trivial
    obtain ⟨hcommit, hstage, hstaged⟩ := h.at_point hpoint
    have hmanifest := hstaged c hfind
    have hname := (Root.find_eq_some_iff.mp hfind).2
    obtain ⟨hgenuine, henv, hmounted⟩ :=
      @Inv.put_stage γ T { c with content := content } s h (by rw [hname]; exact hstage)
    refine h.advance hactive (point_update hpoint)
      (fun _ => h.holder i hactive) hgenuine henv hmounted
      ⟨hcommit, hstage, fun c' hfind' => ?_⟩
    rw [Root.find_put, if_pos hname.symm] at hfind'
    obtain rfl := Option.some.inj hfind'
    exact hsame.trans hmanifest
  | @promote i commit stage c hpoint hfind habsent =>
    have hactive := active_of_point hpoint trivial
    obtain ⟨hcommit, hstage, hstaged⟩ := h.at_point hpoint
    have hmanifest := hstaged c hfind
    obtain ⟨hgenuine, henv, hmounted⟩ := h.erase_stage hstage
    refine h.advance hactive rfl (fun _ => h.holder i hactive) ?_ ?_ ?_ hcommit
    · refine hgenuine.put fun _ commit' hcommit' => ?_
      exact Option.some.inj (hcommit'.symm.trans hmanifest)
    · intro name hname
      apply (henv name hname).put
      rintro rfl
      obtain ⟨c', hfind', -⟩ := h.env _ hname
      rw [habsent] at hfind'
      cases hfind'
    · intro c' hc'
      have hkept := h.mounted c' hc'
      apply mounted_put (hmounted c' hkept)
      intro heq
      rw [heq, habsent] at hkept
      cases hkept.1
  | @validate i commit c hpoint hfind hdirectory haccepted =>
    have hcommit : isCommit commit = true := h.at_point hpoint
    refine h.goto hpoint trivial ⟨c, hfind, hdirectory, ?_, haccepted⟩
    rw [(Root.find_eq_some_iff.mp hfind).2]
    exact hcommit
  | @buildOnly i commit hpoint =>
    exact h.advance (active_of_point hpoint trivial) rfl False.elim h.genuine h.env h.mounted trivial
  | @select i commit hpoint =>
    have hactive := active_of_point hpoint trivial
    have hholds : Holds T s.root commit := h.at_point hpoint
    refine h.advance hactive rfl (fun _ => h.holder i hactive) h.genuine ?_ h.mounted
      ⟨rfl, h.env⟩
    rintro name ⟨⟩
    exact hholds
  | @recreate i commit previous hpoint =>
    have hactive := active_of_point hpoint trivial
    exact h.advance hactive rfl (fun _ => h.holder i hactive) h.genuine h.env
      (mounted_of_env h.env) (h.at_point hpoint)
  | @rollBack i commit name c hpoint hfind hdirectory =>
    have hactive := active_of_point hpoint trivial
    obtain ⟨-, hprevious⟩ := h.at_point hpoint
    refine h.advance hactive rfl (fun _ => h.holder i hactive) h.genuine ?_ h.mounted trivial
    rintro name' ⟨⟩
    exact hprevious name rfl
  | @recreatePrevious i hpoint =>
    exact h.advance (active_of_point hpoint trivial) rfl False.elim h.genuine h.env
      (mounted_of_env h.env) trivial
  | @check i commit previous c hpoint hmounted hserved =>
    obtain ⟨henv, -⟩ := h.at_point hpoint
    obtain ⟨hfind, hgood⟩ := h.mounted c hmounted
    have hcandidate : isCandidate c = true := by
      rw [isCandidate, hgood.directory, hgood.commit, Bool.and_self]
    have hname := h.genuine c (Root.find_eq_some_iff.mp hfind).1 hcandidate commit hserved
    exact h.goto hpoint trivial ⟨henv, c, hmounted, hname.symm, hserved⟩
  | @prune i commit removed root' hpoint hprune =>
    obtain ⟨henv, hmounted⟩ := h.at_point hpoint
    refine h.goto hpoint trivial ⟨henv, hmounted, fun victim hvictim => ?_, ?_⟩
    · obtain ⟨-, -, rfl, -⟩ := prune_eq_ok.mp hprune
      obtain ⟨c, hc, rfl⟩ := List.mem_map.mp hvictim
      exact (mem_victims.mp hc).2.2.1
    · have hcount := countP_prune_le hprune
      obtain ⟨-, -, -, rfl⟩ := prune_eq_ok.mp hprune
      rw [Root.filter, List.countP_filter] at hcount
      exact hcount
  | @damage i commit victim victims c mtime content hpoint hfind hrest =>
    have hactive := active_of_point hpoint trivial
    obtain ⟨henv, ⟨served, hserved, hname, hmanifest⟩, hvictims, hcount⟩ := h.at_point hpoint
    obtain ⟨hmem, rfl⟩ := Root.find_eq_some_iff.mp hfind
    have hne := hvictims c.name List.mem_cons_self
    refine h.advance hactive (point_update hpoint) (fun _ => h.holder i hactive) ?_ ?_ ?_
      ⟨henv, ⟨served, hserved, hname, hmanifest⟩, hvictims, countLeft_put.trans hcount⟩
    · refine h.genuine.put fun hcandidate commit' hcommit' => ?_
      rcases hrest with hsame | hnone
      · exact h.genuine c hmem hcandidate commit' (hsame ▸ hcommit')
      · dsimp only at hcommit'
        rw [hnone] at hcommit'
        cases hcommit'
    · intro name hname'
      apply (h.env name hname').put
      obtain rfl := Option.some.inj (henv.symm.trans hname')
      exact hne.symm
    · intro c' hc'
      apply mounted_put (h.mounted c' hc')
      obtain rfl := Option.some.inj (hserved.symm.trans hc')
      rw [hname]
      exact hne.symm
  | @remove i commit victim victims hpoint =>
    have hactive := active_of_point hpoint trivial
    obtain ⟨henv, ⟨served, hserved, hname, hmanifest⟩, hvictims, hcount⟩ := h.at_point hpoint
    have hne := hvictims victim List.mem_cons_self
    refine h.advance hactive rfl (fun _ => h.holder i hactive) (h.genuine.erase victim) ?_ ?_
      ⟨henv, ⟨served, hserved, hname, hmanifest⟩,
        fun other hother => hvictims other (List.mem_cons_of_mem victim hother), ?_⟩
    · intro name hname'
      apply (h.env name hname').erase
      obtain rfl := Option.some.inj (henv.symm.trans hname')
      exact hne.symm
    · intro c' hc'
      apply mounted_erase (h.mounted c' hc')
      obtain rfl := Option.some.inj (hserved.symm.trans hc')
      rw [hname]
      exact hne.symm
    · dsimp only
      rw [countLeft_erase]
      exact hcount
  | @complete i commit hpoint =>
    exact h.advance (active_of_point hpoint trivial) rfl False.elim h.genuine h.env h.mounted trivial
  | @fail i root mounted hactive hroot hmounted =>
    have hgood := h.mounted_of_mayMount hmounted
    rcases hroot with rfl | ⟨stage, hstage, rfl⟩
    · exact h.advance hactive rfl False.elim h.genuine h.env hgood trivial
    · obtain ⟨hgenuine, henv, hkept⟩ := h.erase_stage (h.stage hstage)
      exact h.advance hactive rfl False.elim hgenuine henv
        (fun c hc => hkept c (hgood c hc)) trivial

/-- The invariant holds in every run. -/
theorem inv_of_run (hrun : (machine T).Run history s) : Inv T s := by
  refine hrun.invariant (P := fun _ s => Inv T s) (fun s hstart => ?_)
    fun history s e s' _ h hstep => h.step hstep
  obtain ⟨hgenuine, henv, hmounted, -, hpoint⟩ := hstart
  refine ⟨hgenuine, henv, hmounted, fun i hi => ?_, fun i => ?_⟩
  · rw [hpoint] at hi
    cases hi
  · rw [hpoint]
    trivial

/-- A good snapshot in the root of a run has the manifest of its name. -/
theorem Inv.commit_eq (h : Inv T s) (hfind : s.root.find c.name = some c) (hgood : IsGood T c) :
    ∀ commit ∈ T.commitOf c.content, commit = c.name := by
  apply h.genuine c (Root.find_eq_some_iff.mp hfind).1
  rw [isCandidate, hgood.directory, hgood.commit, Bool.and_self]

/-- A run that completes leaves the commit that it fetched selected and served, and few
snapshots. -/
theorem completed_of_run {before : List Event} {commit : List Char}
    (hrun : (machine T).Run (before ++ [.complete i commit]) s) :
    s.env = some commit ∧
      (∃ c, s.mounted = some c ∧ c.name = commit ∧ T.commitOf c.content = some commit) ∧
      s.root.children.countP isCandidate ≤ keepSnapshots + 1 := by
  generalize hhistory : before ++ [Event.complete i commit] = history at hrun
  cases hrun with
  | start _ => cases before <;> cases hhistory
  | step hbefore hstep =>
    obtain ⟨-, he⟩ := List.append_inj' hhistory rfl
    obtain rfl := List.singleton_inj.mp he
    cases hstep with
    | complete hpoint =>
      obtain ⟨henv, hmounted, -, hcount⟩ := (inv_of_run hbefore).at_point hpoint
      refine ⟨henv, hmounted, ?_⟩
      rw [countLeft] at hcount
      simp only [List.contains_nil, Bool.not_false, Bool.and_true] at hcount
      exact hcount

/-- **Refreshes are safe.** Whatever runs were started, failed or were killed, and in every order:
at most one of them is past the lock; the environment file selects a snapshot in the root that is
named by the commit of its manifest and that the validator accepts; and what the gateway has mounted
is still in the root as it was mounted. A run that completes leaves the commit that it fetched
selected and served, and at most four snapshots. -/
theorem refresh_safe (hrun : (machine T).Run history s) :
    (∀ i j, (s.point i).IsActive → (s.point j).IsActive → i = j) ∧
    (∀ name ∈ s.env, ∃ c, s.root.find name = some c ∧ IsGood T c ∧
      ∀ commit ∈ T.commitOf c.content, commit = name) ∧
    (∀ c ∈ s.mounted, s.root.find c.name = some c ∧ IsGood T c) ∧
    ∀ before i commit, history = before ++ [.complete i commit] →
      s.env = some commit ∧ (∃ c, s.mounted = some c ∧ c.name = commit ∧
        T.commitOf c.content = some commit) ∧
      s.root.children.countP isCandidate ≤ keepSnapshots + 1 := by
  have h := inv_of_run hrun
  refine ⟨fun i j hi hj => ?_, fun name hname => ?_, h.mounted, ?_⟩
  · apply Option.some.inj
    exact (h.holder i hi).symm.trans (h.holder j hj)
  · obtain ⟨c, hfind, hgood⟩ := h.env name hname
    obtain ⟨-, rfl⟩ := Root.find_eq_some_iff.mp hfind
    exact ⟨c, hfind, hgood, h.commit_eq hfind hgood⟩
  · rintro before i commit rfl
    exact completed_of_run hrun

/-! ## A deployment -/

/-- A host without snapshots. -/
def emptyHost : State γ where
  root := ⟨[], List.nodup_nil⟩
  env := none
  mounted := none
  holder := none
  point := fun _ => .started

/-- The steps of a run that deploys a commit, while another one finds the lock taken. -/
def deployment (commit : List Char) : List Event :=
  [.lock 0, .busy 1, .fetch 0 commit, .stage 0, .write 0, .exportStage 0, .chmod 0, .promote 0,
    .validate 0, .select 0, .recreate 0, .check 0, .prune 0, .complete 0 commit]

/-- A commit is deployed from an empty root, if what is written is accepted, and also once it is
read-only. -/
theorem exists_deployment {written promoted : γ}
    (hwritten : T.commitOf written = some (List.replicate 40 'a'))
    (hpromoted : T.commitOf promoted = some (List.replicate 40 'a'))
    (haccepted : T.accepts false written = true) (hreadOnly : T.accepts true promoted = true) :
    ∃ s, (machine T).Run (deployment (List.replicate 40 'a')) s := by
  have hstart : (machine T).Run [] emptyHost := by
    refine Machine.Run.start ⟨?_, ?_, ?_, rfl, rfl⟩
    · rintro c ⟨⟩
    · rintro name ⟨⟩
    · rintro c ⟨⟩
  have hlock := hstart.step (Step.lock (i := 0) rfl rfl)
  have hbusy := hlock.step (Step.busy (i := 1) rfl rfl)
  have hfetch := hbusy.step (@Step.fetch _ _ _ 0 (List.replicate 40 'a') rfl (by decide))
  have hstage := hfetch.step (@Step.stage _ _ _ 0 _ ['x'] 0 written rfl (by rintro c ⟨⟩) rfl)
  have hwrite := hstage.step (@Step.write _ _ _ 0 _ _ _ 0 written rfl rfl)
  have hexport := hwrite.step (Step.exportStage (i := 0) rfl rfl hwritten haccepted)
  have hchmod := hexport.step
    (@Step.chmod _ _ _ 0 _ _ _ promoted rfl rfl (hpromoted.trans hwritten.symm))
  have hpromote := hchmod.step (Step.promote (i := 0) rfl rfl rfl)
  have hvalidate := hpromote.step (Step.validate (i := 0) rfl rfl rfl hreadOnly)
  have hselect := hvalidate.step (Step.select (i := 0) rfl)
  have hrecreate := hselect.step (Step.recreate (i := 0) rfl)
  have hcheck := hrecreate.step (Step.check (i := 0) rfl rfl hpromoted)
  have hprune := hcheck.step (Step.prune (i := 0) rfl rfl)
  exact ⟨_, hprune.step (Step.complete (i := 0) rfl)⟩

/-- Tools for snapshots that are the commits of their manifests, which all are accepted. -/
def commitTools : Tools (List Char) where
  accepts := fun _ _ => true
  commitOf := some

/-- After the deployment the commit is selected and served. -/
theorem refresh_safe_deployment : ∃ s,
    (machine commitTools).Run (deployment (List.replicate 40 'a')) s ∧
    s.env = some (List.replicate 40 'a') ∧
    (∃ c, s.mounted = some c ∧ c.name = List.replicate 40 'a' ∧ s.root.find c.name = some c) ∧
    s.root.children.countP isCandidate ≤ 4 := by
  obtain ⟨s, hrun⟩ := exists_deployment (T := commitTools) rfl rfl rfl rfl
  obtain ⟨-, -, hmounted, hcompleted⟩ := refresh_safe hrun
  obtain ⟨henv, ⟨c, hc, hname, -⟩, hcount⟩ :=
    hcompleted (deployment (List.replicate 40 'a')).dropLast 0 (List.replicate 40 'a') rfl
  exact ⟨s, hrun, henv, ⟨c, hc, hname, (hmounted c hc).1⟩, hcount⟩

end ContributorGateway.SnapshotRefresh
