import ContributorGateway.Core.OpenPrAgreement

/-!
# Replays after master has moved

Calls on one branch run one after another, and master may advance between them. A call
that creates the branch reports the parent of its commit as the base. A replay reports
the live head of master together with the commit it finds.
-/

namespace ContributorGateway.OpenPr

/-- A call of a run: the store before it, the party and the outcome. -/
structure CallRecord (ι : Type) where
  before : Store ι
  party : ι
  outcome : Outcome

section Runs

variable {ι : Type} {tables : CaseTables} {branch : String} {args : ι → Args}
  {io : ι → Option AppendIo} {start final : Store ι} {calls : List (CallRecord ι)}

/-- Calls one after another, while master advances in between. -/
inductive Run (tables : CaseTables) (branch : String) (args : ι → Args)
    (io : ι → Option AppendIo) (start : Store ι) : List (CallRecord ι) → Store ι → Prop
  | start : Run tables branch args io start [] start
  | advance {calls s} (master : String) (hrun : Run tables branch args io start calls s) :
      Run tables branch args io start calls { s with master }
  | call {calls s s' outcome} (i : ι) (hrun : Run tables branch args io start calls s)
      (hexec : Program.Executes (storeWorld tables branch args True) i s
        (openPr tables (args i) (io i)) s' outcome) :
      Run tables branch args io start (calls ++ [⟨s, i, outcome⟩]) s'

/-- An execution makes the store grow. -/
theorem executes_grows {α : Type} {i : ι} {s s' : Store ι}
    {p : Program GitHubRequest Reply α} {a : α}
    (hexec : Program.Executes (storeWorld tables branch args True) i s p s' a) : Grows s s' := by
  induction hexec with
  | done s a => exact Grows.refl s
  | send hanswer _ ih => exact (Answer.grows hanswer).trans ih

/-- The base that a call reports and audits is the parent of the head that it reports. -/
def BaseIsParent (s : Store ι) (outcome : Outcome) (opened : OpenedPr) : Prop :=
  ∃ commit, s.commits opened.headCommit = some commit ∧ commit.parent = opened.baseCommit ∧
    outcome.record.get "base_commit" = some (.str commit.parent)

/-- The condition before a call: the branch is absent, or master is still the parent of
its head. -/
def MasterUnmoved (s : Store ι) : Prop :=
  s.head = none ∨
    ∃ head commit, s.head = some head ∧ s.commits head = some commit ∧ s.master = commit.parent

/-- What holds along a run: the head of the branch was created by a call, and every call
that returned was right about the store before it, and still is. -/
structure RunInv (args : ι → Args) (calls : List (CallRecord ι)) (s : Store ι) : Prop where
  good : HeadCreated args s
  returned : ∀ call ∈ calls, ∀ opened, call.outcome.result = .ok opened →
    HeadCreated args call.before ∧ Grows call.before s ∧
      Answered args True call.party call.before opened s ∧
      call.outcome.record.get "base_commit" = some (.str opened.baseCommit)

/-- Answers stay right while the store grows. -/
theorem Answered.grows {i : ι} {before s s' : Store ι} {opened : OpenedPr}
    (h : Answered args True i before opened s) (hgrows : Grows s s') :
    Answered args True i before opened s' :=
  { h with
    hasBranch := h.hasBranch.grows hgrows
    pull := hgrows.pull _ h.pull }

/-- Every run keeps its invariant. -/
theorem Run.inv (hbranch : ∀ i, (args i).branch = .str branch) (hnew : start.head = none)
    (hrun : Run tables branch args io start calls final) : RunInv args calls final := by
  induction hrun with
  | start =>
    refine ⟨fun sha hsha => ?_, by simp⟩
    rw [hnew] at hsha
    cases hsha
  | @advance calls s master hrun ih =>
    have hgrows : Grows s { s with master } := MasterMoves.grows ⟨master, rfl⟩
    refine ⟨ih.good, fun call hcall opened hopened => ?_⟩
    obtain ⟨hbefore, hgrows', hanswered, haudit⟩ := ih.returned call hcall opened hopened
    exact ⟨hbefore, hgrows'.trans hgrows, hanswered.grows hgrows, haudit⟩
  | @call calls s s' outcome i hrun hexec ih =>
    have hgrows := executes_grows hexec
    obtain ⟨hgood, hanswer⟩ := hexec.sound ih.good (wp_openPr_store hbranch (io i) s)
    refine ⟨hgood, fun call hcall opened hopened => ?_⟩
    rcases List.mem_append.mp hcall with hcall | hcall
    · obtain ⟨hbefore, hgrows', hanswered, haudit⟩ := ih.returned call hcall opened hopened
      exact ⟨hbefore, hgrows'.trans hgrows, hanswered.grows hgrows, haudit⟩
    · rw [List.mem_singleton] at hcall
      subst hcall
      obtain ⟨hanswered, haudit⟩ := hanswer opened hopened
      exact ⟨ih.good, hgrows, hanswered, haudit⟩

/-- **Replays.** In every run of calls and advances of master, a call that returned
reports and audits the parent of its head as the base exactly when, before the call, the
branch was absent or master was still that parent. -/
theorem baseIsParent_iff_masterUnmoved (tables : CaseTables) (branch : String)
    (args : ι → Args) (io : ι → Option AppendIo) (hbranch : ∀ i, (args i).branch = .str branch)
    (hnew : start.head = none) (hrun : Run tables branch args io start calls final) :
    ∀ call ∈ calls, ∀ opened, call.outcome.result = .ok opened →
      (BaseIsParent final call.outcome opened ↔ MasterUnmoved call.before) := by
  intro call hcall opened hopened
  obtain ⟨hbefore, hgrows, hanswered, haudit⟩ :=
    (hrun.inv hbranch hnew).returned call hcall opened hopened
  have hbase := hanswered.base trivial
  cases hcreated : opened.createdBranch with
  | true =>
    obtain ⟨-, hnone, message, hcommit⟩ := hanswered.hasBranch.created hcreated
    exact ⟨fun _ => Or.inl hnone, fun _ => ⟨_, hcommit, rfl, haudit⟩⟩
  | false =>
    have hhead := hanswered.hasBranch.replayed hcreated trivial
    obtain ⟨_, _, parent, -, -, hcommit⟩ := hbefore _ hhead
    have hcommit' := hgrows.commits _ _ hcommit
    constructor
    · rintro ⟨commit, hcommit'', hparent, -⟩
      rw [hcommit', Option.some.injEq] at hcommit''
      subst hcommit''
      exact Or.inr ⟨_, _, hhead, hcommit, by rw [← hbase, ← hparent]⟩
    · rintro (hnone | ⟨head, commit, hhead', hcommit'', hmaster⟩)
      · rw [hhead] at hnone
        cases hnone
      · rw [hhead, Option.some.injEq] at hhead'
        subst hhead'
        rw [hcommit, Option.some.injEq] at hcommit''
        subst hcommit''
        refine ⟨_, hcommit', hmaster.symm.trans hbase.symm, ?_⟩
        rw [haudit, hbase, hmaster]

end Runs

/-! ## Runs of the sample call -/

/-- The call creates the branch. -/
def created : Store Bool × Outcome := callNotes true newStore

/-- Master advances behind the created branch. -/
def advanced : Store Bool := { created.1 with master := "c2" }

/-- The retry after master has advanced. -/
def replayed : Store Bool × Outcome := callNotes true advanced

/-- The run of the call and its retry. -/
theorem run_replayed :
    Run asciiTables "contrib/notes" (fun _ => notesArgs) (fun _ => some .reliable) newStore
      [⟨newStore, true, created.2⟩, ⟨advanced, true, replayed.2⟩] replayed.1 :=
  ((Run.start.call true (callNotes_executes True true newStore)).advance "c2").call true
    (callNotes_executes True true advanced)

/-- The call that creates the branch reports the parent of its head. -/
theorem created_baseIsParent :
    ∃ opened, created.2.result = .ok opened ∧ BaseIsParent replayed.1 created.2 opened := by
  have hreturned : created.2.result.isOk = true := by decide +kernel
  cases hresult : created.2.result with
  | error e =>
    rw [hresult] at hreturned
    cases hreturned
  | ok opened =>
    exact ⟨opened, rfl, (baseIsParent_iff_masterUnmoved asciiTables "contrib/notes"
      (fun _ => notesArgs) (fun _ => some .reliable) (fun _ => rfl) rfl run_replayed _
      List.mem_cons_self opened hresult).mpr (Or.inl rfl)⟩

/-- The retry returns, and reports the new head of master as the base. -/
theorem replayed_reports_master :
    replayed.2.result.toOption.map OpenedPr.baseCommit = some "c2" := by
  decide +kernel

/-- Master advances between a call and its retry: the base that the retry reports is not
the parent of the head that it reports. -/
theorem replay_reports_new_master :
    ¬ ∀ (tables : CaseTables) (branch : String) (args : Bool → Args)
      (io : Bool → Option AppendIo) (start final : Store Bool) (calls : List (CallRecord Bool)),
      (∀ i, (args i).branch = .str branch) → start.head = none →
      Run tables branch args io start calls final →
      ∀ call ∈ calls, ∀ opened, call.outcome.result = .ok opened →
        BaseIsParent final call.outcome opened := by
  intro h
  cases hresult : replayed.2.result with
  | error e =>
    have hreturned := replayed_reports_master
    rw [hresult] at hreturned
    cases hreturned
  | ok opened =>
    obtain ⟨commit, hcommit, hparent, -⟩ := h _ _ _ _ _ _ _ (fun _ => rfl) rfl run_replayed
      ⟨advanced, true, replayed.2⟩ (List.mem_cons_of_mem _ List.mem_cons_self) opened hresult
    have hreported := replayed_reports_master
    rw [hresult] at hreported
    have hbase : opened.baseCommit = "c2" := Option.some.inj hreported
    have hhead : replayed.2.result.toOption.map OpenedPr.headCommit = some "c1" := by
      decide +kernel
    rw [hresult] at hhead
    have hhead : opened.headCommit = "c1" := Option.some.inj hhead
    have hstored : (replayed.1.commits "c1").map StoredCommit.parent = some "c0" := by
      decide +kernel
    rw [hhead] at hcommit
    rw [hcommit, Option.map_some, hparent, hbase] at hstored
    exact absurd hstored (by decide)

end ContributorGateway.OpenPr
