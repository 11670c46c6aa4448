import ContributorGateway.Collaboration.RelatedReplies
import ContributorGateway.Core.CheckEvidence

/-!
# The order in which GitHub lists

Two calls get the same replies, but for the order of the runs on the page of runs or of
the jobs on the pages of jobs. Both send the same requests. The order of the runs never
matters; the order of the jobs decides among jobs of one name.
-/

namespace ContributorGateway.StatusChecks

/-- The status that a call returns. -/
def statusOf (args : Args) (ref commit : String) (artifacts : List StatusArtifact)
    (contexts : RequiredContextName → RequiredContext) : CheckStatus where
  repository := expectedRepository
  ref := ref
  commit := commit
  requiredContexts := contexts
  overall := (overall contexts).1
  blockedReason := (overall contexts).2
  artifacts := artifacts
  checkedAt := timestamp args.now

/-- What two related calls have in common when their payloads are related: the same runs
are listed, the jobs of a run lead to related scans, and related scans are equally
complete and have the same runs with artifacts. -/
structure Parallel (conv : Conversions) (P : Json → Json → Prop) (S : Scan → Scan → Prop) :
    Prop where
  isObject : ∀ p p', P p p' → isDict p = true ∧ isDict p' = true
  others : ∀ p p', P p p' → ∀ key, key ≠ "workflow_runs" → key ≠ "jobs" → p'.get key = p.get key
  listed : ∀ p p', P p p' → listedRuns conv p' = listedRuns conv p
  start : S {} {}
  inspect : ∀ p p' header scan scan', P p p' → S scan scan' →
    Process.Results S (completePage "jobs" p >>= fun jobs => jobs.foldlM (inspectJob header) scan)
      (completePage "jobs" p' >>= fun jobs => jobs.foldlM (inspectJob header) scan')
  complete : ∀ scan scan', S scan scan' → scan'.complete = scan.complete
  artifactRuns : ∀ scan scan', S scan scan' → scan'.artifactRuns = scan.artifactRuns

/-- The contexts that a scan reports. -/
def Scan.contexts (scan : Scan) (name : RequiredContextName) : RequiredContext :=
  (scan.found name).getD missingContext

section Related

variable {tables : CaseTables} {conv : Conversions} {P : Json → Json → Prop}
  {S : Scan → Scan → Prop}

/-- The scans of the runs are related. -/
theorem related_scanRuns (h : Parallel conv P S) (runs : List Json) {scan scan' : Scan}
    (hscan : S scan scan') :
    Process.Related (OnPayload P) S (scanRuns tables runs scan) (scanRuns tables runs scan') := by
  induction runs generalizing scan scan' with
  | nil => exact .pure hscan
  | cons run rest ih =>
    refine .bind (.lift_eq rfl) fun header _ heq => ?_
    subst heq
    refine .bind (related_get tables _ _ h.isObject) fun p p' hp => ?_
    rw [Process.lift_bind_lift, Process.lift_bind_lift]
    refine .bind (.lift (h.inspect p p' header scan scan' hp hscan)) fun scan₁ scan₁' hscan₁ => ?_
    rw [h.complete scan₁ scan₁' hscan₁]
    split
    · exact .pure hscan₁
    · exact ih hscan₁

/-- A page is complete independently of the related arrays. -/
theorem completePage_eq (h : Parallel conv P S) {p p' : Json} (hp : P p p') {key : String}
    (hruns : key ≠ "workflow_runs") (hjobs : key ≠ "jobs") :
    completePage key p' = completePage key p := by
  rw [completePage, completePage, h.others p p' hp key hruns hjobs,
    h.others p p' hp "total_count" (by decide) (by decide)]

/-- The artifacts are read in the same way. -/
theorem related_readArtifacts (h : Parallel conv P S) (ids : List RunId)
    (artifacts : List (ℤ × StatusArtifact)) :
    Process.Related (OnPayload P) Eq (readArtifacts tables ids artifacts)
      (readArtifacts tables ids artifacts) := by
  induction ids generalizing artifacts with
  | nil => exact .pure rfl
  | cons id rest ih =>
    refine .bind (related_get tables _ _ h.isObject) fun p p' hp => ?_
    refine .bind (.lift_eq (completePage_eq h hp (by decide) (by decide)).symm) fun items _ heq => ?_
    subst heq
    refine .bind (.lift_eq rfl) fun entries _ heq => ?_
    subst heq
    exact ih _

/-- The commit of a ref is the same. -/
theorem refSha_eq (h : Parallel conv P S) {p p' : Json} (hp : P p p') : refSha p' = refSha p := by
  rw [refSha, refSha, h.others p p' hp "object" (by decide) (by decide)]

/-- The same commit is resolved. -/
theorem related_resolve (h : Parallel conv P S) (args : Args) :
    Process.Related (OnPayload P) Eq (resolve tables args) (resolve tables args) := by
  have href : Process.Related (OnPayload P) Eq (resolveRef tables args)
      (resolveRef tables args) := by
    unfold resolveRef
    split
    · refine .bind (related_get tables _ _ h.isObject) fun p p' hp => ?_
      refine .bind (.lift_eq (refSha_eq h hp).symm) fun sha _ heq => ?_
      exact .pure (by rw [heq])
    · refine .bind (related_get tables _ _ h.isObject) fun p p' hp => ?_
      refine .bind (.lift_eq (refSha_eq h hp).symm) fun sha _ heq => ?_
      exact .pure (by rw [heq])
    · exact .raise _
  refine .bind href fun resolved _ heq => ?_
  subst heq
  obtain ⟨ref, resolved⟩ := resolved
  dsimp only
  split_ifs
  · exact .pure rfl
  · refine .bind (related_get tables _ _ h.isObject) fun p p' hp => ?_
    refine .bind (.lift_eq ?_) fun sha _ heq => .pure (by rw [heq])
    rw [h.others p p' hp "sha" (by decide) (by decide)]
  · exact .raise _

/-- The statuses are the same, but for contexts of related scans. -/
def SameButContexts (args : Args) (S : Scan → Scan → Prop) (status status' : CheckStatus) : Prop :=
  ∃ ref commit artifacts scan scan', S scan scan' ∧
    status = statusOf args ref commit artifacts scan.contexts ∧
    status' = statusOf args ref commit artifacts scan'.contexts

/-- The procedures are related. -/
theorem related_body (h : Parallel conv P S) (args : Args) :
    Process.Related (OnPayload P) (SameButContexts args S) (body tables conv args)
      (body tables conv args) := by
  refine .bind (.lift_eq rfl) fun _ _ _ => .bind (.lift_eq rfl) fun _ _ _ => ?_
  refine .bind (related_resolve h args) fun resolved _ heq => ?_
  subst heq
  obtain ⟨ref, commit⟩ := resolved
  refine .bind (.assign _) fun _ _ _ => ?_
  refine .bind (S := fun found found' => ∃ scan scan', S scan scan' ∧ found.1 = scan.contexts ∧
    found'.1 = scan'.contexts ∧ found.2 = found'.2) ?_ ?_
  · refine .bind (related_get tables _ _ h.isObject) fun p p' hp => ?_
    refine .bind (.lift_eq (h.listed p p' hp).symm) fun listed _ heq => ?_
    subst heq
    refine .bind (related_scanRuns h listed.2 h.start) fun scan scan' hscan => ?_
    unfold report
    rw [h.complete scan scan' hscan, h.artifactRuns scan scan' hscan]
    split_ifs
    · exact .raise _
    · refine .bind (related_readArtifacts h _ []) fun artifacts _ heq => ?_
      subst heq
      exact .pure ⟨scan, scan', hscan, rfl, rfl, rfl⟩
  · rintro ⟨contexts, artifacts⟩ ⟨contexts', artifacts'⟩ ⟨scan, scan', hscan, rfl, rfl, rfl⟩
    exact .pure ⟨ref, commit, artifacts, scan, scan', hscan, rfl, rfl⟩

end Related

/-! ## The order of the runs -/

section Runs

variable {conv : Conversions}

/-- The runs have integer ids, and no id occurs twice. -/
def DistinctIds (items : List Json) : Prop :=
  (∀ item ∈ items, ∃ n, item.get "id" = some (.int n)) ∧ (items.map (Json.get "id")).Nodup

/-- The key by which runs are ordered. -/
def runKey (conv : Conversions) (run : Json) : String ×ₗ ℤ :=
  toLex (createdAt conv run, (sortId conv run).toOption.getD 0)

/-- The first run is newer than the second, by the time of creation and the id. -/
def Newer (conv : Conversions) (a b : Json) : Prop := runKey conv b < runKey conv a

/-- A list of objects is read as it is. -/
theorem mapM_requireDict {items objects : List Json}
    (h : items.mapM (fun item => requireDict (some item)) = .ok objects) : objects = items := by
  have heq : List.Forall₂ (fun item object => item = object) items objects :=
    (mapM_eq_ok.mp h).imp fun item object => requireDict_eq_ok
  exact (List.forall₂_eq_eq_eq ▸ heq : items = objects).symm

/-- A run with its key. -/
theorem keyed_eq_ok {run : Json} {pair : (String × ℤ) × Json} (h : keyed conv run = .ok pair) :
    pair.2 = run ∧ toLex pair.1 = runKey conv run := by
  obtain ⟨id, hid, h⟩ := bind_eq_ok.mp h
  cases h
  refine ⟨rfl, ?_⟩
  rw [runKey, hid]
  rfl

instance : Std.Total NotOlder := ⟨fun a b => le_total (toLex b.1) (toLex a.1)⟩

instance : IsTrans _ NotOlder := ⟨fun _ _ _ hab hbc => le_trans hbc hab⟩

/-- The runs from the newest on are the runs, ordered by their keys. -/
theorem newestFirst_eq_ok {runs sorted : List Json} (h : newestFirst conv runs = .ok sorted) :
    sorted.Perm runs ∧ sorted.Pairwise fun a b => runKey conv b ≤ runKey conv a := by
  obtain ⟨pairs, hpairs, h⟩ := bind_eq_ok.mp h
  obtain rfl := Except.ok.inj h
  have hkeys : List.Forall₂ (fun pair run => toLex pair.1 = runKey conv run ∧ pair.2 = run)
      pairs runs :=
    ((mapM_eq_ok.mp hpairs).imp fun run pair hpair =>
      (keyed_eq_ok hpair).symm : List.Forall₂ (Function.swap _) runs pairs).flip
  have hruns : pairs.map Prod.snd = runs := by
    have heq : List.Forall₂ Eq (pairs.map Prod.snd) runs :=
      List.forall₂_map_left_iff.mpr (hkeys.imp fun _ _ h => h.2)
    exact List.forall₂_eq_eq_eq ▸ heq
  have hkey : ∀ pair ∈ pairs, toLex pair.1 = runKey conv pair.2 :=
    ((List.forall₂_and_left _ _).mp (hkeys.imp fun pair run h =>
      (⟨h.2 ▸ h.1, h.2⟩ : toLex pair.1 = runKey conv pair.2 ∧ pair.2 = run))).1
  constructor
  · rw [← hruns]
    exact (List.perm_insertionSort _ pairs).map Prod.snd
  · rw [List.pairwise_map]
    refine (List.pairwise_insertionSort NotOlder pairs).imp_of_mem fun {a b} ha hb hab => ?_
    rw [← hkey a ((List.mem_insertionSort _).mp ha), ← hkey b ((List.mem_insertionSort _).mp hb)]
    exact hab

/-- Runs with integer ids are ordered. -/
theorem newestFirst_isOk (conv : Conversions) {items : List Json} (h : DistinctIds items) :
    ∃ sorted, newestFirst conv items = .ok sorted := by
  have hkeyed : ∃ pairs, items.mapM (keyed conv) = .ok pairs := by
    refine ⟨items.map fun item => ((createdAt conv item, (sortId conv item).toOption.getD 0), item),
      mapM_eq_ok.mpr (List.forall₂_map_right_iff.mpr (List.forall₂_same.mpr fun item hitem => ?_))⟩
    obtain ⟨n, hn⟩ := h.1 item hitem
    have hid : sortId conv item = .ok n := by rw [sortId, hn]
    rw [keyed, hid]
    rfl
  obtain ⟨pairs, hpairs⟩ := hkeyed
  exact ⟨_, bind_eq_ok.mpr ⟨pairs, hpairs, rfl⟩⟩

/-- The order of runs with distinct ids does not depend on the order of the page. -/
theorem newestFirst_perm {items items' : List Json} (hperm : items.Perm items')
    (hids : DistinctIds items) : newestFirst conv items' = newestFirst conv items := by
  have hids' : DistinctIds items' :=
    ⟨fun item hitem => hids.1 item (hperm.mem_iff.mpr hitem), (hperm.map _).nodup hids.2⟩
  obtain ⟨sorted, hsorted⟩ := newestFirst_isOk conv hids
  obtain ⟨sorted', hsorted'⟩ := newestFirst_isOk conv hids'
  obtain ⟨hitems, horder⟩ := newestFirst_eq_ok hsorted
  obtain ⟨hitems', horder'⟩ := newestFirst_eq_ok hsorted'
  rw [hsorted, hsorted']
  refine congrArg Except.ok (List.Perm.eq_of_pairwise ?_ horder' horder
    (hitems'.trans (hperm.symm.trans hitems.symm)))
  intro a b ha hb hab hba
  have ha := hperm.mem_iff.mpr (hitems'.mem_iff.mp ha)
  have hb := hitems.mem_iff.mp hb
  obtain ⟨m, hm⟩ := hids.1 a ha
  obtain ⟨n, hn⟩ := hids.1 b hb
  have hkey := congrArg (fun key => (ofLex key).2) (le_antisymm hab hba)
  have hid : n = m := by simpa [runKey, sortId, hm, hn, Except.toOption] using hkey
  refine List.inj_on_of_nodup_map hids.2 ha hb ?_
  rw [hm, hn, hid]

/-- The order of the page of runs does not matter. -/
theorem parallel_runs :
    Parallel conv (Rearranged "workflow_runs" DistinctIds) Eq where
  isObject p p' h := ⟨h.isObject, h.isObject'⟩
  others p p' h key hruns _ := h.others key hruns
  listed p p' h := by
    have htotal := h.others "total_count" (by decide)
    rcases h.items with hsame | ⟨items, items', hitems, hitems', hperm, hids⟩
    · rw [listedRuns, listedRuns, htotal, hsame]
    · have hread (l : List Json) (hl : ∀ item ∈ l, ∃ n, item.get "id" = some (.int n)) :
          l.mapM (fun item => requireDict (some item)) = .ok l := by
        refine mapM_eq_ok.mpr (List.forall₂_same.mpr fun item hitem => ?_)
        obtain ⟨n, hn⟩ := hl item hitem
        cases item with
        | obj members => rfl
        | _ => cases hn
      rw [listedRuns, listedRuns, htotal, hitems, hitems', requireList, requireList]
      have hids' := fun item hitem => hids.1 item (hperm.mem_iff.mpr hitem)
      simp only [bind, Except.bind, hread items hids.1, hread items' hids',
        newestFirst_perm hperm hids]
  start := rfl
  inspect p p' header scan scan' h hscan := by
    rw [hscan, completePage, completePage, h.others "jobs" (by decide),
      h.others "total_count" (by decide)]
    exact Process.Results.refl (fun _ => rfl) _
  complete scan scan' h := by rw [h]
  artifactRuns scan scan' h := by rw [h]

end Runs

/-! ## Complete evidence -/

section Evidence

variable {tables : CaseTables} {conv : Conversions} {trace : RequestTrace}
  {name : RequiredContextName}

/-- A complete page of the jobs of the run was read. -/
def Inspected (trace : RequestTrace) (run : Json) (jobs : List Json) : Prop :=
  ∃ header payload, runHeader run = .ok header ∧
    (.jobs header.1.text, payload) ∈ reads trace ∧ completePage "jobs" payload = .ok jobs

/-- The run was inspected, and none of its jobs has the name. -/
def Absent (trace : RequestTrace) (name : RequiredContextName) (run : Json) : Prop :=
  ∃ jobs, Inspected trace run jobs ∧ ∀ job ∈ jobs, isNamed name job = false

/-- The page lists the newest of the runs that exist, and their ids are distinct. -/
def ListsNewest (conv : Conversions) (items existing : List Json) : Prop :=
  DistinctIds items ∧ (∀ item ∈ items, item ∈ existing) ∧
    ∀ run ∈ existing, run ∈ items ∨ ∀ item ∈ items, Newer conv item run

/-- A missing context is absent from every run that is reported to exist, and any other
state is the one of a job of that name in the newest run that has one. -/
def StateJustified (conv : Conversions) (trace : RequestTrace) (total : ℤ)
    (items existing : List Json) (name : RequiredContextName) (state : ContextState) : Prop :=
  (state = .missing → total ≤ items.length ∧ ∀ run ∈ items, Absent trace name run) ∧
    (state ≠ .missing → ∃ run ∈ items, ∃ jobs job, Inspected trace run jobs ∧ job ∈ jobs ∧
      isNamed name job = true ∧ contextState job = state ∧
      ∀ newer ∈ existing, Newer conv newer run → Absent trace name newer)

/-- No job is missing. -/
theorem contextState_ne_missing (job : Json) : contextState job ≠ .missing := by
  have hlookup (conclusion : String) :
      (conclusionStates.lookup conclusion).getD .failure ≠ .missing := by
    cases h : conclusionStates.lookup conclusion with
    | none => exact nofun
    | some state =>
      rintro rfl
      obtain ⟨before, after, hsplit, -⟩ := List.lookup_eq_some_iff.mp h
      have hmem : (conclusion, ContextState.missing) ∈ conclusionStates := by
        rw [hsplit]
        simp
      simp [conclusionStates] at hmem
  unfold contextState
  split
  · split_ifs
    · exact nofun
    · exact nofun
    · exact nofun
    · split
      · exact hlookup _
      · exact nofun
  · exact nofun

variable {commit : String} {contexts : RequiredContextName → RequiredContext} {payload : Json}
  {total : ℤ} {runs : List Json} {inspected : List InspectedRun}

/-- The job page of an inspected run was read. -/
theorem Evidence.pageRead
    (h : Evidence conv trace commit contexts payload total runs inspected)
    {here : InspectedRun} (hmem : here ∈ inspected) : Inspected trace here.run here.jobs := by
  obtain ⟨before, after, hreads, -, -⟩ := h.read
  refine ⟨here.header, here.payload, here.header_eq, ?_, here.jobs_eq⟩
  have hentry : here.entry ∈ inspected.map InspectedRun.entry := List.mem_map_of_mem hmem
  rw [hreads]
  exact List.mem_append_right _ (List.mem_cons_of_mem _ (List.mem_append_left _ hentry))

/-- An inspected run that reports no context of a name has no job of that name. -/
theorem Evidence.absent
    (h : Evidence conv trace commit contexts payload total runs inspected)
    {here : InspectedRun} (hmem : here ∈ inspected)
    (hnone : firstContext here.header here.jobs name = none) : Absent trace name here.run := by
  refine ⟨here.jobs, h.pageRead hmem, ?_⟩
  have hany := firstContext_isSome here.header here.jobs name
  rw [hnone, Option.isSome_none] at hany
  simpa using hany.symm

/-- A success needs two successes. -/
theorem overall_eq_success (h : (overall contexts).1 = .success) (name : RequiredContextName) :
    (contexts name).state = .success := by
  unfold overall at h
  dsimp only at h
  split_ifs at h with hmissing hsuccess
  · simp [requiredContextNames] at hsuccess
    cases name
    · exact hsuccess.1
    · exact hsuccess.2
  · split at h
    · rename_i blocking hfind
      have hmem := List.mem_of_find?_eq_some hfind
      simp [blockingStates] at hmem
      rcases hmem with rfl | rfl | rfl | rfl | rfl | rfl <;> cases h
    · cases h

/-- What a page of runs lists. -/
theorem listedRuns_eq_ok (h : listedRuns conv payload = .ok (total, runs)) :
    requireCount (payload.get "total_count") = .ok total ∧
      ∃ items, payload.get "workflow_runs" = some (.arr items) ∧ runs.Perm items ∧
        runs.Pairwise fun a b => runKey conv b ≤ runKey conv a := by
  obtain ⟨total', htotal, h⟩ := bind_eq_ok.mp h
  obtain ⟨items, hitems, h⟩ := bind_eq_ok.mp h
  obtain ⟨objects, hobjects, h⟩ := bind_eq_ok.mp h
  obtain ⟨sorted, hsorted, h⟩ := bind_eq_ok.mp h
  cases h
  obtain rfl := mapM_requireDict hobjects
  refine ⟨htotal, objects, ?_, newestFirst_eq_ok hsorted⟩
  unfold requireList at hitems
  split at hitems
  · cases hitems
    assumption
  · cases hitems

/-- The evidence of a call justifies its states. -/
theorem Evidence.stateJustified
    (h : Evidence conv trace commit contexts payload total runs inspected) {items : List Json}
    (hperm : runs.Perm items) (horder : runs.Pairwise fun a b => runKey conv b ≤ runKey conv a)
    {existing : List Json} (hlists : ListsNewest conv items existing)
    (name : RequiredContextName) :
    StateJustified conv trace total items existing name (contexts name).state := by
  rw [h.contexts_eq]
  cases hcontext : contextFrom inspected name with
  | none =>
    obtain ⟨hall, htotal⟩ := h.all ⟨name, hcontext⟩
    refine ⟨fun _ => ⟨hperm.length_eq ▸ htotal, fun run hrun => ?_⟩,
      fun hstate => absurd rfl hstate⟩
    rw [← hperm.mem_iff, ← hall] at hrun
    obtain ⟨here, hhere, rfl⟩ := List.mem_map.mp hrun
    exact h.absent hhere (List.findSome?_eq_none_iff.mp hcontext here hhere)
  | some context =>
    obtain ⟨newer, here, older, hsplit, hfirst, hnone⟩ :=
      List.findSome?_eq_some_iff.mp hcontext
    obtain ⟨job, hjob, rfl⟩ := Option.map_eq_some_iff.mp hfirst
    have hinspected : here ∈ inspected := by
      rw [hsplit]
      simp
    have hruns : ∃ rest, runs = newer.map InspectedRun.run ++ here.run :: rest := by
      obtain ⟨rest, hrest⟩ := h.isPrefix
      exact ⟨older.map InspectedRun.run ++ rest, by rw [← hrest, hsplit]; simp⟩
    obtain ⟨rest, hruns⟩ := hruns
    have hmem : here.run ∈ items := by
      rw [← hperm.mem_iff, hruns]
      simp
    refine ⟨fun hstate => absurd hstate (contextState_ne_missing job), fun _ => ?_⟩
    refine ⟨here.run, hmem, here.jobs, job, h.pageRead hinspected,
      List.mem_of_find?_eq_some hjob, List.find?_some hjob, rfl, fun run hrun hnewer => ?_⟩
    rcases hlists.2.2 run hrun with hitem | holder
    · rw [← hperm.mem_iff, hruns, List.mem_append, List.mem_cons] at hitem
      rw [hruns, List.pairwise_append, List.pairwise_cons] at horder
      rcases hitem with hitem | rfl | hitem
      · obtain ⟨earlier, hearlier, rfl⟩ := List.mem_map.mp hitem
        refine h.absent ?_ (hnone earlier hearlier)
        rw [hsplit]
        exact List.mem_append_left _ hearlier
      · exact absurd hnewer (lt_irrefl _)
      · exact absurd hnewer (not_lt.mpr (horder.2.1.1 run hitem))
    · exact absurd hnewer (lt_asymm (holder here.run hmem))

/-- The replies differ only in the order in which runs with distinct ids are listed. -/
def RelistsRuns (replies replies' : ℕ → Reply) : Prop :=
  ∀ n, OnPayload (Rearranged "workflow_runs" DistinctIds) (replies n) (replies' n)

/-- **Evidence.** A status is never read from incomplete pages: every state is justified
by the pages that the call read, and the whole is a success only when both contexts are.
The outcome of a call does not depend on the order in which the runs are listed. -/
theorem check_from_complete_evidence (tables : CaseTables) (conv : Conversions) (args : Args)
    (io : Option AppendIo) :
    (∀ replies status, ((check tables conv args io).run replies).2.result = .ok status →
      (∃ payload total items,
        (.runs status.commit, payload) ∈ reads ((check tables conv args io).run replies).1 ∧
        requireCount (payload.get "total_count") = .ok total ∧
        payload.get "workflow_runs" = some (.arr items) ∧
        ∀ existing, ListsNewest conv items existing → ∀ name,
          StateJustified conv ((check tables conv args io).run replies).1 total items existing name
            (status.requiredContexts name).state) ∧
      (status.overall = .success → ∀ name, (status.requiredContexts name).state = .success)) ∧
    ∀ replies replies', RelistsRuns replies replies' →
      ((check tables conv args io).run replies').2 =
        ((check tables conv args io).run replies).2 := by
  constructor
  · intro replies status hstatus
    obtain ⟨hoverall, payload, total, runs, inspected, hevidence⟩ := check_evidence hstatus
    obtain ⟨htotal, items, hitems, hperm, horder⟩ := listedRuns_eq_ok hevidence.listed
    refine ⟨⟨payload, total, items, ?_, htotal, hitems, fun existing hlists name =>
      hevidence.stateJustified hperm horder hlists name⟩, fun h => ?_⟩
    · obtain ⟨before, after, hreads, -, -⟩ := hevidence.read
      rw [hreads]
      simp
    · exact overall_eq_success (hoverall ▸ h)
  · intro replies replies' hreplies
    have hrelated : Program.Related (OnPayload (Rearranged "workflow_runs" DistinctIds)) Eq
        (check tables conv args io) (check tables conv args io) := by
      refine Program.Related.bind (related_body parallel_runs args ⟨[], {}⟩) ?_
      rintro ⟨r, trail⟩ ⟨r', _⟩ ⟨rfl, hresults⟩
      have hr : r = r' := by
        cases r with
        | error e =>
          cases r' with
          | error e' => exact congrArg Except.error hresults
          | ok _ => cases hresults
        | ok status =>
          cases r' with
          | error _ => cases hresults
          | ok status' =>
            obtain ⟨ref, commit, artifacts, scan, _, rfl, rfl, rfl⟩ := hresults
            rfl
      exact .done (by rw [hr])
    exact (hrelated.run hreplies).2.symm

end Evidence

end ContributorGateway.StatusChecks
