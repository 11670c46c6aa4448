import ContributorGateway.Core.CheckOrder

/-!
# Jobs of one name

The scan keeps the first job of a name on a page and skips the others. A status depends
on the order of the jobs, and can hide a job that failed, exactly when the page that was
selected for a name has jobs of that name that report differently.
-/

namespace ContributorGateway.StatusChecks

/-! ## The selected pages -/

/-- The complete job page of a reading. -/
def jobPage (reading : GitHubRequest × Json) : Option (List Json) :=
  match reading.1 with
  | .jobs _ => (completePage "jobs" reading.2).toOption
  | _ => none

/-- The page of runs of a reading. -/
def runPage (reading : GitHubRequest × Json) : Option Json :=
  match reading.1 with
  | .runs _ => some reading.2
  | _ => none

/-- The first page that has a job of the name. -/
def selectedPage (pages : List (List Json)) (name : RequiredContextName) : List Json :=
  (pages.find? fun jobs => jobs.any (isNamed name)).getD []

/-- The jobs of the run that is selected for a name. -/
def selectedJobs (trace : RequestTrace) (name : RequiredContextName) : List Json :=
  selectedPage ((reads trace).filterMap jobPage) name

/-- What a context says about its job. -/
def jobReport (job : Json) : ContextState × Option String × Option String :=
  (contextState job, (job.get "started_at").bind Json.asStr,
    (job.get "completed_at").bind Json.asStr)

/-- The jobs of the name report the same. -/
def AgreeOn (name : RequiredContextName) (jobs : List Json) : Prop :=
  ∀ job ∈ jobs, ∀ job' ∈ jobs, isNamed name job = true → isNamed name job' = true →
    jobReport job = jobReport job'

/-- The job completed with the conclusion `success`. -/
def Succeeded (job : Json) : Prop :=
  job.get "status" = some (.str "completed") ∧ job.get "conclusion" = some (.str "success")

/-- A job that counts as a success completed with success. -/
theorem succeeded_of_contextState {job : Json} (h : contextState job = .success) :
    Succeeded job := by
  unfold contextState at h
  split at h
  · rename_i status hstatus
    split_ifs at h with hqueued hprogress hcompleted
    split at h
    · rename_i conclusion hconclusion
      cases hlookup : conclusionStates.lookup conclusion with
      | none =>
        rw [hlookup] at h
        cases h
      | some state =>
        rw [hlookup, Option.getD_some] at h
        subst h
        obtain ⟨before, after, hsplit, -⟩ := List.lookup_eq_some_iff.mp hlookup
        have hmem : (conclusion, ContextState.success) ∈ conclusionStates := by
          rw [hsplit]
          simp
        simp [conclusionStates] at hmem
        rw [not_not] at hcompleted
        exact ⟨by rw [hstatus, hcompleted], by rw [hconclusion, hmem]⟩
    · cases h
  · cases h

/-- Jobs that report the same have the same context. -/
theorem jobContext_eq {header : RunId × String} {job job' : Json}
    (h : jobReport job = jobReport job') : jobContext header job = jobContext header job' := by
  simp only [jobReport, Prod.mk.injEq] at h
  simp only [jobContext, h]

/-- Jobs with the same context report the same. -/
theorem jobReport_eq {header header' : RunId × String} {job job' : Json}
    (h : jobContext header job = jobContext header' job') : jobReport job = jobReport job' := by
  simp only [jobContext, RequiredContext.mk.injEq] at h
  simp only [jobReport, h]

section Pages

variable {conv : Conversions} {trace : RequestTrace} {commit : String}
  {contexts : RequiredContextName → RequiredContext} {payload : Json} {total : ℤ}
  {runs : List Json} {inspected : List InspectedRun} {name : RequiredContextName}

/-- No job page is read outside of the scan. -/
theorem jobPage_outside {reading : GitHubRequest × Json} (h : ¬ IsScanRequest reading.1) :
    jobPage reading = none := by
  unfold jobPage
  split
  · rename_i heq
    rw [heq] at h
    exact absurd trivial h
  · rfl

/-- No page of runs is read outside of the scan. -/
theorem runPage_outside {reading : GitHubRequest × Json} (h : ¬ IsScanRequest reading.1) :
    runPage reading = none := by
  unfold runPage
  split
  · rename_i heq
    rw [heq] at h
    exact absurd trivial h
  · rfl

/-- The job pages of a call are those of the runs that it inspected. -/
theorem Evidence.jobPages_eq
    (h : Evidence conv trace commit contexts payload total runs inspected) :
    (reads trace).filterMap jobPage = inspected.map InspectedRun.jobs := by
  obtain ⟨before, after, hreads, hbefore, hafter⟩ := h.read
  have hentry (here : InspectedRun) : jobPage here.entry = some here.jobs := by
    rw [jobPage, InspectedRun.entry]
    dsimp only
    rw [here.jobs_eq]
    rfl
  rw [hreads, List.filterMap_append, List.filterMap_cons_none rfl, List.filterMap_append,
    List.filterMap_eq_nil_iff.mpr fun reading hreading => jobPage_outside (hbefore reading hreading),
    List.filterMap_eq_nil_iff.mpr fun reading hreading => jobPage_outside (hafter reading hreading),
    List.filterMap_map, List.nil_append, List.append_nil, ← List.filterMap_eq_map]
  exact List.filterMap_congr fun here _ => hentry here

/-- The page of runs is read once. -/
theorem Evidence.runPages_eq
    (h : Evidence conv trace commit contexts payload total runs inspected) :
    (reads trace).filterMap runPage = [payload] := by
  obtain ⟨before, after, hreads, hbefore, hafter⟩ := h.read
  rw [hreads, List.filterMap_append,
    List.filterMap_cons_some (f := runPage) (b := payload) rfl, List.filterMap_append,
    List.filterMap_eq_nil_iff.mpr fun reading hreading => runPage_outside (hbefore reading hreading),
    List.filterMap_eq_nil_iff.mpr fun reading hreading => runPage_outside (hafter reading hreading),
    List.filterMap_map]
  simp [Function.comp_def, runPage, InspectedRun.entry]

end Pages

/-! ## Two calls -/

section Calls

variable {P : Json → Json → Prop} {J : List Json → List Json → Prop} {t t' : RequestTrace}

/-- The entries of two traces ask the same and have related replies. -/
def RelatedTraces (P : Json → Json → Prop) (t t' : RequestTrace) : Prop :=
  List.Forall₂ (fun e e' => e.1 = e'.1 ∧ OnPayload P e.2 e'.2) t t'

/-- A reading of the scan is related to the one of the other call. -/
theorem readPayload_related (hP : ∀ p p', P p p' → isDict p = true ∧ isDict p' = true)
    {e e' : GitHubRequest × Reply} (hrequest : e.1 = e'.1) (hreply : OnPayload P e.2 e'.2)
    (hget : e.1.method = "GET") (haccepts : e.1.accepts = isDict) :
    Option.Rel (fun r r' => r.1 = e.1 ∧ r'.1 = e.1 ∧ P r.2 r'.2) (readPayload e)
      (readPayload e') := by
  obtain ⟨request, reply⟩ := e
  obtain ⟨_, reply'⟩ := e'
  obtain rfl : request = _ := hrequest
  dsimp only at hget haccepts hreply ⊢
  rw [readPayload, readPayload, if_pos hget, if_pos hget, haccepts]
  rcases hreply.received hP with ⟨hnone, hnone'⟩ | ⟨p, p', hp, hp', h⟩
  · rw [hnone, hnone']
    exact .none
  · rw [hp, hp']
    exact .some ⟨rfl, rfl, h⟩

/-- A reading is about the request of its entry. -/
theorem readPayload_request {e : GitHubRequest × Reply} {reading : GitHubRequest × Json}
    (h : readPayload e = some reading) : reading.1 = e.1 := by
  unfold readPayload at h
  split_ifs at h
  obtain ⟨p, -, rfl⟩ := Option.map_eq_some_iff.mp h
  rfl

/-- Related calls read related pages. -/
theorem pages_related {β : Type} {B : β → β → Prop}
    (hP : ∀ p p', P p p' → isDict p = true ∧ isDict p' = true)
    (f : GitHubRequest × Json → Option β)
    (hscan : ∀ {reading}, ¬ IsScanRequest reading.1 → f reading = none)
    (hf : ∀ request p p', P p p' → Option.Rel B (f (request, p)) (f (request, p')))
    (h : RelatedTraces P t t') :
    List.Forall₂ B ((reads t).filterMap f) ((reads t').filterMap f) := by
  rw [reads, reads, List.filterMap_filterMap, List.filterMap_filterMap]
  have hentry : ∀ e e' : GitHubRequest × Reply, e.1 = e'.1 ∧ OnPayload P e.2 e'.2 →
      Option.Rel B ((readPayload e).bind f) ((readPayload e').bind f) := by
    rintro e e' ⟨hrequest, hreply⟩
    by_cases hscanned : IsScanRequest e.1
    · have hsafe : e.1.method = "GET" ∧ e.1.accepts = isDict := by
        revert hscanned
        cases e.1 <;> intro hscanned <;> first | exact ⟨rfl, rfl⟩ | exact hscanned.elim
      have hreadings := readPayload_related hP hrequest hreply hsafe.1 hsafe.2
      generalize readPayload e = x at hreadings ⊢
      generalize readPayload e' = x' at hreadings ⊢
      cases hreadings with
      | none => exact .none
      | @some reading reading' hreading =>
        obtain ⟨request, p⟩ := reading
        obtain ⟨_, p'⟩ := reading'
        obtain ⟨hfirst, hsecond, hp⟩ := hreading
        obtain rfl := hfirst.trans hsecond.symm
        exact hf request p p' hp
    · have hnone (e : GitHubRequest × Reply) (he : ¬ IsScanRequest e.1) :
          (readPayload e).bind f = none := by
        cases hreading : readPayload e with
        | none => rfl
        | some reading => exact hscan (readPayload_request hreading ▸ he)
      rw [hnone e hscanned, hnone e' (hrequest ▸ hscanned)]
      exact .none
  exact List.rel_filterMap (fun e e' he => hentry e e' he) h

variable {conv : Conversions} {commit commit' : String}
  {contexts contexts' : RequiredContextName → RequiredContext} {payload payload' : Json}
  {total total' : ℤ} {runs runs' : List Json} {inspected inspected' : List InspectedRun}

/-- Both calls inspected the same run, and its job lists are related. -/
def RelatedRun (J : List Json → List Json → Prop) (here here' : InspectedRun) : Prop :=
  here'.run = here.run ∧ here'.header = here.header ∧ J here.jobs here'.jobs

/-- Related calls that report inspected the same runs. -/
theorem inspected_related (hP : ∀ p p', P p p' → isDict p = true ∧ isDict p' = true)
    (hlisted : ∀ p p', P p p' → listedRuns conv p' = listedRuns conv p)
    (hpage : ∀ p p', P p p' →
      Process.Results J (completePage "jobs" p) (completePage "jobs" p'))
    (htraces : RelatedTraces P t t')
    (h : Evidence conv t commit contexts payload total runs inspected)
    (h' : Evidence conv t' commit' contexts' payload' total' runs' inspected') :
    List.Forall₂ (RelatedRun J) inspected inspected' := by
  have hpayload : P payload payload' := by
    have hpages := pages_related (B := P) hP runPage runPage_outside (fun request p p' hp => by
      cases request with
      | runs _ => exact .some hp
      | _ => exact .none) htraces
    rw [h.runPages_eq, h'.runPages_eq] at hpages
    cases hpages
    assumption
  have hjobs : List.Forall₂ J (inspected.map InspectedRun.jobs)
      (inspected'.map InspectedRun.jobs) := by
    have hpages := pages_related (B := J) hP jobPage jobPage_outside (fun request p p' hp => by
      cases request with
      | jobs id =>
        have hresults := hpage p p' hp
        unfold jobPage
        dsimp only
        generalize completePage "jobs" p = x at hresults ⊢
        generalize completePage "jobs" p' = x' at hresults ⊢
        cases x <;> cases x' <;> first | exact .none | exact .some hresults | cases hresults
      | _ => exact .none) htraces
    rwa [h.jobPages_eq, h'.jobPages_eq] at hpages
  have hruns : runs' = runs := by
    have heq := hlisted payload payload' hpayload
    rw [h.listed, h'.listed] at heq
    cases heq
    rfl
  have hsame : inspected'.map InspectedRun.run = inspected.map InspectedRun.run := by
    have hlength : (inspected'.map InspectedRun.run).length =
        (inspected.map InspectedRun.run).length := by
      simpa using hjobs.length_eq.symm
    have hprefix' := h'.isPrefix
    rw [hruns] at hprefix'
    rw [List.prefix_iff_eq_take.mp h.isPrefix, List.prefix_iff_eq_take.mp hprefix', hlength]
  have hrun : List.Forall₂ (fun here here' : InspectedRun => here'.run = here.run) inspected
      inspected' := by
    have heq : List.Forall₂ (fun run run' : Json => run' = run) (inspected.map InspectedRun.run)
        (inspected'.map InspectedRun.run) := by
      rw [hsame]
      exact List.forall₂_same.mpr fun _ _ => rfl
    exact List.forall₂_map_right_iff.mp (List.forall₂_map_left_iff.mp heq)
  refine List.Forall₂.mp (fun here here' hrun hjobs => ⟨hrun, ?_, hjobs⟩) hrun
    (List.forall₂_map_right_iff.mp (List.forall₂_map_left_iff.mp hjobs))
  have hheader := here'.header_eq
  rw [hrun, here.header_eq] at hheader
  exact (Except.ok.inj hheader).symm

end Calls

/-! ## Reordered jobs -/

section Reordered

variable {conv : Conversions} {name : RequiredContextName}
  {inspected inspected' : List InspectedRun}

/-- The replies differ only in the order of the jobs on their pages. -/
def ReordersJobs (replies replies' : ℕ → Reply) : Prop :=
  ∀ n, OnPayload (Rearranged "jobs" fun _ => True) (replies n) (replies' n)

/-- The scans have found the same names in the same runs. -/
def SameFound (scan scan' : Scan) : Prop :=
  scan'.artifactRuns = scan.artifactRuns ∧
    ∀ name, (scan'.found name).isSome = (scan.found name).isSome

/-- A page with reordered jobs is as complete. -/
theorem completePage_perm {p p' : Json} (h : Rearranged "jobs" (fun _ => True) p p') :
    Process.Results List.Perm (completePage "jobs" p) (completePage "jobs" p') := by
  have htotal := h.others "total_count" (by decide)
  rcases h.items with hsame | ⟨items, items', hitems, hitems', hperm, -⟩
  · rw [completePage, completePage, htotal, hsame]
    exact Process.Results.refl List.Perm.refl _
  · rw [completePage, completePage, htotal, hitems, hitems', requireList, requireList]
    simp only [bind, Except.bind, hperm.length_eq]
    split
    · split_ifs
      · exact rfl
      · exact hperm
    · exact rfl

/-- Jobs in another order report a context of the same names. -/
theorem firstContext_isSome_perm {jobs jobs' : List Json} (h : jobs.Perm jobs')
    (header : RunId × String) (name : RequiredContextName) :
    (firstContext header jobs' name).isSome = (firstContext header jobs name).isSome := by
  rw [firstContext_isSome, firstContext_isSome, h.any_eq]

/-- The order of the jobs leaves what a scan has found in which runs. -/
theorem SameFound.after {scan scan' : Scan} (h : SameFound scan scan') {jobs jobs' : List Json}
    (hperm : jobs.Perm jobs') (header : RunId × String) :
    SameFound (scan.after header jobs) (scan'.after header jobs') := by
  obtain ⟨hruns, hfound⟩ := h
  have hnone (name : RequiredContextName) :
      (scan'.found name).isNone = (scan.found name).isNone := by
    rw [← Option.not_isSome, hfound, Option.not_isSome]
  refine ⟨?_, fun name => ?_⟩
  · simp only [Scan.after, hruns, hnone, hperm.any_eq]
  · simp only [Scan.after, Option.isSome_or, hfound, firstContext_isSome_perm hperm]

/-- The order of the jobs leaves the course of a call. -/
theorem parallel_jobs {P : Json → Json → Prop}
    (hP : ∀ p p', P p p' → Rearranged "jobs" (fun _ => True) p p') :
    Parallel conv P SameFound where
  isObject p p' h := ⟨(hP p p' h).isObject, (hP p p' h).isObject'⟩
  others p p' h key _ hjobs := (hP p p' h).others key hjobs
  listed p p' h := by
    rw [listedRuns, listedRuns, (hP p p' h).others "total_count" (by decide),
      (hP p p' h).others "workflow_runs" (by decide)]
  start := ⟨rfl, fun _ => rfl⟩
  inspect p p' header scan scan' h hscan := by
    have hpages := completePage_perm (hP p p' h)
    generalize completePage "jobs" p = x at hpages ⊢
    generalize completePage "jobs" p' = x' at hpages ⊢
    cases x with
    | error e =>
      cases x' with
      | error e' => exact hpages
      | ok _ => cases hpages
    | ok jobs =>
      cases x' with
      | error _ => cases hpages
      | ok jobs' =>
        change Process.Results _ (jobs.foldlM (inspectJob header) scan)
          (jobs'.foldlM (inspectJob header) scan')
        have hperm : jobs.Perm jobs' := hpages
        rw [inspectJobs_eq, inspectJobs_eq, hperm.all_eq]
        split_ifs
        · exact hscan.after hperm header
        · exact rfl
  complete scan scan' h := by rw [Scan.complete, Scan.complete, funext h.2]
  artifactRuns scan scan' h := h.1

/-- The context that comes from a list of runs comes from its first run or from the
rest. -/
theorem contextFrom_cons (here : InspectedRun) (rest : List InspectedRun)
    (name : RequiredContextName) : contextFrom (here :: rest) name =
      (firstContext here.header here.jobs name).or (contextFrom rest name) := by
  rw [contextFrom, List.findSome?_cons]
  cases firstContext here.header here.jobs name <;> rfl

/-- The selected page is the first one or comes from the rest. -/
theorem selectedPage_cons (jobs : List Json) (pages : List (List Json))
    (name : RequiredContextName) : selectedPage (jobs :: pages) name =
      if jobs.any (isNamed name) then jobs else selectedPage pages name := by
  rw [selectedPage, List.find?_cons]
  split_ifs with h
  · rw [h]
    rfl
  · rw [Bool.not_eq_true] at h
    rw [h]
    rfl

/-- Jobs that agree report the same context in every order. -/
theorem contextFrom_perm (h : List.Forall₂ (RelatedRun List.Perm) inspected inspected')
    (hagree : AgreeOn name (selectedPage (inspected.map InspectedRun.jobs) name)) :
    contextFrom inspected' name = contextFrom inspected name := by
  induction h with
  | nil => rfl
  | @cons here here' rest rest' hrun _ ih =>
    obtain ⟨-, hheader, hperm⟩ := hrun
    rw [List.map_cons, selectedPage_cons] at hagree
    rw [contextFrom_cons, contextFrom_cons]
    have hsome := firstContext_isSome here.header here.jobs name
    have hsome' := firstContext_isSome_perm hperm here.header name
    rw [hheader]
    split_ifs at hagree with hany
    · rw [hany] at hsome
      obtain ⟨context, hcontext⟩ := Option.isSome_iff_exists.mp hsome
      obtain ⟨context', hcontext'⟩ := Option.isSome_iff_exists.mp (hsome'.trans hsome)
      obtain ⟨job, hjob, rfl⟩ := Option.map_eq_some_iff.mp hcontext
      obtain ⟨job', hjob', rfl⟩ := Option.map_eq_some_iff.mp hcontext'
      have hreport := hagree job (List.mem_of_find?_eq_some hjob) job'
        (hperm.mem_iff.mpr (List.mem_of_find?_eq_some hjob')) (List.find?_some hjob)
        (List.find?_some hjob')
      rw [hcontext, hcontext', Option.some_or, Option.some_or, jobContext_eq hreport]
    · rw [Bool.not_eq_true] at hany
      rw [hany] at hsome
      have hnone := Option.isNone_iff_eq_none.mp (by rw [← Option.not_isSome, hsome]; rfl)
      have hnone' := Option.isNone_iff_eq_none.mp (by rw [← Option.not_isSome, hsome', hsome]; rfl)
      rw [hnone, hnone', Option.none_or, Option.none_or, ih hagree]

/-- The context of a name is the one of a job on the selected page. -/
theorem contextFrom_eq_some {context : RequiredContext}
    (h : contextFrom inspected name = some context) :
    ∃ header, ∃ job ∈ selectedPage (inspected.map InspectedRun.jobs) name,
      isNamed name job = true ∧ context = jobContext header job := by
  induction inspected with
  | nil => cases h
  | cons here rest ih =>
    rw [contextFrom_cons] at h
    rw [List.map_cons, selectedPage_cons, ← firstContext_isSome here.header]
    cases hfirst : firstContext here.header here.jobs name with
    | none =>
      rw [hfirst, Option.none_or] at h
      exact ih h
    | some context' =>
      rw [hfirst, Option.some_or] at h
      cases h
      obtain ⟨job, hjob, hcontext⟩ := Option.map_eq_some_iff.mp hfirst
      exact ⟨here.header, job, List.mem_of_find?_eq_some hjob, List.find?_some hjob,
        hcontext.symm⟩

/-! ## A job in front -/

open Classical in
/-- Put a job in front of the others. -/
noncomputable def bringFirst (job : Json) (jobs : List Json) : List Json :=
  if job ∈ jobs then job :: jobs.erase job else jobs

open Classical in
/-- The jobs are only reordered. -/
theorem perm_bringFirst (job : Json) (jobs : List Json) : jobs.Perm (bringFirst job jobs) := by
  unfold bringFirst
  split_ifs with h
  · exact List.perm_cons_erase h
  · exact List.Perm.refl jobs

/-- Change the jobs of a member of a payload. -/
noncomputable def bringMember (job : Json) (member : String × Json) : String × Json :=
  match member with
  | ("jobs", .arr items) => ("jobs", .arr (bringFirst job items))
  | member => member

/-- Change the jobs of a payload. -/
noncomputable def bringPayload (job : Json) : Json → Json
  | .obj members => .obj (members.map (bringMember job))
  | value => value

/-- Change the jobs of a reply. -/
noncomputable def bringReply (job : Json) : Reply → Reply
  | .response r => .response { r with body := r.body.map (bringPayload job) }
  | reply => reply

@[simp] theorem bringMember_fst (job : Json) (member : String × Json) :
    (bringMember job member).1 = member.1 := by
  unfold bringMember
  split <;> rfl

/-- The members of a changed payload. -/
theorem get_bringPayload (job p : Json) (key : String) :
    (bringPayload job p).get key = (p.get key).map fun value => (bringMember job (key, value)).2 := by
  cases p with
  | obj members =>
    change (members.map (bringMember job)).lookup key = (members.lookup key).map _
    induction members with
    | nil => rfl
    | cons member rest ih =>
      obtain ⟨known, value⟩ := member
      rw [List.map_cons, List.lookup_cons, List.lookup_cons, bringMember_fst]
      by_cases hkey : key = known
      · subst hkey
        rw [beq_self_eq_true]
        rfl
      · rw [beq_false_of_ne hkey]
        exact ih
  | _ => rfl

/-- A member that is no list of jobs stays. -/
theorem bringMember_of_ne (job : Json) {key : String} (hkey : key ≠ "jobs") (value : Json) :
    bringMember job (key, value) = (key, value) := by
  unfold bringMember
  split
  · rename_i heq
    exact absurd (Prod.mk.inj heq).1 hkey
  · rfl

/-- A changed payload is a reordered one. -/
theorem rearranged_bringPayload (job : Json) {p : Json} (hp : isDict p = true) :
    Rearranged "jobs" (fun _ => True) p (bringPayload job p) where
  isObject := hp
  isObject' := by
    cases p with
    | obj members => rfl
    | _ => cases hp
  others key hkey := by
    rw [get_bringPayload]
    simp only [bringMember_of_ne job hkey, Option.map_id']
  items := by
    rw [get_bringPayload]
    cases p.get "jobs" with
    | none => exact Or.inl rfl
    | some value =>
      cases value with
      | arr items => exact Or.inr ⟨items, _, rfl, rfl, perm_bringFirst job items, trivial⟩
      | _ => exact Or.inl rfl

/-- A changed reply has a changed payload. -/
theorem onPayload_bringReply (job : Json) (x : Reply) :
    OnPayload (fun p p' => isDict p = true ∧ p' = bringPayload job p) x (bringReply job x) := by
  cases x with
  | requestError => exact .requestError
  | exception name => exact .exception name
  | response r =>
    obtain ⟨status, retryAfter, rateLimitRemaining, text, body⟩ := r
    cases body with
    | none => exact .noObject rfl
    | some p =>
      cases hp : isDict p with
      | true => exact .body rfl ⟨hp, rfl⟩
      | false =>
        have hsame : bringPayload job p = p := by
          cases p with
          | obj members => cases hp
          | _ => rfl
        rw [bringReply]
        dsimp only
        rw [Option.map_some, hsame]
        exact .noObject (by rw [Option.filter, hp]; rfl)

/-- The jobs of a changed page. -/
theorem completePage_bringPayload (job p : Json) : completePage "jobs" (bringPayload job p) =
    (completePage "jobs" p).map (bringFirst job) := by
  rw [completePage, completePage, get_bringPayload, get_bringPayload]
  simp only [bringMember_of_ne job (show "total_count" ≠ "jobs" by decide), Option.map_id']
  cases p.get "jobs" with
  | none => rfl
  | some value =>
    cases value with
    | arr items =>
      simp only [Option.map_some, bringMember, requireList, bind, Except.bind,
        ← (perm_bringFirst job items).length_eq]
      split
      · split_ifs
        · rfl
        · rfl
      · rfl
    | _ => rfl

/-- A job of the selected page is reported once it is in front. -/
theorem contextFrom_bringFirst {job : Json}
    (h : List.Forall₂ (RelatedRun fun jobs jobs' => jobs' = bringFirst job jobs) inspected inspected')
    (hmem : job ∈ selectedPage (inspected.map InspectedRun.jobs) name)
    (hnamed : isNamed name job = true) :
    ∃ header, contextFrom inspected' name = some (jobContext header job) := by
  induction h with
  | nil => cases hmem
  | @cons here here' rest rest' hrun _ ih =>
    obtain ⟨-, hheader, hjobs⟩ := hrun
    rw [List.map_cons, selectedPage_cons] at hmem
    rw [contextFrom_cons, hheader, hjobs]
    split_ifs at hmem with hany
    · refine ⟨here.header, ?_⟩
      rw [firstContext, bringFirst, if_pos hmem, List.find?_cons, hnamed]
      rfl
    · obtain ⟨header, hcontext⟩ := ih hmem
      refine ⟨header, ?_⟩
      have hnone : firstContext here.header (bringFirst job here.jobs) name = none := by
        rw [← Option.isNone_iff_eq_none, ← Option.not_isSome,
          firstContext_isSome_perm (perm_bringFirst job here.jobs), firstContext_isSome]
        simpa using hany
      rw [hnone, Option.none_or, hcontext]

end Reordered

/-! ## When nothing is masked -/

section Masking

variable {tables : CaseTables} {conv : Conversions} {args : Args} {io : Option AppendIo}
  {replies : ℕ → Reply} {status : CheckStatus}

/-- A name is a success only when every job of that name in the selected run is. -/
def MasksNothing (trace : RequestTrace) (status : CheckStatus) : Prop :=
  ∀ name, (status.requiredContexts name).state = .success →
    ∀ job ∈ selectedJobs trace name, isNamed name job = true → Succeeded job

/-- However the jobs of the pages are reordered, the same contexts and the same overall
state are reported. -/
def JobOrderInvariant (tables : CaseTables) (conv : Conversions) (args : Args)
    (io : Option AppendIo) (replies : ℕ → Reply) (status : CheckStatus) : Prop :=
  ∀ replies', ReordersJobs replies replies' →
    ∃ status', ((check tables conv args io).run replies').2.result = .ok status' ∧
      status'.requiredContexts = status.requiredContexts ∧ status'.overall = status.overall

/-- A payload and its changed version. -/
def Brought (job p p' : Json) : Prop := isDict p = true ∧ p' = bringPayload job p

/-- The procedures of calls with reordered jobs are related. -/
theorem related_procedures {P : Json → Json → Prop}
    (hP : ∀ p p', P p p' → Rearranged "jobs" (fun _ => True) p p') {replies' : ℕ → Reply}
    (hreplies : ∀ n, OnPayload P (replies n) (replies' n)) :
    RelatedTraces P ((body tables conv args ⟨[], {}⟩).run replies).1
        ((body tables conv args ⟨[], {}⟩).run replies').1 ∧
      Process.Outcomes (SameButContexts args SameFound)
        ((body tables conv args ⟨[], {}⟩).run replies).2
        ((body tables conv args ⟨[], {}⟩).run replies').2 :=
  (related_body (parallel_jobs hP) args ⟨[], {}⟩).run hreplies

/-- A job of the selected run is reported when it is put in front. -/
theorem reported_of_invariant
    (h : ((check tables conv args io).run replies).2.result = .ok status)
    (hinvariant : JobOrderInvariant tables conv args io replies status)
    {name : RequiredContextName} {job : Json}
    (hjob : job ∈ selectedJobs ((check tables conv args io).run replies).1 name)
    (hnamed : isNamed name job = true) :
    ∃ header, status.requiredContexts name = jobContext header job := by
  have hP : ∀ p p', Brought job p p' → Rearranged "jobs" (fun _ => True) p p' := by
    rintro p _ ⟨hp, rfl⟩
    exact rearranged_bringPayload job hp
  have hreplies : ∀ n, OnPayload (Brought job) (replies n) (bringReply job (replies n)) :=
    fun n => onPayload_bringReply job (replies n)
  obtain ⟨status', hstatus', hcontexts, -⟩ := hinvariant _ fun n => (hreplies n).mono hP
  obtain ⟨-, payload, total, runs, inspected, hevidence⟩ := check_evidence h
  obtain ⟨-, payload', total', runs', inspected', hevidence'⟩ := check_evidence hstatus'
  rw [check_run] at hevidence hevidence' hjob
  have hinspected := inspected_related (J := fun jobs jobs' => jobs' = bringFirst job jobs)
    (fun p p' hp => ⟨(hP p p' hp).isObject, (hP p p' hp).isObject'⟩)
    (parallel_jobs hP).listed (fun p p' hp => by
      rw [hp.2, completePage_bringPayload]
      cases completePage "jobs" p <;> exact rfl)
    (related_procedures hP hreplies).1 hevidence hevidence'
  rw [selectedJobs, hevidence.jobPages_eq] at hjob
  obtain ⟨header, hcontext⟩ := contextFrom_bringFirst hinspected hjob hnamed
  refine ⟨header, ?_⟩
  rw [← hcontexts, hevidence'.contexts_eq, hcontext, Option.getD_some]

/-- Jobs that agree are reported in the same way in every order. -/
theorem invariant_of_agree
    (h : ((check tables conv args io).run replies).2.result = .ok status)
    (hagree : ∀ name, AgreeOn name
      (selectedJobs ((check tables conv args io).run replies).1 name)) :
    JobOrderInvariant tables conv args io replies status := by
  intro replies' hreplies
  rw [check_run] at h hagree
  have hbody := conclude_eq_ok h
  obtain ⟨htraces, htrail, hresults⟩ :=
    @related_procedures tables conv args replies _ (fun _ _ hp => hp) replies' hreplies
  cases hbody' : ((body tables conv args ⟨[], {}⟩).run replies').2.1 with
  | error e =>
    rw [hbody, hbody'] at hresults
    cases hresults
  | ok status' =>
    rw [hbody, hbody'] at hresults
    obtain ⟨-, payload, total, runs, inspected, hevidence⟩ := body_evidence hbody
    obtain ⟨-, payload', total', runs', inspected', hevidence'⟩ := body_evidence hbody'
    have hinspected := inspected_related (fun _ _ hp => ⟨hp.isObject, hp.isObject'⟩)
      (parallel_jobs fun _ _ hp => hp).listed (fun _ _ => completePage_perm) htraces hevidence
      hevidence'
    have hcontexts : status'.requiredContexts = status.requiredContexts := by
      funext name
      have hname := hagree name
      rw [selectedJobs, hevidence.jobPages_eq] at hname
      rw [hevidence.contexts_eq, hevidence'.contexts_eq, contextFrom_perm hinspected hname]
    obtain ⟨ref, commit, artifacts, scan, scan', -, rfl, rfl⟩ := hresults
    have hsame : statusOf args ref commit artifacts scan'.contexts =
        statusOf args ref commit artifacts scan.contexts :=
      congrArg (statusOf args ref commit artifacts) hcontexts
    refine ⟨_, ?_, rfl, rfl⟩
    rw [check_run, hbody', hsame, ← htrail, ← hbody]
    exact h

/-- **Masking.** For a call that returns a status: nothing is masked and the order of the
jobs does not matter exactly when, for each name, all jobs of that name in the selected
run report the same. -/
theorem jobs_unmasked_iff_agree (tables : CaseTables) (conv : Conversions) (args : Args)
    (io : Option AppendIo) (replies : ℕ → Reply) (status : CheckStatus)
    (h : ((check tables conv args io).run replies).2.result = .ok status) :
    MasksNothing ((check tables conv args io).run replies).1 status ∧
        JobOrderInvariant tables conv args io replies status ↔
      ∀ name, AgreeOn name (selectedJobs ((check tables conv args io).run replies).1 name) := by
  constructor
  · rintro ⟨-, hinvariant⟩ name job hjob job' hjob' hnamed hnamed'
    obtain ⟨header, hcontext⟩ := reported_of_invariant h hinvariant hjob hnamed
    obtain ⟨header', hcontext'⟩ := reported_of_invariant h hinvariant hjob' hnamed'
    exact jobReport_eq (hcontext.symm.trans hcontext')
  · intro hagree
    refine ⟨fun name hsuccess job hjob hnamed => ?_, invariant_of_agree h hagree⟩
    obtain ⟨-, payload, total, runs, inspected, hevidence⟩ := check_evidence h
    have hname := hagree name
    rw [selectedJobs, hevidence.jobPages_eq] at hname hjob
    rw [hevidence.contexts_eq] at hsuccess
    cases hcontext : contextFrom inspected name with
    | none =>
      rw [hcontext] at hsuccess
      cases hsuccess
    | some context =>
      obtain ⟨header, first, hfirst, hfirstNamed, rfl⟩ := contextFrom_eq_some hcontext
      rw [hcontext, Option.getD_some] at hsuccess
      have hreport := hname job hjob first hfirst hnamed hfirstNamed
      exact succeeded_of_contextState ((congrArg Prod.fst hreport).trans hsuccess)

/-! ## Two pages of jobs -/

/-- A job that completed. -/
def completedJob (name conclusion : String) : Json :=
  .obj [("name", .str name), ("status", .str "completed"), ("conclusion", .str conclusion)]

/-- A reply with a payload. -/
def payloadReply (payload : Json) : Reply := .response ⟨200, none, none, "", some payload⟩

/-- The replies to a call for the branch `main` whose one run has these jobs. -/
def runReplies (jobs : List Json) : ℕ → Reply
  | 0 => payloadReply (.obj [("object", .obj
      [("sha", .str "0123456789012345678901234567890123456789")])])
  | 1 => payloadReply (.obj [("total_count", .int 1), ("workflow_runs", .arr [.obj
      [("id", .int 1), ("html_url", .str "https://github.com/runs/1"),
        ("created_at", .str "2026-07-15T04:00:00Z")]])])
  | 2 => payloadReply (.obj [("total_count", .int jobs.length), ("jobs", .arr jobs)])
  | _ => payloadReply (.obj [("total_count", .int 0), ("artifacts", .arr [])])

/-- A call for the branch `main`. -/
def mainArgs : Args where
  pr := .null
  branch := .str "main"
  commit := .null
  callerIdentity := "github:alice"
  now := ⟨63919123200000000, by decide⟩
  token := .token "t"

/-- The run of the call against these jobs. -/
def runMain (jobs : List Json) : RequestTrace × Outcome :=
  (check ⟨id, id⟩ ⟨fun _ => "", fun _ => none, fun _ => none⟩ mainArgs (some .reliable)).run
    (runReplies jobs)

/-- One job of each name. -/
def plainJobs : List Json := [completedJob "core" "success", completedJob "assets" "success"]

/-- A `core` job that succeeded in front of one that failed. -/
def doubledJobs : List Json :=
  [completedJob "core" "success", completedJob "core" "failure", completedJob "assets" "success"]

/-- With one job of each name nothing is masked. -/
theorem plainJobs_unmasked :
    ∃ status, (runMain plainJobs).2.result = .ok status ∧
      MasksNothing (runMain plainJobs).1 status := by
  have hreturned : (runMain plainJobs).2.result.isOk = true := by decide +kernel
  have hagree : requiredContextNames.all (fun name =>
      (selectedJobs (runMain plainJobs).1 name).all fun job =>
        (selectedJobs (runMain plainJobs).1 name).all fun job' =>
          !isNamed name job || !isNamed name job' || jobReport job = jobReport job') = true := by
    decide +kernel
  cases hresult : (runMain plainJobs).2.result with
  | error e =>
    rw [hresult] at hreturned
    cases hreturned
  | ok status =>
    refine ⟨status, rfl, ((jobs_unmasked_iff_agree _ _ mainArgs (some .reliable)
      (runReplies plainJobs) status hresult).mpr fun name job hjob job' hjob' hnamed hnamed' => ?_).1⟩
    rw [List.all_eq_true] at hagree
    have hname := hagree name (by cases name <;> decide)
    rw [List.all_eq_true] at hname
    have hjobs := List.all_eq_true.mp (hname job hjob) job' hjob'
    simpa [hnamed, hnamed'] using hjobs

/-- A job that succeeded masks one of the same name that failed. -/
theorem doubledJobs_masked :
    ¬ ∀ (tables : CaseTables) (conv : Conversions) (args : Args) (io : Option AppendIo)
      (replies : ℕ → Reply) (status : CheckStatus),
      ((check tables conv args io).run replies).2.result = .ok status →
      MasksNothing ((check tables conv args io).run replies).1 status ∧
        JobOrderInvariant tables conv args io replies status := by
  intro h
  have hstate : (runMain doubledJobs).2.result.toOption.map
      (fun status => (status.requiredContexts .core).state) = some .success := by
    decide +kernel
  have hfailed : (selectedJobs (runMain doubledJobs).1 .core).any (fun job =>
      isNamed .core job && contextState job != .success) = true := by
    decide +kernel
  cases hresult : (runMain doubledJobs).2.result with
  | error e =>
    rw [hresult] at hstate
    cases hstate
  | ok status =>
    rw [hresult] at hstate
    obtain ⟨job, hjob, hnamed⟩ := List.any_eq_true.mp hfailed
    rw [Bool.and_eq_true, bne_iff_ne] at hnamed
    obtain ⟨hstatus, hconclusion⟩ :=
      (h _ _ _ _ _ status hresult).1 .core (Option.some.inj hstate) job hjob hnamed.1
    refine hnamed.2 ?_
    rw [contextState, hstatus, hconclusion]
    rfl

end Masking

end ContributorGateway.StatusChecks
