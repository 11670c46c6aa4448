import ContributorGateway.Collaboration.RequestTrace
import ContributorGateway.Core.CheckStatus

/-!
# What a status is read from

A call that returns has read one page of runs and the job pages of the newest ones, one
after another, until both contexts were found or no run was left. Every reported context
is the one of the first job of its name on these pages.
-/

namespace ContributorGateway.StatusChecks

/-! ## The jobs of one run -/

/-- The job has this required name. -/
def isNamed (name : RequiredContextName) (job : Json) : Bool := requiredName job = some name

/-- The context that the first job of a name reports. -/
def firstContext (header : RunId × String) (jobs : List Json) (name : RequiredContextName) :
    Option RequiredContext :=
  (jobs.find? (isNamed name)).map (jobContext header)

/-- The scan after the jobs of a run. -/
def Scan.after (scan : Scan) (header : RunId × String) (jobs : List Json) : Scan where
  found name := (scan.found name).or (firstContext header jobs name)
  artifactRuns :=
    if requiredContextNames.any fun name => (scan.found name).isNone && jobs.any (isNamed name) then
      addRun scan.artifactRuns header.1
    else scan.artifactRuns

/-- Two required names exist. -/
@[simp] theorem any_requiredContextNames {p : RequiredContextName → Bool} :
    requiredContextNames.any p = (p .core || p .assets) := by
  simp [requiredContextNames]

@[simp] theorem all_requiredContextNames {p : RequiredContextName → Bool} :
    requiredContextNames.all p = (p .core && p .assets) := by
  simp [requiredContextNames]

/-- A run is known once it was added. -/
theorem addRun_addRun (ids : List RunId) (id : RunId) :
    addRun (addRun ids id) id = addRun ids id := by
  by_cases hknown : ids.any (fun known => known.value = id.value) = true
  · simp only [addRun, hknown, if_true]
  · have hadded : (ids ++ [id]).any (fun known => known.value = id.value) = true := by simp
    simp only [addRun, hknown, hadded, Bool.false_eq_true, if_false, if_true]

/-- The first job of a name comes from the first part that has one. -/
theorem firstContext_append (header : RunId × String) (jobs jobs' : List Json)
    (name : RequiredContextName) : firstContext header (jobs ++ jobs') name =
      (firstContext header jobs name).or (firstContext header jobs' name) := by
  rw [firstContext, firstContext, firstContext, List.find?_append, Option.map_or]

/-- No job has a name exactly when none reports a context. -/
theorem firstContext_isSome (header : RunId × String) (jobs : List Json)
    (name : RequiredContextName) :
    (firstContext header jobs name).isSome = jobs.any (isNamed name) := by
  rw [firstContext, Option.isSome_map, List.isSome_find?]

/-- One job is inspected when it is an object. -/
theorem inspectJob_eq (header : RunId × String) (scan : Scan) (job : Json) :
    inspectJob header scan job =
      if isDict job then .ok (scan.after header [job]) else unavailable := by
  cases job with
  | obj members =>
    have hfirst (name : RequiredContextName) : firstContext header [.obj members] name =
        if isNamed name (.obj members) then some (jobContext header (.obj members)) else none := by
      cases h : isNamed name (.obj members) <;> simp [firstContext, h]
    have hnamed (name : RequiredContextName) :
        isNamed name (.obj members) = decide (requiredName (.obj members) = some name) := rfl
    unfold inspectJob
    simp only [requireDict, bind, Except.bind, isDict, if_true]
    cases hname : requiredName (.obj members) with
    | none => simp [Scan.after, hfirst, hnamed, hname]
    | some name =>
      simp only [Scan.after, hfirst, hnamed, hname, any_requiredContextNames, List.any_cons,
        List.any_nil, Bool.or_false]
      cases hfound : scan.found name with
      | some context =>
        have hkept : (fun other => (scan.found other).or (if name = other then
            some (jobContext header (.obj members)) else none)) = scan.found := by
          funext other
          by_cases h : name = other
          · subst h
            rw [hfound, Option.some_or]
          · rw [if_neg h, Option.or_none]
        cases name <;> simp [hfound, hkept]
      | none =>
        have hadded : Function.update scan.found name (some (jobContext header (.obj members))) =
            fun other => (scan.found other).or (if name = other then
              some (jobContext header (.obj members)) else none) := by
          funext other
          by_cases h : name = other
          · subst h
            rw [Function.update_self, hfound, Option.none_or, if_pos rfl]
          · rw [Function.update_of_ne (Ne.symm h), if_neg h, Option.or_none]
        rw [hadded]
        cases name <;> simp [hfound]
  | _ => rfl

/-- A name is found by the second part only when the first part leaves it open. -/
theorem found_later_eq (isOpen first second : Bool) :
    (isOpen && (first || second)) = ((isOpen && first) || ((isOpen && !first) && second)) := by
  revert isOpen first second
  decide

/-- The jobs of a run can be inspected in two parts. -/
theorem Scan.after_append (scan : Scan) (header : RunId × String) (jobs jobs' : List Json) :
    (scan.after header jobs).after header jobs' = scan.after header (jobs ++ jobs') := by
  have hfound : ((scan.after header jobs).after header jobs').found =
      (scan.after header (jobs ++ jobs')).found := by
    funext name
    simp only [Scan.after, firstContext_append, Option.or_assoc]
  have hopen (name : RequiredContextName) : ((scan.after header jobs).found name).isNone =
      ((scan.found name).isNone && !jobs.any (isNamed name)) := by
    rw [Scan.after, Option.isNone_or, ← Option.not_isSome (firstContext ..),
      firstContext_isSome]
  have hruns : ((scan.after header jobs).after header jobs').artifactRuns =
      (scan.after header (jobs ++ jobs')).artifactRuns := by
    change (if _ then addRun (if _ then addRun _ _ else _) _ else if _ then addRun _ _ else _) =
      if _ then addRun _ _ else _
    simp only [hopen, List.any_append, found_later_eq, any_requiredContextNames]
    generalize ((scan.found .core).isNone && jobs.any (isNamed .core)) = first
    generalize ((scan.found .assets).isNone && jobs.any (isNamed .assets)) = first'
    generalize ((scan.found .core).isNone && !jobs.any (isNamed .core) &&
      jobs'.any (isNamed .core)) = second
    generalize ((scan.found .assets).isNone && !jobs.any (isNamed .assets) &&
      jobs'.any (isNamed .assets)) = second'
    rw [Bool.or_assoc, Bool.or_left_comm second, ← Bool.or_assoc first]
    cases first || first' <;> cases second || second' <;> simp [addRun_addRun]
  rw [Scan.mk.injEq]
  exact ⟨hfound, hruns⟩

/-- The jobs of a run are inspected when all of them are objects. -/
theorem inspectJobs_eq (header : RunId × String) (scan : Scan) (jobs : List Json) :
    jobs.foldlM (inspectJob header) scan =
      if jobs.all isDict then .ok (scan.after header jobs) else unavailable := by
  induction jobs generalizing scan with
  | nil =>
    simp [Scan.after, firstContext]
    rfl
  | cons job jobs ih =>
    rw [List.foldlM_cons, inspectJob_eq, List.all_cons]
    cases hjob : isDict job with
    | false => rfl
    | true =>
      rw [if_pos rfl, Bool.true_and]
      change jobs.foldlM (inspectJob header) (scan.after header [job]) = _
      rw [ih, Scan.after_append, List.singleton_append]

/-! ## The scan over the runs -/

/-- A run of the page with its complete job page. -/
structure InspectedRun where
  run : Json
  header : RunId × String
  payload : Json
  jobs : List Json
  header_eq : runHeader run = .ok header
  jobs_eq : completePage "jobs" payload = .ok jobs

/-- The request for the jobs of the run, with its payload. -/
def InspectedRun.entry (inspected : InspectedRun) : GitHubRequest × Json :=
  (.jobs inspected.header.1.text, inspected.payload)

/-- The context of the first job of a name on these pages. -/
def contextFrom (inspected : List InspectedRun) (name : RequiredContextName) :
    Option RequiredContext :=
  inspected.findSome? fun run => firstContext run.header run.jobs name

/-- The runs that are inspected when the scan starts with some contexts found. -/
structure Scanned (runs : List Json) (scan scan' : Scan) (inspected : List InspectedRun) :
    Prop where
  isPrefix : inspected.map InspectedRun.run <+: runs
  found : ∀ name, scan'.found name = (scan.found name).or (contextFrom inspected name)
  all : scan'.complete = false → inspected.map InspectedRun.run = runs

section Rules

variable {tables : CaseTables} {conv : Conversions}

/-- The jobs of a run that was scanned are objects, and the scan goes on from them. -/
theorem inspectJobs_eq_ok {header : RunId × String} {scan scan' : Scan} {jobs : List Json}
    (h : jobs.foldlM (inspectJob header) scan = .ok scan') : scan' = scan.after header jobs := by
  rw [inspectJobs_eq] at h
  split_ifs at h
  · exact (Except.ok.inj h).symm
  · cases h

/-- The scan reads the job pages of the newest runs, until both contexts are found. -/
theorem wp_scanRuns (runs : List Json) (scan : Scan) (trail : Trail Locals) (s : RequestTrace) :
    (scanRuns tables runs scan).wp World.history () (fun r _ s' => ∀ scan', r = .ok scan' →
      ∃ inspected, reads s' = reads s ++ inspected.map InspectedRun.entry ∧
        Scanned runs scan scan' inspected) trail s := by
  induction runs generalizing scan trail s with
  | nil =>
    refine Process.wp_pure.mpr (World.later_history.mpr fun scan' h => ?_)
    cases h
    refine ⟨[], by simp, ⟨by simp, fun name => ?_, fun _ => rfl⟩⟩
    rw [contextFrom, List.findSome?_nil, Option.or_none]
  | cons run rest ih =>
    refine wp_lift_bind_trace (fun e _ _ h => by cases h) fun header hheader => ?_
    refine wp_get_bind_trace rfl rfl (fun e _ _ _ h => by cases h) fun payload trail' s' hreads => ?_
    refine wp_lift_bind_trace (fun e _ _ h => by cases h) fun jobs hjobs => ?_
    refine wp_lift_bind_trace (fun e _ _ h => by cases h) fun scan₁ hscan₁ => ?_
    have hafter := inspectJobs_eq_ok hscan₁
    let here : InspectedRun := ⟨run, header, payload, jobs, hheader, hjobs⟩
    have hfound₁ (name : RequiredContextName) : scan₁.found name =
        (scan.found name).or (firstContext header jobs name) := by
      rw [hafter, Scan.after]
    have hhere (inspected : List InspectedRun) (name : RequiredContextName) :
        contextFrom (here :: inspected) name =
          (firstContext header jobs name).or (contextFrom inspected name) := by
      rw [contextFrom, List.findSome?_cons]
      cases firstContext here.header here.jobs name <;> rfl
    split
    · rename_i hcomplete
      refine Process.wp_pure.mpr (World.later_history.mpr fun scan' h => ?_)
      cases h
      refine ⟨[here], hreads, ⟨?_, fun name => ?_, fun hopen => ?_⟩⟩
      · exact List.prefix_append [run] rest
      · rw [hfound₁, hhere, contextFrom, List.findSome?_nil, Option.or_none]
      · rw [hcomplete] at hopen
        cases hopen
    · refine Process.wp_mono (ih scan₁ trail' s') ?_
      rintro r - s'' - hrest scan' h
      obtain ⟨inspected, hreads', hscanned⟩ := hrest scan' h
      refine ⟨here :: inspected, ?_, ⟨?_, fun name => ?_, fun hopen => ?_⟩⟩
      · rw [hreads', hreads, List.append_assoc]
        rfl
      · exact List.prefix_cons_inj run |>.mpr hscanned.isPrefix
      · rw [hscanned.found, hfound₁, hhere, Option.or_assoc]
      · rw [List.map_cons, hscanned.all hopen]

/-- The request is for runs or jobs. -/
def IsScanRequest : GitHubRequest → Prop
  | .runs _ | .jobs _ => True
  | _ => False

/-- The payloads were read, and none of them in the scan. -/
def ReadsOutside (s s' : RequestTrace) : Prop :=
  ∃ more, reads s' = reads s ++ more ∧ ∀ entry ∈ more, ¬ IsScanRequest entry.1

/-- Nothing was read. -/
theorem ReadsOutside.refl (s : RequestTrace) : ReadsOutside s s := ⟨[], by simp, by simp⟩

/-- One payload was read outside of the scan. -/
theorem ReadsOutside.of_reads {s s' : RequestTrace} {request : GitHubRequest} {v : Json}
    (hreads : reads s' = reads s ++ [(request, v)]) (hrequest : ¬ IsScanRequest request) :
    ReadsOutside s s' :=
  ⟨_, hreads, by simpa using hrequest⟩

/-- Readings follow one another. -/
theorem ReadsOutside.trans {s s' s'' : RequestTrace} (h : ReadsOutside s s')
    (h' : ReadsOutside s' s'') : ReadsOutside s s'' := by
  obtain ⟨more, hreads, hmore⟩ := h
  obtain ⟨more', hreads', hmore'⟩ := h'
  refine ⟨more ++ more', by rw [hreads', hreads, List.append_assoc], fun entry hentry => ?_⟩
  rcases List.mem_append.mp hentry with hentry | hentry
  · exact hmore entry hentry
  · exact hmore' entry hentry

/-- Reading the artifacts is no part of the scan. -/
theorem wp_readArtifacts (ids : List RunId) (artifacts : List (ℤ × StatusArtifact))
    (trail : Trail Locals) (s : RequestTrace) :
    (readArtifacts tables ids artifacts).wp World.history () (fun r _ s' =>
      ∀ found, r = .ok found → ReadsOutside s s') trail s := by
  induction ids generalizing artifacts trail s with
  | nil => exact Process.wp_pure.mpr (World.later_history.mpr fun _ _ => .refl s)
  | cons id rest ih =>
    refine wp_get_bind_trace rfl rfl (fun e _ _ _ h => by cases h) fun payload trail' s' hreads => ?_
    refine wp_lift_bind_trace (fun e _ _ h => by cases h) fun items _ => ?_
    refine wp_lift_bind_trace (fun e _ _ h => by cases h) fun entries _ => ?_
    refine Process.wp_mono (ih _ trail' s') ?_
    rintro r - s'' - hrest found h
    exact (ReadsOutside.of_reads hreads False.elim).trans (hrest found h)

/-- Resolving the commit is no part of the scan. -/
theorem wp_resolve (args : Args) (trail : Trail Locals) (s : RequestTrace) :
    (resolve tables args).wp World.history () (fun r _ s' =>
      ∀ resolved, r = .ok resolved → ReadsOutside s s') trail s := by
  have href : (resolveRef tables args).wp World.history () (fun r _ s' =>
      ∀ resolved, r = .ok resolved → ReadsOutside s s') trail s := by
    unfold resolveRef
    split
    · refine wp_get_bind_trace rfl rfl (fun e _ _ _ h => by cases h) fun payload _ s' hreads => ?_
      refine wp_lift_bind_trace (fun e _ _ h => by cases h) fun sha _ => ?_
      exact Process.wp_pure.mpr (World.later_history.mpr fun _ _ => .of_reads hreads False.elim)
    · refine wp_get_bind_trace rfl rfl (fun e _ _ _ h => by cases h) fun payload _ s' hreads => ?_
      refine wp_lift_bind_trace (fun e _ _ h => by cases h) fun sha _ => ?_
      exact Process.wp_pure.mpr (World.later_history.mpr fun _ _ => .of_reads hreads False.elim)
    · exact Process.wp_raise.mpr (World.later_history.mpr fun _ h => by cases h)
  refine Process.wp_bind (Process.wp_mono href ?_)
  rintro (e | ⟨ref, resolved⟩) trail' s' - houtside
  · exact World.later_history.mpr fun _ h => by cases h
  have houtside := houtside _ rfl
  dsimp only
  split_ifs
  · exact Process.wp_pure.mpr (World.later_history.mpr fun _ _ => houtside)
  · refine wp_get_bind_trace rfl rfl (fun e _ _ _ h => by cases h) fun payload _ s'' hreads => ?_
    refine wp_lift_bind_trace (fun e _ _ h => by cases h) fun sha _ => ?_
    exact Process.wp_pure.mpr (World.later_history.mpr fun _ _ =>
      houtside.trans (.of_reads hreads False.elim))
  · exact Process.wp_raise.mpr (World.later_history.mpr fun _ h => by cases h)

end Rules

/-! ## The evidence of a status -/

/-- How the contexts of a status were read: the page of runs, and the runs that were
inspected. -/
structure Evidence (conv : Conversions) (trace : RequestTrace) (commit : String)
    (contexts : RequiredContextName → RequiredContext) (payload : Json) (total : ℤ)
    (runs : List Json) (inspected : List InspectedRun) : Prop where
  listed : listedRuns conv payload = .ok (total, runs)
  read : ∃ before after, reads trace = before ++ (.runs commit, payload) ::
    (inspected.map InspectedRun.entry ++ after) ∧
      (∀ entry ∈ before, ¬ IsScanRequest entry.1) ∧ ∀ entry ∈ after, ¬ IsScanRequest entry.1
  isPrefix : inspected.map InspectedRun.run <+: runs
  contexts_eq : ∀ name, contexts name = (contextFrom inspected name).getD missingContext
  all : (∃ name, contextFrom inspected name = none) →
    inspected.map InspectedRun.run = runs ∧ total ≤ runs.length

section Evidence

variable {tables : CaseTables} {conv : Conversions} {s s' : RequestTrace}

/-- The contexts of a call come from the pages that it scanned. -/
theorem wp_contextsAndArtifacts (commit : String) (trail : Trail Locals)
    (houtside : ∀ entry ∈ reads s, ¬ IsScanRequest entry.1) :
    (contextsAndArtifacts tables conv commit).wp World.history () (fun r _ s' =>
      ∀ found, r = .ok found → ∃ payload total runs inspected,
        Evidence conv s' commit found.1 payload total runs inspected) trail s := by
  refine wp_get_bind_trace rfl rfl (fun e _ _ _ h => by cases h) fun payload trail₁ s₁ hreads₁ => ?_
  refine wp_lift_bind_trace (fun e _ _ h => by cases h) ?_
  rintro ⟨total, runs⟩ hlisted
  refine Process.wp_bind (Process.wp_mono (wp_scanRuns runs {} trail₁ s₁) ?_)
  rintro (e | scan) trail₂ s₂ - hscan
  · exact World.later_history.mpr fun _ h => by cases h
  obtain ⟨inspected, hreads₂, hscanned⟩ := hscan scan rfl
  dsimp only
  unfold report
  split_ifs with hshort
  · exact Process.wp_raise.mpr (World.later_history.mpr fun _ h => by cases h)
  refine Process.wp_bind (Process.wp_mono (wp_readArtifacts _ [] trail₂ s₂) ?_)
  rintro (e | artifacts) trail₃ s₃ - hrest
  · exact World.later_history.mpr fun _ h => by cases h
  obtain ⟨after, hreads₃, hafter⟩ := hrest artifacts rfl
  refine Process.wp_pure.mpr (World.later_history.mpr fun found h => ?_)
  cases h
  have hfound (name : RequiredContextName) : scan.found name = contextFrom inspected name := by
    rw [hscanned.found, Option.none_or]
  refine ⟨payload, total, runs, inspected, ⟨hlisted, ⟨reads s, after, ?_, houtside, hafter⟩,
    hscanned.isPrefix, fun name => ?_, ?_⟩⟩
  · rw [hreads₃, hreads₂, hreads₁]
    simp
  · dsimp only
    rw [hfound]
  · rintro ⟨name, hnone⟩
    have hopen : scan.complete = false := by
      rw [Scan.complete, all_requiredContextNames]
      cases name <;> rw [hfound .core, hfound .assets, hnone] <;> simp
    refine ⟨hscanned.all hopen, not_lt.mp fun hlt => hshort ⟨by simp [hopen], hlt⟩⟩

/-- A status comes from the pages that the call scanned. -/
theorem wp_body (args : Args) (trail : Trail Locals) :
    (body tables conv args).wp World.history () (fun r _ s' =>
      ∀ status, r = .ok status → status.overall = (overall status.requiredContexts).1 ∧
        ∃ payload total runs inspected,
          Evidence conv s' status.commit status.requiredContexts payload total runs inspected)
      trail [] := by
  refine wp_lift_bind_trace (fun e _ _ h => by cases h) fun _ _ => ?_
  refine wp_lift_bind_trace (fun e _ _ h => by cases h) fun _ _ => ?_
  refine Process.wp_bind (Process.wp_mono (wp_resolve args trail []) ?_)
  rintro (e | ⟨ref, commit⟩) trail₁ s₁ - houtside
  · exact World.later_history.mpr fun _ h => by cases h
  obtain ⟨before, hreads, hbefore⟩ := houtside _ rfl
  rw [reads_nil, List.nil_append] at hreads
  refine Process.wp_assign_bind (Process.wp_bind (Process.wp_mono
    (wp_contextsAndArtifacts commit _ (hreads ▸ hbefore)) ?_))
  rintro (e | ⟨contexts, artifacts⟩) trail₂ s₂ - hevidence
  · exact World.later_history.mpr fun _ h => by cases h
  refine Process.wp_pure.mpr (World.later_history.mpr fun status h => ?_)
  cases h
  exact ⟨rfl, hevidence _ rfl⟩

/-- The result of a call is what its procedure returned, when the audit record was
written. -/
theorem conclude_eq_ok {args : Args} {io : Option AppendIo} {result : Except Raised CheckStatus}
    {trail : Trail Locals} {status : CheckStatus}
    (h : (conclude args io result trail).result = .ok status) : result = .ok status := by
  unfold conclude at h
  dsimp only at h
  split at h
  · cases result with
    | error e => cases h
    | ok status' => exact congrArg Except.ok (Except.ok.inj h)
  · cases h

/-- The run of a call is the run of its procedure, and the audit. -/
theorem check_run (args : Args) (io : Option AppendIo) (replies : ℕ → Reply) :
    (check tables conv args io).run replies =
      (((body tables conv args ⟨[], {}⟩).run replies).1,
        conclude args io ((body tables conv args ⟨[], {}⟩).run replies).2.1
          ((body tables conv args ⟨[], {}⟩).run replies).2.2) :=
  Program.run_bind_done _ _ replies

/-- A procedure that returns has evidence for its status. -/
theorem body_evidence {args : Args} {replies : ℕ → Reply} {status : CheckStatus}
    (h : ((body tables conv args ⟨[], {}⟩).run replies).2.1 = .ok status) :
    status.overall = (overall status.requiredContexts).1 ∧
      ∃ payload total runs inspected,
        Evidence conv ((body tables conv args ⟨[], {}⟩).run replies).1 status.commit
          status.requiredContexts payload total runs inspected := by
  have hrun := Program.wp_run (@wp_body tables conv args ⟨[], {}⟩) replies
  rw [List.nil_append] at hrun
  exact hrun status h

/-- Every call that returns has evidence for its status. -/
theorem check_evidence {args : Args} {io : Option AppendIo} {replies : ℕ → Reply}
    {status : CheckStatus}
    (h : ((check tables conv args io).run replies).2.result = .ok status) :
    status.overall = (overall status.requiredContexts).1 ∧
      ∃ payload total runs inspected, Evidence conv ((check tables conv args io).run replies).1
        status.commit status.requiredContexts payload total runs inspected := by
  rw [check_run] at h ⊢
  exact body_evidence (conclude_eq_ok h)

end Evidence

end ContributorGateway.StatusChecks
