import ContributorGateway.Collaboration.Audit
import ContributorGateway.Collaboration.GitHub
import ContributorGateway.Core.Timestamp
import Mathlib.Data.List.Sort
import Mathlib.Data.Prod.Lex
import Mathlib.Data.String.Basic

/-!
# Status of the required contexts

`CheckStatusService` resolves a pull request or a branch to a commit, scans the jobs of
the workflow runs of the commit from the newest run on, and aggregates the states of the
two required contexts. This file is the service as the code computes it.
-/

namespace ContributorGateway.StatusChecks

/-- `RequiredContextName`. -/
inductive RequiredContextName where
  | core
  | assets
  deriving DecidableEq

/-- The text of a name. -/
def RequiredContextName.text : RequiredContextName → String
  | .core => "core"
  | .assets => "assets"

/-- `REQUIRED_CONTEXTS`. -/
def requiredContextNames : List RequiredContextName := [.core, .assets]

/-- `ContextState`. -/
inductive ContextState where
  | queued
  | inProgress
  | success
  | failure
  | neutral
  | cancelled
  | timedOut
  | missing
  deriving DecidableEq

/-- `OverallState`. -/
inductive OverallState where
  | success
  | failure
  | neutral
  | cancelled
  | timedOut
  | inProgress
  | queued
  | blocked
  deriving DecidableEq

/-- The text of an overall state. -/
def OverallState.text : OverallState → String
  | .success => "success"
  | .failure => "failure"
  | .neutral => "neutral"
  | .cancelled => "cancelled"
  | .timedOut => "timed_out"
  | .inProgress => "in_progress"
  | .queued => "queued"
  | .blocked => "blocked"

/-- An integer with the text that formatting gives it; `True` and `False` are integers. -/
structure RunId where
  value : ℤ
  text : String
  deriving DecidableEq

/-- `RequiredContext`. -/
structure RequiredContext where
  state : ContextState
  runId : Option RunId
  runUrl : Option String
  startedAt : Option String
  completedAt : Option String
  deriving DecidableEq

/-- `StatusArtifact`. -/
structure StatusArtifact where
  name : String
  sizeBytes : ℤ
  downloadUrl : String
  expired : Bool
  deriving DecidableEq

/-- `CheckStatus`. -/
structure CheckStatus where
  repository : String
  ref : String
  commit : String
  requiredContexts : RequiredContextName → RequiredContext
  overall : OverallState
  blockedReason : Option String
  artifacts : List StatusArtifact
  checkedAt : String

/-- The arguments of `check`, with the clock reading and what loading the token gives. -/
structure Args where
  pr : Json
  branch : Json
  commit : Json
  callerIdentity : String
  now : Instant
  token : LoadedToken

/-- What Python makes of the values that are compared as texts or integers: `str` of a
value that is no string, and `int` of a string and of a number with a fraction, which can
fail. -/
structure Conversions where
  strOf : Json → String
  intOfStr : String → Option ℤ
  intOfFloat : String → Option ℤ

/-! ## Arguments -/

/-- A refusal of an argument. -/
def refuse {α : Type} (message : String) : Except Raised α :=
  .error (.collaboration (badArgs message))

/-- The service counts as unavailable. -/
def unavailable {α : Type} : Except Raised α := .error (.collaboration upstreamUnavailable)

/-- `value is None`. -/
def isNone : Json → Bool
  | .null => true
  | _ => false

/-- `_COMMIT`. -/
def isFullCommit (s : String) : Bool :=
  matchesClass (fun c => ('0' ≤ c && c ≤ '9') || ('a' ≤ c && c ≤ 'f') || ('A' ≤ c && c ≤ 'F'))
    40 40 s

/-- The check of a pull request number. -/
def validatePr : Json → Except Raised Unit
  | .null => .ok ()
  | .int n => if n < 1 then refuse "pr must be a positive integer" else .ok ()
  | _ => refuse "pr must be a positive integer"

/-- The check of a branch. -/
def validateBranch : Json → Except Raised Unit
  | .null => .ok ()
  | .str s =>
      if s.isEmpty || 255 < s.length || s != strip s || s.toList.any isControl then
        refuse "branch is invalid"
      else .ok ()
  | _ => refuse "branch is invalid"

/-- The check of a commit. -/
def validateCommit : Json → Except Raised Unit
  | .null => .ok ()
  | .str s => if isFullCommit s then .ok () else refuse "commit must be a full 40-character SHA"
  | _ => refuse "commit must be a full 40-character SHA"

/-- `_validate_request`. -/
def validateRequest (args : Args) : Except Raised Unit := do
  if isNone args.pr = isNone args.branch then refuse "provide exactly one of pr or branch"
  else
    validatePr args.pr
    validateBranch args.branch
    validateCommit args.commit

/-! ## Jobs -/

/-- `_CONCLUSION_STATES`. -/
def conclusionStates : List (String × ContextState) :=
  [("success", .success), ("failure", .failure), ("neutral", .neutral),
    ("cancelled", .cancelled), ("timed_out", .timedOut), ("skipped", .neutral),
    ("stale", .cancelled), ("action_required", .failure), ("startup_failure", .failure)]

/-- `_context_state`. -/
def contextState (job : Json) : ContextState :=
  match job.get "status" with
  | some (.str status) =>
      if status = "queued" ∨ status = "waiting" ∨ status = "pending" then .queued
      else if status = "in_progress" ∨ status = "requested" then .inProgress
      else if status ≠ "completed" then .failure
      else
        match job.get "conclusion" with
        | some (.str conclusion) => (conclusionStates.lookup conclusion).getD .failure
        | _ => .failure
  | _ => .failure

/-- The required name that a job has. -/
def requiredName (job : Json) : Option RequiredContextName :=
  match job.get "name" with
  | some (.str s) => requiredContextNames.find? fun name => name.text = s
  | _ => none

/-- The context that a job of a run reports. -/
def jobContext (header : RunId × String) (job : Json) : RequiredContext where
  state := contextState job
  runId := some header.1
  runUrl := some header.2
  startedAt := (job.get "started_at").bind Json.asStr
  completedAt := (job.get "completed_at").bind Json.asStr

/-- The context of a name that no job has. -/
def missingContext : RequiredContext := ⟨.missing, none, none, none, none⟩

/-- What the scan has found: `found` and the keys of `artifact_run_ids`. -/
structure Scan where
  found : RequiredContextName → Option RequiredContext := fun _ => none
  artifactRuns : List RunId := []

/-- `len(found) == len(REQUIRED_CONTEXTS)`. -/
def Scan.complete (scan : Scan) : Bool := requiredContextNames.all fun name => (scan.found name).isSome

/-- Add a key to a dictionary by run. -/
def addRun (ids : List RunId) (id : RunId) : List RunId :=
  if ids.any fun known => known.value = id.value then ids else ids ++ [id]

/-- The body of the loop over the jobs of a run. -/
def inspectJob (header : RunId × String) (scan : Scan) (raw : Json) : Except Raised Scan := do
  let job ← requireDict (some raw)
  match requiredName job with
  | none => .ok scan
  | some name =>
      if (scan.found name).isSome then .ok scan
      else
        .ok
          { found := Function.update scan.found name (some (jobContext header job))
            artifactRuns := addRun scan.artifactRuns header.1 }

/-! ## Payloads -/

/-- `isinstance(value, int)` with the integer. -/
def asInt : Option Json → Option RunId
  | some (.int n) => some ⟨n, toString n⟩
  | some (.bool b) => some (if b then ⟨1, "True"⟩ else ⟨0, "False"⟩)
  | _ => none

/-- The check of `total_count`. -/
def requireCount (value : Option Json) : Except Raised ℤ :=
  match asInt value with
  | some total => if total.value < 0 then unavailable else .ok total.value
  | none => unavailable

/-- The items of a page that has to be complete. -/
def completePage (key : String) (payload : Json) : Except Raised (List Json) := do
  let items ← requireList (payload.get key)
  match asInt (payload.get "total_count") with
  | some total =>
      if total.value < 0 ∨ (items.length : ℤ) < total.value then unavailable else .ok items
  | none => unavailable

/-- The id and the address of a run. -/
def runHeader (run : Json) : Except Raised (RunId × String) :=
  match asInt (run.get "id"), run.get "html_url" with
  | some id, some (.str url) => .ok (id, url)
  | _, _ => unavailable

/-- The artifact of an item, with its id. -/
def artifactEntry (raw : Json) : Except Raised (ℤ × StatusArtifact) := do
  let artifact ← requireDict (some raw)
  match asInt (artifact.get "id"), artifact.get "name", asInt (artifact.get "size_in_bytes"),
    artifact.get "archive_download_url", artifact.get "expired" with
  | some id, some (.str name), some size, some (.str url), some (.bool expired) =>
      .ok (id.value, ⟨name, size.value, url, expired⟩)
  | _, _, _, _, _ => unavailable

/-- `artifacts[key] = value`: a known key keeps its place. -/
def setItem (key : ℤ) (value : StatusArtifact) :
    List (ℤ × StatusArtifact) → List (ℤ × StatusArtifact)
  | [] => [(key, value)]
  | (known, old) :: rest =>
      if known = key then (known, value) :: rest else (known, old) :: setItem key value rest

section Sorting

variable (conv : Conversions)

/-- `str(run.get("created_at", ""))`. -/
def createdAt (run : Json) : String :=
  match run.get "created_at" with
  | none => ""
  | some (.str s) => s
  | some value => conv.strOf value

/-- `int(run.get("id", 0))`. -/
def sortId (run : Json) : Except Raised ℤ :=
  match run.get "id" with
  | none => .ok 0
  | some (.int n) => .ok n
  | some (.bool b) => .ok (if b then 1 else 0)
  | some (.str s) => (conv.intOfStr s).elim (.error (.exception "ValueError")) .ok
  | some (.float text) => (conv.intOfFloat text).elim (.error (.exception "ValueError")) .ok
  | some _ => .error (.exception "TypeError")

/-- The sort key of a run, with the run. -/
def keyed (run : Json) : Except Raised ((String × ℤ) × Json) := do
  let id ← sortId conv run
  .ok ((createdAt conv run, id), run)

/-- The order of `runs.sort(..., reverse=True)`. -/
def NotOlder (a b : (String × ℤ) × Json) : Prop := toLex b.1 ≤ toLex a.1

instance : DecidableRel NotOlder := fun _ _ => inferInstanceAs (Decidable (_ ≤ _))

/-- The runs from the newest on. -/
def newestFirst (runs : List Json) : Except Raised (List Json) := do
  let pairs ← runs.mapM (keyed conv)
  .ok ((pairs.insertionSort NotOlder).map Prod.snd)

end Sorting

/-! ## The overall state -/

/-- The states that block, in the order of `_overall`. -/
def blockingStates : List (ContextState × OverallState) :=
  [(.failure, .failure), (.timedOut, .timedOut), (.cancelled, .cancelled),
    (.inProgress, .inProgress), (.queued, .queued), (.neutral, .neutral)]

/-- `_overall`. -/
def overall (contexts : RequiredContextName → RequiredContext) : OverallState × Option String :=
  let missing := requiredContextNames.filter fun name => (contexts name).state = .missing
  let states := requiredContextNames.map fun name => (contexts name).state
  if missing ≠ [] then
    (.blocked, some ("required CI context(s) not reported: " ++
      ", ".intercalate (missing.map RequiredContextName.text)))
  else if states.all fun state => state = .success then (.success, none)
  else
    match blockingStates.find? fun blocking => states.contains blocking.1 with
    | some blocking => (blocking.2, none)
    | none => (.failure, none)

/-! ## Steps of the service -/

/-- The local variable of `check` that the audit record shows. -/
structure Locals where
  resolvedCommit : Option String := none

section Steps

variable (tables : CaseTables) (conv : Conversions)

/-- The commit of a ref. -/
def refSha (payload : Json) : Except Raised String := do
  let object ← requireDict (payload.get "object")
  requireString (object.get "sha")

/-- The ref that the arguments name, and the commit that it points at. -/
def resolveRef (args : Args) : Session Locals (String × String) :=
  match args.pr, args.branch with
  | .int pr, _ => do
      let payload ← get tables (.pullRef pr)
      let resolved ← .lift (refSha payload)
      pure ("refs/pull/" ++ toString pr ++ "/head", resolved)
  | _, .str branch => do
      let payload ← get tables (.branchRef branch)
      let resolved ← .lift (refSha payload)
      pure ("refs/heads/" ++ branch, resolved)
  | _, _ => .raise (.exception "AssertionError")

/-- `_resolve`. -/
def resolve (args : Args) : Session Locals (String × String) := do
  let (ref, resolved) ← resolveRef tables args
  let selected := tables.lower (args.commit.asStr.getD resolved)
  if ¬ isFullCommit selected then .raise (.collaboration upstreamUnavailable)
  else if isNone args.commit then pure (ref, selected)
  else
    let payload ← get tables (.commit selected)
    let sha ← .lift (requireString (payload.get "sha"))
    pure (ref, tables.lower sha)

/-- The loop over the runs. -/
def scanRuns : List Json → Scan → Session Locals Scan
  | [], scan => pure scan
  | run :: rest, scan => do
      let header ← .lift (runHeader run)
      let payload ← get tables (.jobs header.1.text) true
      let jobs ← .lift (completePage "jobs" payload)
      let scan ← .lift (jobs.foldlM (inspectJob header) scan)
      if scan.complete then pure scan else scanRuns rest scan

/-- The loop over the runs with artifacts. -/
def readArtifacts :
    List RunId → List (ℤ × StatusArtifact) → Session Locals (List (ℤ × StatusArtifact))
  | [], artifacts => pure artifacts
  | id :: rest, artifacts => do
      let payload ← get tables (.artifacts id.text) true
      let items ← .lift (completePage "artifacts" payload)
      let entries ← .lift (items.mapM artifactEntry)
      readArtifacts rest (entries.foldl (fun known entry => setItem entry.1 entry.2 known)
        artifacts)

/-- The artifacts in the order of their names and addresses. -/
def sortArtifacts (artifacts : List (ℤ × StatusArtifact)) : List StatusArtifact :=
  (artifacts.map Prod.snd).insertionSort fun a b =>
    toLex (a.name, a.downloadUrl) ≤ toLex (b.name, b.downloadUrl)

/-- What is returned once the runs have been scanned. -/
def report (total : ℤ) (listed : ℕ) (scan : Scan) :
    Session Locals ((RequiredContextName → RequiredContext) × List StatusArtifact) :=
  if ¬ scan.complete ∧ (listed : ℤ) < total then .raise (.collaboration upstreamUnavailable)
  else do
    let artifacts ← readArtifacts tables
      (scan.artifactRuns.insertionSort fun a b => a.value ≤ b.value) []
    pure (fun name => (scan.found name).getD missingContext, sortArtifacts artifacts)

/-- The total and the runs of a page of runs, from the newest run on. -/
def listedRuns (payload : Json) : Except Raised (ℤ × List Json) := do
  let total ← requireCount (payload.get "total_count")
  let items ← requireList (payload.get "workflow_runs")
  let runs ← items.mapM fun item => requireDict (some item)
  let runs ← newestFirst conv runs
  .ok (total, runs)

/-- `_contexts_and_artifacts`. -/
def contextsAndArtifacts (commit : String) :
    Session Locals ((RequiredContextName → RequiredContext) × List StatusArtifact) := do
  let payload ← get tables (.runs commit) true
  let (total, runs) ← .lift (listedRuns conv payload)
  let scan ← scanRuns tables runs {}
  report tables total runs.length scan

/-- The `try` block of `check`. -/
def body (args : Args) : Session Locals CheckStatus := do
  .lift (validateRequest args)
  .lift (beginSession args.token)
  let (ref, commit) ← resolve tables args
  .assign fun trail => { trail with locals := ⟨some commit⟩ }
  let (contexts, artifacts) ← contextsAndArtifacts tables conv commit
  pure
    { repository := expectedRepository
      ref := ref
      commit := commit
      requiredContexts := contexts
      overall := (overall contexts).1
      blockedReason := (overall contexts).2
      artifacts := artifacts
      checkedAt := timestamp args.now }

end Steps

/-! ## The tool -/

/-- The audit record of `check`. -/
def auditRecord (args : Args) (trail : Trail Locals)
    (result : Except CollaborationError CheckStatus) : Json :=
  .obj [
    ("timestamp", .str (timestamp args.now)),
    ("caller_identity", .str args.callerIdentity),
    ("tool", .str "check_status"),
    ("args", .obj [("pr", args.pr), ("branch", args.branch), ("commit", args.commit)]),
    ("resolved_commit", trail.locals.resolvedCommit.elim .null .str),
    ("outcome", .str (match result with
      | .ok status => status.overall.text
      | .error e => e.code.text)),
    ("github_api_status", .arr (trail.statuses.map fun status => .int status))]

/-- The end of a call: what it returns or raises, and the record it audits. -/
structure Outcome where
  result : Except CollaborationError CheckStatus
  record : Json
  audited : List UInt8

/-- The part of `check` after the `try` block. -/
def conclude (args : Args) (io : Option AppendIo) (result : Except Raised CheckStatus)
    (trail : Trail Locals) : Outcome :=
  let result := result.mapError Raised.toError
  let record := auditRecord args trail result
  let appended := append io record
  match appended.1 with
  | .ok () => ⟨result, record, appended.2⟩
  | .error _ => ⟨.error upstreamUnavailable, record, appended.2⟩

/-- `CheckStatusService.check`. -/
def check (tables : CaseTables) (conv : Conversions) (args : Args) (io : Option AppendIo) :
    Program GitHubRequest Reply Outcome :=
  body tables conv args ⟨[], {}⟩ >>= fun r => .done (conclude args io r.1 r.2)

end ContributorGateway.StatusChecks
