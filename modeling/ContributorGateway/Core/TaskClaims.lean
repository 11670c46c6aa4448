import ContributorGateway.Collaboration.Arguments
import ContributorGateway.Collaboration.Audit
import ContributorGateway.Core.TaskRecord
import ContributorGateway.Core.Timestamp
import Mathlib.Data.List.AList

/-!
# Task claims

`TaskClaimService` decides every claim and release from the history in its ledger
and appends the decision to the same ledger. This file is the service as the code
computes it. The Unicode table behind `str.isprintable` is a parameter.
-/

namespace ContributorGateway.TaskClaims

/-- `MIN_CLAIM_MINUTES`. -/
def minClaimMinutes : ℤ := 15

/-- `MAX_CLAIM_MINUTES`. -/
def maxClaimMinutes : ℤ := 1440

/-- `CLAIM_LEDGER_SCHEMA_VERSION`. -/
def claimLedgerSchemaVersion : ℤ := 1

/-- `_CLAIM_ID`. -/
def isClaimId (s : String) : Bool :=
  matchesClass (fun c => isAsciiAlnum c || c == '_' || c == '-') 24 24 s

/-- `ClaimedTask`. -/
structure ClaimedTask where
  task : TaskRecord
  claimId : String
  owner : String
  claimedAt : String
  expiresAt : String
  replayed : Bool
  deriving DecidableEq

/-- `ReleasedTask`. -/
structure ReleasedTask where
  taskId : String
  claimId : String
  owner : String
  released : Bool
  releasedAt : String
  deriving DecidableEq

/-- `_ActiveClaim`. -/
structure ActiveClaim where
  taskId : String
  claimId : String
  owner : String
  idempotencyKey : String
  claimedAt : String
  expiresAt : String
  deriving DecidableEq

/-- The dictionary of claims by task id. -/
abbrev Claims := AList fun _ : String => ActiveClaim

/-- `_parse_timestamp`. -/
def parseTimestamp (value : Option Json) : Except Raised Instant :=
  match value with
  | some (.str s) =>
      if 32 < s.length then .error (.auditUnavailable "claim ledger timestamp is malformed")
      else
        match fromisoformat (replaceAll ['Z'] ['+', '0', '0', ':', '0', '0'] s.toList) with
        | none => .error (.auditUnavailable "claim ledger timestamp is malformed")
        | some (_, none) => .error (.auditUnavailable "claim ledger timestamp lacks a timezone")
        | some (seconds, some offset) =>
            let utc := (seconds : ℤ) - offset * 60
            if h : 0 ≤ utc ∧ utc.toNat * 1000000 < maxMicros then
              .ok ⟨utc.toNat * 1000000, h.2⟩
            else .error (.exception "OverflowError")
  | _ => .error (.auditUnavailable "claim ledger timestamp is malformed")

section Validation

variable (isPrintable : Char → Bool)

/-- The callers that `_bounded_identity` accepts. -/
def isOwner (s : String) : Bool :=
  !s.isEmpty && s.length ≤ 160 && s.toList.all isPrintable && !s.toList.any isControl

/-- The task ids that `_task_id` accepts. -/
def isTaskId (s : String) : Bool :=
  !s.isEmpty && s.length ≤ 256 && s == strip s && !s.toList.any isControl

/-- `_bounded_identity`. -/
def boundedIdentity : PyValue → Except Raised String :=
  checkedStr (isOwner isPrintable) "authenticated caller identity is invalid"

/-- `_task_id`. -/
def taskId : PyValue → Except Raised String :=
  checkedStr isTaskId "task_id must be an exact printable committed task ID"

/-- `_idempotency_key`. -/
def idempotencyKey : PyValue → Except Raised String := checkedKey

/-- `_duration`. A Boolean is refused although it is an integer. -/
def duration (value : PyValue) : Except Raised ℤ :=
  match value with
  | .int n =>
      if minClaimMinutes ≤ n ∧ n ≤ maxClaimMinutes then .ok n
      else .error (.collaboration (badArgs "duration_minutes must be in 15..1440"))
  | _ => .error (.collaboration (badArgs "duration_minutes must be in 15..1440"))

/-- `_claim_id`. -/
def claimId : PyValue → Except Raised String :=
  checkedStr isClaimId "claim_id is invalid; use the value returned by claim_task"

end Validation

/-! ## Folding the ledger -/

/-- A string field of a record. -/
def fieldStr (key : String) (record : Json) : Option String :=
  (record.get key).bind Json.asStr

/-- A string field of the arguments of a record. -/
def argStr (key : String) (record : Json) : Option String :=
  ((record.get "args").bind (Json.get key)).bind Json.asStr

/-- `value == 1`, which holds of the integer and of `True`. -/
def isSchemaVersion : Option Json → Bool
  | some (.int n) => n == claimLedgerSchemaVersion
  | some (.bool b) => b
  | _ => false

/-- `claims[task_id] = _ActiveClaim(...)` after the checks of a `claimed` record. -/
def claimedStep (isPrintable : Char → Bool) (claims : Claims) (record : Json) :
    Except Raised Claims :=
  match argStr "task_id" record, argStr "idempotency_key" record,
    fieldStr "caller_identity" record, fieldStr "claim_id" record,
    fieldStr "claimed_at" record, fieldStr "expires_at" record with
  | some task, some key, some owner, some id, some claimedAt, some expiresAt =>
      if isTaskId task && isIdempotencyKey key && isOwner isPrintable owner && isClaimId id then do
        let start ← parseTimestamp (record.get "claimed_at")
        let expiry ← parseTimestamp (record.get "expires_at")
        if expiry ≤ start ∨ maxClaimMinutes.toNat * 60000000 < expiry.micros - start.micros then
          .error (.auditUnavailable "claim ledger expiry is malformed")
        else
          .ok (claims.insert task ⟨task, id, owner, key, claimedAt, expiresAt⟩)
      else .error (.auditUnavailable "claim ledger record is malformed")
  | _, _, _, _, _, _ => .error (.auditUnavailable "claim ledger record is malformed")

/-- `claims.pop(task_id)` after the checks of a `released` record. -/
def releasedStep (isPrintable : Char → Bool) (claims : Claims) (record : Json) :
    Except Raised Claims :=
  match argStr "task_id" record, argStr "claim_id" record,
    fieldStr "caller_identity" record with
  | some task, some id, some owner =>
      if isTaskId task && isClaimId id && isOwner isPrintable owner then
        match claims.lookup task with
        | some current =>
            if current.claimId = id ∧ current.owner = owner then .ok (claims.erase task)
            else .error (.auditUnavailable "release ledger does not match active ownership")
        | none => .error (.auditUnavailable "release ledger does not match active ownership")
      else .error (.auditUnavailable "release ledger record is malformed")
  | _, _, _ => .error (.auditUnavailable "release ledger record is malformed")

/-- One iteration of the loop of `_ledger_claims`. An unhashable `tool` fails the
set membership test. -/
def ledgerStep (isPrintable : Char → Bool) (claims : Claims) (record : Json) :
    Except Raised Claims :=
  match record.get "tool" with
  | some (.arr _) => .error (.exception "TypeError")
  | some (.obj _) => .error (.exception "TypeError")
  | some (.str tool) =>
      if tool = "claim_task" ∨ tool = "release_task" then
        if isSchemaVersion (record.get "schema_version") then
          if tool = "claim_task" ∧ fieldStr "outcome" record = some "claimed" then
            claimedStep isPrintable claims record
          else if tool = "release_task" ∧ fieldStr "outcome" record = some "released" then
            releasedStep isPrintable claims record
          else .ok claims
        else .error (.auditUnavailable "claim ledger schema version is unsupported")
      else .ok claims
  | _ => .ok claims

/-- The loop of `_ledger_claims`. -/
def foldLedger (isPrintable : Char → Bool) (records : List Json) : Except Raised Claims :=
  records.foldlM (ledgerStep isPrintable) ∅

/-- The comprehension that keeps the claims that have not expired. -/
def unexpired (now : Instant) :
    List (Sigma fun _ : String => ActiveClaim) →
      Except Raised (List (Sigma fun _ : String => ActiveClaim))
  | [] => .ok []
  | entry :: rest => do
      let expiry ← parseTimestamp (some (.str entry.2.expiresAt))
      let kept ← unexpired now rest
      pure (if now < expiry then entry :: kept else kept)

/-- `_ledger_claims`. -/
def ledgerClaims (isPrintable : Char → Bool) (records : List Json) (now : Instant) :
    Except Raised (List (Sigma fun _ : String => ActiveClaim)) := do
  let claims ← foldLedger isPrintable records
  unexpired now claims.entries

/-- `_safe_arg`. -/
def safeArg (value : PyValue) (limit : ℕ) : Option String :=
  value.asStr.map fun s => String.ofList (s.toList.take limit)

/-- An optional string as JSON. -/
def optStr (value : Option String) : Json := value.elim .null .str

/-! ## The tools -/

/-- The arguments of `claim_task`. -/
structure ClaimArgs where
  taskId : PyValue
  durationMinutes : PyValue
  idempotencyKey : PyValue
  callerIdentity : PyValue

/-- The arguments of `release_task`. -/
structure ReleaseArgs where
  taskId : PyValue
  claimId : PyValue
  callerIdentity : PyValue

/-- The tool a call uses. -/
inductive Request where
  | claim (args : ClaimArgs)
  | release (args : ReleaseArgs)

/-- One call of the service: its arguments, the clock reading taken before the lock,
the id that `claim_id_factory` yields if asked, and the task index. -/
structure Call where
  request : Request
  now : Instant
  newClaimId : String
  tasks : Tasks

/-- What a successful call returns. -/
inductive Answer where
  | claimed (result : ClaimedTask)
  | released (result : ReleasedTask)
  deriving DecidableEq

/-- The local variables of `decide` in `claim_task`. -/
structure ClaimLocals where
  validOwner : Option String := none
  validTaskId : Option String := none
  validKey : Option String := none
  validDuration : Option ℤ := none
  claimId : Option String := none
  claimedAt : Option String := none
  expiresAt : Option String := none

/-- The local variables of `decide` in `release_task`. -/
structure ReleaseLocals where
  validOwner : Option String := none
  validTaskId : Option String := none
  validClaimId : Option String := none

/-- Run a step that does not touch the local variables. -/
def attempt {σ α : Type} (x : Except Raised α) : EStateM Raised σ α :=
  match x with
  | .ok a => pure a
  | .error e => throw e

section Runs

variable {σ α β : Type} {locals : σ}

/-- A step that yields a value hands it on with the same local variables. -/
theorem run_attempt_ok {x : Except Raised α} {a : α} (hx : x = .ok a)
    (f : α → EStateM Raised σ β) : (attempt x >>= f).run locals = (f a).run locals := by
  subst hx
  rfl

/-- A step that raises ends the body and keeps the local variables. -/
theorem run_attempt_error {x : Except Raised α} {e : Raised} (hx : x = .error e)
    (f : α → EStateM Raised σ β) : (attempt x >>= f).run locals = .error e locals := by
  subst hx
  rfl

/-- An assignment changes the local variables for what follows. -/
theorem run_assign (g : σ → σ) (f : PUnit → EStateM Raised σ β) :
    (modify g >>= f).run locals = (f ⟨⟩).run (g locals) :=
  rfl

/-- An exception keeps the local variables. -/
theorem run_raise (e : Raised) : (throw e : EStateM Raised σ α).run locals = .error e locals :=
  rfl

end Runs

section Tools

variable (isPrintable : Char → Bool) (now : Instant) (tasks : Tasks)

/-- The refusal of a task that somebody holds. -/
def heldBy (active : ActiveClaim) : Raised :=
  .collaboration
    (conflict ("task is claimed by " ++ active.owner ++ " until " ++ active.expiresAt))

/-- The part of `decide` in `claim_task` that follows the lookup of the active claim. -/
def grantOrReplay (task : TaskRecord) (owner key : String) (minutes : ℤ) (newClaimId : String)
    (active : Option ActiveClaim) : EStateM Raised ClaimLocals ClaimedTask :=
  match active with
  | some active =>
      if active.owner = owner ∧ active.idempotencyKey = key then do
        modify fun l => { l with
          claimId := some active.claimId
          claimedAt := some active.claimedAt
          expiresAt := some active.expiresAt }
        pure ⟨task, active.claimId, owner, active.claimedAt, active.expiresAt, true⟩
      else throw (heldBy active)
  | none => do
      modify fun l => { l with claimId := some newClaimId }
      if isClaimId newClaimId then
        match now.addMinutes minutes.toNat with
        | some expiry =>
            modify fun l => { l with
              claimedAt := some (timestamp now)
              expiresAt := some (timestamp expiry) }
            pure ⟨task, newClaimId, owner, timestamp now, timestamp expiry, false⟩
        | none => throw (.exception "OverflowError")
      else throw (.exception "RuntimeError")

/-- The `try` block of `decide` in `claim_task`. -/
def claimBody (args : ClaimArgs) (newClaimId : String) (records : List Json) :
    EStateM Raised ClaimLocals ClaimedTask := do
  let owner ← attempt (boundedIdentity isPrintable args.callerIdentity)
  modify fun l => { l with validOwner := some owner }
  let task ← attempt (taskId args.taskId)
  modify fun l => { l with validTaskId := some task }
  let key ← attempt (idempotencyKey args.idempotencyKey)
  modify fun l => { l with validKey := some key }
  let minutes ← attempt (duration args.durationMinutes)
  modify fun l => { l with validDuration := some minutes }
  match tasks.getTask task with
  | none => throw (.collaboration taskNotFound)
  | some record =>
      if record.status = .done then
        throw (.collaboration (conflict "completed tasks cannot be claimed"))
      else
        let claims ← attempt (ledgerClaims isPrintable records now)
        grantOrReplay now record owner key minutes newClaimId (claims.dlookup task)

/-- The record that `claim_task` appends. -/
def claimRecord (args : ClaimArgs) (l : ClaimLocals) (outcome : String) : Json :=
  .obj [
    ("schema_version", .int claimLedgerSchemaVersion),
    ("timestamp", .str (timestamp now)),
    ("caller_identity", optStr (l.validOwner.or (safeArg args.callerIdentity 160))),
    ("tool", .str "claim_task"),
    ("args", .obj [
      ("task_id", optStr (l.validTaskId.or (safeArg args.taskId 256))),
      ("duration_minutes", l.validDuration.elim .null .int),
      ("idempotency_key", optStr (l.validKey.or (safeArg args.idempotencyKey 64)))]),
    ("snapshot_commit", .str tasks.commit),
    ("claim_id", optStr l.claimId),
    ("claimed_at", optStr l.claimedAt),
    ("expires_at", optStr l.expiresAt),
    ("outcome", .str outcome)]

/-- `decide` in `claim_task`. Only collaboration errors become decisions. -/
def claimDecide (args : ClaimArgs) (newClaimId : String) (records : List Json) :
    Except Raised (AuditDecision (Except CollaborationError ClaimedTask)) :=
  match (claimBody isPrintable now tasks args newClaimId records).run {} with
  | .ok result l =>
      .ok ⟨claimRecord now tasks args l (if result.replayed then "replayed" else "claimed"),
        .ok result⟩
  | .error (.collaboration e) l => .ok ⟨claimRecord now tasks args l e.code.text, .error e⟩
  | .error e _ => .error e

/-- The part of `decide` in `release_task` that follows the lookup of the active
claim. -/
def releaseActive (task id owner : String) (active : Option ActiveClaim) :
    EStateM Raised ReleaseLocals ReleasedTask :=
  match active with
  | none => pure ⟨task, id, owner, false, timestamp now⟩
  | some active =>
      if active.owner ≠ owner then throw (heldBy active)
      else if active.claimId ≠ id then
        throw (.collaboration (conflict "claim_id does not match the caller's active claim"))
      else pure ⟨task, id, owner, true, timestamp now⟩

/-- The `try` block of `decide` in `release_task`. -/
def releaseBody (args : ReleaseArgs) (records : List Json) :
    EStateM Raised ReleaseLocals ReleasedTask := do
  let owner ← attempt (boundedIdentity isPrintable args.callerIdentity)
  modify fun l => { l with validOwner := some owner }
  let task ← attempt (taskId args.taskId)
  modify fun l => { l with validTaskId := some task }
  let id ← attempt (claimId args.claimId)
  modify fun l => { l with validClaimId := some id }
  let claims ← attempt (ledgerClaims isPrintable records now)
  releaseActive now task id owner (claims.dlookup task)

/-- The record that `release_task` appends. -/
def releaseRecord (args : ReleaseArgs) (l : ReleaseLocals) (outcome : String) : Json :=
  .obj [
    ("schema_version", .int claimLedgerSchemaVersion),
    ("timestamp", .str (timestamp now)),
    ("caller_identity", optStr (l.validOwner.or (safeArg args.callerIdentity 160))),
    ("tool", .str "release_task"),
    ("args", .obj [
      ("task_id", optStr (l.validTaskId.or (safeArg args.taskId 256))),
      ("claim_id", optStr (l.validClaimId.or (safeArg args.claimId 24)))]),
    ("snapshot_commit", .str tasks.commit),
    ("outcome", .str outcome)]

/-- `decide` in `release_task`. -/
def releaseDecide (args : ReleaseArgs) (records : List Json) :
    Except Raised (AuditDecision (Except CollaborationError ReleasedTask)) :=
  match (releaseBody isPrintable now args records).run {} with
  | .ok result l =>
      .ok ⟨releaseRecord now tasks args l
        (if result.released then "released" else "not_claimed"), .ok result⟩
  | .error (.collaboration e) l => .ok ⟨releaseRecord now tasks args l e.code.text, .error e⟩
  | .error e _ => .error e

end Tools

/-- The end of both tools: an exception out of the transaction is an unavailable
service, a decided failure is raised as it is. -/
def conclude {α : Type} (result : Except Raised (Except CollaborationError α)) :
    Except CollaborationError α :=
  match result with
  | .error _ => .error upstreamUnavailable
  | .ok decided => decided

/-- `decide` of either tool, with the tool's result as an answer. -/
def decideCall (isPrintable : Char → Bool) (call : Call) (records : List Json) :
    Except Raised (AuditDecision (Except CollaborationError Answer)) :=
  match call.request with
  | .claim args =>
      (claimDecide isPrintable call.now call.tasks args call.newClaimId records).map
        fun d => ⟨d.record, d.value.map .claimed⟩
  | .release args =>
      (releaseDecide isPrintable call.now call.tasks args records).map
        fun d => ⟨d.record, d.value.map .released⟩

/-- `claim_task` or `release_task` on the content of the ledger file: the result or
the error of the call, and the content afterwards. -/
def serve (isPrintable : Char → Bool) (call : Call) (raw : List UInt8) :
    Except CollaborationError Answer × List UInt8 :=
  let transaction := transact loadsLine .reliable (decideCall isPrintable call) raw
  (conclude transaction.1, transaction.2)

/-- The calls of a service in the order in which they obtained the ledger lock. -/
def serveAll (isPrintable : Char → Bool) : List Call → List UInt8 → List UInt8
  | [], raw => raw
  | call :: rest, raw => serveAll isPrintable rest (serve isPrintable call raw).2

end ContributorGateway.TaskClaims
