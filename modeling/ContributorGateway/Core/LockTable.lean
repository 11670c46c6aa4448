import ContributorGateway.Core.ClaimLedger

/-!
# The lock table behind the claim service

What the two tools are for: a table with at most one lease for every task, and the
atomic steps that a call may take on it. Every decision of the service is such a
step, and the record it appends moves the fold of the ledger by the same step.
-/

namespace ContributorGateway.TaskClaims

/-- The arguments of a claim that passed every check, and the task they name. -/
structure CheckedClaim where
  owner : String
  task : String
  key : String
  minutes : ℤ
  record : TaskRecord

/-- The arguments of a release that passed every check. -/
structure CheckedRelease where
  owner : String
  task : String
  id : String

/-- The checks of `claim_task` that do not depend on the ledger, in their order. -/
def checkClaim (isPrintable : Char → Bool) (tasks : Tasks) (args : ClaimArgs) :
    Except Raised CheckedClaim := do
  let owner ← boundedIdentity isPrintable args.callerIdentity
  let task ← taskId args.taskId
  let key ← idempotencyKey args.idempotencyKey
  let minutes ← duration args.durationMinutes
  match tasks.getTask task with
  | none => .error (.collaboration taskNotFound)
  | some record =>
      if record.status = .done then
        .error (.collaboration (conflict "completed tasks cannot be claimed"))
      else .ok ⟨owner, task, key, minutes, record⟩

/-- The checks of `release_task` that do not depend on the ledger, in their order. -/
def checkRelease (isPrintable : Char → Bool) (args : ReleaseArgs) :
    Except Raised CheckedRelease := do
  let owner ← boundedIdentity isPrintable args.callerIdentity
  let task ← taskId args.taskId
  let id ← claimId args.claimId
  .ok ⟨owner, task, id⟩

/-- The refusal of a task under a lease. -/
def leased (lease : TaskLease) : CollaborationError :=
  conflict ("task is claimed by " ++ lease.owner ++ " until " ++ timestamp lease.expires)

/-- The lease that a granted claim stores. -/
def CheckedClaim.lease (c : CheckedClaim) (id : String) (now expiry : Instant) : TaskLease :=
  ⟨c.owner, id, c.key, now.truncate, expiry.truncate⟩

/-- The atomic steps of the lock table. -/
inductive AtomicStep (isPrintable : Char → Bool) (call : Call) :
    TaskTable → Except CollaborationError Answer → TaskTable → Prop
  /-- A free or expired task is leased under the new id. -/
  | granted {table : TaskTable} {args : ClaimArgs} {c : CheckedClaim} {expiry : Instant}
      (hrequest : call.request = .claim args)
      (hcheck : checkClaim isPrintable call.tasks args = .ok c)
      (hfree : table.active c.task call.now = none) (hid : isClaimId call.newClaimId = true)
      (hexpiry : call.now.addMinutes c.minutes.toNat = some expiry) :
      AtomicStep isPrintable call table
        (.ok (.claimed ⟨c.record, call.newClaimId, c.owner, timestamp call.now,
          timestamp expiry, false⟩))
        (table.grant c.task (c.lease call.newClaimId call.now expiry))
  /-- The holder of a lease asks again under the same key. -/
  | replayed {table : TaskTable} {args : ClaimArgs} {c : CheckedClaim} {lease : TaskLease}
      (hrequest : call.request = .claim args)
      (hcheck : checkClaim isPrintable call.tasks args = .ok c)
      (hheld : table.active c.task call.now = some lease)
      (howner : lease.owner = c.owner) (hkey : lease.key = c.key) :
      AtomicStep isPrintable call table
        (.ok (.claimed ⟨c.record, lease.id, c.owner, timestamp lease.start,
          timestamp lease.expires, true⟩)) table
  /-- Anybody else, or another key, is refused while a lease is active. -/
  | held {table : TaskTable} {args : ClaimArgs} {c : CheckedClaim} {lease : TaskLease}
      (hrequest : call.request = .claim args)
      (hcheck : checkClaim isPrintable call.tasks args = .ok c)
      (hheld : table.active c.task call.now = some lease)
      (hother : ¬ (lease.owner = c.owner ∧ lease.key = c.key)) :
      AtomicStep isPrintable call table (.error (leased lease)) table
  /-- A claim fails its checks. -/
  | claimRejected {table : TaskTable} {args : ClaimArgs} {error : CollaborationError}
      (hrequest : call.request = .claim args)
      (hcheck : checkClaim isPrintable call.tasks args = .error (.collaboration error)) :
      AtomicStep isPrintable call table (.error error) table
  /-- The holder of a lease gives it up by its id. -/
  | released {table : TaskTable} {args : ReleaseArgs} {c : CheckedRelease} {lease : TaskLease}
      (hrequest : call.request = .release args)
      (hcheck : checkRelease isPrintable args = .ok c)
      (hheld : table.active c.task call.now = some lease)
      (howner : lease.owner = c.owner) (hid : lease.id = c.id) :
      AtomicStep isPrintable call table
        (.ok (.released ⟨c.task, c.id, c.owner, true, timestamp call.now⟩))
        (table.release c.task)
  /-- There is nothing to release. -/
  | notClaimed {table : TaskTable} {args : ReleaseArgs} {c : CheckedRelease}
      (hrequest : call.request = .release args)
      (hcheck : checkRelease isPrintable args = .ok c)
      (hfree : table.active c.task call.now = none) :
      AtomicStep isPrintable call table
        (.ok (.released ⟨c.task, c.id, c.owner, false, timestamp call.now⟩)) table
  /-- Somebody else holds the lease. -/
  | foreignOwner {table : TaskTable} {args : ReleaseArgs} {c : CheckedRelease}
      {lease : TaskLease} (hrequest : call.request = .release args)
      (hcheck : checkRelease isPrintable args = .ok c)
      (hheld : table.active c.task call.now = some lease) (howner : lease.owner ≠ c.owner) :
      AtomicStep isPrintable call table (.error (leased lease)) table
  /-- The holder names another id. -/
  | foreignId {table : TaskTable} {args : ReleaseArgs} {c : CheckedRelease}
      {lease : TaskLease} (hrequest : call.request = .release args)
      (hcheck : checkRelease isPrintable args = .ok c)
      (hheld : table.active c.task call.now = some lease)
      (howner : lease.owner = c.owner) (hid : lease.id ≠ c.id) :
      AtomicStep isPrintable call table
        (.error (conflict "claim_id does not match the caller's active claim")) table
  /-- A release fails its checks. -/
  | releaseRejected {table : TaskTable} {args : ReleaseArgs} {error : CollaborationError}
      (hrequest : call.request = .release args)
      (hcheck : checkRelease isPrintable args = .error (.collaboration error)) :
      AtomicStep isPrintable call table (.error error) table

/-- A claim that would be granted, if its new id were well formed and its expiry in
the range of dates. -/
def NoGrant (isPrintable : Char → Bool) (call : Call) : Prop :=
  ∃ args c, call.request = .claim args ∧ checkClaim isPrintable call.tasks args = .ok c ∧
    (isClaimId call.newClaimId = false ∨ call.now.addMinutes c.minutes.toNat = none)

variable {isPrintable : Char → Bool}

/-- An accepted duration lies within the bounds. -/
theorem duration_eq_ok {value : PyValue} {n : ℤ} (h : duration value = .ok n) :
    minClaimMinutes ≤ n ∧ n ≤ maxClaimMinutes := by
  unfold duration at h
  split at h
  · split_ifs at h with hn
    cases h
    exact hn
  · cases h

/-- A refused duration is a collaboration error. -/
theorem duration_eq_error {value : PyValue} {e : Raised} (h : duration value = .error e) :
    ∃ error, e = .collaboration error := by
  unfold duration at h
  split at h
  · split_ifs at h
    cases h
    exact ⟨_, rfl⟩
  · cases h
    exact ⟨_, rfl⟩

/-! ## The bodies of the tools -/

/-- The local variables after the checks of a claim. -/
def CheckedClaim.locals (c : CheckedClaim) : ClaimLocals :=
  { validOwner := some c.owner, validTaskId := some c.task, validKey := some c.key,
    validDuration := some c.minutes }

/-- The local variables after the checks of a release. -/
def CheckedRelease.locals (c : CheckedRelease) : ReleaseLocals :=
  { validOwner := some c.owner, validTaskId := some c.task, validClaimId := some c.id }

section Bodies

variable {now : Instant} {tasks : Tasks} {records : List Json}
  {kept : List (Sigma fun _ : String => ActiveClaim)}

/-- Every check that `claim_task` makes has passed. -/
theorem checkClaim_eq_ok {args : ClaimArgs} {c : CheckedClaim}
    (hcheck : checkClaim isPrintable tasks args = .ok c) :
    boundedIdentity isPrintable args.callerIdentity = .ok c.owner ∧
      taskId args.taskId = .ok c.task ∧ idempotencyKey args.idempotencyKey = .ok c.key ∧
      duration args.durationMinutes = .ok c.minutes ∧
      tasks.getTask c.task = some c.record ∧ c.record.status ≠ .done := by
  simp only [checkClaim, bind, Except.bind] at hcheck
  cases howner : boundedIdentity isPrintable args.callerIdentity with
  | error e => simp [howner] at hcheck
  | ok owner =>
    cases htask : taskId args.taskId with
    | error e => simp [howner, htask] at hcheck
    | ok task =>
      cases hkey : idempotencyKey args.idempotencyKey with
      | error e => simp [howner, htask, hkey] at hcheck
      | ok key =>
        cases hminutes : duration args.durationMinutes with
        | error e => simp [howner, htask, hkey, hminutes] at hcheck
        | ok minutes =>
          cases hrecord : tasks.getTask task with
          | none => simp [howner, htask, hkey, hminutes, hrecord] at hcheck
          | some record =>
            by_cases hdone : record.status = .done
            · simp [howner, htask, hkey, hminutes, hrecord, hdone] at hcheck
            · simp only [howner, htask, hkey, hminutes, hrecord, hdone, if_false,
                Except.ok.injEq] at hcheck
              subst hcheck
              exact ⟨rfl, rfl, rfl, rfl, hrecord, hdone⟩

/-- What `claim_task` does after its checks. -/
theorem claimBody_of_check {args : ClaimArgs} (newClaimId : String) {c : CheckedClaim}
    (hcheck : checkClaim isPrintable tasks args = .ok c)
    (hkept : ledgerClaims isPrintable records now = .ok kept) :
    (claimBody isPrintable now tasks args newClaimId records).run {} =
      (grantOrReplay now c.record c.owner c.key c.minutes newClaimId
        (kept.dlookup c.task)).run c.locals := by
  obtain ⟨howner, htask, hkey, hminutes, hrecord, hdone⟩ := checkClaim_eq_ok hcheck
  rw [claimBody, run_attempt_ok howner, run_assign, run_attempt_ok htask, run_assign,
    run_attempt_ok hkey, run_assign, run_attempt_ok hminutes, run_assign, hrecord]
  dsimp only
  rw [if_neg hdone, run_attempt_ok hkept, CheckedClaim.locals]

/-- A claim that fails its checks raises the error of the check. -/
theorem claimBody_of_reject (now : Instant) (newClaimId : String) (records : List Json)
    {args : ClaimArgs} {e : Raised}
    (hcheck : checkClaim isPrintable tasks args = .error e) :
    ∃ error l, e = .collaboration error ∧
      (claimBody isPrintable now tasks args newClaimId records).run {} =
        .error (.collaboration error) l := by
  simp only [checkClaim, bind, Except.bind] at hcheck
  rw [claimBody]
  cases howner : boundedIdentity isPrintable args.callerIdentity with
  | error e' =>
    rw [howner] at hcheck
    cases hcheck
    obtain rfl := checkedStr_eq_error howner
    exact ⟨_, _, rfl, by rw [run_attempt_error rfl]⟩
  | ok owner =>
    rw [run_attempt_ok rfl, run_assign]
    cases htask : taskId args.taskId with
    | error e' =>
      simp only [howner, htask] at hcheck
      cases hcheck
      obtain rfl := checkedStr_eq_error htask
      exact ⟨_, _, rfl, by rw [run_attempt_error rfl]⟩
    | ok task =>
      rw [run_attempt_ok rfl, run_assign]
      cases hkey : idempotencyKey args.idempotencyKey with
      | error e' =>
        simp only [howner, htask, hkey] at hcheck
        cases hcheck
        obtain rfl := checkedStr_eq_error hkey
        exact ⟨_, _, rfl, by rw [run_attempt_error rfl]⟩
      | ok key =>
        rw [run_attempt_ok rfl, run_assign]
        cases hminutes : duration args.durationMinutes with
        | error e' =>
          simp only [howner, htask, hkey, hminutes] at hcheck
          cases hcheck
          obtain ⟨error, rfl⟩ := duration_eq_error hminutes
          exact ⟨error, _, rfl, by rw [run_attempt_error rfl]⟩
        | ok minutes =>
          rw [run_attempt_ok rfl, run_assign]
          simp only [howner, htask, hkey, hminutes] at hcheck
          cases hrecord : tasks.getTask task with
          | none =>
            simp only [hrecord] at hcheck
            cases hcheck
            exact ⟨_, _, rfl, run_raise _⟩
          | some record =>
            simp only [hrecord] at hcheck
            split_ifs at hcheck with hdone
            cases hcheck
            refine ⟨_, ⟨some owner, some task, some key, some minutes, none, none, none⟩, rfl, ?_⟩
            simp only [if_pos hdone]
            exact run_raise _

/-- Every check that `release_task` makes has passed. -/
theorem checkRelease_eq_ok {args : ReleaseArgs} {c : CheckedRelease}
    (hcheck : checkRelease isPrintable args = .ok c) :
    boundedIdentity isPrintable args.callerIdentity = .ok c.owner ∧
      taskId args.taskId = .ok c.task ∧ claimId args.claimId = .ok c.id := by
  simp only [checkRelease, bind, Except.bind] at hcheck
  cases howner : boundedIdentity isPrintable args.callerIdentity with
  | error e => simp [howner] at hcheck
  | ok owner =>
    cases htask : taskId args.taskId with
    | error e => simp [howner, htask] at hcheck
    | ok task =>
      cases hid : claimId args.claimId with
      | error e => simp [howner, htask, hid] at hcheck
      | ok id =>
        simp only [howner, htask, hid, Except.ok.injEq] at hcheck
        subst hcheck
        exact ⟨rfl, rfl, rfl⟩

/-- What `release_task` does after its checks. -/
theorem releaseBody_of_check {args : ReleaseArgs} {c : CheckedRelease}
    (hcheck : checkRelease isPrintable args = .ok c)
    (hkept : ledgerClaims isPrintable records now = .ok kept) :
    (releaseBody isPrintable now args records).run {} =
      (releaseActive now c.task c.id c.owner (kept.dlookup c.task)).run c.locals := by
  obtain ⟨howner, htask, hid⟩ := checkRelease_eq_ok hcheck
  rw [releaseBody, run_attempt_ok howner, run_assign, run_attempt_ok htask, run_assign,
    run_attempt_ok hid, run_assign, run_attempt_ok hkept, CheckedRelease.locals]

/-- A release that fails its checks raises the error of the check. -/
theorem releaseBody_of_reject (now : Instant) (records : List Json) {args : ReleaseArgs}
    {e : Raised}
    (hcheck : checkRelease isPrintable args = .error e) :
    ∃ error l, e = .collaboration error ∧
      (releaseBody isPrintable now args records).run {} = .error (.collaboration error) l := by
  simp only [checkRelease, bind, Except.bind] at hcheck
  rw [releaseBody]
  cases howner : boundedIdentity isPrintable args.callerIdentity with
  | error e' =>
    rw [howner] at hcheck
    cases hcheck
    obtain rfl := checkedStr_eq_error howner
    exact ⟨_, _, rfl, by rw [run_attempt_error rfl]⟩
  | ok owner =>
    rw [run_attempt_ok rfl, run_assign]
    cases htask : taskId args.taskId with
    | error e' =>
      simp only [howner, htask] at hcheck
      cases hcheck
      obtain rfl := checkedStr_eq_error htask
      exact ⟨_, _, rfl, by rw [run_attempt_error rfl]⟩
    | ok task =>
      rw [run_attempt_ok rfl, run_assign]
      cases hid : claimId args.claimId with
      | error e' =>
        simp only [howner, htask, hid] at hcheck
        cases hcheck
        obtain rfl := checkedStr_eq_error hid
        exact ⟨_, _, rfl, by rw [run_attempt_error rfl]⟩
      | ok id =>
        simp only [howner, htask, hid] at hcheck
        cases hcheck

end Bodies

/-! ## Decisions -/

/-- A decision of the service: the record that it appends moves the table and the
fold of the ledger by the same step. -/
structure Decided (isPrintable : Char → Bool) (call : Call) (claims : Claims)
    (table : TaskTable) (decision : AuditDecision (Except CollaborationError Answer))
    (claims' : Claims) (table' : TaskTable) : Prop where
  plain : Json.Plain decision.record
  isObject : ∃ members, decision.record = .obj members
  step : AtomicStep isPrintable call table decision.value table'
  folded : ledgerStep isPrintable claims decision.record = .ok claims'
  represents : Represents isPrintable claims' table'
  event : LeaseStep Instant.truncate table (eventOf decision.record) table'
  /-- What is recorded as granted is returned. -/
  returned : ∀ task lease, eventOf decision.record = .granted task lease →
    ∃ result, decision.value = .ok (.claimed result) ∧ result.claimId = lease.id

/-- The codes of errors are no outcomes of a grant or a release. -/
theorem text_ne_outcome (code : CollaborationErrorCode) :
    code.text ≠ "claimed" ∧ code.text ≠ "released" := by
  cases code <;> decide

/-- The lease of a granted claim is accepted by every later fold. -/
theorem CheckedClaim.lease_ok {tasks : Tasks} {args : ClaimArgs} {c : CheckedClaim} {id : String}
    {now expiry : Instant} (hcheck : checkClaim isPrintable tasks args = .ok c)
    (hid : isClaimId id = true) (hexpiry : now.addMinutes c.minutes.toNat = some expiry) :
    LeaseOk isPrintable c.task (c.lease id now expiry) := by
  obtain ⟨howner, htask, hkey, hminutes, -, -⟩ := checkClaim_eq_ok hcheck
  obtain ⟨hmin, hmax⟩ := duration_eq_ok hminutes
  have hspan := Instant.truncate_micros_of_addMinutes hexpiry
  simp only [minClaimMinutes] at hmin
  have hnat : c.minutes.toNat ≤ maxClaimMinutes.toNat := Int.toNat_le_toNat hmax
  refine ⟨(checkedStr_eq_ok htask).2, (checkedStr_eq_ok hkey).2, (checkedStr_eq_ok howner).2, hid,
    now.truncate_truncate, expiry.truncate_truncate, ?_, ?_⟩
  · rw [lease, Instant.lt_iff]
    dsimp only
    omega
  · rw [lease]
    dsimp only
    rw [hspan]
    exact Nat.add_le_add_left (Nat.mul_le_mul_right _ hnat) _

section Decisions

variable {call : Call} {records : List Json} {claims : Claims} {table : TaskTable}
  {kept : List (Sigma fun _ : String => ActiveClaim)}

/-- The refusal of the service names the holder of the lease. -/
theorem heldBy_toActive (task : String) (lease : TaskLease) :
    heldBy (toActive task lease) = .collaboration (leased lease) :=
  rfl

/-- A claim that changes no lease decides on the unchanged table. -/
theorem Decided.of_claim {args : ClaimArgs} {l : ClaimLocals} {outcome : String}
    {value : Except CollaborationError Answer} (hrep : Represents isPrintable claims table)
    (hstep : AtomicStep isPrintable call table value table) (houtcome : outcome ≠ "claimed") :
    Decided isPrintable call claims table
      ⟨claimRecord call.now call.tasks args l outcome, value⟩ claims table :=
  have hother := claimRecord_other houtcome claims
  { plain := plain_claimRecord args l
    isObject := ⟨_, rfl⟩
    step := hstep
    folded := hother.1
    represents := hrep
    event := hother.2 ▸ .other
    returned := fun _ _ h => by
      rw [hother.2] at h
      cases h }

/-- A release that changes no lease decides on the unchanged table. -/
theorem Decided.of_release {args : ReleaseArgs} {l : ReleaseLocals} {outcome : String}
    {value : Except CollaborationError Answer} (hrep : Represents isPrintable claims table)
    (hstep : AtomicStep isPrintable call table value table) (houtcome : outcome ≠ "released") :
    Decided isPrintable call claims table
      ⟨releaseRecord call.now call.tasks args l outcome, value⟩ claims table :=
  have hother := releaseRecord_other houtcome claims
  { plain := plain_releaseRecord args l
    isObject := ⟨_, rfl⟩
    step := hstep
    folded := hother.1
    represents := hrep
    event := hother.2 ▸ .other
    returned := fun _ _ h => by
      rw [hother.2] at h
      cases h }

/-- The holder of a lease asks again. -/
theorem claim_replayed {args : ClaimArgs} {c : CheckedClaim} {lease : TaskLease}
    (hrequest : call.request = .claim args)
    (hcheck : checkClaim isPrintable call.tasks args = .ok c)
    (hkept : ledgerClaims isPrintable records call.now = .ok kept)
    (hlookup : kept.dlookup c.task = some (toActive c.task lease))
    (hsame : lease.owner = c.owner ∧ lease.key = c.key) :
    decideCall isPrintable call records =
      .ok ⟨claimRecord call.now call.tasks args
        ⟨some c.owner, some c.task, some c.key, some c.minutes, some lease.id,
          some (timestamp lease.start), some (timestamp lease.expires)⟩ "replayed",
        .ok (.claimed ⟨c.record, lease.id, c.owner, timestamp lease.start,
          timestamp lease.expires, true⟩)⟩ := by
  have hbody := claimBody_of_check call.newClaimId hcheck hkept
  have hsame' : (toActive c.task lease).owner = c.owner ∧
      (toActive c.task lease).idempotencyKey = c.key := hsame
  rw [hlookup, grantOrReplay, if_pos hsame', run_assign, EStateM.run_pure] at hbody
  simp only [decideCall, hrequest, claimDecide, hbody]
  rfl

/-- A claim is refused while somebody else holds the lease, or under another key. -/
theorem claim_held {args : ClaimArgs} {c : CheckedClaim} {lease : TaskLease}
    (hrequest : call.request = .claim args)
    (hcheck : checkClaim isPrintable call.tasks args = .ok c)
    (hkept : ledgerClaims isPrintable records call.now = .ok kept)
    (hlookup : kept.dlookup c.task = some (toActive c.task lease))
    (hother : ¬ (lease.owner = c.owner ∧ lease.key = c.key)) :
    decideCall isPrintable call records =
      .ok ⟨claimRecord call.now call.tasks args c.locals (leased lease).code.text,
        .error (leased lease)⟩ := by
  have hbody := claimBody_of_check call.newClaimId hcheck hkept
  have hother' : ¬ ((toActive c.task lease).owner = c.owner ∧
      (toActive c.task lease).idempotencyKey = c.key) := hother
  rw [hlookup, grantOrReplay, if_neg hother', heldBy_toActive, run_raise] at hbody
  simp only [decideCall, hrequest, claimDecide, hbody]
  rfl

/-- A claim of a free task is granted. -/
theorem claim_granted {args : ClaimArgs} {c : CheckedClaim} {expiry : Instant}
    (hrequest : call.request = .claim args)
    (hcheck : checkClaim isPrintable call.tasks args = .ok c)
    (hkept : ledgerClaims isPrintable records call.now = .ok kept)
    (hlookup : kept.dlookup c.task = none) (hid : isClaimId call.newClaimId = true)
    (hexpiry : call.now.addMinutes c.minutes.toNat = some expiry) :
    decideCall isPrintable call records =
      .ok ⟨claimRecord call.now call.tasks args
        ⟨some c.owner, some c.task, some c.key, some c.minutes, some call.newClaimId,
          some (timestamp call.now), some (timestamp expiry)⟩ "claimed",
        .ok (.claimed ⟨c.record, call.newClaimId, c.owner, timestamp call.now,
          timestamp expiry, false⟩)⟩ := by
  have hbody := claimBody_of_check call.newClaimId hcheck hkept
  simp only [hlookup, grantOrReplay, run_assign, if_pos hid, hexpiry, EStateM.run_pure] at hbody
  simp only [decideCall, hrequest, claimDecide, hbody]
  rfl

/-- A claim of a free task raises when its new id is malformed or its expiry leaves the
range of dates. -/
theorem claim_raises {args : ClaimArgs} {c : CheckedClaim}
    (hrequest : call.request = .claim args)
    (hcheck : checkClaim isPrintable call.tasks args = .ok c)
    (hkept : ledgerClaims isPrintable records call.now = .ok kept)
    (hlookup : kept.dlookup c.task = none)
    (hnone : isClaimId call.newClaimId = false ∨ call.now.addMinutes c.minutes.toNat = none) :
    ∃ e, decideCall isPrintable call records = .error e := by
  have hbody := claimBody_of_check call.newClaimId hcheck hkept
  simp only [hlookup, grantOrReplay, run_assign] at hbody
  by_cases hid : isClaimId call.newClaimId = true
  · have hexpiry := hnone.resolve_left (by simp [hid])
    simp only [if_pos hid, hexpiry, run_raise] at hbody
    exact ⟨.exception "OverflowError", by
      simp only [decideCall, hrequest, claimDecide, hbody]
      rfl⟩
  · simp only [if_neg hid, run_raise] at hbody
    exact ⟨.exception "RuntimeError", by
      simp only [decideCall, hrequest, claimDecide, hbody]
      rfl⟩

/-- A decision of `claim_task` is an atomic step. -/
theorem claim_decided {args : ClaimArgs} (hrequest : call.request = .claim args)
    (hrep : Represents isPrintable claims table)
    (hkept : ledgerClaims isPrintable records call.now = .ok kept)
    (hlookup : ∀ task, kept.dlookup task = (table.active task call.now).map (toActive task)) :
    (∃ decision claims' table', decideCall isPrintable call records = .ok decision ∧
      Decided isPrintable call claims table decision claims' table') ∨
    NoGrant isPrintable call ∧ ∃ e, decideCall isPrintable call records = .error e := by
  cases hcheck : checkClaim isPrintable call.tasks args with
  | error e =>
    obtain ⟨error, l, rfl, hbody⟩ := claimBody_of_reject call.now
      call.newClaimId records hcheck
    exact Or.inl ⟨_, claims, table, by simp only [decideCall, hrequest, claimDecide, hbody]; rfl,
      .of_claim hrep (.claimRejected hrequest hcheck) (text_ne_outcome error.code).1⟩
  | ok c =>
    have htask := hlookup c.task
    cases hactive : table.active c.task call.now with
    | some lease =>
      rw [hactive, Option.map_some] at htask
      by_cases hsame : lease.owner = c.owner ∧ lease.key = c.key
      · exact Or.inl ⟨_, claims, table, claim_replayed hrequest hcheck hkept htask hsame,
          .of_claim hrep (.replayed hrequest hcheck hactive hsame.1 hsame.2) (by decide)⟩
      · exact Or.inl ⟨_, claims, table, claim_held hrequest hcheck hkept htask hsame,
          .of_claim hrep (.held hrequest hcheck hactive hsame) (text_ne_outcome _).1⟩
    | none =>
      rw [hactive, Option.map_none] at htask
      by_cases hid : isClaimId call.newClaimId = true
      · cases hexpiry : call.now.addMinutes c.minutes.toNat with
        | none =>
          exact Or.inr ⟨⟨args, c, hrequest, hcheck, Or.inr hexpiry⟩,
            claim_raises hrequest hcheck hkept htask (Or.inr hexpiry)⟩
        | some expiry =>
          have hok := CheckedClaim.lease_ok hcheck hid hexpiry
          have hgrant := claimRecord_claimed call.now call.tasks args
            ⟨some c.owner, some c.task, some c.key, some c.minutes, some call.newClaimId,
              some (timestamp call.now), some (timestamp expiry)⟩ rfl rfl rfl rfl
            (by simp [CheckedClaim.lease]) (by simp [CheckedClaim.lease]) hok claims
          let lease := c.lease call.newClaimId call.now expiry
          refine Or.inl ⟨_, claims.insert c.task (toActive c.task lease), table.grant c.task lease,
            claim_granted hrequest hcheck hkept htask hid hexpiry, ?_⟩
          exact
            { plain := plain_claimRecord args _
              isObject := ⟨_, rfl⟩
              step := .granted hrequest hcheck hactive hid hexpiry
              folded := hgrant.1
              represents := hrep.insert hok
              event := hgrant.2 ▸ .granted hactive rfl hok.expires_truncated
              returned := fun _ _ h => by
                rw [hgrant.2] at h
                cases h
                exact ⟨_, rfl, rfl⟩ }
      · rw [Bool.not_eq_true] at hid
        exact Or.inr ⟨⟨args, c, hrequest, hcheck, Or.inl hid⟩,
          claim_raises hrequest hcheck hkept htask (Or.inl hid)⟩

/-- A decision of `release_task` is an atomic step. -/
theorem release_decided {args : ReleaseArgs} (hrequest : call.request = .release args)
    (hrep : Represents isPrintable claims table)
    (hkept : ledgerClaims isPrintable records call.now = .ok kept)
    (hlookup : ∀ task, kept.dlookup task = (table.active task call.now).map (toActive task)) :
    ∃ decision claims' table', decideCall isPrintable call records = .ok decision ∧
      Decided isPrintable call claims table decision claims' table' := by
  cases hcheck : checkRelease isPrintable args with
  | error e =>
    obtain ⟨error, l, rfl, hbody⟩ := releaseBody_of_reject call.now records hcheck
    exact ⟨_, claims, table, by simp only [decideCall, hrequest, releaseDecide, hbody]; rfl,
      .of_release hrep (.releaseRejected hrequest hcheck) (text_ne_outcome error.code).2⟩
  | ok c =>
    have hbody := releaseBody_of_check hcheck hkept
    rw [hlookup] at hbody
    cases hactive : table.active c.task call.now with
    | none =>
      rw [hactive, Option.map_none, releaseActive, EStateM.run_pure] at hbody
      exact ⟨_, claims, table, by simp only [decideCall, hrequest, releaseDecide, hbody]; rfl,
        .of_release hrep (.notClaimed hrequest hcheck hactive) (by simp)⟩
    | some lease =>
      rw [hactive, Option.map_some] at hbody
      by_cases howner : (toActive c.task lease).owner = c.owner
      · by_cases hid : (toActive c.task lease).claimId = c.id
        · have htable := (LeaseTable.active_eq_some_iff.mp hactive).1
          have hrelease := releaseRecord_released call.now call.tasks args c.locals lease
            (congrArg some howner.symm) rfl
            (congrArg some hid.symm) (hrep.lease_ok _ _ htable)
            (by rw [hrep.lookup_eq, htable, Option.map_some])
          rw [releaseActive, if_neg (not_not.mpr howner), if_neg (not_not.mpr hid),
            EStateM.run_pure] at hbody
          refine ⟨_, claims.erase c.task, table.release c.task,
            by simp only [decideCall, hrequest, releaseDecide, hbody]; rfl, ?_⟩
          exact
            { plain := plain_releaseRecord args _
              isObject := ⟨_, rfl⟩
              step := .released hrequest hcheck hactive howner hid
              folded := hrelease.1
              represents := hrep.erase c.task
              event := hrelease.2 ▸ .released hactive
              returned := fun _ _ h => by cases hrelease.2.symm.trans h }
        · rw [releaseActive, if_neg (not_not.mpr howner), if_pos hid, run_raise] at hbody
          exact ⟨_, claims, table, by simp only [decideCall, hrequest, releaseDecide, hbody]; rfl,
            .of_release hrep (.foreignId hrequest hcheck hactive howner hid)
              (text_ne_outcome _).2⟩
      · rw [releaseActive, if_pos howner, heldBy_toActive, run_raise] at hbody
        exact ⟨_, claims, table, by simp only [decideCall, hrequest, releaseDecide, hbody]; rfl,
          .of_release hrep (.foreignOwner hrequest hcheck hactive howner) (text_ne_outcome _).2⟩

end Decisions

end ContributorGateway.TaskClaims
