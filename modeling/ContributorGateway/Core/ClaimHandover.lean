import ContributorGateway.Core.ClaimRuns

/-!
# Exclusive ownership

What the records of a ledger say about successive owners of a task. The statements
are about records as a reader of the file finds them; the proofs go through the
lease events that the records stand for.
-/

namespace ContributorGateway.TaskClaims

/-- The record is a granted claim of the task. -/
def IsClaimed (task : String) (record : Json) : Prop :=
  fieldStr "tool" record = some "claim_task" ∧ fieldStr "outcome" record = some "claimed" ∧
    argStr "task_id" record = some task

/-- The record is a release of the task that names the claim id, by the owner. -/
def IsReleased (task id owner : String) (record : Json) : Prop :=
  fieldStr "tool" record = some "release_task" ∧ fieldStr "outcome" record = some "released" ∧
    argStr "task_id" record = some task ∧ argStr "claim_id" record = some id ∧
    fieldStr "caller_identity" record = some owner

/-- Two successive grants of a task: a release by the first owner lies between them,
or the recorded end of the first is not after the recorded start of the second. -/
def HandsOver (records : List Json) : Prop :=
  ∀ before first between second after task,
    records = before ++ first :: (between ++ second :: after) →
    IsClaimed task first → IsClaimed task second → (∀ r ∈ between, ¬ IsClaimed task r) →
    (∃ r ∈ between, ∃ id owner, fieldStr "claim_id" first = some id ∧
      fieldStr "caller_identity" first = some owner ∧ IsReleased task id owner r) ∨
    ∃ expiry start, parseTimestamp (first.get "expires_at") = .ok expiry ∧
      parseTimestamp (second.get "claimed_at") = .ok start ∧ expiry ≤ start

/-- A returned claim is the task's latest granted claim, and no release followed it. -/
def IsLatestGrant (records : List Json) (task : String) (result : ClaimedTask) : Prop :=
  ∃ before r after, records = before ++ r :: after ∧ IsClaimed task r ∧
    fieldStr "claim_id" r = some result.claimId ∧
    fieldStr "caller_identity" r = some result.owner ∧
    parseTimestamp (r.get "claimed_at") = parseTimestamp (some (.str result.claimedAt)) ∧
    parseTimestamp (r.get "expires_at") = parseTimestamp (some (.str result.expiresAt)) ∧
    ∀ r' ∈ after, ¬ IsClaimed task r' ∧ ∀ id owner, ¬ IsReleased task id owner r'

variable {isPrintable : Char → Bool} {record : Json} {task : String}

/-! ## Records and their events -/

/-- The records that stand for a grant. -/
theorem eventOf_eq_granted_iff {lease : TaskLease} :
    eventOf record = .granted task lease ↔ IsClaimed task record ∧
      argStr "idempotency_key" record = some lease.key ∧
      fieldStr "caller_identity" record = some lease.owner ∧
      fieldStr "claim_id" record = some lease.id ∧
      parseTimestamp (record.get "claimed_at") = .ok lease.start ∧
      parseTimestamp (record.get "expires_at") = .ok lease.expires := by
  unfold eventOf IsClaimed
  constructor
  · intro h
    split_ifs at h with hclaimed hreleased
    · split at h
      · rename_i htask hkey howner hid hstart hexpires
        cases h
        exact ⟨⟨hclaimed.1, hclaimed.2, htask⟩, hkey, howner, hid, hstart, hexpires⟩
      · cases h
    · split at h <;> cases h
  · rintro ⟨⟨htool, houtcome, htask⟩, hkey, howner, hid, hstart, hexpires⟩
    simp only [htool, houtcome, htask, hkey, howner, hid, hstart, hexpires, and_self, if_true]

/-- The records that stand for a release. -/
theorem eventOf_eq_released_iff {id owner : String} :
    eventOf record = .released task id owner ↔ IsReleased task id owner record := by
  unfold eventOf IsReleased
  constructor
  · intro h
    split_ifs at h with hclaimed hreleased
    · split at h <;> cases h
    · split at h
      · rename_i htask hid howner
        cases h
        exact ⟨hreleased.1, hreleased.2, htask, hid, howner⟩
      · cases h
  · rintro ⟨htool, houtcome, htask, hid, howner⟩
    have hne : ¬ ("release_task" = "claim_task") := by decide
    simp only [htool, houtcome, htask, hid, howner, Option.some.injEq, hne, false_and, and_self,
      if_true, if_false]

/-- A string field is a member. -/
theorem get_of_fieldStr {key value : String} (h : fieldStr key record = some value) :
    record.get key = some (.str value) := by
  obtain ⟨v, hget, hstr⟩ := Option.bind_eq_some_iff.mp h
  cases v with
  | str s =>
    cases hstr
    exact hget
  | _ => cases hstr

/-- What the checks of a granted claim found. -/
theorem claimedStep_eq_ok {claims claims' : Claims}
    (hfold : claimedStep isPrintable claims record = .ok claims') :
    ∃ task key owner id start expires, argStr "task_id" record = some task ∧
      argStr "idempotency_key" record = some key ∧
      fieldStr "caller_identity" record = some owner ∧ fieldStr "claim_id" record = some id ∧
      parseTimestamp (record.get "claimed_at") = .ok start ∧
      parseTimestamp (record.get "expires_at") = .ok expires := by
  unfold claimedStep at hfold
  split at hfold
  · rename_i task key owner id claimedAt expiresAt htask hkey howner hid _ _
    split_ifs at hfold
    cases hstart : parseTimestamp (record.get "claimed_at") with
    | error e => simp [hstart, bind, Except.bind] at hfold
    | ok start =>
      cases hexpires : parseTimestamp (record.get "expires_at") with
      | error e => simp [hstart, hexpires, bind, Except.bind] at hfold
      | ok expires =>
        exact ⟨task, key, owner, id, start, expires, htask, hkey, howner, hid, rfl, rfl⟩
  · cases hfold

/-- A granted claim that a fold has accepted stands for a grant. -/
theorem IsClaimed.granted {claims claims' : Claims} (hclaimed : IsClaimed task record)
    (hfold : ledgerStep isPrintable claims record = .ok claims') :
    ∃ lease, eventOf record = .granted task lease := by
  obtain ⟨htool, houtcome, htask⟩ := hclaimed
  have hstep : claimedStep isPrintable claims record = .ok claims' := by
    simp only [ledgerStep, get_of_fieldStr htool, houtcome, true_or, and_self, if_true] at hfold
    split_ifs at hfold
    exact hfold
  obtain ⟨task', key, owner, id, start, expires, htask', hkey, howner, hid, hstart, hexpires⟩ :=
    claimedStep_eq_ok hstep
  refine ⟨⟨owner, id, key, start, expires⟩, eventOf_eq_granted_iff.mpr
    ⟨⟨htool, houtcome, htask⟩, hkey, howner, hid, hstart, hexpires⟩⟩

/-- Every record of a folded ledger was accepted by the fold. -/
theorem folded_mem {records : List Json} {claims claims' : Claims}
    (hfold : records.foldlM (ledgerStep isPrintable) claims = .ok claims')
    (hmem : record ∈ records) :
    ∃ claims₁ claims₂, ledgerStep isPrintable claims₁ record = .ok claims₂ := by
  induction records generalizing claims with
  | nil => cases hmem
  | cons r records ih =>
    rw [List.foldlM_cons] at hfold
    cases hstep : ledgerStep isPrintable claims r with
    | error e => simp [hstep, bind, Except.bind] at hfold
    | ok next =>
      rw [hstep] at hfold
      rcases List.mem_cons.mp hmem with rfl | hmem
      · exact ⟨claims, next, hstep⟩
      · exact ih hfold hmem

section Ledger

variable {records : List Json} {claims : Claims} {table : TaskTable}

/-- The records that are read back stand for the events of the history. -/
theorem LedgerInv.readHistory (hinv : LedgerInv isPrintable records claims table) :
    LeaseRun Instant.truncate LeaseTable.empty
      ((records.map Json.canonical).map eventOf) table := by
  have hevents : (records.map Json.canonical).map eventOf = records.map eventOf := by
    rw [List.map_map]
    exact List.map_congr_left fun r hr => eventOf_canonical (hinv.recordable r hr).plain
  rw [hevents]
  exact hinv.history

/-- The records of a ledger hand tasks over exclusively. -/
theorem LedgerInv.handsOver (hinv : LedgerInv isPrintable records claims table) :
    HandsOver (records.map Json.canonical) := by
  intro before first between second after task hsplit hfirst hsecond hbetween
  have hfold := hinv.folded
  have hrun := hinv.readHistory
  rw [hsplit] at hfold hrun
  obtain ⟨_, _, hfirstStep⟩ := folded_mem hfold (show first ∈ _ by simp)
  obtain ⟨_, _, hsecondStep⟩ := folded_mem hfold (show second ∈ _ by simp)
  obtain ⟨lease, hlease⟩ := hfirst.granted hfirstStep
  obtain ⟨lease', hlease'⟩ := hsecond.granted hsecondStep
  rw [List.map_append, List.map_cons, List.map_append, List.map_cons, hlease, hlease'] at hrun
  have hnogrant : ∀ l, LeaseEvent.granted task l ∉ between.map eventOf := by
    intro l hl
    obtain ⟨r, hr, hevent⟩ := List.mem_map.mp hl
    exact hbetween r hr (eventOf_eq_granted_iff.mp hevent).1
  obtain ⟨-, -, howner, hid, -, hexpires⟩ := eventOf_eq_granted_iff.mp hlease
  obtain ⟨-, -, -, -, hstart, -⟩ := eventOf_eq_granted_iff.mp hlease'
  rcases hrun.handover Instant.truncate_mono hnogrant with hreleased | hexpired
  · obtain ⟨r, hr, hevent⟩ := List.mem_map.mp hreleased
    exact Or.inl ⟨r, hr, lease.id, lease.owner, hid, howner, eventOf_eq_released_iff.mp hevent⟩
  · exact Or.inr ⟨lease.expires, lease'.start, hexpires, hstart, hexpired⟩

/-- A lease of the table is the latest grant of its task. -/
theorem LedgerInv.isLatestGrant (hinv : LedgerInv isPrintable records claims table)
    {lease : TaskLease} (hheld : table task = some lease) {result : ClaimedTask}
    (hid : result.claimId = lease.id) (howner : result.owner = lease.owner)
    (hstart : result.claimedAt = timestamp lease.start)
    (hexpires : result.expiresAt = timestamp lease.expires) :
    IsLatestGrant (records.map Json.canonical) task result := by
  obtain ⟨before, after, hsplit, hafter⟩ := hinv.readHistory.holds_iff.mp hheld
  obtain ⟨before', rest, hrecords, hbefore, hrest⟩ := List.map_eq_append_iff.mp hsplit
  obtain ⟨r, after', rfl, hr, hafter'⟩ := List.map_eq_cons_iff.mp hrest
  obtain ⟨hclaimed, -, howner', hid', hstart', hexpires'⟩ := eventOf_eq_granted_iff.mp hr
  have hok := hinv.represents.lease_ok task lease hheld
  refine ⟨before', r, after', hrecords, hclaimed, hid ▸ hid', howner ▸ howner', ?_, ?_, ?_⟩
  · rw [hstart', hstart, parseTimestamp_timestamp, hok.start_truncated]
  · rw [hexpires', hexpires, parseTimestamp_timestamp, hok.expires_truncated]
  · intro r' hr'
    have hconcerns := hafter (eventOf r') (hafter' ▸ List.mem_map_of_mem hr')
    have hfold := hinv.folded
    rw [hrecords] at hfold
    obtain ⟨_, _, hstep⟩ := folded_mem hfold (show r' ∈ _ by simp [hr'])
    refine ⟨fun h => ?_, fun id owner h => ?_⟩
    · obtain ⟨lease', hlease'⟩ := h.granted hstep
      rw [hlease'] at hconcerns
      exact hconcerns rfl
    · rw [eventOf_eq_released_iff.mpr h] at hconcerns
      exact hconcerns rfl

end Ledger

/-- The lease behind a returned claim is in the table after the call. -/
theorem AtomicStep.claimed_inv {call : Call} {table table' : TaskTable} {result : ClaimedTask}
    (hstep : AtomicStep isPrintable call table (.ok (.claimed result)) table') :
    ∃ args c lease, call.request = .claim args ∧
      checkClaim isPrintable call.tasks args = .ok c ∧ table' c.task = some lease ∧
      lease.owner = c.owner ∧ lease.key = c.key ∧
      result.claimId = lease.id ∧ result.owner = lease.owner ∧
      result.claimedAt = timestamp lease.start ∧ result.expiresAt = timestamp lease.expires := by
  cases hstep with
  | granted hrequest hcheck hfree hid hexpiry =>
    refine ⟨_, _, _, hrequest, hcheck, LeaseTable.grant_self .., rfl, rfl, rfl, rfl, ?_, ?_⟩
    · exact (timestamp_truncate _).symm
    · exact (timestamp_truncate _).symm
  | replayed hrequest hcheck hheld howner hkey =>
    exact ⟨_, _, _, hrequest, hcheck, (LeaseTable.active_eq_some_iff.mp hheld).1, howner, hkey,
      rfl, howner.symm, rfl, rfl⟩

/-- A release ends only the lease that it names. -/
theorem AtomicStep.release_inv {call : Call} {args : ReleaseArgs} {table table' : TaskTable}
    {value : Except CollaborationError Answer} {lease : TaskLease}
    (hstep : AtomicStep isPrintable call table value table')
    (hrequest : call.request = .release args) (hheld : table task = some lease)
    (hended : table' task ≠ some lease) :
    args.taskId = .str task ∧ args.claimId = .str lease.id ∧
      args.callerIdentity = .str lease.owner := by
  cases hstep with
  | granted hrequest' =>
    rw [hrequest] at hrequest'
    cases hrequest'
  | @released args' c lease' hrequest' hcheck hactive howner hid =>
    rw [hrequest] at hrequest'
    cases hrequest'
    obtain ⟨hcaller, htask, hclaim⟩ := checkRelease_eq_ok hcheck
    by_cases hsame : task = c.task
    · rw [hsame, (LeaseTable.active_eq_some_iff.mp hactive).1, Option.some.injEq] at hheld
      subst hheld
      rw [hsame, howner, hid]
      exact ⟨(checkedStr_eq_ok htask).1, (checkedStr_eq_ok hclaim).1,
        (checkedStr_eq_ok hcaller).1⟩
    · rw [LeaseTable.release_of_ne _ hsame] at hended
      exact absurd hheld hended
  | _ => exact absurd hheld hended

/-- **Exclusive ownership.** The records of every reachable ledger hand tasks over
exclusively, a returned claim is the latest granted and unreleased one of its task, and
a release ends only the claim whose task, id and owner it names. -/
theorem ownership_exclusive (isPrintable : Char → Bool) (calls : List Call) (call : Call) :
    let raw := serveAll isPrintable calls []
    let raw' := (serve isPrintable call raw).2
    ∃ records records', readLedger loadsLine raw = .ok records ∧ readLedger loadsLine raw' = .ok records' ∧
      HandsOver records ∧
      (∀ args task result, call.request = .claim args → args.taskId = .str task →
        (serve isPrintable call raw).1 = .ok (.claimed result) →
        IsLatestGrant records' task result) ∧
      ∀ args task lease, call.request = .release args →
        lockTable isPrintable raw task = some lease →
        lockTable isPrintable raw' task ≠ some lease →
        args.taskId = .str task ∧ args.claimId = .str lease.id ∧
          args.callerIdentity = .str lease.owner := by
  obtain ⟨records, claims, table, hraw, hinv⟩ := reachable isPrintable calls
  have htable := hinv.lockTable_eq
  simp only [hraw]
  rcases hinv.serve call with
    ⟨decision, claims', table', -, hdecided, hserve, hinv'⟩ | ⟨-, hserve⟩
  · have htable' := hinv'.lockTable_eq
    rw [hserve, htable, htable']
    refine ⟨_, _, hinv.readLedger, hinv'.readLedger, hinv.handsOver, ?_, ?_⟩
    · intro args task result hrequest htask hvalue
      have hstep := hdecided.step
      dsimp only at hvalue
      rw [hvalue] at hstep
      obtain ⟨args', c, lease, hrequest', hcheck, hheld, -, -, hid, howner, hstart, hexpires⟩ :=
        hstep.claimed_inv
      rw [hrequest] at hrequest'
      cases hrequest'
      have hname := (checkedStr_eq_ok (checkClaim_eq_ok hcheck).2.1).1
      rw [htask] at hname
      cases hname
      exact hinv'.isLatestGrant hheld hid howner hstart hexpires
    · intro args task lease hrequest hheld hended
      exact hdecided.step.release_inv hrequest hheld hended
  · rw [hserve]
    refine ⟨_, _, hinv.readLedger, hinv.readLedger, hinv.handsOver, ?_, ?_⟩
    · intro _ _ _ _ _ hvalue
      cases hvalue
    · intro _ _ _ _ hheld hended
      exact absurd hheld hended

end ContributorGateway.TaskClaims
