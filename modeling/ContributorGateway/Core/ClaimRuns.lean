import ContributorGateway.Core.LockTable

/-!
# Runs of the claim service

The invariant of a ledger that the service has written from an empty file, one step
of the service under it, and its consequences for whole runs: every call is an
atomic step of the lock table, and no fold of the ledger ever raises.
-/

namespace ContributorGateway.TaskClaims

/-- The content of a ledger file is a history of the service: its lines are records
that later reads accept, the fold over the records represents a table, and the table
is the result of the lease history. -/
structure LedgerInv (isPrintable : Char → Bool) (records : List Json) (claims : Claims)
    (table : TaskTable) : Prop where
  recordable : ∀ r ∈ records, Recordable r
  size : (ledgerText records).length ≤ maxTransactionBytes
  folded : foldLedger isPrintable (records.map Json.canonical) = .ok claims
  represents : Represents isPrintable claims table
  history : LeaseRun Instant.truncate LeaseTable.empty (records.map eventOf) table

/-- The reasons for which a call on a sound ledger goes unanswered: the claim cannot
be granted as asked, or its record does not fit. -/
def Unserved (isPrintable : Char → Bool) (call : Call) (raw : List UInt8) : Prop :=
  NoGrant isPrintable call ∨
    ∃ records decision, readLedger loadsLine raw = .ok records ∧
      decideCall isPrintable call records = .ok decision ∧
      (maxAuditRecordBytes < (auditLine decision.record).length ∨
        maxTransactionBytes < raw.length + (auditLine decision.record).length)

variable {isPrintable : Char → Bool} {records : List Json} {claims : Claims} {table : TaskTable}

/-- The empty file is a ledger. -/
theorem LedgerInv.nil : LedgerInv isPrintable [] ∅ LeaseTable.empty where
  recordable := by simp
  size := Nat.zero_le _
  folded := rfl
  represents := .empty
  history := .nil _

/-- A ledger reads back as its records in canonical form. -/
theorem LedgerInv.readLedger (hinv : LedgerInv isPrintable records claims table) :
    readLedger loadsLine (ledgerText records) = .ok (records.map Json.canonical) :=
  readLedger_ledgerText hinv.recordable hinv.size

/-- The file of a ledger denotes its table. -/
theorem LedgerInv.lockTable_eq (hinv : LedgerInv isPrintable records claims table) :
    lockTable isPrintable (ledgerText records) = table :=
  TaskClaims.lockTable_eq hinv.readLedger hinv.folded hinv.represents

/-- A decided record that fits extends the ledger. -/
theorem LedgerInv.append (hinv : LedgerInv isPrintable records claims table) {call : Call}
    {decision : AuditDecision (Except CollaborationError Answer)} {claims' : Claims}
    {table' : TaskTable}
    (hdecided : Decided isPrintable call claims table decision claims' table')
    (hshort : (auditLine decision.record).length ≤ maxAuditRecordBytes)
    (hsize : (ledgerText records).length + (auditLine decision.record).length ≤
      maxTransactionBytes) :
    LedgerInv isPrintable (records ++ [decision.record]) claims' table' where
  recordable r hr := by
    rcases List.mem_append.mp hr with hr | hr
    · exact hinv.recordable r hr
    · rw [List.mem_singleton.mp hr]
      exact ⟨hdecided.plain, hdecided.isObject, hshort⟩
  size := by
    simpa [ledgerText] using hsize
  folded := by
    have hfold := hinv.folded
    rw [foldLedger] at hfold ⊢
    rw [List.map_append, List.foldlM_append, hfold]
    simp only [List.map_cons, List.map_nil, List.foldlM_cons, List.foldlM_nil,
      ledgerStep_canonical hdecided.plain, hdecided.folded, bind, Except.bind, pure, Except.pure]
  represents := hdecided.represents
  history := by
    rw [List.map_append]
    exact hinv.history.snoc hdecided.event

/-- Every call on a ledger is decided by an atomic step, or is a claim that cannot be
granted as asked. -/
theorem LedgerInv.decided (hinv : LedgerInv isPrintable records claims table) (call : Call) :
    (∃ decision claims' table',
      decideCall isPrintable call (records.map Json.canonical) = .ok decision ∧
        Decided isPrintable call claims table decision claims' table') ∨
      NoGrant isPrintable call ∧
        ∃ e, decideCall isPrintable call (records.map Json.canonical) = .error e := by
  obtain ⟨kept, hkept, hlookup⟩ := ledgerClaims_spec hinv.folded hinv.represents call.now
  cases hrequest : call.request with
  | claim args => exact claim_decided hrequest hinv.represents hkept hlookup
  | release args => exact Or.inl (release_decided hrequest hinv.represents hkept hlookup)

/-- A record that fits is appended and its decision returned. -/
theorem serve_append {call : Call} {raw : List UInt8}
    {decision : AuditDecision (Except CollaborationError Answer)}
    (hread : readLedger loadsLine raw = .ok records)
    (hdecide : decideCall isPrintable call records = .ok decision)
    (hshort : (auditLine decision.record).length ≤ maxAuditRecordBytes)
    (hsize : raw.length + (auditLine decision.record).length ≤ maxTransactionBytes) :
    serve isPrintable call raw = (decision.value, raw ++ auditLine decision.record) := by
  have hwrite : writeAll (auditLine decision.record) [] = (auditLine decision.record, true) := by
    rw [auditLine]
    cases utf8Encode (Json.dumps decision.record) <;> rfl
  simp only [serve, transact, hread, hdecide, if_neg (Nat.not_lt.mpr hshort),
    if_neg (Nat.not_lt.mpr hsize), AppendIo.reliable, hwrite]
  rfl

/-- A record that does not fit is not appended. -/
theorem serve_overflow {call : Call} {raw : List UInt8}
    {decision : AuditDecision (Except CollaborationError Answer)}
    (hread : readLedger loadsLine raw = .ok records)
    (hdecide : decideCall isPrintable call records = .ok decision)
    (hlarge : maxAuditRecordBytes < (auditLine decision.record).length ∨
      maxTransactionBytes < raw.length + (auditLine decision.record).length) :
    serve isPrintable call raw = (.error upstreamUnavailable, raw) := by
  simp only [serve, transact, hread, hdecide]
  by_cases hlong : maxAuditRecordBytes < (auditLine decision.record).length
  · rw [if_pos hlong]
    rfl
  · rw [if_neg hlong, if_pos (hlarge.resolve_left hlong)]
    rfl

/-- A decision that raises is not appended. -/
theorem serve_raise {call : Call} {raw : List UInt8} {e : Raised}
    (hread : readLedger loadsLine raw = .ok records)
    (hdecide : decideCall isPrintable call records = .error e) :
    serve isPrintable call raw = (.error upstreamUnavailable, raw) := by
  simp only [serve, transact, hread, hdecide]
  rfl

/-- One call on a ledger: either it appends the record of its decision, or it is
unserved and leaves the file as it is. -/
theorem LedgerInv.serve (hinv : LedgerInv isPrintable records claims table) (call : Call) :
    (∃ decision claims' table',
      decideCall isPrintable call (records.map Json.canonical) = .ok decision ∧
      Decided isPrintable call claims table decision claims' table' ∧
      serve isPrintable call (ledgerText records) =
        (decision.value, ledgerText (records ++ [decision.record])) ∧
      LedgerInv isPrintable (records ++ [decision.record]) claims' table') ∨
    (Unserved isPrintable call (ledgerText records) ∧
      serve isPrintable call (ledgerText records) =
        (.error upstreamUnavailable, ledgerText records)) := by
  have hread := hinv.readLedger
  rcases hinv.decided call with
    ⟨decision, claims', table', hdecide, hdecided⟩ | ⟨hnone, e, hraise⟩
  · by_cases hlarge : maxAuditRecordBytes < (auditLine decision.record).length ∨
        maxTransactionBytes < (ledgerText records).length + (auditLine decision.record).length
    · exact Or.inr ⟨Or.inr ⟨_, decision, hread, hdecide, hlarge⟩,
        serve_overflow hread hdecide hlarge⟩
    · rw [not_or, Nat.not_lt, Nat.not_lt] at hlarge
      refine Or.inl ⟨decision, claims', table', hdecide, hdecided, ?_,
        hinv.append hdecided hlarge.1 hlarge.2⟩
      rw [serve_append hread hdecide hlarge.1 hlarge.2, ledgerText, ledgerText,
        List.flatMap_append, List.flatMap_singleton]
  · exact Or.inr ⟨Or.inl hnone, serve_raise hread hraise⟩

/-- Calls extend a ledger. -/
theorem LedgerInv.serveAll (hinv : LedgerInv isPrintable records claims table)
    (calls : List Call) : ∃ more claims' table',
      serveAll isPrintable calls (ledgerText records) = ledgerText (records ++ more) ∧
        LedgerInv isPrintable (records ++ more) claims' table' := by
  induction calls generalizing records claims table with
  | nil => exact ⟨[], claims, table, by rw [List.append_nil]; rfl, by rwa [List.append_nil]⟩
  | cons call calls ih =>
    rw [TaskClaims.serveAll]
    rcases hinv.serve call with ⟨decision, claims', table', -, -, hserve, hinv'⟩ | ⟨-, hserve⟩
    · obtain ⟨more, claims'', table'', hall, hinv''⟩ := ih hinv'
      rw [hserve, hall]
      rw [List.append_assoc] at hinv'' ⊢
      exact ⟨_, claims'', table'', rfl, hinv''⟩
    · rw [hserve]
      exact ih hinv

/-- Every ledger that the service has written from an empty file is sound. -/
theorem reachable (isPrintable : Char → Bool) (calls : List Call) : ∃ records claims table,
    serveAll isPrintable calls [] = ledgerText records ∧
      LedgerInv isPrintable records claims table := by
  have hnil : LedgerInv isPrintable [] ∅ LeaseTable.empty := .nil
  obtain ⟨more, claims, table, hall, hinv⟩ := hnil.serveAll calls
  exact ⟨more, claims, table, hall, hinv⟩

/-- The task argument of a request. -/
def Request.taskId : Request → PyValue
  | .claim args => args.taskId
  | .release args => args.taskId

/-- An atomic step leaves the entries of all other tasks alone. -/
theorem AtomicStep.frame {call : Call} {table table' : TaskTable}
    {value : Except CollaborationError Answer}
    (hstep : AtomicStep isPrintable call table value table') {task : String}
    (hother : call.request.taskId ≠ .str task) : table' task = table task := by
  cases hstep with
  | granted hrequest hcheck =>
    refine LeaseTable.grant_of_ne _ _ ?_
    rintro rfl
    rw [hrequest] at hother
    exact hother (checkedStr_eq_ok (checkClaim_eq_ok hcheck).2.1).1
  | released hrequest hcheck =>
    refine LeaseTable.release_of_ne _ ?_
    rintro rfl
    rw [hrequest] at hother
    exact hother (checkedStr_eq_ok (checkRelease_eq_ok hcheck).2.1).1
  | _ => rfl

/-- **Refinement.** Whatever was called before, reading and folding the ledger succeeds
at every clock and finds the active leases of the table that the file denotes, and the
next call is one atomic step of that table, or is unserved and changes nothing. -/
theorem serve_refines_lockTable (isPrintable : Char → Bool) (calls : List Call) (call : Call) :
    let raw := serveAll isPrintable calls []
    let result := (serve isPrintable call raw).1
    let raw' := (serve isPrintable call raw).2
    lockTable isPrintable [] = LeaseTable.empty ∧
      (∀ now, ∃ records kept, readLedger loadsLine raw = .ok records ∧
        ledgerClaims isPrintable records now = .ok kept ∧
        ∀ task, kept.dlookup task =
          ((lockTable isPrintable raw).active task now).map (toActive task)) ∧
      (AtomicStep isPrintable call (lockTable isPrintable raw) result
          (lockTable isPrintable raw') ∨
        Unserved isPrintable call raw ∧ result = .error upstreamUnavailable ∧ raw' = raw) ∧
      ∀ task, call.request.taskId ≠ .str task →
        lockTable isPrintable raw' task = lockTable isPrintable raw task := by
  obtain ⟨records, claims, table, hraw, hinv⟩ := reachable isPrintable calls
  have htable := hinv.lockTable_eq
  simp only [hraw]
  refine ⟨LedgerInv.nil.lockTable_eq, fun now => ?_, ?_⟩
  · obtain ⟨kept, hkept, hlookup⟩ := ledgerClaims_spec hinv.folded hinv.represents now
    exact ⟨_, kept, hinv.readLedger, hkept, htable ▸ hlookup⟩
  · rcases hinv.serve call with
      ⟨decision, claims', table', -, hdecided, hserve, hinv'⟩ | ⟨hunserved, hserve⟩
    · have htable' := hinv'.lockTable_eq
      rw [hserve, htable, htable']
      exact ⟨Or.inl hdecided.step, fun task hother => hdecided.step.frame hother⟩
    · rw [hserve]
      exact ⟨Or.inr ⟨hunserved, rfl, rfl⟩, fun _ _ => rfl⟩

end ContributorGateway.TaskClaims
