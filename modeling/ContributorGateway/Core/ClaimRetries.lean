import ContributorGateway.Core.ClaimHandover

/-!
# Retried claims

When a repeated claim request is answered with the claim it was answered with before.
The service replays only the claim that is active, so a request that is delivered again
after its claim has left the table is granted anew.
-/

namespace ContributorGateway.TaskClaims

/-- The call claims the task for the owner under the idempotency key. -/
def Call.ClaimsFor (call : Call) (owner task key : String) : Prop :=
  ∃ args, call.request = .claim args ∧ args.callerIdentity = .str owner ∧
    args.taskId = .str task ∧ args.idempotencyKey = .str key

/-- The call returns a claim with this id, or appends a record that grants one. -/
def NamesClaim (isPrintable : Char → Bool) (call : Call) (raw : List UInt8) (id : String) : Prop :=
  (∃ result, (serve isPrintable call raw).1 = .ok (.claimed result) ∧ result.claimId = id) ∨
    ∃ records r task, readLedger loadsLine raw = .ok records ∧
      readLedger loadsLine (serve isPrintable call raw).2 = .ok (records ++ [r]) ∧
      IsClaimed task r ∧ fieldStr "claim_id" r = some id

/-- No claim request that was answered is answered with another id before the first
answer has expired. -/
def ClaimIdempotent (isPrintable : Char → Bool) (calls : List Call) : Prop :=
  ∀ before first between second after owner task key,
    calls = before ++ first :: (between ++ second :: after) →
    first.ClaimsFor owner task key → second.ClaimsFor owner task key →
    ∀ result expiry,
      (serve isPrintable first (serveAll isPrintable before [])).1 = .ok (.claimed result) →
      parseTimestamp (some (.str result.expiresAt)) = .ok expiry → second.now < expiry →
      ∀ id, NamesClaim isPrintable second
        (serveAll isPrintable (before ++ first :: between) []) id → id = result.claimId

/-- The grants that a ledger file records. -/
def ledgerGrants (raw : List UInt8) : List (String × TaskLease) :=
  match readLedger loadsLine raw with
  | .ok records => records.filterMap fun r =>
      match eventOf r with
      | .granted task lease => some (task, lease)
      | _ => none
  | .error _ => []

/-- The call fails its checks, or every grant that it repeats and that has not expired
at its clock is still the entry of the task, unless another owner or another key holds
the task at that clock. -/
def RetrySafe (isPrintable : Char → Bool) (call : Call) (raw : List UInt8) : Prop :=
  ∀ args c, call.request = .claim args → checkClaim isPrintable call.tasks args = .ok c →
    ∀ lease, (c.task, lease) ∈ ledgerGrants raw → lease.owner = c.owner → lease.key = c.key →
      call.now < lease.expires →
      lockTable isPrintable raw c.task = some lease ∨
        ∃ other, (lockTable isPrintable raw).active c.task call.now = some other ∧
          ¬ (other.owner = c.owner ∧ other.key = c.key)

/-- A property of every call of a run and of the file it finds. -/
def AllCalls (isPrintable : Char → Bool) (P : Call → List UInt8 → Prop) :
    List Call → List UInt8 → Prop
  | [], _ => True
  | call :: rest, raw => P call raw ∧ AllCalls isPrintable P rest (serve isPrintable call raw).2

variable {isPrintable : Char → Bool}

/-- Calls compose. -/
theorem serveAll_append (first second : List Call) (raw : List UInt8) :
    serveAll isPrintable (first ++ second) raw =
      serveAll isPrintable second (serveAll isPrintable first raw) := by
  induction first generalizing raw with
  | nil => rfl
  | cons call first ih => exact ih _

/-- What holds of every call holds of a call in the middle. -/
theorem AllCalls.at {P : Call → List UInt8 → Prop} {before after : List Call} {call : Call}
    {raw : List UInt8} (hall : AllCalls isPrintable P (before ++ call :: after) raw) :
    P call (serveAll isPrintable before raw) := by
  induction before generalizing raw with
  | nil => exact hall.1
  | cons first before ih => exact ih hall.2

section Ledger

variable {records : List Json} {claims : Claims} {table : TaskTable}

/-- The grants of a ledger file are the grants of its history. -/
theorem LedgerInv.mem_ledgerGrants (hinv : LedgerInv isPrintable records claims table)
    {task : String} {lease : TaskLease} :
    (task, lease) ∈ ledgerGrants (ledgerText records) ↔
      ∃ r ∈ records, eventOf r = .granted task lease := by
  simp only [ledgerGrants, hinv.readLedger, List.mem_filterMap, List.mem_map]
  constructor
  · rintro ⟨_, ⟨r, hr, rfl⟩, hevent⟩
    rw [eventOf_canonical (hinv.recordable r hr).plain] at hevent
    refine ⟨r, hr, ?_⟩
    split at hevent
    · rename_i hgranted
      cases hevent
      exact hgranted
    · cases hevent
  · rintro ⟨r, hr, hevent⟩
    exact ⟨_, ⟨r, hr, rfl⟩, by rw [eventOf_canonical (hinv.recordable r hr).plain, hevent]⟩

/-- A lease of the table was granted by a record. -/
theorem LedgerInv.granted_of_held (hinv : LedgerInv isPrintable records claims table)
    {task : String} {lease : TaskLease} (hheld : table task = some lease) :
    ∃ r ∈ records, eventOf r = .granted task lease := by
  obtain ⟨before, after, hsplit, -⟩ := hinv.history.holds_iff.mp hheld
  exact List.mem_map.mp (hsplit ▸ List.mem_append_right _ List.mem_cons_self)

/-- What a call records as granted is what it returns. -/
theorem LedgerInv.returned_of_names (hinv : LedgerInv isPrintable records claims table)
    {call : Call} {id : String} (hnames : NamesClaim isPrintable call (ledgerText records) id) :
    ∃ result, (TaskClaims.serve isPrintable call (ledgerText records)).1 =
      .ok (.claimed result) ∧ result.claimId = id := by
  rcases hnames with hreturned | ⟨records', r, task, hread, hread', hclaimed, hid⟩
  · exact hreturned
  · have hrecords' : records.map Json.canonical = records' := by
      rw [hinv.readLedger, Except.ok.injEq] at hread
      exact hread
    rcases hinv.serve call with
      ⟨decision, claims', table', -, hdecided, hserve, hinv'⟩ | ⟨-, hserve⟩
    · rw [hserve]
      rw [hserve, hinv'.readLedger, Except.ok.injEq, List.map_append, hrecords',
        List.append_cancel_left_eq, List.map_singleton, List.singleton_inj] at hread'
      obtain ⟨_, _, hstep⟩ := folded_mem hinv'.folded (show r ∈ _ by simp [← hread'])
      obtain ⟨lease, hlease⟩ := hclaimed.granted hstep
      obtain ⟨-, -, -, hid', -, -⟩ := eventOf_eq_granted_iff.mp hlease
      rw [← hread', eventOf_canonical hdecided.plain] at hlease
      obtain ⟨result, hvalue, hresult⟩ := hdecided.returned task lease hlease
      rw [hid, Option.some.injEq] at hid'
      exact ⟨result, hvalue, hresult.trans hid'.symm⟩
    · rw [hserve, hread, Except.ok.injEq] at hread'
      simp at hread'

end Ledger

/-- The checks leave the arguments of the call as they are. -/
theorem Call.ClaimsFor.checked {call : Call} {owner task key : String} {args : ClaimArgs}
    {c : CheckedClaim} (hfor : call.ClaimsFor owner task key)
    (hrequest : call.request = .claim args)
    (hcheck : checkClaim isPrintable call.tasks args = .ok c) :
    c.owner = owner ∧ c.task = task ∧ c.key = key := by
  obtain ⟨args', hrequest', howner, htask, hkey⟩ := hfor
  rw [hrequest] at hrequest'
  cases hrequest'
  obtain ⟨howner', htask', hkey', -⟩ := checkClaim_eq_ok hcheck
  have howner'' := (checkedStr_eq_ok howner').1
  have htask'' := (checkedStr_eq_ok htask').1
  have hkey'' := (checkedStr_eq_ok hkey').1
  rw [howner] at howner''
  rw [htask] at htask''
  rw [hkey] at hkey''
  cases howner''
  cases htask''
  cases hkey''
  exact ⟨rfl, rfl, rfl⟩

/-- A safe retry that returns a claim returns the one that was granted before. -/
theorem AtomicStep.retry {call : Call} {table table' : TaskTable} {result : ClaimedTask}
    {lease : TaskLease} {owner task key : String} (hfor : call.ClaimsFor owner task key)
    (hstep : AtomicStep isPrintable call table (.ok (.claimed result)) table')
    (hunexpired : call.now < lease.expires)
    (hsafe : table task = some lease ∨
      ∃ other, table.active task call.now = some other ∧
        ¬ (other.owner = owner ∧ other.key = key)) : result.claimId = lease.id := by
  have hactive : table.active task call.now = some lease ∨
      ∃ other, table.active task call.now = some other ∧
        ¬ (other.owner = owner ∧ other.key = key) :=
    hsafe.imp_left fun h => LeaseTable.active_eq_some_iff.mpr ⟨h, hunexpired⟩
  cases hstep with
  | granted hrequest hcheck hfree =>
    obtain ⟨rfl, rfl, rfl⟩ := hfor.checked hrequest hcheck
    rcases hactive with h | ⟨other, h, -⟩
    · rw [hfree] at h
      cases h
    · rw [hfree] at h
      cases h
  | replayed hrequest hcheck hheld howner hkey =>
    obtain ⟨rfl, rfl, rfl⟩ := hfor.checked hrequest hcheck
    rcases hactive with h | ⟨other, h, hother⟩
    · rw [hheld] at h
      cases h
      rfl
    · rw [hheld] at h
      cases h
      exact absurd ⟨howner, hkey⟩ hother

/-- **Retries.** In a run whose calls are all safe retries, a claim request that was
answered is answered with the same claim until that claim expires. -/
theorem claimIdempotent_of_retrySafe (isPrintable : Char → Bool) (calls : List Call)
    (hsafe : AllCalls isPrintable (RetrySafe isPrintable) calls []) :
    ClaimIdempotent isPrintable calls := by
  rintro before first between second after owner task key rfl hfirst hsecond result expiry
    hresult hexpiry hunexpired id hnames
  obtain ⟨records, claims, table, hraw, hinv⟩ := reachable isPrintable before
  have hsplit : before ++ first :: (between ++ second :: after) =
      (before ++ first :: between) ++ second :: after := by simp
  rw [hsplit] at hsafe
  have hsafe := hsafe.at
  have hraw' : serveAll isPrintable (before ++ first :: between) [] =
      serveAll isPrintable between (serve isPrintable first (ledgerText records)).2 := by
    rw [serveAll_append, hraw]
    rfl
  rw [hraw'] at hsafe hnames
  rw [hraw] at hresult
  rcases hinv.serve first with
    ⟨decision, claims', table', -, hdecided, hserve, hinv'⟩ | ⟨-, hserve⟩
  · rw [hserve] at hresult hsafe hnames
    have hstep := hdecided.step
    dsimp only at hresult
    rw [hresult] at hstep
    obtain ⟨args, c, lease, hrequest, hcheck, hheld, howner, hkey, hid, -, -, hexpires⟩ :=
      hstep.claimed_inv
    obtain ⟨rfl, rfl, rfl⟩ := hfirst.checked hrequest hcheck
    have hlease : lease.expires = expiry := by
      rw [hexpires, parseTimestamp_timestamp,
        (hinv'.represents.lease_ok _ _ hheld).expires_truncated, Except.ok.injEq] at hexpiry
      exact hexpiry
    obtain ⟨more, claims'', table'', hbetween, hinv''⟩ := hinv'.serveAll between
    dsimp only at hsafe hnames
    rw [hbetween] at hsafe hnames
    obtain ⟨r, hr, hevent⟩ := hinv'.granted_of_held hheld
    have hgrant := hinv''.mem_ledgerGrants.mpr ⟨r, List.mem_append_left _ hr, hevent⟩
    obtain ⟨result', hresult', rfl⟩ := hinv''.returned_of_names hnames
    rcases hinv''.serve second with
      ⟨decision', claims₃, table₃, -, hdecided', hserve', -⟩ | ⟨-, hserve'⟩
    · rw [hserve'] at hresult'
      dsimp only at hresult'
      have hstep' := hdecided'.step
      rw [hresult'] at hstep'
      obtain ⟨args', c', -, hrequest', hcheck', -⟩ := hstep'.claimed_inv
      obtain ⟨howner', htask', hkey'⟩ := hsecond.checked hrequest' hcheck'
      have hcurrent := hsafe args' c' hrequest' hcheck' lease (htask' ▸ hgrant)
        (howner.trans howner'.symm) (hkey.trans hkey'.symm) (hlease ▸ hunexpired)
      rw [hinv''.lockTable_eq, howner', htask', hkey'] at hcurrent
      exact (hstep'.retry hsecond (hlease ▸ hunexpired) hcurrent).trans hid.symm
    · rw [hserve'] at hresult'
      cases hresult'
  · rw [hserve] at hresult
    cases hresult

/-! ## A duplicate that arrives after the release -/

/-- `str.isprintable` on ASCII. -/
def asciiPrintable (c : Char) : Bool := 0x20 ≤ c.toNat && c.toNat ≤ 0x7e

/-- An index with one open task. -/
def oneTask : Tasks where
  getTask id :=
    if id = "handoff:a1" then
      some ⟨"handoff:a1", "Write the guide", .open, .handoff, none, none, "HANDOFF.md", 10, "", ""⟩
    else none
  commit := ""

/-- A claim of that task for two hours. -/
def claimCall (now : Instant) (newClaimId : String) : Call :=
  ⟨.claim ⟨.str "handoff:a1", .int 120, .str "session-1", .str "github:alice"⟩, now, newClaimId,
    oneTask⟩

/-- A release of that task. -/
def releaseCall (now : Instant) (claimId : String) : Call :=
  ⟨.release ⟨.str "handoff:a1", .str claimId, .str "github:alice"⟩, now, "", oneTask⟩

/-- The instant a number of minutes after a morning of 2026. -/
def minute (n : Fin 10000) : Instant := ⟨63919123200000000 + n.val * 60000000, by
  have := n.isLt
  rw [maxMicros]
  omega⟩

/-- A claim that is repeated while it is held is answered with the same id. -/
theorem claimIdempotent_repeated : ClaimIdempotent asciiPrintable
    [claimCall (minute 0) "AAAAAAAAAAAAAAAAAAAAAAAA",
      claimCall (minute 5) "BBBBBBBBBBBBBBBBBBBBBBBB"] := by
  refine claimIdempotent_of_retrySafe _ _ ⟨?_, ?_, trivial⟩
  · intro args c _ _ lease hmem
    cases hmem
  · intro args c hrequest hcheck lease hmem _ _ _
    have hledger : ledgerGrants (serve asciiPrintable
          (claimCall (minute 0) "AAAAAAAAAAAAAAAAAAAAAAAA") []).2 =
          [("handoff:a1", ⟨"github:alice", "AAAAAAAAAAAAAAAAAAAAAAAA", "session-1", minute 0,
            minute 120⟩)] ∧
        lockTable asciiPrintable (serve asciiPrintable
          (claimCall (minute 0) "AAAAAAAAAAAAAAAAAAAAAAAA") []).2 "handoff:a1" =
          some ⟨"github:alice", "AAAAAAAAAAAAAAAAAAAAAAAA", "session-1", minute 0,
            minute 120⟩ := by
      decide +kernel
    rw [hledger.1, List.mem_singleton, Prod.mk.injEq] at hmem
    left
    rw [hmem.1, hmem.2, hledger.2]

/-- A claim request that is delivered again after its claim was released obtains the
task a second time, under another id. -/
theorem duplicate_claims_again : ¬ ClaimIdempotent asciiPrintable
    [claimCall (minute 0) "AAAAAAAAAAAAAAAAAAAAAAAA",
      releaseCall (minute 5) "AAAAAAAAAAAAAAAAAAAAAAAA",
      claimCall (minute 10) "BBBBBBBBBBBBBBBBBBBBBBBB"] := by
  intro h
  have hfor (now : Instant) (id : String) :
      (claimCall now id).ClaimsFor "github:alice" "handoff:a1" "session-1" :=
    ⟨_, rfl, rfl, rfl, rfl⟩
  have heq := h [] (claimCall (minute 0) "AAAAAAAAAAAAAAAAAAAAAAAA")
    [releaseCall (minute 5) "AAAAAAAAAAAAAAAAAAAAAAAA"]
    (claimCall (minute 10) "BBBBBBBBBBBBBBBBBBBBBBBB") [] _ _ _ rfl (hfor _ _) (hfor _ _)
    ⟨⟨"handoff:a1", "Write the guide", .open, .handoff, none, none, "HANDOFF.md", 10, "", ""⟩,
      "AAAAAAAAAAAAAAAAAAAAAAAA", "github:alice", "2026-07-08T16:00:00Z", "2026-07-08T18:00:00Z",
      false⟩ (minute 120) (by decide +kernel) (by decide +kernel) (by decide +kernel)
    "BBBBBBBBBBBBBBBBBBBBBBBB"
    (Or.inl ⟨⟨⟨"handoff:a1", "Write the guide", .open, .handoff, none, none, "HANDOFF.md", 10, "", ""⟩,
      "BBBBBBBBBBBBBBBBBBBBBBBB", "github:alice", "2026-07-08T16:10:00Z", "2026-07-08T18:10:00Z",
      false⟩, by decide +kernel, rfl⟩)
  exact absurd heq (by decide)

end ContributorGateway.TaskClaims
