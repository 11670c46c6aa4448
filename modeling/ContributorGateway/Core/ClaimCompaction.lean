import ContributorGateway.Core.ClaimRetries

/-!
# Compaction

A ledger can be archived and replaced by an empty file once the longest claim has
expired. Two ledgers whose tables agree from a horizon on answer every later call in
the same way and append the same record.
-/

namespace ContributorGateway.TaskClaims

/-- Twenty-four hours, the longest claim, in microseconds. -/
def drainMicros : ℕ := 24 * 60 * 60 * 1000000

/-- The record of the call, if it gets that far, keeps the file below its bound. -/
def fits (isPrintable : Char → Bool) (call : Call) (raw : List UInt8) : Bool :=
  match readLedger loadsLine raw >>= decideCall isPrintable call with
  | .ok decision => raw.length + (auditLine decision.record).length ≤ maxTransactionBytes
  | .error _ => true

/-- What every call of a run returns or raises, and the bytes that it appends. -/
def transcript (isPrintable : Char → Bool) :
    List Call → List UInt8 → List (Except CollaborationError Answer × List UInt8)
  | [], _ => []
  | call :: rest, raw =>
      let served := serve isPrintable call raw
      (served.1, served.2.drop raw.length) :: transcript isPrintable rest served.2

variable {isPrintable : Char → Bool} {records : List Json} {claims : Claims} {table : TaskTable}

/-! ## Leases end within a day -/

/-- A lease that a call stores ends within a day of the call. -/
theorem AtomicStep.expires_le {call : Call} {table table' : TaskTable} {limit : ℕ}
    {value : Except CollaborationError Answer} (hstep : AtomicStep isPrintable call table value table')
    (hcall : call.now.micros + drainMicros ≤ limit)
    (htable : ∀ task lease, table task = some lease → lease.expires.micros ≤ limit)
    {task : String} {lease : TaskLease} (hlease : table' task = some lease) :
    lease.expires.micros ≤ limit := by
  cases hstep with
  | @granted args c expiry hrequest hcheck hfree hid hexpiry =>
    by_cases htask : task = c.task
    · subst htask
      rw [LeaseTable.grant_self, Option.some.injEq] at hlease
      subst hlease
      have hspan := Instant.micros_of_addMinutes hexpiry
      have hmax := (duration_eq_ok (checkClaim_eq_ok hcheck).2.2.2.1).2
      have htrunc : expiry.truncate.micros ≤ expiry.micros := Instant.truncate_le expiry
      simp only [maxClaimMinutes] at hmax
      simp only [drainMicros] at hcall
      simp only [CheckedClaim.lease]
      omega
    · rw [LeaseTable.grant_of_ne _ _ htask] at hlease
      exact htable task lease hlease
  | @released args c lease' hrequest hcheck hheld =>
    by_cases htask : task = c.task
    · subst htask
      rw [LeaseTable.release_self] at hlease
      cases hlease
    · rw [LeaseTable.release_of_ne _ htask] at hlease
      exact htable task lease hlease
  | _ => exact htable task lease hlease

/-- After calls up to a clock reading, every lease ends within a day of the reading. -/
theorem LedgerInv.serveAll_expires_le (hinv : LedgerInv isPrintable records claims table)
    (limit : ℕ) (htable : ∀ task lease, table task = some lease → lease.expires.micros ≤ limit)
    {calls : List Call} (hcalls : ∀ call ∈ calls, call.now.micros + drainMicros ≤ limit) :
    ∃ records' claims' table',
      TaskClaims.serveAll isPrintable calls (ledgerText records) = ledgerText records' ∧
        LedgerInv isPrintable records' claims' table' ∧
        ∀ task lease, table' task = some lease → lease.expires.micros ≤ limit := by
  induction calls generalizing records claims table with
  | nil => exact ⟨records, claims, table, rfl, hinv, htable⟩
  | cons call calls ih =>
    have hrest : ∀ c ∈ calls, c.now.micros + drainMicros ≤ limit := fun c hc =>
      hcalls c (List.mem_cons_of_mem _ hc)
    rw [TaskClaims.serveAll]
    rcases hinv.serve call with ⟨decision, claims', table', -, hdecided, hserve, hinv'⟩ | ⟨-, hserve⟩
    · rw [hserve]
      exact ih hinv' (fun _ _ h =>
        hdecided.step.expires_le (hcalls call List.mem_cons_self) htable h) hrest
    · rw [hserve]
      exact ih hinv htable hrest

/-! ## Two ledgers side by side -/

/-- A decision depends on the records only through the active claims. -/
theorem decideCall_congr {call : Call} {records' : List Json}
    {kept kept' : List (Sigma fun _ : String => ActiveClaim)}
    (hkept : ledgerClaims isPrintable records call.now = .ok kept)
    (hkept' : ledgerClaims isPrintable records' call.now = .ok kept')
    (hlookup : ∀ task, kept.dlookup task = kept'.dlookup task) :
    decideCall isPrintable call records = decideCall isPrintable call records' := by
  cases hrequest : call.request with
  | claim args =>
    have hbody : claimBody isPrintable call.now call.tasks args call.newClaimId records =
        claimBody isPrintable call.now call.tasks args call.newClaimId records' := by
      simp only [claimBody, hkept, hkept', attempt, pure_bind, hlookup]
    simp only [decideCall, hrequest, claimDecide, hbody]
  | release args =>
    have hbody : releaseBody isPrintable call.now args records =
        releaseBody isPrintable call.now args records' := by
      simp only [releaseBody, hkept, hkept', attempt, pure_bind, hlookup]
    simp only [decideCall, hrequest, releaseDecide, hbody]

/-- Two ledger files, the second not longer than the first, whose tables agree from a
horizon on. -/
def Compacted (isPrintable : Char → Bool) (horizon : Instant) (old new : List UInt8) : Prop :=
  ∃ records claims table records' claims' table',
    old = ledgerText records ∧ new = ledgerText records' ∧
    LedgerInv isPrintable records claims table ∧
    LedgerInv isPrintable records' claims' table' ∧
    LeaseTable.AgreeFrom horizon table table' ∧ new.length ≤ old.length

/-- A call after the horizon that fits the longer file is served alike on both. -/
theorem Compacted.serve {horizon : Instant} {old new : List UInt8} {call : Call}
    (hcompacted : Compacted isPrintable horizon old new) (hcall : horizon ≤ call.now)
    (hfits : fits isPrintable call old = true) :
    ∃ result appended, serve isPrintable call old = (result, old ++ appended) ∧
      serve isPrintable call new = (result, new ++ appended) ∧
      Compacted isPrintable horizon (old ++ appended) (new ++ appended) := by
  obtain ⟨records, claims, table, records', claims', table', rfl, rfl, hold, hnew, hagree,
    hlength⟩ := hcompacted
  obtain ⟨kept, hkept, hlookup⟩ := ledgerClaims_spec hold.folded hold.represents call.now
  obtain ⟨kept', hkept', hlookup'⟩ := ledgerClaims_spec hnew.folded hnew.represents call.now
  have hdecide : decideCall isPrintable call (records.map Json.canonical) =
      decideCall isPrintable call (records'.map Json.canonical) :=
    decideCall_congr hkept hkept' fun task => by
      rw [hlookup, hlookup', hagree.active_eq task hcall]
  have hunchanged : Compacted isPrintable horizon (ledgerText records ++ [])
      (ledgerText records' ++ []) := by
    rw [List.append_nil, List.append_nil]
    exact ⟨records, claims, table, records', claims', table', rfl, rfl, hold, hnew, hagree,
      hlength⟩
  cases hdecision : decideCall isPrintable call (records.map Json.canonical) with
  | error e =>
    refine ⟨.error upstreamUnavailable, [], ?_, ?_, hunchanged⟩
    · rw [List.append_nil, serve_raise hold.readLedger hdecision]
    · rw [List.append_nil, serve_raise hnew.readLedger (hdecide ▸ hdecision)]
  | ok decision =>
    have hsize : (ledgerText records).length + (auditLine decision.record).length ≤
        maxTransactionBytes := by
      simp only [fits, hold.readLedger, bind, Except.bind, hdecision] at hfits
      exact of_decide_eq_true hfits
    by_cases hlong : maxAuditRecordBytes < (auditLine decision.record).length
    · refine ⟨.error upstreamUnavailable, [], ?_, ?_, hunchanged⟩
      · rw [List.append_nil, serve_overflow hold.readLedger hdecision (Or.inl hlong)]
      · rw [List.append_nil, serve_overflow hnew.readLedger (hdecide ▸ hdecision) (Or.inl hlong)]
    · have hshort := Nat.not_lt.mp hlong
      refine ⟨decision.value, auditLine decision.record,
        serve_append hold.readLedger hdecision hshort hsize,
        serve_append hnew.readLedger (hdecide ▸ hdecision) hshort (by omega), ?_⟩
      rcases hold.decided call with ⟨d, claims₁, table₁, hd, hdecided⟩ | ⟨-, e, he⟩
      · rw [hdecision, Except.ok.injEq] at hd
        subst hd
        rcases hnew.decided call with ⟨d', claims₂, table₂, hd', hdecided'⟩ | ⟨-, e, he⟩
        · rw [← hdecide, hdecision, Except.ok.injEq] at hd'
          subst hd'
          refine ⟨_, claims₁, table₁, _, claims₂, table₂, ?_, ?_,
            hold.append hdecided hshort hsize, hnew.append hdecided' hshort (by omega),
            hdecided.event.agreeFrom hdecided'.event hagree, ?_⟩
          · simp [ledgerText]
          · simp [ledgerText]
          · simpa using hlength
        · rw [← hdecide, hdecision] at he
          cases he
      · rw [hdecision] at he
        cases he

/-- Calls after the horizon have the same transcript on both files. -/
theorem Compacted.transcript {horizon : Instant} {old new : List UInt8} {calls : List Call}
    (hcompacted : Compacted isPrintable horizon old new)
    (hcalls : ∀ call ∈ calls, horizon ≤ call.now)
    (hfits : AllCalls isPrintable (fun call raw => fits isPrintable call raw = true) calls old) :
    transcript isPrintable calls old = transcript isPrintable calls new := by
  induction calls generalizing old new with
  | nil => rfl
  | cons call calls ih =>
    obtain ⟨result, appended, hold, hnew, hcompacted'⟩ :=
      hcompacted.serve (hcalls call List.mem_cons_self) hfits.1
    have hrest := hfits.2
    rw [hold] at hrest
    rw [TaskClaims.transcript, TaskClaims.transcript, hold, hnew]
    dsimp only
    rw [List.drop_left, List.drop_left,
      ih hcompacted' (fun c hc => hcalls c (List.mem_cons_of_mem _ hc)) hrest]

/-- **Compaction.** When every earlier call read its clock at or before an instant, and
every later one at least a day after it, the later calls return, raise and append on the
old ledger what they do on an empty one. -/
theorem compaction_sound (isPrintable : Char → Bool) (t : Instant) (earlier later : List Call)
    (hearlier : ∀ call ∈ earlier, call.now ≤ t)
    (hlater : ∀ call ∈ later, t.micros + drainMicros ≤ call.now.micros)
    (hfits : AllCalls isPrintable (fun call raw => fits isPrintable call raw = true) later
      (serveAll isPrintable earlier [])) :
    transcript isPrintable later (serveAll isPrintable earlier []) =
      transcript isPrintable later [] := by
  cases later with
  | nil => rfl
  | cons call later =>
    have hrange : t.micros + drainMicros < maxMicros :=
      lt_of_le_of_lt (hlater call List.mem_cons_self) call.now.inRange
    have hnil : LedgerInv isPrintable [] ∅ LeaseTable.empty := .nil
    obtain ⟨records, claims, table, hraw, hinv, hexpires⟩ :=
      hnil.serveAll_expires_le (t.micros + drainMicros) (by rintro _ _ ⟨⟩)
        (fun c hc => Nat.add_le_add_right (hearlier c hc) _)
    have hraw' : serveAll isPrintable earlier [] = ledgerText records := hraw
    rw [hraw'] at hfits ⊢
    have hcompacted : Compacted isPrintable ⟨t.micros + drainMicros, hrange⟩
        (ledgerText records) [] :=
      ⟨records, claims, table, [], ∅, LeaseTable.empty, rfl, rfl, hinv, .nil,
        .of_expired fun task lease h => hexpires task lease h, Nat.zero_le _⟩
    exact hcompacted.transcript hlater hfits

/-- A claim that was held over night does not keep its task from the next morning's
caller, on the old ledger or on an empty one. -/
theorem compaction_next_day :
    transcript asciiPrintable [claimCall (minute 1440) "BBBBBBBBBBBBBBBBBBBBBBBB"]
        (serveAll asciiPrintable [claimCall (minute 0) "AAAAAAAAAAAAAAAAAAAAAAAA"] []) =
      transcript asciiPrintable [claimCall (minute 1440) "BBBBBBBBBBBBBBBBBBBBBBBB"] [] := by
  refine compaction_sound asciiPrintable (minute 0) _ _ ?_ ?_ ⟨?_, trivial⟩
  · simp [claimCall]
  · intro call hcall
    rw [List.mem_singleton.mp hcall]
    decide
  · decide +kernel

end ContributorGateway.TaskClaims
