import ContributorGateway.Core.ClaimRuns
import ContributorGateway.Foundation.JsonSize

/-!
# Room in the ledger

The fields of a record are bounded, so that no record of the service is too long for its ledger,
and a ledger has room for the records of thousands of calls.
-/

namespace ContributorGateway.TaskClaims

/-! ## Local variables -/

section Keeps

variable {σ α β : Type} {P : σ → Prop}

/-- A block that begins in local variables with a property also ends in such when it decides the
call: with a value, or with an error of the collaboration. -/
def Keeps (P : σ → Prop) (m : EStateM Raised σ α) : Prop :=
  ∀ locals, P locals →
    match m.run locals with
    | .ok _ locals' => P locals'
    | .error (.collaboration _) locals' => P locals'
    | .error _ _ => True

/-- A value changes no local variable. -/
theorem keeps_pure (a : α) : Keeps P (pure a : EStateM Raised σ α) := fun _ h => h

/-- An exception changes no local variable. -/
theorem keeps_throw (e : Raised) : Keeps P (throw e : EStateM Raised σ α) := by
  intro locals hlocals
  rw [run_raise]
  cases e with
  | collaboration error => exact hlocals
  | auditUnavailable detail => trivial
  | exception name => trivial

/-- A step hands its value on, or ends the block. -/
theorem keeps_attempt {x : Except Raised α} {f : α → EStateM Raised σ β}
    (h : ∀ a, x = .ok a → Keeps P (f a)) : Keeps P (attempt x >>= f) := by
  intro locals hlocals
  cases hx : x with
  | error e =>
    have hthrow := keeps_throw (α := β) e locals hlocals
    rw [run_raise] at hthrow
    rw [run_attempt_error rfl]
    exact hthrow
  | ok a =>
    rw [run_attempt_ok rfl]
    exact h a hx locals hlocals

/-- An assignment keeps what it does not touch. -/
theorem keeps_assign {g : σ → σ} {f : PUnit → EStateM Raised σ β}
    (hg : ∀ locals, P locals → P (g locals)) (h : Keeps P (f ⟨⟩)) :
    Keeps P (modify g >>= f) :=
  fun locals hlocals => h (g locals) (hg locals hlocals)

end Keeps

/-! ## Sizes of fields -/

/-- An optional text is not longer than a bound. -/
def IsShort (bound : ℕ) (value : Option String) : Prop := ∀ s ∈ value, s.length ≤ bound

/-- The bound of an optional text as JSON. -/
theorem sizeBound_optStr {bound : ℕ} {value : Option String} (h : IsShort bound value) :
    Json.sizeBound (optStr value) ≤ 12 * bound + 4 := by
  cases value with
  | none => exact Nat.le_add_left 4 _
  | some s =>
    have hs := h s rfl
    change 12 * s.length + 2 ≤ _
    omega

/-- An argument is cut where it is recorded without a check. -/
theorem isShort_safeArg (value : PyValue) (bound : ℕ) : IsShort bound (safeArg value bound) := by
  intro s hs
  obtain ⟨text, -, rfl⟩ := Option.map_eq_some_iff.mp hs
  rw [String.length_ofList]
  exact List.length_take_le _ _

/-- A field is the checked value, or the cut argument. -/
theorem IsShort.or {bound : ℕ} {value other : Option String} (h : IsShort bound value)
    (hother : IsShort bound other) : IsShort bound (value.or other) := by
  cases value with
  | none => exact hother
  | some s => exact h

/-- The local variables of a claim are bounded. -/
structure ClaimLocals.Bounded (l : ClaimLocals) : Prop where
  owner : IsShort 160 l.validOwner
  task : IsShort 256 l.validTaskId
  key : IsShort 64 l.validKey
  minutes : ∀ n ∈ l.validDuration, minClaimMinutes ≤ n ∧ n ≤ maxClaimMinutes
  claim : IsShort 24 l.claimId
  start : IsShort 20 l.claimedAt
  expires : IsShort 20 l.expiresAt

/-- The local variables of a release are bounded. -/
structure ReleaseLocals.Bounded (l : ReleaseLocals) : Prop where
  owner : IsShort 160 l.validOwner
  task : IsShort 256 l.validTaskId
  claim : IsShort 24 l.validClaimId

/-- A bound of every record of the service in characters. -/
def maxRecordChars : ℕ := 10239

/-- The duration of a claim has at most four digits. -/
theorem length_dumpsInt_minutes {n : ℤ} (h : minClaimMinutes ≤ n ∧ n ≤ maxClaimMinutes) :
    (Json.dumpsInt n).length ≤ 4 := by
  obtain ⟨m, rfl⟩ := Int.eq_ofNat_of_zero_le (a := n) (by
    have := h.1
    rw [minClaimMinutes] at this
    omega)
  have hbound : m < 10 ^ 4 := by
    have hmax := h.2
    rw [maxClaimMinutes] at hmax
    omega
  exact (Nat.length_toDigits_le_iff (by decide) (by decide)).mpr hbound

/-- The names of the members of records are short. -/
theorem length_names : "schema_version".length = 14 ∧ "timestamp".length = 9 ∧
    "caller_identity".length = 15 ∧ "tool".length = 4 ∧ "args".length = 4 ∧
    "task_id".length = 7 ∧ "duration_minutes".length = 16 ∧ "idempotency_key".length = 15 ∧
    "snapshot_commit".length = 15 ∧ "claim_id".length = 8 ∧ "claimed_at".length = 10 ∧
    "expires_at".length = 10 ∧ "outcome".length = 7 ∧ "claim_task".length = 10 ∧
    "release_task".length = 12 ∧ (Json.dumpsInt claimLedgerSchemaVersion).length = 1 := by
  decide

/-- A record of a claim is bounded. -/
theorem sizeBound_claimRecord {now : Instant} {tasks : Tasks} {args : ClaimArgs} {l : ClaimLocals}
    {outcome : String} (hl : l.Bounded) (hcommit : tasks.commit.length ≤ 40)
    (houtcome : outcome.length ≤ 40) :
    Json.sizeBound (claimRecord now tasks args l outcome) ≤ maxRecordChars := by
  have howner := sizeBound_optStr (hl.owner.or (isShort_safeArg args.callerIdentity 160))
  have htask := sizeBound_optStr (hl.task.or (isShort_safeArg args.taskId 256))
  have hkey := sizeBound_optStr (hl.key.or (isShort_safeArg args.idempotencyKey 64))
  have hclaim := sizeBound_optStr hl.claim
  have hstart := sizeBound_optStr hl.start
  have hexpires := sizeBound_optStr hl.expires
  have hminutes : Json.sizeBound (l.validDuration.elim .null .int) ≤ 4 := by
    cases hvalue : l.validDuration with
    | none => exact Nat.le_refl _
    | some n => exact length_dumpsInt_minutes (hl.minutes n hvalue)
  have htime := timestamp_length now
  have hnames := length_names
  simp only [claimRecord, Json.sizeBound, Json.sizeBoundMembers, maxRecordChars]
  omega

/-- A record of a release is bounded. -/
theorem sizeBound_releaseRecord {now : Instant} {tasks : Tasks} {args : ReleaseArgs}
    {l : ReleaseLocals} {outcome : String} (hl : l.Bounded) (hcommit : tasks.commit.length ≤ 40)
    (houtcome : outcome.length ≤ 40) :
    Json.sizeBound (releaseRecord now tasks args l outcome) ≤ maxRecordChars := by
  have howner := sizeBound_optStr (hl.owner.or (isShort_safeArg args.callerIdentity 160))
  have htask := sizeBound_optStr (hl.task.or (isShort_safeArg args.taskId 256))
  have hclaim := sizeBound_optStr (hl.claim.or (isShort_safeArg args.claimId 24))
  have htime := timestamp_length now
  have hnames := length_names
  simp only [releaseRecord, Json.sizeBound, Json.sizeBoundMembers, maxRecordChars]
  omega

/-! ## Decisions -/

/-- Every outcome of an error is short. -/
theorem length_text_le (code : CollaborationErrorCode) : code.text.length ≤ 40 := by
  cases code <;> decide

section Bodies

variable {isPrintable : Char → Bool} {now : Instant} {tasks : Tasks} {records : List Json}
  {claims : Claims} {table : TaskTable}

/-- The lengths of texts that match a class. -/
theorem length_of_matchesClass {p : Char → Bool} {lo hi : ℕ} {s : String}
    (h : matchesClass p lo hi s = true) : s.length ≤ hi := by
  simp only [matchesClass, Bool.and_eq_true, decide_eq_true_eq] at h
  exact h.1.2

/-- An accepted caller is short. -/
theorem length_of_isOwner {s : String} (h : isOwner isPrintable s = true) : s.length ≤ 160 := by
  simp only [isOwner, Bool.and_eq_true, decide_eq_true_eq] at h
  exact h.1.1.2

/-- An accepted task is short. -/
theorem length_of_isTaskId {s : String} (h : isTaskId s = true) : s.length ≤ 256 := by
  simp only [isTaskId, Bool.and_eq_true, decide_eq_true_eq] at h
  exact h.1.1.2

/-- Some text is short. -/
theorem isShort_some {bound : ℕ} {s : String} (h : s.length ≤ bound) : IsShort bound (some s) := by
  intro s' hs'
  obtain rfl := Option.some.inj hs'
  exact h

/-- A lease is granted or replayed with bounded local variables. -/
theorem keeps_grantOrReplay {task : String} {record : TaskRecord} {owner key : String}
    {minutes : ℤ} {newClaimId : String} {active : Option TaskLease}
    (hactive : ∀ lease ∈ active, LeaseOk isPrintable task lease) :
    Keeps ClaimLocals.Bounded
      (grantOrReplay now record owner key minutes newClaimId (active.map (toActive task))) := by
  cases active with
  | some lease =>
    rw [Option.map_some, grantOrReplay]
    split_ifs
    · refine keeps_assign (fun l hl => ?_) (keeps_pure _)
      have hid := length_of_matchesClass (hactive lease rfl).id_ok
      exact { hl with
        claim := isShort_some hid
        start := isShort_some (timestamp_length _).le
        expires := isShort_some (timestamp_length _).le }
    · exact keeps_throw _
  | none =>
    rw [Option.map_none, grantOrReplay]
    by_cases hid : isClaimId newClaimId = true
    · rw [if_pos hid]
      refine keeps_assign (fun l hl => ?_) ?_
      · exact { hl with claim := isShort_some (length_of_matchesClass hid) }
      · cases now.addMinutes minutes.toNat with
        | none => exact keeps_throw _
        | some expiry =>
          refine keeps_assign (fun l hl => ?_) (keeps_pure _)
          exact { hl with
            start := isShort_some (timestamp_length _).le
            expires := isShort_some (timestamp_length _).le }
    · rw [if_neg hid]
      exact fun _ _ => trivial

/-- The body of a claim ends a decision with bounded local variables. -/
theorem keeps_claimBody {kept : List (Sigma fun _ : String => ActiveClaim)} {args : ClaimArgs}
    {newClaimId : String} (hrep : Represents isPrintable claims table)
    (hkept : ledgerClaims isPrintable records now = .ok kept)
    (hlookup : ∀ task, kept.dlookup task = (table.active task now).map (toActive task)) :
    Keeps ClaimLocals.Bounded (claimBody isPrintable now tasks args newClaimId records) := by
  rw [claimBody]
  refine keeps_attempt fun owner howner => keeps_assign (fun l hl => ?_) ?_
  · exact { hl with
      owner := isShort_some (length_of_isOwner (checkedStr_eq_ok howner).2) }
  refine keeps_attempt fun task htask => keeps_assign (fun l hl => ?_) ?_
  · exact { hl with task := isShort_some (length_of_isTaskId (checkedStr_eq_ok htask).2) }
  refine keeps_attempt fun key hkey => keeps_assign (fun l hl => ?_) ?_
  · exact { hl with key := isShort_some (length_of_matchesClass (checkedStr_eq_ok hkey).2) }
  refine keeps_attempt fun minutes hminutes => keeps_assign (fun l hl => ?_) ?_
  · refine { hl with minutes := fun n hn => ?_ }
    obtain rfl := Option.some.inj hn
    exact duration_eq_ok hminutes
  cases tasks.getTask task with
  | none => exact keeps_throw _
  | some record =>
    dsimp only
    split_ifs with hdone
    · exact keeps_throw _
    · refine keeps_attempt fun found hfound => ?_
      obtain rfl := Except.ok.inj (hkept.symm.trans hfound)
      rw [hlookup]
      apply keeps_grantOrReplay
      intro lease hlease
      exact hrep.lease_ok _ _ (LeaseTable.active_eq_some_iff.mp hlease).1

/-- The body of a release ends a decision with bounded local variables. -/
theorem keeps_releaseBody {args : ReleaseArgs} :
    Keeps ReleaseLocals.Bounded (releaseBody isPrintable now args records) := by
  rw [releaseBody]
  refine keeps_attempt fun owner howner => keeps_assign (fun l hl => ?_) ?_
  · exact { hl with
      owner := isShort_some (length_of_isOwner (checkedStr_eq_ok howner).2) }
  refine keeps_attempt fun task htask => keeps_assign (fun l hl => ?_) ?_
  · exact { hl with task := isShort_some (length_of_isTaskId (checkedStr_eq_ok htask).2) }
  refine keeps_attempt fun id hid => keeps_assign (fun l hl => ?_) ?_
  · exact { hl with claim := isShort_some (length_of_matchesClass (checkedStr_eq_ok hid).2) }
  refine keeps_attempt fun found hfound => ?_
  rw [releaseActive.eq_def]
  split
  · exact keeps_pure _
  · split_ifs
    · exact keeps_throw _
    · exact keeps_throw _
    · exact keeps_pure _

/-- Unassigned local variables are bounded. -/
theorem ClaimLocals.bounded_empty : ClaimLocals.Bounded {} where
  owner := fun _ h => nomatch h
  task := fun _ h => nomatch h
  key := fun _ h => nomatch h
  minutes := fun _ h => nomatch h
  claim := fun _ h => nomatch h
  start := fun _ h => nomatch h
  expires := fun _ h => nomatch h

/-- Unassigned local variables are bounded. -/
theorem ReleaseLocals.bounded_empty : ReleaseLocals.Bounded {} where
  owner := fun _ h => nomatch h
  task := fun _ h => nomatch h
  claim := fun _ h => nomatch h

end Bodies

/-! ## Records -/

section Records

variable {isPrintable : Char → Bool} {records : List Json} {claims : Claims} {table : TaskTable}
  {call : Call} {decision : AuditDecision (Except CollaborationError Answer)}

/-- The record of a decision is bounded. -/
theorem sizeBound_record_le {kept : List (Sigma fun _ : String => ActiveClaim)}
    (hrep : Represents isPrintable claims table)
    (hkept : ledgerClaims isPrintable records call.now = .ok kept)
    (hlookup : ∀ task, kept.dlookup task = (table.active task call.now).map (toActive task))
    (hcommit : call.tasks.commit.length ≤ 40)
    (hdecide : decideCall isPrintable call records = .ok decision) :
    Json.sizeBound decision.record ≤ maxRecordChars := by
  unfold decideCall at hdecide
  split at hdecide
  · next args hrequest =>
    have hbounded : Keeps ClaimLocals.Bounded
        (claimBody isPrintable call.now call.tasks args call.newClaimId records) :=
      keeps_claimBody hrep hkept hlookup
    have hkeeps := hbounded {} ClaimLocals.bounded_empty
    unfold claimDecide at hdecide
    split at hdecide
    · next result l hbody =>
      rw [hbody] at hkeeps
      obtain rfl := Except.ok.inj hdecide
      refine sizeBound_claimRecord hkeeps hcommit ?_
      split_ifs <;> decide
    · next e l hbody =>
      rw [hbody] at hkeeps
      obtain rfl := Except.ok.inj hdecide
      exact sizeBound_claimRecord hkeeps hcommit (length_text_le _)
    · cases hdecide
  · next args hrequest =>
    have hbounded : Keeps ReleaseLocals.Bounded
        (releaseBody isPrintable call.now args records) := keeps_releaseBody
    have hkeeps := hbounded {} ReleaseLocals.bounded_empty
    unfold releaseDecide at hdecide
    split at hdecide
    · next result l hbody =>
      rw [hbody] at hkeeps
      obtain rfl := Except.ok.inj hdecide
      refine sizeBound_releaseRecord hkeeps hcommit ?_
      split_ifs <;> decide
    · next e l hbody =>
      rw [hbody] at hkeeps
      obtain rfl := Except.ok.inj hdecide
      exact sizeBound_releaseRecord hkeeps hcommit (length_text_le _)
    · cases hdecide

/-- The line of a decision is bounded. -/
theorem LedgerInv.length_auditLine_le (hinv : LedgerInv isPrintable records claims table)
    (hcommit : call.tasks.commit.length ≤ 40)
    (hdecide : decideCall isPrintable call (records.map Json.canonical) = .ok decision)
    (hplain : Json.Plain decision.record) :
    (auditLine decision.record).length ≤ maxRecordChars + 1 := by
  obtain ⟨kept, hkept, hlookup⟩ := ledgerClaims_spec hinv.folded hinv.represents call.now
  have hsize := sizeBound_record_le hinv.represents hkept hlookup hcommit hdecide
  have hdumps := Json.length_dumps_le decision.record
  rw [auditLine, List.length_append, List.length_singleton, Json.length_utf8Encode_dumps hplain]
  omega

/-- A call extends a ledger by at most one line. -/
theorem LedgerInv.length_serve_le (hinv : LedgerInv isPrintable records claims table)
    (hcommit : call.tasks.commit.length ≤ 40) :
    ((TaskClaims.serve isPrintable call (ledgerText records)).2).length ≤
      (ledgerText records).length + (maxRecordChars + 1) := by
  rcases hinv.serve call with
    ⟨decision, claims', table', hdecide, hdecided, hserve, -⟩ | ⟨-, hserve⟩
  · have hline := hinv.length_auditLine_le hcommit hdecide hdecided.plain
    rw [hserve, ledgerText, List.flatMap_append, List.flatMap_singleton, List.length_append]
    rw [ledgerText]
    omega
  · rw [hserve]
    exact Nat.le_add_right _ _

/-- Calls extend a ledger by at most one line each. -/
theorem LedgerInv.length_serveAll_le (hinv : LedgerInv isPrintable records claims table)
    (calls : List Call) (hcommit : ∀ call ∈ calls, call.tasks.commit.length ≤ 40) :
    (TaskClaims.serveAll isPrintable calls (ledgerText records)).length ≤
      (ledgerText records).length + (maxRecordChars + 1) * calls.length := by
  induction calls generalizing records claims table with
  | nil => exact Nat.le_refl _
  | cons call calls ih =>
    rw [List.forall_mem_cons] at hcommit
    have hone := hinv.length_serve_le hcommit.1
    rw [TaskClaims.serveAll, List.length_cons, Nat.mul_succ]
    rcases hinv.serve call with ⟨decision, claims', table', -, -, hserve, hinv'⟩ | ⟨-, hserve⟩
    · have hrest := ih hinv' hcommit.2
      rw [hserve] at hone ⊢
      dsimp only at hone ⊢
      omega
    · have hrest := ih hinv hcommit.2
      rw [hserve]
      dsimp only
      omega

end Records

/-- **Capacity.** A ledger that the service has written from an empty file in fewer than 6553
calls has room for the record of the next one: the call is an atomic step of the lock table, or
a claim that cannot be granted as asked. A task index names a commit by forty characters. -/
theorem serve_of_few_calls (isPrintable : Char → Bool) (calls : List Call) (call : Call)
    (hcommit : ∀ other ∈ call :: calls, other.tasks.commit.length = 40)
    (hfew : calls.length < 6553) :
    let raw := serveAll isPrintable calls []
    let result := (serve isPrintable call raw).1
    let raw' := (serve isPrintable call raw).2
    AtomicStep isPrintable call (lockTable isPrintable raw) result (lockTable isPrintable raw') ∨
      NoGrant isPrintable call ∧ result = .error upstreamUnavailable ∧ raw' = raw := by
  obtain ⟨records, claims, table, hraw, hinv⟩ := reachable isPrintable calls
  have hnil : LedgerInv isPrintable [] ∅ LeaseTable.empty := .nil
  have hall := hnil.length_serveAll_le calls
    fun other hother => (hcommit other (List.mem_cons_of_mem _ hother)).le
  have hempty : ledgerText [] = [] := rfl
  rw [hempty, hraw, List.length_nil, maxRecordChars] at hall
  have hcall : call.tasks.commit.length ≤ 40 := (hcommit call List.mem_cons_self).le
  have hread := hinv.readLedger
  simp only [hraw]
  rcases hinv.decided call with
    ⟨decision, claims', table', hdecide, hdecided⟩ | ⟨hnone, e, hraise⟩
  · have hline := hinv.length_auditLine_le hcall hdecide hdecided.plain
    rw [maxRecordChars] at hline
    have hshort : (auditLine decision.record).length ≤ maxAuditRecordBytes := by
      rw [maxAuditRecordBytes]
      omega
    have hsize : (ledgerText records).length + (auditLine decision.record).length ≤
        maxTransactionBytes := by
      rw [maxTransactionBytes]
      omega
    have hinv' := hinv.append hdecided hshort hsize
    have htext : ledgerText records ++ auditLine decision.record =
        ledgerText (records ++ [decision.record]) := by
      rw [ledgerText, ledgerText, List.flatMap_append, List.flatMap_singleton]
    rw [serve_append hread hdecide hshort hsize, htext, hinv.lockTable_eq, hinv'.lockTable_eq]
    exact Or.inl hdecided.step
  · rw [serve_raise hread hraise]
    exact Or.inr ⟨hnone, rfl, rfl⟩

/-- The time of a first call is in the range of the calendar. -/
theorem firstCall_inRange : 63919123200000000 < maxMicros := by decide

/-- A call on an empty index of some commit. -/
def firstCall (request : Request) : Call where
  request := request
  now := ⟨63919123200000000, firstCall_inRange⟩
  newClaimId := "AAAAAAAAAAAAAAAAAAAAAAAA"
  tasks := ⟨fun _ => none, "0123456789abcdef0123456789abcdef01234567"⟩

/-- A ledger of one claim has room for a release. -/
theorem serve_of_few_calls_release :
    let claim := firstCall
      (.claim ⟨.str "handoff:a1", .int 120, .str "session-1", .str "github:alice"⟩)
    let release := firstCall
      (.release ⟨.str "handoff:a1", .str "AAAAAAAAAAAAAAAAAAAAAAAA", .str "github:alice"⟩)
    let raw := serveAll (fun c => c != ' ') [claim] []
    let result := (serve (fun c => c != ' ') release raw).1
    let raw' := (serve (fun c => c != ' ') release raw).2
    AtomicStep (fun c => c != ' ') release (lockTable (fun c => c != ' ') raw) result
        (lockTable (fun c => c != ' ') raw') ∨
      NoGrant (fun c => c != ' ') release ∧ result = .error upstreamUnavailable ∧ raw' = raw := by
  have hlength : "0123456789abcdef0123456789abcdef01234567".length = 40 := by decide
  refine serve_of_few_calls _ _ _ (fun other hother => ?_) (by decide)
  rcases List.mem_cons.mp hother with rfl | hother
  · exact hlength
  · obtain rfl := List.mem_singleton.mp hother
    exact hlength

end ContributorGateway.TaskClaims
