import ContributorGateway.Core.TaskClaims
import ContributorGateway.Foundation.LeaseTable

/-!
# The ledger as a history of leases

Every record of the claim ledger stands for a lease event, and folding the records
computes the lease table of their history. Timestamps are stored as text in whole
seconds; a lease stores the truncated instants that the text denotes.
-/

namespace ContributorGateway.TaskClaims

/-- The lease of a task. -/
abbrev TaskLease := Lease String String String Instant

/-- The lease table over task ids. -/
abbrev TaskTable := LeaseTable String String String String Instant

/-- The events of a claim ledger. -/
abbrev TaskEvent := LeaseEvent String String String String Instant

/-- The claim that the service keeps for a lease. -/
def toActive (task : String) (lease : TaskLease) : ActiveClaim :=
  ⟨task, lease.id, lease.owner, lease.key, timestamp lease.start, timestamp lease.expires⟩

/-- The lease behind a claim of the service. -/
def ofActive (claim : ActiveClaim) : Option TaskLease :=
  match parseTimestamp (some (.str claim.claimedAt)),
    parseTimestamp (some (.str claim.expiresAt)) with
  | .ok start, .ok expires => some ⟨claim.owner, claim.claimId, claim.idempotencyKey, start, expires⟩
  | _, _ => none

/-- The event that a record of the ledger stands for. -/
def eventOf (record : Json) : TaskEvent :=
  if fieldStr "tool" record = some "claim_task" ∧ fieldStr "outcome" record = some "claimed" then
    match argStr "task_id" record, argStr "idempotency_key" record,
      fieldStr "caller_identity" record, fieldStr "claim_id" record,
      parseTimestamp (record.get "claimed_at"), parseTimestamp (record.get "expires_at") with
    | some task, some key, some owner, some id, .ok start, .ok expires =>
        .granted task ⟨owner, id, key, start, expires⟩
    | _, _, _, _, _, _ => .other
  else if fieldStr "tool" record = some "release_task" ∧
      fieldStr "outcome" record = some "released" then
    match argStr "task_id" record, argStr "claim_id" record,
      fieldStr "caller_identity" record with
    | some task, some id, some owner => .released task id owner
    | _, _, _ => .other
  else .other

/-- The lock table that the content of a ledger file denotes: every claim that the
fold of `_ledger_claims` holds before expired claims are filtered out. -/
def lockTable (isPrintable : Char → Bool) (raw : List UInt8) : TaskTable :=
  match readLedger loadsLine raw >>= foldLedger isPrintable with
  | .ok claims => fun task => (claims.lookup task).bind ofActive
  | .error _ => LeaseTable.empty

/-- The leases whose record every later fold accepts. -/
structure LeaseOk (isPrintable : Char → Bool) (task : String) (lease : TaskLease) : Prop where
  task_ok : isTaskId task = true
  key_ok : isIdempotencyKey lease.key = true
  owner_ok : isOwner isPrintable lease.owner = true
  id_ok : isClaimId lease.id = true
  start_truncated : lease.start.truncate = lease.start
  expires_truncated : lease.expires.truncate = lease.expires
  start_lt : lease.start < lease.expires
  bounded : lease.expires.micros ≤ lease.start.micros + maxClaimMinutes.toNat * 60000000

/-- The claims of the fold are the leases of the table. -/
structure Represents (isPrintable : Char → Bool) (claims : Claims) (table : TaskTable) :
    Prop where
  lookup_eq : ∀ task, claims.lookup task = (table task).map (toActive task)
  lease_ok : ∀ task lease, table task = some lease → LeaseOk isPrintable task lease

variable {isPrintable : Char → Bool}

/-! ## Timestamps -/

/-- A timestamp only shows the truncated instant. -/
@[simp] theorem timestamp_truncate (t : Instant) : timestamp t.truncate = timestamp t := by
  have hseconds : t.truncate.micros / 1000000 = t.micros / 1000000 := by
    simp [Instant.truncate]
  simp [timestamp, isoformat, isoformatNaive, Instant.date, hseconds]

/-- A written timestamp is read back as the truncated instant. -/
theorem parseTimestamp_timestamp (t : Instant) :
    parseTimestamp (some (.str (timestamp t))) = .ok t.truncate := by
  have hseconds : ((t.micros / 1000000 : ℕ) : ℤ) - 0 * 60 = ((t.micros / 1000000 : ℕ) : ℤ) := by
    omega
  have hrange : t.micros / 1000000 * 1000000 < maxMicros := t.truncate.inRange
  have hcond : (0 : ℤ) ≤ ((t.micros / 1000000 : ℕ) : ℤ) ∧
      ((t.micros / 1000000 : ℕ) : ℤ).toNat * 1000000 < maxMicros := by
    rw [Int.toNat_natCast]
    exact ⟨Int.natCast_nonneg _, hrange⟩
  simp only [parseTimestamp, timestamp_length, replaceAll_timestamp, fromisoformat_isoformat,
    hseconds]
  rw [if_neg (by decide), dif_pos hcond]
  simp only [Int.toNat_natCast, Instant.truncate]

/-- The claim kept for an acceptable lease denotes the lease. -/
theorem ofActive_toActive {task : String} {lease : TaskLease}
    (hok : LeaseOk isPrintable task lease) : ofActive (toActive task lease) = some lease := by
  simp only [ofActive, toActive, parseTimestamp_timestamp, hok.start_truncated,
    hok.expires_truncated]

/-! ## Folding -/

/-- The file denotes the table that represents its fold. -/
theorem lockTable_eq {raw : List UInt8} {records : List Json} {claims : Claims}
    {table : TaskTable} (hread : readLedger loadsLine raw = .ok records)
    (hfold : foldLedger isPrintable records = .ok claims)
    (hrep : Represents isPrintable claims table) : lockTable isPrintable raw = table := by
  have hbind : (readLedger loadsLine raw >>= foldLedger isPrintable) = .ok claims := by
    simp only [hread, bind, Except.bind, hfold]
  funext task
  simp only [lockTable, hbind, hrep.lookup_eq]
  cases htask : table task with
  | none => rfl
  | some lease =>
    rw [Option.map_some, Option.bind_some]
    exact ofActive_toActive (hrep.lease_ok task lease htask)

/-- The claim has not expired, as far as its recorded expiry can be read. -/
def isUnexpired (now : Instant) (claim : ActiveClaim) : Bool :=
  match parseTimestamp (some (.str claim.expiresAt)) with
  | .ok expiry => now < expiry
  | .error _ => false

/-- The comprehension filters the entries when every expiry can be read. -/
theorem unexpired_eq_filter {now : Instant}
    {entries : List (Sigma fun _ : String => ActiveClaim)}
    (hexpiry : ∀ entry ∈ entries,
      ∃ expiry, parseTimestamp (some (.str entry.2.expiresAt)) = .ok expiry) :
    unexpired now entries = .ok (entries.filter fun entry => isUnexpired now entry.2) := by
  induction entries with
  | nil => rfl
  | cons entry entries ih =>
    obtain ⟨expiry, hentry⟩ := hexpiry entry (by simp)
    have hrest := ih fun e he => hexpiry e (by simp [he])
    simp only [unexpired, hentry, hrest, bind, Except.bind, pure, Except.pure]
    by_cases h : now < expiry
    · simp [h, isUnexpired, hentry]
    · simp [h, isUnexpired, hentry]

/-- Looking up in filtered entries filters what is found. -/
theorem dlookup_filter {p : ActiveClaim → Bool}
    {entries : List (Sigma fun _ : String => ActiveClaim)} (hnodup : entries.NodupKeys)
    (task : String) :
    (entries.filter fun entry => p entry.2).dlookup task = (entries.dlookup task).filter p := by
  induction entries with
  | nil => rfl
  | cons entry entries ih =>
    obtain ⟨k, v⟩ := entry
    rw [List.nodupKeys_cons] at hnodup
    have htail := ih hnodup.2
    by_cases hk : task = k
    · subst hk
      rw [List.dlookup_cons_eq]
      have hnone : entries.dlookup task = none := List.dlookup_eq_none.mpr hnodup.1
      by_cases hp : p v = true
      · simp [hp, Option.filter]
      · simp [hp, htail, hnone, Option.filter]
    · have hskip (es : List (Sigma fun _ : String => ActiveClaim)) :
          List.dlookup task (⟨k, v⟩ :: es) = es.dlookup task :=
        List.dlookup_cons_ne es ⟨k, v⟩ hk
      rw [hskip]
      by_cases hp : p v = true
      · rw [List.filter_cons_of_pos (by exact hp), hskip, htail]
      · rw [List.filter_cons_of_neg (by exact hp), htail]

/-- For any clock, `_ledger_claims` succeeds on represented records, and finds the
active leases. -/
theorem ledgerClaims_spec {records : List Json} {claims : Claims} {table : TaskTable}
    (hfold : foldLedger isPrintable records = .ok claims)
    (hrep : Represents isPrintable claims table) (now : Instant) :
    ∃ kept, ledgerClaims isPrintable records now = .ok kept ∧
      ∀ task, kept.dlookup task = (table.active task now).map (toActive task) := by
  have hread : ∀ task lease, table task = some lease →
      parseTimestamp (some (.str (toActive task lease).expiresAt)) = .ok lease.expires := by
    intro task lease hlease
    have hok := hrep.lease_ok task lease hlease
    rw [toActive, parseTimestamp_timestamp, hok.expires_truncated]
  have hentry : ∀ entry ∈ claims.entries,
      ∃ expiry, parseTimestamp (some (.str entry.2.expiresAt)) = .ok expiry := by
    intro entry hentry
    have hlookup : claims.lookup entry.1 = some entry.2 := AList.mem_lookup_iff.mpr hentry
    rw [hrep.lookup_eq] at hlookup
    obtain ⟨lease, hlease, heq⟩ := Option.map_eq_some_iff.mp hlookup
    exact ⟨lease.expires, heq ▸ hread entry.1 lease hlease⟩
  refine ⟨claims.entries.filter fun entry => isUnexpired now entry.2, ?_, fun task => ?_⟩
  · simp only [ledgerClaims, hfold, bind, Except.bind, unexpired_eq_filter hentry]
  · have hlookup : claims.entries.dlookup task = (table task).map (toActive task) :=
      hrep.lookup_eq task
    rw [dlookup_filter claims.nodupKeys, hlookup, LeaseTable.active]
    cases hlease : table task with
    | none => rfl
    | some lease =>
      have hunexpired : isUnexpired now (toActive task lease) = decide (now < lease.expires) := by
        simp only [isUnexpired, hread task lease hlease]
      simp only [Option.map_some, Option.filter_some, hunexpired]
      by_cases h : now < lease.expires
      · simp [h]
      · simp [h]

/-! ## Records read back -/

section ReadBack

variable {record : Json}

/-- Reading a record back keeps its string fields. -/
theorem fieldStr_canonical (hplain : Json.Plain record) (key : String) :
    fieldStr key record.canonical = fieldStr key record := by
  rw [fieldStr, fieldStr, Json.get_canonical hplain]
  cases record.get key <;> simp

/-- Reading a record back keeps the string fields of its arguments. -/
theorem argStr_canonical (hplain : Json.Plain record) (key : String) :
    argStr key record.canonical = argStr key record := by
  rw [argStr, argStr, Json.get_canonical hplain]
  cases hargs : record.get "args" with
  | none => rfl
  | some args =>
    rw [Option.map_some, Option.bind_some, Option.bind_some,
      Json.get_canonical (hplain.of_get hargs)]
    cases args.get key <;> simp

/-- Reading a record back keeps its timestamps. -/
theorem parseTimestamp_canonical (hplain : Json.Plain record) (key : String) :
    parseTimestamp (record.canonical.get key) = parseTimestamp (record.get key) := by
  rw [Json.get_canonical hplain]
  cases record.get key with
  | none => rfl
  | some v => cases v <;> rfl

/-- Reading a record back keeps its schema version. -/
theorem isSchemaVersion_canonical (hplain : Json.Plain record) (key : String) :
    isSchemaVersion (record.canonical.get key) = isSchemaVersion (record.get key) := by
  rw [Json.get_canonical hplain]
  cases record.get key with
  | none => rfl
  | some v => cases v <;> rfl

/-- A record that was read back is folded as the record that was written. -/
theorem ledgerStep_canonical (hplain : Json.Plain record) (claims : Claims) :
    ledgerStep isPrintable claims record.canonical = ledgerStep isPrintable claims record := by
  simp only [ledgerStep, claimedStep, releasedStep, fieldStr_canonical hplain,
    argStr_canonical hplain, parseTimestamp_canonical hplain, isSchemaVersion_canonical hplain]
  rw [Json.get_canonical hplain]
  cases record.get "tool" with
  | none => rfl
  | some v => cases v <;> rfl

/-- A record that was read back stands for the same event. -/
theorem eventOf_canonical (hplain : Json.Plain record) :
    eventOf record.canonical = eventOf record := by
  simp only [eventOf, fieldStr_canonical hplain, argStr_canonical hplain,
    parseTimestamp_canonical hplain]

end ReadBack

/-! ## Representation -/

/-- The empty dictionary represents the empty table. -/
theorem Represents.empty : Represents isPrintable ∅ LeaseTable.empty where
  lookup_eq task := by simp [LeaseTable.empty]
  lease_ok task lease h := by cases h

/-- Storing a claim grants its lease. -/
theorem Represents.insert {claims : Claims} {table : TaskTable} {task : String}
    {lease : TaskLease} (hrep : Represents isPrintable claims table)
    (hok : LeaseOk isPrintable task lease) :
    Represents isPrintable (claims.insert task (toActive task lease))
      (table.grant task lease) where
  lookup_eq task' := by
    by_cases h : task' = task
    · subst h
      simp
    · rw [AList.lookup_insert_ne h, LeaseTable.grant_of_ne _ _ h, hrep.lookup_eq]
  lease_ok task' lease' h' := by
    by_cases h : task' = task
    · subst h
      rw [LeaseTable.grant_self, Option.some.injEq] at h'
      exact h' ▸ hok
    · rw [LeaseTable.grant_of_ne _ _ h] at h'
      exact hrep.lease_ok task' lease' h'

/-- Dropping a claim releases its lease. -/
theorem Represents.erase {claims : Claims} {table : TaskTable}
    (hrep : Represents isPrintable claims table) (task : String) :
    Represents isPrintable (claims.erase task) (table.release task) where
  lookup_eq task' := by
    by_cases h : task' = task
    · subst h
      simp
    · rw [AList.lookup_erase_ne h, LeaseTable.release_of_ne _ h, hrep.lookup_eq]
  lease_ok task' lease' h' := by
    by_cases h : task' = task
    · subst h
      rw [LeaseTable.release_self] at h'
      cases h'
    · rw [LeaseTable.release_of_ne _ h] at h'
      exact hrep.lease_ok task' lease' h'

/-! ## Records of the tools -/

section Records

variable {now : Instant} {tasks : Tasks} {outcome : String}

/-- The records of `claim_task` are plain. -/
theorem plain_claimRecord (args : ClaimArgs) (l : ClaimLocals) :
    Json.Plain (claimRecord now tasks args l outcome) := by
  have hstr (o : Option String) : Json.Plain (optStr o) := by cases o <;> trivial
  have hint : Json.Plain (l.validDuration.elim .null .int) := by
    cases l.validDuration <;> trivial
  simp [claimRecord, Json.Plain, Json.PlainMembers, hstr, hint]

/-- The records of `release_task` are plain. -/
theorem plain_releaseRecord (args : ReleaseArgs) (l : ReleaseLocals) :
    Json.Plain (releaseRecord now tasks args l outcome) := by
  have hstr (o : Option String) : Json.Plain (optStr o) := by cases o <;> trivial
  simp [releaseRecord, Json.Plain, Json.PlainMembers, hstr]

/-- A call of `claim_task` that grants nothing leaves no trace in the fold. -/
theorem claimRecord_other {args : ClaimArgs} {l : ClaimLocals} (h : outcome ≠ "claimed")
    (claims : Claims) :
    ledgerStep isPrintable claims (claimRecord now tasks args l outcome) = .ok claims ∧
      eventOf (claimRecord now tasks args l outcome) = .other := by
  constructor
  · simp [ledgerStep, claimRecord, Json.get, List.lookup_cons, isSchemaVersion, fieldStr, Json.asStr, h]
  · simp [eventOf, claimRecord, Json.get, List.lookup_cons, fieldStr, Json.asStr, h]

/-- The record of a grant stores the lease, and every later fold accepts it. -/
theorem claimRecord_claimed (now : Instant) (tasks : Tasks) (args : ClaimArgs) (l : ClaimLocals)
    {task : String} {lease : TaskLease} (howner : l.validOwner = some lease.owner)
    (htask : l.validTaskId = some task) (hkey : l.validKey = some lease.key)
    (hid : l.claimId = some lease.id) (hstart : l.claimedAt = some (timestamp lease.start))
    (hexpires : l.expiresAt = some (timestamp lease.expires))
    (hok : LeaseOk isPrintable task lease) (claims : Claims) :
    ledgerStep isPrintable claims (claimRecord now tasks args l "claimed") =
        .ok (claims.insert task (toActive task lease)) ∧
      eventOf (claimRecord now tasks args l "claimed") = .granted task lease := by
  let record := claimRecord now tasks args l "claimed"
  have hfields : argStr "task_id" record = some task ∧
      argStr "idempotency_key" record = some lease.key ∧
      fieldStr "caller_identity" record = some lease.owner ∧
      fieldStr "claim_id" record = some lease.id ∧
      fieldStr "claimed_at" record = some (timestamp lease.start) ∧
      fieldStr "expires_at" record = some (timestamp lease.expires) := by
    simp [record, claimRecord, argStr, fieldStr, Json.get, List.lookup_cons, Json.asStr, optStr,
      howner, htask, hkey, hid, hstart, hexpires]
  have htimes : parseTimestamp (record.get "claimed_at") = .ok lease.start ∧
      parseTimestamp (record.get "expires_at") = .ok lease.expires := by
    have hgetStart : record.get "claimed_at" = some (.str (timestamp lease.start)) := by
      simp [record, claimRecord, Json.get, List.lookup_cons, optStr, hstart]
    have hgetExpires : record.get "expires_at" = some (.str (timestamp lease.expires)) := by
      simp [record, claimRecord, Json.get, List.lookup_cons, optStr, hexpires]
    rw [hgetStart, hgetExpires, parseTimestamp_timestamp, parseTimestamp_timestamp,
      hok.start_truncated, hok.expires_truncated]
    exact ⟨rfl, rfl⟩
  have hkind : record.get "tool" = some (.str "claim_task") ∧
      fieldStr "tool" record = some "claim_task" ∧
      fieldStr "outcome" record = some "claimed" ∧
      isSchemaVersion (record.get "schema_version") = true := by
    simp [record, claimRecord, fieldStr, Json.get, List.lookup_cons, Json.asStr, isSchemaVersion]
  obtain ⟨hargTask, hargKey, hfieldOwner, hfieldId, hfieldStart, hfieldExpires⟩ := hfields
  obtain ⟨htool, hfieldTool, hfieldOutcome, hversion⟩ := hkind
  have hspan : ¬ (lease.expires ≤ lease.start ∨
      maxClaimMinutes.toNat * 60000000 < lease.expires.micros - lease.start.micros) := by
    have hlt := hok.start_lt
    have hbounded := hok.bounded
    rw [not_or, not_le]
    exact ⟨hlt, by omega⟩
  have hvalid : (isTaskId task && isIdempotencyKey lease.key && isOwner isPrintable lease.owner &&
      isClaimId lease.id) = true := by
    rw [hok.task_ok, hok.key_ok, hok.owner_ok, hok.id_ok]
    rfl
  constructor
  · change ledgerStep isPrintable claims record = _
    simp only [ledgerStep, htool, hfieldOutcome, hversion, claimedStep, hargTask, hargKey,
      hfieldOwner, hfieldId, hfieldStart, hfieldExpires, hvalid, htimes.1, htimes.2, bind,
      Except.bind, if_neg hspan, true_or, and_self, if_true, toActive]
  · change eventOf record = _
    simp only [eventOf, hfieldTool, hfieldOutcome, hargTask, hargKey, hfieldOwner, hfieldId,
      htimes.1, htimes.2, and_self, if_true]

/-- A call of `release_task` that releases nothing leaves no trace in the fold. -/
theorem releaseRecord_other {args : ReleaseArgs} {l : ReleaseLocals} (h : outcome ≠ "released")
    (claims : Claims) :
    ledgerStep isPrintable claims (releaseRecord now tasks args l outcome) = .ok claims ∧
      eventOf (releaseRecord now tasks args l outcome) = .other := by
  constructor
  · simp [ledgerStep, releaseRecord, Json.get, List.lookup_cons, isSchemaVersion, fieldStr, Json.asStr,
      h]
  · simp [eventOf, releaseRecord, Json.get, List.lookup_cons, fieldStr, Json.asStr, h]

/-- The record of a release drops the claim that it names. -/
theorem releaseRecord_released (now : Instant) (tasks : Tasks) (args : ReleaseArgs)
    (l : ReleaseLocals) {task : String} (lease : TaskLease)
    (howner : l.validOwner = some lease.owner)
    (htask : l.validTaskId = some task) (hid : l.validClaimId = some lease.id)
    (hok : LeaseOk isPrintable task lease) {claims : Claims}
    (hheld : claims.lookup task = some (toActive task lease)) :
    ledgerStep isPrintable claims (releaseRecord now tasks args l "released") =
        .ok (claims.erase task) ∧
      eventOf (releaseRecord now tasks args l "released") =
        .released task lease.id lease.owner := by
  let record := releaseRecord now tasks args l "released"
  have hfields : argStr "task_id" record = some task ∧
      argStr "claim_id" record = some lease.id ∧
      fieldStr "caller_identity" record = some lease.owner := by
    simp [record, releaseRecord, argStr, fieldStr, Json.get, List.lookup_cons, Json.asStr, optStr,
      howner, htask, hid]
  have hkind : record.get "tool" = some (.str "release_task") ∧
      fieldStr "tool" record = some "release_task" ∧
      fieldStr "outcome" record = some "released" ∧
      isSchemaVersion (record.get "schema_version") = true := by
    simp [record, releaseRecord, fieldStr, Json.get, List.lookup_cons, Json.asStr, isSchemaVersion]
  obtain ⟨hargTask, hargId, hfieldOwner⟩ := hfields
  obtain ⟨htool, hfieldTool, hfieldOutcome, hversion⟩ := hkind
  have hvalid : (isTaskId task && isClaimId lease.id && isOwner isPrintable lease.owner) =
      true := by
    rw [hok.task_ok, hok.id_ok, hok.owner_ok]
    rfl
  have hnot : ¬ ("release_task" = "claim_task") := by decide
  constructor
  · change ledgerStep isPrintable claims record = _
    simp only [ledgerStep, htool, hfieldOutcome, hversion, releasedStep, hargTask, hargId,
      hfieldOwner, hvalid, hheld, toActive, hnot, or_true, false_and, and_self, if_true, if_false]
  · change eventOf record = _
    simp [eventOf, hfieldTool, hfieldOutcome, hargTask, hargId, hfieldOwner]

end Records

end ContributorGateway.TaskClaims
