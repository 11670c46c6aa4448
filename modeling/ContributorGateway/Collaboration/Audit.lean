import ContributorGateway.Collaboration.Errors
import ContributorGateway.Foundation.JsonRoundTrip
import ContributorGateway.Foundation.TextLines
import Mathlib.Data.List.Induction

/-!
# The audit log

`AuditLog.transact` reads a log of JSON lines and appends one record under a lock.
The file is already open, locked and of a safe kind; what remains is the content,
the bounds and the outcomes of the writes. A log written from records reads back as
those records, each in canonical form.
-/

namespace ContributorGateway

/-- `MAX_TRANSACTION_BYTES`. -/
def maxTransactionBytes : ℕ := 64 * 1024 * 1024

/-- `MAX_AUDIT_RECORD_BYTES`. -/
def maxAuditRecordBytes : ℕ := 64 * 1024

/-- `AuditDecision`: one record and the value returned once it is durable. -/
structure AuditDecision (T : Type) where
  record : Json
  value : T

/-- The outcome of one `os.write`. -/
inductive WriteOutcome where
  /-- The call took this many bytes, at most all that were left. -/
  | wrote (count : ℕ)
  /-- The call raised an `OSError`. -/
  | osError

/-- The outcomes of the writes and of the final `os.fsync`. A write beyond the
listed ones takes everything. -/
structure AppendIo where
  writes : List WriteOutcome
  fsyncFails : Bool

/-- Every write takes everything and reaches the disk. -/
def AppendIo.reliable : AppendIo := ⟨[], false⟩

/-- The write loop: the bytes that reached the file, and whether all did. -/
def writeAll : List UInt8 → List WriteOutcome → List UInt8 × Bool
  | [], _ => ([], true)
  | view, [] => (view, true)
  | _ :: _, .osError :: _ => ([], false)
  | b :: view, .wrote count :: rest =>
      if count = 0 then ([], false)
      else
        let written := writeAll ((b :: view).drop count) rest
        ((b :: view).take count ++ written.1, written.2)

/-- The message when the write loop or `os.fsync` ends early: a write that takes nothing has
its own. -/
def writeFailure (osError : String) : List UInt8 → List WriteOutcome → String
  | [], _ => osError
  | _, [] => osError
  | _ :: _, .osError :: _ => osError
  | b :: view, .wrote count :: rest =>
      if count = 0 then "audit append did not complete"
      else writeFailure osError ((b :: view).drop count) rest

/-- One line of the log. -/
def auditLine (record : Json) : List UInt8 :=
  utf8Encode (Json.dumps record) ++ [10]

/-- `AuditLog.append`: the bytes that reached the file, and whether all did and are on
the disk. Without outcomes the file could not be opened safely. -/
def append (io : Option AppendIo) (record : Json) : Except Raised Unit × List UInt8 :=
  match io with
  | none => (.error (.auditUnavailable "audit log cannot be opened safely"), [])
  | some io =>
      let written := writeAll (auditLine record) io.writes
      if written.2 ∧ ¬ io.fsyncFails then (.ok (), written.1)
      else (.error (.auditUnavailable "audit append did not complete"), written.1)

/-- `json.loads` of a line in UTF-8, in which the log is written. -/
def loadsLine (line : List UInt8) : Option Json := (utf8Decode line).bind Json.loads

/-- Parse the lines of the log. The reader of a line, `json.loads` of bytes in whatever encoding, is
a parameter: it gives nothing where an exception is caught. -/
def parseRecords (readLine : List UInt8 → Option Json) :
    List (List UInt8) → Except Raised (List Json)
  | [] => .ok []
  | line :: rest =>
      if maxAuditRecordBytes < line.length then
        .error (.auditUnavailable "audit record exceeds its safe bound")
      else
        match readLine line with
        | none => .error (.auditUnavailable "audit ledger is malformed")
        | some (.obj members) => (parseRecords readLine rest).map (.obj members :: ·)
        | some _ => .error (.auditUnavailable "audit ledger record must be an object")

/-- The reading half of `transact`: the records of a log, or why it is refused. -/
def readLedger (readLine : List UInt8 → Option Json) (raw : List UInt8) :
    Except Raised (List Json) :=
  if maxTransactionBytes < raw.length then
    .error (.auditUnavailable "audit ledger exceeds its safe bound")
  else if raw ≠ [] ∧ raw.getLast? ≠ some 10 then
    .error (.auditUnavailable "audit ledger contains a partial record")
  else parseRecords readLine (splitLines raw)

/-- `AuditLog.transact`: the value or the exception, and the content of the file
afterwards. -/
def transact {T : Type} (readLine : List UInt8 → Option Json) (io : AppendIo)
    (decide : List Json → Except Raised (AuditDecision T)) (raw : List UInt8) :
    Except Raised T × List UInt8 :=
  match readLedger readLine raw with
  | .error e => (.error e, raw)
  | .ok records =>
      match decide records with
      | .error e => (.error e, raw)
      | .ok decision =>
          let payload := auditLine decision.record
          if maxAuditRecordBytes < payload.length then
            (.error (.auditUnavailable "audit record exceeds its safe bound"), raw)
          else if maxTransactionBytes < raw.length + payload.length then
            (.error (.auditUnavailable "audit ledger exceeds its safe bound"), raw)
          else
            let written := writeAll payload io.writes
            if written.2 ∧ ¬ io.fsyncFails then (.ok decision.value, raw ++ written.1)
            else
              (.error (.auditUnavailable
                (writeFailure "audit transaction did not complete" payload io.writes)),
                raw ++ written.1)

/-- A record that a reader accepts back: a plain object on a line within the bound. -/
structure Recordable (record : Json) : Prop where
  plain : Json.Plain record
  isObject : ∃ members, record = .obj members
  short : (auditLine record).length ≤ maxAuditRecordBytes

/-- The lines of records. -/
def ledgerText (records : List Json) : List UInt8 := records.flatMap auditLine

/-- A serialized record contains no line break. -/
theorem no_line_break {record : Json} (hplain : Json.Plain record) :
    ∀ b ∈ utf8Encode (Json.dumps record), b ≠ 10 ∧ b ≠ 13 := by
  have hascii := Json.printable_dumps hplain
  rw [utf8Encode_ascii fun c hc => (hascii c hc).2.trans (by decide)]
  intro b hb
  obtain ⟨c, hc, rfl⟩ := List.mem_map.mp hb
  obtain ⟨hlow, hhigh⟩ := hascii c hc
  have hval : c.toNat.toUInt8.toNat = c.toNat := by
    simp only [Nat.toUInt8, UInt8.toNat_ofNat']
    omega
  constructor <;>
  · intro heq
    rw [heq] at hval
    have : (10 : UInt8).toNat = 10 ∧ (13 : UInt8).toNat = 13 := ⟨rfl, rfl⟩
    omega

/-- Written records are parsed back in canonical form. -/
theorem parseRecords_dumps {records : List Json} (hrecords : ∀ r ∈ records, Recordable r) :
    parseRecords loadsLine (records.map fun r => utf8Encode (Json.dumps r)) =
      .ok (records.map Json.canonical) := by
  induction records with
  | nil => rfl
  | cons r records ih =>
    obtain ⟨hplain, ⟨members, hr⟩, hshort⟩ := hrecords r (by simp)
    have hline : ¬ maxAuditRecordBytes < (utf8Encode (Json.dumps r)).length := by
      rw [auditLine, List.length_append] at hshort
      omega
    have hloads : loadsLine (utf8Encode (Json.dumps r)) = some r.canonical := by
      rw [loadsLine, utf8Decode_utf8Encode, Option.bind_some, Json.loads_dumps hplain]
    rw [List.map_cons, parseRecords, if_neg hline, hloads, hr, Json.canonical,
      ih fun r' hr' => hrecords r' (by simp [hr'])]
    simp [Except.map, Json.canonical]

/-- A log written from records reads back as those records. -/
theorem readLedger_ledgerText {records : List Json} (hrecords : ∀ r ∈ records, Recordable r)
    (hsize : (ledgerText records).length ≤ maxTransactionBytes) :
    readLedger loadsLine (ledgerText records) = .ok (records.map Json.canonical) := by
  have hlast : ledgerText records = [] ∨ (ledgerText records).getLast? = some 10 := by
    cases records using List.reverseRecOn with
    | nil => exact Or.inl rfl
    | append_singleton records r =>
      right
      simp [ledgerText, auditLine]
  have hlines : splitLines (ledgerText records) =
      records.map fun r => utf8Encode (Json.dumps r) := by
    have hsplit := splitLines_flatMap (records.map fun r => utf8Encode (Json.dumps r))
      (by
        intro line hline
        obtain ⟨r, hr, rfl⟩ := List.mem_map.mp hline
        exact no_line_break (hrecords r hr).plain)
    rwa [List.flatMap_map] at hsplit
  rw [readLedger, if_neg (by omega), if_neg (by
    rintro ⟨hne, hpartial⟩
    exact hlast.elim hne hpartial), hlines, parseRecords_dumps hrecords]

end ContributorGateway
