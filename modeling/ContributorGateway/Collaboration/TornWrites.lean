import ContributorGateway.Collaboration.Audit

/-!
# Torn writes

A write loop can stop after any part of a record, and nothing takes that part back. This file
says when a transaction is all or nothing, and when appended records can be found again.
-/

namespace ContributorGateway

/-! ## The write loop -/

/-- The outcomes of the writes take a text of this length to its end. -/
def completes : ℕ → List WriteOutcome → Bool
  | 0, _ => true
  | _ + 1, [] => true
  | _ + 1, .osError :: _ => false
  | n + 1, .wrote count :: rest => count ≠ 0 && completes (n + 1 - count) rest

/-- The first write fails or takes nothing. -/
def takesNothing : List WriteOutcome → Bool
  | .osError :: _ => true
  | .wrote count :: _ => count = 0
  | [] => false

/-- The loop ends normally exactly when the writes take the whole text. -/
theorem writeAll_snd (view : List UInt8) (writes : List WriteOutcome) :
    (writeAll view writes).2 = completes view.length writes := by
  induction view, writes using writeAll.induct with
  | case1 => simp [writeAll, completes]
  | case2 view hview =>
    cases view with
    | nil => simp [writeAll, completes]
    | cons b view => simp [writeAll, completes]
  | case3 => simp [writeAll, completes]
  | case4 b view rest => simp [writeAll, completes]
  | case5 b view count rest hcount ih =>
    rw [List.length_drop, List.length_cons] at ih
    simp [writeAll, completes, hcount, ih]

/-- A loop that ends normally has written the whole text. -/
theorem writeAll_fst_of_completes {view : List UInt8} {writes : List WriteOutcome}
    (h : completes view.length writes = true) : (writeAll view writes).1 = view := by
  induction view, writes using writeAll.induct with
  | case1 => simp [writeAll]
  | case2 view hview =>
    cases view with
    | nil => simp [writeAll]
    | cons b view => simp [writeAll]
  | case3 => simp [completes] at h
  | case4 b view rest => simp [completes] at h
  | case5 b view count rest hcount ih =>
    have hrest : completes ((b :: view).drop count).length rest = true := by
      rw [List.length_drop, List.length_cons]
      simpa [completes, hcount] using h
    simp only [writeAll, hcount, if_false]
    rw [ih hrest, List.take_append_drop]

/-- Nothing is written of a text exactly when it is empty or the first write takes nothing. -/
theorem writeAll_fst_eq_nil {view : List UInt8} {writes : List WriteOutcome} :
    (writeAll view writes).1 = [] ↔ view = [] ∨ takesNothing writes = true := by
  cases view with
  | nil => simp [writeAll]
  | cons b view =>
    cases writes with
    | nil => simp [writeAll, takesNothing]
    | cons outcome rest =>
      cases outcome with
      | osError => simp [writeAll, takesNothing]
      | wrote count =>
        by_cases hcount : count = 0
        · simp [writeAll, takesNothing, hcount]
        · simp [writeAll, takesNothing, hcount]

/-- A line of the log is not empty. -/
theorem auditLine_ne_nil (record : Json) : auditLine record ≠ [] := by
  simp [auditLine]

/-! ## Transactions -/

section Transactions

variable {T : Type} (readLine : List UInt8 → Option Json) (io : AppendIo)
  (decide : List Json → Except Raised (AuditDecision T)) (raw : List UInt8)

/-- A transaction that raises leaves the file as it was, and one that returns has added one
complete line. -/
def AllOrNothing : Prop :=
  match transact readLine io decide raw with
  | (.error _, content) => content = raw
  | (.ok value, content) =>
      ∃ records decision, readLedger readLine raw = .ok records ∧ decide records = .ok decision ∧
        value = decision.value ∧ content = raw ++ auditLine decision.record

/-- Whenever a record is to be written, either the first write takes nothing, or the writes
take the whole line and it reaches the disk. -/
def Uncut : Prop :=
  ∀ records decision, readLedger readLine raw = .ok records → decide records = .ok decision →
    (auditLine decision.record).length ≤ maxAuditRecordBytes →
    raw.length + (auditLine decision.record).length ≤ maxTransactionBytes →
    takesNothing io.writes = true ∨
      completes (auditLine decision.record).length io.writes = true ∧ io.fsyncFails = false

variable {readLine io decide raw}

/-- What is left of a transaction once its record is to be written. -/
theorem transact_of_decided {records : List Json} {decision : AuditDecision T}
    (hrecords : readLedger readLine raw = .ok records) (hdecision : decide records = .ok decision)
    (hrecord : (auditLine decision.record).length ≤ maxAuditRecordBytes)
    (htotal : raw.length + (auditLine decision.record).length ≤ maxTransactionBytes) :
    transact readLine io decide raw =
      if completes (auditLine decision.record).length io.writes = true ∧ io.fsyncFails = false then
        (.ok decision.value, raw ++ auditLine decision.record)
      else
        (.error (.auditUnavailable (writeFailure "audit transaction did not complete"
          (auditLine decision.record) io.writes)),
          raw ++ (writeAll (auditLine decision.record) io.writes).1) := by
  simp only [transact, hrecords, hdecision, if_neg (not_lt.mpr hrecord),
    if_neg (not_lt.mpr htotal), writeAll_snd, Bool.not_eq_true]
  split_ifs with hdone
  · rw [writeAll_fst_of_completes hdone.1]
  · rfl

/-- A transaction is all or nothing exactly when its record is not cut. -/
theorem transact_allOrNothing_iff (readLine : List UInt8 → Option Json) (io : AppendIo)
    (decide : List Json → Except Raised (AuditDecision T)) (raw : List UInt8) :
    AllOrNothing readLine io decide raw ↔ Uncut readLine io decide raw := by
  constructor
  · intro h records decision hrecords hdecision hrecord htotal
    rw [AllOrNothing, transact_of_decided hrecords hdecision hrecord htotal] at h
    split_ifs at h with hdone
    · exact .inr hdone
    · have hnone := List.append_right_eq_self.mp h
      exact .inl ((writeAll_fst_eq_nil.mp hnone).resolve_left (auditLine_ne_nil _))
  · intro h
    unfold AllOrNothing
    cases hrecords : readLedger readLine raw with
    | error e => simp [transact, hrecords]
    | ok records =>
      cases hdecision : decide records with
      | error e => simp [transact, hrecords, hdecision]
      | ok decision =>
        by_cases hrecord : (auditLine decision.record).length ≤ maxAuditRecordBytes
        · by_cases htotal : raw.length + (auditLine decision.record).length ≤ maxTransactionBytes
          · rw [transact_of_decided hrecords hdecision hrecord htotal]
            split_ifs with hdone
            · exact ⟨records, decision, rfl, hdecision, rfl, rfl⟩
            · have hnone := (h records decision hrecords hdecision hrecord htotal).resolve_right
                hdone
              exact List.append_right_eq_self.mpr (writeAll_fst_eq_nil.mpr (.inr hnone))
          · simp [transact, hrecords, hdecision, not_le.mp htotal, not_lt.mpr hrecord]
        · simp [transact, hrecords, hdecision, not_le.mp hrecord]

end Transactions

/-- The writes that stop after the first byte. -/
def stopsAfterOne : AppendIo := ⟨[.wrote 1, .osError], false⟩

/-- A transaction whose second write fails leaves the first byte of its record, and the log
cannot be read any more. -/
theorem cut_transaction :
    readLedger loadsLine [] = .ok [] ∧
      ¬ AllOrNothing loadsLine stopsAfterOne (fun _ => .ok ⟨.obj [], ()⟩) [] ∧
      (transact loadsLine stopsAfterOne (fun _ => .ok ⟨.obj [], ()⟩) []).2 = [123] ∧
      readLedger loadsLine [123] = .error (.auditUnavailable "audit ledger contains a partial record") := by
  have hraised :
      (transact loadsLine stopsAfterOne (fun _ => .ok ⟨.obj [], ()⟩) []).1.isOk = false := by
    decide +kernel
  have hcontent : (transact loadsLine stopsAfterOne (fun _ => .ok ⟨.obj [], ()⟩) []).2 = [123] := by
    decide +kernel
  refine ⟨rfl, fun h => ?_, hcontent, by simp [readLedger, maxTransactionBytes]⟩
  unfold AllOrNothing at h
  split at h
  · next e content heq =>
    rw [heq] at hcontent
    simp_all
  · next value content heq => simp [heq, Except.isOk, Except.toBool] at hraised

/-! ## Appended records -/

/-- One call of `append`: what becomes of its writes, and its record. -/
structure AppendCall where
  io : Option AppendIo
  record : Json

/-- The call returns normally. -/
def AppendCall.Acknowledged (call : AppendCall) : Prop := (append call.io call.record).1 = .ok ()

instance (call : AppendCall) : Decidable call.Acknowledged :=
  inferInstanceAs (Decidable ((append call.io call.record).1 = .ok ()))

/-- The content of the file after a run of calls. -/
def appendAll (content : List UInt8) (calls : List AppendCall) : List UInt8 :=
  calls.foldl (fun content call => content ++ (append call.io call.record).2) content

/-- The records of the calls that returned normally. -/
def acknowledged (calls : List AppendCall) : List Json :=
  (calls.filter fun call => call.Acknowledged).map AppendCall.record

/-- What the lines of a file are read as. -/
def readLines (content : List UInt8) : List (Option Json) :=
  (content.splitOn 10).map loadsLine

/-- The records are on lines of their own, in order. -/
def FoundIn (content : List UInt8) (records : List Json) : Prop :=
  (records.map fun record => some record.canonical).Sublist (readLines content)

/-- A record added now starts on a line of its own. -/
def AtLineStart (content : List UInt8) : Prop := content = [] ∨ content.getLast? = some 10

/-- Every call that returns normally finds the file empty or ending in a newline. -/
def StartsLines : List UInt8 → List AppendCall → Prop
  | _, [] => True
  | content, call :: rest =>
      (call.Acknowledged → AtLineStart content) ∧
        StartsLines (content ++ (append call.io call.record).2) rest

/-- The records are on lines that have ended. -/
def Settled (content : List UInt8) (records : List Json) : Prop :=
  records = [] ∨ ∃ before tail, content = before ++ 10 :: tail ∧ FoundIn before records

/-- A record that is serialized on one line and read back from it. -/
structure OneLine (record : Json) : Prop where
  readsBack : Json.loads (Json.dumps record) = some record.canonical
  unbroken : 10 ∉ utf8Encode (Json.dumps record)

/-- Every value without fractional numbers is serialized on one line. -/
theorem OneLine.of_plain {record : Json} (h : Json.Plain record) : OneLine record :=
  ⟨Json.loads_dumps h, fun hmem => (no_line_break h 10 hmem).1 rfl⟩

/-- What is read before a newline is read of the whole. -/
theorem readLines_append (before tail : List UInt8) :
    readLines (before ++ 10 :: tail) = readLines before ++ readLines tail := by
  rw [readLines, List.splitOn_append_cons_self, List.map_append]
  rfl

/-- Settled records are found. -/
theorem Settled.foundIn {content : List UInt8} {records : List Json} (h : Settled content records) :
    FoundIn content records := by
  rcases h with rfl | ⟨before, tail, rfl, hfound⟩
  · exact List.nil_sublist _
  · rw [FoundIn, readLines_append]
    exact hfound.trans (List.sublist_append_left _ _)

/-- Settled records stay settled. -/
theorem Settled.append {content : List UInt8} {records : List Json} (h : Settled content records)
    (bytes : List UInt8) : Settled (content ++ bytes) records := by
  rcases h with rfl | ⟨before, tail, rfl, hfound⟩
  · exact .inl rfl
  · exact .inr ⟨before, tail ++ bytes, by simp, hfound⟩

/-- A whole line added at the start of a line is read as its record. -/
theorem Settled.line {content : List UInt8} {records : List Json} (h : Settled content records)
    (hstart : AtLineStart content) {record : Json} (hline : OneLine record) :
    Settled (content ++ auditLine record) (records ++ [record]) := by
  have hread : readLines (utf8Encode (Json.dumps record)) = [some record.canonical] := by
    rw [readLines, List.splitOn_eq_singleton hline.unbroken]
    simp [loadsLine, utf8Decode_utf8Encode, hline.readsBack]
  refine .inr ⟨content ++ utf8Encode (Json.dumps record), [], by simp [auditLine], ?_⟩
  rw [FoundIn, List.map_append]
  rcases hstart with rfl | hlast
  · have hnone : records = [] := by
      rcases h with hnil | ⟨before, tail, hcontent, -⟩
      · exact hnil
      · simp at hcontent
    rw [hnone, List.nil_append, hread]
    exact List.Sublist.refl _
  · obtain ⟨front, rfl⟩ := List.getLast?_eq_some_iff.mp hlast
    rw [List.append_assoc, List.singleton_append, readLines_append, hread]
    refine List.Sublist.append ?_ (List.Sublist.refl _)
    rcases h with rfl | ⟨before, tail, hcontent, hfound⟩
    · exact List.nil_sublist _
    · rcases tail.eq_nil_or_concat with rfl | ⟨tail, last, rfl⟩
      · rw [(List.append_inj' hcontent rfl).1]
        exact hfound
      · have hfront : front = before ++ 10 :: tail := by
          rw [List.concat_eq_append, ← List.cons_append, ← List.append_assoc] at hcontent
          exact (List.append_inj' hcontent rfl).1
        rw [hfront, readLines_append]
        exact hfound.trans (List.sublist_append_left _ _)

/-- A call that returns normally has added its line. -/
theorem AppendCall.Acknowledged.written {call : AppendCall} (h : call.Acknowledged) :
    (append call.io call.record).2 = auditLine call.record := by
  unfold AppendCall.Acknowledged at h
  unfold ContributorGateway.append at h ⊢
  cases hio : call.io with
  | none => simp [hio] at h
  | some io =>
    simp only [hio] at h ⊢
    split_ifs at h ⊢ with hdone
    · exact writeAll_fst_of_completes (by rw [← writeAll_snd]; exact hdone.1)

/-- A run keeps the records settled. -/
theorem Settled.run {content : List UInt8} {records : List Json} (h : Settled content records)
    {calls : List AppendCall} (hlines : ∀ call ∈ calls, OneLine call.record)
    (hstarts : StartsLines content calls) :
    Settled (appendAll content calls) (records ++ acknowledged calls) := by
  induction calls generalizing content records with
  | nil => simpa [appendAll, acknowledged] using h
  | cons call rest ih =>
    obtain ⟨hstart, hrest⟩ := hstarts
    have hlines' : ∀ c ∈ rest, OneLine c.record := fun c hc => hlines c (by simp [hc])
    by_cases hack : call.Acknowledged
    · have hnext := h.line (hstart hack) (hlines call (by simp))
      rw [← hack.written] at hnext
      have hrun := ih hnext hlines' hrest
      simpa [appendAll, acknowledged, hack] using hrun
    · have hrun := ih (h.append _) hlines' hrest
      simpa [appendAll, acknowledged, hack] using hrun

/-- Acknowledged records are found in the file, each on a line of its own and in order, in
every run whose acknowledged calls start on lines of their own. -/
theorem acknowledged_foundIn (content : List UInt8) {calls : List AppendCall}
    (hlines : ∀ call ∈ calls, OneLine call.record) (hstarts : StartsLines content calls) :
    FoundIn (appendAll content calls) (acknowledged calls) := by
  have hnone : Settled content [] := .inl rfl
  have hrun := hnone.run hlines hstarts
  rw [List.nil_append] at hrun
  exact hrun.foundIn

/-- An append that was refused at once does not touch the next one. -/
theorem acknowledged_foundIn_refused :
    FoundIn (appendAll [] [⟨none, .obj []⟩, ⟨some .reliable, .obj []⟩])
      (acknowledged [⟨none, .obj []⟩, ⟨some .reliable, .obj []⟩]) := by
  refine acknowledged_foundIn [] ?_ ?_
  · have hplain : Json.Plain (.obj []) := by simp [Json.Plain, Json.PlainMembers]
    simp [OneLine.of_plain hplain]
  · simp [StartsLines, AtLineStart, append]

/-- A record that is acknowledged after a torn one is lost. -/
theorem torn_record_swallows :
    ¬ FoundIn (appendAll [] [⟨some stopsAfterOne, .obj []⟩, ⟨some .reliable, .obj []⟩])
      (acknowledged [⟨some stopsAfterOne, .obj []⟩, ⟨some .reliable, .obj []⟩]) := by
  intro h
  have hread := h.map Option.isSome
  exact absurd hread (by decide +kernel)

end ContributorGateway
