import ContributorGateway.Foundation.IsoTimestamp
import ContributorGateway.Foundation.PythonText

/-!
# Timestamps of records

`_timestamp` as the claim service, the pull-request service and the status service
define it, and its inverse up to truncation to a second.
-/

namespace ContributorGateway

/-- `_timestamp`: ISO 8601 in whole seconds, with `Z` for the offset. -/
def timestamp (t : Instant) : String :=
  String.ofList (replaceAll ['+', '0', '0', ':', '0', '0'] ['Z'] (isoformat t))

/-- The naive part has neither a sign nor a letter `Z`. -/
theorem isoformatNaive_notMem {c : Char} (hdigit : c.isDigit = false)
    (hc : c ≠ '-' ∧ c ≠ 'T' ∧ c ≠ ':') (t : Instant) : c ∉ isoformatNaive t := by
  have hpadded (width n : ℕ) : c ∉ padded width n := by
    intro h
    have := padded_all_isDigit width n c h
    rw [hdigit] at this
    cases this
  simp [isoformatNaive, hpadded, hc]

/-- A timestamp is the naive part followed by `Z`. -/
theorem timestamp_toList (t : Instant) : (timestamp t).toList = isoformatNaive t ++ ['Z'] := by
  rw [timestamp, String.toList_ofList, isoformat,
    replaceAll_append (isoformatNaive_notMem (by decide) (by decide) t), replaceAll_self]

/-- Replacing `Z` by the offset restores the ISO 8601 text. -/
theorem replaceAll_timestamp (t : Instant) :
    replaceAll ['Z'] ['+', '0', '0', ':', '0', '0'] (timestamp t).toList = isoformat t := by
  rw [timestamp_toList, isoformat,
    replaceAll_append (isoformatNaive_notMem (by decide) (by decide) t), replaceAll_self]

/-- Timestamps have twenty characters. -/
theorem timestamp_length (t : Instant) : (timestamp t).length = 20 := by
  rw [← String.length_toList, timestamp_toList]
  simp [isoformatNaive]

end ContributorGateway
