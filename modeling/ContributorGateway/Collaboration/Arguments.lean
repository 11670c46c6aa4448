import ContributorGateway.Collaboration.Errors
import ContributorGateway.Foundation.PyValue
import ContributorGateway.Foundation.PythonText

/-!
# Checked string arguments

Most arguments of the tools are strings that one predicate accepts or one message
refuses.
-/

namespace ContributorGateway

/-- Accept a string by a predicate, and refuse everything else with one message. -/
def checkedStr (accepts : String → Bool) (message : String) (value : PyValue) :
    Except Raised String :=
  match value with
  | .str s => if accepts s then .ok s else .error (.collaboration (badArgs message))
  | _ => .error (.collaboration (badArgs message))

/-- `_IDEMPOTENCY_KEY`, the same pattern in all tools. -/
def isIdempotencyKey (s : String) : Bool :=
  matchesClass (fun c => isAsciiAlnum c || c == '.' || c == '_' || c == '-') 8 64 s

/-- The check of an idempotency key, the same in all tools. -/
def checkedKey : PyValue → Except Raised String :=
  checkedStr isIdempotencyKey
    ("idempotency_key must be 8..64 characters of letters, digits, " ++
      "dot, underscore, or hyphen")

variable {accepts : String → Bool} {message : String} {value : PyValue}

/-- What passes is the string, and the predicate holds. -/
theorem checkedStr_eq_ok {s : String} (h : checkedStr accepts message value = .ok s) :
    value = .str s ∧ accepts s = true := by
  unfold checkedStr at h
  split at h
  · split_ifs at h with hs
    cases h
    exact ⟨rfl, hs⟩
  · cases h

/-- The refusal is always the one message. -/
theorem checkedStr_eq_error {e : Raised} (h : checkedStr accepts message value = .error e) :
    e = .collaboration (badArgs message) := by
  unfold checkedStr at h
  split at h
  · split_ifs at h
    cases h
    rfl
  · cases h
    rfl

end ContributorGateway
