import ContributorGateway.Foundation.Results
import Mathlib.Data.Nat.Notation

/-!
# Errors of the collaboration tools

The typed errors a tool call reports, and the exceptions that can travel through
its implementation before they are turned into one.
-/

namespace ContributorGateway

/-- `CollaborationErrorCode`. -/
inductive CollaborationErrorCode where
  | credentialUnavailable
  | upstreamUnavailable
  | badArgs
  | notFound
  | writeDisabled
  | conflict
  deriving DecidableEq

/-- The text of a code. -/
def CollaborationErrorCode.text : CollaborationErrorCode → String
  | .credentialUnavailable => "credential_unavailable"
  | .upstreamUnavailable => "upstream_unavailable"
  | .badArgs => "bad_args"
  | .notFound => "not_found"
  | .writeDisabled => "write_disabled"
  | .conflict => "conflict"

/-- `CollaborationError`. -/
structure CollaborationError where
  code : CollaborationErrorCode
  detail : String
  deriving DecidableEq

/-- The credential is missing or refused. -/
def credentialUnavailable : CollaborationError :=
  ⟨.credentialUnavailable, "the read-only GitHub credential is unavailable"⟩

/-- The upstream service or the audit log failed. -/
def upstreamUnavailable : CollaborationError :=
  ⟨.upstreamUnavailable, "the collaboration service is temporarily unavailable"⟩

/-- An argument is malformed. -/
def badArgs (detail : String) : CollaborationError := ⟨.badArgs, detail⟩

/-- GitHub does not know the resource. -/
def notFound : CollaborationError :=
  ⟨.notFound, "the requested pull request, branch, or commit was not found"⟩

/-- The index does not know the task. -/
def taskNotFound : CollaborationError :=
  ⟨.notFound, "the requested committed task was not found"⟩

/-- The request contradicts existing state. -/
def conflict (detail : String) : CollaborationError := ⟨.conflict, detail⟩

/-- An exception in flight. -/
inductive Raised where
  /-- A `CollaborationError`. -/
  | collaboration (error : CollaborationError)
  /-- An `AuditUnavailableError` with its message. -/
  | auditUnavailable (message : String)
  /-- Any other exception, by the name of its class. -/
  | exception (name : String)
  deriving DecidableEq

/-- The error a tool reports for an exception that left its body. -/
def Raised.toError : Raised → CollaborationError
  | .collaboration error => error
  | .auditUnavailable _ => upstreamUnavailable
  | .exception _ => upstreamUnavailable

end ContributorGateway
