import Mathlib.Data.Nat.Notation

/-!
# Committed tasks

The task records of the immutable task index, as the claim service reads them.
-/

namespace ContributorGateway

/-- `TaskStatus`. -/
inductive TaskStatus where
  | «open»
  | blocked
  | done
  deriving DecidableEq

/-- `TaskSourceKind`. -/
inductive TaskSourceKind where
  | handoff
  | qa
  | linkage
  | decomp
  | catalog
  deriving DecidableEq

/-- `TaskRecord`. -/
structure TaskRecord where
  id : String
  title : String
  status : TaskStatus
  sourceKind : TaskSourceKind
  category : Option String
  detail : Option String
  sourcePath : String
  sourceLine : ℕ
  sourceUrl : String
  commit : String
  deriving DecidableEq

/-- What the claim service uses of a task index: exact lookup by id and the commit
of the snapshot's manifest. -/
structure Tasks where
  getTask : String → Option TaskRecord
  commit : String

end ContributorGateway
