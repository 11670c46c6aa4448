import Mathlib.Data.Int.Notation
import Mathlib.Data.String.Basic

/-!
# Arguments of type `object`

The values a Python caller can pass where the callee checks types itself.
-/

namespace ContributorGateway

/-- A Python value, as far as type checks and field accesses tell values apart.
Lists and tuples are one case, since every check accepts both. -/
inductive PyValue where
  | none
  | bool (b : Bool)
  | int (n : ℤ)
  | str (s : String)
  | list (items : List PyValue)
  | dict (entries : List (String × PyValue))
  | object (cls : String) (attributes : List (String × PyValue))

namespace PyValue

/-- `isinstance(value, str)` with the string. -/
def asStr : PyValue → Option String
  | .str s => some s
  | _ => Option.none

/-- `dict.get(key)`. -/
def get (key : String) (entries : List (String × PyValue)) : PyValue :=
  (entries.lookup key).getD .none

end PyValue

end ContributorGateway
