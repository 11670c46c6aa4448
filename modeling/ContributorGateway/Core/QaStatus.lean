import ContributorGateway.Core.TaskRecord
import ContributorGateway.Foundation.PythonText
import ContributorGateway.Foundation.Words
import Mathlib.Data.List.Find

/-!
# The status of a QA report

`normalize_qa_status` looks for whole tokens in the uppercase status text, in the order of a
fixed table. The text that a task shows has its whitespace collapsed. Tokens of one word are
found in both texts alike; `NOT FIXED` is found in the raw text only across a single space. The
shown text is also cut to a bound, which can lose a token or make one of a longer word.
-/

namespace ContributorGateway

open Words

/-! ## The source -/

/-- `str.upper` letter by letter, as far as the status rules depend on it: whitespace is kept,
no other character becomes whitespace or disappears, and ASCII letters are capitalized. -/
structure UpperTable where
  map : Char → List Char
  space : ∀ c, isSpace c = true → map c = [c]
  letter : ∀ c, isSpace c = false → map c ≠ [] ∧ ∀ d ∈ map c, isSpace d = false
  ascii : ∀ c : Char, c.toNat < 128 → map c = [c.toUpper]

/-- `raw_status.upper()`. -/
def UpperTable.upper (table : UpperTable) (text : String) : List Char :=
  text.toList.flatMap table.map

/-- The class `[A-Z0-9]`. -/
def isUpperAlnum (c : Char) : Bool := ('A' ≤ c && c ≤ 'Z') || ('0' ≤ c && c ≤ '9')

/-- The pattern `(?<![A-Z0-9])token(?![A-Z0-9])` at the start of a text that a character
`before` precedes. -/
def matchesAt (token : List Char) (before : Option Char) (text : List Char) : Bool :=
  !before.any isUpperAlnum && token.isPrefixOf text &&
    !(text.drop token.length).head?.any isUpperAlnum

/-- The leftmost position where the pattern matches. -/
def searchFrom (token : List Char) : Option Char → List Char → Bool
  | before, [] => matchesAt token before []
  | before, c :: text => matchesAt token before (c :: text) || searchFrom token (some c) text

/-- `re.search(rf"(?<![A-Z0-9]){re.escape(token)}(?![A-Z0-9])", uppercase)`. -/
def searchToken (token : String) (uppercase : List Char) : Bool :=
  searchFrom token.toList none uppercase

/-- `QA_STATUS_RULES`. -/
def qaStatusRules : List (String × TaskStatus) := [
  ("NOT FIXED", .open),
  ("WONTFIX", .done),
  ("INCOMPLETE", .blocked),
  ("DEFERRED", .blocked),
  ("BLOCKED", .blocked),
  ("RESOLVED", .done),
  ("PENDING", .open),
  ("CLOSED", .done),
  ("FIXED", .done),
  ("DONE", .done),
  ("OPEN", .open)]

/-- `normalize_qa_status`. -/
def normalizeQaStatus (table : UpperTable) (rawStatus : String) : Option TaskStatus :=
  let uppercase := table.upper rawStatus
  (qaStatusRules.find? fun rule => searchToken rule.1 uppercase).map (·.2)

/-- `" ".join(value.split())`. -/
def collapseSpaces (value : String) : String := " ".intercalate (splitWhitespace value)

/-- `_bounded`. -/
def bounded (value : String) (limit : ℕ) : Option String :=
  let clean := collapseSpaces value
  if clean = "" then none else some (String.ofList (clean.toList.take limit))

/-- The `detail` field of a QA task. -/
def qaDetail (group status : String) : Option String :=
  bounded ("group=" ++ group ++ "; status=" ++ status) 1000

/-! ## Searching a token -/

/-- A letter that has another capital is an ASCII letter, and so is the capital. -/
theorem toUpper_eq_or (c : Char) :
    c.toUpper = c ∨ isSpace c = false ∧ isSpace c.toUpper = false := by
  unfold Char.toUpper
  split_ifs with hlower
  · right
    have hlo : 97 ≤ c.toNat := UInt32.le_iff_toNat_le.mp hlower.1
    have hhi : c.toNat ≤ 122 := UInt32.le_iff_toNat_le.mp hlower.2
    have hcapital : (c.val + ('A'.val - 'a'.val)).toNat = c.toNat - 32 := by
      have hshift : ('A'.val - 'a'.val).toNat = 4294967264 := by decide
      have hval : c.val.toNat = c.toNat := rfl
      rw [UInt32.toNat_add, hshift]
      omega
    constructor
    · simp [isSpace]
      omega
    · simp only [isSpace, Char.toNat, hcapital]
      simp
      omega
  · exact .inl rfl

/-! ## The raw and the shown text -/

variable (table : UpperTable)

/-- The token of a rule occurs in a text, and no earlier one does. -/
def Decides (rule : String × TaskStatus) (text : String) : Prop :=
  searchToken rule.1 (table.upper text) = true ∧
    ∃ earlier later, qaStatusRules = earlier ++ rule :: later ∧
      ∀ other ∈ earlier, searchToken other.1 (table.upper text) = false

/-- A cut neither loses the token that decides the whole text nor makes one that decides the rest,
unless the other text is decided by a rule of the same status. -/
structure KeepsDecision (whole cut : String) : Prop where
  kept : ∀ rule, Decides table rule whole → searchToken rule.1 (table.upper cut) = true ∨
    ∃ other, Decides table other cut ∧ other.2 = rule.2
  made : ∀ rule, Decides table rule cut → searchToken rule.1 (table.upper whole) = true ∨
    ∃ other, Decides table other whole ∧ other.2 = rule.2

section Cut

variable {table} {text whole cut : String} {rule other : String × TaskStatus}
  {status : TaskStatus}

/-- Two rules that decide two texts are the same if the tokens of both occur in both. -/
theorem Decides.eq (h : Decides table rule whole) (h' : Decides table other cut)
    (hrule : searchToken rule.1 (table.upper cut) = true)
    (hother : searchToken other.1 (table.upper whole) = true) : rule = other := by
  obtain ⟨-, earlier, later, hsplit, hnone⟩ := h
  obtain ⟨-, earlier', later', hsplit', hnone'⟩ := h'
  rw [hsplit] at hsplit'
  -- The rule that comes first in the table is among the earlier ones of the other.
  rcases List.append_eq_append_iff.mp hsplit' with ⟨between, rfl, hrest⟩ | ⟨between, rfl, hrest⟩
  · cases between with
    | nil => exact (List.cons.inj hrest).1
    | cons first between =>
      obtain rfl := (List.cons.inj hrest).1
      rw [hnone' rule (by simp)] at hrule
      cases hrule
  · cases between with
    | nil => exact (List.cons.inj hrest).1.symm
    | cons first between =>
      obtain rfl := (List.cons.inj hrest).1
      rw [hnone other (by simp)] at hother
      cases hother

theorem KeepsDecision.symm (h : KeepsDecision table whole cut) : KeepsDecision table cut whole :=
  ⟨h.made, h.kept⟩

end Cut

/-- Capitals of a text of ASCII letters. -/
def asciiUpperTable : UpperTable where
  map c := [c.toUpper]
  space c hc := by
    rcases toUpper_eq_or c with hsame | ⟨hletter, -⟩
    · rw [hsame]
    · rw [hletter] at hc
      cases hc
  letter c hc := by
    rcases toUpper_eq_or c with hsame | ⟨-, hcapital⟩
    · simpa [hsame] using hc
    · simpa using hcapital
  ascii c _ := rfl

end ContributorGateway
