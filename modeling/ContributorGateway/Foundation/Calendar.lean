import Mathlib.Data.Nat.Basic
import Mathlib.Order.Basic
import Mathlib.Tactic.IntervalCases

/-!
# The proleptic Gregorian calendar

Ordinals of days and the conversion of an ordinal into a year, a month and a day,
by the divisions of Python's `datetime` module. Converting an ordinal to a date
and back is the identity, so that a printed date determines its day.
-/

namespace ContributorGateway.Calendar

/-- The Gregorian leap years. -/
def isLeap (year : ℕ) : Bool :=
  year % 4 = 0 && (year % 100 ≠ 0 || year % 400 = 0)

/-- The number of days before January 1st of a year. -/
def daysBeforeYear (year : ℕ) : ℕ :=
  (year - 1) * 365 + (year - 1) / 4 - (year - 1) / 100 + (year - 1) / 400

/-- The number of days of a month in an ordinary year. -/
def daysInOrdinaryMonth (month : ℕ) : ℕ :=
  if month = 2 then 28
  else if month = 4 ∨ month = 6 ∨ month = 9 ∨ month = 11 then 30
  else 31

/-- The number of days of a month. -/
def daysInMonth (leap : Bool) (month : ℕ) : ℕ :=
  daysInOrdinaryMonth month + if month = 2 ∧ leap then 1 else 0

/-- The number of days before a month in an ordinary year. -/
def daysBeforeOrdinaryMonth : ℕ → ℕ
  | 1 => 0 | 2 => 31 | 3 => 59 | 4 => 90 | 5 => 120 | 6 => 151 | 7 => 181
  | 8 => 212 | 9 => 243 | 10 => 273 | 11 => 304 | 12 => 334
  | _ => 0

/-- The number of days before a month. -/
def daysBeforeMonth (leap : Bool) (month : ℕ) : ℕ :=
  daysBeforeOrdinaryMonth month + if 2 < month ∧ leap then 1 else 0

/-- A calendar date. -/
structure Date where
  /-- The year, from 1. -/
  year : ℕ
  /-- The month, from 1 to 12. -/
  month : ℕ
  /-- The day of the month, from 1. -/
  day : ℕ
  deriving DecidableEq

/-- The dates that the `datetime` constructor accepts. -/
def Date.Valid (date : Date) : Prop :=
  (1 ≤ date.year ∧ date.year ≤ 9999) ∧ (1 ≤ date.month ∧ date.month ≤ 12) ∧
    (1 ≤ date.day ∧ date.day ≤ daysInMonth (isLeap date.year) date.month)

instance (date : Date) : Decidable date.Valid := inferInstanceAs (Decidable (_ ∧ _))

/-- The ordinal of a date, with January 1st of year 1 as day 1. -/
def ymd2ord (date : Date) : ℕ :=
  daysBeforeYear date.year + daysBeforeMonth (isLeap date.year) date.month + date.day

/-- The month and day of a day of the year counted from 0. The month is estimated
and corrected by one when the estimate is too late. -/
def monthDay (leap : Bool) (n : ℕ) : ℕ × ℕ :=
  let month := (n + 50) / 32
  let preceding := daysBeforeMonth leap month
  if n < preceding then (month - 1, n - (preceding - daysInMonth leap (month - 1)) + 1)
  else (month, n - preceding + 1)

/-- The date of an ordinal. -/
def ord2ymd (ordinal : ℕ) : Date :=
  let n := ordinal - 1
  let n400 := n / 146097
  let n100 := n % 146097 / 36524
  let n4 := n % 146097 % 36524 / 1461
  let n1 := n % 146097 % 36524 % 1461 / 365
  let year := n400 * 400 + 1 + n100 * 100 + n4 * 4 + n1
  if n1 = 4 ∨ n100 = 4 then ⟨year - 1, 12, 31⟩
  else
    let leap := n1 = 3 ∧ (n4 ≠ 24 ∨ n100 = 3)
    let md := monthDay leap (n % 146097 % 36524 % 1461 % 365)
    ⟨year, md.1, md.2⟩

/-- The month and day of a day of the year exist and count back to it. -/
theorem monthDay_spec {leap : Bool} {n : ℕ} (hn : n < 365 + leap.toNat) :
    (1 ≤ (monthDay leap n).1 ∧ (monthDay leap n).1 ≤ 12) ∧
      (1 ≤ (monthDay leap n).2 ∧ (monthDay leap n).2 ≤ daysInMonth leap (monthDay leap n).1) ∧
      daysBeforeMonth leap (monthDay leap n).1 + (monthDay leap n).2 = n + 1 := by
  have hall : ∀ leap : Bool, ∀ n : Fin 366, n.val < 365 + leap.toNat →
      (1 ≤ (monthDay leap n).1 ∧ (monthDay leap n).1 ≤ 12) ∧
        (1 ≤ (monthDay leap n).2 ∧
          (monthDay leap n).2 ≤ daysInMonth leap (monthDay leap n).1) ∧
        daysBeforeMonth leap (monthDay leap n).1 + (monthDay leap n).2 = n + 1 := by
    decide +kernel
  have hlt : n < 366 := by cases leap <;> simp at hn <;> omega
  exact hall leap ⟨n, hlt⟩ hn

/-- The days before a year, from its place in the cycles of 400, 100 and 4 years. -/
theorem daysBeforeYear_cycles {a b c d : ℕ} (hb : b ≤ 3) (hc : c ≤ 24) (hd : d ≤ 3) :
    daysBeforeYear (a * 400 + 1 + b * 100 + c * 4 + d) =
      a * 146097 + b * 36524 + c * 1461 + d * 365 := by
  unfold daysBeforeYear
  have h4 : (a * 400 + 1 + b * 100 + c * 4 + d - 1) / 4 = a * 100 + b * 25 + c := by omega
  have h100 : (a * 400 + 1 + b * 100 + c * 4 + d - 1) / 100 = a * 4 + b := by omega
  have h400 : (a * 400 + 1 + b * 100 + c * 4 + d - 1) / 400 = a := by omega
  rw [h4, h100, h400]
  omega

/-- The leap years, by their place in the cycles. -/
theorem isLeap_cycles {a b c d : ℕ} (hb : b ≤ 3) (hc : c ≤ 24) (hd : d ≤ 3) :
    isLeap (a * 400 + 1 + b * 100 + c * 4 + d) = decide (d = 3 ∧ (c ≠ 24 ∨ b = 3)) := by
  have h4 : (a * 400 + 1 + b * 100 + c * 4 + d) % 4 = 0 ↔ d = 3 := by omega
  have h100 : (a * 400 + 1 + b * 100 + c * 4 + d) % 100 = 0 ↔ c = 24 ∧ d = 3 := by omega
  have h400 : (a * 400 + 1 + b * 100 + c * 4 + d) % 400 = 0 ↔ b = 3 ∧ c = 24 ∧ d = 3 := by
    omega
  rw [Bool.eq_iff_iff]
  simp only [isLeap, Bool.and_eq_true, Bool.or_eq_true, decide_eq_true_eq, h4, h100, h400, ne_eq]
  omega

/-- An ordinal has a place in the cycles of 400, 100 and 4 years, and its date is
read off that place. The last day of a cycle is the day 365 of a leap year. -/
theorem ord2ymd_cycles {ordinal : ℕ} (hpos : 1 ≤ ordinal) :
    ∃ a b c d e : ℕ, b ≤ 3 ∧ c ≤ 24 ∧ d ≤ 3 ∧
      e < 365 + (decide (d = 3 ∧ (c ≠ 24 ∨ b = 3))).toNat ∧
      ordinal = a * 146097 + b * 36524 + c * 1461 + d * 365 + e + 1 ∧
      ord2ymd ordinal =
        ⟨a * 400 + 1 + b * 100 + c * 4 + d,
          (monthDay (decide (d = 3 ∧ (c ≠ 24 ∨ b = 3))) e).1,
          (monthDay (decide (d = 3 ∧ (c ≠ 24 ∨ b = 3))) e).2⟩ := by
  obtain ⟨n, rfl⟩ : ∃ n, ordinal = n + 1 := ⟨ordinal - 1, by omega⟩
  have hlast : monthDay true 365 = (12, 31) := by decide
  by_cases h100 : n % 146097 / 36524 = 4
  · refine ⟨n / 146097, 3, 24, 3, 365, by omega, by omega, by omega, by decide, by omega, ?_⟩
    have h4 : n % 146097 % 36524 / 1461 = 0 := by omega
    have h1 : n % 146097 % 36524 % 1461 / 365 = 0 := by omega
    simp only [ord2ymd, Nat.add_sub_cancel, h100, h4, h1, or_true, if_true]
    simp [hlast]
  by_cases h1 : n % 146097 % 36524 % 1461 / 365 = 4
  · have h24 : n % 146097 % 36524 / 1461 ≠ 24 := by omega
    refine ⟨n / 146097, n % 146097 / 36524, n % 146097 % 36524 / 1461, 3, 365, by omega, by omega,
      by omega, by simp [h24], by omega, ?_⟩
    simp only [ord2ymd, Nat.add_sub_cancel, h1, true_or, if_true]
    simp [h24, hlast]
  · refine ⟨n / 146097, n % 146097 / 36524, n % 146097 % 36524 / 1461,
      n % 146097 % 36524 % 1461 / 365, n % 146097 % 36524 % 1461 % 365, by omega, by omega,
      by omega, by omega, by omega, ?_⟩
    simp only [ord2ymd, Nat.add_sub_cancel, h1, h100, or_self, if_false]

/-- Converting an ordinal to a date and back is the identity. -/
theorem ymd2ord_ord2ymd {ordinal : ℕ} (hpos : 1 ≤ ordinal) :
    ymd2ord (ord2ymd ordinal) = ordinal := by
  obtain ⟨a, b, c, d, e, hb, hc, hd, he, hordinal, hdate⟩ := ord2ymd_cycles hpos
  have hmonth := (monthDay_spec he).2.2
  rw [hdate, ymd2ord, daysBeforeYear_cycles hb hc hd, isLeap_cycles hb hc hd]
  dsimp only
  omega

/-- Every ordinal up to December 31st of year 9999 has a valid date. -/
theorem ord2ymd_valid {ordinal : ℕ} (hpos : 1 ≤ ordinal) (hmax : ordinal ≤ 3652059) :
    (ord2ymd ordinal).Valid := by
  obtain ⟨a, b, c, d, e, hb, hc, hd, he, hordinal, hdate⟩ := ord2ymd_cycles hpos
  obtain ⟨hmonth, hday, -⟩ := monthDay_spec he
  rw [hdate]
  refine ⟨⟨?_, ?_⟩, hmonth, ?_⟩
  · show 1 ≤ a * 400 + 1 + b * 100 + c * 4 + d
    omega
  · show a * 400 + 1 + b * 100 + c * 4 + d ≤ 9999
    omega
  · rw [isLeap_cycles hb hc hd]
    exact hday

end ContributorGateway.Calendar
