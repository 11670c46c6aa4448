import ContributorGateway.Foundation.Calendar
import Mathlib.Order.Hom.Basic
import Mathlib.Order.Lattice

/-!
# Instants and their ISO 8601 text

An instant is a number of microseconds since the start of year 1 in UTC, within
the range of Python's `datetime`. Printing drops the microseconds; reading the
printed text back gives the instant truncated to a second. Truncation is monotone
and moves an instant only downwards, which is all that comparisons of printed
instants use.
-/

namespace ContributorGateway

/-- The number of microseconds from year 1 through year 9999. -/
def maxMicros : ℕ := 3652059 * 86400 * 1000000

/-- A UTC instant. -/
@[ext]
structure Instant where
  /-- Microseconds since 0001-01-01T00:00:00. -/
  micros : ℕ
  /-- The instant lies before year 10000. -/
  inRange : micros < maxMicros
  deriving DecidableEq

namespace Instant

/-- Instants are ordered by time. -/
instance : LinearOrder Instant :=
  LinearOrder.lift' micros fun _ _ => Instant.ext

theorem le_iff {a b : Instant} : a ≤ b ↔ a.micros ≤ b.micros := Iff.rfl

theorem lt_iff {a b : Instant} : a < b ↔ a.micros < b.micros := Iff.rfl

/-- The start of the second of an instant. -/
def truncate (t : Instant) : Instant :=
  ⟨t.micros / 1000000 * 1000000, by have := t.inRange; omega⟩

/-- Truncation moves an instant downwards. -/
theorem truncate_le (t : Instant) : t.truncate ≤ t := by
  rw [le_iff, truncate]
  dsimp only
  omega

/-- Truncation keeps the order. -/
theorem truncate_mono : Monotone truncate := by
  intro a b hab
  rw [le_iff] at hab ⊢
  exact Nat.mul_le_mul_right _ (Nat.div_le_div_right hab)

@[simp] theorem truncate_truncate (t : Instant) : t.truncate.truncate = t.truncate := by
  ext
  simp only [truncate]
  omega

/-- `now + timedelta(minutes=...)`, which overflows past year 9999. -/
def addMinutes (t : Instant) (minutes : ℕ) : Option Instant :=
  if h : t.micros + minutes * 60000000 < maxMicros then some ⟨t.micros + minutes * 60000000, h⟩
  else none

/-- The microseconds after adding minutes. -/
theorem micros_of_addMinutes {t t' : Instant} {minutes : ℕ}
    (h : t.addMinutes minutes = some t') : t'.micros = t.micros + minutes * 60000000 := by
  unfold addMinutes at h
  split at h
  · cases h
    rfl
  · cases h

/-- Truncation passes over whole minutes. -/
theorem truncate_micros_of_addMinutes {t t' : Instant} {minutes : ℕ}
    (h : t.addMinutes minutes = some t') :
    t'.truncate.micros = t.truncate.micros + minutes * 60000000 := by
  simp only [truncate, micros_of_addMinutes h]
  omega

end Instant

/-! ## Printing -/

/-- A number with a fixed count of decimal digits. -/
def padded : ℕ → ℕ → List Char
  | 0, _ => []
  | width + 1, n => padded width (n / 10) ++ [Nat.digitChar (n % 10)]

@[simp] theorem padded_length (width n : ℕ) : (padded width n).length = width := by
  induction width generalizing n with
  | zero => rfl
  | succ width ih => simp [padded, ih]

/-- A decimal digit character. -/
theorem isDigit_digitChar (n : ℕ) : (Nat.digitChar (n % 10)).isDigit = true := by
  have hn : n % 10 < 10 := Nat.mod_lt n (by decide)
  interval_cases n % 10 <;> rfl

/-- Padded numbers are written in digits. -/
theorem padded_all_isDigit (width n : ℕ) : ∀ c ∈ padded width n, c.isDigit = true := by
  induction width generalizing n with
  | zero => simp [padded]
  | succ width ih =>
    intro c hc
    rw [padded, List.mem_append, List.mem_singleton] at hc
    rcases hc with hc | rfl
    · exact ih (n / 10) c hc
    · exact isDigit_digitChar n

/-- A padded number that fits its width is read back. -/
theorem ofDigitChars_padded {width n : ℕ} (hn : n < 10 ^ width) :
    Nat.ofDigitChars 10 (padded width n) 0 = n := by
  induction width generalizing n with
  | zero =>
    simp only [Nat.pow_zero, Nat.lt_one_iff] at hn
    simp [padded, hn]
  | succ width ih =>
    have hdiv : n / 10 < 10 ^ width := by
      rw [Nat.pow_succ] at hn
      omega
    rw [padded, Nat.ofDigitChars_append, ih hdiv,
      Nat.ofDigitChars_cons_digitChar_of_lt_ten (Nat.mod_lt n (by decide)), Nat.ofDigitChars_nil]
    omega

/-- The date of an instant. -/
def Instant.date (t : Instant) : Calendar.Date :=
  Calendar.ord2ymd (t.micros / 1000000 / 86400 + 1)

/-- The date and time of an instant in whole seconds, without an offset. -/
def isoformatNaive (t : Instant) : List Char :=
  let seconds := t.micros / 1000000 % 86400
  padded 4 t.date.year ++ '-' :: (padded 2 t.date.month ++ '-' :: (padded 2 t.date.day ++
    'T' :: (padded 2 (seconds / 3600) ++ ':' :: (padded 2 (seconds % 3600 / 60) ++
      ':' :: padded 2 (seconds % 60)))))

/-- `isoformat(timespec="seconds")` in UTC. -/
def isoformat (t : Instant) : List Char :=
  isoformatNaive t ++ ['+', '0', '0', ':', '0', '0']

/-! ## Reading -/

/-- Read a number of exactly `width` digits. -/
def readDigits (width : ℕ) (text : List Char) : Option (ℕ × List Char) :=
  let digits := text.take width
  if digits.length = width ∧ digits.all Char.isDigit then
    some (Nat.ofDigitChars 10 digits 0, text.drop width)
  else none

/-- Read one given character. -/
def readChar (c : Char) : List Char → Option (List Char)
  | d :: rest => if d = c then some rest else none
  | [] => none

/-- Read a UTC offset in minutes; the empty text is a naive instant. -/
def readOffset : List Char → Option (Option ℤ)
  | [] => some none
  | sign :: rest => do
      let (hours, rest) ← readDigits 2 rest
      let rest ← readChar ':' rest
      let (minutes, rest) ← readDigits 2 rest
      if rest = [] ∧ hours < 24 ∧ minutes < 60 then
        if sign = '+' then some (some (hours * 60 + minutes))
        else if sign = '-' then some (some (-(hours * 60 + minutes)))
        else none
      else none

/-- `datetime.fromisoformat` on the extended format without a fraction: the local
seconds since year 1 and the UTC offset in minutes, if there is one. -/
def fromisoformat (text : List Char) : Option (ℕ × Option ℤ) := do
  let (year, text) ← readDigits 4 text
  let text ← readChar '-' text
  let (month, text) ← readDigits 2 text
  let text ← readChar '-' text
  let (day, text) ← readDigits 2 text
  let text ← text.tail?
  let (hour, text) ← readDigits 2 text
  let text ← readChar ':' text
  let (minute, text) ← readDigits 2 text
  let text ← readChar ':' text
  let (second, text) ← readDigits 2 text
  let offset ← readOffset text
  let date : Calendar.Date := ⟨year, month, day⟩
  if date.Valid ∧ hour < 24 ∧ minute < 60 ∧ second < 60 then
    some ((Calendar.ymd2ord date - 1) * 86400 + hour * 3600 + minute * 60 + second, offset)
  else none

/-- A padded number is read off the front of a text. -/
theorem readDigits_padded {width n : ℕ} (hn : n < 10 ^ width) (rest : List Char) :
    readDigits width (padded width n ++ rest) = some (n, rest) := by
  have htake : (padded width n ++ rest).take width = padded width n := by
    rw [List.take_append_of_le_length (by simp), List.take_of_length_le (by simp)]
  have hdrop : (padded width n ++ rest).drop width = rest := by
    rw [List.drop_append_of_le_length (by simp), List.drop_of_length_le (by simp),
      List.nil_append]
  have hall : (padded width n).all Char.isDigit = true :=
    List.all_eq_true.mpr (padded_all_isDigit width n)
  simp [readDigits, htake, hdrop, hall, ofDigitChars_padded hn]

/-- Reading a printed instant gives its whole seconds and the offset zero. -/
theorem fromisoformat_isoformat (t : Instant) :
    fromisoformat (isoformat t) = some (t.micros / 1000000, some 0) := by
  have hrange : t.micros / 1000000 / 86400 < 3652059 := by
    have := t.inRange
    unfold maxMicros at this
    omega
  have hvalid : t.date.Valid := Calendar.ord2ymd_valid (by omega) (by omega)
  have hord : Calendar.ymd2ord t.date = t.micros / 1000000 / 86400 + 1 :=
    Calendar.ymd2ord_ord2ymd (by omega)
  have hday : t.date.day ≤ 31 := by
    have hmonth : Calendar.daysInMonth (Calendar.isLeap t.date.year) t.date.month ≤ 31 := by
      unfold Calendar.daysInMonth Calendar.daysInOrdinaryMonth
      split_ifs <;> omega
    exact hvalid.2.2.2.trans hmonth
  have hyear := hvalid.1.2
  have hmonth := hvalid.2.1.2
  have hoffset : readOffset ['+', '0', '0', ':', '0', '0'] = some (some 0) := rfl
  have hclock : (t.micros / 1000000 % 86400 / 3600 < 24 ∧
      t.micros / 1000000 % 86400 % 3600 / 60 < 60 ∧
      t.micros / 1000000 % 86400 % 60 < 60) := by omega
  have hsum : (t.micros / 1000000 / 86400 + 1 - 1) * 86400 +
      t.micros / 1000000 % 86400 / 3600 * 3600 +
      t.micros / 1000000 % 86400 % 3600 / 60 * 60 +
      t.micros / 1000000 % 86400 % 60 = t.micros / 1000000 := by omega
  unfold fromisoformat isoformat isoformatNaive
  simp only [List.append_assoc, List.cons_append, Option.bind_eq_bind, readDigits_padded (by omega : t.date.year < 10 ^ 4),
    readDigits_padded (by omega : t.date.month < 10 ^ 2),
    readDigits_padded (by omega : t.date.day < 10 ^ 2),
    readDigits_padded (by omega : t.micros / 1000000 % 86400 / 3600 < 10 ^ 2),
    readDigits_padded (by omega : t.micros / 1000000 % 86400 % 3600 / 60 < 10 ^ 2),
    readDigits_padded (by omega : t.micros / 1000000 % 86400 % 60 < 10 ^ 2),
    readChar, if_true, Option.bind_some, List.tail?_cons, hoffset]
  rw [if_pos ⟨hvalid, hclock⟩, hord, hsum]

end ContributorGateway
