import Mathlib.Data.List.Basic
import Mathlib.Data.List.DropRight
import Mathlib.Data.String.Basic

/-!
# Text operations of Python

The string methods that validators use: whitespace stripping, substring
replacement, the control characters and bounded texts over a character class.
-/

namespace ContributorGateway

/-- `str.isspace` on one character. -/
def isSpace (c : Char) : Bool :=
  let n := c.toNat
  (9 ≤ n && n ≤ 13) || (28 ≤ n && n ≤ 32) || n == 0x85 || n == 0xa0 || n == 0x1680 ||
    (0x2000 ≤ n && n ≤ 0x200a) || n == 0x2028 || n == 0x2029 || n == 0x202f || n == 0x205f ||
    n == 0x3000

/-- `str.strip()`. -/
def strip (s : String) : String :=
  String.ofList ((s.toList.dropWhile isSpace).rdropWhile isSpace)

/-- The class `[\x00-\x1f\x7f]`. -/
def isControl (c : Char) : Bool := c.toNat < 0x20 || c.toNat == 0x7f

/-- A full match of a character class repeated between `lo` and `hi` times. -/
def matchesClass (p : Char → Bool) (lo hi : ℕ) (s : String) : Bool :=
  lo ≤ s.length && s.length ≤ hi && s.toList.all p

/-- The class `[A-Za-z0-9]`. -/
def isAsciiAlnum (c : Char) : Bool :=
  ('A' ≤ c && c ≤ 'Z') || ('a' ≤ c && c ≤ 'z') || ('0' ≤ c && c ≤ '9')

/-- `part in text`. -/
def contains (text part : String) : Bool :=
  text.toList.tails.any fun rest => part.toList.isPrefixOf rest

/-- An uppercase hexadecimal digit. -/
def upperHex (n : ℕ) : Char := if n < 10 then Char.ofNat (48 + n) else Char.ofNat (55 + n)

/-- `urllib.parse.quote(text, safe='')`. -/
def quote (text : String) : String :=
  String.ofList <| text.toList.flatMap fun c =>
    if isAsciiAlnum c || c == '_' || c == '.' || c == '-' || c == '~' then [c]
    else (String.utf8EncodeChar c).flatMap fun b =>
      ['%', upperHex (b.toNat / 16), upperHex (b.toNat % 16)]

/-- `urllib.parse.quote_plus(text)`. -/
def quotePlus (text : String) : String :=
  "+".intercalate ((text.toList.splitOn ' ').map fun part => quote (String.ofList part))

/-- `str.split()`. -/
def splitWhitespace (text : String) : List String :=
  ((text.toList.splitOnP isSpace).filter (· ≠ [])).map String.ofList

/-- Replace from left to right; `skip` characters of an occurrence are still to drop. -/
def replaceFrom (old new : List Char) : ℕ → List Char → List Char
  | _, [] => []
  | skip + 1, _ :: rest => replaceFrom old new skip rest
  | 0, c :: rest =>
      if old.isPrefixOf (c :: rest) then new ++ replaceFrom old new (old.length - 1) rest
      else c :: replaceFrom old new 0 rest

/-- `str.replace(old, new)` for a nonempty `old`. -/
def replaceAll (old new text : List Char) : List Char := replaceFrom old new 0 text

/-- Characters that do not start an occurrence are kept. -/
theorem replaceAll_append {c : Char} {old new text : List Char} (htext : c ∉ text)
    (rest : List Char) :
    replaceAll (c :: old) new (text ++ rest) = text ++ replaceAll (c :: old) new rest := by
  induction text with
  | nil => rfl
  | cons d text ih =>
    simp only [List.mem_cons, not_or] at htext
    have hprefix : (c :: old).isPrefixOf (d :: (text ++ rest)) = false := by
      rw [List.isPrefixOf, beq_false_of_ne htext.1, Bool.false_and]
    rw [List.cons_append, replaceAll, replaceFrom, hprefix]
    simp only [Bool.false_eq_true, if_false]
    rw [← replaceAll, ih htext.2, List.cons_append]

/-- Skipping past the end leaves nothing. -/
theorem replaceFrom_skip_all (old new text : List Char) :
    replaceFrom old new text.length text = [] := by
  induction text with
  | nil => rfl
  | cons c text ih => exact ih

/-- A text that is one occurrence is replaced by the new text. -/
theorem replaceAll_self (c : Char) (old new : List Char) :
    replaceAll (c :: old) new (c :: old) = new := by
  have hprefix : (c :: old).isPrefixOf (c :: old) = true := by simp
  rw [replaceAll, replaceFrom, hprefix, if_pos rfl, List.length_cons, Nat.add_sub_cancel,
    replaceFrom_skip_all, List.append_nil]

end ContributorGateway
