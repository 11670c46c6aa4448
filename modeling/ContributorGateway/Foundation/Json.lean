import Mathlib.Data.List.Sort
import Mathlib.Data.String.Basic
import Mathlib.Tactic.IntervalCases

/-!
# JSON texts

The compact serializer of Python's `json.dumps` with sorted keys and ASCII
escapes, and the recursive-descent reader behind `json.loads`. The main result
is the round trip: reading a serialized value returns the value with the members
of every object in key order. The file concerns JSON alone, so that any
line-oriented store of JSON records can use it.
-/

namespace ContributorGateway

/-- A JSON value. Objects keep their members in the order they were written;
a number with a fraction or an exponent is kept as its text. -/
inductive Json where
  | null
  | bool (b : Bool)
  | int (n : ℤ)
  | float (text : String)
  | str (s : String)
  | arr (items : List Json)
  | obj (members : List (String × Json))

namespace Json

/-- Structural induction in which the elements of arrays and the members of
objects carry the hypothesis by membership. -/
@[elab_as_elim]
theorem induct {motive : Json → Prop} (null : motive .null) (bool : ∀ b, motive (.bool b))
    (int : ∀ n, motive (.int n)) (float : ∀ t, motive (.float t)) (str : ∀ s, motive (.str s))
    (arr : ∀ items, (∀ v ∈ items, motive v) → motive (.arr items))
    (obj : ∀ members, (∀ m ∈ members, motive m.2) → motive (.obj members)) :
    ∀ v, motive v := by
  intro v
  refine Json.rec (motive_1 := motive) (motive_2 := fun items => ∀ v ∈ items, motive v)
    (motive_3 := fun members => ∀ m ∈ members, motive m.2) (motive_4 := fun m => motive m.2)
    null bool int float str arr obj ?_ ?_ ?_ ?_ ?_ v
  · simp
  · intro head tail hhead htail v hv
    rcases List.mem_cons.mp hv with rfl | hv
    · exact hhead
    · exact htail v hv
  · simp
  · intro head tail hhead htail m hm
    rcases List.mem_cons.mp hm with rfl | hm
    · exact hhead
    · exact htail m hm
  · intro _ _ h
    exact h

/-- `dict.get`: the value of a member, and `none` off objects. -/
def get (key : String) : Json → Option Json
  | .obj members => members.lookup key
  | _ => none

/-- `isinstance(value, str)` with the string. -/
def asStr : Json → Option String
  | .str s => some s
  | _ => none

/-! ## Writing -/

/-- The four lowercase hexadecimal digits of a 16-bit code unit. -/
def hex4 (n : ℕ) : List Char :=
  [Nat.digitChar (n / 4096 % 16), Nat.digitChar (n / 256 % 16), Nat.digitChar (n / 16 % 16),
    Nat.digitChar (n % 16)]

/-- The UTF-16 code units of a character. -/
def codeUnits (c : Char) : List ℕ :=
  if c.toNat < 0x10000 then [c.toNat]
  else [0xd800 + (c.toNat - 0x10000) / 1024, 0xdc00 + (c.toNat - 0x10000) % 1024]

/-- The escape of one character under `ensure_ascii`. -/
def escapeChar (c : Char) : List Char :=
  if c = '"' then ['\\', '"']
  else if c = '\\' then ['\\', '\\']
  else if c = '\n' then ['\\', 'n']
  else if c = '\r' then ['\\', 'r']
  else if c = '\t' then ['\\', 't']
  else if c.toNat = 12 then ['\\', 'f']
  else if c.toNat = 8 then ['\\', 'b']
  else if 0x20 ≤ c.toNat ∧ c.toNat ≤ 0x7e then [c]
  else (codeUnits c).flatMap fun u => '\\' :: 'u' :: hex4 u

/-- A quoted string literal. -/
def dumpsStr (s : String) : List Char :=
  '"' :: (s.toList.flatMap escapeChar ++ ['"'])

/-- A decimal integer literal. -/
def dumpsInt : ℤ → List Char
  | .ofNat n => Nat.toDigits 10 n
  | .negSucc n => '-' :: Nat.toDigits 10 (n + 1)

/-- Texts separated by commas. -/
def joinComma : List (List Char) → List Char
  | [] => []
  | [text] => text
  | text :: next :: rest => text ++ ',' :: joinComma (next :: rest)

/-- `sort_keys`: the stable sort of members by key. -/
def sortByKey {α : Type} (members : List (String × α)) : List (String × α) :=
  members.insertionSort fun a b => a.1 ≤ b.1

/-- One member of an object. -/
def memberText (member : String × List Char) : List Char :=
  dumpsStr member.1 ++ ':' :: member.2

mutual
/-- `json.dumps(value, separators=(",", ":"), sort_keys=True)`. -/
def dumps : Json → List Char
  | .null => ['n', 'u', 'l', 'l']
  | .bool true => ['t', 'r', 'u', 'e']
  | .bool false => ['f', 'a', 'l', 's', 'e']
  | .int n => dumpsInt n
  | .float text => text.toList
  | .str s => dumpsStr s
  | .arr items => '[' :: (joinComma (dumpsItems items) ++ [']'])
  | .obj members =>
      '{' :: (joinComma ((sortByKey (dumpsMembers members)).map memberText) ++ ['}'])

/-- The texts of the elements of an array. -/
def dumpsItems : List Json → List (List Char)
  | [] => []
  | v :: rest => dumps v :: dumpsItems rest

/-- The keys and texts of the members of an object. -/
def dumpsMembers : List (String × Json) → List (String × List Char)
  | [] => []
  | (k, v) :: rest => (k, dumps v) :: dumpsMembers rest
end

@[simp] theorem dumpsItems_eq_map (items : List Json) : dumpsItems items = items.map dumps := by
  induction items with
  | nil => rfl
  | cons v rest ih => simp [dumpsItems, ih]

@[simp] theorem dumpsMembers_eq_map (members : List (String × Json)) :
    dumpsMembers members = members.map fun m => (m.1, dumps m.2) := by
  induction members with
  | nil => rfl
  | cons m rest ih => simp [dumpsMembers, ih]

/-- Sorting by key commutes with rewriting the values. -/
theorem sortByKey_map {α β : Type} (f : α → β) (members : List (String × α)) :
    sortByKey (members.map fun m => (m.1, f m.2)) =
      (sortByKey members).map fun m => (m.1, f m.2) :=
  (List.map_insertionSort (fun a b : String × α => a.1 ≤ b.1)
    (fun a b : String × β => a.1 ≤ b.1) (fun m => (m.1, f m.2)) members (by simp)).symm

/-- Sorting by key keeps the members. -/
theorem sortByKey_perm {α : Type} (members : List (String × α)) :
    (sortByKey members).Perm members :=
  List.perm_insertionSort _ _

/-! ## Reading -/

/-- Skip the four JSON whitespace characters. -/
def skipSpace (text : List Char) : List Char :=
  text.dropWhile fun c => c = ' ' || c = '\t' || c = '\n' || c = '\r'

/-- The value of a hexadecimal digit. -/
def hexValue (c : Char) : Option ℕ :=
  if '0' ≤ c ∧ c ≤ '9' then some (c.toNat - 48)
  else if 'a' ≤ c ∧ c ≤ 'f' then some (c.toNat - 87)
  else if 'A' ≤ c ∧ c ≤ 'F' then some (c.toNat - 55)
  else none

/-- The code unit that four hexadecimal digits spell. -/
def hex4Value (a b c d : Char) : Option ℕ := do
  let a ← hexValue a
  let b ← hexValue b
  let c ← hexValue c
  let d ← hexValue d
  pure (a * 4096 + b * 256 + c * 16 + d)

/-- The character behind a one-letter escape. -/
def simpleEscape (c : Char) : Option ℕ :=
  if c = '"' then some 34
  else if c = '\\' then some 92
  else if c = '/' then some 47
  else if c = 'n' then some 10
  else if c = 'r' then some 13
  else if c = 't' then some 9
  else if c = 'f' then some 12
  else if c = 'b' then some 8
  else none

/-- Read a string body up to its closing quote, as code units. -/
def parseUnits : List Char → Option (List ℕ × List Char)
  | [] => none
  | '"' :: rest => some ([], rest)
  | '\\' :: 'u' :: a :: b :: c :: d :: rest => do
      let unit ← hex4Value a b c d
      let (units, rest) ← parseUnits rest
      pure (unit :: units, rest)
  | '\\' :: e :: rest => do
      let unit ← simpleEscape e
      let (units, rest) ← parseUnits rest
      pure (unit :: units, rest)
  | c :: rest =>
      if c.toNat < 0x20 ∨ c = '\\' then none
      else do
        let (units, rest) ← parseUnits rest
        pure (c.toNat :: units, rest)

/-- Join surrogate pairs. A lone surrogate is not a character. -/
def joinUnits : List ℕ → Option (List Char)
  | [] => some []
  | unit :: rest =>
      match rest with
      | low :: rest' =>
          if 0xd800 ≤ unit ∧ unit < 0xdc00 ∧ 0xdc00 ≤ low ∧ low < 0xe000 then
            (joinUnits rest').map
              (Char.ofNat (0x10000 + (unit - 0xd800) * 1024 + (low - 0xdc00)) :: ·)
          else if unit.isValidChar then (joinUnits (low :: rest')).map (Char.ofNat unit :: ·)
          else none
      | [] => if unit.isValidChar then some [Char.ofNat unit] else none

/-- Read a string after its opening quote. -/
def parseString (text : List Char) : Option (String × List Char) := do
  let (units, rest) ← parseUnits text
  let chars ← joinUnits units
  pure (String.ofList chars, rest)

/-- The fraction of a number, if there is one. -/
def spanFraction : List Char → List Char × List Char
  | '.' :: rest =>
      if rest.takeWhile Char.isDigit = [] then ([], '.' :: rest)
      else ('.' :: rest.takeWhile Char.isDigit, rest.dropWhile Char.isDigit)
  | text => ([], text)

/-- The exponent of a number, if there is one. -/
def spanExponent (text : List Char) : List Char × List Char :=
  match text with
  | e :: rest =>
      if e = 'e' ∨ e = 'E' then
        let (sign, digits) := match rest with
          | '+' :: digits => (['+'], digits)
          | '-' :: digits => (['-'], digits)
          | digits => ([], digits)
        if digits.takeWhile Char.isDigit = [] then ([], text)
        else (e :: sign ++ digits.takeWhile Char.isDigit, digits.dropWhile Char.isDigit)
      else ([], text)
  | [] => ([], [])

/-- The integer part of a number: a leading zero stands alone. -/
def spanInteger (text : List Char) : List Char × List Char :=
  match text.takeWhile Char.isDigit with
  | '0' :: _ => (['0'], text.drop 1)
  | digits => (digits, text.dropWhile Char.isDigit)

/-- Read a number whose sign has been read. -/
def parseUnsigned (negative : Bool) (text : List Char) : Option (Json × List Char) :=
  let (digits, rest) := spanInteger text
  if digits = [] then none
  else
    let (fraction, rest) := spanFraction rest
    let (exponent, rest) := spanExponent rest
    if fraction = [] ∧ exponent = [] then
      let n := Nat.ofDigitChars 10 digits 0
      some (.int (if negative then -(n : ℤ) else n), rest)
    else
      some (.float (String.ofList
        ((if negative then ['-'] else []) ++ digits ++ fraction ++ exponent)), rest)

/-- A member that a later duplicate overwrites is dropped, as `dict` does. -/
def dropOverwritten : List (String × Json) → List (String × Json)
  | [] => []
  | m :: rest =>
      if rest.any (fun m' => m'.1 == m.1) then dropOverwritten rest
      else m :: dropOverwritten rest

mutual
/-- Read one value. The fuel bounds the nesting of calls. -/
def parseValue : ℕ → List Char → Option (Json × List Char)
  | 0, _ => none
  | fuel + 1, text =>
      match skipSpace text with
      | '"' :: rest => (parseString rest).map fun p => (.str p.1, p.2)
      | '[' :: rest =>
          match skipSpace rest with
          | ']' :: rest => some (.arr [], rest)
          | rest => (parseItems fuel rest).map fun p => (.arr p.1, p.2)
      | '{' :: rest =>
          match skipSpace rest with
          | '}' :: rest => some (.obj [], rest)
          | rest => (parseMembers fuel rest).map fun p => (.obj (dropOverwritten p.1), p.2)
      | 'n' :: 'u' :: 'l' :: 'l' :: rest => some (.null, rest)
      | 't' :: 'r' :: 'u' :: 'e' :: rest => some (.bool true, rest)
      | 'f' :: 'a' :: 'l' :: 's' :: 'e' :: rest => some (.bool false, rest)
      | 'N' :: 'a' :: 'N' :: rest => some (.float "NaN", rest)
      | 'I' :: 'n' :: 'f' :: 'i' :: 'n' :: 'i' :: 't' :: 'y' :: rest =>
          some (.float "Infinity", rest)
      | '-' :: 'I' :: 'n' :: 'f' :: 'i' :: 'n' :: 'i' :: 't' :: 'y' :: rest =>
          some (.float "-Infinity", rest)
      | '-' :: rest => parseUnsigned true rest
      | rest => parseUnsigned false rest

/-- Read the elements of a nonempty array and its closing bracket. -/
def parseItems : ℕ → List Char → Option (List Json × List Char)
  | 0, _ => none
  | fuel + 1, text => do
      let (v, rest) ← parseValue fuel text
      match skipSpace rest with
      | ',' :: rest =>
          let (vs, rest) ← parseItems fuel rest
          pure (v :: vs, rest)
      | ']' :: rest => pure ([v], rest)
      | _ => none

/-- Read the members of a nonempty object and its closing brace. -/
def parseMembers : ℕ → List Char → Option (List (String × Json) × List Char)
  | 0, _ => none
  | fuel + 1, text =>
      match skipSpace text with
      | '"' :: rest => do
          let (key, rest) ← parseString rest
          match skipSpace rest with
          | ':' :: rest =>
              let (v, rest) ← parseValue fuel rest
              match skipSpace rest with
              | ',' :: rest =>
                  let (ms, rest) ← parseMembers fuel rest
                  pure ((key, v) :: ms, rest)
              | '}' :: rest => pure ([(key, v)], rest)
              | _ => none
          | _ => none
      | _ => none
end

/-- `json.loads`: one value and nothing but whitespace after it. -/
def loads (text : List Char) : Option Json :=
  match parseValue (2 * text.length + 1) text with
  | some (v, rest) => if skipSpace rest = [] then some v else none
  | none => none

end Json

end ContributorGateway
