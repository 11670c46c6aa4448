import ContributorGateway.Foundation.Json

/-!
# The JSON round trip

Reading the text of a value without fractional numbers gives the value back, with
the members of every object in key order; the text itself is printable ASCII and
so never breaks a line. These are the two facts a log of JSON lines relies on.
-/

namespace ContributorGateway.Json

/-! ## Strings -/

/-- The code points of characters: below the surrogates or above them. -/
theorem toNat_valid (c : Char) : c.toNat < 0xd800 ∨ 0xdfff < c.toNat ∧ c.toNat < 0x110000 :=
  c.valid

/-- A hexadecimal digit is read back. -/
theorem hexValue_digitChar {n : ℕ} (hn : n < 16) : hexValue (Nat.digitChar n) = some n := by
  interval_cases n <;> rfl

/-- An escaped code unit is read back. -/
theorem parseUnits_hex4 {n : ℕ} (hn : n < 0x10000) (rest : List Char) :
    parseUnits ('\\' :: 'u' :: (hex4 n ++ rest)) =
      (parseUnits rest).map fun p => (n :: p.1, p.2) := by
  have hdigit (k : ℕ) : hexValue (Nat.digitChar (k % 16)) = some (k % 16) :=
    hexValue_digitChar (Nat.mod_lt k (by decide))
  have hvalue : n / 4096 % 16 * 4096 + n / 256 % 16 * 256 + n / 16 % 16 * 16 + n % 16 = n := by
    omega
  simp only [hex4, List.cons_append, List.nil_append, parseUnits, hex4Value, hdigit,
    Option.bind_eq_bind, Option.bind_some, Option.pure_def, hvalue]
  cases parseUnits rest <;> rfl

/-- Escaped code units are read back. -/
theorem parseUnits_codeUnits (c : Char) (rest : List Char) :
    parseUnits ((codeUnits c).flatMap (fun u => '\\' :: 'u' :: hex4 u) ++ rest) =
      (parseUnits rest).map fun p => (codeUnits c ++ p.1, p.2) := by
  have hc := toNat_valid c
  unfold codeUnits
  split
  · simp only [List.flatMap_cons, List.flatMap_nil, List.append_nil, List.cons_append]
    rw [parseUnits_hex4 (by omega)]
    simp
  · simp only [List.flatMap_cons, List.flatMap_nil, List.append_nil, List.cons_append,
      List.append_assoc]
    rw [parseUnits_hex4 (by omega), parseUnits_hex4 (by omega), Option.map_map]
    rfl

/-- An unescaped character is read back as itself. -/
theorem parseUnits_cons {c : Char} (hquote : c ≠ '"') (hslash : c ≠ '\\')
    (hc : 0x20 ≤ c.toNat) (rest : List Char) :
    parseUnits (c :: rest) = (parseUnits rest).map fun p => (c.toNat :: p.1, p.2) := by
  have hplain : ¬ (c.toNat < 0x20 ∨ c = '\\') := by simp [hslash]; omega
  rw [parseUnits.eq_def]
  split
  · contradiction
  · rename_i h
    exact absurd (List.cons.inj h).1 hquote
  · rename_i h
    exact absurd (List.cons.inj h).1 hslash
  · rename_i h
    exact absurd (List.cons.inj h).1 hslash
  · rename_i h
    obtain ⟨rfl, rfl⟩ := List.cons.inj h
    rw [if_neg hplain]
    cases parseUnits _ <;> rfl

/-- A short escape is read back as its character. -/
theorem parseUnits_simpleEscape {e : Char} {unit : ℕ} (hunit : simpleEscape e = some unit)
    (rest : List Char) :
    parseUnits ('\\' :: e :: rest) = (parseUnits rest).map fun p => (unit :: p.1, p.2) := by
  have hu : e ≠ 'u' := by
    rintro rfl
    simp [simpleEscape] at hunit
  rw [parseUnits.eq_def]
  split
  · contradiction
  · rename_i h
    exact absurd (List.cons.inj h).1 (by decide)
  · rename_i h
    exact absurd (List.cons.inj (List.cons.inj h).2).1 hu
  · rename_i h
    obtain ⟨-, h⟩ := List.cons.inj h
    obtain ⟨rfl, rfl⟩ := List.cons.inj h
    rw [hunit]
    cases parseUnits _ <;> rfl
  · rename_i hslash h
    obtain ⟨rfl, rfl⟩ := List.cons.inj h
    exact absurd rfl (hslash _ _ rfl)

/-- An escaped character is read back as its code units. -/
theorem parseUnits_escapeChar (c : Char) (rest : List Char) :
    parseUnits (escapeChar c ++ rest) =
      (parseUnits rest).map fun p => (codeUnits c ++ p.1, p.2) := by
  have hshort {e : Char} (he : simpleEscape e = some c.toNat) (hlt : c.toNat < 0x10000) :
      parseUnits (['\\', e] ++ rest) =
        (parseUnits rest).map fun p => (codeUnits c ++ p.1, p.2) := by
    rw [codeUnits, if_pos hlt]
    exact parseUnits_simpleEscape he rest
  unfold escapeChar
  split_ifs with h₁ h₂ h₃ h₄ h₅ h₆ h₇ h₈
  · subst h₁
    exact hshort rfl (by decide)
  · subst h₂
    exact hshort rfl (by decide)
  · subst h₃
    exact hshort rfl (by decide)
  · subst h₄
    exact hshort rfl (by decide)
  · subst h₅
    exact hshort rfl (by decide)
  · exact hshort (by rw [h₆]; rfl) (by omega)
  · exact hshort (by rw [h₇]; rfl) (by omega)
  · rw [codeUnits, if_pos (by omega)]
    exact parseUnits_cons h₁ h₂ h₈.1 rest
  · exact parseUnits_codeUnits c rest

/-- A code unit outside the high surrogates is a character on its own. -/
theorem joinUnits_cons {unit : ℕ} (hhigh : ¬ (0xd800 ≤ unit ∧ unit < 0xdc00))
    (hvalid : unit.isValidChar) (rest : List ℕ) :
    joinUnits (unit :: rest) = (joinUnits rest).map (Char.ofNat unit :: ·) := by
  cases rest with
  | nil => simp [joinUnits, hvalid]
  | cons low rest =>
    rw [joinUnits]
    rw [if_neg (fun h => hhigh ⟨h.1, h.2.1⟩), if_pos hvalid]

/-- The code units of a text spell the text. -/
theorem joinUnits_codeUnits (chars : List Char) :
    joinUnits (chars.flatMap codeUnits) = some chars := by
  induction chars with
  | nil => rfl
  | cons c chars ih =>
    have hc := toNat_valid c
    rw [List.flatMap_cons, codeUnits]
    split
    · rw [List.cons_append, List.nil_append, joinUnits_cons (by omega) hc, ih]
      simp
    · have hcode : 0x10000 + (0xd800 + (c.toNat - 0x10000) / 1024 - 0xd800) * 1024 +
          (0xdc00 + (c.toNat - 0x10000) % 1024 - 0xdc00) = c.toNat := by omega
      simp only [List.cons_append, List.nil_append, joinUnits]
      rw [if_pos (by omega), hcode, ih]
      simp

/-- A string literal is read back. -/
theorem parseString_dumpsStr (s : String) (rest : List Char) :
    parseString (s.toList.flatMap escapeChar ++ '"' :: rest) = some (s, rest) := by
  have hunits (chars : List Char) :
      parseUnits (chars.flatMap escapeChar ++ '"' :: rest) =
        some (chars.flatMap codeUnits, rest) := by
    induction chars with
    | nil => simp [parseUnits]
    | cons c chars ih =>
      rw [List.flatMap_cons, List.append_assoc, parseUnits_escapeChar, ih]
      simp
  simp [parseString, hunits, joinUnits_codeUnits]

/-! ## Numbers -/

/-- What may follow a value inside an array, an object or at the end of a text. -/
def Delimited (rest : List Char) : Prop :=
  ∀ c ∈ rest.head?, c = ',' ∨ c = ']' ∨ c = '}'

/-- A delimiter is not whitespace. -/
theorem Delimited.skipSpace {rest : List Char} (hrest : Delimited rest) :
    skipSpace rest = rest := by
  cases rest with
  | nil => rfl
  | cons c rest =>
    rcases hrest c rfl with rfl | rfl | rfl <;> rfl

/-- What may follow a value in an indented text too, where a line ends after it. -/
def Ended (rest : List Char) : Prop :=
  ∀ c ∈ rest.head?, c = ',' ∨ c = ']' ∨ c = '}' ∨ c = '\n'

theorem Delimited.ended {rest : List Char} (hrest : Delimited rest) : Ended rest := by
  intro c hc
  rcases hrest c hc with h | h | h
  · exact Or.inl h
  · exact Or.inr (Or.inl h)
  · exact Or.inr (Or.inr (Or.inl h))

/-- What ends a value does not continue an integer. -/
theorem Ended.takeWhile_isDigit {rest : List Char} (hrest : Ended rest) :
    rest.takeWhile Char.isDigit = [] ∧ rest.dropWhile Char.isDigit = rest := by
  cases rest with
  | nil => exact ⟨rfl, rfl⟩
  | cons c rest =>
    rcases hrest c rfl with rfl | rfl | rfl | rfl <;> exact ⟨rfl, rfl⟩

/-- What ends a value starts neither a fraction nor an exponent. -/
theorem Ended.spanFraction_spanExponent {rest : List Char} (hrest : Ended rest) :
    spanFraction rest = ([], rest) ∧ spanExponent rest = ([], rest) := by
  cases rest with
  | nil => exact ⟨rfl, rfl⟩
  | cons c rest =>
    rcases hrest c rfl with rfl | rfl | rfl | rfl <;> exact ⟨rfl, rfl⟩

/-- Only zero is written with a leading zero. -/
theorem toDigits_leading_zero {n : ℕ} {tail : List Char}
    (h : Nat.toDigits 10 n = '0' :: tail) : n = 0 ∧ tail = [] := by
  induction n using Nat.strong_induction_on generalizing tail with
  | h n ih =>
    by_cases hn : n < 10
    · rw [Nat.toDigits_of_lt_base hn] at h
      obtain ⟨hdigit, htail⟩ := List.cons.inj h
      refine ⟨?_, htail.symm⟩
      interval_cases n <;> first | rfl | exact absurd hdigit (by decide)
    · rw [Nat.toDigits_of_base_le (by decide) (by omega)] at h
      cases hhead : Nat.toDigits 10 (n / 10) with
      | nil => exact absurd hhead Nat.toDigits_ne_nil
      | cons c digits =>
        rw [hhead, List.cons_append] at h
        have hc := (List.cons.inj h).1
        subst hc
        have hzero := (ih (n / 10) (by omega) hhead).1
        omega

/-- The integer part of a written number is the whole number. -/
theorem spanInteger_toDigits (n : ℕ) {rest : List Char} (hrest : Ended rest) :
    spanInteger (Nat.toDigits 10 n ++ rest) = (Nat.toDigits 10 n, rest) := by
  have hdigits : ∀ c ∈ Nat.toDigits 10 n, c.isDigit = true := fun c hc =>
    Nat.isDigit_of_mem_toDigits (by decide) (by decide) hc
  obtain ⟨htake, hdrop⟩ := hrest.takeWhile_isDigit
  have hspan : (Nat.toDigits 10 n ++ rest).takeWhile Char.isDigit = Nat.toDigits 10 n := by
    rw [List.takeWhile_append_of_pos hdigits, htake, List.append_nil]
  unfold spanInteger
  rw [hspan]
  split
  · rename_i tail h
    obtain ⟨rfl, rfl⟩ := toDigits_leading_zero h
    simp
  · rw [List.dropWhile_append_of_pos hdigits, hdrop]

/-- A written natural number is read back under the sign already read. -/
theorem parseUnsigned_toDigits (negative : Bool) (n : ℕ) {rest : List Char}
    (hrest : Ended rest) :
    parseUnsigned negative (Nat.toDigits 10 n ++ rest) =
      some (.int (if negative then -(n : ℤ) else n), rest) := by
  obtain ⟨hfraction, hexponent⟩ := hrest.spanFraction_spanExponent
  simp [parseUnsigned, spanInteger_toDigits n hrest, hfraction, hexponent,
    Nat.toDigits_ne_nil, Nat.ofDigitChars_ten_toDigits]

/-- A value that starts with a digit is a number. -/
theorem parseValue_digit {c : Char} (hc : c.isDigit = true) (fuel : ℕ) (rest : List Char) :
    parseValue (fuel + 1) (c :: rest) = parseUnsigned false (c :: rest) := by
  have hspace : skipSpace (c :: rest) = c :: rest := by
    have hne : ¬ (c = ' ' ∨ c = '\t' ∨ c = '\n' ∨ c = '\r') := by
      rintro (rfl | rfl | rfl | rfl) <;> exact absurd hc (by decide)
    simp only [skipSpace, List.dropWhile_cons]
    simp_all
  rw [parseValue, hspace]
  split <;> first
    | rfl
    | (rename_i h; obtain ⟨rfl, -⟩ := List.cons.inj h; exact absurd hc (by decide))

/-- A value that starts with a minus sign and a digit is a negative number. -/
theorem parseValue_minus {c : Char} (hc : c.isDigit = true) (fuel : ℕ) (rest : List Char) :
    parseValue (fuel + 1) ('-' :: c :: rest) = parseUnsigned true (c :: rest) := by
  have hspace : skipSpace ('-' :: c :: rest) = '-' :: c :: rest := rfl
  rw [parseValue, hspace]
  split <;> rename_i h
  all_goals first
    | exact absurd (List.cons.inj h).1 (by decide)
    | (obtain ⟨-, rfl⟩ := List.cons.inj h; rfl)
    | (obtain ⟨rfl, -⟩ := List.cons.inj (List.cons.inj h).2; exact absurd hc (by decide))
    | exact absurd rfl (h _)

/-- A written integer is read back. -/
theorem parseValue_dumpsInt (n : ℤ) (fuel : ℕ) {rest : List Char} (hrest : Ended rest) :
    parseValue (fuel + 1) (dumpsInt n ++ rest) = some (.int n, rest) := by
  have hdigit {m : ℕ} {c : Char} {digits : List Char} (h : Nat.toDigits 10 m = c :: digits) :
      c.isDigit = true :=
    Nat.isDigit_of_mem_toDigits (b := 10) (n := m) (by decide) (by decide) (by simp [h])
  cases n with
  | ofNat n =>
    cases h : Nat.toDigits 10 n with
    | nil => exact absurd h Nat.toDigits_ne_nil
    | cons c digits =>
      have hnumber := parseUnsigned_toDigits false n hrest
      rw [h] at hnumber
      simp only [dumpsInt, h, List.cons_append] at hnumber ⊢
      rw [parseValue_digit (hdigit h), hnumber]
      simp
  | negSucc n =>
    cases h : Nat.toDigits 10 (n + 1) with
    | nil => exact absurd h Nat.toDigits_ne_nil
    | cons c digits =>
      have hc := hdigit h
      have hnumber := parseUnsigned_toDigits true (n + 1) hrest
      rw [h] at hnumber
      simp only [dumpsInt, h, List.cons_append] at hnumber ⊢
      have hminus := parseValue_minus hc fuel (digits ++ rest)
      rw [hminus, hnumber]
      simp [Int.negSucc_eq]

/-! ## Round trip -/

mutual
/-- A value without fractional numbers whose objects have distinct keys. -/
def Plain : Json → Prop
  | .float _ => False
  | .arr items => PlainItems items
  | .obj members => (members.map Prod.fst).Nodup ∧ PlainMembers members
  | _ => True

/-- Every element is plain. -/
def PlainItems : List Json → Prop
  | [] => True
  | v :: rest => Plain v ∧ PlainItems rest

/-- The value of every member is plain. -/
def PlainMembers : List (String × Json) → Prop
  | [] => True
  | (_, v) :: rest => Plain v ∧ PlainMembers rest
end

mutual
/-- The value with the members of every object in key order. -/
def canonical : Json → Json
  | .arr items => .arr (canonicalItems items)
  | .obj members => .obj (sortByKey (canonicalMembers members))
  | v => v

/-- Every element in canonical form. -/
def canonicalItems : List Json → List Json
  | [] => []
  | v :: rest => canonical v :: canonicalItems rest

/-- The value of every member in canonical form. -/
def canonicalMembers : List (String × Json) → List (String × Json)
  | [] => []
  | (k, v) :: rest => (k, canonical v) :: canonicalMembers rest
end

@[simp] theorem plainItems_iff (items : List Json) :
    PlainItems items ↔ ∀ v ∈ items, Plain v := by
  induction items with
  | nil => simp [PlainItems]
  | cons v rest ih => simp [PlainItems, ih]

@[simp] theorem plainMembers_iff (members : List (String × Json)) :
    PlainMembers members ↔ ∀ m ∈ members, Plain m.2 := by
  induction members with
  | nil => simp [PlainMembers]
  | cons m rest ih => simp [PlainMembers, ih]

@[simp] theorem canonicalItems_eq_map (items : List Json) :
    canonicalItems items = items.map canonical := by
  induction items with
  | nil => rfl
  | cons v rest ih => simp [canonicalItems, ih]

@[simp] theorem canonicalMembers_eq_map (members : List (String × Json)) :
    canonicalMembers members = members.map fun m => (m.1, canonical m.2) := by
  induction members with
  | nil => rfl
  | cons m rest ih => simp [canonicalMembers, ih]

/-- No member is overwritten when the keys are distinct. -/
theorem dropOverwritten_of_nodup {members : List (String × Json)}
    (hkeys : (members.map Prod.fst).Nodup) : dropOverwritten members = members := by
  induction members with
  | nil => rfl
  | cons m rest ih =>
    rw [List.map_cons, List.nodup_cons] at hkeys
    have hnone : rest.any (fun m' => m'.1 == m.1) = false := by
      simp only [List.any_eq_false, beq_iff_eq]
      intro m' hm' heq
      exact hkeys.1 (heq ▸ List.mem_map_of_mem hm')
    rw [dropOverwritten, hnone, ih hkeys.2]
    simp

/-- The text of `v` is read back as its canonical form in front of any delimiter,
given fuel for its length. -/
def ReadsBack (v : Json) : Prop :=
  ∀ (fuel : ℕ) (rest : List Char), (dumps v).length ≤ fuel → Delimited rest →
    parseValue (fuel + 1) (dumps v ++ rest) = some (canonical v, rest)

/-- The first character of a value is neither whitespace nor a closing bracket. -/
theorem dumps_head {v : Json} (hv : Plain v) :
    ∃ c text, dumps v = c :: text ∧ c ≠ ']' ∧
      ∀ tail, skipSpace (c :: tail) = c :: tail := by
  have hdigits (m : ℕ) : ∃ c text, Nat.toDigits 10 m = c :: text ∧ c ≠ ']' ∧
      ∀ tail, skipSpace (c :: tail) = c :: tail := by
    cases h : Nat.toDigits 10 m with
    | nil => exact absurd h Nat.toDigits_ne_nil
    | cons c text =>
      have hc : c.isDigit = true :=
        Nat.isDigit_of_mem_toDigits (b := 10) (n := m) (by decide) (by decide) (by simp [h])
      have hne {d : Char} (hd : d.isDigit = false) : c ≠ d := by
        rintro rfl
        simp [hc] at hd
      exact ⟨c, text, rfl, hne rfl, fun tail => by simp [skipSpace, hne]⟩
  cases v with
  | null => exact ⟨_, _, rfl, by decide, fun _ => rfl⟩
  | bool b => cases b <;> exact ⟨_, _, rfl, by decide, fun _ => rfl⟩
  | int n =>
    cases n with
    | ofNat n => exact hdigits n
    | negSucc n => exact ⟨_, _, rfl, by decide, fun _ => rfl⟩
  | float text => exact absurd hv id
  | str s => exact ⟨_, _, rfl, by decide, fun _ => rfl⟩
  | arr items => exact ⟨_, _, rfl, by decide, fun _ => rfl⟩
  | obj members => exact ⟨_, _, rfl, by decide, fun _ => rfl⟩

/-- An element followed by a comma is read before the remaining elements. -/
theorem parseItems_comma {fuel : ℕ} {text rest : List Char} {v : Json}
    (hv : parseValue fuel text = some (v, ',' :: rest)) :
    parseItems (fuel + 1) text = (parseItems fuel rest).map fun p => (v :: p.1, p.2) := by
  have hcomma : skipSpace (',' :: rest) = ',' :: rest := rfl
  simp only [parseItems, hv, Option.bind_eq_bind, Option.bind_some, hcomma]
  cases parseItems fuel rest <;> rfl

/-- An element followed by a closing bracket is the last one. -/
theorem parseItems_close {fuel : ℕ} {text rest rest' : List Char} {v : Json}
    (hclose : skipSpace rest' = ']' :: rest) (hv : parseValue fuel text = some (v, rest')) :
    parseItems (fuel + 1) text = some ([v], rest) := by
  simp only [parseItems, hv, Option.bind_eq_bind, Option.bind_some, hclose]
  rfl

/-- The elements of a nonempty array are read back. -/
theorem parseItems_join {items : List Json} (hne : items ≠ [])
    (hitems : ∀ v ∈ items, ReadsBack v) (fuel : ℕ) (rest : List Char)
    (hfuel : (joinComma (items.map dumps)).length ≤ fuel) :
    parseItems (fuel + 2) (joinComma (items.map dumps) ++ ']' :: rest) =
      some (items.map canonical, rest) := by
  induction items generalizing fuel with
  | nil => exact absurd rfl hne
  | cons v items ih =>
    have hv := hitems v (by simp)
    cases items with
    | nil => exact parseItems_close rfl (hv fuel (']' :: rest) hfuel (by simp [Delimited]))
    | cons w items =>
      simp only [List.map_cons, joinComma, List.length_append, List.length_cons] at hfuel
      obtain ⟨fuel, rfl⟩ : ∃ k, fuel = k + 1 := ⟨fuel - 1, by omega⟩
      have hread := hv (fuel + 1) (',' :: (joinComma ((w :: items).map dumps) ++ ']' :: rest))
        (by omega) (by simp [Delimited])
      have htail := ih (by simp) (fun u hu => hitems u (by simp [hu])) fuel
        (by simp only [List.map_cons]; omega)
      rw [List.map_cons, List.map_cons, joinComma, List.append_assoc, List.cons_append,
        ← List.map_cons, parseItems_comma hread, htail]
      rfl

/-- A member under a quoted key and in front of a comma is read before the remaining members. -/
theorem parseMembers_quoted_comma {fuel : ℕ} {key : String} {body text rest : List Char} {v : Json}
    (hkey : ∀ tail, parseString (body ++ '"' :: tail) = some (key, tail))
    (hv : parseValue fuel (text ++ ',' :: rest) = some (v, ',' :: rest)) :
    parseMembers (fuel + 1) ('"' :: (body ++ '"' :: ':' :: (text ++ ',' :: rest))) =
      (parseMembers fuel rest).map fun p => ((key, v) :: p.1, p.2) := by
  have hquote (text : List Char) : skipSpace ('"' :: text) = '"' :: text := rfl
  have hcolon (text : List Char) : skipSpace (':' :: text) = ':' :: text := rfl
  have hcomma : skipSpace (',' :: rest) = ',' :: rest := rfl
  simp only [parseMembers, hquote, hkey, hcolon, hv, hcomma, Option.bind_eq_bind,
    Option.bind_some]
  cases parseMembers fuel rest <;> rfl

/-- A member under a quoted key and in front of a closing brace is the last one. -/
theorem parseMembers_quoted_close {fuel : ℕ} {key : String} {body text rest rest' : List Char}
    {v : Json} (hkey : ∀ tail, parseString (body ++ '"' :: tail) = some (key, tail))
    (hclose : skipSpace rest' = '}' :: rest)
    (hv : parseValue fuel (text ++ rest') = some (v, rest')) :
    parseMembers (fuel + 1) ('"' :: (body ++ '"' :: ':' :: (text ++ rest'))) =
      some ([(key, v)], rest) := by
  have hquote (text : List Char) : skipSpace ('"' :: text) = '"' :: text := rfl
  have hcolon (text : List Char) : skipSpace (':' :: text) = ':' :: text := rfl
  simp only [parseMembers, hquote, hkey, hcolon, hv, hclose, Option.bind_eq_bind,
    Option.bind_some]
  rfl

/-- A member followed by a comma is read before the remaining members. -/
theorem parseMembers_comma {fuel : ℕ} {key : String} {text rest : List Char} {v : Json}
    (hv : parseValue fuel (text ++ ',' :: rest) = some (v, ',' :: rest)) :
    parseMembers (fuel + 1) (memberText (key, text) ++ ',' :: rest) =
      (parseMembers fuel rest).map fun p => ((key, v) :: p.1, p.2) := by
  have hmember := parseMembers_quoted_comma (parseString_dumpsStr key) hv
  simpa [memberText, dumpsStr] using hmember

/-- A member followed by a closing brace is the last one. -/
theorem parseMembers_close {fuel : ℕ} {key : String} {text rest rest' : List Char} {v : Json}
    (hclose : skipSpace rest' = '}' :: rest)
    (hv : parseValue fuel (text ++ rest') = some (v, rest')) :
    parseMembers (fuel + 1) (memberText (key, text) ++ rest') = some ([(key, v)], rest) := by
  have hmember := parseMembers_quoted_close (parseString_dumpsStr key) hclose hv
  simpa [memberText, dumpsStr] using hmember

/-- The text of the members of an object, in their order. -/
def membersText (members : List (String × Json)) : List Char :=
  joinComma (members.map fun m => memberText (m.1, dumps m.2))

/-- The members of a nonempty object are read back. -/
theorem parseMembers_membersText {members : List (String × Json)} (hne : members ≠ [])
    (hmembers : ∀ m ∈ members, ReadsBack m.2) (fuel : ℕ) (rest : List Char)
    (hfuel : (membersText members).length ≤ fuel) :
    parseMembers (fuel + 2) (membersText members ++ '}' :: rest) =
      some (members.map fun m => (m.1, canonical m.2), rest) := by
  induction members generalizing fuel with
  | nil => exact absurd rfl hne
  | cons m members ih =>
    have hm := hmembers m (by simp)
    have hlength : (dumps m.2).length ≤ (memberText (m.1, dumps m.2)).length := by
      simp only [memberText, List.length_append, List.length_cons]
      omega
    cases members with
    | nil =>
      have hshort : (memberText (m.1, dumps m.2)).length ≤ fuel := hfuel
      exact parseMembers_close rfl (hm fuel ('}' :: rest) (by omega) (by simp [Delimited]))
    | cons m' members =>
      have htext : membersText (m :: m' :: members) =
          memberText (m.1, dumps m.2) ++ ',' :: membersText (m' :: members) := rfl
      rw [htext, List.length_append, List.length_cons] at hfuel
      obtain ⟨fuel, rfl⟩ : ∃ k, fuel = k + 1 := ⟨fuel - 1, by omega⟩
      have hread := hm (fuel + 1) (',' :: (membersText (m' :: members) ++ '}' :: rest))
        (by omega) (by simp [Delimited])
      have htail := ih (by simp) (fun u hu => hmembers u (by simp [hu])) fuel
        (by omega)
      rw [htext, List.append_assoc, List.cons_append, parseMembers_comma hread, htail]
      rfl

/-- A nonempty array is read through its elements. -/
theorem parseValue_arr {fuel : ℕ} {c : Char} {text text' : List Char}
    (hspace : skipSpace text = c :: text') (hc : c ≠ ']') :
    parseValue (fuel + 1) ('[' :: text) =
      (parseItems fuel (c :: text')).map fun p => (.arr p.1, p.2) := by
  have hopen : skipSpace ('[' :: text) = '[' :: text := rfl
  simp only [parseValue, hopen, hspace]
  split
  · rename_i h
    exact absurd (List.cons.inj h).1 hc
  · rfl

/-- A nonempty object is read through its members. -/
theorem parseValue_obj (fuel : ℕ) {text text' : List Char}
    (hspace : skipSpace text = '"' :: text') :
    parseValue (fuel + 1) ('{' :: text) =
      (parseMembers fuel ('"' :: text')).map fun p => (.obj (dropOverwritten p.1), p.2) := by
  have hopen : skipSpace ('{' :: text) = '{' :: text := rfl
  simp only [parseValue, hopen, hspace]
  rfl

/-- The text of an object is its members in key order. -/
theorem dumps_obj (members : List (String × Json)) :
    dumps (.obj members) = '{' :: (membersText (sortByKey members) ++ ['}']) := by
  rw [dumps, dumpsMembers_eq_map, sortByKey_map, List.map_map]
  rfl

/-- Every plain value is read back in front of any delimiter. -/
theorem readsBack (v : Json) (hv : Plain v) : ReadsBack v := by
  induction v using Json.induct with
  | null => intro fuel rest _ _; rfl
  | bool b => intro fuel rest _ _; cases b <;> rfl
  | int n => intro fuel rest _ hrest; exact parseValue_dumpsInt n fuel hrest.ended
  | float text => exact absurd hv id
  | str s =>
    intro fuel rest _ _
    have hspace (text : List Char) : skipSpace ('"' :: text) = '"' :: text := rfl
    simp only [dumps, dumpsStr, List.cons_append, List.append_assoc, List.nil_append, parseValue,
      hspace, parseString_dumpsStr, Option.map_some, canonical]
  | arr items ih =>
    intro fuel rest hfuel _
    have hplain : ∀ v ∈ items, Plain v := (plainItems_iff items).mp hv
    rw [dumps, dumpsItems_eq_map] at hfuel ⊢
    rw [canonical, canonicalItems_eq_map]
    cases items with
    | nil => rfl
    | cons v items =>
      obtain ⟨c, text, hhead, hc, hspace⟩ := dumps_head (hplain v (by simp))
      obtain ⟨tail, htail⟩ : ∃ tail, joinComma ((v :: items).map dumps) = c :: tail := by
        cases items <;> simp [joinComma, hhead]
      simp only [List.length_cons, List.length_append, List.length_nil] at hfuel
      obtain ⟨fuel, rfl⟩ : ∃ k, fuel = k + 2 := ⟨fuel - 2, by omega⟩
      have hread := parseItems_join (by simp) (fun u hu => ih u hu (hplain u hu)) fuel rest
        (by omega)
      rw [htail, List.cons_append] at hread
      rw [htail, List.cons_append, List.cons_append, List.cons_append, List.append_assoc,
        List.singleton_append, parseValue_arr (hspace _) hc, hread]
      rfl
  | obj members ih =>
    intro fuel rest hfuel _
    obtain ⟨hkeys, hplain⟩ := hv
    rw [plainMembers_iff] at hplain
    have hperm := sortByKey_perm members
    have hkeys' : ((sortByKey members).map Prod.fst).Nodup :=
      (hperm.map Prod.fst).nodup_iff.mpr hkeys
    rw [dumps_obj] at hfuel ⊢
    rw [canonical, canonicalMembers_eq_map, sortByKey_map]
    cases hsorted : sortByKey members with
    | nil => rfl
    | cons m sorted =>
      rw [hsorted] at hfuel hkeys' hperm
      simp only [List.length_cons, List.length_append, List.length_nil] at hfuel
      obtain ⟨fuel, rfl⟩ : ∃ k, fuel = k + 2 := ⟨fuel - 2, by omega⟩
      have hread := parseMembers_membersText (by simp) (fun u hu => ih u (hperm.subset hu)
        (hplain u (hperm.subset hu))) fuel rest (by omega)
      obtain ⟨text, htext⟩ : ∃ text, membersText (m :: sorted) = '"' :: text := by
        cases sorted <;> simp [membersText, joinComma, memberText, dumpsStr]
      have hcanonical : (((m :: sorted).map fun m => (m.1, canonical m.2)).map Prod.fst).Nodup := by
        rw [List.map_map]
        exact hkeys'
      rw [htext, List.cons_append] at hread
      rw [htext, List.cons_append, List.cons_append, List.cons_append, List.append_assoc,
        List.singleton_append, parseValue_obj _ rfl, hread, Option.map_some,
        dropOverwritten_of_nodup hcanonical]

/-- A plain value is read back from its own text, with every object in key order. -/
theorem loads_dumps {v : Json} (hv : Plain v) : loads (dumps v) = some (canonical v) := by
  have hread := readsBack v hv (2 * (dumps v).length) [] (by omega) (by simp [Delimited])
  rw [List.append_nil] at hread
  simp [loads, hread, skipSpace]

/-- Members with distinct keys are found in any order. -/
theorem lookup_eq_of_perm {α : Type} {members members' : List (String × α)}
    (hperm : members.Perm members') (hkeys : (members.map Prod.fst).Nodup) (key : String) :
    members.lookup key = members'.lookup key := by
  induction hperm with
  | nil => rfl
  | cons m _ ih =>
    rw [List.map_cons, List.nodup_cons] at hkeys
    rw [List.lookup_cons, List.lookup_cons, ih hkeys.2]
  | swap m m' rest =>
    obtain ⟨k, v⟩ := m
    obtain ⟨k', v'⟩ := m'
    simp only [List.map_cons, List.nodup_cons, List.mem_cons, not_or] at hkeys
    simp only [List.lookup_cons]
    by_cases hk : key = k
    · have hk' : (key == k') = false := by simpa [hk] using Ne.symm hkeys.1.1
      simp [hk']
    · have hk' : (key == k) = false := by simpa using hk
      simp [hk']
  | trans hfirst _ ih ih' =>
    exact (ih hkeys).trans (ih' ((hfirst.map Prod.fst).nodup_iff.mp hkeys))

/-- Rewriting the values rewrites what is found. -/
theorem lookup_map {α β : Type} (f : α → β) (members : List (String × α)) (key : String) :
    (members.map fun m => (m.1, f m.2)).lookup key = (members.lookup key).map f := by
  induction members with
  | nil => rfl
  | cons m rest ih =>
    rw [List.map_cons, List.lookup_cons, List.lookup_cons, ih]
    cases key == m.1 <;> rfl

/-- Putting the members in key order keeps what `get` finds. -/
theorem get_canonical {v : Json} (hv : Plain v) (key : String) :
    get key (canonical v) = (get key v).map canonical := by
  cases v with
  | obj members =>
    have hkeys := (sortByKey_perm members).map Prod.fst |>.nodup_iff.mpr hv.1
    rw [canonical, canonicalMembers_eq_map, sortByKey_map, get, get, lookup_map,
      lookup_eq_of_perm (sortByKey_perm members) hkeys]
  | _ => rfl

/-- The canonical form of a string is the string. -/
@[simp] theorem asStr_canonical (v : Json) : asStr (canonical v) = asStr v := by
  cases v <;> rfl

/-- The members of a plain object are plain. -/
theorem Plain.of_get {v w : Json} (hv : Plain v) {key : String} (hget : get key v = some w) :
    Plain w := by
  cases v with
  | obj members =>
    have hmem : (key, w) ∈ members := by
      obtain ⟨before, after, rfl, -⟩ := List.lookup_eq_some_iff.mp hget
      simp
    exact (plainMembers_iff members).mp hv.2 _ hmem
  | _ => cases hget

/-! ## Printable output -/

/-- A printable ASCII character. -/
def PrintableAscii (c : Char) : Prop := 0x20 ≤ c.toNat ∧ c.toNat ≤ 0x7e

instance (c : Char) : Decidable (PrintableAscii c) := inferInstanceAs (Decidable (_ ∧ _))

/-- Joining printable texts with commas gives a printable text. -/
theorem printable_joinComma {texts : List (List Char)}
    (htexts : ∀ text ∈ texts, ∀ c ∈ text, PrintableAscii c) :
    ∀ c ∈ joinComma texts, PrintableAscii c := by
  induction texts with
  | nil => simp [joinComma]
  | cons text texts ih =>
    cases texts with
    | nil => exact htexts text (by simp)
    | cons next texts =>
      intro c hc
      rw [joinComma, List.mem_append, List.mem_cons] at hc
      rcases hc with hc | rfl | hc
      · exact htexts text (by simp) c hc
      · decide
      · exact ih (fun text ht => htexts text (by simp [ht])) c hc

/-- Escapes are printable. -/
theorem printable_escapeChar (c : Char) : ∀ d ∈ escapeChar c, PrintableAscii d := by
  unfold escapeChar
  split_ifs with _ _ _ _ _ _ _ h
  any_goals solve | simp [PrintableAscii]
  · intro d hd
    rw [List.mem_singleton.mp hd]
    exact h
  · intro d hd
    have hdigit (n : ℕ) : PrintableAscii (Nat.digitChar (n % 16)) := by
      have hn : n % 16 < 16 := Nat.mod_lt n (by decide)
      interval_cases n % 16 <;> decide
    obtain ⟨u, -, hd⟩ := List.mem_flatMap.mp hd
    simp only [hex4, List.mem_cons, List.not_mem_nil, or_false] at hd
    rcases hd with rfl | rfl | rfl | rfl | rfl | rfl
    · decide
    · decide
    all_goals exact hdigit _

/-- String literals are printable. -/
theorem printable_dumpsStr (s : String) : ∀ c ∈ dumpsStr s, PrintableAscii c := by
  intro c hc
  simp only [dumpsStr, List.mem_cons, List.mem_append, List.mem_flatMap, List.not_mem_nil,
    or_false] at hc
  rcases hc with rfl | ⟨d, -, hc⟩ | rfl
  · decide
  · exact printable_escapeChar d c hc
  · decide

/-- Integer literals are printable. -/
theorem printable_dumpsInt (n : ℤ) : ∀ c ∈ dumpsInt n, PrintableAscii c := by
  have hdigits (m : ℕ) : ∀ c ∈ Nat.toDigits 10 m, PrintableAscii c := by
    intro c hc
    have hdigit : c.isDigit = true := Nat.isDigit_of_mem_toDigits (by decide) (by decide) hc
    simp only [Char.isDigit, Bool.and_eq_true, decide_eq_true_eq] at hdigit
    have h0 : 0x30 ≤ c.toNat := hdigit.1
    have h9 : c.toNat ≤ 0x39 := hdigit.2
    exact ⟨by omega, by omega⟩
  cases n with
  | ofNat n => exact hdigits n
  | negSucc n =>
    intro c hc
    rcases List.mem_cons.mp hc with rfl | hc
    · decide
    · exact hdigits _ c hc

/-- Every character of a serialized plain value is printable ASCII. -/
theorem printable_dumps {v : Json} (hv : Plain v) : ∀ c ∈ dumps v, PrintableAscii c := by
  induction v using Json.induct with
  | null => simp [dumps, PrintableAscii]
  | bool b => cases b <;> simp [dumps, PrintableAscii]
  | int n => exact printable_dumpsInt n
  | float text => exact absurd hv id
  | str s => exact printable_dumpsStr s
  | arr items ih =>
    have hplain := (plainItems_iff items).mp hv
    intro c hc
    rw [dumps, dumpsItems_eq_map, List.mem_cons, List.mem_append, List.mem_singleton] at hc
    rcases hc with rfl | hc | rfl
    · decide
    · refine printable_joinComma (fun text htext => ?_) c hc
      obtain ⟨v, hv, rfl⟩ := List.mem_map.mp htext
      exact ih v hv (hplain v hv)
    · decide
  | obj members ih =>
    have hplain := (plainMembers_iff members).mp hv.2
    intro c hc
    rw [dumps_obj, List.mem_cons, List.mem_append, List.mem_singleton] at hc
    rcases hc with rfl | hc | rfl
    · decide
    · refine printable_joinComma (fun text htext => ?_) c hc
      obtain ⟨m, hm, rfl⟩ := List.mem_map.mp htext
      have hm := (sortByKey_perm members).subset hm
      intro d hd
      rw [memberText, List.mem_append, List.mem_cons] at hd
      rcases hd with hd | rfl | hd
      · exact printable_dumpsStr m.1 d hd
      · decide
      · exact ih m hm (hplain m hm) d hd
    · decide

end ContributorGateway.Json
