import ContributorGateway.Foundation.PythonText
import Mathlib.Tactic.IntervalCases

/-!
# URL-safe base64 without padding

Bytes are written six bits at a time over the alphabet `A-Z a-z 0-9 - _`. A reader that
checks the alphabet and the length, but not the bits that the last character leaves over,
accepts several texts for the same bytes; the written one is that whose leftover bits are
zero.
-/

namespace ContributorGateway.Base64

/-! ## Six bits at a time -/

/-- The numbers below 64 that bytes spell. -/
def sextets : List UInt8 → List ℕ
  | a :: b :: c :: rest =>
      a.toNat / 4 :: (a.toNat % 4 * 16 + b.toNat / 16) :: (b.toNat % 16 * 4 + c.toNat / 64) ::
        c.toNat % 64 :: sextets rest
  | [a, b] => [a.toNat / 4, a.toNat % 4 * 16 + b.toNat / 16, b.toNat % 16 * 4]
  | [a] => [a.toNat / 4, a.toNat % 4 * 16]
  | [] => []

/-- The bytes that numbers below 64 spell. A single last number does not reach a byte. -/
def bytes : List ℕ → Option (List UInt8)
  | w :: x :: y :: z :: rest =>
      (bytes rest).map fun bs =>
        UInt8.ofNat (w * 4 + x / 16) :: UInt8.ofNat (x % 16 * 16 + y / 4) ::
          UInt8.ofNat (y % 4 * 64 + z) :: bs
  | [w, x, y] => some [UInt8.ofNat (w * 4 + x / 16), UInt8.ofNat (x % 16 * 16 + y / 4)]
  | [w, x] => some [UInt8.ofNat (w * 4 + x / 16)]
  | [_] => none
  | [] => some []

/-- The bits that the last number leaves over. -/
def leftover : List ℕ → ℕ
  | _ :: _ :: _ :: _ :: rest => leftover rest
  | [_, _, y] => y % 4
  | [_, x] => x % 16
  | _ => 0

/-- A byte is spelled by its number. -/
theorem ofNat_eq {n : ℕ} {b : UInt8} (h : n = b.toNat) : UInt8.ofNat n = b := by
  rw [h, UInt8.ofNat_toNat]

/-- The number of a byte below 256. -/
theorem toNat_ofNat {n : ℕ} (h : n < 256) : (UInt8.ofNat n).toNat = n := by
  simp [Nat.mod_eq_of_lt h]

/-- Bytes are spelled back. -/
theorem bytes_sextets (bs : List UInt8) : bytes (sextets bs) = some bs := by
  induction bs using sextets.induct with
  | case1 a b c rest ih =>
    have ha := a.toNat_lt
    have hb := b.toNat_lt
    have hc := c.toNat_lt
    rw [sextets, bytes, ih, Option.map_some, ofNat_eq (b := a) (by omega),
      ofNat_eq (b := b) (by omega), ofNat_eq (b := c) (by omega)]
  | case2 a b =>
    have ha := a.toNat_lt
    have hb := b.toNat_lt
    rw [sextets, bytes, ofNat_eq (b := a) (by omega), ofNat_eq (b := b) (by omega)]
  | case3 a =>
    have ha := a.toNat_lt
    rw [sextets, bytes, ofNat_eq (b := a) (by omega)]
  | case4 => rfl

/-- Every number that bytes spell is below 64. -/
theorem sextets_lt (bs : List UInt8) : ∀ n ∈ sextets bs, n < 64 := by
  induction bs using sextets.induct with
  | case1 a b c rest ih =>
    have ha := a.toNat_lt
    have hb := b.toNat_lt
    have hc := c.toNat_lt
    intro n hn
    simp only [sextets, List.mem_cons] at hn
    rcases hn with rfl | rfl | rfl | rfl | hn
    · omega
    · omega
    · omega
    · omega
    · exact ih n hn
  | case2 a b =>
    have ha := a.toNat_lt
    have hb := b.toNat_lt
    intro n hn
    simp only [sextets, List.mem_cons, List.not_mem_nil, or_false] at hn
    omega
  | case3 a =>
    have ha := a.toNat_lt
    intro n hn
    simp only [sextets, List.mem_cons, List.not_mem_nil, or_false] at hn
    omega
  | case4 => simp [sextets]

/-- Numbers are those of the bytes they spell exactly when nothing is left over. -/
theorem sextets_eq_iff {ns : List ℕ} (hns : ∀ n ∈ ns, n < 64) {bs : List UInt8}
    (h : bytes ns = some bs) : sextets bs = ns ↔ leftover ns = 0 := by
  induction ns using bytes.induct generalizing bs with
  | case1 w x y z rest ih =>
    rw [bytes] at h
    obtain ⟨bs', hbs', rfl⟩ := Option.map_eq_some_iff.mp h
    have hw := hns w (by simp)
    have hx := hns x (by simp)
    have hy := hns y (by simp)
    have hz := hns z (by simp)
    rw [leftover, ← ih (fun n hn => hns n (by simp [hn])) hbs', sextets, toNat_ofNat (by omega),
      toNat_ofNat (by omega), toNat_ofNat (by omega)]
    simp only [List.cons.injEq]
    constructor
    · rintro ⟨-, -, -, -, hrest⟩
      exact hrest
    · intro hrest
      exact ⟨by omega, by omega, by omega, by omega, hrest⟩
  | case2 w x y =>
    obtain rfl := Option.some.inj h
    have hw := hns w (by simp)
    have hx := hns x (by simp)
    have hy := hns y (by simp)
    rw [leftover, sextets, toNat_ofNat (by omega), toNat_ofNat (by omega)]
    simp only [List.cons.injEq, and_true]
    omega
  | case3 w x =>
    obtain rfl := Option.some.inj h
    have hw := hns w (by simp)
    have hx := hns x (by simp)
    rw [leftover, sextets, toNat_ofNat (by omega)]
    simp only [List.cons.injEq, and_true]
    omega
  | case4 => simp [bytes] at h
  | case5 =>
    obtain rfl := Option.some.inj h
    simp [sextets, leftover]

/-! ## Texts -/

/-- A character of the alphabet, `[A-Za-z0-9_-]`. -/
def isDigit (c : Char) : Bool := isAsciiAlnum c || c == '-' || c == '_'

/-- The number that a character of the alphabet stands for. -/
def value (c : Char) : ℕ :=
  if 'A' ≤ c ∧ c ≤ 'Z' then c.toNat - 65
  else if 'a' ≤ c ∧ c ≤ 'z' then c.toNat - 71
  else if '0' ≤ c ∧ c ≤ '9' then c.toNat + 4
  else if c = '-' then 62
  else 63

/-- The character of the alphabet for a number. -/
def digit (n : ℕ) : Char :=
  if n < 26 then Char.ofNat (n + 65)
  else if n < 52 then Char.ofNat (n + 71)
  else if n < 62 then Char.ofNat (n - 4)
  else if n = 62 then '-'
  else '_'

/-- `urlsafe_b64encode`, stripped of its padding. -/
def encode (bs : List UInt8) : List Char := (sextets bs).map digit

/-- `b64decode` of a text over the URL-safe alphabet whose padding is restored. -/
def decode (text : List Char) : Option (List UInt8) :=
  if text.all isDigit then bytes (text.map value) else none

/-- The characters for numbers are in the alphabet and stand for them. -/
theorem isDigit_digit {n : ℕ} (h : n < 64) : isDigit (digit n) = true ∧ value (digit n) = n := by
  interval_cases n <;> decide

/-- Comparing characters is comparing their codes. -/
theorem char_le_iff (c d : Char) : c ≤ d ↔ c.toNat ≤ d.toNat := Iff.rfl

/-- A character of the alphabet stands for a number below 64, and is the character for it. -/
theorem digit_value {c : Char} (h : isDigit c = true) : value c < 64 ∧ digit (value c) = c := by
  simp only [isDigit, isAsciiAlnum, Bool.or_eq_true, Bool.and_eq_true, decide_eq_true_eq,
    beq_iff_eq, char_le_iff] at h
  have hA : ('A' : Char).toNat = 65 := rfl
  have hZ : ('Z' : Char).toNat = 90 := rfl
  have ha : ('a' : Char).toNat = 97 := rfl
  have hz : ('z' : Char).toNat = 122 := rfl
  have h0 : ('0' : Char).toNat = 48 := rfl
  have h9 : ('9' : Char).toNat = 57 := rfl
  have hback {n : ℕ} (hn : n = c.toNat) : Char.ofNat n = c := by rw [hn, Char.ofNat_toNat]
  simp only [value, char_le_iff, hA, hZ, ha, hz, h0, h9] at h ⊢
  rcases h with (((hupper | hlower) | hdigit) | rfl) | rfl
  · rw [if_pos hupper]
    refine ⟨by omega, ?_⟩
    rw [digit, if_pos (by omega), hback (by omega)]
  · rw [if_neg (by omega), if_pos hlower]
    refine ⟨by omega, ?_⟩
    rw [digit, if_neg (by omega), if_pos (by omega), hback (by omega)]
  · rw [if_neg (by omega), if_neg (by omega), if_pos hdigit]
    refine ⟨by omega, ?_⟩
    rw [digit, if_neg (by omega), if_neg (by omega), if_pos (by omega), hback (by omega)]
  · decide
  · decide

/-- The characters of a written text stand for the numbers of its bytes. -/
theorem map_value_encode (bs : List UInt8) : (encode bs).map value = sextets bs := by
  rw [encode, List.map_map]
  conv_rhs => rw [← List.map_id (sextets bs)]
  refine List.map_congr_left fun n hn => ?_
  exact (isDigit_digit (sextets_lt bs n hn)).2

/-- A text over the alphabet is that of its numbers. -/
theorem map_digit_value {text : List Char} (h : ∀ c ∈ text, isDigit c = true) :
    (text.map value).map digit = text := by
  rw [List.map_map]
  conv_rhs => rw [← List.map_id text]
  refine List.map_congr_left fun c hc => ?_
  exact (digit_value (h c hc)).2

/-- A written text is over the alphabet. -/
theorem all_isDigit_encode (bs : List UInt8) : (encode bs).all isDigit = true := by
  simp only [encode, List.all_map, List.all_eq_true, Function.comp_apply]
  exact fun n hn => (isDigit_digit (sextets_lt bs n hn)).1

/-- A written text is read back. -/
theorem decode_encode (bs : List UInt8) : decode (encode bs) = some bs := by
  rw [decode, if_pos (all_isDigit_encode bs), map_value_encode, bytes_sextets]

/-- A text that is read is the one written for its bytes exactly when its last character
leaves only zeros over. -/
theorem encode_eq_iff {text : List Char} {bs : List UInt8} (h : decode text = some bs) :
    encode bs = text ↔ leftover (text.map value) = 0 := by
  unfold decode at h
  split_ifs at h with hall
  rw [List.all_eq_true] at hall
  have hlt : ∀ n ∈ text.map value, n < 64 := by
    intro n hn
    obtain ⟨c, hc, rfl⟩ := List.mem_map.mp hn
    exact (digit_value (hall c hc)).1
  rw [← sextets_eq_iff hlt h]
  constructor
  · intro htext
    rw [← map_value_encode, htext]
  · intro hsextets
    rw [encode, hsextets, map_digit_value hall]

end ContributorGateway.Base64
