import Mathlib.Data.List.Basic
import Mathlib.Data.List.Forall2
import Mathlib.Tactic.SplitIfs

/-!
# Case mappings of texts

`str.lower` as far as ASCII results depend on it: of the characters beyond ASCII, only the
Kelvin sign has an ASCII letter as its lowercase. Patterns that ignore case also match a long s
and the two letters i that have or lack their dot against the rules of English.
-/

namespace ContributorGateway

/-- The Kelvin sign. -/
def kelvinSign : Char := Char.ofNat 0x212a

/-- The lowercase of a character, as far as it is ASCII. -/
def lowerChar (c : Char) : Char := if c = kelvinSign then 'k' else c.toLower

/-- `str.lower` on texts whose lowercase is ASCII: it goes character by character. -/
def LowersAscii (lower : List Char → List Char) : Prop :=
  ∀ text word, (∀ c ∈ word, c.toNat < 128) → (lower text = word ↔ text.map lowerChar = word)

/-- The lowercase of a text has no `k` of a Kelvin sign if it has none at all. -/
theorem map_lowerChar_eq_iff {text word : List Char} (hkelvin : 'k' ∉ word)
    (hascii : ∀ c ∈ word, c.toNat < 128) :
    text.map lowerChar = word ↔ text.map Char.toLower = word := by
  induction text generalizing word with
  | nil => rfl
  | cons c text ih =>
    cases word with
    | nil => simp
    | cons d word =>
      rw [List.mem_cons, not_or] at hkelvin
      obtain ⟨hd, hascii⟩ := List.forall_mem_cons.mp hascii
      rw [List.map_cons, List.map_cons, List.cons.injEq, List.cons.injEq, ih hkelvin.2 hascii]
      refine and_congr_left fun _ => ?_
      rw [lowerChar]
      split_ifs with hc
      · subst hc
        have hkeep : kelvinSign.toLower = kelvinSign := by decide
        have hlarge : kelvinSign.toNat = 0x212a := by decide
        rw [hkeep]
        refine iff_of_false hkelvin.1 ?_
        rintro rfl
        omega
      · rfl

/-- The lowercase of a character is itself, unless it is an uppercase letter. -/
theorem toLower_cases (c : Char) :
    (('A' ≤ c ∧ c ≤ 'Z') ∧ c.toLower.val = c.val + 32) ∨ c.toLower = c := by
  by_cases hc : c.val ≥ 'A'.val ∧ c.val ≤ 'Z'.val
  · have hlower : c.toLower.val = c.val + 32 := by
      have hbranch : c.toLower = _ := dif_pos hc
      rw [hbranch]
      rfl
    exact .inl ⟨hc, hlower⟩
  · exact .inr (dif_neg hc)

/-- Only a character itself has it as its lowercase, unless it is a lowercase letter. -/
theorem eq_of_toLower_eq {c d : Char} (hd : d.toNat < 97 ∨ 122 < d.toNat) (h : c.toLower = d) :
    c = d := by
  rcases toLower_cases c with ⟨hc, hval⟩ | hsame
  · exfalso
    rw [h] at hval
    have hlow : (65 : UInt32) ≤ c.val := hc.1
    have hhigh : c.val ≤ (90 : UInt32) := hc.2
    have hsum := congrArg UInt32.toNat hval
    have hnat : d.toNat = d.val.toNat := rfl
    rw [UInt32.le_iff_toNat_le] at hlow hhigh
    rw [UInt32.toNat_add] at hsum
    simp only [UInt32.reduceToNat] at hlow hhigh hsum
    omega
  · rw [← hsame, h]

/-- A text without lowercase letters is the lowercase of itself alone. -/
theorem eq_of_map_toLower_eq {text word : List Char}
    (hword : (word.all fun d => d.toNat < 97 || 122 < d.toNat) = true)
    (h : text.map Char.toLower = word) : text = word := by
  subst h
  have hsame : ∀ c ∈ text, c = c.toLower := by
    intro c hc
    have hlower := List.all_eq_true.mp hword _ (List.mem_map_of_mem hc)
    rw [Bool.or_eq_true, decide_eq_true_eq, decide_eq_true_eq] at hlower
    exact eq_of_toLower_eq hlower rfl
  exact (List.map_congr_left fun c hc => (hsame c hc).symm).trans (List.map_id text) |>.symm

/-- A character that is its own lowercase stays in the lowercase of a text. -/
theorem not_mem_of_map_toLower {text word : List Char} {c : Char} (hc : c.toLower = c)
    (h : text.map Char.toLower = word) (hword : c ∉ word) : c ∉ text := by
  intro hmem
  refine hword ?_
  rw [← h, ← hc]
  exact List.mem_map_of_mem hmem

/-! ## Patterns that ignore case -/

/-- The long s. -/
def longS : Char := Char.ofNat 0x17f

/-- The lowercase i without a dot. -/
def dotlessI : Char := Char.ofNat 0x131

/-- The uppercase I with a dot. -/
def dottedI : Char := Char.ofNat 0x130

/-- The characters beyond ASCII that match an ASCII letter under `re.IGNORECASE`. -/
def foldedInto : Char → List Char
  | 'i' => [dotlessI, dottedI]
  | 'k' => [kelvinSign]
  | 's' => [longS]
  | _ => []

/-- Whether a character matches a character of a pattern under `re.IGNORECASE`. That of the
pattern is ASCII and not an uppercase letter. -/
def matchesChar (p c : Char) : Bool := c.toLower = p || (foldedInto p).contains c

/-- What follows a text that matches a pattern under `re.IGNORECASE`. -/
def dropPattern : List Char → List Char → Option (List Char)
  | [], text => some text
  | _ :: _, [] => none
  | p :: pattern, c :: text => if matchesChar p c then dropPattern pattern text else none

/-- A pattern is dropped exactly in front of the rest. -/
theorem dropPattern_eq_some_iff {pattern text rest : List Char} :
    dropPattern pattern text = some rest ↔
      ∃ front, text = front ++ rest ∧ List.Forall₂ (matchesChar · ·) pattern front := by
  induction pattern generalizing text with
  | nil =>
    rw [dropPattern, Option.some.injEq]
    constructor
    · rintro rfl
      exact ⟨[], rfl, .nil⟩
    · rintro ⟨front, rfl, hfront⟩
      rw [List.forall₂_nil_left_iff] at hfront
      rw [hfront, List.nil_append]
  | cons p pattern ih =>
    cases text with
    | nil =>
      rw [dropPattern]
      refine iff_of_false nofun ?_
      rintro ⟨front, htext, hfront⟩
      obtain ⟨d, letters, -, -, rfl⟩ := List.forall₂_cons_left_iff.mp hfront
      cases htext
    | cons c text =>
      rw [dropPattern]
      constructor
      · intro h
        split_ifs at h with hc
        obtain ⟨front, rfl, hfront⟩ := ih.mp h
        exact ⟨c :: front, rfl, .cons hc hfront⟩
      · rintro ⟨front, htext, hfront⟩
        obtain ⟨d, letters, hc, hletters, rfl⟩ := List.forall₂_cons_left_iff.mp hfront
        obtain ⟨rfl, rfl⟩ := List.cons.inj htext
        rw [if_pos hc]
        exact ih.mpr ⟨letters, rfl, hletters⟩

/-- A pattern in two parts is dropped part by part. -/
theorem dropPattern_append (first second text : List Char) :
    dropPattern (first ++ second) text = (dropPattern first text).bind (dropPattern second) := by
  induction first generalizing text with
  | nil => rfl
  | cons p first ih =>
    cases text with
    | nil => rfl
    | cons c text =>
      rw [List.cons_append, dropPattern, dropPattern, ih]
      split_ifs
      · rfl
      · rfl

/-- An ASCII character matches only its lowercase. -/
theorem toLower_of_matchesChar {p c : Char} (h : matchesChar p c = true) (hc : c.toNat < 128) :
    c.toLower = p := by
  rw [matchesChar, Bool.or_eq_true, decide_eq_true_eq] at h
  rcases h with h | h
  · exact h
  · exfalso
    rw [List.contains_iff_mem, foldedInto.eq_def] at h
    have hlarge : 128 ≤ dotlessI.toNat ∧ 128 ≤ dottedI.toNat ∧ 128 ≤ kelvinSign.toNat ∧
        128 ≤ longS.toNat := by decide
    obtain ⟨hdotless, hdotted, hkelvin, hlong⟩ := hlarge
    split at h
    · rcases List.mem_pair.mp h with rfl | rfl
      · omega
      · omega
    · rw [List.mem_singleton.mp h] at hc
      omega
    · rw [List.mem_singleton.mp h] at hc
      omega
    · cases h

/-- Every character of a text matches one of the pattern. -/
theorem exists_matchesChar {pattern text : List Char}
    (h : List.Forall₂ (matchesChar · ·) pattern text) {c : Char} (hc : c ∈ text) :
    ∃ p ∈ pattern, matchesChar p c = true := by
  induction h with
  | nil => cases hc
  | cons hmatch _ ih =>
    rcases List.mem_cons.mp hc with rfl | hc
    · exact ⟨_, List.mem_cons_self, hmatch⟩
    · obtain ⟨p, hp, hmatch⟩ := ih hc
      exact ⟨p, List.mem_cons_of_mem _ hp, hmatch⟩

/-- A text without foreign letters matches a pattern only in lowercase. -/
theorem map_toLower_of_matches {pattern text : List Char}
    (h : List.Forall₂ (matchesChar · ·) pattern text)
    (hforeign : ∀ p ∈ pattern, ∀ c ∈ foldedInto p, c ∉ text) :
    text.map Char.toLower = pattern := by
  induction h with
  | nil => rfl
  | @cons p c pattern text hc _ ih =>
    obtain ⟨hp, hpattern⟩ := List.forall_mem_cons.mp hforeign
    have hlower : c.toLower = p := by
      rw [matchesChar, Bool.or_eq_true, decide_eq_true_eq] at hc
      rcases hc with hc | hc
      · exact hc
      · exact absurd List.mem_cons_self (hp c (List.contains_iff_mem.mp hc))
    rw [List.map_cons, hlower, ih fun q hq d hd hmem =>
      hpattern q hq d hd (List.mem_cons_of_mem c hmem)]

end ContributorGateway
