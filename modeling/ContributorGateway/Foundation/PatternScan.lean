import Mathlib.Data.List.Basic
import Mathlib.Tactic.SplitIfs

/-!
# Scans for a pattern

`re.finditer`: the matches of a pattern from left to right, each behind the one before. A
pattern is a function of the character in front of a position and of the text from there on.
-/

namespace ContributorGateway

/-- What a pattern captures at a position, and how long its match is. -/
abbrev Pattern (γ : Type) := Option Char → List Char → Option (γ × ℕ)

/-- `pattern.finditer(text)`; the characters to skip belong to the last match. -/
def finditer {γ : Type} (pattern : Pattern γ) : ℕ → Option Char → List Char → List γ
  | _, _, [] => []
  | skip + 1, _, c :: text => finditer pattern skip (some c) text
  | 0, before, c :: text =>
      match pattern before (c :: text) with
      | some (found, length) => found :: finditer pattern (length - 1) (some c) text
      | none => finditer pattern 0 (some c) text

/-- The captures of a pattern in a text. -/
def findAll {γ : Type} (pattern : Pattern γ) (text : List Char) : List γ :=
  finditer pattern 0 none text

/-- A word boundary between two characters or ends of a text. -/
def isBoundary (isWord : Char → Bool) (before after : Option Char) : Bool :=
  before.any isWord != after.any isWord

/-- What a scan finds is captured at some position. -/
theorem exists_of_mem_finditer {γ : Type} {pattern : Pattern γ} {skip : ℕ}
    {before : Option Char} {text : List Char} {found : γ}
    (h : found ∈ finditer pattern skip before text) :
    ∃ front rest length, pattern front rest = some (found, length) ∧ rest <:+ text := by
  induction text generalizing skip before with
  | nil =>
    rw [finditer] at h
    cases h
  | cons c text ih =>
    cases skip with
    | succ skip =>
      rw [finditer] at h
      obtain ⟨front, rest, length, hfound, hrest⟩ := ih h
      exact ⟨front, rest, length, hfound, hrest.trans (List.suffix_cons c text)⟩
    | zero =>
      rw [finditer] at h
      split at h
      · next captured length hmatch =>
        rcases List.mem_cons.mp h with rfl | h
        · exact ⟨before, c :: text, length, hmatch, List.suffix_rfl⟩
        · obtain ⟨front, rest, length, hfound, hrest⟩ := ih h
          exact ⟨front, rest, length, hfound, hrest.trans (List.suffix_cons c text)⟩
      · obtain ⟨front, rest, length, hfound, hrest⟩ := ih h
        exact ⟨front, rest, length, hfound, hrest.trans (List.suffix_cons c text)⟩

end ContributorGateway
