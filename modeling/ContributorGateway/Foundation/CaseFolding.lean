import ContributorGateway.Foundation.CaseMaps

/-!
# Case foldings

The two foldings of Unicode: the simple one maps characters to characters, and the full one may
map a character to several. Texts that agree when they are folded simply agree when they are
folded fully.
-/

namespace ContributorGateway

/-- The tables of the two foldings. A character and its simple folding are folded fully into the
same text. -/
structure FoldTables where
  full : Char → List Char
  simple : Char → Char
  full_simple : ∀ c, full (simple c) = full c

namespace FoldTables

variable (tables : FoldTables)

/-- `str.casefold`. -/
def casefold (text : List Char) : List Char := text.flatMap tables.full

/-- The simple folding of a text. -/
def simpleFold (text : List Char) : List Char := text.map tables.simple

/-- A text that was folded simply is still folded fully. -/
theorem casefold_simpleFold (text : List Char) :
    tables.casefold (tables.simpleFold text) = tables.casefold text := by
  rw [casefold, simpleFold, List.flatMap_map]
  exact List.flatMap_congr fun c _ => tables.full_simple c

/-- The full folding of a part is a part of the full folding. -/
theorem casefold_infix {part text : List Char} (h : part <:+: text) :
    tables.casefold part <:+: tables.casefold text := by
  obtain ⟨front, back, rfl⟩ := h
  refine ⟨tables.casefold front, tables.casefold back, ?_⟩
  simp only [casefold, List.flatMap_append]

/-- A text that contains another under the simple folding contains it under the full one. -/
theorem casefold_infix_of_simpleFold {part text : List Char}
    (h : tables.simpleFold part <:+: tables.simpleFold text) :
    tables.casefold part <:+: tables.casefold text := by
  have hfolded := tables.casefold_infix h
  rwa [casefold_simpleFold, casefold_simpleFold] at hfolded

end FoldTables

/-- The sharp s. -/
def sharpS : Char := Char.ofNat 0xdf

/-- The lowercase of a character is its own lowercase. -/
theorem toLower_toLower (c : Char) : c.toLower.toLower = c.toLower := by
  rcases toLower_cases c with ⟨⟨hlow, hhigh⟩, hval⟩ | hsame
  · rcases toLower_cases c.toLower with ⟨⟨-, hupper⟩, -⟩ | hsame
    · exfalso
      have hsum := congrArg UInt32.toNat hval
      have hlow : (65 : UInt32) ≤ c.val := hlow
      have hhigh : c.val ≤ (90 : UInt32) := hhigh
      have hupper : c.toLower.val ≤ (90 : UInt32) := hupper
      rw [UInt32.le_iff_toNat_le] at hlow hhigh hupper
      rw [UInt32.toNat_add] at hsum
      simp only [UInt32.reduceToNat] at hlow hhigh hupper hsum
      omega
    · exact hsame
  · rw [hsame, hsame]

/-- The foldings of ASCII letters and of the sharp s, whose full folding is two letters. -/
def sharpTables : FoldTables where
  full c := if c = sharpS then ['s', 's'] else [c.toLower]
  simple := Char.toLower
  full_simple c := by
    have hsharp : c.toLower = sharpS ↔ c = sharpS := by
      constructor
      · exact eq_of_toLower_eq (by decide)
      · rintro rfl
        decide
    rw [toLower_toLower]
    simp only [hsharp]

end ContributorGateway
