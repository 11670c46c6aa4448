import Mathlib.Data.List.Basic
import Mathlib.Data.List.DropRight
import Mathlib.Data.List.Infix

/-!
# Words and tokens

A text is words between separators. Whether a token occurs in it with no word character on
either side depends on the words alone; whether two tokens follow each other depends on the
words and, when they are searched as one text, on what stands between them.
-/

namespace ContributorGateway.Words

variable {α : Type} (p : α → Bool)

/-- The words of a text. -/
def words (text : List α) : List (List α) := (text.splitOnP p).filter fun word => word ≠ []

/-- The words of a text with one separator between them. -/
def collapse (sep : α) (text : List α) : List α := [sep].intercalate (words p text)

/-- Nothing, or something that satisfies the predicate. -/
def AtEnd (q : α → Bool) (c : Option α) : Prop := ∀ a ∈ c, q a = true

variable {p} {text word : List α}

/-! ## Words -/

/-- The words of a text have no separators in them. -/
theorem mem_words {word : List α} (hword : word ∈ words p text) :
    word ≠ [] ∧ ∀ c ∈ word, p c = false := by
  obtain ⟨hmem, hne⟩ := List.mem_filter.mp hword
  refine ⟨by simpa using hne, ?_⟩
  clear hword hne
  induction text generalizing word with
  | nil => simp_all
  | cons c text ih =>
    rw [List.splitOnP_cons_eq_if_modifyHead] at hmem
    split_ifs at hmem with hc
    · rcases List.mem_cons.mp hmem with rfl | hmem
      · simp
      · exact ih hmem
    · obtain ⟨first, rest, hsplit⟩ := List.exists_cons_of_ne_nil (List.splitOnP_ne_nil p text)
      rw [hsplit] at hmem ih
      rcases List.mem_cons.mp hmem with rfl | hmem
      · intro d hd
        rcases List.mem_cons.mp hd with rfl | hd
        · simpa using hc
        · exact ih (List.mem_cons_self ..) d hd
      · exact ih (List.mem_cons_of_mem _ hmem)

/-- Pieces are joined to what follows them by one more separator. -/
theorem intercalate_append (sep : α) {pieces rest : List (List α)} (hne : pieces ≠ [])
    (hrest : rest ≠ []) : [sep].intercalate (pieces ++ rest) =
      [sep].intercalate pieces ++ sep :: [sep].intercalate rest := by
  induction pieces with
  | nil => exact absurd rfl hne
  | cons piece tail ih =>
    rw [List.cons_append, List.intercalate_cons_of_ne_nil (by simp [hrest])]
    by_cases htail : tail = []
    · simp [htail]
    · rw [ih htail, List.intercalate_cons_of_ne_nil htail]
      simp

variable {q : α → Bool} {token first second : List α}

/-- A joined text has separators and members of its pieces. -/
theorem mem_intercalate {sep c : α} {pieces : List (List α)}
    (h : c ∈ [sep].intercalate pieces) : c = sep ∨ ∃ piece ∈ pieces, c ∈ piece := by
  induction pieces with
  | nil => cases h
  | cons piece pieces ih =>
    by_cases hnil : pieces = []
    · rw [hnil, List.intercalate_singleton] at h
      exact .inr ⟨piece, List.mem_cons_self .., h⟩
    · rw [List.intercalate_cons_of_ne_nil hnil] at h
      simp only [List.mem_append, List.mem_singleton] at h
      rcases h with (h | h) | h
      · exact .inr ⟨piece, List.mem_cons_self .., h⟩
      · exact .inl h
      · rcases ih h with h | ⟨piece', hmem, hc⟩
        · exact .inl h
        · exact .inr ⟨piece', List.mem_cons_of_mem _ hmem, hc⟩

/-- A collapsed text has no other separators than the new one. -/
theorem mem_collapse {sep c : α} (h : c ∈ collapse p sep text) : c = sep ∨ p c = false := by
  rcases mem_intercalate h with h | ⟨word, hword, hc⟩
  · exact .inl h
  · exact .inr ((mem_words hword).2 c hc)

end ContributorGateway.Words
