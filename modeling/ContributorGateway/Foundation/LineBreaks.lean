import ContributorGateway.Foundation.TextLines

/-!
# Lines of Python texts

`str.splitlines` breaks a text at many characters, of which three lie beyond ASCII. A line
that ends in a line feed is split into its own pieces, whatever follows.
-/

namespace ContributorGateway

/-- The characters where `str.splitlines` breaks a text. -/
def isLineBreak (c : Char) : Bool :=
  let n := c.toNat
  (10 ≤ n && n ≤ 13) || (28 ≤ n && n ≤ 30) || n == 0x85 || n == 0x2028 || n == 0x2029

/-- `str.splitlines` with the reversed beginning of the current line. -/
def splitlinesFrom (line : List Char) : List Char → List (List Char)
  | [] => if line = [] then [] else [line.reverse]
  | '\r' :: '\n' :: rest => line.reverse :: splitlinesFrom [] rest
  | c :: rest =>
      if isLineBreak c then line.reverse :: splitlinesFrom [] rest
      else splitlinesFrom (c :: line) rest

/-- `str.splitlines()`. -/
def splitlines (text : List Char) : List (List Char) := splitlinesFrom [] text

/-- The translation of line ends when a text stream is read. -/
def universalNewlines : List Char → List Char
  | [] => []
  | '\r' :: '\n' :: rest => '\n' :: universalNewlines rest
  | '\r' :: rest => '\n' :: universalNewlines rest
  | c :: rest => c :: universalNewlines rest

/-- A character other than a carriage return is kept or breaks the line. -/
theorem splitlinesFrom_cons {c : Char} (hc : c ≠ '\r') (line rest : List Char) :
    splitlinesFrom line (c :: rest) =
      if isLineBreak c then line.reverse :: splitlinesFrom [] rest
      else splitlinesFrom (c :: line) rest := by
  rw [splitlinesFrom.eq_def]
  split
  · contradiction
  · rename_i h
    exact absurd (List.cons.inj h).1 hc
  · rename_i h
    obtain ⟨rfl, rfl⟩ := List.cons.inj h
    rfl

/-- A line that ends in a line feed gives its pieces. -/
theorem splitlines_line {line : List Char} (hline : '\r' ∉ line) (rest : List Char) :
    splitlines (line ++ '\n' :: rest) = line.splitOnP isLineBreak ++ splitlines rest := by
  have hfrom : ∀ front : List Char, splitlinesFrom front (line ++ '\n' :: rest) =
      (line.splitOnP isLineBreak).modifyHead (front.reverse ++ ·) ++ splitlines rest := by
    induction line with
    | nil =>
      intro front
      rw [List.nil_append, splitlinesFrom_cons (by decide), if_pos (by decide)]
      simp [splitlines]
    | cons c line ih =>
      intro front
      have ih := ih fun hmem => hline (List.mem_cons_of_mem c hmem)
      have hc : c ≠ '\r' := by
        rintro rfl
        exact hline (List.mem_cons_self ..)
      rw [List.cons_append, splitlinesFrom_cons hc, List.splitOnP_cons_eq_if_modifyHead]
      split_ifs
      · rw [ih]
        obtain ⟨first, pieces, hsplit⟩ :=
          List.exists_cons_of_ne_nil (List.splitOnP_ne_nil isLineBreak line)
        simp [hsplit]
      · rw [ih, List.modifyHead_modifyHead]
        congr 2
        funext piece
        simp
  have hnil := hfrom []
  rw [splitlines, hnil]
  obtain ⟨first, pieces, hsplit⟩ :=
    List.exists_cons_of_ne_nil (List.splitOnP_ne_nil isLineBreak line)
  simp [hsplit]

/-- A text without carriage returns is read as it is. -/
theorem universalNewlines_eq {text : List Char} (htext : '\r' ∉ text) :
    universalNewlines text = text := by
  induction text with
  | nil => rfl
  | cons c text ih =>
    rw [universalNewlines.eq_def]
    split
    · contradiction
    · rename_i h
      obtain ⟨rfl, -⟩ := List.cons.inj h
      exact absurd (List.mem_cons_self ..) htext
    · rename_i h
      obtain ⟨rfl, -⟩ := List.cons.inj h
      exact absurd (List.mem_cons_self ..) htext
    · rename_i h
      obtain ⟨rfl, rfl⟩ := List.cons.inj h
      rw [ih fun hmem => htext (List.mem_cons_of_mem c hmem)]

/-- A text with a separator is its first piece, the separator and the rest. -/
theorem exists_first_piece {α : Type} {p : α → Bool} {text : List α}
    (h : ∃ c ∈ text, p c = true) :
    ∃ first c rest, text = first ++ c :: rest ∧ (∀ d ∈ first, p d = false) ∧ p c = true := by
  induction text with
  | nil => simp at h
  | cons c text ih =>
    cases hc : p c with
    | true => exact ⟨[], c, text, rfl, by simp, hc⟩
    | false =>
      have htext : ∃ d ∈ text, p d = true := by
        obtain ⟨d, hd, hpd⟩ := h
        rcases List.mem_cons.mp hd with rfl | hd
        · rw [hc] at hpd
          cases hpd
        · exact ⟨d, hd, hpd⟩
      obtain ⟨first, d, rest, rfl, hfirst, hd⟩ := ih htext
      refine ⟨c :: first, d, rest, rfl, ?_, hd⟩
      intro e he
      rcases List.mem_cons.mp he with rfl | he
      · exact hc
      · exact hfirst e he

/-- A piece of a split text stands between separators and ends, and has none itself. -/
theorem mem_splitOnP {α : Type} {p : α → Bool} {text piece : List α}
    (h : piece ∈ text.splitOnP p) :
    (∀ c ∈ piece, p c = false) ∧ ∃ front back, text = front ++ piece ++ back ∧
      (∀ c ∈ front.getLast?, p c = true) ∧ ∀ c ∈ back.head?, p c = true := by
  induction hlength : text.length using Nat.strong_induction_on generalizing text with
  | h n ih =>
    by_cases hsep : ∃ c ∈ text, p c = true
    · obtain ⟨first, c, rest, rfl, hfirst, hc⟩ := exists_first_piece hsep
      rw [List.splitOnP_append_cons _ _ hc, List.splitOnP_eq_singleton hfirst, List.mem_append,
        List.mem_singleton] at h
      rcases h with rfl | h
      · exact ⟨hfirst, [], c :: rest, by simp, by simp, by simpa using hc⟩
      · have hshort : rest.length < n := by
          rw [← hlength, List.length_append, List.length_cons]
          omega
        obtain ⟨hpiece, front, back, rfl, hfront, hback⟩ := ih rest.length hshort h rfl
        refine ⟨hpiece, first ++ c :: front, back, by simp, ?_, hback⟩
        intro d hd
        rw [List.getLast?_append_of_ne_nil _ (List.cons_ne_nil c front), List.getLast?_cons] at hd
        cases hlast : front.getLast? with
        | none =>
          rw [hlast] at hd
          cases hd
          exact hc
        | some e =>
          rw [hlast] at hd
          cases hd
          exact hfront e hlast
    · have hnone : ∀ c ∈ text, p c = false := by
        intro c hc
        cases hpc : p c with
        | true => exact absurd ⟨c, hc, hpc⟩ hsep
        | false => rfl
      rw [List.splitOnP_eq_singleton hnone, List.mem_singleton] at h
      subst h
      exact ⟨hnone, [], [], by simp, by simp, by simp⟩

end ContributorGateway
