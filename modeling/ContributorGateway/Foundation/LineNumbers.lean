import ContributorGateway.Foundation.LineBreaks

/-!
# Numbers of lines

The lines of `str.splitlines` with the breaks that end them. A line has the same number among
the lines that line feeds end alone exactly if every break before it has a line feed.
-/

namespace ContributorGateway

/-- `str.splitlines` with the break that ends each line, from a line on that has begun. -/
def brokenLinesFrom (line : List Char) : List Char → List (List Char × List Char)
  | [] => if line = [] then [] else [(line.reverse, [])]
  | '\r' :: '\n' :: rest => (line.reverse, ['\r', '\n']) :: brokenLinesFrom [] rest
  | c :: rest =>
      if isLineBreak c then (line.reverse, [c]) :: brokenLinesFrom [] rest
      else brokenLinesFrom (c :: line) rest

/-- The lines of a text with their breaks. -/
def brokenLines (text : List Char) : List (List Char × List Char) := brokenLinesFrom [] text

/-- A break: a line feed, perhaps after a carriage return, or another character. -/
def IsBreak (ending : List Char) : Prop :=
  ending = [] ∨ ending = ['\r', '\n'] ∨ ∃ c, ending = [c]

/-- A line with its break: the break alone may have a line feed. -/
def IsBrokenLine (line : List Char × List Char) : Prop := '\n' ∉ line.1 ∧ IsBreak line.2

/-- A character that is not before a line feed breaks the line or belongs to it. -/
theorem brokenLinesFrom_cons {c : Char} {rest : List Char}
    (hpair : ∀ rest', c = '\r' → rest = '\n' :: rest' → False) (line : List Char) :
    brokenLinesFrom line (c :: rest) =
      if isLineBreak c then (line.reverse, [c]) :: brokenLinesFrom [] rest
      else brokenLinesFrom (c :: line) rest := by
  rw [brokenLinesFrom]
  exact hpair

/-- The lines are those of `str.splitlines`. -/
theorem map_fst_brokenLinesFrom (line text : List Char) :
    (brokenLinesFrom line text).map Prod.fst = splitlinesFrom line text := by
  induction line, text using brokenLinesFrom.induct with
  | case1 => rfl
  | case2 line hline => simp [brokenLinesFrom, splitlinesFrom, hline]
  | case3 line rest ih => rw [brokenLinesFrom, splitlinesFrom, List.map_cons, ih]
  | case4 line c rest hpair hbreak ih =>
    rw [brokenLinesFrom_cons hpair, if_pos hbreak, splitlinesFrom, if_pos hbreak, List.map_cons, ih]
    exact hpair
  | case5 line c rest hpair hbreak ih =>
    rw [brokenLinesFrom_cons hpair, if_neg hbreak, splitlinesFrom, if_neg hbreak, ih]
    exact hpair

/-- The lines with their breaks are the text. -/
theorem flatMap_brokenLinesFrom (line text : List Char) :
    (brokenLinesFrom line text).flatMap (fun l => l.1 ++ l.2) = line.reverse ++ text := by
  induction line, text using brokenLinesFrom.induct with
  | case1 => rfl
  | case2 line hline => simp [brokenLinesFrom, hline]
  | case3 line rest ih => simp [brokenLinesFrom, ih]
  | case4 line c rest hpair hbreak ih =>
    rw [brokenLinesFrom_cons hpair, if_pos hbreak, List.flatMap_cons, ih]
    simp
  | case5 line c rest hpair hbreak ih =>
    rw [brokenLinesFrom_cons hpair, if_neg hbreak, ih]
    simp

/-- Every line has a break of its own. -/
theorem isBrokenLine_of_mem {line text : List Char} (hline : '\n' ∉ line)
    {l : List Char × List Char} (hl : l ∈ brokenLinesFrom line text) : IsBrokenLine l := by
  induction line, text using brokenLinesFrom.induct with
  | case1 => cases hl
  | case2 line hne =>
    rw [brokenLinesFrom, if_neg hne, List.mem_singleton] at hl
    subst hl
    exact ⟨by simpa using hline, .inl rfl⟩
  | case3 line rest ih =>
    rw [brokenLinesFrom] at hl
    rcases List.mem_cons.mp hl with rfl | hl
    · exact ⟨by simpa using hline, .inr (.inl rfl)⟩
    · exact ih List.not_mem_nil hl
  | case4 line c rest hpair hbreak ih =>
    rw [brokenLinesFrom_cons hpair, if_pos hbreak] at hl
    rcases List.mem_cons.mp hl with rfl | hl
    · exact ⟨by simpa using hline, .inr (.inr ⟨c, rfl⟩)⟩
    · exact ih List.not_mem_nil hl
  | case5 line c rest hpair hbreak ih =>
    rw [brokenLinesFrom_cons hpair, if_neg hbreak] at hl
    refine ih ?_ hl
    rw [List.mem_cons, not_or]
    refine ⟨?_, hline⟩
    rintro rfl
    exact hbreak (by decide)

/-- The lines are those of `str.splitlines`. -/
theorem map_fst_brokenLines (text : List Char) : (brokenLines text).map Prod.fst = splitlines text :=
  map_fst_brokenLinesFrom [] text

/-- A break with a line feed. -/
def IsNewlineBreak (ending : List Char) : Prop := ending = ['\n'] ∨ ending = ['\r', '\n']

instance : DecidablePred IsNewlineBreak := fun _ => inferInstanceAs (Decidable (_ ∨ _))

/-- A line with its break has at most one line feed, and one exactly if its break has. -/
theorem IsBrokenLine.count {l : List Char × List Char} (h : IsBrokenLine l) :
    (l.1 ++ l.2).count '\n' ≤ 1 ∧ ((l.1 ++ l.2).count '\n' = 1 ↔ IsNewlineBreak l.2) := by
  obtain ⟨hline, hbreak⟩ := h
  rw [List.count_append, List.count_eq_zero_of_not_mem hline, Nat.zero_add, IsNewlineBreak]
  rcases hbreak with hend | hend | ⟨c, hend⟩
  · rw [hend]
    decide
  · rw [hend]
    decide
  · rw [hend]
    by_cases hc : c = '\n'
    · rw [hc]
      decide
    · simp [hc]

/-- The text before the line with a number. -/
def beforeLine (text : List Char) (number : ℕ) : List Char :=
  ((brokenLines text).take (number - 1)).flatMap fun l => l.1 ++ l.2

/-- The text before a line is the front of the text. -/
theorem beforeLine_prefix (text : List Char) (number : ℕ) : beforeLine text number <+: text := by
  refine ⟨((brokenLines text).drop (number - 1)).flatMap fun l => l.1 ++ l.2, ?_⟩
  rw [beforeLine, ← List.flatMap_append, List.take_append_drop]
  exact flatMap_brokenLinesFrom [] text

/-- Lines have as many line feeds as they are if and only if each ends in one. -/
theorem count_flatMap_eq_length_iff {lines : List (List Char × List Char)}
    (h : ∀ l ∈ lines, IsBrokenLine l) :
    (lines.flatMap fun l => l.1 ++ l.2).count '\n' ≤ lines.length ∧
      ((lines.flatMap fun l => l.1 ++ l.2).count '\n' = lines.length ↔
        ∀ l ∈ lines, IsNewlineBreak l.2) := by
  induction lines with
  | nil => exact ⟨Nat.le_refl _, iff_of_true rfl nofun⟩
  | cons l lines ih =>
    obtain ⟨hl, hlines⟩ := List.forall_mem_cons.mp h
    obtain ⟨hle, hiff⟩ := hl.count
    obtain ⟨hles, hiffs⟩ := ih hlines
    rw [List.flatMap_cons, List.count_append, List.length_cons, List.forall_mem_cons, ← hiff,
      ← hiffs]
    omega

/-- The number of a line counts line feeds alone if and only if every break before it has one. -/
theorem number_eq_iff {text : List Char} {number : ℕ} (hpos : 1 ≤ number)
    (hnumber : number ≤ (splitlines text).length) :
    number = 1 + (beforeLine text number).count '\n' ↔
      ∀ l ∈ (brokenLines text).take (number - 1), IsNewlineBreak l.2 := by
  have hbroken : ∀ l ∈ (brokenLines text).take (number - 1), IsBrokenLine l := fun l hl =>
    isBrokenLine_of_mem List.not_mem_nil (List.mem_of_mem_take hl)
  obtain ⟨-, hiff⟩ := count_flatMap_eq_length_iff hbroken
  rw [← map_fst_brokenLines, List.length_map] at hnumber
  rw [List.length_take_of_le (by omega)] at hiff
  rw [← hiff, beforeLine]
  omega

end ContributorGateway
