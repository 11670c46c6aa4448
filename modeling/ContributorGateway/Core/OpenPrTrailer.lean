import ContributorGateway.Core.OpenPr

/-!
# The idempotency trailer

`_create_commit` writes the idempotency key into the commit message behind the title
and the caller, and `_head_idempotency_key` takes the first line that looks like a
trailer. The title comes first, so a title that is itself a trailer hides the key.
-/

namespace ContributorGateway.OpenPr

/-- A trailer line with this text behind its name. -/
def trailerLine (text : String) : String := "Idempotency-Key: " ++ text

/-- A line is a trailer exactly when a key stands behind the name. -/
theorem trailerKey_eq_some_iff {line key : String} :
    trailerKey line.toList = some key ↔ line = trailerLine key ∧ isIdempotencyKey key = true := by
  unfold trailerKey trailerLine
  constructor
  · intro h
    split_ifs at h with hprefix
    dsimp only at h
    split_ifs at h with hkey
    rw [Option.some.injEq] at h
    obtain ⟨rest, hrest⟩ := List.isPrefixOf_iff_prefix.mp hprefix
    have hdrop : line.toList.drop "Idempotency-Key: ".length = rest := by
      rw [← hrest, ← String.length_toList, List.drop_left]
    rw [hdrop] at h hkey
    subst h
    refine ⟨?_, hkey⟩
    apply String.ext
    rw [← hrest, String.toList_append, List.append_cancel_left_eq, String.toList_ofList]
  · rintro ⟨rfl, hkey⟩
    have hprefix : "Idempotency-Key: ".toList.isPrefixOf
        ("Idempotency-Key: " ++ key).toList = true := by
      rw [String.toList_append]
      exact List.isPrefixOf_iff_prefix.mpr (List.prefix_append _ _)
    have hdrop : ("Idempotency-Key: " ++ key).toList.drop "Idempotency-Key: ".length =
        key.toList := by
      rw [String.toList_append, ← String.length_toList, List.drop_left]
    rw [if_pos hprefix, hdrop, String.ofList_toList, if_pos hkey]

/-- A key has no line break. -/
theorem newline_not_mem_of_isIdempotencyKey {key : String} (hkey : isIdempotencyKey key = true) :
    '\n' ∉ key.toList := by
  intro hmem
  simp only [isIdempotencyKey, matchesClass, Bool.and_eq_true, List.all_eq_true] at hkey
  exact absurd (hkey.2 _ hmem) (by decide)

/-- A title has no line break. -/
theorem newline_not_mem_of_isTitle {title : String} (htitle : isTitle title = true) :
    '\n' ∉ title.toList := by
  intro hmem
  simp only [isTitle, Bool.and_eq_true, Bool.not_eq_true', List.any_eq_false] at htitle
  exact htitle.2 _ hmem (by decide)

/-- The lines of a commit message. -/
theorem splitOn_commitMessage {title identity key : String} (htitle : '\n' ∉ title.toList)
    (hidentity : '\n' ∉ identity.toList) (hkey : '\n' ∉ key.toList) :
    (commitMessage title identity key).toList.splitOn '\n' =
      [title.toList, [], ("Proposed-by: " ++ identity).toList, (trailerLine key).toList, []] := by
  have hmessage : (commitMessage title identity key).toList =
      title.toList ++ '\n' :: ([] ++ '\n' :: (("Proposed-by: " ++ identity).toList ++
        '\n' :: ((trailerLine key).toList ++ '\n' :: []))) := by
    simp [commitMessage, trailerLine, String.toList_append]
  have hcaller : '\n' ∉ ("Proposed-by: " ++ identity).toList := by
    simp [String.toList_append, hidentity]
  have htrailer : '\n' ∉ (trailerLine key).toList := by
    simp [trailerLine, String.toList_append, hkey]
  rw [hmessage, List.splitOn_append_cons_self_of_not_mem htitle,
    List.splitOn_append_cons_self_of_not_mem (by simp),
    List.splitOn_append_cons_self_of_not_mem hcaller,
    List.splitOn_append_cons_self_of_not_mem htrailer, List.splitOn_nil]

/-- The key that is read back from a message: the title decides when it is a trailer. -/
theorem searchTrailer_commitMessage {title identity key : String}
    (htitle : isTitle title = true) (hkey : isIdempotencyKey key = true)
    (hidentity : '\n' ∉ identity.toList) :
    searchTrailer (commitMessage title identity key) =
      some ((trailerKey title.toList).getD key) := by
  have hcaller : trailerKey ("Proposed-by: " ++ identity).toList = none := by
    rw [trailerKey, if_neg]
    simp [String.toList_append]
  have htrailer : trailerKey (trailerLine key).toList = some key :=
    trailerKey_eq_some_iff.mpr ⟨rfl, hkey⟩
  have hempty : trailerKey [] = none := rfl
  rw [searchTrailer, splitOn_commitMessage (newline_not_mem_of_isTitle htitle) hidentity
    (newline_not_mem_of_isIdempotencyKey hkey)]
  simp only [List.findSome?_cons, hempty, hcaller, htrailer]
  cases trailerKey title.toList <;> rfl

/-- **Round trip.** For an accepted title and key and a caller without line breaks, the
key is read back from the message exactly unless the title is itself a trailer with
another key. -/
theorem readBack_iff_title_not_trailer (titleArg keyArg : PyValue) {title key : String}
    (identity : String) (htitle : validateTitle titleArg = .ok title)
    (hkey : validateIdempotencyKey keyArg = .ok key) (hidentity : '\n' ∉ identity.toList) :
    searchTrailer (commitMessage title identity key) = some key ↔
      ¬ ∃ other, other ≠ key ∧ isIdempotencyKey other = true ∧ title = trailerLine other := by
  rw [searchTrailer_commitMessage (checkedStr_eq_ok htitle).2 (checkedStr_eq_ok hkey).2 hidentity,
    Option.some.injEq]
  constructor
  · rintro hread ⟨other, hne, hother, hline⟩
    rw [trailerKey_eq_some_iff.mpr ⟨hline, hother⟩, Option.getD_some] at hread
    exact hne hread
  · intro hnone
    cases hline : trailerKey title.toList with
    | none => rfl
    | some other =>
      obtain ⟨htrailer, hother⟩ := trailerKey_eq_some_iff.mp hline
      rw [Option.getD_some]
      by_contra hne
      exact hnone ⟨other, hne, hother, htrailer⟩

/-- A key is read back from behind an ordinary title. -/
theorem readBack_ordinary_title :
    searchTrailer (commitMessage "Add lift notes" "github:alice" "session-1") =
      some "session-1" :=
  (readBack_iff_title_not_trailer (.str "Add lift notes") (.str "session-1") "github:alice"
    rfl rfl (by decide)).mpr
    (by
      rintro ⟨other, -, -, hline⟩
      have := congrArg (fun s => s.toList.head?) hline
      simp [trailerLine, String.toList_append] at this)

/-- A title that looks like a trailer is read back in place of the key. -/
theorem title_hides_key :
    ¬ ∀ (titleArg keyArg : PyValue) (title key identity : String),
      validateTitle titleArg = .ok title → validateIdempotencyKey keyArg = .ok key →
      '\n' ∉ identity.toList →
      searchTrailer (commitMessage title identity key) = some key := by
  intro h
  have hread := h (.str "Idempotency-Key: aaaaaaaa") (.str "bbbbbbbb") _ _ "github:alice"
    rfl rfl (by decide)
  exact absurd hread (by decide)

end ContributorGateway.OpenPr
