import ContributorGateway.Foundation.PosixPath

/-!
# Where paths lead

The lexical rules by which a path leads from a directory to a place: slashes, parents and
absolute paths under POSIX, and also backslashes and drives under Windows. A path of plain
segments leads to a place below the directory under both.
-/

namespace ContributorGateway

open PurePosixPath

/-- The names that lead to the place that segments lead to from a directory. Nothing is above
the root. -/
def followSegments (directory : List (List Char)) : List (List Char) → List (List Char)
  | [] => directory
  | segment :: rest =>
      if isDropped segment then followSegments directory rest
      else if segment = ['.', '.'] then followSegments directory.dropLast rest
      else followSegments (directory ++ [segment]) rest

/-- The place that a text leads to under the rules of POSIX. -/
def posixTarget (directory : List (List Char)) (text : List Char) : List (List Char) :=
  if text.head? = some '/' then followSegments [] (text.splitOn '/')
  else followSegments directory (text.splitOn '/')

/-- A separator of Windows. -/
def isWindowsSeparator (c : Char) : Bool := c = '/' || c = '\\'

/-- The drive that a text starts with, if it does: a character and a colon, or two separators
in front of the name of a server. -/
def windowsDrive : List Char → Option (List Char)
  | c :: d :: rest =>
      if isWindowsSeparator c && isWindowsSeparator d then
        some (c :: d :: rest.takeWhile fun c => !isWindowsSeparator c)
      else if d = ':' then some [c, d]
      else none
  | _ => none

/-- The drive and the names that a text leads to under the rules of Windows. -/
def windowsTarget (drive : List Char) (directory : List (List Char)) (text : List Char) :
    List Char × List (List Char) :=
  match windowsDrive text with
  | some other =>
      (other, followSegments [] ((text.drop other.length).splitOnP isWindowsSeparator))
  | none =>
      if text.head?.any isWindowsSeparator then
        (drive, followSegments [] (text.splitOnP isWindowsSeparator))
      else (drive, followSegments directory (text.splitOnP isWindowsSeparator))

/-- A segment with a name that is not hidden. -/
def IsPlain (segment : List Char) : Prop := segment ≠ [] ∧ segment.head? ≠ some '.'

variable {segment text : List Char} {segments directory : List (List Char)}

/-- A plain segment is not dropped. -/
theorem IsPlain.not_isDropped (h : IsPlain segment) : isDropped segment = false := by
  rw [isDropped, Bool.or_eq_false_iff, decide_eq_false_iff_not, decide_eq_false_iff_not]
  refine ⟨h.1, ?_⟩
  rintro rfl
  exact h.2 rfl

/-- A plain segment is neither empty nor a dot segment. -/
theorem IsPlain.not_isDotPart (h : IsPlain segment) : isDotPart segment = false := by
  rw [isDotPart, Bool.or_eq_false_iff, decide_eq_false_iff_not]
  refine ⟨h.not_isDropped, ?_⟩
  rintro rfl
  exact h.2 rfl

/-- A plain segment is not hidden. -/
theorem IsPlain.not_isHidden (h : IsPlain segment) : isHidden segment = false := by
  rw [isHidden, decide_eq_false_iff_not]
  exact h.2

/-- A segment is plain when it is not empty and not hidden. -/
theorem isPlain_of_not (hne : segment ≠ []) (hhidden : isHidden segment = false) :
    IsPlain segment := by
  rw [isHidden, decide_eq_false_iff_not] at hhidden
  exact ⟨hne, hhidden⟩

/-- Plain segments lead down from a directory, one by one. -/
theorem followSegments_of_plain (h : ∀ segment ∈ segments, IsPlain segment) :
    followSegments directory segments = directory ++ segments := by
  induction segments generalizing directory with
  | nil => simp [followSegments]
  | cons segment rest ih =>
    obtain ⟨hplain, hrest⟩ := List.forall_mem_cons.mp h
    have hup : segment ≠ ['.', '.'] := by
      rintro rfl
      exact hplain.2 rfl
    rw [followSegments, hplain.not_isDropped, if_neg Bool.false_ne_true, if_neg hup, ih hrest,
      List.append_assoc, List.singleton_append]

/-- A text of plain segments does not start with a slash. -/
theorem head?_ne_slash (h : ∀ segment ∈ text.splitOn '/', IsPlain segment) :
    text.head? ≠ some '/' := by
  intro hhead
  obtain ⟨rest, rfl⟩ : ∃ rest, text = '/' :: rest := by
    cases text with
    | nil => cases hhead
    | cons c rest => exact ⟨rest, by rw [Option.some.inj hhead]⟩
  rw [List.splitOn_cons_eq_if_modifyHead] at h
  exact (h [] (by simp)).1 rfl

/-- A text of plain segments is a relative path with these names. -/
theorem ofText_of_plain (h : ∀ segment ∈ text.splitOn '/', IsPlain segment) :
    PurePosixPath.ofText text = ⟨[], text.splitOn '/'⟩ := by
  refine PurePosixPath.ext (root_ofText (head?_ne_slash h)) ?_
  refine List.filter_eq_self.mpr fun segment hsegment => ?_
  rw [(h segment hsegment).not_isDropped, Bool.not_false]

/-- A path of plain segments leads below the directory under the rules of POSIX. -/
theorem posixTarget_of_plain (h : ∀ segment ∈ text.splitOn '/', IsPlain segment) :
    posixTarget directory text = directory ++ text.splitOn '/' := by
  rw [posixTarget, if_neg (head?_ne_slash h), followSegments_of_plain h]

/-- A text is split alike by separators that agree on its characters. -/
theorem splitOnP_congr {p q : Char → Bool} (h : ∀ c ∈ text, p c = q c) :
    text.splitOnP p = text.splitOnP q := by
  induction text with
  | nil => rfl
  | cons c rest ih =>
    obtain ⟨hc, hrest⟩ := List.forall_mem_cons.mp h
    rw [List.splitOnP_cons_eq_if_modifyHead, List.splitOnP_cons_eq_if_modifyHead, hc, ih hrest]

/-- A path of plain segments without backslashes and drives leads below the directory under
the rules of Windows. -/
theorem windowsTarget_of_plain {drive : List Char} (hbackslash : '\\' ∉ text)
    (hdrive : windowsDrive text = none)
    (h : ∀ segment ∈ text.splitOn '/', IsPlain segment) :
    windowsTarget drive directory text = (drive, directory ++ text.splitOn '/') := by
  have hslash := head?_ne_slash h
  have hhead : text.head?.any isWindowsSeparator = false := by
    cases text with
    | nil => rfl
    | cons c rest =>
      have hc : c ≠ '/' := fun hc => hslash (by rw [hc]; rfl)
      have hc' : c ≠ '\\' := fun hc => hbackslash (by simp [hc])
      simp [isWindowsSeparator, hc, hc']
  have hsplit : text.splitOnP isWindowsSeparator = text.splitOn '/' := by
    rw [List.splitOn_eq_splitOnP]
    refine splitOnP_congr fun c hc => ?_
    have hc' : c ≠ '\\' := fun hc' => hbackslash (hc' ▸ hc)
    rw [isWindowsSeparator, decide_eq_false hc', Bool.or_false]
    rfl
  rw [windowsTarget, hdrive]
  dsimp only
  rw [hhead, if_neg Bool.false_ne_true, hsplit, followSegments_of_plain h]

end ContributorGateway
