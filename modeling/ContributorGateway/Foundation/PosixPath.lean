import ContributorGateway.Foundation.Words
import Mathlib.Data.List.DropRight
import Mathlib.Data.List.Basic

/-!
# Pure POSIX paths

`pathlib.PurePosixPath` of Python: a text is a root and the names between its slashes,
without empty names and single dots. A path whose text is already of that form is its own
`as_posix`.
-/

namespace ContributorGateway

/-- The root and the names of a path. -/
@[ext]
structure PurePosixPath where
  root : List Char
  names : List (List Char)
  deriving DecidableEq

namespace PurePosixPath

/-- A name that a path drops: nothing between two slashes, or a single dot. -/
def isDropped (name : List Char) : Bool := name = [] || name = ['.']

/-- `PurePosixPath(text)`. Exactly two slashes in front are a root of their own. -/
def ofText (text : List Char) : PurePosixPath where
  root :=
    match text.takeWhile (· = '/') with
    | [] => []
    | ['/', '/'] => ['/', '/']
    | _ => ['/']
  names := (text.splitOn '/').filter fun name => !isDropped name

/-- `part in {"", ".", ".."}`. -/
def isDotPart (part : List Char) : Bool := part = [] || part = ['.'] || part = ['.', '.']

/-- `part.startswith(".")`. -/
def isHidden (part : List Char) : Bool := part.head? = some '.'

variable (path : PurePosixPath)

/-- `is_absolute()`. -/
def isAbsolute : Bool := path.root ≠ []

/-- `parts`. -/
def parts : List (List Char) := if path.root = [] then path.names else path.root :: path.names

/-- `as_posix()`. -/
def asPosix : List Char :=
  let text := path.root ++ ['/'].intercalate path.names
  if text = [] then ['.'] else text

/-- `name`. -/
def name : List Char := path.names.getLast?.getD []

/-- `suffix`: what follows the last dot of the name, with the dot, unless the dot is the
first or last character. -/
def suffix : List Char :=
  let extension := path.name.rtakeWhile (· ≠ '.')
  if extension.length + 1 < path.name.length ∧ extension ≠ [] then '.' :: extension else []

variable {path} {text : List Char}

/-- A path without a leading slash has no root. -/
theorem root_ofText (h : text.head? ≠ some '/') : (ofText text).root = [] := by
  cases text with
  | nil => rfl
  | cons c rest =>
    have hc : c ≠ '/' := by simpa using h
    simp [ofText, hc]

/-- No slash stands between two slashes. -/
theorem slash_not_mem_of_mem_splitOn {part : List Char} (h : part ∈ text.splitOn '/') :
    '/' ∉ part := by
  induction text generalizing part with
  | nil =>
    rw [List.splitOn_nil, List.mem_singleton] at h
    simp [h]
  | cons c rest ih =>
    rw [List.splitOn_cons_eq_if_modifyHead] at h
    split_ifs at h with hc
    · rcases List.mem_cons.mp h with rfl | h
      · simp
      · exact ih h
    · cases hsplit : rest.splitOn '/' with
      | nil => exact absurd hsplit (List.splitOn_ne_nil _ _)
      | cons first parts =>
        rw [hsplit, List.modifyHead_cons] at h
        rcases List.mem_cons.mp h with rfl | h
        · have hfirst : '/' ∉ first := ih (by simp [hsplit])
          have hne : '/' ≠ c := by
            rintro rfl
            simp at hc
          simp [hfirst, hne]
        · exact ih (by simp [hsplit, h])

/-- A name of a path: something without slashes that is not dropped. -/
def IsName (name : List Char) : Prop := '/' ∉ name ∧ isDropped name = false

theorem IsName.ne_nil {name : List Char} (h : IsName name) : name ≠ [] := by
  rintro rfl
  simp [IsName, isDropped] at h

/-- The names of a path are names. -/
theorem isName_of_mem_names {name : List Char} (h : name ∈ (ofText text).names) : IsName name := by
  obtain ⟨hmem, hkept⟩ := List.mem_filter.mp h
  exact ⟨slash_not_mem_of_mem_splitOn hmem, by simpa using hkept⟩

/-- Names joined by slashes do not start with a slash. -/
theorem head?_intercalate {names : List (List Char)} (hnames : ∀ name ∈ names, IsName name) :
    (['/'].intercalate names).head? ≠ some '/' := by
  cases names with
  | nil => simp
  | cons name rest =>
    obtain ⟨hslash, -⟩ := hnames name (by simp)
    have hne := (hnames name (by simp)).ne_nil
    cases name with
    | nil => exact absurd rfl hne
    | cons c tail =>
      have hc : c ≠ '/' := by
        rintro rfl
        simp at hslash
      cases rest with
      | nil => simpa using hc
      | cons next rest => simpa [List.intercalate_cons_cons] using hc

/-- Names joined by slashes are found between the slashes. -/
theorem splitOn_intercalate {names : List (List Char)} (hne : names ≠ [])
    (hnames : ∀ name ∈ names, IsName name) :
    (['/'].intercalate names).splitOn '/' = names :=
  List.splitOn_intercalate '/' (fun name hname => (hnames name hname).1) hne

/-- Names joined by slashes are not the empty text. -/
theorem intercalate_ne_nil {names : List (List Char)} (hne : names ≠ [])
    (hnames : ∀ name ∈ names, IsName name) : ['/'].intercalate names ≠ [] := by
  intro h
  have hsplit := splitOn_intercalate hne hnames
  rw [h, List.splitOn_nil] at hsplit
  exact (hnames [] (by simp [← hsplit])).ne_nil rfl

/-- Names joined by slashes are the path with these names. -/
theorem ofText_intercalate {names : List (List Char)} (hne : names ≠ [])
    (hnames : ∀ name ∈ names, IsName name) : ofText (['/'].intercalate names) = ⟨[], names⟩ := by
  refine PurePosixPath.ext (root_ofText (head?_intercalate hnames)) ?_
  rw [ofText, splitOn_intercalate hne hnames]
  refine List.filter_eq_self.mpr fun name hname => ?_
  simp [(hnames name hname).2]

/-- The text of a relative path with names. -/
theorem asPosix_eq_intercalate (hroot : path.root = []) (hne : path.names ≠ [])
    (hnames : ∀ name ∈ path.names, IsName name) :
    path.asPosix = ['/'].intercalate path.names := by
  rw [asPosix, hroot, List.nil_append]
  exact if_neg (intercalate_ne_nil hne hnames)

/-- The path of the text of a relative path with names. -/
theorem ofText_asPosix (hroot : (ofText text).root = []) (hne : (ofText text).names ≠ []) :
    ofText (ofText text).asPosix = ofText text := by
  have hnames : ∀ name ∈ (ofText text).names, IsName name := fun _ => isName_of_mem_names
  rw [asPosix_eq_intercalate hroot hne hnames, ofText_intercalate hne hnames, ← hroot]

/-- A text is the one that its relative path is written as exactly when the path drops
nothing between its slashes. -/
theorem asPosix_eq_iff (hroot : (ofText text).root = []) (hne : (ofText text).names ≠ []) :
    (ofText text).asPosix = text ↔ ∀ name ∈ text.splitOn '/', isDropped name = false := by
  have hnames : ∀ name ∈ (ofText text).names, IsName name := fun _ => isName_of_mem_names
  rw [asPosix_eq_intercalate hroot hne hnames]
  constructor
  · intro h name hname
    rw [← h, splitOn_intercalate hne hnames] at hname
    exact (hnames name hname).2
  · intro h
    have hkept : (ofText text).names = text.splitOn '/' :=
      List.filter_eq_self.mpr fun name hname => by simp [h name hname]
    rw [hkept, List.intercalate_splitOn]

/-! ## Suffixes -/

/-- What follows the last dot of a name is its suffix, if neither side of the dot is empty. -/
theorem suffix_eq {stem extension : List Char} (hname : path.name = stem ++ '.' :: extension)
    (hstem : stem ≠ []) (hextension : extension ≠ []) (hdot : '.' ∉ extension) :
    path.suffix = '.' :: extension := by
  have hall : ∀ c ∈ extension.reverse, (decide (c ≠ '.')) = true := by
    intro c hc
    rw [decide_eq_true_eq]
    rintro rfl
    exact hdot (List.mem_reverse.mp hc)
  have htake : path.name.rtakeWhile (· ≠ '.') = extension := by
    rw [hname, List.rtakeWhile, List.reverse_append, List.reverse_cons, List.append_assoc,
      List.takeWhile_append_of_pos hall, List.singleton_append, List.takeWhile_cons_of_neg (by simp),
      List.append_nil, List.reverse_reverse]
  have hlength : 0 < stem.length := List.length_pos_of_ne_nil hstem
  rw [suffix, htake]
  refine if_pos ⟨?_, hextension⟩
  rw [hname, List.length_append, List.length_cons]
  omega

/-- A name ends in its suffix. -/
theorem exists_stem_of_suffix (h : path.suffix ≠ []) : ∃ stem, path.name = stem ++ path.suffix := by
  have hsplit : path.name.rdropWhile (· ≠ '.') ++ path.name.rtakeWhile (· ≠ '.') = path.name :=
    List.rdropWhile_append_rtakeWhile
  rw [suffix] at h ⊢
  split_ifs at h ⊢ with hlong
  · have hstem : path.name.rdropWhile (· ≠ '.') ≠ [] := by
      intro hstem
      rw [hstem, List.nil_append] at hsplit
      rw [hsplit] at hlong
      omega
    have hlast := List.rdropWhile_last_not _ _ hstem
    rw [decide_eq_true_eq, not_not] at hlast
    have hfront := List.dropLast_append_getLast hstem
    rw [hlast] at hfront
    refine ⟨(path.name.rdropWhile (· ≠ '.')).dropLast, ?_⟩
    rw [← List.singleton_append, ← List.append_assoc, hfront, hsplit]
  · exact absurd rfl h

/-! ## Segments -/

/-- A text has certain segments in front of others exactly when it starts with them and a
slash. -/
theorem splitOn_eq_append_iff {segments : List (List Char)} (hne : segments ≠ [])
    (hslash : ∀ s ∈ segments, '/' ∉ s) :
    (∃ rest, rest ≠ [] ∧ text.splitOn '/' = segments ++ rest) ↔
      ['/'].intercalate segments ++ ['/'] <+: text := by
  constructor
  · rintro ⟨rest, hrest, hsplit⟩
    refine ⟨['/'].intercalate rest, ?_⟩
    have hback : ['/'].intercalate (text.splitOn '/') = text := List.intercalate_splitOn '/'
    rw [hsplit, Words.intercalate_append '/' hne hrest] at hback
    rw [← hback, List.append_assoc, List.singleton_append]
  · rintro ⟨rest, rfl⟩
    refine ⟨rest.splitOn '/', List.splitOn_ne_nil _ _, ?_⟩
    rw [List.append_assoc, List.singleton_append, List.splitOn_append_cons_self,
      List.splitOn_intercalate '/' hslash hne]

/-- A text starts with certain segments exactly when it is them, or starts with them and a
slash. -/
theorem startsWith_segments_iff {segments : List (List Char)} (hne : segments ≠ [])
    (hslash : ∀ s ∈ segments, '/' ∉ s) : segments <+: text.splitOn '/' ↔
      text = ['/'].intercalate segments ∨ ['/'].intercalate segments ++ ['/'] <+: text := by
  rw [← splitOn_eq_append_iff hne hslash]
  constructor
  · rintro ⟨rest, hsplit⟩
    by_cases hrest : rest = []
    · left
      rw [hrest, List.append_nil] at hsplit
      rw [hsplit, List.intercalate_splitOn]
    · exact .inr ⟨rest, hrest, hsplit.symm⟩
  · rintro (rfl | ⟨rest, -, hsplit⟩)
    · exact ⟨[], by rw [List.splitOn_intercalate '/' hslash hne, List.append_nil]⟩
    · exact ⟨rest, hsplit.symm⟩

end PurePosixPath

end ContributorGateway
