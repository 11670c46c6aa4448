import ContributorGateway.Core.PathSafety
import ContributorGateway.Foundation.CaseMaps
import ContributorGateway.Foundation.PathTargets
import Mathlib.Data.List.Infix

/-!
# The grammar of accepted paths

The checks of `validate_relative_path`, spread over the raw text and two parsers of paths,
accept exactly the paths of a plain grammar of segments. Such a path leads below the content
root under the rules of POSIX and of Windows.
-/

namespace ContributorGateway.RepositoryContent

open PurePosixPath

/-- A name that ends in an allowed suffix, whatever the case of its letters. -/
def EndsInSuffix (name : List Char) : Prop :=
  ∃ stem ending, name = stem ++ ending ∧ ending.map Char.toLower ∈ allowedSuffixes

/-- The grammar of the paths of the repository. -/
structure PathGrammar (path : List Char) : Prop where
  nul : nul ∉ path
  backslash : '\\' ∉ path
  segments : ∀ segment ∈ path.splitOn '/', IsPlain segment
  excludedFile : path ∉ excludedFiles
  excludedPrefix : ∀ p ∈ excludedPrefixes, ¬ p <+: path
  place : path ∈ approvedRootFiles ∨ ∃ first middle last,
    path.splitOn '/' = first :: (middle ++ [last]) ∧ first ∈ approvedRootDirectories ∧
      EndsInSuffix last

variable {lower : List Char → List Char} {path : List Char}

/-! ## Suffixes -/

/-- An allowed suffix is a dot and lowercase letters, none of them a `k`. -/
theorem allowedSuffixes_spelled : ∀ suffix ∈ allowedSuffixes, ∃ extension,
    suffix = '.' :: extension ∧ extension ≠ [] ∧ '.' ∉ extension ∧
      (∀ c ∈ suffix, c.toNat < 128) ∧ 'k' ∉ suffix := by
  have hspelled : ∀ suffix ∈ allowedSuffixes, suffix.head? = some '.' ∧ suffix.tail ≠ [] ∧
      suffix.tail.all (· ≠ '.') = true ∧ suffix.all (fun c => c.toNat < 128 && c ≠ 'k') = true := by
    decide
  intro suffix hsuffix
  obtain ⟨hhead, htail, hdot, hletters⟩ := hspelled suffix hsuffix
  obtain ⟨extension, rfl⟩ : ∃ extension, suffix = '.' :: extension := by
    cases suffix with
    | nil => cases hhead
    | cons c extension => exact ⟨extension, by rw [Option.some.inj hhead]⟩
  rw [List.all_eq_true] at hdot hletters
  refine ⟨extension, rfl, htail, fun h => ?_, fun c hc => ?_, fun h => ?_⟩
  · simpa using hdot '.' h
  · have hc := hletters c hc
    rw [Bool.and_eq_true, decide_eq_true_eq] at hc
    exact hc.1
  · simpa using hletters 'k' h

/-- The lowercase of a text is an allowed suffix exactly when the text is one but for the case
of its letters. -/
theorem lower_mem_allowedSuffixes (hlower : LowersAscii lower) (ending : List Char) :
    lower ending ∈ allowedSuffixes ↔ ending.map Char.toLower ∈ allowedSuffixes := by
  have heq : ∀ suffix ∈ allowedSuffixes, lower ending = suffix ↔
      ending.map Char.toLower = suffix := by
    intro suffix hsuffix
    obtain ⟨-, -, -, -, hascii, hkelvin⟩ := allowedSuffixes_spelled suffix hsuffix
    rw [hlower ending suffix hascii, map_lowerChar_eq_iff hkelvin hascii]
  constructor
  · intro h
    exact (heq _ h).mp rfl ▸ h
  · intro h
    exact (heq _ h).mpr rfl ▸ h

/-- The suffix of a visible name is allowed exactly when the name ends in an allowed suffix. -/
theorem suffix_allowed_iff (hlower : LowersAscii lower) {p : PurePosixPath}
    (hplain : IsPlain p.name) : lower p.suffix ∈ allowedSuffixes ↔ EndsInSuffix p.name := by
  rw [lower_mem_allowedSuffixes hlower]
  constructor
  · intro h
    have hne : p.suffix ≠ [] := by
      intro hnil
      rw [hnil] at h
      obtain ⟨extension, hspelled, -⟩ := allowedSuffixes_spelled _ h
      cases hspelled
    obtain ⟨stem, hstem⟩ := exists_stem_of_suffix hne
    exact ⟨stem, p.suffix, hstem, h⟩
  · rintro ⟨stem, ending, hname, h⟩
    obtain ⟨extension, hspelled, hextension, hdot, -⟩ := allowedSuffixes_spelled _ h
    obtain ⟨c, letters, rfl, hc, hletters⟩ := List.map_eq_cons_iff.mp hspelled
    obtain rfl := eq_of_toLower_eq (.inl (by decide)) hc
    have hstem : stem ≠ [] := by
      rintro rfl
      exact hplain.2 (by rw [hname]; rfl)
    have hsuffix : p.suffix = '.' :: letters := by
      refine suffix_eq hname hstem ?_ ?_
      · rintro rfl
        exact hextension hletters.symm
      · intro hmem
        exact hdot (hletters ▸ List.mem_map.mpr ⟨'.', hmem, rfl⟩)
    rwa [hsuffix]

/-! ## Admission -/

/-- A root file is a single segment. -/
theorem splitOn_of_rootFile (h : path ∈ approvedRootFiles) : (path.splitOn '/').length = 1 := by
  have hsingle : ∀ file ∈ approvedRootFiles, (file.splitOn '/').length = 1 := by decide
  exact hsingle path h

/-- Where a path of several plain segments may stand. -/
theorem place_iff (hlower : LowersAscii lower) {first : List Char} {rest : List (List Char)}
    (hplain : ∀ segment ∈ path.splitOn '/', IsPlain segment)
    (hsplit : path.splitOn '/' = first :: rest) (hrest : rest ≠ []) :
    (path ∈ approvedRootFiles ∨ ∃ first middle last,
      path.splitOn '/' = first :: (middle ++ [last]) ∧ first ∈ approvedRootDirectories ∧
        EndsInSuffix last) ↔
      first ∈ approvedRootDirectories ∧
        lower (PurePosixPath.mk [] (path.splitOn '/')).suffix ∈ allowedSuffixes := by
  have hfile : path ∉ approvedRootFiles := by
    intro hfile
    have hlength := splitOn_of_rootFile hfile
    rw [hsplit, List.length_cons] at hlength
    have hpos := List.length_pos_of_ne_nil hrest
    omega
  have hname : (PurePosixPath.mk [] (path.splitOn '/')).name = rest.getLast hrest := by
    rw [PurePosixPath.name, hsplit, List.getLast?_cons, List.getLast?_eq_some_getLast hrest]
    rfl
  have hlast : IsPlain (PurePosixPath.mk [] (path.splitOn '/')).name := by
    rw [hname]
    refine hplain _ ?_
    rw [hsplit]
    exact List.mem_cons_of_mem _ (List.getLast_mem hrest)
  rw [suffix_allowed_iff hlower hlast, hname, or_iff_right hfile]
  constructor
  · rintro ⟨first', middle, last, hsplit', hfirst, hends⟩
    obtain ⟨rfl, rfl⟩ := List.cons.inj (hsplit.symm.trans hsplit')
    rw [List.getLast_append_singleton]
    exact ⟨hfirst, hends⟩
  · rintro ⟨hfirst, hends⟩
    refine ⟨first, rest.dropLast, rest.getLast hrest, ?_, hfirst, hends⟩
    rw [List.dropLast_append_getLast, hsplit]

/-- The policy admits a path of plain segments exactly when the grammar has it. -/
theorem isAdmitted_of_plain (hlower : LowersAscii lower) (hnul : nul ∉ path)
    (hbackslash : '\\' ∉ path) (hplain : ∀ segment ∈ path.splitOn '/', IsPlain segment) :
    ∃ admitted, isAdmittedRepositoryPath lower path = some admitted ∧
      (admitted = true ↔ PathGrammar path) := by
  have hne : path ≠ [] := by
    rintro rfl
    exact (hplain [] (List.mem_singleton.mpr rfl)).1 rfl
  have hdotted : ((path.splitOn '/').any fun part => isDotPart part || isHidden part) = false := by
    refine List.any_eq_false.mpr fun part hpart => ?_
    rw [(hplain part hpart).not_isDotPart, (hplain part hpart).not_isHidden]
    exact Bool.false_ne_true
  have hparts : (PurePosixPath.mk [] (path.splitOn '/')).parts = path.splitOn '/' := rfl
  have habsolute : (PurePosixPath.mk [] (path.splitOn '/')).isAbsolute = false := rfl
  rw [isAdmittedRepositoryPath, if_neg (by simp [hne, hnul, hbackslash]), ofText_of_plain hplain]
  dsimp only
  rw [hparts, habsolute, hdotted, Bool.or_false, if_neg Bool.false_ne_true]
  by_cases hexcluded : (decide (path ∈ excludedFiles) ||
      excludedPrefixes.any fun p => p.isPrefixOf path) = true
  · refine ⟨false, if_pos hexcluded, iff_of_false Bool.false_ne_true fun hgrammar => ?_⟩
    rw [Bool.or_eq_true, decide_eq_true_eq, List.any_eq_true] at hexcluded
    rcases hexcluded with hfile | ⟨p, hp, hstarts⟩
    · exact hgrammar.excludedFile hfile
    · exact hgrammar.excludedPrefix p hp (List.isPrefixOf_iff_prefix.mp hstarts)
  rw [if_neg hexcluded]
  rw [Bool.or_eq_true, not_or, decide_eq_true_eq, List.any_eq_true] at hexcluded
  obtain ⟨hfile, hprefix⟩ := hexcluded
  have hprefix : ∀ p ∈ excludedPrefixes, ¬ p <+: path := fun p hp hstarts =>
    hprefix ⟨p, hp, List.isPrefixOf_iff_prefix.mpr hstarts⟩
  obtain ⟨first, rest, hsplit⟩ := List.exists_cons_of_ne_nil (List.splitOn_ne_nil '/' path)
  by_cases hrest : rest = []
  · subst hrest
    rw [if_pos (by rw [hsplit]; rfl)]
    refine ⟨_, rfl, ?_⟩
    rw [decide_eq_true_eq]
    constructor
    · intro hroot
      exact ⟨hnul, hbackslash, hplain, hfile, hprefix, .inl hroot⟩
    · rintro ⟨-, -, -, -, -, hroot | ⟨first', middle, last, hsplit', -⟩⟩
      · exact hroot
      · have hnil := (List.cons.inj (hsplit.symm.trans hsplit')).2
        exact absurd hnil.symm (List.append_ne_nil_of_right_ne_nil _ (List.cons_ne_nil _ _))
  · have hlength : (path.splitOn '/').length ≠ 1 := by
      rw [hsplit, List.length_cons]
      have hpos := List.length_pos_of_ne_nil hrest
      omega
    have hplace := place_iff hlower hplain hsplit hrest
    rw [if_neg hlength]
    have hgrammar : PathGrammar path ↔ first ∈ approvedRootDirectories ∧
        lower (PurePosixPath.mk [] (path.splitOn '/')).suffix ∈ allowedSuffixes := by
      rw [← hplace]
      exact ⟨PathGrammar.place, fun h => ⟨hnul, hbackslash, hplain, hfile, hprefix, h⟩⟩
    rw [hgrammar]
    split
    · next hnil => exact absurd (hsplit.symm.trans hnil) (List.cons_ne_nil _ _)
    · next root rest' hroot =>
      obtain ⟨rfl, rfl⟩ := List.cons.inj (hsplit.symm.trans hroot)
      by_cases hfirst : first ∈ approvedRootDirectories
      · refine ⟨_, if_neg (not_not.mpr hfirst), ?_⟩
        rw [decide_eq_true_eq, and_iff_right hfirst]
      · exact ⟨false, if_pos hfirst, iff_of_false Bool.false_ne_true fun h => hfirst h.1⟩

/-! ## Raw text -/

/-- Two slashes in a row leave an empty segment between them. -/
theorem nil_mem_of_hasEmptySegment (h : hasEmptySegment path = true) : [] ∈ path.splitOn '/' := by
  obtain ⟨rest, hrest, hslashes⟩ := List.any_eq_true.mp h
  obtain ⟨front, rfl⟩ := (List.mem_tails _ _).mp hrest
  obtain ⟨back, rfl⟩ := List.isPrefixOf_iff_prefix.mp hslashes
  rw [List.cons_append, List.singleton_append, List.splitOn_append_cons_self]
  refine List.mem_append_right _ ?_
  rw [List.splitOn_cons_eq_if_modifyHead, if_pos (beq_self_eq_true '/')]
  exact List.mem_cons_self

/-- A path in an approved place has no drive. -/
theorem windowsDrive_eq_none (h : path ∈ approvedRootFiles ∨ ∃ first rest,
    path.splitOn '/' = first :: rest ∧ rest ≠ [] ∧ first ∈ approvedRootDirectories) :
    windowsDrive path = none := by
  have hfiles : ∀ file ∈ approvedRootFiles, windowsDrive file = none := by decide
  rcases h with hfile | ⟨first, rest, hsplit, hrest, hfirst⟩
  · exact hfiles path hfile
  · have hjoin : ['/'].intercalate (path.splitOn '/') = path := List.intercalate_splitOn '/'
    rw [hsplit, List.intercalate_cons_of_ne_nil hrest] at hjoin
    rw [← hjoin]
    simp only [approvedRootDirectories, List.map_cons, List.map_nil, List.mem_cons,
      List.not_mem_nil, or_false] at hfirst
    rcases hfirst with rfl | rfl | rfl | rfl | rfl <;> rfl

/-- A path of the grammar has no drive. -/
theorem PathGrammar.windowsDrive_eq_none (h : PathGrammar path) : windowsDrive path = none := by
  refine RepositoryContent.windowsDrive_eq_none (h.place.imp_right ?_)
  rintro ⟨first, middle, last, hsplit, hfirst, -⟩
  exact ⟨first, middle ++ [last], hsplit, by simp, hfirst⟩

/-- A drive of the check is one under the rules of Windows. -/
theorem hasDrive_eq_false (h : windowsDrive path = none) : hasDrive path = false := by
  rw [hasDrive.eq_def]
  split
  · next letter rest =>
    have hcolon : windowsDrive (letter :: ':' :: rest) = some [letter, ':'] := by
      have hseparator : isWindowsSeparator ':' = false := by decide
      rw [windowsDrive, hseparator, Bool.and_false, if_neg Bool.false_ne_true, if_pos rfl]
    rw [hcolon] at h
    cases h
  · rfl

/-- An admitted path of plain segments without a drive passes every check. -/
theorem validateRelativePath_of_plain (hnul : nul ∉ path) (hbackslash : '\\' ∉ path)
    (hplain : ∀ segment ∈ path.splitOn '/', IsPlain segment) (hdrive : windowsDrive path = none)
    (hadmitted : isAdmittedRepositoryPath lower path = some true) :
    validateRelativePath lower path = .ok path := by
  have hne : path ≠ [] := by
    rintro rfl
    exact (hplain [] (List.mem_singleton.mpr rfl)).1 rfl
  have hempty : hasEmptySegment path = false := by
    rw [Bool.eq_false_iff]
    intro hempty
    exact (hplain [] (nil_mem_of_hasEmptySegment hempty)).1 rfl
  have hdot : (path.splitOn '/').any isDotPart = false :=
    List.any_eq_false.mpr fun part hpart => by simp [(hplain part hpart).not_isDotPart]
  have hhidden : (path.splitOn '/').any isHidden = false :=
    List.any_eq_false.mpr fun part hpart => by simp [(hplain part hpart).not_isHidden]
  have hok : validateRelativePath lower path = .ok (PurePosixPath.ofText path).asPosix := by
    have habsolute : (PurePosixPath.mk [] (path.splitOn '/')).isAbsolute = false := rfl
    rw [validateRelativePath, if_neg (by simp [hne, hnul]), if_neg hbackslash, hempty,
      if_neg Bool.false_ne_true, ofText_of_plain hplain]
    dsimp only
    rw [habsolute, hasDrive_eq_false hdrive, Bool.or_false, if_neg Bool.false_ne_true, hdot,
      if_neg Bool.false_ne_true, hhidden, if_neg Bool.false_ne_true, hadmitted]
  rw [validateRelativePath_self hok] at hok
  exact hok

/-- A path of the grammar passes every check. -/
theorem validateRelativePath_of_grammar (hlower : LowersAscii lower) (h : PathGrammar path) :
    validateRelativePath lower path = .ok path := by
  obtain ⟨admitted, hadmitted, hiff⟩ := isAdmitted_of_plain hlower h.nul h.backslash h.segments
  rw [hiff.mpr h] at hadmitted
  exact validateRelativePath_of_plain h.nul h.backslash h.segments h.windowsDrive_eq_none hadmitted

/-- A path that passes every check is one of the grammar. -/
theorem grammar_of_validateRelativePath (hlower : LowersAscii lower) {path' : List Char}
    (h : validateRelativePath lower path = .ok path') : PathGrammar path := by
  obtain ⟨hadmitted, -, -, -, hdot⟩ := validateRelativePath_eq_ok h
  rw [validateRelativePath] at h
  dsimp only at h
  split_ifs at h with hempty hbackslash hdouble habsolute hdotted hhidden
  rw [not_or] at hempty
  have hplain : ∀ segment ∈ path.splitOn '/', IsPlain segment := by
    intro segment hsegment
    refine isPlain_of_not ?_ ?_
    · rintro rfl
      exact Bool.false_ne_true (hdot [] hsegment).symm
    · rw [Bool.not_eq_true, List.any_eq_false] at hhidden
      exact Bool.not_eq_true _ ▸ hhidden segment hsegment
  obtain ⟨admitted, hadmitted', hiff⟩ := isAdmitted_of_plain hlower hempty.2 hbackslash hplain
  rw [hadmitted] at hadmitted'
  exact hiff.mp (Option.some.inj hadmitted').symm

/-- A path that fails a check raises `UnsafePathError`: the policy never fails otherwise on a
path that reaches it. -/
theorem unsafePath_of_not_grammar (hlower : LowersAscii lower) (h : ¬ PathGrammar path) :
    ∃ message, validateRelativePath lower path = .error (.unsafePath message) := by
  rw [validateRelativePath]
  dsimp only
  split_ifs with hempty hbackslash hdouble habsolute hdotted hhidden
  · exact ⟨_, rfl⟩
  · exact ⟨_, rfl⟩
  · exact ⟨_, rfl⟩
  · exact ⟨_, rfl⟩
  · exact ⟨_, rfl⟩
  · exact ⟨_, rfl⟩
  rw [not_or] at hempty
  rw [Bool.not_eq_true, List.any_eq_false] at hdotted hhidden
  have hplain : ∀ segment ∈ path.splitOn '/', IsPlain segment := by
    intro segment hsegment
    refine isPlain_of_not ?_ (Bool.not_eq_true _ ▸ hhidden segment hsegment)
    rintro rfl
    exact hdotted [] hsegment rfl
  obtain ⟨admitted, hadmitted, hiff⟩ := isAdmitted_of_plain hlower hempty.2 hbackslash hplain
  have hrefused : admitted = false := by
    rw [Bool.eq_false_iff]
    exact fun hadmitted => h (hiff.mp hadmitted)
  rw [hadmitted, hrefused]
  exact ⟨_, rfl⟩

/-- `validate_relative_path` returns a text unchanged exactly when it is a path of the grammar,
and raises `UnsafePathError` otherwise. What it returns leads below the content root, whatever
that is, under the rules of POSIX and of Windows. -/
theorem validateRelativePath_iff_grammar (hlower : LowersAscii lower) (path : List Char) :
    (validateRelativePath lower path = .ok path ↔ PathGrammar path) ∧
      (∀ path', validateRelativePath lower path = .ok path' → path' = path) ∧
      (¬ PathGrammar path →
        ∃ message, validateRelativePath lower path = .error (.unsafePath message)) ∧
      (∀ path', validateRelativePath lower path = .ok path' → ∀ drive root,
        posixTarget root path' = root ++ path.splitOn '/' ∧
          windowsTarget drive root path' = (drive, root ++ path.splitOn '/')) := by
  refine ⟨⟨grammar_of_validateRelativePath hlower, validateRelativePath_of_grammar hlower⟩,
    fun path' => validateRelativePath_self, unsafePath_of_not_grammar hlower, ?_⟩
  intro path' h drive root
  obtain rfl := validateRelativePath_self h
  have hgrammar := grammar_of_validateRelativePath hlower h
  exact ⟨posixTarget_of_plain hgrammar.segments, windowsTarget_of_plain hgrammar.backslash
    hgrammar.windowsDrive_eq_none hgrammar.segments⟩

/-- A file of the documentation, and a path that climbs out of it. -/
theorem grammar_docs :
    (validateRelativePath (fun text => text.map lowerChar) "docs/Note.MD".toList =
        .ok "docs/Note.MD".toList ↔ PathGrammar "docs/Note.MD".toList) ∧
      PathGrammar "docs/Note.MD".toList ∧ ¬ PathGrammar "docs/../README.md".toList := by
  have hlower : LowersAscii fun text => text.map lowerChar := fun _ _ _ => Iff.rfl
  obtain ⟨hiff, -⟩ := validateRelativePath_iff_grammar hlower "docs/Note.MD".toList
  refine ⟨hiff, hiff.mp (by decide), fun h => ?_⟩
  exact (h.segments "..".toList (by decide)).2 rfl

end ContributorGateway.RepositoryContent
