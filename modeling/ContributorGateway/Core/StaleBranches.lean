import ContributorGateway.Foundation.CaseMaps
import ContributorGateway.Foundation.GitRefs
import ContributorGateway.Foundation.PatternScan
import ContributorGateway.Foundation.PythonText
import Mathlib.Data.List.Dedup
import Mathlib.Data.List.Sort

/-!
# Stale-branch notices

The notices of the project context about branches that the handoff names. The declared names
are as long as the class of their characters allows, so that the punctuation of a sentence
becomes part of them.
-/

namespace ContributorGateway.ProjectContext

/-! ## The source -/

/-- A character that the class `[a-z0-9]` matches under `re.IGNORECASE`. -/
def isNameStart (c : Char) : Bool :=
  isAsciiAlnum c || [dottedI, dotlessI, longS, kelvinSign].contains c

/-- The punctuation in the class of the rest of a name. -/
def isMark (c : Char) : Bool := ['.', '_', '/', '-'].contains c

/-- A character that the class of the rest of a name matches under `re.IGNORECASE`. -/
def isNameChar (c : Char) : Bool := isNameStart c || isMark c

/-- The backquote. -/
def backquote : Char := Char.ofNat 0x60

/-- The text behind a backquote, if it starts with one. -/
def dropBackquote : List Char → List Char
  | [] => []
  | c :: rest => if c = backquote then rest else c :: rest

/-- The group of a match behind the word `branch`: a colon between whitespace, perhaps a
backquote, and the longest name; and the text behind the match. -/
def declaredName (text : List Char) : Option (List Char × List Char) :=
  match text.dropWhile isSpace with
  | ':' :: rest =>
      match dropBackquote (rest.dropWhile isSpace) with
      | c :: name =>
          if isNameStart c then
            some ((c :: name).takeWhile isNameChar, (c :: name).dropWhile isNameChar)
          else none
      | [] => none
  | _ => none

/-- `BRANCH_DECLARATION`, with the class `\w` as a parameter. -/
def branchDeclaration (isWord : Char → Bool) : Pattern (List Char) := fun before text =>
  if isBoundary isWord before text.head? then
    (dropPattern "branch".toList text).bind fun rest =>
      (declaredName rest).map fun (name, rest) => (name, text.length - rest.length)
  else none

/-- The names of `NAMED_STALE_BRANCH`. -/
def staleNames : List (List Char) :=
  ["native-port", "decomp-campaign", "linked", "main"].map String.toList

/-- The text behind a match of `\s+branch\b`. -/
def dropBranchWord (isWord : Char → Bool) (text : List Char) : Option (List Char) :=
  if text.head?.any isSpace then
    (dropPattern "branch".toList (text.dropWhile isSpace)).filter fun rest =>
      isBoundary isWord (some 'h') rest.head?
  else none

/-- `NAMED_STALE_BRANCH`. -/
def namedStaleBranch (isWord : Char → Bool) : Pattern (List Char) := fun before text =>
  if isBoundary isWord before text.head? then
    staleNames.findSome? fun name =>
      (dropPattern name text).bind fun rest =>
        (dropBranchWord isWord rest).map fun after =>
          (text.take name.length, text.length - after.length)
  else none

/-- `str.casefold` of a character that the class of a name matches. -/
def foldChar (c : Char) : List Char :=
  if c = longS then ['s']
  else if c = kelvinSign then ['k']
  else if c = dottedI then ['i', Char.ofNat 0x307]
  else [c.toLower]

/-- `name.casefold()`. -/
def casefold (name : List Char) : List Char := name.flatMap foldChar

/-- The names of the branch that is served. -/
def masterNames : List (List Char) := ["master", "refs/heads/master"].map String.toList

/-- The order in which a set of texts is iterated. -/
structure SetOrder where
  iterate : List (List Char) → List (List Char)
  perm : ∀ texts, (iterate texts).Perm texts

/-- `MAX_STATE_CHARS`. -/
def maxStateChars : ℕ := 1000

/-- What a notice says before the name of the branch. -/
def noticeStart : List Char :=
  "Stale branch notice: docs/decomp/_next_session.md names ".toList

/-- The notice about a branch. -/
def notice (commit branch : List Char) : List Char :=
  (noticeStart ++ branch ++
    "; the served snapshot is refs/heads/master at ".toList ++ commit ++ ['.']).take maxStateChars

/-- The names that `BRANCH_DECLARATION` captures in a text. -/
def declaredBranches (isWord : Char → Bool) (text : List Char) : List (List Char) :=
  findAll (branchDeclaration isWord) text

/-- The names that `NAMED_STALE_BRANCH` captures in a text. -/
def namedBranches (isWord : Char → Bool) (text : List Char) : List (List Char) :=
  findAll (namedStaleBranch isWord) text

/-- `_stale_branch_states` for the text of the handoff. -/
def staleBranchStates (isWord : Char → Bool) (order : SetOrder) (commit text : List Char) :
    List (List Char) :=
  let declared := (declaredBranches isWord text).filter fun name =>
    !masterNames.contains (casefold name)
  let branches := order.iterate (declared ++ namedBranches isWord text).dedup
  (branches.insertionSort fun a b => casefold a ≤ casefold b).map (notice commit)

/-! ## Names in notices -/

/-- The name that a notice gives. -/
def noticeName (state : List Char) : List Char :=
  (state.drop noticeStart.length).takeWhile (· ≠ ';')

/-- How much of a name a notice has room for. -/
def shownChars : ℕ := maxStateChars - noticeStart.length

/-- A declared name says the branch that is served, but for the punctuation behind it. -/
def SaysMaster (name : List Char) : Prop := casefold (name.rdropWhile isMark) ∈ masterNames

/-- A text whose only declarations of a branch say the one that is served. -/
def SaysOnlyMaster (isWord : Char → Bool) (text : List Char) : Prop :=
  (∀ name ∈ declaredBranches isWord text, SaysMaster name) ∧ namedBranches isWord text = []

/-- The notices about a text name branches other than the one that is served, and there are none
if the text says only that. -/
structure NoticesExact (isWord : Char → Bool) (order : SetOrder) (commit text : List Char) :
    Prop where
  branches : ∀ state ∈ staleBranchStates isWord order commit text,
    IsGitBranch (noticeName state) ∧ casefold (noticeName state) ∉ masterNames
  silent : SaysOnlyMaster isWord text → staleBranchStates isWord order commit text = []

variable {isWord : Char → Bool} {order : SetOrder} {commit text name : List Char}

/-- A name of the class that the declarations capture. -/
structure IsRun (name : List Char) : Prop where
  start : ∃ c rest, name = c :: rest ∧ isNameStart c = true
  characters : ∀ c ∈ name, isNameChar c = true

/-- A declared name is one of the class. -/
theorem isRun_of_declaredName {rest : List Char} (h : declaredName text = some (name, rest)) :
    IsRun name := by
  rw [declaredName] at h
  split at h
  · split at h
    · next c tail _ =>
      split_ifs at h with hc
      obtain ⟨rfl, -⟩ := Prod.mk.inj (Option.some.inj h)
      have hchar : isNameChar c = true := by rw [isNameChar, hc, Bool.true_or]
      refine ⟨⟨c, tail.takeWhile isNameChar, ?_, hc⟩, fun d hd => List.mem_takeWhile_imp hd⟩
      rw [List.takeWhile_cons_of_pos hchar]
    · cases h
  · cases h

/-- The expression captures names of the class. -/
theorem isRun_of_mem_declaredBranches (h : name ∈ declaredBranches isWord text) : IsRun name := by
  obtain ⟨before, rest, length, hfound, -⟩ := exists_of_mem_finditer h
  rw [branchDeclaration] at hfound
  split_ifs at hfound
  obtain ⟨behind, -, hmap⟩ := Option.bind_eq_some_iff.mp hfound
  obtain ⟨⟨name', after⟩, hname, hpair⟩ := Option.map_eq_some_iff.mp hmap
  obtain ⟨rfl, -⟩ := Prod.mk.inj hpair
  exact isRun_of_declaredName hname

/-- The other expression captures one of its names, in any case. -/
theorem matches_of_mem_namedBranches (h : name ∈ namedBranches isWord text) :
    ∃ pattern ∈ staleNames, List.Forall₂ (matchesChar · ·) pattern name := by
  obtain ⟨before, rest, length, hfound, -⟩ := exists_of_mem_finditer h
  rw [namedStaleBranch] at hfound
  split_ifs at hfound
  obtain ⟨pattern, hpattern, hbind⟩ := List.exists_of_findSome?_eq_some hfound
  obtain ⟨behind, hdrop, hmap⟩ := Option.bind_eq_some_iff.mp hbind
  obtain ⟨after, -, hpair⟩ := Option.map_eq_some_iff.mp hmap
  obtain ⟨rfl, -⟩ := Prod.mk.inj hpair
  obtain ⟨front, rfl, hfront⟩ := dropPattern_eq_some_iff.mp hdrop
  refine ⟨pattern, hpattern, ?_⟩
  rw [hfront.length_eq, List.take_left]
  exact hfront

/-- A character of a name is a letter, a digit or one of a few others. -/
theorem isNameChar_iff {c : Char} : isNameChar c = true ↔
    isAsciiAlnum c = true ∨
      c ∈ [dottedI, dotlessI, longS, kelvinSign] ∨ c ∈ ['.', '_', '/', '-'] := by
  rw [isNameChar, isNameStart, isMark, Bool.or_eq_true, Bool.or_eq_true, List.contains_iff_mem,
    List.contains_iff_mem, or_assoc]

/-- A letter or digit is not a mark. -/
theorem toNat_of_isAsciiAlnum {c : Char} (h : isAsciiAlnum c = true) :
    (48 ≤ c.toNat ∧ c.toNat ≤ 57) ∨ (65 ≤ c.toNat ∧ c.toNat ≤ 90) ∨
      (97 ≤ c.toNat ∧ c.toNat ≤ 122) := by
  simp only [isAsciiAlnum, Bool.or_eq_true, Bool.and_eq_true, decide_eq_true_eq, Char.le_def,
    UInt32.le_iff_toNat_le] at h
  have hnat : c.toNat = c.val.toNat := rfl
  simp only [UInt32.reduceToNat, Char.reduceVal] at h
  omega

/-- A letter or digit is not a certain character that is neither. -/
theorem ne_of_isAsciiAlnum {c d : Char} (h : isAsciiAlnum c = true) (hd : isAsciiAlnum d = false) :
    c ≠ d := by
  rintro rfl
  rw [h] at hd
  cases hd

/-- No character of a name is refused in the name of a reference. -/
theorem plain_of_isNameChar {c : Char} (h : isNameChar c = true) :
    (isRefusedInRef c = false ∧ c ≠ '@') ∧ c ≠ ';' := by
  have hmarks : (([dottedI, dotlessI, longS, kelvinSign] ++ ['.', '_', '/', '-']).all fun d =>
      !isRefusedInRef d && d ≠ '@' && d ≠ ';') = true := by decide
  have hplain : c ∈ [dottedI, dotlessI, longS, kelvinSign] ++ ['.', '_', '/', '-'] →
      (isRefusedInRef c = false ∧ c ≠ '@') ∧ c ≠ ';' := by
    intro hmem
    simpa using List.all_eq_true.mp hmarks c hmem
  rcases isNameChar_iff.mp h with halnum | hforeign | hmark
  · have hnat := toNat_of_isAsciiAlnum halnum
    refine ⟨⟨?_, ne_of_isAsciiAlnum halnum (by decide)⟩, ne_of_isAsciiAlnum halnum (by decide)⟩
    have hlist : ([' ', '~', '^', ':', '?', '*', '[', '\\'].all fun d => !isAsciiAlnum d) = true := by
      decide
    have hcontains : [' ', '~', '^', ':', '?', '*', '[', '\\'].contains c = false := by
      rw [Bool.eq_false_iff]
      intro hmem
      have hnot := List.all_eq_true.mp hlist c (List.contains_iff_mem.mp hmem)
      rw [halnum] at hnot
      cases hnot
    rw [isRefusedInRef, hcontains, Bool.or_false, Bool.or_eq_false_iff, decide_eq_false_iff_not,
      decide_eq_false_iff_not]
    omega
  · exact hplain (List.mem_append_left _ hforeign)
  · exact hplain (List.mem_append_right _ hmark)

/-- A name of the class does not start with a mark. -/
theorem plain_of_isNameStart {c : Char} (h : isNameStart c = true) : c ≠ '/' ∧ c ≠ '.' ∧ c ≠ '-' := by
  refine ⟨?_, ?_, ?_⟩
  all_goals
    rintro rfl
    exact absurd h (by decide)

/-- What a notice shows of a name of the class is made of plain characters. -/
theorem IsRun.isWordLike_take (h : IsRun name) : IsWordLike (name.take shownChars) := by
  obtain ⟨c, rest, rfl, hc⟩ := h.start
  refine ⟨⟨c, rest.take (shownChars - 1), ?_, plain_of_isNameStart hc⟩, fun d hd => ?_⟩
  · rw [show shownChars = (shownChars - 1) + 1 by decide, List.take_succ_cons]
    rfl
  · exact (plain_of_isNameChar (h.characters d (List.mem_of_mem_take hd))).1

/-- A notice gives its branch, as far as there is room for it. -/
theorem noticeName_notice (h : ';' ∉ name) :
    noticeName (notice commit name) = name.take shownChars := by
  have hkept : ∀ n, ∀ c ∈ name.take n, decide (c ≠ ';') = true := by
    intro n c hc
    rw [decide_eq_true_eq]
    rintro rfl
    exact h (List.mem_of_mem_take hc)
  have htail : "; the served snapshot is refs/heads/master at ".toList =
      ';' :: " the served snapshot is refs/heads/master at ".toList := by decide
  rw [noticeName, notice, List.drop_take, List.append_assoc, List.append_assoc, List.append_assoc,
    List.drop_left, htail, List.cons_append, List.take_append]
  change ((name.take shownChars) ++ _).takeWhile _ = _
  rw [List.takeWhile_append_of_pos (hkept _)]
  cases hroom : shownChars - name.length with
  | zero =>
    rw [show maxStateChars - noticeStart.length - name.length = 0 from hroom, List.take_zero,
      List.takeWhile_nil, List.append_nil]
  | succ room =>
    rw [show maxStateChars - noticeStart.length - name.length = room + 1 from hroom,
      List.take_succ_cons, List.takeWhile_cons_of_neg (by simp), List.append_nil]

/-- Folding the case does not shorten a name. -/
theorem length_le_casefold (name : List Char) : name.length ≤ (casefold name).length := by
  induction name with
  | nil => exact Nat.zero_le _
  | cons c name ih =>
    have hc : 1 ≤ (foldChar c).length := by
      rw [foldChar]
      split_ifs <;> simp
    rw [casefold, List.flatMap_cons, List.length_append, List.length_cons]
    rw [casefold] at ih
    omega

/-- What a notice shows of a name is not the branch that is served, if the name is not. -/
theorem casefold_take_not_master (h : casefold name ∉ masterNames) :
    casefold (name.take shownChars) ∉ masterNames := by
  by_cases hroom : name.length ≤ shownChars
  · rwa [List.take_of_length_le hroom]
  · intro hmaster
    have hshort : ∀ master ∈ masterNames, master.length < shownChars := by decide
    have hlong := length_le_casefold (name.take shownChars)
    have hlength := hshort _ hmaster
    rw [List.length_take] at hlong
    omega

/-- The notices are about the declared names that are not the branch that is served, and the
other names. -/
theorem mem_staleBranchStates {state : List Char} :
    state ∈ staleBranchStates isWord order commit text ↔ ∃ name,
      (name ∈ declaredBranches isWord text ∧ casefold name ∉ masterNames ∨
        name ∈ namedBranches isWord text) ∧ notice commit name = state := by
  rw [staleBranchStates, List.mem_map]
  refine exists_congr fun name => and_congr_left fun _ => ?_
  rw [List.mem_insertionSort, (order.perm _).mem_iff, List.mem_dedup, List.mem_append,
    List.mem_filter, Bool.not_eq_true', ← Bool.not_eq_true, List.contains_iff_mem]

/-! ## The other names -/

/-- A character that matches one of a pattern without foreign letters is folded to it. -/
theorem casefold_cons_of_matches {p c : Char} {rest : List Char} (h : matchesChar p c = true)
    (hforeign : foldedInto p = []) (hp : p.toNat < 128) :
    casefold (c :: rest) = p :: casefold rest := by
  have hlower : c.toLower = p := by
    rw [matchesChar, hforeign] at h
    simpa using h
  have hfold : foldChar c = [p] := by
    have hlarge : 128 ≤ longS.toLower.toNat ∧ 128 ≤ kelvinSign.toLower.toNat ∧
        128 ≤ dottedI.toLower.toNat := by decide
    have hne : ∀ d : Char, 128 ≤ d.toLower.toNat → c ≠ d := by
      rintro d hd rfl
      rw [hlower] at hd
      omega
    rw [foldChar, if_neg (hne _ hlarge.1), if_neg (hne _ hlarge.2.1), if_neg (hne _ hlarge.2.2),
      hlower]
  rw [casefold, List.flatMap_cons, hfold, List.singleton_append]
  rfl

/-- A character that matches an `i` is not folded to an `s`. -/
theorem head_foldChar_of_matches {c : Char} (h : matchesChar 'i' c = true) :
    ∃ d rest, foldChar c = d :: rest ∧ d ≠ 's' := by
  have hcases : c.toLower = 'i' ∨ c ∈ [dotlessI, dottedI] := by
    rw [matchesChar, Bool.or_eq_true, decide_eq_true_eq, List.contains_iff_mem] at h
    exact h
  rcases hcases with hlower | hmem
  · have hne : c ≠ longS ∧ c ≠ kelvinSign ∧ c ≠ dottedI := by
      refine ⟨?_, ?_, ?_⟩
      all_goals
        rintro rfl
        exact absurd hlower (by decide)
    obtain ⟨hlong, hkelvin, hdotted⟩ := hne
    refine ⟨'i', [], ?_, by decide⟩
    rw [foldChar, if_neg hlong, if_neg hkelvin, if_neg hdotted, hlower]
  · rcases List.mem_pair.mp hmem with rfl | rfl
    · exact ⟨dotlessI, [], by decide, by decide⟩
    · exact ⟨'i', [Char.ofNat 0x307], by decide, by decide⟩

/-- All but one of the other names start with a letter that none of the served branch's names
starts with. -/
theorem staleNames_spelled : ∀ pattern ∈ staleNames, pattern = ['m', 'a', 'i', 'n'] ∨
    ∃ p rest, pattern = p :: rest ∧ foldedInto p = [] ∧ p.toNat < 128 ∧ p ≠ 'm' ∧ p ≠ 'r' := by
  have hnames : ∀ pattern ∈ staleNames, pattern = ['m', 'a', 'i', 'n'] ∨
      pattern.head?.any (fun p => foldedInto p = [] && p.toNat < 128 && p ≠ 'm' && p ≠ 'r') := by
    decide
  intro pattern hpattern
  refine (hnames pattern hpattern).imp_right fun h => ?_
  cases pattern with
  | nil => cases h
  | cons p rest =>
    refine ⟨p, rest, rfl, ?_⟩
    simpa [and_assoc] using h

/-- The other names are not the branch that is served. -/
theorem casefold_not_master_of_matches {pattern : List Char} (hpattern : pattern ∈ staleNames)
    (h : List.Forall₂ (matchesChar · ·) pattern name) : casefold name ∉ masterNames := by
  have hheads : ∀ master ∈ masterNames, master.head? = some 'm' ∨ master.head? = some 'r' := by
    decide
  have hthird : ∀ master ∈ masterNames, master.head? = some 'm' → master[2]? = some 's' := by
    decide
  intro hmaster
  rcases staleNames_spelled pattern hpattern with rfl | ⟨p, rest, rfl, hforeign, hp, hm, hr⟩
  · obtain ⟨c, tail, hc, htail, rfl⟩ := List.forall₂_cons_left_iff.mp h
    obtain ⟨a, tail', ha, htail', rfl⟩ := List.forall₂_cons_left_iff.mp htail
    obtain ⟨i, tail'', hi, -, rfl⟩ := List.forall₂_cons_left_iff.mp htail'
    obtain ⟨d, behind, hfold, hd⟩ := head_foldChar_of_matches hi
    rw [casefold_cons_of_matches hc (by decide) (by decide),
      casefold_cons_of_matches ha (by decide) (by decide), casefold, List.flatMap_cons, hfold]
      at hmaster
    exact hd (Option.some.inj (hthird _ hmaster rfl))
  · obtain ⟨c, tail, hc, -, rfl⟩ := List.forall₂_cons_left_iff.mp h
    rw [casefold_cons_of_matches hc hforeign hp] at hmaster
    rcases hheads _ hmaster with hhead | hhead
    · exact hm (Option.some.inj hhead)
    · exact hr (Option.some.inj hhead)

/-- A character whose lowercase is a letter or digit is one itself. -/
theorem isAsciiAlnum_of_toLower {c : Char} (h : isAsciiAlnum c.toLower = true) :
    isAsciiAlnum c = true := by
  rcases toLower_cases c with ⟨hc, -⟩ | hsame
  · have hupper : ('A' ≤ c && c ≤ 'Z') = true := by
      rw [Bool.and_eq_true, decide_eq_true_eq, decide_eq_true_eq]
      exact hc
    rw [isAsciiAlnum, hupper, Bool.true_or, Bool.true_or]
  · rwa [hsame] at h

/-- A character that matches a letter may start a name. -/
theorem isNameStart_of_matches {p c : Char} (hp : isAsciiAlnum p = true)
    (h : matchesChar p c = true) : isNameStart c = true := by
  rw [matchesChar, Bool.or_eq_true, decide_eq_true_eq, List.contains_iff_mem] at h
  rw [isNameStart, Bool.or_eq_true]
  rcases h with hlower | hmem
  · subst hlower
    exact .inl (isAsciiAlnum_of_toLower hp)
  · refine .inr ?_
    rw [foldedInto.eq_def] at hmem
    split at hmem
    · rcases List.mem_pair.mp hmem with rfl | rfl <;> decide
    · rw [List.mem_singleton.mp hmem]
      decide
    · rw [List.mem_singleton.mp hmem]
      decide
    · cases hmem

/-- The other names are words with hyphens, and none is `HEAD`. -/
theorem plain_of_matches {pattern : List Char} (hpattern : pattern ∈ staleNames)
    (h : List.Forall₂ (matchesChar · ·) pattern name) :
    IsRun name ∧ '.' ∉ name ∧ '/' ∉ name ∧ name ≠ "HEAD".toList := by
  have hspelled : ∀ pattern ∈ staleNames, pattern.head?.any isAsciiAlnum = true ∧
      pattern.all (fun p => isAsciiAlnum p || p = '-') = true ∧
      pattern.head?.all (fun p => ! matchesChar p 'H') = true := by decide
  obtain ⟨hhead, hall, hother⟩ := hspelled pattern hpattern
  have hletter : ∀ c ∈ name, isNameStart c = true ∨ c = '-' := by
    intro c hc
    obtain ⟨p, hp, hmatch⟩ := exists_matchesChar h hc
    have hp := List.all_eq_true.mp hall p hp
    rw [Bool.or_eq_true, decide_eq_true_eq] at hp
    rcases hp with halnum | rfl
    · exact .inl (isNameStart_of_matches halnum hmatch)
    · refine .inr (eq_of_toLower_eq (.inl (by decide)) ?_)
      rw [matchesChar, Bool.or_eq_true, decide_eq_true_eq] at hmatch
      exact hmatch.resolve_right Bool.false_ne_true
  refine ⟨⟨?_, fun c hc => ?_⟩, fun hmem => ?_, fun hmem => ?_, ?_⟩
  · cases h with
    | nil => cases hhead
    | cons hmatch _ => exact ⟨_, _, rfl, isNameStart_of_matches hhead hmatch⟩
  · rcases hletter c hc with hstart | rfl
    · rw [isNameChar, hstart, Bool.true_or]
    · decide
  · exact absurd (hletter '.' hmem) (by decide)
  · exact absurd (hletter '/' hmem) (by decide)
  · rintro rfl
    have hspelled : "HEAD".toList = ['H', 'E', 'A', 'D'] := by decide
    rw [hspelled] at h
    obtain ⟨p, rest, hmatch, -, rfl⟩ := List.forall₂_cons_right_iff.mp h
    simp [hmatch] at hother

/-! ## Exact notices -/

/-- The names of the served branch end in a letter. -/
theorem not_isMark_getLast? (h : casefold name ∈ masterNames) :
    ∀ c ∈ name.getLast?, isMark c = false := by
  have hkept : (['.', '_', '/', '-'].all fun c => foldChar c = [c]) = true := by decide
  have hletters : (masterNames.all fun master => master.getLast?.all fun c => !isMark c) = true := by
    decide
  intro c hc
  obtain ⟨front, rfl⟩ := List.getLast?_eq_some_iff.mp hc
  by_contra hmark
  rw [Bool.not_eq_false] at hmark
  have hfold : foldChar c = [c] :=
    of_decide_eq_true (List.all_eq_true.mp hkept c (List.contains_iff_mem.mp hmark))
  have hlast := List.all_eq_true.mp hletters _ h
  rw [casefold, List.flatMap_append, List.flatMap_singleton, hfold, List.getLast?_concat,
    Option.all_some, hmark] at hlast
  cases hlast

/-- A declared name that says the served branch is that exactly when it ends in no mark. -/
theorem SaysMaster.casefold_mem_iff (h : SaysMaster name) :
    casefold name ∈ masterNames ↔ ∀ c ∈ name.getLast?, isMark c = false := by
  refine ⟨not_isMark_getLast?, fun hlast => ?_⟩
  rwa [SaysMaster, List.rdropWhile_eq_self_iff.mpr fun hne => ?_] at h
  rw [hlast _ (List.getLast?_eq_some_getLast hne)]
  exact Bool.false_ne_true

/-- What a notice shows of a name is `HEAD` only if the name is. -/
theorem take_shownChars_ne_head (h : name ≠ "HEAD".toList) :
    name.take shownChars ≠ "HEAD".toList := by
  intro hshown
  have hlength := congrArg List.length hshown
  have hroom : "HEAD".toList.length < shownChars := by decide
  rw [List.length_take] at hlength
  rw [List.take_of_length_le (by omega)] at hshown
  exact h hshown

/-- What a notice shows of a declared name is the name of a branch exactly when it has none of the
refused parts and the name is not `HEAD`. -/
theorem IsRun.isGitBranch_take_iff (h : IsRun name) : IsGitBranch (name.take shownChars) ↔
    IsCleanName (name.take shownChars) ∧ name ≠ "HEAD".toList := by
  refine (isGitBranch_iff h.isWordLike_take).trans (and_congr_right fun _ => ⟨?_, ?_⟩)
  · rintro hshown rfl
    exact hshown (by decide)
  · exact take_shownChars_ne_head

/-- The notices about a text are exact exactly when what they have room for of each declared name,
unless that is the branch that is served, contains none of `..`, `//`, `/.` and `.lock/`, does not
end in a dot, a slash or `.lock` and is not `HEAD`; and no mark ends a declared name where all of
them say the branch that is served. -/
theorem noticesExact_iff : NoticesExact isWord order commit text ↔
    (∀ name ∈ declaredBranches isWord text, casefold name ∉ masterNames →
      IsCleanName (name.take shownChars) ∧ name ≠ "HEAD".toList) ∧
    (SaysOnlyMaster isWord text →
      ∀ name ∈ declaredBranches isWord text, ∀ c ∈ name.getLast?, isMark c = false) := by
  have hshown : ∀ name ∈ declaredBranches isWord text,
      noticeName (notice commit name) = name.take shownChars := fun name hname =>
    noticeName_notice fun hmem =>
      (plain_of_isNameChar ((isRun_of_mem_declaredBranches hname).characters _ hmem)).2 rfl
  constructor
  · refine fun h => ⟨fun name hname hother => ?_, fun hmaster name hname => ?_⟩
    · obtain ⟨hbranch, -⟩ := h.branches _ (mem_staleBranchStates.mpr
        ⟨name, .inl ⟨hname, hother⟩, rfl⟩)
      rw [hshown name hname] at hbranch
      exact (isRun_of_mem_declaredBranches hname).isGitBranch_take_iff.mp hbranch
    · refine (hmaster.1 name hname).casefold_mem_iff.mp ?_
      by_contra hother
      have hstate := (@mem_staleBranchStates isWord order commit text _).mpr
        ⟨name, .inl ⟨hname, hother⟩, rfl⟩
      rw [h.silent hmaster] at hstate
      cases hstate
  · rintro ⟨hbranches, hends⟩
    refine ⟨fun state hstate => ?_, fun hmaster => ?_⟩
    · obtain ⟨name, hname, rfl⟩ := mem_staleBranchStates.mp hstate
      rcases hname with ⟨hdeclared, hother⟩ | hnamed
      · rw [hshown name hdeclared]
        exact ⟨(isRun_of_mem_declaredBranches hdeclared).isGitBranch_take_iff.mpr
          (hbranches name hdeclared hother), casefold_take_not_master hother⟩
      · obtain ⟨pattern, hpattern, hmatches⟩ := matches_of_mem_namedBranches hnamed
        obtain ⟨hrun, hdot, hslash, hhead⟩ := plain_of_matches hpattern hmatches
        have hsemicolon : ';' ∉ name := fun hmem =>
          (plain_of_isNameChar (hrun.characters _ hmem)).2 rfl
        rw [noticeName_notice hsemicolon]
        exact ⟨isGitBranch_of_single hrun.isWordLike_take
          (fun hmem => hdot (List.mem_of_mem_take hmem))
          (fun hmem => hslash (List.mem_of_mem_take hmem)) (take_shownChars_ne_head hhead),
          casefold_take_not_master (casefold_not_master_of_matches hpattern hmatches)⟩
    · refine List.eq_nil_iff_forall_not_mem.mpr fun state hstate => ?_
      obtain ⟨name, ⟨hdeclared, hother⟩ | hnamed, -⟩ := mem_staleBranchStates.mp hstate
      · exact hother ((hmaster.1 name hdeclared).casefold_mem_iff.mpr
          (hends hmaster name hdeclared))
      · rw [hmaster.2] at hnamed
        cases hnamed

/-- The order in which the texts were added. -/
def insertionOrder : SetOrder := ⟨id, fun _ => .refl _⟩

/-- A sentence that declares the served branch and ends there gets a notice. -/
theorem sentence_notice :
    SaysOnlyMaster isAsciiAlnum "Branch: master.".toList ∧
      staleBranchStates isAsciiAlnum insertionOrder [] "Branch: master.".toList =
        [notice [] "master.".toList] ∧
      ¬ IsGitBranch (noticeName (notice [] "master.".toList)) ∧
      ¬ NoticesExact isAsciiAlnum insertionOrder [] "Branch: master.".toList := by
  have hsaid : ∀ name ∈ declaredBranches isAsciiAlnum "Branch: master.".toList,
      casefold (name.rdropWhile isMark) ∈ masterNames := by decide
  have honly : SaysOnlyMaster isAsciiAlnum "Branch: master.".toList := ⟨hsaid, by decide⟩
  have hstates : staleBranchStates isAsciiAlnum insertionOrder [] "Branch: master.".toList =
      [notice [] "master.".toList] := by decide
  have hshown : noticeName (notice [] "master.".toList) = "master.".toList := by decide
  refine ⟨honly, hstates, fun hbranch => ?_, fun hexact => ?_⟩
  · rw [hshown] at hbranch
    exact hbranch.dotEnd (by decide)
  · have hsilent := hexact.silent honly
    rw [hstates] at hsilent
    cases hsilent

end ContributorGateway.ProjectContext
