import ContributorGateway.Core.ReachableFiles
import ContributorGateway.Foundation.CaseFolding
import ContributorGateway.Foundation.RankedLists

/-!
# The two search engines

The engine in Python folds case fully, ripgrep folds it simply. The shared path of a search keeps
every line that ripgrep reports, so that the engines differ exactly where a line with a match
under the full folding has none under the simple one.
-/

namespace ContributorGateway.ContentSearch

open RepositoryContent

/-! ## First lines -/

section FirstLines

variable {isMatch other : List Char → Bool} {text : List Char} {number : ℤ}

/-- A number that is found is the number of a matching line. -/
theorem lineAt_of_mem_firstLines (h : number ∈ firstLines isMatch text) :
    ∃ line, lineAt text number = some line ∧ isMatch line = true := by
  obtain ⟨⟨line, n⟩, hmem, rfl⟩ := List.mem_map.mp (List.mem_of_mem_take h)
  obtain ⟨hmem, hmatch⟩ := List.mem_filter.mp hmem
  obtain ⟨hpos, hline⟩ := List.mem_zipIdx_iff_le_and_getElem?_sub.mp hmem
  refine ⟨line, ?_, hmatch⟩
  rw [lineAt, if_pos (by exact_mod_cast hpos), Int.toNat_natCast]
  exact hline

/-- The numbers increase. -/
theorem pairwise_firstLines (isMatch : List Char → Bool) (text : List Char) :
    (firstLines isMatch text).Pairwise (· < ·) := by
  have hsublist : (firstLines isMatch text).Sublist
      (((text.splitOn '\n').zipIdx 1).map fun line => (line.2 : ℤ)) :=
    (List.take_sublist _ _).trans (List.filter_sublist.map _)
  refine List.Pairwise.sublist hsublist ?_
  have hnumbers : ((text.splitOn '\n').zipIdx 1).map (fun line => (line.2 : ℤ)) =
      (List.range' 1 (text.splitOn '\n').length).map fun n : ℕ => (n : ℤ) := by
    rw [← List.zipIdx_map_snd, List.map_map]
    rfl
  rw [hnumbers, List.pairwise_map]
  exact (List.pairwise_lt_range' ..).imp fun h => by exact_mod_cast h

/-- There are at most as many numbers as the bound. -/
theorem length_firstLines_le (isMatch : List Char → Bool) (text : List Char) :
    (firstLines isMatch text).length ≤ maxMatchesPerFile :=
  List.length_take_le _ _

/-- There are numbers if and only if a line matches. -/
theorem firstLines_ne_nil_iff :
    firstLines isMatch text ≠ [] ↔ (text.splitOn '\n').any isMatch = true := by
  have hbound : maxMatchesPerFile ≠ 0 := by decide
  rw [firstLines, ne_eq, List.take_eq_nil_iff, or_iff_right hbound, List.map_eq_nil_iff,
    List.filter_eq_nil_iff, List.any_eq_true]
  constructor
  · intro h
    by_contra hnone
    refine h fun line hline hmatch => hnone ⟨line.1, ?_, hmatch⟩
    obtain ⟨-, hget⟩ := List.mem_zipIdx_iff_le_and_getElem?_sub.mp hline
    exact List.mem_of_getElem? hget
  · rintro ⟨line, hline, hmatch⟩ hnone
    obtain ⟨n, hn⟩ := List.getElem?_of_mem hline
    refine hnone (line, 1 + n) (List.mem_zipIdx_iff_le_and_getElem?_sub.mpr ⟨by omega, ?_⟩) hmatch
    rw [Nat.add_sub_cancel_left]
    exact hn

/-- A stronger condition selects the same first members if they satisfy it. -/
theorem take_filter_eq {α : Type} {p q : α → Bool} {l : List α} {n : ℕ}
    (himp : ∀ a, q a = true → p a = true) (h : ∀ a ∈ (l.filter p).take n, q a = true) :
    (l.filter p).take n = (l.filter q).take n := by
  induction l generalizing n with
  | nil => rfl
  | cons a l ih =>
    cases n with
    | zero => rw [List.take_zero, List.take_zero]
    | succ n =>
      by_cases hp : p a = true
      · rw [List.filter_cons_of_pos hp, List.take_succ_cons, List.forall_mem_cons] at h
        rw [List.filter_cons_of_pos hp, List.filter_cons_of_pos h.1, List.take_succ_cons,
          List.take_succ_cons, ih h.2]
      · have hq : ¬ q a = true := fun hq => hp (himp a hq)
        rw [List.filter_cons_of_neg hp] at h
        rw [List.filter_cons_of_neg hp, List.filter_cons_of_neg hq, ih h]

/-- A stronger condition has the same first lines if and only if they satisfy it. -/
theorem firstLines_eq_iff (himp : ∀ line, other line = true → isMatch line = true) :
    firstLines isMatch text = firstLines other text ↔ ∀ number ∈ firstLines isMatch text,
      ∃ line, lineAt text number = some line ∧ other line = true := by
  constructor
  · intro heq number hnumber
    rw [heq] at hnumber
    exact lineAt_of_mem_firstLines hnumber
  · intro h
    rw [firstLines, firstLines, ← List.map_take, ← List.map_take]
    refine congrArg (List.map _) (take_filter_eq (fun line => himp line.1) ?_)
    rintro ⟨line, n⟩ hmem
    have hnumber : (n : ℤ) ∈ firstLines isMatch text := by
      rw [firstLines, ← List.map_take]
      exact List.mem_map.mpr ⟨(line, n), hmem, rfl⟩
    obtain ⟨line', hline', hother⟩ := h n hnumber
    obtain ⟨hpos, hline⟩ := List.mem_zipIdx_iff_le_and_getElem?_sub.mp
      (List.mem_of_mem_filter (List.mem_of_mem_take hmem))
    rw [lineAt, if_pos (by exact_mod_cast hpos), Int.toNat_natCast, hline] at hline'
    obtain rfl := Option.some.inj hline'
    exact hother

end FirstLines

/-! ## The line map of ripgrep -/

section RipgrepLines

variable {host : Host} {paths : List String} {pairs : List (String × ℤ)} {path : String}
  {stdout : List Char} {read : List (Option (String × ℤ))}

/-- The numbers that are reported for a path. -/
def numbersOf (pairs : List (String × ℤ)) (path : String) : List ℤ :=
  pairs.filterMap fun pair => if pair.1 = path then some pair.2 else none

/-- The loop collects the numbers of a path as they come, if they differ and are not too many. -/
theorem foldl_addNumber {lineMap : String → List ℤ}
    (hnodup : (lineMap path ++ numbersOf pairs path).Nodup)
    (hbounded : (lineMap path ++ numbersOf pairs path).length ≤ maxMatchesPerFile) :
    pairs.foldl (fun lineMap pair => addNumber lineMap pair.1 pair.2) lineMap path =
      lineMap path ++ numbersOf pairs path := by
  induction pairs generalizing lineMap with
  | nil => exact (List.append_nil _).symm
  | cons pair pairs ih =>
    obtain ⟨other, line⟩ := pair
    rw [List.foldl_cons]
    dsimp only
    by_cases hpath : other = path
    · subst hpath
      have hnumbers : numbersOf ((other, line) :: pairs) other = line :: numbersOf pairs other :=
        List.filterMap_cons_some (if_pos rfl)
      rw [hnumbers] at hnodup hbounded ⊢
      have hnew : line ∉ lineMap other ∧ (lineMap other).length < maxMatchesPerFile := by
        rw [List.length_append, List.length_cons] at hbounded
        refine ⟨fun hmem => ?_, by omega⟩
        exact (List.nodup_append.mp hnodup).2.2 line hmem line (List.mem_cons_self ..) rfl
      have hadd : addNumber lineMap other line other = lineMap other ++ [line] := by
        rw [addNumber, if_pos hnew, Function.update_self]
      rw [ih, hadd, List.append_assoc, List.singleton_append]
      · rwa [hadd, List.append_assoc, List.singleton_append]
      · rwa [hadd, List.append_assoc, List.singleton_append]
    · have hnumbers : numbersOf ((other, line) :: pairs) path = numbersOf pairs path :=
        List.filterMap_cons_none (if_neg hpath)
      rw [hnumbers] at hnodup hbounded ⊢
      have hadd : addNumber lineMap other line path = lineMap path := by
        rw [addNumber]
        split_ifs
        · exact Function.update_of_ne (Ne.symm hpath) _ _
        · rfl
      rw [ih, hadd]
      · rwa [hadd]
      · rwa [hadd]

/-- What the loop accepts of an event that is read: the numbers of selected paths. -/
def acceptRead (paths : List String) (read : Option (String × ℤ)) : Option (String × ℤ) :=
  read.filter fun pair => paths.contains pair.1

/-- An event whose path passes the checks is accepted. -/
theorem acceptEvent_of_read {rawEvent : List Char} {found : Option (String × ℤ)}
    (hread : readEvent host rawEvent = .ok found)
    (hchecks : ∀ pair ∈ found, pair.1 ∈ paths → host.revalidate pair.1 = .ok ()) :
    acceptEvent host paths rawEvent = .ok (acceptRead paths found) := by
  rw [acceptEvent, hread]
  cases found with
  | none => rfl
  | some pair =>
    obtain ⟨relative, line⟩ := pair
    change (if relative ∉ paths then _ else _) = _
    by_cases hselected : relative ∈ paths
    · rw [if_neg (not_not.mpr hselected), hchecks _ rfl hselected, acceptRead,
        Option.filter_some, if_pos (List.contains_iff_mem.mpr hselected)]
      rfl
    · rw [if_pos hselected, acceptRead, Option.filter_some, if_neg]
      rwa [List.contains_iff_mem]

/-- The numbers of a selected path are accepted. -/
theorem numbersOf_acceptRead (read : List (Option (String × ℤ))) (hpath : path ∈ paths) :
    numbersOf ((read.map (acceptRead paths)).filterMap id) path =
      numbersOf (read.filterMap id) path := by
  rw [numbersOf, numbersOf, List.filterMap_map, List.filterMap_filterMap, List.filterMap_filterMap]
  refine List.filterMap_congr fun found _ => ?_
  cases found with
  | none => rfl
  | some pair =>
    dsimp only [Function.comp, id, acceptRead]
    rw [Option.filter_some, Option.bind_some]
    by_cases hsame : pair.1 = path
    · rw [if_pos (List.contains_iff_mem.mpr (hsame ▸ hpath))]
      rfl
    · split_ifs
      · exact if_neg hsame
      · rfl

/-- The line map has the numbers of each selected path in their order. -/
theorem ripgrepLineMap_of_read (hread : (splitlines stdout).mapM (readEvent host) = .ok read)
    (hchecks : ∀ pair ∈ read.filterMap id, pair.1 ∈ paths → host.revalidate pair.1 = .ok ()) :
    ∃ lineMap, ripgrepLineMap host paths stdout = .ok lineMap ∧ ∀ path ∈ paths,
      (numbersOf (read.filterMap id) path).Nodup →
      (numbersOf (read.filterMap id) path).length ≤ maxMatchesPerFile →
      lineMap path = (numbersOf (read.filterMap id) path).insertionSort (· ≤ ·) := by
  have haccepted := mapM_map_of_mapM (k := acceptRead paths) hread fun rawEvent found hfound hevent =>
    acceptEvent_of_read hevent fun pair hpair => hchecks pair (List.mem_filterMap.mpr
      ⟨found, hfound, hpair⟩)
  refine ⟨_, by rw [ripgrepLineMap, foldlM_stepEvent haccepted]; rfl, ?_⟩
  intro path hpath hnodup hbounded
  rw [← numbersOf_acceptRead read hpath] at hnodup hbounded ⊢
  have hfold : ((read.map (acceptRead paths)).filterMap id).foldl
      (fun lineMap pair => addNumber lineMap pair.1 pair.2) (fun _ => []) path =
        [] ++ numbersOf ((read.map (acceptRead paths)).filterMap id) path :=
    foldl_addNumber hnodup hbounded
  exact congrArg (List.insertionSort (· ≤ ·)) hfold

/-- A line map is made only if every selected path that is reported passes the checks. -/
theorem revalidate_of_ripgrepLineMap {lineMap : String → List ℤ}
    (hread : (splitlines stdout).mapM (readEvent host) = .ok read)
    (h : ripgrepLineMap host paths stdout = .ok lineMap) :
    ∀ pair ∈ read.filterMap id, pair.1 ∈ paths → host.revalidate pair.1 = .ok () := by
  intro pair hpair hselected
  obtain ⟨found, hfound, hsome⟩ := List.mem_filterMap.mp hpair
  obtain rfl : found = some pair := hsome
  obtain ⟨rawEvent, hraw, hevent⟩ := exists_of_mem_mapM hread hfound
  obtain ⟨collected, hfold, -⟩ := bind_eq_ok.mp h
  obtain ⟨before, after, hstep⟩ := exists_of_foldlM_eq_ok hfold rawEvent hraw
  obtain ⟨accepted, haccept, -⟩ := bind_eq_ok.mp hstep
  rw [acceptEvent, hevent] at haccept
  obtain ⟨relative, line⟩ := pair
  change (if relative ∉ paths then _ else _) = _ at haccept
  rw [if_neg (not_not.mpr hselected)] at haccept
  obtain ⟨_, hrevalidate, -⟩ := bind_eq_ok.mp haccept
  exact hrevalidate

end RipgrepLines

/-! ## Results and their lines -/

section Results

variable {unicode : Unicode} {snapshot : Snapshot} {item : CorpusFile} {needle text : List Char}
  {numbers : List ℤ} {lineMap other : LineMap} {includeContent : Bool}

/-- The numbers of lines that a result shows. -/
def shownLines (result : Option SearchResult) : List ℤ :=
  ((result.map SearchResult.found).getD []).map SearchMatch.line

/-- Every number whose line matches has a match. -/
theorem matchesIn_lines (hbounded : numbers.length ≤ maxMatchesPerFile)
    (hmatch : ∀ number ∈ numbers, ∃ line, lineAt text number = some line ∧
      occursIn needle (unicode.casefold line) = true) :
    (matchesIn unicode needle text numbers).map SearchMatch.line = numbers := by
  rw [matchesIn, List.map_take]
  have hall : (numbers.filterMap fun number => (lineAt text number).bind fun line =>
      if occursIn needle (unicode.casefold line) then
        some (SearchMatch.mk number (line.take maxMatchTextChars))
      else none).map SearchMatch.line = numbers := by
    clear hbounded
    induction numbers with
    | nil => rfl
    | cons number numbers ih =>
      obtain ⟨⟨line, hline, hfolded⟩, hrest⟩ := List.forall_mem_cons.mp hmatch
      rw [List.filterMap_cons_some (b := SearchMatch.mk number (line.take maxMatchTextChars)),
        List.map_cons, ih hrest]
      rw [hline, Option.bind_some, if_pos hfolded]
  rw [hall]
  exact List.take_of_length_le hbounded

/-- A result shows the reported lines if all of them match. -/
theorem shownLines_reportOf (h : snapshot.Validated (repositoryCorpus unicode.lower))
    (hitem : item ∈ snapshot.files)
    (hbounded : (lineMap item.relativePath).length ≤ maxMatchesPerFile)
    (hmatch : ∀ number ∈ lineMap item.relativePath, ∃ line,
      lineAt (searchText item) number = some line ∧
        occursIn needle (unicode.casefold line) = true) :
    shownLines (reportOf unicode snapshot needle lineMap includeContent item) =
      lineMap item.relativePath := by
  obtain ⟨result, hresult, hfound, -⟩ := searchFile_of_mem h hitem needle lineMap includeContent
  rw [searchFile_eq_reportOf h hitem] at hresult
  obtain rfl := Except.ok.inj hresult
  rw [shownLines, hfound]
  exact matchesIn_lines hbounded hmatch

/-- There is a result if and only if it shows lines. -/
theorem isSome_reportOf (h : snapshot.Validated (repositoryCorpus unicode.lower))
    (hitem : item ∈ snapshot.files) :
    (reportOf unicode snapshot needle lineMap includeContent item).isSome = true ↔
      shownLines (reportOf unicode snapshot needle lineMap includeContent item) ≠ [] := by
  obtain ⟨result, hresult, -, hfound⟩ := searchFile_of_mem h hitem needle lineMap includeContent
  rw [searchFile_eq_reportOf h hitem] at hresult
  obtain rfl := Except.ok.inj hresult
  cases hreport : reportOf unicode snapshot needle lineMap includeContent item with
  | none => exact iff_of_false Bool.false_ne_true fun hne => hne rfl
  | some result =>
    refine iff_of_true rfl fun hnil => (hfound result hreport).2 ?_
    exact List.map_eq_nil_iff.mp hnil

/-- A result depends on the numbers that are reported for its file alone. -/
theorem reportOf_congr (hsame : lineMap item.relativePath = other item.relativePath) :
    reportOf unicode snapshot needle lineMap includeContent item =
      reportOf unicode snapshot needle other includeContent item := by
  rw [reportOf, reportOf, searchFile, searchFile, hsame]

/-- The key by which the result for a file is sorted. -/
def fileKey (unicode : Unicode) (needle : List Char) (item : CorpusFile) :
    ℕ ×ₗ ℕ ×ₗ List Char ×ₗ List Char :=
  toLex (matchRank unicode needle item.relativePath
      (titleFromText unicode.lower item.relativePath (searchText item)),
    toLex ((kindOf item.relativePath).order,
      toLex (unicode.casefold item.relativePath, item.relativePath)))

/-- A result has the key of its file. -/
theorem sortKey_reportOf (h : snapshot.Validated (repositoryCorpus unicode.lower))
    (hitem : item ∈ snapshot.files) {result : SearchResult}
    (hreport : reportOf unicode snapshot needle lineMap includeContent item = some result) :
    sortKey unicode needle result = fileKey unicode needle item := by
  obtain ⟨reported, hresult, -, hreports⟩ :=
    searchFile_of_mem h hitem needle lineMap includeContent
  rw [searchFile_eq_reportOf h hitem, hreport] at hresult
  obtain rfl := Except.ok.inj hresult
  obtain ⟨-, hpath, htitle, hkind⟩ := (hreports result rfl).1
  rw [sortKey, hpath, htitle, hkind, fileKey]

/-- The keys tell files apart. -/
theorem eq_of_fileKey (h : snapshot.Validated (repositoryCorpus unicode.lower))
    {item' : CorpusFile} (hitem : item ∈ snapshot.files) (hitem' : item' ∈ snapshot.files)
    (hkey : fileKey unicode needle item = fileKey unicode needle item') : item = item' := by
  refine h.eq_of_path hitem hitem' ?_
  have hpair := congrArg (fun key : ℕ ×ₗ ℕ ×ₗ List Char ×ₗ List Char =>
    (ofLex (ofLex (ofLex key).2).2).2) hkey
  exact hpair

end Results

/-! ## The engines -/

/-- Whether a line contains a query under the full folding. -/
def containsFolded (tables : FoldTables) (query line : List Char) : Bool :=
  occursIn (tables.casefold query) (tables.casefold line)

/-- Whether a line contains a query under the simple folding. -/
def containsSimply (tables : FoldTables) (query line : List Char) : Bool :=
  occursIn (tables.simpleFold query) (tables.simpleFold line)

/-- A line with a match under the simple folding has one under the full folding. -/
theorem containsFolded_of_containsSimply {tables : FoldTables} {query line : List Char}
    (h : containsSimply tables query line = true) : containsFolded tables query line = true :=
  occursIn_iff.mpr (tables.casefold_infix_of_simpleFold (occursIn_iff.mp h))

/-- Ripgrep runs for a query, every event of its output is read, and the events report, for each
file, the first lines that contain the query under the simple folding. -/
structure ReportsFirstLines (tables : FoldTables) (unicode : Unicode) (rg : Ripgrep)
    (snapshot : Snapshot) (query : List Char) : Prop where
  installed : rg.installed = true
  reports : ∃ code stdout read, rg.run query = some (code, stdout) ∧ (code = 0 ∨ code = 1) ∧
    (splitlines stdout).mapM (readEvent (rg.host unicode snapshot)) = .ok read ∧
    ∀ item ∈ snapshot.files,
      (numbersOf (read.filterMap id) (String.ofList item.relativePath)).Perm
        (firstLines (containsSimply tables query) (searchText item))

section Engines

variable {tables : FoldTables} {unicode : Unicode} {rg : Ripgrep} {snapshot : Snapshot}
  {query : List Char} {selected : List CorpusFile} {lineMap : LineMap}

/-- Ripgrep is given the query, and every file that it reports has a short ID. -/
structure Runnable (tables : FoldTables) (snapshot : Snapshot) (query : List Char)
    (selected : List CorpusFile) : Prop where
  noNul : nul ∉ query
  short : ∀ item ∈ selected,
    ((searchText item).splitOn '\n').any (containsSimply tables query) = true →
      HasShortId snapshot item

/-- The line map of a program that runs has the first lines of each file. -/
theorem ripgrepSearch_of_runnable (h : snapshot.Validated (repositoryCorpus unicode.lower))
    (hselected : ∀ item ∈ selected, item ∈ snapshot.files)
    (hreports : ReportsFirstLines tables unicode rg snapshot query)
    (hrunnable : Runnable tables snapshot query selected) :
    ∃ lineMap, ripgrepSearch unicode rg snapshot query selected = .ok lineMap ∧
      ∀ item ∈ selected, lineMap item.relativePath =
        firstLines (containsSimply tables query) (searchText item) := by
  obtain ⟨code, stdout, read, hrun, hcode, hread, hlines⟩ := hreports.reports
  have hchecks : ∀ pair ∈ read.filterMap id,
      pair.1 ∈ (selected.map fun item => String.ofList item.relativePath) →
        (rg.host unicode snapshot).revalidate pair.1 = .ok () := by
    rintro ⟨path, number⟩ hpair hpath
    obtain ⟨item, hitem, rfl⟩ := List.mem_map.mp hpath
    have hnumber : number ∈ numbersOf (read.filterMap id) (String.ofList item.relativePath) :=
      List.mem_filterMap.mpr ⟨_, hpair, if_pos rfl⟩
    have hmatch := firstLines_ne_nil_iff.mp
      (List.ne_nil_of_mem ((hlines item (hselected item hitem)).mem_iff.mp hnumber))
    change ((recheck unicode snapshot (String.ofList item.relativePath).toList).mapError
      errorText).map (fun _ => ()) = .ok ()
    rw [String.toList_ofList, recheck_of_mem h (hselected item hitem)
      (hrunnable.short item hitem hmatch)]
    rfl
  obtain ⟨numbers, hmap, hnumbers⟩ := ripgrepLineMap_of_read hread hchecks
  have hstatus : ¬ (code ≠ 0 ∧ code ≠ 1) := by
    rintro ⟨hzero, hone⟩
    exact hcode.elim hzero hone
  refine ⟨fun path => numbers (String.ofList path), ?_, fun item hitem => ?_⟩
  · rw [ripgrepSearch, hreports.installed, Bool.not_true, if_neg Bool.false_ne_true,
      if_neg hrunnable.noNul, hrun]
    dsimp only
    rw [if_neg hstatus, hmap]
    rfl
  · have hperm := hlines item (hselected item hitem)
    have hsorted := pairwise_firstLines (containsSimply tables query) (searchText item)
    dsimp only
    rw [hnumbers _ (List.mem_map_of_mem hitem)
      (hperm.nodup_iff.mpr (hsorted.imp fun hlt => ne_of_lt hlt))
      (hperm.length_eq ▸ length_firstLines_le _ _)]
    exact ((List.perm_insertionSort _ _).trans hperm).eq_of_pairwise'
      (List.pairwise_insertionSort _ _) (hsorted.imp fun hlt => le_of_lt hlt)

/-- The checks of a file with a long ID fail. -/
theorem hasShortId_of_recheck (h : snapshot.Validated (repositoryCorpus unicode.lower))
    {item : CorpusFile} (hitem : item ∈ snapshot.files) {found : CorpusFile}
    (hcheck : recheck unicode snapshot item.relativePath = .ok found) :
    HasShortId snapshot item := by
  rw [recheck, encodeContentId_of_mem h hitem] at hcheck
  obtain ⟨contentId, hid, hresolve⟩ := bind_eq_ok.mp hcheck
  obtain rfl := Except.ok.inj hid
  obtain ⟨decoded, hdecode, -⟩ := bind_eq_ok.mp hresolve
  obtain ⟨hpayload, -⟩ := decodeContentId_eq_ok hdecode
  obtain ⟨-, hbounded, -⟩ := IdFormat.payload_eq_ok hpayload
  exact hbounded

/-- The program makes a line map only if it runs. -/
theorem runnable_of_ripgrepSearch (h : snapshot.Validated (repositoryCorpus unicode.lower))
    (hselected : ∀ item ∈ selected, item ∈ snapshot.files)
    (hreports : ReportsFirstLines tables unicode rg snapshot query)
    (hsearch : ripgrepSearch unicode rg snapshot query selected = .ok lineMap) :
    Runnable tables snapshot query selected := by
  obtain ⟨code, stdout, read, hrun, hcode, hread, hlines⟩ := hreports.reports
  rw [ripgrepSearch, hrun] at hsearch
  split at hsearch
  · cases hsearch
  · split at hsearch
    · cases hsearch
    · next hnul =>
      dsimp only at hsearch
      split at hsearch
      · cases hsearch
      · obtain ⟨numbers, hmap, -⟩ := map_eq_ok.mp hsearch
        have hchecks := revalidate_of_ripgrepLineMap hread (mapError_eq_ok.mp hmap)
        refine ⟨hnul, fun item hitem hmatch => ?_⟩
        obtain ⟨number, hnumber⟩ := List.exists_mem_of_ne_nil _ (firstLines_ne_nil_iff.mpr hmatch)
        have hreported := (hlines item (hselected item hitem)).mem_iff.mpr hnumber
        obtain ⟨⟨path, number'⟩, hpair, hsome⟩ := List.mem_filterMap.mp hreported
        dsimp only at hsome
        split_ifs at hsome with hpath
        subst hpath
        have hrevalidate := hchecks _ hpair (List.mem_map_of_mem hitem)
        change ((recheck unicode snapshot (String.ofList item.relativePath).toList).mapError
          errorText).map (fun _ => ()) = .ok () at hrevalidate
        rw [String.toList_ofList] at hrevalidate
        obtain ⟨found, hfound, -⟩ := map_eq_ok.mp hrevalidate
        exact hasShortId_of_recheck h (hselected item hitem) (mapError_eq_ok.mp hfound)

/-- The line map of the engine that a request names. -/
theorem lineMapOf_ripgrep : lineMapOf unicode rg snapshot query selected "ripgrep" =
    ripgrepSearch unicode rg snapshot query selected := by
  rw [lineMapOf, if_neg (by decide), if_neg (by simp)]
  split
  · next message hmessage => rw [if_pos rfl, hmessage]
  · rfl

theorem lineMapOf_python : lineMapOf unicode rg snapshot query selected "python" =
    pythonLineMap unicode snapshot query selected := by
  rw [lineMapOf, if_neg (by decide), if_pos (.inl rfl)]

end Engines

/-- Python's tables with the full folding. -/
abbrev unicodeOf (tables : FoldTables) (lower : List Char → List Char) : Unicode :=
  ⟨lower, tables.casefold⟩

/-- How many files with a match under the full folding come before a file in the results. -/
def matchesBefore (tables : FoldTables) (lower : List Char → List Char) (query : List Char)
    (selected : List CorpusFile) (item : CorpusFile) : ℕ :=
  countBefore (fileKey (unicodeOf tables lower) (tables.casefold query))
    (fun other => ((searchText other).splitOn '\n').any (containsFolded tables query)) selected item

/-- The first lines of each file that the results have room for also match under the simple
folding. -/
def FirstLinesMatch (tables : FoldTables) (lower : List Char → List Char) (query : List Char)
    (selected : List CorpusFile) (limit : ℤ) : Prop :=
  ∀ item ∈ selected, matchesBefore tables lower query selected item < limit.toNat →
    ∀ number ∈ firstLines (containsFolded tables query) (searchText item),
      ∃ line, lineAt (searchText item) number = some line ∧ containsSimply tables query line = true

section Responses

variable {tables : FoldTables} {lower : List Char → List Char} {snapshot : Snapshot}
  {item : CorpusFile} {query : List Char} {lineMap simple full : LineMap} {includeContent : Bool}

/-- A result shows the first lines that are reported if they match under the full folding. -/
theorem shownLines_of_firstLines (h : snapshot.Validated (repositoryCorpus lower))
    (hitem : item ∈ snapshot.files) {isMatch : List Char → Bool}
    (himp : ∀ line, isMatch line = true → containsFolded tables query line = true)
    (hlines : lineMap item.relativePath = firstLines isMatch (searchText item)) :
    shownLines (reportOf (unicodeOf tables lower) snapshot (tables.casefold query) lineMap
      includeContent item) = firstLines isMatch (searchText item) := by
  rw [← hlines]
  refine shownLines_reportOf h hitem ?_ fun number hnumber => ?_
  · rw [hlines]
    exact length_firstLines_le _ _
  · rw [hlines] at hnumber
    obtain ⟨line, hline, hmatch⟩ := lineAt_of_mem_firstLines hnumber
    exact ⟨line, hline, himp line hmatch⟩

/-- There is a result if and only if a line matches. -/
theorem isSome_of_firstLines (h : snapshot.Validated (repositoryCorpus lower))
    (hitem : item ∈ snapshot.files) {isMatch : List Char → Bool}
    (himp : ∀ line, isMatch line = true → containsFolded tables query line = true)
    (hlines : lineMap item.relativePath = firstLines isMatch (searchText item)) :
    (reportOf (unicodeOf tables lower) snapshot (tables.casefold query) lineMap includeContent
      item).isSome = ((searchText item).splitOn '\n').any isMatch := by
  rw [Bool.eq_iff_iff, isSome_reportOf h hitem, shownLines_of_firstLines h hitem himp hlines,
    firstLines_ne_nil_iff]

/-- The engines give one result for a file if and only if its first lines match under the simple
folding. -/
theorem reportOf_eq_iff (h : snapshot.Validated (repositoryCorpus lower))
    (hitem : item ∈ snapshot.files)
    (hsimple : simple item.relativePath =
      firstLines (containsSimply tables query) (searchText item))
    (hfull : full item.relativePath =
      firstLines (containsFolded tables query) (searchText item)) :
    reportOf (unicodeOf tables lower) snapshot (tables.casefold query) full includeContent item =
        reportOf (unicodeOf tables lower) snapshot (tables.casefold query) simple includeContent item ↔
      ∀ number ∈ firstLines (containsFolded tables query) (searchText item),
        ∃ line, lineAt (searchText item) number = some line ∧
          containsSimply tables query line = true := by
  have himp : ∀ line, containsSimply tables query line = true →
      containsFolded tables query line = true := fun line => containsFolded_of_containsSimply
  have hshown : shownLines (reportOf (unicodeOf tables lower) snapshot (tables.casefold query) full
      includeContent item) = firstLines (containsFolded tables query) (searchText item) :=
    shownLines_of_firstLines h hitem (fun _ => id) hfull
  rw [← firstLines_eq_iff himp]
  constructor
  · intro heq
    rw [← hshown, heq, shownLines_of_firstLines h hitem himp hsimple]
  · intro heq
    refine reportOf_congr ?_
    rw [hfull, hsimple, heq]

/-- The responses to a request differ in their results alone. -/
theorem responseOf_eq_iff_results {unicode : Unicode} {request : SearchRequest}
    {scope : SearchScope} {lineMap' : LineMap} :
    responseOf unicode snapshot request query scope lineMap =
        responseOf unicode snapshot request query scope lineMap' ↔
      (responseOf unicode snapshot request query scope lineMap).results =
        (responseOf unicode snapshot request query scope lineMap').results := by
  constructor
  · intro heq
    rw [heq]
  · intro heq
    have hcount := congrArg List.length heq
    rw [responseOf, responseOf] at heq hcount ⊢
    rw [SearchResponse.mk.injEq]
    exact ⟨rfl, rfl, hcount, heq⟩

/-- The responses for the first lines under the two foldings are one if and only if the first
lines of the files with a place in the response match under the simple folding. -/
theorem responseOf_eq_iff (h : snapshot.Validated (repositoryCorpus lower))
    {request : SearchRequest} {scope : SearchScope}
    (hsimple : ∀ item ∈ selectedFiles snapshot scope, simple item.relativePath =
      firstLines (containsSimply tables query) (searchText item))
    (hfull : ∀ item ∈ selectedFiles snapshot scope, full item.relativePath =
      firstLines (containsFolded tables query) (searchText item)) :
    responseOf (unicodeOf tables lower) snapshot request query scope full =
        responseOf (unicodeOf tables lower) snapshot request query scope simple ↔
      FirstLinesMatch tables lower query (selectedFiles snapshot scope) request.limit := by
  have hitems : ∀ item ∈ selectedFiles snapshot scope, item ∈ snapshot.files :=
    fun item => mem_files_of_mem_selected
  have hnone : ∀ item ∈ selectedFiles snapshot scope,
      reportOf (unicodeOf tables lower) snapshot (tables.casefold query) full
        request.includeContent item = none →
      reportOf (unicodeOf tables lower) snapshot (tables.casefold query) simple
        request.includeContent item = none := by
    intro item hitem hfullNone
    have hno : (reportOf (unicodeOf tables lower) snapshot (tables.casefold query) full
        request.includeContent item).isSome = ((searchText item).splitOn '\n').any
          (containsFolded tables query) :=
      isSome_of_firstLines h (hitems item hitem) (fun _ => id) (hfull item hitem)
    rw [hfullNone, Option.isSome_none, eq_comm, List.any_eq_false] at hno
    rw [← Option.not_isSome_iff_eq_none, isSome_of_firstLines h (hitems item hitem)
      (fun _ => containsFolded_of_containsSimply) (hsimple item hitem), List.any_eq_true]
    rintro ⟨line, hline, hmatch⟩
    exact hno line hline (containsFolded_of_containsSimply hmatch)
  have hiff := @take_sorted_eq_iff _ _ _ _
    (fileKey (unicodeOf tables lower) (tables.casefold query)) _ _ _
    (sortKey (unicodeOf tables lower) (tables.casefold query))
    (fun item hitem result hreport => sortKey_reportOf h (hitems item hitem) hreport)
    (fun item hitem result hreport => sortKey_reportOf h (hitems item hitem) hreport)
    (fun item hitem item' hitem' => eq_of_fileKey h (hitems item hitem) (hitems item' hitem'))
    hnone request.limit.toNat
  have hcount : ∀ item, countBefore (fileKey (unicodeOf tables lower) (tables.casefold query))
      (fun other => (reportOf (unicodeOf tables lower) snapshot (tables.casefold query) full
        request.includeContent other).isSome) (selectedFiles snapshot scope) item =
      matchesBefore tables lower query (selectedFiles snapshot scope) item :=
    countBefore_congr fun other hother =>
      isSome_of_firstLines h (hitems other hother) (fun _ => id) (hfull other hother)
  rw [responseOf_eq_iff_results]
  refine hiff.trans (forall₂_congr fun item hitem => ?_)
  rw [hcount, reportOf_eq_iff h (hitems item hitem) (hsimple item hitem) (hfull item hitem)]

end Responses

/-- The engines give one response if and only if ripgrep is given the query, every file that it
reports has a short ID, and the first lines of the files with a place in the response match under
the simple folding too. -/
theorem search_ripgrep_eq_python_iff (tables : FoldTables) (lower : List Char → List Char)
    (sha256 : List UInt8 → List Char) (manifest : SnapshotManifest)
    (requireReadOnly writable : Bool) (disk : Disk) (snapshot : Snapshot)
    (haccepted : validateSnapshot lower sha256 manifest requireReadOnly writable disk.toTree =
      .ok snapshot)
    (rg : Ripgrep) (request : SearchRequest) (query : List Char) (scope : SearchScope)
    (hrequest : IsRequest request query scope)
    (hreports : ReportsFirstLines tables (unicodeOf tables lower) rg snapshot query) :
    search (unicodeOf tables lower) rg snapshot { request with engine := "ripgrep" } =
        search (unicodeOf tables lower) rg snapshot { request with engine := "python" } ↔
      Runnable tables snapshot query (selectedFiles snapshot scope) ∧
        FirstLinesMatch tables lower query (selectedFiles snapshot scope) request.limit := by
  have h : snapshot.Validated (repositoryCorpus (unicodeOf tables lower).lower) :=
    validated_of_validateSnapshot haccepted
  have hitems : ∀ item ∈ selectedFiles snapshot scope, item ∈ snapshot.files :=
    fun item => mem_files_of_mem_selected
  have hengine : ∀ engine, IsRequest { request with engine := engine } query scope := fun engine =>
    ⟨hrequest.stripped, hrequest.nonempty, hrequest.bounded, hrequest.limited, hrequest.known⟩
  obtain ⟨full, hpython, hfull⟩ := pythonLineMap_of_mem h query hitems
  rw [search_eq h (hengine "ripgrep"), search_eq h (hengine "python"), lineMapOf_ripgrep,
    lineMapOf_python, hpython]
  constructor
  · intro heq
    obtain ⟨simple, hsearch, hresponse⟩ := map_eq_ok.mp heq
    have hrunnable := runnable_of_ripgrepSearch h hitems hreports hsearch
    obtain ⟨simple', hsearch', hsimple⟩ := ripgrepSearch_of_runnable h hitems hreports hrunnable
    rw [hsearch'] at hsearch
    obtain rfl := Except.ok.inj hsearch
    exact ⟨hrunnable, (responseOf_eq_iff h hsimple hfull).mp hresponse.symm⟩
  · rintro ⟨hrunnable, hmatch⟩
    obtain ⟨simple, hsearch, hsimple⟩ := ripgrepSearch_of_runnable h hitems hreports hrunnable
    rw [hsearch]
    exact congrArg Except.ok ((responseOf_eq_iff h hsimple hfull).mpr hmatch).symm

/-- The event of a match in the first line of the guide. -/
def guideMatch : MatchEvent where
  json := .obj [("type", .str "match"), ("data", .obj
    [("path", .obj [("text", .str "/snapshot/docs/guide.md")]), ("line_number", .int 1)])]
  data := .obj [("path", .obj [("text", .str "/snapshot/docs/guide.md")]), ("line_number", .int 1)]
  pathData := .obj [("text", .str "/snapshot/docs/guide.md")]
  path := "/snapshot/docs/guide.md"
  line := 1
  plain := by simp [Json.Plain, Json.PlainMembers]
  isMatch := rfl
  hasData := rfl
  hasPathData := rfl
  hasPath := rfl
  hasLine := rfl

/-- A program that finds the word `guide` in the guide and nothing else anywhere. -/
def guideRipgrep : Ripgrep where
  installed := true
  run query :=
    if query = "guide".toList then some (0, stdoutOf [guideMatch]) else some (1, [])
  resolve path := if path = "/snapshot/docs/guide.md" then some "docs/guide.md" else none
  toInt := readmeHost.toInt
  toInt_int := readmeHost.toInt_int

/-- A request for at most ten files with a word. -/
def wordRequest (word : String) : SearchRequest := ⟨word, "all", 10, false, "auto"⟩

/-- Both engines find a word of ASCII letters. -/
theorem guide_found : ∃ snapshot,
    validateSnapshot (List.map Char.toLower) (fun _ => []) guideManifest false false
      (guideDisk "a guide".toList).toTree = .ok snapshot ∧
    search (unicodeOf sharpTables (List.map Char.toLower)) guideRipgrep snapshot
        { wordRequest "guide" with engine := "ripgrep" } =
      search (unicodeOf sharpTables (List.map Char.toLower)) guideRipgrep snapshot
        { wordRequest "guide" with engine := "python" } := by
  have hok : (validateSnapshot (List.map Char.toLower) (fun _ => []) guideManifest false false
      (guideDisk "a guide".toList).toTree).isOk = true := by decide +kernel
  obtain ⟨snapshot, haccepted⟩ := exists_of_isOk hok
  obtain ⟨-, hfiles⟩ := files_of_guideDisk haccepted
  have hrequest : IsRequest (wordRequest "guide") "guide".toList .all := by
    refine ⟨?_, ?_, ?_, ?_, rfl⟩ <;> decide
  have hreports : ReportsFirstLines sharpTables (unicodeOf sharpTables (List.map Char.toLower))
      guideRipgrep snapshot "guide".toList := by
    refine ⟨rfl, 0, stdoutOf [guideMatch], [some ("docs/guide.md", 1)], rfl, .inl rfl, ?_, ?_⟩
    · have hwhole : ((Json.write guideMatch.json).all fun c => !isLineBreak c) = true := by
        decide +kernel
      rw [splitlines_unbroken fun event hevent c hc => ?_]
      · rw [List.map_singleton, List.mapM_cons, readEvent_write]
        rfl
      · obtain rfl := List.mem_singleton.mp hevent
        simpa using List.all_eq_true.mp hwhole c hc
    · have hlines : ((guideFiles "a guide".toList).all fun item =>
          numbersOf [("docs/guide.md", 1)] (String.ofList item.relativePath) =
            firstLines (containsSimply sharpTables "guide".toList) (searchText item)) = true := by
        decide +kernel
      intro item hitem
      have hsame := List.all_eq_true.mp hlines item (hfiles item hitem)
      rw [decide_eq_true_eq] at hsame
      exact List.Perm.of_eq hsame
  have hmatch : ((guideFiles "a guide".toList).all fun item =>
      (firstLines (containsFolded sharpTables "guide".toList) (searchText item)).all fun number =>
        (lineAt (searchText item) number).any (containsSimply sharpTables "guide".toList)) =
          true := by
    decide +kernel
  refine ⟨snapshot, haccepted, (search_ripgrep_eq_python_iff sharpTables (List.map Char.toLower)
    (fun _ => []) guideManifest false false (guideDisk "a guide".toList) snapshot haccepted
    guideRipgrep (wordRequest "guide") "guide".toList .all hrequest hreports).mpr ⟨⟨?_, ?_⟩, ?_⟩⟩
  · decide
  · intro item hitem _
    exact hasShortId_of_guideDisk haccepted item (mem_files_of_mem_selected hitem)
  · intro item hitem _ number hnumber
    have hall := List.all_eq_true.mp hmatch item (hfiles item (mem_files_of_mem_selected hitem))
    exact (Option.any_eq_true _ _).mp (List.all_eq_true.mp hall number hnumber)

/-- Two letters are found in a sharp s by the engine in Python only. -/
theorem sharp_s_missed : ∃ snapshot,
    validateSnapshot (List.map Char.toLower) (fun _ => []) guideManifest false false
      (guideDisk ['g', 'r', 'o', sharpS, 'e', '\n']).toTree = .ok snapshot ∧
    IsRequest (wordRequest "ss") "ss".toList .all ∧
    ReportsFirstLines sharpTables (unicodeOf sharpTables (List.map Char.toLower)) guideRipgrep
      snapshot "ss".toList ∧
    search (unicodeOf sharpTables (List.map Char.toLower)) guideRipgrep snapshot
        { wordRequest "ss" with engine := "ripgrep" } ≠
      search (unicodeOf sharpTables (List.map Char.toLower)) guideRipgrep snapshot
        { wordRequest "ss" with engine := "python" } := by
  have hdiffer : ((validateSnapshot (List.map Char.toLower) (fun _ => []) guideManifest false false
      (guideDisk ['g', 'r', 'o', sharpS, 'e', '\n']).toTree).map fun snapshot =>
      decide (search (unicodeOf sharpTables (List.map Char.toLower)) guideRipgrep snapshot
        { wordRequest "ss" with engine := "ripgrep" } =
      search (unicodeOf sharpTables (List.map Char.toLower)) guideRipgrep snapshot
        { wordRequest "ss" with engine := "python" })) = .ok false := by
    decide +kernel
  obtain ⟨snapshot, haccepted, hsearch⟩ := map_eq_ok.mp hdiffer
  obtain ⟨-, hfiles⟩ := files_of_guideDisk haccepted
  refine ⟨snapshot, haccepted, ?_, ?_, of_decide_eq_false hsearch⟩
  · refine ⟨?_, ?_, ?_, ?_, rfl⟩ <;> decide
  · refine ⟨rfl, 1, [], [], rfl, .inr rfl, rfl, ?_⟩
    have hlines : ((guideFiles ['g', 'r', 'o', sharpS, 'e', '\n']).all fun item =>
        firstLines (containsSimply sharpTables "ss".toList) (searchText item) = []) = true := by
      decide +kernel
    intro item hitem
    have hnone := List.all_eq_true.mp hlines item (hfiles item hitem)
    rw [decide_eq_true_eq] at hnone
    rw [hnone]
    exact List.Perm.refl _

end ContributorGateway.ContentSearch
