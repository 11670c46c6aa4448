import ContributorGateway.Core.CitedLines
import ContributorGateway.Core.ProjectContext
import ContributorGateway.Core.ReachableFiles
import ContributorGateway.Core.TaskLists

/-!
# What the project context shows

The sections of a text form an outline, an assembler selects the sections that its files name in
their order, and the context of a bound is the beginning of one text.
-/

namespace ContributorGateway.ContextAssembly

open ContributorGateway.ProjectContext CommittedTasks

/-! ## Parts of texts -/

/-- What a front is dropped from a part of a text is a part of what is left of the text. -/
theorem dropWhile_infix {p : Char → Bool} {part text : List Char} (h : part <:+: text) :
    part.dropWhile p <:+: text.dropWhile p := by
  obtain ⟨front, back, rfl⟩ := h
  have hfront : part.dropWhile p <:+: (front ++ part).dropWhile p := by
    rw [List.dropWhile_append]
    split_ifs
    · exact List.infix_rfl
    · exact ((List.dropWhile_suffix p).trans (List.suffix_append _ _)).isInfix
  apply hfront.trans
  rw [@List.dropWhile_append Char p (front ++ part)]
  split_ifs with hempty
  · rw [List.isEmpty_iff.mp hempty]
    exact List.nil_infix
  · exact (List.prefix_append _ _).isInfix

/-- The stripped text of a part is a part of the stripped text. -/
theorem stripText_infix {part text : List Char} (h : part <:+: text) :
    stripText part <:+: stripText text := by
  rw [stripText, stripText, List.rdropWhile, List.rdropWhile, List.reverse_infix]
  apply dropWhile_infix
  rw [List.reverse_infix]
  exact dropWhile_infix h

/-- The joined text of a part of lines is a part of the joined text. -/
theorem intercalate_infix {sep : List Char} {part lines : List (List Char)}
    (h : part <:+: lines) : sep.intercalate part <:+: sep.intercalate lines := by
  obtain ⟨front, back, rfl⟩ := h
  rw [List.append_assoc]
  induction front with
  | nil =>
    apply List.IsPrefix.isInfix
    rw [List.nil_append]
    induction part with
    | nil => exact List.nil_prefix
    | cons line rest ih =>
      cases rest with
      | nil =>
        cases back with
        | nil => exact List.prefix_rfl
        | cons next back =>
          rw [List.singleton_append, List.intercalate_cons_cons, List.intercalate_singleton]
          rw [List.append_assoc]
          exact List.prefix_append _ _
      | cons next rest =>
        rw [List.cons_append, List.cons_append, List.intercalate_cons_cons,
          List.intercalate_cons_cons]
        exact (List.prefix_append_right_inj _).mpr ih
  | cons line front ih =>
    apply ih.trans
    rw [List.cons_append]
    cases front ++ (part ++ back) with
    | nil => exact List.nil_infix
    | cons next rest =>
      rw [List.intercalate_cons_cons]
      exact (List.suffix_append _ _).isInfix

/-- Fewer lines are joined to a part. -/
theorem joinLines_infix {lines : List (List Char)} {first first' last last' : ℕ}
    (hfirst : first' ≤ first) (hlast : last ≤ last') :
    joinLines lines first last <:+: joinLines lines first' last' := by
  apply intercalate_infix
  have hdrop : (lines.take last).drop first <:+ (lines.take last).drop first' :=
    List.drop_suffix_drop_left _ hfirst
  have htake : (lines.take last).drop first' <+: (lines.take last').drop first' :=
    List.IsPrefix.drop (List.take_prefix_take_left hlast) first'
  exact hdrop.isInfix.trans htake.isInfix

/-! ## Sections -/

variable {lines : List (List Char)}

/-- The headings are the lines that the expression matches. -/
theorem mem_headingsOf {heading : Heading} : heading ∈ headingsOf lines ↔
    ∃ line, lines[heading.index]? = some line ∧
      markdownHeading line = some (heading.level, heading.title) := by
  rw [headingsOf, List.mem_filterMap]
  constructor
  · rintro ⟨⟨line, index⟩, hline, hmap⟩
    obtain ⟨⟨level, title⟩, hheading, rfl⟩ := Option.map_eq_some_iff.mp hmap
    exact ⟨line, List.mk_mem_zipIdx_iff_getElem?.mp hline, hheading⟩
  · rintro ⟨line, hline, hheading⟩
    refine ⟨(line, heading.index), List.mk_mem_zipIdx_iff_getElem?.mpr hline, ?_⟩
    rw [hheading]
    rfl

/-- The headings stand in the order of their lines. -/
theorem ordered_headingsOf (lines : List (List Char)) :
    Outline.Ordered Heading.index lines.length (headingsOf lines) := by
  constructor
  · rw [headingsOf, List.pairwise_filterMap]
    have hsorted : lines.zipIdx.Pairwise fun a b => a.2 < b.2 := by
      have hindices : (lines.zipIdx.map Prod.snd).Pairwise (· < ·) := by
        rw [List.zipIdx_map_snd]
        exact List.pairwise_lt_range'
      exact List.pairwise_map.mp hindices
    refine hsorted.imp fun {a b} hlt first hfirst second hsecond => ?_
    obtain ⟨_, -, rfl⟩ := Option.map_eq_some_iff.mp hfirst
    obtain ⟨_, -, rfl⟩ := Option.map_eq_some_iff.mp hsecond
    exact hlt
  · intro heading hheading
    obtain ⟨line, hline, -⟩ := mem_headingsOf.mp hheading
    exact (List.getElem?_eq_some_iff.mp hline).1

/-- **Outline.** The sections of a text start at exactly the lines that are headings, in their
order. Each ends somewhere below: its body is the text from its heading to its end. A section starts
behind the end of an earlier one, or it is deeper, ends no later and its body is a part of the
other; and a line below the first heading belongs to the section of the last heading above it. -/
theorem sections_outline (text : List Char) :
    (∀ index level title, (∃ line, (splitlines text)[index]? = some line ∧
        markdownHeading line = some (level, title)) ↔
      ∃ s ∈ headingSections text, s.line = index + 1 ∧ s.level = level ∧ s.title = title) ∧
    ∃ spans : List (HeadingSection × ℕ), spans.map Prod.fst = headingSections text ∧
      (∀ span ∈ spans, span.1.line ≤ span.2 ∧ span.2 ≤ (splitlines text).length ∧
        span.1.body = stripText (joinLines (splitlines text) span.1.line span.2)) ∧
      (spans.Pairwise fun a b => a.1.line < b.1.line ∧ (a.2 < b.1.line ∨
        a.1.level < b.1.level ∧ b.2 ≤ a.2 ∧ b.1.body <:+: a.1.body)) ∧
      ∀ index < (splitlines text).length, (∃ s ∈ headingSections text, s.line ≤ index + 1) →
        ∃ span ∈ spans, span.1.line ≤ index + 1 ∧ index < span.2 ∧
          ∀ s ∈ headingSections text, s.line ≤ index + 1 → s.line ≤ span.1.line := by
  have hordered := ordered_headingsOf (splitlines text)
  have hmem {s : HeadingSection} : s ∈ headingSections text ↔
      ∃ extent ∈ headingExtents (splitlines text), sectionOf (splitlines text) extent = s := by
    rw [headingSections, List.mem_map]
  have hheading {heading : Heading} : heading ∈ headingsOf (splitlines text) ↔
      ∃ extent ∈ headingExtents (splitlines text), extent.1 = heading := by
    rw [← Outline.map_fst_extents Heading.index Heading.level (splitlines text).length
      (headingsOf (splitlines text)), List.mem_map]
    rfl
  refine ⟨fun index level title => ⟨?_, ?_⟩, (headingExtents (splitlines text)).map fun extent =>
    (sectionOf (splitlines text) extent, extent.2), ?_, ?_, ?_, ?_⟩
  · intro hline
    have hmark : (⟨index, level, title⟩ : Heading) ∈ headingsOf (splitlines text) :=
      mem_headingsOf.mpr hline
    obtain ⟨extent, hextent, hstart⟩ := hheading.mp hmark
    refine ⟨_, hmem.mpr ⟨extent, hextent, rfl⟩, ?_⟩
    rw [sectionOf, hstart]
    exact ⟨rfl, rfl, rfl⟩
  · rintro ⟨s, hs, hline, rfl, rfl⟩
    obtain ⟨extent, hextent, rfl⟩ := hmem.mp hs
    have hindex : extent.1.index = index := Nat.succ.inj hline
    rw [← hindex]
    exact mem_headingsOf.mp (hheading.mpr ⟨extent, hextent, rfl⟩)
  · rw [List.map_map]
    rfl
  · intro span hspan
    obtain ⟨extent, hextent, rfl⟩ := List.mem_map.mp hspan
    obtain ⟨hstart, hstop⟩ := hordered.bounds hextent
    exact ⟨hstart, hstop, rfl⟩
  · rw [List.pairwise_map]
    have hpairwise : (headingExtents (splitlines text)).Pairwise _ := hordered.pairwise_extents
    refine hpairwise.imp fun {a b} h => ?_
    obtain ⟨hlt, hapart⟩ := h
    refine ⟨Nat.succ_lt_succ hlt, ?_⟩
    rcases hapart with hbehind | ⟨hdeeper, hinside⟩
    · exact Or.inl (Nat.lt_succ_of_le hbehind)
    · refine Or.inr ⟨hdeeper, hinside, ?_⟩
      apply stripText_infix
      apply joinLines_infix _ hinside
      exact Nat.succ_le_succ hlt.le
  · rintro index hindex ⟨s, hs, hle⟩
    obtain ⟨first, hfirst, rfl⟩ := hmem.mp hs
    obtain ⟨extent, hextent, hstart, hstop, hlast⟩ :
        ∃ extent ∈ headingExtents (splitlines text), _ :=
      hordered.exists_extent hindex
        ⟨first.1, hheading.mpr ⟨first, hfirst, rfl⟩, Nat.succ_le_succ_iff.mp hle⟩
    refine ⟨_, List.mem_map_of_mem hextent, Nat.succ_le_succ hstart, hstop, fun s hs hle => ?_⟩
    obtain ⟨other, hother, rfl⟩ := hmem.mp hs
    apply Nat.succ_le_succ
    apply hlast other.1 (hheading.mpr ⟨other, hother, rfl⟩)
    exact Nat.succ_le_succ_iff.mp hle

/-! ## Named sections -/

section Selection

variable {tables : CharacterTables} {isWord : Char → Bool} {texts : Texts}
  {spec : ContextFileSpec} {selected found sections : List HeadingSection} {path : String}

/-- Sections that are selected again are not repeated. -/
theorem extendNew_spec (hselected : selected.Nodup) (found : List HeadingSection) :
    (extendNew selected found).Nodup ∧
      ∀ s, s ∈ extendNew selected found ↔ s ∈ selected ∨ s ∈ found := by
  induction found generalizing selected with
  | nil =>
    refine ⟨hselected, fun s => ?_⟩
    rw [or_iff_left (List.not_mem_nil (a := s))]
    exact Iff.rfl
  | cons head rest ih =>
    have hstep : (if head ∈ selected then selected else selected ++ [head]).Nodup ∧
        ∀ s, s ∈ (if head ∈ selected then selected else selected ++ [head]) ↔
          s ∈ selected ∨ s = head := by
      split_ifs with hhead
      · refine ⟨hselected, fun s => ⟨Or.inl, ?_⟩⟩
        rintro (hs | rfl)
        · exact hs
        · exact hhead
      · refine ⟨hselected.append (List.nodup_singleton head) ?_, fun s => ?_⟩
        · exact List.disjoint_singleton.mpr hhead
        · rw [List.mem_append, List.mem_singleton]
    obtain ⟨hnodup, hmem⟩ := ih hstep.1
    refine ⟨hnodup, fun s => ?_⟩
    rw [List.mem_cons, ← or_assoc, ← hstep.2 s]
    exact hmem s

/-- The step of the loop over the named headings. -/
def nameStep (path : String) (sections selected : List HeadingSection) (start : String) :
    Except SourceError (List HeadingSection) :=
  if sections.filter (isNamed path start) = [] then
    .error (.index "project-context file is missing a named heading")
  else .ok (extendNew selected (sections.filter (isNamed path start)))

/-- The loop selects the sections that are named, if each name has one. -/
theorem foldlM_nameStep {starts : List String} (hselected : selected.Nodup)
    (hnamed : ∀ start ∈ starts, ∃ s ∈ sections, isNamed path start s = true) :
    ∃ named, starts.foldlM (nameStep path sections) selected = .ok named ∧ named.Nodup ∧
      ∀ s, s ∈ named ↔
        s ∈ selected ∨ s ∈ sections ∧ starts.any (isNamed path · s) = true := by
  induction starts generalizing selected with
  | nil => exact ⟨selected, rfl, hselected, fun s => by simp⟩
  | cons start starts ih =>
    obtain ⟨s, hs, hname⟩ := hnamed start List.mem_cons_self
    have hne : sections.filter (isNamed path start) ≠ [] :=
      List.ne_nil_of_mem (List.mem_filter.mpr ⟨hs, hname⟩)
    obtain ⟨hnodup, hmem⟩ := extendNew_spec hselected (sections.filter (isNamed path start))
    obtain ⟨named, hok, hnodup', hmem'⟩ :=
      ih hnodup fun other hother => hnamed other (List.mem_cons_of_mem start hother)
    refine ⟨named, ?_, hnodup', fun s => ?_⟩
    · rw [List.foldlM_cons, nameStep, if_neg hne]
      exact hok
    · rw [hmem' s, hmem s, List.mem_filter, List.any_cons, Bool.or_eq_true]
      tauto

/-- The sections that a file shows: those that a heading of the file names, and the latest dated
entries of the history. -/
def wanted (tables : CharacterTables) (isWord : Char → Bool) (texts : Texts)
    (spec : ContextFileSpec) (s : HeadingSection) : Bool :=
  spec.sectionPrefixes.any (isNamed spec.path · s) ||
    (spec.path = historyPath && s.level = 2 &&
      dateOf tables isWord s.title =
        some (latestDate ((datedSections tables isWord texts).map Prod.fst)))

/-- The dated entries of the history. -/
theorem mem_datedSections {date : List Char} {s : HeadingSection} :
    (date, s) ∈ datedSections tables isWord texts ↔
      s ∈ sectionsOf texts historyPath ∧ s.level = 2 ∧ dateOf tables isWord s.title = some date := by
  rw [datedSections, List.mem_filterMap]
  constructor
  · rintro ⟨s', hs', hpair⟩
    obtain ⟨date', hdate, hpair⟩ := Option.map_eq_some_iff.mp hpair
    obtain ⟨rfl, rfl⟩ := Prod.mk.inj hpair
    obtain ⟨hs', hlevel⟩ := List.mem_filter.mp hs'
    exact ⟨hs', of_decide_eq_true hlevel, hdate⟩
  · rintro ⟨hs, hlevel, hdate⟩
    refine ⟨s, List.mem_filter.mpr ⟨hs, decide_eq_true hlevel⟩, ?_⟩
    rw [hdate]
    rfl

/-- The latest dated entries of the history. -/
theorem mem_latest {latest : List Char} {s : HeadingSection} :
    s ∈ ((datedSections tables isWord texts).filter fun entry => entry.1 = latest).map Prod.snd ↔
      s ∈ sectionsOf texts historyPath ∧ s.level = 2 ∧
        dateOf tables isWord s.title = some latest := by
  rw [List.mem_map]
  constructor
  · rintro ⟨⟨date, s'⟩, hentry, rfl⟩
    obtain ⟨hdated, hlatest⟩ := List.mem_filter.mp hentry
    obtain rfl : date = latest := of_decide_eq_true hlatest
    exact mem_datedSections.mp hdated
  · intro h
    exact ⟨(latest, s), List.mem_filter.mpr ⟨mem_datedSections.mpr h, decide_eq_true rfl⟩, rfl⟩

/-- The sections of a text are in the order of their lines. -/
theorem pairwise_headingSections (text : List Char) :
    (headingSections text).Pairwise fun a b => a.line < b.line := by
  have hpairwise : (headingExtents (splitlines text)).Pairwise _ :=
    (ordered_headingsOf (splitlines text)).pairwise_extents
  rw [headingSections, List.pairwise_map]
  exact hpairwise.imp fun h => Nat.succ_lt_succ h.1

/-- Distinct sections of a text that are sorted by their lines are in their order in the text. -/
theorem sorted_eq_filter {text : List Char} {p : HeadingSection → Bool} (hnodup : selected.Nodup)
    (hmem : ∀ s, s ∈ selected ↔ s ∈ headingSections text ∧ p s = true) :
    selected.insertionSort (fun a b => a.line ≤ b.line) = (headingSections text).filter p := by
  have hsections := pairwise_headingSections text
  have hlines : ((headingSections text).map HeadingSection.line).Nodup :=
    List.pairwise_map.mpr (hsections.imp ne_of_lt)
  have hdistinct : (headingSections text).Nodup := hlines.of_map
  have hperm : selected.Perm ((headingSections text).filter p) := by
    rw [List.perm_ext_iff_of_nodup hnodup (hdistinct.filter p)]
    intro s
    rw [hmem, List.mem_filter]
  apply @List.Perm.eq_of_pairwise _ fun a b : HeadingSection => a.line ≤ b.line
  · intro a b ha hb hle hge
    have ha := ((hmem a).mp ((List.mem_insertionSort _).mp ha)).1
    have hb := (List.mem_filter.mp hb).1
    exact List.inj_on_of_nodup_map hlines ha hb (le_antisymm hle hge)
  · exact List.pairwise_insertionSort _ _
  · exact (hsections.filter p).imp fun h => h.le
  · exact (List.perm_insertionSort _ _).trans hperm

/-- The selection succeeds exactly if every name has a section, and then it is what the file
shows. -/
theorem selectedSections_eq_ok :
    selectedSections tables isWord texts spec = .ok selected ↔
      (∀ start ∈ spec.sectionPrefixes, ∃ s ∈ sectionsOf texts spec.path,
        isNamed spec.path start s = true) ∧
      selected ≠ [] ∧
      selected = (sectionsOf texts spec.path).filter (wanted tables isWord texts spec) := by
  have hloop : namedSections texts spec =
      spec.sectionPrefixes.foldlM (nameStep spec.path (sectionsOf texts spec.path)) [] := rfl
  by_cases hnamed : ∀ start ∈ spec.sectionPrefixes, ∃ s ∈ sectionsOf texts spec.path,
      isNamed spec.path start s = true
  · obtain ⟨named, hok, hnodup, hmem⟩ := foldlM_nameStep List.nodup_nil hnamed
    have hchosen : ∀ chosen, chosen = (if spec.path = historyPath then
          extendNew named (((datedSections tables isWord texts).filter fun entry =>
            entry.1 = latestDate ((datedSections tables isWord texts).map Prod.fst)).map Prod.snd)
        else named) →
        chosen.insertionSort (fun a b => a.line ≤ b.line) =
          (sectionsOf texts spec.path).filter (wanted tables isWord texts spec) := by
      rintro chosen rfl
      split_ifs with hhistory
      · obtain ⟨hnodup', hmem'⟩ := extendNew_spec hnodup
          (((datedSections tables isWord texts).filter fun entry =>
            entry.1 = latestDate ((datedSections tables isWord texts).map Prod.fst)).map Prod.snd)
        apply sorted_eq_filter hnodup'
        intro s
        have hlatest := @mem_latest tables isWord texts
          (latestDate ((datedSections tables isWord texts).map Prod.fst)) s
        rw [hmem' s, hmem s, hlatest, wanted, hhistory, or_iff_right List.not_mem_nil,
          ← and_or_left, decide_eq_true rfl, Bool.true_and, Bool.or_eq_true, Bool.and_eq_true,
          decide_eq_true_eq, decide_eq_true_eq]
        exact Iff.rfl
      · apply sorted_eq_filter hnodup
        intro s
        rw [hmem s, wanted, decide_eq_false hhistory, or_iff_right List.not_mem_nil,
          Bool.false_and, Bool.false_and, Bool.or_false]
        exact Iff.rfl
    rw [selectedSections, hloop, hok]
    dsimp only [bind, Except.bind]
    rw [hchosen _ rfl]
    split_ifs with hempty
    · refine iff_of_false nofun ?_
      rintro ⟨-, hne, rfl⟩
      exact hne hempty
    · rw [Except.ok.injEq]
      constructor
      · rintro rfl
        exact ⟨hnamed, hempty, rfl⟩
      · rintro ⟨-, -, rfl⟩
        rfl
  · refine iff_of_false (fun hok => ?_) fun h => hnamed h.1
    obtain ⟨named, hok, -⟩ := bind_eq_ok.mp hok
    apply hnamed
    intro start hstart
    rw [hloop] at hok
    obtain ⟨before, after, hstep⟩ := exists_of_foldlM_eq_ok hok start hstart
    rw [nameStep] at hstep
    split_ifs at hstep with hempty
    obtain ⟨s, hs⟩ := List.exists_mem_of_ne_nil _ hempty
    exact ⟨s, (List.mem_filter.mp hs).1, (List.mem_filter.mp hs).2⟩

end Selection

/-! ## Complete files -/

section Assembly

variable {tables : CharacterTables} {isWord : Char → Bool} {order : SetOrder}
  {texts texts' : Texts} {commit : List Char} {tasks : List TaskRecord}

/-- The files have all that the context takes from them: a description of the project, a title in
each file, a mission that is not blank, a dated entry of the history and every named heading. -/
structure Complete (tables : CharacterTables) (isWord : Char → Bool) (texts : Texts) : Prop where
  description : descriptionOf (texts readmePath) ≠ []
  titles : ∀ spec ∈ contextFileSpecs, ∃ s ∈ sectionsOf texts spec.path, s.level = 1
  mission : ∃ mission, (sectionsOf texts agentsPath).find? (fun s =>
      s.level = 2 && startsWith "Mission".toList s.title) = some mission ∧
    boundedPlain mission.body maxStateChars ≠ []
  history : ∃ s ∈ sectionsOf texts historyPath, s.level = 2 ∧
    (dateOf tables isWord s.title).isSome = true
  named : ∀ spec ∈ contextFileSpecs, ∀ start ∈ spec.sectionPrefixes,
    ∃ s ∈ sectionsOf texts spec.path, isNamed spec.path start s = true

/-- The files of the context have different paths. -/
theorem nodup_contextPaths : (contextFileSpecs.map ContextFileSpec.path).Nodup := by decide

/-- Every file of the context has a named heading. -/
theorem sectionPrefixes_ne_nil : ∀ spec ∈ contextFileSpecs, spec.sectionPrefixes ≠ [] := by decide

/-- The contributor rules, the overview and the history are files of the context. -/
theorem mem_contextFileSpecs : ∀ path ∈ [agentsPath, readmePath, historyPath],
    ∃ spec ∈ contextFileSpecs, spec.path = path := by decide

/-- Texts are complete by what the files of the context contain. -/
theorem Complete.congr (h : Complete tables isWord texts)
    (hsame : ∀ spec ∈ contextFileSpecs, texts' spec.path = texts spec.path) :
    Complete tables isWord texts' := by
  have htext {path : String} (hpath : path ∈ [agentsPath, readmePath, historyPath]) :
      texts' path = texts path := by
    obtain ⟨spec, hspec, rfl⟩ := mem_contextFileSpecs path hpath
    exact hsame spec hspec
  constructor
  · rw [htext (by decide)]
    exact h.description
  · intro spec hspec
    rw [sectionsOf, hsame spec hspec]
    exact h.titles spec hspec
  · rw [sectionsOf, htext (by decide)]
    exact h.mission
  · rw [sectionsOf, htext (by decide)]
    exact h.history
  · intro spec hspec
    rw [sectionsOf, hsame spec hspec]
    exact h.named spec hspec

/-- The URL of a line. -/
def lineUrl (commit : List Char) (path : String) (line : ℕ) : List Char :=
  "https://github.com/alexscott2718-gif/jn-engine/blob/".toList ++ commit ++
    '/' :: quotePath path.toList ++ '#' :: 'L' :: Nat.toDigits 10 line

/-- The URLs of the files of the context are written. -/
def Cited (tables : CharacterTables) (commit : List Char) : Prop :=
  ∀ spec ∈ contextFileSpecs, ∀ line, 1 ≤ line →
    sourceUrl tables commit spec.path line = .ok (lineUrl commit spec.path line)

/-- A section starts at a line from one on. -/
theorem one_le_line {text : List Char} {s : HeadingSection} (hs : s ∈ headingSections text) :
    1 ≤ s.line := by
  obtain ⟨extent, -, rfl⟩ := List.mem_map.mp hs
  exact Nat.succ_le_succ (Nat.zero_le _)

/-- A file with a title is important. -/
theorem exists_importantFile_iff (hcited : Cited tables commit) {spec : ContextFileSpec}
    (hspec : spec ∈ contextFileSpecs) :
    (∃ file, importantFile tables commit texts spec = .ok file) ↔
      ∃ s ∈ sectionsOf texts spec.path, s.level = 1 := by
  rw [importantFile]
  cases hfind : (sectionsOf texts spec.path).find? fun s => s.level = 1 with
  | none =>
    refine iff_of_false (fun ⟨_, h⟩ => by cases h) ?_
    rintro ⟨s, hs, hlevel⟩
    exact List.find?_eq_none.mp hfind s hs (decide_eq_true hlevel)
  | some h1 =>
    have hmem := List.mem_of_find?_eq_some hfind
    refine iff_of_true ⟨_, bind_eq_ok.mpr ⟨_, hcited spec hspec h1.line (one_le_line hmem), rfl⟩⟩ ?_
    have hlevel : decide (h1.level = 1) = true := List.find?_some (p := fun s : HeadingSection =>
      decide (s.level = 1)) hfind
    exact ⟨h1, hmem, of_decide_eq_true hlevel⟩

/-- The mission is stated if it is not blank. -/
theorem missionState_eq_ok {state : List Char} : missionState texts = .ok state ↔
    ∃ mission, (sectionsOf texts agentsPath).find? (fun s =>
        s.level = 2 && startsWith "Mission".toList s.title) = some mission ∧
      boundedPlain mission.body maxStateChars ≠ [] ∧
      state = boundedPlain mission.body maxStateChars := by
  rw [missionState]
  cases (sectionsOf texts agentsPath).find? fun s =>
      s.level = 2 && startsWith "Mission".toList s.title with
  | none => exact iff_of_false nofun (fun ⟨_, h, _⟩ => by cases h)
  | some mission =>
    dsimp only
    split_ifs with hempty
    · refine iff_of_false nofun ?_
      rintro ⟨mission', hsome, hne, -⟩
      obtain rfl := Option.some.inj hsome
      exact hne hempty
    · rw [Except.ok.injEq]
      constructor
      · rintro rfl
        exact ⟨mission, rfl, hempty, rfl⟩
      · rintro ⟨mission', hsome, -, rfl⟩
        obtain rfl := Option.some.inj hsome
        rfl

/-- The latest of some dates is one of them, and none is later. -/
theorem latestDate_spec {dates : List (List Char)} (hne : dates ≠ []) :
    latestDate dates ∈ dates ∧ ∀ date ∈ dates, date ≤ latestDate dates := by
  induction dates with
  | nil => exact absurd rfl hne
  | cons date rest ih =>
    have hcons : latestDate (date :: rest) = max date (latestDate rest) := rfl
    rw [hcons]
    by_cases hrest : rest = []
    · subst hrest
      have hnil : latestDate [] ≤ date := not_lt.mp (List.not_lt_nil date)
      rw [max_eq_left hnil]
      refine ⟨List.mem_cons_self, fun other hother => ?_⟩
      rw [List.mem_singleton.mp hother]
    · obtain ⟨hmem, hle⟩ := ih hrest
      constructor
      · rcases max_choice date (latestDate rest) with h | h
        · rw [h]
          exact List.mem_cons_self
        · rw [h]
          exact List.mem_cons_of_mem date hmem
      · intro other hother
        rcases List.mem_cons.mp hother with rfl | hother
        · exact le_max_left _ _
        · exact (hle other hother).trans (le_max_right _ _)

/-- What the current state says of a dated entry of the history. -/
def historyState (date : List Char) (s : HeadingSection) : List Char :=
  boundedPlain ("Latest project history (".toList ++ date ++ "): ".toList ++ s.title) maxStateChars

/-- The states of the history are those of the entries with the latest date. -/
theorem latestHistoryStates_eq_ok {states : List (List Char)} :
    latestHistoryStates tables isWord texts = .ok states ↔
      datedSections tables isWord texts ≠ [] ∧
      states = ((datedSections tables isWord texts).filter fun entry => entry.1 =
        latestDate ((datedSections tables isWord texts).map Prod.fst)).map fun entry =>
          historyState (latestDate ((datedSections tables isWord texts).map Prod.fst)) entry.2 := by
  rw [latestHistoryStates]
  dsimp only
  split_ifs with hempty
  · exact iff_of_false nofun fun h => h.1 hempty
  · rw [Except.ok.injEq]
    constructor
    · rintro rfl
      exact ⟨hempty, rfl⟩
    · rintro ⟨-, rfl⟩
      rfl

/-- What the context shows of a section. -/
def shownExcerpt (commit : List Char) (path : String) (s : HeadingSection) : List Char :=
  "Source: ".toList ++ path.toList ++ " (".toList ++ lineUrl commit path s.line ++ ")\n".toList ++
    (excerptText s).take maxExcerptChars

/-- The excerpts of the files: of each in turn, the sections that it shows. -/
def shownExcerpts (tables : CharacterTables) (isWord : Char → Bool) (commit : List Char)
    (texts : Texts) : List (List Char) :=
  contextFileSpecs.flatMap fun spec =>
    ((sectionsOf texts spec.path).filter (wanted tables isWord texts spec)).map
      (shownExcerpt commit spec.path)

/-- The excerpts of the selected sections of a file. -/
theorem mapM_excerptOf (hcited : Cited tables commit) {spec : ContextFileSpec}
    (hspec : spec ∈ contextFileSpecs) {selected : List HeadingSection}
    (hselected : ∀ s ∈ selected, s ∈ sectionsOf texts spec.path) :
    selected.mapM (excerptOf tables commit spec.path) =
      .ok (selected.map (shownExcerpt commit spec.path)) := by
  apply mapM_eq_map
  intro s hs
  rw [excerptOf, hcited spec hspec s.line (one_le_line (hselected s hs))]
  rfl

/-- A name of a file selects a section that the file shows. -/
theorem wanted_ne_nil {spec : ContextFileSpec} (hspec : spec ∈ contextFileSpecs)
    (hnamed : ∀ start ∈ spec.sectionPrefixes,
      ∃ s ∈ sectionsOf texts spec.path, isNamed spec.path start s = true) :
    (sectionsOf texts spec.path).filter (wanted tables isWord texts spec) ≠ [] := by
  obtain ⟨start, hstart⟩ := List.exists_mem_of_ne_nil _ (sectionPrefixes_ne_nil spec hspec)
  obtain ⟨s, hs, hname⟩ := hnamed start hstart
  apply List.ne_nil_of_mem (a := s)
  refine List.mem_filter.mpr ⟨hs, ?_⟩
  rw [wanted, Bool.or_eq_true]
  exact Or.inl (List.any_eq_true.mpr ⟨start, hstart, hname⟩)

/-- The excerpts are built exactly if every file has its named headings. -/
theorem buildExcerpts_eq_ok (hcited : Cited tables commit) {excerpts : List (List Char)} :
    buildExcerpts tables isWord commit texts = .ok excerpts ↔
      (∀ spec ∈ contextFileSpecs, ∀ start ∈ spec.sectionPrefixes,
        ∃ s ∈ sectionsOf texts spec.path, isNamed spec.path start s = true) ∧
      excerpts = shownExcerpts tables isWord commit texts := by
  have hshown {spec : ContextFileSpec} (hspec : spec ∈ contextFileSpecs) {shown} :
      (selectedSections tables isWord texts spec >>= fun selected =>
        selected.mapM (excerptOf tables commit spec.path)) = .ok shown ↔
      (∀ start ∈ spec.sectionPrefixes,
        ∃ s ∈ sectionsOf texts spec.path, isNamed spec.path start s = true) ∧
      shown = ((sectionsOf texts spec.path).filter (wanted tables isWord texts spec)).map
        (shownExcerpt commit spec.path) := by
    rw [bind_eq_ok]
    constructor
    · rintro ⟨selected, hselected, hok⟩
      obtain ⟨hnamed, -, rfl⟩ := selectedSections_eq_ok.mp hselected
      rw [mapM_excerptOf hcited hspec fun s hs => (List.mem_filter.mp hs).1] at hok
      exact ⟨hnamed, (Except.ok.inj hok).symm⟩
    · rintro ⟨hnamed, rfl⟩
      refine ⟨_, selectedSections_eq_ok.mpr ⟨hnamed, wanted_ne_nil hspec hnamed, rfl⟩, ?_⟩
      exact mapM_excerptOf hcited hspec fun s hs => (List.mem_filter.mp hs).1
  rw [buildExcerpts, bind_eq_ok]
  constructor
  · rintro ⟨groups, hgroups, hok⟩
    obtain rfl := Except.ok.inj hok
    have hnamed : ∀ spec ∈ contextFileSpecs, ∀ start ∈ spec.sectionPrefixes,
        ∃ s ∈ sectionsOf texts spec.path, isNamed spec.path start s = true := by
      intro spec hspec
      obtain ⟨shown, hshow⟩ := exists_of_mapM_eq_ok hgroups hspec
      exact ((hshown hspec).mp hshow).1
    refine ⟨hnamed, ?_⟩
    have hmap := mapM_eq_map fun spec hspec => (hshown hspec).mpr ⟨hnamed spec hspec, rfl⟩
    rw [hmap] at hgroups
    obtain rfl := Except.ok.inj hgroups
    rw [shownExcerpts, List.flatMap_def]
  · rintro ⟨hnamed, rfl⟩
    refine ⟨_, mapM_eq_map fun spec hspec => (hshown hspec).mpr ⟨hnamed spec hspec, rfl⟩, ?_⟩
    rw [shownExcerpts, List.flatMap_def]

/-- The assembler is built exactly if the files are complete. -/
theorem exists_assembleTexts_iff (hcited : Cited tables commit) :
    (∃ assembler, assembleTexts tables isWord order commit tasks texts = .ok assembler) ↔
      Complete tables isWord texts := by
  constructor
  · rintro ⟨assembler, hok⟩
    obtain ⟨summary, hsummary, hok⟩ := bind_eq_ok.mp hok
    obtain ⟨files, hfiles, hok⟩ := bind_eq_ok.mp hok
    obtain ⟨state, hstate, hok⟩ := bind_eq_ok.mp hok
    obtain ⟨excerpts, hexcerpts, -⟩ := bind_eq_ok.mp hok
    obtain ⟨mission, hmission, hstate⟩ := bind_eq_ok.mp hstate
    obtain ⟨history, hhistory, -⟩ := bind_eq_ok.mp hstate
    constructor
    · intro hempty
      rw [firstDescriptionParagraph, if_pos hempty] at hsummary
      cases hsummary
    · intro spec hspec
      exact (exists_importantFile_iff hcited hspec).mp (exists_of_mapM_eq_ok hfiles hspec)
    · obtain ⟨found, hfind, hne, -⟩ := missionState_eq_ok.mp hmission
      exact ⟨found, hfind, hne⟩
    · obtain ⟨⟨date, s⟩, hdated⟩ :=
        List.exists_mem_of_ne_nil _ (latestHistoryStates_eq_ok.mp hhistory).1
      obtain ⟨hs, hlevel, hdate⟩ := mem_datedSections.mp hdated
      exact ⟨s, hs, hlevel, Option.isSome_iff_exists.mpr ⟨date, hdate⟩⟩
    · exact ((buildExcerpts_eq_ok hcited).mp hexcerpts).1
  · intro h
    obtain ⟨files, hfiles⟩ := exists_mapM_eq_ok fun spec hspec =>
      (exists_importantFile_iff hcited hspec).mpr (h.titles spec hspec)
    obtain ⟨mission, hfind, hne⟩ := h.mission
    obtain ⟨s, hs, hlevel, hsome⟩ := h.history
    obtain ⟨date, hdate⟩ := Option.isSome_iff_exists.mp hsome
    have hdated : datedSections tables isWord texts ≠ [] :=
      List.ne_nil_of_mem (mem_datedSections.mpr ⟨hs, hlevel, hdate⟩)
    have hsummary : firstDescriptionParagraph (texts readmePath) =
        .ok (descriptionOf (texts readmePath)) := if_neg h.description
    have hmission := missionState_eq_ok.mpr ⟨mission, hfind, hne, rfl⟩
    have hhistory := latestHistoryStates_eq_ok.mpr ⟨hdated, rfl⟩
    have hexcerpts : buildExcerpts tables isWord commit texts =
        .ok (shownExcerpts tables isWord commit texts) :=
      (buildExcerpts_eq_ok hcited).mpr ⟨h.named, rfl⟩
    rw [assembleTexts, hsummary, hfiles, buildCurrentState, hmission, hhistory, hexcerpts]
    exact ⟨_, rfl⟩

/-- What an assembler keeps of complete files. -/
theorem assembleTexts_eq_ok (hcited : Cited tables commit) {assembler : Assembler}
    (h : assembleTexts tables isWord order commit tasks texts = .ok assembler) :
    assembler.tasks = tasks ∧
    assembler.excerpts = shownExcerpts tables isWord commit texts ∧
    ∀ entry ∈ datedSections tables isWord texts,
      entry.1 = latestDate ((datedSections tables isWord texts).map Prod.fst) →
        historyState entry.1 entry.2 ∈ assembler.currentState := by
  obtain ⟨summary, -, h⟩ := bind_eq_ok.mp h
  obtain ⟨files, -, h⟩ := bind_eq_ok.mp h
  obtain ⟨state, hstate, h⟩ := bind_eq_ok.mp h
  obtain ⟨excerpts, hexcerpts, h⟩ := bind_eq_ok.mp h
  obtain ⟨mission, -, hstate⟩ := bind_eq_ok.mp hstate
  obtain ⟨history, hhistory, hstate⟩ := bind_eq_ok.mp hstate
  obtain rfl := Except.ok.inj h
  obtain rfl := Except.ok.inj hstate
  refine ⟨rfl, ((buildExcerpts_eq_ok hcited).mp hexcerpts).2, fun entry hentry hlatest => ?_⟩
  obtain ⟨-, rfl⟩ := latestHistoryStates_eq_ok.mp hhistory
  apply List.mem_append_left
  apply List.mem_append_right
  apply List.mem_cons_of_mem
  refine List.mem_map.mpr ⟨entry, List.mem_filter.mpr ⟨hentry, decide_eq_true hlatest⟩, ?_⟩
  rw [hlatest]

end Assembly

/-! ## The snapshot -/

section Snapshots

open RepositoryContent ContentSearch

variable {tables : CharacterTables} {isWord : Char → Bool} {order : SetOrder} {snapshot : Snapshot}
  {texts : Texts}

/-- The texts of the files of the context are those of inventoried files. -/
def ReadFrom (snapshot : Snapshot) (texts : Texts) : Prop :=
  ∀ spec ∈ contextFileSpecs, ∃ item ∈ snapshot.files, item.relativePath = spec.path.toList ∧
    texts spec.path = searchText item

/-- A file that is looked up is inventoried under its path. -/
theorem mem_of_file {path : List Char} {item : CorpusFile} (h : snapshot.file path = some item) :
    item ∈ snapshot.files ∧ item.relativePath = path := by
  rw [Snapshot.file] at h
  obtain ⟨item', hitem', heq⟩ := List.mem_map.mp (mem_of_lookup h)
  obtain ⟨rfl, rfl⟩ := Prod.mk.inj heq
  exact ⟨List.mem_reverse.mp hitem', rfl⟩

/-- The text of an inventoried file. -/
theorem sourceText_of_mem (h : snapshot.Validated (repositoryCorpus tables.lower))
    {item : CorpusFile} (hitem : item ∈ snapshot.files) {path : String}
    (hpath : item.relativePath = path.toList) :
    sourceText tables snapshot path = .ok (searchText item) := by
  obtain ⟨inode, hrevalidate, -⟩ := h.revalidate_eq hitem
  have hresolve : resolveRelativeFile tables.lower snapshot path.toList = .ok item := by
    rw [← hpath, resolveRelativeFile, validateRelativePath_of_mem h hitem]
    dsimp only [bind, Except.bind]
    rw [h.file_eq hitem]
    dsimp only
    rw [revalidateFile, hrevalidate]
    rfl
  rw [sourceText, hresolve]
  dsimp only [bind, Except.bind, Except.mapError]
  rw [readTextBounded_of_mem h hitem]
  rfl

/-- The URL of a line of an inventoried file. -/
theorem sourceUrl_of_mem (h : snapshot.Validated (repositoryCorpus tables.lower))
    {item : CorpusFile} (hitem : item ∈ snapshot.files) {path : String}
    (hpath : item.relativePath = path.toList) {line : ℕ} (hline : 1 ≤ line) :
    sourceUrl tables snapshot.commit path line = .ok (lineUrl snapshot.commit path line) := by
  have hpositive : ¬ (line : ℤ) < 1 := by omega
  have hurl : citationUrl tables.lower snapshot.commit path.toList (some line) =
      .ok (lineUrl snapshot.commit path line) := by
    rw [citationUrl, if_neg (not_not.mpr h.commit), ← hpath, validateRelativePath_of_mem h hitem]
    dsimp only [bind, Except.bind]
    rw [if_neg hpositive, hpath, Int.toNat_natCast]
    rfl
  rw [sourceUrl, hurl]
  dsimp only [Except.mapError]

/-- The URLs of the files of the context are written if all are inventoried. -/
theorem cited_of_readFrom (h : snapshot.Validated (repositoryCorpus tables.lower))
    (hread : ReadFrom snapshot texts) : Cited tables snapshot.commit := by
  intro spec hspec line hline
  obtain ⟨item, hitem, hpath, -⟩ := hread spec hspec
  exact sourceUrl_of_mem h hitem hpath hline

/-- The texts of the files of the context by their paths. -/
def textsByPath (texts : Texts) : Texts := fun path =>
  ((contextFileSpecs.map fun spec => (spec.path, texts spec.path)).lookup path).getD []

/-- The texts are those that were read. -/
theorem textsByPath_eq {spec : ContextFileSpec} (hspec : spec ∈ contextFileSpecs) :
    textsByPath texts spec.path = texts spec.path := by
  have hkeys : ((contextFileSpecs.map fun spec => (spec.path, texts spec.path)).map
      Prod.fst).Nodup := by
    rw [List.map_map]
    exact nodup_contextPaths
  rw [textsByPath, lookup_of_mem hkeys (List.mem_map.mpr ⟨spec, hspec, rfl⟩), Option.getD_some]

/-- The assembler of a snapshot is that of the texts of its files, if it has all of them. -/
theorem assemble_of_readFrom (h : snapshot.Validated (repositoryCorpus tables.lower))
    (index : TaskIndex tables snapshot.commit) (hread : ReadFrom snapshot texts) :
    assemble tables isWord order snapshot index =
      assembleTexts tables isWord order snapshot.commit (index.tasks.map BuiltTask.record)
        (textsByPath texts) := by
  have hfile : ∀ spec ∈ contextFileSpecs,
      sourceText tables snapshot spec.path = .ok (texts spec.path) := by
    intro spec hspec
    obtain ⟨item, hitem, hpath, htext⟩ := hread spec hspec
    rw [htext]
    exact sourceText_of_mem h hitem hpath
  have hall : ¬ (contextFileSpecs.any fun spec =>
      (snapshot.file spec.path.toList).isNone) = true := by
    rw [List.any_eq_true]
    rintro ⟨spec, hspec, hnone⟩
    obtain ⟨item, hitem, hpath, -⟩ := hread spec hspec
    rw [← hpath, h.file_eq hitem] at hnone
    cases hnone
  have htexts : (contextFileSpecs.mapM fun spec =>
      (sourceText tables snapshot spec.path).map fun text => (spec.path, text)) =
        .ok (contextFileSpecs.map fun spec => (spec.path, texts spec.path)) := by
    apply mapM_eq_map
    intro spec hspec
    rw [hfile spec hspec]
    rfl
  rw [assemble, if_neg (not_not.mpr rfl), if_neg hall, htexts]
  dsimp only [bind, Except.bind]
  congr 1

/-- A snapshot whose assembler is built has the files of the context. -/
theorem exists_readFrom (index : TaskIndex tables snapshot.commit) {assembler : Assembler}
    (hok : assemble tables isWord order snapshot index = .ok assembler) :
    ∃ texts, ReadFrom snapshot texts := by
  rw [assemble, if_neg (not_not.mpr rfl)] at hok
  split_ifs at hok with hmissing
  refine ⟨fun path => ((snapshot.file path.toList).map searchText).getD [], fun spec hspec => ?_⟩
  cases hfile : snapshot.file spec.path.toList with
  | none =>
    refine absurd (List.any_eq_true.mpr ⟨spec, hspec, ?_⟩) hmissing
    rw [hfile]
    rfl
  | some item =>
    obtain ⟨hitem, hpath⟩ := mem_of_file hfile
    refine ⟨item, hitem, hpath, ?_⟩
    dsimp only
    rw [hfile]
    rfl

/-- The URLs and texts of a snapshot whose assembler is built. -/
theorem assembled_texts (h : snapshot.Validated (repositoryCorpus tables.lower))
    (index : TaskIndex tables snapshot.commit) {assembler : Assembler}
    (hok : assemble tables isWord order snapshot index = .ok assembler) :
    ∃ texts, ReadFrom snapshot texts ∧ Cited tables snapshot.commit ∧
      assembleTexts tables isWord order snapshot.commit (index.tasks.map BuiltTask.record) texts =
        .ok assembler := by
  obtain ⟨texts, hread⟩ := exists_readFrom index hok
  rw [assemble_of_readFrom h index hread] at hok
  refine ⟨textsByPath texts, fun spec hspec => ?_, cited_of_readFrom h hread, hok⟩
  rw [textsByPath_eq hspec]
  exact hread spec hspec

/-- The assembler of an accepted snapshot is built exactly if all its files are there and have
what the context takes from them. -/
theorem assemble_iff (sha256 : List UInt8 → List Char) (manifest : SnapshotManifest)
    (requireReadOnly writable : Bool) (disk : Disk)
    (haccepted : validateSnapshot tables.lower sha256 manifest requireReadOnly writable
      disk.toTree = .ok snapshot) (index : TaskIndex tables snapshot.commit) :
    (∃ assembler, assemble tables isWord order snapshot index = .ok assembler) ↔
      ∃ texts, ReadFrom snapshot texts ∧ Complete tables isWord texts := by
  have h := validated_of_validateSnapshot haccepted
  constructor
  · rintro ⟨assembler, hok⟩
    obtain ⟨texts, hread, hcited, hok⟩ := assembled_texts h index hok
    exact ⟨texts, hread, (exists_assembleTexts_iff hcited).mp ⟨assembler, hok⟩⟩
  · rintro ⟨texts, hread, hcomplete⟩
    rw [assemble_of_readFrom h index hread]
    apply (exists_assembleTexts_iff (cited_of_readFrom h hread)).mpr
    exact hcomplete.congr fun spec => textsByPath_eq

/-- Every dated entry of the history is in the current state, or a later one is. -/
theorem latest_shown {assembler : Assembler}
    (hstates : ∀ entry ∈ datedSections tables isWord texts,
      entry.1 = latestDate ((datedSections tables isWord texts).map Prod.fst) →
        historyState entry.1 entry.2 ∈ assembler.currentState) {s : HeadingSection}
    (hs : s ∈ sectionsOf texts historyPath) (hlevel : s.level = 2) {date : List Char}
    (hdate : dateOf tables isWord s.title = some date) :
    historyState date s ∈ assembler.currentState ∨
      ∃ s' ∈ sectionsOf texts historyPath, ∃ date', s'.level = 2 ∧
        dateOf tables isWord s'.title = some date' ∧ date < date' ∧
          historyState date' s' ∈ assembler.currentState := by
  have hentry := mem_datedSections.mpr ⟨hs, hlevel, hdate⟩
  have hdates : date ∈ (datedSections tables isWord texts).map Prod.fst :=
    List.mem_map.mpr ⟨_, hentry, rfl⟩
  obtain ⟨hlatest, hle⟩ := latestDate_spec (List.ne_nil_of_mem hdates)
  rcases eq_or_lt_of_le (hle date hdates) with heq | hlt
  · left
    exact hstates (date, s) hentry heq
  · right
    obtain ⟨⟨date', s'⟩, hentry', heq⟩ := List.mem_map.mp hlatest
    obtain ⟨hs', hlevel', hdate'⟩ := mem_datedSections.mp hentry'
    rw [← heq] at hlt
    exact ⟨s', hs', date', hlevel', hdate', hlt, hstates (date', s') hentry' heq⟩

/-- **Briefing.** A request within the bounds is answered with a context that is no longer than
asked for: what stands before the excerpts and the excerpts of the files in their order, cut there;
fewer characters give the beginning of it and nothing else changes. The latest dated entry of the history is in the
current state, and the open tasks are the first ten of the index that are not done. -/
theorem briefing_spec (sha256 : List UInt8 → List Char) (manifest : SnapshotManifest)
    (requireReadOnly writable : Bool) (disk : Disk)
    (haccepted : validateSnapshot tables.lower sha256 manifest requireReadOnly writable
      disk.toTree = .ok snapshot) {index : TaskIndex tables snapshot.commit}
    (hindex : taskIndex tables snapshot = .ok index) {assembler : Assembler}
    (hok : assemble tables isWord order snapshot index = .ok assembler) {maxChars : ℤ}
    (hbounds : 1000 ≤ maxChars ∧ maxChars ≤ 20000) :
    ∃ texts context, ReadFrom snapshot texts ∧ assembler.build maxChars = .ok context ∧
      context.context.length ≤ maxChars.toNat ∧
      context.context = (assembler.front ++ "\n\n".toList.intercalate
        (shownExcerpts tables isWord snapshot.commit texts)).take maxChars.toNat ∧
      (∀ fewer, 1000 ≤ fewer → fewer ≤ maxChars → assembler.build fewer =
        .ok { context with context := context.context.take fewer.toNat }) ∧
      (∀ s ∈ sectionsOf texts historyPath, s.level = 2 → ∀ date,
        dateOf tables isWord s.title = some date →
          historyState date s ∈ context.currentState ∨
            ∃ s' ∈ sectionsOf texts historyPath, ∃ date', s'.level = 2 ∧
              dateOf tables isWord s'.title = some date' ∧ date < date' ∧
                historyState date' s' ∈ context.currentState) ∧
      context.openTasks.length ≤ maxContextTasks ∧
      (∀ task ∈ context.openTasks, task.status ≠ .done ∧
        ∃ built ∈ index.tasks, built.record = task) ∧
      ∀ task ∈ index.tasks, task.record.status ≠ .done → task.record ∈ context.openTasks ∨
        context.openTasks.length = maxContextTasks ∧
          ∀ other ∈ context.openTasks, taskKey other < taskKey task.record := by
  have h := validated_of_validateSnapshot haccepted
  obtain ⟨texts, hread, hcited, hok⟩ := assembled_texts h index hok
  obtain ⟨htasks, hexcerpts, hstates⟩ := assembleTexts_eq_ok hcited hok
  have hopen : ∀ task : TaskRecord,
      (decide (task.status = .open) || decide (task.status = .blocked)) = true ↔
        task.status ≠ .done := by
    intro task
    cases task.status <;> decide
  have hrecords : (index.tasks.map BuiltTask.record).Pairwise fun a b => taskKey a < taskKey b :=
    List.pairwise_map.mpr (pairwise_taskIndex hindex)
  have hordered : ((index.tasks.map BuiltTask.record).filter fun task =>
      task.status = .open || task.status = .blocked).Pairwise fun a b => taskKey a < taskKey b :=
    hrecords.filter _
  refine ⟨texts, _, hread, if_neg (not_not.mpr hbounds), ?_, ?_, fun fewer hfewer hle => ?_,
    fun s hs hlevel date hdate => latest_shown hstates hs hlevel hdate, ?_, fun task htask => ?_,
    fun task htask hstatus => ?_⟩
  · exact List.length_take_le _ _
  · rw [← hexcerpts, ← Assembler.text]
  · rw [Assembler.build, if_neg (not_not.mpr ⟨hfewer, hle.trans hbounds.2⟩)]
    dsimp only
    rw [List.take_take, min_eq_left (Int.toNat_le_toNat hle)]
  · exact List.length_take_le _ _
  · have hmem := List.mem_of_mem_take htask
    rw [htasks, List.mem_filter] at hmem
    obtain ⟨built, hbuilt, heq⟩ := List.mem_map.mp hmem.1
    exact ⟨(hopen task).mp hmem.2, built, hbuilt, heq⟩
  · have hmem : task.record ∈ (index.tasks.map BuiltTask.record).filter fun task =>
        task.status = .open || task.status = .blocked :=
      List.mem_filter.mpr ⟨List.mem_map_of_mem htask, (hopen _).mpr hstatus⟩
    dsimp only [Assembler.openTasks]
    rw [htasks]
    exact mem_take_or hordered hmem maxContextTasks

end Snapshots

/-! ## A snapshot with the files of the context -/

open RepositoryContent Node

/-- The approved root files and directories, the files of the context and those of the tasks. -/
def contextEntries : Entries :=
  [("AGENTS.md".toList, .file 0), ("README.md".toList, .file 1), ("Makefile".toList, .file 2),
    ("src".toList, .dir []), ("instrument".toList, .dir []), ("tools".toList, .dir []),
    ("docs".toList, .dir [
      ("ARCHITECTURE.md".toList, .file 3), ("PROJECT_HISTORY.md".toList, .file 4),
      ("asset_catalog".toList, .dir [("behavior_todo.md".toList, .file 5)]),
      ("claude_code_failure_patterns.md".toList, .file 6),
      ("decomp".toList, .dir [("_next_session.md".toList, .file 7)]),
      ("decomp_ledger.csv".toList, .file 8), ("linkage_certificates.csv".toList, .file 9),
      ("local_env.md".toList, .file 10), ("native_port_plan.md".toList, .file 11),
      ("qa".toList, .dir [("qa_backlog_campaign_handoff.md".toList, .file 12)])]),
    ("web".toList, .dir [])]

/-- A text with a title and the named headings of a file. -/
def headedText (path : String) : List Char :=
  "# T\nText.\n".toList ++ (contextFileSpecs.filter fun spec => spec.path = path).flatMap fun spec =>
    spec.sectionPrefixes.flatMap fun start => "## ".toList ++ start.toList ++ "\nText.\n".toList

/-- The texts of the files. -/
def contextTexts : List (List Char) := [
  headedText agentsPath, headedText readmePath, "a line\n".toList,
  headedText "docs/ARCHITECTURE.md",
  headedText historyPath ++ "## Day 2026-01-02\n## Day 2026-01-01\n".toList,
  "## ".toList ++ queueSection.toList ++ '\n' :: tableLine catalogQueueHeaders ++
    "## ".toList ++ unusedSection.toList ++ '\n' :: tableLine catalogUnusedHeaders,
  headedText "docs/claude_code_failure_patterns.md",
  headedText handoffPath ++ "## Live options\n- fix it\n".toList,
  delimitedLine ',' decompHeaders, delimitedLine ',' linkageHeaders,
  headedText "docs/local_env.md", headedText "docs/native_port_plan.md",
  "## Master report ledger\n".toList ++ tableLine qaHeaders]

theorem wellNamed_contextEntries : (Node.dir contextEntries).WellNamed := by
  simp [contextEntries, Node.WellNamed, Node.WellNamedEntries, IsFileName, PurePosixPath.IsName,
    PurePosixPath.isDropped, nul]

theorem counted_contextEntries (inode : ℕ) :
    ((filesIn [] contextEntries).map Prod.snd).count inode ≤ 1 :=
  List.nodup_iff_count_le_one.mp (by decide +kernel) inode

/-- A disk with the files of the context. -/
def contextDisk : Disk where
  entries := contextEntries
  links _ := 1
  data inode := utf8Encode (contextTexts[inode]?.getD [])
  wellNamed := wellNamed_contextEntries
  counted := counted_contextEntries

/-- The manifest of the disk, with a digest of no characters. -/
def contextManifest : SnapshotManifest where
  commit := List.replicate 40 'a'
  fileCount := 13
  totalBytes := 1372
  contentSha256 := []
  isCommit := ContentSearch.isCommit_guideManifest

/-- The assembler of the disk is built. -/
theorem exists_assembled : ∃ snapshot index assembler,
    validateSnapshot asciiTables.lower (fun _ => []) contextManifest false false
      contextDisk.toTree = .ok snapshot ∧
    taskIndex asciiTables snapshot = .ok index ∧
    assemble asciiTables isAsciiAlnum insertionOrder snapshot index = .ok assembler := by
  have hbuilt : ((validateSnapshot asciiTables.lower (fun _ => []) contextManifest false
      false contextDisk.toTree).map fun snapshot =>
        ((taskIndex asciiTables snapshot).bind fun index =>
          assemble asciiTables isAsciiAlnum insertionOrder snapshot index).isOk) = .ok true := by
    decide +kernel
  obtain ⟨snapshot, haccepted, hok⟩ := map_eq_ok.mp hbuilt
  obtain ⟨assembler, hassembled⟩ := exists_of_isOk hok
  obtain ⟨index, hindex, hassembled⟩ := bind_eq_ok.mp hassembled
  exact ⟨snapshot, index, assembler, haccepted, hindex, hassembled⟩

/-- The files of the disk are complete. -/
theorem assemble_iff_headed : ∃ snapshot texts,
    validateSnapshot asciiTables.lower (fun _ => []) contextManifest false false
      contextDisk.toTree = .ok snapshot ∧
    ReadFrom snapshot texts ∧ Complete asciiTables isAsciiAlnum texts := by
  obtain ⟨snapshot, index, assembler, haccepted, -, hassembled⟩ := exists_assembled
  have hcomplete : ∃ texts, ReadFrom snapshot texts ∧ Complete asciiTables isAsciiAlnum texts :=
    (assemble_iff (fun _ => []) contextManifest false false contextDisk haccepted index).mp
      ⟨assembler, hassembled⟩
  obtain ⟨texts, hread, hcomplete⟩ := hcomplete
  exact ⟨snapshot, texts, haccepted, hread, hcomplete⟩

/-- A briefing over the disk is cut at the bound. -/
theorem briefing_spec_headed : ∃ snapshot index assembler context,
    taskIndex asciiTables snapshot = .ok index ∧
    assemble asciiTables isAsciiAlnum insertionOrder snapshot index = .ok assembler ∧
    assembler.build 2000 = .ok context ∧ context.context.length ≤ 2000 ∧
    assembler.build 1000 = .ok { context with context := context.context.take 1000 } := by
  obtain ⟨snapshot, index, assembler, haccepted, hindex, hassembled⟩ := exists_assembled
  obtain ⟨-, context, -, hbuild, hlength, -, hfewer, -⟩ := briefing_spec (fun _ => [])
    contextManifest false false contextDisk haccepted hindex hassembled
      (show 1000 ≤ (2000 : ℤ) ∧ (2000 : ℤ) ≤ 20000 by omega)
  exact ⟨snapshot, index, assembler, context, hindex, hassembled, hbuild, hlength,
    hfewer 1000 (by omega) (by omega)⟩

end ContributorGateway.ContextAssembly
