import ContributorGateway.Foundation.LineBreaks
import ContributorGateway.Foundation.PathTargets

/-!
# Names of branches

The rules of `git check-ref-format` for the name of a branch, component by component, and the
parts that a name must not contain or end with instead.
-/

namespace ContributorGateway

/-- A character that the name of a reference must not have. -/
def isRefusedInRef (c : Char) : Bool :=
  c.toNat < 0x20 || c.toNat = 0x7f || [' ', '~', '^', ':', '?', '*', '[', '\\'].contains c

/-- The name of a branch: components between slashes that are not empty, do not start with a
dot and do not end in `.lock`, no other part that git gives a meaning, and not the name of the
commit that is checked out. -/
structure IsGitBranch (name : List Char) : Prop where
  components : ∀ part ∈ name.splitOn '/', IsPlain part ∧ ¬ ".lock".toList <:+ part
  characters : ∀ c ∈ name, isRefusedInRef c = false
  dots : ¬ "..".toList <:+: name
  dotEnd : name.getLast? ≠ some '.'
  brace : ¬ "@\x7b".toList <:+: name
  notAt : name ≠ ['@']
  notHead : name ≠ "HEAD".toList
  dash : name.head? ≠ some '-'

/-- The parts that a name of plain characters must not contain. -/
def refusedInside : List (List Char) := ["..", "//", "/.", ".lock/"].map String.toList

/-- The parts that a name of plain characters must not end with. -/
def refusedEnds : List (List Char) := [".", "/", ".lock"].map String.toList

/-- A name without the parts that are refused. -/
structure IsCleanName (name : List Char) : Prop where
  inside : ∀ part ∈ refusedInside, ¬ part <:+: name
  ends : ∀ part ∈ refusedEnds, ¬ part <:+ name

/-- A name of plain characters that starts with a letter or digit, say. -/
structure IsWordLike (name : List Char) : Prop where
  start : ∃ c rest, name = c :: rest ∧ c ≠ '/' ∧ c ≠ '.' ∧ c ≠ '-'
  characters : ∀ c ∈ name, isRefusedInRef c = false ∧ c ≠ '@'

/-! ## Pieces between slashes -/

/-- A text without separators between two separators or ends is a piece of the split text. -/
theorem mem_splitOnP_of_between {α : Type} {p : α → Bool} {front piece back : List α}
    (hpiece : ∀ c ∈ piece, p c = false) (hfront : ∀ c ∈ front.getLast?, p c = true)
    (hback : ∀ c ∈ back.head?, p c = true) : piece ∈ (front ++ piece ++ back).splitOnP p := by
  have hrest : piece ∈ (piece ++ back).splitOnP p := by
    cases back with
    | nil =>
      rw [List.append_nil, List.splitOnP_eq_singleton hpiece]
      exact List.mem_singleton.mpr rfl
    | cons c back =>
      rw [List.splitOnP_append_cons _ _ (hback c rfl), List.splitOnP_eq_singleton hpiece]
      exact List.mem_cons_self
  rcases List.eq_nil_or_concat front with rfl | ⟨front, c, rfl⟩
  · exact hrest
  · have hc : p c = true := hfront c (by simp)
    rw [List.concat_eq_append, List.append_assoc, List.append_assoc, List.singleton_append,
      List.splitOnP_append_cons _ _ hc]
    exact List.mem_append_right _ hrest

/-- The pieces between slashes. -/
theorem mem_splitOn_slash {name piece : List Char} : piece ∈ name.splitOn '/' ↔
    '/' ∉ piece ∧ ∃ front back, name = front ++ piece ++ back ∧
      (∀ c ∈ front.getLast?, c = '/') ∧ ∀ c ∈ back.head?, c = '/' := by
  have hslash : ∀ c : Char, (c == '/') = true ↔ c = '/' := fun c => beq_iff_eq
  rw [List.splitOn_eq_splitOnP]
  constructor
  · intro h
    obtain ⟨hpiece, front, back, hname, hfront, hback⟩ := mem_splitOnP h
    refine ⟨fun hmem => ?_, front, back, hname, fun c hc => (hslash c).mp (hfront c hc),
      fun c hc => (hslash c).mp (hback c hc)⟩
    exact absurd (hpiece '/' hmem) (by simp)
  · rintro ⟨hpiece, front, back, rfl, hfront, hback⟩
    refine mem_splitOnP_of_between (fun c hc => ?_) (fun c hc => (hslash c).mpr (hfront c hc))
      fun c hc => (hslash c).mpr (hback c hc)
    rw [beq_eq_false_iff_ne]
    rintro rfl
    exact hpiece hc

/-- A text without slashes that ends at a slash or at the end is the end of a piece. -/
theorem exists_piece_of_end (front : List Char) {ending back : List Char} (hending : '/' ∉ ending)
    (hback : ∀ c ∈ back.head?, c = '/') :
    ∃ piece ∈ (front ++ ending ++ back).splitOn '/', ending <:+ piece := by
  refine ⟨front.rtakeWhile (· ≠ '/') ++ ending, mem_splitOn_slash.mpr ⟨?_, ?_⟩,
    List.suffix_append _ _⟩
  · rw [List.mem_append, not_or]
    refine ⟨fun hmem => ?_, hending⟩
    simpa using List.mem_rtakeWhile_imp hmem
  · refine ⟨front.rdropWhile (· ≠ '/'), back, ?_, fun c hc => ?_, hback⟩
    · rw [← List.append_assoc, List.rdropWhile_append_rtakeWhile]
    · have hne : front.rdropWhile (· ≠ '/') ≠ [] := by
        intro hnil
        rw [hnil] at hc
        cases hc
      have hlast := List.rdropWhile_last_not _ _ hne
      rw [List.getLast?_eq_some_getLast hne, Option.mem_some_iff] at hc
      rw [← hc]
      simpa using hlast

/-- A text that starts with a character other than a slash behind a slash or at the start
continues a piece that starts with that character. -/
theorem exists_piece_of_start {front : List Char} (back : List Char) {c : Char} (hc : c ≠ '/')
    (hfront : ∀ d ∈ front.getLast?, d = '/') :
    ∃ piece ∈ (front ++ c :: back).splitOn '/', piece.head? = some c := by
  refine ⟨c :: back.takeWhile (· ≠ '/'), mem_splitOn_slash.mpr ⟨?_, ?_⟩, rfl⟩
  · rw [List.mem_cons, not_or]
    refine ⟨hc.symm, fun hmem => ?_⟩
    simpa using List.mem_takeWhile_imp hmem
  · refine ⟨front, back.dropWhile (· ≠ '/'), ?_, hfront, fun d hd => ?_⟩
    · rw [List.append_assoc, List.cons_append, List.takeWhile_append_dropWhile]
    · have hhead := List.head?_dropWhile_not (· ≠ '/') back
      rw [Option.mem_def] at hd
      rw [hd] at hhead
      simpa using hhead

/-! ## The rules without components -/

variable {name : List Char}

/-- The name of a branch has none of the parts that are refused. -/
theorem IsGitBranch.isCleanName (h : IsGitBranch name) : IsCleanName name := by
  constructor
  · intro part hpart hinside
    obtain ⟨front, back, rfl⟩ := hinside
    simp only [refusedInside, List.map_cons, List.map_nil, List.mem_cons, List.not_mem_nil,
      or_false] at hpart
    rcases hpart with rfl | rfl | rfl | rfl
    · exact h.dots ⟨front, back, rfl⟩
    · have hpiece : [] ∈ (front ++ "//".toList ++ back).splitOn '/' :=
        mem_splitOn_slash.mpr ⟨List.not_mem_nil, front ++ ['/'], '/' :: back, by simp,
          by simp, by simp⟩
      exact (h.components [] hpiece).1.1 rfl
    · have hsplit : front ++ "/.".toList ++ back = (front ++ ['/']) ++ '.' :: back := by simp
      have hslash : ∀ d ∈ (front ++ ['/']).getLast?, d = '/' := by simp
      obtain ⟨piece, hpiece, hhead⟩ := exists_piece_of_start back (by decide : '.' ≠ '/') hslash
      rw [hsplit] at h
      exact (h.components piece hpiece).1.2 hhead
    · have hsplit : front ++ ".lock/".toList ++ back = front ++ ".lock".toList ++ '/' :: back := by
        simp
      have hslash : ∀ d ∈ ('/' :: back).head?, d = '/' := by simp
      obtain ⟨piece, hpiece, hends⟩ := exists_piece_of_end front
        (by decide : '/' ∉ ".lock".toList) hslash
      rw [hsplit] at h
      exact (h.components piece hpiece).2 hends
  · intro part hpart hends
    obtain ⟨front, rfl⟩ := hends
    simp only [refusedEnds, List.map_cons, List.map_nil, List.mem_cons, List.not_mem_nil,
      or_false] at hpart
    rcases hpart with rfl | rfl | rfl
    · exact h.dotEnd (by simp)
    · have hpiece : [] ∈ (front ++ "/".toList).splitOn '/' :=
        mem_splitOn_slash.mpr ⟨List.not_mem_nil, front ++ ['/'], [], by simp, by simp, by simp⟩
      exact (h.components [] hpiece).1.1 rfl
    · have hend : ∀ d ∈ ([] : List Char).head?, d = '/' := by simp
      obtain ⟨piece, hpiece, hends⟩ := exists_piece_of_end front
        (by decide : '/' ∉ ".lock".toList) hend
      rw [List.append_nil] at hpiece
      exact (h.components piece hpiece).2 hends

/-- A piece of a clean name is a component that git accepts. -/
theorem IsCleanName.component (h : IsCleanName name) (hword : IsWordLike name)
    {piece : List Char} (hpiece : piece ∈ name.splitOn '/') :
    IsPlain piece ∧ ¬ ".lock".toList <:+ piece := by
  obtain ⟨c, rest, hname, hslash, hdot, -⟩ := hword.start
  obtain ⟨-, front, back, hparts, hfront, hback⟩ := mem_splitOn_slash.mp hpiece
  have hfront : front = [] ∨ ∃ before, front = before ++ ['/'] := by
    rcases List.eq_nil_or_concat front with rfl | ⟨before, d, rfl⟩
    · exact .inl rfl
    · obtain rfl := hfront d (by simp)
      exact .inr ⟨before, by simp⟩
  have hback : back = [] ∨ ∃ after, back = '/' :: after := by
    cases back with
    | nil => exact .inl rfl
    | cons d after =>
      obtain rfl := hback d rfl
      exact .inr ⟨after, rfl⟩
  refine ⟨⟨?_, ?_⟩, ?_⟩
  · rintro rfl
    rcases hfront with rfl | ⟨before, rfl⟩
    · rcases hback with rfl | ⟨after, rfl⟩
      · rw [hparts] at hname
        cases hname
      · rw [hparts] at hname
        exact hslash (List.cons.inj hname).1.symm
    · rcases hback with rfl | ⟨after, rfl⟩
      · exact h.ends "/".toList (by decide) ⟨before, by simp [hparts]⟩
      · exact h.inside "//".toList (by decide) ⟨before, after, by simp [hparts]⟩
  · intro hhead
    obtain ⟨tail, rfl⟩ : ∃ tail, piece = '.' :: tail := by
      cases piece with
      | nil => cases hhead
      | cons d tail => exact ⟨tail, by rw [Option.some.inj hhead]⟩
    rcases hfront with rfl | ⟨before, rfl⟩
    · rw [hparts] at hname
      exact hdot (List.cons.inj hname).1.symm
    · exact h.inside "/.".toList (by decide) ⟨before, tail ++ back, by simp [hparts]⟩
  · rintro ⟨stem, rfl⟩
    rcases hback with rfl | ⟨after, rfl⟩
    · exact h.ends ".lock".toList (by decide) ⟨front ++ stem, by simp [hparts]⟩
    · exact h.inside ".lock/".toList (by decide) ⟨front ++ stem, after, by simp [hparts]⟩

/-- A name of plain characters is that of a branch exactly when it has none of the parts that are
refused and is not `HEAD`. -/
theorem isGitBranch_iff (hword : IsWordLike name) :
    IsGitBranch name ↔ IsCleanName name ∧ name ≠ "HEAD".toList := by
  refine ⟨fun h => ⟨h.isCleanName, h.notHead⟩, fun ⟨h, hhead⟩ => ?_⟩
  obtain ⟨c, rest, hname, -, -, hdash⟩ := hword.start
  have hat : '@' ∉ name := fun hmem => (hword.characters '@' hmem).2 rfl
  refine ⟨fun piece => h.component hword, fun c hc => (hword.characters c hc).1,
    h.inside _ (by decide), fun hlast => ?_, fun hbrace => ?_, ?_, hhead, ?_⟩
  · obtain ⟨front, hfront⟩ := List.getLast?_eq_some_iff.mp hlast
    exact h.ends ".".toList (by decide) ⟨front, hfront.symm⟩
  · exact hat (hbrace.subset (by decide))
  · rintro rfl
    exact hat List.mem_cons_self
  · rw [hname, List.head?_cons]
    exact fun hhead => hdash (Option.some.inj hhead)

/-- A name of plain characters without dots and slashes is that of a branch, unless it is `HEAD`. -/
theorem isGitBranch_of_single (hword : IsWordLike name) (hdot : '.' ∉ name) (hslash : '/' ∉ name)
    (hhead : name ≠ "HEAD".toList) : IsGitBranch name := by
  have hinside : ∀ part ∈ refusedInside, '.' ∈ part ∨ '/' ∈ part := by decide
  have hends : ∀ part ∈ refusedEnds, '.' ∈ part ∨ '/' ∈ part := by decide
  refine (isGitBranch_iff hword).mpr ⟨⟨fun part hpart h => ?_, fun part hpart h => ?_⟩, hhead⟩
  · rcases hinside part hpart with hmem | hmem
    · exact hdot (h.subset hmem)
    · exact hslash (h.subset hmem)
  · rcases hends part hpart with hmem | hmem
    · exact hdot (h.subset hmem)
    · exact hslash (h.subset hmem)

end ContributorGateway
