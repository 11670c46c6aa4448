import ContributorGateway.Collaboration.Errors
import ContributorGateway.Foundation.JsonWritten
import ContributorGateway.Foundation.LineBreaks
import Mathlib.Logic.Function.Basic

/-!
# Events of ripgrep

The ripgrep engine splits the output of the program into lines of Python texts and reads every
line as an event. The program writes an event on one line of its own, where only the line feed
ends a line. The two agree as long as no string of an event has one of the line breaks that
JSON does not escape.
-/

namespace ContributorGateway.ContentSearch

open Json

/-! ## The source -/

/-- `MAX_MATCHES_PER_FILE`. -/
def maxMatchesPerFile : ℕ := 20

/-- What the engine takes from its surroundings. -/
structure Host where
  /-- `Path(path_text).resolve(strict=True).relative_to(root).as_posix()`, or `none` for an
  `OSError` or a `ValueError`. -/
  resolve : String → Option String
  /-- `int(value)`, or `none` for a `TypeError` or a `ValueError`. -/
  toInt : Json → Option ℤ
  toInt_int : ∀ n, toInt (.int n) = some n
  /-- `resolve_content_id(snapshot, encode_content_id(commit, relative_path))`. -/
  revalidate : String → Except String Unit

/-- The path and the line number of a match event; `none` where the loop continues. -/
def matchOf (host : Host) (event : Json) : Option (String × ℤ) := do
  let .str "match" ← event.get "type" | none
  let data ← event.get "data"
  let path ← data.get "path"
  let text ← path.get "text"
  let relative ← text.asStr >>= host.resolve
  let line ← data.get "line_number" >>= host.toInt
  some (relative, line)

/-- The `try` statement of the loop. Only objects have the attribute `get`. -/
def readEvent (host : Host) (rawEvent : List Char) : Except String (Option (String × ℤ)) :=
  match loads rawEvent with
  | none => .ok none
  | some (.obj members) => .ok (matchOf host (.obj members))
  | some _ => .error "AttributeError"

/-- The path and the line number that a raw event adds to the line map. -/
def acceptEvent (host : Host) (selected : List String) (rawEvent : List Char) :
    Except String (Option (String × ℤ)) := do
  match ← readEvent host rawEvent with
  | none => .ok none
  | some (relative, line) =>
      if relative ∉ selected then .ok none
      else do
        host.revalidate relative
        .ok (some (relative, line))

/-- Append a line number to the numbers of a path, unless it is there or there are enough. -/
def addNumber (lineMap : String → List ℤ) (relative : String) (line : ℤ) : String → List ℤ :=
  let numbers := lineMap relative
  if line ∉ numbers ∧ numbers.length < maxMatchesPerFile then
    Function.update lineMap relative (numbers ++ [line])
  else lineMap

/-- The body of the loop. -/
def stepEvent (host : Host) (selected : List String) (lineMap : String → List ℤ)
    (rawEvent : List Char) : Except String (String → List ℤ) := do
  match ← acceptEvent host selected rawEvent with
  | none => .ok lineMap
  | some (relative, line) => .ok (addNumber lineMap relative line)

/-- `_ripgrep_line_map` on the output of the program. -/
def ripgrepLineMap (host : Host) (selected : List String) (stdout : List Char) :
    Except String (String → List ℤ) := do
  let lineMap ← (splitlines stdout).foldlM (stepEvent host selected) fun _ => []
  .ok fun relative => (lineMap relative).insertionSort (· ≤ ·)

/-! ## The program -/

/-- A match event: an object with the path and the line number where the engine reads them. -/
structure MatchEvent where
  json : Json
  data : Json
  pathData : Json
  path : String
  line : ℤ
  plain : Plain json
  isMatch : json.get "type" = some (.str "match")
  hasData : json.get "data" = some data
  hasPathData : data.get "path" = some pathData
  hasPath : pathData.get "text" = some (.str path)
  hasLine : data.get "line_number" = some (.int line)

/-- The output of the program as the engine's text stream reads it: every event on a line. -/
def stdoutOf (events : List MatchEvent) : List Char :=
  universalNewlines (events.flatMap fun event => write event.json ++ ['\n'])

/-- The event's path resolves to a selected file that passes every check. -/
def Resolves (host : Host) (selected : List String) (event : MatchEvent) : Prop :=
  ∃ relative ∈ selected, host.resolve event.path = some relative ∧
    host.revalidate relative = .ok ()

/-- What the events report. -/
def reported (host : Host) (events : List MatchEvent) : List (String × ℤ) :=
  events.filterMap fun event => (host.resolve event.path).map fun relative =>
    (relative, event.line)

/-- No event is dropped or misattributed: the loop accepts what the events report, and the line
map has every reported line number, up to the bound, and no others. -/
structure Lossless (host : Host) (selected : List String) (events : List MatchEvent) : Prop where
  accepted : ∃ accepted, (splitlines (stdoutOf events)).mapM (acceptEvent host selected) =
    .ok accepted ∧ accepted.filterMap id = reported host events
  lineMap : ∃ lineMap, ripgrepLineMap host selected (stdoutOf events) = .ok lineMap ∧
    ∀ relative line,
      ((relative, line) ∈ reported host events → line ∈ lineMap relative ∨
        (lineMap relative).length = maxMatchesPerFile) ∧
      (line ∈ lineMap relative → (relative, line) ∈ reported host events)

/-- The line breaks that a JSON string may have as they are. -/
def rawLineBreaks : List Char := [Char.ofNat 0x85, Char.ofNat 0x2028, Char.ofNat 0x2029]

variable {host : Host} {selected : List String}

/-! ## Whole events -/

/-- A match event is an object. -/
theorem MatchEvent.exists_members (event : MatchEvent) :
    ∃ members, event.json = .obj members := by
  have hget := event.isMatch
  cases hjson : event.json with
  | obj members => exact ⟨members, rfl⟩
  | _ =>
    rw [hjson] at hget
    cases hget

/-- The engine reads a whole event as the program wrote it. -/
theorem readEvent_write (event : MatchEvent) :
    readEvent host (write event.json) =
      .ok ((host.resolve event.path).map fun relative => (relative, event.line)) := by
  obtain ⟨members, hmembers⟩ := event.exists_members
  have hmatch : matchOf host event.json =
      (host.resolve event.path).map fun relative => (relative, event.line) := by
    simp only [matchOf, event.isMatch, event.hasData, event.hasPathData, event.hasPath,
      event.hasLine, Option.bind_eq_bind, Option.bind_some, asStr, host.toInt_int]
    cases host.resolve event.path <;> rfl
  rw [readEvent, loads_write event.plain, hmembers]
  rw [hmembers] at hmatch
  exact congrArg Except.ok hmatch

/-- A whole event is accepted. -/
theorem acceptEvent_write {event : MatchEvent} (hresolves : Resolves host selected event) :
    acceptEvent host selected (write event.json) =
      .ok ((host.resolve event.path).map fun relative => (relative, event.line)) := by
  obtain ⟨relative, hselected, hresolve, hrevalidate⟩ := hresolves
  rw [acceptEvent, readEvent_write, hresolve]
  change (if relative ∉ selected then _ else _) = _
  rw [if_neg (not_not.mpr hselected), hrevalidate]
  rfl

/-! ## Pieces of events -/

/-- A line break beyond ASCII is one that JSON leaves as it is. -/
theorem mem_rawLineBreaks_iff {c : Char} :
    c ∈ rawLineBreaks ↔ isLineBreak c = true ∧ 0x80 ≤ c.toNat := by
  have hchar : ∀ n : ℕ, (Char.ofNat n).toNat = n → (c = Char.ofNat n ↔ c.toNat = n) := by
    intro n hn
    constructor
    · rintro rfl
      exact hn
    · rintro rfl
      exact (Char.ofNat_toNat c).symm
  simp only [rawLineBreaks, List.mem_cons, List.not_mem_nil, or_false,
    hchar 0x85 (by decide), hchar 0x2028 (by decide), hchar 0x2029 (by decide), isLineBreak,
    Bool.or_eq_true, Bool.and_eq_true, decide_eq_true_eq, beq_iff_eq]
  omega

/-- The text of an event breaks at the raw line breaks of its strings. -/
theorem exists_break_iff (event : MatchEvent) :
    (∃ c ∈ write event.json, isLineBreak c = true) ↔
      ∃ c ∈ rawLineBreaks, HasChar c event.json := by
  constructor
  · rintro ⟨c, hc, hbreak⟩
    have hspace := space_le_of_mem_write event.plain hc
    have hraw : 0x80 ≤ c.toNat := by
      simp only [isLineBreak, Bool.or_eq_true, Bool.and_eq_true, decide_eq_true_eq,
        beq_iff_eq] at hbreak
      omega
    exact ⟨c, mem_rawLineBreaks_iff.mpr ⟨hbreak, hraw⟩, (mem_write_iff event.plain hraw).mp hc⟩
  · rintro ⟨c, hc, hchar⟩
    obtain ⟨hbreak, hraw⟩ := mem_rawLineBreaks_iff.mp hc
    exact ⟨c, (mem_write_iff event.plain hraw).mpr hchar, hbreak⟩

/-- A line break stands in a string and leaves it open. -/
theorem inside_of_break {front back : List Char} {c : Char}
    (htext : Written (front ++ c :: back)) (hbreak : isLineBreak c = true) :
    Place.outside.afterText front = .inside ∧ Place.inside.after c = .inside := by
  have hne : ∀ {d : Char}, isLineBreak d = false → c ≠ d := by
    rintro d hd rfl
    rw [hd] at hbreak
    cases hbreak
  have hquote : c ≠ '"' := hne (by decide)
  have hslash : c ≠ '\\' := hne (by decide)
  have hreads := htext.2
  rw [Place.reads_append] at hreads
  obtain ⟨-, hpermits, -⟩ := hreads
  refine ⟨?_, by rw [Place.after, if_neg hquote, if_neg hslash]⟩
  cases hplace : Place.outside.afterText front with
  | inside => rfl
  | outside =>
    rw [hplace] at hpermits
    have hstructural := hpermits.resolve_left hquote
    have hbreaks : ("[]{},:-0123456789nultrefas".toList.all fun d => !isLineBreak d) = true := by
      decide
    have hnone := List.all_eq_true.mp hbreaks c hstructural
    rw [hbreak] at hnone
    cases hnone
  | escaped =>
    rw [hplace] at hpermits
    have hnone : simpleEscape c = none := by
      simp only [simpleEscape, hquote, hslash, hne (d := '/') (by decide),
        hne (d := 'n') (by decide), hne (d := 'r') (by decide), hne (d := 't') (by decide),
        hne (d := 'f') (by decide), hne (d := 'b') (by decide), if_false]
    rcases hpermits.1 with hletter | hletter
    · exact absurd hletter (hne (by decide))
    · exact absurd hnone hletter

/-- A piece that begins in a string of an event is read as a value without a type. -/
theorem get_type_of_inside {piece : List Char} {v : Json}
    (hreads : Place.inside.Reads Structural (fun _ => True) piece)
    (hloads : loads piece = some v) : v.get "type" = none := by
  have htaken := loads_taken hloads
  have hslash : ¬ Structural '\\' := by simp [Structural]
  have hexchanged := (reads_exchanged hslash).1 hreads htaken.balanced.2
  cases v with
  | obj members =>
    have hkeys := htaken.keys members rfl Structural hslash hexchanged
    refine List.lookup_eq_none_iff.mpr fun m hm => ?_
    -- The structure around the strings of the event lacks a letter of the key.
    rw [bne_iff_ne]
    intro hkey
    have hletter := hkeys m hm 'y' (by rw [← hkey]; decide)
    exact absurd hletter (by simp [Structural])
  | _ => rfl

/-- A piece of a broken event ends in a string or begins in one. -/
theorem piece_of_broken {text piece : List Char} (htext : Written text)
    (hbroken : ∃ c ∈ text, isLineBreak c = true) (hpiece : piece ∈ text.splitOnP isLineBreak) :
    Place.outside.afterText piece = .inside ∨
      Place.inside.Reads Structural (fun _ => True) piece := by
  obtain ⟨hnone, front, back, rfl, hfront, hback⟩ := mem_splitOnP hpiece
  rcases List.eq_nil_or_concat front with rfl | ⟨front, d, rfl⟩
  · left
    cases back with
    | nil =>
      obtain ⟨c, hc, hbreak⟩ := hbroken
      rw [List.nil_append, List.append_nil] at hc
      rw [hnone c hc] at hbreak
      cases hbreak
    | cons c back =>
      rw [List.nil_append] at htext
      exact (inside_of_break htext (hback c rfl)).1
  · right
    have hd : isLineBreak d = true := hfront d (by simp)
    rw [List.append_assoc, List.concat_eq_append, List.append_assoc, List.singleton_append]
      at htext
    obtain ⟨hplace, hafter⟩ := inside_of_break htext hd
    have hreads := htext.2
    rw [Place.reads_append, hplace] at hreads
    obtain ⟨-, -, hreads⟩ := hreads
    rw [hafter, Place.reads_append] at hreads
    exact hreads.1

/-- No piece of a broken event is accepted. -/
theorem readEvent_piece {event : MatchEvent} {piece : List Char}
    (hbroken : ∃ c ∈ write event.json, isLineBreak c = true)
    (hpiece : piece ∈ (write event.json).splitOnP isLineBreak) {read : Option (String × ℤ)}
    (hread : readEvent host piece = .ok read) : read = none := by
  have hplace := piece_of_broken (written_write event.plain) hbroken hpiece
  rw [readEvent.eq_def] at hread
  split at hread
  · exact (Except.ok.inj hread).symm
  · next members hloads =>
    rcases hplace with hinside | hreads
    · rw [(loads_taken hloads).balanced.1] at hinside
      cases hinside
    · have htype := get_type_of_inside hreads hloads
      rw [matchOf, htype] at hread
      exact (Except.ok.inj hread).symm
  · cases hread

/-- Nor does the loop accept a piece. -/
theorem acceptEvent_piece {event : MatchEvent} {piece : List Char}
    (hbroken : ∃ c ∈ write event.json, isLineBreak c = true)
    (hpiece : piece ∈ (write event.json).splitOnP isLineBreak)
    {accepted : Option (String × ℤ)}
    (haccepted : acceptEvent host selected piece = .ok accepted) : accepted = none := by
  obtain ⟨read, hread, haccepted⟩ := bind_eq_ok.mp haccepted
  obtain rfl := readEvent_piece hbroken hpiece hread
  exact (Except.ok.inj haccepted).symm

/-! ## The lines of the output -/

/-- The lines of the output are the pieces of the events. -/
theorem splitlines_stdoutOf (events : List MatchEvent) :
    splitlines (stdoutOf events) =
      events.flatMap fun event => (write event.json).splitOnP isLineBreak := by
  have hreturn : ∀ event : MatchEvent, '\r' ∉ write event.json := fun event hmem => by
    have hspace := space_le_of_mem_write event.plain hmem
    exact absurd hspace (by decide)
  have hoverall : '\r' ∉ events.flatMap fun event => write event.json ++ ['\n'] := by
    simp [hreturn]
  rw [stdoutOf, universalNewlines_eq hoverall]
  clear hoverall
  induction events with
  | nil => rfl
  | cons event events ih =>
    rw [List.flatMap_cons, List.flatMap_cons, List.append_assoc, List.singleton_append,
      splitlines_line (hreturn event), ih]

/-- The events that the lines lose are at least the broken ones. -/
theorem accepted_length_le {events : List MatchEvent} {accepted : List (Option (String × ℤ))}
    (haccepted : (splitlines (stdoutOf events)).mapM (acceptEvent host selected) = .ok accepted) :
    (accepted.filterMap id).length +
      events.countP (fun event => (write event.json).any isLineBreak) ≤ events.length := by
  rw [splitlines_stdoutOf] at haccepted
  induction events generalizing accepted with
  | nil =>
    obtain rfl := Except.ok.inj haccepted
    simp
  | cons event events ih =>
    rw [List.flatMap_cons, List.mapM_append] at haccepted
    obtain ⟨front, hfront, haccepted⟩ := bind_eq_ok.mp haccepted
    obtain ⟨back, hback, haccepted⟩ := bind_eq_ok.mp haccepted
    obtain rfl := Except.ok.inj haccepted
    have ih := ih hback
    rw [List.filterMap_append, List.length_append, List.countP_cons, List.length_cons]
    by_cases hbroken : (write event.json).any isLineBreak = true
    · have hnone : front.filterMap id = [] := by
        refine List.filterMap_eq_nil_iff.mpr fun a ha => ?_
        obtain ⟨piece, hpiece, haccept⟩ := exists_of_mem_mapM hfront ha
        exact acceptEvent_piece (List.any_eq_true.mp hbroken) hpiece haccept
      rw [hnone, if_pos hbroken, List.length_nil]
      omega
    · have hwhole : (write event.json).splitOnP isLineBreak = [write event.json] := by
        refine List.splitOnP_eq_singleton fun c hc => ?_
        rw [Bool.not_eq_true, List.any_eq_false] at hbroken
        exact Bool.eq_false_iff.mpr (hbroken c hc)
      have hone : (front.filterMap id).length ≤ 1 := by
        have hlength := (mapM_eq_ok.mp hfront).length_eq
        rw [hwhole, List.length_singleton] at hlength
        rw [hlength]
        exact List.length_filterMap_le id front
      rw [if_neg hbroken]
      omega

/-- The lines of an unbroken output are the events. -/
theorem splitlines_unbroken {events : List MatchEvent}
    (hwhole : ∀ event ∈ events, ∀ c ∈ write event.json, isLineBreak c = false) :
    splitlines (stdoutOf events) = events.map fun event => write event.json := by
  rw [splitlines_stdoutOf, List.map_eq_flatMap]
  exact List.flatMap_congr fun event hevent => List.splitOnP_eq_singleton (hwhole event hevent)

/-- Every line of an unbroken output is accepted. -/
theorem mapM_acceptEvent_unbroken {events : List MatchEvent}
    (hpaths : ∀ event ∈ events, Resolves host selected event)
    (hwhole : ∀ event ∈ events, ∀ c ∈ write event.json, isLineBreak c = false) :
    (splitlines (stdoutOf events)).mapM (acceptEvent host selected) =
      .ok (events.map fun event => (host.resolve event.path).map fun relative =>
        (relative, event.line)) := by
  rw [splitlines_unbroken hwhole]
  clear hwhole
  induction events with
  | nil => rfl
  | cons event events ih =>
    have hevent := acceptEvent_write (hpaths event (List.mem_cons_self ..))
    have ih := ih fun e he => hpaths e (List.mem_cons_of_mem event he)
    rw [List.map_cons, List.mapM_cons, hevent, ih]
    rfl

/-! ## The line map -/

/-- The numbers of the pairs, and no others, up to the bound. -/
structure Collected (pairs : List (String × ℤ)) (lineMap : String → List ℤ) : Prop where
  bounded : ∀ relative, (lineMap relative).length ≤ maxMatchesPerFile
  sound : ∀ {relative line}, line ∈ lineMap relative → (relative, line) ∈ pairs
  complete : ∀ {relative line}, (relative, line) ∈ pairs →
    line ∈ lineMap relative ∨ (lineMap relative).length = maxMatchesPerFile

/-- Without pairs there are no numbers. -/
theorem Collected.empty : Collected [] fun _ => [] := by
  refine ⟨fun _ => by decide, fun h => ?_, fun h => ?_⟩
  · cases h
  · cases h

/-- A pair adds its number. -/
theorem Collected.add {pairs : List (String × ℤ)} {lineMap : String → List ℤ}
    (h : Collected pairs lineMap) (relative : String) (line : ℤ) :
    Collected (pairs ++ [(relative, line)]) (addNumber lineMap relative line) := by
  have hbound := h.bounded relative
  rw [addNumber]
  split_ifs with hadd
  · refine ⟨fun other => ?_, fun {other number} hmem => ?_, fun {other number} hmem => ?_⟩
    · by_cases hother : other = relative
      · subst hother
        rw [Function.update_self, List.length_append, List.length_singleton]
        exact hadd.2
      · rw [Function.update_of_ne hother]
        exact h.bounded other
    · rw [List.mem_append, List.mem_singleton]
      by_cases hother : other = relative
      · subst hother
        rw [Function.update_self, List.mem_append, List.mem_singleton] at hmem
        rcases hmem with hmem | rfl
        · exact Or.inl (h.sound hmem)
        · exact Or.inr rfl
      · rw [Function.update_of_ne hother] at hmem
        exact Or.inl (h.sound hmem)
    · rw [List.mem_append, List.mem_singleton] at hmem
      by_cases hother : other = relative
      · subst hother
        rw [Function.update_self, List.mem_append, List.mem_singleton]
        rcases hmem with hmem | hmem
        · rcases h.complete hmem with hnumber | hfull
          · exact Or.inl (Or.inl hnumber)
          · have hroom := hadd.2
            omega
        · obtain ⟨-, rfl⟩ := Prod.mk.inj hmem
          exact Or.inl (Or.inr rfl)
      · rw [Function.update_of_ne hother]
        rcases hmem with hmem | hmem
        · exact h.complete hmem
        · exact absurd (Prod.mk.inj hmem).1 hother
  · refine ⟨h.bounded, fun hmem => List.mem_append_left _ (h.sound hmem), fun hmem => ?_⟩
    rw [List.mem_append, List.mem_singleton] at hmem
    rcases hmem with hmem | hmem
    · exact h.complete hmem
    · obtain ⟨rfl, rfl⟩ := Prod.mk.inj hmem
      rw [not_and_or, not_not, not_lt] at hadd
      exact hadd.imp_right fun hfull => le_antisymm hbound hfull

/-- All pairs add their numbers. -/
theorem Collected.run {seen : List (String × ℤ)} {lineMap : String → List ℤ}
    (h : Collected seen lineMap) (pairs : List (String × ℤ)) :
    Collected (seen ++ pairs)
      (pairs.foldl (fun lineMap pair => addNumber lineMap pair.1 pair.2) lineMap) := by
  induction pairs generalizing seen lineMap with
  | nil => rwa [List.append_nil]
  | cons pair pairs ih =>
    have hrest := ih (h.add pair.1 pair.2)
    rwa [List.append_assoc, List.singleton_append] at hrest

/-- The loop adds what it accepts. -/
theorem foldlM_stepEvent {lines : List (List Char)} {accepted : List (Option (String × ℤ))}
    (haccepted : lines.mapM (acceptEvent host selected) = .ok accepted)
    (lineMap : String → List ℤ) :
    lines.foldlM (stepEvent host selected) lineMap = .ok ((accepted.filterMap id).foldl
      (fun lineMap pair => addNumber lineMap pair.1 pair.2) lineMap) := by
  induction lines generalizing accepted lineMap with
  | nil =>
    obtain rfl := Except.ok.inj haccepted
    rfl
  | cons line lines ih =>
    rw [List.mapM_cons] at haccepted
    obtain ⟨first, hfirst, haccepted⟩ := bind_eq_ok.mp haccepted
    obtain ⟨rest, hrest, haccepted⟩ := bind_eq_ok.mp haccepted
    obtain rfl := Except.ok.inj haccepted
    have ih := ih hrest
    rw [List.foldlM_cons, stepEvent, hfirst]
    cases first with
    | none => exact ih lineMap
    | some pair => exact ih (addNumber lineMap pair.1 pair.2)

/-- The line map holds what the loop accepts. -/
theorem ripgrepLineMap_of_accepted {stdout : List Char}
    {accepted : List (Option (String × ℤ))}
    (haccepted : (splitlines stdout).mapM (acceptEvent host selected) = .ok accepted) :
    ∃ lineMap, ripgrepLineMap host selected stdout = .ok lineMap ∧
      Collected (accepted.filterMap id) lineMap := by
  have hcollected := Collected.empty.run (accepted.filterMap id)
  rw [List.nil_append] at hcollected
  refine ⟨_, by rw [ripgrepLineMap, foldlM_stepEvent haccepted]; rfl, ?_⟩
  have hperm := fun numbers : List ℤ => numbers.perm_insertionSort (· ≤ ·)
  refine ⟨fun relative => ?_, fun hmem => ?_, fun hmem => ?_⟩
  · rw [(hperm _).length_eq]
    exact hcollected.bounded relative
  · exact hcollected.sound ((hperm _).mem_iff.mp hmem)
  · rw [(hperm _).mem_iff, (hperm _).length_eq]
    exact hcollected.complete hmem

/-- Every event reports a line number. -/
theorem reported_length {events : List MatchEvent}
    (hpaths : ∀ event ∈ events, Resolves host selected event) :
    (reported host events).length = events.length := by
  induction events with
  | nil => rfl
  | cons event events ih =>
    have ih := ih fun e he => hpaths e (List.mem_cons_of_mem event he)
    obtain ⟨relative, -, hresolve, -⟩ := hpaths event (List.mem_cons_self ..)
    rw [reported] at ih ⊢
    rw [List.filterMap_cons, hresolve]
    exact congrArg (· + 1) ih

/-- The engine loses nothing if and only if no string of an event has a raw line break. -/
theorem lossless_iff (host : Host) (selected : List String) (events : List MatchEvent)
    (hpaths : ∀ event ∈ events, Resolves host selected event) :
    Lossless host selected events ↔
      ∀ event ∈ events, ∀ c ∈ rawLineBreaks, ¬ HasChar c event.json := by
  constructor
  · rintro ⟨⟨accepted, haccepted, hreported⟩, -⟩ event hevent c hc hchar
    have hlength := accepted_length_le haccepted
    rw [hreported, reported_length hpaths] at hlength
    have hbroken : (write event.json).any isLineBreak = true :=
      List.any_eq_true.mpr ((exists_break_iff event).mpr ⟨c, hc, hchar⟩)
    have hcount : 0 < events.countP fun event => (write event.json).any isLineBreak :=
      List.countP_pos_iff.mpr ⟨event, hevent, hbroken⟩
    omega
  · intro hraw
    have hwhole : ∀ event ∈ events, ∀ c ∈ write event.json, isLineBreak c = false := by
      intro event hevent c hc
      rw [← Bool.not_eq_true]
      intro hbreak
      obtain ⟨c, hc, hchar⟩ := (exists_break_iff event).mp ⟨c, hc, hbreak⟩
      exact hraw event hevent c hc hchar
    have haccepted := mapM_acceptEvent_unbroken hpaths hwhole
    have hreported : (events.map fun event => (host.resolve event.path).map fun relative =>
        (relative, event.line)).filterMap id = reported host events := by
      rw [List.filterMap_map]
      rfl
    obtain ⟨lineMap, hlineMap, hcollected⟩ := ripgrepLineMap_of_accepted haccepted
    rw [hreported] at hcollected
    exact ⟨⟨_, haccepted, hreported⟩, lineMap, hlineMap, fun relative line =>
      ⟨hcollected.complete, hcollected.sound⟩⟩

/-- A host with one file. -/
def readmeHost : Host where
  resolve path := if path = "/snapshot/README.md" then some "README.md" else none
  toInt
    | .int n => some n
    | _ => none
  toInt_int _ := rfl
  revalidate _ := .ok ()

/-- The data of a match in the first line of the file. -/
def readmeData (text : String) : Json :=
  .obj [("path", .obj [("text", .str "/snapshot/README.md")]),
    ("lines", .obj [("text", .str text)]), ("line_number", .int 1),
    ("absolute_offset", .int 0), ("submatches", .arr [])]

/-- The event of a match in the first line of the file. -/
def readmeMatch (text : String) : MatchEvent where
  json := .obj [("type", .str "match"), ("data", readmeData text)]
  data := readmeData text
  pathData := .obj [("text", .str "/snapshot/README.md")]
  path := "/snapshot/README.md"
  line := 1
  plain := by simp [Plain, PlainMembers, PlainItems, readmeData]
  isMatch := rfl
  hasData := rfl
  hasPathData := rfl
  hasPath := rfl
  hasLine := rfl

/-- The events of the file resolve. -/
theorem readmeMatch_resolves (text : String) :
    Resolves readmeHost ["README.md"] (readmeMatch text) :=
  ⟨"README.md", List.mem_singleton.mpr rfl, rfl, rfl⟩

/-- A plain line is reported without loss. -/
theorem plain_line_lossless :
    Lossless readmeHost ["README.md"] [readmeMatch "a line\n"] := by
  refine (lossless_iff readmeHost ["README.md"] [readmeMatch "a line\n"] fun event hevent => ?_).mpr
    fun event hevent c hc hchar => ?_
  · obtain rfl := List.mem_singleton.mp hevent
    exact readmeMatch_resolves _
  · obtain rfl := List.mem_singleton.mp hevent
    obtain ⟨hbreak, hraw⟩ := mem_rawLineBreaks_iff.mp hc
    have hmem := (mem_write_iff (readmeMatch "a line\n").plain hraw).mpr hchar
    have hnone : ((write (readmeMatch "a line\n").json).all fun c => !isLineBreak c) = true := by
      decide +kernel
    have hwhole := List.all_eq_true.mp hnone c hmem
    rw [hbreak] at hwhole
    cases hwhole

/-- A line with a line separator is not reported. -/
theorem separator_line_lost :
    (∀ event ∈ [readmeMatch "a\u2028b\n"], Resolves readmeHost ["README.md"] event) ∧
      ¬ Lossless readmeHost ["README.md"] [readmeMatch "a\u2028b\n"] := by
  constructor
  · intro event hevent
    obtain rfl := List.mem_singleton.mp hevent
    exact readmeMatch_resolves _
  · rintro ⟨-, lineMap, hrun, hnumbers⟩
    have hempty : (ripgrepLineMap readmeHost ["README.md"]
        (stdoutOf [readmeMatch "a\u2028b\n"])).map (fun lineMap => lineMap "README.md") =
          .ok [] := by
      decide +kernel
    rw [hrun] at hempty
    have hnil : lineMap "README.md" = [] := Except.ok.inj hempty
    have hreported : ("README.md", 1) ∈ reported readmeHost [readmeMatch "a\u2028b\n"] :=
      List.mem_singleton.mpr rfl
    rcases (hnumbers "README.md" 1).1 hreported with hmem | hfull
    · rw [hnil] at hmem
      cases hmem
    · rw [hnil] at hfull
      cases hfull

end ContributorGateway.ContentSearch
