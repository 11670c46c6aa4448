import ContributorGateway.Foundation.PythonText

/-!
# URLs

`urllib.parse.urlsplit` of Python and the properties of its result. The checks of a network
location that only refuse some are a parameter.
-/

namespace ContributorGateway

/-- `text.partition(separator)`: the text before the first separator, and the text after it if
there is one. -/
def partitionAt (separator : Char) (text : List Char) : List Char × Option (List Char) :=
  (text.takeWhile (· ≠ separator),
    match text.dropWhile (· ≠ separator) with
    | [] => none
    | _ :: after => some after)

/-- `text.rpartition(separator)`: the text before the last separator if there is one, and the
text after it. -/
def rpartitionAt (separator : Char) (text : List Char) : Option (List Char) × List Char :=
  (match text.rdropWhile (· ≠ separator) with
    | [] => none
    | front => some front.dropLast,
    text.rtakeWhile (· ≠ separator))

/-- `SplitResult`. -/
structure SplitResult where
  scheme : List Char
  netloc : List Char
  path : List Char
  query : List Char
  fragment : List Char
  deriving DecidableEq

/-- An ASCII letter. -/
def isAsciiLetter (c : Char) : Bool := ('A' ≤ c && c ≤ 'Z') || ('a' ≤ c && c ≤ 'z')

/-- `scheme_chars`. -/
def isSchemeChar (c : Char) : Bool := isAsciiAlnum c || c = '+' || c = '-' || c = '.'

/-- A character that `urlsplit` removes wherever it stands. -/
def isRemovedFromUrl (c : Char) : Bool := c = '\t' || c = '\r' || c = '\n'

/-- The text that `urlsplit` reads: without control characters and spaces in front, and without
tabs and line ends. -/
def cleanUrl (url : List Char) : List Char :=
  (url.dropWhile fun c => c.toNat ≤ 0x20).filter fun c => !isRemovedFromUrl c

/-- The scheme in front of the first colon, and the rest. -/
def splitScheme (url : List Char) : List Char × List Char :=
  match partitionAt ':' url with
  | (front, some rest) =>
      if front.head?.any isAsciiLetter && front.all isSchemeChar then
        (front.map Char.toLower, rest)
      else ([], url)
  | (_, none) => ([], url)

/-- A character that ends a network location. -/
def endsNetloc (c : Char) : Bool := c = '/' || c = '?' || c = '#'

/-- `_splitnetloc` after two slashes; the network location is empty without them. -/
def splitNetloc : List Char → List Char × List Char
  | '/' :: '/' :: rest =>
      (rest.takeWhile fun c => !endsNetloc c, rest.dropWhile fun c => !endsNetloc c)
  | url => ([], url)

/-- `urlsplit(url)`, or `none` for a `ValueError`. The parameter stands for
`_check_bracketed_netloc` and `_checknetloc`. -/
def urlsplit (refusesNetloc : List Char → Bool) (url : List Char) : Option SplitResult :=
  let (scheme, rest) := splitScheme (cleanUrl url)
  let (netloc, rest) := splitNetloc rest
  if netloc.contains '[' != netloc.contains ']' || refusesNetloc netloc then none
  else
    let (rest, fragment) := partitionAt '#' rest
    let (path, query) := partitionAt '?' rest
    some ⟨scheme, netloc, path, query.getD [], fragment.getD []⟩

namespace SplitResult

variable (url : SplitResult)

/-- `username` and `password`. -/
def userinfo : Option (List Char) × Option (List Char) :=
  match (rpartitionAt '@' url.netloc).1 with
  | none => (none, none)
  | some userinfo => (some (partitionAt ':' userinfo).1, (partitionAt ':' userinfo).2)

/-- `_hostinfo`: the host, and the port if one is written. -/
def hostinfo : List Char × Option (List Char) :=
  let hostinfo := (rpartitionAt '@' url.netloc).2
  let (host, port) :=
    match partitionAt '[' hostinfo with
    | (_, some bracketed) =>
        let (host, after) := partitionAt ']' bracketed
        (host, (partitionAt ':' (after.getD [])).2)
    | (_, none) => partitionAt ':' hostinfo
  (host, port.filter fun port => !port.isEmpty)

/-- `hostname`, with `str.lower` as a parameter. The zone of an address keeps its case. -/
def hostname (lower : List Char → List Char) : Option (List Char) :=
  let host := url.hostinfo.1
  if host = [] then none
  else
    match partitionAt '%' host with
    | (name, none) => some (lower name)
    | (name, some zone) => some (lower name ++ '%' :: zone)

/-- The number that digits spell. -/
def digitsValue (digits : List Char) : ℕ :=
  digits.foldl (fun n c => 10 * n + (c.toNat - '0'.toNat)) 0

/-- `port`, or `none` for a `ValueError`. -/
def port : Option (Option ℕ) :=
  match url.hostinfo.2 with
  | none => some none
  | some digits =>
      if digits.all Char.isDigit && digitsValue digits ≤ 65535 then some (some (digitsValue digits))
      else none

end SplitResult

/-! ## What is split -/

variable {separator : Char} {text : List Char}

/-- A part behind its separator, if there is one. -/
def markedWith (separator : Char) (part : Option (List Char)) : List Char :=
  match part with
  | none => []
  | some part => separator :: part

/-- The text before the first separator, the separator and the text after it are the whole
text. -/
theorem partitionAt_eq (separator : Char) (text : List Char) :
    text = (partitionAt separator text).1 ++
      markedWith separator (partitionAt separator text).2 := by
  rw [partitionAt]
  dsimp only
  have happend := List.takeWhile_append_dropWhile (p := (· ≠ separator)) (l := text)
  cases hrest : text.dropWhile (· ≠ separator) with
  | nil =>
    rw [hrest] at happend
    exact happend.symm
  | cons c after =>
    have hc : c = separator := by
      have hhead := List.head?_dropWhile_not (· ≠ separator) text
      rw [hrest, List.head?_cons] at hhead
      simpa using hhead
    rw [hrest, hc] at happend
    exact happend.symm

/-- A split text is spelled as its parts: those that are missing leave no separator. -/
structure SplitResult.Spells (url : SplitResult) (text : List Char) : Prop where
  spelled : ∃ (scheme : List Char) (query fragment : Option (List Char)),
    scheme.map Char.toLower = url.scheme ∧ query.getD [] = url.query ∧
    fragment.getD [] = url.fragment ∧
    text = scheme ++ ':' :: '/' :: '/' ::
      (url.netloc ++ (url.path ++ (markedWith '?' query ++ markedWith '#' fragment)))
  netloc : ∀ c ∈ url.netloc, endsNetloc c = false
  path : '?' ∉ url.path ∧ '#' ∉ url.path

/-- The text before the first separator does not contain it. -/
theorem not_mem_partitionAt (separator : Char) (text : List Char) :
    separator ∉ (partitionAt separator text).1 := by
  intro h
  simpa using List.mem_takeWhile_imp h

/-- A scheme is spelled in front of its colon. -/
theorem splitScheme_spelled (h : (splitScheme text).1 ≠ []) :
    ∃ front, front.map Char.toLower = (splitScheme text).1 ∧
      text = front ++ ':' :: (splitScheme text).2 := by
  have hsplit := partitionAt_eq ':' text
  rw [splitScheme] at h ⊢
  split at h
  · next front rest hpartition =>
    rw [hpartition] at hsplit
    split_ifs at h ⊢
    · exact ⟨front, rfl, hsplit⟩
    · exact absurd rfl h
  · exact absurd rfl h

/-- A network location is spelled after two slashes. -/
theorem splitNetloc_spelled (h : (splitNetloc text).1 ≠ []) :
    text = '/' :: '/' :: ((splitNetloc text).1 ++ (splitNetloc text).2) := by
  rw [splitNetloc.eq_def] at h ⊢
  split at h
  · next rest =>
    rw [List.takeWhile_append_dropWhile]
  · exact absurd rfl h

/-- A network location goes on to the first character that ends it. -/
theorem endsNetloc_of_mem_splitNetloc {c : Char} (h : c ∈ (splitNetloc text).1) :
    endsNetloc c = false := by
  rw [splitNetloc.eq_def] at h
  split at h
  · simpa using List.mem_takeWhile_imp h
  · cases h

/-- A text with a scheme and a network location is spelled as what it is split into. -/
theorem spells_of_urlsplit {refusesNetloc : List Char → Bool} {url : SplitResult}
    (h : urlsplit refusesNetloc text = some url) (hscheme : url.scheme ≠ [])
    (hnetloc : url.netloc ≠ []) : url.Spells (cleanUrl text) := by
  rw [urlsplit] at h
  dsimp only at h
  split_ifs at h
  obtain rfl := Option.some.inj h
  obtain ⟨front, hfront, hcolon⟩ := splitScheme_spelled hscheme
  have hslashes := splitNetloc_spelled hnetloc
  have hhash := partitionAt_eq '#' (splitNetloc (splitScheme (cleanUrl text)).2).2
  have hmark := partitionAt_eq '?'
    (partitionAt '#' (splitNetloc (splitScheme (cleanUrl text)).2).2).1
  refine ⟨⟨front, _, _, hfront, rfl, rfl, ?_⟩, fun c => endsNetloc_of_mem_splitNetloc,
    not_mem_partitionAt _ _, fun hpath => ?_⟩
  · refine hcolon.trans (congrArg (front ++ ':' :: ·) (hslashes.trans ?_))
    refine congrArg ('/' :: '/' :: _ ++ ·) (hhash.trans ?_)
    rw [← List.append_assoc, ← hmark]
  · exact not_mem_partitionAt '#' _ ((List.takeWhile_prefix _).subset hpath)

/-- A text without a network location has no host. -/
theorem SplitResult.netloc_ne_nil {url : SplitResult} {lower : List Char → List Char}
    (h : url.hostname lower ≠ none) : url.netloc ≠ [] := by
  intro hnetloc
  refine h (if_pos ?_)
  rw [hostinfo, hnetloc]
  rfl

end ContributorGateway
