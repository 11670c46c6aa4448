import ContributorGateway.Foundation.PythonText
import Mathlib.Data.List.Sort

/-!
# The symbol index

`SymbolIndex` joins the decomp ledger, the class documents, the registrar's class IDs, the
linkage rows and the dominant object tags into records, and answers lookups. This file is
the index as the code computes it from the parsed tables.
-/

namespace ContributorGateway.Symbols

/-! ## Tables -/

/-- `str.casefold`, letter by letter: no letter disappears, and ASCII letters become small. -/
structure CasefoldTable where
  map : Char → List Char
  nonempty : ∀ c, map c ≠ []
  ascii : ∀ c : Char, c.toNat < 128 → map c = [c.toLower]

/-- `text.casefold()`. -/
def CasefoldTable.casefold (fold : CasefoldTable) (text : String) : String :=
  String.ofList (text.toList.flatMap fold.map)

/-- `FOURCC_PATTERN`. -/
def isFourcc (text : String) : Bool :=
  matchesClass (fun c => 0x20 ≤ c.toNat && c.toNat ≤ 0x7e) 4 4 text

/-- `SymbolKind`. -/
inductive SymbolKind where
  | «class»
  | function
  | fourcc
  deriving DecidableEq

/-- The value of a kind. -/
def SymbolKind.value : SymbolKind → String
  | .class => "class"
  | .function => "function"
  | .fourcc => "fourcc"

/-- `LinkageStatus`. -/
inductive LinkageStatus where
  | linked
  | linkedBlocked
  deriving DecidableEq

/-- `SourceRef`. -/
structure SourceRef where
  path : String
  line : Option ℕ
  url : String
  deriving DecidableEq

/-- `LinkageRecord`. -/
structure LinkageRecord where
  aspect : String
  domain : String
  status : LinkageStatus
  oracle : Option String
  source : SourceRef
  deriving DecidableEq

/-- `SymbolRecord`. -/
structure SymbolRecord where
  kind : SymbolKind
  name : String
  address : Option String
  signature : Option String
  className : Option String
  fourcc : Option String
  status : Option String
  linkage : List LinkageRecord
  summary : Option String
  source : SourceRef
  deriving DecidableEq

/-- `_LedgerRow`. -/
structure LedgerRow where
  className : String
  vftables : List String
  ctors : List String
  status : Option String
  notes : Option String
  line : ℕ

/-- `_ClassIdRow`. -/
structure ClassIdRow where
  fourcc : String
  site : String
  function : Option String
  nearbyClass : Option String
  canonicalClass : Option String
  line : ℕ
  valid : isFourcc fourcc = true

/-- `_MethodRow`. -/
structure MethodRow where
  name : String
  addresses : List String
  signature : Option String
  status : Option String
  summary : Option String
  line : ℕ

/-- `_ClassDoc`. -/
structure ClassDoc where
  explicitFourcc : Option String
  signature : Option String
  methods : List MethodRow
  valid : ∀ fourcc ∈ explicitFourcc, isFourcc fourcc = true

/-- What the parsers deliver: the ledger, whose class names differ after case folding, the
document of every class, the class IDs, the linkage of a folded class name, the dominant
object tags and the citation of a line. -/
structure Tables (fold : CasefoldTable) where
  ledger : List LedgerRow
  docs : String → ClassDoc
  classIds : List ClassIdRow
  linkage : String → List LinkageRecord
  objectTags : List (String × String)
  citationUrl : String → ℕ → String
  distinct : (ledger.map fun row => fold.casefold row.className).Nodup

/-- `DECOMP_PATH`. -/
def decompPath : String := "docs/decomp_ledger.csv"

/-- `CLASS_IDS_PATH`. -/
def classIdsPath : String := "docs/_gam_classids.tsv"

/-- `DECOMP_DOCS_PREFIX`. -/
def decompDocsPrefix : String := "docs/decomp/"

/-- `MAX_SYMBOL_RECORDS`. -/
def maxSymbolRecords : ℕ := 50000

/-- `MAX_SYMBOL_LIMIT`. -/
def maxSymbolLimit : ℤ := 50

/-- `MAX_SYMBOL_QUERY_CHARS`. -/
def maxSymbolQueryChars : ℕ := 128

/-- `_LEVEL_CLASS_ID`, on four printable ASCII characters. -/
def isLevelClassId (fourcc : String) : Bool :=
  match fourcc.toList with
  | ['L', 'E', 'V', digit] => digit.isDigit
  | _ => false

/-- `fourcc[::-1]`. -/
def reversed (fourcc : String) : String := String.ofList fourcc.toList.reverse

namespace Tables

variable {fold : CasefoldTable} (T : Tables fold)

/-! ## The FourCC of a class -/

/-- The folded FourCCs of the registrar rows of a class, each once. -/
def committed (key : String) : List String :=
  ((T.classIds.filter fun row => row.canonicalClass.map fold.casefold = some key).map fun row =>
    fold.casefold row.fourcc).dedup

/-- The folded classes to which the registrar assigns a folded FourCC. -/
def owners (folded : String) : List String :=
  (T.classIds.filter fun row => fold.casefold row.fourcc = folded).filterMap fun row =>
    row.canonicalClass.map fold.casefold

/-- The folded level class IDs, in both orientations. -/
def levelIds : List String :=
  (T.classIds.filter fun row => isLevelClassId row.fourcc).flatMap fun row =>
    [fold.casefold row.fourcc, fold.casefold (reversed row.fourcc)]

/-- The spelling of a folded FourCC in the last registrar row that gives it to the class. -/
def orientation (key folded : String) : Option String :=
  (T.classIds.filter fun row => row.canonicalClass.map fold.casefold = some key ∧
    fold.casefold row.fourcc = folded).getLast?.map (·.fourcc)

/-- `_validate_explicit_fourccs`. -/
def validateExplicitFourccs : Except String Unit :=
  if T.ledger.any fun row =>
      let committed := T.committed (fold.casefold row.className)
      (T.docs row.className).explicitFourcc.any fun explicit =>
        !committed.isEmpty && !committed.contains (fold.casefold explicit) then
    .error "class document conflicts with canonical FourCC rows"
  else .ok ()

/-- `_fourcc_is_contradicted`. -/
def fourccIsContradicted (classKey explicit : String) : Bool :=
  let folded := fold.casefold explicit
  if folded ∈ T.committed classKey then false
  else if folded ∈ T.levelIds then true
  else if (T.owners folded).any fun owner => owner ≠ classKey then true
  else
    match T.objectTags.lookup folded with
    | some claimedTag => claimedTag ≠ classKey && (T.objectTags.map (·.2)).contains classKey
    | none => false

/-- Whether the document of a ledger row asserts a FourCC that the scan contradicts. -/
def quarantines (row : LedgerRow) : Bool :=
  (T.docs row.className).explicitFourcc.any fun explicit =>
    T.fourccIsContradicted (fold.casefold row.className) explicit

/-- The FourCC that `_class_fourccs` selects for a ledger row. -/
def selectFourcc (row : LedgerRow) : Option String :=
  let key := fold.casefold row.className
  let explicit := if T.quarantines row then none else (T.docs row.className).explicitFourcc
  match explicit, T.committed key with
  | some fourcc, _ => some fourcc
  | none, [folded] => T.orientation key folded
  | none, _ => none

/-- The dictionary `_quarantined`. -/
def quarantined : List (String × String) :=
  T.ledger.filterMap fun row =>
    if T.quarantines row then
      (T.docs row.className).explicitFourcc.map fun explicit => (row.className, explicit)
    else none

/-- The dictionary that `_class_fourccs` returns; a later row overwrites an earlier one. -/
def classFourccs (key : String) : Option String :=
  ((T.ledger.map fun row =>
    (fold.casefold row.className, T.selectFourcc row)).reverse.lookup key).join

/-! ## Records -/

/-- `_source`. -/
def source (path : String) (line : ℕ) : SourceRef := ⟨path, some line, T.citationUrl path line⟩

/-- The records of kind `CLASS` of a ledger row. -/
def classRecords (row : LedgerRow) : List SymbolRecord :=
  let key := fold.casefold row.className
  let addresses := (row.vftables ++ row.ctors).map some
  (if addresses.isEmpty then [none] else addresses).map fun address =>
    { kind := .class
      name := row.className
      address
      signature := (T.docs row.className).signature
      className := some row.className
      fourcc := T.classFourccs key
      status := row.status
      linkage := T.linkage key
      summary := row.notes
      source := T.source decompPath row.line }

/-- The records of kind `FUNCTION` of a ledger row. -/
def functionRecords (row : LedgerRow) : List SymbolRecord :=
  let key := fold.casefold row.className
  (T.docs row.className).methods.flatMap fun method =>
    method.addresses.map fun address =>
      { kind := .function
        name := method.name
        address := some address
        signature := method.signature
        className := some row.className
        fourcc := T.classFourccs key
        status := method.status
        linkage := T.linkage key
        summary := method.summary
        source := T.source (decompDocsPrefix ++ row.className ++ ".md") method.line }

/-- The records of kind `FOURCC` of a registrar row. -/
def fourccRecords (row : ClassIdRow) : List SymbolRecord :=
  [(some row.site, "registration site"), (row.function, "registration function")].filterMap
    fun (address, label) => address.map fun address =>
      { kind := .fourcc
        name := row.fourcc
        address := some address
        signature := none
        className := if row.canonicalClass.any (· ≠ "") then row.canonicalClass
          else row.nearbyClass
        fourcc := some row.fourcc
        status := none
        linkage := T.linkage (fold.casefold (row.canonicalClass.getD ""))
        summary := some label
        source := T.source classIdsPath row.line }

/-- `_build_records`. -/
def buildRecords : List SymbolRecord :=
  (T.ledger.flatMap fun row => T.classRecords row ++ T.functionRecords row) ++
    T.classIds.flatMap T.fourccRecords

end Tables

/-! ## The index -/

section Index

variable (fold : CasefoldTable)

/-- Compare by `_stable_record_key`. -/
def compareStable (a b : SymbolRecord) : Ordering :=
  (compare a.kind.value b.kind.value).then <|
  (compare a.source.path b.source.path).then <|
  (compare (a.source.line.getD 0) (b.source.line.getD 0)).then <|
  (compare (a.address.getD "") (b.address.getD "")).then <|
  (compare (fold.casefold a.name) (fold.casefold b.name)).then <|
  (compare (fold.casefold (a.className.getD "")) (fold.casefold (b.className.getD ""))).then <|
  compare (fold.casefold (a.fourcc.getD "")) (fold.casefold (b.fourcc.getD ""))

/-- What lookups read of a `SymbolIndex`. -/
structure SymbolIndex where
  records : List SymbolRecord
  quarantinedFourccs : List (String × String)

/-- `SymbolIndex.__init__` on the parsed tables. -/
def Tables.symbolIndex {fold : CasefoldTable} (T : Tables fold) : Except String SymbolIndex := do
  T.validateExplicitFourccs
  let records := T.buildRecords
  if maxSymbolRecords < records.length then .error "symbol index exceeds 50000 records"
  else
    .ok
      { records := records.insertionSort fun a b => (compareStable fold a b).isLE = true
        quarantinedFourccs := T.quarantined }

/-- `SymbolQuery`. -/
structure SymbolQuery where
  name : Option String
  address : Option String
  className : Option String
  fourcc : Option String

/-- `SymbolLookup`. -/
structure SymbolLookup where
  query : SymbolQuery
  count : ℕ
  results : List SymbolRecord

/-- A hexadecimal digit in either case. -/
def isHexDigit (c : Char) : Bool :=
  ('0' ≤ c && c ≤ '9') || ('a' ≤ c && c ≤ 'f') || ('A' ≤ c && c ≤ 'F')

/-- The match of `ADDRESS_INPUT_PATTERN` after one of its tags. -/
def addressAfter (candidate : List Char) (tag : String) : Option String :=
  let digits := candidate.drop tag.length
  if (candidate.take tag.length).map Char.toLower = tag.toList && digits.length = 8 &&
      digits.all isHexDigit then
    some (String.ofList (digits.map Char.toLower))
  else none

/-- `normalize_address`. -/
def normalizeAddress (raw : String) : Except String String :=
  match ["0x", "fun_", "@", ""].findSome? (addressAfter (strip raw).toList) with
  | some address => .ok address
  | none => .error "address must be an exact 32-bit hexadecimal value"

/-- `_match_rank`. -/
def matchRank (value query : Option String) : ℕ :=
  match query with
  | none => 0
  | some query =>
      let foldedValue := fold.casefold (value.getD "")
      let foldedQuery := fold.casefold query
      if foldedValue = foldedQuery then 0
      else if foldedQuery.toList.isPrefixOf foldedValue.toList then 1
      else 2

/-- Whether a record matches every axis of the query. -/
def matchesQuery (query : SymbolQuery) (record : SymbolRecord) : Bool :=
  (query.name.all fun name => contains (fold.casefold record.name) (fold.casefold name)) &&
  (query.address.all fun address => record.address == some address) &&
  (query.className.all fun className =>
    contains (fold.casefold (record.className.getD "")) (fold.casefold className)) &&
  (query.fourcc.all fun fourcc => fold.casefold fourcc == fold.casefold (record.fourcc.getD ""))

/-- Compare two matches of a query. -/
def compareMatches (query : SymbolQuery) (a b : SymbolRecord) : Ordering :=
  (compare (matchRank fold (some a.name) query.name) (matchRank fold (some b.name) query.name)).then
    <|
  (compare (matchRank fold a.className query.className)
    (matchRank fold b.className query.className)).then <|
  (compare (matchRank fold a.fourcc query.fourcc) (matchRank fold b.fourcc query.fourcc)).then <|
  (compare a.kind.value b.kind.value).then <|
  (compare a.source.path b.source.path).then <|
  (compare (a.source.line.getD 0) (b.source.line.getD 0)).then <|
  (compare (a.address.getD "") (b.address.getD "")).then <|
  compare (fold.casefold a.name) (fold.casefold b.name)

/-- `SymbolIndex.lookup`. -/
def SymbolIndex.lookup (index : SymbolIndex) (name address className fourcc : Option String)
    (limit : ℤ := 20) : Except String SymbolLookup := do
  let normalizedName := name.map strip
  let normalizedClass := className.map strip
  if normalizedName = some "" ∨ normalizedClass = some "" then
    .error "name and class_name must not be blank"
  else if normalizedName.any fun name => maxSymbolQueryChars < name.length then
    .error "name must contain 1..128 characters"
  else if normalizedClass.any fun name => maxSymbolQueryChars < name.length then
    .error "class_name must contain 1..128 characters"
  else
    let normalizedAddress ← address.mapM normalizeAddress
    if fourcc.any fun fourcc => !isFourcc fourcc then
      .error "fourcc must be exactly four printable ASCII characters"
    else if normalizedName.isNone ∧ normalizedAddress.isNone ∧ normalizedClass.isNone ∧
        fourcc.isNone then
      .error "at least one symbol lookup axis is required"
    else if limit < 1 ∨ maxSymbolLimit < limit then .error "limit must be in 1..50"
    else
      let query : SymbolQuery := ⟨normalizedName, normalizedAddress, normalizedClass, fourcc⟩
      let found := (index.records.filter (matchesQuery fold query)).insertionSort fun a b =>
        (compareMatches fold query a b).isLE = true
      let selected := found.take limit.toNat
      .ok ⟨query, selected.length, selected⟩

end Index

end ContributorGateway.Symbols
