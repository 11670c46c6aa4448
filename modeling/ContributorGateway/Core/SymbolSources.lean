import ContributorGateway.Core.FourccQuarantine
import ContributorGateway.Core.IndexSources
import ContributorGateway.Core.MarkdownTables
import ContributorGateway.Foundation.Associations
import ContributorGateway.Foundation.PatternScan
import Mathlib.Data.List.Lex
import Mathlib.Data.Prod.Lex

/-!
# Sources of the symbol index

The parsers of `SymbolIndex`: the decomp ledger, the registrar's class IDs, the class documents,
the linkage table and the dominant object tags of a snapshot. Ledger rows and methods keep the
place that they were read from; the source keeps its number alone.
-/

namespace ContributorGateway.Symbols

open Markdown RepositoryContent

/-! ## Sources -/

/-- `LINKAGE_PATH`. -/
def linkagePath : String := "docs/linkage_certificates.csv"

/-- `GAM_SCHEMA_PATH`. -/
def gamSchemaPath : String := "docs/gam_schema.md"

/-- `MAX_SYMBOL_SUMMARY_CHARS`. -/
def maxSymbolSummaryChars : ℕ := 1000

/-- `MAX_LINKAGE_PER_SYMBOL`. -/
def maxLinkagePerSymbol : ℕ := 10

/-- `DECOMP_HEADERS`. -/
def decompHeaders : List String :=
  ["class", "base_chain", "vftable", "ctor", "n_methods", "family", "wave", "status", "owner",
    "confidence", "notes"]

/-- `CLASS_ID_HEADERS`. -/
def classIdHeaders : List String :=
  ["imm_fourcc", "reversed", "@site", "function", "class_or_nearby_string"]

/-- `LINKAGE_HEADERS`. -/
def linkageHeaders : List String :=
  ["class", "aspect", "domain", "status", "oracle", "linkage_doc", "note"]

/-- The dialect of the ledger and of the linkage table. -/
def commaDialect : Csv.Dialect := ⟨',', false, Csv.comma_ne_newline⟩

/-- The dialect of the class IDs. -/
def spaceDialect : Csv.Dialect := ⟨' ', true, by decide⟩

/-- `_strict_csv_rows`. -/
def strictCsvRows (d : Csv.Dialect) (path : String) (headers : List String) (text : List Char) :
    Except SourceError (List (Place × List (List Char))) :=
  delimitedRows d " is not valid delimited text" path headers text

/-- A `SymbolIndexError`. -/
def symbolError {α : Type} (message : String) : Except SourceError α := .error (.index message)

/-! ## Addresses -/

/-- `ADDRESS_PATTERN` with its group. -/
def addressPattern : Pattern (List Char) := fun before text =>
  if before.any isHexDigit then none
  else
    ["0x", "fun_", "@", ""].findSome? fun tag =>
      let digits := (text.drop tag.length).take 8
      if (text.take tag.length).map Char.toLower = tag.toList && digits.length = 8 &&
          digits.all isHexDigit && !(text.drop (tag.length + 8)).head?.any isHexDigit then
        some (digits, tag.length + 8)
      else none

/-- `_addresses_from_cell`. -/
def addressesFromCell (value : List Char) : Except SourceError (List String) :=
  let addresses := (findAll addressPattern value).map fun digits =>
    String.ofList (digits.map Char.toLower)
  if addresses = [] then symbolError "canonical address field contains no exact address"
  else if ¬ addresses.Nodup then symbolError "canonical address field repeats an address"
  else .ok addresses

/-- `_canonical_address`. -/
def canonicalAddress (label : String) (raw : List Char) : Except SourceError String :=
  (normalizeAddress (String.ofList raw)).mapError fun _ =>
    .index (label ++ " contains an invalid canonical address")

/-- `_canonical_address_list`. -/
def canonicalAddressList (label : String) (raw : List Char) : Except SourceError (List String) :=
  if stripText raw = [] then .ok []
  else
    let tokens := raw.splitOn ';'
    if tokens.any fun token => token ≠ stripText token || token = [] then
      symbolError (label ++ " contains a malformed address list")
    else do
      let addresses ← tokens.mapM (canonicalAddress label)
      if addresses.Nodup then .ok addresses
      else symbolError (label ++ " repeats a canonical address")

/-! ## The decomp ledger -/

section Parsers

variable (tables : CharacterTables)

/-- A row of the ledger behind rows with other folded classes. -/
def ledgerRow (seen : List String) (place : Place) (cells : List (List Char)) :
    Except SourceError (Placed LedgerRow.line) :=
  let cell := cellOf decompHeaders cells
  let className := stripText (cell "class")
  if className = [] ∨ maxSymbolQueryChars < className.length then
    symbolError "decomp ledger contains an invalid class"
  else if seen.contains (tables.fold.casefold (String.ofList className)) then
    symbolError "decomp ledger contains conflicting canonical classes"
  else do
    let vftables ← canonicalAddressList "decomp vftable" (cell "vftable")
    let ctors ← canonicalAddressList "decomp ctor" (cell "ctor")
    let row : LedgerRow := {
      className := String.ofList className
      vftables
      ctors
      status := bounded (String.ofList (cell "status")) 128
      notes := bounded (String.ofList (cell "notes")) maxSymbolSummaryChars
      line := place.cited }
    .ok ⟨place, row, rfl⟩

/-- The loop of `_parse_ledger`. -/
def ledgerRows (seen : List String) :
    List (Place × List (List Char)) → Except SourceError (List (Placed LedgerRow.line))
  | [] => .ok []
  | (place, cells) :: rest => do
      let row ← ledgerRow tables seen place cells
      let rows ← ledgerRows (tables.fold.casefold row.value.className :: seen) rest
      .ok (row :: rows)

/-- `_parse_ledger`. -/
def parseLedger (text : List Char) : Except SourceError (List (Placed LedgerRow.line)) := do
  let rows ← strictCsvRows commaDialect decompPath decompHeaders text
  let ledger ← ledgerRows tables [] rows
  if ledger.isEmpty then symbolError "decomp ledger contains no rows" else .ok ledger

/-- `canonical_classes.get(key)`. -/
def canonicalClass (ledger : List (Placed LedgerRow.line)) (key : String) : Option String :=
  (ledger.find? fun row => tables.fold.casefold row.value.className = key).map
    fun row => row.value.className

/-! ## Class IDs -/

/-- `_normalize_nearby_class`. -/
def normalizeNearbyClass (value : List Char) : Option String :=
  let clean := plainMarkdown value
  let bare := stripText (if ['(', ')'].isSuffixOf clean then clean.dropLast.dropLast else clean)
  if bare = [] then none else some (String.ofList bare)

/-- A row of the class IDs behind rows with other sites. -/
def classIdRow (ledger : List (Placed LedgerRow.line)) (seen : List ClassIdRow) (place : Place)
    (cells : List (List Char)) : Except SourceError ClassIdRow :=
  let cell := cellOf classIdHeaders cells
  let immediate := cell "imm_fourcc"
  let fourcc := String.ofList (cell "reversed")
  if hfourcc : isFourcc (String.ofList immediate) = true ∧ isFourcc fourcc = true ∧
      immediate.reverse = cell "reversed" then do
    let site ← canonicalAddress "class-id site" (cell "@site")
    let functionRaw := stripText (cell "function")
    let function ← if functionRaw = ['?', '?'] then .ok none
      else (canonicalAddress "class-id function" functionRaw).map some
    let nearby := normalizeNearbyClass (cell "class_or_nearby_string")
    let folded := tables.fold.casefold (nearby.getD "")
    match seen.find? fun row => row.site = site with
    | some prior =>
        if tables.fold.casefold prior.fourcc = tables.fold.casefold fourcc ∧
            tables.fold.casefold (prior.nearbyClass.getD "") = folded then
          symbolError "class-id rows repeat one registration site"
        else symbolError "class-id rows conflict at one registration site"
    | none =>
        .ok {
          fourcc
          site
          function
          nearbyClass := nearby
          canonicalClass := canonicalClass tables ledger folded
          line := place.cited
          valid := hfourcc.2.1 }
  else symbolError "class-id row has a conflicting canonical FourCC"

/-- `_parse_class_ids`. -/
def parseClassIds (ledger : List (Placed LedgerRow.line)) (text : List Char) :
    Except SourceError (List ClassIdRow) := do
  let rows ← strictCsvRows spaceDialect classIdsPath classIdHeaders text
  let classIds ← rows.foldlM (fun (seen : List ClassIdRow) row => do
    let classId ← classIdRow tables ledger seen row.1 row.2
    .ok (seen ++ [classId])) []
  if classIds.isEmpty then symbolError "class-id table contains no rows" else .ok classIds

/-! ## Class documents -/

/-- `_section` for a heading that is required. -/
def sectionBelow (isHeading : List Char → Bool) (lines : List (Place × List Char)) :
    Except SourceError (List (Place × List Char)) :=
  match lines.filter fun line => isHeading line.2 with
  | [] => symbolError "class document is missing a canonical section"
  | [_] =>
      .ok ((((lines.dropWhile fun line => !isHeading line.2).drop 1).takeWhile
        fun line => !startsWith "## ".toList line.2))
  | _ => symbolError "class document repeats a canonical section"

/-- The loop of `_first_table` below the header, and whether it saw the separator. -/
def tableRows (width : ℕ) :
    Bool → List (Place × List Char) →
      Except SourceError (Bool × List (Place × List (List Char)))
  | separatorSeen, [] => .ok (separatorSeen, [])
  | separatorSeen, (place, line) :: rest =>
      match tableCells line with
      | none => if separatorSeen then .ok (true, []) else tableRows width false rest
      | some cells =>
          if isSeparatorRow cells then
            if separatorSeen || cells.length ≠ width then
              symbolError "class document has a malformed table separator"
            else tableRows width true rest
          else if !separatorSeen || cells.length ≠ width then
            symbolError "class document has a malformed table row"
          else do
            let (separatorSeen, rows) ← tableRows width separatorSeen rest
            .ok (separatorSeen, (place, cells) :: rows)

/-- `_first_table`. -/
def firstTable (lines : List (Place × List Char)) :
    Except SourceError (Option (List String × List (Place × List (List Char)))) :=
  match lines.dropWhile fun line => (tableCells line.2).isNone with
  | [] => .ok none
  | (_, line) :: rest => do
      let header := (tableCells line).getD []
      let (separatorSeen, rows) ← tableRows header.length false rest
      if separatorSeen then .ok (some (header.map String.ofList, rows))
      else symbolError "class document table is missing its separator"

/-- The dictionary of the Identity table. -/
def identityItems : List (String × List Char) → List (Place × List (List Char)) →
    Except SourceError (List (String × List Char))
  | items, [] => .ok items
  | items, (_, cells) :: rest =>
      let item := String.ofList (plainMarkdown (cells.head?.getD []))
      if (items.lookup item).isSome then
        symbolError "class Identity table repeats an item"
      else identityItems (items ++ [(item, stripText (cells.getLast?.getD []))]) rest

/-- The group of a match of `EXPLICIT_FOURCC_PATTERN`. -/
def explicitFourcc (value : List Char) : Option String :=
  match value with
  | opening :: a :: b :: c :: d :: closing :: rest =>
      if opening = backtick && closing = backtick &&
          isFourcc (String.ofList [a, b, c, d]) && rest.head?.all isSpace then
        some (String.ofList [a, b, c, d])
      else none
  | _ => none

/-- A group of the pattern is a FourCC. -/
theorem isFourcc_of_explicitFourcc {value : List Char} {fourcc : String}
    (h : explicitFourcc value = some fourcc) : isFourcc fourcc = true := by
  rw [explicitFourcc.eq_def] at h
  split at h
  · split_ifs at h with hgroup
    obtain rfl := Option.some.inj h
    simp only [Bool.and_eq_true] at hgroup
    exact hgroup.1.2
  · cases h

/-- The signature of the Identity table. -/
def classSignature (identity : List (String × List Char)) : Except SourceError (Option String) :=
  let signatures := ["Signature", "Prototype"].filterMap fun key =>
    (identity.lookup key).bind fun value => bounded (String.ofList (plainMarkdown value)) 1000
  match signatures with
  | [] => .ok none
  | [signature] => .ok (some signature)
  | signature :: others =>
      if others.all (· = signature) then .ok (some signature)
      else symbolError "class Identity has conflicting signature fields"

/-- `accepted_headers`. -/
def acceptedHeaders : List (List String) := [
  ["Slot", "Address", "Name", "Behavior", "Status"],
  ["Slot", "Address", "Role", "Behavior"],
  ["Slot", "Address", "Name", "Behavior"],
  ["Slot(s)", "Address(es)", "Name", "Behavior", "Status"]]

/-- A row of the Vtable Methods table. -/
def methodRow (headers : List String) (row : Place × List (List Char)) :
    Except SourceError (Placed MethodRow.line) :=
  let cell := cellOf headers row.2
  let name := plainMarkdown (cell (if "Name" ∈ headers then "Name" else "Role"))
  if name = [] then symbolError "Vtable Methods row has no name"
  else do
    let addresses ← addressesFromCell
      (cell (if "Address" ∈ headers then "Address" else "Address(es)"))
    let signature := cell (if "Signature" ∈ headers then "Signature" else "Prototype")
    let method : MethodRow := {
      name := String.ofList (name.take 500)
      addresses
      signature := bounded (String.ofList (plainMarkdown signature)) 1000
      status := bounded (String.ofList (plainMarkdown (cell "Status"))) 128
      summary := bounded (String.ofList (plainMarkdown (cell "Behavior"))) maxSymbolSummaryChars
      line := row.1.cited }
    .ok ⟨row.1, method, rfl⟩

/-- The methods of the Vtable Methods table. -/
def methodRows (table : Option (List String × List (Place × List (List Char)))) :
    Except SourceError (List (Placed MethodRow.line)) :=
  match table with
  | none => .ok []
  | some (headers, rows) =>
      let isSignature := fun header => header = "Signature" || header = "Prototype"
      if 1 < (headers.filter isSignature).length ∨
          headers.filter (fun header => !isSignature header) ∉ acceptedHeaders then
        symbolError "Vtable Methods table has unexpected headers"
      else rows.mapM (methodRow headers)

/-- A `_ClassDoc` whose methods keep their places. -/
structure PlacedDoc where
  doc : ClassDoc
  methods : List (Placed MethodRow.line)
  methods_eq : doc.methods = methods.map Placed.value

/-- The checks of the class document against its class, and its FourCC. -/
def identityFourcc (className : String) (identity : List (String × List Char)) :
    Except SourceError (Option String) :=
  if plainMarkdown ((identity.lookup "RTTI name").getD []) ≠ className.toList then
    symbolError "class document conflicts with its canonical RTTI name"
  else
    match identity.lookup "FourCC" with
    | none => .ok none
    | some value =>
        match explicitFourcc value with
        | some fourcc => .ok (some fourcc)
        | none =>
            if (value.dropWhile isSpace).head? = some backtick then
              symbolError "class Identity has an invalid explicit FourCC"
            else .ok none

/-- The FourCC of a class document is one. -/
theorem isFourcc_of_identityFourcc {className : String} {identity : List (String × List Char)}
    {fourcc : Option String} (h : identityFourcc className identity = .ok fourcc) :
    ∀ code ∈ fourcc, isFourcc code = true := by
  rw [identityFourcc] at h
  split_ifs at h
  · cases h
  · intro code hcode
    obtain rfl := Option.mem_def.mp hcode
    split at h
    · cases h
    · split at h
      · next hfourcc =>
        obtain rfl := Option.some.inj (Except.ok.inj h)
        exact isFourcc_of_explicitFourcc hfourcc
      · split_ifs at h
        · cases h
        · cases h

/-- `_parse_class_doc` on the text of the document. -/
def parseClassDoc (className : String) (text : List Char) : Except SourceError PlacedDoc := do
  let lines := numberedLines text
  let identitySection ← sectionBelow (· = "## Identity".toList) lines
  match ← firstTable identitySection with
  | none => symbolError "class Identity table has unexpected headers"
  | some (headers, rows) =>
      if headers ≠ ["Item", "Value"] then
        symbolError "class Identity table has unexpected headers"
      else do
        let identity ← identityItems [] rows
        match hfourcc : identityFourcc className identity with
        | .error e => .error e
        | .ok fourcc => do
            let signature ← classSignature identity
            let methodSection ← sectionBelow
              (fun line => line = "## Vtable Methods".toList ||
                line = "## Vtable Methods (owned)".toList) lines
            let table ← firstTable methodSection
            let methods ← methodRows table
            .ok {
              doc := ⟨fourcc, signature, methods.map Placed.value,
                isFourcc_of_identityFourcc hfourcc⟩
              methods := methods
              methods_eq := rfl }

/-! ## Linkage -/

/-- `LinkageStatus(value)`. -/
def LinkageStatus.ofText (value : String) : Option LinkageStatus :=
  if value = "linked" then some .linked
  else if value = "linked-blocked" then some .linkedBlocked
  else none

/-- A row of the linkage table, with its folded class. -/
def linkageRow (commit : List Char) (ledger : List (Placed LedgerRow.line))
    (seen : List (String × LinkageRecord)) (row : Place × List (List Char)) :
    Except SourceError (String × LinkageRecord) :=
  let cell := cellOf linkageHeaders row.2
  let fold := fun text => tables.fold.casefold (String.ofList text)
  match canonicalClass tables ledger (fold (stripText (cell "class"))) with
  | none => symbolError "linkage row references an unknown canonical class"
  | some className =>
      match bounded (String.ofList (cell "aspect")) 256, bounded (String.ofList (cell "domain")) 256
        with
      | some aspect, some domain =>
          match LinkageStatus.ofText (fold (stripText (cell "status"))) with
          | none => symbolError "linkage row has an invalid status"
          | some status =>
              let key := tables.fold.casefold className
              if seen.any fun other => other.1 = key &&
                  tables.fold.casefold other.2.aspect = tables.fold.casefold aspect then
                symbolError "linkage table repeats a class/aspect identity"
              else do
                let url ← (citationUrl tables.lower commit linkagePath.toList
                  (some row.1.cited)).mapError SourceError.content
                .ok (key, {
                  aspect
                  domain
                  status
                  oracle := bounded (String.ofList (cell "oracle")) 500
                  source := ⟨linkagePath, some row.1.cited, String.ofList url⟩ })
      | _, _ => symbolError "linkage row is missing its aspect or domain"

/-- The key that the linkage of a class is sorted by. -/
def linkageKey (record : LinkageRecord) : List Char ×ₗ List Char ×ₗ ℕ :=
  toLex ((tables.fold.casefold record.aspect).toList,
    toLex ((tables.fold.casefold record.domain).toList, record.source.line.getD 0))

/-- `_parse_linkage`: the linkage of a folded class. -/
def parseLinkage (commit : List Char) (ledger : List (Placed LedgerRow.line)) (text : List Char) :
    Except SourceError (String → List LinkageRecord) := do
  let rows ← strictCsvRows commaDialect linkagePath linkageHeaders text
  let records ← rows.foldlM (fun (seen : List (String × LinkageRecord)) row => do
    let record ← linkageRow tables commit ledger seen row
    .ok (seen ++ [record])) []
  .ok fun key =>
    (((records.filter fun record => record.1 = key).map Prod.snd).insertionSort fun a b =>
      linkageKey tables a ≤ linkageKey tables b).take maxLinkagePerSymbol

/-! ## Object tags -/

/-- What follows `\s*\d+\s*\|`. -/
def afterNumber (text : List Char) : Option (List Char) :=
  let digits := text.dropWhile isSpace
  if digits.takeWhile tables.isDecimal = [] then none
  else
    match (digits.dropWhile tables.isDecimal).dropWhile isSpace with
    | '|' :: rest => some rest
    | _ => none

/-- The groups of a match of the pattern for a row of the instance table. -/
def objectTag (line : List Char) : Option (List Char × List Char) :=
  match line with
  | '|' :: rest =>
      match rest.dropWhile isSpace with
      | opening :: a :: b :: c :: d :: closing :: rest =>
          if opening = backtick && closing = backtick && !([a, b, c, d].contains backtick) then
            match rest.dropWhile isSpace with
            | '|' :: rest => do
                let rest ← afterNumber tables rest
                let rest ← afterNumber tables rest
                let rest ← afterNumber tables rest
                let body := rest.rdropWhile isSpace
                if body.getLast? = some '|' then some ([a, b, c, d], stripText body.dropLast)
                else none
            | _ => none
          else none
      | _ => none
  | _ => none

/-- `tags[key] = value`. -/
def setTag (tags : List (String × String)) (key value : String) : List (String × String) :=
  (key, value) :: tags.filter fun tag => tag.1 ≠ key

/-- `_parse_dominant_object_tags`. -/
def parseDominantObjectTags (text : List Char) : List (String × String) :=
  let lines := ((text.splitOn '\n').dropWhile fun line =>
    !startsWith "## Object types".toList line).takeWhile fun line =>
      startsWith "## Object types".toList line || !startsWith "## ".toList line
  (lines.filterMap (objectTag tables)).foldl (fun tags tag =>
    if tag.2 = [] then tags
    else setTag tags (tables.fold.casefold (String.ofList tag.1))
      (tables.fold.casefold (String.ofList tag.2))) []

/-- The tags of the schema, if the snapshot has it. It is read as a text stream. -/
def readObjectTags (snapshot : Snapshot) : List (String × String) :=
  match snapshot.file gamSchemaPath.toList with
  | none => []
  | some item =>
      match snapshot.revalidate item with
      | .error _ => []
      | .ok inode =>
          parseDominantObjectTags tables (universalNewlines (utf8Replace (snapshot.tree.data inode)))

end Parsers

/-! ## The sources together -/

section Sources

variable {tables : CharacterTables}

/-- The folded classes of ledger rows differ from each other and from those before. -/
theorem nodup_ledgerRows {seen : List String} {rows : List (Place × List (List Char))}
    {ledger : List (Placed LedgerRow.line)} (h : ledgerRows tables seen rows = .ok ledger) :
    (ledger.map fun row => tables.fold.casefold row.value.className).Nodup ∧
      ∀ row ∈ ledger, tables.fold.casefold row.value.className ∉ seen := by
  induction rows generalizing seen ledger with
  | nil =>
    obtain rfl := Except.ok.inj h
    exact ⟨List.nodup_nil, fun row hrow => absurd hrow List.not_mem_nil⟩
  | cons source rest ih =>
    obtain ⟨row, hfirst, h⟩ := bind_eq_ok.mp h
    obtain ⟨others, hrest, h⟩ := bind_eq_ok.mp h
    obtain rfl := Except.ok.inj h
    obtain ⟨hnodup, hnew⟩ := ih hrest
    have hrow : tables.fold.casefold row.value.className ∉ seen := by
      rw [ledgerRow] at hfirst
      dsimp only at hfirst
      split at hfirst
      · cases hfirst
      split at hfirst
      · cases hfirst
      · next hunseen =>
        obtain ⟨vftables, -, hfirst⟩ := bind_eq_ok.mp hfirst
        obtain ⟨ctors, -, hfirst⟩ := bind_eq_ok.mp hfirst
        obtain rfl := Except.ok.inj hfirst
        exact fun hmem => hunseen (List.contains_iff_mem.mpr hmem)
    refine ⟨?_, List.forall_mem_cons.mpr ⟨hrow, fun other hother hmem => ?_⟩⟩
    · rw [List.map_cons, List.nodup_cons]
      refine ⟨fun hmem => ?_, hnodup⟩
      obtain ⟨other, hother, heq⟩ := List.mem_map.mp hmem
      exact hnew other hother (heq ▸ List.mem_cons_self ..)
    · exact hnew other hother (List.mem_cons_of_mem _ hmem)

/-- The folded classes of the ledger differ. -/
theorem nodup_parseLedger {text : List Char} {ledger : List (Placed LedgerRow.line)}
    (h : parseLedger tables text = .ok ledger) :
    ((ledger.map Placed.value).map fun row => tables.fold.casefold row.className).Nodup := by
  obtain ⟨rows, -, h⟩ := bind_eq_ok.mp h
  obtain ⟨ledger', hledger, h⟩ := bind_eq_ok.mp h
  split at h
  · cases h
  obtain rfl := Except.ok.inj h
  rw [List.map_map]
  exact (nodup_ledgerRows hledger).1

/-- A class without a document in the index. -/
def emptyDoc : PlacedDoc := ⟨⟨none, none, [], nofun⟩, [], rfl⟩

/-- What `SymbolIndex.__init__` has parsed: the ledger and the documents with their places, and
the tables made of them. -/
structure SymbolSources (tables : CharacterTables) where
  ledger : List (Placed LedgerRow.line)
  docs : List (String × PlacedDoc)
  parsed : Tables tables.fold
  ledger_eq : parsed.ledger = ledger.map Placed.value
  docs_eq : parsed.docs = fun className => ((docs.lookup className).getD emptyDoc).doc

/-- The documents of the classes of the ledger. -/
def parseDocs (tables : CharacterTables) (snapshot : Snapshot)
    (ledger : List (Placed LedgerRow.line)) : Except SourceError (List (String × PlacedDoc)) :=
  ledger.mapM fun row => do
    let className := row.value.className
    let path := decompDocsPrefix ++ className ++ ".md"
    if (snapshot.file path.toList).isNone then
      symbolError "a decomp ledger class document is missing"
    else do
      let text ← sourceText tables snapshot path
      let doc ← parseClassDoc className text
      .ok (className, doc)

/-- The part of `SymbolIndex.__init__` that reads the sources. -/
def symbolSources (tables : CharacterTables) (snapshot : Snapshot) :
    Except SourceError (SymbolSources tables) :=
  if [decompPath, classIdsPath, linkagePath].any fun path =>
      (snapshot.file path.toList).isNone then
    symbolError "one or more canonical symbol sources are missing"
  else do
    let ledgerText ← sourceText tables snapshot decompPath
    match hledger : parseLedger tables ledgerText with
    | .error e => .error e
    | .ok ledger => do
        let classIds ← sourceText tables snapshot classIdsPath >>= parseClassIds tables ledger
        let docs ← parseDocs tables snapshot ledger
        let linkage ← sourceText tables snapshot linkagePath >>=
          parseLinkage tables snapshot.commit ledger
        .ok {
          ledger := ledger
          docs := docs
          parsed := {
            ledger := ledger.map Placed.value
            docs := fun className => ((docs.lookup className).getD emptyDoc).doc
            classIds := classIds
            linkage := linkage
            objectTags := readObjectTags tables snapshot
            citationUrl := fun path line => String.ofList
              ((citationUrl tables.lower snapshot.commit path.toList (some line)).toOption.getD [])
            distinct := nodup_parseLedger hledger }
          ledger_eq := rfl
          docs_eq := rfl }

/-- `SymbolIndex.__init__`. If `_source` fails on a record, it fails on all. -/
def SymbolSources.index (sources : SymbolSources tables) (snapshot : Snapshot) :
    Except SourceError SymbolIndex := do
  sources.parsed.validateExplicitFourccs.mapError SourceError.index
  let _ ← (citationUrl tables.lower snapshot.commit decompPath.toList (some 1)).mapError
    SourceError.content
  sources.parsed.symbolIndex.mapError SourceError.index

/-- The methods of a class with their places. -/
def SymbolSources.methods (sources : SymbolSources tables) (className : String) :
    List (Placed MethodRow.line) :=
  ((sources.docs.lookup className).getD emptyDoc).methods

/-- The records of a method of a ledger row. -/
def Tables.methodRecords {fold : CasefoldTable} (T : Tables fold) (row : LedgerRow)
    (method : MethodRow) : List SymbolRecord :=
  let key := fold.casefold row.className
  method.addresses.map fun address =>
    { kind := .function
      name := method.name
      address := some address
      signature := method.signature
      className := some row.className
      fourcc := T.classFourccs key
      status := method.status
      linkage := T.linkage key
      summary := method.summary
      source := T.source (decompDocsPrefix ++ row.className ++ ".md") method.line }

/-- The records of the classes and of their methods with the places that they cite. -/
def SymbolSources.citedRecords (sources : SymbolSources tables) : List (Place × SymbolRecord) :=
  sources.ledger.flatMap fun row =>
    (sources.parsed.classRecords row.value).map (fun record => (row.place, record)) ++
      (sources.methods row.value.className).flatMap fun method =>
        (sources.parsed.methodRecords row.value method.value).map fun record =>
          (method.place, record)

/-- The records of the index are those with places and those of the class IDs. -/
theorem SymbolSources.buildRecords_eq (sources : SymbolSources tables) :
    sources.parsed.buildRecords = sources.citedRecords.map Prod.snd ++
      sources.parsed.classIds.flatMap sources.parsed.fourccRecords := by
  rw [Tables.buildRecords, citedRecords, sources.ledger_eq, List.flatMap_map, List.map_flatMap]
  congr 1
  refine List.flatMap_congr fun row _ => ?_
  rw [List.map_append, List.map_map, List.map_flatMap, Tables.functionRecords]
  congr 1
  · exact (List.map_id _).symm
  · rw [sources.docs_eq]
    dsimp only
    rw [PlacedDoc.methods_eq, List.flatMap_map]
    refine List.flatMap_congr fun method _ => ?_
    rw [List.map_map]
    exact (List.map_id _).symm

/-- A record of the index that is none of a class ID has a place. -/
theorem exists_place {sources : SymbolSources tables} {snapshot : Snapshot} {index : SymbolIndex}
    (h : sources.index snapshot = .ok index) {record : SymbolRecord}
    (hrecord : record ∈ index.records) (hkind : record.kind ≠ .fourcc) :
    ∃ place, (place, record) ∈ sources.citedRecords := by
  obtain ⟨-, -, h⟩ := bind_eq_ok.mp h
  obtain ⟨-, -, h⟩ := bind_eq_ok.mp h
  have hbuilt : record ∈ sources.parsed.buildRecords :=
    ((symbolIndex_eq_ok (mapError_eq_ok.mp h)).2.1 record).mp hrecord
  rw [sources.buildRecords_eq, List.mem_append] at hbuilt
  rcases hbuilt with hcited | hclassId
  · obtain ⟨⟨place, record'⟩, hmem, rfl⟩ := List.mem_map.mp hcited
    exact ⟨place, hmem⟩
  · obtain ⟨classId, -, hmem⟩ := List.mem_flatMap.mp hclassId
    obtain ⟨address, -, hmade⟩ := List.mem_filterMap.mp hmem
    obtain ⟨address', -, rfl⟩ := Option.map_eq_some_iff.mp hmade
    exact absurd rfl hkind

end Sources

/-! ## Records that are read -/

section Reads

variable {tables : CharacterTables} {text : List Char}

/-- The rows of the ledger keep the places of the rows of its text. -/
theorem place_of_mem_ledgerRows {seen : List String} {rows : List (Place × List (List Char))}
    {ledger : List (Placed LedgerRow.line)} (h : ledgerRows tables seen rows = .ok ledger)
    {row : Placed LedgerRow.line} (hrow : row ∈ ledger) : ∃ cells, (row.place, cells) ∈ rows := by
  induction rows generalizing seen ledger with
  | nil =>
    obtain rfl := Except.ok.inj h
    cases hrow
  | cons source rest ih =>
    obtain ⟨place, cells⟩ := source
    obtain ⟨first, hfirst, h⟩ := bind_eq_ok.mp h
    obtain ⟨others, hrest, h⟩ := bind_eq_ok.mp h
    obtain rfl := Except.ok.inj h
    rcases List.mem_cons.mp hrow with rfl | hrow
    · rw [ledgerRow] at hfirst
      dsimp only at hfirst
      split at hfirst
      · cases hfirst
      split at hfirst
      · cases hfirst
      obtain ⟨vftables, -, hfirst⟩ := bind_eq_ok.mp hfirst
      obtain ⟨ctors, -, hfirst⟩ := bind_eq_ok.mp hfirst
      obtain rfl := Except.ok.inj hfirst
      exact ⟨cells, List.mem_cons_self ..⟩
    · obtain ⟨cells', hmem⟩ := ih hrest hrow
      exact ⟨cells', List.mem_cons_of_mem _ hmem⟩

/-- A row of the ledger stands in its text. -/
theorem stands_of_mem_parseLedger {ledger : List (Placed LedgerRow.line)}
    (h : parseLedger tables text = .ok ledger) {row : Placed LedgerRow.line} (hrow : row ∈ ledger) :
    row.place.Stands ∧ row.place.text = text := by
  obtain ⟨rows, hrows, h⟩ := bind_eq_ok.mp h
  obtain ⟨ledger', hledger, h⟩ := bind_eq_ok.mp h
  split at h
  · cases h
  obtain rfl := Except.ok.inj h
  obtain ⟨cells, hcells⟩ := place_of_mem_ledgerRows hledger hrow
  exact stands_of_mem_delimitedRows hrows hcells

/-- A section has lines of the document. -/
theorem mem_of_sectionBelow {isHeading : List Char → Bool} {lines below : List (Place × List Char)}
    (h : sectionBelow isHeading lines = .ok below) {line : Place × List Char}
    (hline : line ∈ below) : line ∈ lines := by
  rw [sectionBelow] at h
  split at h
  · cases h
  · obtain rfl := Except.ok.inj h
    have hdrop := List.mem_of_mem_drop ((List.takeWhile_prefix _).subset hline)
    exact (List.dropWhile_suffix _).subset hdrop
  · cases h

/-- The rows of a table stand on lines of the section. -/
theorem mem_of_tableRows {width : ℕ} {separatorSeen separatorSeen' : Bool}
    {lines : List (Place × List Char)} {rows : List (Place × List (List Char))}
    (h : tableRows width separatorSeen lines = .ok (separatorSeen', rows))
    {row : Place × List (List Char)} (hrow : row ∈ rows) : ∃ line, (row.1, line) ∈ lines := by
  induction lines generalizing separatorSeen separatorSeen' rows with
  | nil =>
    obtain ⟨-, rfl⟩ := Prod.mk.inj (Except.ok.inj h)
    cases hrow
  | cons first rest ih =>
    obtain ⟨place, line⟩ := first
    have hlater : (∃ line, (row.1, line) ∈ rest) →
        ∃ line', (row.1, line') ∈ (place, line) :: rest := fun ⟨line', hmem⟩ =>
      ⟨line', List.mem_cons_of_mem _ hmem⟩
    rw [tableRows] at h
    split at h
    · split at h
      · obtain ⟨-, rfl⟩ := Prod.mk.inj (Except.ok.inj h)
        cases hrow
      · exact hlater (ih h hrow)
    · split at h
      · split at h
        · cases h
        · exact hlater (ih h hrow)
      · split at h
        · cases h
        · obtain ⟨⟨seen, others⟩, hrest, h⟩ := bind_eq_ok.mp h
          obtain ⟨-, rfl⟩ := Prod.mk.inj (Except.ok.inj h)
          rcases List.mem_cons.mp hrow with rfl | hrow
          · exact ⟨line, List.mem_cons_self ..⟩
          · exact hlater (ih hrest hrow)

/-- The rows of the first table stand on lines of the section. -/
theorem mem_of_firstTable {lines : List (Place × List Char)} {headers : List String}
    {rows : List (Place × List (List Char))} (h : firstTable lines = .ok (some (headers, rows)))
    {row : Place × List (List Char)} (hrow : row ∈ rows) : ∃ line, (row.1, line) ∈ lines := by
  rw [firstTable] at h
  split at h
  · cases h
  · next first line rest hlines =>
    obtain ⟨⟨seen, rows'⟩, htable, h⟩ := bind_eq_ok.mp h
    dsimp only at h
    split at h
    · obtain ⟨-, rfl⟩ := Prod.mk.inj (Option.some.inj (Except.ok.inj h))
      obtain ⟨line', hmem⟩ := mem_of_tableRows htable hrow
      have hsuffix : (first, line) :: rest <:+ lines := hlines ▸ List.dropWhile_suffix _
      exact ⟨line', hsuffix.subset (List.mem_cons_of_mem _ hmem)⟩
    · cases h

/-- A method stands where its row does. -/
theorem place_of_mem_methodRows {headers : List String} {rows : List (Place × List (List Char))}
    {methods : List (Placed MethodRow.line)} (h : methodRows (some (headers, rows)) = .ok methods)
    {method : Placed MethodRow.line} (hmethod : method ∈ methods) :
    ∃ row ∈ rows, method.place = row.1 := by
  rw [methodRows] at h
  dsimp only at h
  split at h
  · cases h
  obtain ⟨row, hrow, hread⟩ := exists_of_mem_mapM h hmethod
  rw [methodRow] at hread
  dsimp only at hread
  generalize plainMarkdown
    (cellOf headers row.2 (if "Name" ∈ headers then "Name" else "Role")) = name at hread
  split at hread
  · cases hread
  obtain ⟨addresses, -, hread⟩ := bind_eq_ok.mp hread
  obtain rfl := Except.ok.inj hread
  exact ⟨row, hrow, rfl⟩

/-- A method of a class document stands in its text. -/
theorem stands_of_mem_parseClassDoc {className : String} {doc : PlacedDoc}
    (h : parseClassDoc className text = .ok doc) {method : Placed MethodRow.line}
    (hmethod : method ∈ doc.methods) : method.place.Stands ∧ method.place.text = text := by
  obtain ⟨identitySection, -, h⟩ := bind_eq_ok.mp h
  obtain ⟨identityTable, -, h⟩ := bind_eq_ok.mp h
  cases identityTable with
  | none => cases h
  | some identityTable =>
    dsimp only at h
    split at h
    · cases h
    obtain ⟨identity, -, h⟩ := bind_eq_ok.mp h
    split at h
    · cases h
    obtain ⟨signature, -, h⟩ := bind_eq_ok.mp h
    obtain ⟨methodSection, hsection, h⟩ := bind_eq_ok.mp h
    obtain ⟨table, htable, h⟩ := bind_eq_ok.mp h
    obtain ⟨methods, hmethods, h⟩ := bind_eq_ok.mp h
    obtain rfl := Except.ok.inj h
    cases table with
    | none =>
      obtain rfl := Except.ok.inj hmethods
      cases hmethod
    | some table =>
      obtain ⟨row, hrow, hplace⟩ := place_of_mem_methodRows hmethods hmethod
      obtain ⟨line, hline⟩ := mem_of_firstTable htable hrow
      rw [hplace]
      exact stands_of_mem_numberedLines (mem_of_sectionBelow hsection hline)

/-- A record of a class or a method cites the place where it is read in the file that it cites. -/
structure CitesPlace (tables : CharacterTables) (snapshot : Snapshot) (place : Place)
    (record : SymbolRecord) : Prop where
  stands : place.Stands
  text : sourceText tables snapshot record.source.path = .ok place.text
  line : record.source.line = some place.cited

/-- The methods of the classes stand in the documents. -/
theorem stands_of_mem_methods {snapshot : Snapshot} {sources : SymbolSources tables}
    (h : parseDocs tables snapshot sources.ledger = .ok sources.docs) {className : String}
    {method : Placed MethodRow.line} (hmethod : method ∈ sources.methods className) :
    method.place.Stands ∧ sourceText tables snapshot (decompDocsPrefix ++ className ++ ".md") =
      .ok method.place.text := by
  rw [SymbolSources.methods] at hmethod
  cases hlookup : sources.docs.lookup className with
  | none =>
    rw [hlookup] at hmethod
    cases hmethod
  | some doc =>
    rw [hlookup] at hmethod
    obtain ⟨row, -, hread⟩ := exists_of_mem_mapM h (mem_of_lookup hlookup)
    dsimp only at hread
    split at hread
    · cases hread
    obtain ⟨text, htext, hread⟩ := bind_eq_ok.mp hread
    obtain ⟨doc', hdoc, hread⟩ := bind_eq_ok.mp hread
    obtain ⟨rfl, rfl⟩ := Prod.mk.inj (Except.ok.inj hread)
    obtain ⟨hstands, hmethodText⟩ := stands_of_mem_parseClassDoc hdoc hmethod
    exact ⟨hstands, hmethodText ▸ htext⟩

/-- Every record of a class or a method cites a place. -/
theorem citesPlace_of_mem {snapshot : Snapshot} {sources : SymbolSources tables}
    (h : symbolSources tables snapshot = .ok sources) {place : Place} {record : SymbolRecord}
    (hmem : (place, record) ∈ sources.citedRecords) :
    CitesPlace tables snapshot place record := by
  rw [symbolSources] at h
  split at h
  · cases h
  obtain ⟨ledgerText, hledgerText, h⟩ := bind_eq_ok.mp h
  split at h
  · cases h
  · next ledger hledger =>
    obtain ⟨classIds, -, h⟩ := bind_eq_ok.mp h
    obtain ⟨docs, hdocs, h⟩ := bind_eq_ok.mp h
    obtain ⟨linkage, -, h⟩ := bind_eq_ok.mp h
    obtain rfl := Except.ok.inj h
    obtain ⟨row, hrow, hmem⟩ := List.mem_flatMap.mp hmem
    rcases List.mem_append.mp hmem with hclass | hmethods
    · obtain ⟨record', hrecord, heq⟩ := List.mem_map.mp hclass
      obtain ⟨rfl, rfl⟩ := Prod.mk.inj heq
      obtain ⟨address, -, rfl⟩ := List.mem_map.mp hrecord
      obtain ⟨hstands, htext⟩ := stands_of_mem_parseLedger hledger hrow
      exact ⟨hstands, htext ▸ hledgerText, congrArg some row.cites⟩
    · obtain ⟨method, hmethod, hmem⟩ := List.mem_flatMap.mp hmethods
      obtain ⟨record', hrecord, heq⟩ := List.mem_map.mp hmem
      obtain ⟨rfl, rfl⟩ := Prod.mk.inj heq
      obtain ⟨address, -, rfl⟩ := List.mem_map.mp hrecord
      obtain ⟨hstands, htext⟩ := stands_of_mem_methods hdocs hmethod
      exact ⟨hstands, htext, congrArg some method.cites⟩

end Reads

end ContributorGateway.Symbols
