import ContributorGateway.Core.SymbolIndex
import ContributorGateway.Collaboration.Errors
import ContributorGateway.Foundation.Associations
import Mathlib.Data.List.Dedup

/-!
# Contradicted FourCCs

A class document may assert a FourCC that the registrar scan or the object tags contradict.
The index then serves no FourCC for the class: the check before the records are built leaves
no registrar row from which one could be taken instead.
-/

namespace ContributorGateway.Symbols

/-- A record of kind `CLASS` or `FUNCTION` of a class. -/
def SymbolRecord.IsOf (record : SymbolRecord) (className : String) : Prop :=
  record.kind ≠ .fourcc ∧ record.className = some className

namespace Tables

variable {fold : CasefoldTable} {T : Tables fold} {row : LedgerRow} {fourcc : String}

/-- A registrar row gives the class that FourCC. -/
def Gives (fold : CasefoldTable) (classId : ClassIdRow) (className fourcc : String) : Prop :=
  classId.canonicalClass.map fold.casefold = some (fold.casefold className) ∧
    fold.casefold classId.fourcc = fold.casefold fourcc

/-- Nothing speaks against the FourCC: it is no level class ID (`LEV` and a digit, in the
registrar's rows) in either orientation, the registrar assigns it to no other canonical class,
and no object tag names another class for it while naming this class elsewhere. -/
structure Unopposed (T : Tables fold) (className fourcc : String) : Prop where
  noLevel : ∀ classId ∈ T.classIds, isLevelClassId classId.fourcc = true →
    fold.casefold fourcc ≠ fold.casefold classId.fourcc ∧
      fold.casefold fourcc ≠ fold.casefold (reversed classId.fourcc)
  noOwner : ∀ classId ∈ T.classIds, ∀ owner, classId.canonicalClass = some owner →
    fold.casefold classId.fourcc = fold.casefold fourcc →
    fold.casefold owner = fold.casefold className
  noTag : ∀ tag, T.objectTags.lookup (fold.casefold fourcc) = some tag →
    tag ≠ fold.casefold className → fold.casefold className ∉ T.objectTags.map (·.2)

/-! ## Evidence -/

/-- The FourCCs of the registrar rows of a class. -/
theorem mem_committed {key folded : String} :
    folded ∈ T.committed key ↔ ∃ classId ∈ T.classIds,
      classId.canonicalClass.map fold.casefold = some key ∧
        fold.casefold classId.fourcc = folded := by
  simp [committed, and_assoc]

/-- The classes to which the registrar assigns a FourCC. -/
theorem mem_owners {folded owner : String} :
    owner ∈ T.owners folded ↔ ∃ classId ∈ T.classIds, fold.casefold classId.fourcc = folded ∧
      classId.canonicalClass.map fold.casefold = some owner := by
  simp [owners, and_assoc]

/-- The level class IDs in both orientations. -/
theorem mem_levelIds {folded : String} :
    folded ∈ T.levelIds ↔ ∃ classId ∈ T.classIds, isLevelClassId classId.fourcc = true ∧
      (folded = fold.casefold classId.fourcc ∨
        folded = fold.casefold (reversed classId.fourcc)) := by
  simp [levelIds, and_assoc]

/-- A FourCC that is not contradicted is the class's own, or nothing speaks against it. -/
theorem unopposed_of_not_contradicted {className : String}
    (hkept : T.fourccIsContradicted (fold.casefold className) fourcc = false)
    (hown : ∀ classId ∈ T.classIds, ¬ Gives fold classId className fourcc) :
    T.Unopposed className fourcc := by
  have hcommitted : fold.casefold fourcc ∉ T.committed (fold.casefold className) := by
    rw [mem_committed]
    rintro ⟨classId, hmem, hgives⟩
    exact hown classId hmem hgives
  rw [fourccIsContradicted] at hkept
  rw [if_neg hcommitted] at hkept
  split_ifs at hkept with hlevel howner
  constructor
  · intro classId hmem hid
    have hnot : ¬ (fold.casefold fourcc = fold.casefold classId.fourcc ∨
        fold.casefold fourcc = fold.casefold (reversed classId.fourcc)) :=
      fun h => hlevel (mem_levelIds.mpr ⟨classId, hmem, hid, h⟩)
    exact not_or.mp hnot
  · intro classId hmem owner hcanonical hfourcc
    by_contra hother
    apply howner
    rw [List.any_eq_true]
    exact ⟨fold.casefold owner, mem_owners.mpr ⟨classId, hmem, hfourcc, by rw [hcanonical]; rfl⟩,
      by simpa using hother⟩
  · intro tag htag hother hnamed
    rw [htag] at hkept
    simp only [Bool.and_eq_false_iff, decide_eq_false_iff_not, not_not, List.contains_eq_mem]
      at hkept
    rcases hkept with hsame | hunnamed
    · exact hother hsame
    · exact hunnamed hnamed

/-- A FourCC that one of the class's own registrar rows names is not contradicted. -/
theorem not_contradicted_of_gives {className : String} {classId : ClassIdRow}
    (hmem : classId ∈ T.classIds) (hgives : Gives fold classId className fourcc) :
    T.fourccIsContradicted (fold.casefold className) fourcc = false := by
  rw [fourccIsContradicted]
  exact if_pos (mem_committed.mpr ⟨classId, hmem, hgives⟩)

/-! ## The FourCC that is served -/

/-- After the validation, a class whose document is contradicted has no registrar rows. -/
theorem committed_eq_nil (hvalid : T.validateExplicitFourccs = .ok ()) (hrow : row ∈ T.ledger)
    (hquarantined : T.quarantines row = true) : T.committed (fold.casefold row.className) = [] := by
  rw [quarantines, Option.any_eq_true] at hquarantined
  obtain ⟨explicit, hexplicit, hcontradicted⟩ := hquarantined
  rw [validateExplicitFourccs] at hvalid
  split_ifs at hvalid with hconflict
  by_contra hne
  apply hconflict
  rw [List.any_eq_true]
  refine ⟨row, hrow, ?_⟩
  have hmissing : fold.casefold explicit ∉ T.committed (fold.casefold row.className) := by
    intro hown
    rw [fourccIsContradicted, if_pos hown] at hcontradicted
    cases hcontradicted
  simp [Option.mem_def.mp hexplicit, hne, hmissing]

/-- No FourCC is selected for a class whose document is contradicted. -/
theorem selectFourcc_of_quarantines (hvalid : T.validateExplicitFourccs = .ok ())
    (hrow : row ∈ T.ledger) (hquarantined : T.quarantines row = true) :
    T.selectFourcc row = none := by
  rw [selectFourcc]
  simp only [hquarantined, if_true, committed_eq_nil hvalid hrow hquarantined]

/-- A document that is not contradicted decides. -/
theorem selectFourcc_of_explicit (hexplicit : (T.docs row.className).explicitFourcc = some fourcc)
    (hkept : T.fourccIsContradicted (fold.casefold row.className) fourcc = false) :
    T.selectFourcc row = some fourcc := by
  have hquarantines : T.quarantines row = false := by
    rw [quarantines, hexplicit]
    exact hkept
  rw [selectFourcc]
  simp [hquarantines, hexplicit]

/-- The quarantined classes are the ledger rows whose document is contradicted. -/
theorem mem_quarantined {className : String} :
    (className, fourcc) ∈ T.quarantined ↔ ∃ row ∈ T.ledger, row.className = className ∧
      (T.docs className).explicitFourcc = some fourcc ∧ T.quarantines row = true := by
  rw [quarantined, List.mem_filterMap]
  constructor
  · rintro ⟨row, hrow, hsome⟩
    split_ifs at hsome with hquarantines
    obtain ⟨explicit, hexplicit, heq⟩ := Option.map_eq_some_iff.mp hsome
    obtain ⟨rfl, rfl⟩ := Prod.mk.inj heq
    exact ⟨row, hrow, rfl, hexplicit, hquarantines⟩
  · rintro ⟨row, hrow, rfl, hexplicit, hquarantines⟩
    exact ⟨row, hrow, by rw [if_pos hquarantines, hexplicit]; rfl⟩

/-- The selection reads nothing of a row but the name of its class. -/
theorem selectFourcc_congr {row' : LedgerRow} (h : row'.className = row.className) :
    T.selectFourcc row' = T.selectFourcc row := by
  unfold selectFourcc quarantines
  rw [h]

/-- The dictionary holds the selection of every ledger row. -/
theorem classFourccs_eq (hrow : row ∈ T.ledger) :
    T.classFourccs (fold.casefold row.className) = T.selectFourcc row := by
  have hnodup : ((T.ledger.map fun row =>
      (fold.casefold row.className, T.selectFourcc row)).reverse.map (·.1)).Nodup := by
    rw [List.map_reverse, List.nodup_reverse, List.map_map]
    exact T.distinct
  rw [classFourccs, lookup_of_mem hnodup
    (List.mem_reverse.mpr (List.mem_map.mpr ⟨row, hrow, rfl⟩))]
  rfl

/-- Every record of a class carries the FourCC selected for its ledger row. -/
theorem fourcc_of_mem_buildRecords {record : SymbolRecord}
    (hrecord : record ∈ T.buildRecords) (hof : record.IsOf row.className) :
    record.fourcc = T.selectFourcc row := by
  have hserved : ∀ row' ∈ T.ledger, row'.className = row.className →
      T.classFourccs (fold.casefold row'.className) = T.selectFourcc row := by
    intro row' hrow' hname
    rw [classFourccs_eq hrow', selectFourcc_congr hname]
  obtain ⟨hkind, hname⟩ := hof
  rw [buildRecords, List.mem_append, List.mem_flatMap, List.mem_flatMap] at hrecord
  rcases hrecord with ⟨row', hrow', hrecord⟩ | ⟨classId, -, hrecord⟩
  · rcases List.mem_append.mp hrecord with hrecord | hrecord
    · obtain ⟨address, -, rfl⟩ := List.mem_map.mp hrecord
      exact hserved row' hrow' (Option.some.inj hname)
    · obtain ⟨method, -, hrecord⟩ := List.mem_flatMap.mp hrecord
      obtain ⟨address, -, rfl⟩ := List.mem_map.mp hrecord
      exact hserved row' hrow' (Option.some.inj hname)
  · obtain ⟨⟨address, label⟩, -, hrecord⟩ := List.mem_filterMap.mp hrecord
    obtain ⟨address, -, rfl⟩ := Option.map_eq_some_iff.mp hrecord
    exact absurd rfl hkind

end Tables

/-! ## The index and its lookups -/

section Index

variable {fold : CasefoldTable} {T : Tables fold} {index : SymbolIndex}

/-- A constructed index has passed the validation, and holds the records that were built. -/
theorem symbolIndex_eq_ok (hindex : T.symbolIndex = .ok index) :
    T.validateExplicitFourccs = .ok () ∧ (∀ record, record ∈ index.records ↔
      record ∈ T.buildRecords) ∧ index.quarantinedFourccs = T.quarantined := by
  rw [Tables.symbolIndex] at hindex
  cases hvalid : T.validateExplicitFourccs with
  | error e =>
    rw [hvalid] at hindex
    cases hindex
  | ok _ =>
    rw [hvalid] at hindex
    change (if _ then _ else _) = _ at hindex
    split_ifs at hindex
    cases hindex
    exact ⟨rfl, fun record => List.mem_insertionSort _, rfl⟩

/-- Folding a FourCC leaves a text. -/
theorem casefold_ne_empty {fourcc : String} (hvalid : isFourcc fourcc = true) :
    fold.casefold fourcc ≠ fold.casefold "" := by
  have hlength : 4 ≤ fourcc.length := by
    simp only [isFourcc, matchesClass, Bool.and_eq_true, decide_eq_true_eq] at hvalid
    exact hvalid.1.1
  intro heq
  have hlist := congrArg String.toList heq
  simp only [CasefoldTable.casefold, String.toList_ofList] at hlist
  rcases htext : fourcc.toList with _ | ⟨c, rest⟩
  · rw [← String.length_toList, htext] at hlength
    simp at hlength
  · rw [htext] at hlist
    have hnil : fold.map c ++ rest.flatMap fold.map = [] := by simpa using hlist
    exact fold.nonempty c (List.append_eq_nil_iff.mp hnil).1

/-- A lookup by a FourCC returns records of the index with that FourCC. -/
theorem lookup_eq_ok {name address className : Option String} {fourcc : String} {limit : ℤ}
    {found : SymbolLookup}
    (hfound : index.lookup fold name address className (some fourcc) limit = .ok found) :
    isFourcc fourcc = true ∧ ∀ record ∈ found.results, record ∈ index.records ∧
      fold.casefold fourcc = fold.casefold (record.fourcc.getD "") := by
  unfold SymbolIndex.lookup at hfound
  dsimp only at hfound
  split at hfound
  · cases hfound
  split at hfound
  · cases hfound
  split at hfound
  · cases hfound
  obtain ⟨normalized, -, hfound⟩ := bind_eq_ok.mp hfound
  split_ifs at hfound with hinvalid
  cases hfound
  refine ⟨by simpa using hinvalid, fun record hrecord => ?_⟩
  have hmem := (List.mem_insertionSort _).mp (List.mem_of_mem_take hrecord)
  obtain ⟨hindexed, hmatch⟩ := List.mem_filter.mp hmem
  simp only [matchesQuery, Bool.and_eq_true, Option.all_some, beq_iff_eq] at hmatch
  exact ⟨hindexed, hmatch.2⟩

/-- **Contradicted FourCCs are never served.** In every index that is constructed: records of
a quarantined class have no FourCC, and no lookup by the quarantined FourCC returns one; a
FourCC served from a document without a registrar row of the class is unopposed; and a
document's FourCC that one of the class's own registrar rows names is served. -/
theorem fourcc_quarantine (T : Tables fold) {index : SymbolIndex}
    (hindex : T.symbolIndex = .ok index) :
    (∀ className fourcc, (className, fourcc) ∈ index.quarantinedFourccs →
      (∀ record ∈ index.records, record.IsOf className → record.fourcc = none) ∧
      ∀ name address class_name limit found,
        index.lookup fold name address class_name (some fourcc) limit = .ok found →
        ∀ record ∈ found.results, ¬ record.IsOf className) ∧
    (∀ row ∈ T.ledger, ∀ fourcc, (T.docs row.className).explicitFourcc = some fourcc →
      (∃ record ∈ index.records, record.IsOf row.className ∧ record.fourcc = some fourcc) →
      (∀ classId ∈ T.classIds, ¬ Tables.Gives fold classId row.className fourcc) →
      T.Unopposed row.className fourcc) ∧
    ∀ row ∈ T.ledger, ∀ fourcc, (T.docs row.className).explicitFourcc = some fourcc →
      (∃ classId ∈ T.classIds, Tables.Gives fold classId row.className fourcc) →
      ∀ record ∈ index.records, record.IsOf row.className → record.fourcc = some fourcc := by
  obtain ⟨hvalid, hrecords, hquarantined⟩ := symbolIndex_eq_ok hindex
  refine ⟨?_, ?_, ?_⟩
  · intro className fourcc hmem
    rw [hquarantined] at hmem
    obtain ⟨row, hrow, rfl, -, hquarantines⟩ := Tables.mem_quarantined.mp hmem
    have hnone : ∀ record ∈ index.records, record.IsOf row.className → record.fourcc = none := by
      intro record hrecord hof
      rw [Tables.fourcc_of_mem_buildRecords ((hrecords record).mp hrecord) hof,
        Tables.selectFourcc_of_quarantines hvalid hrow hquarantines]
    refine ⟨hnone, fun name address class_name limit found hfound record hresult hof => ?_⟩
    obtain ⟨hfourcc, hmatches⟩ := lookup_eq_ok hfound
    obtain ⟨hrecord, hsame⟩ := hmatches record hresult
    rw [hnone record hrecord hof] at hsame
    exact casefold_ne_empty hfourcc hsame
  · rintro row hrow fourcc hexplicit ⟨record, hrecord, hof, hserved⟩ hown
    apply Tables.unopposed_of_not_contradicted _ hown
    rw [Tables.fourcc_of_mem_buildRecords ((hrecords record).mp hrecord) hof] at hserved
    by_contra hcontradicted
    have hquarantines : T.quarantines row = true := by
      rw [Tables.quarantines, hexplicit]
      simpa using hcontradicted
    rw [Tables.selectFourcc_of_quarantines hvalid hrow hquarantines] at hserved
    cases hserved
  · rintro row hrow fourcc hexplicit ⟨classId, hmem, hgives⟩ record hrecord hof
    rw [Tables.fourcc_of_mem_buildRecords ((hrecords record).mp hrecord) hof]
    exact Tables.selectFourcc_of_explicit hexplicit
      (Tables.not_contradicted_of_gives hmem hgives)

/-- Case folding of ASCII letters. -/
def asciiCasefold : CasefoldTable where
  map c := [c.toLower]
  nonempty _ := List.cons_ne_nil _ _
  ascii _ _ := rfl

/-- The documents of two classes: one asserts the class ID of the fifth level, the other a
FourCC that the registrar gives it. -/
def sparrowDocs (className : String) : ClassDoc :=
  if className = "C3DSparrow" then ⟨some "5VEL", none, [], by rintro _ ⟨⟩; rfl⟩
  else ⟨some "3EYE", none, [], by rintro _ ⟨⟩; rfl⟩

/-- Tables with these documents. -/
def sparrowTables : Tables asciiCasefold where
  ledger := [⟨"C3DSparrow", ["00401000"], [], none, none, 2⟩,
    ⟨"C3DEye", [], ["00402000"], none, none, 3⟩]
  docs := sparrowDocs
  classIds := [⟨"LEV5", "00501000", none, some "Level", none, 2, rfl⟩,
    ⟨"3EYE", "00502000", none, some "C3DEye", some "C3DEye", 3, rfl⟩]
  linkage := fun _ => []
  objectTags := []
  citationUrl := fun path _ => path
  distinct := by decide

/-- The level class ID is quarantined and not served; the registered FourCC is served. -/
theorem sparrow_quarantined : ∃ index, sparrowTables.symbolIndex = .ok index ∧
    index.quarantinedFourccs = [("C3DSparrow", "5VEL")] ∧
    (∀ record ∈ index.records, record.IsOf "C3DSparrow" → record.fourcc = none) ∧
    ∀ record ∈ index.records, record.IsOf "C3DEye" → record.fourcc = some "3EYE" := by
  have hok : sparrowTables.symbolIndex.isOk = true := by decide +kernel
  cases hindex : sparrowTables.symbolIndex with
  | error e =>
    rw [hindex] at hok
    cases hok
  | ok index =>
    have hquarantined : index.quarantinedFourccs = [("C3DSparrow", "5VEL")] := by
      rw [(symbolIndex_eq_ok hindex).2.2]
      decide +kernel
    obtain ⟨hnone, -, hserved⟩ := fourcc_quarantine sparrowTables hindex
    have hmem : ("C3DSparrow", "5VEL") ∈ index.quarantinedFourccs := by
      rw [hquarantined, List.mem_singleton]
    refine ⟨index, rfl, hquarantined, (hnone _ _ hmem).1, ?_⟩
    exact hserved ⟨"C3DEye", [], ["00402000"], none, none, 3⟩ (by simp [sparrowTables]) "3EYE"
      (by decide +kernel) ⟨⟨"3EYE", "00502000", none, some "C3DEye", some "C3DEye", 3, rfl⟩,
        by simp [sparrowTables], rfl, rfl⟩

end Index

end ContributorGateway.Symbols
