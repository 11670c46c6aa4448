import ContributorGateway.Core.CitedLines
import ContributorGateway.Core.ClaimRetries

/-!
# Claims of listed tasks

The IDs of tasks are made of the texts of the sources, and a claim checks the ID that it is
given. An ID passes the check exactly if the texts that it is made of fit.
-/

namespace ContributorGateway.CommittedTasks

open Markdown RepositoryContent TaskClaims Words

/-! ## Task IDs -/

/-- A stripped text has no space at its ends. -/
theorem stripText_eq_self_iff {text : List Char} :
    stripText text = text ↔ AtEnd (fun c => !isSpace c) text.head? ∧
      AtEnd (fun c => !isSpace c) text.getLast? := by
  have hlast : text.rdropWhile isSpace = text ↔ AtEnd (fun c => !isSpace c) text.getLast? := by
    rw [List.rdropWhile_eq_self_iff]
    rcases text.eq_nil_or_concat with rfl | ⟨front, c, rfl⟩
    · simp [AtEnd]
    · simp [AtEnd]
  rw [← hlast, stripText]
  cases text with
  | nil => simp [AtEnd]
  | cons c rest =>
    have hhead : AtEnd (fun c => !isSpace c) (c :: rest).head? ↔ isSpace c = false := by
      simp [AtEnd]
    rw [hhead]
    cases hc : isSpace c with
    | false => simp [hc]
    | true =>
      refine iff_of_false (fun heq => ?_) (by simp)
      have hshort : ((c :: rest).dropWhile isSpace).length ≤ rest.length := by
        rw [List.dropWhile_cons, if_pos hc]
        exact (List.dropWhile_suffix isSpace).length_le
      have hlength := (List.rdropWhile_prefix isSpace
        (l := (c :: rest).dropWhile isSpace)).length_le
      rw [heq, List.length_cons] at hlength
      omega

/-- A text without control characters. -/
def HasNoControl (text : List Char) : Prop := ∀ c ∈ text, isControl c = false

/-- A label that starts and ends IDs of a kind: its ends are no spaces, and it has no control
character. -/
structure IsLabel (label : List Char) : Prop where
  head : ∃ c, label.head? = some c ∧ isSpace c = false
  last : AtEnd (fun c => !isSpace c) label.getLast?
  control : HasNoControl label

/-- An ID of a label and a body passes the check if and only if it is short enough and its body has
no control character and no space at its end. -/
theorem isTaskId_append_iff {label body : List Char} (hlabel : IsLabel label) :
    isTaskId (String.ofList (label ++ body)) = true ↔ label.length + body.length ≤ 256 ∧
      HasNoControl body ∧ AtEnd (fun c => !isSpace c) body.getLast? := by
  obtain ⟨⟨first, hfirst, hspace⟩, hlast, hcontrol⟩ := hlabel
  have hstrip : strip (String.ofList (label ++ body)) =
      String.ofList (stripText (label ++ body)) := by
    rw [strip, String.toList_ofList, stripText]
  have hne : label ≠ [] := by
    rintro rfl
    cases hfirst
  have hhead : AtEnd (fun c => !isSpace c) (label ++ body).head? := by
    rw [List.head?_append_of_ne_nil _ hne, hfirst]
    intro c hc
    obtain rfl := Option.some.inj hc
    simpa using hspace
  have hends : AtEnd (fun c => !isSpace c) (label ++ body).getLast? ↔
      AtEnd (fun c => !isSpace c) body.getLast? := by
    rcases body.eq_nil_or_concat with rfl | ⟨front, c, rfl⟩
    · rw [List.append_nil]
      exact iff_of_true hlast fun c hc => absurd hc (Option.not_mem_none c)
    · rw [List.getLast?_append_of_ne_nil _ (by simp)]
  have hnonempty : (String.ofList (label ++ body)).isEmpty = false := by
    rw [Bool.eq_false_iff, ne_eq, String.isEmpty_iff]
    intro hempty
    have hlist := congrArg String.toList hempty
    rw [String.toList_ofList] at hlist
    exact hne (List.append_eq_nil_iff.mp hlist).1
  have hclean : ((label ++ body).any isControl) = false ↔ HasNoControl body := by
    rw [List.any_eq_false, List.forall_mem_append]
    simp only [Bool.not_eq_true]
    exact and_iff_right hcontrol
  rw [isTaskId, hnonempty, hstrip, String.toList_ofList, String.length_ofList]
  simp only [Bool.not_false, Bool.true_and, Bool.and_eq_true, decide_eq_true_eq, beq_iff_eq,
    String.ofList_inj, Bool.not_eq_true', hclean, List.length_append]
  rw [eq_comm, stripText_eq_self_iff, and_iff_right hhead, hends, and_assoc,
    and_comm (a := AtEnd _ _)]

/-! ## Foldings and slugs -/

/-- What Unicode says of the tables: a folding keeps spaces, and no other character becomes a
space or a control character; digits are neither. -/
structure KeepsKinds (tables : CharacterTables) : Prop where
  space : ∀ c, isSpace c = true → tables.fold.map c = [c]
  letter : ∀ c, isSpace c = false → ∀ d ∈ tables.fold.map c, isSpace d = false
  control : ∀ c, isControl c = false → ∀ d ∈ tables.fold.map c, isControl d = false
  digit : ∀ c, tables.isDigit c = true → isSpace c = false ∧ isControl c = false

variable {tables : CharacterTables} {text : List Char}

/-- A control character is folded into itself. -/
theorem fold_of_isControl {c : Char} (hc : isControl c = true) : tables.fold.map c = [c] := by
  have hrange : c.toNat < 0x20 ∨ c.toNat = 0x7f := by
    simpa [isControl] using hc
  have hsame : c.toLower = c := by
    rcases toLower_cases c with ⟨⟨hlow, hhigh⟩, -⟩ | hsame
    · exfalso
      have hlow : 65 ≤ c.toNat := hlow
      have hhigh : c.toNat ≤ 90 := hhigh
      omega
    · exact hsame
  rw [tables.fold.ascii c (by omega), hsame]

/-- Folding neither makes nor removes control characters. -/
theorem hasNoControl_casefold (hkinds : KeepsKinds tables) :
    HasNoControl (tables.casefold text) ↔ HasNoControl text := by
  constructor
  · intro h c hc
    rw [Bool.eq_false_iff]
    intro hcontrol
    have hmem : c ∈ tables.casefold text := by
      refine List.mem_flatMap.mpr ⟨c, hc, ?_⟩
      rw [fold_of_isControl hcontrol]
      exact List.mem_singleton_self c
    rw [h c hmem] at hcontrol
    cases hcontrol
  · intro h d hd
    obtain ⟨c, hc, hd⟩ := List.mem_flatMap.mp hd
    exact hkinds.control c (h c hc) d hd

/-- A folded text ends in a space if and only if the text does. -/
theorem getLast?_casefold (hkinds : KeepsKinds tables) :
    AtEnd (fun c => !isSpace c) (tables.casefold text).getLast? ↔
      AtEnd (fun c => !isSpace c) text.getLast? := by
  rcases text.eq_nil_or_concat with rfl | ⟨front, c, rfl⟩
  · rfl
  · have hfold : tables.casefold (front ++ [c]) = tables.casefold front ++ tables.fold.map c := by
      simp [CharacterTables.casefold]
    rw [List.concat_eq_append, hfold,
      List.getLast?_append_of_ne_nil _ (tables.fold.nonempty c), List.getLast?_append_of_ne_nil _
        (List.cons_ne_nil c [])]
    cases hc : isSpace c with
    | true => rw [hkinds.space c hc]
    | false =>
      refine iff_of_true (fun d hd => ?_) (by simp [AtEnd, hc])
      have hspace := hkinds.letter c hc d (List.mem_of_getLast? hd)
      simpa using hspace

/-- A character of a slug. -/
def IsSlugPart (c : Char) : Prop := isSlugChar c = true ∨ c = '-'

/-- A slug is not empty, not too long, and has only letters, digits and hyphens. -/
theorem semanticSlug_spec (tables : CharacterTables) (value : List Char) :
    semanticSlug tables value ≠ [] ∧ (semanticSlug tables value).length ≤ 96 ∧
      ∀ c ∈ semanticSlug tables value, IsSlugPart c := by
  rw [semanticSlug]
  split_ifs with hnone
  · have hparts : "task".toList.all isSlugChar = true := by decide
    exact ⟨by decide, by decide, fun c hc => .inl (List.all_eq_true.mp hparts c hc)⟩
  · refine ⟨hnone, List.length_take_le _ _, fun c hc => ?_⟩
    rcases mem_collapse (List.mem_of_mem_take hc) with hsep | hletter
    · exact .inr hsep
    · exact .inl (by simpa using hletter)

/-! ## The IDs of entries -/

/-- A character that is neither a space nor a control character. -/
def IsVisible (c : Char) : Prop := isSpace c = false ∧ isControl c = false

/-- Visible characters are no obstacle to a claim. -/
theorem fits_of_visible (h : ∀ c ∈ text, IsVisible c) :
    HasNoControl text ∧ AtEnd (fun c => !isSpace c) text.getLast? := by
  refine ⟨fun c hc => (h c hc).2, fun c hc => ?_⟩
  have hspace := (h c (List.mem_of_getLast? hc)).1
  simpa using hspace

/-- A character beyond the space and before the delete character is visible. -/
theorem isVisible_of_range {c : Char} (hlow : 0x20 < c.toNat) (hhigh : c.toNat < 0x7f) :
    IsVisible c := by
  constructor
  · simp only [isSpace, Bool.or_eq_false_iff, Bool.and_eq_false_iff, decide_eq_false_iff_not,
      beq_eq_false_iff_ne]
    omega
  · simp only [isControl, Bool.or_eq_false_iff, decide_eq_false_iff_not, beq_eq_false_iff_ne]
    omega

/-- Letters and digits of ASCII are visible. -/
theorem isVisible_of_isAsciiAlnum {c : Char} (hc : isAsciiAlnum c = true) : IsVisible c := by
  simp only [isAsciiAlnum, Bool.or_eq_true, Bool.and_eq_true, decide_eq_true_eq, Char.le_def,
    UInt32.le_iff_toNat_le] at hc
  have hA : ('A' : Char).val.toNat = 65 := rfl
  have hZ : ('Z' : Char).val.toNat = 90 := rfl
  have ha : ('a' : Char).val.toNat = 97 := rfl
  have hz : ('z' : Char).val.toNat = 122 := rfl
  have h0 : ('0' : Char).val.toNat = 48 := rfl
  have h9 : ('9' : Char).val.toNat = 57 := rfl
  have hval : c.val.toNat = c.toNat := rfl
  exact isVisible_of_range (by omega) (by omega)

/-- The characters of a label are visible. -/
theorem isVisible_of_isLabelChar {c : Char} (hc : isLabelChar c = true) : IsVisible c := by
  simp only [isLabelChar, Bool.or_eq_true, decide_eq_true_eq] at hc
  rcases hc with (((hc | rfl) | rfl) | rfl) | rfl
  · exact isVisible_of_isAsciiAlnum hc
  · exact ⟨by decide, by decide⟩
  · exact ⟨by decide, by decide⟩
  · exact ⟨by decide, by decide⟩
  · exact ⟨by decide, by decide⟩

/-- The characters of a slug are visible, and ASCII. -/
theorem IsSlugPart.isVisible {c : Char} (hc : IsSlugPart c) : IsVisible c ∧ c.toNat < 128 := by
  rcases hc with hc | rfl
  · have halnum : isAsciiAlnum c = true := by
      simp only [isSlugChar, isAsciiAlnum, Bool.or_eq_true] at hc ⊢
      tauto
    refine ⟨isVisible_of_isAsciiAlnum halnum, ?_⟩
    simp only [isSlugChar, Bool.or_eq_true, Bool.and_eq_true, decide_eq_true_eq, Char.le_def,
      UInt32.le_iff_toNat_le] at hc
    have hz : ('z' : Char).val.toNat = 122 := rfl
    have h9 : ('9' : Char).val.toNat = 57 := rfl
    have hval : c.val.toNat = c.toNat := rfl
    omega
  · exact ⟨⟨by decide, by decide⟩, by decide⟩

/-- The label of a handoff task has only characters of labels. -/
theorem isLabelChar_of_mem_handoffLabel {plain label : List Char}
    (h : handoffLabel plain = some label) {c : Char} (hc : c ∈ label) : isLabelChar c = true := by
  rw [handoffLabel.eq_def] at h
  split at h
  · dsimp only at h
    split_ifs at h
    obtain rfl := Option.some.inj h
    exact List.mem_takeWhile_imp hc
  · cases h

/-- When the texts that an ID is made of fit. -/
def TaskEntry.FitsClaim (tables : CharacterTables) : TaskEntry → Prop
  | .handoff _ title =>
      ∀ label ∈ handoffLabel (plainMarkdown title), (tables.casefold label).length ≤ 248
  | .qa _ cells => (cellOf qaHeaders cells "#").length ≤ 253
  | .linkage _ cells =>
      let className := stripText (cellOf linkageHeaders cells "class")
      let aspect := stripText (cellOf linkageHeaders cells "aspect")
      (tables.casefold className).length + (semanticSlug tables aspect).length ≤ 247 ∧
        HasNoControl className
  | .decomp _ cells =>
      let className := stripText (cellOf decompHeaders cells "class")
      (tables.casefold className).length ≤ 249 ∧ HasNoControl className
  | .catalog headers cells =>
      let fourcc := stripMarks (cellOf headers cells "FourCC")
      let className := stripMarks (cellOf headers cells "Class")
      (tables.casefold fourcc).length + (tables.casefold className).length ≤ 247 ∧
        HasNoControl fourcc ∧ HasNoControl className ∧
        AtEnd (fun c => !isSpace c) className.getLast?

/-- Two texts with a colon between them have the control characters of both. -/
theorem hasNoControl_join {front back : List Char} :
    HasNoControl (front ++ ':' :: back) ↔ HasNoControl front ∧ HasNoControl back := by
  rw [HasNoControl, List.forall_mem_append, List.forall_mem_cons]
  exact and_congr_right fun _ => and_iff_right (by decide)

/-- Two texts with a colon between them end as the second does. -/
theorem getLast?_join {front back : List Char} :
    AtEnd (fun c => !isSpace c) (front ++ ':' :: back).getLast? ↔
      AtEnd (fun c => !isSpace c) back.getLast? := by
  rw [List.getLast?_append_of_ne_nil _ (List.cons_ne_nil _ _)]
  rcases back.eq_nil_or_concat with rfl | ⟨back, c, rfl⟩
  · exact iff_of_true (by simp [AtEnd, isSpace]) fun c hc => absurd hc (Option.not_mem_none c)
  · rw [List.concat_eq_append, ← List.cons_append, List.getLast?_concat, List.getLast?_concat]

/-- A stripped text ends in no space. -/
theorem getLast?_stripText (text : List Char) :
    AtEnd (fun c => !isSpace c) (stripText text).getLast? := by
  intro c hc
  obtain ⟨hne, rfl⟩ := List.mem_getLast?_eq_getLast hc
  exact Bool.not_eq_true' _ |>.mpr <| Bool.not_eq_true _ |>.mp <|
    List.rdropWhile_last_not isSpace (text.dropWhile isSpace) hne

/-- A text of which each character is mapped to one keeps its length. -/
theorem length_flatMap_of_singletons {f : Char → List Char}
    (h : ∀ c ∈ text, (f c).length = 1) : (text.flatMap f).length = text.length := by
  induction text with
  | nil => rfl
  | cons c text ih =>
    rw [List.forall_mem_cons] at h
    rw [List.flatMap_cons, List.length_append, h.1, ih h.2, List.length_cons]
    omega

/-- The labels of the five kinds. -/
theorem isLabel_of_mem (label : String)
    (h : label ∈ ["handoff:", "qa:", "linkage:", "decomp:", "catalog:"]) :
    IsLabel label.toList := by
  have hlabels : ∀ label ∈ ["handoff:", "qa:", "linkage:", "decomp:", "catalog:"],
      (label.toList.head?.any fun c => !isSpace c) = true ∧
        (label.toList.getLast?.all fun c => !isSpace c) = true ∧
        (label.toList.all fun c => !isControl c) = true := by
    decide
  obtain ⟨hhead, hlast, hcontrol⟩ := hlabels label h
  refine ⟨?_, fun c hc => ?_, fun c hc => ?_⟩
  · obtain ⟨c, hc, hspace⟩ := (Option.any_eq_true _ _).mp hhead
    exact ⟨c, hc, by simpa using hspace⟩
  · rw [Option.mem_def.mp hc] at hlast
    exact hlast
  · have hc := List.all_eq_true.mp hcontrol c hc
    simpa using hc

/-- The ID of a list item. -/
theorem isTaskId_handoff_iff (hkinds : KeepsKinds tables) {start : List Char}
    (hlabel : IsLabel start) (hlength : start.length = 8) (plain : List Char) :
    isTaskId (String.ofList (start ++ tables.casefold (handoffSemantic tables plain))) = true ↔
      ∀ label ∈ handoffLabel plain, (tables.casefold label).length ≤ 248 := by
  rw [isTaskId_append_iff hlabel, hasNoControl_casefold hkinds, getLast?_casefold hkinds,
    hlength, handoffSemantic]
  cases hfound : handoffLabel plain with
  | none =>
    obtain ⟨-, hbound, hparts⟩ := semanticSlug_spec tables plain
    have hascii : ∀ c ∈ semanticSlug tables plain, (tables.fold.map c).length = 1 := by
      intro c hc
      rw [tables.fold.ascii c (hparts c hc).isVisible.2, List.length_singleton]
    have hfolded : (tables.casefold (semanticSlug tables plain)).length =
        (semanticSlug tables plain).length := length_flatMap_of_singletons hascii
    have hvisible := fits_of_visible fun c hc => (hparts c hc).isVisible.1
    rw [Option.getD_none, hfolded, and_iff_left hvisible]
    refine iff_of_true (by omega) fun label hmem => ?_
    cases hmem
  | some label =>
    have hvisible : ∀ c ∈ label, IsVisible c := fun c hc =>
      isVisible_of_isLabelChar (isLabelChar_of_mem_handoffLabel hfound hc)
    rw [Option.getD_some, and_iff_left (fits_of_visible hvisible)]
    constructor
    · intro hbound label' hmem
      obtain rfl := Option.some.inj hmem
      omega
    · intro hbound
      have hbound := hbound label rfl
      omega

/-- The ID of a row of the QA ledger. -/
theorem isTaskId_qa_iff (hkinds : KeepsKinds tables) {start number : List Char}
    (hlabel : IsLabel start) (hlength : start.length = 3)
    (hnumber : isDigits tables number = true) :
    isTaskId (String.ofList (start ++ number)) = true ↔ number.length ≤ 253 := by
  have hdigits := ((Bool.and_eq_true _ _).mp hnumber).2
  have hvisible : ∀ c ∈ number, IsVisible c := fun c hc =>
    hkinds.digit c (List.all_eq_true.mp hdigits c hc)
  rw [isTaskId_append_iff hlabel, hlength, and_iff_left (fits_of_visible hvisible)]
  omega

/-- The ID of a row of the linkage table. -/
theorem isTaskId_linkage_iff (hkinds : KeepsKinds tables) {start : List Char}
    (hlabel : IsLabel start) (hlength : start.length = 8) (className aspect : List Char) :
    isTaskId (String.ofList (start ++ tables.casefold className ++ ':' ::
        semanticSlug tables aspect)) = true ↔
      (tables.casefold className).length + (semanticSlug tables aspect).length ≤ 247 ∧
        HasNoControl className := by
  obtain ⟨-, -, hparts⟩ := semanticSlug_spec tables aspect
  obtain ⟨hcontrol, hlast⟩ := fits_of_visible fun c hc => (hparts c hc).isVisible.1
  rw [List.append_assoc, isTaskId_append_iff hlabel, hasNoControl_join, getLast?_join,
    hasNoControl_casefold hkinds, and_iff_left hcontrol, and_iff_left hlast, hlength,
    List.length_append, List.length_cons]
  refine and_congr_left fun _ => ?_
  omega

/-- The ID of a row of the decomp ledger. -/
theorem isTaskId_decomp_iff (hkinds : KeepsKinds tables) {start : List Char}
    (hlabel : IsLabel start) (hlength : start.length = 7) (value : List Char) :
    isTaskId (String.ofList (start ++ tables.casefold (stripText value))) = true ↔
      (tables.casefold (stripText value)).length ≤ 249 ∧ HasNoControl (stripText value) := by
  rw [isTaskId_append_iff hlabel, hasNoControl_casefold hkinds, getLast?_casefold hkinds,
    and_iff_left (getLast?_stripText _), hlength]
  refine and_congr_left fun _ => ?_
  omega

/-- The ID of a row of the catalog. -/
theorem isTaskId_catalog_iff (hkinds : KeepsKinds tables) {start : List Char}
    (hlabel : IsLabel start) (hlength : start.length = 8) (fourcc className : List Char) :
    isTaskId (String.ofList (start ++ tables.casefold fourcc ++ ':' ::
        tables.casefold className)) = true ↔
      (tables.casefold fourcc).length + (tables.casefold className).length ≤ 247 ∧
        HasNoControl fourcc ∧ HasNoControl className ∧
        AtEnd (fun c => !isSpace c) className.getLast? := by
  rw [List.append_assoc, isTaskId_append_iff hlabel, hasNoControl_join, getLast?_join,
    hasNoControl_casefold hkinds, hasNoControl_casefold hkinds, getLast?_casefold hkinds, hlength,
    List.length_append, List.length_cons, and_assoc]
  refine and_congr_left fun _ => ?_
  omega

/-- The ID of an entry passes the check if and only if its texts fit. -/
theorem isTaskId_taskId_iff (hkinds : KeepsKinds tables) {entry : TaskEntry}
    (hread : entry.Read tables) :
    isTaskId (String.ofList (entry.taskId tables)) = true ↔ entry.FitsClaim tables := by
  cases entry with
  | handoff status title =>
    exact isTaskId_handoff_iff hkinds (isLabel_of_mem "handoff:" (by simp)) (by decide) _
  | qa status cells =>
    exact isTaskId_qa_iff hkinds (isLabel_of_mem "qa:" (by simp)) (by decide) hread
  | linkage status cells =>
    exact isTaskId_linkage_iff hkinds (isLabel_of_mem "linkage:" (by simp)) (by decide) _ _
  | decomp status cells =>
    exact isTaskId_decomp_iff hkinds (isLabel_of_mem "decomp:" (by simp)) (by decide) _
  | catalog headers cells =>
    exact isTaskId_catalog_iff hkinds (isLabel_of_mem "catalog:" (by simp)) (by decide) _ _

/-! ## Claims of tasks -/

/-- A claim by a valid caller with a valid key and duration, whose expiry is a date, on a ledger
that has no active claim of the task. -/
structure FreeClaim (isPrintable : Char → Bool) (call : Call) (id owner key : String)
    (minutes : ℤ) (raw : List UInt8) (records : List Json) : Prop where
  request : call.request = .claim ⟨.str id, .int minutes, .str key, .str owner⟩
  caller : isOwner isPrintable owner = true
  validKey : isIdempotencyKey key = true
  duration : minClaimMinutes ≤ minutes ∧ minutes ≤ maxClaimMinutes
  claimId : isClaimId call.newClaimId = true
  expiry : ∃ expiry, call.now.addMinutes minutes.toNat = some expiry
  ledger : readLedger loadsLine raw = .ok records
  free : ∃ kept, ledgerClaims isPrintable records call.now = .ok kept ∧ kept.dlookup id = none

/-- A task can be claimed if every such claim of it succeeds. Its answer is returned whenever the
ledger has room for the record of the claim. -/
def Claimable (tasks : Tasks) (task : TaskRecord) : Prop :=
  ∀ isPrintable call owner key minutes raw records, call.tasks = tasks →
    FreeClaim isPrintable call task.id owner key minutes raw records →
    ∃ decision result, decideCall isPrintable call records = .ok decision ∧
      decision.value = .ok (.claimed result) ∧ result.task = task ∧
      ((auditLine decision.record).length ≤ maxAuditRecordBytes →
        raw.length + (auditLine decision.record).length ≤ maxTransactionBytes →
        serve isPrintable call raw = (.ok (.claimed result), raw ++ auditLine decision.record))

section Calls

variable {isPrintable : Char → Bool} {call : Call} {id owner key : String} {minutes : ℤ}
  {raw : List UInt8} {records : List Json}

/-- What passes the checks of the caller, the key and the duration. -/
theorem FreeClaim.checked (h : FreeClaim isPrintable call id owner key minutes raw records) :
    boundedIdentity isPrintable (.str owner) = .ok owner ∧
      idempotencyKey (.str key) = .ok key ∧ TaskClaims.duration (.int minutes) = .ok minutes := by
  refine ⟨?_, ?_, ?_⟩
  · rw [boundedIdentity, checkedStr]
    exact if_pos h.caller
  · rw [idempotencyKey, checkedKey, checkedStr]
    exact if_pos h.validKey
  · exact if_pos h.duration

/-- A claim with an ID that does not pass the check is refused for it. -/
theorem FreeClaim.refused (h : FreeClaim isPrintable call id owner key minutes raw records)
    (hid : isTaskId id = false) : ∃ record, decideCall isPrintable call records = .ok ⟨record,
      .error (badArgs "task_id must be an exact printable committed task ID")⟩ := by
  obtain ⟨hcaller, -, -⟩ := h.checked
  have htask : taskId (.str id) = .error (.collaboration
      (badArgs "task_id must be an exact printable committed task ID")) := by
    rw [taskId, checkedStr]
    exact if_neg (Bool.eq_false_iff.mp hid)
  have hbody : (claimBody isPrintable call.now call.tasks
      ⟨.str id, .int minutes, .str key, .str owner⟩ call.newClaimId records).run {} =
        .error (.collaboration (badArgs "task_id must be an exact printable committed task ID"))
          { validOwner := some owner } := by
    rw [claimBody, run_attempt_ok hcaller, run_assign, run_attempt_error htask]
  simp only [decideCall, h.request, claimDecide, hbody]
  exact ⟨_, rfl⟩

/-- A claim of a task of the index with an ID that passes the check is granted. -/
theorem FreeClaim.granted (h : FreeClaim isPrintable call id owner key minutes raw records)
    (hid : isTaskId id = true) {task : TaskRecord} (htask : call.tasks.getTask id = some task)
    (hopen : task.status ≠ .done) : ∃ record result, decideCall isPrintable call records =
      .ok ⟨record, .ok (.claimed result)⟩ ∧ result.task = task := by
  obtain ⟨hcaller, hkey, hduration⟩ := h.checked
  have hvalid : taskId (.str id) = .ok id := by
    rw [taskId, checkedStr]
    exact if_pos hid
  have hcheck : checkClaim isPrintable call.tasks
      ⟨.str id, .int minutes, .str key, .str owner⟩ = .ok ⟨owner, id, key, minutes, task⟩ := by
    simp only [checkClaim, bind, Except.bind, hcaller, hvalid, hkey, hduration, htask,
      if_neg hopen]
  obtain ⟨kept, hkept, hfree⟩ := h.free
  obtain ⟨expiry, hexpiry⟩ := h.expiry
  exact ⟨_, _, claim_granted h.request hcheck hkept hfree h.claimId hexpiry, rfl⟩

/-- A claim of any task on an empty ledger. -/
theorem freeClaim_nil (tasks : Tasks) (id : String) :
    FreeClaim asciiPrintable
      ⟨.claim ⟨.str id, .int 120, .str "session-1", .str "github:alice"⟩, minute 0,
        "AAAAAAAAAAAAAAAAAAAAAAAA", tasks⟩ id "github:alice" "session-1" 120 [] [] where
  request := rfl
  caller := by decide
  validKey := by decide
  duration := by decide
  claimId := show isClaimId "AAAAAAAAAAAAAAAAAAAAAAAA" = true by decide
  expiry := ⟨minute 120, show (minute 0).addMinutes 120 = some (minute 120) by decide⟩
  ledger := rfl
  free := ⟨[], rfl, rfl⟩

/-- A task with an ID that does not pass the check cannot be claimed. -/
theorem not_claimable {tasks : Tasks} {task : TaskRecord} (hid : isTaskId task.id = false) :
    ¬ Claimable tasks task := by
  intro hclaimable
  have hfree := freeClaim_nil tasks task.id
  obtain ⟨record, hrefused⟩ := hfree.refused hid
  obtain ⟨decision, result, hdecided, hvalue, -⟩ := hclaimable _ _ _ _ _ _ _ rfl hfree
  rw [hrefused] at hdecided
  obtain rfl := Except.ok.inj hdecided
  cases hvalue

/-- A task of an index that is not done can be claimed if and only if its ID passes the check. -/
theorem claimable_iff {tasks : Tasks} {task : TaskRecord}
    (htask : tasks.getTask task.id = some task) (hopen : task.status ≠ .done) :
    Claimable tasks task ↔ isTaskId task.id = true := by
  constructor
  · intro hclaimable
    by_contra hid
    rw [Bool.not_eq_true] at hid
    exact not_claimable hid hclaimable
  · rintro hid isPrintable call owner key minutes raw records rfl hfree
    obtain ⟨record, result, hdecided, hresult⟩ := hfree.granted hid htask hopen
    exact ⟨_, result, hdecided, rfl, hresult, fun hshort hsize =>
      serve_append hfree.ledger hdecided hshort hsize⟩

end Calls

/-! ## Listed tasks -/

/-- The index finds each of its tasks by its ID. -/
theorem getTask_of_mem {commit : List Char} {index : TaskIndex tables commit}
    {task : BuiltTask tables commit} (htask : task ∈ index.tasks) :
    index.toTasks.getTask task.record.id = some task.record := by
  have hfound : index.tasks.find? (fun other => other.record.id = task.record.id) = some task := by
    have hpairwise := List.pairwise_map.mp index.distinct
    obtain ⟨front, back, hsplit⟩ := List.append_of_mem htask
    rw [List.find?_eq_some_iff_append]
    refine ⟨decide_eq_true rfl, front, back, hsplit, fun other hother => ?_⟩
    rw [hsplit, List.pairwise_append] at hpairwise
    have hne := hpairwise.2.2 other hother task (List.mem_cons_self ..)
    rw [Bool.not_eq_true', decide_eq_false_iff_not]
    exact hne
  change (index.tasks.find? _).map BuiltTask.record = _
  rw [hfound]
  rfl

/-- The tasks that are listed are tasks of the index. -/
theorem exists_of_mem_listTasks {commit : List Char} {index : TaskIndex tables commit}
    {status source : String} {limit : ℤ} {list : TaskList}
    (h : index.listTasks status source limit = .ok list) {record : TaskRecord}
    (hrecord : record ∈ list.tasks) : ∃ task ∈ index.tasks, task.record = record := by
  rw [TaskIndex.listTasks] at h
  split at h
  · split at h
    · cases h
    · obtain rfl := Except.ok.inj h
      have hmem := List.mem_of_mem_filter (List.mem_of_mem_take hrecord)
      exact List.mem_map.mp hmem
  · cases h

/-- A task that is listed as open or blocked has an ID that passes the check, and can be claimed,
if and only if the texts that its ID is made of fit. -/
theorem listed_claimable_iff (hkinds : KeepsKinds tables) {snapshot : Snapshot}
    {index : TaskIndex tables snapshot.commit} (hindex : taskIndex tables snapshot = .ok index)
    {status source : String} {limit : ℤ} {list : TaskList}
    (hlist : index.listTasks status source limit = .ok list) {record : TaskRecord}
    (hrecord : record ∈ list.tasks) (hopen : record.status ≠ .done) :
    ∃ task ∈ index.tasks, task.record = record ∧
      (isTaskId record.id = true ↔ task.entry.FitsClaim tables) ∧
      (Claimable index.toTasks record ↔ task.entry.FitsClaim tables) := by
  obtain ⟨task, htask, rfl⟩ := exists_of_mem_listTasks hlist hrecord
  obtain ⟨text, -, hread⟩ := readFrom_of_mem_taskIndex hindex htask
  have hfits : isTaskId task.record.id = true ↔ task.entry.FitsClaim tables := by
    rw [(TaskEntry.records task.built).id]
    exact isTaskId_taskId_iff hkinds hread.read
  refine ⟨task, htask, rfl, hfits, ?_⟩
  rw [claimable_iff (getTask_of_mem htask) hopen, hfits]

/-! ## A list item with a long label -/

/-- The tables for ASCII letters keep the kinds of characters. -/
theorem keepsKinds_asciiTables : KeepsKinds asciiTables := by
  have hletter : ∀ c : Char, 65 ≤ c.toNat ∧ c.toNat ≤ 90 ∧ IsVisible c.toLower ∨
      c.toLower = c := by
    intro c
    refine (toLower_cases c).imp_left fun ⟨⟨hlow, hhigh⟩, hlower⟩ => ?_
    have hlow : 65 ≤ c.toNat := hlow
    have hhigh : c.toNat ≤ 90 := hhigh
    have hval : c.toLower.toNat = c.toNat + 32 := by
      have hadd := congrArg UInt32.toNat hlower
      rw [UInt32.toNat_add] at hadd
      have hmod : (c.val.toNat + 32) % 2 ^ 32 = c.val.toNat + 32 :=
        Nat.mod_eq_of_lt (by change c.toNat + 32 < _; omega)
      exact hadd.trans hmod
    exact ⟨hlow, hhigh, isVisible_of_range (by omega) (by omega)⟩
  refine ⟨fun c hc => ?_, fun c hc d hd => ?_, fun c hc d hd => ?_, fun c hc => ?_⟩
  · rcases hletter c with ⟨hlow, hhigh, -⟩ | hsame
    · have hvisible := (isVisible_of_range (c := c) (by omega) (by omega)).1
      rw [hc] at hvisible
      cases hvisible
    · exact congrArg (fun d => [d]) hsame
  · obtain rfl := List.mem_singleton.mp hd
    rcases hletter c with ⟨-, -, hvisible⟩ | hsame
    · exact hvisible.1
    · rwa [hsame]
  · obtain rfl := List.mem_singleton.mp hd
    rcases hletter c with ⟨-, -, hvisible⟩ | hsame
    · exact hvisible.2
    · rwa [hsame]
  · refine isVisible_of_isAsciiAlnum ?_
    have hdigit : c.isDigit = true := hc
    simp only [Char.isDigit, Bool.and_eq_true, decide_eq_true_eq] at hdigit
    simp only [isAsciiAlnum, Bool.or_eq_true, Bool.and_eq_true, decide_eq_true_eq]
    exact .inr hdigit

/-- A list of all tasks has every task, if they are not too many. -/
theorem exists_listTasks {commit : List Char} {index : TaskIndex tables commit}
    (hlength : index.tasks.length ≤ 100) : ∃ list, index.listTasks "all" "all" 100 = .ok list ∧
      ∀ task ∈ index.tasks, task.record ∈ list.tasks := by
  refine ⟨_, rfl, fun task htask => ?_⟩
  have hrecord : task.record ∈ index.tasks.map BuiltTask.record := List.mem_map_of_mem htask
  have hall : (index.tasks.map BuiltTask.record).filter (fun _ => true) =
      index.tasks.map BuiltTask.record := List.filter_true _
  change task.record ∈ List.take 100 ((index.tasks.map BuiltTask.record).filter fun _ => true)
  rwa [hall, List.take_of_length_le (by rwa [List.length_map])]

/-- A snapshot whose handoff has a label of 250 letters, and whose decomp ledger has a class. -/
theorem exists_long_label : ∃ snapshot index sources symbols list,
    validateSnapshot (List.map Char.toLower) (fun _ => []) (sourceManifest 852) false false
      (sourceDisk ("## Live options\n- (".toList ++ List.replicate 250 'a' ++ ") x\n".toList)
        "Ant,,,,,,,todo,,,\n".toList).toTree = .ok snapshot ∧
    taskIndex asciiTables snapshot = .ok index ∧
    Symbols.symbolSources asciiTables snapshot = .ok sources ∧
    sources.index snapshot = .ok symbols ∧
    index.listTasks "all" "all" 100 = .ok list ∧
    (∃ record ∈ list.tasks, record.status = .open ∧ isTaskId record.id = true) ∧
    ∃ record ∈ list.tasks, record.status = .open ∧ isTaskId record.id = false := by
  have hinspect : ((validateSnapshot (List.map Char.toLower) (fun _ => []) (sourceManifest 852)
      false false (sourceDisk
        ("## Live options\n- (".toList ++ List.replicate 250 'a' ++ ") x\n".toList)
        "Ant,,,,,,,todo,,,\n".toList).toTree).map fun snapshot =>
      inspectIndexes snapshot
        (fun tasks => tasks.length ≤ 100 ∧
          (tasks.any fun task => task.record.status = .open && isTaskId task.record.id) = true ∧
          (tasks.any fun task => task.record.status = .open && !isTaskId task.record.id) = true)
        fun _ => true) = .ok (.ok true) := by
    decide +kernel
  obtain ⟨snapshot, haccepted, hinspect⟩ := map_eq_ok.mp hinspect
  obtain ⟨index, sources, symbols, hindex, hsources, hsymbols, htasks, -⟩ :=
    inspectIndexes_eq_ok hinspect
  obtain ⟨hlength, hfits, hlong⟩ := of_decide_eq_true htasks
  obtain ⟨list, hlist, hlisted⟩ := exists_listTasks hlength
  obtain ⟨task, htask, hfits⟩ := List.any_eq_true.mp hfits
  obtain ⟨long, hmem, hlong⟩ := List.any_eq_true.mp hlong
  simp only [Bool.and_eq_true, decide_eq_true_eq, Bool.not_eq_true'] at hfits hlong
  exact ⟨snapshot, index, sources, symbols, list, haccepted, hindex, hsources, hsymbols, hlist,
    ⟨task.record, hlisted task htask, hfits⟩, long.record, hlisted long hmem, hlong⟩

/-- The class of the ledger is listed and can be claimed. -/
theorem short_id_claimable : ∃ snapshot index list,
    taskIndex asciiTables snapshot = .ok index ∧ index.listTasks "all" "all" 100 = .ok list ∧
    ∃ record ∈ list.tasks, record.status ≠ .done ∧ Claimable index.toTasks record := by
  obtain ⟨snapshot, index, -, -, list, -, hindex, -, -, hlist, hshort, -⟩ := exists_long_label
  obtain ⟨record, hrecord, hopen, hid⟩ := hshort
  have hdone : record.status ≠ .done := by
    rw [hopen]
    decide
  obtain ⟨task, -, -, hvalid, hclaimable⟩ :=
    listed_claimable_iff keepsKinds_asciiTables hindex hlist hrecord hdone
  exact ⟨snapshot, index, list, hindex, hlist, record, hrecord, hdone,
    hclaimable.mpr (hvalid.mp hid)⟩

/-- The item with the long label is listed as open, and a claim of it on the empty ledger is
refused for its ID. -/
theorem long_label_unclaimable : ∃ snapshot index sources symbols list record,
    validateSnapshot (List.map Char.toLower) (fun _ => []) (sourceManifest 852) false false
      (sourceDisk ("## Live options\n- (".toList ++ List.replicate 250 'a' ++ ") x\n".toList)
        "Ant,,,,,,,todo,,,\n".toList).toTree = .ok snapshot ∧
    taskIndex asciiTables snapshot = .ok index ∧
    Symbols.symbolSources asciiTables snapshot = .ok sources ∧
    sources.index snapshot = .ok symbols ∧
    index.listTasks "all" "all" 100 = .ok list ∧ record ∈ list.tasks ∧
    record.status = .open ∧ isTaskId record.id = false ∧ ¬ Claimable index.toTasks record ∧
    ∃ call owner key minutes, call.tasks = index.toTasks ∧
      FreeClaim asciiPrintable call record.id owner key minutes [] [] ∧
      ∃ line, decideCall asciiPrintable call [] = .ok ⟨line,
        .error (badArgs "task_id must be an exact printable committed task ID")⟩ := by
  obtain ⟨snapshot, index, sources, symbols, list, haccepted, hindex, hsources, hsymbols, hlist,
    -, record, hrecord, hopen, hid⟩ := exists_long_label
  have hfree := freeClaim_nil index.toTasks record.id
  exact ⟨snapshot, index, sources, symbols, list, record, haccepted, hindex, hsources, hsymbols,
    hlist, hrecord, hopen, hid, not_claimable hid, _, _, _, _, rfl, hfree, hfree.refused hid⟩

end ContributorGateway.CommittedTasks
