import ContributorGateway.Core.FourccQuarantine
import ContributorGateway.Foundation.RankedLists
import ContributorGateway.Foundation.Results

/-!
# Lookups in the symbol index

A lookup gives the first of the records that match all of its axes, in the order of their ranks.
How the letters of an axis are cased, what surrounds it and how an address is tagged do not matter.
-/

namespace ContributorGateway.Symbols

open Std (TransCmp OrientedCmp)

variable {fold : CasefoldTable} {index : SymbolIndex} {query query' : SymbolQuery}
  {name address className fourcc : Option String} {limit : ℤ} {found : SymbolLookup}

/-! ## The order of matches -/

/-- The comparison of two matches, as a lexicographic comparison of their keys. -/
def matchOrder (fold : CasefoldTable) (query : SymbolQuery) :
    SymbolRecord → SymbolRecord → Ordering :=
  compareLex (compareOn fun r => matchRank fold (some r.name) query.name) <|
  compareLex (compareOn fun r => matchRank fold r.className query.className) <|
  compareLex (compareOn fun r => matchRank fold r.fourcc query.fourcc) <|
  compareLex (compareOn fun r => r.kind.value) <|
  compareLex (compareOn fun r => r.source.path) <|
  compareLex (compareOn fun r => r.source.line.getD 0) <|
  compareLex (compareOn fun r => r.address.getD "") (compareOn fun r => fold.casefold r.name)

instance (fold : CasefoldTable) (query : SymbolQuery) : TransCmp (matchOrder fold query) := by
  unfold matchOrder
  infer_instance

/-- The two comparisons agree. -/
theorem compareMatches_eq (fold : CasefoldTable) (query : SymbolQuery) :
    compareMatches fold query = matchOrder fold query := by
  funext a b
  simp only [compareMatches, matchOrder, compareLex, compareOn]

/-- A match comes before another one, or is ranked like it. -/
def Precedes (fold : CasefoldTable) (query : SymbolQuery) (a b : SymbolRecord) : Prop :=
  (compareMatches fold query a b).isLE = true

/-- Of two matches one comes first. -/
theorem precedes_total (a b : SymbolRecord) :
    Precedes fold query a b ∨ Precedes fold query b a := by
  unfold Precedes
  rw [compareMatches_eq]
  by_cases h : (matchOrder fold query a b).isLE = true
  · exact Or.inl h
  · have hlt := OrientedCmp.lt_of_not_isLE h
    rw [hlt]
    exact Or.inr rfl

/-- The order of matches is transitive. -/
theorem Precedes.trans {a b c : SymbolRecord} (hab : Precedes fold query a b)
    (hbc : Precedes fold query b c) : Precedes fold query a c := by
  unfold Precedes at hab hbc ⊢
  rw [compareMatches_eq] at hab hbc ⊢
  exact TransCmp.isLE_trans hab hbc

/-! ## What is found -/

/-- The records that match a query, in their order. -/
def SymbolIndex.ranked (index : SymbolIndex) (fold : CasefoldTable) (query : SymbolQuery) :
    List SymbolRecord :=
  (index.records.filter (matchesQuery fold query)).insertionSort fun a b =>
    (compareMatches fold query a b).isLE = true

/-- A lookup gives the first ranked records for the normalized axes. -/
theorem lookup_eq_take (h : index.lookup fold name address className fourcc limit = .ok found) :
    found.query.name = name.map strip ∧ address.mapM normalizeAddress = .ok found.query.address ∧
      found.query.className = className.map strip ∧ found.query.fourcc = fourcc ∧
      1 ≤ limit ∧ limit ≤ maxSymbolLimit ∧ found.count = found.results.length ∧
      found.results = (index.ranked fold found.query).take limit.toNat := by
  rw [SymbolIndex.lookup] at h
  split_ifs at h with _ _ _ _ hlimit
  all_goals obtain ⟨normalized, haddress, h⟩ := bind_eq_ok.mp h
  · cases h
  · split_ifs at h
  · split_ifs at h
    obtain rfl := Except.ok.inj h
    rw [not_or, not_lt, not_lt] at hlimit
    exact ⟨rfl, haddress, rfl, rfl, hlimit.1, hlimit.2, rfl, rfl⟩

/-- The ranked records are those that match. -/
theorem mem_ranked {record : SymbolRecord} : record ∈ index.ranked fold query ↔
    record ∈ index.records ∧ matchesQuery fold query record = true := by
  rw [SymbolIndex.ranked, List.mem_insertionSort, List.mem_filter]

/-- The ranked records are in the order of matches. -/
theorem pairwise_ranked : (index.ranked fold query).Pairwise (Precedes fold query) := by
  have htotal : Std.Total fun a b : SymbolRecord => (compareMatches fold query a b).isLE = true :=
    ⟨precedes_total⟩
  have htrans : IsTrans SymbolRecord fun a b => (compareMatches fold query a b).isLE = true :=
    ⟨fun _ _ _ => Precedes.trans⟩
  exact List.pairwise_insertionSort
    (fun a b : SymbolRecord => (compareMatches fold query a b).isLE = true) _

/-! ## Spellings -/

/-- Two queries differ in the case of letters alone. -/
structure Alike (fold : CasefoldTable) (query query' : SymbolQuery) : Prop where
  name : query.name.map fold.casefold = query'.name.map fold.casefold
  address : query.address = query'.address
  className : query.className.map fold.casefold = query'.className.map fold.casefold
  fourcc : query.fourcc.map fold.casefold = query'.fourcc.map fold.casefold

/-- A condition on the folded text of an axis holds of the other spelling. -/
theorem all_congr {axis axis' : Option String} {p : String → Bool}
    (h : axis.map fold.casefold = axis'.map fold.casefold) :
    (axis.all fun text => p (fold.casefold text)) =
      axis'.all fun text => p (fold.casefold text) := by
  have hall (axis : Option String) : (axis.all fun text => p (fold.casefold text)) =
      (axis.map fold.casefold).all p := by
    cases axis <;> rfl
  rw [hall, hall, h]

/-- The rank of a value depends on the folded text of the axis. -/
theorem matchRank_congr {axis axis' : Option String} (value : Option String)
    (h : axis.map fold.casefold = axis'.map fold.casefold) :
    matchRank fold value axis = matchRank fold value axis' := by
  cases axis with
  | none =>
    cases axis' with
    | none => rfl
    | some text' => cases h
  | some text =>
    cases axis' with
    | none => cases h
    | some text' =>
      have htext : fold.casefold text = fold.casefold text' := Option.some.inj h
      rw [matchRank, matchRank, htext]

/-- Addresses that are normalized alike are looked up alike. -/
theorem address_congr {address' normalized normalized' : Option String}
    (h' : address'.mapM normalizeAddress = .ok normalized')
    (h : address.mapM normalizeAddress = .ok normalized)
    (hsame : address'.map normalizeAddress = address.map normalizeAddress) :
    normalized' = normalized := by
  cases address with
  | none =>
    cases address' with
    | none =>
      apply Except.ok.inj
      exact h'.symm.trans h
    | some raw' => cases hsame
  | some raw =>
    cases address' with
    | none => cases hsame
    | some raw' =>
      have hraw : normalizeAddress raw' = normalizeAddress raw := Option.some.inj hsame
      apply Except.ok.inj
      rw [← h', ← h]
      simp only [Option.mapM_some, hraw]

/-- Alike queries match the same records. -/
theorem Alike.matchesQuery_eq (h : Alike fold query query') :
    matchesQuery fold query = matchesQuery fold query' := by
  funext record
  have hname := all_congr (p := fun text => contains (fold.casefold record.name) text) h.name
  have hclass := all_congr
    (p := fun text => contains (fold.casefold (record.className.getD "")) text) h.className
  have hfourcc := all_congr
    (p := fun text => text == fold.casefold (record.fourcc.getD "")) h.fourcc
  rw [matchesQuery, matchesQuery, hname, hclass, hfourcc, h.address]

/-- Alike queries rank the same records alike. -/
theorem Alike.ranked_eq (h : Alike fold query query') :
    index.ranked fold query = index.ranked fold query' := by
  have hcompare (a b : SymbolRecord) :
      compareMatches fold query a b = compareMatches fold query' a b := by
    simp only [compareMatches, matchRank_congr _ h.name, matchRank_congr _ h.className,
      matchRank_congr _ h.fourcc]
  simp only [SymbolIndex.ranked, h.matchesQuery_eq, hcompare]

/-- What a lookup gives: at most as many records as asked for, each of them in the index and
matching every axis, in the order of matches; a matching record is left out only when the answer
is full and everything in it comes first; and the axes in other letter cases, surrounded by other
spaces and with the address tagged otherwise give the same records, of which a smaller limit
gives the first. -/
theorem lookup_spec (h : index.lookup fold name address className fourcc limit = .ok found) :
    found.count = found.results.length ∧ found.results.length ≤ limit.toNat ∧
    (∀ record ∈ found.results,
      record ∈ index.records ∧ matchesQuery fold found.query record = true) ∧
    found.results.Pairwise (Precedes fold found.query) ∧
    (∀ record ∈ index.records, matchesQuery fold found.query record = true →
      record ∈ found.results ∨ found.results.length = limit.toNat ∧
        ∀ other ∈ found.results, Precedes fold found.query other record) ∧
    ∀ name' address' className' fourcc' limit' found',
      index.lookup fold name' address' className' fourcc' limit' = .ok found' →
      name'.map (fold.casefold ∘ strip) = name.map (fold.casefold ∘ strip) →
      address'.map normalizeAddress = address.map normalizeAddress →
      className'.map (fold.casefold ∘ strip) = className.map (fold.casefold ∘ strip) →
      fourcc'.map fold.casefold = fourcc.map fold.casefold → limit' ≤ limit →
      found'.results = found.results.take limit'.toNat := by
  obtain ⟨hname, haddress, hclass, hfourcc, -, -, hcount, hresults⟩ := lookup_eq_take h
  refine ⟨hcount, ?_, ?_, ?_, ?_, ?_⟩
  · rw [hresults, List.length_take]
    omega
  · intro record hrecord
    rw [hresults] at hrecord
    apply mem_ranked.mp
    exact List.mem_of_mem_take hrecord
  · rw [hresults]
    apply List.Pairwise.sublist (List.take_sublist _ _)
    exact pairwise_ranked
  · intro record hrecord hmatches
    rw [hresults]
    apply mem_take_or pairwise_ranked
    exact mem_ranked.mpr ⟨hrecord, hmatches⟩
  · intro name' address' className' fourcc' limit' found' h' hname' haddress' hclass' hfourcc' hle
    obtain ⟨hn, ha, hc, hf, -, -, -, hresults'⟩ := lookup_eq_take h'
    have halike : Alike fold found'.query found.query := by
      constructor
      · rw [hn, hname, Option.map_map, Option.map_map, hname']
      · exact address_congr ha haddress haddress'
      · rw [hc, hclass, Option.map_map, Option.map_map, hclass']
      · rw [hf, hfourcc, hfourcc']
    rw [hresults', hresults, halike.ranked_eq, List.take_take]
    congr 1
    omega

/-- Both classes are found by the start of their names in small letters, the first of them alone
by the same letters in capitals. -/
theorem lookup_spec_sparrow : ∃ index found, sparrowTables.symbolIndex = .ok index ∧
    index.lookup asciiCasefold (some " c3d ") none none none 20 = .ok found ∧
    found.results.length ≤ 20 ∧ found.results.Pairwise (Precedes asciiCasefold found.query) ∧
    ∀ found', index.lookup asciiCasefold (some "C3D") none none none 1 = .ok found' →
      found'.results = found.results.take 1 := by
  have hok : (sparrowTables.symbolIndex.bind fun index =>
      index.lookup asciiCasefold (some " c3d ") none none none 20).isOk = true := by
    decide +kernel
  obtain ⟨found, hfound⟩ := exists_of_isOk hok
  obtain ⟨index, hindex, hlookup⟩ := bind_eq_ok.mp hfound
  obtain ⟨-, hlimit, -, hordered, -, hspelled⟩ := lookup_spec hlookup
  refine ⟨index, found, hindex, hlookup, hlimit, hordered, fun found' hfound' => ?_⟩
  have hname : (some "C3D").map (asciiCasefold.casefold ∘ strip) =
      (some " c3d ").map (asciiCasefold.casefold ∘ strip) := by decide +kernel
  exact hspelled _ _ _ _ _ found' hfound' hname rfl rfl rfl (by omega)

end ContributorGateway.Symbols
