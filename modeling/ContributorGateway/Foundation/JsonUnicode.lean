import ContributorGateway.Foundation.JsonRoundTrip

/-!
# JSON texts with raw Unicode

A serializer that writes every character of a string as it is, except the quote, the
backslash and the characters below the space. The reader reads its texts back, too.
-/

namespace ContributorGateway.Json

/-! ## Writing -/

/-- A character, escaped if it must be. -/
def escapeRaw (c : Char) : List Char :=
  if c = '"' ∨ c = '\\' ∨ c.toNat < 0x20 then escapeChar c else [c]

/-- A quoted string literal. -/
def writeStr (s : String) : List Char := '"' :: (s.toList.flatMap escapeRaw ++ ['"'])

mutual
/-- A value on one line, with the members of objects in their order. -/
def write : Json → List Char
  | .null => ['n', 'u', 'l', 'l']
  | .bool true => ['t', 'r', 'u', 'e']
  | .bool false => ['f', 'a', 'l', 's', 'e']
  | .int n => dumpsInt n
  | .float text => text.toList
  | .str s => writeStr s
  | .arr items => '[' :: (joinComma (writeItems items) ++ [']'])
  | .obj members => '{' :: (joinComma (writeMembers members) ++ ['}'])

/-- The texts of the elements of an array. -/
def writeItems : List Json → List (List Char)
  | [] => []
  | v :: rest => write v :: writeItems rest

/-- The texts of the members of an object. -/
def writeMembers : List (String × Json) → List (List Char)
  | [] => []
  | (k, v) :: rest => (writeStr k ++ ':' :: write v) :: writeMembers rest
end

/-- One member of an object. -/
def writeMember (m : String × Json) : List Char := writeStr m.1 ++ ':' :: write m.2

@[simp] theorem writeItems_eq_map (items : List Json) : writeItems items = items.map write := by
  induction items with
  | nil => rfl
  | cons v rest ih => simp [writeItems, ih]

@[simp] theorem writeMembers_eq_map (members : List (String × Json)) :
    writeMembers members = members.map writeMember := by
  induction members with
  | nil => rfl
  | cons m rest ih => simp [writeMembers, writeMember, ih]

/-! ## Reading back -/

/-- An escaped or raw character is read back as its code point. -/
theorem parseUnits_escapeRaw (c : Char) (rest : List Char) :
    parseUnits (escapeRaw c ++ rest) = (parseUnits rest).map fun p => (c.toNat :: p.1, p.2) := by
  rw [escapeRaw]
  split_ifs with hescaped
  · have hunits : codeUnits c = [c.toNat] := by
      have hsmall : c.toNat < 0x10000 := by
        rcases hescaped with rfl | rfl | hcontrol
        · decide
        · decide
        · omega
      rw [codeUnits, if_pos hsmall]
    rw [parseUnits_escapeChar, hunits]
    rfl
  · simp only [not_or, not_lt] at hescaped
    exact parseUnits_cons hescaped.1 hescaped.2.1 hescaped.2.2 rest

/-- The code points of a text spell the text. -/
theorem joinUnits_toNat (chars : List Char) : joinUnits (chars.map Char.toNat) = some chars := by
  induction chars with
  | nil => rfl
  | cons c chars ih =>
    have hc := toNat_valid c
    rw [List.map_cons, joinUnits_cons (by omega) hc, ih]
    simp

/-- A string literal is read back. -/
theorem parseString_writeStr (s : String) (rest : List Char) :
    parseString (s.toList.flatMap escapeRaw ++ '"' :: rest) = some (s, rest) := by
  have hunits (chars : List Char) :
      parseUnits (chars.flatMap escapeRaw ++ '"' :: rest) = some (chars.map Char.toNat, rest) := by
    induction chars with
    | nil => simp [parseUnits]
    | cons c chars ih =>
      rw [List.flatMap_cons, List.append_assoc, parseUnits_escapeRaw, ih]
      simp
  simp [parseString, hunits, joinUnits_toNat]

/-- The text of `v` is read back in front of any delimiter, given fuel for its length. -/
def ReadsBackRaw (v : Json) : Prop :=
  ∀ (fuel : ℕ) (rest : List Char), (write v).length ≤ fuel → Delimited rest →
    parseValue (fuel + 1) (write v ++ rest) = some (v, rest)

/-- The first character of a value is neither whitespace nor a closing bracket. -/
theorem write_head {v : Json} (hv : Plain v) :
    ∃ c text, write v = c :: text ∧ c ≠ ']' ∧ ∀ tail, skipSpace (c :: tail) = c :: tail := by
  cases v with
  | null => exact ⟨_, _, rfl, by decide, fun _ => rfl⟩
  | bool b => cases b <;> exact ⟨_, _, rfl, by decide, fun _ => rfl⟩
  | int n => exact dumps_head (v := .int n) trivial
  | float text => exact absurd hv id
  | str s => exact ⟨_, _, rfl, by decide, fun _ => rfl⟩
  | arr items => exact ⟨_, _, rfl, by decide, fun _ => rfl⟩
  | obj members => exact ⟨_, _, rfl, by decide, fun _ => rfl⟩

/-- The elements of a nonempty array are read back. -/
theorem parseItems_write {items : List Json} (hne : items ≠ [])
    (hitems : ∀ v ∈ items, ReadsBackRaw v) (fuel : ℕ) (rest : List Char)
    (hfuel : (joinComma (items.map write)).length ≤ fuel) :
    parseItems (fuel + 2) (joinComma (items.map write) ++ ']' :: rest) = some (items, rest) := by
  induction items generalizing fuel with
  | nil => exact absurd rfl hne
  | cons v items ih =>
    have hv := hitems v (by simp)
    cases items with
    | nil => exact parseItems_close rfl (hv fuel (']' :: rest) hfuel (by simp [Delimited]))
    | cons w items =>
      simp only [List.map_cons, joinComma, List.length_append, List.length_cons] at hfuel
      obtain ⟨fuel, rfl⟩ : ∃ k, fuel = k + 1 := ⟨fuel - 1, by omega⟩
      have hread := hv (fuel + 1) (',' :: (joinComma ((w :: items).map write) ++ ']' :: rest))
        (by omega) (by simp [Delimited])
      have htail := ih (by simp) (fun u hu => hitems u (by simp [hu])) fuel
        (by simp only [List.map_cons]; omega)
      rw [List.map_cons, List.map_cons, joinComma, List.append_assoc, List.cons_append,
        ← List.map_cons, parseItems_comma hread, htail]
      rfl

/-- The members of a nonempty object are read back. -/
theorem parseMembers_write {members : List (String × Json)} (hne : members ≠ [])
    (hmembers : ∀ m ∈ members, ReadsBackRaw m.2) (fuel : ℕ) (rest : List Char)
    (hfuel : (joinComma (members.map writeMember)).length ≤ fuel) :
    parseMembers (fuel + 2) (joinComma (members.map writeMember) ++ '}' :: rest) =
      some (members, rest) := by
  induction members generalizing fuel with
  | nil => exact absurd rfl hne
  | cons m members ih =>
    have hm := hmembers m (by simp)
    have hlength : (write m.2).length ≤ (writeMember m).length := by
      simp only [writeMember, List.length_append, List.length_cons]
      omega
    have hsplit : ∀ tail, writeMember m ++ tail =
        '"' :: (m.1.toList.flatMap escapeRaw ++ '"' :: ':' :: (write m.2 ++ tail)) := by
      intro tail
      simp [writeMember, writeStr]
    cases members with
    | nil =>
      have hshort : (writeMember m).length ≤ fuel := hfuel
      have hread := hm fuel ('}' :: rest) (by omega) (by simp [Delimited])
      rw [List.map_singleton, joinComma, hsplit]
      exact parseMembers_quoted_close (parseString_writeStr m.1) rfl hread
    | cons m' members =>
      simp only [List.map_cons, joinComma, List.length_append, List.length_cons] at hfuel
      obtain ⟨fuel, rfl⟩ : ∃ k, fuel = k + 1 := ⟨fuel - 1, by omega⟩
      have hread := hm (fuel + 1)
        (',' :: (joinComma ((m' :: members).map writeMember) ++ '}' :: rest)) (by omega)
        (by simp [Delimited])
      have htail := ih (by simp) (fun u hu => hmembers u (by simp [hu])) fuel
        (by simp only [List.map_cons]; omega)
      rw [List.map_cons, List.map_cons, joinComma, List.append_assoc, List.cons_append, hsplit,
        ← List.map_cons, parseMembers_quoted_comma (parseString_writeStr m.1) hread, htail]
      rfl

/-- Every plain value is read back in front of any delimiter. -/
theorem readsBackRaw (v : Json) (hv : Plain v) : ReadsBackRaw v := by
  induction v using Json.induct with
  | null => intro fuel rest _ _; rfl
  | bool b => intro fuel rest _ _; cases b <;> rfl
  | int n => intro fuel rest _ hrest; exact parseValue_dumpsInt n fuel hrest.ended
  | float text => exact absurd hv id
  | str s =>
    intro fuel rest _ _
    have hspace (text : List Char) : skipSpace ('"' :: text) = '"' :: text := rfl
    simp only [write, writeStr, List.cons_append, List.append_assoc, List.nil_append, parseValue,
      hspace, parseString_writeStr, Option.map_some]
  | arr items ih =>
    intro fuel rest hfuel _
    have hplain : ∀ v ∈ items, Plain v := (plainItems_iff items).mp hv
    rw [write, writeItems_eq_map] at hfuel ⊢
    cases items with
    | nil => rfl
    | cons v items =>
      obtain ⟨c, text, hhead, hc, hspace⟩ := write_head (hplain v (by simp))
      obtain ⟨tail, htail⟩ : ∃ tail, joinComma ((v :: items).map write) = c :: tail := by
        cases items <;> simp [joinComma, hhead]
      simp only [List.length_cons, List.length_append, List.length_nil] at hfuel
      obtain ⟨fuel, rfl⟩ : ∃ k, fuel = k + 2 := ⟨fuel - 2, by omega⟩
      have hread := parseItems_write (by simp) (fun u hu => ih u hu (hplain u hu)) fuel rest
        (by omega)
      rw [htail, List.cons_append] at hread
      rw [htail, List.cons_append, List.cons_append, List.cons_append, List.append_assoc,
        List.singleton_append, parseValue_arr (hspace _) hc, hread]
      rfl
  | obj members ih =>
    intro fuel rest hfuel _
    obtain ⟨hkeys, hplain⟩ := hv
    rw [plainMembers_iff] at hplain
    rw [write, writeMembers_eq_map] at hfuel ⊢
    cases members with
    | nil => rfl
    | cons m members =>
      obtain ⟨tail, htail⟩ :
          ∃ tail, joinComma ((m :: members).map writeMember) = '"' :: tail := by
        cases members <;> simp [joinComma, writeMember, writeStr]
      simp only [List.length_cons, List.length_append, List.length_nil] at hfuel
      obtain ⟨fuel, rfl⟩ : ∃ k, fuel = k + 2 := ⟨fuel - 2, by omega⟩
      have hread := parseMembers_write (by simp) (fun u hu => ih u hu (hplain u hu)) fuel rest
        (by omega)
      rw [htail, List.cons_append] at hread
      rw [htail, List.cons_append, List.cons_append, List.cons_append, List.append_assoc,
        List.singleton_append, parseValue_obj _ rfl, hread, Option.map_some,
        dropOverwritten_of_nodup hkeys]

/-- A plain value is read back from its own text. -/
theorem loads_write {v : Json} (hv : Plain v) : loads (write v) = some v := by
  have hread := readsBackRaw v hv (2 * (write v).length) [] (by omega) (by simp [Delimited])
  rw [List.append_nil] at hread
  simp [loads, hread, skipSpace]

end ContributorGateway.Json
