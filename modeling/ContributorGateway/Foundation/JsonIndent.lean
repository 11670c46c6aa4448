import ContributorGateway.Foundation.JsonRoundTrip
import Mathlib.Data.List.DropRight

/-!
# Indented JSON texts

The serializer of Python's `json.dumps` with an indentation of two and sorted keys. It
writes a line for every element and member, and the reader, which skips whitespace
between tokens, reads it back as it does the compact text.
-/

namespace ContributorGateway.Json

/-! ## Writing -/

/-- The line break before a line at a level of nesting. -/
def newline (level : ℕ) : List Char := '\n' :: List.replicate (2 * level) ' '

/-- Texts in brackets, each on a line one level below the closing bracket. -/
def block (opening closing : Char) (level : ℕ) : List (List Char) → List Char
  | [] => [opening, closing]
  | texts =>
      opening :: (joinComma (texts.map (newline (level + 1) ++ ·)) ++ newline level ++ [closing])

theorem block_cons (opening closing : Char) (level : ℕ) (text : List Char)
    (texts : List (List Char)) : block opening closing level (text :: texts) =
      opening :: (joinComma ((text :: texts).map (newline (level + 1) ++ ·)) ++ newline level ++
        [closing]) :=
  rfl

mutual
/-- `json.dumps(value, indent=2, sort_keys=True)` at a level of nesting. -/
def dumpsIndent (level : ℕ) : Json → List Char
  | .null => ['n', 'u', 'l', 'l']
  | .bool true => ['t', 'r', 'u', 'e']
  | .bool false => ['f', 'a', 'l', 's', 'e']
  | .int n => dumpsInt n
  | .float text => text.toList
  | .str s => dumpsStr s
  | .arr items => block '[' ']' level (dumpsIndentItems (level + 1) items)
  | .obj members =>
      block '{' '}' level ((sortByKey (dumpsIndentMembers (level + 1) members)).map fun m =>
        memberText (m.1, ' ' :: m.2))

/-- The texts of the elements of an array. -/
def dumpsIndentItems (level : ℕ) : List Json → List (List Char)
  | [] => []
  | v :: rest => dumpsIndent level v :: dumpsIndentItems level rest

/-- The keys and texts of the members of an object. -/
def dumpsIndentMembers (level : ℕ) : List (String × Json) → List (String × List Char)
  | [] => []
  | (k, v) :: rest => (k, dumpsIndent level v) :: dumpsIndentMembers level rest
end

@[simp] theorem dumpsIndentItems_eq_map (level : ℕ) (items : List Json) :
    dumpsIndentItems level items = items.map (dumpsIndent level) := by
  induction items with
  | nil => rfl
  | cons v rest ih => simp [dumpsIndentItems, ih]

@[simp] theorem dumpsIndentMembers_eq_map (level : ℕ) (members : List (String × Json)) :
    dumpsIndentMembers level members = members.map fun m => (m.1, dumpsIndent level m.2) := by
  induction members with
  | nil => rfl
  | cons m rest ih => simp [dumpsIndentMembers, ih]

/-- An element of an array on its line. -/
def itemLine (level : ℕ) (v : Json) : List Char := newline level ++ dumpsIndent level v

/-- A member of an object on its line. -/
def memberLine (level : ℕ) (m : String × Json) : List Char :=
  newline level ++ memberText (m.1, ' ' :: dumpsIndent level m.2)

/-- The text of a nonempty array is the lines of its elements. -/
theorem dumpsIndent_arr (level : ℕ) {items : List Json} (hne : items ≠ []) :
    dumpsIndent level (.arr items) =
      '[' :: (joinComma (items.map (itemLine (level + 1))) ++ newline level ++ [']']) := by
  cases items with
  | nil => exact absurd rfl hne
  | cons v items =>
    rw [dumpsIndent, dumpsIndentItems_eq_map, List.map_cons, block_cons, ← List.map_cons,
      List.map_map]
    rfl

/-- The text of a nonempty object is the lines of its members in key order. -/
theorem dumpsIndent_obj (level : ℕ) {members : List (String × Json)} (hne : members ≠ []) :
    dumpsIndent level (.obj members) =
      '{' :: (joinComma ((sortByKey members).map (memberLine (level + 1))) ++ newline level ++
        ['}']) := by
  rw [dumpsIndent, dumpsIndentMembers_eq_map, sortByKey_map, List.map_map]
  cases hsorted : sortByKey members with
  | nil =>
    have hperm := sortByKey_perm members
    rw [hsorted] at hperm
    exact absurd hperm.nil_eq.symm hne
  | cons m sorted =>
    rw [List.map_cons, block_cons, ← List.map_cons, List.map_map]
    rfl

/-! ## Values that are read back -/

/-- The text of a number that the reader gives back in front of whatever ends it. -/
def FloatText (text : String) : Prop :=
  (∃ c tail, text.toList = c :: tail ∧ c ≠ ']' ∧ ∀ rest, skipSpace (c :: rest) = c :: rest) ∧
    ∀ (fuel : ℕ) (rest : List Char), Ended rest →
      parseValue (fuel + 1) (text.toList ++ rest) = some (.float text, rest)

/-- A value that Python can hold: the keys of every object are distinct and every number
with a fraction or an exponent has a text of its own. -/
inductive WellFormed : Json → Prop
  | null : WellFormed .null
  | bool (b : Bool) : WellFormed (.bool b)
  | int (n : ℤ) : WellFormed (.int n)
  | float {text : String} (htext : FloatText text) : WellFormed (.float text)
  | str (s : String) : WellFormed (.str s)
  | arr {items : List Json} (hitems : ∀ v ∈ items, WellFormed v) : WellFormed (.arr items)
  | obj {members : List (String × Json)} (hkeys : (members.map Prod.fst).Nodup)
      (hmembers : ∀ m ∈ members, WellFormed m.2) : WellFormed (.obj members)

/-! ## Whitespace -/

/-- A line break is skipped. -/
theorem skipSpace_newline (level : ℕ) (text : List Char) :
    skipSpace (newline level ++ text) = skipSpace text := by
  have hspaces (n : ℕ) : skipSpace (List.replicate n ' ' ++ text) = skipSpace text := by
    induction n with
    | zero => rfl
    | succ n ih =>
      rw [List.replicate_succ, List.cons_append, ← ih]
      rfl
  rw [← hspaces (2 * level)]
  rfl

/-- Whitespace before a value is skipped. -/
theorem parseValue_congr {fuel : ℕ} {text text' : List Char}
    (h : skipSpace text = skipSpace text') : parseValue fuel text = parseValue fuel text' := by
  cases fuel with
  | zero => rfl
  | succ fuel => rw [parseValue, parseValue, h]

/-- Whitespace before an element is skipped. -/
theorem parseItems_congr {fuel : ℕ} {text text' : List Char}
    (h : skipSpace text = skipSpace text') : parseItems fuel text = parseItems fuel text' := by
  cases fuel with
  | zero => rfl
  | succ fuel => rw [parseItems, parseItems, parseValue_congr h]

/-- Whitespace before a member is skipped. -/
theorem parseMembers_congr {fuel : ℕ} {text text' : List Char}
    (h : skipSpace text = skipSpace text') :
    parseMembers fuel text = parseMembers fuel text' := by
  cases fuel with
  | zero => rfl
  | succ fuel => rw [parseMembers, parseMembers, h]

/-- What whitespace precedes is read without it. -/
theorem skipSpace_skipSpace {c : Char} {text text' : List Char}
    (h : skipSpace text = c :: text') : skipSpace (c :: text') = skipSpace text := by
  rw [← h, skipSpace, skipSpace, List.dropWhile_idempotent]

/-- A line break and a closing bracket end a value. -/
theorem ended_newline (level : ℕ) (text : List Char) : Ended (newline level ++ text) := by
  intro c hc
  obtain rfl : '\n' = c := by simpa [newline] using hc
  simp

/-! ## Round trip -/

/-- The indented text of `v` is read back as its canonical form in front of whatever ends
it, given fuel for its length. -/
def ReadsBackAt (level : ℕ) (v : Json) : Prop :=
  ∀ (fuel : ℕ) (rest : List Char), (dumpsIndent level v).length ≤ fuel → Ended rest →
    parseValue (fuel + 1) (dumpsIndent level v ++ rest) = some (canonical v, rest)

/-- The first character of a value is neither whitespace nor a closing bracket. -/
theorem dumpsIndent_head (level : ℕ) {v : Json} (hv : WellFormed v) :
    ∃ c text, dumpsIndent level v = c :: text ∧ c ≠ ']' ∧
      ∀ tail, skipSpace (c :: tail) = c :: tail := by
  cases hv with
  | null => exact dumps_head (v := .null) trivial
  | bool b => cases b <;> exact ⟨_, _, rfl, by decide, fun _ => rfl⟩
  | int n => exact dumps_head (v := .int n) trivial
  | float htext => exact htext.1
  | str s => exact ⟨_, _, rfl, by decide, fun _ => rfl⟩
  | @arr items hitems =>
    cases items <;> exact ⟨_, _, rfl, by decide, fun _ => rfl⟩
  | @obj members hkeys hmembers =>
    by_cases hne : members = []
    · subst hne
      exact ⟨_, _, rfl, by decide, fun _ => rfl⟩
    · exact ⟨_, _, dumpsIndent_obj level hne, by decide, fun _ => rfl⟩

/-- The lines of the elements of a nonempty array are read back. -/
theorem parseItems_lines {level : ℕ} {items : List Json} (hne : items ≠ [])
    (hitems : ∀ v ∈ items, ReadsBackAt level v) (fuel : ℕ) (rest rest' : List Char)
    (hclose : skipSpace rest' = ']' :: rest) (hended : Ended rest')
    (hfuel : (joinComma (items.map (itemLine level))).length ≤ fuel) :
    parseItems (fuel + 2) (joinComma (items.map (itemLine level)) ++ rest') =
      some (items.map canonical, rest) := by
  induction items generalizing fuel with
  | nil => exact absurd rfl hne
  | cons v items ih =>
    have hv (fuel : ℕ) (tail : List Char) (hle : (itemLine level v).length ≤ fuel)
        (htail : Ended tail) :
        parseValue (fuel + 1) (itemLine level v ++ tail) = some (canonical v, tail) := by
      rw [itemLine, List.length_append] at hle
      rw [itemLine, List.append_assoc, parseValue_congr (skipSpace_newline level _)]
      exact hitems v (by simp) fuel tail (by omega) htail
    cases items with
    | nil => exact parseItems_close hclose (hv fuel rest' hfuel hended)
    | cons w items =>
      have htext : joinComma ((v :: w :: items).map (itemLine level)) =
          itemLine level v ++ ',' :: joinComma ((w :: items).map (itemLine level)) := rfl
      rw [htext, List.length_append, List.length_cons] at hfuel
      obtain ⟨fuel, rfl⟩ : ∃ k, fuel = k + 1 := ⟨fuel - 1, by omega⟩
      have hread := hv (fuel + 1)
        (',' :: (joinComma ((w :: items).map (itemLine level)) ++ rest')) (by omega)
        (by simp [Ended])
      have htail := ih (by simp) (fun u hu => hitems u (by simp [hu])) fuel (by omega)
      rw [htext, List.append_assoc, List.cons_append, parseItems_comma hread, htail]
      rfl

/-- The lines of the members of a nonempty object are read back. -/
theorem parseMembers_lines {level : ℕ} {members : List (String × Json)} (hne : members ≠ [])
    (hmembers : ∀ m ∈ members, ReadsBackAt level m.2) (fuel : ℕ) (rest rest' : List Char)
    (hclose : skipSpace rest' = '}' :: rest) (hended : Ended rest')
    (hfuel : (joinComma (members.map (memberLine level))).length ≤ fuel) :
    parseMembers (fuel + 2) (joinComma (members.map (memberLine level)) ++ rest') =
      some (members.map fun m => (m.1, canonical m.2), rest) := by
  induction members generalizing fuel with
  | nil => exact absurd rfl hne
  | cons m members ih =>
    have hm (fuel : ℕ) (tail : List Char) (hle : (memberLine level m).length ≤ fuel)
        (htail : Ended tail) : parseValue (fuel + 1) ((' ' :: dumpsIndent level m.2) ++ tail) =
          some (canonical m.2, tail) := by
      have hspace : skipSpace ((' ' :: dumpsIndent level m.2) ++ tail) =
          skipSpace (dumpsIndent level m.2 ++ tail) := rfl
      simp only [memberLine, memberText, List.length_append, List.length_cons] at hle
      rw [parseValue_congr hspace]
      exact hmembers m (by simp) fuel tail (by omega) htail
    cases members with
    | nil =>
      have htext : joinComma ([m].map (memberLine level)) = memberLine level m := rfl
      rw [htext] at hfuel
      rw [htext, memberLine, List.append_assoc, parseMembers_congr (skipSpace_newline level _)]
      exact parseMembers_close hclose (hm fuel rest' hfuel hended)
    | cons m' members =>
      have htext : joinComma ((m :: m' :: members).map (memberLine level)) =
          memberLine level m ++ ',' :: joinComma ((m' :: members).map (memberLine level)) := rfl
      rw [htext, List.length_append, List.length_cons] at hfuel
      obtain ⟨fuel, rfl⟩ : ∃ k, fuel = k + 1 := ⟨fuel - 1, by omega⟩
      have hread := hm (fuel + 1)
        (',' :: (joinComma ((m' :: members).map (memberLine level)) ++ rest')) (by omega)
        (by simp [Ended])
      have htail := ih (by simp) (fun u hu => hmembers u (by simp [hu])) fuel (by omega)
      rw [htext, List.append_assoc, List.cons_append, memberLine, List.append_assoc,
        parseMembers_congr (skipSpace_newline level _), parseMembers_comma hread, htail]
      rfl

/-- Every value is read back from its indented text. -/
theorem readsBackAt (level : ℕ) {v : Json} (hv : WellFormed v) : ReadsBackAt level v := by
  induction hv generalizing level with
  | null => intro fuel rest _ _; rfl
  | bool b => intro fuel rest _ _; cases b <;> rfl
  | int n => intro fuel rest _ hrest; exact parseValue_dumpsInt n fuel hrest
  | float htext => intro fuel rest _ hrest; exact htext.2 fuel rest hrest
  | str s =>
    intro fuel rest _ _
    have hspace (text : List Char) : skipSpace ('"' :: text) = '"' :: text := rfl
    simp only [dumpsIndent, dumpsStr, List.cons_append, List.append_assoc, List.nil_append,
      parseValue, hspace, parseString_dumpsStr, Option.map_some, canonical]
  | @arr items hitems ih =>
    intro fuel rest hfuel _
    rw [canonical, canonicalItems_eq_map]
    cases items with
    | nil => rfl
    | cons v items =>
      rw [dumpsIndent_arr level (by simp)] at hfuel ⊢
      simp only [List.length_cons, List.length_append, List.length_nil] at hfuel
      obtain ⟨fuel, rfl⟩ : ∃ k, fuel = k + 2 := ⟨fuel - 2, by omega⟩
      obtain ⟨c, text, hhead, hc, hspace⟩ := dumpsIndent_head (level + 1) (hitems v (by simp))
      have hread := parseItems_lines (by simp) (fun u hu => ih u hu (level + 1)) fuel rest
        (newline level ++ ']' :: rest) (skipSpace_newline level _) (ended_newline level _)
        (by omega)
      have hfirst : ∃ tail, skipSpace (joinComma ((v :: items).map (itemLine (level + 1))) ++
          (newline level ++ ']' :: rest)) = c :: tail := by
        obtain ⟨tail, htail⟩ : ∃ tail, joinComma ((v :: items).map (itemLine (level + 1))) =
            newline (level + 1) ++ (c :: tail) := by
          cases items <;> simp [joinComma, itemLine, hhead]
        rw [htail, List.append_assoc, skipSpace_newline, List.cons_append, hspace]
        exact ⟨_, rfl⟩
      obtain ⟨tail, htail⟩ := hfirst
      rw [List.cons_append, List.append_assoc, List.append_assoc, List.singleton_append,
        parseValue_arr htail hc, parseItems_congr (skipSpace_skipSpace htail), hread]
      rfl
  | @obj members hkeys hmembers ih =>
    intro fuel rest hfuel _
    rw [canonical, canonicalMembers_eq_map, sortByKey_map]
    by_cases hne : members = []
    · subst hne
      rfl
    · have hperm := sortByKey_perm members
      have hkeys' : ((sortByKey members).map Prod.fst).Nodup :=
        (hperm.map Prod.fst).nodup_iff.mpr hkeys
      rw [dumpsIndent_obj level hne] at hfuel ⊢
      simp only [List.length_cons, List.length_append, List.length_nil] at hfuel
      obtain ⟨fuel, rfl⟩ : ∃ k, fuel = k + 2 := ⟨fuel - 2, by omega⟩
      have hsorted : sortByKey members ≠ [] := fun h => by
        rw [h] at hperm
        exact hne hperm.nil_eq.symm
      have hread := parseMembers_lines hsorted (fun m hm => ih m (hperm.subset hm) (level + 1)) fuel
        rest (newline level ++ '}' :: rest) (skipSpace_newline level _) (ended_newline level _)
        (by omega)
      obtain ⟨tail, htail⟩ : ∃ tail,
          skipSpace (joinComma ((sortByKey members).map (memberLine (level + 1))) ++
            (newline level ++ '}' :: rest)) = '"' :: tail := by
        obtain ⟨tail, htail⟩ : ∃ tail,
            joinComma ((sortByKey members).map (memberLine (level + 1))) =
              newline (level + 1) ++ ('"' :: tail) := by
          cases hm : sortByKey members with
          | nil => exact absurd hm hsorted
          | cons m sorted =>
            cases sorted <;> simp [joinComma, memberLine, memberText, dumpsStr]
        rw [htail, List.append_assoc, skipSpace_newline]
        exact ⟨_, rfl⟩
      have hcanonical :
          (((sortByKey members).map fun m => (m.1, canonical m.2)).map Prod.fst).Nodup := by
        rw [List.map_map]
        exact hkeys'
      rw [List.cons_append, List.append_assoc, List.append_assoc, List.singleton_append,
        parseValue_obj _ htail, parseMembers_congr (skipSpace_skipSpace htail), hread,
        Option.map_some, dropOverwritten_of_nodup hcanonical]

/-- A value is read back from its indented text, with every object in key order. -/
theorem loads_dumpsIndent {v : Json} (hv : WellFormed v) :
    loads (dumpsIndent 0 v) = some (canonical v) := by
  have hread := readsBackAt 0 hv (2 * (dumpsIndent 0 v).length) [] (by omega) (by simp [Ended])
  rw [List.append_nil] at hread
  simp [loads, hread, skipSpace]

end ContributorGateway.Json
