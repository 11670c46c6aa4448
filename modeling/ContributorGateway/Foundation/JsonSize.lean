import ContributorGateway.Foundation.JsonIndent
import ContributorGateway.Foundation.TextLines

/-!
# Sizes of JSON texts

A bound of the length of a serialized value that counts twelve characters for each character of a
string, which is the length of an escaped surrogate pair; and that serialized values are ASCII texts,
which take one byte for each character.
-/

namespace ContributorGateway.Json

mutual
/-- A bound of the length of a serialized value. -/
def sizeBound : Json → ℕ
  | .null => 4
  | .bool _ => 5
  | .int n => (dumpsInt n).length
  | .float text => text.length
  | .str s => 12 * s.length + 2
  | .arr items => sizeBoundItems items + 2
  | .obj members => sizeBoundMembers members + 2

/-- The bound of the elements of an array, with their commas. -/
def sizeBoundItems : List Json → ℕ
  | [] => 0
  | v :: rest => sizeBound v + 1 + sizeBoundItems rest

/-- The bound of the members of an object, with their commas and colons. -/
def sizeBoundMembers : List (String × Json) → ℕ
  | [] => 0
  | (k, v) :: rest => 12 * k.length + sizeBound v + 4 + sizeBoundMembers rest
end

/-- A character is escaped by at most twelve. -/
theorem length_escapeChar_le (c : Char) : (escapeChar c).length ≤ 12 := by
  unfold escapeChar codeUnits
  split_ifs <;> simp [hex4]

/-- The bound of a string literal. -/
theorem length_dumpsStr_le (s : String) : (dumpsStr s).length ≤ 12 * s.length + 2 := by
  have hchars (text : List Char) : (text.flatMap escapeChar).length ≤ 12 * text.length := by
    induction text with
    | nil => exact Nat.le_refl _
    | cons c text ih =>
      have hc := length_escapeChar_le c
      rw [List.flatMap_cons, List.length_append, List.length_cons]
      omega
  have hs := hchars s.toList
  rw [String.length_toList] at hs
  rw [dumpsStr, List.length_cons, List.length_append, List.length_singleton]
  omega

/-- Commas take as many characters as there are texts, at most. -/
theorem length_joinComma_le (texts : List (List Char)) :
    (joinComma texts).length ≤ (texts.map fun text => text.length + 1).foldr (· + ·) 0 := by
  induction texts with
  | nil => exact Nat.le_refl _
  | cons text texts ih =>
    rw [List.map_cons, List.foldr_cons]
    cases texts with
    | nil =>
      rw [joinComma]
      omega
    | cons next texts =>
      rw [joinComma, List.length_append, List.length_cons]
      omega

/-- The order of numbers does not change their sum. -/
theorem foldr_add_of_perm {l l' : List ℕ} (h : l.Perm l') :
    l.foldr (· + ·) 0 = l'.foldr (· + ·) 0 := by
  induction h with
  | nil => rfl
  | cons n _ ih => rw [List.foldr_cons, List.foldr_cons, ih]
  | swap m n l =>
    rw [List.foldr_cons, List.foldr_cons, List.foldr_cons, List.foldr_cons]
    omega
  | trans _ _ ih ih' => exact ih.trans ih'

/-- A serialized value is no longer than its bound. -/
theorem length_dumps_le (v : Json) : (dumps v).length ≤ sizeBound v := by
  induction v using Json.induct with
  | null => exact Nat.le_refl _
  | bool b =>
    cases b with
    | true => exact Nat.le_succ _
    | false => exact Nat.le_refl _
  | int n => exact Nat.le_refl _
  | float text =>
    rw [dumps, String.length_toList, sizeBound]
  | str s => exact length_dumpsStr_le s
  | arr items ih =>
    have hitems : ((items.map dumps).map fun text => text.length + 1).foldr (· + ·) 0 ≤
        sizeBoundItems items := by
      induction items with
      | nil => exact Nat.le_refl _
      | cons v items ih' =>
        rw [List.forall_mem_cons] at ih
        have hrest := ih' ih.2
        rw [List.map_cons, List.map_cons, List.foldr_cons, sizeBoundItems]
        omega
    have hjoin := length_joinComma_le (items.map dumps)
    rw [dumps, dumpsItems_eq_map, List.length_cons, List.length_append, List.length_singleton,
      sizeBound]
    omega
  | obj members ih =>
    have hmembers : ((members.map fun m => (m.1, dumps m.2)).map memberText |>.map fun text =>
        text.length + 1).foldr (· + ·) 0 ≤ sizeBoundMembers members := by
      induction members with
      | nil => exact Nat.le_refl _
      | cons m members ih' =>
        obtain ⟨k, v⟩ := m
        rw [List.forall_mem_cons] at ih
        have hrest := ih' ih.2
        have hv := ih.1
        have hk := length_dumpsStr_le k
        rw [List.map_cons, List.map_cons, List.map_cons, List.foldr_cons, sizeBoundMembers,
          memberText, List.length_append, List.length_cons]
        dsimp only at hv ⊢
        omega
    have hsorted : ((sortByKey (members.map fun m => (m.1, dumps m.2))).map memberText |>.map
        fun text => text.length + 1).foldr (· + ·) 0 =
          ((members.map fun m => (m.1, dumps m.2)).map memberText |>.map fun text =>
            text.length + 1).foldr (· + ·) 0 := by
      have hperm := List.perm_insertionSort (fun a b : String × List Char => a.1 ≤ b.1)
        (members.map fun m => (m.1, dumps m.2))
      exact foldr_add_of_perm ((hperm.map memberText).map fun text => text.length + 1)
    have hjoin := length_joinComma_le
      ((sortByKey (members.map fun m => (m.1, dumps m.2))).map memberText)
    rw [dumps, dumpsMembers_eq_map, List.length_cons, List.length_append, List.length_singleton,
      sizeBound]
    omega

/-- An ASCII text takes one byte for each character. -/
theorem length_utf8Encode_of_ascii {text : List Char} (h : ∀ c ∈ text, c.toNat ≤ 0x7f) :
    (utf8Encode text).length = text.length := by
  induction text with
  | nil => rfl
  | cons c text ih =>
    rw [List.forall_mem_cons] at h
    rw [utf8Encode, List.flatMap_cons, ← utf8Encode, List.length_append, ih h.2,
      List.length_cons, String.length_utf8EncodeChar, Char.utf8Size_eq_one_iff.mpr ?_]
    · omega
    · exact UInt32.le_iff_toNat_le.mpr h.1

/-- A serialized plain value takes one byte for each character. -/
theorem length_utf8Encode_dumps {v : Json} (hv : Plain v) :
    (utf8Encode (dumps v)).length = (dumps v).length := by
  apply length_utf8Encode_of_ascii
  intro c hc
  obtain ⟨-, hhigh⟩ := printable_dumps hv c hc
  omega

/-! ## Indented texts -/

mutual
/-- A bound of the length of an indented value at a level of nesting. -/
def indentBound (level : ℕ) : Json → ℕ
  | .null => 4
  | .bool _ => 5
  | .int n => (dumpsInt n).length
  | .float text => text.length
  | .str s => 12 * s.length + 2
  | .arr items => indentBoundItems (level + 1) items + (2 * level + 3)
  | .obj members => indentBoundMembers (level + 1) members + (2 * level + 3)

/-- The bound of the elements of an array, with their commas and line breaks. -/
def indentBoundItems (level : ℕ) : List Json → ℕ
  | [] => 0
  | v :: rest => indentBound level v + (2 * level + 2) + indentBoundItems level rest

/-- The bound of the members of an object, with their commas, colons and line breaks. -/
def indentBoundMembers (level : ℕ) : List (String × Json) → ℕ
  | [] => 0
  | (k, v) :: rest =>
      12 * k.length + indentBound level v + (2 * level + 6) + indentBoundMembers level rest
end

/-- Texts in brackets take a line each. -/
theorem length_block_le (opening closing : Char) (level : ℕ) (texts : List (List Char)) :
    (block opening closing level texts).length ≤
      (texts.map fun text => text.length + (2 * (level + 1) + 2)).foldr (· + ·) 0 +
        (2 * level + 3) := by
  cases texts with
  | nil =>
    rw [block, List.map_nil, List.foldr_nil]
    exact Nat.le_add_left 2 (0 + (2 * level + 1))
  | cons text texts =>
    have hnewline (n : ℕ) : (newline n).length = 2 * n + 1 := by
      rw [newline, List.length_cons, List.length_replicate]
    have hjoin := length_joinComma_le ((text :: texts).map (newline (level + 1) ++ ·))
    have hlines : ((text :: texts).map (newline (level + 1) ++ ·)).map
        (fun text => text.length + 1) =
          (text :: texts).map fun text => text.length + (2 * (level + 1) + 2) := by
      rw [List.map_map]
      refine List.map_congr_left fun text _ => ?_
      rw [Function.comp_apply, List.length_append, hnewline]
      omega
    rw [hlines] at hjoin
    rw [block_cons, List.length_cons, List.length_append, List.length_append, hnewline,
      List.length_singleton]
    omega

/-- An indented value is no longer than its bound. -/
theorem length_dumpsIndent_le (level : ℕ) (v : Json) :
    (dumpsIndent level v).length ≤ indentBound level v := by
  induction v using Json.induct generalizing level with
  | null => exact Nat.le_refl _
  | bool b =>
    cases b with
    | true => exact Nat.le_succ _
    | false => exact Nat.le_refl _
  | int n => exact Nat.le_refl _
  | float text =>
    rw [dumpsIndent, String.length_toList, indentBound]
  | str s => exact length_dumpsStr_le s
  | arr items ih =>
    have hblock := length_block_le '[' ']' level (items.map (dumpsIndent (level + 1)))
    have hitems : ((items.map (dumpsIndent (level + 1))).map fun text =>
        text.length + (2 * (level + 1) + 2)).foldr (· + ·) 0 ≤
          indentBoundItems (level + 1) items := by
      clear hblock
      induction items with
      | nil => exact Nat.le_refl _
      | cons v items ih' =>
        rw [List.forall_mem_cons] at ih
        have hrest := ih' ih.2
        have hv := ih.1 (level + 1)
        rw [List.map_cons, List.map_cons, List.foldr_cons, indentBoundItems]
        omega
    rw [dumpsIndent, dumpsIndentItems_eq_map, indentBound]
    omega
  | obj members ih =>
    have hblock := length_block_le '{' '}' level
      ((sortByKey (members.map fun m => (m.1, dumpsIndent (level + 1) m.2))).map fun m =>
        memberText (m.1, ' ' :: m.2))
    have hperm := List.perm_insertionSort (fun a b : String × List Char => a.1 ≤ b.1)
      (members.map fun m => (m.1, dumpsIndent (level + 1) m.2))
    have hsorted := foldr_add_of_perm ((hperm.map fun m => memberText (m.1, ' ' :: m.2)).map
      fun text => text.length + (2 * (level + 1) + 2))
    rw [sortByKey, hsorted] at hblock
    have hmembers : (((members.map fun m => (m.1, dumpsIndent (level + 1) m.2)).map fun m =>
        memberText (m.1, ' ' :: m.2)).map fun text =>
          text.length + (2 * (level + 1) + 2)).foldr (· + ·) 0 ≤
            indentBoundMembers (level + 1) members := by
      clear hblock hperm hsorted
      induction members with
      | nil => exact Nat.le_refl _
      | cons m members ih' =>
        obtain ⟨k, v⟩ := m
        rw [List.forall_mem_cons] at ih
        have hrest := ih' ih.2
        have hv := ih.1 (level + 1)
        have hk := length_dumpsStr_le k
        rw [List.map_cons, List.map_cons, List.map_cons, List.foldr_cons, indentBoundMembers,
          memberText, List.length_append, List.length_cons, List.length_cons]
        dsimp only at hv ⊢
        omega
    rw [dumpsIndent, dumpsIndentMembers_eq_map, sortByKey, indentBound]
    omega

/-- The characters of texts in brackets. -/
theorem ascii_block {opening closing : Char} (hopening : opening.toNat ≤ 0x7f)
    (hclosing : closing.toNat ≤ 0x7f) (level : ℕ) {texts : List (List Char)}
    (h : ∀ text ∈ texts, ∀ c ∈ text, c.toNat ≤ 0x7f) :
    ∀ c ∈ block opening closing level texts, c.toNat ≤ 0x7f := by
  have hnewline (n : ℕ) : ∀ c ∈ newline n, c.toNat ≤ 0x7f := by
    intro c hc
    rcases List.mem_cons.mp hc with rfl | hc
    · decide
    · rw [List.eq_of_mem_replicate hc]
      decide
  have hjoin (lines : List (List Char)) (hlines : ∀ line ∈ lines, ∀ c ∈ line, c.toNat ≤ 0x7f) :
      ∀ c ∈ joinComma lines, c.toNat ≤ 0x7f := by
    induction lines with
    | nil => exact nofun
    | cons line lines ih =>
      rw [List.forall_mem_cons] at hlines
      cases lines with
      | nil => exact hlines.1
      | cons next lines =>
        intro c hc
        rw [joinComma, List.mem_append, List.mem_cons] at hc
        rcases hc with hc | rfl | hc
        · exact hlines.1 c hc
        · decide
        · exact ih hlines.2 c hc
  intro c hc
  cases texts with
  | nil =>
    rcases List.mem_cons.mp hc with rfl | hc
    · exact hopening
    · rw [List.mem_singleton.mp hc]
      exact hclosing
  | cons text texts =>
    rw [block_cons, List.mem_cons, List.mem_append, List.mem_append, List.mem_singleton] at hc
    rcases hc with rfl | (hc | hc) | rfl
    · exact hopening
    · refine hjoin _ (fun line hline => ?_) c hc
      obtain ⟨text', htext, rfl⟩ := List.mem_map.mp hline
      intro d hd
      rcases List.mem_append.mp hd with hd | hd
      · exact hnewline _ d hd
      · exact h text' htext d hd
    · exact hnewline _ c hc
    · exact hclosing

/-- An indented plain value is an ASCII text. -/
theorem ascii_dumpsIndent (level : ℕ) {v : Json} (hv : Plain v) :
    ∀ c ∈ dumpsIndent level v, c.toNat ≤ 0x7f := by
  induction v using Json.induct generalizing level with
  | null => exact show ∀ c ∈ ['n', 'u', 'l', 'l'], c.toNat ≤ 0x7f by simp
  | bool b =>
    cases b with
    | true => exact show ∀ c ∈ ['t', 'r', 'u', 'e'], c.toNat ≤ 0x7f by simp
    | false => exact show ∀ c ∈ ['f', 'a', 'l', 's', 'e'], c.toNat ≤ 0x7f by simp
  | int n =>
    intro c hc
    obtain ⟨-, hhigh⟩ := printable_dumpsInt n c hc
    omega
  | float text => exact absurd hv id
  | str s =>
    intro c hc
    obtain ⟨-, hhigh⟩ := printable_dumpsStr s c hc
    omega
  | arr items ih =>
    have hplain := (plainItems_iff items).mp hv
    rw [dumpsIndent, dumpsIndentItems_eq_map]
    apply ascii_block (by decide) (by decide)
    intro text htext
    obtain ⟨v, hmem, rfl⟩ := List.mem_map.mp htext
    exact ih v hmem (level + 1) (hplain v hmem)
  | obj members ih =>
    have hplain := (plainMembers_iff members).mp hv.2
    rw [dumpsIndent, dumpsIndentMembers_eq_map]
    apply ascii_block (by decide) (by decide)
    intro text htext
    obtain ⟨m, hsorted, rfl⟩ := List.mem_map.mp htext
    have hmem := (List.perm_insertionSort _ _).subset hsorted
    obtain ⟨m', hm', rfl⟩ := List.mem_map.mp hmem
    intro c hc
    rw [memberText, List.mem_append, List.mem_cons, List.mem_cons] at hc
    rcases hc with hc | rfl | rfl | hc
    · obtain ⟨-, hhigh⟩ := printable_dumpsStr m'.1 c hc
      omega
    · decide
    · decide
    · exact ih m' hm' (level + 1) (hplain m' hm') c hc

end ContributorGateway.Json
