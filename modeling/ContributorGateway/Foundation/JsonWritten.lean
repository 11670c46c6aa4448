import ContributorGateway.Foundation.JsonScan

/-!
# Written JSON texts

The text of a value begins and ends around its strings, and has only characters of the
structure there. Beyond ASCII its characters are those of its strings.
-/

namespace ContributorGateway.Json

variable {around : Char → Prop}

/-! ## Structure -/

/-- The characters that stand around the strings of a written value. -/
def Structural (c : Char) : Prop := c ∈ "[]{},:-0123456789nultrefas".toList

/-- A text that begins and ends around strings, with nothing but structure there. -/
def Written (text : List Char) : Prop :=
  Place.outside.afterText text = .outside ∧ Place.outside.Reads Structural (fun _ => True) text

theorem Written.append {front back : List Char} (hfront : Written front) (hback : Written back) :
    Written (front ++ back) := by
  refine ⟨by rw [Place.afterText_append, hfront.1, hback.1], ?_⟩
  rw [Place.reads_append, hfront.1]
  exact ⟨hfront.2, hback.2⟩

/-- Structure alone is written. -/
theorem written_structural {text : List Char} (htext : ∀ c ∈ text, Structural c) :
    Written text := by
  have hquote : ∀ c ∈ text, c ≠ '"' := by
    rintro c hc rfl
    exact absurd (htext _ hc) (by simp [Structural])
  exact ⟨afterText_bare hquote, reads_bare fun c hc => ⟨hquote c hc, htext c hc⟩⟩

/-- Written texts joined by commas are written. -/
theorem Written.joinComma {texts : List (List Char)} (htexts : ∀ text ∈ texts, Written text) :
    Written (joinComma texts) := by
  induction texts with
  | nil => exact ⟨rfl, trivial⟩
  | cons text texts ih =>
    cases texts with
    | nil => exact htexts text (by simp)
    | cons next texts =>
      have hcomma : Written [','] := written_structural (by simp [Structural])
      exact (htexts text (by simp)).append (hcomma.append (ih fun t ht => htexts t (by simp [ht])))

/-- The digits of an escape are neither quotes nor backslashes. -/
theorem bare_hex4 (n : ℕ) : Bare (hex4 n) := by
  have hdigit : ∀ k : ℕ, Nat.digitChar (k % 16) ≠ '"' ∧ Nat.digitChar (k % 16) ≠ '\\' :=
    fun k => ne_of_hexValue (hexValue_digitChar (Nat.mod_lt k (by decide)))
  intro c hc
  simp only [hex4, List.mem_cons, List.not_mem_nil, or_false] at hc
  rcases hc with rfl | rfl | rfl | rfl
  · exact hdigit _
  · exact hdigit _
  · exact hdigit _
  · exact hdigit _

/-- A character in a string, escaped or raw, stays in the string. -/
theorem reads_escapeRaw (c : Char) :
    Place.inside.afterText (escapeRaw c) = .inside ∧
      Place.inside.Reads Structural (fun _ => True) (escapeRaw c) := by
  have hshort : ∀ {e : Char}, simpleEscape e ≠ none →
      Place.inside.afterText ['\\', e] = .inside ∧
        Place.inside.Reads Structural (fun _ => True) ['\\', e] :=
    fun he => ⟨rfl, Or.inr trivial, ⟨Or.inr he, trivial⟩, trivial⟩
  rw [escapeRaw]
  split_ifs with hescaped
  · unfold escapeChar
    split_ifs with h₁ h₂ h₃ h₄ h₅ h₆ h₇ h₈
    · exact hshort (by decide)
    · exact hshort (by decide)
    · exact hshort (by decide)
    · exact hshort (by decide)
    · exact hshort (by decide)
    · exact hshort (by decide)
    · exact hshort (by decide)
    · rcases hescaped with hquote | hslash | hcontrol
      · exact absurd hquote h₁
      · exact absurd hslash h₂
      · omega
    · have hunits : codeUnits c = [c.toNat] := by
        rw [codeUnits, if_pos]
        rcases hescaped with hquote | hslash | hcontrol
        · exact absurd hquote h₁
        · exact absurd hslash h₂
        · omega
      rw [hunits, List.flatMap_cons, List.flatMap_nil, List.append_nil]
      obtain ⟨hafter, hreads⟩ := afterText_within (bare_hex4 c.toNat)
      exact ⟨hafter, Or.inr trivial, ⟨Or.inl rfl, trivial⟩, hreads⟩
  · simp only [not_or] at hescaped
    have hstay : Place.inside.after c = .inside := by
      rw [Place.after, if_neg hescaped.1, if_neg hescaped.2.1]
    exact ⟨hstay, Or.inr trivial, trivial⟩

/-- A quoted string is written. -/
theorem written_writeStr (s : String) : Written (writeStr s) := by
  have hbody : ∀ chars : List Char, Place.inside.afterText (chars.flatMap escapeRaw) = .inside ∧
      Place.inside.Reads Structural (fun _ => True) (chars.flatMap escapeRaw) := by
    intro chars
    induction chars with
    | nil => exact ⟨rfl, trivial⟩
    | cons c chars ih =>
      obtain ⟨hafter, hreads⟩ := reads_escapeRaw c
      rw [List.flatMap_cons, Place.afterText_append, Place.reads_append, hafter]
      exact ⟨ih.1, hreads, ih.2⟩
  obtain ⟨hafter, hreads⟩ := hbody s.toList
  have hopen : Place.outside.after '"' = .inside := rfl
  rw [writeStr]
  refine ⟨?_, Or.inl rfl, ?_⟩
  · rw [Place.afterText_cons, hopen, Place.afterText_append, hafter]
    rfl
  · rw [hopen, Place.reads_append, hafter]
    exact ⟨hreads, Or.inl rfl, trivial⟩

/-- An integer is structure. -/
theorem structural_dumpsInt (n : ℤ) : ∀ c ∈ dumpsInt n, Structural c := by
  have hdigits : ∀ m : ℕ, ∀ c ∈ Nat.toDigits 10 m, Structural c := by
    intro m c hc
    have hdigit : c.isDigit = true := Nat.isDigit_of_mem_toDigits (by decide) (by decide) hc
    simp only [Char.isDigit, Bool.and_eq_true, decide_eq_true_eq] at hdigit
    have hlo : 48 ≤ c.toNat := hdigit.1
    have hhi : c.toNat ≤ 57 := hdigit.2
    have hc : c = Char.ofNat c.toNat := (Char.ofNat_toNat c).symm
    rw [hc]
    interval_cases c.toNat <;> simp [Structural]
  cases n with
  | ofNat n => exact hdigits n
  | negSucc n =>
    intro c hc
    rcases List.mem_cons.mp hc with rfl | hc
    · simp [Structural]
    · exact hdigits _ c hc

/-- A value is written. -/
theorem written_write {v : Json} (hv : Plain v) : Written (write v) := by
  induction v using Json.induct with
  | null => exact written_structural (by simp [write, Structural])
  | bool b => cases b <;> exact written_structural (by simp [write, Structural])
  | int n => exact written_structural (structural_dumpsInt n)
  | float text => exact absurd hv id
  | str s => exact written_writeStr s
  | arr items ih =>
    have hplain := (plainItems_iff items).mp hv
    have hitems : Written (joinComma (items.map write)) := by
      refine Written.joinComma fun text htext => ?_
      obtain ⟨v, hv, rfl⟩ := List.mem_map.mp htext
      exact ih v hv (hplain v hv)
    have hopen : Written ['['] := written_structural (by simp [Structural])
    have hclose : Written [']'] := written_structural (by simp [Structural])
    rw [write, writeItems_eq_map]
    exact hopen.append (hitems.append hclose)
  | obj members ih =>
    have hplain := (plainMembers_iff members).mp hv.2
    have hmembers : Written (joinComma (members.map writeMember)) := by
      refine Written.joinComma fun text htext => ?_
      obtain ⟨m, hm, rfl⟩ := List.mem_map.mp htext
      have hcolon : Written [':'] := written_structural (by simp [Structural])
      exact (written_writeStr m.1).append (hcolon.append (ih m hm (hplain m hm)))
    have hopen : Written ['{'] := written_structural (by simp [Structural])
    have hclose : Written ['}'] := written_structural (by simp [Structural])
    rw [write, writeMembers_eq_map]
    exact hopen.append (hmembers.append hclose)

/-! ## Characters -/

/-- A string or a key of the value has the character. -/
inductive HasChar (c : Char) : Json → Prop
  | str {s : String} (h : c ∈ s.toList) : HasChar c (.str s)
  | item {items : List Json} {v : Json} (hv : v ∈ items) (h : HasChar c v) : HasChar c (.arr items)
  | key {members : List (String × Json)} {m : String × Json} (hm : m ∈ members)
      (h : c ∈ m.1.toList) : HasChar c (.obj members)
  | value {members : List (String × Json)} {m : String × Json} (hm : m ∈ members)
      (h : HasChar c m.2) : HasChar c (.obj members)

/-- A character other than the comma is in one of the joined texts. -/
theorem mem_joinComma {c : Char} (hc : c ≠ ',') {texts : List (List Char)} :
    c ∈ joinComma texts ↔ ∃ text ∈ texts, c ∈ text := by
  induction texts with
  | nil => simp [joinComma]
  | cons text texts ih =>
    cases texts with
    | nil => simp [joinComma]
    | cons next texts =>
      rw [joinComma, List.mem_append, List.mem_cons, ih]
      simp [hc]

/-- Beyond ASCII the text of a string has its characters. -/
theorem mem_writeStr {s : String} {c : Char} (hc : 0x80 ≤ c.toNat) :
    c ∈ writeStr s ↔ c ∈ s.toList := by
  have hraw : ∀ d : Char, c ∈ escapeRaw d ↔ c = d := by
    intro d
    rw [escapeRaw]
    split_ifs with hescaped
    · constructor
      · intro h
        have hprintable := (printable_escapeChar d c h).2
        omega
      · rintro rfl
        rcases hescaped with rfl | rfl | hcontrol
        · exact absurd hc (by decide)
        · exact absurd hc (by decide)
        · omega
    · exact List.mem_singleton
  have hquote : c ≠ '"' := by
    rintro rfl
    exact absurd hc (by decide)
  simp [writeStr, hquote, hraw]

/-- Structure is printable ASCII. -/
theorem printable_of_structural {c : Char} (hc : Structural c) : PrintableAscii c := by
  have hall : ("[]{},:-0123456789nultrefas".toList.all fun c => decide (PrintableAscii c)) = true := by
    decide
  exact of_decide_eq_true (List.all_eq_true.mp hall c hc)

/-- Beyond ASCII a text has the characters of the strings. -/
theorem mem_write_iff {v : Json} (hv : Plain v) {c : Char} (hc : 0x80 ≤ c.toNat) :
    c ∈ write v ↔ HasChar c v := by
  have hascii : ¬ PrintableAscii c := fun h => by
    have := h.2
    omega
  have hne : ∀ {d : Char}, Structural d → c ≠ d := by
    rintro d hd rfl
    exact hascii (printable_of_structural hd)
  have hcomma : c ≠ ',' := hne (by simp [Structural])
  induction v using Json.induct with
  | null =>
    exact ⟨fun h => absurd (printable_dumps (v := .null) trivial c h) hascii, fun h => by cases h⟩
  | bool b =>
    constructor
    · intro h
      exact absurd (printable_dumps (v := .bool b) trivial c (by cases b <;> exact h)) hascii
    · intro h
      cases h
  | int n =>
    exact ⟨fun h => absurd (printable_dumpsInt n c h) hascii, fun h => by cases h⟩
  | float text => exact absurd hv id
  | str s =>
    rw [write, mem_writeStr hc]
    exact ⟨HasChar.str, fun h => by cases h; assumption⟩
  | arr items ih =>
    have hplain := (plainItems_iff items).mp hv
    have hopen : c ≠ '[' := hne (by simp [Structural])
    have hclose : c ≠ ']' := hne (by simp [Structural])
    rw [write, writeItems_eq_map, List.mem_cons, List.mem_append, List.mem_singleton,
      mem_joinComma hcomma]
    simp only [hopen, hclose, false_or, or_false, List.mem_map, exists_exists_and_eq_and]
    constructor
    · rintro ⟨v, hmem, h⟩
      exact .item hmem ((ih v hmem (hplain v hmem)).mp h)
    · rintro (_ | ⟨hmem, h⟩)
      exact ⟨_, hmem, (ih _ hmem (hplain _ hmem)).mpr h⟩
  | obj members ih =>
    have hplain := (plainMembers_iff members).mp hv.2
    have hopen : c ≠ '{' := hne (by simp [Structural])
    have hclose : c ≠ '}' := hne (by simp [Structural])
    have hcolon : c ≠ ':' := hne (by simp [Structural])
    rw [write, writeMembers_eq_map, List.mem_cons, List.mem_append, List.mem_singleton,
      mem_joinComma hcomma]
    simp only [hopen, hclose, false_or, or_false, List.mem_map, exists_exists_and_eq_and, writeMember,
      List.mem_append, List.mem_cons, hcolon, mem_writeStr hc]
    constructor
    · rintro ⟨m, hmem, h | h⟩
      · exact .key hmem h
      · exact .value hmem ((ih m hmem (hplain m hmem)).mp h)
    · intro h
      cases h with
      | key hmem h => exact ⟨_, hmem, Or.inl h⟩
      | value hmem h => exact ⟨_, hmem, Or.inr ((ih _ hmem (hplain _ hmem)).mpr h)⟩

/-- A written string has no control characters. -/
theorem space_le_of_mem_writeStr {s : String} {c : Char} (hc : c ∈ writeStr s) :
    0x20 ≤ c.toNat := by
  rw [writeStr, List.mem_cons, List.mem_append, List.mem_singleton, List.mem_flatMap] at hc
  rcases hc with rfl | ⟨d, -, hc⟩ | rfl
  · decide
  · rw [escapeRaw] at hc
    split_ifs at hc with hescaped
    · exact (printable_escapeChar d c hc).1
    · simp only [not_or, not_lt] at hescaped
      rw [List.mem_singleton.mp hc]
      exact hescaped.2.2
  · decide

/-- A written value has no control characters. -/
theorem space_le_of_mem_write {v : Json} (hv : Plain v) {c : Char} (hc : c ∈ write v) :
    0x20 ≤ c.toNat := by
  by_cases hcomma : c = ','
  · subst hcomma
    decide
  have hstructural : ∀ {d : Char}, Structural d → c = d → 0x20 ≤ c.toNat := by
    rintro d hd rfl
    exact (printable_of_structural hd).1
  induction v using Json.induct with
  | null => exact (printable_dumps (v := .null) trivial c hc).1
  | bool b => exact (printable_dumps (v := .bool b) trivial c (by cases b <;> exact hc)).1
  | int n => exact (printable_dumpsInt n c hc).1
  | float text => exact absurd hv id
  | str s => exact space_le_of_mem_writeStr hc
  | arr items ih =>
    have hplain := (plainItems_iff items).mp hv
    rw [write, writeItems_eq_map, List.mem_cons, List.mem_append, List.mem_singleton,
      mem_joinComma hcomma] at hc
    rcases hc with hopen | ⟨text, htext, hc⟩ | hclose
    · exact hstructural (by simp [Structural]) hopen
    · obtain ⟨v, hmem, rfl⟩ := List.mem_map.mp htext
      exact ih v hmem (hplain v hmem) hc
    · exact hstructural (by simp [Structural]) hclose
  | obj members ih =>
    have hplain := (plainMembers_iff members).mp hv.2
    rw [write, writeMembers_eq_map, List.mem_cons, List.mem_append, List.mem_singleton,
      mem_joinComma hcomma] at hc
    rcases hc with hopen | ⟨text, htext, hc⟩ | hclose
    · exact hstructural (by simp [Structural]) hopen
    · obtain ⟨m, hmem, rfl⟩ := List.mem_map.mp htext
      rw [writeMember, List.mem_append, List.mem_cons] at hc
      rcases hc with hc | hc | hc
      · exact space_le_of_mem_writeStr hc
      · exact hstructural (by simp [Structural]) hc
      · exact ih m hmem (hplain m hmem) hc
    · exact hstructural (by simp [Structural]) hclose

end ContributorGateway.Json
