import ContributorGateway.Foundation.JsonUnicode
import Mathlib.Data.List.TakeWhile

/-!
# Inside and outside of strings

Quotes divide a JSON text into its strings and what stands around them. What the reader
accepts ends outside of a string, and has no backslash around its strings. A piece of a text
that begins inside of a string exchanges the two, so that a reader of the piece takes the
structure of the text for strings.
-/

namespace ContributorGateway.Json

/-! ## Places -/

/-- Where a character of a JSON text stands. -/
inductive Place where
  | outside
  | inside
  /-- After a backslash inside of a string. -/
  | escaped
  deriving DecidableEq

/-- The place after a character. -/
def Place.after : Place → Char → Place
  | outside, c => if c = '"' then inside else outside
  | inside, c => if c = '"' then outside else if c = '\\' then escaped else inside
  | escaped, _ => inside

/-- The place after a text. -/
def Place.afterText (place : Place) (text : List Char) : Place := text.foldl Place.after place

/-- The letters of escapes. -/
def isEscapeLetter (c : Char) : Prop := c = 'u' ∨ simpleEscape c ≠ none

/-- A character is allowed in its place, given what may stand around and in strings. -/
def Place.Permits (around within : Char → Prop) : Place → Char → Prop
  | outside, c => c = '"' ∨ around c
  | inside, c => c = '"' ∨ within c
  | escaped, c => isEscapeLetter c ∧ within c

/-- Every character is allowed in its place. -/
def Place.Reads (around within : Char → Prop) : Place → List Char → Prop
  | _, [] => True
  | place, c :: text => place.Permits around within c ∧ (place.after c).Reads around within text

variable {around around' within within' : Char → Prop} {place : Place}

@[simp] theorem Place.afterText_nil : place.afterText [] = place := rfl

@[simp] theorem Place.afterText_cons (c : Char) (text : List Char) :
    place.afterText (c :: text) = (place.after c).afterText text := rfl

@[simp] theorem Place.afterText_append (front back : List Char) :
    place.afterText (front ++ back) = (place.afterText front).afterText back :=
  List.foldl_append

@[simp] theorem Place.reads_append {front back : List Char} :
    place.Reads around within (front ++ back) ↔
      place.Reads around within front ∧ (place.afterText front).Reads around within back := by
  induction front generalizing place with
  | nil => simp [Place.Reads]
  | cons c front ih => simp only [List.cons_append, Place.Reads, ih, afterText_cons, and_assoc]

/-- More is allowed. -/
theorem Place.Reads.mono {text : List Char} (h : place.Reads around within text)
    (haround : ∀ c, around c → around' c) (hwithin : ∀ c, within c → within' c) :
    place.Reads around' within' text := by
  induction text generalizing place with
  | nil => trivial
  | cons c text ih =>
    obtain ⟨hc, htext⟩ := h
    refine ⟨?_, ih htext⟩
    cases place with
    | outside => exact hc.imp_right (haround c)
    | inside => exact hc.imp_right (hwithin c)
    | escaped => exact ⟨hc.1, hwithin c hc.2⟩

/-- Without quotes a text stays around the strings. -/
theorem afterText_bare {text : List Char} (htext : ∀ c ∈ text, c ≠ '"') :
    Place.outside.afterText text = .outside := by
  induction text with
  | nil => rfl
  | cons c text ih =>
    rw [Place.afterText_cons, Place.after, if_neg (htext c (by simp))]
    exact ih fun d hd => htext d (by simp [hd])

/-- Without quotes a text is allowed where its characters are. -/
theorem reads_bare {text : List Char} (htext : ∀ c ∈ text, c ≠ '"' ∧ around c) :
    Place.outside.Reads around within text := by
  induction text with
  | nil => trivial
  | cons c text ih =>
    obtain ⟨hquote, hc⟩ := htext c (by simp)
    refine ⟨Or.inr hc, ?_⟩
    rw [Place.after, if_neg hquote]
    exact ih fun d hd => htext d (by simp [hd])

/-- **Exchange.** A piece that begins inside of a string of a text, and that is read from the
outside, has in its strings what may stand around the strings of the text. -/
theorem reads_exchanged {text : List Char} (haround : ¬ around '\\') :
    (Place.inside.Reads around within text → Place.outside.Reads (· ≠ '\\') within' text →
      Place.outside.Reads (· ≠ '\\') around text) ∧
    (Place.outside.Reads around within text → Place.inside.Reads (· ≠ '\\') within' text →
      Place.inside.Reads (· ≠ '\\') around text) := by
  induction text with
  | nil => exact ⟨fun _ _ => trivial, fun _ _ => trivial⟩
  | cons c text ih =>
    by_cases hquote : c = '"'
    · subst hquote
      exact ⟨fun h h' => ⟨Or.inl rfl, ih.2 h.2 h'.2⟩, fun h h' => ⟨Or.inl rfl, ih.1 h.2 h'.2⟩⟩
    · by_cases hslash : c = '\\'
      · subst hslash
        constructor
        · rintro - ⟨h' | h', -⟩
          · exact absurd h' hquote
          · exact absurd rfl h'
        · rintro ⟨h | h, -⟩ -
          · exact absurd h hquote
          · exact absurd h haround
      · have hstay : Place.inside.after c = .inside ∧ Place.outside.after c = .outside := by
          simp [Place.after, hquote, hslash]
        constructor
        · rintro ⟨-, h⟩ ⟨-, h'⟩
          refine ⟨Or.inr hslash, ?_⟩
          rw [hstay.1] at h
          rw [hstay.2] at h' ⊢
          exact ih.1 h h'
        · rintro ⟨hc, h⟩ ⟨-, h'⟩
          refine ⟨Or.inr (hc.resolve_left hquote), ?_⟩
          rw [hstay.2] at h
          rw [hstay.1] at h' ⊢
          exact ih.2 h h'

/-! ## What the reader takes -/

/-- What the reader took of a text in front of the rest. -/
def Took (text rest : List Char) (P : List Char → Prop) : Prop :=
  ∃ used, text = used ++ rest ∧ P used

/-- A text that begins and ends around strings, and has no backslash around them. -/
def Balanced (used : List Char) : Prop :=
  Place.outside.afterText used = .outside ∧
    Place.outside.Reads (· ≠ '\\') (fun _ => True) used

/-- A text without quotes and backslashes. -/
def Bare (text : List Char) : Prop := ∀ c ∈ text, c ≠ '"' ∧ c ≠ '\\'

theorem Bare.balanced {text : List Char} (h : Bare text) : Balanced text :=
  ⟨afterText_bare fun c hc => (h c hc).1, reads_bare h⟩

theorem Bare.append {front back : List Char} (hfront : Bare front) (hback : Bare back) :
    Bare (front ++ back) := by
  intro c hc
  rcases List.mem_append.mp hc with hc | hc
  · exact hfront c hc
  · exact hback c hc

theorem Balanced.append {front back : List Char} (hfront : Balanced front)
    (hback : Balanced back) : Balanced (front ++ back) := by
  refine ⟨by rw [Place.afterText_append, hfront.1, hback.1], ?_⟩
  rw [Place.reads_append, hfront.1]
  exact ⟨hfront.2, hback.2⟩

/-- Digits are neither quotes nor backslashes. -/
theorem bare_takeWhile_isDigit (text : List Char) : Bare (text.takeWhile Char.isDigit) := by
  intro c hc
  have hdigit := List.mem_takeWhile_imp hc
  constructor <;> rintro rfl <;> exact absurd hdigit (by decide)

/-- Whitespace is skipped. -/
theorem took_skipSpace (text : List Char) : Took text (skipSpace text) Bare := by
  refine ⟨_, (List.takeWhile_append_dropWhile (p := fun c =>
    c = ' ' || c = '\t' || c = '\n' || c = '\r')).symm, fun c hc => ?_⟩
  have hspace := List.mem_takeWhile_imp hc
  constructor <;> rintro rfl <;> exact absurd hspace (by decide)

/-- The integer part of a number. -/
theorem took_spanInteger (text : List Char) :
    text = (spanInteger text).1 ++ (spanInteger text).2 ∧ Bare (spanInteger text).1 := by
  unfold spanInteger
  split
  · rename_i tail htail
    obtain ⟨rest, rfl⟩ : ∃ rest, text = '0' :: rest := by
      cases text with
      | nil => cases htail
      | cons c rest =>
        rw [List.takeWhile_cons] at htail
        split_ifs at htail
        obtain ⟨rfl, -⟩ := List.cons.inj htail
        exact ⟨rest, rfl⟩
    exact ⟨rfl, by simp [Bare]⟩
  · exact ⟨List.takeWhile_append_dropWhile.symm, bare_takeWhile_isDigit text⟩

/-- The fraction of a number. -/
theorem took_spanFraction (text : List Char) :
    text = (spanFraction text).1 ++ (spanFraction text).2 ∧ Bare (spanFraction text).1 := by
  unfold spanFraction
  split
  · rename_i rest
    split_ifs
    · exact ⟨rfl, by simp [Bare]⟩
    · have hpoint : Bare ['.'] := by simp [Bare]
      exact ⟨by simp, hpoint.append (bare_takeWhile_isDigit rest)⟩
  · exact ⟨rfl, by simp [Bare]⟩

/-- The exponent of a number. -/
theorem took_spanExponent (text : List Char) :
    text = (spanExponent text).1 ++ (spanExponent text).2 ∧ Bare (spanExponent text).1 := by
  unfold spanExponent
  split
  · rename_i e rest
    split_ifs with he
    · have hletter : Bare [e] := by
        rcases he with rfl | rfl <;> simp [Bare]
      dsimp only
      split
      · rename_i digits
        dsimp only
        split_ifs
        · exact ⟨rfl, by simp [Bare]⟩
        · have hplus : Bare ['+'] := by simp [Bare]
          exact ⟨by simp, hletter.append (hplus.append (bare_takeWhile_isDigit digits))⟩
      · rename_i digits
        dsimp only
        split_ifs
        · exact ⟨rfl, by simp [Bare]⟩
        · have hminus : Bare ['-'] := by simp [Bare]
          exact ⟨by simp, hletter.append (hminus.append (bare_takeWhile_isDigit digits))⟩
      · dsimp only
        split_ifs
        · exact ⟨rfl, by simp [Bare]⟩
        · exact ⟨by simp, by simpa using hletter.append (bare_takeWhile_isDigit rest)⟩
    · exact ⟨rfl, by simp [Bare]⟩
  · exact ⟨rfl, by simp [Bare]⟩

/-- A number has neither quotes nor backslashes. -/
theorem took_parseUnsigned {negative : Bool} {text rest : List Char} {v : Json}
    (h : parseUnsigned negative text = some (v, rest)) : Took text rest Bare := by
  obtain ⟨hinteger, hdigits⟩ := took_spanInteger text
  obtain ⟨hfraction, hfraction'⟩ := took_spanFraction (spanInteger text).2
  obtain ⟨hexponent, hexponent'⟩ := took_spanExponent (spanFraction (spanInteger text).2).2
  have hrest : rest = (spanExponent (spanFraction (spanInteger text).2).2).2 := by
    unfold parseUnsigned at h
    dsimp only at h
    split_ifs at h <;> exact (Prod.mk.inj (Option.some.inj h)).2.symm
  refine ⟨(spanInteger text).1 ++ (spanFraction (spanInteger text).2).1 ++
    (spanExponent (spanFraction (spanInteger text).2).2).1, ?_, (hdigits.append hfraction').append
      hexponent'⟩
  rw [hrest, List.append_assoc, ← hexponent, List.append_assoc, ← hfraction, ← hinteger]

/-- A number is no object. -/
theorem parseUnsigned_ne_obj {negative : Bool} {text rest : List Char} {v : Json}
    (h : parseUnsigned negative text = some (v, rest)) (members : List (String × Json)) :
    v ≠ .obj members := by
  unfold parseUnsigned at h
  dsimp only at h
  split_ifs at h <;> cases h <;> simp

/-- A hexadecimal digit is neither a quote nor a backslash. -/
theorem ne_of_hexValue {c : Char} {n : ℕ} (h : hexValue c = some n) : c ≠ '"' ∧ c ≠ '\\' := by
  constructor <;> rintro rfl <;> exact absurd h (by simp [hexValue])

/-- A string body up to its closing quote ends outside; without backslashes its code units are
those of its characters. -/
structure UnitsTaken (units : List ℕ) (used : List Char) : Prop where
  ends : Place.inside.afterText used = .outside
  reads : Place.inside.Reads (· ≠ '\\') (fun _ => True) used
  plain : ∀ within : Char → Prop, ¬ within '\\' → Place.inside.Reads (· ≠ '\\') within used →
    ∃ body : List Char, units = body.map Char.toNat ∧ ∀ c ∈ body, within c

/-- Characters inside of a string that do not end it. -/
theorem afterText_within {text : List Char} (htext : Bare text) :
    Place.inside.afterText text = .inside ∧ Place.inside.Reads around (fun _ => True) text := by
  induction text with
  | nil => exact ⟨rfl, trivial⟩
  | cons c text ih =>
    obtain ⟨hquote, hslash⟩ := htext c (by simp)
    have hstay : Place.inside.after c = .inside := by simp [Place.after, hquote, hslash]
    obtain ⟨hafter, hreads⟩ := ih fun d hd => htext d (by simp [hd])
    rw [Place.afterText_cons, hstay]
    refine ⟨hafter, Or.inr trivial, ?_⟩
    rwa [hstay]

/-- An escape in front of a string body. -/
theorem UnitsTaken.escape {used : List Char} {units : List ℕ} (h : UnitsTaken units used)
    (unit : ℕ) {e : Char} (he : isEscapeLetter e) {digits : List Char} (hdigits : Bare digits) :
    UnitsTaken (unit :: units) ('\\' :: e :: (digits ++ used)) := by
  obtain ⟨hafter, hreads⟩ := afterText_within hdigits
  have hslash : Place.inside.after '\\' = .escaped := rfl
  have hletter : Place.escaped.after e = .inside := rfl
  refine ⟨?_, ?_, ?_⟩
  · rw [Place.afterText_cons, Place.afterText_cons, hslash, hletter, Place.afterText_append,
      hafter, h.ends]
  · refine ⟨Or.inr trivial, ⟨he, trivial⟩, ?_⟩
    rw [hslash, hletter, Place.reads_append, hafter]
    exact ⟨hreads, h.reads⟩
  · rintro within hwithin ⟨h | h, -⟩
    · cases h
    · exact absurd h hwithin

/-- The units of a string body, up to its closing quote. -/
theorem took_parseUnits {text rest : List Char} {units : List ℕ}
    (h : parseUnits text = some (units, rest)) : Took text rest (UnitsTaken units) := by
  induction text using parseUnits.induct generalizing units with
  | case1 => cases h
  | case2 rest' =>
    cases h
    refine ⟨['"'], rfl, rfl, ⟨Or.inl rfl, trivial⟩, fun within _ _ => ⟨[], rfl, by simp⟩⟩
  | case3 a b c d rest' ih =>
    simp only [parseUnits, Option.bind_eq_bind, Option.bind_eq_some_iff, Option.pure_def,
      Option.some.injEq, Prod.mk.injEq, Prod.exists] at h
    obtain ⟨unit, hunit, units', rest'', hunits, rfl, rfl⟩ := h
    obtain ⟨used, rfl, hused⟩ := ih hunits
    have hdigits : Bare [a, b, c, d] := by
      simp only [hex4Value, Option.bind_eq_bind, Option.bind_eq_some_iff] at hunit
      obtain ⟨_, ha, _, hb, _, hc, _, hd, -⟩ := hunit
      intro x hx
      simp only [List.mem_cons, List.not_mem_nil, or_false] at hx
      rcases hx with rfl | rfl | rfl | rfl
      · exact ne_of_hexValue ha
      · exact ne_of_hexValue hb
      · exact ne_of_hexValue hc
      · exact ne_of_hexValue hd
    exact ⟨_, rfl, hused.escape unit (Or.inl rfl) hdigits⟩
  | case4 e rest' hu ih =>
    rw [parseUnits.eq_4 e rest' hu] at h
    simp only [Option.bind_eq_bind, Option.bind_eq_some_iff, Option.pure_def, Option.some.injEq,
      Prod.mk.injEq, Prod.exists] at h
    obtain ⟨unit, hunit, units', rest'', hunits, rfl, rfl⟩ := h
    obtain ⟨used, rfl, hused⟩ := ih hunits
    have hletter : isEscapeLetter e := Or.inr (by simp [hunit])
    have hnone : Bare [] := by simp [Bare]
    exact ⟨_, rfl, hused.escape unit hletter hnone⟩
  | case5 c rest' hquote hu he hplain =>
    rw [parseUnits.eq_5 c rest' hquote hu he, if_pos hplain] at h
    cases h
  | case6 c rest' hquote hu he hplain ih =>
    rw [parseUnits.eq_5 c rest' hquote hu he, if_neg hplain] at h
    simp only [Option.bind_eq_bind, Option.bind_eq_some_iff, Option.pure_def, Option.some.injEq,
      Prod.mk.injEq, Prod.exists] at h
    obtain ⟨units', rest'', hunits, rfl, rfl⟩ := h
    obtain ⟨used, rfl, hused⟩ := ih hunits
    have hslash : c ≠ '\\' := fun hslash => hplain (Or.inr hslash)
    have hstay : Place.inside.after c = .inside := by
      rw [Place.after, if_neg hquote, if_neg hslash]
    refine ⟨c :: used, rfl, ?_, ⟨Or.inr trivial, by rw [hstay]; exact hused.reads⟩, ?_⟩
    · rw [Place.afterText_cons, hstay, hused.ends]
    · rintro within hwithin ⟨hc, hreads⟩
      rw [hstay] at hreads
      obtain ⟨body, rfl, hbody⟩ := hused.plain within hwithin hreads
      refine ⟨c :: body, rfl, ?_⟩
      intro d hd
      rcases List.mem_cons.mp hd with rfl | hd
      · exact hc.resolve_left hquote
      · exact hbody d hd

/-- A string up to its closing quote ends outside, and without backslashes its characters are
those of the text. -/
structure StringTaken (s : String) (used : List Char) : Prop where
  ends : Place.inside.afterText used = .outside
  reads : Place.inside.Reads (· ≠ '\\') (fun _ => True) used
  plain : ∀ within : Char → Prop, ¬ within '\\' → Place.inside.Reads (· ≠ '\\') within used →
    ∀ c ∈ s.toList, within c

/-- The reader takes a string up to its closing quote. -/
theorem took_parseString {text rest : List Char} {s : String}
    (h : parseString text = some (s, rest)) : Took text rest (StringTaken s) := by
  simp only [parseString, Option.bind_eq_bind, Option.bind_eq_some_iff, Option.pure_def,
    Option.some.injEq, Prod.mk.injEq, Prod.exists] at h
  obtain ⟨units, rest', hunits, chars, hchars, rfl, rfl⟩ := h
  obtain ⟨used, rfl, hused⟩ := took_parseUnits hunits
  refine ⟨used, rfl, hused.ends, hused.reads, fun within hwithin hreads => ?_⟩
  obtain ⟨body, rfl, hbody⟩ := hused.plain within hwithin hreads
  rw [joinUnits_toNat, Option.some.injEq] at hchars
  rw [String.toList_ofList, ← hchars]
  exact hbody

/-- A quoted string is balanced. -/
theorem StringTaken.balanced {s : String} {used : List Char} (h : StringTaken s used) :
    Balanced ('"' :: used) :=
  ⟨h.ends, Or.inl rfl, h.reads⟩

/-- What the reader took for the members of an object: their keys are texts of its strings. -/
structure MembersTaken (members : List (String × Json)) (used : List Char) : Prop where
  balanced : Balanced used
  keys : ∀ within : Char → Prop, ¬ within '\\' → Place.outside.Reads (· ≠ '\\') within used →
    ∀ m ∈ members, ∀ c ∈ m.1.toList, within c

/-- No members take nothing. -/
theorem MembersTaken.nil : MembersTaken [] [] :=
  ⟨⟨rfl, trivial⟩, fun _ _ _ m hm => by cases hm⟩

/-- A member in front of others. -/
theorem MembersTaken.cons {key : String} {v : Json} {members : List (String × Json)}
    {front body middle used : List Char} (hfront : Balanced front) (hkey : StringTaken key body)
    (hmiddle : Balanced middle) (h : MembersTaken members used) :
    MembersTaken ((key, v) :: members) (front ++ ('"' :: body ++ (middle ++ used))) := by
  have hquoted := hkey.balanced
  refine ⟨hfront.append (hquoted.append (hmiddle.append h.balanced)), ?_⟩
  intro within hwithin hreads m hm
  rw [Place.reads_append, hfront.1, Place.reads_append, hquoted.1, Place.reads_append, hmiddle.1]
    at hreads
  obtain ⟨-, ⟨-, hbody⟩, -, hused⟩ := hreads
  rcases List.mem_cons.mp hm with rfl | hm
  · exact hkey.plain within hwithin hbody
  · exact h.keys within hwithin hused m hm

/-- What the reader took for a value. -/
structure ValueTaken (v : Json) (used : List Char) : Prop where
  balanced : Balanced used
  keys : ∀ members, v = .obj members → ∀ within : Char → Prop, ¬ within '\\' →
    Place.outside.Reads (· ≠ '\\') within used → ∀ m ∈ members, ∀ c ∈ m.1.toList, within c

/-- A value that is no object. -/
theorem Balanced.value {v : Json} {used : List Char} (h : Balanced used)
    (hv : ∀ members, v ≠ .obj members) : ValueTaken v used :=
  ⟨h, fun members hobj => absurd hobj (hv members)⟩

/-- What is taken one after another. -/
theorem Took.append {text middle rest : List Char} {P Q R : List Char → Prop}
    (h : Took text middle P) (h' : Took middle rest Q)
    (hR : ∀ used used', P used → Q used' → R (used ++ used')) : Took text rest R := by
  obtain ⟨used, rfl, hused⟩ := h
  obtain ⟨used', rfl, hused'⟩ := h'
  exact ⟨used ++ used', by rw [List.append_assoc], hR used used' hused hused'⟩

theorem Took.mono {text rest : List Char} {P Q : List Char → Prop} (h : Took text rest P)
    (hPQ : ∀ used, P used → Q used) : Took text rest Q := by
  obtain ⟨used, htext, hused⟩ := h
  exact ⟨used, htext, hPQ used hused⟩

/-- Whitespace and characters of the structure. -/
theorem took_token {text rest : List Char} (token : List Char) (h : skipSpace text = token ++ rest)
    (htoken : Bare token) : Took text rest Balanced := by
  have hspace := took_skipSpace text
  rw [h] at hspace
  exact hspace.append ⟨token, rfl, htoken⟩ fun _ _ hused hused' => (hused.append hused').balanced

/-- A quoted string after whitespace. -/
theorem took_quoted {text rest rest' : List Char} {s : String}
    (h : skipSpace text = '"' :: rest) (hs : parseString rest = some (s, rest')) :
    ∃ front body, text = front ++ ('"' :: body ++ rest') ∧ Balanced front ∧ StringTaken s body := by
  obtain ⟨front, htext, hfront⟩ := took_skipSpace text
  obtain ⟨body, rfl, hbody⟩ := took_parseString hs
  exact ⟨front, body, by rw [htext, h]; rfl, hfront.balanced, hbody⟩

/-- The members of an object with the keys that later ones overwrite left out. -/
theorem mem_of_mem_dropOverwritten {m : String × Json} {members : List (String × Json)}
    (h : m ∈ dropOverwritten members) : m ∈ members := by
  induction members with
  | nil => exact h
  | cons first members ih =>
    rw [dropOverwritten] at h
    split_ifs at h
    · exact List.mem_cons_of_mem _ (ih h)
    · rcases List.mem_cons.mp h with rfl | h
      · exact List.mem_cons_self ..
      · exact List.mem_cons_of_mem _ (ih h)

/-- The reader takes balanced texts. -/
theorem took_parse (fuel : ℕ) :
    (∀ text v rest, parseValue fuel text = some (v, rest) → Took text rest (ValueTaken v)) ∧
    (∀ text vs rest, parseItems fuel text = some (vs, rest) → Took text rest Balanced) ∧
    ∀ text ms rest, parseMembers fuel text = some (ms, rest) →
      Took text rest (MembersTaken ms) := by
  induction fuel with
  | zero =>
    refine ⟨fun text v rest h => ?_, fun text vs rest h => ?_, fun text ms rest h => ?_⟩
    · simp [parseValue] at h
    · simp [parseItems] at h
    · simp [parseMembers] at h
  | succ fuel ih =>
    obtain ⟨ihValue, ihItems, ihMembers⟩ := ih
    refine ⟨fun text v rest h => ?_, fun text vs rest h => ?_, fun text ms rest h => ?_⟩
    · rw [parseValue] at h
      split at h
      · next rest₁ hquote =>
        obtain ⟨⟨s, rest₂⟩, hs, h⟩ := Option.map_eq_some_iff.mp h
        cases h
        obtain ⟨front, body, rfl, hfront, hbody⟩ := took_quoted hquote hs
        exact ⟨front ++ ('"' :: body), by simp, (hfront.append hbody.balanced).value (by simp)⟩
      · next rest₁ hopen =>
        have htaken := took_token ['['] hopen (by simp [Bare])
        split at h
        · next rest₂ hclose =>
          cases h
          exact (htaken.append (took_token [']'] hclose (by simp [Bare])) fun _ _ =>
            Balanced.append).mono fun _ hused => hused.value (by simp)
        · obtain ⟨⟨vs, rest₂⟩, hvs, h⟩ := Option.map_eq_some_iff.mp h
          cases h
          have hspace := (took_skipSpace rest₁).mono fun _ => Bare.balanced
          exact ((htaken.append hspace fun _ _ => Balanced.append).append (ihItems _ vs _ hvs)
            fun _ _ => Balanced.append).mono fun _ hused => hused.value (by simp)
      · next rest₁ hopen =>
        have htaken := took_token ['{'] hopen (by simp [Bare])
        split at h
        · next rest₂ hclose =>
          cases h
          refine (htaken.append (took_token ['}'] hclose (by simp [Bare])) fun _ _ =>
            Balanced.append).mono fun _ hused => ⟨hused, ?_⟩
          rintro members hnil within - - m hm
          cases hnil
          cases hm
        · obtain ⟨⟨ms, rest₂⟩, hms, h⟩ := Option.map_eq_some_iff.mp h
          cases h
          have hspace := (took_skipSpace rest₁).mono fun _ => Bare.balanced
          refine (htaken.append hspace fun _ _ => Balanced.append).append (ihMembers _ ms _ hms)
            fun front used hfront hused => ⟨hfront.append hused.balanced, ?_⟩
          rintro members hobj within hwithin hreads m hm
          cases hobj
          rw [Place.reads_append, hfront.1] at hreads
          exact hused.keys within hwithin hreads.2 m (mem_of_mem_dropOverwritten hm)
      · next rest₁ hliteral =>
        cases h
        exact (took_token ['n', 'u', 'l', 'l'] hliteral (by simp [Bare])).mono
          fun _ hused => hused.value (by simp)
      · next rest₁ hliteral =>
        cases h
        exact (took_token ['t', 'r', 'u', 'e'] hliteral (by simp [Bare])).mono
          fun _ hused => hused.value (by simp)
      · next rest₁ hliteral =>
        cases h
        exact (took_token ['f', 'a', 'l', 's', 'e'] hliteral (by simp [Bare])).mono
          fun _ hused => hused.value (by simp)
      · next rest₁ hliteral =>
        cases h
        exact (took_token ['N', 'a', 'N'] hliteral (by simp [Bare])).mono
          fun _ hused => hused.value (by simp)
      · next rest₁ hliteral =>
        cases h
        exact (took_token ['I', 'n', 'f', 'i', 'n', 'i', 't', 'y'] hliteral (by simp [Bare])).mono
          fun _ hused => hused.value (by simp)
      · next rest₁ hliteral =>
        cases h
        exact (took_token ['-', 'I', 'n', 'f', 'i', 'n', 'i', 't', 'y'] hliteral
          (by simp [Bare])).mono fun _ hused => hused.value (by simp)
      · next rest₁ _ hminus =>
        have hnumber := (took_parseUnsigned h).mono fun _ => Bare.balanced
        exact ((took_token ['-'] hminus (by simp [Bare])).append hnumber fun _ _ =>
          Balanced.append).mono fun _ hused => hused.value (parseUnsigned_ne_obj h)
      · have hnumber := (took_parseUnsigned h).mono fun _ => Bare.balanced
        have hspace := (took_skipSpace text).mono fun _ => Bare.balanced
        exact (hspace.append hnumber fun _ _ => Balanced.append).mono
          fun _ hused => hused.value (parseUnsigned_ne_obj h)
    · simp only [parseItems, Option.bind_eq_bind, Option.bind_eq_some_iff, Prod.exists] at h
      obtain ⟨v, rest₁, hv, h⟩ := h
      have hvalue := (ihValue text v rest₁ hv).mono fun _ hused => hused.balanced
      split at h
      · next rest₂ hcomma =>
        simp only [Option.bind_eq_some_iff, Prod.exists] at h
        obtain ⟨vs', rest₃, hvs, h⟩ := h
        cases h
        have hfront := hvalue.append (took_token [','] hcomma (by simp [Bare]))
          fun _ _ => Balanced.append
        exact hfront.append (ihItems rest₂ vs' rest hvs) fun _ _ => Balanced.append
      · next rest₂ hclose =>
        cases h
        exact hvalue.append (took_token [']'] hclose (by simp [Bare]))
          fun _ _ => Balanced.append
      · cases h
    · rw [parseMembers] at h
      split at h
      · next rest₁ hquote =>
        simp only [Option.bind_eq_bind, Option.bind_eq_some_iff, Prod.exists] at h
        obtain ⟨key, rest₂, hkey, h⟩ := h
        obtain ⟨front, body, rfl, hfront, hbody⟩ := took_quoted hquote hkey
        split at h
        · next rest₃ hcolon =>
          simp only [Option.bind_eq_some_iff, Prod.exists] at h
          obtain ⟨v, rest₄, hv, h⟩ := h
          have hvalue := (ihValue rest₃ v rest₄ hv).mono fun _ hused => hused.balanced
          have hbefore := (took_token [':'] hcolon (by simp [Bare])).append hvalue
            fun _ _ => Balanced.append
          split at h
          · next rest₅ hcomma =>
            simp only [Option.bind_eq_some_iff, Prod.exists] at h
            obtain ⟨ms', rest₆, hms, h⟩ := h
            cases h
            obtain ⟨middle, htext, hmiddle⟩ := hbefore.append
              (took_token [','] hcomma (by simp [Bare])) fun _ _ => Balanced.append
            obtain ⟨used, rfl, hused⟩ := ihMembers rest₅ ms' rest hms
            rw [htext]
            exact ⟨_, by simp, MembersTaken.cons hfront hbody hmiddle hused⟩
          · next rest₅ hclose =>
            cases h
            obtain ⟨middle, htext, hmiddle⟩ := hbefore.append
              (took_token ['}'] hclose (by simp [Bare])) fun _ _ => Balanced.append
            rw [htext]
            exact ⟨_, by simp, MembersTaken.cons hfront hbody hmiddle MembersTaken.nil⟩
          · cases h
        · cases h
      · cases h

/-- What `json.loads` accepts is balanced, and its keys are texts of its strings. -/
theorem loads_taken {text : List Char} {v : Json} (h : loads text = some v) :
    ValueTaken v text := by
  unfold loads at h
  split at h
  · next v' rest hvalue =>
    split_ifs at h with hend
    cases h
    have htaken := (took_parse _).1 text v rest hvalue
    have hspace := took_skipSpace rest
    rw [hend] at hspace
    obtain ⟨used, htext, hused⟩ := htaken.append hspace (R := ValueTaken v) fun front used hfront
        hused =>
      ⟨hfront.balanced.append hused.balanced, fun members hobj within hwithin hreads => by
        rw [Place.reads_append, hfront.balanced.1] at hreads
        exact hfront.keys members hobj within hwithin hreads.1⟩
    rw [List.append_nil] at htext
    rwa [htext]
  · cases h

end ContributorGateway.Json
