import ContributorGateway.Foundation.Base64
import ContributorGateway.Foundation.TextLines

/-!
# Content IDs

Both repositories name a file by a tag and the base64 text of its commit, a NUL and its
path. `decode_content_id` and `decode_gateway_id` read the commit and the path in the same
order of checks, with their own messages.
-/

namespace ContributorGateway

/-- `MAX_CONTENT_ID_CHARS`. -/
def maxContentIdChars : ℕ := 8192

/-- `^[0-9a-f]{40}$`. -/
def isCommit (commit : List Char) : Bool :=
  commit.length = 40 && commit.all fun c => ('0' ≤ c && c ≤ '9') || ('a' ≤ c && c ≤ 'f')

/-- A kind of content IDs: its tag, the messages of its decoder in the order of the checks,
and how the decoder reads the bytes of the commit. -/
structure IdFormat where
  tag : List Char
  oversized : String
  alphabet : String
  malformed : String
  separator : String
  encoding : String
  commit : String
  decodeCommit : List UInt8 → Option (List Char)

namespace IdFormat

variable (F : IdFormat)

/-- The ID of a commit and a path. -/
def text (commit path : List Char) : List Char :=
  F.tag ++ Base64.encode (utf8Encode (commit ++ nul :: path))

/-- The commit and the path that an ID spells. -/
def payload (contentId : List Char) : Except String (List Char × List Char) :=
  if ¬ F.tag.isPrefixOf contentId ∨ maxContentIdChars < contentId.length then .error F.oversized
  else
    let encoded := contentId.drop F.tag.length
    if encoded = [] ∨ ¬ encoded.all Base64.isDigit then .error F.alphabet
    else
      match Base64.decode encoded with
      | none => .error F.malformed
      | some raw =>
          if raw.count 0 ≠ 1 then .error F.separator
          else
            match F.decodeCommit (raw.takeWhile (· ≠ 0)),
              utf8Decode ((raw.dropWhile (· ≠ 0)).drop 1) with
            | some commit, some path =>
                if isCommit commit then .ok (commit, path) else .error F.commit
            | _, _ => .error F.encoding

/-- The bits that the last character of an ID leaves over. -/
def leftover (contentId : List Char) : ℕ :=
  Base64.leftover ((contentId.drop F.tag.length).map Base64.value)

/-- The path that the bytes of an ID spell after their first NUL. -/
def spelledPath (contentId : List Char) : Option (List Char) :=
  (Base64.decode (contentId.drop F.tag.length)).bind fun raw =>
    utf8Decode ((raw.dropWhile (· ≠ 0)).drop 1)

/-- The commit is read as a part of UTF-8. -/
def ReadsUtf8 : Prop := ∀ bytes text, F.decodeCommit bytes = some text → utf8Encode text = bytes

variable {F} {contentId commit path : List Char}

/-- What is checked of an ID whose payload is read. -/
theorem payload_eq_ok (h : F.payload contentId = .ok (commit, path)) :
    contentId = F.tag ++ contentId.drop F.tag.length ∧ contentId.length ≤ maxContentIdChars ∧
      isCommit commit = true ∧ ∃ raw, Base64.decode (contentId.drop F.tag.length) = some raw ∧
        raw.count 0 = 1 ∧ F.decodeCommit (raw.takeWhile (· ≠ 0)) = some commit ∧
        utf8Decode ((raw.dropWhile (· ≠ 0)).drop 1) = some path := by
  unfold payload at h
  dsimp only at h
  split_ifs at h with hfront hdigits
  rw [not_or, not_not, not_lt] at hfront
  obtain ⟨rest, hrest⟩ := List.isPrefixOf_iff_prefix.mp hfront.1
  split at h
  · simp at h
  · next raw hraw =>
    split_ifs at h with hcount
    rw [not_not] at hcount
    split at h
    · next commit' path' hcommit hpath =>
      split_ifs at h with hpattern
      obtain ⟨rfl, rfl⟩ := Prod.mk.injEq _ _ _ _ ▸ Except.ok.inj h
      refine ⟨?_, hfront.2, hpattern, raw, hraw, hcount, hcommit, hpath⟩
      rw [← hrest, List.drop_left]
    · simp at h

/-- Bytes with a NUL are those before the first one, the NUL and the rest. -/
theorem takeWhile_append_zero {raw : List UInt8} (h : 0 ∈ raw) :
    raw.takeWhile (· ≠ 0) ++ 0 :: (raw.dropWhile (· ≠ 0)).drop 1 = raw := by
  induction raw with
  | nil => simp at h
  | cons b rest ih =>
    by_cases hb : b = 0
    · simp [hb]
    · have hrest : 0 ∈ rest := by simpa [Ne.symm hb] using h
      have hcons := ih hrest
      simp only [ne_eq, hb, not_false_eq_true, decide_true, List.takeWhile_cons, List.dropWhile_cons,
        if_true, List.cons_append] at hcons ⊢
      rw [hcons]

/-- The bytes of a read payload are those of the commit, a NUL and the path. -/
theorem decode_of_payload (hF : F.ReadsUtf8) (h : F.payload contentId = .ok (commit, path)) :
    Base64.decode (contentId.drop F.tag.length) = some (utf8Encode (commit ++ nul :: path)) := by
  obtain ⟨-, -, -, raw, hraw, hcount, hcommit, hpath⟩ := payload_eq_ok h
  have hmem : (0 : UInt8) ∈ raw := List.count_pos_iff.mp (by omega)
  have hsplit : utf8Encode commit ++ 0 :: utf8Encode path = raw := by
    rw [hF _ _ hcommit, utf8Encode_of_utf8Decode hpath, takeWhile_append_zero hmem]
  rw [hraw, ← hsplit, utf8Encode_append]
  rfl

/-- The path of a read payload is the one that the ID spells. -/
theorem spelledPath_of_payload (h : F.payload contentId = .ok (commit, path)) :
    F.spelledPath contentId = some path := by
  obtain ⟨-, -, -, raw, hraw, -, -, hpath⟩ := payload_eq_ok h
  rw [spelledPath, hraw, Option.bind_some, hpath]

/-- Commits are as long as each other. -/
theorem length_commit (h : isCommit commit = true) : commit.length = 40 := by
  simp only [isCommit, Bool.and_eq_true, decide_eq_true_eq] at h
  exact h.1

/-- An ID whose payload is read is the one written for a commit and a path exactly when it
spells both and leaves only zeros over. -/
theorem text_eq_iff (hF : F.ReadsUtf8) (h : F.payload contentId = .ok (commit, path))
    {commit' path' : List Char} (hcommit' : isCommit commit' = true) :
    F.text commit' path' = contentId ↔
      (commit' = commit ∧ path' = path) ∧ F.leftover contentId = 0 := by
  have hdecode := decode_of_payload hF h
  have hzero := Base64.encode_eq_iff hdecode
  obtain ⟨htag, -, hcommit, -⟩ := payload_eq_ok h
  constructor
  · intro htext
    have hencoded : Base64.encode (utf8Encode (commit' ++ nul :: path')) =
        contentId.drop F.tag.length := by
      rw [← htext, text, List.drop_left]
    rw [← hencoded, Base64.decode_encode, Option.some_inj] at hdecode
    have hlength : commit'.length = commit.length := by
      rw [length_commit hcommit, length_commit hcommit']
    obtain ⟨rfl, hpath⟩ := List.append_inj (utf8Encode_injective hdecode) hlength
    exact ⟨⟨rfl, List.tail_eq_of_cons_eq hpath⟩, hzero.mp (hdecode ▸ hencoded)⟩
  · rintro ⟨⟨rfl, rfl⟩, hleft⟩
    rw [text, hzero.mpr hleft, ← htag]

/-- The characters of a commit are ASCII without NUL. -/
theorem ascii_commit (h : isCommit commit = true) : ∀ c ∈ commit, 0 < c.toNat ∧ c.toNat ≤ 0x7f := by
  simp only [isCommit, Bool.and_eq_true, List.all_eq_true] at h
  intro c hc
  have hdigit := h.2 c hc
  simp only [Bool.or_eq_true, Bool.and_eq_true, decide_eq_true_eq, Base64.char_le_iff] at hdigit
  have hcodes : '0'.toNat = 48 ∧ '9'.toNat = 57 ∧ 'a'.toNat = 97 ∧ 'f'.toNat = 102 := by decide
  omega

/-- The commit of an ID is read back. -/
def ReadsBack (F : IdFormat) : Prop :=
  ∀ text : List Char, (∀ c ∈ text, c.toNat ≤ 0x7f) → F.decodeCommit (utf8Encode text) = some text

/-- An ID that is not too long is read back as its commit and path. -/
theorem payload_text (hF : F.ReadsBack) (hcommit : isCommit commit = true) (hpath : nul ∉ path)
    (hlength : (F.text commit path).length ≤ maxContentIdChars) :
    F.payload (F.text commit path) = .ok (commit, path) := by
  have hascii := ascii_commit hcommit
  have hnul : nul ∉ commit := fun hmem => by
    have hpos := (hascii nul hmem).1
    exact absurd hpos (by decide)
  have hraw : utf8Encode (commit ++ nul :: path) = utf8Encode commit ++ 0 :: utf8Encode path := by
    rw [utf8Encode_append]
    rfl
  have hfront : ∀ b ∈ utf8Encode commit, b ≠ 0 := by
    rintro b hb rfl
    exact hnul (nul_mem_of_zero_mem hb)
  have hback : 0 ∉ utf8Encode path := fun hzero => hpath (nul_mem_of_zero_mem hzero)
  have hdrop : (F.text commit path).drop F.tag.length =
      Base64.encode (utf8Encode commit ++ 0 :: utf8Encode path) := by
    rw [text, hraw, List.drop_left]
  have hstarts : F.tag.isPrefixOf (F.text commit path) = true :=
    List.isPrefixOf_iff_prefix.mpr (List.prefix_append _ _)
  have hne : Base64.encode (utf8Encode commit ++ 0 :: utf8Encode path) ≠ [] := by
    intro hnil
    have hdecode := Base64.decode_encode (utf8Encode commit ++ 0 :: utf8Encode path)
    rw [hnil] at hdecode
    exact absurd (Option.some.inj hdecode).symm (by simp)
  have hcount : (utf8Encode commit ++ 0 :: utf8Encode path).count 0 = 1 := by
    rw [List.count_append, List.count_cons_self, List.count_eq_zero_of_not_mem hback,
      List.count_eq_zero_of_not_mem fun hzero => hfront 0 hzero rfl]
  have htake : (utf8Encode commit ++ 0 :: utf8Encode path).takeWhile (· ≠ 0) =
      utf8Encode commit := by
    rw [List.takeWhile_append_of_pos fun b hb => decide_eq_true (hfront b hb)]
    simp
  have hafter : ((utf8Encode commit ++ 0 :: utf8Encode path).dropWhile (· ≠ 0)).drop 1 =
      utf8Encode path := by
    rw [List.dropWhile_append_of_pos fun b hb => decide_eq_true (hfront b hb)]
    simp
  have hread := hF commit fun c hc => (hascii c hc).2
  rw [payload, if_neg (by simp [hstarts, not_lt.mpr hlength]), hdrop]
  dsimp only
  rw [if_neg (by simp [hne, Base64.all_isDigit_encode]), Base64.decode_encode]
  dsimp only
  rw [if_neg (not_not.mpr hcount), htake, hafter, hread, utf8Decode_utf8Encode]
  dsimp only
  rw [if_pos hcommit]

end IdFormat

end ContributorGateway
