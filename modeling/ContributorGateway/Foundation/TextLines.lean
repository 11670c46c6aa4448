import Mathlib.Data.List.Basic
import Mathlib.Data.String.Basic

/-!
# Bytes and lines

UTF-8 at the level of byte lists, and the line splitting of Python's
`bytes.splitlines`. A sequence of newline-free lines, each followed by a newline,
splits back into those lines.
-/

namespace ContributorGateway

/-- The NUL character. -/
def nul : Char := Char.ofNat 0

/-- The bytes of a text. -/
def utf8Encode (text : List Char) : List UInt8 :=
  text.flatMap String.utf8EncodeChar

/-- Read characters from the front, each from at most four bytes. -/
def utf8DecodeFrom : ℕ → List UInt8 → Option (List Char)
  | _, [] => some []
  | 0, _ :: _ => none
  | fuel + 1, b :: rest =>
      match ((b :: rest).take 4).toByteArray.utf8DecodeChar? 0 with
      | none => none
      | some c => (utf8DecodeFrom fuel ((b :: rest).drop c.utf8Size)).map (c :: ·)

/-- The text behind bytes, unless they are not UTF-8. -/
def utf8Decode (bytes : List UInt8) : Option (List Char) := utf8DecodeFrom bytes.length bytes

/-- The least and the greatest second byte behind the first one of a character of several
bytes. -/
def secondByteRange (lead : UInt8) : Option (UInt8 × UInt8) :=
  if 0xc2 ≤ lead && lead ≤ 0xdf then some (0x80, 0xbf)
  else if lead = 0xe0 then some (0xa0, 0xbf)
  else if lead = 0xed then some (0x80, 0x9f)
  else if 0xe1 ≤ lead && lead ≤ 0xef then some (0x80, 0xbf)
  else if lead = 0xf0 then some (0x90, 0xbf)
  else if 0xf1 ≤ lead && lead ≤ 0xf3 then some (0x80, 0xbf)
  else if lead = 0xf4 then some (0x80, 0x8f)
  else none

/-- How many bytes one replacement character stands for where bytes are not UTF-8: the
beginning of a character as far as it goes. -/
def malformedLength : List UInt8 → ℕ
  | lead :: second :: rest =>
      match secondByteRange lead with
      | none => 1
      | some (least, greatest) =>
          if ¬ (least ≤ second ∧ second ≤ greatest) then 1
          else if 0xf0 ≤ lead && rest.head?.any fun b => 0x80 ≤ b && b ≤ 0xbf then 3
          else 2
  | _ => 1

/-- Read characters from the front, or replacement characters where there are none. -/
def utf8ReplaceFrom : ℕ → List UInt8 → List Char
  | _, [] => []
  | 0, _ :: _ => []
  | fuel + 1, b :: rest =>
      match ((b :: rest).take 4).toByteArray.utf8DecodeChar? 0 with
      | some c => c :: utf8ReplaceFrom fuel ((b :: rest).drop c.utf8Size)
      | none =>
          Char.ofNat 0xfffd :: utf8ReplaceFrom fuel ((b :: rest).drop (malformedLength (b :: rest)))

/-- `bytes.decode("utf-8", errors="replace")`. -/
def utf8Replace (bytes : List UInt8) : List Char := utf8ReplaceFrom bytes.length bytes

/-- The first four bytes decide the first character. -/
theorem utf8DecodeChar?_take (c : Char) (rest : List UInt8) :
    ((String.utf8EncodeChar c ++ rest).take 4).toByteArray.utf8DecodeChar? 0 = some c := by
  have hlength : (String.utf8EncodeChar c).length ≤ 4 := by
    rw [String.length_utf8EncodeChar]
    exact c.utf8Size_le_four
  rw [List.take_append, List.take_of_length_le hlength, List.toByteArray_append]
  exact ByteArray.utf8DecodeChar?_utf8EncodeChar_append

/-- Decoding undoes encoding. -/
theorem utf8Decode_utf8Encode (text : List Char) : utf8Decode (utf8Encode text) = some text := by
  have hfuel : ∀ fuel, (utf8Encode text).length ≤ fuel →
      utf8DecodeFrom fuel (utf8Encode text) = some text := by
    induction text with
    | nil =>
      intro fuel _
      cases fuel <;> rfl
    | cons c text ih =>
      intro fuel hle
      have hsize := String.length_utf8EncodeChar c
      have hpos := c.utf8Size_pos
      have hcons : utf8Encode (c :: text) = String.utf8EncodeChar c ++ utf8Encode text := rfl
      have hdrop : (utf8Encode (c :: text)).drop c.utf8Size = utf8Encode text := by
        rw [hcons, ← hsize, List.drop_left]
      have hchar := utf8DecodeChar?_take c (utf8Encode text)
      rw [← hcons] at hchar
      rw [hcons, List.length_append] at hle
      cases fuel with
      | zero => omega
      | succ fuel =>
        cases hbytes : utf8Encode (c :: text) with
        | nil =>
          rw [hcons, List.append_eq_nil_iff] at hbytes
          rw [hbytes.1, List.length_nil] at hsize
          omega
        | cons b rest =>
          rw [hbytes] at hchar hdrop
          simp only [utf8DecodeFrom, hchar, hdrop, ih fuel (by omega), Option.map_some]
  exact hfuel _ le_rfl

/-- The bytes that a character is read from are its encoding. -/
theorem take_eq_of_utf8DecodeChar? {bytes : List UInt8} {c : Char}
    (h : (bytes.take 4).toByteArray.utf8DecodeChar? 0 = some c) :
    bytes.take c.utf8Size = String.utf8EncodeChar c := by
  obtain ⟨rest, hrest⟩ := ByteArray.exists_of_utf8DecodeChar?_eq_some h
  have hlist : bytes.take 4 = String.utf8EncodeChar c ++ rest.data.toList := by
    have hdata := congrArg (fun b => b.data.toList) hrest
    simpa using hdata
  have hlength := String.length_utf8EncodeChar c
  have hle := c.utf8Size_le_four
  calc bytes.take c.utf8Size = (bytes.take 4).take c.utf8Size := by
        rw [List.take_take, Nat.min_eq_left hle]
    _ = String.utf8EncodeChar c := by rw [hlist, ← hlength, List.take_left]

/-- The characters read from bytes are encoded by these bytes. -/
theorem utf8Encode_of_utf8DecodeFrom {fuel : ℕ} {bytes : List UInt8} {text : List Char}
    (h : utf8DecodeFrom fuel bytes = some text) : utf8Encode text = bytes := by
  induction fuel generalizing bytes text with
  | zero =>
    cases bytes with
    | nil =>
      obtain rfl : [] = text := by simpa [utf8DecodeFrom] using h
      rfl
    | cons b rest => simp [utf8DecodeFrom] at h
  | succ fuel ih =>
    cases bytes with
    | nil =>
      obtain rfl : [] = text := by simpa [utf8DecodeFrom] using h
      rfl
    | cons b rest =>
      rw [utf8DecodeFrom] at h
      split at h
      · simp at h
      · next c hchar =>
        obtain ⟨tail, htail, rfl⟩ := Option.map_eq_some_iff.mp h
        rw [utf8Encode, List.flatMap_cons, ← utf8Encode, ih htail,
          ← take_eq_of_utf8DecodeChar? hchar, List.take_append_drop]

/-- Encoding undoes decoding. -/
theorem utf8Encode_of_utf8Decode {bytes : List UInt8} {text : List Char}
    (h : utf8Decode bytes = some text) : utf8Encode text = bytes :=
  utf8Encode_of_utf8DecodeFrom h

/-- Encoding works text by text. -/
theorem utf8Encode_append (text text' : List Char) :
    utf8Encode (text ++ text') = utf8Encode text ++ utf8Encode text' :=
  List.flatMap_append

/-- Different texts have different bytes. -/
theorem utf8Encode_injective : Function.Injective utf8Encode := by
  intro text text' h
  have hdecode := utf8Decode_utf8Encode text
  rw [h, utf8Decode_utf8Encode] at hdecode
  exact (Option.some.inj hdecode).symm

/-- A byte below 128 in the bytes of a character is its code. -/
theorem toNat_of_mem_utf8EncodeChar {c : Char} {b : UInt8} (hb : b ∈ String.utf8EncodeChar c)
    (hlow : b.toNat < 0x80) : c.toNat = b.toNat := by
  have hval : c.val.toNat = c.toNat := rfl
  have hmax : c.toNat < 0x110000 := by
    have hvalid := c.valid
    simp only [UInt32.isValidChar, Nat.isValidChar, hval] at hvalid
    omega
  unfold String.utf8EncodeChar at hb
  simp only [hval] at hb
  split_ifs at hb
  · obtain rfl := List.mem_singleton.mp hb
    rw [UInt8.toNat_ofNat']
    omega
  all_goals
    simp only [List.mem_cons, List.not_mem_nil, or_false] at hb
    rcases hb with rfl | rfl | rfl | rfl <;>
    · rw [UInt8.toNat_ofNat'] at hlow
      omega

/-- The NUL byte is only in the bytes of texts with the NUL character. -/
theorem nul_mem_of_zero_mem {text : List Char} (h : 0 ∈ utf8Encode text) : nul ∈ text := by
  obtain ⟨c, hc, hzero⟩ := List.mem_flatMap.mp h
  have hcode : c.toNat = 0 := toNat_of_mem_utf8EncodeChar hzero (by decide)
  have hnul : c = nul := by rw [nul, ← hcode, Char.ofNat_toNat]
  exact hnul ▸ hc

/-- Encoding an ASCII character gives the one byte of its code. -/
theorem utf8EncodeChar_ascii {c : Char} (hc : c.toNat ≤ 0x7f) :
    String.utf8EncodeChar c = [c.toNat.toUInt8] := by
  have hlow : ¬ 0x7f < c.toNat := by omega
  simp [String.utf8EncodeChar, hlow]

/-- An ASCII text has one byte for every character. -/
theorem utf8Encode_ascii {text : List Char} (htext : ∀ c ∈ text, c.toNat ≤ 0x7f) :
    utf8Encode text = text.map fun c => c.toNat.toUInt8 := by
  induction text with
  | nil => rfl
  | cons c text ih =>
    rw [utf8Encode, List.flatMap_cons, utf8EncodeChar_ascii (htext c (by simp)), ← utf8Encode,
      ih fun d hd => htext d (by simp [hd])]
    rfl

/-- `bytes.decode("ascii")`. -/
def asciiDecode (bytes : List UInt8) : Option (List Char) :=
  if bytes.all fun b => b.toNat ≤ 0x7f then some (bytes.map fun b => Char.ofNat b.toNat) else none

/-- Encoding undoes ASCII decoding. -/
theorem utf8Encode_of_asciiDecode {bytes : List UInt8} {text : List Char}
    (h : asciiDecode bytes = some text) : utf8Encode text = bytes := by
  unfold asciiDecode at h
  split_ifs at h with hall
  obtain rfl := Option.some.inj h
  simp only [List.all_eq_true, decide_eq_true_eq] at hall
  have hcode {b : UInt8} (hb : b ∈ bytes) : (Char.ofNat b.toNat).toNat = b.toNat := by
    have hvalid : b.toNat.isValidChar := .inl (by have := hall b hb; omega)
    rw [Char.ofNat, dif_pos hvalid]
    rfl
  rw [utf8Encode_ascii fun c hc => ?_, List.map_map]
  · conv_rhs => rw [← List.map_id bytes]
    refine List.map_congr_left fun b hb => ?_
    simp [hcode hb]
  · obtain ⟨b, hb, rfl⟩ := List.mem_map.mp hc
    rw [hcode hb]
    exact hall b hb

/-- ASCII decoding undoes the encoding of an ASCII text. -/
theorem asciiDecode_utf8Encode {text : List Char} (htext : ∀ c ∈ text, c.toNat ≤ 0x7f) :
    asciiDecode (utf8Encode text) = some text := by
  have hcode {c : Char} (hc : c ∈ text) : c.toNat.toUInt8.toNat = c.toNat := by
    have := htext c hc
    rw [Nat.toUInt8, UInt8.toNat_ofNat']
    omega
  rw [utf8Encode_ascii htext, asciiDecode, if_pos, List.map_map]
  · refine congrArg some ?_
    conv_rhs => rw [← List.map_id text]
    refine List.map_congr_left fun c hc => ?_
    simp [hcode hc]
  · refine List.all_eq_true.mpr fun b hb => ?_
    obtain ⟨c, hc, rfl⟩ := List.mem_map.mp hb
    rw [hcode hc]
    exact decide_eq_true (htext c hc)

/-- Put a byte at the front of the first line. -/
def consLine (b : UInt8) : List (List UInt8) → List (List UInt8)
  | [] => [[b]]
  | line :: lines => (b :: line) :: lines

/-- Split at line ends, where a line feed right after a carriage return belongs
to the line end already seen. -/
def splitLinesFrom (afterReturn : Bool) : List UInt8 → List (List UInt8)
  | [] => []
  | b :: rest =>
      if b = 10 then
        if afterReturn then splitLinesFrom false rest else [] :: splitLinesFrom false rest
      else if b = 13 then [] :: splitLinesFrom true rest
      else consLine b (splitLinesFrom false rest)

/-- `bytes.splitlines`: lines end at a line feed, a carriage return or the two together. -/
def splitLines (bytes : List UInt8) : List (List UInt8) := splitLinesFrom false bytes

/-- A line without line breaks is split off before its newline. -/
theorem splitLines_line {line : List UInt8} (hline : ∀ b ∈ line, b ≠ 10 ∧ b ≠ 13)
    (rest : List UInt8) : splitLines (line ++ 10 :: rest) = line :: splitLines rest := by
  induction line with
  | nil => rfl
  | cons b line ih =>
    obtain ⟨hfeed, hreturn⟩ := hline b (by simp)
    have htail := ih fun b' hb' => hline b' (by simp [hb'])
    rw [splitLines] at htail
    rw [List.cons_append, splitLines, splitLinesFrom, if_neg hfeed, if_neg hreturn, htail]
    rfl

/-- Newline-terminated lines split back into the lines. -/
theorem splitLines_flatMap (lines : List (List UInt8))
    (hlines : ∀ line ∈ lines, ∀ b ∈ line, b ≠ 10 ∧ b ≠ 13) :
    splitLines (lines.flatMap fun line => line ++ [10]) = lines := by
  induction lines with
  | nil => rfl
  | cons line lines ih =>
    rw [List.flatMap_cons, List.append_assoc, List.singleton_append,
      splitLines_line (hlines line (by simp)), ih fun l hl => hlines l (by simp [hl])]

end ContributorGateway
