import Mathlib.Data.List.Basic
import Mathlib.Data.String.Basic

/-!
# Length-prefixed frames

A frame is a head without NULs, the length of a body in decimal, and the body, each followed
by a NUL. The body may hold anything: its end is found by its length. Frames in a row can be
told apart, so a sequence of frames is determined by its bytes.
-/

namespace ContributorGateway.NulFrames

/-- The digits of a length. -/
def decimal (n : ℕ) : List UInt8 := (Nat.toDigits 10 n).map fun c => c.toNat.toUInt8

/-- One frame. -/
def frame (head body : List UInt8) : List UInt8 :=
  head ++ 0 :: (decimal body.length ++ 0 :: (body ++ [0]))

/-- The digit characters have the codes from 48 to 57. -/
theorem digit_code {n : ℕ} {c : Char} (h : c ∈ Nat.toDigits 10 n) :
    48 ≤ c.toNat ∧ c.toNat ≤ 57 := by
  have hdigit := Nat.isDigit_of_mem_toDigits (by omega) (by omega) h
  simp only [Char.isDigit, Bool.and_eq_true, decide_eq_true_eq] at hdigit
  exact hdigit

/-- A digit is one byte with its code. -/
theorem toNat_digit {c : Char} (h : c.toNat ≤ 57) : c.toNat.toUInt8.toNat = c.toNat := by
  simp only [Nat.toUInt8, UInt8.toNat_ofNat']
  omega

/-- A length has no NUL in it. -/
theorem zero_not_mem_decimal (n : ℕ) : 0 ∉ decimal n := by
  intro h
  obtain ⟨c, hc, hzero⟩ := List.mem_map.mp h
  obtain ⟨hlow, hhigh⟩ := digit_code hc
  have hbyte := toNat_digit hhigh
  rw [hzero] at hbyte
  have hnone : (0 : UInt8).toNat = 0 := rfl
  omega

/-- Different lengths have different digits. -/
theorem decimal_injective : Function.Injective decimal := by
  intro m n h
  have hdigits : Nat.toDigits 10 m = Nat.toDigits 10 n := by
    have hchars (k : ℕ) :
        (decimal k).map (fun b => Char.ofNat b.toNat) = Nat.toDigits 10 k := by
      rw [decimal, List.map_map]
      conv_rhs => rw [← List.map_id (Nat.toDigits 10 k)]
      refine List.map_congr_left fun c hc => ?_
      rw [Function.comp_apply, toNat_digit (digit_code hc).2, Char.ofNat_toNat, id_eq]
    rw [← hchars m, ← hchars n, h]
  have hread := congrArg (fun digits => Nat.ofDigitChars 10 digits 0) hdigits
  simpa only [Nat.ofDigitChars_ten_toDigits] using hread

/-- What stands before the first NUL is determined, and what follows it. -/
theorem append_zero_inj {front front' back back' : List UInt8} (hfront : 0 ∉ front)
    (hfront' : 0 ∉ front') (h : front ++ 0 :: back = front' ++ 0 :: back') :
    front = front' ∧ back = back' := by
  induction front generalizing front' with
  | nil =>
    cases front' with
    | nil => exact ⟨rfl, List.tail_eq_of_cons_eq h⟩
    | cons b rest =>
      have hzero : 0 = b := List.head_eq_of_cons_eq h
      exact absurd (by simp [hzero]) hfront'
  | cons b rest ih =>
    cases front' with
    | nil =>
      have hzero : b = 0 := List.head_eq_of_cons_eq h
      exact absurd (by simp [hzero]) hfront
    | cons b' rest' =>
      obtain ⟨rfl, htail⟩ := List.cons_eq_cons.mp h
      have hrest : 0 ∉ rest := fun hmem => hfront (by simp [hmem])
      have hrest' : 0 ∉ rest' := fun hmem => hfront' (by simp [hmem])
      obtain ⟨hfronts, hbacks⟩ := ih hrest hrest' htail
      exact ⟨by rw [hfronts], hbacks⟩

/-- The first of several frames in a row is determined by the bytes. -/
theorem frame_append_inj {head head' body body' rest rest' : List UInt8} (hhead : 0 ∉ head)
    (hhead' : 0 ∉ head') (h : frame head body ++ rest = frame head' body' ++ rest') :
    head = head' ∧ body = body' ∧ rest = rest' := by
  simp only [frame, List.append_assoc, List.cons_append, List.nil_append] at h
  obtain ⟨hheads, htail⟩ := append_zero_inj hhead hhead' h
  obtain ⟨hdecimal, hbodies⟩ :=
    append_zero_inj (zero_not_mem_decimal _) (zero_not_mem_decimal _) htail
  obtain ⟨hbody, hrest⟩ := List.append_inj hbodies (decimal_injective hdecimal)
  exact ⟨hheads, hbody, List.tail_eq_of_cons_eq hrest⟩

/-- A frame takes at least its NULs. -/
theorem frame_append_ne_nil (head body rest : List UInt8) : frame head body ++ rest ≠ [] := by
  simp [frame]

/-- Sequences of frames are determined by their bytes. -/
theorem frames_inj {frames frames' : List (List UInt8 × List UInt8)}
    (hheads : ∀ f ∈ frames, 0 ∉ f.1) (hheads' : ∀ f ∈ frames', 0 ∉ f.1)
    (h : frames.flatMap (fun f => frame f.1 f.2) = frames'.flatMap fun f => frame f.1 f.2) :
    frames = frames' := by
  induction frames generalizing frames' with
  | nil =>
    cases frames' with
    | nil => rfl
    | cons f' rest' => exact absurd h.symm (frame_append_ne_nil _ _ _)
  | cons f rest ih =>
    cases frames' with
    | nil => exact absurd h (frame_append_ne_nil _ _ _)
    | cons f' rest' =>
      rw [List.flatMap_cons, List.flatMap_cons] at h
      obtain ⟨hhead, hbody, hrest⟩ :=
        frame_append_inj (hheads f (by simp)) (hheads' f' (by simp)) h
      have htail := ih (fun g hg => hheads g (by simp [hg])) (fun g hg => hheads' g (by simp [hg]))
        hrest
      rw [Prod.ext hhead hbody, htail]

end ContributorGateway.NulFrames
