import Mathlib.Data.List.Sort
import Mathlib.Order.Defs.LinearOrder

/-!
# The first members of a ranked list

Lists in the order of a key that tells their members apart. Which members are among the first
depends on how many come before them, whatever else is in the list.
-/

namespace ContributorGateway

variable {α β κ : Type} [LinearOrder κ] {key : α → κ} {l : List α} {p : α → Bool}
  {f g : α → Option β}

/-- How many members with a property have a smaller key than a given one. -/
def countBefore (key : α → κ) (p : α → Bool) (l : List α) (a : α) : ℕ :=
  l.countP fun x => p x && decide (key x < key a)

/-- The order of the list does not change the count. -/
theorem countBefore_of_perm {l' : List α} (h : l.Perm l') (a : α) :
    countBefore key p l a = countBefore key p l' a :=
  h.countP_eq _

/-- Only the properties of members count. -/
theorem countBefore_congr {p' : α → Bool} (h : ∀ x ∈ l, p x = p' x) (a : α) :
    countBefore key p l a = countBefore key p' l a :=
  List.countP_congr fun x hx => by rw [h x hx]

/-- A member in front is counted if it has the property and a smaller key. -/
theorem countBefore_cons (x a : α) : countBefore key p (x :: l) a =
    countBefore key p l a + if p x = true ∧ key x < key a then 1 else 0 := by
  rw [countBefore, List.countP_cons, countBefore]
  simp only [Bool.and_eq_true, decide_eq_true_eq]

/-- A value with few others before it is among the first. -/
theorem mem_take_filterMap (hsorted : l.Pairwise fun a b => key a ≤ key b)
    (hkey : ∀ a ∈ l, ∀ b ∈ l, key a = key b → a = b) {a : α} (ha : a ∈ l) {b : β}
    (hb : f a = some b) {n : ℕ} (hfew : countBefore key (fun x => (f x).isSome) l a < n) :
    b ∈ (l.filterMap f).take n := by
  induction l generalizing n with
  | nil => cases ha
  | cons x l ih =>
    obtain ⟨hfirst, hsorted⟩ := List.pairwise_cons.mp hsorted
    obtain ⟨m, rfl⟩ : ∃ m, n = m + 1 := ⟨n - 1, by omega⟩
    by_cases hx : x = a
    · subst hx
      rw [List.filterMap_cons_some hb, List.take_succ_cons]
      exact List.mem_cons_self ..
    · have hmem : a ∈ l := (List.mem_cons.mp ha).resolve_left fun h => hx h.symm
      have hsmaller : key x < key a := by
        refine lt_of_le_of_ne (hfirst a hmem) fun heq => ?_
        exact hx (hkey x (List.mem_cons_self ..) a ha heq)
      have ih := fun {n} => @ih hsorted
        (fun a ha b hb => hkey a (List.mem_cons_of_mem x ha) b (List.mem_cons_of_mem x hb)) hmem n
      rw [countBefore_cons] at hfew
      cases hvalue : f x with
      | none =>
        rw [List.filterMap_cons_none hvalue]
        exact ih (by omega)
      | some c =>
        rw [if_pos ⟨by rw [hvalue]; rfl, hsmaller⟩] at hfew
        rw [List.filterMap_cons_some hvalue, List.take_succ_cons]
        exact List.mem_cons_of_mem c (ih (by omega))

/-- Two choices of values have the same first ones if they agree where few others come before. -/
theorem take_filterMap_congr (hsorted : l.Pairwise fun a b => key a ≤ key b)
    (hkey : ∀ a ∈ l, ∀ b ∈ l, key a = key b → a = b)
    (hnone : ∀ a ∈ l, f a = none → g a = none) {n : ℕ}
    (h : ∀ a ∈ l, countBefore key (fun x => (f x).isSome) l a < n → f a = g a) :
    (l.filterMap f).take n = (l.filterMap g).take n := by
  induction l generalizing n with
  | nil => rfl
  | cons x l ih =>
    obtain ⟨hfirst, hsorted⟩ := List.pairwise_cons.mp hsorted
    have hx : x ∈ x :: l := List.mem_cons_self ..
    have ih := fun {n} => @ih hsorted
      (fun a ha b hb => hkey a (List.mem_cons_of_mem x ha) b (List.mem_cons_of_mem x hb))
      (fun a ha => hnone a (List.mem_cons_of_mem x ha)) n
    cases n with
    | zero => rw [List.take_zero, List.take_zero]
    | succ m =>
      cases hvalue : f x with
      | none =>
        rw [List.filterMap_cons_none hvalue, List.filterMap_cons_none (hnone x hx hvalue)]
        refine ih fun a ha hfew => h a (List.mem_cons_of_mem x ha) ?_
        rw [countBefore_cons, if_neg (by simp [hvalue])]
        exact hfew
      | some c =>
        have hnobefore : countBefore key (fun x => (f x).isSome) (x :: l) x = 0 := by
          refine List.countP_eq_zero.mpr fun a ha => ?_
          have hle : key x ≤ key a := by
            rcases List.mem_cons.mp ha with rfl | ha
            · exact le_refl _
            · exact hfirst a ha
          simp [not_lt.mpr hle]
        have hsame := h x hx (by omega)
        rw [hvalue] at hsame
        rw [List.filterMap_cons_some hvalue, List.filterMap_cons_some hsame.symm,
          List.take_succ_cons, List.take_succ_cons]
        refine congrArg (c :: ·) (ih fun a ha hfew => ?_)
        rcases eq_or_lt_of_le (hfirst a ha) with heq | hlt
        · obtain rfl := hkey x hx a (List.mem_cons_of_mem x ha) heq
          rw [hvalue, hsame]
        · refine h a (List.mem_cons_of_mem x ha) ?_
          rw [countBefore_cons, if_pos ⟨by rw [hvalue]; rfl, hlt⟩]
          omega

/-- A member of an ordered list is among the first, unless these are as many as were asked for
and come before it. -/
theorem mem_take_or {R : α → α → Prop} (hordered : l.Pairwise R) {a : α} (ha : a ∈ l) (n : ℕ) :
    a ∈ l.take n ∨ (l.take n).length = n ∧ ∀ b ∈ l.take n, R b a := by
  rw [← List.take_append_drop n l] at hordered ha
  rcases List.mem_append.mp ha with hfirst | hlater
  · exact Or.inl hfirst
  · refine Or.inr ⟨?_, fun b hb => (List.pairwise_append.mp hordered).2.2 b hb a hlater⟩
    have hlong : n ≤ l.length := by
      by_contra hshort
      rw [List.drop_of_length_le (by omega)] at hlater
      cases hlater
    rw [List.length_take]
    omega

/-- In a list with growing keys, a member is among the first exactly if few others have a smaller
key. -/
theorem mem_take_iff_countP_lt (hsorted : l.Pairwise fun a b => key a < key b) {a : α} (ha : a ∈ l)
    (n : ℕ) : a ∈ l.take n ↔ l.countP (fun x => key x < key a) < n := by
  induction l generalizing n with
  | nil => cases ha
  | cons x l ih =>
    obtain ⟨hfirst, hsorted⟩ := List.pairwise_cons.mp hsorted
    cases n with
    | zero => exact iff_of_false List.not_mem_nil (Nat.not_lt_zero _)
    | succ n =>
      rw [List.take_succ_cons, List.mem_cons, List.countP_cons]
      rcases List.mem_cons.mp ha with rfl | ha
      · have hzero : l.countP (fun x => decide (key x < key a)) = 0 := by
          refine List.countP_eq_zero.mpr fun y hy => ?_
          have hlt := hfirst y hy
          simp only [decide_eq_true_eq, not_lt]
          exact le_of_lt hlt
        rw [hzero, if_neg (by simp)]
        exact iff_of_true (Or.inl rfl) (by omega)
      · have hlt := hfirst a ha
        have hne : a ≠ x := by
          rintro rfl
          exact lt_irrefl _ hlt
        rw [or_iff_right hne, ih hsorted ha, if_pos (decide_eq_true hlt)]
        omega

/-- A list that is sorted by a key is in the order of the key. -/
theorem pairwise_sorted (key : α → κ) (l : List α) :
    (l.insertionSort fun a b => key a ≤ key b).Pairwise fun a b => key a ≤ key b := by
  have htotal : Std.Total fun a b : α => key a ≤ key b := ⟨fun a b => le_total _ _⟩
  have htrans : IsTrans α fun a b => key a ≤ key b := ⟨fun _ _ _ => le_trans⟩
  exact List.pairwise_insertionSort _ l

/-- Values are sorted by their keys as the members that they come from. -/
theorem insertionSort_filterMap {rank : β → κ} (hrank : ∀ a ∈ l, ∀ b ∈ f a, rank b = key a)
    (hkey : ∀ a ∈ l, ∀ b ∈ l, key a = key b → a = b) :
    (l.filterMap f).insertionSort (fun a b => rank a ≤ rank b) =
      (l.insertionSort fun a b => key a ≤ key b).filterMap f := by
  have hmem : ∀ {a}, a ∈ (l.insertionSort fun a b => key a ≤ key b) → a ∈ l :=
    (List.mem_insertionSort _).mp
  refine List.Perm.eq_of_pairwise ?_ (pairwise_sorted rank _) ?_ ?_
  · intro b b' hb hb' hle hge
    obtain ⟨a, ha, hvalue⟩ := List.mem_filterMap.mp ((List.mem_insertionSort _).mp hb)
    obtain ⟨a', ha', hvalue'⟩ := List.mem_filterMap.mp hb'
    have ha' := hmem ha'
    have hsame : key a = key a' := by
      rw [← hrank a ha b hvalue, ← hrank a' ha' b' hvalue']
      exact le_antisymm hle hge
    obtain rfl := hkey a ha a' ha' hsame
    exact Option.some.inj (hvalue.symm.trans hvalue')
  · rw [List.pairwise_filterMap]
    refine (pairwise_sorted key l).imp_of_mem fun ha ha' hle b hb b' hb' => ?_
    rw [hrank _ (hmem ha) b hb, hrank _ (hmem ha') b' hb']
    exact hle
  · exact (List.perm_insertionSort _ _).trans ((List.perm_insertionSort _ l).symm.filterMap f)

/-- The first values agree if and only if the choices agree where few others come before. -/
theorem take_sorted_eq_iff {rank : β → κ} (hf : ∀ a ∈ l, ∀ b ∈ f a, rank b = key a)
    (hg : ∀ a ∈ l, ∀ b ∈ g a, rank b = key a)
    (hkey : ∀ a ∈ l, ∀ b ∈ l, key a = key b → a = b)
    (hnone : ∀ a ∈ l, f a = none → g a = none) (n : ℕ) :
    ((l.filterMap f).insertionSort fun a b => rank a ≤ rank b).take n =
        ((l.filterMap g).insertionSort fun a b => rank a ≤ rank b).take n ↔
      ∀ a ∈ l, countBefore key (fun x => (f x).isSome) l a < n → f a = g a := by
  have hperm := List.perm_insertionSort (fun a b : α => key a ≤ key b) l
  have hsorted := pairwise_sorted key l
  have hcount : ∀ a, countBefore key (fun x => (f x).isSome)
      (l.insertionSort fun a b => key a ≤ key b) a =
        countBefore key (fun x => (f x).isSome) l a :=
    countBefore_of_perm hperm
  have hmem : ∀ {a}, a ∈ (l.insertionSort fun a b => key a ≤ key b) ↔ a ∈ l :=
    List.mem_insertionSort _
  have hapart : ∀ a ∈ (l.insertionSort fun a b => key a ≤ key b),
      ∀ b ∈ (l.insertionSort fun a b => key a ≤ key b), key a = key b → a = b :=
    fun a ha b hb => hkey a (hmem.mp ha) b (hmem.mp hb)
  rw [insertionSort_filterMap hf hkey, insertionSort_filterMap hg hkey]
  constructor
  · intro heq a ha hfew
    cases hvalue : f a with
    | none => exact (hnone a ha hvalue).symm
    | some b =>
      have hfirst := mem_take_filterMap hsorted hapart (hmem.mpr ha) hvalue
        (by rw [hcount]; exact hfew)
      rw [heq] at hfirst
      obtain ⟨a', ha', hvalue'⟩ := List.mem_filterMap.mp (List.mem_of_mem_take hfirst)
      have hsame : key a = key a' := by
        rw [← hf a ha b hvalue, ← hg a' (hmem.mp ha') b hvalue']
      obtain rfl := hkey a ha a' (hmem.mp ha') hsame
      exact hvalue'.symm
  · intro h
    refine take_filterMap_congr hsorted hapart (fun a ha => hnone a (hmem.mp ha))
      fun a ha hfew => h a (hmem.mp ha) ?_
    rw [← hcount]
    exact hfew

/-! ## Lists in groups -/

section Groups

variable {rank : α → ℕ}

/-- The members below a rank come before those of the rank. -/
theorem filter_lt_succ (hsorted : l.Pairwise fun a b => rank a ≤ rank b) (n : ℕ) :
    l.filter (fun a => rank a < n + 1) =
      l.filter (fun a => rank a < n) ++ l.filter fun a => rank a = n := by
  induction l with
  | nil => rfl
  | cons a l ih =>
    obtain ⟨hfirst, hsorted⟩ := List.pairwise_cons.mp hsorted
    have ih := ih hsorted
    simp only [List.filter_cons, decide_eq_true_eq]
    by_cases hlt : rank a < n
    · rw [if_pos (by omega), if_pos hlt, if_neg (by omega), ih, List.cons_append]
    · have hnone : l.filter (fun a => rank a < n) = [] := by
        refine List.filter_eq_nil_iff.mpr fun b hb => ?_
        have hle := hfirst b hb
        rw [decide_eq_true_eq]
        omega
      rw [hnone, List.nil_append] at ih
      rw [if_neg hlt, hnone, List.nil_append]
      by_cases heq : rank a = n
      · rw [if_pos (by omega), if_pos heq, ih]
      · rw [if_neg (by omega), if_neg heq, ih]

/-- A list in the order of a rank consists of its groups. -/
theorem eq_flatMap_filter (hsorted : l.Pairwise fun a b => rank a ≤ rank b) {n : ℕ}
    (hbound : ∀ a ∈ l, rank a < n) :
    l = (List.range n).flatMap fun r => l.filter fun a => rank a = r := by
  have hbelow (n : ℕ) : l.filter (fun a => rank a < n) =
      (List.range n).flatMap fun r => l.filter fun a => rank a = r := by
    induction n with
    | zero => exact List.filter_eq_nil_iff.mpr fun a _ => by simp
    | succ n ih =>
      rw [filter_lt_succ hsorted, ih, List.range_succ, List.flatMap_append,
        List.flatMap_singleton]
  rw [← hbelow n]
  exact (List.filter_eq_self.mpr fun a ha => decide_eq_true (hbound a ha)).symm

end Groups

end ContributorGateway
