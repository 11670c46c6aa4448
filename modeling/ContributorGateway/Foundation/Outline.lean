import Mathlib.Data.List.Basic
import Mathlib.Data.Nat.Basic
import Mathlib.Order.Lattice

/-!
# Outlines

Marks of different levels in a document, such as headings. A mark extends up to the next one that
is not deeper, so that the extents of two marks are apart or one lies inside the other.
-/

namespace ContributorGateway.Outline

variable {α κ : Type} [LinearOrder κ] (start : α → ℕ) (level : α → κ) (total : ℕ)

/-- Where a mark of a level ends: at the next mark that is not deeper, or at the end. -/
def stop (depth : κ) : List α → ℕ
  | [] => total
  | next :: later => if level next ≤ depth then start next else stop depth later

/-- The marks with their ends. -/
def extents : List α → List (α × ℕ)
  | [] => []
  | mark :: later => (mark, stop start level total (level mark) later) :: extents later

/-- The extents belong to the marks. -/
@[simp]
theorem map_fst_extents (marks : List α) : (extents start level total marks).map Prod.fst = marks := by
  induction marks with
  | nil => rfl
  | cons mark later ih => rw [extents, List.map_cons, ih]

/-- Marks in the order of their places, each inside of the document. -/
structure Ordered (marks : List α) : Prop where
  sorted : marks.Pairwise fun a b => start a < start b
  inside : ∀ mark ∈ marks, start mark < total

variable {start level total}

namespace Ordered

variable {mark : α} {marks later : List α} {depth depth' : κ}

/-- The marks behind the first one are in order. -/
theorem tail (h : Ordered start total (mark :: later)) : Ordered start total later :=
  ⟨h.sorted.of_cons, fun other hother => h.inside other (List.mem_cons_of_mem mark hother)⟩

/-- The other marks are behind the first one. -/
theorem lt (h : Ordered start total (mark :: later)) {other : α} (hother : other ∈ later) :
    start mark < start other :=
  List.rel_of_pairwise_cons h.sorted hother

/-- An end is inside of the document. -/
theorem stop_le (h : Ordered start total marks) : stop start level total depth marks ≤ total := by
  induction marks with
  | nil => exact le_rfl
  | cons mark later ih =>
    rw [stop]
    split_ifs
    · exact le_of_lt (h.inside mark List.mem_cons_self)
    · exact ih h.tail

/-- A place before the marks and inside of the document is before an end. -/
theorem lt_stop (h : Ordered start total marks) {place : ℕ} (hplace : place < total)
    (hbefore : ∀ mark ∈ marks, place < start mark) :
    place < stop start level total depth marks := by
  induction marks with
  | nil => exact hplace
  | cons mark later ih =>
    rw [stop]
    split_ifs
    · exact hbefore mark List.mem_cons_self
    · exact ih h.tail fun other hother => hbefore other (List.mem_cons_of_mem mark hother)

/-- A deeper mark ends no later. -/
theorem stop_anti (h : Ordered start total marks) (hdepth : depth ≤ depth') :
    stop start level total depth' marks ≤ stop start level total depth marks := by
  induction marks with
  | nil => exact le_rfl
  | cons mark later ih =>
    rw [stop, stop]
    split_ifs with hlevel' hlevel
    · exact le_rfl
    · apply le_of_lt
      apply h.tail.lt_stop (h.inside mark List.mem_cons_self)
      exact fun other hother => h.lt hother
    · exact absurd (le_trans ‹level mark ≤ depth› hdepth) hlevel'
    · exact ih h.tail

/-- The extent of a later mark is behind an end, or it is deeper and ends no later. -/
theorem apart_or_inside (h : Ordered start total marks) {extent : α × ℕ}
    (hextent : extent ∈ extents start level total marks) :
    stop start level total depth marks ≤ start extent.1 ∨
      depth < level extent.1 ∧ extent.2 ≤ stop start level total depth marks := by
  induction marks with
  | nil => cases hextent
  | cons mark later ih =>
    rw [stop]
    rcases List.mem_cons.mp hextent with rfl | hlater
    · split_ifs with hlevel
      · exact Or.inl le_rfl
      · rw [not_le] at hlevel
        exact Or.inr ⟨hlevel, h.tail.stop_anti (le_of_lt hlevel)⟩
    · split_ifs with hlevel
      · left
        apply le_of_lt
        apply h.lt
        rw [← map_fst_extents start level total later]
        exact List.mem_map_of_mem hlater
      · exact ih h.tail hlater

/-- The extents of two marks are apart, or the later one is deeper and inside. -/
theorem pairwise_extents (h : Ordered start total marks) :
    (extents start level total marks).Pairwise fun a b => start a.1 < start b.1 ∧
      (a.2 ≤ start b.1 ∨ level a.1 < level b.1 ∧ b.2 ≤ a.2) := by
  induction marks with
  | nil => exact List.Pairwise.nil
  | cons mark later ih =>
    rw [extents, List.pairwise_cons]
    refine ⟨fun extent hextent => ⟨?_, h.tail.apart_or_inside hextent⟩, ih h.tail⟩
    apply h.lt
    rw [← map_fst_extents start level total later]
    exact List.mem_map_of_mem hextent

/-- A mark is before its end, which is inside of the document. -/
theorem bounds (h : Ordered start total marks) {extent : α × ℕ}
    (hextent : extent ∈ extents start level total marks) :
    start extent.1 < extent.2 ∧ extent.2 ≤ total := by
  induction marks with
  | nil => cases hextent
  | cons mark later ih =>
    rcases List.mem_cons.mp hextent with rfl | hlater
    · refine ⟨?_, h.tail.stop_le⟩
      apply h.tail.lt_stop (h.inside mark List.mem_cons_self)
      exact fun other hother => h.lt hother
    · exact ih h.tail hlater

/-- Behind the first mark, the last mark before a place extends over it. -/
theorem exists_extent (h : Ordered start total marks) {place : ℕ} (hplace : place < total)
    (hbehind : ∃ mark ∈ marks, start mark ≤ place) :
    ∃ extent ∈ extents start level total marks, start extent.1 ≤ place ∧ place < extent.2 ∧
      ∀ mark ∈ marks, start mark ≤ place → start mark ≤ start extent.1 := by
  induction marks with
  | nil =>
    obtain ⟨mark, hmark, -⟩ := hbehind
    cases hmark
  | cons mark later ih =>
    by_cases hlater : ∃ other ∈ later, start other ≤ place
    · obtain ⟨extent, hextent, hstart, hstop, hlast⟩ := ih h.tail hlater
      refine ⟨extent, List.mem_cons_of_mem _ hextent, hstart, hstop, fun other hother hle => ?_⟩
      rcases List.mem_cons.mp hother with rfl | hother
      · apply le_of_lt
        apply h.lt
        rw [← map_fst_extents start level total later]
        exact List.mem_map_of_mem hextent
      · exact hlast other hother hle
    · obtain ⟨first, hfirst, hle⟩ := hbehind
      have hothers : ∀ other ∈ later, place < start other := by
        intro other hother
        by_contra hplace
        exact hlater ⟨other, hother, not_lt.mp hplace⟩
      have hfirst : first = mark := by
        rcases List.mem_cons.mp hfirst with heq | hmem
        · exact heq
        · exact absurd hle (not_le.mpr (hothers first hmem))
      subst hfirst
      refine ⟨_, List.mem_cons_self, hle, h.tail.lt_stop hplace hothers, fun other hother hle => ?_⟩
      rcases List.mem_cons.mp hother with rfl | hother
      · exact le_rfl
      · exact absurd hle (not_le.mpr (hothers other hother))

end Ordered

end ContributorGateway.Outline
