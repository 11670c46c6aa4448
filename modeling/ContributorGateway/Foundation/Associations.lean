import Mathlib.Data.List.Basic
import Mathlib.Data.List.Nodup

/-!
# Association lists

Lookups in lists of keys and values. Where no key stands twice, a lookup finds exactly the
members.
-/

namespace ContributorGateway

variable {κ α : Type} [BEq κ] [LawfulBEq κ] {key : κ} {value : α} {entries : List (κ × α)}

/-- What is looked up is a member. -/
theorem mem_of_lookup (h : entries.lookup key = some value) : (key, value) ∈ entries := by
  obtain ⟨front, back, rfl, -⟩ := List.lookup_eq_some_iff.mp h
  exact List.mem_append_right front (List.mem_cons_self ..)

/-- A member is looked up where no key stands twice. -/
theorem lookup_of_mem (hnodup : (entries.map Prod.fst).Nodup) (hmem : (key, value) ∈ entries) :
    entries.lookup key = some value := by
  obtain ⟨front, back, rfl⟩ := List.append_of_mem hmem
  refine List.lookup_eq_some_iff.mpr ⟨front, back, rfl, fun entry hentry => ?_⟩
  rw [List.map_append, List.nodup_append] at hnodup
  rw [bne_iff_ne]
  exact (hnodup.2.2 _ (List.mem_map_of_mem hentry) _ (List.mem_cons_self ..)).symm

/-- A member is looked up where its key has no other value. -/
theorem lookup_of_unique (hunique : ∀ entry ∈ entries, entry.1 = key → entry.2 = value)
    (hmem : (key, value) ∈ entries) : entries.lookup key = some value := by
  cases hlookup : entries.lookup key with
  | none =>
    have hkey := List.lookup_eq_none_iff.mp hlookup _ hmem
    rw [bne_self_eq_false] at hkey
    cases hkey
  | some other => exact congrArg some (hunique _ (mem_of_lookup hlookup) rfl)

/-- Nothing is looked up where the key does not stand. -/
theorem lookup_of_notMem (h : ∀ entry ∈ entries, entry.1 ≠ key) : entries.lookup key = none := by
  refine List.lookup_eq_none_iff.mpr fun entry hentry => ?_
  rw [bne_iff_ne]
  exact (h entry hentry).symm

end ContributorGateway
