import Mathlib.Data.List.Induction
import Mathlib.Logic.Function.Basic

/-!
# Labelled machines

A machine starts in some state and takes labelled steps; a run is the list of its
labels. Invariants may speak about the labels so far, and a machine whose steps are
followed by another one has only runs that the other one has under other labels.
-/

namespace ContributorGateway

/-- An entry of an updated map is the new one or an old one of another key. -/
theorem eq_some_of_update {Key Value : Type*} [DecidableEq Key] {f : Key → Option Value}
    {i j : Key} {a b : Value} (h : Function.update f i (some a) j = some b) :
    (j = i ∧ a = b) ∨ (j ≠ i ∧ f j = some b) := by
  by_cases hji : j = i
  · rw [hji, Function.update_self] at h
    exact Or.inl ⟨hji, Option.some.inj h⟩
  · rw [Function.update_of_ne hji] at h
    exact Or.inr ⟨hji, h⟩

/-- States with their possible starts and labelled steps. -/
structure Machine (State Event : Type*) where
  start : State → Prop
  step : State → Event → State → Prop

namespace Machine

variable {State Event State' Event' : Type*} {M : Machine State Event}
  {N : Machine State' Event'} {history pre post : List Event} {s : State}

/-- The runs of a machine: the labels of the steps so far, and the state reached. -/
inductive Run (M : Machine State Event) : List Event → State → Prop
  | start {s : State} (h : M.start s) : Run M [] s
  | step {history : List Event} {s s' : State} {e : Event} (hrun : Run M history s)
      (hstep : M.step s e s') : Run M (history ++ [e]) s'

/-- What holds at the start and is kept by every step of a run holds in every run. -/
theorem Run.invariant {P : List Event → State → Prop} (hrun : M.Run history s)
    (hstart : ∀ s, M.start s → P [] s)
    (hstep : ∀ history s e s', M.Run history s → P history s → M.step s e s' →
      P (history ++ [e]) s') : P history s := by
  induction hrun with
  | start h => exact hstart _ h
  | step hrun h ih => exact hstep _ _ _ _ hrun ih h

/-- A run that is not over yet reaches a state by its first labels. -/
theorem Run.initial (hrun : M.Run (pre ++ post) s) : ∃ s', M.Run pre s' := by
  induction post using List.reverseRecOn generalizing s with
  | nil => exact ⟨s, by simpa using hrun⟩
  | append_singleton post e ih =>
    rw [← List.append_assoc] at hrun
    generalize hall : pre ++ post ++ [e] = history at hrun
    cases hrun with
    | start _ => simp at hall
    | step hrun _ =>
      obtain ⟨hinit, -⟩ := List.append_inj' hall rfl
      exact ih (hinit ▸ hrun)

/-- Every label of a run belongs to a step from a state that the run reached. -/
theorem Run.step_of_mem {e : Event} (hrun : M.Run (pre ++ e :: post) s) :
    ∃ s₁ s₂, M.Run pre s₁ ∧ M.step s₁ e s₂ := by
  have hsplit : pre ++ e :: post = (pre ++ [e]) ++ post := by simp
  rw [hsplit] at hrun
  obtain ⟨s', hrun'⟩ := hrun.initial
  generalize hall : pre ++ [e] = history at hrun'
  cases hrun' with
  | start _ => simp at hall
  | step hrun hstep =>
    obtain ⟨rfl, he⟩ := List.append_inj' hall rfl
    obtain rfl := List.singleton_inj.mp he
    exact ⟨_, _, hrun, hstep⟩

/-- A machine answers a step, whose label is given, by a step of its own or, without a
label, by none. -/
def Answers (N : Machine State' Event') (R : State → State' → Prop) (t : State') (s : State) :
    Option Event' → Prop
  | some l => ∃ t', N.step t l t' ∧ R s t'
  | none => R s t

/-- Every step of the one machine is answered by the other. -/
structure Follows (M : Machine State Event) (N : Machine State' Event')
    (R : State → State' → Prop) (label : Event → Option Event') : Prop where
  start : ∀ s, M.start s → ∃ t, N.start t ∧ R s t
  step : ∀ s e s' t, M.step s e s' → R s t → N.Answers R t s' (label e)

/-- The runs of the one machine are runs of the other that it follows. -/
theorem Follows.run {R : State → State' → Prop} {label : Event → Option Event'}
    (hfollows : M.Follows N R label) (hrun : M.Run history s) :
    ∃ t, N.Run (history.filterMap label) t ∧ R s t := by
  induction hrun with
  | start h =>
    obtain ⟨t, ht, hR⟩ := hfollows.start _ h
    exact ⟨t, .start ht, hR⟩
  | @step history s s' e _ hstep ih =>
    obtain ⟨t, hrun', hR⟩ := ih
    have hnext := hfollows.step s e s' t hstep hR
    rw [List.filterMap_append]
    cases hlabel : label e with
    | none =>
      rw [hlabel] at hnext
      exact ⟨t, by simpa [hlabel] using hrun', hnext⟩
    | some l =>
      rw [hlabel] at hnext
      obtain ⟨t', hstep', hR'⟩ := hnext
      exact ⟨t', by simpa [hlabel] using hrun'.step hstep', hR'⟩

end Machine

end ContributorGateway
