import Mathlib.Data.List.Induction
import Mathlib.Logic.Function.Basic
import Mathlib.Order.Lattice
import Mathlib.Order.Monotone.Basic

/-!
# Expiring exclusive leases

A table maps every resource to at most one lease. A grant is possible when the
present lease has expired at the granting clock's reading, a release when it has
not. Clock readings need not increase from one event to the next, and the times a
lease records are truncated readings. The results concern histories of events:
successive grants of a resource are disjoint unless a release separates them, the
table holds exactly the latest grants that no release followed, and leases that
expired before a horizon are invisible from the horizon on.
-/

namespace ContributorGateway

/-- Exclusive use of a resource by an owner until an expiry. The key identifies
the request that obtained it. -/
structure Lease (Owner Id Key Time : Type*) where
  owner : Owner
  id : Id
  key : Key
  start : Time
  expires : Time
  deriving DecidableEq

/-- At most one lease for every resource. -/
abbrev LeaseTable (Resource Owner Id Key Time : Type*) :=
  Resource → Option (Lease Owner Id Key Time)

/-- What one entry of a history records. -/
inductive LeaseEvent (Resource Owner Id Key Time : Type*) where
  | granted (r : Resource) (lease : Lease Owner Id Key Time)
  | released (r : Resource) (id : Id) (owner : Owner)
  | other

variable {Resource Owner Id Key Time : Type*}

namespace LeaseTable

/-- The table without leases. -/
def empty : LeaseTable Resource Owner Id Key Time := fun _ => none

section Expiry

variable [LinearOrder Time] {table : LeaseTable Resource Owner Id Key Time} {r : Resource}
  {now : Time}

/-- The lease of a resource that has not expired at a clock reading. -/
def active (table : LeaseTable Resource Owner Id Key Time) (r : Resource) (now : Time) :
    Option (Lease Owner Id Key Time) :=
  (table r).filter fun lease => now < lease.expires

theorem active_eq_some_iff {lease : Lease Owner Id Key Time} :
    table.active r now = some lease ↔ table r = some lease ∧ now < lease.expires := by
  simp [active, Option.filter_eq_some_iff]

theorem active_eq_none_iff :
    table.active r now = none ↔ ∀ lease, table r = some lease → lease.expires ≤ now := by
  simp [active, Option.filter_eq_none_iff]

end Expiry

section Update

variable [DecidableEq Resource] (table : LeaseTable Resource Owner Id Key Time)

/-- Store a lease. -/
def grant (r : Resource) (lease : Lease Owner Id Key Time) :
    LeaseTable Resource Owner Id Key Time :=
  Function.update table r (some lease)

/-- Drop the lease of a resource. -/
def release (r : Resource) : LeaseTable Resource Owner Id Key Time :=
  Function.update table r none

@[simp] theorem grant_self (r : Resource) (lease : Lease Owner Id Key Time) :
    table.grant r lease r = some lease :=
  Function.update_self ..

@[simp] theorem release_self (r : Resource) : table.release r r = none :=
  Function.update_self ..

theorem grant_of_ne {r r' : Resource} (lease : Lease Owner Id Key Time) (h : r' ≠ r) :
    table.grant r lease r' = table r' :=
  Function.update_of_ne h ..

theorem release_of_ne {r r' : Resource} (h : r' ≠ r) : table.release r r' = table r' :=
  Function.update_of_ne h ..

end Update

end LeaseTable

variable [DecidableEq Resource] [LinearOrder Time] {trunc : Time → Time}

/-- The event grants or releases the resource. -/
def LeaseEvent.Concerns (r : Resource) : LeaseEvent Resource Owner Id Key Time → Prop
  | .granted r' _ => r' = r
  | .released r' _ _ => r' = r
  | .other => False

/-- One atomic step, at some clock reading. A grant records the truncated reading
and an expiry that is already truncated. -/
inductive LeaseStep (trunc : Time → Time) :
    LeaseTable Resource Owner Id Key Time → LeaseEvent Resource Owner Id Key Time →
      LeaseTable Resource Owner Id Key Time → Prop
  | granted {table : LeaseTable Resource Owner Id Key Time} {r : Resource}
      {lease : Lease Owner Id Key Time} {now : Time} (hfree : table.active r now = none)
      (hstart : lease.start = trunc now) (hexpires : trunc lease.expires = lease.expires) :
      LeaseStep trunc table (.granted r lease) (table.grant r lease)
  | released {table : LeaseTable Resource Owner Id Key Time} {r : Resource}
      {lease : Lease Owner Id Key Time} {now : Time} (hheld : table.active r now = some lease) :
      LeaseStep trunc table (.released r lease.id lease.owner) (table.release r)
  | other {table : LeaseTable Resource Owner Id Key Time} :
      LeaseStep trunc table .other table

/-- A sequence of steps and its history. -/
inductive LeaseRun (trunc : Time → Time) :
    LeaseTable Resource Owner Id Key Time → List (LeaseEvent Resource Owner Id Key Time) →
      LeaseTable Resource Owner Id Key Time → Prop
  | nil (table : LeaseTable Resource Owner Id Key Time) : LeaseRun trunc table [] table
  | cons {table table' table'' : LeaseTable Resource Owner Id Key Time}
      {event : LeaseEvent Resource Owner Id Key Time}
      {history : List (LeaseEvent Resource Owner Id Key Time)} :
      LeaseStep trunc table event table' → LeaseRun trunc table' history table'' →
        LeaseRun trunc table (event :: history) table''

/-- What a grant tells about the step that recorded it. -/
theorem LeaseStep.granted_inv {table table' : LeaseTable Resource Owner Id Key Time}
    {r : Resource} {lease : Lease Owner Id Key Time}
    (hstep : LeaseStep trunc table (.granted r lease) table') :
    (∃ now, table.active r now = none ∧ lease.start = trunc now) ∧
      trunc lease.expires = lease.expires ∧ table' = table.grant r lease := by
  cases hstep with
  | granted hfree hstart hexpires => exact ⟨⟨_, hfree, hstart⟩, hexpires, rfl⟩

/-- What a release tells about the step that recorded it. -/
theorem LeaseStep.released_inv {table table' : LeaseTable Resource Owner Id Key Time}
    {r : Resource} {id : Id} {owner : Owner}
    (hstep : LeaseStep trunc table (.released r id owner) table') :
    (∃ lease, table r = some lease ∧ lease.id = id ∧ lease.owner = owner) ∧
      table' = table.release r := by
  cases hstep with
  | released hheld =>
    exact ⟨⟨_, (LeaseTable.active_eq_some_iff.mp hheld).1, rfl, rfl⟩, rfl⟩

/-- A step leaves every resource alone that its event does not concern. -/
theorem LeaseStep.frame {table table' : LeaseTable Resource Owner Id Key Time}
    {event : LeaseEvent Resource Owner Id Key Time} (hstep : LeaseStep trunc table event table')
    {r : Resource} (hr : ¬ event.Concerns r) : table' r = table r := by
  cases hstep with
  | granted => exact table.grant_of_ne _ (Ne.symm hr)
  | released => exact table.release_of_ne (Ne.symm hr)
  | other => rfl

/-- Runs compose, and a run splits at every point of its history. -/
theorem LeaseRun.append_iff {table table'' : LeaseTable Resource Owner Id Key Time}
    {first second : List (LeaseEvent Resource Owner Id Key Time)} :
    LeaseRun trunc table (first ++ second) table'' ↔
      ∃ table', LeaseRun trunc table first table' ∧ LeaseRun trunc table' second table'' := by
  induction first generalizing table with
  | nil =>
    constructor
    · intro h
      exact ⟨table, .nil table, h⟩
    · rintro ⟨table', hfirst, hsecond⟩
      cases hfirst
      exact hsecond
  | cons event first ih =>
    constructor
    · rintro (_ | ⟨hstep, hrest⟩)
      obtain ⟨table', hfirst, hsecond⟩ := ih.mp hrest
      exact ⟨table', .cons hstep hfirst, hsecond⟩
    · rintro ⟨table', _ | ⟨hstep, hrest⟩, hsecond⟩
      exact .cons hstep (ih.mpr ⟨table', hrest, hsecond⟩)

/-- A run can be extended by one step. -/
theorem LeaseRun.snoc {table table' table'' : LeaseTable Resource Owner Id Key Time}
    {history : List (LeaseEvent Resource Owner Id Key Time)}
    {event : LeaseEvent Resource Owner Id Key Time} (hrun : LeaseRun trunc table history table')
    (hstep : LeaseStep trunc table' event table'') :
    LeaseRun trunc table (history ++ [event]) table'' :=
  append_iff.mpr ⟨table', hrun, .cons hstep (.nil table'')⟩

/-- A run leaves every resource alone that none of its events concerns. -/
theorem LeaseRun.frame {table table' : LeaseTable Resource Owner Id Key Time}
    {history : List (LeaseEvent Resource Owner Id Key Time)}
    (hrun : LeaseRun trunc table history table') {r : Resource}
    (hr : ∀ event ∈ history, ¬ event.Concerns r) : table' r = table r := by
  induction hrun with
  | nil => rfl
  | cons hstep _ ih =>
    rw [ih fun event hevent => hr event (by simp [hevent]), hstep.frame (hr _ (by simp))]

/-- Without a further grant of its resource, a lease stays until a release names
its id and its owner. -/
theorem LeaseRun.held_or_released {table table' : LeaseTable Resource Owner Id Key Time}
    {history : List (LeaseEvent Resource Owner Id Key Time)}
    (hrun : LeaseRun trunc table history table') {r : Resource}
    {lease : Lease Owner Id Key Time} (hheld : table r = some lease)
    (hnogrant : ∀ lease', LeaseEvent.granted r lease' ∉ history) :
    table' r = some lease ∨ LeaseEvent.released r lease.id lease.owner ∈ history := by
  induction hrun with
  | nil => exact Or.inl hheld
  | @cons table table' table'' event history hstep _ ih =>
    have hnogrant' : ∀ lease', LeaseEvent.granted r lease' ∉ history := fun lease' h =>
      hnogrant lease' (by simp [h])
    by_cases hconcerns : event.Concerns r
    · cases event with
      | granted r' lease' =>
        have hr : r' = r := hconcerns
        exact absurd (by simp [hr]) (hnogrant lease')
      | released r' id owner =>
        have hr : r' = r := hconcerns
        subst hr
        obtain ⟨⟨lease', hlease', rfl, rfl⟩, -⟩ := hstep.released_inv
        rw [hheld, Option.some.injEq] at hlease'
        right
        simp [hlease']
      | other => exact absurd hconcerns id
    · rw [← hstep.frame hconcerns] at hheld
      rcases ih hheld hnogrant' with hheld | hreleased
      · exact Or.inl hheld
      · exact Or.inr (by simp [hreleased])

/-- **Exclusive hand-over.** Between two successive grants of a resource either the
first lease is released by its id and owner, or it has expired at the recorded start
of the second, although the recorded start is truncated. -/
theorem LeaseRun.handover (htrunc : Monotone trunc)
    {table table' : LeaseTable Resource Owner Id Key Time}
    {before between after : List (LeaseEvent Resource Owner Id Key Time)} {r : Resource}
    {first second : Lease Owner Id Key Time}
    (hrun : LeaseRun trunc table
      (before ++ .granted r first :: (between ++ .granted r second :: after)) table')
    (hnogrant : ∀ lease, LeaseEvent.granted r lease ∉ between) :
    LeaseEvent.released r first.id first.owner ∈ between ∨ first.expires ≤ second.start := by
  obtain ⟨_, _, hrun⟩ := append_iff.mp hrun
  obtain _ | ⟨hfirst, hrun⟩ := hrun
  obtain ⟨_, hbetween, hrun⟩ := append_iff.mp hrun
  obtain _ | ⟨hsecond, _⟩ := hrun
  obtain ⟨-, hexpires, rfl⟩ := hfirst.granted_inv
  rcases hbetween.held_or_released (LeaseTable.grant_self _ r first) hnogrant with
    hheld | hreleased
  · right
    obtain ⟨⟨now, hfree, hstart⟩, -⟩ := hsecond.granted_inv
    rw [hstart, ← hexpires]
    exact htrunc (LeaseTable.active_eq_none_iff.mp hfree first hheld)
  · exact Or.inl hreleased

/-- A table holds exactly the latest grants that no release followed. -/
theorem LeaseRun.holds_iff {table : LeaseTable Resource Owner Id Key Time}
    {history : List (LeaseEvent Resource Owner Id Key Time)}
    (hrun : LeaseRun trunc LeaseTable.empty history table) {r : Resource}
    {lease : Lease Owner Id Key Time} :
    table r = some lease ↔ ∃ before after, history = before ++ .granted r lease :: after ∧
      ∀ event ∈ after, ¬ event.Concerns r := by
  constructor
  · intro hheld
    induction history using List.reverseRecOn generalizing table with
    | nil =>
      cases hrun
      cases hheld
    | append_singleton history event ih =>
      obtain ⟨table', hprefix, hlast⟩ := append_iff.mp hrun
      obtain _ | ⟨hstep, hnil⟩ := hlast
      cases hnil
      by_cases hconcerns : event.Concerns r
      · cases event with
        | granted r' lease' =>
          have hr : r' = r := hconcerns
          subst hr
          obtain ⟨-, -, rfl⟩ := hstep.granted_inv
          rw [LeaseTable.grant_self, Option.some.injEq] at hheld
          exact ⟨history, [], by rw [hheld], by simp⟩
        | released r' id owner =>
          have hr : r' = r := hconcerns
          subst hr
          obtain ⟨-, rfl⟩ := hstep.released_inv
          rw [LeaseTable.release_self] at hheld
          cases hheld
        | other => exact absurd hconcerns id
      · rw [hstep.frame hconcerns] at hheld
        obtain ⟨before, after, rfl, hafter⟩ := ih hprefix hheld
        refine ⟨before, after ++ [event], by simp, ?_⟩
        intro event' hevent'
        rcases List.mem_append.mp hevent' with h | h
        · exact hafter event' h
        · rw [List.mem_singleton.mp h]
          exact hconcerns
  · rintro ⟨before, after, rfl, hafter⟩
    obtain ⟨_, _, hrun⟩ := append_iff.mp hrun
    obtain _ | ⟨hgrant, hrun⟩ := hrun
    obtain ⟨-, -, rfl⟩ := hgrant.granted_inv
    rw [hrun.frame hafter, LeaseTable.grant_self]

/-- Two tables that differ only by leases that expired by the horizon. -/
def LeaseTable.AgreeFrom (horizon : Time)
    (old new : LeaseTable Resource Owner Id Key Time) : Prop :=
  ∀ r, old r = new r ∨ new r = none ∧ ∀ lease, old r = some lease → lease.expires ≤ horizon

namespace LeaseTable.AgreeFrom

variable {horizon : Time} {old new : LeaseTable Resource Owner Id Key Time}

omit [DecidableEq Resource] in
/-- From the horizon on, the two tables show the same active leases. -/
theorem active_eq (hagree : AgreeFrom horizon old new) (r : Resource) {now : Time}
    (hnow : horizon ≤ now) : old.active r now = new.active r now := by
  rcases hagree r with heq | ⟨hnone, hexpired⟩
  · rw [active, active, heq]
  · have hnew : new.active r now = none := by simp [active, hnone]
    rw [hnew]
    exact active_eq_none_iff.mpr fun lease hlease => (hexpired lease hlease).trans hnow

/-- A grant keeps the agreement. -/
theorem grant (hagree : AgreeFrom horizon old new) (r : Resource)
    (lease : Lease Owner Id Key Time) :
    AgreeFrom horizon (old.grant r lease) (new.grant r lease) := by
  intro r'
  by_cases h : r' = r
  · subst h
    simp
  · rw [grant_of_ne _ _ h, grant_of_ne _ _ h]
    exact hagree r'

/-- A release keeps the agreement. -/
theorem release (hagree : AgreeFrom horizon old new) (r : Resource) :
    AgreeFrom horizon (old.release r) (new.release r) := by
  intro r'
  by_cases h : r' = r
  · subst h
    simp
  · rw [release_of_ne _ h, release_of_ne _ h]
    exact hagree r'

omit [DecidableEq Resource] in
/-- A table whose leases all expire by the horizon agrees with the empty one. -/
theorem of_expired (hexpired : ∀ r lease, old r = some lease → lease.expires ≤ horizon) :
    AgreeFrom horizon old empty :=
  fun r => Or.inr ⟨rfl, hexpired r⟩

end LeaseTable.AgreeFrom

/-- Steps that record the same event keep the agreement. -/
theorem LeaseStep.agreeFrom {horizon : Time}
    {old old' new new' : LeaseTable Resource Owner Id Key Time}
    {event : LeaseEvent Resource Owner Id Key Time} (hold : LeaseStep trunc old event old')
    (hnew : LeaseStep trunc new event new') (hagree : old.AgreeFrom horizon new) :
    old'.AgreeFrom horizon new' := by
  cases event with
  | granted r lease =>
    obtain ⟨-, -, rfl⟩ := hold.granted_inv
    obtain ⟨-, -, rfl⟩ := hnew.granted_inv
    exact hagree.grant r lease
  | released r id owner =>
    obtain ⟨-, rfl⟩ := hold.released_inv
    obtain ⟨-, rfl⟩ := hnew.released_inv
    exact hagree.release r
  | other =>
    cases hold
    cases hnew
    exact hagree

end ContributorGateway
