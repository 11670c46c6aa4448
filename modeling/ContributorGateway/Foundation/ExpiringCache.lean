import ContributorGateway.Foundation.Machine
import Mathlib.Order.Lattice

/-!
# Caches with expiring entries

A cache remembers, for every key, the outcome of the latest request if it is one to
keep, until the clock reading of that request plus a time to live. Its content is a
function of the requests that ended, so that what it serves is justified by the latest
of them alone.
-/

namespace ContributorGateway

variable {Key Outcome Value Time : Type*}

/-- An answer from the cache at a clock reading, or the end of a request whose check
read the clock before it. -/
inductive CacheEvent (Key Outcome Value Time : Type*) where
  | served (k : Key) (now : Time) (v : Value)
  | ended (k : Key) (now : Time) (outcome : Outcome)

/-- Values with their expiry. -/
abbrev ExpiringCache (Key Value Time : Type*) := Key → Option (Value × Time)

namespace ExpiringCache

section Latest

variable [DecidableEq Key]

/-- The outcome of a request that ended for a key, with the clock reading before it. -/
def endedFor (k : Key) : CacheEvent Key Outcome Value Time → Option (Time × Outcome)
  | .served _ _ _ => none
  | .ended k' now outcome => if k' = k then some (now, outcome) else none

/-- The latest request that ended for a key. -/
def latest (k : Key) (history : List (CacheEvent Key Outcome Value Time)) :
    Option (Time × Outcome) :=
  (history.filterMap (endedFor k)).getLast?

@[simp] theorem latest_nil (k : Key) :
    latest k ([] : List (CacheEvent Key Outcome Value Time)) = none := rfl

@[simp] theorem latest_served (k k' : Key) (now : Time) (v : Value)
    (history : List (CacheEvent Key Outcome Value Time)) :
    latest k (history ++ [.served k' now v]) = latest k history := by
  simp [latest, endedFor]

/-- A request for another key changes nothing. -/
theorem latest_ended (k k' : Key) (now : Time) (outcome : Outcome)
    (history : List (CacheEvent Key Outcome Value Time)) :
    latest k (history ++ [.ended k' now outcome]) =
      if k' = k then some (now, outcome) else latest k history := by
  by_cases h : k' = k
  · simp [latest, endedFor, h]
  · simp [latest, endedFor, h]

/-- The latest request is one of those that ended. -/
theorem ended_of_latest {k : Key} {history : List (CacheEvent Key Outcome Value Time)}
    {now : Time} {outcome : Outcome} (h : latest k history = some (now, outcome)) :
    .ended k now outcome ∈ history := by
  obtain ⟨e, he, hended⟩ := List.mem_filterMap.mp (List.mem_of_getLast? h)
  cases e with
  | served k' now' v => simp [endedFor] at hended
  | ended k' now' outcome' =>
    obtain ⟨rfl, rfl, rfl⟩ : k' = k ∧ now' = now ∧ outcome' = outcome := by
      simpa [endedFor] using hended
    exact he

/-- After a request ended, the latest one is this or one that ended later. -/
theorem latest_after {k : Key} {pre mid : List (CacheEvent Key Outcome Value Time)}
    {now now' : Time} {outcome outcome' : Outcome}
    (h : latest k (pre ++ .ended k now outcome :: mid) = some (now', outcome')) :
    (now' = now ∧ outcome' = outcome) ∨ .ended k now' outcome' ∈ mid := by
  induction mid using List.reverseRecOn with
  | nil =>
    rw [latest_ended, if_pos rfl] at h
    obtain ⟨rfl, rfl⟩ : now = now' ∧ outcome = outcome' := by simpa using h
    exact Or.inl ⟨rfl, rfl⟩
  | append_singleton mid e ih =>
    rw [← List.cons_append, ← List.append_assoc] at h
    have hrest (hmid : latest k (pre ++ .ended k now outcome :: mid) = some (now', outcome')) :
        (now' = now ∧ outcome' = outcome) ∨
          .ended k now' outcome' ∈ mid ++ [e] :=
      (ih hmid).imp_right fun hmem => List.mem_append_left _ hmem
    cases e with
    | served k' now₁ v =>
      rw [latest_served] at h
      exact hrest h
    | ended k' now₁ outcome₁ =>
      rw [latest_ended] at h
      split_ifs at h with hk
      · obtain ⟨rfl, rfl⟩ : now₁ = now' ∧ outcome₁ = outcome' := by simpa using h
        exact Or.inr (by simp [hk])
      · exact hrest h

end Latest

section Steps

variable [DecidableEq Key] [LinearOrder Time] [Add Time] (keep : Outcome → Option Value)
  (ttl : Value → Time)

/-- What a request that ended leaves in the cache. -/
def entry (now : Time) (outcome : Outcome) : Option (Value × Time) :=
  (keep outcome).map fun v => (v, now + ttl v)

/-- The cache starts empty, serves what has not expired, and replaces the entry of a key
when a request for it ends. -/
inductive Step : ExpiringCache Key Value Time → CacheEvent Key Outcome Value Time →
    ExpiringCache Key Value Time → Prop
  | served {cache : ExpiringCache Key Value Time} {k : Key} {now expires : Time} {v : Value}
      (hcached : cache k = some (v, expires)) (hfresh : now < expires) :
      Step cache (.served k now v) cache
  | ended (cache : ExpiringCache Key Value Time) (k : Key) (now : Time) (outcome : Outcome) :
      Step cache (.ended k now outcome) (Function.update cache k (entry keep ttl now outcome))

/-- The cache as a machine. -/
def machine : Machine (ExpiringCache Key Value Time) (CacheEvent Key Outcome Value Time) where
  start cache := cache = fun _ => none
  step := Step keep ttl

variable {keep ttl} {history pre post : List (CacheEvent Key Outcome Value Time)}
  {cache : ExpiringCache Key Value Time}

/-- The content of the cache is a function of the latest requests. -/
theorem content (hrun : (machine keep ttl).Run history cache) (k : Key) :
    cache k = (latest k history).bind fun r => entry keep ttl r.1 r.2 := by
  refine hrun.invariant (P := fun history cache =>
    cache k = (latest k history).bind fun r => entry keep ttl r.1 r.2) ?_ ?_
  · rintro _ rfl
    rfl
  · intro history cache e cache' _ ih hstep
    cases hstep with
    | served hcached hfresh => rw [latest_served, ih]
    | ended k' now outcome =>
      rw [latest_ended]
      by_cases h : k' = k
      · rw [h, Function.update_self, if_pos rfl]
        rfl
      · rw [Function.update_of_ne (Ne.symm h), if_neg h, ih]

/-- What is served was kept from the latest request for the key, within its time to
live. -/
theorem served_justified {k : Key} {now : Time} {v : Value}
    (hrun : (machine keep ttl).Run (pre ++ .served k now v :: post) cache) :
    ∃ now₀ outcome, latest k pre = some (now₀, outcome) ∧ keep outcome = some v ∧
      now < now₀ + ttl v := by
  obtain ⟨cache₁, cache₂, hrun₁, hstep⟩ := hrun.step_of_mem
  cases hstep with
  | served hcached hfresh =>
    rw [content hrun₁, Option.bind_eq_some_iff] at hcached
    obtain ⟨⟨now₀, outcome⟩, hlatest, hentry⟩ := hcached
    obtain ⟨w, hkeep, hpair⟩ := Option.map_eq_some_iff.mp hentry
    obtain ⟨rfl, rfl⟩ := Prod.mk.inj hpair
    exact ⟨now₀, outcome, hlatest, hkeep, hfresh⟩

end Steps

end ExpiringCache

end ContributorGateway
