import ContributorGateway.Foundation.ExpiringCache
import ContributorGateway.Foundation.PythonText
import Mathlib.Algebra.Order.Group.Int
import Mathlib.Algebra.Order.Group.Unbundled.Basic

/-!
# Collaborator checks

`ContributorAuthorizer` asks the code host whether a verified identity is a collaborator
and caches the two definite answers for a while. A lock serializes the checks from the
clock reading to the cache entry, so that an interleaving of checks is a run of the
cache alone.
-/

namespace ContributorGateway.CollaboratorChecks

/-! ## One check -/

/-- `CollaboratorState`. -/
inductive CollaboratorState where
  | allowed
  | denied
  | unavailable
  deriving DecidableEq

/-- `CollaboratorDecision`. -/
structure CollaboratorDecision where
  state : CollaboratorState
  statusCode : Option ℕ
  reason : String
  deriving DecidableEq

/-- `_CacheEntry`. -/
structure CacheEntry (Time : Type) where
  state : CollaboratorState
  statusCode : ℕ
  expiresAt : Time

/-- `_cache`, with the user id and the casefolded login as the key. -/
abbrev Cache (Time : Type) := String × String → Option (CacheEntry Time)

/-- How the request of a check ends: with a response, with one of the two kinds of error
that are handled, or with the cancellation of the check. -/
inductive Outcome where
  | response (status : ℕ)
  | requestError
  | clientError
  | cancelled
  deriving DecidableEq

/-- `_GITHUB_LOGIN.fullmatch`. -/
def isGithubLogin (login : String) : Bool :=
  matchesClass (fun c => isAsciiAlnum c || c == '-') 1 39 login &&
    login.toList.head?.any isAsciiAlnum && login.toList.getLast?.any isAsciiAlnum

/-- The path of the request, from `_COLLABORATOR_PATH`. -/
def collaboratorPath (login : String) : String :=
  "/repos/alexscott2718-gif/jn-engine/collaborators/" ++ quote login

/-- `_request`. A cancelled request gives no decision. -/
def request : Outcome → Option CollaboratorDecision
  | .requestError => some ⟨.unavailable, none, "request_error"⟩
  | .clientError => some ⟨.unavailable, none, "unexpected_client_error"⟩
  | .response status =>
      if status = 204 then some ⟨.allowed, some 204, "github"⟩
      else if status = 404 then some ⟨.denied, some 404, "github"⟩
      else some ⟨.unavailable, some status, "upstream_status"⟩
  | .cancelled => none

/-- The settings of an authorizer and the text functions of the interpreter:
`str.casefold`, `str.isdigit`, and `int` on a text, which may raise `ValueError`. -/
structure Authorizer (Time : Type) where
  positiveTtl : Time
  negativeTtl : Time
  casefold : String → String
  isdigit : String → Bool
  int : String → Option ℤ

/-- Where a call of `check` is. -/
inductive Call (Time : Type) where
  | waiting (userId login : String)
  | requesting (userId login : String) (now : Time)
  | returned (decision : CollaboratorDecision)
  | raised
  | cancelled
  deriving DecidableEq

section Check

variable {Time : Type} [LinearOrder Time] [Add Time] (A : Authorizer Time)

/-- `cache_key`. -/
def Authorizer.cacheKey (userId login : String) : String × String := (userId, A.casefold login)

/-- The part of `check` before the lock. -/
def Authorizer.call (userId login : String) : Call Time :=
  if A.isdigit userId then
    match A.int userId with
    | none => .raised
    | some n =>
        if n ≤ 0 || !isGithubLogin login then
          .returned ⟨.unavailable, none, "invalid_verified_identity"⟩
        else .waiting userId login
  else .returned ⟨.unavailable, none, "invalid_verified_identity"⟩

/-- The part of `check` from the clock reading to the request: the decision from the
cache, or the cache without the entry. -/
def lookUp (cache : Cache Time) (key : String × String) (now : Time) :
    CollaboratorDecision ⊕ Cache Time :=
  match cache key with
  | some cached =>
      if now < cached.expiresAt then .inl ⟨cached.state, some cached.statusCode, "cache"⟩
      else .inr (Function.update cache key none)
  | none => .inr (Function.update cache key none)

/-- `ttl`. -/
def Authorizer.ttl (state : CollaboratorState) : Time :=
  if state = .allowed then A.positiveTtl else A.negativeTtl

/-- The part of `check` after the request: the cache and the end of the call. -/
def Authorizer.conclude (cache : Cache Time) (key : String × String) (now : Time)
    (outcome : Outcome) : Cache Time × Call Time :=
  match request outcome with
  | none => (cache, .cancelled)
  | some decision =>
      if decision.state = .unavailable then (cache, .returned decision)
      else
        (Function.update cache key
          (some ⟨decision.state, decision.statusCode.getD 0, now + A.ttl decision.state⟩),
          .returned decision)

/-! ## Interleaved checks -/

/-- What the calls share: the cache, the lock with its holder, and the latest reading of
the clock. -/
structure State (ι Time : Type) where
  cache : Cache Time
  lock : Option ι
  clock : Time
  calls : ι → Option (Call Time)

/-- What happens in an interleaving. -/
inductive Event (ι Time : Type) where
  | called (i : ι) (userId login : String)
  | served (i : ι) (key : String × String) (now : Time) (decision : CollaboratorDecision)
  | asked (i : ι) (path : String) (now : Time)
  | replied (i : ι) (key : String × String) (now : Time) (outcome : Outcome)
  | withdrawn (i : ι)

variable {ι : Type} [DecidableEq ι]

/-- The steps between two suspensions of a call. A call waits for the lock, and keeps it
while it waits for the reply. -/
inductive Step : State ι Time → Event ι Time → State ι Time → Prop
  | called {s : State ι Time} {i : ι} (userId login : String) (hnew : s.calls i = none) :
      Step s (.called i userId login)
        { s with calls := Function.update s.calls i (some (A.call userId login)) }
  | served {s : State ι Time} {i : ι} {userId login : String} {now : Time}
      {decision : CollaboratorDecision} (hcall : s.calls i = some (.waiting userId login))
      (hlock : s.lock = none) (hclock : s.clock ≤ now)
      (hcached : lookUp s.cache (A.cacheKey userId login) now = .inl decision) :
      Step s (.served i (A.cacheKey userId login) now decision)
        { s with clock := now
                 calls := Function.update s.calls i (some (.returned decision)) }
  | asked {s : State ι Time} {i : ι} {userId login : String} {now : Time} {cache : Cache Time}
      (hcall : s.calls i = some (.waiting userId login)) (hlock : s.lock = none)
      (hclock : s.clock ≤ now)
      (hcached : lookUp s.cache (A.cacheKey userId login) now = .inr cache) :
      Step s (.asked i (collaboratorPath login) now)
        { cache := cache
          lock := some i
          clock := now
          calls := Function.update s.calls i (some (.requesting userId login now)) }
  | replied {s : State ι Time} {i : ι} {userId login : String} {now : Time}
      (outcome : Outcome) (hcall : s.calls i = some (.requesting userId login now)) :
      Step s (.replied i (A.cacheKey userId login) now outcome)
        { s with cache := (A.conclude s.cache (A.cacheKey userId login) now outcome).1
                 lock := none
                 calls := Function.update s.calls i
                   (some (A.conclude s.cache (A.cacheKey userId login) now outcome).2) }
  | withdrawn {s : State ι Time} {i : ι} {userId login : String}
      (hcall : s.calls i = some (.waiting userId login)) :
      Step s (.withdrawn i) { s with calls := Function.update s.calls i (some .cancelled) }

/-- An authorizer from its construction on. -/
def machine : Machine (State ι Time) (Event ι Time) where
  start s := s.cache = (fun _ => none) ∧ s.lock = none ∧ s.calls = fun _ => none
  step := Step A

/-! ## The cache alone -/

/-- What the cache keeps of an outcome: a definite state with its status code. -/
def kept (outcome : Outcome) : Option (CollaboratorState × ℕ) :=
  (request outcome).bind fun decision =>
    if decision.state = .unavailable then none
    else some (decision.state, decision.statusCode.getD 0)

/-- The answers from the cache and the ends of requests. -/
def cacheEvent : Event ι Time →
    Option (CacheEvent (String × String) Outcome (CollaboratorState × ℕ) Time)
  | .served _ key now decision =>
      some (.served key now (decision.state, decision.statusCode.getD 0))
  | .replied _ key now outcome => some (.ended key now outcome)
  | _ => none

/-- The cache that an interleaving follows. -/
def cacheMachine : Machine (ExpiringCache (String × String) (CollaboratorState × ℕ) Time)
    (CacheEvent (String × String) Outcome (CollaboratorState × ℕ) Time) :=
  ExpiringCache.machine kept fun v => A.ttl v.1

/-- The entries are those of the cache alone, and the identity of a request under way,
whose call holds the lock, has none. -/
structure Matches (s : State ι Time)
    (t : ExpiringCache (String × String) (CollaboratorState × ℕ) Time) : Prop where
  entries : ∀ key e, s.cache key = some e → t key = some ((e.state, e.statusCode), e.expiresAt)
  holder : ∀ i userId login now, s.calls i = some (.requesting userId login now) →
    s.lock = some i ∧ s.cache (A.cacheKey userId login) = none

variable {A}

omit [LinearOrder Time] [Add Time] in
/-- A call that does not request yet and a reading of the clock touch no entry. -/
theorem Matches.call {s s' : State ι Time}
    {t : ExpiringCache (String × String) (CollaboratorState × ℕ) Time} (h : Matches A s t)
    {i : ι} {c : Call Time} (hc : ∀ userId login now, c ≠ .requesting userId login now)
    (hcache : s'.cache = s.cache) (hlock : s'.lock = s.lock)
    (hcalls : s'.calls = Function.update s.calls i (some c)) : Matches A s' t := by
  refine ⟨?_, ?_⟩
  · rw [hcache]
    exact h.entries
  · intro j userId login now hj
    rw [hcache, hlock]
    rw [hcalls] at hj
    rcases eq_some_of_update hj with ⟨-, hcall⟩ | ⟨-, hj⟩
    · exact absurd hcall (hc userId login now)
    · exact h.holder j userId login now hj

omit [LinearOrder Time] [Add Time] in
/-- The call that begins is not requesting yet. -/
theorem call_ne_requesting (userId login : String) :
    ∀ userId' login' now, A.call userId login ≠ .requesting userId' login' now := by
  intro userId' login' now
  unfold Authorizer.call
  split_ifs
  · cases A.int userId with
    | none => simp
    | some n =>
      simp only
      split_ifs <;> simp
  · simp

omit [Add Time] in
/-- An entry of the cache that has not expired is the only source of an answer without
a request. -/
theorem lookUp_eq_inl {cache : Cache Time} {key : String × String} {now : Time}
    {decision : CollaboratorDecision} (h : lookUp cache key now = .inl decision) :
    ∃ e, cache key = some e ∧ now < e.expiresAt ∧
      decision = ⟨e.state, some e.statusCode, "cache"⟩ := by
  unfold lookUp at h
  cases hcached : cache key with
  | none => simp [hcached] at h
  | some e =>
    simp only [hcached] at h
    split_ifs at h with hfresh
    exact ⟨e, rfl, hfresh, (Sum.inl.inj h).symm⟩

omit [Add Time] in
/-- Without an answer the entry is dropped. -/
theorem lookUp_eq_inr {cache cache' : Cache Time} {key : String × String} {now : Time}
    (h : lookUp cache key now = .inr cache') : cache' = Function.update cache key none := by
  unfold lookUp at h
  cases hcached : cache key with
  | none =>
    simp only [hcached] at h
    exact (Sum.inr.inj h).symm
  | some e =>
    simp only [hcached] at h
    split_ifs at h
    exact (Sum.inr.inj h).symm

omit [LinearOrder Time] in
/-- What a request leaves of an identity without an entry is what the cache alone
keeps. -/
theorem conclude_entry {cache : Cache Time} {key : String × String} {now : Time}
    {outcome : Outcome} (hnone : cache key = none) :
    (A.conclude cache key now outcome).1 = Function.update cache key
      ((ExpiringCache.entry kept (fun v => A.ttl v.1) now outcome).map
        fun e => ⟨e.1.1, e.1.2, e.2⟩) := by
  have hsame : cache = Function.update cache key none := by
    rw [← hnone, Function.update_eq_self]
  unfold Authorizer.conclude ExpiringCache.entry kept
  cases hrequest : request outcome with
  | none => simpa using hsame
  | some decision =>
    by_cases hstate : decision.state = .unavailable
    · simpa [hstate] using hsame
    · simp [hstate]

omit [LinearOrder Time] in
/-- A call whose request ended is not requesting. -/
theorem conclude_ne_requesting (cache : Cache Time) (key : String × String) (now : Time)
    (outcome : Outcome) (userId login : String) (now' : Time) :
    (A.conclude cache key now outcome).2 ≠ .requesting userId login now' := by
  unfold Authorizer.conclude
  cases request outcome with
  | none => simp
  | some decision =>
    simp only
    split_ifs <;> simp

/-- An interleaving of checks follows the cache alone. -/
theorem follows : (machine A (ι := ι)).Follows (cacheMachine A) (Matches A) cacheEvent := by
  refine ⟨?_, ?_⟩
  · rintro s ⟨hcache, hlock, hcalls⟩
    refine ⟨_, rfl, ?_, ?_⟩
    · simp [hcache]
    · simp [hcalls]
  · intro s e s' t hstep h
    cases hstep with
    | called userId login hnew => exact h.call (call_ne_requesting userId login) rfl rfl rfl
    | withdrawn hcall => exact h.call (by simp) rfl rfl rfl
    | served hcall hlock hclock hcached =>
      obtain ⟨e, he, hfresh, rfl⟩ := lookUp_eq_inl hcached
      exact ⟨t, .served (h.entries _ e he) hfresh, h.call (by simp) rfl rfl rfl⟩
    | @asked i userId login now cache hcall hlock hclock hcached =>
      obtain rfl := lookUp_eq_inr hcached
      refine ⟨?_, ?_⟩
      · intro key e he
        by_cases hkey : key = A.cacheKey userId login
        · simp [hkey] at he
        · simp only [Function.update_of_ne hkey] at he
          exact h.entries key e he
      · intro j userId' login' now' hj
        rcases eq_some_of_update hj with ⟨rfl, hcall'⟩ | ⟨-, hj⟩
        · obtain ⟨rfl, rfl, -⟩ : userId = userId' ∧ login = login' ∧ now = now' := by
            simpa using hcall'
          exact ⟨rfl, Function.update_self ..⟩
        · have hheld := (h.holder j userId' login' now' hj).1
          rw [hlock] at hheld
          simp at hheld
    | @replied i userId login now outcome hcall =>
      obtain ⟨hlock, hnone⟩ := h.holder i userId login now hcall
      refine ⟨_, .ended t _ now outcome, ?_, ?_⟩
      · intro key e he
        simp only [conclude_entry hnone] at he
        by_cases hkey : key = A.cacheKey userId login
        · rw [hkey, Function.update_self] at he ⊢
          obtain ⟨e', he', rfl⟩ := Option.map_eq_some_iff.mp he
          exact he'
        · rw [Function.update_of_ne hkey] at he ⊢
          exact h.entries key e he
      · intro j userId' login' now' hj
        rcases eq_some_of_update hj with ⟨-, hcall'⟩ | ⟨hij, hj⟩
        · exact absurd hcall' (conclude_ne_requesting _ _ _ _ _ _ _)
        · have hheld := (h.holder j userId' login' now' hj).1
          rw [hlock] at hheld
          exact absurd (Option.some.inj hheld).symm hij

/-! ## What the calls return -/

/-- Where a call is, told by the history: it waits or requests for the identity it was
called with, and a decision it returned comes from the cache, from the reply to its own
request, or is no answer. -/
def ToldBy (A : Authorizer Time) (history : List (Event ι Time)) (i : ι) (userId login : String) :
    Call Time → Prop
  | .waiting userId' login' => userId' = userId ∧ login' = login
  | .requesting userId' login' _ => userId' = userId ∧ login' = login
  | .returned decision => decision.state = .unavailable ∨
      (∃ now, .served i (A.cacheKey userId login) now decision ∈ history) ∨
      ∃ now outcome, .replied i (A.cacheKey userId login) now outcome ∈ history ∧
        request outcome = some decision
  | .raised => True
  | .cancelled => True

omit [LinearOrder Time] [Add Time] [DecidableEq ι] in
/-- A longer history tells as much. -/
theorem ToldBy.mono {history : List (Event ι Time)} {i : ι} {userId login : String}
    {c : Call Time} (e : Event ι Time) (h : ToldBy A history i userId login c) :
    ToldBy A (history ++ [e]) i userId login c := by
  cases c with
  | waiting => exact h
  | requesting => exact h
  | raised => trivial
  | cancelled => trivial
  | returned decision =>
    rcases h with h | ⟨now, h⟩ | ⟨now, outcome, h, hrequest⟩
    · exact Or.inl h
    · exact Or.inr (Or.inl ⟨now, List.mem_append_left _ h⟩)
    · exact Or.inr (Or.inr ⟨now, outcome, List.mem_append_left _ h, hrequest⟩)

omit [LinearOrder Time] [Add Time] [DecidableEq ι] in
/-- A call that just began is told by any history. -/
theorem toldBy_call (history : List (Event ι Time)) (i : ι) (userId login : String) :
    ToldBy A history i userId login (A.call userId login) := by
  unfold Authorizer.call
  split_ifs
  · cases A.int userId with
    | none => trivial
    | some n =>
      simp only
      split_ifs
      · exact Or.inl rfl
      · exact ⟨rfl, rfl⟩
  · exact Or.inl rfl

omit [LinearOrder Time] [DecidableEq ι] in
/-- A request that ended ends its call with the decision about the outcome. -/
theorem toldBy_conclude (history : List (Event ι Time)) (i : ι) (userId login : String)
    (cache : Cache Time) (now : Time) (outcome : Outcome) :
    ToldBy A (history ++ [.replied i (A.cacheKey userId login) now outcome]) i userId login
      (A.conclude cache (A.cacheKey userId login) now outcome).2 := by
  unfold Authorizer.conclude
  cases hrequest : request outcome with
  | none => trivial
  | some decision =>
    have hreply : ToldBy A (history ++ [.replied i (A.cacheKey userId login) now outcome]) i
        userId login (.returned decision : Call Time) :=
      Or.inr (Or.inr ⟨now, outcome, by simp, hrequest⟩)
    simp only
    split_ifs
    · exact hreply
    · exact hreply

/-- Every call is told by the history of the interleaving. -/
theorem calls_toldBy {history : List (Event ι Time)} {s : State ι Time}
    (hrun : (machine A).Run history s) {i : ι} {c : Call Time} (hc : s.calls i = some c) :
    ∃ userId login, .called i userId login ∈ history ∧ ToldBy A history i userId login c := by
  refine hrun.invariant (P := fun history s => ∀ i c, s.calls i = some c →
    ∃ userId login, .called i userId login ∈ history ∧ ToldBy A history i userId login c)
    ?_ ?_ i c hc
  · rintro s ⟨-, -, hcalls⟩ i c hc
    simp [hcalls] at hc
  · intro history s e s' _ ih hstep j c hc
    have hother (hj : s.calls j = some c) : ∃ userId login,
        .called j userId login ∈ history ++ [e] ∧ ToldBy A (history ++ [e]) j userId login c := by
      obtain ⟨userId, login, hcalled, htold⟩ := ih j c hj
      exact ⟨userId, login, List.mem_append_left _ hcalled, htold.mono e⟩
    cases hstep with
    | @called i userId login hnew =>
      rcases eq_some_of_update hc with ⟨rfl, rfl⟩ | ⟨-, hj⟩
      · exact ⟨userId, login, by simp, toldBy_call _ j userId login⟩
      · exact hother hj
    | @served i userId login now decision hcall hlock hclock hcached =>
      rcases eq_some_of_update hc with ⟨rfl, rfl⟩ | ⟨-, hj⟩
      · obtain ⟨userId', login', hcalled, rfl, rfl⟩ := ih j _ hcall
        exact ⟨userId, login, List.mem_append_left _ hcalled, Or.inr (Or.inl ⟨now, by simp⟩)⟩
      · exact hother hj
    | @asked i userId login now cache hcall hlock hclock hcached =>
      rcases eq_some_of_update hc with ⟨rfl, rfl⟩ | ⟨-, hj⟩
      · obtain ⟨userId', login', hcalled, rfl, rfl⟩ := ih j _ hcall
        exact ⟨userId, login, List.mem_append_left _ hcalled, rfl, rfl⟩
      · exact hother hj
    | @replied i userId login now outcome hcall =>
      rcases eq_some_of_update hc with ⟨rfl, rfl⟩ | ⟨-, hj⟩
      · obtain ⟨userId', login', hcalled, rfl, rfl⟩ := ih j _ hcall
        exact ⟨userId, login, List.mem_append_left _ hcalled, toldBy_conclude ..⟩
      · exact hother hj
    | @withdrawn i userId login hcall =>
      rcases eq_some_of_update hc with ⟨rfl, rfl⟩ | ⟨-, hj⟩
      · obtain ⟨userId', login', hcalled, -⟩ := ih j _ hcall
        exact ⟨userId', login', List.mem_append_left _ hcalled, trivial⟩
      · exact hother hj

/-! ## What justifies an answer -/

/-- The latest request that ended for an identity, with the clock reading of its check. -/
def lastReply (key : String × String) (history : List (Event ι Time)) : Option (Time × Outcome) :=
  ExpiringCache.latest key (history.filterMap cacheEvent)

omit [LinearOrder Time] [Add Time] [DecidableEq ι] in
/-- What the cache alone knows of requests that ended, some check was replied. -/
theorem replied_of_ended {history : List (Event ι Time)} {key : String × String} {now : Time}
    {outcome : Outcome} (h : .ended key now outcome ∈ history.filterMap cacheEvent) :
    ∃ i, .replied i key now outcome ∈ history := by
  obtain ⟨e, he, hcache⟩ := List.mem_filterMap.mp h
  cases e with
  | replied i key' now' outcome' =>
    obtain ⟨rfl, rfl, rfl⟩ : key' = key ∧ now' = now ∧ outcome' = outcome := by
      simpa [cacheEvent] using hcache
    exact ⟨i, he⟩
  | served => simp [cacheEvent] at hcache
  | called => simp [cacheEvent] at hcache
  | asked => simp [cacheEvent] at hcache
  | withdrawn => simp [cacheEvent] at hcache

/-- Only the two definite answers are kept. -/
theorem kept_eq_some_iff {outcome : Outcome} {v : CollaboratorState × ℕ} :
    kept outcome = some v ↔ (outcome = .response 204 ∧ v = (.allowed, 204)) ∨
      (outcome = .response 404 ∧ v = (.denied, 404)) := by
  cases outcome with
  | response status =>
    by_cases h204 : status = 204
    · simp [kept, request, h204, eq_comm]
    · by_cases h404 : status = 404
      · simp [kept, request, h404, eq_comm]
      · simp [kept, request, h204, h404]
  | requestError => simp [kept, request]
  | clientError => simp [kept, request]
  | cancelled => simp [kept, request]

/-- An answer from the cache is the latest definite one for the identity and has not
expired. -/
theorem served_justified {pre post : List (Event ι Time)} {s : State ι Time} {i : ι}
    {key : String × String} {now : Time} {decision : CollaboratorDecision}
    (hrun : (machine A).Run (pre ++ .served i key now decision :: post) s) :
    ∃ now₀ status, lastReply key pre = some (now₀, .response status) ∧
      now < now₀ + A.ttl decision.state ∧
      ((status = 204 ∧ decision.state = .allowed) ∨ (status = 404 ∧ decision.state = .denied)) := by
  obtain ⟨t, hrun', -⟩ := follows.run hrun
  rw [List.filterMap_append, List.filterMap_cons] at hrun'
  obtain ⟨now₀, outcome, hlast, hkept, hfresh⟩ := ExpiringCache.served_justified hrun'
  rcases kept_eq_some_iff.mp hkept with ⟨rfl, hv⟩ | ⟨rfl, hv⟩
  · exact ⟨now₀, 204, hlast, hfresh, Or.inl ⟨rfl, congrArg Prod.fst hv⟩⟩
  · exact ⟨now₀, 404, hlast, hfresh, Or.inr ⟨rfl, congrArg Prod.fst hv⟩⟩

/-- A decision that is no answer from upstream is unavailable. -/
theorem request_state {outcome : Outcome} {decision : CollaboratorDecision}
    (h : request outcome = some decision) :
    (decision.state = .allowed → outcome = .response 204) ∧
      (decision.state = .denied → outcome = .response 404) := by
  cases outcome with
  | response status =>
    simp only [request] at h
    split_ifs at h with h204 h404 <;> obtain rfl := Option.some.inj h <;> simp [*]
  | requestError =>
    obtain rfl := Option.some.inj h
    simp
  | clientError =>
    obtain rfl := Option.some.inj h
    simp
  | cancelled => simp [request] at h

end Check

section Decisions

variable {Time : Type} [LinearOrder Time] [AddCommGroup Time] [IsOrderedAddMonoid Time]
  {ι : Type} [DecidableEq ι]

/-- A check that answered for an identity was replied the status itself, or it read the
clock within the time to live of a check for the identity that was replied the status. -/
def Justified (history : List (Event ι Time)) (i : ι) (key : String × String) (status : ℕ)
    (ttl : Time) : Prop :=
  (∃ now, .replied i key now (.response status) ∈ history) ∨
    ∃ pre now decision post, history = pre ++ .served i key now decision :: post ∧
      ∃ j now₀, .replied j key now₀ (.response status) ∈ pre ∧ now - now₀ < ttl

/-- The justification of a decision that a call returned. -/
theorem returned_justified {A : Authorizer Time} {history : List (Event ι Time)}
    {s : State ι Time} {i : ι} {decision : CollaboratorDecision} {status : ℕ}
    (hrun : (machine A).Run history s) (hreturned : s.calls i = some (.returned decision))
    (hstate : (decision.state = .allowed ∧ status = 204) ∨
      (decision.state = .denied ∧ status = 404)) :
    ∃ userId login, .called i userId login ∈ history ∧
      Justified history i (A.cacheKey userId login) status (A.ttl decision.state) := by
  obtain ⟨userId, login, hcalled, htold⟩ := calls_toldBy hrun hreturned
  refine ⟨userId, login, hcalled, ?_⟩
  rcases htold with hnone | ⟨now, hserved⟩ | ⟨now, outcome, hreplied, hrequest⟩
  · rcases hstate with ⟨h, -⟩ | ⟨h, -⟩ <;> simp [h] at hnone
  · right
    obtain ⟨pre, post, rfl⟩ := List.append_of_mem hserved
    obtain ⟨now₀, status', hlast, hfresh, hstatus⟩ := served_justified hrun
    obtain rfl : status' = status := by
      rcases hstate with ⟨h, rfl⟩ | ⟨h, rfl⟩ <;> simpa [h] using hstatus
    obtain ⟨j, hj⟩ := replied_of_ended (ExpiringCache.ended_of_latest hlast)
    exact ⟨pre, now, decision, post, rfl, j, now₀, hj, sub_lt_iff_lt_add'.mpr hfresh⟩
  · left
    refine ⟨now, ?_⟩
    rcases hstate with ⟨h, rfl⟩ | ⟨h, rfl⟩
    · rwa [(request_state hrequest).1 h] at hreplied
    · rwa [(request_state hrequest).2 h] at hreplied

/-- Whatever the interleaving of checks, the upstream outcomes and the clock: an allowed
check is justified by a 204 within the positive time to live, a denied one by a 404
within the negative one, the cache serves only the latest reply for the identity, and
after any reply but a 204 it serves no allowed answer until a new 204. -/
theorem collaborator_decisions {A : Authorizer Time} {history : List (Event ι Time)}
    {s : State ι Time} (hrun : (machine A).Run history s) :
    (∀ i decision, s.calls i = some (.returned decision) → decision.state = .allowed →
      ∃ userId login, .called i userId login ∈ history ∧
        Justified history i (A.cacheKey userId login) 204 A.positiveTtl) ∧
    (∀ i decision, s.calls i = some (.returned decision) → decision.state = .denied →
      ∃ userId login, .called i userId login ∈ history ∧
        Justified history i (A.cacheKey userId login) 404 A.negativeTtl) ∧
    (∀ pre i key now decision post, history = pre ++ .served i key now decision :: post →
      ∃ now₀ status, lastReply key pre = some (now₀, .response status) ∧
        ((status = 204 ∧ decision.state = .allowed) ∨
          (status = 404 ∧ decision.state = .denied))) ∧
    (∀ pre j key now₀ outcome mid i now decision post,
      history = pre ++ .replied j key now₀ outcome :: mid ++ .served i key now decision :: post →
      outcome ≠ .response 204 → (∀ j' now', .replied j' key now' (.response 204) ∉ mid) →
        decision.state ≠ .allowed) := by
  refine ⟨?_, ?_, ?_, ?_⟩
  · intro i decision hreturned hstate
    simpa [Authorizer.ttl, hstate] using
      returned_justified hrun hreturned (Or.inl ⟨hstate, rfl⟩)
  · intro i decision hreturned hstate
    simpa [Authorizer.ttl, hstate] using
      returned_justified hrun hreturned (Or.inr ⟨hstate, rfl⟩)
  · rintro pre i key now decision post rfl
    obtain ⟨now₀, status, hlast, -, hstatus⟩ := served_justified hrun
    exact ⟨now₀, status, hlast, hstatus⟩
  · rintro pre j key now₀ outcome mid i now decision post rfl hother hnone hallowed
    obtain ⟨now₁, status, hlast, -, hstatus⟩ := served_justified hrun
    obtain rfl : status = 204 := by simpa [hallowed] using hstatus
    rw [lastReply, List.filterMap_append, List.filterMap_cons] at hlast
    rcases ExpiringCache.latest_after hlast with ⟨-, hsame⟩ | hmid
    · exact hother hsame.symm
    · obtain ⟨j', hj'⟩ := replied_of_ended hmid
      exact hnone j' now₁ hj'

/-- An authorizer over ASCII text that counts seconds. -/
def asciiAuthorizer : Authorizer ℤ where
  positiveTtl := 300
  negativeTtl := 60
  casefold login := String.ofList (login.toList.map Char.toLower)
  isdigit text := !text.isEmpty && text.toList.all Char.isDigit
  int text := some (text.toList.foldl (fun n c => 10 * n + (c.toNat - 48 : ℤ)) 0)

/-- The second of two checks is served the answer to the first, which asked under another
spelling of the login. -/
theorem collaborator_decisions_twice :
    ∃ (history : List (Event ℕ ℤ)) (s : State ℕ ℤ), (machine asciiAuthorizer).Run history s ∧
      s.calls 1 = some (.returned ⟨.allowed, some 204, "cache"⟩) ∧
      ∃ userId login, .called 1 userId login ∈ history ∧
        Justified history 1 (asciiAuthorizer.cacheKey userId login) 204 300 := by
  have hada : asciiAuthorizer.call "7" "Ada" = .waiting "7" "Ada" := by decide +kernel
  have hADA : asciiAuthorizer.call "7" "ADA" = .waiting "7" "ADA" := by decide +kernel
  have hkey : asciiAuthorizer.cacheKey "7" "ADA" = asciiAuthorizer.cacheKey "7" "Ada" := by
    decide +kernel
  have h₀ : (machine asciiAuthorizer).Run []
      (⟨fun _ => none, none, 0, fun _ => none⟩ : State ℕ ℤ) := .start ⟨rfl, rfl, rfl⟩
  have h₁ := h₀.step (.called (i := 0) "7" "Ada" rfl)
  have h₂ := h₁.step (.called (i := 1) "7" "ADA" rfl)
  rw [hada, hADA] at h₂
  have h₃ := h₂.step (@Step.asked ℤ _ _ asciiAuthorizer ℕ _ _ 0 "7" "Ada" 10 _ rfl rfl
    (by decide) rfl)
  have h₄ := h₃.step (@Step.replied ℤ _ _ asciiAuthorizer ℕ _ _ 0 "7" "Ada" 10 (.response 204)
    (by simp))
  have h₅ := h₄.step (@Step.served ℤ _ _ asciiAuthorizer ℕ _ _ 1 "7" "ADA" 100
    ⟨.allowed, some 204, "cache"⟩ rfl rfl (by decide) (by
      rw [hkey]
      simp [lookUp, Authorizer.conclude, request, Authorizer.ttl, asciiAuthorizer]))
  exact ⟨_, _, h₅, rfl, (collaborator_decisions h₅).1 1 _ rfl rfl⟩

end Decisions

end ContributorGateway.CollaboratorChecks
