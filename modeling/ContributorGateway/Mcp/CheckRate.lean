import ContributorGateway.Mcp.CollaboratorChecks

/-!
# How often the code host is asked

A definite answer keeps later checks of its identity from asking until the time to live is over,
and the lock lets one request at a time through. The clock readings of the requests for an
identity that was answered definitely therefore lie a time to live apart.
-/

namespace ContributorGateway.CollaboratorChecks

section Spacing

variable {Time : Type} [LinearOrder Time] [Add Time] {A : Authorizer Time} {ι : Type}
  [DecidableEq ι] {history : List (Event ι Time)} {s s' : State ι Time}

/-- The outcomes that are kept. -/
def isDefinite : Outcome → Bool
  | .response status => status = 204 || status = 404
  | _ => false

/-- The time to live of an outcome. -/
def Authorizer.outcomeTtl (A : Authorizer Time) (outcome : Outcome) : Time :=
  if outcome = .response 204 then A.positiveTtl else A.negativeTtl

/-- A request under way has read the clock before. -/
def ClockedBy (s : State ι Time) : Prop :=
  ∀ i userId login now, s.calls i = some (.requesting userId login now) → now ≤ s.clock

/-- What a definite answer for an identity still rules out: its entry lasts, or its time is over;
and a request for the identity that is under way began when its time was over. -/
structure RulesOut (A : Authorizer Time) (s : State ι Time) (key : String × String) (limit : Time) :
    Prop where
  kept : (∃ e, s.cache key = some e ∧ limit ≤ e.expiresAt) ∨ limit ≤ s.clock
  requests : ∀ i userId login now, s.calls i = some (.requesting userId login now) →
    A.cacheKey userId login = key → limit ≤ now

/-- What is known of the definite answers of a history. -/
def Spaced (A : Authorizer Time) (history : List (Event ι Time)) (s : State ι Time) : Prop :=
  ∀ j key now outcome, .replied j key now outcome ∈ history → isDefinite outcome = true →
    RulesOut A s key (now + A.outcomeTtl outcome)

omit [LinearOrder Time] in
/-- A definite outcome leaves an entry that lasts its time to live. -/
theorem conclude_definite {cache : Cache Time} {key : String × String} {now : Time}
    {outcome : Outcome} (h : isDefinite outcome = true) :
    ∃ e, (A.conclude cache key now outcome).1 key = some e ∧
      e.expiresAt = now + A.outcomeTtl outcome := by
  cases outcome with
  | response status =>
    simp only [isDefinite, Bool.or_eq_true, decide_eq_true_eq] at h
    rcases h with rfl | rfl
    · exact ⟨⟨.allowed, 204, now + A.positiveTtl⟩, Function.update_self .., rfl⟩
    · exact ⟨⟨.denied, 404, now + A.negativeTtl⟩, Function.update_self .., rfl⟩
  | requestError => cases h
  | clientError => cases h
  | cancelled => cases h

omit [LinearOrder Time] in
/-- The end of a request touches the entry of its identity only. -/
theorem conclude_of_ne {cache : Cache Time} {key key' : String × String} {now : Time}
    {outcome : Outcome} (h : key' ≠ key) :
    (A.conclude cache key now outcome).1 key' = cache key' := by
  unfold Authorizer.conclude
  cases request outcome with
  | none => rfl
  | some decision =>
    dsimp only
    split_ifs
    · rfl
    · exact Function.update_of_ne h ..

omit [Add Time] in
/-- A call that does not request and a later reading of the clock rule out as much. -/
theorem RulesOut.call {key : String × String} {limit : Time} (h : RulesOut A s key limit) {i : ι}
    {c : Call Time} (hc : ∀ userId login now, c ≠ .requesting userId login now)
    (hcache : s'.cache = s.cache) (hclock : s.clock ≤ s'.clock)
    (hcalls : s'.calls = Function.update s.calls i (some c)) : RulesOut A s' key limit := by
  constructor
  · rw [hcache]
    exact h.kept.imp_right fun hover => hover.trans hclock
  · intro j userId login now hj hkey
    rw [hcalls] at hj
    rcases eq_some_of_update hj with ⟨-, hcall⟩ | ⟨-, hj⟩
    · exact absurd hcall (hc userId login now)
    · exact h.requests j userId login now hj hkey

omit [Add Time] in
/-- An entry that has expired is dropped. -/
theorem lookUp_expired {cache : Cache Time} {key : String × String} {now : Time}
    {e : CacheEntry Time} (he : cache key = some e) (hexpired : e.expiresAt ≤ now) :
    lookUp cache key now = .inr (Function.update cache key none) := by
  rw [lookUp, he]
  exact if_neg (not_lt.mpr hexpired)

/-- The requests under way have read the clock. -/
theorem clockedBy_of_run (hrun : (machine A).Run history s) : ClockedBy s := by
  refine hrun.invariant (P := fun _ s => ClockedBy s) ?_ ?_
  · rintro s ⟨-, -, hcalls⟩ i userId login now hi
    rw [hcalls] at hi
    cases hi
  · intro history s e s' _ ih hstep j userId login now hj
    cases hstep with
    | called userId' login' hnew =>
      rcases eq_some_of_update hj with ⟨-, hcall⟩ | ⟨-, hj⟩
      · exact absurd hcall (call_ne_requesting userId' login' userId login now)
      · exact ih j userId login now hj
    | served hcall hlock hclock hcached =>
      rcases eq_some_of_update hj with ⟨-, hcall⟩ | ⟨-, hj⟩
      · cases hcall
      · exact (ih j userId login now hj).trans hclock
    | asked hcall hlock hclock hcached =>
      rcases eq_some_of_update hj with ⟨-, hcall⟩ | ⟨-, hj⟩
      · cases hcall
        exact le_refl _
      · exact (ih j userId login now hj).trans hclock
    | replied outcome hcall =>
      rcases eq_some_of_update hj with ⟨-, hcall'⟩ | ⟨-, hj⟩
      · exact absurd hcall' (conclude_ne_requesting _ _ _ _ _ _ _)
      · exact ih j userId login now hj
    | withdrawn hcall =>
      rcases eq_some_of_update hj with ⟨-, hcall'⟩ | ⟨-, hj⟩
      · cases hcall'
      · exact ih j userId login now hj

/-- A request under way holds the lock, and its identity has no entry. -/
theorem holder_of_run (hrun : (machine A).Run history s) {i : ι} {userId login : String}
    {now : Time} (hi : s.calls i = some (.requesting userId login now)) :
    s.lock = some i ∧ s.cache (A.cacheKey userId login) = none := by
  obtain ⟨t, -, hmatches⟩ := follows.run hrun
  exact hmatches.holder i userId login now hi

omit [Add Time] in
/-- A new request for an identity begins when the time of its definite answers is over. -/
theorem RulesOut.asked {key : String × String} {limit now : Time} (h : RulesOut A s key limit)
    {i : ι} {userId login : String} {cache : Cache Time} (hclock : s.clock ≤ now)
    (hcached : lookUp s.cache (A.cacheKey userId login) now = .inr cache) :
    RulesOut A
      { cache := cache
        lock := some i
        clock := now
        calls := Function.update s.calls i (some (.requesting userId login now)) } key limit := by
  obtain rfl := lookUp_eq_inr hcached
  have hover (hkey : A.cacheKey userId login = key) : limit ≤ now := by
    rcases h.kept with ⟨e, he, hlimit⟩ | hlimit
    · unfold lookUp at hcached
      rw [hkey, he] at hcached
      dsimp only at hcached
      split_ifs at hcached with hfresh
      exact hlimit.trans (not_lt.mp hfresh)
    · exact hlimit.trans hclock
  constructor
  · by_cases hkey : A.cacheKey userId login = key
    · exact Or.inr (hover hkey)
    · rcases h.kept with ⟨e, he, hlimit⟩ | hlimit
      · refine Or.inl ⟨e, ?_, hlimit⟩
        dsimp only
        rwa [Function.update_of_ne (Ne.symm hkey)]
      · exact Or.inr (hlimit.trans hclock)
  · intro j userId' login' now' hj hkey
    rcases eq_some_of_update hj with ⟨-, hcall⟩ | ⟨-, hj⟩
    · cases hcall
      exact hover hkey
    · exact h.requests j userId' login' now' hj hkey

/-- The end of a request for an identity comes when the time of its earlier definite answers is
over. -/
theorem RulesOut.replied {key : String × String} {limit now : Time} (h : RulesOut A s key limit)
    {i : ι} {userId login : String} {outcome : Outcome}
    (hcall : s.calls i = some (.requesting userId login now)) (hclock : now ≤ s.clock) :
    RulesOut A
      { s with
        cache := (A.conclude s.cache (A.cacheKey userId login) now outcome).1
        lock := none
        calls := Function.update s.calls i
          (some (A.conclude s.cache (A.cacheKey userId login) now outcome).2) } key limit := by
  constructor
  · by_cases hkey : A.cacheKey userId login = key
    · exact Or.inr ((h.requests i userId login now hcall hkey).trans hclock)
    · refine h.kept.imp_left ?_
      rintro ⟨e, he, hlimit⟩
      refine ⟨e, ?_, hlimit⟩
      dsimp only
      rw [conclude_of_ne (Ne.symm hkey)]
      exact he
  · intro j userId' login' now' hj hkey
    rcases eq_some_of_update hj with ⟨-, hcall'⟩ | ⟨-, hj⟩
    · exact absurd hcall' (conclude_ne_requesting _ _ _ _ _ _ _)
    · exact h.requests j userId' login' now' hj hkey

/-- Every run keeps the definite answers of an identity apart. -/
theorem spaced_of_run (hrun : (machine A).Run history s) : Spaced A history s := by
  refine hrun.invariant (P := Spaced A) ?_ ?_
  · intro s _ j key now outcome hmem
    cases hmem
  · intro history s e s' hrun ih hstep j key now outcome hmem hdefinite
    rcases List.mem_append.mp hmem with hmem | hmem
    · have hold := ih j key now outcome hmem hdefinite
      cases hstep with
      | called userId login hnew =>
        exact hold.call (call_ne_requesting userId login) rfl (le_refl _) rfl
      | served hcall hlock hclock hcached => exact hold.call (by simp) rfl hclock rfl
      | asked hcall hlock hclock hcached => exact hold.asked hclock hcached
      | replied outcome hcall => exact hold.replied hcall (clockedBy_of_run hrun _ _ _ _ hcall)
      | withdrawn hcall => exact hold.call (by simp) rfl (le_refl _) rfl
    · rw [List.mem_singleton] at hmem
      subst hmem
      cases hstep with
      | @replied i userId login now outcome hcall =>
        have hlock := (holder_of_run hrun hcall).1
        have hentry : ∃ e, (A.conclude s.cache (A.cacheKey userId login) now outcome).1
            (A.cacheKey userId login) = some e ∧ e.expiresAt = now + A.outcomeTtl outcome :=
          conclude_definite hdefinite
        obtain ⟨e, he, hexpires⟩ := hentry
        refine ⟨Or.inl ⟨e, he, hexpires.ge⟩, ?_⟩
        intro j' userId' login' now' hj hkey
        rcases eq_some_of_update hj with ⟨-, hcall'⟩ | ⟨hij, hj⟩
        · exact absurd hcall' (conclude_ne_requesting _ _ _ _ _ _ _)
        · have hheld := (holder_of_run hrun hj).1
          rw [hlock] at hheld
          exact absurd (Option.some.inj hheld).symm hij

/-- The clock reading and the outcome of a request for an identity that ended. -/
def replyOf (key : String × String) : Event ι Time → Option (Time × Outcome)
  | .replied _ key' now outcome => if key' = key then some (now, outcome) else none
  | _ => none

omit [LinearOrder Time] [Add Time] [DecidableEq ι] in
/-- The requests for an identity that ended are events. -/
theorem mem_filterMap_replyOf {key : String × String} {r : Time × Outcome} :
    r ∈ history.filterMap (replyOf key) ↔ ∃ i, .replied i key r.1 r.2 ∈ history := by
  rw [List.mem_filterMap]
  constructor
  · rintro ⟨e, he, hr⟩
    unfold replyOf at hr
    split at hr
    · split_ifs at hr with hkey
      subst hkey
      rw [← Option.some.inj hr]
      exact ⟨_, he⟩
    · cases hr
  · rintro ⟨i, hi⟩
    exact ⟨_, hi, if_pos rfl⟩

/-- The requests for an identity that follow a definite answer lie its time to live apart. -/
theorem pairwise_replyOf (hrun : (machine A).Run history s) (key : String × String) :
    (history.filterMap (replyOf key)).Pairwise fun r r' =>
      isDefinite r.2 = true → r.1 + A.outcomeTtl r.2 ≤ r'.1 := by
  refine hrun.invariant (P := fun history _ => (history.filterMap (replyOf key)).Pairwise
    fun r r' => isDefinite r.2 = true → r.1 + A.outcomeTtl r.2 ≤ r'.1) ?_ ?_
  · intro s _
    exact List.Pairwise.nil
  · intro history s e s' hrun ih hstep
    rw [List.filterMap_append, List.pairwise_append]
    refine ⟨ih, ?_, fun r hr r' hr' hdefinite => ?_⟩
    · rw [List.filterMap_cons]
      cases replyOf key e with
      | none => exact List.Pairwise.nil
      | some r => exact List.pairwise_singleton _ _
    · obtain ⟨i, hi⟩ := mem_filterMap_replyOf.mp hr'
      obtain ⟨j, hj⟩ := mem_filterMap_replyOf.mp hr
      rw [List.mem_singleton] at hi
      subst hi
      have hrules := spaced_of_run hrun j key r.1 r.2 hj hdefinite
      generalize hkey : key = key' at hstep
      cases hstep with
      | replied outcome hcall => exact hrules.requests _ _ _ _ hcall hkey.symm

end Spacing

section Counting

variable {Time : Type} [LinearOrder Time] [AddCommGroup Time] [IsOrderedAddMonoid Time]
  {ι : Type} [DecidableEq ι] {A : Authorizer Time} {history : List (Event ι Time)}
  {s : State ι Time}

/-- Readings that lie a gap apart reach as far as their number of gaps. -/
theorem nsmul_gap_le {gap : Time} {first : Time} {rest : List Time}
    (h : (first :: rest).Pairwise fun t t' => t + gap ≤ t') :
    first + rest.length • gap ≤ (first :: rest).getLast (List.cons_ne_nil _ _) := by
  induction rest generalizing first with
  | nil =>
    rw [List.length_nil, zero_nsmul, add_zero]
    exact le_refl _
  | cons next rest ih =>
    rw [List.pairwise_cons] at h
    have hnext := h.1 next List.mem_cons_self
    calc first + (next :: rest).length • gap
        = first + gap + rest.length • gap := by
          rw [List.length_cons, succ_nsmul, add_assoc, add_comm (rest.length • gap)]
      _ ≤ next + rest.length • gap := by gcongr
      _ ≤ (next :: rest).getLast (List.cons_ne_nil _ _) := ih h.2
      _ = (first :: next :: rest).getLast (List.cons_ne_nil _ _) :=
          (List.getLast_cons (List.cons_ne_nil _ _)).symm

/-- The code host is asked rarely. In every interleaving at most one request is under way; the
clock readings of the requests for an identity that follow a definite answer lie its time to
live apart; and if all answers for an identity are definite, the number of its requests is bounded
by the time that has passed. -/
theorem requests_spaced (hrun : (machine A).Run history s) :
    (∀ i j userId login now userId' login' now',
      s.calls i = some (.requesting userId login now) →
      s.calls j = some (.requesting userId' login' now') → i = j) ∧
    (∀ key, (history.filterMap (replyOf key)).Pairwise fun r r' =>
      isDefinite r.2 = true → r.1 + A.outcomeTtl r.2 ≤ r'.1) ∧
    (∀ key gap first rest, gap ≤ A.positiveTtl → gap ≤ A.negativeTtl →
      (∀ i now outcome, .replied i key now outcome ∈ history → isDefinite outcome = true) →
      (history.filterMap (replyOf key)).map Prod.fst = first :: rest →
        first + rest.length • gap ≤ (first :: rest).getLast (List.cons_ne_nil _ _)) := by
  refine ⟨?_, fun key => pairwise_replyOf hrun key, ?_⟩
  · intro i j userId login now userId' login' now' hi hj
    have hheld := (holder_of_run hrun hi).1
    rw [(holder_of_run hrun hj).1] at hheld
    exact (Option.some.inj hheld).symm
  · intro key gap first rest hpositive hnegative hdefinite htimes
    apply nsmul_gap_le
    rw [← htimes, List.pairwise_map]
    refine (pairwise_replyOf hrun key).imp_of_mem fun {r r'} hr hr' hspaced => ?_
    obtain ⟨i, hi⟩ := mem_filterMap_replyOf.mp hr
    refine le_trans ?_ (hspaced (hdefinite i r.1 r.2 hi))
    have hgap : gap ≤ A.outcomeTtl r.2 := by
      unfold Authorizer.outcomeTtl
      split_ifs
      · exact hpositive
      · exact hnegative
    gcongr

end Counting

/-- A second check asks again when the answer to the first is too old. -/
theorem requests_spaced_twice :
    ∃ (history : List (Event ℕ ℤ)) (s : State ℕ ℤ), (machine asciiAuthorizer).Run history s ∧
      history.filterMap (replyOf ("7", "ada")) = [(10, .response 204), (400, .response 404)] ∧
      (history.filterMap (replyOf ("7", "ada"))).Pairwise fun r r' =>
        isDefinite r.2 = true → r.1 + asciiAuthorizer.outcomeTtl r.2 ≤ r'.1 := by
  have hada : asciiAuthorizer.call "7" "Ada" = .waiting "7" "Ada" := by decide +kernel
  have hkey : asciiAuthorizer.cacheKey "7" "Ada" = ("7", "ada") := by decide +kernel
  have h₀ : (machine asciiAuthorizer).Run []
      (⟨fun _ => none, none, 0, fun _ => none⟩ : State ℕ ℤ) := .start ⟨rfl, rfl, rfl⟩
  have h₁ := h₀.step (.called (i := 0) "7" "Ada" rfl)
  have h₂ := h₁.step (.called (i := 1) "7" "Ada" rfl)
  rw [hada] at h₂
  have h₃ := h₂.step (@Step.asked ℤ _ _ asciiAuthorizer ℕ _ _ 0 "7" "Ada" 10 _ rfl rfl
    (by decide) rfl)
  have h₄ := h₃.step (@Step.replied ℤ _ _ asciiAuthorizer ℕ _ _ 0 "7" "Ada" 10 (.response 204)
    (by simp))
  have h₅ := h₄.step (@Step.asked ℤ _ _ asciiAuthorizer ℕ _ _ 1 "7" "Ada" 400 _ rfl rfl
    (by decide) (lookUp_expired (e := ⟨.allowed, 204, 310⟩)
      (by simp [Authorizer.conclude, request, Authorizer.ttl, asciiAuthorizer]) (by decide)))
  have h₆ := h₅.step (@Step.replied ℤ _ _ asciiAuthorizer ℕ _ _ 1 "7" "Ada" 400 (.response 404)
    (by simp))
  exact ⟨_, _, h₆, by simp [List.filterMap_cons, replyOf, hkey], (requests_spaced h₆).2.1 ("7", "ada")⟩

end ContributorGateway.CollaboratorChecks
