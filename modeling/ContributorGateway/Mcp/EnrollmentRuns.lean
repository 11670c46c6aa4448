import ContributorGateway.Foundation.Tickets
import ContributorGateway.Mcp.DeviceEnrollment

/-!
# Runs of device enrollment

An enrollment transaction is a ticket that a wrong secret presents in vain and the right
one spends; an authorization code is a ticket without a second chance. Both desks lose
tickets when they are pruned or expire, so that their runs bound those of the provider.
-/

namespace ContributorGateway.DeviceEnrollment

variable {Time : Type} [LinearOrder Time] [Add Time] [NatCast Time] {ι : Type} [DecidableEq ι]
  {p p' : Provider Time}

/-! ## What a step changes -/

/-- The dictionaries refer to at most the objects they referred to, which stay the same. -/
structure Shrinks (p p' : Provider Time) : Prop where
  transactions : p'.transactions = p.transactions
  codes : p'.codes = p.codes
  enrollTransactions : ∀ id, p'.enrollTransactions id = true → p.enrollTransactions id = true
  authCodes : ∀ code, p'.authCodes code = true → p.authCodes code = true

omit [LinearOrder Time] [Add Time] [NatCast Time] in
theorem Shrinks.refl (p : Provider Time) : Shrinks p p :=
  ⟨rfl, rfl, fun _ h => h, fun _ h => h⟩

omit [LinearOrder Time] [Add Time] [NatCast Time] in
/-- A transaction that is still referred to was referred to before. -/
theorem Shrinks.transaction? (h : Shrinks p p') {id : String} {t : EnrollTransaction Time}
    (ht : p'.transaction? id = some t) : p.transaction? id = some t := by
  unfold Provider.transaction? at ht ⊢
  split_ifs at ht with hid
  rw [if_pos (h.enrollTransactions id hid), ← h.transactions]
  exact ht

omit [LinearOrder Time] [Add Time] [NatCast Time] in
theorem shrinks_popTransaction (id : String) : Shrinks p (p.popTransaction id) := by
  refine ⟨rfl, rfl, ?_, fun _ h => h⟩
  intro id' hid'
  by_cases h : id' = id
  · simp [Provider.popTransaction, h] at hid'
  · simpa [Provider.popTransaction, Function.update_of_ne h] using hid'

omit [Add Time] [NatCast Time] in
theorem shrinks_prune (now : Time) : Shrinks p (p.prune now) := by
  refine ⟨rfl, rfl, ?_, ?_⟩
  · intro id hid
    by_contra h
    simp [Provider.prune, Provider.transaction?, h] at hid
  · intro code hcode
    by_contra h
    simp [Provider.prune, Provider.authCode?, h] at hcode

omit [Add Time] [NatCast Time] in
/-- A transaction that `_get_transaction` gives is referred to and has not expired; without
one the dictionary may lose it. -/
theorem getTransaction_cases (id : String) (now : Time) :
    (∃ t, p.getTransaction id now = (p, some t) ∧ p.transaction? id = some t ∧
      now ≤ t.expiresAt) ∨ p.getTransaction id now = (p.popTransaction id, none) := by
  unfold Provider.getTransaction
  cases ht : p.transaction? id with
  | none => exact Or.inr rfl
  | some t =>
    by_cases hexpired : t.expiresAt < now
    · simp [hexpired]
    · simp [hexpired, not_lt.mp hexpired]

omit [Add Time] [NatCast Time] in
theorem shrinks_enrollGet (id : String) (now : Time) : Shrinks p (p.enrollGet id now).1 := by
  unfold Provider.enrollGet
  rcases getTransaction_cases (p := p) id now with ⟨t, h, -, -⟩ | h
  · rw [h]
    exact .refl p
  · rw [h]
    exact shrinks_popTransaction id

/-- The submission got as far as the comparison of the secrets. -/
def Submission.compared : Submission Time → Bool
  | .waiting => true
  | .answered (.redirect _ _ _) => true
  | _ => false

/-- An event at the desk of the enrollment transactions. -/
def enrollTicket : Event ι Time → Option (TicketEvent String)
  | .authorized id _ _ => some (.issued id)
  | .submitted id secret (some expected) _ result =>
      if result.compared then some (if secret = expected then .spent id else .failed id) else none
  | _ => none

/-- An event at the desk of the authorization codes. -/
def codeTicket : Event ι Time → Option (TicketEvent String)
  | .submitted _ _ _ _ (.answered (.redirect _ code _)) => some (.issued code)
  | .exchanged code result => if result = .invalidGrant then none else some (.spent code)
  | _ => none

/-- What a step does to the objects and dictionaries, and how its label tells it. -/
inductive Effect (p : Provider Time) : Event ι Time → Provider Time → Prop
  | quiet {e : Event ι Time} {p' : Provider Time} (hshrinks : Shrinks p p')
      (henroll : enrollTicket e = none) (hcode : codeTicket e = none) : Effect p e p'
  | authorized {id : String} {t : EnrollTransaction Time} {q : Provider Time}
      (hshrinks : Shrinks p q) (hfresh : p.transactions id = none) (hattempts : t.attempts = 0) :
      Effect p (.authorized id t.clientId t.expiresAt)
        { q with
          transactions := Function.update q.transactions id (some t)
          enrollTransactions := Function.update q.enrollTransactions id true }
  | refused {id secret expected : String} {t : EnrollTransaction Time} (now : Time)
      (ht : p.transaction? id = some t) (hwrong : secret ≠ expected) :
      Effect p (.submitted id secret (some expected) now .waiting) (p.refuse id t)
  | enrolled {id secret code : String} {t : EnrollTransaction Time} {now now' : Time}
      (client : Option Client) (ht : p.transaction? id = some t) (hnow : now ≤ t.expiresAt)
      (hfresh : p.codes code = none) :
      Effect p (.submitted id secret (some secret) now
          (.answered (.redirect t.params.redirectUri code t.params.state)))
        (p.enroll id t client code now')
  | exchanged {code : String} {result : Exchange} (hcode : p.authCodes code = true)
      (hresult : result ≠ .invalidGrant) :
      Effect p (.exchanged code result)
        { p with authCodes := Function.update p.authCodes code false }

/-- Every step has one of the effects. -/
theorem Step.effect {issuer : String} {s s' : State ι Time} {e : Event ι Time}
    (hstep : Step issuer s e s') : Effect s.provider e s'.provider := by
  cases hstep with
  | @authorized client params now now' id url p hclock hfresh hresult =>
    unfold Provider.authorize at hresult
    by_cases hclient : client.clientId.getD "" = ""
    · simp [hclient] at hresult
    · simp only [hclient, if_false, Prod.mk.injEq] at hresult
      obtain ⟨rfl, -⟩ := hresult
      exact .authorized
        (t := ⟨client.clientId.getD "", params, now' + (enrollTxnTtlSeconds : Time), 0⟩)
        (shrinks_prune now) hfresh rfl
  | @unauthorized client params now now' id p hclock hresult =>
    unfold Provider.authorize at hresult
    by_cases hclient : client.clientId.getD "" = ""
    · simp only [hclient, if_true, Prod.mk.injEq] at hresult
      obtain ⟨rfl, -⟩ := hresult
      exact .quiet (shrinks_prune now) rfl rfl
    · simp [hclient] at hresult
  | visited hclock => exact .quiet (shrinks_enrollGet _ _) rfl rfl
  | @submitted i id secret code now now' expected client p result hclock hidle hfresh hresult =>
    unfold Provider.enrollPost at hresult
    rcases getTransaction_cases (p := s.provider) id now with ⟨t, h, ht, hnow⟩ | h
    · rw [h] at hresult
      cases expected with
      | none =>
        obtain ⟨rfl, rfl⟩ := Prod.mk.inj hresult
        exact .quiet (.refl _) rfl rfl
      | some expected =>
        simp only at hresult
        split_ifs at hresult with hwrong
        · obtain ⟨rfl, rfl⟩ := Prod.mk.inj hresult
          exact .refused now ht hwrong
        · obtain rfl := not_not.mp hwrong
          obtain ⟨rfl, rfl⟩ := Prod.mk.inj hresult
          exact .enrolled client ht hnow hfresh
    · rw [h] at hresult
      obtain ⟨rfl, rfl⟩ := Prod.mk.inj hresult
      exact .quiet (shrinks_popTransaction id) (by cases expected <;> rfl) rfl
  | answered hwaiting hobject => exact .quiet (.refl _) rfl rfl
  | loaded hclock => exact .quiet (shrinks_prune _) rfl rfl
  | exchanged client code scopes =>
    unfold Provider.exchangeAuthorizationCode
    by_cases hcode : s.provider.authCodes code = true
    · simp only [hcode, if_true]
      refine .exchanged hcode ?_
      unfold Provider.issueTokens
      split_ifs <;> simp
    · simp only [hcode, Bool.false_eq_true, if_false]
      exact .quiet (.refl _) rfl rfl
  | pruned hclock => exact .quiet (shrinks_prune _) rfl rfl

/-! ## The two desks -/

/-- The transactions referred to are in use at the desk with their failures, and every
transaction the desk issued is still an object. -/
structure EnrollMatches (p : Provider Time) (desk : Desk String) : Prop where
  pending : ∀ id t, p.transaction? id = some t → desk.pending id = some t.attempts
  issued : ∀ id, id ∈ desk.issued → p.transactions id ≠ none

/-- The codes referred to are in use at the desk, and every code the desk issued is still
an object. -/
structure CodeMatches (p : Provider Time) (desk : Desk String) : Prop where
  pending : ∀ code, p.authCodes code = true → desk.pending code = some 0
  issued : ∀ code, code ∈ desk.issued → p.codes code ≠ none

omit [LinearOrder Time] [Add Time] [NatCast Time] in
/-- Another transaction is referred to as before when only one changes. -/
theorem transaction?_congr {id' : String}
    (hdict : p'.enrollTransactions id' = p.enrollTransactions id')
    (hobject : p'.transactions id' = p.transactions id') :
    p'.transaction? id' = p.transaction? id' := by
  rw [Provider.transaction?, hdict, hobject, Provider.transaction?]

omit [LinearOrder Time] [Add Time] [NatCast Time] in
/-- What is referred to is an object. -/
theorem transactions_of_transaction? {id : String} {t : EnrollTransaction Time}
    (h : p.transaction? id = some t) :
    p.enrollTransactions id = true ∧ p.transactions id = some t := by
  unfold Provider.transaction? at h
  split_ifs at h with hid
  exact ⟨hid, h⟩

omit [LinearOrder Time] [Add Time] [NatCast Time] in
/-- After a wrong secret the transaction is referred to only below the limit, with one
more attempt, and the others as before. -/
theorem transaction?_refuse {id id' : String} {t t' : EnrollTransaction Time}
    (ht : p.transaction? id = some t) (h : (p.refuse id t).transaction? id' = some t') :
    (id' = id ∧ ¬ maxEnrollAttempts ≤ t.attempts + 1 ∧ t'.attempts = t.attempts + 1) ∨
      (id' ≠ id ∧ p.transaction? id' = some t') := by
  obtain ⟨hlive, -⟩ := transactions_of_transaction? ht
  unfold Provider.refuse at h
  by_cases hid : id' = id
  · subst hid
    split_ifs at h with hlimit
    · simp [Provider.transaction?, Provider.popTransaction] at h
    · simp only [Provider.transaction?, hlive, if_true, Function.update_self,
        Option.some.injEq] at h
      exact Or.inl ⟨rfl, hlimit, h ▸ rfl⟩
  · refine Or.inr ⟨hid, ?_⟩
    split_ifs at h with hlimit
    · simpa [Provider.transaction?, Provider.popTransaction, Function.update_of_ne hid] using h
    · simpa [Provider.transaction?, Function.update_of_ne hid] using h

omit [LinearOrder Time] [Add Time] [NatCast Time] in
/-- A wrong secret changes neither the codes nor which transactions are objects. -/
theorem refuse_objects (id : String) (t : EnrollTransaction Time) :
    (p.refuse id t).transactions =
        Function.update p.transactions id (some { t with attempts := t.attempts + 1 }) ∧
      (p.refuse id t).codes = p.codes ∧ (p.refuse id t).authCodes = p.authCodes := by
  unfold Provider.refuse
  split_ifs
  · exact ⟨rfl, rfl, rfl⟩
  · exact ⟨rfl, rfl, rfl⟩

omit [DecidableEq ι] in
/-- The desk answers every effect. -/
theorem Effect.enroll {e : Event ι Time} {desk : Desk String} (heffect : Effect p e p')
    (h : EnrollMatches p desk) :
    (Desk.machine maxEnrollAttempts).Answers EnrollMatches desk p' (enrollTicket e) := by
  cases heffect with
  | quiet hshrinks henroll hcode =>
    rw [henroll]
    refine ⟨fun id t ht => h.pending id t (hshrinks.transaction? ht), fun id hid => ?_⟩
    rw [hshrinks.transactions]
    exact h.issued id hid
  | @authorized id t q hshrinks hfresh hattempts =>
    refine ⟨_, .issued (fun hid => h.issued id hid hfresh), ?_, ?_⟩
    · intro id' t' ht'
      by_cases hid : id' = id
      · subst hid
        obtain rfl : t = t' := by simpa [Provider.transaction?] using ht'
        simp [hattempts]
      · simp only [Function.update_of_ne hid]
        refine h.pending id' t' (hshrinks.transaction? ?_)
        rw [← ht']
        exact (transaction?_congr (Function.update_of_ne hid ..)
          (Function.update_of_ne hid ..)).symm
    · intro id' hid'
      by_cases hid : id' = id
      · simp [hid]
      · simp only [Function.update_of_ne hid, hshrinks.transactions]
        exact h.issued id' (Set.mem_of_mem_insert_of_ne hid' hid)
  | @refused id secret expected t now ht hwrong =>
    have hlabel : enrollTicket (.submitted id secret (some expected) now .waiting : Event ι Time) =
        some (.failed id) := by simp [enrollTicket, Submission.compared, hwrong]
    rw [hlabel]
    refine ⟨_, .failed (h.pending id t ht), ?_, ?_⟩
    · intro id' t' ht'
      rcases transaction?_refuse ht ht' with ⟨rfl, hlimit, hattempts⟩ | ⟨hid, ht'⟩
      · simp [Desk.afterFailure, hlimit, hattempts]
      · simp only [Function.update_of_ne hid]
        exact h.pending id' t' ht'
    · intro id' hid'
      rw [(refuse_objects id t).1]
      by_cases hid : id' = id
      · simp [hid]
      · rw [Function.update_of_ne hid]
        exact h.issued id' hid'
  | @enrolled id secret code t now now' client ht hnow hfresh =>
    have hlabel : enrollTicket (.submitted id secret (some secret) now
        (.answered (.redirect t.params.redirectUri code t.params.state)) : Event ι Time) =
        some (.spent id) := by simp [enrollTicket, Submission.compared]
    rw [hlabel]
    refine ⟨_, .spent (h.pending id t ht), ?_, h.issued⟩
    intro id' t' ht'
    by_cases hid : id' = id
    · subst hid
      simp [Provider.transaction?, Provider.enroll, Provider.popTransaction] at ht'
    · simp only [Function.update_of_ne hid]
      exact h.pending id' t' ((shrinks_popTransaction id).transaction? ht')
  | @exchanged code result hcode hresult => exact ⟨h.pending, h.issued⟩

/-- The provider's transactions follow a desk that allows five failures. -/
theorem follows_enroll (issuer : String) : (@machine Time _ _ _ ι _ issuer).Follows
    (Desk.machine maxEnrollAttempts) (fun s => EnrollMatches s.provider) enrollTicket := by
  refine ⟨?_, ?_⟩
  · rintro s ⟨hprovider, -⟩
    refine ⟨⟨fun _ => none, ∅⟩, ⟨rfl, rfl⟩, ?_, ?_⟩
    · simp [hprovider, Provider.transaction?]
    · simp
  · intro s e s' desk hstep h
    exact (Step.effect hstep).enroll h

omit [DecidableEq ι] in
/-- The desk answers every effect. -/
theorem Effect.code {e : Event ι Time} {desk : Desk String} (heffect : Effect p e p')
    (h : CodeMatches p desk) :
    (Desk.machine 1).Answers CodeMatches desk p' (codeTicket e) := by
  cases heffect with
  | quiet hshrinks henroll hcode =>
    rw [hcode]
    refine ⟨fun code hlive => h.pending code (hshrinks.authCodes code hlive), fun code hmem => ?_⟩
    rw [hshrinks.codes]
    exact h.issued code hmem
  | @authorized id t q hshrinks hfresh hattempts =>
    refine ⟨fun code hlive => h.pending code (hshrinks.authCodes code hlive), fun code hmem => ?_⟩
    rw [hshrinks.codes]
    exact h.issued code hmem
  | @refused id secret expected t now ht hwrong =>
    obtain ⟨-, hcodes, hauthCodes⟩ := refuse_objects (p := p) id t
    refine ⟨?_, ?_⟩
    · rw [hauthCodes]
      exact h.pending
    · rw [hcodes]
      exact h.issued
  | @enrolled id secret code t now now' client ht hnow hfresh =>
    refine ⟨_, .issued (fun hmem => h.issued code hmem hfresh), ?_, ?_⟩
    · intro code' hlive
      by_cases hcode : code' = code
      · simp [hcode]
      · simp only [Provider.enroll, Provider.popTransaction,
          Function.update_of_ne hcode] at hlive ⊢
        exact h.pending code' hlive
    · intro code' hmem
      by_cases hcode : code' = code
      · simp [hcode, Provider.enroll]
      · simp only [Provider.enroll, Provider.popTransaction, Function.update_of_ne hcode]
        exact h.issued code' (Set.mem_of_mem_insert_of_ne hmem hcode)
  | @exchanged code result hcode hresult =>
    have hlabel : codeTicket (.exchanged code result : Event ι Time) = some (.spent code) := by
      simp [codeTicket, hresult]
    rw [hlabel]
    refine ⟨_, .spent (h.pending code hcode), ?_, h.issued⟩
    intro code' hlive
    by_cases hcode' : code' = code
    · simp [hcode'] at hlive
    · simp only [Function.update_of_ne hcode'] at hlive ⊢
      exact h.pending code' hlive

/-- The provider's codes follow a desk. -/
theorem follows_code (issuer : String) : (@machine Time _ _ _ ι _ issuer).Follows
    (Desk.machine 1) (fun s => CodeMatches s.provider) codeTicket := by
  refine ⟨?_, ?_⟩
  · rintro s ⟨hprovider, -⟩
    refine ⟨⟨fun _ => none, ∅⟩, ⟨rfl, rfl⟩, ?_, ?_⟩
    · simp [hprovider]
    · simp
  · intro s e s' desk hstep h
    exact (Step.effect hstep).code h

/-! ## Where the codes come from -/

/-- The comparison of a wrong secret for a transaction. -/
def wrongSecret (id : String) : Event ι Time → Bool
  | .submitted id' secret (some expected) _ result =>
      id' = id && result.compared && secret ≠ expected
  | _ => false

/-- The comparison of the right secret. -/
def correctSecret : Event ι Time → Bool
  | .submitted _ secret (some expected) _ result => result.compared && secret = expected
  | _ => false

/-- A code for a transaction. -/
def yieldsCode (id : String) : Event ι Time → Bool
  | .submitted id' _ _ _ (.answered (.redirect _ _ _)) => id' = id
  | _ => false

/-- A successful exchange. -/
def issuesTokens : Event ι Time → Bool
  | .exchanged _ (.tokens _) => true
  | _ => false

/-- A successful exchange of a code. -/
def issuesTokensFor (code : String) : Event ι Time → Bool
  | .exchanged code' (.tokens _) => code' = code
  | _ => false

/-- The code was created for the client by a submission of the right secret for one of its
transactions, which had not expired and had seen fewer than five wrong secrets. -/
def EnrolledFor (history : List (Event ι Time)) (code clientId : String) : Prop :=
  ∃ pre id secret now uri state post expiresAt,
    history = pre ++ .submitted id secret (some secret) now
      (.answered (.redirect uri code state)) :: post ∧
    .authorized id clientId expiresAt ∈ pre ∧ now ≤ expiresAt ∧
    pre.countP (wrongSecret id) < maxEnrollAttempts

variable {issuer : String} {history : List (Event ι Time)} {s : State ι Time}

omit [LinearOrder Time] [Add Time] [NatCast Time] [DecidableEq ι] in
/-- The wrong secrets for a transaction are its failures at the desk. -/
theorem count_failed (history : List (Event ι Time)) (id : String) :
    (history.filterMap enrollTicket).count (.failed id) = history.countP (wrongSecret id) := by
  rw [List.count_filterMap]
  refine List.countP_congr fun e _ => ?_
  cases e with
  | submitted id' secret expected now result =>
    cases expected with
    | none => simp [enrollTicket, wrongSecret]
    | some expected =>
      by_cases hcompared : result.compared = true
      · by_cases hsecret : secret = expected
        · simp [enrollTicket, wrongSecret, hcompared, hsecret]
        · simp [enrollTicket, wrongSecret, hcompared, hsecret]
      · simp [enrollTicket, wrongSecret, hcompared]
  | _ => simp [enrollTicket, wrongSecret]

/-- Only the right secret yields a code. -/
theorem secret_of_redirect (hrun : (machine issuer).Run history s) {id secret uri code : String}
    {expected state : Option String} {now : Time}
    (hmem : .submitted id secret expected now (.answered (.redirect uri code state)) ∈ history) :
    expected = some secret := by
  obtain ⟨pre, post, rfl⟩ := List.append_of_mem hmem
  obtain ⟨s₁, s₂, -, hstep⟩ := hrun.step_of_mem
  have heffect := Step.effect hstep
  generalize s₂.provider = p₂ at heffect
  generalize he : Event.submitted id secret expected now
    (.answered (.redirect uri code state)) = e at heffect
  cases heffect with
  | quiet hshrinks henroll hcode => simp [← he, codeTicket] at hcode
  | authorized => cases he
  | refused => cases he
  | enrolled =>
    cases he
    rfl
  | exchanged => cases he

/-- The attempts of a transaction that is referred to are its wrong secrets so far, fewer
than the limit. -/
theorem attempts_of_run (hrun : (machine issuer).Run history s) {id : String}
    {t : EnrollTransaction Time} (ht : s.provider.transaction? id = some t) :
    history.countP (wrongSecret id) = t.attempts ∧ t.attempts < maxEnrollAttempts := by
  obtain ⟨desk, hdesk, hmatches⟩ := (follows_enroll issuer).run hrun
  have haccount := Desk.accounts (by decide) hdesk id
  obtain ⟨hcount, hbelow, -⟩ := haccount.pending _ (hmatches.pending id t ht)
  rw [count_failed] at hcount
  exact ⟨hcount.symm, hbelow⟩

omit [Add Time] [NatCast Time] [DecidableEq ι] in
/-- A longer history tells as much. -/
theorem EnrolledFor.mono {code clientId : String} (e : Event ι Time)
    (h : EnrolledFor history code clientId) : EnrolledFor (history ++ [e]) code clientId := by
  obtain ⟨pre, id, secret, now, uri, state, post, expiresAt, rfl, hauthorized, hnow, hcount⟩ := h
  exact ⟨pre, id, secret, now, uri, state, post ++ [e], expiresAt, by simp, hauthorized, hnow,
    hcount⟩

/-- The objects tell the history: every transaction was authorized, and every code was
created for its client. -/
theorem objects_told (hrun : (machine issuer).Run history s) :
    (∀ id t, s.provider.transactions id = some t →
      .authorized id t.clientId t.expiresAt ∈ history) ∧
    ∀ code c, s.provider.codes code = some c → EnrolledFor history code c.clientId := by
  refine hrun.invariant (P := fun history s =>
    (∀ id t, s.provider.transactions id = some t →
      .authorized id t.clientId t.expiresAt ∈ history) ∧
    ∀ code c, s.provider.codes code = some c → EnrolledFor history code c.clientId) ?_ ?_
  · rintro s ⟨hprovider, -⟩
    simp [hprovider]
  · rintro history s e s' hrun ⟨htransactions, hcodes⟩ hstep
    have hold (id : String) (t : EnrollTransaction Time)
        (ht : s.provider.transactions id = some t) :
        .authorized id t.clientId t.expiresAt ∈ history ++ [e] :=
      List.mem_append_left _ (htransactions id t ht)
    have hkept (code : String) (c : AuthorizationCode Time)
        (hc : s.provider.codes code = some c) : EnrolledFor (history ++ [e]) code c.clientId :=
      (hcodes code c hc).mono e
    have heffect := Step.effect hstep
    generalize s'.provider = p' at heffect
    cases heffect with
    | quiet hshrinks henroll hcode =>
      rw [hshrinks.transactions, hshrinks.codes]
      exact ⟨hold, hkept⟩
    | @authorized id t q hshrinks hfresh hattempts =>
      refine ⟨?_, ?_⟩
      · intro id' t' ht'
        rw [hshrinks.transactions] at ht'
        rcases eq_some_of_update ht' with ⟨rfl, rfl⟩ | ⟨-, ht'⟩
        · simp
        · exact hold id' t' ht'
      · rw [hshrinks.codes]
        exact hkept
    | @refused id secret expected t now ht hwrong =>
      obtain ⟨hobjects, hsame, -⟩ := refuse_objects (p := s.provider) id t
      refine ⟨?_, ?_⟩
      · intro id' t' ht'
        rw [hobjects] at ht'
        rcases eq_some_of_update ht' with ⟨rfl, rfl⟩ | ⟨-, ht'⟩
        · exact hold id' t (transactions_of_transaction? ht).2
        · exact hold id' t' ht'
      · rw [hsame]
        exact hkept
    | @enrolled id secret code t now now' client ht hnow hfresh =>
      refine ⟨hold, ?_⟩
      intro code' c hc
      rcases eq_some_of_update hc with ⟨rfl, rfl⟩ | ⟨-, hc⟩
      · obtain ⟨hcount, hbelow⟩ := attempts_of_run hrun ht
        exact ⟨history, id, secret, now, _, _, [], t.expiresAt, rfl,
          htransactions id t (transactions_of_transaction? ht).2, hnow, by omega⟩
      · exact hkept code' c hc
    | exchanged hcode hresult => exact ⟨hold, hkept⟩

/-- A code spends its transaction. -/
theorem enrollTicket_of_yieldsCode (hrun : (machine issuer).Run history s) {e : Event ι Time}
    {id : String} (he : e ∈ history) (hyields : yieldsCode id e = true) :
    enrollTicket e = some (.spent id) := by
  unfold yieldsCode at hyields
  split at hyields
  · obtain rfl := secret_of_redirect hrun he
    obtain rfl := of_decide_eq_true hyields
    simp [enrollTicket, Submission.compared]
  · simp at hyields

omit [LinearOrder Time] [Add Time] [NatCast Time] [DecidableEq ι] in
/-- A pair of tokens spends its code. -/
theorem codeTicket_of_issuesTokensFor {e : Event ι Time} {code : String}
    (hissues : issuesTokensFor code e = true) : codeTicket e = some (.spent code) := by
  unfold issuesTokensFor at hissues
  split at hissues
  · obtain rfl := of_decide_eq_true hissues
    simp [codeTicket]
  · simp at hissues

omit [LinearOrder Time] [Add Time] [NatCast Time] [DecidableEq ι] in
/-- Every pair of tokens spends a code. -/
theorem countP_issuesTokens_le (history : List (Event ι Time)) :
    history.countP issuesTokens ≤
      ((history.filterMap codeTicket).filterMap Desk.spentTicket).length := by
  rw [List.filterMap_filterMap, List.length_filterMap_eq_countP]
  refine List.countP_mono_left fun e _ hissues => ?_
  unfold issuesTokens at hissues
  split at hissues
  · simp [codeTicket, Desk.spentTicket]
  · simp at hissues

/-- Every code was issued for a right secret. -/
theorem length_issued_le (hrun : (machine issuer).Run history s) :
    ((history.filterMap codeTicket).filterMap Desk.issuedTicket).length ≤
      history.countP correctSecret := by
  rw [List.filterMap_filterMap, List.length_filterMap_eq_countP]
  refine List.countP_mono_left fun e he hissued => ?_
  obtain ⟨code, hcode⟩ := Option.isSome_iff_exists.mp hissued
  obtain ⟨ticket, hticket, hticket'⟩ := Option.bind_eq_some_iff.mp hcode
  obtain rfl := Desk.issuedTicket_eq_some_iff.mp hticket'
  unfold codeTicket at hticket
  split at hticket
  · obtain rfl := secret_of_redirect hrun he
    simp [correctSecret, Submission.compared]
  · split_ifs at hticket
    simp at hticket
  · simp at hticket

/-- For every interleaving: a transaction sees at most five wrong secrets and yields at
most one code; every code was created by the right secret for a transaction in time and
below the limit, and for its client; a code is exchanged for tokens at most once; and
there are at most as many pairs of tokens as submissions of the right secret. -/
theorem enrollment_single_use (hrun : (machine issuer).Run history s) :
    (∀ id, history.countP (wrongSecret id) ≤ 5) ∧
    (∀ id, history.countP (yieldsCode id) ≤ 1) ∧
    (∀ code c, s.provider.codes code = some c → EnrolledFor history code c.clientId) ∧
    (∀ code, history.countP (issuesTokensFor code) ≤ 1) ∧
    history.countP issuesTokens ≤ history.countP correctSecret := by
  obtain ⟨desk, hdesk, -⟩ := (follows_enroll issuer).run hrun
  obtain ⟨codeDesk, hcodeDesk, -⟩ := (follows_code issuer).run hrun
  refine ⟨?_, ?_, (objects_told hrun).2, ?_, ?_⟩
  · intro id
    rw [← count_failed]
    exact Desk.failures_le (by decide) hdesk id
  · intro id
    refine le_trans ?_ (Desk.spent_le_one (by decide) hdesk id)
    rw [List.count_filterMap]
    refine List.countP_mono_left fun e he hyields => ?_
    simp [enrollTicket_of_yieldsCode hrun he hyields]
  · intro code
    refine le_trans ?_ (Desk.spent_le_one (by decide) hcodeDesk code)
    rw [List.count_filterMap]
    refine List.countP_mono_left fun e he hissues => ?_
    simp [codeTicket_of_issuesTokensFor hissues]
  · calc history.countP issuesTokens
        ≤ ((history.filterMap codeTicket).filterMap Desk.spentTicket).length :=
          countP_issuesTokens_le history
      _ ≤ ((history.filterMap codeTicket).filterMap Desk.issuedTicket).length :=
          Desk.spent_le_issued (by decide) hcodeDesk
      _ ≤ history.countP correctSecret := length_issued_le hrun

/-- A device that submits a wrong secret and then the right one gets a pair of tokens. -/
theorem enrollment_single_use_once :
    ∃ (history : List (Event ℕ ℤ)) (s : State ℕ ℤ), (machine "issuer").Run history s ∧
      history.countP issuesTokens = 1 ∧ (∀ id, history.countP (wrongSecret id) ≤ 5) ∧
      (∀ code c, s.provider.codes code = some c → EnrolledFor history code c.clientId) ∧
      history.countP issuesTokens ≤ history.countP correctSecret := by
  have h₀ : (machine "issuer").Run []
      (⟨⟨fun _ => none, fun _ => none, fun _ => false, fun _ => false⟩, 0, fun _ => none⟩ :
        State ℕ ℤ) := .start ⟨rfl, rfl⟩
  have h₁ := h₀.step (@Step.authorized ℤ _ _ _ ℕ _ "issuer" _ ⟨some "phone", none⟩
    ⟨none, none, "challenge", "redirect", true⟩ 1 1 "txn" _ _ ⟨by decide, by decide⟩ rfl rfl)
  have h₂ := h₁.step (@Step.submitted ℤ _ _ _ ℕ _ "issuer" _ 0 "txn" "guess" "code" 2 2
    (some "secret") none _ _ ⟨by decide, by decide⟩ rfl rfl rfl)
  have h₃ := h₂.step (@Step.submitted ℤ _ _ _ ℕ _ "issuer" _ 1 "txn" "secret" "code" 3 3
    (some "secret") none _ _ ⟨by decide, by decide⟩ rfl rfl rfl)
  have h₄ := h₃.step (.exchanged ⟨some "phone", none⟩ "code" [jnReadScope])
  obtain ⟨hwrong, -, hcodes, -, hissued⟩ := enrollment_single_use h₄
  exact ⟨_, _, h₄, by decide +kernel, hwrong, hcodes, hissued⟩

end ContributorGateway.DeviceEnrollment
