import ContributorGateway.Mcp.DeviceTokens
import ContributorGateway.Mcp.EnrollmentRuns

/-!
# The device gateway

Enrollment, the token endpoint and the check of access tokens run in one process. What a request
presents as a token is read as the claims that the provider has signed so far; the token
endpoint exchanges only codes and refresh tokens that the provider has loaded for the client.
-/

namespace ContributorGateway.DeviceGateway

open DeviceEnrollment DeviceTokens

/-! ## The gateway -/

/-- The state of enrollment, what the token endpoint was handed for the clients that asked for
it, and the calls of `_issue_tokens` so far. -/
structure State (ι Token Time : Type) where
  enrollment : DeviceEnrollment.State ι Time
  codes : List (Client × AuthorizationCode Time)
  refreshes : List (Client × RefreshToken Token × Time)
  calls : List IssueCall

/-- What happens at the gateway. -/
inductive Event (ι Token Time : Type) where
  | enrollment (e : DeviceEnrollment.Event ι Time)
  | codeLoaded (code : String) (result : Option (AuthorizationCode Time))
  | codeExchanged (code : String) (call : Option IssueCall)
  | refreshLoaded (client : Client) (now : Time) (result : Option (RefreshToken Token))
  | refreshExchanged (client : Client) (call : IssueCall)
  | accessed (token : Token) (now : Time) (result : Option (Principal × Json))

/-- The endpoints of enrollment, which are not the token endpoint. -/
def isEnrollment {ι Time : Type} : DeviceEnrollment.Event ι Time → Bool
  | .loaded _ _ => false
  | .exchanged _ _ => false
  | _ => true

/-- What enrollment notices of an event. -/
def enrollmentEvent {ι Token Time : Type} :
    Event ι Token Time → Option (DeviceEnrollment.Event ι Time)
  | .enrollment e => some e
  | .codeLoaded code result => some (.loaded code result)
  | .codeExchanged code none => some (.exchanged code .invalidGrant)
  | .codeExchanged code (some call) =>
      some (.exchanged code (Provider.issueTokens call.clientId call.scopes))
  | _ => none

/-- `exchange_authorization_code`: the provider afterwards and the call of `_issue_tokens`,
unless the code is gone. -/
def exchangeCode {Time : Type} (p : Provider Time) (client : Client)
    (code : AuthorizationCode Time) (now : ℤ) (accessJti refreshJti : String) :
    Provider Time × Option IssueCall :=
  if p.authCodes code.code then
    ({ p with authCodes := Function.update p.authCodes code.code false },
      some ⟨client.clientId.getD "", code.scopes, now, accessJti, refreshJti⟩)
  else (p, none)

/-- `exchange_refresh_token`: the call of `_issue_tokens`. -/
def exchangeRefresh {Token : Type} (client : Client) (loaded : RefreshToken Token)
    (scopes : List String) (now : ℤ) (accessJti refreshJti : String) : IssueCall where
  clientId := client.clientId.getD ""
  scopes := if scopes = [] then loaded.scopes else scopes
  now := now
  accessJti := accessJti
  refreshJti := refreshJti

section Machine

variable {ι Token Time : Type} [DecidableEq ι] [LinearOrder Time] [Add Time] [NatCast Time]
  [IntCast Time] (E : Endpoints) (J : List IssueCall → Jwt Token Time) (str : Json → String)

/-- The steps of the gateway. The libraries read tokens in the light of the calls so far. -/
inductive Step : State ι Token Time → Event ι Token Time → State ι Token Time → Prop
  | enrollment {s : State ι Token Time} {e : DeviceEnrollment.Event ι Time}
      {enrollment' : DeviceEnrollment.State ι Time} (hother : isEnrollment e = true)
      (hstep : DeviceEnrollment.Step E.issuer s.enrollment e enrollment') :
      Step s (.enrollment e) { s with enrollment := enrollment' }
  | codeLoaded {s : State ι Token Time} {client : Client} {code : String} {now : Time}
      {p : Provider Time} {result : Option (AuthorizationCode Time)}
      (hclock : s.enrollment.clock ≤ now)
      (hresult : s.enrollment.provider.loadAuthorizationCode client code now = (p, result)) :
      Step s (.codeLoaded code result)
        { s with
          enrollment := { s.enrollment with provider := p, clock := now }
          codes := s.codes ++ (result.map fun c => (client, c)).toList }
  | codeExchanged {s : State ι Token Time} {client : Client} {code : AuthorizationCode Time}
      (hloaded : (client, code) ∈ s.codes) (now : ℤ) (accessJti refreshJti : String)
      {p : Provider Time} {call : Option IssueCall}
      (hresult : exchangeCode s.enrollment.provider client code now accessJti refreshJti =
        (p, call)) :
      Step s (.codeExchanged code.code call)
        { s with
          enrollment := { s.enrollment with provider := p }
          calls := s.calls ++ call.toList }
  | refreshLoaded {s : State ι Token Time} (client : Client) (token : Token) (now : Time)
      {result : Option (RefreshToken Token)}
      (hresult : loadRefreshToken E (J s.calls) str client token now = result) :
      Step s (.refreshLoaded client now result)
        { s with refreshes := s.refreshes ++ (result.map fun r => (client, r, now)).toList }
  | refreshExchanged {s : State ι Token Time} {client : Client} {loaded : RefreshToken Token}
      {loadedAt : Time} (hloaded : (client, loaded, loadedAt) ∈ s.refreshes)
      (scopes : List String) (now : ℤ) (accessJti refreshJti : String) :
      Step s (.refreshExchanged client
          (exchangeRefresh client loaded scopes now accessJti refreshJti))
        { s with
          calls := s.calls ++ [exchangeRefresh client loaded scopes now accessJti refreshJti] }
  | accessed {s : State ι Token Time} (token : Token) (now : Time)
      {result : Option (Principal × Json)}
      (hresult : authenticateAndAuthorize (J s.calls) token now = result) :
      Step s (.accessed token now result) s

/-- A gateway from its construction on. -/
def machine : Machine (State ι Token Time) (Event ι Token Time) where
  start s := (DeviceEnrollment.machine E.issuer).start s.enrollment ∧ s.codes = [] ∧
    s.refreshes = [] ∧ s.calls = []
  step := Step E J str

end Machine

/-! ## Enrollment inside the gateway -/

section Enrollment

variable {ι Token Time : Type} [DecidableEq ι] [LinearOrder Time] [Add Time] [NatCast Time]
  [IntCast Time] {E : Endpoints} {J : List IssueCall → Jwt Token Time} {str : Json → String}
  {history : List (Event ι Token Time)} {s s' : State ι Token Time} {e : Event ι Token Time}

omit [LinearOrder Time] [Add Time] [NatCast Time] [IntCast Time] in
/-- The two models of `exchange_authorization_code` agree. -/
theorem exchangeCode_eq {p p' : Provider Time} {client : Client} {code : AuthorizationCode Time}
    {now : ℤ} {accessJti refreshJti : String} {call : Option IssueCall}
    (h : exchangeCode p client code now accessJti refreshJti = (p', call)) :
    p.exchangeAuthorizationCode client code.code code.scopes =
      (p', call.elim .invalidGrant fun c => Provider.issueTokens c.clientId c.scopes) := by
  unfold exchangeCode at h
  unfold Provider.exchangeAuthorizationCode
  split_ifs at h ⊢
  · obtain ⟨rfl, rfl⟩ := Prod.mk.inj h
    rfl
  · obtain ⟨rfl, rfl⟩ := Prod.mk.inj h
    rfl

/-- The gateway follows enrollment. -/
theorem follows_enrollment : (machine E J str).Follows
    (@DeviceEnrollment.machine Time _ _ _ ι _ E.issuer)
    (fun s enrollment => s.enrollment = enrollment) enrollmentEvent := by
  refine ⟨fun s hstart => ⟨_, hstart.1, rfl⟩, ?_⟩
  rintro s e s' t hstep rfl
  cases hstep with
  | enrollment hother hstep => exact ⟨_, hstep, rfl⟩
  | @codeLoaded client code now p result hclock hresult =>
    have hstep : DeviceEnrollment.Step E.issuer s.enrollment
        (.loaded code (s.enrollment.provider.loadAuthorizationCode client code now).2) _ :=
      .loaded hclock
    rw [hresult] at hstep
    exact ⟨_, hstep, rfl⟩
  | @codeExchanged client code hloaded now accessJti refreshJti p call hresult =>
    have hstep : DeviceEnrollment.Step E.issuer s.enrollment _ _ :=
      .exchanged client code.code code.scopes
    rw [exchangeCode_eq hresult] at hstep
    cases call with
    | none => exact ⟨_, hstep, rfl⟩
    | some call => exact ⟨_, hstep, rfl⟩
  | refreshLoaded client token now hresult => rfl
  | refreshExchanged hloaded scopes now accessJti refreshJti => rfl
  | accessed token now hresult => rfl

omit [IntCast Time] in
/-- A code object knows its name. -/
theorem code_eq_name {issuer : String} {events : List (DeviceEnrollment.Event ι Time)}
    {enrollment : DeviceEnrollment.State ι Time}
    (hrun : (DeviceEnrollment.machine issuer).Run events enrollment) {name : String}
    {code : AuthorizationCode Time} (hobject : enrollment.provider.codes name = some code) :
    code.code = name := by
  refine hrun.invariant (P := fun _ enrollment => ∀ name code,
    enrollment.provider.codes name = some code → code.code = name) ?_ ?_ name code hobject
  · rintro s ⟨hprovider, -⟩ name code hcode
    rw [hprovider] at hcode
    cases hcode
  · intro events s e s' _ ih hstep name code hcode
    have heffect := DeviceEnrollment.Step.effect hstep
    generalize s'.provider = p' at heffect hcode
    cases heffect with
    | quiet hshrinks henroll hticket =>
      rw [hshrinks.codes] at hcode
      exact ih name code hcode
    | authorized hshrinks hfresh hattempts =>
      rw [hshrinks.codes] at hcode
      exact ih name code hcode
    | refused now ht hwrong =>
      rw [(refuse_objects _ _).2.1] at hcode
      exact ih name code hcode
    | enrolled client ht hnow hfresh =>
      rcases eq_some_of_update hcode with ⟨rfl, rfl⟩ | ⟨-, hcode⟩
      · rfl
      · exact ih name code hcode
    | exchanged hlive hresult => exact ih name code hcode

end Enrollment

/-! ## Lineage -/

section Lineage

variable {ι Token Time : Type} [LinearOrder Time] [IntCast Time]

/-- A refresh token that was loaded for a client is that of a call of this client, and had not
expired. -/
structure Renews (E : Endpoints) (J : List IssueCall → Jwt Token Time) (parent : IssueCall)
    (client : Client) (loaded : RefreshToken Token) (loadedAt : Time) : Prop where
  client : client.clientId = some parent.clientId
  token : ∃ calls, (J calls).decode loaded.token = some (refreshClaims E parent)
  expires : loaded.expiresAt = parent.now + refreshTokenTtlSeconds
  fresh : ¬ (loaded.expiresAt : Time) < loadedAt

/-- A call of `_issue_tokens` descends from an enrollment: its client was enrolled and exchanged
a code, or renewed a call that descends from an enrollment, by a refresh token of that call that
was loaded before it expired. -/
inductive Descends (E : Endpoints) (J : List IssueCall → Jwt Token Time) :
    List (Event ι Token Time) → IssueCall → Prop
  | exchanged {pre : List (Event ι Token Time)} (post : List (Event ι Token Time)) {code : String}
      {call : IssueCall} (henrolled : EnrolledFor (pre.filterMap enrollmentEvent) code
        call.clientId) :
      Descends E J (pre ++ .codeExchanged code (some call) :: post) call
  | renewed {pre : List (Event ι Token Time)} (post : List (Event ι Token Time)) {client : Client}
      {parent : IssueCall} {loadedAt : Time} {loaded : RefreshToken Token}
      (hparent : Descends E J pre parent)
      (hloaded : .refreshLoaded client loadedAt (some loaded) ∈ pre)
      (hrenews : Renews E J parent client loaded loadedAt)
      (scopes : List String) (now : ℤ) (accessJti refreshJti : String) :
      Descends E J (pre ++ .refreshExchanged client
          (exchangeRefresh client loaded scopes now accessJti refreshJti) :: post)
        (exchangeRefresh client loaded scopes now accessJti refreshJti)

variable {E : Endpoints} {J : List IssueCall → Jwt Token Time}
  {history : List (Event ι Token Time)} {call : IssueCall}

/-- A longer history tells as much. -/
theorem Descends.mono (h : Descends E J history call) (e : Event ι Token Time) :
    Descends E J (history ++ [e]) call := by
  cases h with
  | exchanged post henrolled =>
    rw [List.append_assoc, List.cons_append]
    exact .exchanged _ henrolled
  | renewed post hparent hloaded hrenews scopes now accessJti refreshJti =>
    rw [List.append_assoc, List.cons_append]
    exact .renewed _ hparent hloaded hrenews scopes now accessJti refreshJti

omit [IntCast Time] in
/-- A longer history of enrollment tells as much. -/
theorem enrolledFor_append {events more : List (DeviceEnrollment.Event ι Time)}
    {code clientId : String} (h : EnrolledFor events code clientId) :
    EnrolledFor (events ++ more) code clientId := by
  obtain ⟨pre, id, secret, now, uri, state, post, expiresAt, rfl, hrest⟩ := h
  refine ⟨pre, id, secret, now, uri, state, post ++ more, expiresAt, ?_, hrest⟩
  rw [List.append_assoc, List.cons_append]

/-- The client of a call that descends from an enrollment was enrolled. -/
theorem Descends.enrolled (h : Descends E J history call) :
    ∃ code, EnrolledFor (history.filterMap enrollmentEvent) code call.clientId := by
  induction h with
  | @exchanged pre post code call henrolled =>
    rw [List.filterMap_append]
    exact ⟨code, enrolledFor_append henrolled⟩
  | @renewed pre post client parent loadedAt loaded hparent hloaded hrenews scopes now accessJti
      refreshJti ih =>
    obtain ⟨code, henrolled⟩ := ih
    rw [List.filterMap_append, exchangeRefresh, hrenews.client, Option.getD_some]
    exact ⟨code, enrolledFor_append henrolled⟩

end Lineage

section Runs

variable {ι Token Time : Type} [DecidableEq ι] [LinearOrder Time] [Add Time] [NatCast Time]
  [IntCast Time] {E : Endpoints} {J : List IssueCall → Jwt Token Time} {str : Json → String}
  {history : List (Event ι Token Time)} {s s' : State ι Token Time} {e : Event ι Token Time}

/-- What the state tells of the history: the token endpoint was handed codes of enrolled clients
and refresh tokens of earlier calls, each by its client, and every call descends from an
enrollment. -/
structure Told (E : Endpoints) (J : List IssueCall → Jwt Token Time)
    (history : List (Event ι Token Time)) (s : State ι Token Time) : Prop where
  codes : ∀ client code, (client, code) ∈ s.codes → client.clientId = some code.clientId ∧
    EnrolledFor (history.filterMap enrollmentEvent) code.code code.clientId
  refreshes : ∀ client loaded loadedAt, (client, loaded, loadedAt) ∈ s.refreshes →
    .refreshLoaded client loadedAt (some loaded) ∈ history ∧
    ∃ parent ∈ s.calls, Renews E J parent client loaded loadedAt
  calls : ∀ call ∈ s.calls, Descends E J history call

omit [DecidableEq ι] [Add Time] [NatCast Time] in
/-- A step that hands nothing to the token endpoint and issues nothing keeps what is told. -/
theorem Told.of_same (h : Told E J history s) (e : Event ι Token Time) (hcodes : s'.codes = s.codes)
    (hrefreshes : s'.refreshes = s.refreshes) (hcalls : s'.calls = s.calls) :
    Told E J (history ++ [e]) s' := by
  refine ⟨fun client code hmem => ?_, fun client loaded loadedAt hmem => ?_, fun call hmem => ?_⟩
  · rw [hcodes] at hmem
    obtain ⟨hclient, henrolled⟩ := h.codes client code hmem
    rw [List.filterMap_append]
    exact ⟨hclient, enrolledFor_append henrolled⟩
  · rw [hrefreshes] at hmem
    rw [hcalls]
    obtain ⟨htold, hparent⟩ := h.refreshes client loaded loadedAt hmem
    exact ⟨List.mem_append_left _ htold, hparent⟩
  · rw [hcalls] at hmem
    exact (h.calls call hmem).mono e

omit [Add Time] [NatCast Time] [IntCast Time] in
/-- A loaded code is an object, and belongs to the client. -/
theorem loadAuthorizationCode_eq_some {p p' : Provider Time} {client : Client} {name : String}
    {now : Time} {code : AuthorizationCode Time}
    (h : p.loadAuthorizationCode client name now = (p', some code)) :
    p.codes name = some code ∧ client.clientId = some code.clientId := by
  unfold Provider.loadAuthorizationCode at h
  obtain ⟨-, hcode⟩ := Prod.mk.inj h
  obtain ⟨hfound, hclient⟩ := Option.filter_eq_some_iff.mp hcode
  unfold Provider.authCode? at hfound
  split_ifs at hfound
  exact ⟨hfound, (of_decide_eq_true hclient).symm⟩

/-- Enrollment runs inside the gateway. -/
theorem enrollment_run (hrun : (machine E J str).Run history s) :
    (DeviceEnrollment.machine E.issuer).Run (history.filterMap enrollmentEvent) s.enrollment := by
  obtain ⟨enrollment, hinner, rfl⟩ := follows_enrollment.run hrun
  exact hinner

omit [DecidableEq ι] [Add Time] [NatCast Time] in
/-- A loaded refresh token is that of an earlier call. -/
theorem renews_of_load {calls : List IssueCall} (hJ : (J calls).Genuine E calls) {client : Client}
    {token : Token} {now : Time} {loaded : RefreshToken Token}
    (h : loadRefreshToken E (J calls) str client token now = some loaded) :
    ∃ parent ∈ calls, Renews E J parent client loaded now := by
  obtain ⟨parent, pair, hissued, hclient, hsame, hexpires, hfresh⟩ := refresh_of_load hJ h
  obtain ⟨-, -, -, -, -, -, htoken⟩ := loadRefreshToken_eq_some h
  have hsigned := hJ.signed _ hissued.signed.2
  obtain ⟨-, -, rfl⟩ := issueTokens_eq_ok hissued.2
  exact ⟨parent, hissued.1, hclient, ⟨calls, by rw [htoken, hsame, hsigned]⟩, hexpires, hfresh⟩

/-- Every step keeps what is told. -/
theorem Told.step (hJ : ∀ calls, (J calls).Genuine E calls)
    (hrun : (machine E J str).Run history s) (h : Told E J history s) (hstep : Step E J str s e s') :
    Told E J (history ++ [e]) s' := by
  cases hstep with
  | enrollment hother hstep => exact h.of_same _ rfl rfl rfl
  | accessed token now hresult => exact h.of_same _ rfl rfl rfl
  | @codeLoaded client name now p result hclock hresult =>
    cases result with
    | none =>
      refine h.of_same _ ?_ rfl rfl
      exact List.append_nil _
    | some code =>
      have hsame : Told E J (history ++ [.codeLoaded name (some code)]) s := h.of_same _ rfl rfl rfl
      refine { codes := fun client' code' hmem => ?_
               refreshes := hsame.refreshes
               calls := hsame.calls }
      rcases List.mem_append.mp hmem with hmem | hmem
      · exact hsame.codes client' code' hmem
      · obtain ⟨rfl, rfl⟩ := Prod.mk.inj (List.mem_singleton.mp hmem)
        obtain ⟨hobject, hclient⟩ := loadAuthorizationCode_eq_some hresult
        have henrolled := (objects_told (enrollment_run hrun)).2 name code' hobject
        rw [List.filterMap_append, code_eq_name (enrollment_run hrun) hobject]
        exact ⟨hclient, enrolledFor_append henrolled⟩
  | @codeExchanged client code hloaded now accessJti refreshJti p call hresult =>
    cases call with
    | none =>
      refine h.of_same _ rfl rfl ?_
      exact List.append_nil _
    | some call =>
      have hsame : Told E J (history ++ [.codeExchanged code.code (some call)]) s :=
        h.of_same _ rfl rfl rfl
      obtain ⟨hclient, henrolled⟩ := h.codes client code hloaded
      have hid : call.clientId = code.clientId := by
        unfold exchangeCode at hresult
        split_ifs at hresult
        · obtain ⟨-, hcall⟩ := Prod.mk.inj hresult
          rw [← Option.some.inj hcall, hclient, Option.getD_some]
        · cases (Prod.mk.inj hresult).2
      refine { codes := hsame.codes
               refreshes := fun client' loaded loadedAt hmem => ?_
               calls := fun call' hmem => ?_ }
      · obtain ⟨htold, parent, hparent, hrest⟩ := hsame.refreshes client' loaded loadedAt hmem
        exact ⟨htold, parent, List.mem_append_left _ hparent, hrest⟩
      · rcases List.mem_append.mp hmem with hmem | hmem
        · exact hsame.calls call' hmem
        · obtain rfl : call' = call := List.mem_singleton.mp hmem
          rw [← hid] at henrolled
          exact .exchanged [] henrolled
  | @refreshLoaded client token now result hresult =>
    cases result with
    | none =>
      refine h.of_same _ rfl ?_ rfl
      exact List.append_nil _
    | some loaded =>
      have hsame : Told E J (history ++ [.refreshLoaded client now (some loaded)]) s :=
        h.of_same _ rfl rfl rfl
      refine { codes := hsame.codes
               refreshes := fun client' loaded' loadedAt hmem => ?_
               calls := hsame.calls }
      rcases List.mem_append.mp hmem with hmem | hmem
      · exact hsame.refreshes client' loaded' loadedAt hmem
      · obtain ⟨rfl, hpair⟩ := Prod.mk.inj (List.mem_singleton.mp hmem)
        obtain ⟨rfl, rfl⟩ := Prod.mk.inj hpair
        exact ⟨List.mem_append_right _ List.mem_cons_self, renews_of_load (hJ s.calls) hresult⟩
  | @refreshExchanged client loaded loadedAt hloaded scopes now accessJti refreshJti =>
    have hsame : Told E J (history ++ [.refreshExchanged client
        (exchangeRefresh client loaded scopes now accessJti refreshJti)]) s :=
      h.of_same _ rfl rfl rfl
    obtain ⟨htold, parent, hparent, hrenews⟩ := h.refreshes client loaded loadedAt hloaded
    refine { codes := hsame.codes
             refreshes := fun client' loaded' loadedAt' hmem => ?_
             calls := fun call' hmem => ?_ }
    · obtain ⟨htold', parent', hparent', hrest⟩ := hsame.refreshes client' loaded' loadedAt' hmem
      exact ⟨htold', parent', List.mem_append_left _ hparent', hrest⟩
    · rcases List.mem_append.mp hmem with hmem | hmem
      · exact hsame.calls call' hmem
      · obtain rfl := List.mem_singleton.mp hmem
        exact .renewed [] (h.calls parent hparent) htold hrenews scopes now accessJti refreshJti

/-- Every run tells its calls. -/
theorem told_of_run (hJ : ∀ calls, (J calls).Genuine E calls)
    (hrun : (machine E J str).Run history s) : Told E J history s := by
  refine hrun.invariant (P := Told E J) ?_ ?_
  · rintro s ⟨-, hcodes, hrefreshes, hcalls⟩
    refine ⟨?_, ?_, ?_⟩
    · simp [hcodes]
    · simp [hrefreshes]
    · simp [hcalls]
  · intro history s e s' hrun h hstep
    exact h.step hJ hrun hstep

/-- A successful exchange of a code. -/
def isRoot : Event ι Token Time → Bool
  | .codeExchanged _ (some _) => true
  | _ => false

omit [LinearOrder Time] [Add Time] [NatCast Time] [IntCast Time] in
/-- An exchange of a code reaches the signatures or an error about the scope. -/
theorem issueTokens_ne_invalidGrant (E : Endpoints) (J : Jwt Token Time) (call : IssueCall) :
    Provider.issueTokens call.clientId call.scopes ≠ .invalidGrant := by
  rw [outcome_issueTokens E J call]
  cases issueTokens E call J with
  | ok pair => exact fun h => nomatch h
  | error e => exact fun h => nomatch h

/-- Every successful exchange of a code goes back to a right secret of its own. -/
theorem countP_isRoot_le (hrun : (machine E J str).Run history s) :
    history.countP isRoot ≤ (history.filterMap enrollmentEvent).countP correctSecret := by
  obtain ⟨desk, hdesk, -⟩ := (follows_code E.issuer).run (enrollment_run hrun)
  have hspent : history.countP isRoot ≤
      (((history.filterMap enrollmentEvent).filterMap codeTicket).filterMap
        Desk.spentTicket).length := by
    rw [List.filterMap_filterMap, List.filterMap_filterMap, List.length_filterMap_eq_countP]
    refine List.countP_mono_left fun e _ hroot => ?_
    unfold isRoot at hroot
    split at hroot
    · rw [enrollmentEvent, Option.bind_some, codeTicket,
        if_neg (issueTokens_ne_invalidGrant E (J []) _)]
      rfl
    · cases hroot
  calc history.countP isRoot
      ≤ (((history.filterMap enrollmentEvent).filterMap codeTicket).filterMap
          Desk.spentTicket).length := hspent
    _ ≤ (((history.filterMap enrollmentEvent).filterMap codeTicket).filterMap
          Desk.issuedTicket).length := Desk.spent_le_issued (by decide) hdesk
    _ ≤ (history.filterMap enrollmentEvent).countP correctSecret :=
        length_issued_le (enrollment_run hrun)

omit [DecidableEq ι] [Add Time] [NatCast Time] in
/-- An accepted token carries the claims of a call, whose client is the principal. -/
theorem authenticated_call {calls : List IssueCall} (hJ : (J calls).Genuine E calls)
    {token : Token} {now : Time} {principal : Principal} {claims : Json}
    (h : authenticateAndAuthorize (J calls) token now = some (principal, claims)) :
    ∃ call ∈ calls, claims = accessClaims E call ∧
      principal = ⟨"device", "device:" ++ call.clientId, call.clientId, "device"⟩ ∧
      ¬ ((call.now + accessTokenTtlSeconds : ℤ) : Time) < now := by
  have hverified : verifyToken (J calls) token now = some claims := by
    rw [verifyToken, h]
    rfl
  obtain ⟨call, pair, hissued, hdecode, hsame, hclient, hsubject, -, hfresh⟩ :=
    access_of_verify hJ hverified
  obtain ⟨-, -, rfl⟩ := issueTokens_eq_ok hissued.2
  rw [hsame, hJ.signed _ hissued.signed.1] at hdecode
  obtain rfl := Option.some.inj hdecode
  refine ⟨call, hissued.1, rfl, ?_, hfresh⟩
  unfold authenticateAndAuthorize at h
  split at h
  · cases h
  · next claims' hverify =>
    split at h
    · next clientId subject hid' hsubject' =>
      split_ifs at h
      obtain ⟨rfl, rfl⟩ := Prod.mk.inj (Option.some.inj h)
      rw [hclient, Option.bind_some] at hid'
      rw [hsubject, Option.bind_some] at hsubject'
      rw [← Option.some.inj hid', ← Option.some.inj hsubject']
    · cases h

/-- **Enrollment guards access.** In every interleaving of enrollment, token requests and
accesses, an accepted access carries the claims of a call of `_issue_tokens` that has not expired
and names its client as the principal. The call descends from an enrollment of this client by a
chain of renewals, each with a refresh token that was loaded before it expired; and codes are
exchanged, with which such chains start, at most as often as the right secret is submitted. -/
theorem access_descends (hJ : ∀ calls, (J calls).Genuine E calls)
    (hrun : (machine E J str).Run history s) :
    (∀ pre token now principal claims post,
      history = pre ++ .accessed token now (some (principal, claims)) :: post →
      ∃ call code, Descends E J pre call ∧
        EnrolledFor (pre.filterMap enrollmentEvent) code call.clientId ∧
        claims = accessClaims E call ∧
        principal = ⟨"device", "device:" ++ call.clientId, call.clientId, "device"⟩ ∧
        ¬ ((call.now + accessTokenTtlSeconds : ℤ) : Time) < now) ∧
    history.countP isRoot ≤ (history.filterMap enrollmentEvent).countP correctSecret := by
  refine ⟨?_, countP_isRoot_le hrun⟩
  rintro pre token now principal claims post rfl
  obtain ⟨s₁, s₂, hbefore, hstep⟩ := hrun.step_of_mem
  have htold := told_of_run hJ hbefore
  generalize he : Event.accessed token now (some (principal, claims)) = e at hstep
  cases hstep with
  | accessed token' now' hresult =>
    obtain ⟨rfl, rfl, rfl⟩ := Event.accessed.inj he
    obtain ⟨call, hcall, hclaims, hprincipal, hfresh⟩ :=
      authenticated_call (hJ s₁.calls) hresult
    have hdescends := htold.calls call hcall
    obtain ⟨code, henrolled⟩ := hdescends.enrolled
    exact ⟨call, code, hdescends, henrolled, hclaims, hprincipal, hfresh⟩
  | _ => cases he

end Runs

/-! ## A device that renews its token -/

/-- A device that submits the right secret, exchanges its code and renews the pair is let in with
the renewed token. -/
theorem access_descends_renewed :
    ∃ (pre : List (Event ℕ String ℤ)) (client : Client) (renewed : IssueCall)
      (principal : Principal) (claims : Json) (s : State ℕ String ℤ),
      (machine tokenEndpoints (spelledTokens tokenEndpoints) fun _ => "").Run
        (pre ++ [.accessed (String.ofList (Json.dumps (accessClaims tokenEndpoints renewed))) 7
          (some (principal, claims))]) s ∧
      .refreshExchanged client renewed ∈ pre ∧
      ∃ call code, Descends tokenEndpoints (spelledTokens tokenEndpoints) pre call ∧
        EnrolledFor (pre.filterMap enrollmentEvent) code call.clientId ∧
        claims = accessClaims tokenEndpoints call ∧
        principal = ⟨"device", "device:" ++ call.clientId, call.clientId, "device"⟩ ∧
        ¬ ((call.now + accessTokenTtlSeconds : ℤ) : ℤ) < 7 := by
  have h₀ : (machine tokenEndpoints (spelledTokens tokenEndpoints) fun _ => "").Run []
      (⟨⟨⟨fun _ => none, fun _ => none, fun _ => false, fun _ => false⟩, 0, fun _ => none⟩,
        [], [], []⟩ : State ℕ String ℤ) := .start ⟨⟨rfl, rfl⟩, rfl, rfl, rfl⟩
  have h₁ := h₀.step (.enrollment rfl (@DeviceEnrollment.Step.authorized ℤ _ _ _ ℕ _
    tokenEndpoints.issuer _ ⟨some "phone", none⟩ ⟨none, none, "challenge", "redirect", true⟩ 1 1
    "txn" _ _ ⟨by decide, by decide⟩ rfl rfl))
  have h₂ := h₁.step (.enrollment rfl (@DeviceEnrollment.Step.submitted ℤ _ _ _ ℕ _
    tokenEndpoints.issuer _ 1 "txn" "secret" "code" 2 2 (some "secret") none _ _
    ⟨by decide, by decide⟩ rfl rfl rfl))
  have h₃ := h₂.step (@Step.codeLoaded ℕ String ℤ _ _ _ _ _ _ _ _ _ ⟨some "phone", none⟩ "code" 3
    _ _ (by decide) rfl)
  have h₄ := h₃.step (@Step.codeExchanged ℕ String ℤ _ _ _ _ _ _ _ _ _ ⟨some "phone", none⟩ _
    List.mem_cons_self 3 "a" "b" _ _ rfl)
  let call : IssueCall := ⟨"phone", [jnReadScope], 3, "a", "b"⟩
  let refreshToken := String.ofList (Json.dumps (refreshClaims tokenEndpoints call))
  have hfresh : (loadRefreshToken tokenEndpoints (spelledTokens tokenEndpoints [call])
      (fun _ => "") ⟨some "phone", none⟩ refreshToken 5).isSome = true := by decide +kernel
  obtain ⟨loaded, hloaded⟩ := Option.isSome_iff_exists.mp hfresh
  have h₅ := h₄.step (.refreshLoaded ⟨some "phone", none⟩ refreshToken 5 hloaded)
  have h₆ := h₅.step (.refreshExchanged List.mem_cons_self [jnReadScope] 6 "c" "d")
  let renewed : IssueCall := ⟨"phone", [jnReadScope], 6, "c", "d"⟩
  let token := String.ofList (Json.dumps (accessClaims tokenEndpoints renewed))
  have hsome : (authenticateAndAuthorize (spelledTokens tokenEndpoints [call, renewed]) token
      7).isSome = true := by decide +kernel
  obtain ⟨⟨principal, claims⟩, haccepted⟩ := Option.isSome_iff_exists.mp hsome
  have h₇ := h₆.step (.accessed token 7 haccepted)
  exact ⟨_, ⟨some "phone", none⟩, renewed, principal, claims, _, h₇,
    List.mem_append_right _ List.mem_cons_self,
    (access_descends (genuine_spelledTokens tokenEndpoints) h₇).1 _ token 7 principal claims [] rfl⟩

end ContributorGateway.DeviceGateway
