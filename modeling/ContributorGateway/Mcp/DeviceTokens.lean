import ContributorGateway.Foundation.JsonRoundTrip
import ContributorGateway.Mcp.DeviceEnrollment

/-!
# Access and refresh tokens

`DeviceOAuthProvider` signs an access and a refresh token with one key. The signatures and
the verifier of access tokens are those of a library; what the provider relies on is that
only signed claims are read from a token. The audiences may be equal: the claim `token_use`
tells the two kinds apart.
-/

namespace ContributorGateway.DeviceTokens

open DeviceEnrollment

/-! ## The provider -/

/-- `ACCESS_TOKEN_TTL_SECONDS`. -/
def accessTokenTtlSeconds : ℤ := 3600

/-- `REFRESH_TOKEN_TTL_SECONDS`. -/
def refreshTokenTtlSeconds : ℤ := 30 * 24 * 3600

/-- The issuer and the path that a provider is configured with. -/
structure Endpoints where
  issuer : String
  mcpPath : String

/-- `_audience`. -/
def Endpoints.audience (E : Endpoints) : String := E.issuer ++ E.mcpPath

/-- `_refresh_audience`. -/
def Endpoints.refreshAudience (E : Endpoints) : String := E.issuer ++ "/token"

/-- What the provider uses of the JWT libraries: `encode` and `decode` with its key, and the
verifier of access tokens at a time. Both readers yield the claims of a token. -/
structure Jwt (Token Time : Type) where
  encode : Json → Token
  decode : Token → Option Json
  verifyToken : Time → Token → Option Json

/-- A call of `_issue_tokens`: its arguments, the second it is made in and the random ids. -/
structure IssueCall where
  clientId : String
  scopes : List String
  now : ℤ
  accessJti : String
  refreshJti : String

/-- `TokenError`. -/
structure TokenError where
  error : String
  description : String
  deriving DecidableEq

/-- `OAuthToken`. -/
structure OAuthToken (Token : Type) where
  accessToken : Token
  tokenType : String
  expiresIn : ℤ
  refreshToken : Token
  scope : String

section Methods

variable (E : Endpoints) (call : IssueCall)

/-- `common`. -/
def commonClaims : List (String × Json) :=
  [("iss", .str E.issuer), ("sub", .str call.clientId), ("client_id", .str call.clientId),
    ("scope", .str jnReadScope), ("iat", .int call.now)]

/-- The claims of an access token. -/
def accessClaims : Json :=
  .obj (commonClaims E call ++
    [("aud", .str E.audience), ("exp", .int (call.now + accessTokenTtlSeconds)),
      ("jti", .str call.accessJti), ("token_use", .str "access")])

/-- The claims of a refresh token. -/
def refreshClaims : Json :=
  .obj (commonClaims E call ++
    [("aud", .str E.refreshAudience), ("exp", .int (call.now + refreshTokenTtlSeconds)),
      ("jti", .str call.refreshJti), ("token_use", .str "refresh")])

variable {Token Time : Type} (J : Jwt Token Time)

/-- `_issue_tokens`. -/
def issueTokens : Except TokenError (OAuthToken Token) :=
  if ¬ Provider.isDeviceIdentifier call.clientId ∨ call.scopes ≠ [jnReadScope] then
    .error ⟨"invalid_scope", "device identity or scope is invalid"⟩
  else
    .ok ⟨J.encode (accessClaims E call), "Bearer", accessTokenTtlSeconds,
      J.encode (refreshClaims E call), jnReadScope⟩

/-- `str(claims.get("scope", "")).split()`, with `str` of other values as a parameter. -/
def scopesOf (str : Json → String) (claims : Json) : List String :=
  match claims.get "scope" with
  | none => splitWhitespace ""
  | some (.str scope) => splitWhitespace scope
  | some value => splitWhitespace (str value)

/-- `isinstance(value, int)` with the number. -/
def asInt : Json → Option ℤ
  | .int n => some n
  | .bool b => some (if b then 1 else 0)
  | _ => none

/-- `RefreshToken`. -/
structure RefreshToken (Token : Type) where
  token : Token
  clientId : Option Json
  scopes : List String
  expiresAt : ℤ

/-- The value of a claim is this text. -/
def hasText (claims : Json) (key : String) (text : String) : Bool :=
  (claims.get key).bind Json.asStr = some text

/-- A claim equals the id of a client, which may be `None`. -/
def isClientId (claim : Option Json) (clientId : Option String) : Bool :=
  match claim, clientId with
  | none, none => true
  | some .null, none => true
  | some (.str text), some id => text = id
  | _, _ => false

variable [LinearOrder Time] [IntCast Time] (str : Json → String)

/-- `load_refresh_token`. -/
def loadRefreshToken (client : Client) (token : Token) (now : Time) :
    Option (RefreshToken Token) :=
  match J.decode token with
  | none => none
  | some claims =>
      let clientId := claims.get "client_id"
      match (claims.get "exp").bind asInt with
      | none => none
      | some expiresAt =>
          if ¬ hasText claims "token_use" "refresh" ∨ ¬ hasText claims "iss" E.issuer ∨
              ¬ hasText claims "aud" E.refreshAudience ∨ ¬ isClientId clientId client.clientId ∨
              ¬ isClientId (claims.get "sub") client.clientId ∨ (expiresAt : Time) < now ∨
              scopesOf str claims ≠ [jnReadScope] then none
          else some ⟨token, clientId, scopesOf str claims, expiresAt⟩

/-- `Principal`. -/
structure Principal where
  provider : String
  subject : String
  login : String
  authMode : String
  deriving DecidableEq

/-- `authenticate_and_authorize`: the principal and the claims of an allowed token. -/
def authenticateAndAuthorize (token : Token) (now : Time) : Option (Principal × Json) :=
  match J.verifyToken now token with
  | none => none
  | some claims =>
      match (claims.get "client_id").bind Json.asStr, (claims.get "sub").bind Json.asStr with
      | some clientId, some subject =>
          if ¬ hasText claims "token_use" "access" ∨ ¬ Provider.isDeviceIdentifier clientId ∨
              ¬ Provider.isDeviceIdentifier subject then none
          else some (⟨"device", "device:" ++ subject, clientId, "device"⟩, claims)
      | _, _ => none

/-- `verify_token` and `load_access_token`. -/
def verifyToken (token : Token) (now : Time) : Option Json :=
  (authenticateAndAuthorize J token now).map Prod.snd

end Methods

/-! ## Issued tokens -/

variable {Token Time : Type} [LinearOrder Time] [IntCast Time]

/-- The claims that calls of `_issue_tokens` signed. -/
def signedClaims (E : Endpoints) (history : List IssueCall) : List Json :=
  history.flatMap fun call =>
    if Provider.isDeviceIdentifier call.clientId ∧ call.scopes = [jnReadScope] then
      [accessClaims E call, refreshClaims E call]
    else []

/-- What is assumed of the libraries: signed claims are read back, nothing else is read, and
the verifier reads a token that has not expired, of its issuer, audience and scope. -/
structure Jwt.Genuine (J : Jwt Token Time) (E : Endpoints) (history : List IssueCall) : Prop where
  signed : ∀ claims ∈ signedClaims E history, J.decode (J.encode claims) = some claims
  unforged : ∀ token claims, J.decode token = some claims → claims ∈ signedClaims E history
  verified : ∀ now token claims, J.verifyToken now token = some claims →
    J.decode token = some claims ∧ hasText claims "iss" E.issuer = true ∧
      hasText claims "aud" E.audience = true ∧ hasText claims "scope" jnReadScope = true ∧
      ∀ exp, claims.get "exp" = some (.int exp) → ¬ (exp : Time) < now

/-- A pair that a call of the history returned. -/
def Issued (J : Jwt Token Time) (E : Endpoints) (history : List IssueCall) (call : IssueCall)
    (pair : OAuthToken Token) : Prop :=
  call ∈ history ∧ issueTokens E call J = .ok pair

variable {J : Jwt Token Time} {E : Endpoints} {history : List IssueCall} {call : IssueCall}
  {str : Json → String}

omit [LinearOrder Time] [IntCast Time] in
/-- A call that returns has checked the client and the scope. -/
theorem issueTokens_eq_ok {pair : OAuthToken Token} (h : issueTokens E call J = .ok pair) :
    Provider.isDeviceIdentifier call.clientId = true ∧ call.scopes = [jnReadScope] ∧
      pair = ⟨J.encode (accessClaims E call), "Bearer", accessTokenTtlSeconds,
        J.encode (refreshClaims E call), jnReadScope⟩ := by
  unfold issueTokens at h
  split_ifs at h with hrefused
  rw [not_or, not_not, not_not] at hrefused
  exact ⟨hrefused.1, hrefused.2, (Except.ok.inj h).symm⟩

omit [LinearOrder Time] [IntCast Time] in
/-- Enrollment sees of a call whether it returned. -/
theorem outcome_issueTokens (E : Endpoints) (J : Jwt Token Time) (call : IssueCall) :
    Provider.issueTokens call.clientId call.scopes =
      match issueTokens E call J with
      | .ok _ => .tokens call.clientId
      | .error _ => .invalidScope := by
  unfold Provider.issueTokens issueTokens
  by_cases hissued : Provider.isDeviceIdentifier call.clientId = true ∧ call.scopes = [jnReadScope]
  · simp [hissued]
  · have hrefused : ¬ Provider.isDeviceIdentifier call.clientId = true ∨
        call.scopes ≠ [jnReadScope] := not_and_or.mp hissued
    rw [if_pos hrefused, if_neg (by simpa using hissued)]

omit [LinearOrder Time] [IntCast Time] in
/-- Signed claims are those of the halves of an issued pair. -/
theorem issued_of_mem_signedClaims (J : Jwt Token Time) {claims : Json}
    (h : claims ∈ signedClaims E history) :
    ∃ call pair, Issued J E history call pair ∧
      Provider.isDeviceIdentifier call.clientId = true ∧
      pair.accessToken = J.encode (accessClaims E call) ∧
      pair.refreshToken = J.encode (refreshClaims E call) ∧
      (claims = accessClaims E call ∨ claims = refreshClaims E call) := by
  obtain ⟨call, hcall, hclaims⟩ := List.mem_flatMap.mp h
  split_ifs at hclaims with hissued
  · obtain ⟨hid, hscopes⟩ := hissued
    refine ⟨call, _, ⟨hcall, by rw [issueTokens, if_neg (by simp [hid, hscopes])]⟩, hid, rfl, rfl, ?_⟩
    simpa using hclaims
  · simp at hclaims

omit [LinearOrder Time] [IntCast Time] in
/-- The claims of both halves of an issued pair are signed. -/
theorem Issued.signed {pair : OAuthToken Token} (h : Issued J E history call pair) :
    accessClaims E call ∈ signedClaims E history ∧
      refreshClaims E call ∈ signedClaims E history := by
  obtain ⟨hid, hscopes, -⟩ := issueTokens_eq_ok h.2
  constructor <;>
  · refine List.mem_flatMap.mpr ⟨call, h.1, ?_⟩
    rw [if_pos ⟨hid, hscopes⟩]
    simp

/-- The uses of signed claims. -/
theorem hasText_tokenUse (E : Endpoints) (call : IssueCall) (text : String) :
    (hasText (accessClaims E call) "token_use" text = true ↔ text = "access") ∧
      (hasText (refreshClaims E call) "token_use" text = true ↔ text = "refresh") := by
  constructor
  · simp [hasText, accessClaims, commonClaims, Json.get, Json.asStr, List.lookup_cons, eq_comm]
  · simp [hasText, refreshClaims, commonClaims, Json.get, Json.asStr, List.lookup_cons, eq_comm]

/-- What a loaded refresh token has passed. -/
theorem loadRefreshToken_eq_some {client : Client} {token : Token} {now : Time}
    {loaded : RefreshToken Token} (h : loadRefreshToken E J str client token now = some loaded) :
    ∃ claims, J.decode token = some claims ∧ hasText claims "token_use" "refresh" = true ∧
      isClientId (claims.get "client_id") client.clientId = true ∧
      (claims.get "exp").bind asInt = some loaded.expiresAt ∧
      ¬ (loaded.expiresAt : Time) < now ∧ loaded.token = token := by
  unfold loadRefreshToken at h
  split at h
  · simp at h
  · next claims hdecode =>
    dsimp only at h
    split at h
    · simp at h
    · next expiresAt hexp =>
      split_ifs at h with hrefused
      simp only [not_or, not_not] at hrefused
      obtain ⟨huse, -, -, hclient, -, hfresh, -⟩ := hrefused
      obtain rfl := Option.some.inj h
      exact ⟨claims, hdecode, huse, hclient, hexp, hfresh, rfl⟩

omit [LinearOrder Time] [IntCast Time] in
/-- What a verified access token has passed. -/
theorem verifyToken_eq_some {token : Token} {now : Time} {claims : Json}
    (h : verifyToken J token now = some claims) :
    J.verifyToken now token = some claims ∧ hasText claims "token_use" "access" = true ∧
      ∃ clientId subject, (claims.get "client_id").bind Json.asStr = some clientId ∧
        (claims.get "sub").bind Json.asStr = some subject ∧
        Provider.isDeviceIdentifier clientId = true ∧
        Provider.isDeviceIdentifier subject = true := by
  obtain ⟨⟨principal, claims'⟩, hallowed, rfl⟩ := Option.map_eq_some_iff.mp h
  unfold authenticateAndAuthorize at hallowed
  split at hallowed
  · simp at hallowed
  · next claims'' hverify =>
    split at hallowed
    · next clientId subject hid hsubject =>
      split_ifs at hallowed with hrefused
      simp only [not_or, not_not] at hrefused
      obtain ⟨-, rfl⟩ := Prod.mk.injEq _ _ _ _ ▸ Option.some.inj hallowed
      exact ⟨hverify, hrefused.1, clientId, subject, hid, hsubject, hrefused.2.1, hrefused.2.2⟩
    · simp at hallowed

/-- A loaded refresh token is the refresh half of a pair issued to the client. -/
theorem refresh_of_load (hJ : J.Genuine E history) {client : Client} {token : Token} {now : Time}
    {loaded : RefreshToken Token} (h : loadRefreshToken E J str client token now = some loaded) :
    ∃ call pair, Issued J E history call pair ∧ client.clientId = some call.clientId ∧
      J.decode token = J.decode pair.refreshToken ∧
      loaded.expiresAt = call.now + refreshTokenTtlSeconds ∧
      ¬ (loaded.expiresAt : Time) < now := by
  obtain ⟨claims, hdecode, huse, hclient, hexp, hfresh, -⟩ := loadRefreshToken_eq_some h
  have hsigned := hJ.unforged token claims hdecode
  obtain ⟨call, pair, hissued, -, -, hrefresh, hclaims⟩ := issued_of_mem_signedClaims J hsigned
  rcases hclaims with rfl | rfl
  · have huse := (hasText_tokenUse E call "refresh").1.mp huse
    simp at huse
  · refine ⟨call, pair, hissued, ?_, ?_, ?_, hfresh⟩
    · have hid : (refreshClaims E call).get "client_id" = some (.str call.clientId) := rfl
      rw [hid] at hclient
      cases hnone : client.clientId with
      | none => simp [isClientId, hnone] at hclient
      | some id =>
        have hsame : call.clientId = id := by simpa [isClientId, hnone] using hclient
        rw [hsame]
    · rw [hdecode, hrefresh, hJ.signed _ hsigned]
    · have hnumber : ((refreshClaims E call).get "exp").bind asInt =
          some (call.now + refreshTokenTtlSeconds) := rfl
      rw [hnumber] at hexp
      exact (Option.some.inj hexp).symm

/-- A verified access token is the access half of an issued pair, and carries identifiers of
devices. -/
theorem access_of_verify (hJ : J.Genuine E history) {token : Token} {now : Time} {claims : Json}
    (h : verifyToken J token now = some claims) :
    ∃ call pair, Issued J E history call pair ∧
      J.decode token = some claims ∧ J.decode token = J.decode pair.accessToken ∧
      claims.get "client_id" = some (.str call.clientId) ∧
      claims.get "sub" = some (.str call.clientId) ∧
      Provider.isDeviceIdentifier call.clientId = true ∧
      ¬ ((call.now + accessTokenTtlSeconds : ℤ) : Time) < now := by
  obtain ⟨hverify, huse, -⟩ := verifyToken_eq_some h
  obtain ⟨hdecode, -, -, -, hfresh⟩ := hJ.verified now token claims hverify
  have hsigned := hJ.unforged token claims hdecode
  obtain ⟨call, pair, hissued, hid, haccess, -, hclaims⟩ := issued_of_mem_signedClaims J hsigned
  rcases hclaims with rfl | rfl
  · refine ⟨call, pair, hissued, hdecode, ?_, rfl, rfl, hid, hfresh _ rfl⟩
    rw [hdecode, haccess, hJ.signed _ hsigned]
  · have huse := (hasText_tokenUse E call "access").2.mp huse
    simp at huse

/-- Access and refresh tokens are never interchangeable, whatever the path of the server and
the calls that issued tokens. A loaded refresh token is the unexpired refresh half of a pair
issued to its client; a verified token is the unexpired access half of a pair, with
identifiers of devices; no token is both; and only the scope `jn.read` is issued. -/
theorem tokens_not_interchangeable (str : Json → String) (hJ : J.Genuine E history) :
    (∀ client token (now : Time) loaded, loadRefreshToken E J str client token now = some loaded →
      ∃ call pair, Issued J E history call pair ∧ client.clientId = some call.clientId ∧
        J.decode token = J.decode pair.refreshToken ∧
        loaded.expiresAt = call.now + refreshTokenTtlSeconds ∧
        ¬ (loaded.expiresAt : Time) < now) ∧
    (∀ token (now : Time) claims, verifyToken J token now = some claims →
      ∃ call pair, Issued J E history call pair ∧
        J.decode token = some claims ∧ J.decode token = J.decode pair.accessToken ∧
        claims.get "client_id" = some (.str call.clientId) ∧
        claims.get "sub" = some (.str call.clientId) ∧
        Provider.isDeviceIdentifier call.clientId = true ∧
        ¬ ((call.now + accessTokenTtlSeconds : ℤ) : Time) < now) ∧
    (∀ client token (now now' : Time), (loadRefreshToken E J str client token now).isSome →
      verifyToken J token now' = none) ∧
    (∀ call pair, Issued J E history call pair →
      pair.scope = "jn.read" ∧
        (∃ claims, J.decode pair.accessToken = some claims ∧
          claims.get "scope" = some (.str "jn.read")) ∧
        ∃ claims, J.decode pair.refreshToken = some claims ∧
          claims.get "scope" = some (.str "jn.read")) := by
  refine ⟨fun _ _ _ _ h => refresh_of_load hJ h, fun _ _ _ h => access_of_verify hJ h, ?_, ?_⟩
  · intro client token now now' hloaded
    obtain ⟨loaded, hloaded⟩ := Option.isSome_iff_exists.mp hloaded
    obtain ⟨claims, hdecode, huse, -⟩ := loadRefreshToken_eq_some hloaded
    by_contra hverified
    obtain ⟨claims', hverified⟩ := Option.ne_none_iff_exists'.mp hverified
    obtain ⟨hverify, huse', -⟩ := verifyToken_eq_some hverified
    obtain ⟨hdecode', -⟩ := hJ.verified now' token claims' hverify
    obtain rfl : claims = claims' := by simpa [hdecode] using hdecode'
    have hboth : (claims.get "token_use").bind Json.asStr = some "refresh" ∧
        (claims.get "token_use").bind Json.asStr = some "access" := by
      simpa [hasText] using And.intro huse huse'
    simp [hboth.1] at hboth
  · intro call pair hissued
    have hmem := hissued.signed
    obtain ⟨-, -, rfl⟩ := issueTokens_eq_ok hissued.2
    exact ⟨rfl, ⟨_, hJ.signed _ hmem.1, rfl⟩, ⟨_, hJ.signed _ hmem.2, rfl⟩⟩

/-! ## Tokens that spell their claims -/

/-- Tokens that spell their claims, of which only the signed ones are read. -/
def spelledTokens (E : Endpoints) (calls : List IssueCall) : Jwt String ℤ where
  encode claims := String.ofList (Json.dumps claims)
  decode token := (signedClaims E calls).find? fun claims =>
    String.ofList (Json.dumps claims) == token
  verifyToken now token :=
    ((signedClaims E calls).find? fun claims =>
      String.ofList (Json.dumps claims) == token).filter fun claims =>
        hasText claims "iss" E.issuer && hasText claims "aud" E.audience &&
          hasText claims "scope" jnReadScope && !((claims.get "exp").bind asInt).any (· < now)

/-- The claims of tokens are plain values. -/
theorem plain_claims (E : Endpoints) (call : IssueCall) :
    Json.Plain (accessClaims E call) ∧ Json.Plain (refreshClaims E call) := by
  constructor
  · simp [accessClaims, commonClaims, Json.Plain, Json.PlainMembers]
  · simp [refreshClaims, commonClaims, Json.Plain, Json.PlainMembers]

/-- Plain objects with the same text have the same members. -/
theorem get_eq_of_dumps {a b : Json} (ha : Json.Plain a) (hb : Json.Plain b)
    (h : Json.dumps a = Json.dumps b) (key : String) :
    (a.get key).map Json.canonical = (b.get key).map Json.canonical := by
  have hread := Json.loads_dumps ha
  rw [h, Json.loads_dumps hb] at hread
  rw [← Json.get_canonical ha, ← Json.get_canonical hb, Option.some.inj hread]

/-- A client, a second and a random id make the claims of an access token, and of a refresh
token. -/
theorem claims_congr {call call' : IssueCall} (hid : call.clientId = call'.clientId)
    (hnow : call.now = call'.now) :
    (call.accessJti = call'.accessJti → accessClaims E call = accessClaims E call') ∧
      (call.refreshJti = call'.refreshJti → refreshClaims E call = refreshClaims E call') := by
  constructor
  · intro hjti
    rw [accessClaims, accessClaims, commonClaims, commonClaims, hid, hnow, hjti]
  · intro hjti
    rw [refreshClaims, refreshClaims, commonClaims, commonClaims, hid, hnow, hjti]

/-- Signed claims are told apart by their texts. -/
theorem signedClaims_injective {calls : List IssueCall} {a b : Json}
    (ha : a ∈ signedClaims E calls) (hb : b ∈ signedClaims E calls)
    (h : Json.dumps a = Json.dumps b) : a = b := by
  obtain ⟨call, -, -, -, -, -, hcall⟩ := issued_of_mem_signedClaims (spelledTokens E calls) ha
  obtain ⟨call', -, -, -, -, -, hcall'⟩ := issued_of_mem_signedClaims (spelledTokens E calls) hb
  have hplain := plain_claims E call
  have hplain' := plain_claims E call'
  have htext {s t : String} (h : some (Json.str s) = some (Json.str t)) : s = t :=
    Json.str.inj (Option.some.inj h)
  have hint {m n : ℤ} (h : some (Json.int m) = some (Json.int n)) : m = n :=
    Json.int.inj (Option.some.inj h)
  rcases hcall with rfl | rfl <;> rcases hcall' with rfl | rfl
  · have hmembers := get_eq_of_dumps hplain.1 hplain'.1 h
    exact (claims_congr (htext (hmembers "client_id")) (hint (hmembers "iat"))).1
      (htext (hmembers "jti"))
  · have huse := htext (get_eq_of_dumps hplain.1 hplain'.2 h "token_use")
    exact absurd huse (by decide)
  · have huse := htext (get_eq_of_dumps hplain.2 hplain'.1 h "token_use")
    exact absurd huse (by decide)
  · have hmembers := get_eq_of_dumps hplain.2 hplain'.2 h
    exact (claims_congr (htext (hmembers "client_id")) (hint (hmembers "iat"))).2
      (htext (hmembers "jti"))

/-- The provider reads what it signed, and nothing else. -/
theorem genuine_spelledTokens (E : Endpoints) (calls : List IssueCall) :
    (spelledTokens E calls).Genuine E calls := by
  constructor
  · intro claims hclaims
    cases hfound : (spelledTokens E calls).decode ((spelledTokens E calls).encode claims) with
    | none =>
      have hnone := List.find?_eq_none.mp hfound claims hclaims
      exact absurd BEq.rfl hnone
    | some claims' =>
      have hmem := List.mem_of_find?_eq_some hfound
      have htext : (String.ofList (Json.dumps claims') == String.ofList (Json.dumps claims)) = true :=
        List.find?_some (p := fun c => String.ofList (Json.dumps c) ==
          String.ofList (Json.dumps claims)) hfound
      rw [signedClaims_injective hmem hclaims (String.ofList_inj.mp (eq_of_beq htext))]
  · intro token claims h
    exact List.mem_of_find?_eq_some h
  · intro now token claims h
    obtain ⟨hfound, hchecks⟩ := Option.filter_eq_some_iff.mp h
    simp only [Bool.and_eq_true, Bool.not_eq_true'] at hchecks
    obtain ⟨⟨⟨hissuer, haudience⟩, hscope⟩, hfresh⟩ := hchecks
    refine ⟨hfound, hissuer, haudience, hscope, ?_⟩
    intro exp hexp
    simpa [hexp, asInt] using hfresh

/-! ## A provider whose audiences are equal -/

/-- A provider at the path `/token`. -/
def tokenEndpoints : Endpoints := ⟨"https://gateway.example", "/token"⟩

/-- A pair issued in the second 100. -/
def oneCall : IssueCall := ⟨"device1", [jnReadScope], 100, "a", "b"⟩

/-- The tokens of the provider. -/
def spelledJwt : Jwt String ℤ := spelledTokens tokenEndpoints [oneCall]

/-- Its refresh token, which loads, is not accepted as an access token. -/
theorem refresh_not_verified :
    verifyToken spelledJwt (spelledJwt.encode (refreshClaims tokenEndpoints oneCall)) 200 = none :=
  (tokens_not_interchangeable (fun _ => "")
    (genuine_spelledTokens tokenEndpoints [oneCall])).2.2.1 ⟨some "device1", none⟩ _ 200 200
      (by decide +kernel)

end ContributorGateway.DeviceTokens
