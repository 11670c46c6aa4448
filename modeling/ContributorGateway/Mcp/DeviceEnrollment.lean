import ContributorGateway.Foundation.Machine
import ContributorGateway.Foundation.PythonText
import Mathlib.Algebra.Group.Defs
import Mathlib.Data.Nat.Cast.Defs
import Mathlib.Order.Lattice

/-!
# Device enrollment

`DeviceOAuthProvider` turns an authorization request into an enrollment transaction,
the enrollment secret into an authorization code and the code into a pair of tokens.
Requests interleave at their awaits, of which only the wait after a wrong secret lies
between two accesses to the transactions and codes.
-/

namespace ContributorGateway.DeviceEnrollment

/-! ## Data -/

/-- `AuthorizationParams`, the fields that enrollment uses. -/
structure AuthorizationParams where
  state : Option String
  scopes : Option (List String)
  codeChallenge : String
  redirectUri : String
  redirectUriProvidedExplicitly : Bool
  deriving DecidableEq

/-- `OAuthClientInformationFull`, the fields that enrollment uses. -/
structure Client where
  clientId : Option String
  scope : Option String
  deriving DecidableEq

/-- `_EnrollTransaction`. -/
structure EnrollTransaction (Time : Type) where
  clientId : String
  params : AuthorizationParams
  expiresAt : Time
  attempts : ℕ := 0
  deriving DecidableEq

/-- `AuthorizationCode`. -/
structure AuthorizationCode (Time : Type) where
  code : String
  clientId : String
  redirectUri : String
  redirectUriProvidedExplicitly : Bool
  scopes : List String
  expiresAt : Time
  codeChallenge : String
  deriving DecidableEq

/-- `JN_READ_SCOPE`. -/
def jnReadScope : String := "jn.read"

/-- `AUTH_CODE_TTL_SECONDS`. -/
def authCodeTtlSeconds : ℕ := 300

/-- `ENROLL_TXN_TTL_SECONDS`. -/
def enrollTxnTtlSeconds : ℕ := 300

/-- `MAX_ENROLL_ATTEMPTS`. -/
def maxEnrollAttempts : ℕ := 5

/-- What the provider keeps in memory. The transaction and code objects stay where they
were created, under their identifiers; the dictionaries `_enroll_transactions` and
`_auth_codes` refer to some of them. -/
structure Provider (Time : Type) where
  transactions : String → Option (EnrollTransaction Time)
  codes : String → Option (AuthorizationCode Time)
  enrollTransactions : String → Bool
  authCodes : String → Bool

/-- The responses of the enrollment endpoint. -/
inductive Response (Time : Type) where
  | json (status : ℕ) (detail : String)
  | form (status : ℕ) (transactionId : String) (transaction : EnrollTransaction Time)
      (error : Option String)
  | redirect (uri code : String) (state : Option String)
  deriving DecidableEq

/-- The answer for a transaction that is not there. -/
def unknownOrExpired {Time : Type} : Response Time :=
  .json 400 "unknown or expired enrollment request"

/-- How the first part of a submission ends: with a response, with the wait after a wrong
secret, or with the failure to read the secret. -/
inductive Submission (Time : Type) where
  | answered (response : Response Time)
  | waiting
  | raised
  deriving DecidableEq

/-- How an exchange ends: with tokens for a client, or with a `TokenError`. -/
inductive Exchange where
  | tokens (clientId : String)
  | invalidGrant
  | invalidScope
  deriving DecidableEq

/-! ## The methods of the provider -/

section Methods

variable {Time : Type} [LinearOrder Time] [Add Time] [NatCast Time]

namespace Provider

variable (p : Provider Time)

/-- The transaction that the dictionary refers to. -/
def transaction? (transactionId : String) : Option (EnrollTransaction Time) :=
  if p.enrollTransactions transactionId then p.transactions transactionId else none

/-- The code that the dictionary refers to. -/
def authCode? (code : String) : Option (AuthorizationCode Time) :=
  if p.authCodes code then p.codes code else none

/-- `_enroll_transactions.pop(transaction_id, None)`. -/
def popTransaction (transactionId : String) : Provider Time :=
  { p with enrollTransactions := Function.update p.enrollTransactions transactionId false }

/-- `_prune`. -/
def prune (now : Time) : Provider Time :=
  { p with
    enrollTransactions := fun id => (p.transaction? id).any fun t => now < t.expiresAt
    authCodes := fun code => (p.authCode? code).any fun c => now < c.expiresAt }

/-- `_get_transaction`. -/
def getTransaction (transactionId : String) (now : Time) :
    Provider Time × Option (EnrollTransaction Time) :=
  match p.transaction? transactionId with
  | none => (p.popTransaction transactionId, none)
  | some transaction =>
      if transaction.expiresAt < now then (p.popTransaction transactionId, none)
      else (p, some transaction)

/-- `authorize`, with the clock readings of `_prune` and of the expiry, and the new
identifier. A client without an id raises `ValueError`. -/
def authorize (issuer : String) (client : Client) (params : AuthorizationParams)
    (now now' : Time) (transactionId : String) : Provider Time × Option String :=
  let pruned := p.prune now
  let clientId := client.clientId.getD ""
  if clientId = "" then (pruned, none)
  else
    ({ pruned with
        transactions := Function.update pruned.transactions transactionId
          (some ⟨clientId, params, now' + (enrollTxnTtlSeconds : Time), 0⟩)
        enrollTransactions := Function.update pruned.enrollTransactions transactionId true },
      some (issuer ++ "/enroll?txn=" ++ quotePlus transactionId))

/-- `_enroll_endpoint` for a GET. -/
def enrollGet (transactionId : String) (now : Time) : Provider Time × Response Time :=
  match p.getTransaction transactionId now with
  | (p', none) => (p', unknownOrExpired)
  | (p', some transaction) => (p', .form 200 transactionId transaction none)

/-- The scopes of a code: those of the request, those of the registered client, or the
default. An empty list or text counts as none. -/
def codeScopes (params : AuthorizationParams) (client : Option Client) : List String :=
  match params.scopes with
  | some (scope :: scopes) => scope :: scopes
  | _ =>
      match client.bind (·.scope) with
      | none => [jnReadScope]
      | some scope => if scope = "" then [jnReadScope] else splitWhitespace scope

/-- A wrong secret: `transaction.attempts += 1`, and the transaction is dropped at the
limit. -/
def refuse (transactionId : String) (transaction : EnrollTransaction Time) : Provider Time :=
  let counted := { p with
    transactions := Function.update p.transactions transactionId
      (some { transaction with attempts := transaction.attempts + 1 }) }
  if maxEnrollAttempts ≤ transaction.attempts + 1 then counted.popTransaction transactionId
  else counted

/-- The right secret: the transaction is dropped and a code stored. -/
def enroll (transactionId : String) (transaction : EnrollTransaction Time)
    (client : Option Client) (codeValue : String) (now : Time) : Provider Time :=
  let popped := p.popTransaction transactionId
  let params := transaction.params
  { popped with
    codes := Function.update popped.codes codeValue
      (some
        { code := codeValue
          clientId := transaction.clientId
          redirectUri := params.redirectUri
          redirectUriProvidedExplicitly := params.redirectUriProvidedExplicitly
          scopes := codeScopes params client
          expiresAt := now + (authCodeTtlSeconds : Time)
          codeChallenge := params.codeChallenge })
    authCodes := Function.update popped.authCodes codeValue true }

/-- `_enroll_endpoint` for a POST, up to its response or the wait after a wrong secret.
The clock is read for the transaction and again for the code; the configured secret may
fail to be read. -/
def enrollPost (transactionId submitted : String) (now : Time) (expected : Option String)
    (client : Option Client) (codeValue : String) (now' : Time) :
    Provider Time × Submission Time :=
  match p.getTransaction transactionId now with
  | (p', none) => (p', .answered unknownOrExpired)
  | (p', some transaction) =>
      match expected with
      | none => (p', .raised)
      | some expected =>
          if submitted ≠ expected then (p'.refuse transactionId transaction, .waiting)
          else
            (p'.enroll transactionId transaction client codeValue now',
              .answered (.redirect transaction.params.redirectUri codeValue
                transaction.params.state))

/-- `_enroll_endpoint` for a POST after the wait. -/
def enrollAfterWait (transactionId : String) (transaction : EnrollTransaction Time) :
    Response Time :=
  if p.enrollTransactions transactionId then
    .form 401 transactionId transaction (some "wrong enrollment secret")
  else .json 401 "enrollment request rejected"

/-- `load_authorization_code`. -/
def loadAuthorizationCode (client : Client) (authorizationCode : String) (now : Time) :
    Provider Time × Option (AuthorizationCode Time) :=
  let pruned := p.prune now
  (pruned, (pruned.authCode? authorizationCode).filter fun code =>
    some code.clientId = client.clientId)

/-- `_DEVICE_IDENTIFIER.fullmatch`. -/
def isDeviceIdentifier (text : String) : Bool :=
  matchesClass (fun c => isAsciiAlnum c || "._:@/-".contains c) 1 128 text &&
    text.toList.head?.any isAsciiAlnum

/-- `_issue_tokens`, without the signatures. -/
def issueTokens (clientId : String) (scopes : List String) : Exchange :=
  if isDeviceIdentifier clientId && scopes = [jnReadScope] then .tokens clientId
  else .invalidScope

/-- `exchange_authorization_code`. -/
def exchangeAuthorizationCode (client : Client) (code : String) (scopes : List String) :
    Provider Time × Exchange :=
  if p.authCodes code then
    ({ p with authCodes := Function.update p.authCodes code false },
      issueTokens (client.clientId.getD "") scopes)
  else (p, .invalidGrant)

end Provider

/-! ## Interleaved requests -/

/-- The provider, the latest reading of the clock, and the submissions that wait after a
wrong secret, with the object they hold. -/
structure State (ι Time : Type) where
  provider : Provider Time
  clock : Time
  waiting : ι → Option String

/-- What happens in an interleaving. -/
inductive Event (ι Time : Type) where
  | authorized (transactionId clientId : String) (expiresAt : Time)
  | unauthorized
  | visited (transactionId : String) (response : Response Time)
  | submitted (transactionId secret : String) (expected : Option String) (now : Time)
      (result : Submission Time)
  | answered (i : ι) (response : Response Time)
  | loaded (code : String) (result : Option (AuthorizationCode Time))
  | exchanged (code : String) (result : Exchange)
  | pruned

variable {ι : Type} [DecidableEq ι] (issuer : String)

/-- The steps between two awaits. New identifiers differ from all earlier ones, and every
reading of the clock is at least as late as the one before. -/
inductive Step : State ι Time → Event ι Time → State ι Time → Prop
  | authorized {s : State ι Time} {client : Client} {params : AuthorizationParams}
      {now now' : Time} {transactionId url : String} {p : Provider Time}
      (hclock : s.clock ≤ now ∧ now ≤ now')
      (hfresh : s.provider.transactions transactionId = none)
      (hresult : s.provider.authorize issuer client params now now' transactionId =
        (p, some url)) :
      Step s (.authorized transactionId (client.clientId.getD "")
          (now' + (enrollTxnTtlSeconds : Time)))
        { s with provider := p, clock := now' }
  | unauthorized {s : State ι Time} {client : Client} {params : AuthorizationParams}
      {now now' : Time} {transactionId : String} {p : Provider Time}
      (hclock : s.clock ≤ now ∧ now ≤ now')
      (hresult : s.provider.authorize issuer client params now now' transactionId = (p, none)) :
      Step s .unauthorized { s with provider := p, clock := now' }
  | visited {s : State ι Time} {transactionId : String} {now : Time} (hclock : s.clock ≤ now) :
      Step s (.visited transactionId (s.provider.enrollGet transactionId now).2)
        { s with provider := (s.provider.enrollGet transactionId now).1, clock := now }
  | submitted {s : State ι Time} {i : ι} {transactionId secret codeValue : String}
      {now now' : Time} {expected : Option String} {client : Option Client} {p : Provider Time}
      {result : Submission Time} (hclock : s.clock ≤ now ∧ now ≤ now')
      (hidle : s.waiting i = none) (hfresh : s.provider.codes codeValue = none)
      (hresult : s.provider.enrollPost transactionId secret now expected client codeValue now' =
        (p, result)) :
      Step s (.submitted transactionId secret expected now result)
        { provider := p
          clock := now'
          waiting := Function.update s.waiting i
            (if result = .waiting then some transactionId else none) }
  | answered {s : State ι Time} {i : ι} {transactionId : String}
      {transaction : EnrollTransaction Time} (hwaiting : s.waiting i = some transactionId)
      (hobject : s.provider.transactions transactionId = some transaction) :
      Step s (.answered i (s.provider.enrollAfterWait transactionId transaction))
        { s with waiting := Function.update s.waiting i none }
  | loaded {s : State ι Time} {client : Client} {code : String} {now : Time}
      (hclock : s.clock ≤ now) :
      Step s (.loaded code (s.provider.loadAuthorizationCode client code now).2)
        { s with provider := (s.provider.loadAuthorizationCode client code now).1
                 clock := now }
  | exchanged {s : State ι Time} (client : Client) (code : String) (scopes : List String) :
      Step s (.exchanged code (s.provider.exchangeAuthorizationCode client code scopes).2)
        { s with provider := (s.provider.exchangeAuthorizationCode client code scopes).1 }
  | pruned {s : State ι Time} {now : Time} (hclock : s.clock ≤ now) :
      Step s .pruned { s with provider := s.provider.prune now, clock := now }

/-- A provider from its construction on. -/
def machine : Machine (State ι Time) (Event ι Time) where
  start s := s.provider = ⟨fun _ => none, fun _ => none, fun _ => false, fun _ => false⟩ ∧
    s.waiting = fun _ => none
  step := Step issuer

end Methods

end ContributorGateway.DeviceEnrollment
