import ContributorGateway.Collaboration.Errors
import ContributorGateway.Foundation.Json
import ContributorGateway.Foundation.PythonText
import ContributorGateway.Foundation.Requests

/-!
# The GitHub client

Sessions of the read and write clients. A safe request is tried up to three times, a
mutating one is sent once. Delays between attempts and request headers have no effect
on results and are left out. The Unicode tables behind `str.casefold` and `str.lower`
are parameters.
-/

namespace ContributorGateway

/-- `EXPECTED_REPOSITORY`. -/
def expectedRepository : String := "alexscott2718-gif/jn-engine"

/-- `MAX_ATTEMPTS`. -/
def maxAttempts : ℕ := 3

/-- A request, by the endpoint that it addresses. -/
inductive GitHubRequest where
  | branchRef (branch : String)
  | pullRef (pr : ℤ)
  | gitCommit (sha : String)
  | commit (sha : String)
  | runs (commit : String)
  | jobs (runId : String)
  | artifacts (runId : String)
  | pulls (head base : String)
  | postTree (body : Json)
  | postCommit (body : Json)
  | postRef (body : Json)
  | postPull (body : Json)

namespace GitHubRequest

/-- The HTTP method. -/
def method : GitHubRequest → String
  | postTree _ | postCommit _ | postRef _ | postPull _ => "POST"
  | _ => "GET"

/-- The path below the API root. -/
def path (request : GitHubRequest) : String :=
  "/repos/" ++ expectedRepository ++
    match request with
    | branchRef branch => "/git/ref/heads/" ++ quote branch
    | pullRef pr => "/git/ref/pull/" ++ toString pr ++ "/head"
    | gitCommit sha => "/git/commits/" ++ sha
    | commit sha => "/commits/" ++ sha
    | runs _ => "/actions/runs"
    | jobs runId => "/actions/runs/" ++ runId ++ "/jobs"
    | artifacts runId => "/actions/runs/" ++ runId ++ "/artifacts"
    | pulls _ _ => "/pulls"
    | postTree _ => "/git/trees"
    | postCommit _ => "/git/commits"
    | postRef _ => "/git/refs"
    | postPull _ => "/pulls"

/-- The query parameters. -/
def params : GitHubRequest → List (String × Json)
  | runs sha => [("head_sha", .str sha), ("per_page", .int 100)]
  | jobs _ => [("filter", .str "latest"), ("per_page", .int 100)]
  | artifacts _ => [("per_page", .int 100)]
  | pulls head base =>
      [("state", .str "open"), ("head", .str head), ("base", .str base), ("per_page", .int 10)]
  | _ => []

/-- The JSON body of a mutating request. -/
def body : GitHubRequest → Option Json
  | postTree body | postCommit body | postRef body | postPull body => some body
  | _ => none

end GitHubRequest

/-- The case mappings of Python strings. -/
structure CaseTables where
  casefold : String → String
  lower : String → String

/-- What the client reads of an HTTP response. The body is `none` when it is no JSON. -/
structure Response where
  status : ℕ
  retryAfter : Option String
  rateLimitRemaining : Option String
  text : String
  body : Option Json

/-- What becomes of a request. -/
inductive Reply where
  /-- The transport failed with a `RequestError`, before or after the request arrived. -/
  | requestError
  /-- The client raised another exception. -/
  | exception (name : String)
  /-- A response arrived. -/
  | response (r : Response)

/-- The status trail of a session, and the local variables of the tool. -/
structure Trail (L : Type) where
  statuses : List ℕ
  locals : L

/-- A computation of a tool over one session. -/
abbrev Session (L : Type) := Process GitHubRequest Reply Raised (Trail L)

/-- `self.statuses.append(response.status_code)`. -/
def Trail.record {L : Type} (trail : Trail L) : Reply → Trail L
  | .response r => { trail with statuses := trail.statuses ++ [r.status] }
  | _ => trail

/-- The outcome of loading the token file. -/
inductive LoadedToken where
  | token (text : String)
  /-- An `OSError` or a `ValueError`. -/
  | unreadable
  /-- Another exception. -/
  | exception (name : String)

/-- `GitHubReadClient.begin` and `GitHubWriteClient.begin`. -/
def beginSession : LoadedToken → Except Raised Unit
  | .token text =>
      if text.isEmpty then .error (.collaboration credentialUnavailable) else .ok ()
  | .unreadable => .error (.collaboration credentialUnavailable)
  | .exception name => .error (.exception name)

/-- `response.json()` with the check of the type of the body. -/
def jsonBody (accepts : Json → Bool) (r : Response) : Except Raised Json :=
  match r.body with
  | some v => if accepts v then .ok v else .error (.collaboration upstreamUnavailable)
  | none => .error (.collaboration upstreamUnavailable)

/-- `isinstance(value, dict)`. -/
def isDict : Json → Bool
  | .obj _ => true
  | _ => false

/-- `isinstance(value, list)`. -/
def isList : Json → Bool
  | .arr _ => true
  | _ => false

section Client

variable (tables : CaseTables)

/-- `_rate_limited`. -/
def rateLimited (r : Response) : Bool :=
  if r.status = 429 then true
  else if r.status ≠ 403 then false
  else
    let message := tables.casefold r.text
    r.retryAfter.isSome || r.rateLimitRemaining == some "0" ||
      contains message "secondary rate limit" || contains message "rate limit exceeded"

/-- What one attempt of a safe request yields, or `none` to try again. -/
def attemptResult (accepts : Json → Bool) (notFoundIsCredential : Bool) :
    Reply → Option (Except Raised Json)
  | .requestError => none
  | .exception name => some (.error (.exception name))
  | .response r =>
      if 200 ≤ r.status ∧ r.status < 300 then some (jsonBody accepts r)
      else if r.status = 401 then some (.error (.collaboration credentialUnavailable))
      else if r.status = 404 then
        some (.error (.collaboration
          (if notFoundIsCredential then credentialUnavailable else notFound)))
      else if 500 ≤ r.status ∨ rateLimited tables r then none
      else if r.status = 403 then some (.error (.collaboration credentialUnavailable))
      else some (.error (.collaboration upstreamUnavailable))

/-- The loop over the attempts that are left. After the last one the service counts as
unavailable. -/
def getAttempts {L : Type} (accepts : Json → Bool) (notFoundIsCredential : Bool)
    (request : GitHubRequest) : ℕ → Session L Json
  | 0 => .raise (.collaboration upstreamUnavailable)
  | attempts + 1 => do
      let reply ← .ask request
      .assign fun trail => trail.record reply
      match attemptResult tables accepts notFoundIsCredential reply with
      | some result => .lift result
      | none => getAttempts accepts notFoundIsCredential request attempts

/-- `GitHubReadSession.get`. -/
def get {L : Type} (request : GitHubRequest) (notFoundIsCredential : Bool := false) :
    Session L Json :=
  getAttempts tables isDict notFoundIsCredential request maxAttempts

/-- `GitHubWriteSession.get_list`. -/
def getList {L : Type} (request : GitHubRequest) : Session L Json :=
  getAttempts tables isList false request maxAttempts

end Client

/-- The result of a mutating request. -/
def sendResult (handled : List ℕ) : Reply → Except Raised (ℕ × Json)
  | .requestError => .error (.collaboration upstreamUnavailable)
  | .exception name => .error (.exception name)
  | .response r =>
      if 200 ≤ r.status ∧ r.status < 300 ∨ r.status ∈ handled then
        (jsonBody isDict r).map fun v => (r.status, v)
      else if r.status = 401 ∨ r.status = 403 then
        .error (.collaboration credentialUnavailable)
      else if r.status = 404 then .error (.collaboration notFound)
      else .error (.collaboration upstreamUnavailable)

/-- `GitHubWriteSession.send`. -/
def send {L : Type} (request : GitHubRequest) (handled : List ℕ := []) :
    Session L (ℕ × Json) := do
  let reply ← .ask request
  .assign fun trail => trail.record reply
  .lift (sendResult handled reply)

/-! ## Payloads -/

/-- `_require_dict`. -/
def requireDict : Option Json → Except Raised Json
  | some (.obj members) => .ok (.obj members)
  | _ => .error (.collaboration upstreamUnavailable)

/-- `_require_list`. -/
def requireList : Option Json → Except Raised (List Json)
  | some (.arr items) => .ok items
  | _ => .error (.collaboration upstreamUnavailable)

/-- `_require_string`. -/
def requireString : Option Json → Except Raised String
  | some (.str s) => if s.isEmpty then .error (.collaboration upstreamUnavailable) else .ok s
  | _ => .error (.collaboration upstreamUnavailable)

/-- `_require_int`. -/
def requireInt : Option Json → Except Raised ℤ
  | some (.int n) => if n < 1 then .error (.collaboration upstreamUnavailable) else .ok n
  | _ => .error (.collaboration upstreamUnavailable)

/-! ## Rules -/

section Rules

variable {tables : CaseTables} {accepts : Json → Bool} {notFoundIsCredential : Bool}
  {x : Reply}

/-- The body of a response that counts. -/
theorem jsonBody_eq_ok {r : Response} {v : Json} (h : jsonBody accepts r = .ok v) :
    r.body = some v ∧ accepts v = true := by
  unfold jsonBody at h
  split at h
  · split_ifs at h with haccepts
    cases h
    exact ⟨‹_›, haccepts⟩
  · cases h

/-- An attempt yields a value only from a successful response with an accepted body. -/
theorem attemptResult_eq_ok {v : Json}
    (h : attemptResult tables accepts notFoundIsCredential x = some (.ok v)) :
    ∃ r, x = .response r ∧ 200 ≤ r.status ∧ r.status < 300 ∧ r.body = some v ∧
      accepts v = true := by
  unfold attemptResult at h
  split at h
  · cases h
  · cases h
  · rename_i r
    split_ifs at h with hsuccess
    · rw [Option.some.injEq] at h
      obtain ⟨hbody, haccepts⟩ := jsonBody_eq_ok h
      exact ⟨r, rfl, hsuccess.1, hsuccess.2, hbody, haccepts⟩
    all_goals cases h

/-- A mutating request yields a value only from a successful or a handled response with
an object as its body. -/
theorem sendResult_eq_ok {handled : List ℕ} {status : ℕ} {v : Json}
    (h : sendResult handled x = .ok (status, v)) :
    ∃ r, x = .response r ∧ r.status = status ∧
      (200 ≤ status ∧ status < 300 ∨ status ∈ handled) ∧ r.body = some v := by
  unfold sendResult at h
  split at h
  · cases h
  · cases h
  · rename_i r
    split_ifs at h with hsuccess
    cases hbody : jsonBody isDict r with
    | error e =>
      rw [hbody] at h
      cases h
    | ok v' =>
      rw [hbody] at h
      cases h
      exact ⟨r, rfl, rfl, hsuccess, (jsonBody_eq_ok hbody).1⟩

/-- A required object is the member itself. -/
theorem requireDict_eq_ok {value v : Json} (h : requireDict (some value) = .ok v) : value = v := by
  unfold requireDict at h
  split at h
  · rename_i heq
    rw [Option.some.inj heq]
    exact Except.ok.inj h
  · cases h

variable {σ ι L : Type} {W : World GitHubRequest Reply σ ι} {i : ι} {request : GitHubRequest}
  {trail : Trail L} {s : σ}

@[simp] theorem Trail.locals_record (trail : Trail L) (x : Reply) :
    (trail.record x).locals = trail.locals := by
  cases x <;> rfl

/-- The rule of safe requests: what every attempt keeps holds afterwards, with what a
successful or a 404 response tells. -/
theorem wp_getAttempts {J N : σ → Prop} {P : Json → σ → Prop} (hJ : W.Stable J)
    (hP : ∀ v, W.Stable (P v)) (hN : W.Stable N)
    (hanswer : ∀ s s' x, J s → W.good s → W.answers i s request s' x → W.good s' ∧ J s' ∧
      (∀ v, attemptResult tables accepts notFoundIsCredential x = some (.ok v) → P v s') ∧
      (attemptResult tables accepts notFoundIsCredential x =
        some (.error (.collaboration notFound)) → N s'))
    (hs : J s) (attempts : ℕ) :
    (getAttempts tables accepts notFoundIsCredential request attempts).wp W i
      (fun r trail' s' => trail'.locals = trail.locals ∧ J s' ∧
        match r with
        | .ok v => P v s'
        | .error e => e = .collaboration notFound → N s') trail s := by
  induction attempts generalizing trail s with
  | zero =>
    refine Process.wp_raise.mpr fun s' hs' hgood => ⟨rfl, hJ s s' hs hs' hgood, fun h => ?_⟩
    exact absurd h (by decide)
  | succ attempts ih =>
    refine Process.wp_bind (Process.wp_ask fun s₁ hs₁ hgood₁ s₂ x hx => ?_)
    obtain ⟨hgood₂, hJ₂, hvalue, hmissing⟩ := hanswer s₁ s₂ x (hJ s s₁ hs hs₁ hgood₁) hgood₁ hx
    refine ⟨hgood₂, fun s₃ hs₃ hgood₃ => Process.wp_bind ?_⟩
    refine Process.wp_assign.mpr fun s₄ hs₄ hgood₄ => ?_
    have hevolves := W.evolves_trans hs₃ hs₄
    have hJ₄ := hJ s₂ s₄ hJ₂ hevolves hgood₄
    cases hresult : attemptResult tables accepts notFoundIsCredential x with
    | none =>
      have hrest := @ih (trail.record x) _ hJ₄
      rw [Trail.locals_record] at hrest
      exact hrest
    | some result =>
      refine Process.wp_lift.mpr fun s₅ hs₅ hgood₅ => ?_
      have hevolves' := W.evolves_trans hevolves hs₅
      refine ⟨Trail.locals_record .., hJ s₂ s₅ hJ₂ hevolves' hgood₅, ?_⟩
      cases result with
      | ok v => exact hP v s₂ s₅ (hvalue v hresult) hevolves' hgood₅
      | error e =>
        rintro rfl
        exact hN s₂ s₅ (hmissing hresult) hevolves' hgood₅

/-- The rule of mutating requests: what the one request tells holds afterwards. -/
theorem wp_send {handled : List ℕ} {E : σ → Prop} {P : ℕ → Json → σ → Prop}
    (hE : W.Stable E) (hP : ∀ status v, W.Stable (P status v))
    (hanswer : W.Later (fun s₁ => ∀ s₂ x, W.answers i s₁ request s₂ x → W.good s₂ ∧ E s₂ ∧
      ∀ status v, sendResult handled x = .ok (status, v) → P status v s₂) s) :
    (send request handled).wp W i
      (fun r trail' s' => trail'.locals = trail.locals ∧
        match r with
        | .ok (status, v) => P status v s'
        | .error _ => E s') trail s := by
  refine Process.wp_bind (Process.wp_ask fun s₁ hs₁ hgood₁ s₂ x hx => ?_)
  obtain ⟨hgood₂, hE₂, hvalue⟩ := hanswer s₁ hs₁ hgood₁ s₂ x hx
  refine ⟨hgood₂, fun s₃ hs₃ hgood₃ => Process.wp_bind ?_⟩
  refine Process.wp_assign.mpr fun s₄ hs₄ hgood₄ => ?_
  refine Process.wp_lift.mpr fun s₅ hs₅ hgood₅ => ?_
  have hevolves := W.evolves_trans (W.evolves_trans hs₃ hs₄) hs₅
  refine ⟨Trail.locals_record .., ?_⟩
  cases hresult : sendResult handled x with
  | ok value => exact hP _ _ s₂ s₅ (hvalue _ _ hresult) hevolves hgood₅
  | error e => exact hE s₂ s₅ hE₂ hevolves hgood₅

end Rules

end ContributorGateway
