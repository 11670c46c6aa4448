import ContributorGateway.Collaboration.GitHub

/-!
# What the requests of a call read and wrote

The trace of a call lists its requests with what became of them. It is summarized by
the payloads that safe requests read and by the mutating requests, and the rules below
say how each step of a session extends the two.
-/

namespace ContributorGateway

/-- The requests of a call with what became of them. -/
abbrev RequestTrace := List (GitHubRequest × Reply)

/-- The bodies that count as an answer to a safe request. -/
def GitHubRequest.accepts : GitHubRequest → Json → Bool
  | .pulls _ _ => isList
  | _ => isDict

/-- The accepted body of a successful response. -/
def received (accepts : Json → Bool) : Reply → Option Json
  | .response r => if 200 ≤ r.status ∧ r.status < 300 then r.body.filter accepts else none
  | _ => none

/-- The payload that an entry of a trace reads. -/
def readPayload (entry : GitHubRequest × Reply) : Option (GitHubRequest × Json) :=
  if entry.1.method = "GET" then (received entry.1.accepts entry.2).map (Prod.mk entry.1)
  else none

/-- The payloads that a call read, with the requests for them. -/
def reads (trace : RequestTrace) : List (GitHubRequest × Json) := trace.filterMap readPayload

/-- The mutating requests of a call, with what became of them. -/
def writes (trace : RequestTrace) : RequestTrace :=
  trace.filter fun entry => entry.1.method = "POST"

/-- The method and the path of a request. -/
def GitHubRequest.endpoint (request : GitHubRequest) : String × String :=
  (request.method, request.path)

variable {s t : RequestTrace} {request : GitHubRequest} {x : Reply}

@[simp] theorem reads_nil : reads [] = [] := rfl

@[simp] theorem writes_nil : writes [] = [] := rfl

@[simp] theorem reads_append : reads (s ++ t) = reads s ++ reads t := List.filterMap_append

@[simp] theorem writes_append : writes (s ++ t) = writes s ++ writes t := List.filter_append ..

/-- A mutating request of a trace is among its writes. -/
theorem mem_writes {entry : GitHubRequest × Reply} (hmem : entry ∈ s)
    (hpost : entry.1.method = "POST") : entry ∈ writes s :=
  List.mem_filter.mpr ⟨hmem, by rw [hpost]; rfl⟩

/-- A safe request writes nothing. -/
theorem writes_safe (hget : request.method = "GET") : writes [(request, x)] = [] := by
  simp [writes, hget]

/-- A mutating request is one write. -/
theorem writes_mutating (hpost : request.method = "POST") :
    writes [(request, x)] = [(request, x)] := by
  simp [writes, hpost]

/-- A mutating request reads nothing. -/
theorem reads_mutating (hpost : request.method = "POST") : reads [(request, x)] = [] := by
  simp [reads, readPayload, hpost]

/-- A safe request reads what it received. -/
theorem reads_safe (hget : request.method = "GET") :
    reads [(request, x)] = ((received request.accepts x).map (Prod.mk request)).toList := by
  cases h : received request.accepts x <;> simp [reads, readPayload, hget, h]

/-- An attempt yields exactly the value that it received. -/
theorem attemptResult_eq_ok_iff {tables : CaseTables} {accepts : Json → Bool}
    {notFoundIsCredential : Bool} {v : Json} :
    attemptResult tables accepts notFoundIsCredential x = some (.ok v) ↔
      received accepts x = some v := by
  constructor
  · intro h
    obtain ⟨r, rfl, hlow, hhigh, hbody, haccepts⟩ := attemptResult_eq_ok h
    rw [received, if_pos ⟨hlow, hhigh⟩, hbody, Option.filter, haccepts, if_pos rfl]
  · intro h
    unfold received at h
    split at h
    · rename_i r
      split_ifs at h with hsuccess
      rw [Option.filter_eq_some_iff] at h
      rw [attemptResult, if_pos hsuccess, jsonBody, h.1]
      simp only [h.2, if_true]
    · cases h

/-- An attempt that yields no value received none. -/
theorem received_eq_none {tables : CaseTables} {accepts : Json → Bool}
    {notFoundIsCredential : Bool}
    (h : ∀ v, attemptResult tables accepts notFoundIsCredential x ≠ some (.ok v)) :
    received accepts x = none := by
  rw [Option.eq_none_iff_forall_ne_some]
  intro v hv
  exact h v (attemptResult_eq_ok_iff.mpr hv)

/-! ## Rules -/

section Rules

variable {L : Type} {tables : CaseTables} {notFoundIsCredential : Bool} {trail : Trail L}

/-- The payloads that a safe request adds to those read before. -/
def payloadOf (request : GitHubRequest) : Except Raised Json → List (GitHubRequest × Json)
  | .ok v => [(request, v)]
  | .error _ => []

/-- The rule of safe requests: the payload is read if it is the value, and nothing is
written. -/
theorem wp_getAttempts_trace (tables : CaseTables) (notFoundIsCredential : Bool)
    (trail : Trail L) (s : RequestTrace) (hget : request.method = "GET") (attempts : ℕ) :
    (getAttempts tables request.accepts notFoundIsCredential request attempts).wp
      World.history () (fun r _ s' =>
        reads s' = reads s ++ payloadOf request r ∧ writes s' = writes s) trail s := by
  induction attempts generalizing trail s with
  | zero =>
    refine Process.wp_raise.mpr (World.later_history.mpr ⟨?_, rfl⟩)
    rw [payloadOf, List.append_nil]
  | succ attempts ih =>
    refine Process.wp_bind (Process.wp_ask (World.later_history.mpr fun s₂ x hx => ?_))
    refine ⟨trivial, World.later_history.mpr (Process.wp_bind ?_)⟩
    refine Process.wp_assign.mpr (World.later_history.mpr ?_)
    obtain rfl : s₂ = s ++ [(request, x)] := hx
    have hwrites : writes (s ++ [(request, x)]) = writes s := by
      rw [writes_append, writes_safe hget, List.append_nil]
    have hreads : reads (s ++ [(request, x)]) =
        reads s ++ ((received request.accepts x).map (Prod.mk request)).toList := by
      rw [reads_append, reads_safe hget]
    cases hresult : attemptResult tables request.accepts notFoundIsCredential x with
    | none =>
      have hnone : received request.accepts x = none :=
        received_eq_none fun v hv => by
          rw [hresult] at hv
          cases hv
      rw [hnone, Option.map_none, Option.toList_none, List.append_nil] at hreads
      refine Process.wp_mono (@ih (trail.record x) _) ?_
      rintro r trail' s' - ⟨hreads', hwrites'⟩
      exact ⟨by rw [hreads', hreads], by rw [hwrites', hwrites]⟩
    | some result =>
      refine Process.wp_lift.mpr (World.later_history.mpr ⟨?_, hwrites⟩)
      rw [hreads]
      cases result with
      | ok v =>
        rw [attemptResult_eq_ok_iff.mp hresult]
        rfl
      | error e =>
        have hnone : received request.accepts x = none :=
          received_eq_none fun v hv => by
            rw [hresult] at hv
            cases hv
        rw [hnone]
        rfl

/-- The rule of a safe request before what follows: its payload is read. -/
theorem wp_get_bind_trace {α : Type} {credential : Bool} {f : Json → Session L α}
    {Q : Except Raised α → Trail L → RequestTrace → Prop} (hget : request.method = "GET")
    (haccepts : request.accepts = isDict)
    (herror : ∀ e trail' s', Q (.error e) trail' s')
    (hok : ∀ v trail' s', reads s' = reads s ++ [(request, v)] →
      (f v).wp World.history () Q trail' s') :
    (get tables request credential >>= f).wp World.history () Q trail s := by
  refine Process.wp_bind (Process.wp_mono (?_ : Process.wp _ _ _ (fun r _ s' =>
    reads s' = reads s ++ payloadOf request r ∧ writes s' = writes s) _ _) ?_)
  · have hrule := wp_getAttempts_trace tables credential trail s hget maxAttempts
    rwa [haccepts] at hrule
  · rintro (e | v) trail' s' - ⟨hreads, -⟩
    · exact World.later_history.mpr (herror e trail' s')
    · exact hok v trail' s' hreads

/-- The rule of mutating requests: exactly one is sent, and its reply decides. -/
theorem wp_send_bind_trace {α : Type} {handled : List ℕ} {f : ℕ × Json → Session L α}
    {Q : Except Raised α → Trail L → RequestTrace → Prop}
    (h : ∀ x trail', match sendResult handled x with
      | .ok v => (f v).wp World.history () Q trail' (s ++ [(request, x)])
      | .error e => Q (.error e) trail' (s ++ [(request, x)])) :
    (send request handled >>= f).wp World.history () Q trail s := by
  refine Process.wp_bind (Process.wp_bind (Process.wp_ask ?_))
  rw [World.later_history]
  intro s₂ x hx
  refine ⟨trivial, World.later_history.mpr (Process.wp_bind ?_)⟩
  refine Process.wp_assign.mpr (World.later_history.mpr ?_)
  refine Process.wp_lift.mpr (World.later_history.mpr ?_)
  obtain rfl : s₂ = s ++ [(request, x)] := hx
  have hnext := h x (trail.record x)
  cases hresult : sendResult handled x with
  | error e =>
    rw [hresult] at hnext
    exact World.later_history.mpr hnext
  | ok v =>
    rw [hresult] at hnext
    exact hnext

/-- The rule of checks between requests. -/
theorem wp_lift_bind_trace {α β : Type} {x : Except Raised α} {f : α → Session L β}
    {Q : Except Raised β → Trail L → RequestTrace → Prop}
    (herror : ∀ e, x = .error e → Q (.error e) trail s)
    (hok : ∀ a, x = .ok a → (f a).wp World.history () Q trail s) :
    (Process.lift x >>= f).wp World.history () Q trail s :=
  Process.wp_lift_bind (fun e he => World.later_history.mpr (herror e he)) hok

end Rules

end ContributorGateway
