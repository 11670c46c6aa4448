import ContributorGateway.Collaboration.RequestTrace
import ContributorGateway.Core.OpenPr

/-!
# GitHub as a store for one branch

The part of GitHub that the calls of `open_pr` for one branch read and write: master,
the branch, the commits that calls created and the open pull request. A request can be
lost before it is applied, or its reply can be lost afterwards. Creating an existing
ref is refused, and so is a second pull request; nobody else moves the branch or closes
the pull request.
-/

namespace ContributorGateway.OpenPr

/-- A commit that a call created. -/
structure StoredCommit where
  message : String
  parent : String

/-- What GitHub stores about the branch. The creator is the party that created it. -/
structure Store (ι : Type) where
  master : String
  head : Option String
  creator : Option ι
  commits : String → Option StoredCommit
  pull : Option (ℤ × String)

/-- The request was lost, or GitHub failed. -/
def Failed (x : Reply) : Prop :=
  x = .requestError ∨ (∃ name, x = .exception name) ∨
    ∃ r, x = .response r ∧ ¬ (200 ≤ r.status ∧ r.status < 300) ∧ r.status ≠ 404 ∧ r.status ≠ 422

/-- GitHub delivered a body. -/
def Delivers (x : Reply) (payload : Json) : Prop :=
  ∃ r, x = .response r ∧ 200 ≤ r.status ∧ r.status < 300 ∧ r.body = some payload

/-- GitHub answered with a status. -/
def HasStatus (x : Reply) (status : ℕ) : Prop := ∃ r, x = .response r ∧ r.status = status

/-- The requests that read something else than the store. -/
def Elsewhere {ι : Type} (branch : String) (s : Store ι) : GitHubRequest → Prop
  | .branchRef ref => ref ≠ branch ∧ ref ≠ protectedBaseBranch
  | .gitCommit sha => s.commits sha = none
  | .pulls head base => ¬ (head = repositoryOwner ++ ":" ++ branch ∧ base = protectedBaseBranch)
  | .postTree _ => True
  | .postCommit _ | .postRef _ | .postPull _ => False
  | _ => True

section Answer

variable {ι : Type} (tables : CaseTables) (branch : String) (i : ι)

/-- How a request of a party is applied and answered. -/
inductive Answer : Store ι → GitHubRequest → Store ι → Reply → Prop
  /-- The request never arrived, or it was refused without effect. -/
  | lost {s request x} (hfailed : Failed x) : Answer s request s x
  /-- The request is about something else, and anything may be answered. -/
  | elsewhere {s request x} (helsewhere : Elsewhere branch s request) : Answer s request s x
  | masterRead {s x payload} (hdelivers : Delivers x payload)
      (hsha : refCommit tables payload = .ok s.master) :
      Answer s (.branchRef protectedBaseBranch) s x
  | refRead {s x payload sha} (hhead : s.head = some sha) (hdelivers : Delivers x payload)
      (hsha : refCommit tables payload = .ok sha) : Answer s (.branchRef branch) s x
  | refMissing {s x} (hhead : s.head = none) (hstatus : HasStatus x 404) :
      Answer s (.branchRef branch) s x
  | commitRead {s x payload sha commit} (hcommit : s.commits sha = some commit)
      (hdelivers : Delivers x payload) (hmessage : commitText payload = .ok commit.message) :
      Answer s (.gitCommit sha) s x
  /-- A commit with the same content is the same commit. -/
  | commitCreated {s x message tree parent sha raw payload}
      (hfresh : ∀ commit, s.commits sha = some commit → commit = ⟨message, parent⟩)
      (hname : sha = tables.lower raw)
      (hreply : Failed x ∨ Delivers x payload ∧ requireString (payload.get "sha") = .ok raw) :
      Answer s (.postCommit (commitBody message tree parent))
        { s with commits := Function.update s.commits sha (some ⟨message, parent⟩) } x
  | refCreated {s x sha payload} (hhead : s.head = none)
      (hreply : Failed x ∨ Delivers x payload) :
      Answer s (.postRef (refBody ("refs/heads/" ++ branch) sha))
        { s with head := some sha, creator := some i } x
  | refExists {s x sha} (hhead : s.head ≠ none) (hstatus : HasStatus x 422) :
      Answer s (.postRef (refBody ("refs/heads/" ++ branch) sha)) s x
  | pullCreated {s x title text number url payload} (hpull : s.pull = none)
      (hreply : Failed x ∨ Delivers x payload ∧ requireInt (payload.get "number") = .ok number ∧
        requireString (payload.get "html_url") = .ok url) :
      Answer s (.postPull (pullBody title text branch)) { s with pull := some (number, url) } x
  | pullExists {s x title text} (hpull : s.pull ≠ none) (hstatus : HasStatus x 422) :
      Answer s (.postPull (pullBody title text branch)) s x
  | pullListed {s x item rest number url} (hpull : s.pull = some (number, url))
      (hdelivers : Delivers x (.arr (item :: rest)))
      (hnumber : requireInt (item.get "number") = .ok number)
      (hurl : requireString (item.get "html_url") = .ok url) :
      Answer s (.pulls (repositoryOwner ++ ":" ++ branch) protectedBaseBranch) s x
  | noneListed {s x} (hpull : s.pull = none) (hdelivers : Delivers x (.arr [])) :
      Answer s (.pulls (repositoryOwner ++ ":" ++ branch) protectedBaseBranch) s x

end Answer

/-! ## What the client makes of a reply -/

section Replies

variable {tables : CaseTables} {accepts : Json → Bool} {handled : List ℕ} {x : Reply}
  {payload v : Json} {status : ℕ}

/-- A delivered body is the one that is received. -/
theorem Delivers.received_eq (h : Delivers x payload) (hv : received accepts x = some v) :
    v = payload := by
  obtain ⟨r, rfl, hlow, hhigh, hbody⟩ := h
  rw [received, if_pos ⟨hlow, hhigh⟩, hbody, Option.filter_eq_some_iff] at hv
  exact (Option.some.inj hv.1).symm

/-- Without success nothing is received. -/
theorem received_of_status (hstatus : HasStatus x status)
    (hfailed : ¬ (200 ≤ status ∧ status < 300)) : received accepts x = none := by
  obtain ⟨r, rfl, rfl⟩ := hstatus
  rw [received, if_neg hfailed]

/-- A failure delivers nothing. -/
theorem Failed.received_eq (h : Failed x) : received accepts x = none := by
  rcases h with rfl | ⟨name, rfl⟩ | ⟨r, rfl, hfailed, -, -⟩
  · rfl
  · rfl
  · rw [received, if_neg hfailed]

/-- A mutating request that delivers a body yields that body. -/
theorem Delivers.sendResult_eq (h : Delivers x payload)
    (hsend : sendResult handled x = .ok (status, v)) :
    v = payload ∧ 200 ≤ status ∧ status < 300 := by
  obtain ⟨r, rfl, hlow, hhigh, hbody⟩ := h
  obtain ⟨r', hr, rfl, -, hbody'⟩ := sendResult_eq_ok hsend
  cases hr
  rw [hbody, Option.some.injEq] at hbody'
  exact ⟨hbody'.symm, hlow, hhigh⟩

/-- A refused mutating request yields a value only for a handled status. -/
theorem HasStatus.sendResult_eq (hstatus : HasStatus x status)
    (hfailed : ¬ (200 ≤ status ∧ status < 300)) {status' : ℕ}
    (hsend : sendResult handled x = .ok (status', v)) : status' = status ∧ status ∈ handled := by
  obtain ⟨r, rfl, rfl⟩ := hstatus
  obtain ⟨r', hr, rfl, hhandled, -⟩ := sendResult_eq_ok hsend
  cases hr
  exact ⟨rfl, hhandled.resolve_left hfailed⟩

/-- A failed mutating request yields no value, when 422 at most is handled. -/
theorem Failed.sendResult_ne (h : Failed x) (hhandled : handled ⊆ [422]) :
    sendResult handled x ≠ .ok (status, v) := by
  intro hsend
  obtain ⟨r', rfl, rfl, hok, -⟩ := sendResult_eq_ok hsend
  rcases h with h | ⟨name, h⟩ | ⟨r, h, hfailed, -, hother⟩
  · cases h
  · cases h
  · cases h
    rcases hok with hok | hok
    · exact hfailed hok
    · exact hother (List.mem_singleton.mp (hhandled hok))

end Replies

/-! ## What a request does to the store -/

/-- Storing a commit under a name that is free, or names the same commit, keeps every
commit. -/
theorem commits_update {commits : String → Option StoredCommit} {sha sha' : String}
    {new commit : StoredCommit} (hfresh : ∀ c, commits sha = some c → c = new)
    (hcommit : commits sha' = some commit) :
    Function.update commits sha (some new) sha' = some commit := by
  by_cases hsha : sha' = sha
  · subst hsha
    rw [Function.update_self, hfresh commit hcommit]
  · rw [Function.update_of_ne hsha, hcommit]

section Requests

variable {ι : Type} {tables : CaseTables} {branch : String} {i : ι} {s s' : Store ι} {x : Reply}

/-- Reading master. -/
theorem Answer.masterRead_spec (hbranch : branch ≠ protectedBaseBranch)
    (h : Answer tables branch i s (.branchRef protectedBaseBranch) s' x) :
    s' = s ∧ ∀ v, received isDict x = some v → refCommit tables v = .ok s.master := by
  generalize hrequest : GitHubRequest.branchRef protectedBaseBranch = request at h
  cases h with
  | lost hfailed =>
    refine ⟨rfl, fun v hv => ?_⟩
    rw [hfailed.received_eq] at hv
    cases hv
  | elsewhere helsewhere =>
    subst hrequest
    exact absurd rfl helsewhere.2
  | masterRead hdelivers hsha =>
    refine ⟨rfl, fun v hv => ?_⟩
    rw [hdelivers.received_eq hv]
    exact hsha
  | refRead => exact absurd (GitHubRequest.branchRef.inj hrequest).symm hbranch
  | refMissing => exact absurd (GitHubRequest.branchRef.inj hrequest).symm hbranch
  | _ => cases hrequest

/-- Reading the branch. -/
theorem Answer.refRead_spec (hbranch : branch ≠ protectedBaseBranch)
    (h : Answer tables branch i s (.branchRef branch) s' x) :
    s' = s ∧ ∀ v, received isDict x = some v →
      ∃ sha, s.head = some sha ∧ refCommit tables v = .ok sha := by
  generalize hrequest : GitHubRequest.branchRef branch = request at h
  cases h with
  | lost hfailed =>
    refine ⟨rfl, fun v hv => ?_⟩
    rw [hfailed.received_eq] at hv
    cases hv
  | elsewhere helsewhere =>
    subst hrequest
    exact absurd rfl helsewhere.1
  | masterRead => exact absurd (GitHubRequest.branchRef.inj hrequest) hbranch
  | refRead hhead hdelivers hsha =>
    refine ⟨rfl, fun v hv => ⟨_, hhead, ?_⟩⟩
    rw [hdelivers.received_eq hv]
    exact hsha
  | refMissing hhead hstatus =>
    refine ⟨rfl, fun v hv => ?_⟩
    rw [received_of_status hstatus (by decide)] at hv
    cases hv
  | _ => cases hrequest

/-- Reading a commit. -/
theorem Answer.commitRead_spec {sha : String} (h : Answer tables branch i s (.gitCommit sha) s' x) :
    s' = s ∧ ∀ commit, s.commits sha = some commit → ∀ v, received isDict x = some v →
      commitText v = .ok commit.message := by
  generalize hrequest : GitHubRequest.gitCommit sha = request at h
  cases h with
  | lost hfailed =>
    refine ⟨rfl, fun commit _ v hv => ?_⟩
    rw [hfailed.received_eq] at hv
    cases hv
  | elsewhere helsewhere =>
    subst hrequest
    refine ⟨rfl, fun commit hcommit => ?_⟩
    rw [Elsewhere, hcommit] at helsewhere
    cases helsewhere
  | commitRead hcommit hdelivers hmessage =>
    cases hrequest
    refine ⟨rfl, fun commit hcommit' v hv => ?_⟩
    rw [hdelivers.received_eq hv, hmessage]
    rw [hcommit, Option.some.injEq] at hcommit'
    rw [hcommit']
  | _ => cases hrequest

/-- Writing a tree. -/
theorem Answer.treeCreated_spec {content : Json}
    (h : Answer tables branch i s (.postTree content) s' x) : s' = s := by
  generalize hrequest : GitHubRequest.postTree content = request at h
  cases h with
  | lost => rfl
  | elsewhere => rfl
  | _ => cases hrequest

/-- Writing a commit: if the client learns its name, it is stored under that name. -/
theorem Answer.commitCreated_spec {message tree parent : String}
    (h : Answer tables branch i s (.postCommit (commitBody message tree parent)) s' x) :
    s'.master = s.master ∧ s'.head = s.head ∧ s'.creator = s.creator ∧ s'.pull = s.pull ∧
      (∀ sha commit, s.commits sha = some commit → s'.commits sha = some commit) ∧
      ∀ status v raw, sendResult [] x = .ok (status, v) →
        requireString (v.get "sha") = .ok raw →
        s'.commits (tables.lower raw) = some ⟨message, parent⟩ := by
  generalize hrequest : GitHubRequest.postCommit (commitBody message tree parent) = request at h
  cases h with
  | lost hfailed =>
    refine ⟨rfl, rfl, rfl, rfl, fun _ _ h => h, fun status v raw hsend => ?_⟩
    exact absurd hsend (hfailed.sendResult_ne (List.nil_subset _))
  | elsewhere helsewhere =>
    subst hrequest
    cases helsewhere
  | commitCreated hfresh hname hreply =>
    simp only [commitBody, GitHubRequest.postCommit.injEq, Json.obj.injEq, List.cons.injEq,
      Prod.mk.injEq, Json.str.injEq, Json.arr.injEq, true_and, and_true] at hrequest
    obtain ⟨rfl, -, rfl⟩ := hrequest
    refine ⟨rfl, rfl, rfl, rfl, fun _ _ hcommit => commits_update hfresh hcommit,
      fun status v raw' hsend hraw => ?_⟩
    rcases hreply with hfailed | ⟨hdelivers, hraw''⟩
    · exact absurd hsend (hfailed.sendResult_ne (List.nil_subset _))
    · rw [(hdelivers.sendResult_eq hsend).1, hraw''] at hraw
      cases hraw
      subst hname
      exact Function.update_self ..
  | _ => cases hrequest

/-- Writing the ref: it creates the branch, or the client learns that it failed. -/
theorem Answer.refCreated_spec {sha : String}
    (h : Answer tables branch i s (.postRef (refBody ("refs/heads/" ++ branch) sha)) s' x) :
    s.head = none ∧ s' = { s with head := some sha, creator := some i } ∨
      s' = s ∧ ∀ status v, sendResult [] x ≠ .ok (status, v) := by
  generalize hrequest : GitHubRequest.postRef (refBody ("refs/heads/" ++ branch) sha) = request
    at h
  cases h with
  | lost hfailed =>
    exact Or.inr ⟨rfl, fun status v => hfailed.sendResult_ne (List.nil_subset _)⟩
  | elsewhere helsewhere =>
    subst hrequest
    cases helsewhere
  | refCreated hhead =>
    simp only [refBody, GitHubRequest.postRef.injEq, Json.obj.injEq, List.cons.injEq,
      Prod.mk.injEq, Json.str.injEq, true_and, and_true] at hrequest
    exact Or.inl ⟨hhead, by rw [hrequest]⟩
  | refExists hhead hstatus =>
    refine Or.inr ⟨rfl, fun status v hsend => ?_⟩
    exact absurd (hstatus.sendResult_eq (by decide) hsend).2 List.not_mem_nil
  | _ => cases hrequest

/-- Writing the pull request: afterwards it is the open one, and what the client learns of
it is true. -/
theorem Answer.pullCreated_spec {title text : String}
    (h : Answer tables branch i s (.postPull (pullBody title text branch)) s' x) :
    s'.master = s.master ∧ s'.head = s.head ∧ s'.creator = s.creator ∧ s'.commits = s.commits ∧
      (∀ pull, s.pull = some pull → s'.pull = some pull) ∧
      ∀ status v, sendResult [422] x = .ok (status, v) →
        if status = 422 then s'.pull ≠ none
        else ∀ number url, requireInt (v.get "number") = .ok number →
          requireString (v.get "html_url") = .ok url → s'.pull = some (number, url) := by
  generalize hrequest : GitHubRequest.postPull (pullBody title text branch) = request at h
  cases h with
  | lost hfailed =>
    refine ⟨rfl, rfl, rfl, rfl, fun _ h => h, fun status v hsend => ?_⟩
    exact absurd hsend (hfailed.sendResult_ne (List.Subset.refl _))
  | elsewhere helsewhere =>
    subst hrequest
    cases helsewhere
  | pullCreated hpull hreply =>
    refine ⟨rfl, rfl, rfl, rfl, fun _ h => ?_, fun status v hsend => ?_⟩
    · rw [hpull] at h
      cases h
    · rcases hreply with hfailed | ⟨hdelivers, hnumber, hurl⟩
      · exact absurd hsend (hfailed.sendResult_ne (List.Subset.refl _))
      · obtain ⟨rfl, -, hhigh⟩ := hdelivers.sendResult_eq hsend
        rw [if_neg (by omega)]
        intro number url hnumber' hurl'
        rw [hnumber, Except.ok.injEq] at hnumber'
        rw [hurl, Except.ok.injEq] at hurl'
        rw [hnumber', hurl']
  | pullExists hpull hstatus =>
    refine ⟨rfl, rfl, rfl, rfl, fun _ h => h, fun status v hsend => ?_⟩
    rw [if_pos (hstatus.sendResult_eq (by decide) hsend).1]
    exact hpull
  | _ => cases hrequest

/-- Looking for the open pull request. -/
theorem Answer.pullListed_spec
    (h : Answer tables branch i s
      (.pulls (repositoryOwner ++ ":" ++ branch) protectedBaseBranch) s' x) :
    s' = s ∧ ∀ item rest, received isList x = some (.arr (item :: rest)) →
      ∃ number url, s.pull = some (number, url) ∧ requireInt (item.get "number") = .ok number ∧
        requireString (item.get "html_url") = .ok url := by
  generalize hrequest : GitHubRequest.pulls (repositoryOwner ++ ":" ++ branch)
    protectedBaseBranch = request at h
  cases h with
  | lost hfailed =>
    refine ⟨rfl, fun item rest hv => ?_⟩
    rw [hfailed.received_eq] at hv
    cases hv
  | elsewhere helsewhere =>
    subst hrequest
    exact absurd ⟨rfl, rfl⟩ helsewhere
  | pullListed hpull hdelivers hnumber hurl =>
    refine ⟨rfl, fun item rest hv => ?_⟩
    cases hdelivers.received_eq hv
    exact ⟨_, _, hpull, hnumber, hurl⟩
  | noneListed hpull hdelivers =>
    refine ⟨rfl, fun item rest hv => ?_⟩
    cases hdelivers.received_eq hv
  | _ => cases hrequest

end Requests

/-! ## The shared world -/

/-- How the store may change: nothing that exists is moved, closed or rewritten. -/
structure Grows {ι : Type} (s s' : Store ι) : Prop where
  head : ∀ sha, s.head = some sha → s'.head = some sha ∧ s'.creator = s.creator
  commits : ∀ sha commit, s.commits sha = some commit → s'.commits sha = some commit
  pull : ∀ pull, s.pull = some pull → s'.pull = some pull

/-- Doing nothing is growth. -/
theorem Grows.refl {ι : Type} (s : Store ι) : Grows s s :=
  ⟨fun _ h => ⟨h, rfl⟩, fun _ _ h => h, fun _ h => h⟩

/-- Growth composes. -/
theorem Grows.trans {ι : Type} {s s' s'' : Store ι} (h : Grows s s') (h' : Grows s' s'') :
    Grows s s'' where
  head sha hsha := by
    obtain ⟨hhead, hcreator⟩ := h.head sha hsha
    obtain ⟨hhead', hcreator'⟩ := h'.head sha hhead
    exact ⟨hhead', hcreator'.trans hcreator⟩
  commits sha commit hcommit := h'.commits sha commit (h.commits sha commit hcommit)
  pull pull hpull := h'.pull pull (h.pull pull hpull)

/-- Every request makes the store grow. -/
theorem Answer.grows {ι : Type} {tables : CaseTables} {branch : String} {i : ι} {s s' : Store ι}
    {request : GitHubRequest} {x : Reply} (h : Answer tables branch i s request s' x) :
    Grows s s' := by
  cases h with
  | commitCreated hfresh =>
    exact ⟨fun _ h => ⟨h, rfl⟩, fun _ _ hcommit => commits_update hfresh hcommit, fun _ h => h⟩
  | refCreated hhead =>
    refine ⟨fun _ h => ?_, fun _ _ h => h, fun _ h => h⟩
    rw [hhead] at h
    cases h
  | pullCreated hpull =>
    refine ⟨fun _ h => ⟨h, rfl⟩, fun _ _ h => h, fun _ h => ?_⟩
    rw [hpull] at h
    cases h
  | _ => exact Grows.refl _

/-- The message of the commit that a call creates. -/
def callMessage (args : Args) (valid : ValidArgs) : String :=
  commitMessage valid.title args.callerIdentity valid.idempotencyKey

/-- The head of the branch is a commit of the call that created the branch. -/
def HeadCreated {ι : Type} (args : ι → Args) (s : Store ι) : Prop :=
  ∀ sha, s.head = some sha → ∃ i valid parent, s.creator = some i ∧
    validate (args i) = .ok valid ∧
    s.commits sha = some ⟨callMessage (args i) valid, parent⟩

/-- The store as the world of the calls. A call that runs alone sees no change between
its requests. -/
def storeWorld {ι : Type} (tables : CaseTables) (branch : String) (args : ι → Args)
    (alone : Prop) : World GitHubRequest Reply (Store ι) ι where
  answers := Answer tables branch
  evolves s s' := Grows s s' ∧ (alone → s' = s)
  good := HeadCreated args
  evolves_refl s := ⟨Grows.refl s, fun _ => rfl⟩
  evolves_trans h h' := ⟨h.1.trans h'.1, fun ha => (h'.2 ha).trans (h.2 ha)⟩

end ContributorGateway.OpenPr
