import ContributorGateway.Collaboration.RequestTrace
import ContributorGateway.Core.OpenPr

/-!
# The write surface of a pull request

Whatever the arguments are and whatever GitHub replies, a call of `open_pr` writes a
tree, a commit, a branch and a pull request in this order, or only the pull request of
a branch that already carries the caller's key. The proof follows the procedure step by
step and keeps what has been read and written so far.
-/

namespace ContributorGateway.OpenPr

/-! ## Accepted arguments -/

/-- The branches that `_validate_branch` accepts. -/
structure IsContribBranch (branch : String) : Prop where
  grammar : isBranch branch = true
  noDots : contains branch ".." = false
  noLock : endsWith branch ".lock" = false
  noDot : endsWith branch "." = false
  notMaster : branch ≠ protectedBaseBranch

/-- A branch of the grammar starts with the prefix. -/
theorem branchPrefix_of_isBranch {branch : String} (h : isBranch branch = true) :
    branchPrefix.toList.isPrefixOf branch.toList = true := by
  rw [isBranch, Bool.and_eq_true] at h
  exact h.1

/-- The ref of a branch of the grammar is one that may be written. -/
theorem refPrefix {branch : String} (h : isBranch branch = true) :
    ("refs/heads/" ++ branchPrefix).toList.isPrefixOf ("refs/heads/" ++ branch).toList = true := by
  rw [String.toList_append, String.toList_append, List.isPrefixOf_iff_prefix,
    List.prefix_append_right_inj]
  exact List.isPrefixOf_iff_prefix.mp (branchPrefix_of_isBranch h)

/-- What passes is a contribution branch. -/
theorem validateBranch_eq_ok {value : PyValue} {branch : String}
    (h : validateBranch value = .ok branch) : value = .str branch ∧ IsContribBranch branch := by
  unfold validateBranch refuse at h
  split at h
  · rename_i s
    split_ifs at h with hgrammar hname
    rw [Except.ok.injEq] at h
    subst h
    simp only [Bool.or_eq_true, not_or, Bool.not_eq_true] at hname
    refine ⟨rfl, hgrammar, hname.1.1, hname.1.2, hname.2, ?_⟩
    rintro rfl
    exact absurd hgrammar (by decide)
  · cases h

/-- An expected base that passes is the string itself. -/
theorem validateExpectedBaseCommit_eq_ok {s : String} {expected : Option String}
    (h : validateExpectedBaseCommit (.str s) = .ok expected) : expected = some s := by
  simp only [validateExpectedBaseCommit, checkedStr] at h
  split_ifs at h
  · exact (Except.ok.inj h).symm
  · cases h

/-- The validations pass together only when each of them passes. -/
theorem validate_eq_ok {args : Args} {valid : ValidArgs} (h : validate args = .ok valid) :
    validateBranch args.branch = .ok valid.branch ∧ validateTitle args.title = .ok valid.title ∧
      validateBody args.body = .ok valid.body ∧ validateFiles args.files = .ok valid.files ∧
      validateIdempotencyKey args.idempotencyKey = .ok valid.idempotencyKey ∧
      validateExpectedBaseCommit args.expectedBaseCommit = .ok valid.expectedBaseCommit := by
  simp only [validate, bind_eq_ok] at h
  obtain ⟨branch, hbranch, title, htitle, body, hbody, files, hfiles, key, hkey, expected,
    hexpected, h⟩ := h
  cases h
  exact ⟨hbranch, htitle, hbody, hfiles, hkey, hexpected⟩

/-! ## What a trace tells -/

section Trace

variable (tables : CaseTables) (args : Args) (trace : RequestTrace)

/-- The call read this head of master. -/
def MasterHead (base : String) : Prop :=
  ∃ payload, (.branchRef protectedBaseBranch, payload) ∈ reads trace ∧
    refCommit tables payload = .ok base

/-- The call read that its branch exists. -/
def BranchFound : Prop :=
  ∃ branch payload, args.branch = .str branch ∧ (.branchRef branch, payload) ∈ reads trace

/-- The call read that its branch exists and that the message of its head carries the
key of the call. -/
def CarriesKey : Prop :=
  ∃ branch key payload head commit message, args.branch = .str branch ∧
    args.idempotencyKey = .str key ∧ (.branchRef branch, payload) ∈ reads trace ∧
    refCommit tables payload = .ok head ∧ (.gitCommit head, commit) ∈ reads trace ∧
    commit.get "message" = some (.str message) ∧ searchTrailer message = some key

/-- The reply to the request for a commit names this commit. -/
def CreatedCommit (reply : Reply) (commit : String) : Prop :=
  ∃ status payload sha, sendResult [] reply = .ok (status, payload) ∧
    requireString (payload.get "sha") = .ok sha ∧ commit = tables.lower sha

/-- The endpoints of the mutating requests. -/
def endpoints : List (String × String) := (writes trace).map fun entry => entry.1.endpoint

end Trace

/-- The endpoint of a mutating request. -/
def writeEndpoint (part : String) : String × String :=
  ("POST", "/repos/" ++ expectedRepository ++ part)

/-- The mutating requests of a call that creates everything. -/
def writeOrder : List (String × String) :=
  ["/git/trees", "/git/commits", "/git/refs", "/pulls"].map writeEndpoint

/-- What a call may write. -/
structure WriteSurface (tables : CaseTables) (args : Args) (trace : RequestTrace) : Prop where
  /-- The writes come in the one order, or are only the pull request of a branch that
  carries the caller's key. -/
  ordered : endpoints trace <+: writeOrder ∨
    endpoints trace = [writeEndpoint "/pulls"] ∧ CarriesKey tables args trace
  once : (endpoints trace).Nodup
  /-- The call reads one head of master. -/
  oneMaster : ∀ base base', MasterHead tables trace base → MasterHead tables trace base' →
    base = base'
  commit : ∀ content reply, (.postCommit content, reply) ∈ trace →
    ∃ base, MasterHead tables trace base ∧ content.get "parents" = some (.arr [.str base])
  ref : ∀ content reply, (.postRef content, reply) ∈ trace →
    ∃ branch head, args.branch = .str branch ∧ IsContribBranch branch ∧
      content.get "ref" = some (.str ("refs/heads/" ++ branch)) ∧
      content.get "sha" = some (.str head) ∧
      ∃ content' reply', (.postCommit content', reply') ∈ trace ∧
        CreatedCommit tables reply' head
  pull : ∀ content reply, (.postPull content, reply) ∈ trace →
    ∃ branch, args.branch = .str branch ∧ IsContribBranch branch ∧
      content.get "head" = some (.str branch) ∧
      content.get "base" = some (.str protectedBaseBranch)
  invalid : (∀ v, validateBranch args.branch ≠ .ok v) ∨ (∀ v, validateTitle args.title ≠ .ok v) ∨
    (∀ v, validateBody args.body ≠ .ok v) ∨ (∀ v, validateFiles args.files ≠ .ok v) ∨
    (∀ v, validateIdempotencyKey args.idempotencyKey ≠ .ok v) ∨
    (∀ v, validateExpectedBaseCommit args.expectedBaseCommit ≠ .ok v) → writes trace = []
  replay : CarriesKey tables args trace → endpoints trace = [writeEndpoint "/pulls"]
  foreign : BranchFound args trace → ¬ CarriesKey tables args trace → writes trace = []
  stale : ¬ BranchFound args trace → ∀ expected base, args.expectedBaseCommit = .str expected →
    MasterHead tables trace base → expected ≠ base → writes trace = []

/-- What a call has written on the way to a new branch. -/
inductive Creation (tables : CaseTables) (base branch : String) : RequestTrace → Prop
  | nothing : Creation tables base branch []
  | tree (content : Json) (x : Reply) :
      Creation tables base branch [(.postTree content, x)]
  | commit (content : Json) (message tree : String) (x y : Reply) :
      Creation tables base branch
        [(.postTree content, x), (.postCommit (commitBody message tree base), y)]
  | ref (content : Json) (message tree head : String) (x y z : Reply)
      (hhead : CreatedCommit tables y head) :
      Creation tables base branch
        [(.postTree content, x), (.postCommit (commitBody message tree base), y),
          (.postRef (refBody ("refs/heads/" ++ branch) head), z)]
  | pull (content : Json) (message tree head title text : String) (x y z u : Reply)
      (hhead : CreatedCommit tables y head) :
      Creation tables base branch
        [(.postTree content, x), (.postCommit (commitBody message tree base), y),
          (.postRef (refBody ("refs/heads/" ++ branch) head), z),
          (.postPull (pullBody title text branch), u)]

section Surface

variable {tables : CaseTables} {args : Args} {trace : RequestTrace} {valid : ValidArgs}
  {master found commit : Json} {base branch head title text : String} {x : Reply}
  {more : List (GitHubRequest × Json)}

/-- The endpoints of a creation are the first ones in the order. -/
theorem Creation.ordered (h : Creation tables base branch trace) :
    trace.map (fun entry => entry.1.endpoint) <+: writeOrder := by
  cases h with
  | nothing => exact ⟨writeOrder, rfl⟩
  | tree => exact ⟨writeOrder.drop 1, rfl⟩
  | commit => exact ⟨writeOrder.drop 2, rfl⟩
  | ref => exact ⟨writeOrder.drop 3, rfl⟩
  | pull => exact ⟨[], rfl⟩

/-- The commit of a creation has the base as its only parent. -/
theorem Creation.parents (h : Creation tables base branch trace) {content : Json}
    (hmem : (.postCommit content, x) ∈ trace) :
    content.get "parents" = some (.arr [.str base]) := by
  cases h <;> simp only [List.mem_cons, Prod.mk.injEq, reduceCtorEq, false_and, false_or,
    GitHubRequest.postCommit.injEq, List.not_mem_nil, or_false] at hmem
  all_goals
    obtain ⟨rfl, -⟩ := hmem
    rfl

/-- The ref of a creation is the branch, and it points at the created commit. -/
theorem Creation.target (h : Creation tables base branch trace) {content : Json}
    (hmem : (.postRef content, x) ∈ trace) :
    content.get "ref" = some (.str ("refs/heads/" ++ branch)) ∧
      ∃ head content' x', content.get "sha" = some (.str head) ∧
        (.postCommit content', x') ∈ trace ∧ CreatedCommit tables x' head := by
  cases h <;> simp only [List.mem_cons, Prod.mk.injEq, reduceCtorEq, false_and, false_or,
    GitHubRequest.postRef.injEq, List.not_mem_nil, or_false] at hmem
  all_goals
    obtain ⟨rfl, -⟩ := hmem
    exact ⟨rfl, _, _, _, rfl, List.mem_cons_of_mem _ (List.mem_cons_self ..), ‹_›⟩

/-- The pull request of a creation is for the branch, against master. -/
theorem Creation.pullBranch (h : Creation tables base branch trace) {content : Json}
    (hmem : (.postPull content, x) ∈ trace) :
    content.get "head" = some (.str branch) ∧
      content.get "base" = some (.str protectedBaseBranch) := by
  cases h <;> simp only [List.mem_cons, Prod.mk.injEq, reduceCtorEq, false_and, false_or,
    GitHubRequest.postPull.injEq, List.not_mem_nil, or_false] at hmem
  all_goals
    obtain ⟨rfl, -⟩ := hmem
    exact ⟨rfl, rfl⟩

/-- What is in the order appears once. -/
theorem nodup_of_prefix_writeOrder {l : List (String × String)} (h : l <+: writeOrder) :
    l.Nodup :=
  h.sublist.nodup (by decide)

/-- The call has read nothing but master, its branch and the head of its branch. -/
def OnlyRefs (trace : RequestTrace) : Prop :=
  ∃ branch master found head commit, branch ≠ protectedBaseBranch ∧
    reads trace <+: [(.branchRef protectedBaseBranch, master), (.branchRef branch, found),
      (.gitCommit head, commit)]

/-- A call that only read refs and wrote nothing. -/
theorem WriteSurface.of_quiet (hwrites : writes trace = []) (hreads : OnlyRefs trace)
    (hkey : ¬ CarriesKey tables args trace) : WriteSurface tables args trace := by
  have hnone : ∀ entry ∈ trace, entry.1.method ≠ "POST" := by
    intro entry hmem hpost
    have := mem_writes hmem hpost
    rw [hwrites] at this
    cases this
  have hendpoints : endpoints trace = [] := by rw [endpoints, hwrites, List.map_nil]
  obtain ⟨branch, master, found, head, commit, hbranch, hreads⟩ := hreads
  have hmaster : ∀ payload, (.branchRef protectedBaseBranch, payload) ∈ reads trace →
      payload = master := by
    intro payload hmem
    have := hreads.subset hmem
    simp only [List.mem_cons, Prod.mk.injEq, GitHubRequest.branchRef.injEq, true_and,
      hbranch.symm, false_and, reduceCtorEq, List.not_mem_nil, or_false] at this
    exact this
  constructor
  case ordered => exact Or.inl (by rw [hendpoints]; exact List.nil_prefix)
  case once => rw [hendpoints]; exact List.nodup_nil
  case oneMaster =>
    rintro base base' ⟨payload, hmem, hbase⟩ ⟨payload', hmem', hbase'⟩
    rw [hmaster payload hmem] at hbase
    rw [hmaster payload' hmem', hbase] at hbase'
    exact Except.ok.inj hbase'
  case commit => exact fun content reply hmem => absurd rfl (hnone _ hmem)
  case ref => exact fun content reply hmem => absurd rfl (hnone _ hmem)
  case pull => exact fun content reply hmem => absurd rfl (hnone _ hmem)
  case invalid => exact fun _ => hwrites
  case replay => exact fun h => absurd h hkey
  case foreign => exact fun _ _ => hwrites
  case stale => exact fun _ _ _ _ _ _ => hwrites

/-- Arguments that are valid together are valid each. -/
theorem not_invalid (hvalid : validate args = .ok valid) :
    ¬ ((∀ v, validateBranch args.branch ≠ .ok v) ∨ (∀ v, validateTitle args.title ≠ .ok v) ∨
      (∀ v, validateBody args.body ≠ .ok v) ∨ (∀ v, validateFiles args.files ≠ .ok v) ∨
      (∀ v, validateIdempotencyKey args.idempotencyKey ≠ .ok v) ∨
      ∀ v, validateExpectedBaseCommit args.expectedBaseCommit ≠ .ok v) := by
  obtain ⟨hbranch, htitle, hbody, hfiles, hkey, hexpected⟩ := validate_eq_ok hvalid
  rintro (h | h | h | h | h | h)
  · exact h _ hbranch
  · exact h _ htitle
  · exact h _ hbody
  · exact h _ hfiles
  · exact h _ hkey
  · exact h _ hexpected

/-- A call that creates its branch writes in the one order. -/
theorem WriteSurface.of_creation (hvalid : validate args = .ok valid)
    (hreads : reads trace = (.branchRef protectedBaseBranch, master) :: more)
    (hmore : ∀ entry ∈ more, ∀ ref, entry.1 ≠ .branchRef ref)
    (hbase : refCommit tables master = .ok base)
    (hexpected : valid.expectedBaseCommit = none ∨ valid.expectedBaseCommit = some base)
    (hcreation : Creation tables base valid.branch (writes trace)) :
    WriteSurface tables args trace := by
  obtain ⟨hbranch, -, -, -, -, hvalidExpected⟩ := validate_eq_ok hvalid
  obtain ⟨hargs, hcontrib⟩ := validateBranch_eq_ok hbranch
  have hrefs : ∀ ref payload, (GitHubRequest.branchRef ref, payload) ∈ reads trace →
      ref = protectedBaseBranch ∧ payload = master := by
    intro ref payload hmem
    rw [hreads, List.mem_cons] at hmem
    rcases hmem with hmem | hmem
    · cases hmem
      exact ⟨rfl, rfl⟩
    · exact absurd rfl (hmore _ hmem ref)
  have hmaster : ∀ base', MasterHead tables trace base' → base' = base := by
    rintro base' ⟨payload, hmem, hbase'⟩
    rw [(hrefs _ _ hmem).2, hbase] at hbase'
    exact (Except.ok.inj hbase').symm
  have hread : MasterHead tables trace base :=
    ⟨master, by rw [hreads]; exact List.mem_cons_self .., hbase⟩
  have habsent : ¬ BranchFound args trace := by
    rintro ⟨branch, payload, hargs', hmem⟩
    rw [hargs] at hargs'
    cases hargs'
    exact hcontrib.notMaster (hrefs _ _ hmem).1
  constructor
  case ordered => exact Or.inl hcreation.ordered
  case once => exact nodup_of_prefix_writeOrder hcreation.ordered
  case oneMaster => exact fun _ _ h h' => (hmaster _ h).trans (hmaster _ h').symm
  case commit =>
    exact fun content reply hmem => ⟨base, hread, hcreation.parents (mem_writes hmem rfl)⟩
  case ref =>
    intro content reply hmem
    obtain ⟨href, head, content', reply', hsha, hcommit, hcreated⟩ :=
      hcreation.target (mem_writes hmem rfl)
    exact ⟨valid.branch, head, hargs, hcontrib, href, hsha, content', reply',
      (List.mem_filter.mp hcommit).1, hcreated⟩
  case pull =>
    exact fun content reply hmem =>
      ⟨valid.branch, hargs, hcontrib, hcreation.pullBranch (mem_writes hmem rfl)⟩
  case invalid => exact fun h => absurd h (not_invalid hvalid)
  case replay =>
    rintro ⟨branch, _, payload, _, _, _, hargs', -, hmem, -⟩
    exact absurd ⟨branch, payload, hargs', hmem⟩ habsent
  case foreign => exact fun h => absurd h habsent
  case stale =>
    intro _ expected base' hargs' hbase' hne
    rw [hargs'] at hvalidExpected
    rw [validateExpectedBaseCommit_eq_ok hvalidExpected, Option.some.injEq] at hexpected
    rcases hexpected with h | rfl
    · cases h
    · exact absurd (hmaster base' hbase').symm hne

/-- A call that finds its branch with its key writes only the pull request. -/
theorem WriteSurface.of_replay (hvalid : validate args = .ok valid)
    (hreads : reads trace = (.branchRef protectedBaseBranch, master) ::
      (.branchRef valid.branch, found) :: (.gitCommit head, commit) :: more)
    (hmore : ∀ entry ∈ more, ∀ ref, entry.1 ≠ .branchRef ref)
    (hhead : refCommit tables found = .ok head)
    (hkey : ∃ message, commit.get "message" = some (.str message) ∧
      searchTrailer message = some valid.idempotencyKey)
    (hwrites : writes trace = [(.postPull (pullBody title text valid.branch), x)]) :
    WriteSurface tables args trace := by
  obtain ⟨hbranch, -, -, -, hvalidKey, -⟩ := validate_eq_ok hvalid
  obtain ⟨hargs, hcontrib⟩ := validateBranch_eq_ok hbranch
  have hargsKey := (checkedStr_eq_ok hvalidKey).1
  obtain ⟨message, hmessage, htrailer⟩ := hkey
  have hfound : (.branchRef valid.branch, found) ∈ reads trace := by simp [hreads]
  have hcarries : CarriesKey tables args trace :=
    ⟨valid.branch, valid.idempotencyKey, found, head, commit, message, hargs, hargsKey, hfound,
      hhead, by simp [hreads], hmessage, htrailer⟩
  have hendpoints : endpoints trace = [writeEndpoint "/pulls"] := by
    rw [endpoints, hwrites]
    rfl
  have hnone : ∀ entry ∈ trace, entry.1.method = "POST" →
      entry = (.postPull (pullBody title text valid.branch), x) := by
    intro entry hmem hpost
    have := mem_writes hmem hpost
    rw [hwrites] at this
    exact List.mem_singleton.mp this
  have hmaster : ∀ payload, (.branchRef protectedBaseBranch, payload) ∈ reads trace →
      payload = master := by
    intro payload hmem
    rw [hreads] at hmem
    simp only [List.mem_cons, Prod.mk.injEq, GitHubRequest.branchRef.injEq, true_and,
      hcontrib.notMaster.symm, false_and, reduceCtorEq, false_or] at hmem
    rcases hmem with hmem | hmem
    · exact hmem
    · exact absurd rfl (hmore _ hmem _)
  constructor
  case ordered => exact Or.inr ⟨hendpoints, hcarries⟩
  case once =>
    rw [hendpoints]
    exact List.nodup_singleton _
  case oneMaster =>
    rintro base base' ⟨payload, hmem, hbase⟩ ⟨payload', hmem', hbase'⟩
    rw [hmaster payload hmem] at hbase
    rw [hmaster payload' hmem', hbase] at hbase'
    exact Except.ok.inj hbase'
  case commit => exact fun content reply hmem => by cases hnone _ hmem rfl
  case ref => exact fun content reply hmem => by cases hnone _ hmem rfl
  case pull =>
    intro content reply hmem
    cases hnone _ hmem rfl
    exact ⟨valid.branch, hargs, hcontrib, rfl, rfl⟩
  case invalid => exact fun h => absurd h (not_invalid hvalid)
  case replay => exact fun _ => hendpoints
  case foreign => exact fun _ h => absurd hcarries h
  case stale => exact fun h => absurd ⟨valid.branch, found, hargs, hfound⟩ h

end Surface

/-! ## The steps of a call -/

/-- The message is the string under its name. -/
theorem commitText_eq_ok {payload : Json} {message : String}
    (h : commitText payload = .ok message) : payload.get "message" = some (.str message) := by
  unfold commitText at h
  split at h
  · rename_i text htext
    rw [htext, Except.ok.inj h]
  · cases h

/-- The outcome of a safe request whose payload is taken apart: what was read explains
the result, and nothing was written. -/
def ReadOutcome {α : Type} (s : RequestTrace) (request : GitHubRequest)
    (f : Json → Except Raised α) (r : Except Raised α) (s' : RequestTrace) : Prop :=
  writes s' = writes s ∧
    match r with
    | .ok a => ∃ payload, reads s' = reads s ++ [(request, payload)] ∧ f payload = .ok a
    | .error _ => reads s' = reads s ∨
        ∃ payload, reads s' = reads s ++ [(request, payload)] ∧ ∀ a, f payload ≠ .ok a

section Steps

variable {tables : CaseTables} {trail : Trail Locals} {s : RequestTrace}
  {request : GitHubRequest} {branch base commit title text : String}

/-- What taking the payload apart yields is the outcome. -/
theorem ReadOutcome.of_payload {α : Type} {f : Json → Except Raised α} {payload : Json}
    {s' : RequestTrace} (hreads : reads s' = reads s ++ [(request, payload)])
    (hwrites : writes s' = writes s) : ReadOutcome s request f (f payload) s' := by
  refine ⟨hwrites, ?_⟩
  cases hresult : f payload with
  | error e =>
    refine Or.inr ⟨payload, hreads, fun a h => ?_⟩
    rw [hresult] at h
    cases h
  | ok a => exact ⟨payload, hreads, hresult⟩

/-- The rule of a safe request whose payload is taken apart. -/
theorem wp_get_lift {α : Type} {f : Json → Except Raised α} (hget : request.method = "GET")
    (haccepts : request.accepts = isDict) :
    (get tables request >>= fun payload => .lift (f payload)).wp World.history ()
      (fun r _ s' => ReadOutcome s request f r s') trail s := by
  have hread := wp_getAttempts_trace tables false trail s hget maxAttempts
  rw [haccepts] at hread
  refine Process.wp_bind (Process.wp_mono hread ?_)
  rintro (e | payload) trail' s' - ⟨hreads, hwrites⟩
  · refine World.later_history.mpr ⟨hwrites, Or.inl ?_⟩
    rw [hreads, payloadOf, List.append_nil]
  · exact Process.wp_lift.mpr (World.later_history.mpr (.of_payload hreads hwrites))

/-- Reading master. -/
theorem wp_baseCommit_trace :
    (baseCommit tables).wp World.history ()
      (fun r _ s' => ReadOutcome s (.branchRef protectedBaseBranch) (refCommit tables) r s')
      trail s :=
  wp_get_lift rfl rfl

/-- The handler finds nothing. -/
theorem absentIfNotFound_eq_ok {e : Raised} {found : Option Json}
    (h : absentIfNotFound e = .ok found) : found = none := by
  unfold absentIfNotFound at h
  split at h
  · split_ifs at h
    exact (Except.ok.inj h).symm
  · cases h

/-- Looking for the branch. -/
theorem wp_existingBranchHead_trace :
    (existingBranchHead tables branch).wp World.history ()
      (fun r _ s' => match r with
        | .ok none => reads s' = reads s ∧ writes s' = writes s
        | .ok (some head) => ReadOutcome s (.branchRef branch) (refCommit tables) (.ok head) s'
        | .error e => ReadOutcome s (.branchRef branch) (refCommit tables) (.error e) s')
      trail s := by
  have hread := @wp_getAttempts_trace (.branchRef branch) _ tables false trail s rfl maxAttempts
  refine Process.wp_bind (Process.wp_recover (Process.wp_bind (Process.wp_mono hread ?_)))
  rintro (e | payload) trail' s' - ⟨hreads, hwrites⟩
  · rw [payloadOf, List.append_nil] at hreads
    refine World.later_history.mpr ?_
    refine Process.wp_lift.mpr (World.later_history.mpr ?_)
    cases hresult : absentIfNotFound e with
    | error e => exact World.later_history.mpr ⟨hwrites, Or.inl hreads⟩
    | ok found =>
      rw [absentIfNotFound_eq_ok hresult]
      exact Process.wp_pure.mpr (World.later_history.mpr ⟨hreads, hwrites⟩)
  · refine World.later_history.mpr (World.later_history.mpr ?_)
    refine Process.wp_lift.mpr (World.later_history.mpr ?_)
    have houtcome : ReadOutcome s (.branchRef branch) (refCommit tables)
        (refCommit tables payload) s' := .of_payload hreads hwrites
    cases hresult : refCommit tables payload with
    | error e => rwa [hresult] at houtcome
    | ok head => rwa [hresult] at houtcome

/-- Reading the key of a commit. -/
theorem wp_headIdempotencyKey_trace :
    (headIdempotencyKey tables commit).wp World.history ()
      (fun r _ s' => ReadOutcome s (.gitCommit commit)
        (fun payload => (commitText payload).map searchTrailer) r s') trail s :=
  wp_get_lift rfl rfl

/-- Since the first trace the call has read no ref, and it has written these requests. -/
structure After (first w s : RequestTrace) : Prop where
  reads_eq : ∃ more, reads s = reads first ++ more ∧
    ∀ entry ∈ more, ∀ ref, entry.1 ≠ .branchRef ref
  writes_eq : writes s = writes first ++ w

/-- Nothing has happened yet. -/
theorem After.refl (s : RequestTrace) : After s [] s :=
  ⟨⟨[], (List.append_nil _).symm, by simp⟩, (List.append_nil _).symm⟩

/-- One stretch of a call after another. -/
theorem After.trans {first w w' s s' : RequestTrace} (h : After first w s) (h' : After s w' s') :
    After first (w ++ w') s' := by
  obtain ⟨⟨more, hmore, hrefs⟩, hwrites⟩ := h
  obtain ⟨⟨more', hmore', hrefs'⟩, hwrites'⟩ := h'
  refine ⟨⟨more ++ more', by rw [hmore', hmore, List.append_assoc], ?_⟩,
    by rw [hwrites', hwrites, List.append_assoc]⟩
  intro entry hmem
  rcases List.mem_append.mp hmem with hmem | hmem
  · exact hrefs entry hmem
  · exact hrefs' entry hmem

/-- A safe request for no ref. -/
theorem After.read {first w s s' : RequestTrace} {r : Except Raised Json}
    (h : After first w s) (hrequest : ∀ ref, request ≠ .branchRef ref)
    (hread : reads s' = reads s ++ payloadOf request r ∧ writes s' = writes s) :
    After first w s' := by
  have hstep : After s [] s' := by
    refine ⟨⟨payloadOf request r, hread.1, ?_⟩, by rw [hread.2, List.append_nil]⟩
    intro entry hmem
    cases r with
    | error e => cases hmem
    | ok v =>
      rw [payloadOf, List.mem_singleton] at hmem
      rw [hmem]
      exact hrequest
  simpa using h.trans hstep

/-- A mutating request. -/
theorem After.send {first w s : RequestTrace} (h : After first w s) (request : GitHubRequest)
    (hpost : request.method = "POST") (x : Reply) :
    After first (w ++ [(request, x)]) (s ++ [(request, x)]) :=
  h.trans ⟨⟨[], by rw [reads_append, reads_mutating hpost], by simp⟩,
    by rw [writes_append, writes_mutating hpost]⟩

/-- Creating the commit writes a tree and the commit. -/
theorem wp_createCommit_trace (branch : String) {files : List ProposedFile}
    {identity key : String} :
    (createCommit tables base files title identity key).wp World.history ()
      (fun r _ s' => match r with
        | .ok head => ∃ content message tree x y, CreatedCommit tables y head ∧
            After s [(.postTree content, x), (.postCommit (commitBody message tree base), y)] s'
        | .error _ => ∃ w, After s w s' ∧ Creation tables base branch w) trail s := by
  have hread := @wp_getAttempts_trace (.gitCommit base) _ tables false trail s rfl maxAttempts
  refine Process.wp_bind (Process.wp_mono hread ?_)
  rintro r trail' s' - hread'
  have hafter : After s [] s' := (After.refl s).read (fun _ h => by cases h) hread'
  rcases r with e | payload
  · exact World.later_history.mpr ⟨[], hafter, .nothing⟩
  refine wp_lift_bind_trace (fun _ _ => ⟨[], hafter, .nothing⟩) fun tree _ => ?_
  refine wp_lift_bind_trace (fun _ _ => ⟨[], hafter, .nothing⟩) fun baseTree _ => ?_
  refine wp_send_bind_trace fun x trail₁ => ?_
  have hafter₁ := hafter.send (.postTree (treeBody baseTree files)) rfl x
  rcases sendResult [] x with e | ⟨status, treePayload⟩
  · exact ⟨_, hafter₁, .tree _ _⟩
  refine wp_lift_bind_trace (fun _ _ => ⟨_, hafter₁, .tree _ _⟩) fun treeSha _ => ?_
  refine wp_send_bind_trace fun y trail₂ => ?_
  have hafter₂ := hafter₁.send (.postCommit (commitBody
    (commitMessage title identity key) treeSha base)) rfl y
  cases hresult : sendResult [] y with
  | error e => exact ⟨_, hafter₂, .commit _ _ _ _ _⟩
  | ok value =>
    refine wp_lift_bind_trace (fun _ _ => ⟨_, hafter₂, .commit _ _ _ _ _⟩) fun sha hsha => ?_
    refine Process.wp_pure.mpr (World.later_history.mpr ?_)
    exact ⟨_, _, _, x, y, ⟨value.1, value.2, sha, hresult, hsha, rfl⟩, hafter₂⟩

/-- Creating the branch writes the ref, when the branch is in the grammar. -/
theorem wp_createBranch_trace {commit : String} (hbranch : isBranch branch = true) :
    (createBranch branch commit).wp World.history ()
      (fun _ _ s' => ∃ z, s' = s ++ [(.postRef (refBody ("refs/heads/" ++ branch) commit), z)])
      trail s := by
  rw [createBranch, if_neg (not_not.mpr (refPrefix hbranch))]
  refine wp_send_bind_trace fun z trail' => ?_
  cases sendResult [] z with
  | error e => exact ⟨z, rfl⟩
  | ok value => exact Process.wp_pure.mpr (World.later_history.mpr ⟨z, rfl⟩)

/-- Looking for an open pull request reads no ref and writes nothing. -/
theorem wp_findOpenPr_trace {first w : RequestTrace} (hafter : After first w s) :
    (findOpenPr tables branch).wp World.history () (fun _ _ s' => After first w s') trail s := by
  have hread := @wp_getAttempts_trace (.pulls (repositoryOwner ++ ":" ++ branch)
    protectedBaseBranch) _ tables false trail s rfl maxAttempts
  refine Process.wp_bind (Process.wp_mono hread ?_)
  rintro r trail' s' - hread'
  have hafter' := hafter.read (fun _ h => by cases h) hread'
  rcases r with e | items
  · exact World.later_history.mpr hafter'
  · split
    · cases ‹Except.ok items = _›
      split
      · refine wp_lift_bind_trace (fun _ _ => hafter') fun item _ => ?_
        refine wp_lift_bind_trace (fun _ _ => hafter') fun number _ => ?_
        refine wp_lift_bind_trace (fun _ _ => hafter') fun url _ => ?_
        exact Process.wp_pure.mpr (World.later_history.mpr hafter')
      · exact Process.wp_pure.mpr (World.later_history.mpr hafter')
    · cases ‹Except.ok items = _›

/-- Opening the pull request writes one request, and looking for an open one reads no
ref. -/
theorem wp_openPull_trace :
    (openPull tables branch title text).wp World.history ()
      (fun _ _ s' => ∃ u, After s [(.postPull (pullBody title text branch), u)] s') trail s := by
  refine wp_send_bind_trace fun u trail' => ?_
  have hafter := (After.refl s).send (.postPull (pullBody title text branch)) rfl u
  cases sendResult [422] u with
  | error e => exact ⟨u, hafter⟩
  | ok value =>
    by_cases hstatus : value.1 = 422
    · simp only [hstatus, if_true]
      refine Process.wp_bind (Process.wp_mono (wp_findOpenPr_trace hafter) ?_)
      rintro (e | found) trail₁ s₁ - hafter₁
      · exact World.later_history.mpr ⟨u, hafter₁⟩
      · cases found with
        | none => exact Process.wp_raise.mpr (World.later_history.mpr ⟨u, hafter₁⟩)
        | some pull => exact Process.wp_pure.mpr (World.later_history.mpr ⟨u, hafter₁⟩)
    · simp only [hstatus, if_false]
      refine wp_lift_bind_trace (fun _ _ => ⟨u, hafter⟩) fun number _ => ?_
      refine wp_lift_bind_trace (fun _ _ => ⟨u, hafter⟩) fun url _ => ?_
      exact Process.wp_pure.mpr (World.later_history.mpr ⟨u, hafter⟩)

/-- Creating a branch writes the tree, the commit and the ref. -/
theorem wp_ensureBranch_trace {valid : ValidArgs} {identity : String}
    (hbranch : isBranch valid.branch = true)
    (hexpected : ¬ (valid.expectedBaseCommit.isSome ∧ valid.expectedBaseCommit ≠ some base)) :
    (ensureBranch tables valid identity base none).wp World.history ()
      (fun r _ s' => match r with
        | .ok _ => ∃ content message tree head x y z, CreatedCommit tables y head ∧
            After s [(.postTree content, x), (.postCommit (commitBody message tree base), y),
              (.postRef (refBody ("refs/heads/" ++ valid.branch) head), z)] s'
        | .error _ => ∃ w, After s w s' ∧ Creation tables base valid.branch w) trail s := by
  rw [ensureBranch, if_neg hexpected]
  refine Process.wp_bind (Process.wp_mono (wp_createCommit_trace valid.branch) ?_)
  rintro (e | head) trail₁ s₁ - hcommit
  · exact World.later_history.mpr hcommit
  obtain ⟨content, message, tree, x, y, hhead, hafter⟩ := hcommit
  refine Process.wp_bind (Process.wp_assign.mpr (World.later_history.mpr ?_))
  refine Process.wp_bind (Process.wp_mono (wp_createBranch_trace hbranch) ?_)
  rintro r trail₂ s₂ - ⟨z, rfl⟩
  have hafter' := hafter.send (.postRef (refBody ("refs/heads/" ++ valid.branch) head)) rfl z
  cases r with
  | error e => exact World.later_history.mpr ⟨_, hafter', .ref _ _ _ _ _ _ _ hhead⟩
  | ok _ =>
    refine Process.wp_pure.mpr (World.later_history.mpr ?_)
    exact ⟨content, message, tree, head, x, y, z, hhead, hafter'⟩

end Steps

/-! ## The whole call -/

/-- Without the read of a commit, no key was found. -/
theorem not_carriesKey {tables : CaseTables} {args : Args} {trace : RequestTrace}
    (h : ∀ head payload, (.gitCommit head, payload) ∉ reads trace) :
    ¬ CarriesKey tables args trace := by
  rintro ⟨_, _, _, head, commit, _, -, -, -, -, hmem, -⟩
  exact h head commit hmem

section Publish

variable {tables : CaseTables} {args : Args} {valid : ValidArgs} {trail : Trail Locals}
  {s : RequestTrace} {base head : String} {master : Json}

/-- A call on a new branch stays in the surface. -/
theorem wp_publish_new_trace (hvalid : validate args = .ok valid) (hwrites : writes s = [])
    (hreads : reads s = [(.branchRef protectedBaseBranch, master)])
    (hbase : refCommit tables master = .ok base) :
    (publish tables args valid base none).wp World.history ()
      (fun _ _ s' => WriteSurface tables args s') trail s := by
  obtain ⟨hargs, hcontrib⟩ := validateBranch_eq_ok (validate_eq_ok hvalid).1
  by_cases hstale : valid.expectedBaseCommit.isSome ∧ valid.expectedBaseCommit ≠ some base
  · rw [publish, ensureBranch, if_pos hstale]
    refine Process.wp_bind (Process.wp_raise.mpr (World.later_history.mpr ?_))
    refine World.later_history.mpr (.of_quiet hwrites ?_ (not_carriesKey (by simp [hreads])))
    exact ⟨valid.branch, master, .null, "", .null, hcontrib.notMaster, _, by rw [hreads]; rfl⟩
  have hexpected : valid.expectedBaseCommit = none ∨ valid.expectedBaseCommit = some base := by
    cases hcommit : valid.expectedBaseCommit with
    | none => exact Or.inl rfl
    | some expected =>
      rw [hcommit] at hstale
      simpa using hstale
  have hsurface : ∀ w s', After s w s' → Creation tables base valid.branch w →
      WriteSurface tables args s' := by
    rintro w s' ⟨⟨more, hmore, hrefs⟩, hw⟩ hcreation
    rw [hreads] at hmore
    rw [hwrites, List.nil_append] at hw
    exact .of_creation hvalid hmore hrefs hbase hexpected (hw ▸ hcreation)
  refine Process.wp_bind (Process.wp_mono (wp_ensureBranch_trace hcontrib.grammar hstale) ?_)
  rintro (e | created) trail₁ s₁ - hensured
  · obtain ⟨w, hafter, hcreation⟩ := hensured
    exact World.later_history.mpr (hsurface w s₁ hafter hcreation)
  obtain ⟨content, message, tree, head, x, y, z, hhead, hafter⟩ := hensured
  refine Process.wp_bind (Process.wp_mono wp_openPull_trace ?_)
  rintro r trail₂ s₂ - ⟨u, hafter'⟩
  have hfinal : WriteSurface tables args s₂ :=
    hsurface _ s₂ (hafter.trans hafter') (.pull _ _ _ _ _ _ x y z u hhead)
  cases r with
  | error e => exact World.later_history.mpr hfinal
  | ok pull => exact Process.wp_pure.mpr (World.later_history.mpr hfinal)

/-- A call on an existing branch stays in the surface. -/
theorem wp_publish_existing_trace {found : Json} (hvalid : validate args = .ok valid)
    (hwrites : writes s = [])
    (hreads : reads s = [(.branchRef protectedBaseBranch, master), (.branchRef valid.branch, found)])
    (hhead : refCommit tables found = .ok head) :
    (publish tables args valid base (some head)).wp World.history ()
      (fun _ _ s' => WriteSurface tables args s') trail s := by
  obtain ⟨hbranch, -, -, -, hkey, -⟩ := validate_eq_ok hvalid
  obtain ⟨hargs, hcontrib⟩ := validateBranch_eq_ok hbranch
  have hargsKey := (checkedStr_eq_ok hkey).1
  have hquiet : ∀ s' commit, writes s' = writes s →
      reads s' = reads s ++ [(.gitCommit head, commit)] →
      (commitText commit).map searchTrailer ≠ .ok (some valid.idempotencyKey) →
      WriteSurface tables args s' := by
    intro s' commit hwrites' hreads' hkey'
    rw [hreads] at hreads'
    refine .of_quiet (hwrites'.trans hwrites) ⟨valid.branch, master, found, head, commit,
      hcontrib.notMaster, by rw [hreads']; exact List.prefix_rfl⟩ ?_
    rintro ⟨branch, key, payload, head', commit', message, -, hargs', -, -, hcommit, hmessage,
      htrailer⟩
    rw [hargsKey] at hargs'
    cases hargs'
    have hcommit' : commit' = commit := by
      rw [hreads'] at hcommit
      simp only [List.cons_append, List.nil_append, List.mem_cons, Prod.mk.injEq, reduceCtorEq,
        false_and, false_or, List.not_mem_nil, or_false] at hcommit
      exact hcommit.2
    apply hkey'
    rw [← hcommit', commitText, hmessage]
    exact congrArg Except.ok htrailer
  refine Process.wp_bind (Process.wp_bind (Process.wp_mono wp_headIdempotencyKey_trace ?_))
  rintro (e | key) trail₁ s₁ - ⟨hwrites₁, hreads₁⟩
  · refine World.later_history.mpr (World.later_history.mpr ?_)
    rcases hreads₁ with hreads₁ | ⟨commit, hreads₁, htext⟩
    · refine .of_quiet (hwrites₁.trans hwrites) ?_ (not_carriesKey (by simp [hreads₁, hreads]))
      exact ⟨valid.branch, master, found, "", .null, hcontrib.notMaster, _,
        by rw [hreads₁, hreads]; rfl⟩
    · exact hquiet s₁ commit hwrites₁ hreads₁ (htext _)
  obtain ⟨commit, hreads₁, htext⟩ := hreads₁
  have htext : (commitText commit).map searchTrailer = .ok key := htext
  by_cases hsame : key = some valid.idempotencyKey
  · simp only [ne_eq, hsame, not_true_eq_false, if_false]
    refine Process.wp_bind (Process.wp_assign.mpr (World.later_history.mpr ?_))
    refine Process.wp_pure.mpr (World.later_history.mpr ?_)
    refine Process.wp_bind (Process.wp_mono wp_openPull_trace ?_)
    rintro r trail₂ s₂ - ⟨u, ⟨more, hmore, hrefs⟩, hw⟩
    have hfinal : WriteSurface tables args s₂ := by
      refine .of_replay hvalid (by rw [hmore, hreads₁, hreads]; rfl) hrefs hhead ?_
        (by rw [hw, hwrites₁, hwrites]; rfl)
      obtain ⟨message, hmessage, htrailer⟩ := map_eq_ok.mp htext
      exact ⟨message, commitText_eq_ok hmessage, htrailer.trans hsame⟩
    cases r with
    | error e => exact World.later_history.mpr hfinal
    | ok pull => exact Process.wp_pure.mpr (World.later_history.mpr hfinal)
  · simp only [ne_eq, hsame, not_false_eq_true, if_true]
    refine Process.wp_raise.mpr (World.later_history.mpr (World.later_history.mpr ?_))
    refine hquiet s₁ commit hwrites₁ hreads₁ fun h => hsame ?_
    rw [htext] at h
    exact Except.ok.inj h

end Publish

/-- The writes of the procedure are in the surface. -/
theorem wp_body_trace (tables : CaseTables) (args : Args) (trail : Trail Locals) :
    (body tables args).wp World.history () (fun _ _ s => WriteSurface tables args s) trail [] := by
  have hempty : WriteSurface tables args [] :=
    .of_quiet rfl ⟨"", .null, .null, "", .null, by decide, List.nil_prefix⟩
      (not_carriesKey (by simp [reads]))
  refine wp_lift_bind_trace (fun _ _ => hempty) fun valid hvalid => ?_
  refine Process.wp_bind (Process.wp_assign.mpr (World.later_history.mpr ?_))
  refine wp_lift_bind_trace (fun _ _ => hempty) fun _ _ => ?_
  obtain ⟨hbranch, -⟩ := validate_eq_ok hvalid
  obtain ⟨hargs, hcontrib⟩ := validateBranch_eq_ok hbranch
  have hne := hcontrib.notMaster
  refine Process.wp_bind (Process.wp_mono wp_baseCommit_trace ?_)
  rintro (e | base) trail₁ s₁ - ⟨hwrites₁, hreads₁⟩
  · refine World.later_history.mpr (.of_quiet hwrites₁ ?_ (not_carriesKey ?_))
    · rcases hreads₁ with hreads₁ | ⟨master, hreads₁, -⟩
      · exact ⟨valid.branch, .null, .null, "", .null, hne, hreads₁ ▸ List.nil_prefix⟩
      · exact ⟨valid.branch, master, .null, "", .null, hne, _, by rw [hreads₁]; rfl⟩
    · rcases hreads₁ with hreads₁ | ⟨master, hreads₁, -⟩ <;> simp [hreads₁]
  obtain ⟨master, hreads₁, hbase⟩ := hreads₁
  refine Process.wp_bind (Process.wp_assign.mpr (World.later_history.mpr ?_))
  refine Process.wp_bind (Process.wp_mono wp_existingBranchHead_trace ?_)
  rintro (e | existing) trail₂ s₂ - hexisting
  · obtain ⟨hwrites₂, hreads₂⟩ := hexisting
    refine World.later_history.mpr (.of_quiet (hwrites₂.trans hwrites₁) ?_ (not_carriesKey ?_))
    · rcases hreads₂ with hreads₂ | ⟨found, hreads₂, -⟩
      · exact ⟨valid.branch, master, .null, "", .null, hne, _, by rw [hreads₂, hreads₁]; rfl⟩
      · exact ⟨valid.branch, master, found, "", .null, hne, _, by rw [hreads₂, hreads₁]; rfl⟩
    · rcases hreads₂ with hreads₂ | ⟨found, hreads₂, -⟩ <;> simp [hreads₂, hreads₁]
  cases existing with
  | none =>
    exact wp_publish_new_trace hvalid (hexisting.2.trans hwrites₁)
      (hexisting.1.trans hreads₁) hbase
  | some head =>
    obtain ⟨hwrites₂, found, hreads₂, hhead⟩ := hexisting
    exact wp_publish_existing_trace hvalid (hwrites₂.trans hwrites₁)
      (by rw [hreads₂, hreads₁]; rfl) hhead

/-- **Write surface.** Whatever the arguments are, whatever GitHub replies to each request
and whatever becomes of the audit record, a call of `open_pr` stays in its write
surface. -/
theorem open_pr_writeSurface (tables : CaseTables) (args : Args) (io : Option AppendIo)
    (replies : ℕ → Reply) :
    WriteSurface tables args ((openPr tables args io).run replies).1 := by
  have hwp : (openPr tables args io).wp World.history ()
      (fun _ s => WriteSurface tables args s) [] :=
    Program.wp_bind (Program.wp_mono (wp_body_trace tables args ⟨[], {}⟩)
      fun _ _ _ h => World.later_history.mpr h)
  exact Program.wp_run hwp replies

end ContributorGateway.OpenPr
