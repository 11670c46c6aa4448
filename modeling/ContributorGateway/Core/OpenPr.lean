import ContributorGateway.Collaboration.Arguments
import ContributorGateway.Collaboration.Audit
import ContributorGateway.Collaboration.GitHub
import ContributorGateway.Core.Timestamp

/-!
# Opening pull requests

`OpenPrService` checks the arguments of a call, creates or recognizes the branch, opens
or finds the pull request and audits the outcome. This file is the service as the code
computes it.
-/

namespace ContributorGateway.OpenPr

/-- `PROTECTED_BASE_BRANCH`. -/
def protectedBaseBranch : String := "master"

/-- `BRANCH_PREFIX`. -/
def branchPrefix : String := "contrib/"

/-- `MAX_FILES`. -/
def maxFiles : ℕ := 32

/-- `MAX_FILE_CHARS`. -/
def maxFileChars : ℕ := 200000

/-- `MAX_TOTAL_CHARS`. -/
def maxTotalChars : ℕ := 1000000

/-- `MAX_PATH_CHARS`. -/
def maxPathChars : ℕ := 300

/-- `ProposedFile`. -/
structure ProposedFile where
  path : String
  content : String
  deriving DecidableEq

/-- `OpenedPr`. -/
structure OpenedPr where
  repository : String
  baseRef : String
  baseCommit : String
  branch : String
  headCommit : String
  prNumber : ℤ
  prUrl : String
  createdBranch : Bool
  replayed : Bool
  openedAt : String
  deriving DecidableEq

/-! ## Arguments -/

/-- A refusal of an argument. -/
def refuse {α : Type} (message : String) : Except Raised α :=
  .error (.collaboration (badArgs message))

/-- The class `[a-z0-9]`. -/
def isLowerAlnum (c : Char) : Bool := ('a' ≤ c && c ≤ 'z') || ('0' ≤ c && c ≤ '9')

/-- `_BRANCH`. -/
def isBranch (s : String) : Bool :=
  branchPrefix.toList.isPrefixOf s.toList &&
    match s.toList.drop branchPrefix.length with
    | [] => false
    | c :: rest =>
        isLowerAlnum c && rest.length ≤ 80 &&
          rest.all fun d => isLowerAlnum d || d == '.' || d == '_' || d == '-'

/-- `str.endswith`. -/
def endsWith (s suffix : String) : Bool := suffix.toList.isSuffixOf s.toList

/-- `_validate_branch`. -/
def validateBranch : PyValue → Except Raised String
  | .str s =>
      if ¬ isBranch s then
        refuse ("branch must match contrib/<name> using lowercase letters, digits, " ++
          "dot, underscore, or hyphen")
      else if contains s ".." || endsWith s ".lock" || endsWith s "." then
        refuse "branch is not a valid git ref name"
      else .ok s
  | _ =>
      refuse ("branch must match contrib/<name> using lowercase letters, digits, " ++
        "dot, underscore, or hyphen")

/-- The titles that `_validate_title` accepts. -/
def isTitle (s : String) : Bool :=
  !s.isEmpty && s.length ≤ 120 && s == strip s && !s.toList.any isControl

/-- `_validate_title`. -/
def validateTitle : PyValue → Except Raised String :=
  checkedStr isTitle "title must be 1..120 printable characters"

/-- `_validate_body`. -/
def validateBody : PyValue → Except Raised String
  | .str s =>
      if 10000 < s.length then refuse "body must be at most 10000 characters"
      else if (s.toList.filter fun c => c != '\n' && c != '\t').any isControl then
        refuse "body contains forbidden control characters"
      else .ok s
  | _ => refuse "body must be at most 10000 characters"

/-- `_validate_idempotency_key`. -/
def validateIdempotencyKey : PyValue → Except Raised String := checkedKey

/-- `_COMMIT_SHA`. -/
def isCommitSha (s : String) : Bool :=
  matchesClass (fun c => ('0' ≤ c && c ≤ '9') || ('a' ≤ c && c ≤ 'f')) 40 40 s

/-- `_validate_expected_base_commit`. -/
def validateExpectedBaseCommit : PyValue → Except Raised (Option String)
  | .none => .ok none
  | value =>
      (checkedStr isCommitSha "expected_base_commit must be a lowercase 40-character SHA"
        value).map some

/-- `_validate_path`. -/
def validatePath : PyValue → Except Raised String
  | .str s =>
      if s.isEmpty || maxPathChars < s.length then
        refuse "every file path must be 1..300 characters"
      else if s.toList.any isControl || s.toList.contains '\\' then
        refuse "file paths must not contain control characters or backslashes"
      else if s.toList.head? = some '/' ∨ s.toList.getLast? = some '/' then
        refuse "file paths must be repository-relative"
      else if (s.toList.splitOn '/').any fun segment =>
          segment == [] || segment == ['.'] || segment == ['.', '.'] then
        refuse "file paths must not contain empty or dot segments"
      else if s == ".git" || s == ".github/workflows" ||
          ".git/".toList.isPrefixOf s.toList ||
          ".github/workflows/".toList.isPrefixOf s.toList then
        refuse "file paths may not modify .git or workflow definitions"
      else .ok s
  | _ => refuse "every file path must be 1..300 characters"

/-- The path and the content of an entry. -/
def fileEntry : PyValue → Except Raised (PyValue × PyValue)
  | .object "ProposedFile" attributes =>
      .ok (PyValue.get "path" attributes, PyValue.get "content" attributes)
  | .dict entries => .ok (PyValue.get "path" entries, PyValue.get "content" entries)
  | _ => refuse "every file entry must provide path and content"

/-- The loop of `_validate_files`, with the paths seen and the characters counted. -/
def filesFrom (seen : List String) (total : ℕ) :
    List PyValue → Except Raised (List ProposedFile)
  | [] => .ok []
  | entry :: rest => do
      let (path, content) ← fileEntry entry
      let path ← validatePath path
      if path ∈ seen then refuse "duplicate file path"
      else
        match content with
        | .str content =>
            if maxFileChars < content.length then
              refuse "file content is limited to 200000 characters"
            else if maxTotalChars < total + content.length then
              refuse "combined file content is limited to 1000000 characters"
            else do
              let files ← filesFrom (path :: seen) (total + content.length) rest
              .ok (⟨path, content⟩ :: files)
        | _ => refuse "every file content must be UTF-8 text"

/-- `_validate_files`. -/
def validateFiles : PyValue → Except Raised (List ProposedFile)
  | .list items =>
      if items.isEmpty || maxFiles < items.length then refuse "files must contain 1..32 entries"
      else filesFrom [] 0 items
  | _ => refuse "files must contain 1..32 entries"

/-! ## The commit message -/

/-- The message of the commit that `_create_commit` creates. -/
def commitMessage (title callerIdentity idempotencyKey : String) : String :=
  title ++ "\n\n" ++ "Proposed-by: " ++ callerIdentity ++ "\n" ++
    "Idempotency-Key: " ++ idempotencyKey ++ "\n"

/-- The key of a line that is a trailer. -/
def trailerKey (line : List Char) : Option String :=
  if "Idempotency-Key: ".toList.isPrefixOf line then
    let key := String.ofList (line.drop "Idempotency-Key: ".length)
    if isIdempotencyKey key then some key else none
  else none

/-- The first match of `_IDEMPOTENCY_TRAILER` in a message: the pattern spans exactly one
line. -/
def searchTrailer (message : String) : Option String :=
  (message.toList.splitOn '\n').findSome? trailerKey

/-! ## Steps of the service -/

/-- The local variables of `open_pr` that the audit record shows. -/
structure Locals where
  auditFiles : List Json := []
  baseCommit : Option String := none
  headCommit : Option String := none

section Steps

variable (tables : CaseTables)

/-- The commit of a ref. -/
def refCommit (payload : Json) : Except Raised String := do
  let object ← requireDict (payload.get "object")
  let sha ← requireString (object.get "sha")
  .ok (tables.lower sha)

/-- `_base_commit`. -/
def baseCommit : Session Locals String := do
  let payload ← get tables (.branchRef protectedBaseBranch)
  .lift (refCommit tables payload)

/-- The handler of `_existing_branch_head`: what GitHub does not know is absent. -/
def absentIfNotFound : Raised → Except Raised (Option Json)
  | .collaboration error =>
      if error.code = .notFound then .ok none else .error (.collaboration error)
  | e => .error e

/-- `_existing_branch_head`. -/
def existingBranchHead (branch : String) : Session Locals (Option String) := do
  let found ← (some <$> get tables (.branchRef branch)).recover fun e => .lift (absentIfNotFound e)
  match found with
  | none => pure none
  | some payload => .lift ((refCommit tables payload).map some)

/-- The message of a commit. -/
def commitText (payload : Json) : Except Raised String :=
  match payload.get "message" with
  | some (.str message) => .ok message
  | _ => .error (.collaboration upstreamUnavailable)

/-- `_head_idempotency_key`. -/
def headIdempotencyKey (commit : String) : Session Locals (Option String) := do
  let payload ← get tables (.gitCommit commit)
  .lift ((commitText payload).map searchTrailer)

/-- The body of the request for a tree. -/
def treeBody (baseTree : String) (files : List ProposedFile) : Json :=
  .obj [
    ("base_tree", .str baseTree),
    ("tree", .arr (files.map fun file => .obj [
      ("path", .str file.path),
      ("mode", .str "100644"),
      ("type", .str "blob"),
      ("content", .str file.content)]))]

/-- The body of the request for a commit. -/
def commitBody (message tree baseCommit : String) : Json :=
  .obj [("message", .str message), ("tree", .str tree), ("parents", .arr [.str baseCommit])]

/-- The body of the request for a ref. -/
def refBody (ref commit : String) : Json := .obj [("ref", .str ref), ("sha", .str commit)]

/-- The body of the request for a pull request. -/
def pullBody (title body branch : String) : Json :=
  .obj [
    ("title", .str title),
    ("body", .str body),
    ("head", .str branch),
    ("base", .str protectedBaseBranch),
    ("maintainer_can_modify", .bool true),
    ("draft", .bool false)]

/-- `_create_commit`. -/
def createCommit (base : String) (files : List ProposedFile)
    (title callerIdentity idempotencyKey : String) : Session Locals String := do
  let payload ← get tables (.gitCommit base)
  let tree ← .lift (requireDict (payload.get "tree"))
  let baseTree ← .lift (requireString (tree.get "sha"))
  let (_, treePayload) ← send (.postTree (treeBody baseTree files))
  let treeSha ← .lift (requireString (treePayload.get "sha"))
  let (_, commitPayload) ← send
    (.postCommit (commitBody (commitMessage title callerIdentity idempotencyKey) treeSha base))
  let sha ← .lift (requireString (commitPayload.get "sha"))
  pure (tables.lower sha)

/-- `_create_branch`. -/
def createBranch (branch commit : String) : Session Locals Unit := do
  let ref := "refs/heads/" ++ branch
  if ¬ ("refs/heads/" ++ branchPrefix).toList.isPrefixOf ref.toList then
    .raise (.collaboration (badArgs "only contrib/ branches may be written"))
  else
    let _ ← send (.postRef (refBody ref commit))
    pure ()

/-- The owner of the repository. -/
def repositoryOwner : String := String.ofList (expectedRepository.toList.takeWhile (· ≠ '/'))

/-- `_find_open_pr`. -/
def findOpenPr (branch : String) : Session Locals (Option (ℤ × String)) := do
  let items ← getList tables (.pulls (repositoryOwner ++ ":" ++ branch) protectedBaseBranch)
  match items with
  | .arr (raw :: _) => do
      let item ← .lift (requireDict (some raw))
      let number ← .lift (requireInt (item.get "number"))
      let url ← .lift (requireString (item.get "html_url"))
      pure (some (number, url))
  | _ => pure none

/-- `_open_pr`. -/
def openPull (branch title body : String) : Session Locals (ℤ × String) := do
  let (status, payload) ← send (.postPull (pullBody title body branch)) [422]
  if status = 422 then
    let existing ← findOpenPr tables branch
    match existing with
    | none => .raise (.collaboration upstreamUnavailable)
    | some pull => pure pull
  else
    let number ← .lift (requireInt (payload.get "number"))
    let url ← .lift (requireString (payload.get "html_url"))
    pure (number, url)

end Steps

/-! ## The tool -/

/-- The arguments of `open_pr`, with the clock reading and what loading the token gives. -/
structure Args where
  branch : PyValue
  title : PyValue
  body : PyValue
  files : PyValue
  idempotencyKey : PyValue
  callerIdentity : String
  expectedBaseCommit : PyValue
  now : Instant
  token : LoadedToken

/-- The arguments after validation. -/
structure ValidArgs where
  branch : String
  title : String
  body : String
  files : List ProposedFile
  idempotencyKey : String
  expectedBaseCommit : Option String

/-- The validations, in their order. -/
def validate (args : Args) : Except Raised ValidArgs := do
  let branch ← validateBranch args.branch
  let title ← validateTitle args.title
  let body ← validateBody args.body
  let files ← validateFiles args.files
  let key ← validateIdempotencyKey args.idempotencyKey
  let expected ← validateExpectedBaseCommit args.expectedBaseCommit
  .ok ⟨branch, title, body, files, key, expected⟩

/-- The entries of the audit record about files. -/
def auditFiles (files : List ProposedFile) : List Json :=
  files.map fun file => .obj [("path", .str file.path), ("chars", .int file.content.length)]

section Tool

variable (tables : CaseTables)

/-- The branch of a call and whether this call creates it. -/
def ensureBranch (valid : ValidArgs) (callerIdentity base : String) (existing : Option String) :
    Session Locals (String × Bool) :=
  match existing with
  | some head => do
      let key ← headIdempotencyKey tables head
      if key ≠ some valid.idempotencyKey then
        .raise (.collaboration (conflict ("branch already exists with different proposed work; " ++
          "choose a new contrib/ branch name")))
      else
        .assign fun trail => { trail with locals := { trail.locals with headCommit := some head } }
        pure (head, false)
  | none =>
      if valid.expectedBaseCommit.isSome ∧ valid.expectedBaseCommit ≠ some base then
        .raise (.collaboration (conflict ("master advanced beyond expected_base_commit; refresh " ++
          "the snapshot and retry on a new contrib/ branch")))
      else do
        let head ← createCommit tables base valid.files valid.title callerIdentity
          valid.idempotencyKey
        .assign fun trail => { trail with locals := { trail.locals with headCommit := some head } }
        createBranch valid.branch head
        pure (head, true)

/-- The `try` block of `open_pr` once the branch was looked for. -/
def publish (args : Args) (valid : ValidArgs) (base : String) (existing : Option String) :
    Session Locals OpenedPr := do
  let (head, created) ← ensureBranch tables valid args.callerIdentity base existing
  let (number, url) ← openPull tables valid.branch valid.title valid.body
  pure
    { repository := expectedRepository
      baseRef := "refs/heads/" ++ protectedBaseBranch
      baseCommit := base
      branch := valid.branch
      headCommit := head
      prNumber := number
      prUrl := url
      createdBranch := created
      replayed := !created
      openedAt := timestamp args.now }

/-- The `try` block of `open_pr`. -/
def body (args : Args) : Session Locals OpenedPr := do
  let valid ← .lift (validate args)
  .assign fun trail =>
    { trail with locals := { trail.locals with auditFiles := auditFiles valid.files } }
  .lift (beginSession args.token)
  let base ← baseCommit tables
  .assign fun trail => { trail with locals := { trail.locals with baseCommit := some base } }
  let existing ← existingBranchHead tables valid.branch
  publish tables args valid base existing

/-- An optional string as JSON. -/
def optStr (value : Option String) : Json := value.elim .null .str

/-- The audit record of `open_pr`. -/
def auditRecord (args : Args) (trail : Trail Locals)
    (result : Except CollaborationError OpenedPr) : Json :=
  .obj [
    ("timestamp", .str (timestamp args.now)),
    ("caller_identity", .str args.callerIdentity),
    ("tool", .str "open_pr"),
    ("args", .obj [
      ("branch", optStr args.branch.asStr),
      ("title", optStr args.title.asStr),
      ("body_chars", args.body.asStr.elim .null fun s => .int s.length),
      ("files", .arr trail.locals.auditFiles),
      ("idempotency_key", optStr args.idempotencyKey.asStr),
      ("expected_base_commit", optStr args.expectedBaseCommit.asStr)]),
    ("base_commit", optStr trail.locals.baseCommit),
    ("head_commit", optStr trail.locals.headCommit),
    ("pr_number", match result with
      | .ok opened => .int opened.prNumber
      | .error _ => .null),
    ("outcome", .str (match result with
      | .ok opened => if opened.replayed then "replayed" else "opened"
      | .error e => e.code.text)),
    ("github_api_status", .arr (trail.statuses.map fun status => .int status))]

/-- The end of a call: what it returns or raises, the record it audits and the bytes that
reach the audit log. -/
structure Outcome where
  result : Except CollaborationError OpenedPr
  record : Json
  audited : List UInt8

/-- The part of `open_pr` after the `try` block. -/
def conclude (args : Args) (io : Option AppendIo) (result : Except Raised OpenedPr)
    (trail : Trail Locals) : Outcome :=
  let result := result.mapError Raised.toError
  let record := auditRecord args trail result
  let appended := append io record
  match appended.1 with
  | .ok () => ⟨result, record, appended.2⟩
  | .error _ => ⟨.error upstreamUnavailable, record, appended.2⟩

/-- `OpenPrService.open_pr`. -/
def openPr (args : Args) (io : Option AppendIo) : Program GitHubRequest Reply Outcome :=
  body tables args ⟨[], {}⟩ >>= fun r => .done (conclude args io r.1 r.2)

end Tool

end ContributorGateway.OpenPr
