import ContributorGateway.Core.SimulatedStore
import ContributorGateway.Foundation.RelatedRuns

/-!
# What the audit record of a call shows

Two calls of `open_pr` that differ only in the texts of their files, of equal length, and in
the write token take every reply of GitHub alike. They audit the same record.
-/

namespace ContributorGateway.OpenPr

open Process (Results)

/-! ## Calls that differ in secrets -/

/-- The attributes are the same, but for a content text of the same length. -/
def SameEntry (entry entry' : String × PyValue) : Prop :=
  entry = entry' ∨ ∃ s s', entry = ("content", .str s) ∧ entry' = ("content", .str s') ∧
    s.length = s'.length

/-- The proposed files are the same, but for content texts of the same length. -/
inductive SameFile : PyValue → PyValue → Prop
  | same (value : PyValue) : SameFile value value
  | dict {entries entries' : List (String × PyValue)} (h : List.Forall₂ SameEntry entries entries') :
      SameFile (.dict entries) (.dict entries')
  | object {attributes attributes' : List (String × PyValue)} (cls : String)
      (h : List.Forall₂ SameEntry attributes attributes') :
      SameFile (.object cls attributes) (.object cls attributes')

/-- The `files` arguments are the same, but for content texts of the same length. -/
inductive SameFiles : PyValue → PyValue → Prop
  | same (value : PyValue) : SameFiles value value
  | list {items items' : List PyValue} (h : List.Forall₂ SameFile items items') :
      SameFiles (.list items) (.list items')

/-- Loading gives the same outcome, or two tokens. -/
inductive SameLoad : LoadedToken → LoadedToken → Prop
  | same (loaded : LoadedToken) : SameLoad loaded loaded
  | tokens {text text' : String} (h : text ≠ "") (h' : text' ≠ "") :
      SameLoad (.token text) (.token text')

/-- The calls agree but for file contents of equal length and the write token. -/
structure SameButSecrets (a a' : Args) : Prop where
  branch : a.branch = a'.branch
  title : a.title = a'.title
  body : a.body = a'.body
  files : SameFiles a.files a'.files
  idempotencyKey : a.idempotencyKey = a'.idempotencyKey
  callerIdentity : a.callerIdentity = a'.callerIdentity
  expectedBaseCommit : a.expectedBaseCommit = a'.expectedBaseCommit
  now : a.now = a'.now
  token : SameLoad a.token a'.token

/-! ## Validation -/

/-- A content of a file and its counterpart. -/
def SameContent (value value' : PyValue) : Prop :=
  value = value' ∨ ∃ s s', value = .str s ∧ value' = .str s' ∧ s.length = s'.length

/-- Validated files with the same paths and lengths. -/
def SameProposed : List ProposedFile → List ProposedFile → Prop :=
  List.Forall₂ fun file file' => file.path = file'.path ∧
    file.content.length = file'.content.length

/-- Validated arguments that agree but for the contents of the files. -/
structure SameValid (v v' : ValidArgs) : Prop where
  branch : v.branch = v'.branch
  title : v.title = v'.title
  body : v.body = v'.body
  files : SameProposed v.files v'.files
  idempotencyKey : v.idempotencyKey = v'.idempotencyKey
  expectedBaseCommit : v.expectedBaseCommit = v'.expectedBaseCommit

/-- Attributes are looked up alike, but for content texts. -/
theorem get_same {entries entries' : List (String × PyValue)}
    (h : List.Forall₂ SameEntry entries entries') (key : String) :
    PyValue.get key entries = PyValue.get key entries' ∨
      key = "content" ∧ SameContent (PyValue.get key entries) (PyValue.get key entries') := by
  unfold PyValue.get
  induction h with
  | nil => exact .inl rfl
  | @cons entry entry' entries entries' hentry _ ih =>
    rcases hentry with rfl | ⟨s, s', rfl, rfl, hlength⟩
    · rw [List.lookup_cons, List.lookup_cons]
      cases key == entry.1 with
      | true => exact .inl rfl
      | false => exact ih
    · rw [List.lookup_cons, List.lookup_cons]
      cases hkey : key == "content" with
      | true => exact .inr ⟨by simpa using hkey, .inr ⟨s, s', rfl, rfl, hlength⟩⟩
      | false => exact ih

/-- The content is looked up alike, but for a text of the same length. -/
theorem get_content {entries entries' : List (String × PyValue)}
    (h : List.Forall₂ SameEntry entries entries') :
    SameContent (PyValue.get "content" entries) (PyValue.get "content" entries') := by
  rcases get_same h "content" with hsame | ⟨-, hsame⟩
  · exact .inl hsame
  · exact hsame

/-- The path is looked up alike. -/
theorem get_path {entries entries' : List (String × PyValue)}
    (h : List.Forall₂ SameEntry entries entries') :
    PyValue.get "path" entries = PyValue.get "path" entries' := by
  rcases get_same h "path" with hsame | ⟨hkey, -⟩
  · exact hsame
  · exact absurd hkey (by decide)

/-- Two entries give the same path, and contents that are the same or as long. -/
theorem fileEntry_same {entry entry' : PyValue} (h : SameFile entry entry') :
    Results (fun e e' => e.1 = e'.1 ∧ SameContent e.2 e'.2) (fileEntry entry)
      (fileEntry entry') := by
  cases h with
  | same value => exact Results.refl (fun e => ⟨rfl, .inl rfl⟩) _
  | dict h => exact ⟨get_path h, get_content h⟩
  | object cls h =>
    by_cases hcls : cls = "ProposedFile"
    · subst hcls
      exact ⟨get_path h, get_content h⟩
    · have hrefused : ∀ attributes, fileEntry (.object cls attributes) =
          refuse "every file entry must provide path and content" := by
        intro attributes
        simp [fileEntry, hcls]
      rw [hrefused, hrefused]
      exact rfl

/-- Files are like themselves. -/
theorem SameProposed.refl (files : List ProposedFile) : SameProposed files files :=
  List.forall₂_same.mpr fun _ _ => ⟨rfl, rfl⟩

/-- The loop over the files takes the same course. -/
theorem filesFrom_same {items items' : List PyValue} (h : List.Forall₂ SameFile items items')
    (seen : List String) (total : ℕ) :
    Results SameProposed (filesFrom seen total items) (filesFrom seen total items') := by
  induction h generalizing seen total with
  | nil => exact List.Forall₂.nil
  | @cons entry entry' items items' hentry _ ih =>
    rw [filesFrom, filesFrom]
    refine Results.bind (fileEntry_same hentry) ?_
    rintro ⟨path, content⟩ ⟨_, content'⟩ ⟨rfl, hcontent⟩
    refine Results.bind (Results.refl (fun _ => rfl) (validatePath path)) ?_
    rintro path _ rfl
    split_ifs with hseen
    · exact rfl
    · rcases hcontent with rfl | ⟨s, s', rfl, rfl, hlength⟩
      · cases content with
        | str s =>
          dsimp only
          split_ifs
          · exact rfl
          · exact rfl
          · refine Results.bind (ih (path :: seen) (total + s.length)) ?_
            intro files files' hfiles
            exact List.Forall₂.cons ⟨rfl, rfl⟩ hfiles
        | _ => exact rfl
      · dsimp only
        rw [← hlength]
        split_ifs
        · exact rfl
        · exact rfl
        · refine Results.bind (ih (path :: seen) (total + s.length)) ?_
          intro files files' hfiles
          exact List.Forall₂.cons ⟨rfl, hlength⟩ hfiles

/-- The files are validated alike. -/
theorem validateFiles_same {files files' : PyValue} (h : SameFiles files files') :
    Results SameProposed (validateFiles files) (validateFiles files') := by
  cases h with
  | same value => exact Results.refl SameProposed.refl _
  | list h =>
    rename_i items items'
    have hempty : items.isEmpty = items'.isEmpty := by
      cases h with
      | nil => rfl
      | cons _ _ => rfl
    unfold validateFiles
    dsimp only
    rw [hempty, h.length_eq]
    split_ifs
    · exact rfl
    · exact filesFrom_same h [] 0

/-- The arguments are validated alike. -/
theorem validate_same {a a' : Args} (h : SameButSecrets a a') :
    Results SameValid (validate a) (validate a') := by
  unfold validate
  rw [h.branch, h.title, h.body, h.idempotencyKey, h.expectedBaseCommit]
  refine Results.bind (Results.refl (fun _ => rfl) _) fun branch _ hbranch => ?_
  refine Results.bind (Results.refl (fun _ => rfl) _) fun title _ htitle => ?_
  refine Results.bind (Results.refl (fun _ => rfl) _) fun body _ hbody => ?_
  refine Results.bind (validateFiles_same h.files) fun files files' hfiles => ?_
  refine Results.bind (Results.refl (fun _ => rfl) _) fun key _ hkey => ?_
  refine Results.bind (Results.refl (fun _ => rfl) _) fun expected _ hexpected => ?_
  exact ⟨hbranch, htitle, hbody, hfiles, hkey, hexpected⟩

/-- The audit record shows only paths and lengths of the files. -/
theorem auditFiles_same {files files' : List ProposedFile} (h : SameProposed files files') :
    auditFiles files = auditFiles files' := by
  induction h with
  | nil => rfl
  | cons hfile _ ih =>
    rw [auditFiles, List.map_cons, hfile.1, hfile.2, ← auditFiles, ih]
    rfl

/-- Loading either token begins a session, or fails alike. -/
theorem beginSession_same {loaded loaded' : LoadedToken} (h : SameLoad loaded loaded') :
    beginSession loaded = beginSession loaded' := by
  cases h with
  | same => rfl
  | tokens h h' => simp [beginSession, h, h']

/-! ## The procedure -/

section Procedure

variable (tables : CaseTables)

/-- Mutating requests with different bodies are sent in lockstep. -/
theorem send_lockstep (request request' : GitHubRequest) (handled : List ℕ) :
    Process.Lockstep Eq (send request handled : Session Locals (ℕ × Json))
      (send request' handled) := by
  unfold send
  refine (Process.Lockstep.ask request request').bind ?_
  rintro reply _ rfl
  exact .refl _

/-- The commit is created in lockstep: only the body of one request differs. -/
theorem createCommit_lockstep (base title callerIdentity key : String)
    (files files' : List ProposedFile) :
    Process.Lockstep Eq (createCommit tables base files title callerIdentity key)
      (createCommit tables base files' title callerIdentity key) := by
  unfold createCommit
  refine Process.Lockstep.bind_same _ fun payload => ?_
  refine Process.Lockstep.bind_same _ fun tree => ?_
  refine Process.Lockstep.bind_same _ fun baseTree => ?_
  refine (send_lockstep _ _ []).bind ?_
  rintro value _ rfl
  exact .refl _

/-- The branch is ensured in lockstep. -/
theorem ensureBranch_lockstep {v v' : ValidArgs} (h : SameValid v v')
    (callerIdentity base : String) (existing : Option String) :
    Process.Lockstep Eq (ensureBranch tables v callerIdentity base existing)
      (ensureBranch tables v' callerIdentity base existing) := by
  unfold ensureBranch
  rw [h.branch, h.title, h.idempotencyKey, h.expectedBaseCommit]
  cases existing with
  | some head => exact .refl _
  | none =>
    dsimp only
    split_ifs
    · exact .refl _
    · refine (createCommit_lockstep tables base _ _ _ _ _).bind ?_
      rintro head _ rfl
      exact .refl _

/-- The `try` block runs in lockstep. -/
theorem body_lockstep {a a' : Args} (h : SameButSecrets a a') :
    Process.Lockstep Eq (OpenPr.body tables a) (OpenPr.body tables a') := by
  unfold OpenPr.body
  refine (Process.Lockstep.lift (validate_same h)).bind fun v v' hv => ?_
  rw [auditFiles_same hv.files, beginSession_same h.token, hv.branch]
  refine Process.Lockstep.bind_same _ fun _ => ?_
  refine Process.Lockstep.bind_same _ fun _ => ?_
  refine Process.Lockstep.bind_same _ fun base => ?_
  refine Process.Lockstep.bind_same _ fun _ => ?_
  refine Process.Lockstep.bind_same _ fun existing => ?_
  unfold publish
  rw [h.callerIdentity, h.now]
  refine (ensureBranch_lockstep tables hv _ base existing).bind ?_
  rintro ⟨head, created⟩ _ rfl
  rw [hv.branch, hv.title, hv.body]
  exact .refl _

end Procedure

/-- The end of the calls is the same: what is returned or raised, the audit record, and what
reaches the audit log. -/
theorem openPr_same (tables : CaseTables) {a a' : Args} (h : SameButSecrets a a')
    (io : Option AppendIo) (replies : ℕ → Reply) :
    ((openPr tables a io).run replies).2 = ((openPr tables a' io).run replies).2 := by
  obtain ⟨htrail, hresult⟩ := (body_lockstep tables h ⟨[], {}⟩).run replies
  have hresult' := Results.eq hresult
  rw [openPr, openPr, Program.run_bind_done, Program.run_bind_done]
  dsimp only
  rw [htrail, hresult']
  have hrecord : ∀ trail result, auditRecord a trail result = auditRecord a' trail result := by
    intro trail result
    unfold auditRecord
    rw [h.now, h.callerIdentity, h.branch, h.title, h.body,
      h.idempotencyKey, h.expectedBaseCommit]
  rw [conclude, conclude, hrecord]

/-- **The audit record reveals nothing of contents or credentials.** Two calls whose arguments
agree but for file contents of equal length, with any two tokens, at the same time and with
the same replies of GitHub, audit the same record. -/
theorem open_pr_audit_secret (tables : CaseTables) {a a' : Args} (h : SameButSecrets a a')
    (io : Option AppendIo) (replies : ℕ → Reply) :
    ((openPr tables a io).run replies).2.record = ((openPr tables a' io).run replies).2.record ∧
      ((openPr tables a io).run replies).2.audited =
        ((openPr tables a' io).run replies).2.audited := by
  rw [openPr_same tables h]
  exact ⟨rfl, rfl⟩

/-- The sample call with another text and another token. -/
def otherNotesArgs : Args :=
  { notesArgs with
    files := .list [.dict [("path", .str "notes.md"), ("content", .str "door")]]
    token := .token "u" }

/-- The replies of GitHub to a call that creates its branch. -/
def createReplies (n : ℕ) : Reply :=
  [okReply (.obj [("object", .obj [("sha", .str "c0")])]),
    statusReply 404,
    okReply (.obj [("tree", .obj [("sha", .str "t0")])]),
    okReply (.obj [("sha", .str "t1")]),
    okReply (.obj [("sha", .str "c1")]),
    okReply (.obj []),
    okReply (.obj [("number", .int 7), ("html_url", .str "https://github.com/pull/7")])].getD n
      .requestError

/-- The sample calls differ only in secrets. -/
theorem notesArgs_sameButSecrets : SameButSecrets notesArgs otherNotesArgs where
  branch := rfl
  title := rfl
  body := rfl
  files := .list (.cons (.dict (.cons (.inl rfl)
    (.cons (.inr ⟨"lift", "door", rfl, rfl, rfl⟩) .nil))) .nil)
  idempotencyKey := rfl
  callerIdentity := rfl
  expectedBaseCommit := rfl
  now := rfl
  token := .tokens (by decide) (by decide)

/-- Both sample calls open the pull request, and audit the same record. -/
theorem notes_audit_secret :
    ((openPr asciiTables notesArgs (some .reliable)).run createReplies).2.result.isOk = true ∧
      ((openPr asciiTables notesArgs (some .reliable)).run createReplies).2.record =
        ((openPr asciiTables otherNotesArgs (some .reliable)).run createReplies).2.record ∧
      ((openPr asciiTables notesArgs (some .reliable)).run createReplies).2.audited =
        ((openPr asciiTables otherNotesArgs (some .reliable)).run createReplies).2.audited :=
  ⟨by decide +kernel, open_pr_audit_secret asciiTables notesArgs_sameButSecrets _ createReplies⟩

end ContributorGateway.OpenPr
